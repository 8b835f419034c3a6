import Rns.LinkManager.Dispatch

/-!
# The link manager: what stays the same

Frame lemmas: which fields of a link a handler writes, and what its output depends on.
-/

namespace Rns

open PacketContext (lrRtt linkIdentify keepalive linkClose channel request response resourceAdv
  resourceReq resourceHmu resource resourcePrf resourceIcl resourceRcl)

/-! ## Offers -/

section Offer

variable {α : Type*} {skip : α → Bool} {handle : α → α × List ResourceAction} {x : α} {xs : List α}

def offerOne (skip : α → Bool) (handle : α → α × List ResourceAction) (x : α) :
    α × List ResourceAction :=
  if skip x then (x, []) else handle x

theorem offer_cons_silent (h : (offerOne skip handle x).2 = []) :
    offer skip handle (x :: xs) = ((offerOne skip handle x).1 :: (offer skip handle xs).1,
      (offer skip handle xs).2.map fun (i, before, actions) => (i + 1, before, actions)) := by
  rw [offer, ← offerOne]
  exact if_pos h

theorem offer_cons_answer (h : (offerOne skip handle x).2 ≠ []) : offer skip handle (x :: xs) =
      ((offerOne skip handle x).1 :: xs, some (0, x, (offerOne skip handle x).2)) := by
  rw [offer, ← offerOne]
  exact if_neg h

theorem offer_cons_fst (skip : α → Bool) (handle : α → α × List ResourceAction) (x : α)
    (xs : List α) : ∃ ys, (offer skip handle (x :: xs)).1 = (offerOne skip handle x).1 :: ys := by
  by_cases hsilent : (offerOne skip handle x).2 = []
  · exact ⟨_, by rw [offer_cons_silent hsilent]⟩
  · exact ⟨_, by rw [offer_cons_answer hsilent]⟩

theorem offer_answer {i : ℕ} {before : α} {actions : List ResourceAction}
    (h : (offer skip handle xs).2 = some (i, before, actions)) :
    actions = (offerOne skip handle before).2 ∧ before ∈ xs ∧
      (offer skip handle xs).1[i]? = some (offerOne skip handle before).1 := by
  induction xs generalizing i with
  | nil => simp [offer] at h
  | cons x rest ih =>
    by_cases hsilent : (offerOne skip handle x).2 = []
    · rw [offer_cons_silent hsilent] at h ⊢
      obtain ⟨⟨j, b, a⟩, hrest, heq⟩ := Option.map_eq_some_iff.1 h
      obtain ⟨rfl, rfl, rfl⟩ := heq
      obtain ⟨hactions, hmem, hget⟩ := ih hrest
      exact ⟨hactions, List.mem_cons_of_mem _ hmem, by simpa using hget⟩
    · rw [offer_cons_answer hsilent] at h ⊢
      obtain ⟨rfl, rfl, rfl⟩ := Option.some.inj h
      exact ⟨rfl, List.mem_cons_self, rfl⟩

end Offer

variable (P : Primitives) (E : LinkEnv)

namespace ManagedLink

variable {l l' : ManagedLink} (linkId : LinkId)

/-- What is sent for actions depends on the engine and the size of packets alone. -/
structure SameSession (l l' : ManagedLink) : Prop where
  engine : l'.engine = l.engine
  mtu : l'.mtu = l.mtu
  destHash : l'.destHash = l.destHash

theorem processResourceAction_frame (l : ManagedLink) (iv : Vector UInt8 16) (action : ResourceAction) :
    ∃ engine, (l.processResourceAction P E linkId iv action).1 = { l with engine } := by
  cases action <;> exact ⟨_, rfl⟩

theorem processResourceActions_frame (l : ManagedLink) (rng : Entropy) (actions : List ResourceAction) :
    ∃ engine, (l.processResourceActions P E linkId rng actions).1 = { l with engine } := by
  induction actions generalizing l rng with
  | nil => exact ⟨l.engine, rfl⟩
  | cons action rest ih =>
    obtain ⟨engine, hone⟩ := processResourceAction_frame ..
    obtain ⟨engine', hrest⟩ := ih { l with engine } (rng.after 1)
    refine ⟨engine', ?_⟩
    simp only [processResourceActions]
    rw [hone, hrest]

theorem processChannelActions_frame (l : ManagedLink) (rng : Entropy) (actions : List ChannelAction) :
    ∃ channel pendingChannelPackets, (l.processChannelActions P E linkId rng actions).1 =
      { l with channel, pendingChannelPackets } := by
  induction actions generalizing l rng with
  | nil => exact ⟨l.channel, l.pendingChannelPackets, rfl⟩
  | cons action rest ih =>
    have hone : ∃ channel pendingChannelPackets,
        (l.processChannelAction P E linkId (rng.iv 0) action).1 =
          { l with channel, pendingChannelPackets } := by
      cases action with
      | sendOnLink raw sequence =>
        rw [processChannelAction]
        split
        · exact ⟨_, _, rfl⟩
        · split <;> exact ⟨_, _, rfl⟩
      | _ => exact ⟨_, _, rfl⟩
    obtain ⟨channel, pending, hone⟩ := hone
    obtain ⟨channel', pending', hrest⟩ := ih { l with channel, pendingChannelPackets := pending }
      (rng.after 1)
    refine ⟨channel', pending', ?_⟩
    simp only [processChannelActions]
    rw [hone, hrest]

theorem SameSession.processResourceAction (h : SameSession l l') (iv : Vector UInt8 16)
    (action : ResourceAction) : SameSession (l.processResourceAction P E linkId iv action).1
        (l'.processResourceAction P E linkId iv action).1 ∧
      (l'.processResourceAction P E linkId iv action).2 =
        (l.processResourceAction P E linkId iv action).2 := by
  have hseal : ∀ context data, l'.sealLinkPacket P E linkId context iv data =
      l.sealLinkPacket P E linkId context iv data := by
    intro context data
    simp only [sealLinkPacket, encrypt, buildLinkPacket, h.engine, h.mtu]
  cases action with
  | sendPart data =>
    refine ⟨h, ?_⟩
    simp only [ManagedLink.processResourceAction, buildLinkPacket, h.mtu]
  | teardownLink =>
    simp only [ManagedLink.processResourceAction, processLinkActions, h.engine, h.destHash]
    exact ⟨⟨rfl, h.mtu, rfl⟩, trivial⟩
  | _ => exact ⟨h, by first | rfl | exact hseal _ _⟩

theorem SameSession.processResourceActions (h : SameSession l l') (rng : Entropy)
    (actions : List ResourceAction) : (l'.processResourceActions P E linkId rng actions).2 =
      (l.processResourceActions P E linkId rng actions).2 := by
  induction actions generalizing l l' rng with
  | nil => rfl
  | cons action rest ih =>
    obtain ⟨hsame, hout⟩ := h.processResourceAction P E linkId (rng.iv 0) action
    simp only [ManagedLink.processResourceActions, hout, ih hsame]

/-! ## Splits -/

def splitKey (r : ResourceReceiver) : Option Hash32 :=
  if r.flags.split then resourceHashKey r.originalHash else none

section

variable (l : ManagedLink)

theorem reportSent_frame (before s : ResourceSender) :
    ∃ outgoingSplits, (l.reportSent before s).1 = { l with outgoingSplits } ∧
      ∀ key, (s.flags.split → s.originalHash ≠ key) → outgoingSplits[key]? = l.outgoingSplits[key]? := by
  unfold reportSent
  split_ifs with hsame hsplit
  · exact ⟨_, rfl, fun _ _ => rfl⟩
  · split
    · refine ⟨_, rfl, fun key hkey => ?_⟩
      rw [Std.ExtTreeMap.getElem?_insert, if_neg (by simpa using hkey hsplit)]
    · exact ⟨_, rfl, fun _ _ => rfl⟩
  · exact ⟨_, rfl, fun _ _ => rfl⟩

theorem reportReceived_frame (r : ResourceReceiver) (actions : List ResourceAction) :
    ∃ incomingSplits, (l.reportReceived r actions).1 = { l with incomingSplits } ∧
      ∀ key, splitKey r ≠ some key → incomingSplits[key]? = l.incomingSplits[key]? := by
  rw [reportReceived, ← splitKey]
  cases hr : splitKey r with
  | none => exact ⟨_, rfl, fun _ _ => rfl⟩
  | some key =>
    dsimp only
    cases l.incomingSplits[key]? with
    | none => exact ⟨_, rfl, fun _ _ => rfl⟩
    | some split =>
      refine ⟨_, rfl, fun other hother => ?_⟩
      rw [Std.ExtTreeMap.getElem?_insert, if_neg (by simpa using hother)]

theorem addSegment_frame (key : Hash32) (r : ResourceReceiver) (data : Bytes)
    (metadata : Option Bytes) :
    ∃ incomingSplits, (l.addSegment key r data metadata).1 = { l with incomingSplits } ∧
      ∀ other, key ≠ other → incomingSplits[other]? = l.incomingSplits[other]? := by
  unfold addSegment
  dsimp only
  split
  · exact ⟨_, rfl, fun _ _ => rfl⟩
  · split_ifs
    · refine ⟨_, rfl, fun other hother => ?_⟩
      rw [Std.ExtTreeMap.getElem?_erase, if_neg (by simpa using hother)]
    · refine ⟨_, rfl, fun other hother => ?_⟩
      rw [Std.ExtTreeMap.getElem?_insert, if_neg (by simpa using hother)]

theorem assembleReceiver_frame (i : ℕ) (r : ResourceReceiver) :
    ∃ incomingSplits, (l.assembleReceiver P E i r).1 = { l with
        incomingSplits
        incomingResources := l.incomingResources.set i (r.assemble P (l.decrypt E) E.compressor).1 } ∧
      ∀ key, splitKey r ≠ some key → incomingSplits[key]? = l.incomingSplits[key]? := by
  rw [assembleReceiver, ← splitKey]
  dsimp only
  cases hr : splitKey r with
  | none => exact ⟨_, rfl, fun _ _ => rfl⟩
  | some key =>
    dsimp only
    cases delivered (r.assemble P (l.decrypt E) E.compressor).2 with
    | none => exact ⟨_, rfl, fun _ _ => rfl⟩
    | some content =>
      obtain ⟨incomingSplits, heq, hothers⟩ := addSegment_frame { l with
        incomingResources := l.incomingResources.set i (r.assemble P (l.decrypt E) E.compressor).1 } ..
      refine ⟨incomingSplits, heq, fun other hother => hothers other fun h => hother ?_⟩
      rw [h]

theorem finishPart_frame (i : ℕ) (r : ResourceReceiver) (actions : List ResourceAction)
    (rng : Entropy) :
    ∃ engine incomingSplits, (l.finishPart P E linkId i r actions rng).1 = { l with
        engine
        incomingSplits
        incomingResources := if r.receivedCount = r.totalParts then
            l.incomingResources.set i (r.assemble P (l.decrypt E) E.compressor).1
          else l.incomingResources } ∧
      ∀ key, splitKey r ≠ some key → incomingSplits[key]? = l.incomingSplits[key]? := by
  obtain ⟨splits, hreport, hsame⟩ := reportReceived_frame ..
  unfold finishPart
  dsimp only
  by_cases hall : r.receivedCount = r.totalParts
  · simp only [if_pos hall]
    obtain ⟨splits', hassemble, hsame'⟩ := assembleReceiver_frame P E { l with incomingSplits := splits } i r
    rw [hreport, hassemble]
    obtain ⟨engine, hprocess⟩ := processResourceActions_frame P E linkId { l with
        incomingSplits := splits'
        incomingResources := l.incomingResources.set i (r.assemble P (l.decrypt E) E.compressor).1 } rng
      ((l.reportReceived r actions).2 ++ ({ l with incomingSplits := splits }.assembleReceiver P E i r).2.1)
    exact ⟨engine, splits', hprocess, fun key hkey => (hsame' key hkey).trans (hsame key hkey)⟩
  · simp only [if_neg hall]
    rw [hreport]
    obtain ⟨engine, hprocess⟩ := processResourceActions_frame P E linkId
      { l with incomingSplits := splits } ..
    exact ⟨engine, splits, hprocess, hsame⟩

end

/-! ## What the output for a part depends on -/

theorem SameSession.reportReceived (h : SameSession l l') (hsplits : l'.incomingSplits = l.incomingSplits)
    (r : ResourceReceiver) (actions : List ResourceAction) :
    (l'.reportReceived r actions).2 = (l.reportReceived r actions).2 ∧
      (l'.reportReceived r actions).1.incomingSplits = (l.reportReceived r actions).1.incomingSplits := by
  have hsdu : l'.resourceSduForLink = l.resourceSduForLink := by
    simp only [resourceSduForLink, h.mtu]
  unfold ManagedLink.reportReceived
  split
  · exact ⟨rfl, hsplits⟩
  · rw [hsplits, hsdu]
    split
    · exact ⟨rfl, hsplits⟩
    · exact ⟨rfl, rfl⟩

theorem addSegment_snd (l l' : ManagedLink) (hsplits : l'.incomingSplits = l.incomingSplits) (key : Hash32)
    (r : ResourceReceiver) (data : Bytes) (metadata : Option Bytes) :
    (l'.addSegment key r data metadata).2 = (l.addSegment key r data metadata).2 := by
  unfold addSegment
  rw [hsplits]
  split
  · rfl
  · dsimp only
    split <;> rfl

section

variable (h : SameSession l l') (hsplits : l'.incomingSplits = l.incomingSplits) (i j : ℕ)
  (r : ResourceReceiver)
include h hsplits

theorem SameSession.assembleReceiver :
    (l'.assembleReceiver P E j r).2 = (l.assembleReceiver P E i r).2 := by
  have hdecrypt : l'.decrypt E = l.decrypt E := by
    funext data
    simp only [decrypt, h.engine]
  unfold ManagedLink.assembleReceiver
  rw [hdecrypt]
  dsimp only
  split
  · rfl
  · next key _ =>
    split
    · rfl
    · next data metadata _ =>
      have hadd := addSegment_snd
        { l with
          incomingResources := l.incomingResources.set i (r.assemble P (l.decrypt E) E.compressor).1 }
        { l' with
          incomingResources := l'.incomingResources.set j (r.assemble P (l.decrypt E) E.compressor).1 }
        hsplits key r data metadata
      exact congrArg (fun added => (withoutDelivery _ ++ added.1, added.2, _)) hadd

theorem SameSession.finishPart (actions : List ResourceAction) (rng : Entropy) :
    (l'.finishPart P E linkId j r actions rng).2 = (l.finishPart P E linkId i r actions rng).2 := by
  obtain ⟨splits, hreport, -⟩ := reportReceived_frame l r actions
  obtain ⟨splits', hreport', -⟩ := reportReceived_frame l' r actions
  obtain ⟨hactions, heq⟩ := h.reportReceived hsplits r actions
  rw [hreport, hreport'] at heq
  have hsame : SameSession { l with incomingSplits := splits } { l' with incomingSplits := splits' } :=
    ⟨h.engine, h.mtu, h.destHash⟩
  unfold ManagedLink.finishPart
  dsimp only
  rw [hreport, hreport', hactions]
  split
  · have hassemble := hsame.assembleReceiver P E heq i j r
    obtain ⟨merged, hmerged, -⟩ := assembleReceiver_frame P E { l with incomingSplits := splits } i r
    obtain ⟨merged', hmerged', -⟩ := assembleReceiver_frame P E { l' with incomingSplits := splits' } j r
    generalize { l with incomingSplits := splits }.assembleReceiver P E i r = assembled at *
    generalize { l' with incomingSplits := splits' }.assembleReceiver P E j r = assembled' at *
    obtain ⟨final, more⟩ := assembled
    obtain ⟨final', more'⟩ := assembled'
    obtain rfl : more' = more := hassemble
    have hfinal : SameSession final final' := by
      rw [show final = _ from hmerged, show final' = _ from hmerged']
      exact ⟨h.engine, h.mtu, h.destHash⟩
    dsimp only
    rw [hfinal.processResourceActions]
  · rw [hsame.processResourceActions]

end

end ManagedLink

namespace LinkManager

/-- The contexts that `handle_link_data` knows. -/
def knownContexts : List UInt8 :=
  [lrRtt, linkIdentify, keepalive, linkClose,
    channel, request, response, resourceAdv,
    resourceReq, resourceHmu, resource,
    resourcePrf, resourceIcl, resourceRcl]

/-- What holds of every handler of link data holds of their dispatch. -/
theorem handleContext_cases {m : LinkManager} {l : ManagedLink} {linkId : LinkId} {packet : RawPacket}
    {packetHash : Hash32} {rng : Entropy} {now : ℚ}
    {motive : ManagedLink × List LinkManagerAction → Prop}
    (lrRtt : packet.context = lrRtt → motive (match l.handleLrrtt P E packet.data now with
      | none => (l, [])
      | some (l, actions) => (l.startChannel, l.processLinkActions linkId actions)))
    (linkIdentify : packet.context = linkIdentify →
      motive (match l.handleIdentify P E packet.data with
        | none => (l, [])
        | some (l, actions) => (l, l.processLinkActions linkId actions)))
    (keepalive : packet.context = keepalive →
      motive (l.inbound linkId now fun l => (l, [])))
    (linkClose : packet.context = linkClose →
      motive ({ l with engine := l.engine.handleTeardown.1 },
        l.processLinkActions linkId l.engine.handleTeardown.2))
    (channel : packet.context = channel →
      motive (l.decrypted E linkId packet.data now fun l plaintext =>
        let (l, out) := l.receiveOnChannel P E linkId plaintext rng
        (l, out ++ m.buildLinkPacketProof P l linkId packetHash)))
    (request : packet.context = request →
      motive (l.decrypted E linkId packet.data now fun l plaintext =>
        m.handleRequest P E l linkId plaintext (Bytes.fixed 16 packet.packetHash.toList 0) rng now))
    (response : packet.context = response →
      motive (l.decrypted E linkId packet.data now fun l plaintext =>
        (l, handleResponse linkId plaintext none none)))
    (resourceAdv : packet.context = resourceAdv →
      motive (l.decrypted E linkId packet.data now fun l plaintext =>
        l.handleResourceAdv P E linkId plaintext rng now))
    (resourceReq : packet.context = resourceReq →
      motive (l.decrypted E linkId packet.data now fun l plaintext =>
        l.handleResourceReq P E linkId plaintext rng now))
    (resourceHmu : packet.context = resourceHmu →
      motive (l.decrypted E linkId packet.data now fun l plaintext =>
        l.handleResourceHmu P E linkId plaintext rng now))
    (resource : packet.context = resource →
      motive (l.inbound linkId now fun l => l.handleResourcePart P E linkId packet.data rng now))
    (resourcePrf : packet.context = resourcePrf →
      motive (l.decrypted E linkId packet.data now fun l plaintext =>
        l.handleResourcePrf P E linkId plaintext rng now))
    (resourceIcl : packet.context = resourceIcl →
      motive (l.inbound linkId now fun l => l.handleResourceIcl linkId))
    (resourceRcl : packet.context = resourceRcl →
      motive (l.inbound linkId now fun l => l.handleResourceRcl linkId))
    (other : packet.context ∉ knownContexts →
      motive (l.decrypted E linkId packet.data now fun l plaintext =>
        (l, .linkDataReceived linkId packet.context plaintext ::
          m.buildLinkPacketProof P l linkId packetHash))) :
    motive (m.handleContext P E l linkId packet packetHash rng now) := by
  rw [handleContext]
  refine iteInduction lrRtt fun hrtt => iteInduction linkIdentify fun hidentify =>
    iteInduction keepalive fun hkeepalive => iteInduction linkClose fun hclose =>
    iteInduction channel fun hchannel => iteInduction request fun hrequest =>
    iteInduction response fun hresponse => iteInduction resourceAdv fun hadv =>
    iteInduction resourceReq fun hreq => iteInduction resourceHmu fun hhmu =>
    iteInduction resource fun hpart => iteInduction resourcePrf fun hprf =>
    iteInduction resourceIcl fun hicl => iteInduction resourceRcl fun hrcl => other ?_
  simp only [knownContexts, List.mem_cons, List.not_mem_nil, or_false, not_or]
  exact ⟨hrtt, hidentify, hkeepalive, hclose, hchannel, hrequest, hresponse, hadv, hreq, hhmu, hpart,
    hprf, hicl, hrcl⟩

end LinkManager

end Rns
