import Rns.Channel.Outbox
import Rns.LinkManager.Moves
import Rns.LinkManager.Sizes

/-!
# The link manager: packets that wait for a proof

The manager remembers the hash of every packet that carried a message, with its sequence number.
Whatever but a proof takes a message off the ring leaves its entries behind.
-/

namespace Rns

open Std Channel

variable (P : Primitives) (K : KeyPrimitives) (E : LinkEnv)

variable {queued : List ChannelAction} {iv : Vector UInt8 16} {call : LinkCall} {c c' : Channel}
  {rng : Entropy} {raw : Bytes}

namespace ManagedLink

variable (l : ManagedLink) (linkId : LinkId)

def channelPacket (iv : Vector UInt8 16) (raw : Bytes) : Option RawPacket :=
  (l.encrypt E iv raw).bind fun encrypted =>
    linkPacket P linkId PacketType.data PacketContext.channel encrypted Rns.mtu

def channelPacketHash (iv : Vector UInt8 16) (raw : Bytes) : Option Hash32 :=
  (l.channelPacket P E linkId iv raw).map (·.packetHash)

def Carried (raw : Bytes) (hash : Hash32) : Prop :=
  ∃ iv packet, l.channelPacket P E linkId iv raw = some packet ∧ packet.packetHash = hash

/-- Every packet that waits for a proof carried a message that is in the ring.  So there are at most
as many as there are messages with all their tries, and a proof acknowledges a message that its packet
carried. -/
structure TracksExactly (l : ManagedLink) (linkId : LinkId) : Prop where
  carried : ∀ hash sequence, l.pendingChannelPackets[hash]? = some sequence →
    ∃ c e, l.channel = some c ∧ e ∈ c.txRing ∧ e.sequence = sequence ∧
      l.Carried P E linkId e.raw hash
  bounded : ∀ c, l.channel = some c →
    l.pendingChannelPackets.size ≤ c.txRing.length * c.maxTries.toNat ∧
      c.txRing.length ≤ windowMaxFast.toNat
  acknowledged : ∀ data c e, l.channel = some c → e ∈ c.txRing →
    (∀ c', (l.handleLinkProof data).channel = some c' → e ∉ c'.txRing) →
    l.Carried P E linkId e.raw (Bytes.fixed 32 data 0)

/-- A link before it has a channel, and the messages of its channel afterwards. -/
structure Tracked (l : ManagedLink) (linkId : LinkId) : Prop where
  early : l.engine.state.Early → l.channel = none
  unopened : l.channel = none → l.pendingChannelPackets = ∅
  outbox : ∀ c, l.channel = some c →
    c.Outbox (l.channelPacketHash P E linkId) l.pendingChannelPackets []

variable {P E} {l l' : ManagedLink} {linkId : LinkId}

theorem channelPacketHash_eq_some {hash : Hash32} :
    l.channelPacketHash P E linkId iv raw = some hash ↔
      ∃ packet, l.channelPacket P E linkId iv raw = some packet ∧ packet.packetHash = hash :=
  Option.map_eq_some_iff

theorem channelPacketHash_congr (h : l'.engine.token = l.engine.token) :
    l'.channelPacketHash P E linkId = l.channelPacketHash P E linkId := by
  funext iv raw
  rw [channelPacketHash, channelPacketHash, channelPacket, channelPacket, encrypt, encrypt, h]

theorem channelPacketHash_isSome_iff (hE : E.UsesTokens P) (iv iv' : Vector UInt8 16) (raw : Bytes) :
    (l.channelPacketHash P E linkId iv raw).isSome ↔
      (l.channelPacketHash P E linkId iv' raw).isSome := by
  simp only [channelPacketHash, channelPacket, encrypt, Option.isSome_map]
  cases l.engine.token with
  | none => exact Iff.rfl
  | some token =>
    simp only [Option.map_some, Option.bind_some, linkPacket_encrypt_isSome_iff hE]

theorem Tracked.tracksExactly (h : l.Tracked P E linkId) : l.TracksExactly P E linkId where
  carried hash sequence hpending := by
    cases hchannel : l.channel with
    | none =>
      rw [h.unopened hchannel, ExtTreeMap.getElem?_empty] at hpending
      cases hpending
    | some c =>
      obtain ⟨e, he, hs, iv, hhash⟩ := (h.outbox c hchannel).carried hash sequence hpending
      exact ⟨c, e, rfl, he, hs, iv, channelPacketHash_eq_some.mp hhash⟩
  bounded c hchannel := by
    have houtbox := h.outbox c hchannel
    rw [houtbox.maxTries]
    exact ⟨houtbox.size_le, houtbox.flow.length_le⟩
  acknowledged data c e hchannel he hgone := by
    have houtbox := h.outbox c hchannel
    unfold handleLinkProof at hgone
    split_ifs at hgone
    · exact absurd he (hgone c hchannel)
    dsimp only at hgone
    cases hpending : l.pendingChannelPackets[Bytes.fixed 32 data 0]? with
    | none =>
      rw [hpending] at hgone
      exact absurd he (hgone c hchannel)
    | some sequence =>
      rw [hpending] at hgone
      have hgone := hgone _ (by rw [hchannel]; rfl)
      obtain ⟨e', he', hs, iv, hhash⟩ := houtbox.carried _ sequence hpending
      have hsame : e.sequence = sequence := by
        by_contra hother
        refine hgone ?_
        rw [(packetDelivered_tx c sequence).2]
        exact (List.mem_eraseP_of_neg (by simpa using hother)).mpr he
      obtain rfl := eq_of_sequence houtbox.distinct he he' (hsame.trans hs.symm)
      exact ⟨iv, channelPacketHash_eq_some.mp hhash⟩

/-! ## Step by step -/

theorem Fresh.tracked (h : l.Fresh) : l.Tracked P E linkId where
  early _ := h.1
  unopened _ := h.2
  outbox _ hc := nomatch h.1.symm.trans hc

section

variable (h : l.Tracked P E linkId)
include h

theorem Tracked.keepsChannel (hkeeps : l.KeepsChannel l') : l'.Tracked P E linkId where
  early hearly := hkeeps.channel.trans (h.early (hkeeps.engine.early hearly ▸ hearly))
  unopened hnone := hkeeps.pendingChannelPackets.trans (h.unopened (hkeeps.channel ▸ hnone))
  outbox c hc := by
    rw [channelPacketHash_congr hkeeps.engine.token, hkeeps.pendingChannelPackets]
    exact h.outbox c (hkeeps.channel ▸ hc)

theorem Tracked.of_outbox (hc : l.channel = some c) (hengine : l.engine.Advance l'.engine)
    (hc' : l'.channel = some c')
    (houtbox : c'.Outbox (l.channelPacketHash P E linkId) l'.pendingChannelPackets []) :
    l'.Tracked P E linkId where
  early hearly := by
    have hnone := h.early (hengine.early hearly ▸ hearly)
    rw [hc] at hnone
    cases hnone
  unopened hnone := nomatch hc'.symm.trans hnone
  outbox c'' hc'' := by
    obtain rfl := Option.some.inj (hc'.symm.trans hc'')
    rw [channelPacketHash_congr hengine.token]
    exact houtbox

theorem Tracked.hears (hhears : l.Hears l') : l'.Tracked P E linkId := by
  cases hhears with
  | kept hkeeps => exact h.keepsChannel hkeeps
  | started hearly hlate rtt hchannel hpending =>
    refine ⟨fun hearly' => absurd hearly' hlate, fun hnone => (nomatch hchannel.symm.trans hnone),
      fun c hc => ?_⟩
    obtain rfl := Option.some.inj (hchannel.symm.trans hc)
    rw [hpending, h.unopened (h.early hearly)]
    have hnew : (new rtt).maxTries = 5 ∧ (new rtt).txRing = [] := by
      unfold Channel.new
      split_ifs <;> exact ⟨rfl, rfl⟩
    exact outbox_nil (flow_new rtt).1 hnew.1 hnew.2
  | received hengine raw hbefore hchannel hpending =>
    exact h.of_outbox hbefore hengine hchannel (hpending ▸ (h.outbox _ hbefore).receive raw)

end

theorem outbox_processChannelActions {c : Channel} (hc : l.channel = some c)
    (h : c.Outbox (l.channelPacketHash P E linkId) l.pendingChannelPackets queued) (rng : Entropy) :
    let after := (l.processChannelActions P E linkId rng queued).1
    after.engine = l.engine ∧ after.channel = some c ∧
      c.Outbox (l.channelPacketHash P E linkId) after.pendingChannelPackets [] := by
  induction queued generalizing l rng with
  | nil => exact ⟨rfl, hc, h⟩
  | cons action rest ih =>
    cases action with
    | sendOnLink raw sequence =>
      obtain ⟨e, he, -, hraw⟩ := h.inRing raw sequence List.mem_cons_self
      obtain ⟨hash, hhash⟩ := Option.isSome_iff_exists.mp (h.packs e he (rng.iv 0))
      rw [hraw] at hhash
      obtain ⟨packet, hpacket, rfl⟩ := channelPacketHash_eq_some.mp hhash
      obtain ⟨encrypted, hencrypt, hlink⟩ := Option.bind_eq_some_iff.mp hpacket
      let sent : ManagedLink :=
        { l with pendingChannelPackets := l.pendingChannelPackets.insert packet.packetHash sequence }
      have hsent : (l.processChannelAction P E linkId (rng.iv 0) (.sendOnLink raw sequence)).1 =
          sent := by
        simp only [processChannelAction, hencrypt, hlink, sent]
      simp only [processChannelActions, hsent]
      exact ih (l := sent) hc (h.track hhash) (rng.after 1)
    | messageReceived | teardownLink => exact ih hc h.skip (rng.after 1)

theorem Tracked.processChannelActions (h : l.Tracked P E linkId) (hc : l.channel = some c)
    (hqueued : c'.Outbox (l.channelPacketHash P E linkId) l.pendingChannelPackets queued)
    (rng : Entropy) :
    ({ l with channel := some c' }.processChannelActions P E linkId rng queued).1.Tracked P E linkId := by
  obtain ⟨hengine, hchannel, hdone⟩ :=
    outbox_processChannelActions (l := { l with channel := some c' }) rfl hqueued rng
  refine h.of_outbox hc ?_ hchannel hdone
  rw [hengine]
  exact .refl _

theorem processChannelAction_of_not_packed (sequence : UInt16)
    (h : l.channelPacketHash P E linkId iv raw = none) :
    (l.processChannelAction P E linkId iv (.sendOnLink raw sequence)).1 = l.cancelSend sequence := by
  rw [channelPacketHash, Option.map_eq_none_iff, channelPacket] at h
  rw [processChannelAction]
  cases hencrypt : l.encrypt E iv raw with
  | none => rfl
  | some encrypted =>
    rw [hencrypt, Option.bind_some] at h
    simp only [h]

section

variable (h : l.Tracked P E linkId)
include h

theorem Tracked.sendChannelMessage (hE : E.UsesTokens P) {msgtype : UInt16} {payload : Bytes}
    {now : ℚ} {out : List LinkManagerAction}
    (hsent : l.sendChannelMessage P E linkId msgtype payload rng now = .ok (l', out))
    (hnew : ∀ c ∈ l.channel, ∀ e ∈ c.txRing, e.sequence ≠ c.nextSequence) :
    l'.Tracked P E linkId := by
  unfold ManagedLink.sendChannelMessage at hsent
  cases hc : l.channel with
  | none =>
    rw [hc] at hsent
    cases hsent
  | some c =>
    simp only [hc] at hsent
    cases hsend : c.send msgtype payload now l.mdu with
    | error e =>
      rw [hsend] at hsent
      cases hsent
    | ok sent =>
      obtain ⟨c', actions⟩ := sent
      rw [hsend] at hsent
      have houtbox := h.outbox c hc
      have hnew := hnew c hc
      let opened : ManagedLink := { l with channel := some c' }
      have hafter : l' = (opened.processChannelActions P E linkId rng actions).1 := by
        rw [Except.ok.inj hsent]
      by_cases hpacks : (l.channelPacketHash P E linkId (rng.iv 0)
          (packEnvelope msgtype c.nextSequence payload)).isSome
      · have hqueued := houtbox.send hsend hnew fun iv =>
          (channelPacketHash_isSome_iff hE _ _ _).mp hpacks
        rw [hafter]
        exact h.processChannelActions hc hqueued rng
      · -- the message cannot be packed and is taken back
        obtain ⟨rfl, -, -⟩ := send_ok hsend
        rw [Option.not_isSome_iff_eq_none] at hpacks
        have hcancelled := processChannelAction_of_not_packed (l := opened) c.nextSequence hpacks
        rw [hafter]
        simp only [ManagedLink.processChannelActions, hcancelled]
        exact h.of_outbox hc (.refl _) rfl (houtbox.cancelSend hsend hnew)

theorem Tracked.handleLinkProof {data : Bytes}
    (honly : ∀ sequence ∈ l.pendingChannelPackets[Bytes.fixed 32 data 0]?,
      copies l.pendingChannelPackets sequence ≤ 1) :
    (l.handleLinkProof data).Tracked P E linkId := by
  unfold ManagedLink.handleLinkProof
  split_ifs
  · exact h
  dsimp only
  cases hpending : l.pendingChannelPackets[Bytes.fixed 32 data 0]? with
  | none => exact h
  | some sequence =>
    cases hc : l.channel with
    | none =>
      rw [h.unopened hc, ExtTreeMap.getElem?_empty] at hpending
      cases hpending
    | some c =>
      refine h.of_outbox hc (.refl _) rfl ((h.outbox c hc).packetDelivered fun hash' hpending' => ?_)
      exact eq_of_copies_le_one (honly sequence hpending) hpending' hpending

theorem Tracked.cleared (hengine : l.engine.Advance l'.engine)
    (hpending : l.pendingChannelPackets = ∅) (hpending' : l'.pendingChannelPackets = ∅)
    {clear : Channel → Channel} (hchannel : l'.channel = l.channel.map clear)
    (hclear : ∀ c : Channel, c.Flow →
      (clear c).Flow ∧ (clear c).maxTries = c.maxTries ∧ (clear c).txRing = []) :
    l'.Tracked P E linkId := by
  cases hc : l.channel with
  | none => exact h.keepsChannel ⟨hengine, hchannel.trans (by rw [hc]; rfl), hpending'.trans hpending.symm⟩
  | some c =>
    obtain ⟨hflow, hmax, hring⟩ := hclear c (h.outbox c hc).flow
    refine h.of_outbox hc hengine (hchannel.trans (by rw [hc]; rfl)) ?_
    rw [hpending']
    exact outbox_nil hflow (hmax.trans (h.outbox c hc).maxTries) hring

end

theorem tickLink_channel (P : Primitives) (E : LinkEnv) (linkId : LinkId) (l : ManagedLink) (rng : Entropy)
    (now : ℚ) : ∃ kept : ManagedLink, l.KeepsChannel kept ∧
      (kept.channel = none → (l.tickLink P E linkId rng now).1 = kept) ∧
      ∀ c, kept.channel = some c → (l.tickLink P E linkId rng now).1 =
        ({ kept with channel := some (c.tick now).1 }.processChannelActions P E linkId rng
          (c.tick now).2).1 := by
  unfold ManagedLink.tickLink
  dsimp only
  generalize hkept : (if (l.engine.tick now).1.needsKeepalive now then _ else _ :
    ManagedLink × List LinkManagerAction) = kept
  have hkeeps : l.KeepsChannel kept.1 := by
    have hengine := LinkEngine.advance_tick l.engine now
    rw [← hkept]
    split
    · split
      · exact ⟨hengine, rfl, rfl⟩
      · exact ⟨hengine.trans (LinkEngine.advance_of_state rfl rfl rfl (.inl rfl)), rfl, rfl⟩
    · exact ⟨hengine, rfl, rfl⟩
  clear hkept
  obtain ⟨kept, sent⟩ := kept
  refine ⟨kept, hkeeps, fun hnone => ?_, fun c hc => ?_⟩
  · dsimp only
    rw [hnone]
  · dsimp only
    rw [hc]

theorem Tracked.tickLink (h : l.Tracked P E linkId) {now : ℚ}
    (hleft : ∀ c ∈ l.channel, ∀ e ∈ c.txRing, e.sequence ∈ c.timedOut now → e.tries < c.maxTries) :
    (l.tickLink P E linkId rng now).1.Tracked P E linkId := by
  obtain ⟨kept, hkeeps, hnone, hsome⟩ := tickLink_channel P E linkId l rng now
  have htracked := h.keepsChannel hkeeps
  cases hc : kept.channel with
  | none => exact hnone hc ▸ htracked
  | some c =>
    have hqueued := (htracked.outbox c hc).tick (hleft c (hkeeps.channel ▸ hc))
    rw [hsome c hc]
    exact htracked.processChannelActions hc hqueued rng

end ManagedLink

namespace LinkManager

open ManagedLink

/-- The calls that leave no entry behind.  A proof arrives while no other packet of its message is
remembered.  No message runs out of tries, a channel is shut down or flushed only when nothing waits
for a proof, and the number of a new message is not in use. -/
def KeepsTrack (m : LinkManager) : LinkCall → Prop
  | .event (.packet destHash raw _ _ _ _) => ∀ packet ∈ (RawPacket.unpack P raw).toOption,
      packet.flags.packetType = PacketType.proof →
      packet.context ∉ [PacketContext.lrProof, PacketContext.resourcePrf] →
      ∀ l ∈ m.links[destHash]?, ∀ sequence ∈ l.pendingChannelPackets[Bytes.fixed 32 packet.data 0]?,
        copies l.pendingChannelPackets sequence ≤ 1
  | .event (.tick _ now) => ∀ entry ∈ m.links.toList, ∀ c ∈ entry.2.channel, ∀ e ∈ c.txRing,
      e.sequence ∈ c.timedOut now → e.tries < c.maxTries
  | .event (.teardownLink linkId) => ∀ l ∈ m.links[linkId]?, l.pendingChannelPackets.isEmpty
  | .event (.sendChannelMessage linkId _ _ _ _) => ∀ l ∈ m.links[linkId]?, ∀ c ∈ l.channel,
      ∀ e ∈ c.txRing, e.sequence ≠ c.nextSequence
  | .flushChannelTx linkId => ∀ l ∈ m.links[linkId]?, l.pendingChannelPackets.isEmpty
  | _ => True

instance (m : LinkManager) (call : LinkCall) : Decidable (m.KeepsTrack P call) := by
  unfold KeepsTrack
  split <;> infer_instance

def Tracked (m : LinkManager) : Prop :=
  ∀ linkId (l : ManagedLink), m.links[linkId]? = some l → l.Tracked P E linkId

variable {P K E} {m : LinkManager}

theorem tracked_of_move (hE : E.UsesTokens P) {linkId : LinkId} {l l' : ManagedLink}
    (hl : m.links[linkId]? = some l) (h : l.Tracked P E linkId) (hcall : m.KeepsTrack P call)
    (hmove : ChannelMove P E linkId l call l') : l'.Tracked P E linkId := by
  cases hmove with
  | heard hhears => exact h.hears hhears
  | proved hunpack htype hcontext =>
    exact h.handleLinkProof (hcall _ (by rw [hunpack]; rfl) htype hcontext l hl)
  | sent hsent => exact h.sendChannelMessage hE hsent (hcall l hl)
  | ticked hkeeps =>
    have hleft := hcall (linkId, l) (ExtTreeMap.mem_toList_iff_getElem?_eq_some.mpr hl)
    exact (h.tickLink hleft).keepsChannel hkeeps
  | closed =>
    have hempty := ExtTreeMap.isEmpty_iff.mp (hcall l hl)
    exact h.cleared (LinkEngine.advance_closeWith _ _) hempty hempty rfl fun c hflow =>
      ⟨(hflow.step .shutdown).1, rfl, rfl⟩
  | flushed =>
    have hempty := ExtTreeMap.isEmpty_iff.mp (hcall l hl)
    exact h.cleared (.refl _) hempty hempty rfl fun c hflow => ⟨(hflow.step .flushTx).1, rfl, rfl⟩

section Run

variable {ephemeral : Entropy → Vector UInt8 32} {sessions : LinkId → LinkSession}

theorem Tracked.step (hE : E.UsesTokens P) (h : m.Tracked P (env P K E ephemeral sessions))
    (hcall : m.KeepsTrack P call) :
    ((calls P K E ephemeral sessions).step m call).1.Tracked P (env P K E ephemeral sessions) := by
  intro linkId l' hl'
  rcases movesTo_step ephemeral sessions call linkId l' hl' with hfresh | ⟨l, hl, hmove⟩
  · exact hfresh.tracked
  · have hE' : (env P K E ephemeral sessions).UsesTokens P := ⟨hE.encrypt, hE.decrypt⟩
    exact tracked_of_move hE' hl (h linkId l hl) hcall hmove

/-- In every run of a manager whose calls leave no entry behind, the packets that wait for a proof are
tracked exactly, on every link. -/
theorem pending_packets_tracked (hE : E.UsesTokens P) (hempty : m.links = ∅) {cs : List LinkCall}
    (hcalls : (calls P K E ephemeral sessions).Meets (fun _ m call => m.KeepsTrack P call) [] m cs)
    {linkId : LinkId} {l : ManagedLink}
    (hl : ((calls P K E ephemeral sessions).run m cs).1.links[linkId]? = some l) :
    l.TracksExactly P (env P K E ephemeral sessions) linkId := by
  have hstart : m.Tracked P (env P K E ephemeral sessions) := fun linkId l hl => by
    rw [hempty, ExtTreeMap.getElem?_empty] at hl
    cases hl
  have hrun : ((calls P K E ephemeral sessions).run m cs).1.Tracked P (env P K E ephemeral sessions) :=
    Machine.run_keeps _ (fun _ _ _ h hcall => h.step hE hcall) hstart hcalls
  exact (hrun linkId l hl).tracksExactly

end Run

/-! ### A run -/

def sampleCalls : Machine LinkManager LinkCall LinkManagerAction :=
  calls .sample .sample .sample (fun _ => .replicate 32 3) fun _ => (CreateLinkArgs.sample.made .sample).1

/-- The proof of the packet with the first message, whose hash is the start of what is hashed. -/
def proofOfFirst : LinkCall :=
  let hash := 0x0C :: (requestedLink.toList ++ PacketContext.channel :: List.replicate 14 0)
  let data := hash ++ List.replicate 64 0
  .event (.packet requestedLink (0x0F :: 0 :: (requestedLink.toList ++ PacketContext.none :: data))
    (.replicate 32 0) 0 .zero 0)

def firstMessage : List LinkCall := activation.map .event

theorem pending_packets_tracked_sample :
    (sampleCalls.run listening firstMessage).1.links[requestedLink]?.map
        (·.pendingChannelPackets.size) = some 1 ∧
      ∃ l, (sampleCalls.run listening (firstMessage ++ [proofOfFirst])).1.links[requestedLink]? =
          some l ∧ l.pendingChannelPackets.size = 0 ∧
        l.TracksExactly .sample (env .sample .sample .sample (fun _ => .replicate 32 3)
          fun _ => (CreateLinkArgs.sample.made .sample).1) requestedLink := by
  have hone : (sampleCalls.run listening firstMessage).1.links[requestedLink]?.map
      (·.pendingChannelPackets.size) = some 1 := by
    decide +kernel
  have hproof : (sampleCalls.run listening firstMessage).1.KeepsTrack .sample proofOfFirst := by
    intro packet _ _ _ l hl sequence _
    rw [Option.mem_def.mp hl] at hone
    exact (copies_le_size _ sequence).trans (Option.some.inj hone).le
  have hcalls : sampleCalls.Meets (fun _ m call => m.KeepsTrack .sample call) [] listening
      (firstMessage ++ [proofOfFirst]) :=
    sampleCalls.meets_append.mpr ⟨by decide +kernel, hproof, trivial⟩
  have hzero : (sampleCalls.run listening (firstMessage ++ [proofOfFirst])).1.links[requestedLink]?.map
      (·.pendingChannelPackets.size) = some 0 := by
    decide +kernel
  obtain ⟨l, hl, hsize⟩ := Option.map_eq_some_iff.mp hzero
  refine ⟨hone, l, hl, hsize, ?_⟩
  unfold sampleCalls at hcalls hl
  exact pending_packets_tracked LinkEnv.usesTokens_sample rfl hcalls hl

/-- A message is sent, and sent again at the first tick; the proof of one packet leaves the entry of
the other, without a message. -/
theorem proof_leaves_stale_entry :
    let retried := firstMessage ++
      [.event (.tick (fun _ => ({ Entropy.zero with iv := fun _ => .replicate 16 1 }, .zero)) 1)]
    let sent := (sampleCalls.run listening retried).1
    let proved := (sampleCalls.run listening (retried ++ [proofOfFirst])).1
    sent.links[requestedLink]?.map (·.pendingChannelPackets.size) = some 2 ∧
      proved.links[requestedLink]?.map (fun l =>
        (l.channel.map (·.txRing), l.pendingChannelPackets.size)) = some (some [], 1) := by
  decide +kernel

end LinkManager

end Rns
