import Rns.LinkManager.Continuity
import Rns.LinkManager.Operations
import Rns.Resource.Outcomes

/-!
# The link manager: what the application is told

Which actions of a handler are callbacks of the application, and for which link.  A handler that closes
the link says so, last of all; the others do not.
-/

namespace Rns

open LinkEngine
open List (mem_append mem_singleton mem_map mem_flatMap mem_cons)

/-- The link a callback is about, and whether it is the callback of its closing. -/
def LinkManagerAction.report : LinkManagerAction → Option (LinkId × Bool)
  | .linkClosed linkId _ => some (linkId, true)
  | .linkEstablished linkId _ _ _ => some (linkId, false)
  | .resourceReceived linkId _ _ => some (linkId, false)
  | .resourceCompleted linkId => some (linkId, false)
  | .resourceFailed linkId _ => some (linkId, false)
  | .resourceProgress linkId _ _ => some (linkId, false)
  | .resourceAcceptQuery linkId _ _ _ => some (linkId, false)
  | .channelMessageReceived linkId _ _ => some (linkId, false)
  | .linkDataReceived linkId _ _ => some (linkId, false)
  | .responseReceived linkId _ _ _ => some (linkId, false)
  | _ => none

variable {out : List LinkManagerAction} {action : ResourceAction}
  {handle : ManagedLink → ManagedLink × List LinkManagerAction}
  {result : ManagedLink × List LinkManagerAction} {a : LinkManagerAction} {packet : RawPacket}
  {data : Bytes}

section Outputs

variable {linkId : LinkId} {out out' : List LinkManagerAction}

def Mute (out : List LinkManagerAction) : Prop := ∀ a ∈ out, a.report = none

def Calls (linkId : LinkId) (out : List LinkManagerAction) : Prop :=
  ∀ a ∈ out, ∀ r, a.report = some r → r = (linkId, false)

def Own (linkId : LinkId) (out : List LinkManagerAction) : Prop :=
  ∀ a ∈ out, ∀ r, a.report = some r → r.1 = linkId

def Ends (linkId : LinkId) (out : List LinkManagerAction) : Prop :=
  ∃ before reason after, out = before ++ .linkClosed linkId reason :: after ∧ Calls linkId before ∧ Mute after

theorem mute_nil : Mute [] := fun _ h => nomatch h

theorem Mute.append (h : Mute out) (h' : Mute out') : Mute (out ++ out') :=
  fun a ha => (mem_append.1 ha).elim (h a) (h' a)

theorem Mute.calls (h : Mute out) : Calls linkId out := fun a ha r hr => by
  rw [h a ha] at hr
  cases hr

theorem calls_nil : Calls linkId [] := mute_nil.calls

theorem calls_singleton (h : a.report = some (linkId, false)) :
    Calls linkId [a] := fun b hb r hr => by
  rw [mem_singleton.1 hb, h] at hr
  exact (Option.some.inj hr).symm

theorem Calls.append (h : Calls linkId out) (h' : Calls linkId out') : Calls linkId (out ++ out') :=
  fun a ha => (mem_append.1 ha).elim (h a) (h' a)

theorem Calls.own (h : Calls linkId out) : Own linkId out := fun a ha r hr => by rw [h a ha r hr]

theorem Own.append (h : Own linkId out) (h' : Own linkId out') : Own linkId (out ++ out') :=
  fun a ha => (mem_append.1 ha).elim (h a) (h' a)

theorem own_closed {reason : Option TeardownReason} : Own linkId [.linkClosed linkId reason] :=
  fun a ha r hr => by
    rw [mem_singleton.1 ha] at hr
    cases hr
    rfl

theorem ends_singleton (reason : Option TeardownReason) : Ends linkId [.linkClosed linkId reason] :=
  ⟨[], reason, [], rfl, calls_nil, mute_nil⟩

theorem Ends.append_mute (h : Ends linkId out) (h' : Mute out') : Ends linkId (out ++ out') := by
  obtain ⟨before, reason, after, rfl, hbefore, hafter⟩ := h
  exact ⟨before, reason, after ++ out', by simp, hbefore, hafter.append h'⟩

theorem Calls.append_ends (h : Calls linkId out) (h' : Ends linkId out') : Ends linkId (out ++ out') := by
  obtain ⟨before, reason, after, rfl, hbefore, hafter⟩ := h'
  exact ⟨out ++ before, reason, after, by simp, h.append hbefore, hafter⟩

theorem Ends.own (h : Ends linkId out) : Own linkId out := by
  obtain ⟨before, reason, after, rfl, hbefore, hafter⟩ := h
  exact hbefore.own.append ((own_closed).append (Calls.own hafter.calls))

end Outputs

variable (P : Primitives) (E : LinkEnv)

namespace ManagedLink

variable {l l' : ManagedLink} {linkId : LinkId}

def Closed (l : ManagedLink) : Prop := l.engine.state = .closed

instance (l : ManagedLink) : Decidable l.Closed := inferInstanceAs (Decidable (_ = _))

/-- The handler closes the link exactly if it says so. -/
inductive Told (linkId : LinkId) (l l' : ManagedLink) (out : List LinkManagerAction) : Prop where
  | kept (hkept : l'.Closed ↔ l.Closed) (hcalls : Calls linkId out)
  | closes (hopen : ¬l.Closed) (hclosed : l'.Closed) (hends : Ends linkId out)

theorem Told.own (h : Told linkId l l' out) : Own linkId out := by
  cases h with
  | kept _ hcalls => exact hcalls.own
  | closes _ _ hends => exact hends.own

abbrev Tells (linkId : LinkId) (l : ManagedLink) (result : ManagedLink × List LinkManagerAction) : Prop :=
  Told linkId l result.1 result.2

theorem told_of_engine (h : l'.engine = l.engine) (hcalls : Calls linkId out) :
    Told linkId l l' out :=
  .kept (by rw [Closed, Closed, h]) hcalls

theorem Told.refl : Told linkId l l [] := told_of_engine rfl calls_nil

theorem Told.of_left {l₀ : ManagedLink} (h : l₀.Closed ↔ l.Closed) (htold : Told linkId l l' out) :
    Told linkId l₀ l' out := by
  cases htold with
  | kept hkept hcalls => exact .kept (hkept.trans h.symm) hcalls
  | closes hopen hclosed hends => exact .closes (fun h' => hopen (h.1 h')) hclosed hends

theorem Told.trans {l'' : ManagedLink} {out out' : List LinkManagerAction} (h : Told linkId l l' out)
    (h' : Told linkId l' l'' out') (hmute : l'.Closed → Mute out') : Told linkId l l'' (out ++ out') := by
  cases h with
  | kept hkept hcalls =>
    cases h' with
    | kept hkept' hcalls' => exact .kept (hkept'.trans hkept) (hcalls.append hcalls')
    | closes hopen hclosed hends =>
      exact .closes (fun h => hopen (hkept.2 h)) hclosed (hcalls.append_ends hends)
  | closes hopen hclosed hends =>
    cases h' with
    | kept hkept' _ => exact .closes hopen (hkept'.2 hclosed) (hends.append_mute (hmute hclosed))
    | closes hopen' _ _ => exact absurd hclosed hopen'

/-- The handler leaves the session, the route and the channel alone, and closes the link exactly if it
says so. -/
structure Proper (linkId : LinkId) (l : ManagedLink) (result : ManagedLink × List LinkManagerAction) :
    Prop where
  quiet : l.Quiet result.1
  told : Tells linkId l result

theorem Still.proper_of_calls (h : l.Still l') (hcalls : Calls linkId out) :
    Proper linkId l (l', out) :=
  ⟨h.toQuiet, told_of_engine h.sameEngine hcalls⟩

theorem Proper.refl : Proper linkId l (l, []) := (Still.refl l).proper_of_calls calls_nil

theorem Still.proper (h : l.Still l') (hproper : Proper linkId l' result) :
    Proper linkId l result :=
  ⟨h.toQuiet.trans hproper.quiet, hproper.told.of_left (by rw [Closed, Closed, h.sameEngine])⟩

end ManagedLink

/-! ## Packets of a link -/

theorem mute_sendLinkPacket (linkId : LinkId) (packetType context : UInt8) (data : Bytes) (maxMtu : ℕ) :
    Mute (sendLinkPacket P linkId packetType context data maxMtu) := fun a ha => by
  obtain ⟨p, -, rfl⟩ := mem_map.1 ha
  rfl

namespace ManagedLink

variable (l : ManagedLink) (linkId : LinkId)

theorem mute_sealLinkPacket (context : UInt8) (iv : Vector UInt8 16) (data : Bytes) :
    Mute (l.sealLinkPacket P E linkId context iv data) := by
  unfold sealLinkPacket
  split
  · exact mute_sendLinkPacket P _ _ _ _ _
  · exact mute_nil

/-! ## Actions of the engine -/

theorem own_processLinkActions (actions : List LinkAction) :
    Own linkId (l.processLinkActions linkId actions) := by
  intro a ha r hr
  obtain ⟨action, -, ha⟩ := mem_flatMap.1 ha
  cases action with
  | stateChanged id newState reason =>
    dsimp only at ha
    split_ifs at ha with hclosed
    · exact own_closed a ha r hr
    · cases ha
  | linkEstablished id rtt isInitiator =>
    rw [mem_singleton.1 ha] at hr
    cases hr
    rfl
  | remoteIdentified id identityHash publicKey =>
    rw [mem_singleton.1 ha] at hr
    cases hr

theorem calls_processLinkActions {actions : List LinkAction}
    (h : ∀ id reason, .stateChanged id .closed reason ∉ actions) :
    Calls linkId (l.processLinkActions linkId actions) := by
  intro a ha r hr
  obtain ⟨action, hmem, ha⟩ := mem_flatMap.1 ha
  cases action with
  | stateChanged id newState reason =>
    dsimp only at ha
    split_ifs at ha with hclosed
    · exact absurd (hclosed ▸ hmem) (h id reason)
    · cases ha
  | linkEstablished id rtt isInitiator =>
    rw [mem_singleton.1 ha] at hr
    exact (Option.some.inj hr).symm
  | remoteIdentified id identityHash publicKey =>
    rw [mem_singleton.1 ha] at hr
    cases hr

theorem told_closeWith (reason : TeardownReason) :
    Told linkId l { l with engine := (l.engine.closeWith reason).1 }
      (l.processLinkActions linkId (l.engine.closeWith reason).2) := by
  by_cases hclosed : l.engine.state = .closed
  · have hclose : l.engine.closeWith reason = (l.engine, []) := if_pos hclosed
    rw [hclose]
    exact .refl
  · have hclose : l.engine.closeWith reason = ({ l.engine with state := .closed },
        [.stateChanged l.engine.linkId .closed (some reason)]) := if_neg hclosed
    rw [hclose]
    exact .closes hclosed rfl (ends_singleton _)

/-! ## Actions of transfers -/

theorem told_processResourceAction (iv : Vector UInt8 16) (action : ResourceAction) :
    Tells linkId l (l.processResourceAction P E linkId iv action) := by
  have hseal : ∀ context data, Calls linkId (l.sealLinkPacket P E linkId context iv data) :=
    fun context data => (mute_sealLinkPacket P E l linkId context iv data).calls
  cases action with
  | teardownLink => exact told_closeWith ..
  | sendPart _ | sendProof _ => exact told_of_engine rfl (mute_sendLinkPacket P _ _ _ _ _).calls
  | dataReceived _ _ | completed | failed _ | progressUpdate _ _ =>
    exact told_of_engine rfl (calls_singleton rfl)
  | _ => exact told_of_engine rfl (hseal _ _)

theorem processResourceAction_engine (h : action ≠ .teardownLink) (iv : Vector UInt8 16) :
    (l.processResourceAction P E linkId iv action).1 = l := by
  cases action with
  | teardownLink => exact absurd rfl h
  | _ => rfl

variable {actions : List ResourceAction}

theorem processResourceActions_engine (h : .teardownLink ∉ actions) (rng : Entropy) :
    (l.processResourceActions P E linkId rng actions).1 = l := by
  induction actions generalizing rng with
  | nil => rfl
  | cons action rest ih =>
    rw [mem_cons, not_or] at h
    simp only [processResourceActions, processResourceAction_engine P E l linkId (Ne.symm h.1)]
    exact ih h.2 _

theorem own_processResourceActions (rng : Entropy) (actions : List ResourceAction) :
    Own linkId (l.processResourceActions P E linkId rng actions).2 := by
  induction actions generalizing l rng with
  | nil => exact calls_nil.own
  | cons action rest ih =>
    exact (told_processResourceAction ..).own.append (ih _ _)

def TearsLast (actions : List ResourceAction) : Prop := ResourceAction.teardownLink ∉ actions.dropLast

theorem TearsLast.of_not_mem (h : .teardownLink ∉ actions) :
    TearsLast actions := fun hmem => h (List.dropLast_subset _ hmem)

theorem told_processResourceActions (h : TearsLast actions) (rng : Entropy) :
    Tells linkId l (l.processResourceActions P E linkId rng actions) := by
  induction actions generalizing rng with
  | nil => exact .refl
  | cons action rest ih =>
    cases rest with
    | nil =>
      simp only [processResourceActions, List.append_nil]
      exact told_processResourceAction ..
    | cons next rest =>
      rw [TearsLast, List.dropLast_cons_cons, mem_cons, not_or] at h
      have hstay := processResourceAction_engine P E l linkId (Ne.symm h.1) (rng.iv 0)
      have hfirst := told_processResourceAction P E l linkId (rng.iv 0) action
      have hrest := ih h.2 (rng.after 1)
      rw [processResourceActions]
      dsimp only
      unfold Tells at hfirst hrest ⊢
      rw [hstay] at hfirst ⊢
      cases hfirst with
      | kept _ hcalls =>
        cases hrest with
        | kept hkept hcalls' => exact .kept hkept (hcalls.append hcalls')
        | closes hopen hclosed hends => exact .closes hopen hclosed (hcalls.append_ends hends)
      | closes hopen hclosed _ => exact absurd hclosed hopen

theorem calls_processResourceActions (h : .teardownLink ∉ actions) (rng : Entropy) :
    Calls linkId (l.processResourceActions P E linkId rng actions).2 := by
  have htold := told_processResourceActions P E l linkId (.of_not_mem h) rng
  rw [Tells, processResourceActions_engine P E l linkId h] at htold
  cases htold with
  | kept _ hcalls => exact hcalls
  | closes hopen hclosed _ => exact absurd hclosed hopen

end ManagedLink

/-! ## What transfers ask for -/

def ResourceAction.sends : ResourceAction → Bool
  | .dataReceived _ _ | .completed | .failed _ | .teardownLink | .progressUpdate _ _ => false
  | _ => true

namespace ResourceReceiver

theorem requestNext_actions {r : ResourceReceiver} {now : ℚ}
    (hmem : action ∈ (r.requestNext now).2) : ∃ data, action = .sendRequest data := by
  by_cases hstop : r.status = .failed ∨ r.waitingForHmu
  · rw [requestNext, if_pos hstop] at hmem
    cases hmem
  · rw [requestNext, if_neg hstop] at hmem
    exact ⟨_, mem_singleton.1 hmem⟩

variable (r : ResourceReceiver) (now : ℚ)

theorem accept_keeps : .teardownLink ∉ (r.accept now).2 :=
  fun hmem => nomatch requestNext_actions hmem

theorem reject_keeps : .teardownLink ∉ r.reject.2 := by simp [reject]

theorem assemble_actions (decrypt : Bytes → Option Bytes) (compressor : Compressor) :
    (∃ error, (r.assemble P decrypt compressor).2 = [.failed error]) ∨
    (∃ hash error, (r.assemble P decrypt compressor).2 =
      [.sendCancelReceiver hash, .failed error, .teardownLink]) ∨
    ∃ proof data metadata, (r.assemble P decrypt compressor).2 =
      [.sendProof proof, .dataReceived data metadata, .completed] := by
  unfold assemble
  split_ifs
  · exact .inl ⟨_, rfl⟩
  · exact .inl ⟨_, rfl⟩
  · dsimp only
    split
    · exact .inl ⟨_, rfl⟩
    · split
      · exact .inr (.inl ⟨_, _, rfl⟩)
      · unfold finish
        dsimp only
        split_ifs
        · exact .inr (.inl ⟨_, _, rfl⟩)
        all_goals
          split
          · exact .inr (.inl ⟨_, _, rfl⟩)
          · exact .inr (.inr ⟨_, _, _, rfl⟩)

def GivesUp (r : ResourceReceiver) (now : ℚ) : Prop :=
  r.status = .transferring ∧ now > r.sleepTime ∧ r.retriesLeft = 0

def Complete (r : ResourceReceiver) : Prop := r.status = .transferring ∧ r.receivedCount = r.totalParts

instance (r : ResourceReceiver) (now : ℚ) : Decidable (r.GivesUp now) :=
  inferInstanceAs (Decidable (_ ∧ _))

instance (r : ResourceReceiver) : Decidable r.Complete := inferInstanceAs (Decidable (_ ∧ _))

theorem tick_actions {r : ResourceReceiver} (h : ¬r.Complete) (now : ℚ)
    (decrypt : Bytes → Option Bytes) (compressor : Compressor)
    (hmem : action ∈ (r.tick P now decrypt compressor).2) :
    (∃ data, action = .sendRequest data) ∨ r.GivesUp now ∧ ∃ error, action = .failed error := by
  unfold tick at hmem
  split_ifs at hmem with hstatus hall
  · cases hmem
  · exact absurd ⟨not_not.1 hstatus, hall⟩ h
  · dsimp only at hmem
    split_ifs at hmem with hlate hleft
    · exact .inl (requestNext_actions hmem)
    · exact .inr ⟨⟨not_not.1 hstatus, hlate, Nat.eq_zero_of_not_pos hleft⟩, _, mem_singleton.1 hmem⟩
    · cases hmem

end ResourceReceiver

namespace ResourceSender

theorem handleRequest_keeps (s : ResourceSender) (requestData : Bytes) (now : ℚ) :
    .teardownLink ∉ (s.handleRequest requestData now).2 := by
  unfold handleRequest
  split_ifs
  · simp
  · simp
  · simp [answerRequest, sendParts]

/-- The transfer is given up at this time. -/
def GivesUp (s : ResourceSender) (now : ℚ) : Prop :=
  match s.status with
  | .advertised =>
    now > s.advSent + s.rtt.getD (s.linkRtt * s.timeoutFactor) + 1 ∧ s.retriesLeft = 0
  | .transferring => now > s.lastActivity + s.maxWait
  | .awaitingProof =>
    now > s.lastPartSent + s.rtt.getD 1 * 3 + s.senderGraceTime ∧ s.retriesLeft = 0
  | _ => False

instance (s : ResourceSender) (now : ℚ) : Decidable (s.GivesUp now) := by
  unfold GivesUp
  split <;> infer_instance

theorem tick_actions {s : ResourceSender} {now : ℚ} (hmem : action ∈ (s.tick now).2) :
    (∃ data, action = .sendAdvertisement data) ∨ s.GivesUp now ∧ ∃ error, action = .failed error := by
  unfold tick at hmem
  split at hmem
  · next hstatus =>
    split_ifs at hmem with hlate hleft
    · exact .inr ⟨by rw [GivesUp, hstatus]; exact ⟨hlate, hleft⟩, _, mem_singleton.1 hmem⟩
    · exact .inl ⟨_, mem_singleton.1 hmem⟩
    · cases hmem
  · next hstatus =>
    split_ifs at hmem with hlate
    · exact .inr ⟨by rw [GivesUp, hstatus]; exact hlate, _, mem_singleton.1 hmem⟩
    · cases hmem
  · next hstatus =>
    split_ifs at hmem with hlate hleft
    · exact .inr ⟨by rw [GivesUp, hstatus]; exact ⟨hlate, hleft⟩, _, mem_singleton.1 hmem⟩
    · cases hmem
    · cases hmem
  · cases hmem

end ResourceSender

variable {requestId : Hash16}

namespace ManagedLink

variable (l : ManagedLink) (linkId : LinkId)

/-! ## Transfers -/

theorem proper_processResourceActions {actions : List ResourceAction} (h : TearsLast actions) (rng : Entropy) :
    Proper linkId l (l.processResourceActions P E linkId rng actions) :=
  ⟨quiet_processResourceActions .., told_processResourceActions P E l linkId h rng⟩

variable (sender : ResourceSender) (i : ℕ) (r : ResourceReceiver) (originalHash : Hash32)
  {actions : List ResourceAction} (plaintext : Bytes) (rng : Entropy) (now : ℚ)

theorem mute_processResourceActions (h : ∀ action ∈ actions, action.sends) (rng : Entropy) :
    Mute (l.processResourceActions P E linkId rng actions).2 := by
  induction actions generalizing l rng with
  | nil => exact mute_nil
  | cons action rest ih =>
    refine Mute.append ?_ (ih _ (fun action' h' => h action' (List.mem_cons_of_mem _ h')) _)
    have hsends := h action List.mem_cons_self
    cases action with
    | sendPart | sendProof => exact mute_sendLinkPacket P _ _ _ _ _
    | dataReceived | completed | failed | teardownLink | progressUpdate => cases hsends
    | _ => exact mute_sealLinkPacket P E l linkId _ _ _

theorem keeps_of_sends (h : ∀ action ∈ actions, action.sends) :
    .teardownLink ∉ actions := fun hmem => nomatch h _ hmem

theorem startSenders_still (senders : List ResourceSender) (rng : Entropy) (now : ℚ) :
    l.Still ((l.startResourceSenders senders now).1.processResourceActions P E linkId rng
        (l.startResourceSenders senders now).2).1 ∧
      Mute ((l.startResourceSenders senders now).1.processResourceActions P E linkId rng
        (l.startResourceSenders senders now).2).2 := by
  cases senders with
  | nil => exact ⟨.refl l, mute_nil⟩
  | cons first rest =>
    exact ⟨still_transfers l _ _ _ _, (mute_sealLinkPacket P E _ linkId _ _ _).append mute_nil⟩

theorem proper_acceptReceiver : Proper linkId l (l.acceptReceiver P E linkId r rng now) :=
  (still_transfers ..).proper
    (proper_processResourceActions P E _ linkId (.of_not_mem (r.accept_keeps now)) rng)

theorem proper_rejectReceiver : Proper linkId l (l.rejectReceiver P E linkId r rng) :=
  proper_processResourceActions P E l linkId (.of_not_mem r.reject_keeps) rng

theorem proper_admitReceiver :
    Proper linkId l (l.admitReceiver P E linkId r originalHash rng now) := by
  have hopen := (still_openSplit l originalHash r).proper (proper_acceptReceiver P E _ linkId r rng now)
  unfold admitReceiver
  split_ifs with hlater hresponse
  · split
    · split_ifs
      · exact (still_transfers ..).proper (proper_acceptReceiver P E _ linkId r rng now)
      · exact proper_rejectReceiver ..
    · exact proper_rejectReceiver ..
  · exact hopen
  · split
    · exact proper_rejectReceiver ..
    · exact hopen
    · exact (still_transfers ..).proper_of_calls (calls_singleton rfl)

theorem proper_handleResourceAdv :
    Proper linkId l (l.handleResourceAdv P E linkId plaintext rng now) := by
  unfold handleResourceAdv
  split
  · exact .refl
  · split
    · exact .refl
    · exact proper_admitReceiver ..

theorem offer_keeps {α : Type*} {skip : α → Bool} {handle : α → α × List ResourceAction}
    (h : ∀ x, .teardownLink ∉ (handle x).2) {transfers : List α} {i : ℕ} {before : α}
    {actions : List ResourceAction} (hanswer : (offer skip handle transfers).2 = some (i, before, actions)) :
    .teardownLink ∉ actions := by
  rw [(offer_answer hanswer).1, offerOne]
  split
  · simp
  · exact h before

theorem proper_handleResourceReq :
    Proper linkId l (l.handleResourceReq P E linkId plaintext rng now) := by
  unfold handleResourceReq
  dsimp only
  split
  · exact (still_transfers l _ _ _ _).proper_of_calls calls_nil
  · next i before actions hanswer =>
    have hkeeps := offer_keeps (fun s => s.handleRequest_keeps plaintext now) hanswer
    obtain ⟨splits, hreport, -⟩ := reportSent_frame { l with
      outgoingResources := (offer ResourceSender.waitsForTurn (fun s => s.handleRequest plaintext now)
        l.outgoingResources).1 } before
      ((offer ResourceSender.waitsForTurn (fun s => s.handleRequest plaintext now)
        l.outgoingResources).1.getD i before)
    rw [hreport, processResourceActions_engine P E _ linkId hkeeps]
    refine (still_transfers ..).proper_of_calls
      ((calls_processResourceActions P E _ linkId hkeeps rng).append ?_)
    intro a ha r hr
    obtain ⟨progress, -, rfl⟩ := mem_map.1 ha
    exact (Option.some.inj hr).symm

theorem proper_handleResourceHmu :
    Proper linkId l (l.handleResourceHmu P E linkId plaintext rng now) := by
  unfold handleResourceHmu
  dsimp only
  split
  · exact (still_transfers ..).proper_of_calls calls_nil
  · next hanswer =>
    have hkeeps := offer_keeps (fun r => r.routine_handleHashmapUpdate now plaintext _) hanswer
    exact (still_transfers ..).proper
      (proper_processResourceActions P E _ linkId (.of_not_mem hkeeps) rng)

theorem calls_handleResponse (metadata : Option Bytes) (requestId : Option Hash16) :
    Calls linkId (handleResponse linkId plaintext metadata requestId) := by
  unfold handleResponse
  split
  · exact calls_singleton rfl
  · split
    · exact calls_singleton rfl
    · exact calls_nil

theorem Calls.asResponse (h : Calls linkId out) (requestId : Option Hash16) :
    Calls linkId (asResponse linkId requestId out) := by
  intro a ha r hr
  obtain ⟨b, hb, ha⟩ := mem_flatMap.1 ha
  split at ha
  · exact calls_handleResponse linkId _ _ _ a ha r hr
  · cases ha
  · rw [mem_singleton.1 ha] at hr
    exact h b hb r hr

theorem Mute.asResponse (h : Mute out) (requestId : Option Hash16) :
    Mute (asResponse linkId requestId out) := by
  intro a ha
  obtain ⟨b, hb, ha⟩ := mem_flatMap.1 ha
  split at ha
  · exact nomatch h _ hb
  · cases ha
  · rw [mem_singleton.1 ha]
    exact h b hb

theorem Told.asResponse {l l' : ManagedLink} (h : Told linkId l l' out)
    (requestId : Option Hash16) : Told linkId l l' (asResponse linkId requestId out) := by
  cases h with
  | kept hkept hcalls => exact .kept hkept (Calls.asResponse linkId hcalls requestId)
  | closes hopen hclosed hends =>
    obtain ⟨before, reason, after, rfl, hbefore, hafter⟩ := hends
    refine .closes hopen hclosed ⟨_, reason, _, ?_, Calls.asResponse linkId hbefore requestId,
      Mute.asResponse linkId hafter requestId⟩
    simp only [ManagedLink.asResponse, List.flatMap_append, List.flatMap_cons]
    rfl

theorem reportReceived_keeps (h : .teardownLink ∉ actions) :
    .teardownLink ∉ (l.reportReceived r actions).2 := by
  unfold reportReceived
  split
  · exact h
  · split
    · exact h
    · intro hmem
      obtain ⟨action, haction, heq⟩ := mem_map.1 hmem
      split at heq
      · cases heq
      · exact h (heq ▸ haction)

theorem addSegment_keeps (key : Hash32) (r : ResourceReceiver) (data : Bytes) (metadata : Option Bytes) :
    .teardownLink ∉ (l.addSegment key r data metadata).2.1 := by
  unfold addSegment
  split
  · simp
  · dsimp only
    split <;> simp

theorem assembleReceiver_tearsLast : TearsLast (l.assembleReceiver P E i r).2.1 := by
  unfold assembleReceiver
  dsimp only
  split
  · obtain ⟨error, h⟩ | ⟨hash, error, h⟩ | ⟨proof, data, metadata, h⟩ :=
      r.assemble_actions P (l.decrypt E) E.compressor <;> simp [h, TearsLast]
  · next key _ =>
    obtain ⟨error, h⟩ | ⟨hash, error, h⟩ | ⟨proof, data, metadata, h⟩ :=
      r.assemble_actions P (l.decrypt E) E.compressor
    · simp [h, TearsLast, delivered, withoutDelivery]
    · simp [h, TearsLast, delivered, withoutDelivery]
    · have hadd := addSegment_keeps { l with
        incomingResources := l.incomingResources.set i (r.assemble P (l.decrypt E) E.compressor).1 } key r
        data metadata
      rw [h]
      refine .of_not_mem fun hmem => ?_
      obtain hmem | hmem := mem_append.1 hmem
      · simp [withoutDelivery] at hmem
      · exact hadd hmem

theorem TearsLast.append {more : List ResourceAction} (h : .teardownLink ∉ actions)
    (hmore : TearsLast more) : TearsLast (actions ++ more) := by
  unfold TearsLast
  rw [List.dropLast_append]
  split
  · exact fun hmem => h (List.dropLast_subset _ hmem)
  · exact fun hmem => (mem_append.1 hmem).elim h hmore

theorem proper_finishPart (h : .teardownLink ∉ actions) (rng : Entropy) :
    Proper linkId l (l.finishPart P E linkId i r actions rng) := by
  obtain ⟨splits, hreport, -⟩ := reportReceived_frame ..
  have hkeeps := reportReceived_keeps l r h
  unfold finishPart
  dsimp only
  rw [hreport]
  split
  · obtain ⟨splits', hassemble, -⟩ := assembleReceiver_frame P E { l with incomingSplits := splits } i r
    have htears := assembleReceiver_tearsLast P E { l with incomingSplits := splits } i r
    rw [hassemble]
    have hproper := (still_transfers l (l.incomingResources.set i (r.assemble P (l.decrypt E) E.compressor).1)
      l.outgoingResources splits' l.outgoingSplits).proper
      (proper_processResourceActions P E _ linkId (TearsLast.append hkeeps htears) rng)
    split_ifs
    · exact ⟨hproper.quiet, Told.asResponse linkId hproper.told _⟩
    · exact hproper
  · exact (still_transfers ..).proper
      (proper_processResourceActions P E _ linkId (.of_not_mem hkeeps) rng)

theorem proper_handleResourcePart {rawData : Bytes} {rng : Entropy} {now : ℚ} :
    Proper linkId l (l.handleResourcePart P E linkId rawData rng now) := by
  unfold handleResourcePart
  dsimp only
  split
  · exact (still_transfers ..).proper_of_calls calls_nil
  · next hanswer =>
    have hkeeps := offer_keeps (fun r => r.routine_receivePart P now rawData _) hanswer
    exact (still_transfers ..).proper (proper_finishPart P E _ linkId _ _ hkeeps rng)

theorem advertiseNext_keeps :
    l.Still (l.advertiseNext sender now).1 ∧ .teardownLink ∉ (l.advertiseNext sender now).2 := by
  unfold advertiseNext
  split
  · exact ⟨.refl l, by simp⟩
  · dsimp only
    split
    · exact ⟨still_transfers .., by simp⟩
    · exact ⟨still_transfers .., by simp [ResourceSender.advertise]⟩

theorem settleProof_keeps {actions : List ResourceAction} :
    l.Still (l.settleProof linkId sender now actions).1 ∧
      Calls linkId (l.settleProof linkId sender now actions).2.1 ∧
      .teardownLink ∉ (l.settleProof linkId sender now actions).2.2 := by
  induction actions generalizing l with
  | nil => exact ⟨.refl l, calls_nil, by simp [settleProof]⟩
  | cons action rest ih =>
    cases action with
    | completed =>
      rw [settleProof]
      split
      · obtain ⟨hstill, hkeeps⟩ := advertiseNext_keeps ..
        obtain ⟨hstill', hcalls, hkeeps'⟩ := ih (l.advertiseNext sender now).1
        exact ⟨hstill.trans hstill', hcalls, fun hmem => (mem_append.1 hmem).elim hkeeps hkeeps'⟩
      · obtain ⟨hstill, hcalls, hkeeps⟩ := ih { l with
          outgoingSplits := l.outgoingSplits.erase .. }
        exact ⟨(still_transfers ..).trans hstill, (calls_singleton rfl).append hcalls, hkeeps⟩
    | failed error =>
      rw [settleProof]
      dsimp only
      split
      · obtain ⟨hstill, hcalls, hkeeps⟩ := ih { l with
          outgoingSplits := l.outgoingSplits.erase .. }
        exact ⟨(still_transfers ..).trans hstill, (calls_singleton rfl).append hcalls, hkeeps⟩
      · obtain ⟨hstill, hcalls, hkeeps⟩ := ih l
        exact ⟨hstill, (calls_singleton rfl).append hcalls, hkeeps⟩
    | _ => exact ih l

theorem proper_handleResourcePrf :
    Proper linkId l (l.handleResourcePrf P E linkId plaintext rng now) := by
  unfold handleResourcePrf
  dsimp only
  split
  · exact (still_transfers ..).proper_of_calls calls_nil
  · next sender actions _ =>
    obtain ⟨hstill, hcalls, hkeeps⟩ := settleProof_keeps ..
    rw [processResourceActions_engine P E _ linkId hkeeps]
    exact ((still_transfers ..).trans (hstill.trans (still_transfers ..))).proper_of_calls
      (hcalls.append (calls_processResourceActions P E _ linkId hkeeps rng))

theorem calls_failures {actions : List ResourceAction} : Calls linkId (failures linkId actions) := by
  intro a ha r hr
  obtain ⟨action, -, ha⟩ := mem_flatMap.1 ha
  split at ha
  · rw [mem_singleton.1 ha] at hr
    exact (Option.some.inj hr).symm
  · cases ha

theorem proper_handleResourceIcl : Proper linkId l (l.handleResourceIcl linkId) :=
  (still_transfers l _ _ _ _).proper_of_calls (calls_failures _)

theorem proper_handleResourceRcl : Proper linkId l (l.handleResourceRcl linkId) :=
  (still_transfers l _ _ _ _).proper_of_calls (calls_failures _)

/-! ## Requests -/

theorem proper_sendResponseResource {responseData : Bytes} {metadata : Option Bytes}
    {autoCompress : Bool} {rng : Entropy} {now : ℚ} :
    Proper linkId l (l.sendResponseResource P E linkId requestId responseData metadata autoCompress rng now) := by
  unfold sendResponseResource
  split
  · exact .refl
  · split
    · exact .refl
    · obtain ⟨hstill, hmute⟩ := startSenders_still ..
      exact hstill.proper_of_calls hmute.calls

theorem proper_respond {rng : Entropy} {now : ℚ} {response : Option RequestResponse} :
    Proper linkId l (l.respond P E linkId requestId rng now response) := by
  match response with
  | none => exact .refl
  | some (.bytes data) =>
    simp only [respond]
    split
    · exact proper_sendResponseResource ..
    · exact (Still.refl l).proper_of_calls (mute_sealLinkPacket P E l linkId _ _ _).calls
  | some (.resource data metadata ..) =>
    exact proper_sendResponseResource ..

theorem Proper.cons {l : ManagedLink} {linkId : LinkId} (h : Proper linkId l result)
    (ha : a.report = none) : Proper linkId l (result.1, a :: result.2) := by
  have hmute : Mute [a] := fun b hb => by rw [mem_singleton.1 hb, ha]
  refine ⟨h.quiet, ?_⟩
  cases h.told with
  | kept hkept hcalls => exact .kept hkept (hmute.calls.append hcalls)
  | closes hopen hclosed hends => exact .closes hopen hclosed (hmute.calls.append_ends hends)

theorem proper_handleRequest {m : LinkManager} {plaintext : Bytes} {rng : Entropy} {now : ℚ} :
    Proper linkId l (m.handleRequest P E l linkId plaintext requestId rng now) := by
  unfold LinkManager.handleRequest
  split
  · exact .refl
  · split_ifs
    · exact Proper.refl.cons rfl
    · split
      · exact .refl
      · split_ifs
        · exact (proper_respond ..).cons rfl
        · exact .refl

/-! ## The engine -/

theorem told_activated {l l' l'' : ManagedLink} {id : LinkId} {rtt : ℚ} {isInitiator : Bool}
    (hopen : ¬l.Closed) (hactive : l'.engine.state = .active) :
    Told linkId l l'.startChannel (l''.processLinkActions linkId
      [.stateChanged id .active none, .linkEstablished id rtt isInitiator]) := by
  refine .kept (iff_of_false ?_ hopen) (calls_processLinkActions l'' linkId (by simp))
  rw [Closed, startChannel, if_pos hactive, hactive]
  decide

theorem told_handleLrrtt {l l' : ManagedLink} {now : ℚ} {actions : List LinkAction}
    (h : l.handleLrrtt P E data now = some (l', actions)) :
    l.engine.state = .handshake ∧ l'.engine.state = .active ∧ l.Quiet l' ∧
      Told linkId l l'.startChannel (l'.processLinkActions linkId actions) := by
  unfold handleLrrtt at h
  split_ifs at h with hguard
  simp only [not_or, not_not, Bool.not_eq_true] at hguard
  obtain ⟨plaintext, -, h⟩ := Option.bind_eq_some_iff.1 h
  obtain ⟨rtt, -, h⟩ := Option.map_eq_some_iff.1 h
  cases h
  refine ⟨hguard.1, rfl, quiet_engine (advance_activateResponder hguard.1 hguard.2 rtt now),
    told_activated linkId ?_ rfl⟩
  rw [Closed, hguard.1]
  decide

theorem proper_handleIdentify {l l' : ManagedLink} {actions : List LinkAction}
    (h : l.handleIdentify P E data = some (l', actions)) :
    Proper linkId l (l', l'.processLinkActions linkId actions) := by
  unfold handleIdentify at h
  split_ifs at h with hguard
  obtain ⟨plaintext, -, h⟩ := Option.bind_eq_some_iff.1 h
  split at h
  · cases h
  · cases h
    refine ⟨⟨⟨advance_of_state rfl rfl rfl (.inl rfl), rfl, rfl, rfl, rfl, rfl, rfl⟩, rfl, rfl⟩, ?_⟩
    exact .kept Iff.rfl (calls_processLinkActions _ linkId (by simp))

theorem recordInbound_kept :
    ({ l with engine := (l.engine.recordInbound now).1 }.Closed ↔ l.Closed) ∧
      ∀ l' : ManagedLink, Mute (l'.processLinkActions linkId (l.engine.recordInbound now).2) := by
  unfold recordInbound Closed
  split
  · next hstale =>
    refine ⟨by simp [hstale], fun l' a ha => ?_⟩
    simp [processLinkActions] at ha
  · exact ⟨Iff.rfl, fun l' => mute_nil⟩

theorem told_inbound (h : ∀ l : ManagedLink, Tells linkId l (handle l)) (now : ℚ) :
    Tells linkId l (l.inbound linkId now handle) := by
  obtain ⟨hkept, hmute⟩ := recordInbound_kept ..
  unfold inbound
  dsimp only
  cases h { l with engine := (l.engine.recordInbound now).1 } with
  | kept hkept' hcalls => exact .kept (hkept'.trans hkept) ((hmute _).calls.append hcalls)
  | closes hopen hclosed hends =>
    exact .closes (fun h => hopen (hkept.2 h)) hclosed ((hmute _).calls.append_ends hends)

theorem proper_inbound (h : ∀ l : ManagedLink, Proper linkId l (handle l)) (now : ℚ) :
    Proper linkId l (l.inbound linkId now handle) :=
  ⟨(quiet_engine (advance_recordInbound _ _)).trans (h _).quiet,
    told_inbound l linkId (fun l => (h l).told) now⟩

theorem proper_decrypted {handle : ManagedLink → Bytes → ManagedLink × List LinkManagerAction}
    (h : ∀ (l : ManagedLink) plaintext, Proper linkId l (handle l plaintext))
    (data : Bytes) (now : ℚ) : Proper linkId l (l.decrypted E linkId data now handle) := by
  unfold decrypted
  split
  · exact .refl
  · exact proper_inbound l linkId (fun l => h l _) now

/-! ## The channel -/

theorem mute_sendOnLink (iv : Vector UInt8 16) (raw : Bytes) (sequence : UInt16) :
    Mute (l.processChannelAction P E linkId iv (.sendOnLink raw sequence)).2 := by
  rw [processChannelAction]
  split
  · exact mute_nil
  · split
    · exact mute_nil
    · exact fun a ha => by rw [mem_singleton.1 ha]; rfl

theorem own_processChannelActions (actions : List ChannelAction) :
    Own linkId (l.processChannelActions P E linkId rng actions).2 := by
  induction actions generalizing l rng with
  | nil => exact calls_nil.own
  | cons action rest ih =>
    refine Own.append ?_ (ih _ _)
    cases action with
    | sendOnLink raw sequence => exact Calls.own (mute_sendOnLink P E l linkId _ raw sequence).calls
    | messageReceived msgtype payload sequence => exact (calls_singleton rfl).own
    | teardownLink => exact own_closed

theorem calls_processChannelActions {actions : List ChannelAction} (h : .teardownLink ∉ actions)
    (rng : Entropy) : Calls linkId (l.processChannelActions P E linkId rng actions).2 := by
  induction actions generalizing l rng with
  | nil => exact calls_nil
  | cons action rest ih =>
    rw [mem_cons, not_or] at h
    refine Calls.append ?_ (ih _ h.2 _)
    cases action with
    | sendOnLink raw sequence => exact (mute_sendOnLink P E l linkId _ raw sequence).calls
    | messageReceived msgtype payload sequence => exact calls_singleton rfl
    | teardownLink => exact absurd rfl h.1

theorem mute_processChannelActions {actions : List ChannelAction}
    (h : ∀ action ∈ actions, ∃ raw sequence, action = .sendOnLink raw sequence) (rng : Entropy) :
    Mute (l.processChannelActions P E linkId rng actions).2 := by
  induction actions generalizing l rng with
  | nil => exact mute_nil
  | cons action rest ih =>
    obtain ⟨raw, sequence, rfl⟩ := h action List.mem_cons_self
    exact (mute_sendOnLink P E l linkId _ raw sequence).append
      (ih _ (fun action' h' => h action' (List.mem_cons_of_mem _ h')) _)

end ManagedLink

namespace Channel

theorem collect_keeps (next : UInt16) (ring : List Envelope) :
    .teardownLink ∉ (collect next ring).2.2 := by
  induction ring generalizing next with
  | nil => simp [collect]
  | cons envelope ring ih =>
    have hrest := ih (next + 1)
    rw [collect]
    split
    · generalize collect (next + 1) ring = collected at hrest ⊢
      dsimp only
      split
      · simpa using hrest
      · exact hrest
    · simp

theorem receive_keeps (c : Channel) (raw : Bytes) : .teardownLink ∉ (c.receive raw).2 := by
  unfold receive
  split
  · simp
  · split_ifs
    · simp
    · simp
    · exact collect_keeps _ _

end Channel

namespace ManagedLink

variable (l : ManagedLink) (linkId : LinkId)

theorem told_receiveOnChannel {plaintext : Bytes} {rng : Entropy} :
    Tells linkId l (l.receiveOnChannel P E linkId plaintext rng) := by
  refine told_of_engine (continues_receiveOnChannel ..).2 ?_
  unfold receiveOnChannel
  split
  · exact calls_nil
  · exact calls_processChannelActions P E _ linkId (Channel.receive_keeps _ _) rng

end ManagedLink

namespace LinkManager

open ManagedLink

variable (m : LinkManager) (linkId : LinkId)

theorem mute_buildLinkPacketProof (l : ManagedLink) (packetHash : Hash32) :
    Mute (m.buildLinkPacketProof P l linkId packetHash) := by
  unfold buildLinkPacketProof
  split
  · exact mute_nil
  · exact mute_sendLinkPacket P _ _ _ _ _

theorem proper_handleContext (l : ManagedLink) (hrtt : packet.context ≠ PacketContext.lrRtt)
    (hchannel : packet.context ≠ PacketContext.channel) (packetHash : Hash32) (rng : Entropy)
    (now : ℚ) : Proper linkId l (m.handleContext P E l linkId packet packetHash rng now) := by
  apply handleContext_cases P E (motive := Proper linkId l)
  case lrRtt => exact fun h => absurd h hrtt
  case linkIdentify =>
    intro
    cases hidentify : l.handleIdentify P E packet.data with
    | none => exact .refl
    | some identified => exact proper_handleIdentify P E linkId hidentify
  case keepalive => exact fun _ => proper_inbound l linkId (fun _ => .refl) now
  case linkClose => exact fun _ => ⟨quiet_engine (advance_closeWith _ _), told_closeWith ..⟩
  case channel => exact fun h => absurd h hchannel
  case request =>
    exact fun _ => proper_decrypted E l linkId (fun l _ => proper_handleRequest ..) _ now
  case response =>
    exact fun _ => proper_decrypted E l linkId (fun l plaintext =>
      (Still.refl l).proper_of_calls (calls_handleResponse linkId plaintext none none)) _ now
  case resourceAdv =>
    exact fun _ => proper_decrypted E l linkId (fun l _ => proper_handleResourceAdv ..) _ now
  case resourceReq =>
    exact fun _ => proper_decrypted E l linkId (fun l _ => proper_handleResourceReq ..) _ now
  case resourceHmu =>
    exact fun _ => proper_decrypted E l linkId (fun l _ => proper_handleResourceHmu ..) _ now
  case resource =>
    exact fun _ => proper_inbound l linkId (fun l => proper_handleResourcePart ..) now
  case resourcePrf =>
    exact fun _ => proper_decrypted E l linkId (fun l _ => proper_handleResourcePrf ..) _ now
  case resourceIcl => exact fun _ => proper_inbound l linkId (fun l => proper_handleResourceIcl ..) now
  case resourceRcl => exact fun _ => proper_inbound l linkId (fun l => proper_handleResourceRcl ..) now
  case other =>
    exact fun _ => proper_decrypted E l linkId (fun l _ => (Still.refl l).proper_of_calls
      ((calls_singleton rfl).append (mute_buildLinkPacketProof P m linkId l packetHash).calls)) _ now

variable {m linkId}

theorem handleContext_channel {l : ManagedLink} (hchannel : packet.context = PacketContext.channel)
    (packetHash : Hash32) (rng : Entropy) (now : ℚ) :
    m.handleContext P E l linkId packet packetHash rng now =
      l.decrypted E linkId packet.data now fun l plaintext =>
        let (l, out) := l.receiveOnChannel P E linkId plaintext rng
        (l, out ++ m.buildLinkPacketProof P l linkId packetHash) := by
  have hrtt : ¬packet.context = PacketContext.lrRtt := by rw [hchannel]; decide
  have hidentify : ¬packet.context = PacketContext.linkIdentify := by rw [hchannel]; decide
  have hkeepalive : ¬packet.context = PacketContext.keepalive := by rw [hchannel]; decide
  have hclose : ¬packet.context = PacketContext.linkClose := by rw [hchannel]; decide
  rw [handleContext, if_neg hrtt, if_neg hidentify, if_neg hkeepalive, if_neg hclose, if_pos hchannel]

theorem told_handleContext (l : ManagedLink) (packet : RawPacket) (packetHash : Hash32) (rng : Entropy)
    (now : ℚ) : l.Continues (m.handleContext P E l linkId packet packetHash rng now).1 ∧
      Tells linkId l (m.handleContext P E l linkId packet packetHash rng now) := by
  by_cases hrtt : packet.context = PacketContext.lrRtt
  · rw [handleContext, if_pos hrtt]
    cases hactive : l.handleLrrtt P E packet.data now with
    | none => exact ⟨(Quiet.refl l).toContinues, .refl⟩
    | some activated =>
      obtain ⟨-, -, hquiet, htold⟩ := told_handleLrrtt P E linkId hactive
      exact ⟨hquiet.toContinues.trans (continues_startChannel _), htold⟩
  by_cases hchannel : packet.context = PacketContext.channel
  · rw [handleContext_channel P E hchannel, decrypted]
    split
    · exact ⟨(Quiet.refl l).toContinues, .refl⟩
    · next plaintext _ =>
      refine ⟨(quiet_engine (advance_recordInbound _ _)).toContinues.trans
        (continues_receiveOnChannel ..).1, told_inbound l linkId (fun l => ?_) now⟩
      have hmute := mute_buildLinkPacketProof P m linkId (l.receiveOnChannel P E linkId plaintext rng).1 packetHash
      exact (told_receiveOnChannel ..).trans (told_of_engine rfl hmute.calls) fun _ => hmute
  · have hproper := proper_handleContext P E m linkId l hrtt hchannel packetHash rng now
    exact ⟨hproper.quiet.toContinues, hproper.told⟩

end LinkManager

end Rns
