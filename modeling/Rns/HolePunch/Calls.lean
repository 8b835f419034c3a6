import Rns.HolePunch.Engine
import Rns.Lib.Machine

/-!
# Resetting an engine, and calls that fail

`reset` gives back everything but the probe protocol, which becomes the default.  Some calls store what
they have read or computed before they fail.
-/

namespace Rns

open HolePunch

inductive HolePunchCall where
  | propose (derivedKey : Bytes) (now : ℚ) (sessionId : SessionId)
  | endpointsDiscovered (publicEndpoint : Endpoint) (now : ℚ)
  | handleSignal (msgtype : UInt16) (payload : Bytes) (derivedKey : Option Bytes) (now : ℚ)
  | punchSucceeded (now : ℚ)
  | punchFailed (now : ℚ)
  | tick (now : ℚ)
  | setFacilitator (addr : Endpoint)
  | reset
  deriving DecidableEq

variable (msgtype : UInt16) (payload : Bytes) (derivedKey : Option Bytes) (now : ℚ)

variable {e' : HolePunchEngine}

namespace HolePunchEngine

variable (P : Primitives)

def call (e : HolePunchEngine) : HolePunchCall → Result
  | .propose derivedKey now sessionId => e.propose P derivedKey now sessionId
  | .endpointsDiscovered publicEndpoint now => e.endpointsDiscovered publicEndpoint now
  | .handleSignal msgtype payload derivedKey now => e.handleSignal P msgtype payload derivedKey now
  | .punchSucceeded now => e.punchSucceeded now
  | .punchFailed now => e.punchFailed now
  | .tick now => ((e.tick now).1, .ok (e.tick now).2)
  | .setFacilitator addr => (e.setFacilitator addr, .ok [])
  | .reset => (e.reset, .ok [])

def calls : Machine HolePunchEngine HolePunchCall (Except HolePunchError (List HolePunchAction)) where
  step e c := ((e.call P c).1, [(e.call P c).2])

/-! ## What every call keeps -/

/-- An engine that discovers endpoints knows whom to tell. -/
def Prepared (e : HolePunchEngine) : Prop :=
  e.state = .discovering → if e.isInitiator then e.facilitatorAddr.isSome else e.peerPublicEndpoint.isSome

structure Kept (e e' : HolePunchEngine) : Prop where
  linkId : e'.linkId = e.linkId
  probeAddr : e'.probeAddr = e.probeAddr
  prepared : e.Prepared → e'.Prepared

variable {P} {e : HolePunchEngine}

theorem Kept.refl (e : HolePunchEngine) : Kept e e := ⟨rfl, rfl, id⟩

theorem Kept.of_state (hlinkId : e'.linkId = e.linkId) (hprobeAddr : e'.probeAddr = e.probeAddr)
    (hstate : e'.state ≠ .discovering) : Kept e e' :=
  ⟨hlinkId, hprobeAddr, fun _ h => absurd h hstate⟩

theorem kept_handleUpgradeRequest : Kept e (e.handleUpgradeRequest P payload derivedKey now).1 := by
  unfold handleUpgradeRequest
  split_ifs with hbusy
  · split <;> exact .refl e
  · have hidle : e.state = .idle := not_not.mp hbusy
    split
    · exact .refl e
    · split
      · exact .refl e
      · dsimp only
        split
        · exact .of_state rfl rfl (by rw [hidle]; decide)
        · exact ⟨rfl, rfl, fun _ _ => rfl⟩

theorem kept_handleSignal : Kept e (e.handleSignal P msgtype payload derivedKey now).1 := by
  unfold handleSignal
  split_ifs
  · exact kept_handleUpgradeRequest ..
  all_goals
    try unfold handleUpgradeAccept
    try unfold handleUpgradeReject
    try unfold handleUpgradeReady
    try unfold handleUpgradeComplete
    repeat' split
    all_goals first | exact .refl e | exact .of_state rfl rfl nofun

theorem kept_call (e : HolePunchEngine) (c : HolePunchCall) : Kept e (e.call P c).1 := by
  cases c with
  | propose derivedKey now sessionId =>
    unfold call propose
    dsimp only
    split_ifs with hbusy
    · exact .refl e
    · have hidle : e.state = .idle := not_not.mp hbusy
      split
      · exact .of_state rfl rfl (by rw [hidle]; decide)
      · split
        · exact .of_state rfl rfl (by rw [hidle]; decide)
        · exact ⟨rfl, rfl, fun _ _ => rfl⟩
  | endpointsDiscovered publicEndpoint now =>
    unfold call endpointsDiscovered
    dsimp only
    repeat' split
    all_goals first | exact ⟨rfl, rfl, id⟩ | exact .of_state rfl rfl nofun
  | handleSignal msgtype payload derivedKey now => exact kept_handleSignal ..
  | punchSucceeded | punchFailed =>
    simp only [call, punchSucceeded, punchFailed]
    split_ifs
    · exact .refl e
    · exact .of_state rfl rfl nofun
  | tick now =>
    change Kept e (e.tick now).1
    unfold tick
    repeat' split
    all_goals first | exact .refl e | exact .of_state rfl rfl nofun
  | setFacilitator addr =>
    refine ⟨rfl, rfl, fun h hstate => ?_⟩
    have hknown := h hstate
    change if e.isInitiator then _ else _
    split_ifs at hknown ⊢
    · rfl
    · exact hknown
  | reset => exact .of_state rfl rfl nofun

theorem kept_run (e : HolePunchEngine) (cs : List HolePunchCall) : Kept e ((calls P).run e cs).1 := by
  induction cs generalizing e with
  | nil => exact .refl e
  | cons c cs ih =>
    have hstep := kept_call (P := P) e c
    have hrest := ih (e.call P c).1
    exact ⟨hrest.linkId.trans hstep.linkId, hrest.probeAddr.trans hstep.probeAddr,
      fun h => hrest.prepared (hstep.prepared h)⟩

/-! ## Reset -/

/-- The engines are the same, or idle ones without a probe server, which do not use their protocols. -/
def Alike (e e' : HolePunchEngine) : Prop :=
  e = e' ∨ e.state = .idle ∧ e.probeAddr = none ∧ ∃ probeProtocol, e' = { e with probeProtocol }

theorem Alike.call (h : Alike e e') (c : HolePunchCall) :
    Alike (e.call P c).1 (e'.call P c).1 ∧ (e.call P c).2 = (e'.call P c).2 := by
  rcases h with rfl | ⟨hidle, hnone, probeProtocol, rfl⟩
  · exact ⟨.inl rfl, rfl⟩
  obtain ⟨linkId, session, state, isInitiator, ours, peer, facilitator, token, probeAddr, _, entered⟩ := e
  obtain rfl : state = .idle := hidle
  obtain rfl : probeAddr = none := hnone
  cases c with
  | propose derivedKey now sessionId =>
    simp only [HolePunchEngine.call, propose, ne_eq, not_true_eq_false, if_false]
    cases derivePunchToken P derivedKey sessionId <;> exact ⟨.inr ⟨rfl, rfl, probeProtocol, rfl⟩, rfl⟩
  | handleSignal msgtype payload derivedKey now =>
    simp only [HolePunchEngine.call, handleSignal, handleUpgradeRequest, handleUpgradeAccept,
      handleUpgradeReject, handleUpgradeReady, handleUpgradeComplete, ne_eq, not_true_eq_false, if_false,
      reduceCtorEq, not_false_eq_true, true_or, and_self, if_true]
    by_cases hrequest : msgtype = upgradeRequest
    · rw [if_pos hrequest, if_pos hrequest]
      cases derivedKey with
      | none => exact ⟨.inr ⟨rfl, rfl, probeProtocol, rfl⟩, rfl⟩
      | some derivedKey =>
        -- the protocol of the request takes the place of the engine's own
        cases decodeUpgradeRequest payload with
        | error err => exact ⟨.inr ⟨rfl, rfl, probeProtocol, rfl⟩, rfl⟩
        | ok request =>
          dsimp only
          cases derivePunchToken P derivedKey request.1 <;> exact ⟨.inl rfl, rfl⟩
    · rw [if_neg hrequest, if_neg hrequest]
      split_ifs <;> exact ⟨.inr ⟨rfl, rfl, probeProtocol, rfl⟩, rfl⟩
  | reset => exact ⟨.inl rfl, rfl⟩
  | _ => exact ⟨.inr ⟨rfl, rfl, probeProtocol, rfl⟩, rfl⟩

theorem Alike.run (h : Alike e e') (cs : List HolePunchCall) :
    ((calls P).run e cs).2 = ((calls P).run e' cs).2 := by
  induction cs generalizing e e' with
  | nil => rfl
  | cons c cs ih =>
    obtain ⟨halike, hresult⟩ := h.call (P := P) c
    exact congrArg₂ List.cons hresult (ih halike)

theorem derivePunchToken_nil (P : Primitives) (sessionId : SessionId) :
    derivePunchToken P [] sessionId = .error .noDerivedKey :=
  rfl

theorem derivePunchToken_ok (P : Primitives) {derivedKey : Bytes} (h : derivedKey ≠ [])
    (sessionId : SessionId) : ∃ punchToken, derivePunchToken P derivedKey sessionId = .ok punchToken := by
  have hlength : 1 ≤ 32 := by decide
  obtain ⟨key, hkey, -⟩ := Hkdf.hkdf_ok P hlength h ..
  exact ⟨_, by rw [derivePunchToken, hkey]⟩

/-- An engine that was reset behaves like a new one exactly if it was made for the default protocol, or
without a probe server. -/
theorem reset_like_new_iff (P : Primitives) (linkId : Vector UInt8 16) (probeAddr : Option Endpoint)
    (probeProtocol : ProbeProtocol) (before : List HolePunchCall) :
    (∀ later, ((calls P).run
        ((calls P).run (.new linkId probeAddr probeProtocol) before).1.reset later).2 =
      ((calls P).run (.new linkId probeAddr probeProtocol) later).2) ↔
    probeProtocol = .rnsp ∨ probeAddr = none := by
  have hkept := kept_run (P := P) (.new linkId probeAddr probeProtocol) before
  have hreset : ((calls P).run (.new linkId probeAddr probeProtocol) before).1.reset =
      .new linkId probeAddr .rnsp := by
    rw [reset, hkept.linkId, hkept.probeAddr]
    rfl
  rw [hreset]
  constructor
  · intro h
    cases probeAddr with
    | none => exact .inr rfl
    | some addr =>
      obtain ⟨punchToken, htoken⟩ := derivePunchToken_ok P (List.cons_ne_nil 0 []) (.replicate 16 0)
      have hpropose := h [.propose [0] 0 (.replicate 16 0)]
      simp [Machine.run, calls, call, propose, new, htoken] at hpropose
      exact .inl hpropose.symm
  · rintro (rfl | rfl)
    · exact fun _ => rfl
    · exact Alike.run (.inr ⟨rfl, rfl, probeProtocol, rfl⟩)

/-- The next proposal after a reset probes with another protocol. -/
theorem reset_changes_protocol :
    let e : HolePunchEngine := .new (.replicate 16 1) (some ⟨[10, 0, 0, 9], 7⟩) .stun
    let later : List HolePunchCall := [.propose [1] 0 (.replicate 16 5)]
    ((calls .sample).run e.reset later).2 ≠ ((calls .sample).run e later).2 := by
  decide +kernel

/-! ## Calls that fail -/

variable (P) in
/-- A call that can fail once it has stored something finds it stored already: a proposal without a
derived key or a probe server, a request without a derived key. -/
def StoresNothing (e : HolePunchEngine) : HolePunchCall → Prop
  | .propose derivedKey _ sessionId =>
    e.state = .idle → derivedKey = [] ∨ e.probeAddr = none →
      sessionId = e.sessionId ∧ e.isInitiator = true ∧
      (derivedKey ≠ [] → derivePunchToken P derivedKey sessionId = .ok e.punchToken)
  | .handleSignal msgtype payload derivedKey _ =>
    msgtype = upgradeRequest → e.state = .idle → derivedKey = some [] →
      ∀ sessionId facilitator initiatorPublic protocol,
        decodeUpgradeRequest payload = .ok (sessionId, facilitator, initiatorPublic, protocol) →
        sessionId = e.sessionId ∧ e.isInitiator = false ∧ protocol = e.probeProtocol
  | _ => True

theorem propose_unchanged_iff (derivedKey : Bytes) (now : ℚ) (sessionId : SessionId) :
    (∀ err, (e.propose P derivedKey now sessionId).2 = .error err →
      (e.propose P derivedKey now sessionId).1 = e) ↔
    e.StoresNothing P (.propose derivedKey now sessionId) := by
  unfold propose
  simp only [StoresNothing]
  by_cases hidle : e.state = .idle
  · rw [if_neg (not_not.mpr hidle)]
    by_cases hkey : derivedKey = []
    · subst hkey
      rw [derivePunchToken_nil]
      cases e
      simp_all
    · obtain ⟨punchToken, htoken⟩ := derivePunchToken_ok P hkey ..
      rw [htoken]
      cases hprobe : e.probeAddr with
      | none =>
        cases e
        simp_all
      | some addr => simp [hkey]
  · rw [if_pos hidle]
    exact iff_of_true (fun _ _ => rfl) fun h => absurd h hidle

theorem handleUpgradeRequest_unchanged_iff :
    (∀ err, (e.handleUpgradeRequest P payload derivedKey now).2 = .error err →
      (e.handleUpgradeRequest P payload derivedKey now).1 = e) ↔
    e.StoresNothing P (.handleSignal upgradeRequest payload derivedKey now) := by
  unfold handleUpgradeRequest
  simp only [StoresNothing, forall_const]
  by_cases hidle : e.state = .idle
  · rw [if_neg (not_not.mpr hidle)]
    cases derivedKey with
    | none => exact iff_of_true (fun _ _ => rfl) nofun
    | some derivedKey =>
      cases decodeUpgradeRequest payload with
      | error err => exact iff_of_true (fun _ _ => rfl) nofun
      | ok request =>
        obtain ⟨sessionId, facilitator, initiatorPublic, protocol⟩ := request
        dsimp only
        by_cases hkey : derivedKey = []
        · subst hkey
          rw [derivePunchToken_nil]
          cases e
          simp_all only [HolePunchEngine.mk.injEq, Except.ok.injEq, Prod.mk.injEq, and_imp, forall_const]
          constructor
          · rintro h _ _ _ _ rfl - - rfl
            simpa using h
          · intro h
            simpa using h _ _ _ _ rfl rfl rfl rfl
        · obtain ⟨punchToken, htoken⟩ := derivePunchToken_ok P hkey ..
          rw [htoken]
          simp [hkey]
  · rw [if_pos hidle]
    exact iff_of_true (fun _ _ => by split <;> rfl) fun h => absurd h hidle

theorem handleSignal_unchanged_iff :
    (∀ err, (e.handleSignal P msgtype payload derivedKey now).2 = .error err →
      (e.handleSignal P msgtype payload derivedKey now).1 = e) ↔
    e.StoresNothing P (.handleSignal msgtype payload derivedKey now) := by
  unfold handleSignal
  by_cases hrequest : msgtype = upgradeRequest
  · rw [if_pos hrequest, hrequest]
    exact handleUpgradeRequest_unchanged_iff ..
  · rw [if_neg hrequest]
    refine iff_of_true ?_ ?_
    · unfold handleUpgradeAccept handleUpgradeReject handleUpgradeReady handleUpgradeComplete
      repeat' split
      all_goals first | exact fun _ _ => rfl | exact nofun
    · exact fun h => absurd h hrequest

theorem endpointsDiscovered_unchanged (h : e.Prepared) (publicEndpoint : Endpoint) (now : ℚ) :
    ∀ err, (e.endpointsDiscovered publicEndpoint now).2 = .error err →
      (e.endpointsDiscovered publicEndpoint now).1 = e := by
  unfold endpointsDiscovered
  by_cases hstate : e.state = .discovering
  · have hknown := h hstate
    rw [if_neg (not_not.mpr hstate)]
    dsimp only
    split_ifs at hknown ⊢
    · obtain ⟨facilitator, hfacilitator⟩ := Option.isSome_iff_exists.mp hknown
      rw [hfacilitator]
      exact nofun
    · obtain ⟨peerPublic, hpeer⟩ := Option.isSome_iff_exists.mp hknown
      rw [hpeer]
      exact nofun
  · rw [if_pos hstate]
    exact fun _ _ => rfl

/-- A call that fails leaves the engine as it was exactly if it stores nothing new on its way. -/
theorem failed_call_unchanged_iff (P : Primitives) (linkId : Vector UInt8 16)
    (probeAddr : Option Endpoint) (probeProtocol : ProbeProtocol) (before : List HolePunchCall)
    (c : HolePunchCall) :
    let e := ((calls P).run (.new linkId probeAddr probeProtocol) before).1
    (∀ err, (e.call P c).2 = .error err → (e.call P c).1 = e) ↔ e.StoresNothing P c := by
  intro e
  have hprepared : e.Prepared := (kept_run ..).prepared nofun
  cases c with
  | propose derivedKey now sessionId => exact propose_unchanged_iff ..
  | endpointsDiscovered publicEndpoint now =>
    exact iff_of_true (endpointsDiscovered_unchanged hprepared publicEndpoint now) trivial
  | handleSignal msgtype payload derivedKey now =>
    exact handleSignal_unchanged_iff ..
  | punchSucceeded | punchFailed =>
    refine iff_of_true ?_ trivial
    simp only [call, punchSucceeded, punchFailed]
    split_ifs
    · exact fun _ _ => rfl
    · exact nofun
  | _ => exact iff_of_true nofun trivial

/-- Without a probe server a proposal fails, and the engine has a session id and a token. -/
theorem failed_proposal_stores :
    let e : HolePunchEngine := .new (.replicate 16 1) none .rnsp
    let result := e.propose .sample [1] 0 (.replicate 16 5)
    result.2 = .error .noProbeAddr ∧ result.1 ≠ e := by
  decide +kernel

end HolePunchEngine

end Rns
