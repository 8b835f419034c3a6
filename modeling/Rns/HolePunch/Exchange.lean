import Rns.HolePunch.Engine
import Rns.Lib.Machine

/-!
# Hole-punch signals between two engines

Two engines on one link send each other signals that may be lost, repeated and delivered in any order.
`Moves` lists what an operation can do to an engine and which signals go with it.
-/

namespace Rns

open HolePunch

abbrev Signal := UInt16 × Bytes

/-- What happens to an engine. -/
inductive HolePunchOp where
  | propose (sessionId : SessionId) (now : ℚ)
  | endpointsDiscovered (publicEndpoint : Endpoint) (now : ℚ)
  | handleSignal (signal : Signal) (keyKnown : Bool) (now : ℚ)
  | punchSucceeded (now : ℚ)
  | punchFailed (now : ℚ)
  | tick (now : ℚ)
  | setFacilitator (addr : Endpoint)
  | reset
  deriving DecidableEq

namespace HolePunchOp

def proposal : HolePunchOp → Option SessionId
  | propose sessionId _ => some sessionId
  | _ => none

def endpoint : HolePunchOp → Option Endpoint
  | endpointsDiscovered publicEndpoint _ => some publicEndpoint
  | setFacilitator addr => some addr
  | _ => none

def Arrives (inbox : List Signal) : HolePunchOp → Prop
  | handleSignal signal _ _ => signal.1 = upgradeComplete ∨ signal ∈ inbox
  | _ => True

instance (inbox : List Signal) (op : HolePunchOp) : Decidable (op.Arrives inbox) := by
  cases op <;> unfold Arrives <;> infer_instance

end HolePunchOp

def HolePunchAction.signal : HolePunchAction → Option Signal
  | sendSignal _ msgtype payload => some (msgtype, payload)
  | _ => none

def HolePunchEngine.Result.sent (r : HolePunchEngine.Result) : HolePunchEngine × List Signal :=
  (r.1, match r.2 with
    | .ok actions => actions.filterMap HolePunchAction.signal
    | .error _ => [])

/-- An operation, with the signals it sends. -/
def HolePunchEngine.apply (P : Primitives) (key : Bytes) (e : HolePunchEngine) :
    HolePunchOp → HolePunchEngine × List Signal
  | .propose sessionId now => (e.propose P key now sessionId).sent
  | .endpointsDiscovered publicEndpoint now => (e.endpointsDiscovered publicEndpoint now).sent
  | .handleSignal signal keyKnown now =>
    (e.handleSignal P signal.1 signal.2 (if keyKnown then some key else none) now).sent
  | .punchSucceeded now => (e.punchSucceeded now).sent
  | .punchFailed now => (e.punchFailed now).sent
  | .tick now => ((e.tick now).1, (e.tick now).2.filterMap HolePunchAction.signal)
  | .setFacilitator addr => (e.setFacilitator addr, [])
  | .reset => (e.reset, [])

/-- An end of the link: the engine and all signals it has sent. -/
structure HolePunchEnd where
  engine : HolePunchEngine
  out : List Signal
  deriving DecidableEq

def HolePunchEnd.after (P : Primitives) (key : Bytes) (x : HolePunchEnd) (inbox : List Signal)
    (op : HolePunchOp) : HolePunchEnd :=
  if op.Arrives inbox then ⟨(x.engine.apply P key op).1, x.out ++ (x.engine.apply P key op).2⟩ else x

structure HolePunchPair where
  left : HolePunchEnd
  right : HolePunchEnd
  deriving DecidableEq

/-- What happens, and at which end. -/
inductive HolePunchEvent where
  | left (op : HolePunchOp)
  | right (op : HolePunchOp)
  deriving DecidableEq

namespace HolePunchEvent

def op : HolePunchEvent → HolePunchOp
  | left op => op
  | right op => op

def leftProposal : HolePunchEvent → Option SessionId
  | left op => op.proposal
  | right _ => none

def rightProposal : HolePunchEvent → Option SessionId
  | left _ => none
  | right op => op.proposal

end HolePunchEvent

def holePunch (P : Primitives) (key : Bytes) : Machine HolePunchPair HolePunchEvent Empty where
  step pair
    | .left op => ({ pair with left := pair.left.after P key pair.right.out op }, [])
    | .right op => ({ pair with right := pair.right.after P key pair.left.out op }, [])

variable {payload : Bytes} {other : UInt16} {e : HolePunchEngine}

namespace HolePunch

/-! ## What messages say -/

def Tells (msgtype : UInt16) (means : Bytes → Prop) (out : List Signal) : Prop :=
  ∃ payload, (msgtype, payload) ∈ out ∧ means payload

variable (out : List Signal) (sessionId : SessionId)

def Requests (initiatorPublic : Endpoint) : Prop :=
  Tells upgradeRequest (fun payload => ∃ facilitator protocol, decodeUpgradeRequest payload =
    .ok (sessionId, facilitator, initiatorPublic, protocol)) out

def Accepts : Prop :=
  Tells upgradeAccept (fun payload => decodeUpgradeAccept payload = .ok sessionId) out

def Readies (responderPublic : Endpoint) : Prop :=
  Tells upgradeReady (fun payload => decodeUpgradeReady payload = .ok (sessionId, responderPublic)) out

section Tells

variable {msgtype : UInt16} {means : Bytes → Prop} {out sent : List Signal}

theorem tells_append : Tells msgtype means (out ++ sent) ↔ Tells msgtype means out ∨ Tells msgtype means sent := by
  simp only [Tells, List.mem_append, or_and_right, exists_or]

theorem Tells.left (h : Tells msgtype means out) : Tells msgtype means (out ++ sent) :=
  tells_append.2 (.inl h)

theorem Tells.right (h : Tells msgtype means sent) : Tells msgtype means (out ++ sent) :=
  tells_append.2 (.inr h)

theorem tells_singleton : Tells msgtype means [(msgtype, payload)] ↔ means payload := by
  simp [Tells]

theorem not_tells (hne : msgtype ≠ other) (hsent : ∀ signal ∈ sent, signal.1 = other) :
    ¬Tells msgtype means sent := by
  rintro ⟨payload, hmem, -⟩
  exact hne (hsent _ hmem)

theorem type_singleton : ∀ signal ∈ [(other, payload)], signal.1 = other :=
  fun _ hmem => by rw [List.mem_singleton.1 hmem]

theorem tells_append_other (hne : msgtype ≠ other) (hsent : ∀ signal ∈ sent, signal.1 = other) :
    Tells msgtype means (out ++ sent) ↔ Tells msgtype means out := by
  rw [tells_append, or_iff_left (not_tells hne hsent)]

end Tells

end HolePunch

namespace HolePunchEngine

variable {P : Primitives} {key : Bytes}

def Up (e : HolePunchEngine) : Prop := e.state = .punching ∨ e.state = .connected

instance (e : HolePunchEngine) : Decidable e.Up := inferInstanceAs (Decidable (_ ∨ _))

theorem Up.ne_idle (h : e.Up) : e.state ≠ .idle := by
  rcases h with h | h <;> rw [h] <;> decide

theorem Up.ne_discovering (h : e.Up) : e.state ≠ .discovering := by
  rcases h with h | h <;> rw [h] <;> decide

/-- What an engine does not change during a session. -/
structure SameSession (e e' : HolePunchEngine) : Prop where
  sessionId : e'.sessionId = e.sessionId
  isInitiator : e'.isInitiator = e.isInitiator
  punchToken : e'.punchToken = e.punchToken
  probeAddr : e'.probeAddr = e.probeAddr

/-- Everything an operation can do, with the signals it sends. -/
inductive Moves (P : Primitives) (key : Bytes) (inbox : List Signal) (op : HolePunchOp)
    (e e' : HolePunchEngine) : List Signal → Prop
  | idle (hidle : e'.state = .idle) (hwas : op = .reset ∨ e.state = .idle)
      (hprobe : e'.probeAddr = e.probeAddr) : Moves P key inbox op e e' []
  | stays {sent : List Signal} (hbusy : e.state ≠ .idle) (hbusy' : e'.state ≠ .idle)
      (hsame : e.SameSession e') (hpeer : e'.peerPublicEndpoint = e.peerPublicEndpoint)
      (hour : e'.ourPublicEndpoint = e.ourPublicEndpoint ∨
        e.state = .discovering ∧ e'.state = .discovering)
      (hfacilitator : e'.facilitatorAddr = e.facilitatorAddr ∨ e'.facilitatorAddr = op.endpoint)
      (hdiscovering : e'.state = .discovering → e.state = .discovering)
      (hup : e'.Up → e.Up)
      (hsent : ∀ signal ∈ sent, signal.1 = upgradeReject) : Moves P key inbox op e e' sent
  | proposes (hop : op.proposal = some e'.sessionId) (hidle : e.state = .idle)
      (hstate : e'.state = .discovering) (hinitiator : e'.isInitiator = true)
      (htoken : derivePunchToken P key e'.sessionId = .ok e'.punchToken)
      (hprobe : e'.probeAddr = e.probeAddr) (hfacilitator : e'.facilitatorAddr = e.probeAddr) :
      Moves P key inbox op e e' []
  | requests {payload : Bytes} {facilitator initiatorPublic : Endpoint} {protocol : ProbeProtocol}
      (hdiscovering : e.state = .discovering) (hinitiator : e.isInitiator = true)
      (hsame : e.SameSession e') (hstate : e'.state = .proposing)
      (hour : e'.ourPublicEndpoint = some initiatorPublic)
      (hpayload : decodeUpgradeRequest payload =
        .ok (e.sessionId, facilitator, initiatorPublic, protocol)) :
      Moves P key inbox op e e' [(upgradeRequest, payload)]
  | accepts {payload answer : Bytes} {keyKnown : Bool} {now : ℚ} {facilitator initiatorPublic : Endpoint}
      {protocol : ProbeProtocol} (hop : op = .handleSignal (upgradeRequest, payload) keyKnown now)
      (hidle : e.state = .idle) (harrives : (upgradeRequest, payload) ∈ inbox)
      (hpayload : decodeUpgradeRequest payload =
        .ok (e'.sessionId, facilitator, initiatorPublic, protocol))
      (hstate : e'.state = .discovering) (hresponder : e'.isInitiator = false)
      (htoken : derivePunchToken P key e'.sessionId = .ok e'.punchToken)
      (hpeer : e'.peerPublicEndpoint = some initiatorPublic)
      (hanswer : decodeUpgradeAccept answer = .ok e'.sessionId)
      (hprobe : e'.probeAddr = e.probeAddr) : Moves P key inbox op e e' [(upgradeAccept, answer)]
  | readies {payload : Bytes} {responderPublic : Endpoint} (hdiscovering : e.state = .discovering)
      (hresponder : e.isInitiator = false) (hsame : e.SameSession e') (hstate : e'.state = .punching)
      (hpeer : e'.peerPublicEndpoint = e.peerPublicEndpoint)
      (hour : e'.ourPublicEndpoint = some responderPublic)
      (hpayload : decodeUpgradeReady payload = .ok (e.sessionId, responderPublic)) :
      Moves P key inbox op e e' [(upgradeReady, payload)]
  | starts {payload : Bytes} {responderPublic : Endpoint} (hwaiting : e.state = .waitingReady)
      (hinitiator : e.isInitiator = true) (harrives : (upgradeReady, payload) ∈ inbox)
      (hpayload : decodeUpgradeReady payload = .ok (e.sessionId, responderPublic))
      (hsame : e.SameSession e') (hstate : e'.state = .punching)
      (hour : e'.ourPublicEndpoint = e.ourPublicEndpoint)
      (hpeer : e'.peerPublicEndpoint = some responderPublic) : Moves P key inbox op e e' []

/-- What the request of an initiator is made of has room in it. -/
structure Sized (e : HolePunchEngine) : Prop where
  probeAddr : ∀ addr, e.probeAddr = some addr → addr.Sized
  facilitatorAddr : e.state = .discovering → e.isInitiator = true →
    ∀ addr, e.facilitatorAddr = some addr → addr.Sized

section Operations

variable {inbox : List Signal} {op : HolePunchOp} {e : HolePunchEngine} {now : ℚ}

theorem moves_self : Moves P key inbox op e e [] := by
  by_cases hidle : e.state = .idle
  · exact .idle hidle (.inr hidle) rfl
  · exact .stays hidle hidle ⟨rfl, rfl, rfl, rfl⟩ rfl (.inl rfl) (.inl rfl) id id fun _ h => nomatch h

theorem moves_enter {state : HolePunchState} (hbusy : e.state ≠ .idle) (hbusy' : state ≠ .idle)
    (hne : state ≠ .discovering)
    (hup : state = .punching ∨ state = .connected → e.state = .punching ∨ e.state = .connected) :
    Moves P key inbox op e (e.enter state now) [] :=
  .stays hbusy hbusy' ⟨rfl, rfl, rfl, rfl⟩ rfl (.inl rfl) (.inl rfl) (fun h => absurd h hne) hup
    fun _ h => nomatch h

theorem moves_fail (hbusy : e.state ≠ .idle) : Moves P key inbox op e (e.enter .failed now) [] :=
  moves_enter hbusy (by decide) (by decide) fun h => by rcases h with h | h <;> nomatch h

theorem moves_propose (sessionId : SessionId) :
    Moves P key inbox (.propose sessionId now) e (e.propose P key now sessionId).sent.1
      (e.propose P key now sessionId).sent.2 := by
  unfold propose
  by_cases hidle : e.state ≠ .idle
  · rw [if_pos hidle]
    exact moves_self
  rw [not_not] at hidle
  rw [if_neg (not_not.2 hidle)]
  dsimp only
  cases htoken : derivePunchToken P key sessionId with
  | error err => exact .idle hidle (.inr hidle) rfl
  | ok punchToken =>
    dsimp only
    split
    · exact .idle hidle (.inr hidle) rfl
    · next probeAddr hprobe => exact .proposes rfl hidle rfl rfl htoken rfl hprobe.symm

theorem moves_endpointsDiscovered (hsized : e.Sized) {publicEndpoint : Endpoint}
    (hpublic : publicEndpoint.Sized) :
    Moves P key inbox op e (e.endpointsDiscovered publicEndpoint now).sent.1
      (e.endpointsDiscovered publicEndpoint now).sent.2 := by
  unfold endpointsDiscovered
  by_cases hstate : e.state ≠ .discovering
  · rw [if_pos hstate]
    exact moves_self
  rw [not_not] at hstate
  have hbusy : e.state ≠ .idle := by rw [hstate]; decide
  have hfails : ∀ err, Moves P key inbox op e (Result.sent
      ({ e with ourPublicEndpoint := some publicEndpoint }, .error err)).1 [] := fun err =>
    .stays hbusy hbusy ⟨rfl, rfl, rfl, rfl⟩ rfl (.inr ⟨hstate, hstate⟩) (.inl rfl) id id
      fun _ h => nomatch h
  rw [if_neg (not_not.2 hstate)]
  dsimp only
  by_cases hinitiator : e.isInitiator = true
  · rw [if_pos hinitiator]
    split
    · exact hfails _
    · next facilitator hfacilitator =>
      exact .requests hstate hinitiator ⟨rfl, rfl, rfl, rfl⟩ rfl rfl
        (decodeUpgradeRequest_encode _ (hsized.facilitatorAddr hstate hinitiator _ hfacilitator) hpublic _)
  · rw [if_neg hinitiator]
    rw [Bool.not_eq_true] at hinitiator
    split
    · exact hfails _
    · exact .readies hstate hinitiator ⟨rfl, rfl, rfl, rfl⟩ rfl rfl rfl (decodeUpgradeReady_encode _ hpublic)

theorem moves_handleUpgradeRequest (harrives : (upgradeRequest, payload) ∈ inbox)
    {derivedKey : Option Bytes} (hkey : ∀ k, derivedKey = some k → k = key) (keyKnown : Bool) :
    Moves P key inbox (.handleSignal (upgradeRequest, payload) keyKnown now) e
      (e.handleUpgradeRequest P payload derivedKey now).sent.1
      (e.handleUpgradeRequest P payload derivedKey now).sent.2 := by
  unfold handleUpgradeRequest
  by_cases hidle : e.state ≠ .idle
  · rw [if_pos hidle]
    cases decodeUpgradeRequest payload with
    | error err => exact moves_self
    | ok request =>
      refine .stays hidle hidle ⟨rfl, rfl, rfl, rfl⟩ rfl (.inl rfl) (.inl rfl) id id
        fun signal hsignal => ?_
      rw [List.mem_singleton.1 hsignal]
  rw [not_not] at hidle
  rw [if_neg (not_not.2 hidle)]
  cases derivedKey with
  | none => exact moves_self
  | some derivedKey =>
    rw [hkey derivedKey rfl]
    dsimp only
    cases hpayload : decodeUpgradeRequest payload with
    | error err => exact moves_self
    | ok request =>
      obtain ⟨sessionId, facilitator, initiatorPublic, protocol⟩ := request
      dsimp only
      cases htoken : derivePunchToken P key sessionId with
      | error err => exact .idle hidle (.inr hidle) rfl
      | ok punchToken =>
        exact .accepts rfl hidle harrives hpayload rfl rfl htoken rfl (decodeUpgradeAccept_encode _) rfl

theorem moves_handleUpgradeAccept (payload : Bytes) :
    Moves P key inbox op e (e.handleUpgradeAccept payload now).sent.1
      (e.handleUpgradeAccept payload now).sent.2 := by
  unfold handleUpgradeAccept
  split_ifs with hstate
  · exact moves_self
  simp only [ne_eq, not_or, not_not] at hstate
  have hbusy : e.state ≠ .idle := by rw [hstate.1]; decide
  split
  · exact moves_self
  · split_ifs
    · exact moves_self
    · exact moves_enter hbusy (by decide) (by decide) fun h => by rcases h with h | h <;> nomatch h

theorem moves_handleUpgradeReject (payload : Bytes) :
    Moves P key inbox op e (e.handleUpgradeReject payload now).sent.1
      (e.handleUpgradeReject payload now).sent.2 := by
  unfold handleUpgradeReject
  split_ifs with hstate
  · exact moves_self
  have hbusy : e.state ≠ .idle := by rw [not_not.1 hstate]; decide
  split
  · exact moves_self
  · split_ifs
    · exact moves_self
    · exact moves_fail hbusy

theorem moves_handleUpgradeReady (harrives : (upgradeReady, payload) ∈ inbox) :
    Moves P key inbox op e (e.handleUpgradeReady payload now).sent.1
      (e.handleUpgradeReady payload now).sent.2 := by
  unfold handleUpgradeReady
  split_ifs with hstate
  · exact moves_self
  simp only [ne_eq, not_or, not_not] at hstate
  cases hpayload : decodeUpgradeReady payload with
  | error err => exact moves_self
  | ok ready =>
    obtain ⟨sessionId, responderPublic⟩ := ready
    dsimp only
    split_ifs with hsession
    · exact moves_self
    · rw [not_not.1 hsession] at hpayload
      exact .starts hstate.1 hstate.2 harrives hpayload ⟨rfl, rfl, rfl, rfl⟩ rfl rfl rfl

theorem moves_handleUpgradeComplete (payload : Bytes) :
    Moves P key inbox op e (e.handleUpgradeComplete payload now).sent.1
      (e.handleUpgradeComplete payload now).sent.2 := by
  unfold handleUpgradeComplete
  by_cases hstate : e.state ≠ .punching ∧ e.state ≠ .connected
  · rw [if_pos hstate]
    exact moves_self
  have hup : e.state = .punching ∨ e.state = .connected := by
    rwa [ne_eq, ne_eq, ← not_or, not_not] at hstate
  have hbusy : e.state ≠ .idle := by rcases hup with h | h <;> rw [h] <;> decide
  rw [if_neg hstate]
  cases decodeUpgradeAccept payload with
  | error err => exact moves_self
  | ok sessionId =>
    dsimp only
    split_ifs
    · exact moves_self
    · exact moves_self
    · exact moves_enter hbusy (by decide) (by decide) fun _ => hup

theorem moves_tick : Moves P key inbox op e (e.tick now).1
    ((e.tick now).2.filterMap HolePunchAction.signal) := by
  unfold tick
  cases htimeout : timeout e.state with
  | none => exact moves_self
  | some limit =>
    have hbusy : e.state ≠ .idle := by
      intro hidle
      rw [hidle] at htimeout
      nomatch htimeout
    dsimp only
    split_ifs
    · exact moves_fail hbusy
    · exact moves_self

theorem moves_apply (hsized : e.Sized) (harrives : op.Arrives inbox)
    (hendpoint : ∀ ep, op.endpoint = some ep → ep.Sized) :
    Moves P key inbox op e (e.apply P key op).1 (e.apply P key op).2 := by
  cases op with
  | propose sessionId now => exact moves_propose sessionId
  | endpointsDiscovered publicEndpoint now =>
    exact moves_endpointsDiscovered hsized (hendpoint publicEndpoint rfl)
  | handleSignal signal keyKnown now =>
    obtain ⟨msgtype, payload⟩ := signal
    have hsent : msgtype ≠ upgradeComplete → (msgtype, payload) ∈ inbox := harrives.resolve_left
    have hkey : ∀ k, (if keyKnown then some key else none) = some k → k = key := by
      intro k hk
      split_ifs at hk
      exact (Option.some.inj hk).symm
    simp only [apply, handleSignal]
    generalize (if keyKnown then some key else none) = derivedKey at hkey ⊢
    split_ifs with hrequest haccept hreject hready hcomplete
    · subst hrequest
      exact moves_handleUpgradeRequest (hsent (by decide)) hkey keyKnown
    · exact moves_handleUpgradeAccept payload
    · exact moves_handleUpgradeReject payload
    · exact moves_handleUpgradeReady (hready ▸ hsent (by rw [hready]; decide))
    · exact moves_handleUpgradeComplete payload
    · exact moves_self
  | punchSucceeded now =>
    simp only [apply, punchSucceeded]
    split_ifs with hstate
    · exact moves_self
    · rw [not_not] at hstate
      exact moves_enter (by rw [hstate]; decide) (by decide) (by decide) fun _ => .inl hstate
  | punchFailed now =>
    simp only [apply, punchFailed]
    split_ifs with hstate
    · exact moves_self
    · rw [not_not] at hstate
      exact moves_fail (by rw [hstate]; decide)
  | tick now => exact moves_tick
  | setFacilitator addr =>
    by_cases hidle : e.state = .idle
    · exact .idle hidle (.inr hidle) rfl
    · exact .stays hidle hidle ⟨rfl, rfl, rfl, rfl⟩ rfl (.inl rfl) (.inr rfl) id id
        fun _ h => nomatch h
  | reset => exact .idle rfl (.inl rfl) rfl

theorem Moves.sized {e' : HolePunchEngine} {sent : List Signal} (hmove : Moves P key inbox op e e' sent)
    (h : e.Sized) (hendpoint : ∀ ep, op.endpoint = some ep → ep.Sized) : e'.Sized := by
  have hprobe : e'.probeAddr = e.probeAddr → ∀ addr, e'.probeAddr = some addr → addr.Sized :=
    fun hsame addr haddr => h.probeAddr addr (hsame ▸ haddr)
  cases hmove with
  | idle hidle _ hsame =>
    refine ⟨hprobe hsame, fun hstate => ?_⟩
    rw [hidle] at hstate
    nomatch hstate
  | stays _ _ hsame _ _ hfacilitator hdiscovering _ _ =>
    refine ⟨hprobe hsame.probeAddr, fun hstate hinitiator addr haddr => ?_⟩
    rcases hfacilitator with hkept | hnew
    · exact h.facilitatorAddr (hdiscovering hstate) (hsame.isInitiator ▸ hinitiator) addr
        (hkept ▸ haddr)
    · exact hendpoint addr (hnew ▸ haddr)
  | proposes _ _ _ _ _ hsame hfacilitator =>
    exact ⟨hprobe hsame, fun _ _ addr haddr => h.probeAddr addr (hfacilitator ▸ haddr)⟩
  | accepts _ _ _ _ _ hresponder _ _ _ hsame =>
    refine ⟨hprobe hsame, fun _ hinitiator => ?_⟩
    rw [hresponder] at hinitiator
    nomatch hinitiator
  | requests _ _ hsame hstate' _ _ | readies _ _ hsame hstate' _ _ _ | starts _ _ _ _ hsame hstate' _ _ =>
    refine ⟨hprobe hsame.probeAddr, fun hstate => ?_⟩
    rw [hstate'] at hstate
    nomatch hstate

end Operations

end HolePunchEngine

end Rns
