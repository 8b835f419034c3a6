import Rns.Crypto.Primitives
import Rns.Msgpack

/-!
# The hole-punch engine of a link

The initiator learns its public endpoint and proposes a session; the responder accepts, learns its own
endpoint and says so; then both punch.  What is to be sent, probed or punched are actions for the caller.
-/

namespace Rns

abbrev SessionId := Vector UInt8 16

structure Endpoint where
  addr : Bytes
  port : UInt16
  deriving DecidableEq

def Endpoint.Sized (ep : Endpoint) : Prop := ep.addr.length < 2 ^ 32

inductive ProbeProtocol where
  | rnsp
  | stun
  deriving DecidableEq

def ProbeProtocol.toUInt64 : ProbeProtocol → UInt64
  | .rnsp => 0
  | .stun => 1

inductive HolePunchState where
  | idle
  | discovering
  | proposing
  | waitingReady
  | punching
  | connected
  | failed
  deriving DecidableEq

inductive HolePunchError where
  | invalidState
  | invalidPayload
  | sessionMismatch
  | noProbeAddr
  | noDerivedKey
  deriving DecidableEq

inductive HolePunchAction where
  | sendSignal (linkId : Vector UInt8 16) (msgtype : UInt16) (payload : Bytes)
  | discoverEndpoints (probeAddr : Endpoint) (protocol : ProbeProtocol)
  | startUdpPunch (peerPublic : Endpoint) (punchToken : Vector UInt8 32) (sessionId : SessionId)
  | succeeded (sessionId : SessionId)
  | failed (sessionId : SessionId) (reason : UInt8)
  deriving DecidableEq

namespace HolePunch

def upgradeRequest : UInt16 := 0xFE00
def upgradeAccept : UInt16 := 0xFE01
def upgradeReject : UInt16 := 0xFE02
def upgradeReady : UInt16 := 0xFE03
def upgradeComplete : UInt16 := 0xFE04

def rejectBusy : UInt8 := 0x02
def failTimeout : UInt8 := 0x01
def failProbe : UInt8 := 0x02

def proposeTimeout : ℚ := 10
def discoverTimeout : ℚ := 10
def readyTimeout : ℚ := 10
def punchTimeout : ℚ := 10

/-! ## Messages -/

open Msgpack

def field (c : Char) (h : validUtf8 [c.toUInt8]) : Value := .str ⟨[c.toUInt8], h⟩

variable (val : Value) (data : Bytes) (sessionId : SessionId)

def sessionField : Value × Value :=
  (field 's' (by decide), .bin sessionId.toList)

def encodeEndpoint (ep : Endpoint) : Value := .array [.bin ep.addr, .uint ep.port.toUInt64]

def decodeEndpoint : Option Endpoint :=
  val.asArray.bind fun
    | addr :: port :: _ => addr.asBin.bind fun addr => port.asUint.map fun port => ⟨addr, port.toUInt16⟩
    | _ => none

def encodeUpgradeRequest (facilitator initiatorPublic : Endpoint) (protocol : ProbeProtocol) :
    Bytes :=
  pack (.map ([sessionField sessionId, (field 'f' (by decide), encodeEndpoint facilitator),
      (field 'a' (by decide), encodeEndpoint initiatorPublic)] ++
    if protocol ≠ .rnsp then [(field 'p' (by decide), .uint protocol.toUInt64)] else []))

def encodeUpgradeAccept : Bytes := pack (.map [sessionField sessionId])

def encodeUpgradeReject (reason : UInt8) : Bytes :=
  pack (.map [sessionField sessionId, (field 'r' (by decide), .uint reason.toUInt64)])

def encodeUpgradeReady (responderPublic : Endpoint) : Bytes :=
  pack (.map [sessionField sessionId, (field 'a' (by decide), encodeEndpoint responderPublic)])

def extractSessionId : Except HolePunchError SessionId :=
  match (val.mapGet [0x73]).bind Value.asBin with
  | none => .error .invalidPayload
  | some bin => if bin.length ≠ 16 then .error .invalidPayload else .ok (Bytes.fixed 16 bin 0)

def payloadValue : Except HolePunchError Value :=
  match unpack data with
  | .error _ => .error .invalidPayload
  | .ok (val, _) => .ok val

def endpointField (key : Bytes) : Except HolePunchError Endpoint :=
  match (val.mapGet key).bind decodeEndpoint with
  | none => .error .invalidPayload
  | some ep => .ok ep

def decodeUpgradeRequest :
    Except HolePunchError (SessionId × Endpoint × Endpoint × ProbeProtocol) := do
  let val ← payloadValue data
  let sessionId ← extractSessionId val
  let facilitator ← endpointField val [0x66]
  let initiatorPublic ← endpointField val [0x61]
  let protocol := (((val.mapGet [0x70]).bind Value.asUint).map fun p =>
    if p = 1 then ProbeProtocol.stun else .rnsp).getD .rnsp
  return (sessionId, facilitator, initiatorPublic, protocol)

/-- `decode_upgrade_accept` and `decode_session_only`. -/
def decodeUpgradeAccept : Except HolePunchError SessionId := do
  let val ← payloadValue data
  extractSessionId val

def decodeUpgradeReject : Except HolePunchError (SessionId × UInt8) := do
  let val ← payloadValue data
  let sessionId ← extractSessionId val
  match (val.mapGet [0x72]).bind Value.asUint with
  | none => .error .invalidPayload
  | some reason => .ok (sessionId, reason.toUInt8)

def decodeUpgradeReady : Except HolePunchError (SessionId × Endpoint) := do
  let val ← payloadValue data
  let sessionId ← extractSessionId val
  let responderPublic ← endpointField val [0x61]
  return (sessionId, responderPublic)

/-! ### Round trips -/

theorem payloadValue_pack {v : Value} (h : v.Sized) (hlevels : v.levels ≤ 33) :
    payloadValue (pack v) = .ok v.norm := by
  have hunpack := unpack_pack h hlevels []
  rw [List.append_nil] at hunpack
  rw [payloadValue, hunpack]

theorem sized_field (c : Char) (h : validUtf8 [c.toUInt8]) : (field c h).Sized := by
  simp [field, Value.Sized]

theorem sized_encodeEndpoint {ep : Endpoint} (h : ep.Sized) : (encodeEndpoint ep).Sized := by
  simp only [encodeEndpoint, Value.Sized, SizedItems, and_true]
  exact ⟨by simp, h⟩

theorem decodeEndpoint_encodeEndpoint (ep : Endpoint) :
    decodeEndpoint (encodeEndpoint ep) = some ep := by
  simp [decodeEndpoint, encodeEndpoint, Value.asArray, Value.asBin, Value.asUint]

variable (sessionId : SessionId)

theorem extractSessionId_session (fields : List (Value × Value)) :
    extractSessionId (.map (sessionField sessionId :: fields)) = .ok sessionId := by
  have hfixed : Bytes.fixed 16 sessionId.toList 0 = sessionId := by
    simpa using Bytes.fixed_append [] sessionId []
  have hget : (Value.map (sessionField sessionId :: fields)).mapGet [0x73] =
      some (.bin sessionId.toList) := rfl
  simp [extractSessionId, hget, Value.asBin, hfixed]

theorem endpointField_eq {val : Value} {key : Bytes} {ep : Endpoint}
    (h : val.mapGet key = some (encodeEndpoint ep)) : endpointField val key = .ok ep := by
  rw [endpointField, h, Option.bind_some, decodeEndpoint_encodeEndpoint]

theorem decodeUpgradeRequest_encode {facilitator initiatorPublic : Endpoint} (hf : facilitator.Sized)
    (ha : initiatorPublic.Sized) (protocol : ProbeProtocol) :
    decodeUpgradeRequest (encodeUpgradeRequest sessionId facilitator initiatorPublic protocol) =
      .ok (sessionId, facilitator, initiatorPublic, protocol) := by
  rw [encodeUpgradeRequest, decodeUpgradeRequest, payloadValue_pack]
  · generalize hval : Value.norm _ = val
    have hs : extractSessionId val = .ok sessionId := hval ▸ extractSessionId_session sessionId _
    have hf : endpointField val [0x66] = .ok facilitator := hval ▸ endpointField_eq rfl
    have ha : endpointField val [0x61] = .ok initiatorPublic := hval ▸ endpointField_eq rfl
    have hp : (((val.mapGet [0x70]).bind Value.asUint).map fun p =>
        if p = 1 then ProbeProtocol.stun else .rnsp).getD .rnsp = protocol := by
      subst hval
      cases protocol <;> rfl
    simp only [bind, Except.bind, pure, Except.pure, hs, hf, ha, hp]
  · cases protocol <;>
      simp [Value.Sized, SizedEntries, sized_field, sized_encodeEndpoint, hf, ha, sessionField]
  · cases protocol <;>
      simp [Value.levels, entryLevels, sessionField, field, encodeEndpoint, itemLevels]

theorem decodeUpgradeAccept_encode :
    decodeUpgradeAccept (encodeUpgradeAccept sessionId) = .ok sessionId := by
  rw [encodeUpgradeAccept, decodeUpgradeAccept, payloadValue_pack]
  · exact extractSessionId_session sessionId []
  · simp [Value.Sized, SizedEntries, sized_field, sessionField]
  · simp [Value.levels, entryLevels, sessionField, field]

theorem decodeUpgradeReady_encode {responderPublic : Endpoint} (ha : responderPublic.Sized) :
    decodeUpgradeReady (encodeUpgradeReady sessionId responderPublic) =
      .ok (sessionId, responderPublic) := by
  rw [encodeUpgradeReady, decodeUpgradeReady, payloadValue_pack]
  · generalize hval : Value.norm _ = val
    have hs : extractSessionId val = .ok sessionId := hval ▸ extractSessionId_session sessionId _
    have ha : endpointField val [0x61] = .ok responderPublic := hval ▸ endpointField_eq rfl
    simp only [bind, Except.bind, pure, Except.pure, hs, ha]
  · simp [Value.Sized, SizedEntries, sized_field, sized_encodeEndpoint, ha, sessionField]
  · simp [Value.levels, entryLevels, sessionField, field, encodeEndpoint, itemLevels]

def derivePunchToken (P : Primitives) (derivedKey : Bytes) (sessionId : SessionId) :
    Except HolePunchError (Vector UInt8 32) :=
  match Hkdf.hkdf P 32 derivedKey (some sessionId.toList) (some ("rns-holepunch-v1".toUTF8.toList)) with
  | .error _ => .error .noDerivedKey
  | .ok result => .ok (Bytes.fixed 32 result 0)

end HolePunch

/-! ## The engine -/

structure HolePunchEngine where
  linkId : Vector UInt8 16
  sessionId : SessionId
  state : HolePunchState
  isInitiator : Bool
  ourPublicEndpoint : Option Endpoint
  peerPublicEndpoint : Option Endpoint
  facilitatorAddr : Option Endpoint
  punchToken : Vector UInt8 32
  probeAddr : Option Endpoint
  probeProtocol : ProbeProtocol
  stateEnteredAt : ℚ
  deriving DecidableEq

namespace HolePunchEngine

open HolePunch

variable (P : Primitives)

abbrev Result := HolePunchEngine × Except HolePunchError (List HolePunchAction)

def new (linkId : Vector UInt8 16) (probeAddr : Option Endpoint) (probeProtocol : ProbeProtocol) :
    HolePunchEngine where
  linkId
  sessionId := .replicate 16 0
  state := .idle
  isInitiator := false
  ourPublicEndpoint := none
  peerPublicEndpoint := none
  facilitatorAddr := none
  punchToken := .replicate 32 0
  probeAddr
  probeProtocol
  stateEnteredAt := 0

variable (e : HolePunchEngine) (payload : Bytes) (now : ℚ)

def setFacilitator (addr : Endpoint) : HolePunchEngine :=
  { e with facilitatorAddr := some addr }

def enter (state : HolePunchState) (now : ℚ) : HolePunchEngine :=
  { e with state, stateEnteredAt := now }

/-- `propose`; the session id comes from the random generator. -/
def propose (derivedKey : Bytes) (now : ℚ) (sessionId : SessionId) : Result :=
  if e.state ≠ .idle then (e, .error .invalidState)
  else
    let e := { e with sessionId, isInitiator := true }
    match derivePunchToken P derivedKey sessionId with
    | .error err => (e, .error err)
    | .ok punchToken =>
      let e := { e with punchToken }
      match e.probeAddr with
      | none => (e, .error .noProbeAddr)
      | some probeAddr =>
        ({ e with facilitatorAddr := some probeAddr }.enter .discovering now,
          .ok [.discoverEndpoints probeAddr e.probeProtocol])

def endpointsDiscovered (publicEndpoint : Endpoint) (now : ℚ) : Result :=
  if e.state ≠ .discovering then (e, .error .invalidState)
  else
    let e := { e with ourPublicEndpoint := some publicEndpoint }
    if e.isInitiator then match e.facilitatorAddr with
      | none => (e, .error .noProbeAddr)
      | some facilitator =>
        (e.enter .proposing now, .ok [.sendSignal e.linkId upgradeRequest
          (encodeUpgradeRequest e.sessionId facilitator publicEndpoint e.probeProtocol)])
    else match e.peerPublicEndpoint with
      | none => (e, .error .invalidState)
      | some peerPublic =>
        (e.enter .punching now, .ok [
          .sendSignal e.linkId upgradeReady (encodeUpgradeReady e.sessionId publicEndpoint),
          .startUdpPunch peerPublic e.punchToken e.sessionId])

def handleUpgradeRequest (derivedKey : Option Bytes) (now : ℚ) : Result :=
  if e.state ≠ .idle then match decodeUpgradeRequest payload with
    | .error err => (e, .error err)
    | .ok (sessionId, _) =>
      (e, .ok [.sendSignal e.linkId upgradeReject (encodeUpgradeReject sessionId rejectBusy)])
  else match derivedKey with
    | none => (e, .error .noDerivedKey)
    | some derivedKey => match decodeUpgradeRequest payload with
      | .error err => (e, .error err)
      | .ok (sessionId, facilitator, initiatorPublic, protocol) =>
        let e := { e with sessionId, isInitiator := false, probeProtocol := protocol }
        match derivePunchToken P derivedKey sessionId with
        | .error err => (e, .error err)
        | .ok punchToken =>
          ({ e with
              punchToken
              peerPublicEndpoint := some initiatorPublic
              facilitatorAddr := some facilitator }.enter .discovering now,
            .ok [.sendSignal e.linkId upgradeAccept (encodeUpgradeAccept sessionId),
              .discoverEndpoints facilitator protocol])

def handleUpgradeAccept : Result :=
  if e.state ≠ .proposing ∨ ¬e.isInitiator then (e, .error .invalidState)
  else match decodeUpgradeAccept payload with
    | .error err => (e, .error err)
    | .ok sessionId =>
      if sessionId ≠ e.sessionId then (e, .error .sessionMismatch)
      else (e.enter .waitingReady now, .ok [])

def handleUpgradeReject : Result :=
  if e.state ≠ .proposing then (e, .error .invalidState)
  else match decodeUpgradeReject payload with
    | .error err => (e, .error err)
    | .ok (sessionId, reason) =>
      if sessionId ≠ e.sessionId then (e, .error .sessionMismatch)
      else (e.enter .failed now, .ok [.failed e.sessionId reason])

def handleUpgradeReady : Result :=
  if e.state ≠ .waitingReady ∨ ¬e.isInitiator then (e, .error .invalidState)
  else match decodeUpgradeReady payload with
    | .error err => (e, .error err)
    | .ok (sessionId, responderPublic) =>
      if sessionId ≠ e.sessionId then (e, .error .sessionMismatch)
      else ({ e with peerPublicEndpoint := some responderPublic }.enter .punching now,
        .ok [.startUdpPunch responderPublic e.punchToken e.sessionId])

def handleUpgradeComplete : Result :=
  if e.state ≠ .punching ∧ e.state ≠ .connected then (e, .error .invalidState)
  else match decodeUpgradeAccept payload with
    | .error err => (e, .error err)
    | .ok sessionId =>
      if sessionId ≠ e.sessionId then (e, .error .sessionMismatch)
      else if e.state = .connected then (e, .ok [])
      else (e.enter .connected now, .ok [.succeeded e.sessionId])

def handleSignal (msgtype : UInt16) (payload : Bytes) (derivedKey : Option Bytes) (now : ℚ) :
    Result :=
  if msgtype = upgradeRequest then e.handleUpgradeRequest P payload derivedKey now
  else if msgtype = upgradeAccept then e.handleUpgradeAccept payload now
  else if msgtype = upgradeReject then e.handleUpgradeReject payload now
  else if msgtype = upgradeReady then e.handleUpgradeReady payload now
  else if msgtype = upgradeComplete then e.handleUpgradeComplete payload now
  else (e, .error .invalidPayload)

def punchSucceeded : Result :=
  if e.state ≠ .punching then (e, .error .invalidState)
  else (e.enter .connected now, .ok [.succeeded e.sessionId])

def punchFailed : Result :=
  if e.state ≠ .punching then (e, .error .invalidState)
  else (e.enter .failed now, .ok [.failed e.sessionId failTimeout])

/-- How long the engine may stay in a state, and why it then fails. -/
def timeout : HolePunchState → Option (ℚ × UInt8)
  | .discovering => some (discoverTimeout, failProbe)
  | .proposing => some (proposeTimeout, failTimeout)
  | .waitingReady => some (readyTimeout, failTimeout)
  | .punching => some (punchTimeout, failTimeout)
  | _ => none

def tick : HolePunchEngine × List HolePunchAction :=
  match timeout e.state with
  | some (limit, reason) =>
    if now - e.stateEnteredAt > limit then (e.enter .failed now, [.failed e.sessionId reason])
    else (e, [])
  | none => (e, [])

def reset : HolePunchEngine := .new e.linkId e.probeAddr .rnsp

end HolePunchEngine

end Rns
