import Rns.HolePunch.Engine
import Rns.Lib.Machine

/-!
# The hole-punch manager of a node

One engine for each link that is being upgraded.  Sockets, probes and punches are left to threads: what
they bring back is an event.
-/

namespace Rns

namespace HolePunch

def isHolepunchMsgtype (msgtype : UInt16) : Bool := upgradeRequest ≤ msgtype ∧ msgtype ≤ upgradeComplete

def rejectPolicy : UInt8 := 0x01

def proposalCooldown : ℚ := 60

def directMtu : ℕ := 1400

end HolePunch

/-- An address that a socket can have. -/
structure SocketAddr where
  endpoint : Endpoint
  sized : endpoint.addr.length = 4 ∨ endpoint.addr.length = 16
  deriving DecidableEq

/-- `endpoint_to_socket_addr`. -/
def Endpoint.toSocketAddr (ep : Endpoint) : Option SocketAddr :=
  if h : ep.addr.length = 4 ∨ ep.addr.length = 16 then some ⟨ep, h⟩ else none

inductive HolePunchPolicy where
  | reject
  | acceptAll
  | askApp
  deriving DecidableEq

/-- A session: its engine, the socket of its probe and the running punch, each by a number. -/
structure HolePunchSession where
  engine : HolePunchEngine
  socket : Option ℕ
  punchHandle : Option ℕ
  lastProposal : ℚ
  deriving DecidableEq

structure HolePunchManager where
  sessions : Std.ExtTreeMap SessionId HolePunchSession
  linkToSession : Std.ExtTreeMap (Vector UInt8 16) SessionId
  policy : HolePunchPolicy
  probeAddrs : List SocketAddr
  probeProtocol : ProbeProtocol
  nextInterfaceId : ℕ

/-- Actions of the manager, and the probes it starts. -/
inductive HolePunchManagerAction where
  | sendChannelMessage (linkId : Vector UInt8 16) (msgtype : UInt16) (payload : Bytes)
  | directConnectEstablished (linkId : Vector UInt8 16) (sessionId : SessionId) (interfaceId : ℕ) (rtt : ℚ)
      (mtu : ℕ)
  | directConnectFailed (linkId : Vector UInt8 16) (sessionId : SessionId) (reason : UInt8)
  | startProbe (servers : List SocketAddr) (protocol : ProbeProtocol) (sessionId : SessionId)
      (linkId : Vector UInt8 16)
  deriving DecidableEq

/-- How a punch ended.  The result of one that succeeded may be lost, and its interface may not start. -/
inductive PunchOutcome where
  | failed
  | lost
  | succeeded (rtt : ℚ) (interfaceUp : Bool)
  deriving DecidableEq

namespace HolePunchManager

open HolePunch

variable (P : Primitives) (m : HolePunchManager)

def new (probeAddrs : List SocketAddr) (probeProtocol : ProbeProtocol) : HolePunchManager where
  sessions := ∅
  linkToSession := ∅
  policy := .acceptAll
  probeAddrs
  probeProtocol
  nextInterfaceId := 50000

variable (starts : Bool) (linkId : Vector UInt8 16) (now : ℚ) (sessionId : SessionId)
  (actions : List HolePunchAction)

def convertEngineActions : List HolePunchManagerAction :=
  actions.filterMap fun
    | .sendSignal linkId msgtype payload => some (.sendChannelMessage linkId msgtype payload)
    | .failed sessionId reason => some (.directConnectFailed linkId sessionId reason)
    | _ => none

def updateSession (f : HolePunchSession → HolePunchSession) : HolePunchManager :=
  match m.sessions[sessionId]? with
  | none => m
  | some session => { m with sessions := m.sessions.insert sessionId (f session) }

def openSession (engine : HolePunchEngine) (now : ℚ) : HolePunchManager :=
  { m with
    linkToSession := m.linkToSession.insert linkId engine.sessionId
    sessions := m.sessions.insert engine.sessionId ⟨engine, none, none, now⟩ }

/-- Take the session of a link away. -/
def dropSession : HolePunchManager :=
  match m.linkToSession[linkId]? with
  | none => m
  | some sessionId =>
    { m with
      linkToSession := m.linkToSession.erase linkId
      sessions := m.sessions.erase sessionId }

/-- `start_endpoint_discovery_from_actions`: the initiator asks all its servers, the responder the one of
the request. -/
def startEndpointDiscovery : List HolePunchManagerAction :=
  actions.filterMap fun
    | .discoverEndpoints probeAddr protocol => do
      let sessionId ← m.linkToSession[linkId]?
      let session ← m.sessions[sessionId]?
      let servers ← if session.engine.isInitiator then some m.probeAddrs
        else probeAddr.toSocketAddr.map ([·])
      if servers.isEmpty then none else some (.startProbe servers protocol sessionId linkId)
    | _ => none

/-- `start_punch_for_session`; `starts` says whether the thread starts, in which case it has the socket. -/
def startPunch (peerPublic : Endpoint) (session : HolePunchSession) : HolePunchSession :=
  if session.punchHandle.isSome then session
  else match session.socket, peerPublic.toSocketAddr with
    | none, _ => session
    | some _, none => session
    | some socket, some _ => { session with
        socket := none
        punchHandle := if starts then some socket else none }

def startPunchFromActions : HolePunchManager :=
  actions.foldl (fun m action => match action with
    | .startUdpPunch peerPublic _ _ => m.updateSession sessionId (startPunch starts peerPublic)
    | _ => m) m

/-- The rate limit of `propose`. -/
def rateLimited : Bool :=
  ((m.linkToSession[linkId]?).bind fun sessionId => m.sessions[sessionId]?).any fun session =>
    now - session.lastProposal < proposalCooldown

def initiator : HolePunchEngine :=
  .new linkId (m.probeAddrs.head?.map SocketAddr.endpoint) m.probeProtocol

/-- `propose`; the session id comes from the random generator. -/
def propose (linkId : Vector UInt8 16) (derivedKey : Bytes) (now : ℚ) (drawn : SessionId) :
    HolePunchManager × List HolePunchManagerAction :=
  if m.rateLimited linkId now then (m, [])
  else
    let m := m.dropSession linkId
    match (m.initiator linkId).propose P derivedKey now drawn with
    | (_, .error _) => (m, [])
    | (engine, .ok actions) =>
      let m := m.openSession linkId engine now
      (m, convertEngineActions linkId actions ++ m.startEndpointDiscovery linkId actions)

def buildReject (payload : Bytes) (reason : UInt8) : Except HolePunchError HolePunchAction := do
  let (sessionId, _) ← decodeUpgradeRequest payload
  return .sendSignal linkId upgradeReject (encodeUpgradeReject sessionId reason)

/-- The part of `handle_signal` for a request: a new engine answers it. -/
def handleRequest (payload : Bytes) (derivedKey : Option Bytes) (now : ℚ) :
    HolePunchManager × List HolePunchManagerAction :=
  if m.policy = .reject then match buildReject linkId payload rejectPolicy with
    | .error _ => (m, [])
    | .ok action => (m, convertEngineActions linkId [action])
  else match (HolePunchEngine.new linkId none .rnsp).handleSignal P upgradeRequest payload derivedKey now with
    | (_, .error _) => (m, [])
    | (engine, .ok actions) =>
      let m := m.openSession linkId engine now
      (m, convertEngineActions linkId actions ++ m.startEndpointDiscovery linkId actions)

/-- The part of `handle_signal` for the other messages: the session of the link takes them. -/
def handleAnswer (msgtype : UInt16) (payload : Bytes) (derivedKey : Option Bytes) (now : ℚ)
    (starts : Bool) : HolePunchManager × List HolePunchManagerAction :=
  match m.linkToSession[linkId]? with
  | none => (m, [])
  | some sessionId => match m.sessions[sessionId]? with
    | none => (m, [])
    | some session =>
      let (engine, result) := session.engine.handleSignal P msgtype payload derivedKey now
      let m := m.updateSession sessionId fun session => { session with engine }
      match result with
      | .error _ => (m, [])
      | .ok actions => (m.startPunchFromActions starts sessionId actions, convertEngineActions linkId actions)

/-- `handle_signal`: whether the message was one for the manager, and what it led to. -/
def handleSignal (msgtype : UInt16) (payload : Bytes) (derivedKey : Option Bytes) (now : ℚ)
    (starts : Bool) : HolePunchManager × Bool × List HolePunchManagerAction :=
  if !isHolepunchMsgtype msgtype then (m, false, [])
  else if msgtype = upgradeRequest then
    ((m.handleRequest P linkId payload derivedKey now).1, true,
      (m.handleRequest P linkId payload derivedKey now).2)
  else
    ((m.handleAnswer P linkId msgtype payload derivedKey now starts).1, true,
      (m.handleAnswer P linkId msgtype payload derivedKey now starts).2)

/-! ## Results of probes -/

/-- What a probe result does to its session before the engine is told. -/
def probed (socket : ℕ) (probeServer : SocketAddr) (session : HolePunchSession) : HolePunchSession :=
  { session with
    socket := some socket
    engine := if session.engine.isInitiator ∧ m.probeAddrs.head? ≠ some probeServer then
        session.engine.setFacilitator probeServer.endpoint
      else session.engine }

def bump (probeServer : SocketAddr) : HolePunchManager :=
  if probeServer ∈ m.probeAddrs then
    { m with probeAddrs := probeServer :: m.probeAddrs.erase probeServer }
  else m

def handleProbeResult (observed : SocketAddr) (socket : ℕ) (probeServer : SocketAddr) (now : ℚ)
    (starts : Bool) : HolePunchManager × List HolePunchManagerAction :=
  match m.sessions[sessionId]? with
  | none => (m, [])
  | some session =>
    let session := m.probed socket probeServer session
    let (engine, result) := session.engine.endpointsDiscovered observed.endpoint now
    let m := (m.updateSession sessionId fun _ => { session with engine }).bump probeServer
    match result with
    | .error _ => (m, [])
    | .ok actions => (m.startPunchFromActions starts sessionId actions, convertEngineActions linkId actions)

def handleProbeFailed : HolePunchManager × List HolePunchManagerAction :=
  if m.sessions.contains sessionId then
    (m.updateSession sessionId fun session => { session with engine := session.engine.reset },
      [.directConnectFailed linkId sessionId failProbe])
  else (m, [])

/-! ## Ticks -/

/-- A punch that has ended: the session, its link, and the round trip and interface when it succeeded. -/
structure PunchCompletion where
  sessionId : SessionId
  linkId : Vector UInt8 16
  result : Option (ℚ × Bool)

/-- The sessions with the links they are found by.  The source goes through a hash map; here they come in
the order of their ids. -/
def sessionLinkPairs : List (SessionId × Option (Vector UInt8 16)) :=
  m.sessions.keys.map fun sessionId =>
    (sessionId, (m.linkToSession.toList.find? (·.2 = sessionId)).map (·.1))

/-- Take the handle of a punch that has ended. -/
def takePunch (outcome : SessionId → Option PunchOutcome)
    (state : HolePunchManager × List PunchCompletion) (pair : SessionId × Option (Vector UInt8 16)) :
    HolePunchManager × List PunchCompletion :=
  match state.1.sessions[pair.1]?, pair.2, outcome pair.1 with
  | some session, some linkId, some outcome =>
    if session.punchHandle.isNone then state
    else
      (state.1.updateSession pair.1 fun session => { session with punchHandle := none },
        state.2 ++ match outcome with
          | .failed => [⟨pair.1, linkId, none⟩]
          | .lost => []
          | .succeeded rtt interfaceUp => [⟨pair.1, linkId, some (rtt, interfaceUp)⟩])
  | _, _, _ => state

/-- What the driver is told of a punch that succeeded. -/
def completionActions (interfaceId : ℕ) (rtt : ℚ) (interfaceUp : Bool)
    (actions : List HolePunchAction) : List HolePunchManagerAction :=
  actions.flatMap fun
    | .succeeded sessionId =>
      if interfaceUp then [.directConnectEstablished linkId sessionId interfaceId rtt directMtu]
      else [.directConnectFailed linkId sessionId failTimeout]
    | action => convertEngineActions linkId [action]

def resultActions (result : Except HolePunchError (List HolePunchAction)) : List HolePunchAction :=
  match result with
  | .ok actions => actions
  | .error _ => []

/-- Tell the engine of a punch that has ended. -/
def processCompletion (state : HolePunchManager × List HolePunchManagerAction)
    (completion : PunchCompletion) : HolePunchManager × List HolePunchManagerAction :=
  match completion.result with
  | some (rtt, interfaceUp) =>
    let interfaceId := state.1.nextInterfaceId
    let m := { state.1 with nextInterfaceId := interfaceId + 1 }
    match m.sessions[completion.sessionId]? with
    | none => (m, state.2)
    | some session =>
      let (engine, result) := session.engine.punchSucceeded now
      (m.updateSession completion.sessionId fun session => { session with engine },
        state.2 ++ completionActions completion.linkId interfaceId rtt interfaceUp (resultActions result))
  | none =>
    match state.1.sessions[completion.sessionId]? with
    | none => state
    | some session =>
      let (engine, result) := session.engine.punchFailed now
      (state.1.updateSession completion.sessionId fun session => { session with engine },
        state.2 ++ convertEngineActions completion.linkId (resultActions result))

/-- Let the engine of a session look at the clock. -/
def tickSession (state : HolePunchManager × List HolePunchManagerAction)
    (pair : SessionId × Option (Vector UInt8 16)) :
    HolePunchManager × List HolePunchManagerAction :=
  match pair.2, state.1.sessions[pair.1]? with
  | some linkId, some session =>
    let (engine, actions) := session.engine.tick now
    (state.1.updateSession pair.1 fun session => { session with engine },
      state.2 ++ convertEngineActions linkId actions)
  | _, _ => state

def isFailed (session : HolePunchSession) : Bool := session.engine.state = .failed

def removeFailed : HolePunchManager :=
  { m with
    sessions := m.sessions.filter fun _ session => !isFailed session
    linkToSession := m.linkToSession.filter fun _ sessionId => !(m.sessions[sessionId]?).any isFailed }

def tick (outcome : SessionId → Option PunchOutcome) :
    HolePunchManager × List HolePunchManagerAction :=
  let pairs := m.sessionLinkPairs
  let taken := pairs.foldl (takePunch outcome) (m, [])
  let completed := taken.2.foldl (processCompletion now) (taken.1, [])
  let ticked := pairs.foldl (tickSession now) completed
  (ticked.1.removeFailed, ticked.2)

def linkClosed : HolePunchManager := m.dropSession linkId

def abortAllSessions : HolePunchManager := { m with sessions := ∅, linkToSession := ∅ }

end HolePunchManager

/-! ## The manager as a machine -/

/-- What the driver calls, with what the clock, the random generator and the threads bring. -/
inductive HolePunchManagerEvent where
  | propose (linkId : Vector UInt8 16) (derivedKey : Bytes) (now : ℚ) (drawn : SessionId)
  | signal (linkId : Vector UInt8 16) (msgtype : UInt16) (payload : Bytes) (derivedKey : Option Bytes)
      (now : ℚ) (starts : Bool)
  | probeResult (linkId : Vector UInt8 16) (sessionId : SessionId) (observed : SocketAddr) (socket : ℕ)
      (probeServer : SocketAddr) (now : ℚ) (starts : Bool)
  | probeFailed (linkId : Vector UInt8 16) (sessionId : SessionId)
  | tick (now : ℚ) (outcome : SessionId → Option PunchOutcome)
  | linkClosed (linkId : Vector UInt8 16)
  | abortAll
  | setPolicy (policy : HolePunchPolicy)

def HolePunchManager.step (P : Primitives) (m : HolePunchManager) :
    HolePunchManagerEvent → HolePunchManager × List HolePunchManagerAction
  | .propose linkId derivedKey now drawn => m.propose P linkId derivedKey now drawn
  | .signal linkId msgtype payload derivedKey now starts =>
    ((m.handleSignal P linkId msgtype payload derivedKey now starts).1,
      (m.handleSignal P linkId msgtype payload derivedKey now starts).2.2)
  | .probeResult linkId sessionId observed socket probeServer now starts =>
    m.handleProbeResult linkId sessionId observed socket probeServer now starts
  | .probeFailed linkId sessionId => m.handleProbeFailed linkId sessionId
  | .tick now outcome => m.tick now outcome
  | .linkClosed linkId => (m.linkClosed linkId, [])
  | .abortAll => (m.abortAllSessions, [])
  | .setPolicy policy => ({ m with policy }, [])

def holePunchManager (P : Primitives) :
    Machine HolePunchManager HolePunchManagerEvent HolePunchManagerAction where
  step m e := m.step P e

end Rns
