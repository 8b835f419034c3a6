import Rns.Channel.Basic
import Rns.Link.Handshake
import Rns.Resource.Receiver
import Rns.Transport.Types

/-!
# The link manager: links and their packets

A managed link holds a link engine, a channel and the resource transfers in both directions.  The cipher
of the session, the key exchange and the compressor are parameters.  The counters of a link, which
nothing reads, are left out, and the clock is read once for each packet.
-/

namespace Rns

inductive ResourceStrategy where
  | acceptNone
  | acceptAll
  | acceptApp
  deriving Repr, DecidableEq

structure IncomingSplitTransfer where
  totalSegments : UInt64
  completedSegments : UInt64
  currentSegmentIndex : UInt64
  currentReceivedParts : ℕ
  currentTotalParts : ℕ
  data : Bytes
  metadata : Option Bytes
  isResponse : Bool
  deriving DecidableEq

structure OutgoingSplitTransfer where
  totalSegments : UInt64
  completedSegments : UInt64
  currentSegmentIndex : UInt64
  currentSentParts : ℕ
  currentTotalParts : ℕ
  deriving DecidableEq

/-- A link with its channel and its transfers; `mtu` is that of the engine. -/
structure ManagedLink where
  engine : LinkEngine
  mtu : ℕ
  channel : Option Channel
  pendingChannelPackets : Std.ExtTreeMap Hash32 UInt16
  destHash : Hash16
  remoteIdentity : Option (Hash16 × Vector UInt8 64)
  destSigPubBytes : Option (Vector UInt8 32)
  incomingResources : List ResourceReceiver
  outgoingResources : List ResourceSender
  incomingSplits : Std.ExtTreeMap Hash32 IncomingSplitTransfer
  outgoingSplits : Std.ExtTreeMap Hash32 OutgoingSplitTransfer
  resourceStrategy : ResourceStrategy
  routeInterface : Option Transport.InterfaceId
  routeTransportId : Option Hash16

/-- A destination that accepts links; its private key is what it signs with. -/
structure LinkDestination where
  sign : Bytes → Vector UInt8 64
  sigPubBytes : Vector UInt8 32
  resourceStrategy : ResourceStrategy

inductive RequestResponse where
  | bytes (data : Bytes)
  | resource (data : Bytes) (metadata : Option Bytes) (autoCompress : Bool)
  deriving DecidableEq

structure RequestHandlerEntry where
  path : Bytes
  pathHash : Hash16
  allowedList : Option (List Hash16)
  handler : LinkId → Bytes → Bytes → Option (Hash16 × Vector UInt8 64) → Option RequestResponse

/-- What the manager asks the driver to do.  `handlerInvoked` is not an action of the source: it
records the call of a request handler, which the source makes in place. -/
inductive LinkManagerAction where
  | sendPacket (raw : Bytes) (destType : UInt8) (attachedInterface : Option Transport.InterfaceId)
  | linkEstablished (linkId : LinkId) (destHash : Hash16) (rtt : ℚ) (isInitiator : Bool)
  | linkClosed (linkId : LinkId) (reason : Option TeardownReason)
  | remoteIdentified (linkId : LinkId) (identityHash : Hash16) (publicKey : Vector UInt8 64)
  | registerLinkDest (linkId : LinkId)
  | deregisterLinkDest (linkId : LinkId)
  | managementRequest (linkId : LinkId) (pathHash : Hash16) (data : Bytes) (requestId : Hash16)
      (remoteIdentity : Option (Hash16 × Vector UInt8 64))
  | resourceReceived (linkId : LinkId) (data : Bytes) (metadata : Option Bytes)
  | resourceCompleted (linkId : LinkId)
  | resourceFailed (linkId : LinkId) (error : String)
  | resourceProgress (linkId : LinkId) (received total : ℕ)
  | resourceAcceptQuery (linkId : LinkId) (resourceHash : Bytes) (transferSize : UInt64)
      (hasMetadata : Bool)
  | channelMessageReceived (linkId : LinkId) (msgtype : UInt16) (payload : Bytes)
  | linkDataReceived (linkId : LinkId) (context : UInt8) (data : Bytes)
  | responseReceived (linkId : LinkId) (requestId : Hash16) (data : Bytes) (metadata : Option Bytes)
  | linkRequestReceived (linkId : LinkId) (receivingInterface : Transport.InterfaceId)
  | handlerInvoked (linkId : LinkId) (path : Bytes) (data : Bytes)
      (remoteIdentity : Option (Hash16 × Vector UInt8 64))
  deriving DecidableEq

structure LinkManager where
  links : Std.ExtTreeMap LinkId ManagedLink
  linkDestinations : Std.ExtTreeMap Hash16 LinkDestination
  requestHandlers : List RequestHandlerEntry
  managementPaths : List Hash16

/-! ## What the manager calls -/

/-- The random bytes of one call: for link encryption, one draw after the other, and for the
resources it makes. -/
structure Entropy where
  iv : ℕ → Vector UInt8 16
  resourceIv : ℕ → Vector UInt8 16
  resourceRandom : ℕ → ℕ → Vector UInt8 4

/-- The draws after the first `n`. -/
def Entropy.after (rng : Entropy) (n : ℕ) : Entropy := { rng with iv := fun k => rng.iv (n + k) }

/-- The cipher of a session, the key exchange and the compressor. -/
structure LinkEnv where
  encrypt : Token → Vector UInt8 16 → Bytes → Bytes
  decrypt : Token → Bytes → Option Bytes
  /-- `LinkEngine::new_responder`: the engine, its MTU and the data of the proof. -/
  newResponder : LinkDestination → RawPacket → Hash16 → ℚ → Entropy →
    Option (LinkEngine × ℕ × Bytes)
  /-- `LinkEngine::handle_lrproof`: the engine, its MTU, the encrypted round-trip time. -/
  handleLrproof : LinkEngine → ℕ → Bytes → Vector UInt8 32 → ℚ → Entropy →
    Option (LinkEngine × ℕ × Bytes × List LinkAction)
  compressor : Compressor

/-! ## Sizes -/

def resourceSdu : ℕ := mtu - 35 - 1

def resourceMaxEfficientSize : ℕ := 1024 * 1024 - 1

namespace ManagedLink

def mdu (l : ManagedLink) : ℕ := computeMdu l.mtu

def resourceSduForLink (l : ManagedLink) : ℕ :=
  if l.mtu - (35 + 1) > 0 then l.mtu - (35 + 1) else resourceSdu

end ManagedLink

/-! ## Packets of a link -/

/-- The flags of a packet on a link. -/
def linkFlags (packetType : UInt8) : PacketFlags where
  headerType := HeaderType.header1
  contextFlag := 0
  transportType := TransportType.broadcast
  destinationType := DestinationType.link
  packetType

variable (P : Primitives) (E : LinkEnv)

def linkPacket (linkId : LinkId) (packetType context : UInt8) (data : Bytes) (maxMtu : ℕ) :
    Option RawPacket :=
  (RawPacket.packWithMaxMtu P (linkFlags packetType) 0 linkId none context data maxMtu).toOption

def sendLinkPacket (linkId : LinkId) (packetType context : UInt8) (data : Bytes) (maxMtu : ℕ) :
    List LinkManagerAction :=
  (linkPacket P linkId packetType context data maxMtu).toList.map fun p =>
    .sendPacket p.raw DestinationType.link none

namespace ManagedLink

/-- `LinkEngine::encrypt`: there is none without a session. -/
def encrypt (l : ManagedLink) (iv : Vector UInt8 16) (data : Bytes) : Option Bytes :=
  l.engine.token.map fun token => E.encrypt token iv data

/-- `LinkEngine::decrypt`. -/
def decrypt (l : ManagedLink) (data : Bytes) : Option Bytes :=
  l.engine.token.bind fun token => E.decrypt token data

variable (l : ManagedLink) (linkId : LinkId) (iv : Vector UInt8 16)

/-- `build_link_packet`: the data as it is, up to the MTU of the link. -/
def buildLinkPacket (context : UInt8) (data : Bytes) : List LinkManagerAction :=
  sendLinkPacket P linkId PacketType.data context data l.mtu

/-- The data encrypted in a packet. -/
def sealLinkPacket (context : UInt8) (iv : Vector UInt8 16) (data : Bytes) :
    List LinkManagerAction :=
  match l.encrypt E iv data with
  | some encrypted => l.buildLinkPacket P linkId context encrypted
  | none => []

/-! ## Actions -/

def processLinkActions (actions : List LinkAction) : List LinkManagerAction :=
  actions.flatMap fun
    | .stateChanged _ newState reason => if newState = .closed then [.linkClosed linkId reason] else []
    | .linkEstablished _ rtt isInitiator => [.linkEstablished linkId l.destHash rtt isInitiator]
    | .remoteIdentified _ identityHash publicKey => [.remoteIdentified linkId identityHash publicKey]

/-- One step of `process_resource_actions`.  Parts are sent as they are, since they are encrypted
already, and proofs in the clear. -/
def processResourceAction : ResourceAction → ManagedLink × List LinkManagerAction
  | .sendAdvertisement data => (l, l.sealLinkPacket P E linkId PacketContext.resourceAdv iv data)
  | .sendPart data => (l, l.buildLinkPacket P linkId PacketContext.resource data)
  | .sendRequest data => (l, l.sealLinkPacket P E linkId PacketContext.resourceReq iv data)
  | .sendHmu data => (l, l.sealLinkPacket P E linkId PacketContext.resourceHmu iv data)
  | .sendProof data =>
    (l, sendLinkPacket P linkId PacketType.proof PacketContext.resourcePrf data Rns.mtu)
  | .sendCancelInitiator hash => (l, l.sealLinkPacket P E linkId PacketContext.resourceIcl iv hash)
  | .sendCancelReceiver hash => (l, l.sealLinkPacket P E linkId PacketContext.resourceRcl iv hash)
  | .dataReceived data metadata => (l, [.resourceReceived linkId data metadata])
  | .completed => (l, [.resourceCompleted linkId])
  | .failed error => (l, [.resourceFailed linkId error.display])
  | .teardownLink =>
    let (engine, actions) := l.engine.handleTeardown
    ({ l with engine }, l.processLinkActions linkId actions)
  | .progressUpdate received total => (l, [.resourceProgress linkId received total])

def processResourceActions (l : ManagedLink) (linkId : LinkId) (rng : Entropy) :
    List ResourceAction → ManagedLink × List LinkManagerAction
  | [] => (l, [])
  | action :: rest =>
    let (l, out) := l.processResourceAction P E linkId (rng.iv 0) action
    let (l, more) := l.processResourceActions linkId (rng.after 1) rest
    (l, out ++ more)

def cancelSend (l : ManagedLink) (sequence : UInt16) : ManagedLink :=
  { l with channel := l.channel.map (·.cancelSend sequence) }

/-- One step of `process_channel_actions`. -/
def processChannelAction : ChannelAction → ManagedLink × List LinkManagerAction
  | .sendOnLink raw sequence => match l.encrypt E iv raw with
    | none => (l.cancelSend sequence, [])
    | some encrypted =>
      match linkPacket P linkId PacketType.data PacketContext.channel encrypted Rns.mtu with
      | none => (l.cancelSend sequence, [])
      | some p =>
        ({ l with pendingChannelPackets := l.pendingChannelPackets.insert p.packetHash sequence },
          [.sendPacket p.raw DestinationType.link none])
  | .messageReceived msgtype payload _ => (l, [.channelMessageReceived linkId msgtype payload])
  | .teardownLink => (l, [.linkClosed linkId (some .timeout)])

def processChannelActions (l : ManagedLink) (linkId : LinkId) (rng : Entropy) :
    List ChannelAction → ManagedLink × List LinkManagerAction
  | [] => (l, [])
  | action :: rest =>
    let (l, out) := l.processChannelAction P E linkId (rng.iv 0) action
    let (l, more) := l.processChannelActions linkId (rng.after 1) rest
    (l, out ++ more)

end ManagedLink

/-! ## A link to run the model with -/

def Token.cipher (t : Token) (iv : Vector UInt8 16) (data : Bytes) : Bytes :=
  match t.encryptWithIv P data iv with
  | .value ciphertext => ciphertext
  | .panic => []

def Token.plain (t : Token) (data : Bytes) : Option Bytes :=
  match t.decrypt P data with
  | .value (.ok plaintext) => some plaintext
  | _ => none

/-- The cipher of the sources, without key exchange or compression. -/
def LinkEnv.sample : LinkEnv where
  encrypt token iv data := token.cipher .sample iv data
  decrypt token data := token.plain .sample data
  newResponder _ _ _ _ _ := none
  handleLrproof _ _ _ _ _ _ := none
  compressor := .noop

def Entropy.zero : Entropy where
  iv _ := .replicate 16 0
  resourceIv _ := .replicate 16 0
  resourceRandom _ _ := .replicate 4 0

/-- An end of an active link with a channel. -/
def ManagedLink.sample (isInitiator : Bool) : ManagedLink where
  engine := { LinkEngine.waiting LinkEngine.zeroToken with
    state := .active
    isInitiator
    activatedAt := some 0
    rtt := some 1 }
  mtu := Rns.mtu
  channel := some (.new 1)
  pendingChannelPackets := ∅
  destHash := .replicate 16 3
  remoteIdentity := none
  destSigPubBytes := none
  incomingResources := []
  outgoingResources := []
  incomingSplits := ∅
  outgoingSplits := ∅
  resourceStrategy := .acceptAll
  routeInterface := none
  routeTransportId := none

/-- A manager with one link and no destinations. -/
def LinkManager.sample (l : ManagedLink) : LinkManager where
  links := (∅ : Std.ExtTreeMap LinkId ManagedLink).insert l.engine.linkId l
  linkDestinations := ∅
  requestHandlers := []
  managementPaths := []

theorem LinkManager.links_sample (l : ManagedLink) :
    (LinkManager.sample l).links[l.engine.linkId]? = some l :=
  Std.ExtTreeMap.getElem?_insert_self

end Rns
