import Rns.LinkManager.Resources

/-!
# The link manager: packets, requests and ticks

Every packet addressed to a link goes through `handle_local_delivery`, which hands it on by its type
and context.
-/

namespace Rns

open PacketContext (response request keepalive lrRtt linkClose channel resource resourcePrf lrProof)

variable (P : Primitives) (E : LinkEnv)

def computePathHash (path : Bytes) : Hash16 := P.truncatedHash path

/-- The value that stands for some data in a request or a response: what it decodes to, or itself as
a byte string. -/
def messageValue (data : Bytes) : Msgpack.Value :=
  match Msgpack.unpackExact data with
  | .ok value => value
  | .error _ => .bin data

/-- The path hash and the data of a request. -/
def parseRequest (plaintext : Bytes) : Option (Hash16 × Bytes) :=
  match Msgpack.unpackExact plaintext with
  | .ok (.array (_ :: .bin pathHash :: value :: _)) =>
    if pathHash.length = 16 then some (Bytes.fixed 16 pathHash 0, Msgpack.pack value) else none
  | _ => none

/-- The handler may be called by a peer. -/
def RequestHandlerEntry.allows (h : RequestHandlerEntry)
    (remoteIdentity : Option (Hash16 × Vector UInt8 64)) : Bool :=
  match h.allowedList with
  | none => true
  | some allowed => match remoteIdentity with
    | some (identityHash, _) => allowed.contains identityHash
    | none => false

namespace ManagedLink

/-! ## Requests and responses -/

variable (l : ManagedLink) (linkId : LinkId) (data : Bytes) (requestId : Hash16)
  (responseData : Bytes)

def responsePayload : Bytes :=
  Msgpack.pack (.array [.bin requestId.toList, messageValue responseData])

def buildResponsePacket (iv : Vector UInt8 16) : List LinkManagerAction :=
  l.sealLinkPacket P E linkId response iv (responsePayload requestId responseData)

def sendResponseResource (metadata : Option Bytes) (autoCompress : Bool) (rng : Entropy) (now : ℚ) :
    ManagedLink × List LinkManagerAction :=
  if l.engine.state ≠ .active then (l, [])
  else match l.buildResourceSenders P E (responsePayload requestId responseData) metadata autoCompress
      true (some requestId.toList) rng now with
    | .error _ => (l, [])
    | .ok senders =>
      let (l, actions) := l.startResourceSenders senders now
      l.processResourceActions P E linkId rng actions

variable (rng : Entropy) (now : ℚ)

/-- The response of a handler is sent, as a resource if it does not fit a packet. -/
def respond : Option RequestResponse → ManagedLink × List LinkManagerAction
  | none => (l, [])
  | some (.bytes data) => match l.buildResponsePacket P E linkId requestId data (rng.iv 0) with
    | [] => l.sendResponseResource P E linkId requestId data none true (rng.after 1) now
    | out => (l, out)
  | some (.resource data metadata autoCompress) =>
    l.sendResponseResource P E linkId requestId data metadata autoCompress rng now

/-- What `send_request` packs; `stamp` is the time as a float. -/
def requestPlaintext (path data : Bytes) (stamp : UInt64) : Bytes :=
  Msgpack.pack (.array [.float stamp, .bin (computePathHash P path).toList, messageValue data])

/-- `send_request`: what does not fit a packet goes as a resource. -/
def sendRequest (path data : Bytes) (stamp : UInt64) (rng : Entropy) (now : ℚ) :
    ManagedLink × List LinkManagerAction :=
  if l.engine.state ≠ .active then (l, [])
  else
    let plaintext := requestPlaintext P path data stamp
    if plaintext.length > l.mdu then
      match l.buildResourceSenders P E plaintext none true false
          (some (P.truncatedHash plaintext).toList) rng now with
      | .error _ => (l, [])
      | .ok senders =>
        let (l, actions) := l.startResourceSenders senders now
        l.processResourceActions P E linkId rng actions
    else (l, l.sealLinkPacket P E linkId request (rng.iv 0) plaintext)

/-! ## Steps of the link data handler -/

/-- The route of the last packet is remembered. -/
def noteRoute (packet : RawPacket) (interface : Transport.InterfaceId) : ManagedLink :=
  { l with
    routeInterface := some interface
    routeTransportId := if packet.flags.headerType = HeaderType.header2 then
        packet.transportId.orElse fun _ => l.routeTransportId
      else none }

def handleLrrtt : Option (ManagedLink × List LinkAction) :=
  if l.engine.state ≠ .handshake ∨ l.engine.isInitiator then none
  else (l.decrypt E data).bind fun plaintext =>
    (LinkEngine.unpackRtt P plaintext).map fun initiatorRtt =>
      let (engine, actions) := l.engine.activateResponder initiatorRtt now
      ({ l with engine }, actions)

def handleIdentify : Option (ManagedLink × List LinkAction) :=
  if l.engine.state ≠ .active ∨ l.engine.isInitiator then none
  else (l.decrypt E data).bind fun plaintext =>
    match LinkEngine.validateIdentifyData P plaintext l.engine.linkId with
    | .error _ => none
    | .ok (identityHash, publicKey) =>
      some ({ l with
          engine := { l.engine with remoteIdentity := some (identityHash, publicKey) }
          remoteIdentity := some (identityHash, publicKey) },
        [.remoteIdentified l.engine.linkId identityHash publicKey])

def startChannel : ManagedLink :=
  if l.engine.state = .active then { l with channel := some (.new (l.engine.rtt.getD 1)) } else l

/-- The engine records an inbound packet before it is handled. -/
def inbound (handle : ManagedLink → ManagedLink × List LinkManagerAction) :
    ManagedLink × List LinkManagerAction :=
  let (engine, actions) := l.engine.recordInbound now
  let l := { l with engine }
  let (l', out) := handle l
  (l', l.processLinkActions linkId actions ++ out)

/-- Packets that do not decrypt are dropped. -/
def decrypted (handle : ManagedLink → Bytes → ManagedLink × List LinkManagerAction) :
    ManagedLink × List LinkManagerAction :=
  match l.decrypt E data with
  | none => (l, [])
  | some plaintext => l.inbound linkId now fun l => handle l plaintext

def receiveOnChannel (plaintext : Bytes) (rng : Entropy) : ManagedLink × List LinkManagerAction :=
  match l.channel with
  | none => (l, [])
  | some channel =>
    let (channel, actions) := channel.receive plaintext
    { l with channel := some channel }.processChannelActions P E linkId rng actions

def handleLinkProof : ManagedLink :=
  if data.length < 32 then l
  else
    let trackedHash := Bytes.fixed 32 data 0
    match l.pendingChannelPackets[trackedHash]? with
    | none => l
    | some sequence => { l with
        pendingChannelPackets := l.pendingChannelPackets.erase trackedHash
        channel := l.channel.map (·.packetDelivered sequence) }

/-- `send_channel_message` on a link: the error is that of the channel, or there is none. -/
def sendChannelMessage (msgtype : UInt16) (payload : Bytes) (rng : Entropy) (now : ℚ) :
    Except String (ManagedLink × List LinkManagerAction) :=
  match l.channel with
  | none => .error "link has no active channel"
  | some channel => match channel.send msgtype payload now l.mdu with
    | .error error => .error error.display
    | .ok (channel, actions) =>
      .ok ({ l with channel := some channel }.processChannelActions P E linkId rng actions)

/-! ## Ticks of a link -/

/-- The engine and the channel of a link tick, and a keepalive is sent if one is due. -/
def tickLink : ManagedLink × List LinkManagerAction :=
  let (engine, actions) := l.engine.tick now
  let l := { l with engine }
  let out := l.processLinkActions linkId actions
  let (l, keepalive) := if l.engine.needsKeepalive now then
      match sendLinkPacket P linkId PacketType.data keepalive [] Rns.mtu with
      | [] => (l, [])
      | sent => ({ l with engine := l.engine.recordOutbound now true }, sent)
    else (l, [])
  match l.channel with
  | none => (l, out ++ keepalive)
  | some channel =>
    let (channel, actions) := channel.tick now
    let (l, more) := { l with channel := some channel }.processChannelActions P E linkId rng actions
    (l, out ++ keepalive ++ more)

/-- The transfers of a link tick, and those that have ended are removed. -/
def tickResources : ManagedLink × List LinkManagerAction :=
  let senders := l.outgoingResources.map fun s => s.tick now
  let receivers := l.incomingResources.map fun r => r.tick P now (l.decrypt E) E.compressor
  let outgoingResources := unfinishedSenders (senders.map Prod.fst)
  let active := (outgoingResources.filter fun s => s.flags.split).map (·.originalHash)
  let l := { l with
    outgoingResources
    incomingResources := (receivers.map Prod.fst).filter fun r =>
      r.status.code < ResourceStatus.assembling.code
    outgoingSplits := l.outgoingSplits.filter fun originalHash split =>
      split.completedSegments < split.totalSegments ∧ active.contains originalHash }
  l.processResourceActions P E linkId rng
    (senders.flatMap Prod.snd ++ receivers.flatMap Prod.snd)

end ManagedLink

/-! ## The manager -/

namespace LinkManager

variable (m : LinkManager) (l : ManagedLink) (linkId : LinkId) (packet : RawPacket)
  (packetHash : Hash32)

/-- What is done on one link, if there is one. -/
def onLink (f : ManagedLink → ManagedLink × List LinkManagerAction) :
    LinkManager × List LinkManagerAction :=
  match m.links[linkId]? with
  | none => (m, [])
  | some l =>
    let (l, out) := f l
    ({ m with links := m.links.insert linkId l }, out)

/-- `handle_request`: a management path is left to the driver. -/
def handleRequest (plaintext : Bytes) (requestId : Hash16) (rng : Entropy) (now : ℚ) :
    ManagedLink × List LinkManagerAction :=
  match parseRequest plaintext with
  | none => (l, [])
  | some (pathHash, data) =>
    if m.managementPaths.contains pathHash then
      (l, [.managementRequest linkId pathHash data requestId l.remoteIdentity])
    else match m.requestHandlers.find? fun h => h.pathHash = pathHash with
      | none => (l, [])
      | some h =>
        if h.allows l.remoteIdentity then
          let response := h.handler linkId h.path data l.remoteIdentity
          let (l', out) := l.respond P E linkId requestId rng now response
          (l', .handlerInvoked linkId h.path data l.remoteIdentity :: out)
        else (l, [])

/-- `build_link_packet_proof`: a proof is signed with the key of the destination of the link. -/
def buildLinkPacketProof : List LinkManagerAction :=
  match m.linkDestinations[l.destHash]? with
  | none => []
  | some ld => sendLinkPacket P linkId PacketType.proof PacketContext.none
      (packetHash.toList ++ (ld.sign packetHash.toList).toList) Rns.mtu

/-- `handle_link_data`, after the route is noted: by the context of the packet. -/
def handleContext (rng : Entropy) (now : ℚ) : ManagedLink × List LinkManagerAction :=
  if packet.context = lrRtt then match l.handleLrrtt P E packet.data now with
    | none => (l, [])
    | some (l, actions) => (l.startChannel, l.processLinkActions linkId actions)
  else if packet.context = PacketContext.linkIdentify then match l.handleIdentify P E packet.data with
    | none => (l, [])
    | some (l, actions) => (l, l.processLinkActions linkId actions)
  else if packet.context = keepalive then l.inbound linkId now fun l => (l, [])
  else if packet.context = linkClose then
    let (engine, actions) := l.engine.handleTeardown
    ({ l with engine }, l.processLinkActions linkId actions)
  else if packet.context = channel then
    l.decrypted E linkId packet.data now fun l plaintext =>
      let (l, out) := l.receiveOnChannel P E linkId plaintext rng
      (l, out ++ m.buildLinkPacketProof P l linkId packetHash)
  else if packet.context = request then
    l.decrypted E linkId packet.data now fun l plaintext =>
      m.handleRequest P E l linkId plaintext (Bytes.fixed 16 packet.packetHash.toList 0) rng now
  else if packet.context = response then
    l.decrypted E linkId packet.data now fun l plaintext =>
      (l, handleResponse linkId plaintext none none)
  else if packet.context = PacketContext.resourceAdv then
    l.decrypted E linkId packet.data now fun l plaintext =>
      l.handleResourceAdv P E linkId plaintext rng now
  else if packet.context = PacketContext.resourceReq then
    l.decrypted E linkId packet.data now fun l plaintext =>
      l.handleResourceReq P E linkId plaintext rng now
  else if packet.context = PacketContext.resourceHmu then
    l.decrypted E linkId packet.data now fun l plaintext =>
      l.handleResourceHmu P E linkId plaintext rng now
  else if packet.context = resource then
    l.inbound linkId now fun l => l.handleResourcePart P E linkId packet.data rng now
  else if packet.context = resourcePrf then
    l.decrypted E linkId packet.data now fun l plaintext =>
      l.handleResourcePrf P E linkId plaintext rng now
  -- whether a cancellation decrypts is not looked at
  else if packet.context = PacketContext.resourceIcl then
    l.inbound linkId now fun l => l.handleResourceIcl linkId
  else if packet.context = PacketContext.resourceRcl then
    l.inbound linkId now fun l => l.handleResourceRcl linkId
  else
    l.decrypted E linkId packet.data now fun l plaintext =>
      (l, .linkDataReceived linkId packet.context plaintext ::
        m.buildLinkPacketProof P l linkId packetHash)

def handleLinkData (interface : Transport.InterfaceId) (rng : Entropy) (now : ℚ) :
    LinkManager × List LinkManagerAction :=
  m.onLink linkId fun l =>
    m.handleContext P E (l.noteRoute packet interface) linkId packet packetHash rng now

def handleLrproof (m : LinkManager) (linkId : LinkId) (packet : RawPacket)
    (interface : Transport.InterfaceId) (rng : Entropy) (now : ℚ) :
    LinkManager × List LinkManagerAction :=
  m.onLink linkId fun l =>
    let l := { l with
      routeInterface := some interface
      routeTransportId := if packet.flags.headerType = HeaderType.header2 then
          packet.transportId.orElse fun _ => l.routeTransportId
        else l.routeTransportId }
    if l.engine.state ≠ .pending ∨ ¬l.engine.isInitiator then (l, [])
    else match l.destSigPubBytes with
      | none => (l, [])
      | some destSigPubBytes =>
        match E.handleLrproof l.engine l.mtu packet.data destSigPubBytes now rng with
        | none => (l, [])
        | some (engine, mtu, lrrtt, actions) =>
          let l := { l with engine, mtu }
          (l.startChannel, l.processLinkActions linkId actions ++
            sendLinkPacket P linkId PacketType.data lrRtt lrrtt Rns.mtu)

/-- The link that a request opens. -/
def newLink (engine : LinkEngine) (mtu : ℕ) (destHash : Hash16) (ld : LinkDestination)
    (packet : RawPacket) (interface : Transport.InterfaceId) : ManagedLink where
  engine
  mtu
  channel := none
  pendingChannelPackets := ∅
  destHash
  remoteIdentity := none
  destSigPubBytes := none
  incomingResources := []
  outgoingResources := []
  incomingSplits := ∅
  outgoingSplits := ∅
  resourceStrategy := ld.resourceStrategy
  routeInterface := some interface
  routeTransportId := if packet.flags.headerType = HeaderType.header2 then packet.transportId else none

def sendLrproof (hops : UInt8) (data : Bytes) : List LinkManagerAction :=
  (RawPacket.pack P (linkFlags PacketType.proof) hops linkId none lrProof
    data).toOption.toList.map fun p => .sendPacket p.raw DestinationType.link none

/-- `handle_linkrequest`: the proof is sent with the hops of the request, with none and with one
more. -/
def handleLinkrequest (destHash : Hash16) (packet : RawPacket) (interface : Transport.InterfaceId)
    (rng : Entropy) (now : ℚ) : LinkManager × List LinkManagerAction :=
  match m.linkDestinations[destHash]? with
  | none => (m, [])
  | some ld => match E.newResponder ld packet destHash now rng with
    | none => (m, [])
    | some (engine, mtu, lrproof) =>
      let linkId := engine.linkId
      ({ m with links := m.links.insert linkId (newLink engine mtu destHash ld packet interface) },
        .registerLinkDest linkId :: (sendLrproof P linkId packet.hops lrproof ++
          (if packet.hops ≠ 0 then sendLrproof P linkId 0 lrproof else []) ++
          (if packet.hops < 255 then sendLrproof P linkId (packet.hops + 1) lrproof else []) ++
          [.linkRequestReceived linkId interface]))

def handleLocalDelivery (destHash : Hash16) (raw : Bytes) (packetHash : Hash32)
    (interface : Transport.InterfaceId) (rng : Entropy) (now : ℚ) :
    LinkManager × List LinkManagerAction :=
  match RawPacket.unpack P raw with
  | .error _ => (m, [])
  | .ok packet =>
    if packet.flags.packetType = PacketType.linkRequest then
      m.handleLinkrequest P E destHash packet interface rng now
    else if packet.flags.packetType = PacketType.proof then
      if packet.context = lrProof then
        m.handleLrproof P E destHash packet interface rng now
      -- resource proofs are proof packets, in the clear
      else if packet.context = resourcePrf then
        m.onLink destHash fun l => l.handleResourcePrf P E destHash packet.data rng now
      else m.onLink destHash fun l => (l.handleLinkProof packet.data, [])
    else if packet.flags.packetType = PacketType.data then
      m.handleLinkData P E destHash packet packetHash interface rng now
    else (m, [])

def sendChannelMessage (m : LinkManager) (linkId : LinkId) (msgtype : UInt16) (payload : Bytes)
    (rng : Entropy) (now : ℚ) : Except String (LinkManager × List LinkManagerAction) :=
  match m.links[linkId]? with
  | none => .error "unknown link"
  | some l => (l.sendChannelMessage P E linkId msgtype payload rng now).map fun (l, out) =>
      ({ m with links := m.links.insert linkId l }, out)

def sendRequest (m : LinkManager) (linkId : LinkId) (path data : Bytes) (stamp : UInt64)
    (rng : Entropy) (now : ℚ) : LinkManager × List LinkManagerAction :=
  m.onLink linkId fun l => l.sendRequest P E linkId path data stamp rng now

def sendResource (data : Bytes) (metadata : Option Bytes) (rng : Entropy) (now : ℚ) :
    LinkManager × List LinkManagerAction :=
  m.onLink linkId fun l => l.sendResourceWithAutoCompress P E linkId data metadata true rng now

/-- `tick`: the links first, then their transfers; closed links are removed.  Each link draws its own
random bytes. -/
def tick (rng : LinkId → Entropy × Entropy) (now : ℚ) : LinkManager × List LinkManagerAction :=
  let ticked := m.links.map fun linkId l => l.tickLink P E linkId (rng linkId).1 now
  let transferred := ticked.map fun linkId x => x.1.tickResources P E linkId (rng linkId).2 now
  let links := transferred.map fun _ x => x.1
  let isClosed (l : ManagedLink) : Bool := l.engine.state = .closed
  ({ m with links := links.filter fun _ l => !isClosed l },
    ticked.toList.flatMap (·.2.2) ++ transferred.toList.flatMap (·.2.2) ++
      (links.filter fun _ l => isClosed l).keys.map .deregisterLinkDest)

end LinkManager

end Rns
