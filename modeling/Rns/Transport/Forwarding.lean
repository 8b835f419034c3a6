import Rns.Transport.Engine

/-!
# Forwarding

What the engine does with packets that are not announces.
-/

namespace Rns.Transport

/-- A packet with what is known about its reception.  The original bytes, before the hop count was
raised, are read for announces only. -/
structure InboundPacketCtx where
  packet : RawPacket
  originalRaw : Bytes
  iface : InterfaceId
  now : ℚ
  fromLocalClient : Bool
  deriving DecidableEq

/-- Hides that a packet starts at this instance. -/
structure LocalHopRewrite where
  localHopsDelta : UInt8
  fromLocalClient : Bool
  skipLocalHopsDelta : Bool
  deriving DecidableEq

variable (rewrite : LocalHopRewrite) (packet : RawPacket)

def LocalHopRewrite.hopByte : UInt8 :=
  if rewrite.localHopsDelta ≠ 0 ∧ rewrite.fromLocalClient ∧ ¬rewrite.skipLocalHopsDelta then
    rewrite.localHopsDelta
  else packet.hops

/-- `forward_transport_packet`: to the next transport node, or stripped for the last hop. -/
def forwardTransportPacket (nextHop : Hash16) (remainingHops : UInt8) : Bytes :=
  if remainingHops > 1 ∨ remainingHops = 1 ∧ nextHop ≠ packet.destinationHash then
    packet.raw.headD 0 :: packet.hops :: (nextHop.toList ++ packet.raw.drop 18)
  else
    (HeaderType.header1 <<< 6 ||| TransportType.broadcast <<< 4 |||
      (packet.raw.headD 0 &&& 0x0F)) :: packet.hops :: packet.raw.drop 18

def withHopByte (hops : UInt8) : Bytes :=
  packet.raw.headD 0 :: hops :: packet.raw.drop 2

/-- `compute_link_id`: the signalling bytes after the keys are not part of the id. -/
def computeLinkId (P : Primitives) (hashablePart : Bytes) (extraBytesLen : ℕ) : Hash16 :=
  let end_ := if extraBytesLen > 0 ∧ hashablePart.length > extraBytesLen then
    hashablePart.length - extraBytesLen else hashablePart.length
  P.truncatedHash (hashablePart.take end_)

def createLinkEntry (P : Primitives) (packet : RawPacket) (nextHop : Hash16)
    (outboundInterface : InterfaceId) (remainingHops : UInt8) (receivingInterface : InterfaceId)
    (now proofTimeout : ℚ) : Hash16 × LinkEntry :=
  let linkId := computeLinkId P
    (RawPacket.computeHashablePart packet.flags.headerType packet.raw)
    (packet.data.length - linkEcpubsize)
  (linkId, {
    timestamp := now
    nextHopTransportId := nextHop
    nextHopInterface := outboundInterface
    remainingHops
    receivedInterface := receivingInterface
    takenHops := packet.hops
    destinationHash := packet.destinationHash
    validated := false
    proofTimeout })

def createReverseEntry (outboundInterface receivingInterface : InterfaceId) (now : ℚ) :
    Hash16 × ReverseEntry :=
  (Bytes.fixed 16 packet.packetHash.toList 0, ⟨receivingInterface, outboundInterface, now⟩)

def routeProofViaReverse (reverseEntry : ReverseEntry) (receivingInterface : InterfaceId)
    (rewrite : LocalHopRewrite) : Option TransportAction :=
  if receivingInterface = reverseEntry.outboundInterface then
    some (.sendOnInterface reverseEntry.receivingInterface
      (withHopByte packet (rewrite.hopByte packet)))
  else none

/-- `route_via_link_table`: the other side of the link, if the hops are those of the link. -/
def routeViaLinkTable (linkEntry : LinkEntry) (receivingInterface : InterfaceId)
    (rewrite : LocalHopRewrite) : Option (InterfaceId × Bytes) :=
  let raw := withHopByte packet (rewrite.hopByte packet)
  if linkEntry.nextHopInterface = linkEntry.receivedInterface then
    if packet.hops = linkEntry.remainingHops ∨ packet.hops = linkEntry.takenHops then
      some (linkEntry.nextHopInterface, raw)
    else none
  else if receivingInterface = linkEntry.nextHopInterface then
    if packet.hops = linkEntry.remainingHops then some (linkEntry.receivedInterface, raw) else none
  else if receivingInterface = linkEntry.receivedInterface then
    if packet.hops = linkEntry.takenHops then some (linkEntry.nextHopInterface, raw) else none
  else none

namespace TransportEngine

variable (e : TransportEngine) (ctx : InboundPacketCtx)

/-- `remember_inbound_packet_hash`: link traffic and link proofs may be seen again. -/
def rememberInboundPacketHash (packet : RawPacket) : TransportEngine :=
  if e.linkTable.contains packet.destinationHash ∨
      packet.flags.packetType = PacketType.proof ∧ packet.context = PacketContext.lrProof then e
  else { e with packetHashlist := e.packetHashlist.add packet.packetHash }

def bridgePlainBroadcast : List TransportAction :=
  if ctx.packet.flags.destinationType ≠ DestinationType.plain ∨
      ctx.packet.flags.transportType ≠ TransportType.broadcast ∨ ¬e.hasLocalClients then []
  else if ctx.fromLocalClient then
    [.forwardPlainBroadcast ctx.packet.raw false (some ctx.iface)]
  else [.forwardPlainBroadcast ctx.packet.raw true none]

/-- `handle_transport_forwarding` along the primary path of the destination. -/
def forwardAlong (P : Primitives) (e : TransportEngine) (ctx : InboundPacketCtx) (ps : PathSet)
    (path : PathEntry) : TransportEngine × List TransportAction :=
  let packet := ctx.packet
  let outboundIsLocalClient := e.interfaceIsLocalClient path.receivingInterface
  let raw := forwardTransportPacket packet path.nextHop
    (if outboundIsLocalClient then 0 else path.hops)
  let raw := if e.config.localHopsDelta ≠ 0 ∧ ctx.fromLocalClient ∧ ¬outboundIsLocalClient ∧
      packet.hops = 0 ∧ packet.flags.destinationType ≠ DestinationType.plain ∧
      packet.flags.destinationType ≠ DestinationType.group ∧ raw.length > 1 then
    raw.set 1 e.config.localHopsDelta else raw
  let touched := e.pathTable.insert packet.destinationHash (ps.touchPrimary ctx.now)
  if packet.flags.packetType = PacketType.linkRequest then
    -- `LINK_ESTABLISHMENT_TIMEOUT_PER_HOP` is six seconds
    let proofTimeout := ctx.now + 6 * (max path.hops 1).toNat
    let (linkId, linkEntry) := createLinkEntry P packet path.nextHop path.receivingInterface
      path.hops ctx.iface ctx.now proofTimeout
    ({ e with linkTable := e.linkTable.insert linkId linkEntry, pathTable := touched },
      [.linkRequestReceived linkId packet.destinationHash ctx.iface,
        .sendOnInterface path.receivingInterface raw])
  else
    let (truncHash, reverseEntry) := createReverseEntry packet path.receivingInterface ctx.iface
      ctx.now
    ({ e with reverseTable := e.reverseTable.insert truncHash reverseEntry, pathTable := touched },
      [.sendOnInterface path.receivingInterface raw])

/-- `handle_transport_forwarding`: only what is addressed to this node and has a path. -/
def handleTransportForwarding (P : Primitives) (e : TransportEngine) (ctx : InboundPacketCtx) :
    TransportEngine × List TransportAction :=
  match e.config.identityHash with
  | none => (e, [])
  | some identityHash =>
    if ctx.packet.flags.packetType = PacketType.announce ∨
        ctx.packet.transportId ≠ some identityHash then (e, [])
    else match e.pathTable[ctx.packet.destinationHash]? with
    | none => (e, [])
    | some ps => match ps.primary with
      | none => (e, [])
      | some path => e.forwardAlong P ctx ps path

/-- The rewrite for traffic of a link, unless both its ends are here. -/
def linkHopRewrite (entry : LinkEntry) : LocalHopRewrite where
  localHopsDelta := e.config.localHopsDelta
  fromLocalClient := ctx.fromLocalClient
  skipLocalHopsDelta := e.interfaceIsLocalClient entry.nextHopInterface &&
    e.interfaceIsLocalClient entry.receivedInterface

def handleLinkTableRouting : TransportEngine × List TransportAction :=
  let packet := ctx.packet
  if ¬e.config.transportEnabled ∧ e.config.identityHash.isNone then (e, [])
  else if packet.flags.packetType = PacketType.announce ∨
      packet.flags.packetType = PacketType.linkRequest ∨
      packet.context = PacketContext.lrProof then (e, [])
  else match e.linkTable[packet.destinationHash]? with
  | none => (e, [])
  | some entry => match routeViaLinkTable packet entry ctx.iface (e.linkHopRewrite ctx entry) with
    | none => (e, [])
    | some (outbound, raw) =>
      ({ e with
        packetHashlist := e.packetHashlist.add packet.packetHash
        linkTable := e.linkTable.insert packet.destinationHash { entry with timestamp := ctx.now } },
        [.sendOnInterface outbound raw])

def deliver : TransportAction :=
  .deliverLocal ctx.packet.destinationHash ctx.packet.raw ctx.packet.packetHash ctx.iface

/-- `process_inbound_proof`: link proofs along the link, other proofs back to who is waiting. -/
def processInboundProof : TransportEngine × List TransportAction :=
  let packet := ctx.packet
  if packet.context = PacketContext.lrProof then
    match e.config.transportEnabled, e.linkTable[packet.destinationHash]? with
    | true, some entry =>
      match routeViaLinkTable packet entry ctx.iface (e.linkHopRewrite ctx entry) with
      | none => (e, [])
      | some (outbound, raw) =>
        ({ e with
          linkTable := e.linkTable.insert packet.destinationHash { entry with validated := true } },
          [.linkEstablished packet.destinationHash outbound, .sendOnInterface outbound raw])
    | _, _ => (e, [deliver ctx])
  else match e.config.transportEnabled, e.reverseTable[packet.destinationHash]? with
    | true, some entry =>
      let rewrite := {
        localHopsDelta := e.config.localHopsDelta
        fromLocalClient := ctx.fromLocalClient
        skipLocalHopsDelta := e.interfaceIsLocalClient entry.receivingInterface }
      ({ e with reverseTable := e.reverseTable.erase packet.destinationHash },
        (routeProofViaReverse packet entry ctx.iface rewrite).toList ++ [deliver ctx])
    | _, _ => (e, [deliver ctx])

def handleInboundLocalDelivery : List TransportAction :=
  if (ctx.packet.flags.packetType = PacketType.linkRequest ∨
      ctx.packet.flags.packetType = PacketType.data) ∧
      e.localDestinations.contains ctx.packet.destinationHash then [deliver ctx]
  else []

/-! ## Forwarding learns nothing -/

/-- Neither the verified signatures nor the paths changed, times aside, and nothing is reported. -/
structure Quiet (e : TransportEngine) (result : TransportEngine × List TransportAction) : Prop where
  sigCache : result.1.announceSigCache = e.announceSigCache
  paths : ∀ destHash, ∀ path ∈ result.1.pathsTo destHash, ∃ old ∈ e.pathsTo destHash,
    { old with timestamp := path.timestamp } = path
  actions : ∀ action ∈ result.2, ∀ destHash, action.reports destHash = false

namespace Quiet

variable {e e' : TransportEngine} {actions actions' : List TransportAction}

theorem of_pathTable_eq (hcache : e'.announceSigCache = e.announceSigCache)
    (hpaths : e'.pathTable = e.pathTable)
    (hactions : ∀ action ∈ actions, ∀ destHash, action.reports destHash = false) :
    Quiet e (e', actions) := by
  refine ⟨hcache, fun destHash path hpath => ⟨path, ?_, rfl⟩, hactions⟩
  simpa only [pathsTo, hpaths] using hpath

theorem refl (e : TransportEngine) : Quiet e (e, []) := of_pathTable_eq rfl rfl nofun

theorem trans {result : TransportEngine × List TransportAction} (h : Quiet e (e', actions))
    (h' : Quiet e' result) : Quiet e (result.1, actions ++ result.2) := by
  refine ⟨h'.sigCache.trans h.sigCache, fun destHash path hpath => ?_, fun action haction => ?_⟩
  · obtain ⟨middle, hmiddle, hpath⟩ := h'.paths destHash path hpath
    obtain ⟨old, hold, hmiddle⟩ := h.paths destHash middle hmiddle
    refine ⟨old, hold, ?_⟩
    rw [← hpath, ← hmiddle]
  · rcases List.mem_append.mp haction with haction | haction
    · exact h.actions action haction
    · exact h'.actions action haction

end Quiet

section

variable (e : TransportEngine) (packet : RawPacket)

theorem rememberInboundPacketHash_eq :
    ∃ packetHashlist, e.rememberInboundPacketHash packet = { e with packetHashlist } := by
  unfold rememberInboundPacketHash
  split_ifs
  · exact ⟨e.packetHashlist, rfl⟩
  · exact ⟨_, rfl⟩

theorem quiet_rememberInboundPacketHash : Quiet e (e.rememberInboundPacketHash packet, []) := by
  obtain ⟨_, heq⟩ := rememberInboundPacketHash_eq e packet
  rw [heq]
  exact .of_pathTable_eq rfl rfl nofun

end

theorem reports_bridgePlainBroadcast {e : TransportEngine} {ctx : InboundPacketCtx}
    {action : TransportAction} (h : action ∈ e.bridgePlainBroadcast ctx) (destHash : Hash16) :
    action.reports destHash = false := by
  unfold bridgePlainBroadcast at h
  split_ifs at h
  · cases h
  · rw [List.mem_singleton.mp h]
    rfl
  · rw [List.mem_singleton.mp h]
    rfl

theorem quiet_handleTransportForwarding (P : Primitives) (e : TransportEngine)
    (ctx : InboundPacketCtx) : Quiet e (e.handleTransportForwarding P ctx) := by
  unfold handleTransportForwarding
  split
  · exact .refl e
  · split_ifs
    · exact .refl e
    · split
      · exact .refl e
      · next ps hps =>
        split
        · exact .refl e
        · next path _ =>
          -- the primary path is touched, other destinations keep their paths
          have hpaths : ∀ e' : TransportEngine, e'.pathTable =
              e.pathTable.insert ctx.packet.destinationHash (ps.touchPrimary ctx.now) →
              ∀ destHash, ∀ path ∈ e'.pathsTo destHash, ∃ old ∈ e.pathsTo destHash,
                { old with timestamp := path.timestamp } = path := by
            intro e' htable destHash path hpath
            simp only [pathsTo, htable, Std.ExtTreeMap.getElem?_insert] at hpath
            split_ifs at hpath with hdest
            · obtain rfl := Std.compare_eq_iff_eq.mp hdest
              simpa only [pathsTo, hps] using PathSet.mem_touchPrimary hpath
            · exact ⟨path, hpath, rfl⟩
          unfold forwardAlong
          dsimp only
          split_ifs <;> exact ⟨rfl, hpaths _ rfl, by simp [TransportAction.reports]⟩

section

variable (e : TransportEngine) (ctx : InboundPacketCtx)

theorem quiet_handleLinkTableRouting : Quiet e (e.handleLinkTableRouting ctx) := by
  unfold handleLinkTableRouting
  dsimp only
  split_ifs
  · exact .refl e
  · exact .refl e
  · split
    · exact .refl e
    · split
      · exact .refl e
      · exact .of_pathTable_eq rfl rfl (by simp [TransportAction.reports])

theorem quiet_processInboundProof : Quiet e (e.processInboundProof ctx) := by
  have hdeliver : ∀ action ∈ [deliver ctx], ∀ destHash, action.reports destHash = false := by
    simp [deliver, TransportAction.reports]
  unfold processInboundProof
  dsimp only
  split_ifs
  · split
    · split
      · exact .refl e
      · exact .of_pathTable_eq rfl rfl (by simp [TransportAction.reports])
    · exact .of_pathTable_eq rfl rfl hdeliver
  · split
    · refine .of_pathTable_eq rfl rfl fun action haction => ?_
      rcases List.mem_append.mp haction with haction | haction
      · unfold routeProofViaReverse at haction
        split_ifs at haction <;> simp at haction
        simp [haction, TransportAction.reports]
      · exact hdeliver action haction
    · exact .of_pathTable_eq rfl rfl hdeliver

end

theorem reports_handleInboundLocalDelivery {e : TransportEngine} {ctx : InboundPacketCtx}
    {action : TransportAction} (h : action ∈ e.handleInboundLocalDelivery ctx) (destHash : Hash16) :
    action.reports destHash = false := by
  unfold handleInboundLocalDelivery at h
  split_ifs at h
  · rw [List.mem_singleton.mp h]
    rfl
  · cases h

end TransportEngine

end Rns.Transport
