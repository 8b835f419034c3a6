import Rns.Transport.Forwarding

/-!
# Outbound packets

Where a packet of this node goes: along the path of its destination, or, without a path, on the
interface it is attached to or on all of them.  On the way it may get a transport header.
-/

namespace Rns.Transport

open DestinationType (plain group link)
open InterfaceMode (internal roaming boundary)

structure OutboundRouteOptions where
  identityHash : Option Hash16
  localHopsDelta : UInt8
  deriving DecidableEq

/-- `inject_transport_header_with_hops`: of the flags only the lower four bits are kept. -/
def injectTransportHeaderWithHops (packet : RawPacket) (nextHop : Hash16) (hops : UInt8) : Bytes :=
  (HeaderType.header2 <<< 6 ||| TransportType.transport <<< 4 ||| (packet.raw.headD 0 &&& 0x0F)) ::
    hops :: (nextHop.toList ++ packet.raw.drop 2)

def mangleHops (raw : Bytes) (hops : UInt8) : Bytes :=
  if raw.length > 1 then raw.set 1 hops else raw

/-- `local_hops_delta`: only for packets that start here, and not towards local clients. -/
def localHopsDelta (packet : RawPacket) (destType : UInt8) (iface : InterfaceInfo)
    (options : OutboundRouteOptions) : Option UInt8 :=
  if options.localHopsDelta = 0 ∨ packet.hops ≠ 0 ∨ destType = plain ∨
      destType = group ∨ iface.isLocalClient then none
  else some options.localHopsDelta

def rawForInterface (packet : RawPacket) (destType : UInt8) (iface : InterfaceInfo)
    (options : OutboundRouteOptions) : Bytes :=
  match localHopsDelta packet destType iface options with
  | none => packet.raw
  | some hops =>
    match options.identityHash with
    | some identityHash =>
      if packet.flags.packetType = PacketType.announce ∧
          packet.flags.headerType = HeaderType.header1 then
        injectTransportHeaderWithHops packet identityHash hops
      else mangleHops packet.raw hops
    | none => mangleHops packet.raw hops

/-- The tables `route_outbound` reads. -/
structure RouteTables where
  pathTable : Std.ExtTreeMap Hash16 PathSet
  interfaces : Std.ExtTreeMap InterfaceId InterfaceInfo
  localDestinations : Std.ExtTreeMap Hash16 UInt8

namespace RouteTables

variable (t : RouteTables) (packet : RawPacket) (destType : UInt8)
  (attachedInterface : Option InterfaceId) (options : OutboundRouteOptions)

/-- The bytes for an interface, which may be unknown. -/
def rawFor (iface : InterfaceId) (options : OutboundRouteOptions) : Bytes :=
  match t.interfaces[iface]? with
  | some info => rawForInterface packet destType info options
  | none => packet.raw

def fromInterface (destHash : Hash16) : Option InterfaceInfo :=
  (t.pathTable[destHash]?.bind PathSet.primary).bind fun path => t.interfaces[path.receivingInterface]?

/-- `should_transmit_announce`: by the modes of the two interfaces. -/
def shouldTransmitAnnounce (iface : InterfaceInfo) (destHash : Hash16) : Bool :=
  let localDestination := t.localDestinations.contains destHash
  let fromMode := (t.fromInterface destHash).map InterfaceInfo.mode
  if ¬localDestination ∧ fromMode.isNone then false
  else if ¬localDestination ∧ ¬iface.announcesFromInternal ∧
      fromMode = some internal then false
  else if iface.mode = InterfaceMode.accessPoint then false
  else if iface.mode = roaming then
    localDestination ∨ fromMode ≠ some roaming ∧ fromMode ≠ some boundary
  else if iface.mode = boundary then
    localDestination ∨ fromMode ≠ some roaming
  else if iface.mode = internal then
    localDestination ∨ fromMode ≠ some boundary
  else true

/-- Announces go out on the interfaces whose mode allows it. -/
def routeAnnounce : List TransportAction :=
  t.interfaces.toList.filterMap fun (_, info) =>
    if info.outCapable ∧ (attachedInterface = none ∨ attachedInterface = some info.id) ∧
        t.shouldTransmitAnnounce info packet.destinationHash then
      some (.sendOnInterface info.id (rawForInterface packet destType info options))
    else none

/-- The route along a known path: with a transport header when another node comes first. -/
def routeAlong (path : PathEntry) : List TransportAction :=
  let outboundInfo := t.interfaces[path.receivingInterface]?
  let isSharedClient := (outboundInfo.map InterfaceInfo.isLocalClient).getD false
  let oneHopViaTransport := path.hops = 1 ∧ path.nextHop ≠ packet.destinationHash
  if path.hops > 1 ∨ oneHopViaTransport ∨ path.hops = 1 ∧ isSharedClient then
    if packet.flags.headerType = HeaderType.header1 then
      let hops := (outboundInfo.bind fun info => localHopsDelta packet destType info options).getD
        (packet.raw.getD 1 0)
      [.sendOnInterface path.receivingInterface
        (injectTransportHeaderWithHops packet path.nextHop hops)]
    else []
  else [.sendOnInterface path.receivingInterface
    (t.rawFor packet destType path.receivingInterface options)]

/-- The route without a path.  Packets of links and other packets differ in the source only in
that the former return early. -/
def routeAnywhere : List TransportAction :=
  match attachedInterface with
  | some iface =>
    if destType = link ∨ packet.flags.packetType ≠ PacketType.announce then
      [.sendOnInterface iface (t.rawFor packet destType iface options)]
    else t.routeAnnounce packet destType attachedInterface options
  | none =>
    if packet.flags.packetType = PacketType.announce then
      t.routeAnnounce packet destType attachedInterface options
    else [.broadcastOnAllInterfaces packet.raw none]

def routeOutboundWithOptions : List TransportAction :=
  if packet.flags.packetType ≠ PacketType.announce ∧ destType ≠ plain ∧
      destType ≠ group then
    match t.pathTable[packet.destinationHash]?.bind PathSet.primary with
    | some path => t.routeAlong packet destType options path
    | none => t.routeAnywhere packet destType attachedInterface options
  else t.routeAnywhere packet destType attachedInterface options

def routeOutbound : List TransportAction :=
  t.routeOutboundWithOptions packet destType attachedInterface ⟨none, 0⟩

end RouteTables

/-- What the engine gives to `route_outbound`. -/
def TransportEngine.routeTables (e : TransportEngine) : RouteTables :=
  ⟨e.pathTable, e.interfaces, e.localDestinations⟩

end Rns.Transport
