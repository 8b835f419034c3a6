import Rns.Transport.Authenticity
import Rns.Transport.Retention

/-!
# A relay: frames, path requests and ticks

The engine with everything that changes what it waits to retransmit.

Which interfaces a path request is passed on to depends on modes, limits and announce queues that
nothing else here reads; it is part of the event.  What is sent for an announce goes through the
announce queue of each interface, which is left out.
-/

namespace Rns.Transport

namespace IngressControl

/-- `process_held_announces`: one announce, that with the fewest hops, once the burst is over. -/
def processHeldAnnounces (control : IngressControl) (interface : InterfaceId)
    (config : IngressControlConfig) (heldReleaseInterval iaFreq interfaceStarted now : ℚ) :
    IngressControl × Option HeldAnnounce :=
  if ¬config.enabled then (control, none)
  else match control[interface]? with
  | none => (control, none)
  | some state =>
    let threshold := if now - interfaceStarted < config.newTime then config.burstFreqNew
      else config.burstFreq
    if state.heldAnnounces.isEmpty ∨ now < state.heldRelease ∨ iaFreq ≥ threshold then
      (control, none)
    else
      let state := { state with burstActive := false }
      match minBy (fun (_, a) (_, b) => a.hops < b.hops) state.heldAnnounces.toList with
      | none => (control.insert interface state, none)
      | some (destHash, held) =>
        (control.insert interface { state with
          heldAnnounces := state.heldAnnounces.erase destHash
          heldRelease := now + heldReleaseInterval }, some held)

def interfacesWithHeld (control : IngressControl) : List InterfaceId :=
  (control.toList.filter fun (_, state) => ¬state.heldAnnounces.isEmpty).map Prod.fst

end IngressControl

namespace TransportEngine

variable (P : Primitives)

/-- The destination of path requests: `rnstransport.path.request`. -/
def pathRequestDestination : Hash16 :=
  let name := "rnstransport.path.request".toList.map fun c => UInt8.ofNat c.toNat
  P.truncatedHash ((P.fullHash name).toList.take 10)

def buildPathRequestPacket (destHash : Hash16) (identityHash : Option Hash16) (tag : Bytes) :
    Option Bytes :=
  let data := destHash.toList ++
    (match identityHash with
      | some identityHash => identityHash.toList
      | none => []) ++ tag
  let flags := {
    headerType := HeaderType.header1
    contextFlag := 0
    transportType := TransportType.broadcast
    destinationType := DestinationType.plain
    packetType := PacketType.data }
  (RawPacket.pack P flags 0 (pathRequestDestination P) none PacketContext.none data).toOption.map
    RawPacket.raw

/-- `DISCOVER_PATHS_FOR`: the modes of interfaces that unknown paths are searched for. -/
def discoverPathsFor : List UInt8 :=
  -- `MODE_GATEWAY` has no other use here
  [InterfaceMode.accessPoint, 0x06, InterfaceMode.roaming, InterfaceMode.internal]

variable (e : TransportEngine)

/-- `handle_discovery_path_request`, with the interfaces that are not held back by their limits. -/
def handleDiscoveryPathRequest (destHash : Hash16) (tag : Bytes) (iface : InterfaceId)
    (recursivePrs : Bool) (now : ℚ) (egress : List InterfaceId) :
    TransportEngine × List TransportAction :=
  match e.interfaces[iface]? with
  | none => (e, [])
  | some info =>
    if ¬(recursivePrs ∨ info.mode ∈ discoverPathsFor) then (e, [])
    else match buildPathRequestPacket P destHash e.config.identityHash tag with
    | none => (e, [])
    | some raw =>
      let egress := egress.filter fun id =>
        id ≠ iface ∧ (e.interfaces[id]?.map InterfaceInfo.outCapable).getD false
      if egress.isEmpty then (e, [])
      else
        ({ e with discoveryPathRequests := e.discoveryPathRequests.insert destHash ⟨now, iface⟩ },
          egress.map fun id => .sendOnInterface id raw)

/-- The announces one interface holds back are released one at a time. -/
def releaseHeld (heldReleaseInterval : InterfaceId → ℚ) (now : ℚ) (rng : InterfaceId → UInt64)
    (iface : InterfaceId) : TransportEngine × List TransportAction :=
  match e.interfaces[iface]? with
  | none => (e, [])
  | some info =>
    if ¬info.ingressControl.enabled then (e, [])
    else
      let (ingressControl, held) := e.ingressControl.processHeldAnnounces iface info.ingressControl
        (heldReleaseInterval iface) info.iaFreq info.started now
      let e := { e with ingressControl }
      match held with
      | none => (e, [])
      | some held =>
        e.handleInbound P ⟨held.raw, held.receivingInterface, now, held.rx⟩ (rng iface)

/-- The loop of `process_tick_ingress_release`. -/
def releaseAll (heldReleaseInterval : InterfaceId → ℚ) (now : ℚ) (rng : InterfaceId → UInt64) :
    List InterfaceId → TransportEngine → TransportEngine × List TransportAction
  | [], e => (e, [])
  | iface :: ifaces, e =>
    let (e, actions) := e.releaseHeld P heldReleaseInterval now rng iface
    let (e, more) := releaseAll heldReleaseInterval now rng ifaces e
    (e, actions ++ more)

/-- `cull_link_table`, with the links that are closed. -/
def cullLinkTable (now : ℚ) : Std.ExtTreeMap Hash16 LinkEntry × List Hash16 :=
  let stale := fun entry : LinkEntry =>
    if entry.validated then now > entry.timestamp + linkTimeout ∨
      ¬e.interfaces.contains entry.nextHopInterface ∨ ¬e.interfaces.contains entry.receivedInterface
    else now > entry.proofTimeout
  (e.linkTable.filter fun _ entry => ¬stale entry,
    (e.linkTable.toList.filter fun (_, entry) => stale entry).map Prod.fst)

/-- `cull_tick_tables`, once it is time. -/
def cullTables (now : ℚ) : TransportEngine × List Hash16 :=
  let pathTable := cullPathTable e.pathTable e.interfaces now
  let (linkTable, closed) := e.cullLinkTable now
  ({ e with
    pathTable
    reverseTable := e.reverseTable.filter fun _ entry => ¬(now > entry.timestamp + reverseTimeout ∨
      ¬e.interfaces.contains entry.outboundInterface ∨
      ¬e.interfaces.contains entry.receivingInterface)
    linkTable
    pathStates := e.pathStates.filter fun destHash _ =>
      (pathTable[destHash]?.map fun ps => !ps.isEmpty).getD false
    blackholedIdentities := e.blackholedIdentities.filter fun _ entry =>
      entry.expires = 0 ∨ entry.expires > now
    discoveryPathRequests := e.discoveryPathRequests.filter fun _ request =>
      now - request.timestamp < discoveryPathRequestTimeout
    tunnelTable := TunnelTable.cull (e.tunnelTable.map fun _ entry =>
      { entry with interface := entry.interface.filter e.interfaces.contains }) now
    announceSigCache := e.announceSigCache.cull now }, closed)

end TransportEngine

/-! ## The machine -/

/-- A node with what path requests and ticks need besides. -/
structure Relay extends Node where
  /-- The tags of path requests seen before, the oldest first. -/
  discoveryPrTags : List Hash32
  maxDiscoveryPrTags : ℕ
  announcesLastChecked : ℚ
  tablesLastCulled : ℚ
  /-- `held_release_interval` of each interface's ingress control. -/
  heldReleaseInterval : InterfaceId → ℚ
  /-- `recursive_prs` of each interface. -/
  recursivePrs : InterfaceId → Bool

namespace Relay

inductive Event where
  | node (event : Node.Event)
  | pathRequest (data : Bytes) (iface : InterfaceId) (now : ℚ) (egress : List InterfaceId)
  | tick (now : ℚ) (rng : InterfaceId → UInt64)

inductive Action where
  | transport (action : TransportAction)
  | retransmit (transmission : Retransmission)
  | linkClosed (linkId : Hash16)
  deriving DecidableEq

/-- `insert_discovery_pr_tag`: nothing for a tag seen before. -/
def insertDiscoveryPrTag (s : Relay) (uniqueTag : Hash32) : Option Relay :=
  if uniqueTag ∈ s.discoveryPrTags then none
  else
    let tags := if s.maxDiscoveryPrTags ≠ usizeMax ∧
        s.discoveryPrTags.length ≥ s.maxDiscoveryPrTags then s.discoveryPrTags.drop 1
      else s.discoveryPrTags
    some { s with discoveryPrTags := tags ++ [uniqueTag] }

/-- `parse_path_request`: the destination and the tag of a request not seen before. -/
def parsePathRequest (s : Relay) (data : Bytes) : Option (Relay × Hash16 × Bytes) :=
  if data.length ≤ 16 then none
  else
    let destHash := Bytes.fixed 16 data 0
    let tag := (if data.length > 32 then data.drop 32 else data.drop 16).take 16
    let uniqueTag := Bytes.fixed 32 (destHash.toList ++ tag) 0
    (s.insertDiscoveryPrTag uniqueTag).map fun s => (s, destHash, tag)

variable (P : Primitives)

def handlePathRequest (s : Relay) (data : Bytes) (iface : InterfaceId) (now : ℚ)
    (egress : List InterfaceId) : Relay × List TransportAction :=
  match s.parsePathRequest data with
  | none => (s, [])
  | some (s, destHash, tag) =>
    if s.engine.localDestinations.contains destHash ∨ ¬s.engine.config.transportEnabled then (s, [])
    else match s.engine.handleKnownPathRequest P destHash iface now with
    | (engine, true) => ({ s with engine }, [])
    | (engine, false) =>
      let (engine, actions) := engine.handleDiscoveryPathRequest P destHash tag iface
        (s.recursivePrs iface) now egress
      ({ s with engine }, actions)

/-- `process_tick_pending_announces`: not more than once a second. -/
def processTickPendingAnnounces (s : Relay) (now : ℚ) : Relay × List Retransmission :=
  if now ≤ s.announcesLastChecked + announcesCheckInterval then (s, [])
  else
    let e := s.engine
    let (r, sent) := TransportEngine.Retained.checkAll ⟨e.announceTable, e.heldAnnounces⟩
      e.config.identityHash e.config.announceTableTtlSecs e.config.announceTableMaxBytes now
    ({ s with
      engine := { e with announceTable := r.announceTable, heldAnnounces := r.heldAnnounces }
      announcesLastChecked := now }, sent)

def tick (s : Relay) (now : ℚ) (rng : InterfaceId → UInt64) : Relay × List Action :=
  let (s, sent) := s.processTickPendingAnnounces now
  let (engine, released) := TransportEngine.releaseAll P s.heldReleaseInterval now rng
    s.engine.ingressControl.interfacesWithHeld s.engine
  let s := { s with engine }
  -- the tables are culled every five seconds
  let (s, closed) := if now ≤ s.tablesLastCulled + tablesCullInterval then (s, [])
    else
      let (engine, closed) := s.engine.cullTables now
      ({ s with engine, tablesLastCulled := now }, closed)
  (s, sent.map .retransmit ++ released.map .transport ++ closed.map .linkClosed)

def machine : Machine Relay Event Action where
  step s
    | .node event =>
      let (node, actions) := (Node.machine P).step s.toNode event
      ({ s with toNode := node }, actions.map .transport)
    | .pathRequest data iface now egress =>
      let (s, actions) := s.handlePathRequest P data iface now egress
      (s, actions.map .transport)
    | .tick now rng => s.tick P now rng

def new (config : TransportConfig) (queueMaxEntries maxDiscoveryPrTags : ℕ)
    (heldReleaseInterval : InterfaceId → ℚ) (recursivePrs : InterfaceId → Bool) : Relay :=
  ⟨.new config queueMaxEntries, [], maxDiscoveryPrTags, 0, 0, heldReleaseInterval, recursivePrs⟩

end Relay

end Rns.Transport
