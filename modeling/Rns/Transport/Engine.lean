import Rns.Announce
import Rns.Transport.Tunnel

/-!
# The transport engine

The state of the engine, the path table with its limits, and the table of announces to retransmit.
-/

namespace Rns.Transport

open Std

structure InterfaceInfo where
  id : InterfaceId
  mode : UInt8
  announcesFromInternal : Bool
  outCapable : Bool
  announceRateTarget : Option ℚ
  announceRateGrace : UInt32
  announceRatePenalty : ℚ
  isLocalClient : Bool
  tunnelId : Option Hash32
  ingressControl : IngressControlConfig
  iaFreq : ℚ
  started : ℚ
  deriving DecidableEq

structure TransportConfig where
  transportEnabled : Bool
  identityHash : Option Hash16
  localHopsDelta : UInt8
  preferShorterPath : Bool
  maxPathsPerDestination : ℕ
  packetHashlistMaxEntries : ℕ
  maxPathDestinations : ℕ
  maxTunnelDestinationsTotal : ℕ
  announceTableTtlSecs : ℚ
  announceTableMaxBytes : ℕ
  announceSigCacheEnabled : Bool
  announceSigCacheMaxEntries : ℕ
  announceSigCacheTtlSecs : ℚ
  deriving DecidableEq

/-- What the engine asks its driver to do, or tells it. -/
inductive TransportAction where
  | sendOnInterface (interface : InterfaceId) (raw : Bytes)
  | broadcastOnAllInterfaces (raw : Bytes) (exclude : Option InterfaceId)
  | deliverLocal (destinationHash : Hash16) (raw : Bytes) (packetHash : Hash32)
      (receivingInterface : InterfaceId)
  | announceReceived (destinationHash : Hash16) (announce : ValidatedAnnounce) (hops : UInt8)
      (receivingInterface : InterfaceId) (rx : RxMetadata)
  | pathUpdated (destinationHash : Hash16) (hops : UInt8) (nextHop : Hash16)
      (interface : InterfaceId)
  | forwardToLocalClients (raw : Bytes) (exclude : Option InterfaceId)
  | forwardPlainBroadcast (raw : Bytes) (toLocal : Bool) (exclude : Option InterfaceId)
  | cacheAnnounce (packetHash : Hash32) (raw : Bytes)
  | linkRequestReceived (linkId destinationHash : Hash16) (receivingInterface : InterfaceId)
  | linkEstablished (linkId : Hash16) (interface : InterfaceId)
  deriving DecidableEq

def TransportAction.reports (destHash : Hash16) : TransportAction → Bool
  | .announceReceived d _ _ _ _ => d = destHash
  | .pathUpdated d _ _ _ => d = destHash
  | _ => false

structure TransportEngine where
  config : TransportConfig
  pathTable : ExtTreeMap Hash16 PathSet
  announceTable : ExtTreeMap Hash16 AnnounceEntry
  reverseTable : ExtTreeMap Hash16 ReverseEntry
  linkTable : ExtTreeMap Hash16 LinkEntry
  heldAnnounces : ExtTreeMap Hash16 AnnounceEntry
  packetHashlist : PacketHashlist
  announceSigCache : AnnounceSignatureCache
  rateLimiter : AnnounceRateLimiter
  pathStates : ExtTreeMap Hash16 UInt8
  interfaces : ExtTreeMap InterfaceId InterfaceInfo
  localDestinations : ExtTreeMap Hash16 UInt8
  blackholedIdentities : ExtTreeMap Hash16 BlackholeEntry
  ingressControl : IngressControl
  tunnelTable : TunnelTable
  discoveryPathRequests : ExtTreeMap Hash16 DiscoveryPathRequest
  pathDestinationCapEvictCount : ℕ

namespace TransportEngine

def new (config : TransportConfig) : TransportEngine where
  config
  pathTable := ∅
  announceTable := ∅
  reverseTable := ∅
  linkTable := ∅
  heldAnnounces := ∅
  packetHashlist := .new config.packetHashlistMaxEntries
  announceSigCache := .new
    (if config.announceSigCacheEnabled then config.announceSigCacheMaxEntries else 0)
    config.announceSigCacheTtlSecs
  rateLimiter := ∅
  pathStates := ∅
  interfaces := ∅
  localDestinations := ∅
  blackholedIdentities := ∅
  ingressControl := ∅
  tunnelTable := ∅
  discoveryPathRequests := ∅
  pathDestinationCapEvictCount := 0

variable (e : TransportEngine) (destHash : Hash16)

def pathsTo : List PathEntry :=
  match e.pathTable[destHash]? with
  | some ps => ps.paths
  | none => []

def hasPath : Bool :=
  match e.pathTable[destHash]? with
  | some ps => !ps.isEmpty
  | none => false

def stateUnresponsive : UInt8 := 0x01

def pathIsUnresponsive : Bool :=
  e.pathStates[destHash]? = some stateUnresponsive

def isBlackholed (identityHash : Hash16) (now : ℚ) : Bool :=
  match e.blackholedIdentities[identityHash]? with
  | some entry => entry.expires = 0 ∨ entry.expires > now
  | none => false

def hasLocalClients : Bool :=
  e.interfaces.toList.any fun (_, info) => info.isLocalClient

def interfaceIsLocalClient (iface : InterfaceId) : Bool :=
  match e.interfaces[iface]? with
  | some info => info.isLocalClient
  | none => false

/-! ## The path table and its limit -/

/-- `oldest_path_destination`: by the time of the primary path, then the one with more hops. -/
def oldestPathDestination (pathTable : ExtTreeMap Hash16 PathSet) : Option Hash16 :=
  let primaries := pathTable.toList.filterMap fun (destHash, ps) =>
    ps.primary.map fun primary => (destHash, primary)
  (minBy (fun (_, a) (_, b) => a.timestamp < b.timestamp ∨
    a.timestamp = b.timestamp ∧ b.hops < a.hops) primaries).map Prod.fst

def cullPathTable (pathTable : ExtTreeMap Hash16 PathSet)
    (interfaces : ExtTreeMap InterfaceId InterfaceInfo) (now : ℚ) :
    ExtTreeMap Hash16 PathSet :=
  (pathTable.map fun _ ps => ps.cull now interfaces.contains).filter fun _ ps => !ps.isEmpty

/-- The loop of `enforce_path_destination_cap`.  Every round removes a destination and an empty
table has no oldest, so one more round than there are destinations is fuel enough. -/
def evictDestinations (e : TransportEngine) : ℕ → TransportEngine
  | 0 => e
  | fuel + 1 =>
    if e.pathTable.size ≥ e.config.maxPathDestinations then
      match oldestPathDestination e.pathTable with
      | none => e
      | some destHash => evictDestinations { e with
          pathTable := e.pathTable.erase destHash
          pathStates := e.pathStates.erase destHash
          pathDestinationCapEvictCount := e.pathDestinationCapEvictCount + 1 } fuel
    else e

def enforcePathDestinationCap (now : ℚ) : TransportEngine :=
  if e.config.maxPathDestinations = usizeMax then e
  else
    let e := { e with pathTable := cullPathTable e.pathTable e.interfaces now }
    e.evictDestinations (e.pathTable.size + 1)

def upsertPathDestination (entry : PathEntry) (now : ℚ) : TransportEngine :=
  let maxPaths := e.config.maxPathsPerDestination
  match e.pathTable[destHash]? with
  | some ps => { e with pathTable := e.pathTable.insert destHash (ps.upsert entry) }
  | none =>
    let e := e.enforcePathDestinationCap now
    { e with pathTable := e.pathTable.insert destHash (.fromSingle entry maxPaths) }

/-! ## Announces kept for retransmission -/

/-- `announce_entry_size_bytes`: the fields take 120 bytes, the vectors are as long as their
data. -/
def announceEntrySizeBytes (entry : AnnounceEntry) : ℕ :=
  120 + entry.packetRaw.length + entry.packetData.length

/-- The announces to retransmit, and those held back meanwhile. -/
structure Retained where
  announceTable : ExtTreeMap Hash16 AnnounceEntry
  heldAnnounces : ExtTreeMap Hash16 AnnounceEntry

namespace Retained

variable (r : Retained)

/-- `announce_retained_bytes_total`. -/
def bytesTotal : ℕ :=
  (r.announceTable.toList.map fun (_, entry) => announceEntrySizeBytes entry).sum +
    (r.heldAnnounces.toList.map fun (_, entry) => announceEntrySizeBytes entry).sum

/-- `cull_expired_announce_entries`. -/
def cullExpired (ttl now : ℚ) : Retained where
  announceTable := r.announceTable.filter fun _ entry => now ≤ entry.timestamp + ttl
  heldAnnounces := r.heldAnnounces.filter fun _ entry => now ≤ entry.timestamp + ttl

def oldestIn (table : ExtTreeMap Hash16 AnnounceEntry) : Option (Hash16 × AnnounceEntry) :=
  minBy (fun (_, a) (_, b) => a.timestamp < b.timestamp) table.toList

/-- `oldest_retained_announce`, and the removal of it; held announces go first at equal age. -/
def removeOldest : Option Retained :=
  match oldestIn r.announceTable, oldestIn r.heldAnnounces with
  | some active, some held =>
    if active.2.timestamp < held.2.timestamp then
      some { r with announceTable := r.announceTable.erase active.1 }
    else some { r with heldAnnounces := r.heldAnnounces.erase held.1 }
  | some active, none => some { r with announceTable := r.announceTable.erase active.1 }
  | none, some held => some { r with heldAnnounces := r.heldAnnounces.erase held.1 }
  | none, none => none

/-- The loop of `enforce_announce_retention_cap`.  Every round removes an announce, so one more
round than there are announces is fuel enough. -/
def evict (maxBytes : ℕ) : ℕ → Retained → Retained
  | 0, r => r
  | fuel + 1, r =>
    if r.bytesTotal > maxBytes then match r.removeOldest with
      | none => r
      | some r => evict maxBytes fuel r
    else r

def insertAnnounceEntry (destHash : Hash16) (entry : AnnounceEntry) (ttl : ℚ) (maxBytes : ℕ)
    (now : ℚ) : Retained :=
  let r := r.cullExpired ttl now
  if announceEntrySizeBytes entry > maxBytes then r
  else
    let r := { r with announceTable := r.announceTable.insert destHash entry }
    let r := r.cullExpired ttl now
    evict maxBytes (r.announceTable.size + r.heldAnnounces.size + 1) r

end Retained

/-- `insert_announce_entry` on the engine. -/
def insertAnnounceEntry (e : TransportEngine) (destHash : Hash16) (entry : AnnounceEntry)
    (now : ℚ) : TransportEngine :=
  let r := Retained.insertAnnounceEntry ⟨e.announceTable, e.heldAnnounces⟩ destHash entry
    e.config.announceTableTtlSecs e.config.announceTableMaxBytes now
  { e with announceTable := r.announceTable, heldAnnounces := r.heldAnnounces }

end TransportEngine

end Rns.Transport
