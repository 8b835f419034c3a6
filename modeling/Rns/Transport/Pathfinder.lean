import Rns.Transport.PathSet

/-!
# Path decisions

Whether an announce may replace a stored path or be kept as an alternative.  A blob carries the time of
emission, so that a blob seen before and an older emission are both refused.
-/

namespace Rns.Transport

/-- `PATHFINDER_M`: the most hops a path may have. -/
def pathfinderM : UInt8 := 128

/-! Retransmissions and timeouts, as the source names them. -/

def pathfinderR : UInt8 := 1
def pathfinderG : ℚ := 5
def pathfinderRw : ℚ := 1 / 2
def localRebroadcastsMax : UInt8 := 2
def pathfinderE : ℚ := 604800
def apPathTime : ℚ := 86400
def roamingPathTime : ℚ := 21600
def pathRequestGrace : ℚ := 2 / 5
def pathRequestRg : ℚ := 3 / 2
def discoveryPathRequestTimeout : ℚ := 15
def linkTimeout : ℚ := 900
def reverseTimeout : ℚ := 480
def announcesCheckInterval : ℚ := 1
def tablesCullInterval : ℚ := 5

/-- `timebase_from_random_blob`: the last five bytes, big-endian. -/
def timebaseFromRandomBlob (blob : RandomBlob) : ℕ :=
  (blob.toList.drop 5).foldl (fun acc b => acc * 256 + b.toNat) 0

/-- `timebase_from_random_blobs`: the latest emission. -/
def timebaseFromRandomBlobs (blobs : List RandomBlob) : ℕ :=
  blobs.foldl (fun timebase blob =>
    let emitted := timebaseFromRandomBlob blob
    if emitted > timebase then emitted else timebase) 0

def extractRandomBlob (packetData : Bytes) : Option RandomBlob :=
  if packetData.length < 64 + 10 + 10 then none else some (Bytes.fixed 10 packetData (64 + 10))

inductive PathDecision where
  | add
  | reject
  deriving Repr, DecidableEq

inductive MultiPathDecision where
  | replacePrimary
  | addAlternative
  | reject
  deriving Repr, DecidableEq

/-- What the decision reads of an announce, besides its next hop. -/
structure AnnounceFacts where
  hops : UInt8
  emittedTs : ℕ
  randomBlob : RandomBlob
  deriving DecidableEq

def shouldUpdatePath (existing : Option PathEntry) (announce : AnnounceFacts)
    (pathIsUnresponsive : Bool) (now : ℚ) (preferShorterPath : Bool) : PathDecision :=
  if announce.hops > pathfinderM then .reject
  else match existing with
  | none => .add
  | some existing =>
    let pathTimebase := timebaseFromRandomBlobs existing.randomBlobs
    let blobIsNew := announce.randomBlob ∉ existing.randomBlobs
    if announce.hops ≤ existing.hops then
      if preferShorterPath ∧ announce.hops < existing.hops then .add
      else if blobIsNew ∧ announce.emittedTs > pathTimebase then .add
      else if announce.emittedTs = pathTimebase ∧ pathIsUnresponsive then .add
      else .reject
    else
      let pathExpired := now ≥ existing.expires
      if pathExpired ∧ blobIsNew then .add
      else if announce.emittedTs > pathTimebase ∧ blobIsNew then .add
      else if announce.emittedTs = pathTimebase ∧ pathIsUnresponsive then .add
      else .reject

def decideAnnounceMultipath (existingSet : Option PathSet) (announce : AnnounceFacts)
    (nextHop : Hash16) (pathIsUnresponsive : Bool) (now : ℚ) (preferShorterPath : Bool) :
    MultiPathDecision :=
  if announce.hops > pathfinderM then .reject
  else match existingSet with
  | none => .replacePrimary
  | some pathSet =>
    if pathSet.isEmpty then .replacePrimary
    else match pathSet.findByNextHop nextHop with
    | some existingPath =>
      match shouldUpdatePath (some existingPath) announce pathIsUnresponsive now
        preferShorterPath with
      | .add => .replacePrimary
      | .reject => .reject
    | none =>
      let allBlobs := pathSet.allRandomBlobs
      if announce.randomBlob ∈ allBlobs then .reject
      else if announce.emittedTs ≥ timebaseFromRandomBlobs allBlobs then .addAlternative
      else .reject

variable {pathSet : PathSet} {path : PathEntry} {announce : AnnounceFacts}

/-- A blob the path remembers is refused on that path, unless the announce is shorter or the path
is being recovered. -/
theorem shouldUpdatePath_of_mem (hblob : announce.randomBlob ∈ path.randomBlobs)
    (hhops : path.hops ≤ announce.hops) (now : ℚ) (preferShorterPath : Bool) :
    shouldUpdatePath (some path) announce false now preferShorterPath = .reject := by
  have hlonger : ¬announce.hops < path.hops := UInt8.not_lt.mpr hhops
  simp [shouldUpdatePath, hblob, hlonger]

theorem decideAnnounceMultipath_of_mem (hpath : path ∈ pathSet.paths)
    (hblob : announce.randomBlob ∈ path.randomBlobs) (hhops : path.hops ≤ announce.hops) (now : ℚ)
    (preferShorterPath : Bool) :
    decideAnnounceMultipath (some pathSet) announce path.nextHop false now preferShorterPath =
      .reject := by
  have hne : pathSet.isEmpty = false := by
    simpa [PathSet.isEmpty] using List.ne_nil_of_mem hpath
  simp [decideAnnounceMultipath, hne, PathSet.findByNextHop_of_mem hpath,
    shouldUpdatePath_of_mem hblob hhops]

/-- Over a set without a path via the next hop, an announce within the hop limit is kept as an
alternative exactly when its blob is new and not older than any stored emission. -/
theorem decideAnnounceMultipath_of_not_mem {nextHop : Hash16} (hne : pathSet.paths ≠ [])
    (hnew : nextHop ∉ pathSet.paths.map PathEntry.nextHop) (hhops : announce.hops ≤ pathfinderM)
    (pathIsUnresponsive : Bool) (now : ℚ) (preferShorterPath : Bool) :
    decideAnnounceMultipath (some pathSet) announce nextHop pathIsUnresponsive now
        preferShorterPath ≠ .reject ↔ announce.randomBlob ∉ pathSet.allRandomBlobs ∧
        timebaseFromRandomBlobs pathSet.allRandomBlobs ≤ announce.emittedTs := by
  have hempty : pathSet.isEmpty = false := by simpa [PathSet.isEmpty] using hne
  have hnone : pathSet.findByNextHop nextHop = none := by
    rw [PathSet.findByNextHop, List.find?_eq_none]
    intro p hp
    have hhop : p.nextHop ≠ nextHop := fun heq => hnew (heq ▸ List.mem_map_of_mem hp)
    simpa using hhop
  have hlimit : ¬announce.hops > pathfinderM := UInt8.not_lt.mpr hhops
  simp only [decideAnnounceMultipath, hlimit, if_false, hempty, hnone, Bool.false_eq_true]
  split_ifs with hblob hts
  · simp [hblob]
  · simp [hblob, hts]
  · simp [hblob, hts]

/-! ## The entries made from an announce -/

def maxRandomBlobs : ℕ := 64

namespace InterfaceMode
def full : UInt8 := 0x01
def accessPoint : UInt8 := 0x03
def roaming : UInt8 := 0x04
def boundary : UInt8 := 0x05
def internal : UInt8 := 0x07
end InterfaceMode

def computePathExpires (now : ℚ) (interfaceMode : UInt8) : ℚ :=
  if interfaceMode = InterfaceMode.accessPoint then now + apPathTime
  else if interfaceMode = InterfaceMode.roaming then now + roamingPathTime
  else now + pathfinderE

variable (randomBlobs : List RandomBlob) (randomBlob : RandomBlob)

/-- The blobs of the path after an announce: the new one is appended unless it is there, and the
oldest are dropped over the limit. -/
def rememberBlob : List RandomBlob :=
  if randomBlob ∈ randomBlobs then randomBlobs
  else
    let randomBlobs := randomBlobs ++ [randomBlob]
    if randomBlobs.length > maxRandomBlobs then
      randomBlobs.drop (randomBlobs.length - maxRandomBlobs)
    else randomBlobs

theorem mem_rememberBlob : randomBlob ∈ rememberBlob randomBlobs randomBlob := by
  unfold rememberBlob
  dsimp only
  split_ifs with hmem hlong
  · exact hmem
  · have hle : (randomBlobs ++ [randomBlob]).length - maxRandomBlobs ≤ randomBlobs.length := by
      simp [maxRandomBlobs]
    rw [List.drop_append_of_le_length hle]
    simp
  · simp

structure AnnounceEntry where
  timestamp : ℚ
  retransmitTimeout : ℚ
  retries : UInt8
  receivedFrom : Hash16
  hops : UInt8
  packetRaw : Bytes
  packetData : Bytes
  destinationHash : Hash16
  contextFlag : UInt8
  localRebroadcasts : UInt8
  blockRebroadcasts : Bool
  attachedInterface : Option InterfaceId
  deriving DecidableEq

/-- `process_validated_announce`: the path, and the entry for retransmission where the node relays
announces and this one is neither a path response nor over its rate.  `rngValue` is the random
fraction of the retransmission window. -/
def processValidatedAnnounce (packet : RawPacket) (receivedFrom : Hash16)
    (receivingInterface : InterfaceId) (now : ℚ) (randomBlobs : List RandomBlob)
    (randomBlob : RandomBlob) (expires rngValue : ℚ)
    (transportEnabled isPathResponse rateBlocked : Bool) (originalRaw : Option Bytes) :
    PathEntry × Option AnnounceEntry :=
  let pathEntry := {
    timestamp := now
    nextHop := receivedFrom
    hops := packet.hops
    expires
    randomBlobs := rememberBlob randomBlobs randomBlob
    receivingInterface
    packetHash := packet.packetHash
    announceRaw := originalRaw }
  let announceEntry := if transportEnabled ∧ ¬isPathResponse ∧ ¬rateBlocked then some {
      timestamp := now
      retransmitTimeout := now + rngValue * pathfinderRw
      retries := 0
      receivedFrom
      hops := packet.hops
      packetRaw := packet.raw
      packetData := packet.data
      destinationHash := packet.destinationHash
      contextFlag := packet.flags.contextFlag
      localRebroadcasts := 0
      blockRebroadcasts := false
      attachedInterface := none }
    else none
  (pathEntry, announceEntry)

end Rns.Transport
