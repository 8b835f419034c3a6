import Rns.Resource.Basic

/-!
# The sender of a resource

It advertises the resource, answers requests for parts and for more of the hashmap, and waits for
the proof.
-/

namespace Rns

structure ResourceSender where
  status : ResourceStatus
  resourceHash : Hash32
  expectedProof : Hash32
  originalHash : Hash32
  randomHash : Bytes
  parts : List Bytes
  partHashes : List MapHash
  hashmap : Bytes
  sentParts : ℕ
  sentIndices : List Bool
  sdu : ℕ
  flags : AdvFlags
  transferSize : ℕ
  dataSize : ℕ
  segmentIndex : UInt64
  totalSegments : UInt64
  requestId : Option Bytes
  retriesLeft : ℕ
  maxRetries : ℕ
  maxAdvRetries : ℕ
  rtt : Option ℚ
  linkRtt : ℚ
  timeoutFactor : ℚ
  lastActivity : ℚ
  advSent : ℚ
  lastPartSent : ℚ
  senderGraceTime : ℚ
  receiverMinConsecutiveHeight : ℕ
  deriving DecidableEq

namespace ResourceSender

open Resource

/-- What a sender is made from. -/
structure Input where
  data : Bytes
  metadata : Option Bytes
  sdu : ℕ
  encrypt : Bytes → Bytes
  compressor : Compressor
  /-- The random hashes drawn one after the other, cut to the four bytes that are used. -/
  random : ℕ → Vector UInt8 4
  now : ℚ
  autoCompress : Bool
  isResponse : Bool
  requestId : Option Bytes
  segmentIndex : UInt64
  totalSegments : UInt64
  originalHash : Option Hash32
  linkRtt : ℚ
  trafficTimeoutFactor : ℚ

namespace Input

def uncompressed (i : Input) : Bytes :=
  match i.metadata with
  | some metadata => prependMetadata i.data metadata
  | none => i.data

/-- The data to encrypt, and whether it is compressed. -/
def working (i : Input) : Bytes × Bool :=
  if i.autoCompress ∧ i.uncompressed.length ≤ autoCompressMaxSize then
    match i.compressor.compress i.uncompressed with
    | some packed => if packed.length < i.uncompressed.length then (packed, true)
        else (i.uncompressed, false)
    | none => (i.uncompressed, false)
  else (i.uncompressed, false)

def encrypted (i : Input) : Bytes := i.encrypt ((i.random 0).toList ++ i.working.1)

def parts (i : Input) : List Bytes := splitIntoParts i.encrypted i.sdu

end Input

variable (P : Primitives)

variable (i : Input) (s : ResourceSender) (segment : ℕ) (requestData : Bytes) (now : ℚ)

def Input.hashes (random : Bytes) : List MapHash := i.parts.map fun part => mapHash P part random

/-- The random hash under which nearby parts have different hashes: the draws `n, n + 1, …`,
`attempts` of them. -/
def Input.findRandom (i : Input) : ℕ → ℕ → Option Bytes
  | _, 0 => none
  | n, attempts + 1 =>
    if hasCollision (i.hashes P (i.random n).toList) then i.findRandom (n + 1) attempts
    else some (i.random n).toList

/-- The sender under a random hash. -/
def ofRandom (random : Bytes) : ResourceSender :=
  let resourceHash := computeResourceHash P i.uncompressed random
  { status := .queued
    resourceHash
    expectedProof := computeExpectedProof P i.uncompressed resourceHash
    originalHash := i.originalHash.getD resourceHash
    randomHash := random
    parts := i.parts
    partHashes := i.hashes P random
    hashmap := buildHashmap (i.hashes P random)
    sentParts := 0
    sentIndices := List.replicate i.parts.length false
    sdu := i.sdu
    flags := {
      encrypted := true
      compressed := i.working.2
      split := i.totalSegments > 1
      isRequest := i.requestId.isSome ∧ ¬i.isResponse
      isResponse := i.requestId.isSome ∧ i.isResponse
      hasMetadata := i.metadata.isSome }
    transferSize := i.encrypted.length
    dataSize := i.uncompressed.length
    segmentIndex := i.segmentIndex
    totalSegments := i.totalSegments
    requestId := i.requestId
    retriesLeft := 16
    maxRetries := 16
    maxAdvRetries := 4
    rtt := none
    linkRtt := i.linkRtt
    timeoutFactor := i.trafficTimeoutFactor
    lastActivity := i.now
    advSent := i.now
    lastPartSent := i.now
    senderGraceTime := 10
    receiverMinConsecutiveHeight := 0 }

/-- `new`: a hundred attempts at a random hash, after the one in front of the data. -/
def new : Except ResourceError ResourceSender :=
  match i.findRandom P 1 100 with
  | some random => .ok (ofRandom P i random)
  | none => .error .collisionDetected

def totalParts : ℕ := s.parts.length

def advertisement : ResourceAdvertisement where
  transferSize := .ofNat s.transferSize
  dataSize := .ofNat s.dataSize
  numParts := .ofNat s.totalParts
  resourceHash := s.resourceHash.toList
  randomHash := s.randomHash
  originalHash := s.originalHash.toList
  hashmap := s.hashmap
  flags := s.flags
  segmentIndex := s.segmentIndex
  totalSegments := s.totalSegments
  requestId := s.requestId

def getAdvertisement : Bytes := s.advertisement.pack segment

def advertise : ResourceSender × List ResourceAction :=
  let s := { s with status := .advertised, lastActivity := now, advSent := now,
                    retriesLeft := s.maxAdvRetries }
  (s, [.sendAdvertisement (s.getAdvertisement 0)])

/-! ## Requests -/

def searchWindow : List ℕ :=
  let start := s.receiverMinConsecutiveHeight
  List.range' start (min (start + collisionGuardSize) s.totalParts - start)

def mapHashes (data : Bytes) : List MapHash :=
  (List.range (data.length / 4)).map fun i => Bytes.fixed 4 data (i * 4)

def requestedParts (requested : List MapHash) : List ℕ :=
  s.searchWindow.filter fun i => s.partHashes[i]?.any fun hash => requested.contains hash

def partIndexAfter (lastMapHash : MapHash) : ℕ :=
  match s.searchWindow.find? fun i => s.partHashes[i]? = some lastMapHash with
  | some i => i + 1
  | none => s.receiverMinConsecutiveHeight + s.searchWindow.length

def segmentHashes : Bytes :=
  buildHashmap ((s.partHashes.drop (segment * hashmapMaxLen)).take hashmapMaxLen)

def hmu : Bytes :=
  s.resourceHash.toList ++ Msgpack.pack (.array [.uint (.ofNat segment),
    .bin (s.segmentHashes segment)])

def minHeightAfter (partIndex : ℕ) : ℕ :=
  if partIndex > windowMax then partIndex - 1 - windowMax else 0

/-- `build_hmu`: the lower end of the window moves, and the next segment follows where the last hash
ends one. -/
def buildHmu : ResourceSender × Option Bytes :=
  if requestData.length < 5 then (s, none)
  else
    let partIndex := s.partIndexAfter (Bytes.fixed 4 requestData 1)
    let s := { s with receiverMinConsecutiveHeight := minHeightAfter partIndex }
    if partIndex % hashmapMaxLen ≠ 0 then (s, none)
    else ({ s with lastActivity := now }, some (s.hmu (partIndex / hashmapMaxLen)))

/-- The parts are sent, and counted when they are sent for the first time. -/
def sendParts (found : List ℕ) (now : ℚ) : ResourceSender × List ResourceAction :=
  ({ s with
      sentParts := s.sentParts + (found.filter fun i => !s.sentIndices.getD i false).length
      sentIndices := found.foldl (fun sent i => sent.set i true) s.sentIndices
      lastPartSent := if found = [] then s.lastPartSent else now },
    found.filterMap fun i => s.parts[i]?.map .sendPart)

/-- What a request has in front of the resource hash: the flag, and the last known hash if the hashmap
is exhausted. -/
def requestPad : ℕ :=
  if requestData.head? = some hashmapIsExhausted then 5 else 1

def extendHashmap : ResourceSender × Option Bytes :=
  if requestData.head? = some hashmapIsExhausted then s.buildHmu requestData now else (s, none)

def awaitProof : ResourceSender :=
  if s.sentParts ≥ s.totalParts then { s with status := .awaitingProof, retriesLeft := 3 } else s

def requestedHashes : List MapHash :=
  mapHashes (requestData.drop (requestPad requestData + 32))

/-- The rest of `handle_request`, once the request is long enough. -/
def answerRequest : ResourceSender × List ResourceAction :=
  let (s, parts) := s.sendParts (s.requestedParts (requestedHashes requestData)) now
  let (s, hmu) := s.extendHashmap requestData now
  (s.awaitProof, parts ++ hmu.toList.map .sendHmu)

/-- A request shows that the transfer is going on; the first one gives the round-trip time. -/
def noteRequest : ResourceSender :=
  { s with
    rtt := s.rtt.orElse fun _ => some (now - s.advSent)
    status := .transferring
    retriesLeft := s.maxRetries
    lastActivity := now }

def handleRequest : ResourceSender × List ResourceAction :=
  if s.status = .failed then (s, [])
  else if requestData.length < requestPad requestData + 32 then (s.noteRequest now, [])
  else (s.noteRequest now).answerRequest requestData now

/-! ## The end of a transfer -/

def handleProof (proofData : Bytes) : ResourceSender × List ResourceAction :=
  if s.status = .failed then (s, [])
  else match validateProof proofData s.expectedProof with
    | .ok true => ({ s with status := .complete }, [.completed])
    | .ok false => ({ s with status := .failed }, [.failed .invalidProof])
    | .error error => ({ s with status := .failed }, [.failed error])

def handleReject : ResourceSender × List ResourceAction :=
  ({ s with status := .rejected }, [.failed .rejected])

def cancel : ResourceSender × List ResourceAction :=
  if s.status.code < ResourceStatus.complete.code then
    ({ s with status := .failed }, [.sendCancelInitiator s.resourceHash.toList])
  else (s, [])

def maxWait : ℚ :=
  s.rtt.getD 1 * s.timeoutFactor * s.maxRetries + s.senderGraceTime +
    ((List.range s.maxRetries).map fun (r : ℕ) => ((r : ℚ) + 1) * (1 / 2)).sum

def tick : ResourceSender × List ResourceAction :=
  match s.status with
  | .advertised =>
    if now > s.advSent + s.rtt.getD (s.linkRtt * s.timeoutFactor) + 1 then
      if s.retriesLeft = 0 then ({ s with status := .failed }, [.failed .timeout])
      else
        ({ s with retriesLeft := s.retriesLeft - 1, lastActivity := now, advSent := now },
          [.sendAdvertisement (s.getAdvertisement 0)])
    else (s, [])
  | .transferring =>
    if now > s.lastActivity + s.maxWait then ({ s with status := .failed }, [.failed .timeout])
    else (s, [])
  | .awaitingProof =>
    if now > s.lastPartSent + s.rtt.getD 1 * 3 + s.senderGraceTime then
      if s.retriesLeft = 0 then ({ s with status := .failed }, [.failed .timeout])
      else ({ s with retriesLeft := s.retriesLeft - 1, lastPartSent := now }, [])
    else (s, [])
  | _ => (s, [])

end ResourceSender

end Rns
