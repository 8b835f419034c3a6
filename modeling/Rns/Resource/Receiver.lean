import Rns.Resource.Sender

/-!
# The receiver of a resource

It asks for the parts of a window at a time, and for more of the hashmap where it ends, keeps the
parts whose hashes it knows, and puts them together when it has them all.
-/

namespace Rns

structure ResourceReceiver where
  status : ResourceStatus
  resourceHash : Bytes
  randomHash : Bytes
  originalHash : Bytes
  flags : AdvFlags
  transferSize : UInt64
  totalParts : ℕ
  parts : List (Option Bytes)
  hashmap : List (Option MapHash)
  hashmapHeight : ℕ
  waitingForHmu : Bool
  receivedCount : ℕ
  outstandingParts : ℕ
  consecutiveCompletedHeight : ℤ
  sdu : ℕ
  linkRtt : ℚ
  retriesLeft : ℕ
  maxRetries : ℕ
  rtt : Option ℚ
  partTimeoutFactor : ℚ
  lastActivity : ℚ
  reqSent : ℚ
  reqSentBytes : ℕ
  reqResp : Option ℚ
  rttRxdBytes : ℕ
  rttRxdBytesAtPartReq : ℕ
  reqRespRttRate : ℚ
  reqDataRttRate : ℚ
  eifr : Option ℚ
  previousEifr : Option ℚ
  segmentIndex : UInt64
  totalSegments : UInt64
  hasMetadata : Bool
  requestId : Option Bytes
  window : WindowState
  advertisementPacket : Bytes
  maxDecompressedSize : ℕ
  deriving DecidableEq

namespace ResourceReceiver

open Resource

def initialHashmap (totalParts : ℕ) (hashmap : Bytes) : List (Option MapHash) :=
  (List.range totalParts).map fun i =>
    if i < hashmap.length / 4 then some (Bytes.fixed 4 hashmap (i * 4)) else none

/-- The checks of `from_advertisement`. -/
def checkAdvertisement (a : ResourceAdvertisement) (sdu : ℕ) : Option ResourceError :=
  let maxParts := (autoCompressMaxSize + max sdu 1 - 1) / max sdu 1 + collisionGuardSize
  if a.resourceHash.length ≠ 32 then some .invalidAdvertisement
  else if a.randomHash.length ≠ 4 ∨ a.originalHash.length ≠ 32 then some .invalidAdvertisement
  else if a.transferSize.toNat > autoCompressMaxSize ∨ a.dataSize.toNat > autoCompressMaxSize then
    some .tooLarge
  else if a.numParts = 0 then some .invalidAdvertisement
  else if a.numParts.toNat > maxParts then some .tooLarge
  else none

def ofAdvertisement (a : ResourceAdvertisement) (advData : Bytes) (sdu : ℕ) (linkRtt now : ℚ)
    (previousWindow : Option ℕ) (previousEifr : Option ℚ) : ResourceReceiver where
  status := .none
  resourceHash := a.resourceHash
  randomHash := a.randomHash
  originalHash := a.originalHash
  flags := a.flags
  transferSize := a.transferSize
  totalParts := a.numParts.toNat
  parts := List.replicate a.numParts.toNat none
  hashmap := initialHashmap a.numParts.toNat a.hashmap
  hashmapHeight := min (a.hashmap.length / 4) a.numParts.toNat
  waitingForHmu := false
  receivedCount := 0
  outstandingParts := 0
  consecutiveCompletedHeight := -1
  sdu
  linkRtt
  retriesLeft := 16
  maxRetries := 16
  rtt := none
  partTimeoutFactor := 4
  lastActivity := now
  reqSent := 0
  reqSentBytes := 0
  reqResp := none
  rttRxdBytes := 0
  rttRxdBytesAtPartReq := 0
  reqRespRttRate := 0
  reqDataRttRate := 0
  eifr := none
  previousEifr
  segmentIndex := a.segmentIndex
  totalSegments := a.totalSegments
  hasMetadata := a.flags.hasMetadata
  requestId := a.requestId
  window := match previousWindow with
    | some window => WindowState.new.restore window
    | none => .new
  advertisementPacket := advData
  maxDecompressedSize := autoCompressMaxSize

def fromAdvertisement (advData : Bytes) (sdu : ℕ) (linkRtt now : ℚ) (previousWindow : Option ℕ)
    (previousEifr : Option ℚ) : Except ResourceError ResourceReceiver :=
  match ResourceAdvertisement.unpack advData with
  | .error error => .error error
  | .ok a => match checkAdvertisement a sdu with
    | some error => .error error
    | none => .ok (ofAdvertisement a advData sdu linkRtt now previousWindow previousEifr)

variable (r : ResourceReceiver) (now : ℚ)

def missing (i : ℕ) : Bool := (r.parts.getD i none).isNone

/-! ## Requests -/

/-- The loop of `request_next`: the hashes of missing parts, up to the first that is not known.  `i`
counts them. -/
def wanted (r : ResourceReceiver) : ℕ → List ℕ → List MapHash × Bool
  | _, [] => ([], false)
  | i, pn :: rest =>
    if r.missing pn then
      match r.hashmap.getD pn none with
      | some hash =>
        if i + 1 ≥ r.window.window then ([hash], false)
        else
          let (hashes, exhausted) := r.wanted (i + 1) rest
          (hash :: hashes, exhausted)
      | none => ([], true)
    else if i ≥ r.window.window then ([], false)
    else r.wanted i rest

def requestRange : List ℕ :=
  let start := (r.consecutiveCompletedHeight + 1).toNat
  List.range' start (min (start + r.window.window) r.totalParts - start)

def lastMapHash : MapHash :=
  if r.hashmapHeight > 0 then (r.hashmap.getD (r.hashmapHeight - 1) none).getD (.replicate 4 0)
  else .replicate 4 0

def requestData (hashes : List MapHash) (exhausted : Bool) : Bytes :=
  (if exhausted then hashmapIsExhausted :: r.lastMapHash.toList else [hashmapIsNotExhausted]) ++
    r.resourceHash ++ buildHashmap hashes

def requestNext : ResourceReceiver × List ResourceAction :=
  if r.status = .failed ∨ r.waitingForHmu then (r, [])
  else
    let (hashes, exhausted) := r.wanted 0 r.requestRange
    let request := r.requestData hashes exhausted
    ({ r with
        outstandingParts := hashes.length
        waitingForHmu := exhausted
        lastActivity := now
        reqSent := now
        reqSentBytes := request.length
        reqResp := none },
      [.sendRequest request])

def accept : ResourceReceiver × List ResourceAction :=
  { r with status := .transferring, lastActivity := now }.requestNext now

def reject : ResourceReceiver × List ResourceAction :=
  ({ r with status := .rejected }, [.sendCancelReceiver r.resourceHash])

/-! ## Parts -/

/-- The round trip of the first part of a window. -/
def measureRtt (partLen : ℕ) (now : ℚ) : ResourceReceiver :=
  if r.reqResp.isSome then r
  else
    let rtt := now - r.reqSent
    let r := { r with
      reqResp := some now
      partTimeoutFactor := 2
      rtt := match r.rtt with
        | none => some rtt
        | some current =>
          if rtt < current then some (max (current - current * (1 / 20)) rtt)
          else some (min (current + current * (1 / 20)) rtt) }
    if rtt > 0 then
      let rate := ((partLen + r.reqSentBytes : ℕ) : ℚ) / rtt
      { r with reqRespRttRate := rate, window := r.window.updateReqRespRate rate }
    else r

def matchingSlot (hash : MapHash) : Option ℕ :=
  let start := r.consecutiveCompletedHeight.toNat
  (List.range' start (min (start + r.window.window) r.totalParts - start)).find? fun i =>
    r.hashmap.getD i none = some hash

def walk : ResourceReceiver :=
  let next := (r.consecutiveCompletedHeight + 1).toNat
  { r with consecutiveCompletedHeight := r.consecutiveCompletedHeight +
      (((r.parts.drop next).take (r.totalParts - next)).takeWhile Option.isSome).length }

def storePart (i : ℕ) (data : Bytes) : ResourceReceiver :=
  let r := { r with
    parts := r.parts.set i (some data)
    rttRxdBytes := r.rttRxdBytes + data.length
    receivedCount := r.receivedCount + 1
    outstandingParts := r.outstandingParts - 1
    consecutiveCompletedHeight :=
      if (i : ℤ) = r.consecutiveCompletedHeight + 1 then i else r.consecutiveCompletedHeight }
  r.walk

/-- The window is complete: it grows, and the data rate is measured. -/
def completeWindow : ResourceReceiver :=
  let r := { r with window := r.window.onWindowComplete }
  let rtt := now - r.reqSent
  if r.reqSent > 0 ∧ rtt > 0 then
    let rate := ((r.rttRxdBytes - r.rttRxdBytesAtPartReq : ℕ) : ℚ) / rtt
    { r with
      reqDataRttRate := rate
      rttRxdBytesAtPartReq := r.rttRxdBytes
      window := r.window.updateDataRate rate }
  else r

variable (P : Primitives)

variable (r : ResourceReceiver)

def placePart (partData : Bytes) : ResourceReceiver × Bool :=
  match r.matchingSlot (mapHash P partData r.randomHash) with
  | some i => if r.missing i then (r.storePart i partData, true) else (r, false)
  | none => (r, false)

def touch (now : ℚ) : ResourceReceiver :=
  { r with lastActivity := now, retriesLeft := r.maxRetries }

def notePart (partLen : ℕ) (now : ℚ) : ResourceReceiver :=
  { (r.touch now).measureRtt partLen now with status := .transferring }

/-- The end of `receive_part`: with nothing outstanding the next parts are requested, unless all are
there. -/
def afterPart (matched : Bool) (now : ℚ) : ResourceReceiver × List ResourceAction :=
  let progress := .progressUpdate r.receivedCount r.totalParts
  if r.receivedCount = r.totalParts then (r, [progress])
  else
    let actions := if matched then [progress] else []
    if r.outstandingParts = 0 ∧ r.receivedCount < r.totalParts then
      let (r, requests) := (r.completeWindow now).requestNext now
      (r, actions ++ requests)
    else (r, actions)

def receivePart (partData : Bytes) (now : ℚ) : ResourceReceiver × List ResourceAction :=
  if r.status = .failed then (r, [])
  else
    let (r, matched) := (r.notePart partData.length now).placePart P partData
    r.afterPart matched now

/-! ## The hashmap -/

def fillSlot (idx : ℕ) (hash : MapHash) : ResourceReceiver :=
  if idx < r.totalParts then { r with
    hashmapHeight := if (r.hashmap.getD idx none).isNone then r.hashmapHeight + 1 else r.hashmapHeight
    hashmap := r.hashmap.set idx (some hash) }
  else r

/-- The hashes of a segment are filled in.  The index wraps at the word size. -/
def fillHashmap (segment : ℕ) (hashes : Bytes) : ResourceReceiver :=
  (List.range (hashes.length / 4)).foldl (fun r i =>
    r.fillSlot ((i + segment * hashmapMaxLen) % 2 ^ 64) (Bytes.fixed 4 hashes (i * 4))) r

/-- The segment number and the hashes of a hashmap update. -/
def parseHmu (hmuData : Bytes) : Option (ℕ × Bytes) :=
  if hmuData.length ≤ 32 then none
  else match Msgpack.unpack (hmuData.drop 32) with
    | .ok (.array (segment :: hashes :: _), _) =>
      match segment.asUint, hashes.asBin with
      | some segment, some hashes => some (segment.toNat, hashes)
      | _, _ => none
    | _ => none

def handleHashmapUpdate (hmuData : Bytes) (now : ℚ) : ResourceReceiver × List ResourceAction :=
  if r.status = .failed then (r, [])
  else
    match parseHmu hmuData with
    | none => (r.touch now, [])
    | some (segment, hashes) =>
      { (r.touch now).fillHashmap segment hashes with waitingForHmu := false }.requestNext now

/-! ## Assembly -/

def corruptActions (error : ResourceError) : ResourceReceiver × List ResourceAction :=
  ({ r with status := .corrupt },
    [.sendCancelReceiver r.resourceHash, .failed error, .teardownLink])

/-- The decrypted stream without the random bytes in front, decompressed. -/
def recover (decrypted : Bytes) (compressor : Compressor) : Except ResourceError Bytes :=
  if decrypted.length < 4 then .error .invalidPart
  else if r.flags.compressed then
    match compressor.decompressBounded (decrypted.drop 4) r.maxDecompressedSize with
    | .ok data => .ok data
    | .error .tooLarge => .error .tooLarge
    | .error .invalidData => .error .decompressionFailed
  else .ok (decrypted.drop 4)

/-- The end of `assemble`, for the recovered data: its hash is checked, the proof made and the
metadata taken off. -/
def finish (data : Bytes) : ResourceReceiver × List ResourceAction :=
  let hash := computeResourceHash P data r.randomHash
  if hash.toList ≠ r.resourceHash then r.corruptActions .hashMismatch
  else
    let proof := buildProofData hash (computeExpectedProof P data hash)
    let content := if r.hasMetadata ∧ r.segmentIndex = 1 then
        (extractMetadata data).map fun (metadata, rest) => (rest, some metadata)
      else some (data, none)
    match content with
    | none => r.corruptActions .invalidPart
    | some (data, metadata) =>
      ({ r with status := .complete },
        [.sendProof proof, .dataReceived data metadata, .completed])

def assemble (decrypt : Bytes → Option Bytes) (compressor : Compressor) :
    ResourceReceiver × List ResourceAction :=
  if r.receivedCount ≠ r.totalParts then (r, [.failed .invalidState])
  else if r.parts.any Option.isNone then ({ r with status := .failed }, [.failed .invalidState])
  else
    let r := { r with status := .assembling }
    let stream := (r.parts.filterMap id).flatten
    match if r.flags.encrypted then decrypt stream else some stream with
    | none => ({ r with status := .failed }, [.failed .decryptionFailed])
    | some decrypted => match r.recover decrypted compressor with
      | .error error => r.corruptActions error
      | .ok data => r.finish P data

def handleCancel : ResourceReceiver × List ResourceAction :=
  if r.status.code < ResourceStatus.complete.code then
    ({ r with status := .failed }, [.failed .rejected])
  else (r, [])

/-! ## Timeouts -/

/-- `compute_eifr`: the expected rate in flight. -/
def computeEifr : ℚ :=
  if r.reqDataRttRate > 0 then r.reqDataRttRate * 8
  else match r.previousEifr with
    | some previous => previous
    | none =>
      let rtt := r.rtt.getD r.linkRtt
      if rtt > 0 then (r.sdu : ℚ) * 8 / rtt else 10000

/-- When the watchdog of a transfer fires. -/
def sleepTime : ℚ :=
  let eifr := r.computeEifr
  let extraWait := ((r.maxRetries - r.retriesLeft : ℕ) : ℚ) * (1 / 2)
  let expectedHmuWait := if eifr > 0 ∧ (r.waitingForHmu ∨ r.outstandingParts = 0) then
      (r.sdu : ℚ) * 8 * (7 / 2) / eifr
    else 0
  let expectedTof := if r.outstandingParts > 0 ∧ eifr > 0 then
      (r.outstandingParts : ℚ) * r.sdu * 8 / eifr
    else if eifr > 0 then 3 * (r.sdu : ℚ) / eifr
    else 10
  r.lastActivity + r.partTimeoutFactor * expectedTof + expectedHmuWait + 1 / 4 + extraWait

def tick (now : ℚ) (decrypt : Bytes → Option Bytes) (compressor : Compressor) :
    ResourceReceiver × List ResourceAction :=
  if r.status ≠ .transferring then (r, [])
  else if r.receivedCount = r.totalParts then r.assemble P decrypt compressor
  else
    let r := { r with eifr := some r.computeEifr }
    if now > r.sleepTime then
      if r.retriesLeft > 0 then
        { r with
          window := r.window.onTimeout
          retriesLeft := r.retriesLeft - 1
          waitingForHmu := false }.requestNext now
      else ({ r with status := .failed }, [.failed .maxRetriesExceeded])
    else (r, [])

end ResourceReceiver

end Rns
