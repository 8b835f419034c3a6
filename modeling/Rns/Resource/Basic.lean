import Rns.Msgpack
import Rns.Packet

/-!
# Resources

What the two ends of a resource transfer share: how data is cut into parts and put together again,
the hashes of the parts, the proof, and the advertisement.
-/

namespace Rns

inductive ResourceStatus where
  | none
  | queued
  | advertised
  | transferring
  | awaitingProof
  | assembling
  | complete
  | failed
  | corrupt
  | rejected
  deriving Repr, DecidableEq

/-- The order of the states is that of their codes. -/
def ResourceStatus.code : ResourceStatus → ℕ
  | .none => 0
  | .queued => 1
  | .advertised => 2
  | .transferring => 3
  | .awaitingProof => 4
  | .assembling => 5
  | .complete => 6
  | .failed => 7
  | .corrupt => 8
  | .rejected => 9

inductive ResourceError where
  | invalidAdvertisement
  | invalidPart
  | invalidProof
  | hashMismatch
  | decryptionFailed
  | decompressionFailed
  | timeout
  | rejected
  | tooLarge
  | maxRetriesExceeded
  | msgpackError
  | invalidState
  | collisionDetected
  deriving Repr, DecidableEq

def ResourceError.display : ResourceError → String
  | .invalidAdvertisement => "Invalid resource advertisement"
  | .invalidPart => "Invalid resource part"
  | .invalidProof => "Invalid resource proof"
  | .hashMismatch => "Resource hash mismatch"
  | .decryptionFailed => "Resource decryption failed"
  | .decompressionFailed => "Resource decompression failed"
  | .timeout => "Resource transfer timeout"
  | .rejected => "Resource rejected"
  | .tooLarge => "Resource too large"
  | .maxRetriesExceeded => "Max retries exceeded"
  | .msgpackError => "Msgpack error"
  | .invalidState => "Invalid resource state"
  | .collisionDetected => "Hashmap collision detected"

/-- What a sender or receiver asks its caller to do. -/
inductive ResourceAction where
  | sendAdvertisement (data : Bytes)
  | sendPart (data : Bytes)
  | sendRequest (data : Bytes)
  | sendHmu (data : Bytes)
  | sendProof (data : Bytes)
  | sendCancelInitiator (hash : Bytes)
  | sendCancelReceiver (hash : Bytes)
  | teardownLink
  | dataReceived (data : Bytes) (metadata : Option Bytes)
  | completed
  | failed (error : ResourceError)
  | progressUpdate (received total : ℕ)
  deriving DecidableEq

inductive DecompressError where
  | invalidData
  | tooLarge
  deriving Repr, DecidableEq

structure Compressor where
  compress : Bytes → Option Bytes
  decompressBounded : Bytes → ℕ → Except DecompressError Bytes

def Compressor.Inverts (c : Compressor) : Prop :=
  ∀ data packed bound, c.compress data = some packed → data.length ≤ bound →
    c.decompressBounded packed bound = .ok data

/-- `NoopCompressor`. -/
def Compressor.noop : Compressor where
  compress _ := none
  decompressBounded _ _ := .error .invalidData

namespace Resource

/-- `RESOURCE_HASHMAP_MAX_LEN`. -/
def hashmapMaxLen : ℕ := 74

/-- `RESOURCE_WINDOW_MAX`. -/
def windowMax : ℕ := 75

/-- `RESOURCE_COLLISION_GUARD_SIZE`. -/
def collisionGuardSize : ℕ := 2 * windowMax + hashmapMaxLen

/-- `RESOURCE_AUTO_COMPRESS_MAX_SIZE`. -/
def autoCompressMaxSize : ℕ := 64 * 1024 * 1024

def hashmapIsExhausted : UInt8 := 0xFF

def hashmapIsNotExhausted : UInt8 := 0x00

end Resource

/-! ## Parts -/

abbrev MapHash := Vector UInt8 4

namespace Resource

variable (P : Primitives)

def mapHash (part random : Bytes) : MapHash := Bytes.fixed 4 (P.fullHash (part ++ random)).toList 0

variable (data : Bytes) (resourceHash : Hash32)

/-- The parts of `split_into_parts`. -/
def splitIntoParts (sdu : ℕ) : List Bytes :=
  if data = [] ∨ sdu = 0 then []
  else (List.range ((data.length + sdu - 1) / sdu)).map fun i => (data.drop (i * sdu)).take sdu

def buildHashmap (hashes : List MapHash) : Bytes := hashes.flatMap Vector.toList

def hasCollision (hashes : List MapHash) : Bool :=
  (List.range hashes.length).any fun i =>
    ((hashes.take i).drop (i - collisionGuardSize)).any fun prev => hashes[i]? = some prev

def prependMetadata (metadata : Bytes) : Bytes :=
  Bytes.be 3 metadata.length ++ metadata ++ data

def extractMetadata (assembled : Bytes) : Option (Bytes × Bytes) :=
  if assembled.length < 3 then none
  else
    let size := Bytes.readBe (assembled.take 3)
    if assembled.length < 3 + size then none
    else some ((assembled.drop 3).take size, assembled.drop (3 + size))

theorem extractMetadata_prependMetadata {metadata : Bytes} (h : metadata.length < 2 ^ 24) :
    extractMetadata (prependMetadata data metadata) = some (metadata, data) := by
  have hsize : Bytes.readBe (Bytes.be 3 metadata.length) = metadata.length := by
    rw [Bytes.readBe_be]
    exact Nat.mod_eq_of_lt h
  have htake : (prependMetadata data metadata).take 3 = Bytes.be 3 metadata.length := by
    rw [prependMetadata, List.append_assoc]
    exact List.take_left' (Bytes.length_be 3 _)
  have hdrop : (prependMetadata data metadata).drop 3 = metadata ++ data := by
    rw [prependMetadata, List.append_assoc]
    exact List.drop_left' (Bytes.length_be 3 _)
  have hlen : (prependMetadata data metadata).length = 3 + metadata.length + data.length := by
    simp [prependMetadata, Nat.add_assoc]
  rw [extractMetadata, if_neg (by omega), htake, hsize]
  dsimp only
  rw [if_neg (by omega), ← List.drop_drop, hdrop]
  simp

/-- `compute_resource_hash`, and `compute_expected_proof` over the resource hash. -/
def computeResourceHash (random : Bytes) : Hash32 := P.fullHash (data ++ random)

def computeExpectedProof : Hash32 :=
  P.fullHash (data ++ resourceHash.toList)

def buildProofData (proof : Hash32) : Bytes := resourceHash.toList ++ proof.toList

/-- `validate_proof`: only the second half is looked at. -/
def validateProof (proofData : Bytes) (expectedProof : Hash32) : Except ResourceError Bool :=
  if proofData.length ≠ 64 then .error .invalidProof
  else .ok (proofData.drop 32 = expectedProof.toList)

theorem validateProof_buildProofData (proof : Hash32) :
    validateProof (buildProofData resourceHash proof) proof = .ok true := by
  have hdrop : (buildProofData resourceHash proof).drop 32 = proof.toList :=
    List.drop_left' (by simp)
  have hlen : ¬(buildProofData resourceHash proof).length ≠ 64 := by simp [buildProofData]
  rw [validateProof, if_neg hlen, hdrop]
  simp

theorem flatten_slices (sdu : ℕ) {n : ℕ} (h : data.length ≤ n * sdu) :
    ((List.range n).map fun i => (data.drop (i * sdu)).take sdu).flatten = data := by
  have hslices : ∀ n, ((List.range n).map fun i => (data.drop (i * sdu)).take sdu).flatten =
      data.take (n * sdu) := by
    intro n
    induction n with
    | zero => simp
    | succ n ih =>
      rw [List.range_succ, List.map_append, List.flatten_append, ih]
      simp [Nat.succ_mul, List.take_add]
  rw [hslices, List.take_of_length_le h]

theorem le_divCeil_mul (n : ℕ) {k : ℕ} (hk : 0 < k) : n ≤ (n + k - 1) / k * k := by
  have hmod := Nat.div_add_mod (n + k - 1) k
  have hlt := Nat.mod_lt (n + k - 1) hk
  rw [Nat.mul_comm] at hmod
  omega

theorem flatten_splitIntoParts {sdu : ℕ} (hsdu : 0 < sdu) :
    (splitIntoParts data sdu).flatten = data := by
  unfold splitIntoParts
  split_ifs with hempty
  · rcases hempty with rfl | hzero
    · rfl
    · omega
  · exact flatten_slices data sdu (le_divCeil_mul data.length hsdu)

end Resource

/-! ## The window -/

structure WindowState where
  window : ℕ
  windowMax : ℕ
  windowMin : ℕ
  windowFlexibility : ℕ
  fastRateRounds : ℕ
  verySlowRateRounds : ℕ
  deriving DecidableEq

namespace WindowState

def new : WindowState := ⟨4, 10, 2, 4, 0, 0⟩

variable (w : WindowState)

def restore (previousWindow : ℕ) : WindowState := { w with window := previousWindow }

/-- `on_window_complete`: the window grows, and its minimum follows. -/
def onWindowComplete : WindowState :=
  if w.window < w.windowMax then
    let w := { w with window := w.window + 1 }
    if (w.window : ℤ) - w.windowMin > w.windowFlexibility - 1 then
      { w with windowMin := w.windowMin + 1 }
    else w
  else w

/-- `on_timeout`: the window and its maximum shrink. -/
def onTimeout : WindowState :=
  if w.window > w.windowMin then
    let w := { w with window := w.window - 1 }
    if w.windowMax > w.windowMin then
      let w := { w with windowMax := w.windowMax - 1 }
      if (w.windowMax : ℤ) - w.window > w.windowFlexibility - 1 then
        { w with windowMax := w.windowMax - 1 }
      else w
    else w
  else w

/-- `update_req_resp_rate`: after four fast rounds the window may grow to its largest size. -/
def updateReqRespRate (rate : ℚ) : WindowState :=
  if rate > 6250 ∧ w.fastRateRounds < 4 then
    let w := { w with fastRateRounds := w.fastRateRounds + 1 }
    if w.fastRateRounds = 4 then { w with windowMax := Resource.windowMax } else w
  else w

/-- `update_data_rate`: on a link that was never fast, two very slow rounds bound the window. -/
def updateDataRate (rate : ℚ) : WindowState :=
  let w := w.updateReqRespRate rate
  if w.fastRateRounds = 0 ∧ rate < 250 ∧ w.verySlowRateRounds < 2 then
    let w := { w with verySlowRateRounds := w.verySlowRateRounds + 1 }
    if w.verySlowRateRounds = 2 then { w with windowMax := 4 } else w
  else w

/-- No window is larger than the largest size. -/
structure Bounded (w : WindowState) : Prop where
  window : w.window ≤ Resource.windowMax
  windowMax : w.windowMax ≤ Resource.windowMax

theorem bounded_new : new.Bounded := ⟨by decide, by decide⟩

variable {w : WindowState}

section

variable (h : w.Bounded)
include h

theorem Bounded.restore {previousWindow : ℕ} (hprevious : previousWindow ≤ Resource.windowMax) :
    (w.restore previousWindow).Bounded :=
  ⟨hprevious, h.windowMax⟩

theorem Bounded.onWindowComplete : w.onWindowComplete.Bounded := by
  have hwindow := h.window
  have hmax := h.windowMax
  unfold WindowState.onWindowComplete
  dsimp only
  split_ifs <;> constructor <;> grind

theorem Bounded.onTimeout : w.onTimeout.Bounded := by
  have hwindow := h.window
  have hmax := h.windowMax
  unfold WindowState.onTimeout
  dsimp only
  split_ifs <;> constructor <;> grind

theorem Bounded.updateReqRespRate (rate : ℚ) : (w.updateReqRespRate rate).Bounded := by
  unfold WindowState.updateReqRespRate
  dsimp only
  split_ifs
  · exact ⟨h.window, le_rfl⟩
  · exact ⟨h.window, h.windowMax⟩
  · exact h

theorem Bounded.updateDataRate (rate : ℚ) : (w.updateDataRate rate).Bounded := by
  have hfast := h.updateReqRespRate rate
  unfold WindowState.updateDataRate
  dsimp only
  split_ifs
  · exact ⟨hfast.window, (by decide : 4 ≤ Resource.windowMax)⟩
  · exact ⟨hfast.window, hfast.windowMax⟩
  · exact hfast

end

end WindowState

/-! ## The advertisement -/

structure AdvFlags where
  encrypted : Bool
  compressed : Bool
  split : Bool
  isRequest : Bool
  isResponse : Bool
  hasMetadata : Bool
  deriving DecidableEq

namespace AdvFlags

def toByte (f : AdvFlags) : UInt8 :=
  (if f.encrypted then 0x01 else 0) ||| (if f.compressed then 0x02 else 0) |||
    (if f.split then 0x04 else 0) ||| (if f.isRequest then 0x08 else 0) |||
    (if f.isResponse then 0x10 else 0) ||| (if f.hasMetadata then 0x20 else 0)

def fromByte (f : UInt8) : AdvFlags where
  encrypted := f &&& 0x01 ≠ 0
  compressed := f &&& 0x02 ≠ 0
  split := f &&& 0x04 ≠ 0
  isRequest := f &&& 0x08 ≠ 0
  isResponse := f &&& 0x10 ≠ 0
  hasMetadata := f &&& 0x20 ≠ 0

theorem fromByte_toByte (f : AdvFlags) : fromByte f.toByte = f := by
  obtain ⟨encrypted, compressed, split, isRequest, isResponse, hasMetadata⟩ := f
  revert encrypted compressed split isRequest isResponse hasMetadata
  decide

end AdvFlags

structure ResourceAdvertisement where
  transferSize : UInt64
  dataSize : UInt64
  numParts : UInt64
  resourceHash : Bytes
  randomHash : Bytes
  originalHash : Bytes
  hashmap : Bytes
  flags : AdvFlags
  segmentIndex : UInt64
  totalSegments : UInt64
  requestId : Option Bytes
  deriving DecidableEq

namespace ResourceAdvertisement

open Msgpack

def key (c : Char) (h : validUtf8 [c.toUInt8]) : Utf8 := ⟨[c.toUInt8], h⟩

def hashmapSegment (hashmap : Bytes) (segment : ℕ) : Bytes :=
  let start := segment * Resource.hashmapMaxLen * 4
  let stop := min ((segment + 1) * Resource.hashmapMaxLen * 4) hashmap.length
  (hashmap.take stop).drop start

/-- The map `pack` writes. -/
def entries (a : ResourceAdvertisement) (segment : ℕ) : List (Utf8 × Value) :=
  [(key 't' rfl, .uint a.transferSize),
    (key 'd' rfl, .uint a.dataSize),
    (key 'n' rfl, .uint a.numParts),
    (key 'h' rfl, .bin a.resourceHash),
    (key 'r' rfl, .bin a.randomHash),
    (key 'o' rfl, .bin a.originalHash),
    (key 'i' rfl, .uint a.segmentIndex),
    (key 'l' rfl, .uint a.totalSegments),
    (key 'q' rfl, match a.requestId with
      | some id => .bin id
      | none => .nil),
    (key 'f' rfl, .uint a.flags.toByte.toUInt64),
    (key 'm' rfl, .bin (hashmapSegment a.hashmap segment))]

def pack (a : ResourceAdvertisement) (segment : ℕ) : Bytes := packStrMap (a.entries segment)

/-- The fields of the map; any that is missing or of another type makes it invalid. -/
def ofValue (value : Value) : Option ResourceAdvertisement := do
  let get (c : Char) := value.mapGet [c.toUInt8]
  let t ← (← get 't').asUint
  let d ← (← get 'd').asUint
  let n ← (← get 'n').asUint
  let h ← (← get 'h').asBin
  let r ← (← get 'r').asBin
  let o ← (← get 'o').asBin
  let m ← (← get 'm').asBin
  let f ← (← get 'f').asUint
  let i ← (← get 'i').asUint
  let l ← (← get 'l').asUint
  let q ← get 'q'
  let requestId ← if q.isNil then some none else q.asBin.map some
  return ⟨t, d, n, h, r, o, m, .fromByte f.toUInt8, i, l, requestId⟩

def unpack (data : Bytes) : Except ResourceError ResourceAdvertisement :=
  match unpackExact data with
  | .error _ => .error .invalidAdvertisement
  | .ok value => match ofValue value with
    | none => .error .invalidAdvertisement
    | some a => .ok a

/-- The byte strings fit their length fields. -/
structure Fits (a : ResourceAdvertisement) : Prop where
  resourceHash : a.resourceHash.length < 2 ^ 32
  randomHash : a.randomHash.length < 2 ^ 32
  originalHash : a.originalHash.length < 2 ^ 32
  requestId : ∀ id, a.requestId = some id → id.length < 2 ^ 32

variable (hashmap : Bytes) (segment : ℕ) {a : ResourceAdvertisement}

theorem length_hashmapSegment : (hashmapSegment hashmap segment).length ≤ 296 := by
  simp only [hashmapSegment, Resource.hashmapMaxLen, List.length_drop, List.length_take]
  omega

def toValue (a : ResourceAdvertisement) (segment : ℕ) : Value :=
  .map ((a.entries segment).map fun (k, v) => (.str k, v))

theorem sized_toValue (h : a.Fits) (segment : ℕ) : (a.toValue segment).Sized := by
  have hmap := length_hashmapSegment a.hashmap segment
  have hhash := h.resourceHash
  have hrandom := h.randomHash
  have horiginal := h.originalHash
  have hid := h.requestId
  cases hq : a.requestId with
  | none =>
    simp [toValue, entries, key, Value.Sized, SizedEntries, *]
    omega
  | some id =>
    have hlen := hid id hq
    simp [toValue, entries, key, Value.Sized, SizedEntries, *]
    omega

section

variable (a : ResourceAdvertisement) (segment : ℕ)

theorem levels_toValue : (a.toValue segment).levels ≤ 33 := by
  cases hq : a.requestId <;> simp [toValue, entries, hq, Value.levels, entryLevels]

theorem norm_toValue : (a.toValue segment).norm = a.toValue segment := by
  cases hq : a.requestId <;> simp [toValue, entries, hq, Value.norm, normEntries]

theorem ofValue_toValue : ofValue (a.toValue segment) =
      some { a with hashmap := hashmapSegment a.hashmap segment } := by
  have hread : ofValue (a.toValue segment) = some { a with
      hashmap := hashmapSegment a.hashmap segment
      flags := .fromByte a.flags.toByte.toUInt64.toUInt8 } := by
    obtain ⟨t, d, n, h, r, o, m, f, i, l, requestId⟩ := a
    cases requestId <;> rfl
  rw [hread, UInt8.toUInt8_toUInt64, AdvFlags.fromByte_toByte]

end

theorem unpack_pack (h : a.Fits) (segment : ℕ) :
    unpack (a.pack segment) = .ok { a with hashmap := hashmapSegment a.hashmap segment } := by
  have hexact := unpackExact_pack (sized_toValue h segment) (levels_toValue a segment)
  rw [pack, unpack, packStrMap, ← toValue, hexact]
  simp only [norm_toValue, ofValue_toValue]

theorem hashmapSegment_eq : hashmapSegment hashmap segment =
    (hashmap.drop (segment * (Resource.hashmapMaxLen * 4))).take (Resource.hashmapMaxLen * 4) := by
  have hstop : (segment + 1) * Resource.hashmapMaxLen * 4 =
      segment * (Resource.hashmapMaxLen * 4) + Resource.hashmapMaxLen * 4 := by
    rw [Nat.mul_assoc, Nat.succ_mul]
  rw [hashmapSegment, ← List.take_take, List.take_length, hstop, Nat.mul_assoc, List.drop_take,
    Nat.add_sub_cancel_left]

def hashmapSegments (a : ResourceAdvertisement) : ℕ :=
  if a.numParts = 0 then 1
  else (a.numParts.toNat + Resource.hashmapMaxLen - 1) / Resource.hashmapMaxLen

theorem length_le_hashmapSegments (h : a.hashmap.length = a.numParts.toNat * 4) :
    a.hashmap.length ≤ a.hashmapSegments * (Resource.hashmapMaxLen * 4) := by
  have hceil := Resource.le_divCeil_mul a.numParts.toNat (k := Resource.hashmapMaxLen) (by decide)
  rw [h, hashmapSegments, ← Nat.mul_assoc]
  split_ifs with hnone
  · rw [hnone]
    decide
  · exact Nat.mul_le_mul_right 4 hceil

/-- An advertisement is read back with the slice of the hashmap that was packed, and the slices make
up the hashmap; a hash for every part needs no more segments than are counted. -/
theorem advertisement_round_trip (h : a.Fits) :
    (∀ segment, unpack (a.pack segment) =
      .ok { a with hashmap := hashmapSegment a.hashmap segment }) ∧
    (∀ segments, a.hashmap.length ≤ segments * (Resource.hashmapMaxLen * 4) →
      ((List.range segments).map (hashmapSegment a.hashmap)).flatten = a.hashmap) ∧
    (a.hashmap.length = a.numParts.toNat * 4 →
      ((List.range a.hashmapSegments).map (hashmapSegment a.hashmap)).flatten = a.hashmap) := by
  have hslices : ∀ segments, a.hashmap.length ≤ segments * (Resource.hashmapMaxLen * 4) →
      ((List.range segments).map (hashmapSegment a.hashmap)).flatten = a.hashmap := by
    intro segments hle
    rw [funext (hashmapSegment_eq a.hashmap)]
    exact Resource.flatten_slices a.hashmap _ hle
  exact ⟨unpack_pack h, hslices, fun hall => hslices _ (length_le_hashmapSegments hall)⟩

theorem advertisement_round_trip_sample :
    let a : ResourceAdvertisement := ⟨100, 90, 75, .replicate 32 1, [1, 2, 3, 4], .replicate 32 2,
      .replicate 300 7, .fromByte 0x13, 1, 2, some [9]⟩
    unpack (a.pack 1) = .ok { a with hashmap := hashmapSegment a.hashmap 1 } ∧
      ((List.range a.hashmapSegments).map (hashmapSegment a.hashmap)).flatten = a.hashmap := by
  intro a
  have hfits : a.Fits := ⟨by decide, by decide, by decide, by rintro _ ⟨⟩; decide⟩
  obtain ⟨hread, -, hslices⟩ := advertisement_round_trip hfits
  exact ⟨hread 1, hslices List.length_replicate⟩

end ResourceAdvertisement

end Rns
