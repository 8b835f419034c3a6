import Rns.Resource.Receiver

/-!
# What a receiver holds

A receiver made from the sender's advertisement knows hashes of the sender only, each in its place.
When it has all parts, it puts together the data the sender was made from.
-/

namespace Rns

open Resource List
open ResourceSender (mapHashes ofRandom)

/-! ## The hashmap on the wire -/

variable (hashes : List MapHash) (s : ResourceSender)

variable {i : ℕ} {data : Bytes} {hash : MapHash} {random : Bytes} {segment : ℕ}

namespace Resource

@[simp]
theorem length_buildHashmap : (buildHashmap hashes).length = hashes.length * 4 := by
  induction hashes with
  | nil => rfl
  | cons hash hashes ih =>
    rw [buildHashmap, flatMap_cons, length_append, ← buildHashmap, ih]
    simp
    omega

theorem fixed_buildHashmap {hashes : List MapHash} (h : hashes[i]? = some hash) :
    Bytes.fixed 4 (buildHashmap hashes) (i * 4) = hash := by
  obtain ⟨hlt, rfl⟩ := List.getElem?_eq_some_iff.1 h
  have hsplit : buildHashmap hashes = buildHashmap (hashes.take i) ++ hashes[i].toList ++
      buildHashmap (hashes.drop (i + 1)) := by
    have hcut : hashes = hashes.take i ++ hashes[i] :: hashes.drop (i + 1) := by
      rw [← drop_eq_getElem_cons hlt, take_append_drop]
    conv_lhs => rw [hcut]
    simp only [buildHashmap, flatMap_append, flatMap_cons, append_assoc]
  have hlen : (buildHashmap (hashes.take i)).length = i * 4 := by
    simp
    omega
  rw [hsplit, ← hlen]
  exact Bytes.fixed_append _ _ _

theorem mapHashes_buildHashmap : mapHashes (buildHashmap hashes) = hashes := by
  apply ext_getElem?
  intro i
  rw [mapHashes, length_buildHashmap, Nat.mul_div_cancel _ (by decide)]
  by_cases hi : i < hashes.length
  · simp [hi, fixed_buildHashmap (getElem?_eq_getElem hi)]
  · simp [hi]

end Resource

/-! ## What stays the same -/

namespace ResourceSender

/-- Both are states of the sender of one resource. -/
structure SameResource (s s' : ResourceSender) : Prop where
  parts : s'.parts = s.parts
  partHashes : s'.partHashes = s.partHashes
  resourceHash : s'.resourceHash = s.resourceHash
  expectedProof : s'.expectedProof = s.expectedProof
  randomHash : s'.randomHash = s.randomHash
  flags : s'.flags = s.flags
  segmentIndex : s'.segmentIndex = s.segmentIndex
  totalSegments : s'.totalSegments = s.totalSegments
  originalHash : s'.originalHash = s.originalHash

theorem SameResource.refl : SameResource s s := by
  constructor <;> rfl

theorem SameResource.trans {s s' s'' : ResourceSender} (h : SameResource s s')
    (h' : SameResource s' s'') : SameResource s s'' :=
  ⟨h'.parts.trans h.parts, h'.partHashes.trans h.partHashes,
    h'.resourceHash.trans h.resourceHash, h'.expectedProof.trans h.expectedProof,
    h'.randomHash.trans h.randomHash, h'.flags.trans h.flags, h'.segmentIndex.trans h.segmentIndex,
    h'.totalSegments.trans h.totalSegments, h'.originalHash.trans h.originalHash⟩

theorem SameResource.hmu {s s' : ResourceSender} (h : SameResource s s') (segment : ℕ) :
    s'.hmu segment = s.hmu segment := by
  simp only [ResourceSender.hmu, segmentHashes, h.partHashes, h.resourceHash]

variable (s : ResourceSender)

variable (requestData : Bytes) (now : ℚ)

theorem sameResource_buildHmu : SameResource s (s.buildHmu requestData now).1 := by
  unfold buildHmu
  dsimp only
  split_ifs <;> constructor <;> rfl

theorem sameResource_extendHashmap : SameResource s (s.extendHashmap requestData now).1 := by
  unfold extendHashmap
  split_ifs
  · exact sameResource_buildHmu ..
  · exact .refl s

theorem sameResource_awaitProof : SameResource s s.awaitProof := by
  unfold awaitProof
  split_ifs
  · constructor <;> rfl
  · exact .refl s

theorem sameResource_answerRequest : SameResource s (s.answerRequest requestData now).1 := by
  have hparts : SameResource s (s.sendParts (s.requestedParts (requestedHashes requestData)) now).1 := by
    constructor <;> rfl
  exact hparts.trans ((sameResource_extendHashmap _ requestData now).trans (sameResource_awaitProof _))

theorem sameResource_handleRequest : SameResource s (s.handleRequest requestData now).1 := by
  have hnote : SameResource s (s.noteRequest now) := by
    constructor <;> rfl
  unfold handleRequest
  split_ifs
  · exact .refl s
  · exact hnote
  · exact hnote.trans (sameResource_answerRequest _ requestData now)

theorem sameResource_tick : SameResource s (s.tick now).1 := by
  unfold tick
  split
  · split_ifs <;> constructor <;> rfl
  · split_ifs <;> constructor <;> rfl
  · split_ifs <;> constructor <;> rfl
  · exact .refl s

theorem minHeight_tick : (s.tick now).1.receiverMinConsecutiveHeight =
    s.receiverMinConsecutiveHeight := by
  unfold tick
  split <;> (try split_ifs) <;> rfl

theorem sendHmu_notMem_tick (hmu : Bytes) : .sendHmu hmu ∉ (s.tick now).2 := by
  unfold tick
  split <;> (try split_ifs) <;> simp

theorem mem_buildHmu {s : ResourceSender} {requestData hmu : Bytes} {now : ℚ}
    (h : (s.buildHmu requestData now).2 = some hmu) :
    ∃ segment, segment * hashmapMaxLen = s.partIndexAfter (Bytes.fixed 4 requestData 1) ∧
      hmu = s.hmu segment := by
  unfold buildHmu at h
  dsimp only at h
  split_ifs at h with hshort hodd
  cases Option.some.inj h
  exact ⟨_, Nat.div_mul_cancel (Nat.dvd_of_mod_eq_zero (not_not.1 hodd)), rfl⟩

theorem mem_searchWindow {s : ResourceSender} : i ∈ s.searchWindow ↔
    s.receiverMinConsecutiveHeight ≤ i ∧
      i < s.receiverMinConsecutiveHeight + collisionGuardSize ∧ i < s.totalParts := by
  simp only [searchWindow, mem_range'_1]
  omega

theorem partIndexAfter_le {s : ResourceSender} (h : s.receiverMinConsecutiveHeight ≤ s.totalParts)
    (hash : MapHash) : s.partIndexAfter hash ≤ s.totalParts := by
  unfold partIndexAfter
  split
  · next i hfound =>
    have hmem := mem_searchWindow.1 (mem_of_find?_eq_some hfound)
    omega
  · simp only [searchWindow, length_range']
    omega

/-- What a request can do to the window, and which updates it can bring about: none, or that of the
segment behind the last known hash. -/
theorem handleRequest_cases : ((s.handleRequest requestData now).1.receiverMinConsecutiveHeight =
        s.receiverMinConsecutiveHeight ∧
      ∀ hmu, .sendHmu hmu ∉ (s.handleRequest requestData now).2) ∨
    (requestData.head? = some hashmapIsExhausted ∧
      (s.handleRequest requestData now).1.receiverMinConsecutiveHeight =
        minHeightAfter (s.partIndexAfter (Bytes.fixed 4 requestData 1)) ∧
      ∀ hmu, .sendHmu hmu ∈ (s.handleRequest requestData now).2 → ∃ segment,
        segment * hashmapMaxLen = s.partIndexAfter (Bytes.fixed 4 requestData 1) ∧
          hmu = s.hmu segment) := by
  unfold handleRequest
  split_ifs with hfailed hshort
  · exact .inl ⟨rfl, by simp⟩
  · exact .inl ⟨rfl, by simp⟩
  · have hheight : ∀ s : ResourceSender,
        s.awaitProof.receiverMinConsecutiveHeight = s.receiverMinConsecutiveHeight := by
      intro s
      unfold awaitProof
      split_ifs <;> rfl
    simp only [answerRequest, hheight, extendHashmap]
    by_cases hexhausted : requestData.head? = some hashmapIsExhausted
    · have hlong : ¬requestData.length < 5 := by
        simp only [requestPad, hexhausted, if_true] at hshort
        omega
      refine .inr ⟨hexhausted, ?_, ?_⟩
      · rw [if_pos hexhausted, buildHmu, if_neg hlong]
        dsimp only
        split_ifs <;> rfl
      · rw [if_pos hexhausted]
        intro hmu hmem
        simp [sendParts] at hmem
        obtain ⟨segment, hsegment, rfl⟩ := mem_buildHmu hmem
        exact ⟨segment, hsegment, rfl⟩
    · refine .inl ⟨by rw [if_neg hexhausted]; rfl, ?_⟩
      rw [if_neg hexhausted]
      simp [sendParts]

theorem handleRequest_status {s : ResourceSender} (h : s.status ≠ .failed) (requestData : Bytes)
    (now : ℚ) : (s.handleRequest requestData now).1.status ≠ .failed := by
  have hextended : ∀ s : ResourceSender, s.status ≠ .failed →
      (s.extendHashmap requestData now).1.status ≠ .failed := by
    intro s hs
    unfold extendHashmap buildHmu
    dsimp only
    split_ifs <;> exact hs
  have hawaited : ∀ s : ResourceSender, s.status ≠ .failed → s.awaitProof.status ≠ .failed := by
    intro s hs
    unfold awaitProof
    split_ifs
    · simp
    · exact hs
  rw [handleRequest, if_neg h]
  split_ifs
  · simp [noteRequest]
  · apply hawaited
    apply hextended
    simp [noteRequest]

end ResourceSender

namespace ResourceReceiver

/-- Nothing was received in between. -/
structure SameProgress (r r' : ResourceReceiver) : Prop where
  resourceHash : r'.resourceHash = r.resourceHash
  randomHash : r'.randomHash = r.randomHash
  flags : r'.flags = r.flags
  hasMetadata : r'.hasMetadata = r.hasMetadata
  segmentIndex : r'.segmentIndex = r.segmentIndex
  totalParts : r'.totalParts = r.totalParts
  maxDecompressedSize : r'.maxDecompressedSize = r.maxDecompressedSize
  parts : r'.parts = r.parts
  hashmap : r'.hashmap = r.hashmap
  hashmapHeight : r'.hashmapHeight = r.hashmapHeight
  receivedCount : r'.receivedCount = r.receivedCount
  consecutiveCompletedHeight : r'.consecutiveCompletedHeight = r.consecutiveCompletedHeight
  totalSegments : r'.totalSegments = r.totalSegments
  originalHash : r'.originalHash = r.originalHash
  requestId : r'.requestId = r.requestId

theorem SameProgress.refl (r : ResourceReceiver) : SameProgress r r := by
  constructor <;> rfl

theorem SameProgress.trans {r r' r'' : ResourceReceiver} (h : SameProgress r r')
    (h' : SameProgress r' r'') : SameProgress r r'' :=
  ⟨h'.1.trans h.1, h'.2.trans h.2, h'.3.trans h.3, h'.4.trans h.4, h'.5.trans h.5, h'.6.trans h.6,
    h'.7.trans h.7, h'.8.trans h.8, h'.9.trans h.9, h'.10.trans h.10, h'.11.trans h.11,
    h'.12.trans h.12, h'.13.trans h.13, h'.14.trans h.14, h'.15.trans h.15⟩

variable (r : ResourceReceiver)

variable (partLen : ℕ) (now : ℚ)

theorem sameProgress_requestNext : SameProgress r (r.requestNext now).1 := by
  unfold requestNext
  split_ifs
  · exact .refl r
  · constructor <;> rfl

theorem sameProgress_measureRtt : SameProgress r (r.measureRtt partLen now) := by
  unfold measureRtt
  split_ifs
  · exact .refl r
  · dsimp only
    split_ifs <;> constructor <;> rfl

theorem sameProgress_touch : SameProgress r (r.touch now) := by
  constructor <;> rfl

theorem sameProgress_notePart : SameProgress r (r.notePart partLen now) := by
  refine (sameProgress_touch r now).trans ((sameProgress_measureRtt _ partLen now).trans ?_)
  constructor <;> rfl

theorem sameProgress_completeWindow : SameProgress r (r.completeWindow now) := by
  unfold completeWindow
  dsimp only
  split_ifs <;> constructor <;> rfl

theorem sameProgress_afterPart (matched : Bool) (now : ℚ) :
    SameProgress r (r.afterPart matched now).1 := by
  unfold afterPart
  dsimp only
  split
  · exact .refl r
  · split
    · exact (sameProgress_completeWindow r now).trans (sameProgress_requestNext _ now)
    · exact .refl r

theorem sameProgress_accept : SameProgress r (r.accept now).1 := by
  have hstatus : SameProgress r { r with status := .transferring, lastActivity := now } := by
    constructor <;> rfl
  exact hstatus.trans (sameProgress_requestNext _ now)

variable (P : Primitives)

theorem sameProgress_corruptActions (error : ResourceError) :
    SameProgress r (r.corruptActions error).1 := by
  constructor <;> rfl

variable (data : Bytes) (now : ℚ) (decrypt : Bytes → Option Bytes) (compressor : Compressor)

theorem sameProgress_finish : SameProgress r (r.finish P data).1 := by
  unfold finish
  dsimp only
  split
  · exact sameProgress_corruptActions r _
  · split
    · exact sameProgress_corruptActions r _
    · constructor <;> rfl

theorem sameProgress_assemble : SameProgress r (r.assemble P decrypt compressor).1 := by
  have hassembling : SameProgress r { r with status := .assembling } := by
    constructor <;> rfl
  unfold assemble
  split
  · exact .refl r
  · split
    · constructor <;> rfl
    · dsimp only
      split
      · constructor <;> rfl
      · split
        · exact hassembling.trans (sameProgress_corruptActions _ _)
        · exact hassembling.trans (sameProgress_finish _ P _)

theorem sameProgress_tick : SameProgress r (r.tick P now decrypt compressor).1 := by
  unfold tick
  dsimp only
  split_ifs
  · exact .refl r
  · exact sameProgress_assemble ..
  · refine SameProgress.trans ?_ (sameProgress_requestNext _ now)
    constructor <;> rfl
  · constructor <;> rfl
  · constructor <;> rfl

theorem placePart_cases (P : Primitives) (r : ResourceReceiver) (data : Bytes) :
    r.placePart P data = (r, false) ∨ ∃ i, r.placePart P data = (r.storePart i data, true) := by
  unfold ResourceReceiver.placePart
  split
  · split_ifs
    · exact .inr ⟨_, rfl⟩
    · exact .inl rfl
  · exact .inl rfl

theorem fillHashmap_eq (r : ResourceReceiver) (segment : ℕ) (hashes : Bytes) :
    ∃ hashmapHeight hashmap, r.fillHashmap segment hashes = { r with hashmapHeight, hashmap } := by
  refine foldlRecOn _ _ (motive := fun r' : ResourceReceiver =>
    ∃ hashmapHeight hashmap, r' = { r with hashmapHeight, hashmap }) ⟨_, _, rfl⟩ ?_
  rintro _ ⟨_, _, rfl⟩ i _
  unfold fillSlot
  split_ifs <;> exact ⟨_, _, rfl⟩

/-- The known hashes are those below `hashmapHeight`. -/
structure Known (r : ResourceReceiver) : Prop where
  fits : r.totalParts < 2 ^ 64
  length_hashmap : r.hashmap.length = r.totalParts
  height_le : r.hashmapHeight ≤ r.totalParts
  known : ∀ i < r.totalParts, (r.hashmap.getD i none).isSome ↔ i < r.hashmapHeight

theorem Known.same {r r' : ResourceReceiver} (h : r.Known) (hsame : SameProgress r r') : r'.Known := by
  constructor <;> rw [hsame.totalParts]
  · exact h.fits
  · rw [hsame.hashmap, h.length_hashmap]
  · rw [hsame.hashmapHeight]
    exact h.height_le
  · rw [hsame.hashmap, hsame.hashmapHeight]
    exact h.known

theorem Known.fillSlot {r : ResourceReceiver} (h : r.Known) (idx : ℕ)
    (hidx : idx ≤ r.hashmapHeight ∨ r.hashmapHeight = r.totalParts) (hash : MapHash) :
    (r.fillSlot idx hash).Known ∧ (r.fillSlot idx hash).totalParts = r.totalParts ∧
      (r.fillSlot idx hash).hashmapHeight =
        if idx = r.hashmapHeight ∧ idx < r.totalParts then r.hashmapHeight + 1
        else r.hashmapHeight := by
  have hlen := h.length_hashmap
  have hle := h.height_le
  have hset : ∀ i < r.totalParts,
      ((r.hashmap.set idx (some hash)).getD i none).isSome ↔ i = idx ∨ i < r.hashmapHeight := by
    intro i hi
    rw [← h.known i hi, getD_eq_getElem?_getD]
    by_cases heq : i = idx
    · simp [← heq, hlen, hi]
    · simp [heq, getElem?_set_ne (Ne.symm heq)]
  unfold ResourceReceiver.fillSlot
  by_cases hin : idx < r.totalParts
  · have hnone : (r.hashmap.getD idx none).isNone ↔ idx = r.hashmapHeight := by
      have hknown := h.known idx hin
      rw [← Option.not_isSome, Bool.not_eq_true', Bool.eq_false_iff, Ne, hknown]
      omega
    simp only [if_pos hin, hnone]
    refine ⟨⟨h.fits, length_set.trans hlen, ?_, fun i hi => (hset i hi).trans ?_⟩, trivial, by simp [hin]⟩ <;>
      dsimp only <;> split_ifs <;> omega
  · rw [if_neg hin, if_neg fun hnew => hin hnew.2]
    exact ⟨h, rfl, rfl⟩

/-- An update that starts at most at `hashmapHeight` makes the known prefix longer. -/
theorem Known.fillHashmap {r : ResourceReceiver} {segment : ℕ} (h : r.Known)
    (hstart : segment * hashmapMaxLen % 2 ^ 64 ≤ r.hashmapHeight) (hashes : Bytes) :
    (r.fillHashmap segment hashes).Known ∧ (r.fillHashmap segment hashes).hashmapHeight =
      max r.hashmapHeight
        (min (segment * hashmapMaxLen % 2 ^ 64 + hashes.length / 4) r.totalParts) := by
  have hle := h.height_le
  have hfits := h.fits
  suffices hall : ∀ n, let r' := (range n).foldl (fun r i =>
      r.fillSlot ((i + segment * hashmapMaxLen) % 2 ^ 64) (Bytes.fixed 4 hashes (i * 4))) r
      r'.Known ∧ r'.totalParts = r.totalParts ∧ r'.hashmapHeight =
        max r.hashmapHeight (min (segment * hashmapMaxLen % 2 ^ 64 + n) r.totalParts) from
    ⟨(hall _).1, (hall _).2.2⟩
  generalize segment * hashmapMaxLen = start at hstart ⊢
  intro n
  induction n with
  | zero => exact ⟨h, rfl, by simp only [range_zero, foldl_nil]; omega⟩
  | succ n ih =>
    obtain ⟨hknown, htotal, hheight⟩ := ih
    simp only [range_succ, foldl_append, foldl_cons, foldl_nil]
    obtain ⟨hknown', htotal', hheight'⟩ := hknown.fillSlot ((n + start) % 2 ^ 64)
      (by omega) (Bytes.fixed 4 hashes (n * 4))
    refine ⟨hknown', htotal'.trans htotal, hheight'.trans ?_⟩
    rw [htotal, hheight]
    split_ifs <;> omega

/-- Both are states of the receiver of one advertisement. -/
structure SameTransfer (r r' : ResourceReceiver) : Prop where
  resourceHash : r'.resourceHash = r.resourceHash
  randomHash : r'.randomHash = r.randomHash
  originalHash : r'.originalHash = r.originalHash
  flags : r'.flags = r.flags
  hasMetadata : r'.hasMetadata = r.hasMetadata
  segmentIndex : r'.segmentIndex = r.segmentIndex
  totalSegments : r'.totalSegments = r.totalSegments
  totalParts : r'.totalParts = r.totalParts
  requestId : r'.requestId = r.requestId

theorem SameProgress.sameTransfer {r r' : ResourceReceiver} (h : SameProgress r r') :
    SameTransfer r r' :=
  ⟨h.resourceHash, h.randomHash, h.originalHash, h.flags, h.hasMetadata, h.segmentIndex,
    h.totalSegments, h.totalParts, h.requestId⟩

theorem SameTransfer.trans {r r' r'' : ResourceReceiver} (h : SameTransfer r r')
    (h' : SameTransfer r' r'') : SameTransfer r r'' :=
  ⟨h'.1.trans h.1, h'.2.trans h.2, h'.3.trans h.3, h'.4.trans h.4, h'.5.trans h.5, h'.6.trans h.6,
    h'.7.trans h.7, h'.8.trans h.8, h'.9.trans h.9⟩

theorem sameTransfer_placePart : SameTransfer r (r.placePart P data).1 := by
  rcases placePart_cases .. with hkept | ⟨i, hstored⟩
  · rw [hkept]
    exact (SameProgress.refl r).sameTransfer
  · rw [hstored]
    constructor <;> rfl

theorem sameTransfer_receivePart : SameTransfer r (r.receivePart P data now).1 := by
  unfold receivePart
  split_ifs
  · exact (SameProgress.refl r).sameTransfer
  · exact (sameProgress_notePart ..).sameTransfer.trans
      ((sameTransfer_placePart _ P data).trans (sameProgress_afterPart _ _ now).sameTransfer)

theorem sameTransfer_handleHashmapUpdate : SameTransfer r (r.handleHashmapUpdate data now).1 := by
  unfold handleHashmapUpdate
  split_ifs
  · exact (SameProgress.refl r).sameTransfer
  · split
    · constructor <;> rfl
    · next segment hashes _ =>
      refine SameTransfer.trans ?_ (sameProgress_requestNext _ now).sameTransfer
      obtain ⟨_, _, heq⟩ := fillHashmap_eq (r.touch now) segment hashes
      rw [heq]
      constructor <;> rfl

end ResourceReceiver

/-! ## What is received -/

variable (P : Primitives)

/-- The hashes are those of the parts, and no two are equal. -/
structure ResourceSender.Hashed (s : ResourceSender) : Prop where
  partHashes : s.partHashes = s.parts.map fun part => mapHash P part s.randomHash
  nodup : s.partHashes.Nodup

theorem ResourceSender.Hashed.length_partHashes {s : ResourceSender} {P : Primitives}
    (h : s.Hashed P) : s.partHashes.length = s.totalParts := by
  rw [h.partHashes, length_map]
  rfl

namespace ResourceReceiver

/-- The receiver is one of the resource of `s`, and all that it holds is in its place there. -/
structure Follows (r : ResourceReceiver) (s : ResourceSender) : Prop where
  resourceHash : r.resourceHash = s.resourceHash.toList
  randomHash : r.randomHash = s.randomHash
  flags : r.flags = s.flags
  hasMetadata : r.hasMetadata = s.flags.hasMetadata
  segmentIndex : r.segmentIndex = s.segmentIndex
  totalParts : r.totalParts = s.totalParts
  maxDecompressedSize : r.maxDecompressedSize = autoCompressMaxSize
  length_parts : r.parts.length = s.totalParts
  length_hashmap : r.hashmap.length = s.totalParts
  hashmap : ∀ (i : ℕ) hash, r.hashmap[i]? = some (some hash) → s.partHashes[i]? = some hash
  parts : ∀ (i : ℕ) data, r.parts[i]? = some (some data) → s.parts[i]? = some data
  receivedCount : r.receivedCount = r.parts.countP Option.isSome

variable {P} {r r' : ResourceReceiver} {s : ResourceSender}

theorem Follows.same (h : r.Follows s) (hsame : SameProgress r r') : r'.Follows s := by
  constructor
  · exact hsame.resourceHash.trans h.resourceHash
  · exact hsame.randomHash.trans h.randomHash
  · exact hsame.flags.trans h.flags
  · exact hsame.hasMetadata.trans h.hasMetadata
  · exact hsame.segmentIndex.trans h.segmentIndex
  · exact hsame.totalParts.trans h.totalParts
  · exact hsame.maxDecompressedSize.trans h.maxDecompressedSize
  · rw [hsame.parts, h.length_parts]
  · rw [hsame.hashmap, h.length_hashmap]
  · rw [hsame.hashmap]
    exact h.hashmap
  · rw [hsame.parts]
    exact h.parts
  · rw [hsame.receivedCount, hsame.parts, h.receivedCount]

variable {α : Type*} (f : ℕ → α) (slots : List ℕ) (l : List α)

theorem getElem?_of_getD_eq_some {l : List (Option α)} {a : α} (h : l.getD i none = some a) :
    l[i]? = some (some a) := by
  cases hi : l[i]? with
  | none => simp [hi] at h
  | some x => simpa [hi] using h

theorem Follows.storePart (h : r.Follows s) (hpart : s.parts[i]? = some data)
    (hmissing : r.missing i) : (r.storePart i data).Follows s := by
  have hlt : i < r.parts.length := by
    rw [h.length_parts]
    exact (List.getElem?_eq_some_iff.1 hpart).1
  have hnone : r.parts[i] = none := by
    simpa [missing, getElem?_eq_getElem hlt] using hmissing
  refine { h with
    length_parts := by simp [ResourceReceiver.storePart, walk, h.length_parts]
    parts := ?_
    receivedCount := ?_ }
  · intro j other hj
    simp only [ResourceReceiver.storePart, walk] at hj
    by_cases hij : i = j
    · subst hij
      rw [getElem?_set_self hlt] at hj
      cases hj
      exact hpart
    · rw [getElem?_set_ne hij] at hj
      exact h.parts j other hj
  · simp only [ResourceReceiver.storePart, walk]
    rw [countP_set hlt, hnone, h.receivedCount]
    simp

section

variable (h : r.Follows s) (hs : s.Hashed P) {j : ℕ} (hpart : s.parts[j]? = some data)
include h hs hpart

theorem Follows.placePart : (r.placePart P data).1.Follows s := by
  unfold ResourceReceiver.placePart
  split
  · next i hslot =>
    split_ifs with hmissing
    · have hknown := find?_some hslot
      have hown : s.partHashes[i]? = some (mapHash P data r.randomHash) :=
        h.hashmap i _ (getElem?_of_getD_eq_some (of_decide_eq_true hknown))
      have hthat : s.partHashes[j]? = some (mapHash P data r.randomHash) := by
        rw [hs.partHashes, getElem?_map, hpart, h.randomHash]
        rfl
      have hij : i = j := by
        obtain ⟨hi, hi'⟩ := List.getElem?_eq_some_iff.1 hown
        obtain ⟨hj, hj'⟩ := List.getElem?_eq_some_iff.1 hthat
        exact (hs.nodup.getElem_inj_iff).1 (hi'.trans hj'.symm)
      exact h.storePart (hij ▸ hpart) hmissing
    · exact h
  · exact h

theorem Follows.receivePart (now : ℚ) : (r.receivePart P data now).1.Follows s := by
  unfold ResourceReceiver.receivePart
  split_ifs with hfailed
  · exact h
  · have hplaced := (h.same (sameProgress_notePart r data.length now)).placePart hs hpart
    exact hplaced.same (sameProgress_afterPart _ _ now)

end

end ResourceReceiver

namespace ResourceSender

variable {s : ResourceSender} {segment : ℕ}

theorem length_segmentHashes : (s.segmentHashes segment).length / 4 =
    min hashmapMaxLen (s.partHashes.length - segment * hashmapMaxLen) := by
  simp [segmentHashes]

theorem fixed_segmentHashes (hi : i < hashmapMaxLen)
    (h : s.partHashes[i + segment * hashmapMaxLen]? = some hash) :
    Bytes.fixed 4 (s.segmentHashes segment) (i * 4) = hash := by
  apply fixed_buildHashmap
  rw [getElem?_take_of_lt hi, getElem?_drop, Nat.add_comm, h]

end ResourceSender

theorem ResourceReceiver.parseHmu_hmu (h : segment < 2 ^ 64) :
    parseHmu (s.hmu segment) = some (segment, s.segmentHashes segment) := by
  have hhash : s.resourceHash.toList.length = 32 := by simp
  have hpayload := Msgpack.length_pack_pos (.array [.uint (.ofNat segment), .bin (s.segmentHashes segment)])
  have hlen : ¬(s.hmu segment).length ≤ 32 := by
    rw [ResourceSender.hmu, length_append, hhash]
    omega
  have hhashes : (s.segmentHashes segment).length < 2 ^ 32 := by
    simp only [ResourceSender.segmentHashes, length_buildHashmap, length_take, length_drop,
      hashmapMaxLen]
    omega
  have hread := Msgpack.unpack_pack
    (v := .array [.uint (.ofNat segment), .bin (s.segmentHashes segment)])
    (by simpa [Msgpack.Value.Sized, Msgpack.SizedItems] using hhashes)
    (by simp [Msgpack.Value.levels, Msgpack.itemLevels]) []
  rw [append_nil] at hread
  rw [parseHmu, if_neg hlen, ResourceSender.hmu, drop_left' hhash, hread]
  have hsegment : (UInt64.ofNat segment).toNat = segment := by
    rw [UInt64.toNat_ofNat']
    exact Nat.mod_eq_of_lt h
  simp [Msgpack.Value.norm, Msgpack.normItems, Msgpack.Value.asUint, Msgpack.Value.asBin, hsegment]

namespace ResourceReceiver

variable {P} {r r' : ResourceReceiver} {s : ResourceSender}

theorem Follows.fillSlot (h : r.Follows s) {idx : ℕ} {hash : MapHash}
    (hhash : s.partHashes[idx]? = some hash) : (r.fillSlot idx hash).Follows s := by
  unfold ResourceReceiver.fillSlot
  split
  · refine { h with length_hashmap := by simp [h.length_hashmap], hashmap := ?_ }
    intro i hash' hi
    rw [getElem?_set] at hi
    split_ifs at hi with heq
    · cases hi
      exact heq ▸ hhash
    · exact h.hashmap i hash' hi
  · exact h

theorem Follows.fillHashmap (h : r.Follows s) (hfits : s.partHashes.length < 2 ^ 64) (segment : ℕ) :
    (r.fillHashmap segment (s.segmentHashes segment)).Follows s := by
  refine foldlRecOn _ _ (motive := (Follows · s)) h fun r' hr' i hi => hr'.fillSlot ?_
  rw [mem_range, ResourceSender.length_segmentHashes] at hi
  have hlt : i + segment * hashmapMaxLen < s.partHashes.length := by omega
  have hpart := getElem?_eq_getElem hlt
  rw [Nat.mod_eq_of_lt (hlt.trans hfits), hpart, ResourceSender.fixed_segmentHashes (by omega) hpart]

theorem Follows.handleHashmapUpdate (h : r.Follows s) (hfits : s.partHashes.length < 2 ^ 64)
    (hsegment : segment < 2 ^ 64) (now : ℚ) :
    (r.handleHashmapUpdate (s.hmu segment) now).1.Follows s := by
  unfold ResourceReceiver.handleHashmapUpdate
  rw [parseHmu_hmu s hsegment]
  split_ifs with hfailed
  · exact h
  · have hfilled := (h.same (sameProgress_touch r now)).fillHashmap hfits segment
    refine hfilled.same (SameProgress.trans ?_ (sameProgress_requestNext _ now))
    constructor <;> rfl

end ResourceReceiver

/-! ## The advertised resource -/

namespace Resource

theorem buildHashmap_take (n : ℕ) :
    (buildHashmap hashes).take (n * 4) = buildHashmap (hashes.take n) := by
  have hsplit : buildHashmap hashes = buildHashmap (hashes.take n) ++ buildHashmap (hashes.drop n) := by
    rw [buildHashmap, buildHashmap, buildHashmap, ← flatMap_append, take_append_drop]
  rcases Nat.le_total n hashes.length with hle | hle
  · rw [hsplit, take_left' (by simp [hle])]
  · rw [take_of_length_le (by simp [hle]), take_of_length_le hle]

theorem hashmapSegment_buildHashmap :
    ResourceAdvertisement.hashmapSegment (buildHashmap hashes) 0 =
      buildHashmap (hashes.take hashmapMaxLen) := by
  rw [← buildHashmap_take, ResourceAdvertisement.hashmapSegment]
  simp only [Nat.zero_mul, Nat.zero_add, Nat.one_mul, drop_zero]
  rw [← take_take, take_length]

theorem length_splitIntoParts (data : Bytes) {sdu : ℕ} (hsdu : 0 < sdu) :
    (splitIntoParts data sdu).length ≤ data.length := by
  unfold splitIntoParts
  split_ifs with hempty
  · simp
  · have hpos : 0 < data.length := length_pos_iff.2 (by tauto)
    rw [length_map, length_range, Nat.div_le_iff_le_mul_add_pred hsdu]
    have hmul : data.length ≤ sdu * data.length := Nat.le_mul_of_pos_left _ hsdu
    omega

end Resource

namespace ResourceSender

variable {P} {i : Input} {s : ResourceSender}

theorem Input.working_cases (i : Input) : i.working = (i.uncompressed, false) ∨
    ∃ packed, i.compressor.compress i.uncompressed = some packed ∧
      i.uncompressed.length ≤ autoCompressMaxSize ∧ i.working = (packed, true) := by
  unfold Input.working
  split_ifs with hauto
  · cases hpacked : i.compressor.compress i.uncompressed with
    | none => exact .inl rfl
    | some packed =>
      dsimp only
      split_ifs
      · exact .inr ⟨packed, rfl, hauto.2, rfl⟩
      · exact .inl rfl
  · exact .inl rfl

theorem findRandom_eq {n attempts : ℕ} (h : i.findRandom P n attempts = some random) :
    ∃ k, random = (i.random k).toList := by
  induction attempts generalizing n with
  | zero => cases h
  | succ attempts ih =>
    rw [Input.findRandom] at h
    split_ifs at h
    · exact ih h
    · exact ⟨n, (Option.some.inj h).symm⟩

theorem eq_of_new (h : new P i = .ok s) : ∃ k, s = ofRandom P i (i.random k).toList := by
  unfold new at h
  split at h
  · next random hfound =>
    obtain ⟨k, rfl⟩ := findRandom_eq hfound
    exact ⟨k, (Except.ok.inj h).symm⟩
  · cases h

theorem hashed_ofRandom (hnodup : (ofRandom P i random).partHashes.Nodup) :
    (ofRandom P i random).Hashed P :=
  ⟨rfl, hnodup⟩

/-- A sender that nothing was requested from yet: its hashmap is that of its parts, and its sizes fit
their fields. -/
structure Advertisable (s : ResourceSender) : Prop where
  hashmap : s.hashmap = buildHashmap s.partHashes
  length_partHashes : s.partHashes.length = s.totalParts
  totalParts : s.totalParts < 2 ^ 64
  randomHash : s.randomHash.length = 4
  requestId : ∀ id, s.requestId = some id → id.length < 2 ^ 32
  minHeight : s.receiverMinConsecutiveHeight = 0

theorem advertisable_ofRandom {k : ℕ} (hsdu : 0 < i.sdu)
    (hsize : (ofRandom P i (i.random k).toList).transferSize ≤ autoCompressMaxSize)
    (hrequestId : ∀ id, i.requestId = some id → id.length < 2 ^ 32) :
    (ofRandom P i (i.random k).toList).Advertisable where
  hashmap := rfl
  length_partHashes := length_map ..
  totalParts := by
    have hparts := length_splitIntoParts i.encrypted hsdu
    have hbound : autoCompressMaxSize < 2 ^ 64 := by decide
    exact (hparts.trans hsize).trans_lt hbound
  randomHash := by simp [ofRandom]
  requestId := hrequestId
  minHeight := rfl

theorem Advertisable.fits (h : s.Advertisable) : s.advertisement.Fits where
  resourceHash := by simp [advertisement]
  randomHash := by simp [advertisement, h.randomHash]
  originalHash := by simp [advertisement]
  requestId := h.requestId

end ResourceSender

namespace ResourceReceiver

variable {s : ResourceSender} {r : ResourceReceiver}

variable {sdu : ℕ} {linkRtt now : ℚ} {previousWindow : Option ℕ} {previousEifr : Option ℚ}

theorem eq_of_advertisement (hs : s.Advertisable)
    (h : fromAdvertisement (s.getAdvertisement 0) sdu linkRtt now previousWindow previousEifr = .ok r) :
    checkAdvertisement
        { s.advertisement with hashmap := buildHashmap (s.partHashes.take hashmapMaxLen) } sdu = none ∧
      r = ofAdvertisement
        { s.advertisement with hashmap := buildHashmap (s.partHashes.take hashmapMaxLen) }
        (s.getAdvertisement 0) sdu linkRtt now previousWindow previousEifr := by
  have hunpack : ResourceAdvertisement.unpack (s.getAdvertisement 0) =
      .ok { s.advertisement with hashmap := buildHashmap (s.partHashes.take hashmapMaxLen) } := by
    rw [← hashmapSegment_buildHashmap, ← hs.hashmap]
    exact ResourceAdvertisement.unpack_pack hs.fits 0
  rw [fromAdvertisement, hunpack] at h
  dsimp only at h
  split at h
  · cases h
  · next hcheck => exact ⟨hcheck, (Except.ok.inj h).symm⟩

theorem toNat_numParts (hs : s.Advertisable) : (UInt64.ofNat s.totalParts).toNat = s.totalParts := by
  rw [UInt64.toNat_ofNat']
  exact Nat.mod_eq_of_lt hs.totalParts

theorem follows_of_advertisement (hs : s.Advertisable)
    (h : fromAdvertisement (s.getAdvertisement 0) sdu linkRtt now previousWindow previousEifr = .ok r) :
    r.Follows s := by
  have hparts := toNat_numParts hs
  obtain ⟨-, rfl⟩ := eq_of_advertisement hs h
  constructor
  case hashmap =>
    intro i hash hi
    simp only [ofAdvertisement, initialHashmap, getElem?_map, Option.map_eq_some_iff,
      length_buildHashmap, length_take, Nat.mul_div_cancel _ (show 0 < 4 by decide)] at hi
    obtain ⟨j, hj, hhash⟩ := hi
    obtain ⟨_, hget⟩ := List.getElem?_eq_some_iff.1 hj
    rw [getElem_range] at hget
    subst hget
    split_ifs at hhash with hknown
    have hlt : i < s.partHashes.length := by omega
    have hpart : s.partHashes[i]? = some s.partHashes[i] := getElem?_eq_getElem hlt
    have hfirst : (s.partHashes.take hashmapMaxLen)[i]? = some s.partHashes[i] := by
      rw [getElem?_take_of_lt (by omega), hpart]
    rw [hpart, ← fixed_buildHashmap hfirst]
    exact hhash
  case parts =>
    intro i data hi
    simp [ofAdvertisement, getElem?_replicate] at hi
  case receivedCount => simp [ofAdvertisement, countP_replicate]
  all_goals simp [ofAdvertisement, ResourceSender.advertisement, initialHashmap, hparts]

/-! ## Assembly -/

theorem Follows.all_parts (h : r.Follows s) (hall : r.receivedCount = r.totalParts) :
    r.parts = s.parts.map some := by
  have hcount : r.parts.countP Option.isSome = r.parts.length := by
    rw [← h.receivedCount, hall, h.totalParts, h.length_parts]
  have hsome := countP_eq_length.1 hcount
  apply ext_getElem
  · rw [h.length_parts, length_map]
    rfl
  · intro i hi hi'
    obtain ⟨data, hdata⟩ := Option.isSome_iff_exists.1 (hsome r.parts[i] (getElem_mem hi))
    have hpart := h.parts i data (by rw [getElem?_eq_getElem hi, hdata])
    obtain ⟨hlt, hget⟩ := List.getElem?_eq_some_iff.1 hpart
    rw [hdata, getElem_map, hget]

variable {P} {i : ResourceSender.Input} {random : Bytes}

section

variable (h : r.Follows (ofRandom P i random))
include h

theorem recover_working (hcompressor : i.compressor.Inverts) :
    r.recover ((i.random 0).toList ++ i.working.1) i.compressor = .ok i.uncompressed := by
  have hrandom : (i.random 0).toList.length = 4 := by simp
  have hlen : ¬((i.random 0).toList ++ i.working.1).length < 4 := by
    rw [length_append, hrandom]
    omega
  have hflag : r.flags.compressed = i.working.2 := by
    rw [h.flags]
    rfl
  rw [recover, if_neg hlen, hflag, h.maxDecompressedSize, drop_left' hrandom]
  rcases i.working_cases with hworking | ⟨packed, hpacked, hbound, hworking⟩
  · rw [hworking]
    rfl
  · rw [hworking, if_pos rfl, hcompressor _ _ _ hpacked hbound]

theorem finish_uncompressed
    (hmetadata : ∀ metadata, i.metadata = some metadata → metadata.length < 2 ^ 24 ∧ i.segmentIndex = 1) :
    (r.finish P i.uncompressed).2 =
      [.sendProof (buildProofData (ofRandom P i random).resourceHash
          (ofRandom P i random).expectedProof),
        .dataReceived i.data i.metadata, .completed] := by
  have hhash : (computeResourceHash P i.uncompressed r.randomHash).toList = r.resourceHash := by
    rw [h.randomHash, h.resourceHash]
    rfl
  have hcontent : (if r.hasMetadata ∧ r.segmentIndex = 1 then
      (extractMetadata i.uncompressed).map fun content => (content.2, some content.1)
      else some (i.uncompressed, none)) = some (i.data, i.metadata) := by
    rw [h.hasMetadata, h.segmentIndex]
    cases hmeta : i.metadata with
    | none => simp [ofRandom, ResourceSender.Input.uncompressed, hmeta]
    | some metadata =>
      obtain ⟨hlen, hindex⟩ := hmetadata metadata hmeta
      simp [ofRandom, ResourceSender.Input.uncompressed, hmeta, hindex,
        extractMetadata_prependMetadata i.data hlen]
  rw [finish]
  dsimp only
  rw [if_neg (not_not.2 hhash), hcontent, h.randomHash]
  rfl

theorem assemble_of_follows (hall : r.receivedCount = r.totalParts) (hsdu : 0 < i.sdu)
    {decrypt : Bytes → Option Bytes} (hdecrypt : ∀ data, decrypt (i.encrypt data) = some data)
    (hcompressor : i.compressor.Inverts)
    (hmetadata : ∀ metadata, i.metadata = some metadata → metadata.length < 2 ^ 24 ∧ i.segmentIndex = 1) :
    (r.assemble P decrypt i.compressor).2 =
      [.sendProof (buildProofData (ofRandom P i random).resourceHash
          (ofRandom P i random).expectedProof),
        .dataReceived i.data i.metadata, .completed] := by
  have hparts : r.parts = i.parts.map some := h.all_parts hall
  have hnone : ¬(r.parts.any Option.isNone) := by simp [hparts]
  have hstream : (r.parts.filterMap id).flatten = i.encrypted := by
    rw [hparts, filterMap_map]
    simp only [Function.id_comp, filterMap_some]
    exact flatten_splitIntoParts i.encrypted hsdu
  have hencrypted : r.flags.encrypted = true := by
    rw [h.flags]
    rfl
  have hassembling : SameProgress r { r with status := .assembling } := by
    constructor <;> rfl
  have hsame := h.same hassembling
  rw [assemble, if_neg (not_not.2 hall), if_neg hnone]
  dsimp only
  rw [hencrypted, if_pos rfl, hstream, ResourceSender.Input.encrypted, hdecrypt]
  dsimp only
  rw [recover_working hsame hcompressor]
  exact finish_uncompressed hsame hmetadata

end

end ResourceReceiver

end Rns
