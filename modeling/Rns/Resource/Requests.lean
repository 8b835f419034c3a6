import Mathlib.Data.List.Sort
import Rns.Resource.Transfer

/-!
# Every request can be answered

The sender looks for requested parts in a window of its own, whose lower end moves when a request says
that the hashmap is exhausted.  The argument follows three numbers: the lower end `m` of the sender's
window, the first part `nextPart` the receiver lacks, and the number `hashmapHeight` of hashes it knows.
An exhausted hashmap ends at most a window behind the first missing part, so the new lower end stays
below everything requested later.
-/

namespace Rns

open Resource ResourceSender ResourceReceiver ResourceAction List

def ResourceSender.hashAt (s : ResourceSender) (i : ℕ) : MapHash :=
  s.partHashes.getD i (.replicate 4 0)

/-- What a request asks for, with the first missing part and the number of known hashes at the time it
was issued. -/
structure Asked where
  start : ℕ
  known : ℕ
  indices : List ℕ
  exhausted : Bool

def Asked.data (q : Asked) (s : ResourceSender) : Bytes :=
  (if q.exhausted then hashmapIsExhausted :: (s.hashAt (q.known - 1)).toList
    else [hashmapIsNotExhausted]) ++ s.resourceHash.toList ++ buildHashmap (q.indices.map s.hashAt)

/-- It asks for parts with known hashes from the first missing one on.  An exhausted hashmap ends with
a segment, less than a window behind the first missing part. -/
structure Asked.Fair (q : Asked) (s : ResourceSender) : Prop where
  sorted : q.indices.Pairwise (· < ·)
  start_le : ∀ i ∈ q.indices, q.start ≤ i
  lt_known : ∀ i ∈ q.indices, i < q.known
  known_le : q.known ≤ s.totalParts
  known_pos : 0 < q.known
  exhausted : q.exhausted → q.known < q.start + windowMax ∧ hashmapMaxLen ∣ q.known

namespace ResourceReceiver

def nextPart (r : ResourceReceiver) : ℕ := (r.consecutiveCompletedHeight + 1).toNat

/-- What a receiver needs to make requests: it knows exactly the hashes below `hashmapHeight`, which
end with a segment, and its window is bounded. -/
structure Ready (r : ResourceReceiver) (s : ResourceSender) : Prop where
  follows : r.Follows s
  known : ∀ i < s.totalParts, (r.hashmap.getD i none).isSome ↔ i < r.hashmapHeight
  height_le : r.hashmapHeight ≤ s.totalParts
  height_pos : 0 < r.hashmapHeight
  height : r.hashmapHeight = s.totalParts ∨ hashmapMaxLen ∣ r.hashmapHeight
  window : r.window.Bounded

variable {r r' : ResourceReceiver} {s : ResourceSender}

theorem Ready.same (h : r.Ready s) (hsame : SameProgress r r') (hwindow : r'.window.Bounded) :
    r'.Ready s := by
  refine ⟨h.follows.same hsame, ?_, ?_, ?_, ?_, hwindow⟩
  · rw [hsame.hashmap, hsame.hashmapHeight]
    exact h.known
  · rw [hsame.hashmapHeight]
    exact h.height_le
  · rw [hsame.hashmapHeight]
    exact h.height_pos
  · rw [hsame.hashmapHeight]
    exact h.height

theorem SameProgress.nextPart (hsame : SameProgress r r') : r'.nextPart = r.nextPart := by
  rw [ResourceReceiver.nextPart, hsame.consecutiveCompletedHeight, ResourceReceiver.nextPart]

/-! ## What is requested -/

theorem Ready.hash_eq (h : r.Ready s) {i : ℕ} {hash : MapHash} (hhash : r.hashmap.getD i none = some hash) :
    hash = s.hashAt i ∧ i < r.hashmapHeight := by
  have hpart := h.follows.hashmap i hash (getElem?_of_getD_eq_some hhash)
  have hslot : i < r.hashmap.length := by
    obtain ⟨hlt, -⟩ := List.getElem?_eq_some_iff.1 (getElem?_of_getD_eq_some hhash)
    exact hlt
  refine ⟨by simp [hashAt, hpart], ?_⟩
  rw [h.follows.length_hashmap] at hslot
  exact (h.known i hslot).1 (by rw [hhash]; rfl)

/-- The loop of `request_next` picks some of the parts, all with known hashes; it ends at a part
behind all known hashes if the hashmap is exhausted. -/
theorem Ready.wanted (h : r.Ready s) (count : ℕ) {range : List ℕ} (hrange : ∀ i ∈ range, i < s.totalParts) :
    ∃ indices : List ℕ, indices.Sublist range ∧ (r.wanted count range).1 = indices.map s.hashAt ∧
      (∀ i ∈ indices, i < r.hashmapHeight) ∧
      ((r.wanted count range).2 → ∃ i ∈ range, r.hashmapHeight ≤ i) := by
  induction range generalizing count with
  | nil => exact ⟨[], .slnil, rfl, by simp, by simp [ResourceReceiver.wanted]⟩
  | cons pn rest ih =>
    have hrest : ∀ i ∈ rest, i < s.totalParts := fun i hi => hrange i (mem_cons_of_mem _ hi)
    rw [ResourceReceiver.wanted]
    by_cases hmissing : r.missing pn
    · rw [if_pos hmissing]
      cases hhash : r.hashmap.getD pn none with
      | none =>
        refine ⟨[], nil_sublist _, rfl, by simp, fun _ => ⟨pn, by simp, ?_⟩⟩
        have hunknown := (h.known pn (hrange pn (by simp))).not
        rw [hhash] at hunknown
        exact not_lt.1 (hunknown.1 (by simp))
      | some hash =>
        obtain ⟨rfl, hlt⟩ := h.hash_eq hhash
        dsimp only
        split_ifs with hfull
        · exact ⟨[pn], by simp, rfl, by simpa using hlt, by simp⟩
        · obtain ⟨indices, hsub, hhashes, hknown, hexhausted⟩ := ih (count + 1) hrest
          refine ⟨pn :: indices, hsub.cons_cons pn, by simp [hhashes], by simpa using ⟨hlt, hknown⟩, ?_⟩
          intro hend
          obtain ⟨i, hi, hle⟩ := hexhausted hend
          exact ⟨i, mem_cons_of_mem _ hi, hle⟩
    · rw [if_neg hmissing]
      split_ifs with hcount
      · exact ⟨[], nil_sublist _, rfl, by simp, by simp⟩
      · obtain ⟨indices, hsub, hhashes, hknown, hexhausted⟩ := ih count hrest
        refine ⟨indices, hsub.cons pn, hhashes, hknown, fun hend => ?_⟩
        obtain ⟨i, hi, hle⟩ := hexhausted hend
        exact ⟨i, mem_cons_of_mem _ hi, hle⟩

theorem Ready.lastMapHash (h : r.Ready s) : r.lastMapHash = s.hashAt (r.hashmapHeight - 1) := by
  have hpos := h.height_pos
  have hle := h.height_le
  have hknown := (h.known (r.hashmapHeight - 1) (by omega)).2 (by omega)
  obtain ⟨hash, hhash⟩ := Option.isSome_iff_exists.1 hknown
  rw [ResourceReceiver.lastMapHash, if_pos hpos, hhash, (h.hash_eq hhash).1]
  rfl

theorem Ready.requestNext (h : r.Ready s) (now : ℚ) : (r.requestNext now).2 = [] ∨
    ∃ q : Asked, q.Fair s ∧ q.start = r.nextPart ∧ q.known = r.hashmapHeight ∧
      (r.requestNext now).2 = [.sendRequest (q.data s)] := by
  unfold ResourceReceiver.requestNext
  split_ifs with hidle
  · exact .inl rfl
  · have hrange : ∀ i ∈ r.requestRange, r.nextPart ≤ i ∧ i < r.nextPart + windowMax ∧
        i < s.totalParts := by
      intro i hi
      have hbound := h.window.window
      have htotal := h.follows.totalParts
      simp only [requestRange, mem_range'_1] at hi
      rw [nextPart]
      omega
    obtain ⟨indices, hsub, hhashes, hknown, hexhausted⟩ := h.wanted 0 fun i hi => (hrange i hi).2.2
    refine .inr ⟨⟨r.nextPart, r.hashmapHeight, indices, (r.wanted 0 r.requestRange).2⟩, ?_, rfl, rfl, ?_⟩
    · refine ⟨(pairwise_lt_range' ..).sublist hsub, fun i hi => (hrange i (hsub.subset hi)).1,
        hknown, h.height_le, h.height_pos, fun hend => ?_⟩
      obtain ⟨i, hi, hle⟩ := hexhausted hend
      have hin := hrange i hi
      refine ⟨hle.trans_lt hin.2.1, h.height.resolve_left ?_⟩
      omega
    · simp only [requestData, Asked.data, hhashes, h.lastMapHash, h.follows.resourceHash]

/-! ## The steps of the receiver -/

/-- The receiver goes on from `r`: what it has only grows, and it issues one request at most, for the
state it is in then. -/
structure GoesOn (s : ResourceSender) (r : ResourceReceiver)
    (out : ResourceReceiver × List ResourceAction) : Prop where
  ready : out.1.Ready s
  nextPart : r.nextPart ≤ out.1.nextPart
  height : r.hashmapHeight ≤ out.1.hashmapHeight
  requests : out.2.filterMap request? = [] ∨
    ∃ q : Asked, q.Fair s ∧ q.start = out.1.nextPart ∧ q.known = out.1.hashmapHeight ∧
      out.2.filterMap request? = [q.data s]

theorem GoesOn.of_same (h : r.Ready s) (hsame : SameProgress r r') (hwindow : r'.window.Bounded)
    {actions : List ResourceAction} (hnone : actions.filterMap request? = []) :
    GoesOn s r (r', actions) :=
  ⟨h.same hsame hwindow, hsame.nextPart.ge, hsame.hashmapHeight.ge, .inl hnone⟩

theorem GoesOn.requestNext (h : r'.Ready s) (hnext : r.nextPart ≤ r'.nextPart)
    (hheight : r.hashmapHeight ≤ r'.hashmapHeight) {actions : List ResourceAction}
    (hnone : actions.filterMap request? = []) (now : ℚ) :
    GoesOn s r ((r'.requestNext now).1, actions ++ (r'.requestNext now).2) := by
  have hsame := sameProgress_requestNext r' now
  have hwindow : (r'.requestNext now).1.window = r'.window := by
    unfold ResourceReceiver.requestNext
    split_ifs <;> rfl
  refine ⟨h.same hsame (hwindow ▸ h.window), hnext.trans hsame.nextPart.ge,
    hheight.trans hsame.hashmapHeight.ge, ?_⟩
  rw [filterMap_append, hnone, nil_append, hsame.nextPart, hsame.hashmapHeight]
  rcases h.requestNext now with hquiet | ⟨q, hfair, hstart, hknown, hdata⟩
  · exact .inl (by rw [hquiet]; rfl)
  · exact .inr ⟨q, hfair, hstart, hknown, by rw [hdata]; rfl⟩

theorem GoesOn.requestNext_of_same (h : r.Ready s) (hsame : SameProgress r r')
    (hwindow : r'.window.Bounded) (now : ℚ) : GoesOn s r (r'.requestNext now) :=
  GoesOn.requestNext (h.same hsame hwindow) hsame.nextPart.ge hsame.hashmapHeight.ge
    (filterMap_nil) now

theorem GoesOn.accept (h : r.Ready s) (now : ℚ) : GoesOn s r (r.accept now) := by
  have hsame : SameProgress r { r with status := .transferring, lastActivity := now } := by
    constructor <;> rfl
  exact .requestNext_of_same h hsame h.window now

variable (P : Primitives)

variable (decrypt : Bytes → Option Bytes) (compressor : Compressor)

theorem window_assemble : (r.assemble P decrypt compressor).1.window = r.window := by
  unfold assemble finish corruptActions
  dsimp only
  repeat' split
  all_goals rfl

theorem request?_assemble : (r.assemble P decrypt compressor).2.filterMap request? = [] := by
  unfold assemble finish corruptActions
  dsimp only
  repeat' split
  all_goals rfl

theorem GoesOn.tick (h : r.Ready s) (now : ℚ) (decrypt : Bytes → Option Bytes)
    (compressor : Compressor) : GoesOn s r (r.tick P now decrypt compressor) := by
  unfold ResourceReceiver.tick
  dsimp only
  split_ifs
  · exact .of_same h (.refl r) h.window rfl
  · exact .of_same h (sameProgress_assemble ..)
      (by rw [window_assemble]; exact h.window) (request?_assemble ..)
  · have hsame : SameProgress r { r with
        eifr := some r.computeEifr
        window := r.window.onTimeout
        retriesLeft := r.retriesLeft - 1
        waitingForHmu := false } := by
      constructor <;> rfl
    exact .requestNext_of_same h hsame h.window.onTimeout now
  · refine .of_same h ?_ ?_ ?_
    · constructor <;> rfl
    · exact h.window
    · rfl
  · refine .of_same h ?_ ?_ ?_
    · constructor <;> rfl
    · exact h.window
    · rfl

variable {P}

theorem bounded_notePart (h : r.window.Bounded) (partLen : ℕ) (now : ℚ) :
    (r.notePart partLen now).window.Bounded := by
  unfold notePart measureRtt
  dsimp only
  split_ifs
  · exact h
  · exact h.updateReqRespRate _
  · exact h

theorem bounded_completeWindow (h : r.window.Bounded) (now : ℚ) :
    (r.completeWindow now).window.Bounded := by
  unfold completeWindow
  dsimp only
  split_ifs
  · exact h.onWindowComplete.updateDataRate _
  · exact h.onWindowComplete

theorem nextPart_storePart (i : ℕ) (data : Bytes) : r.nextPart ≤ (r.storePart i data).nextPart := by
  unfold nextPart storePart walk
  dsimp only
  split_ifs <;> omega

theorem Ready.placePart (h : r.Ready s) (hs : s.Hashed P) {j : ℕ} {data : Bytes}
    (hpart : s.parts[j]? = some data) :
    (r.placePart P data).1.Ready s ∧ r.nextPart ≤ (r.placePart P data).1.nextPart ∧
      (r.placePart P data).1.hashmapHeight = r.hashmapHeight := by
  have hfollows := h.follows.placePart hs hpart
  rcases placePart_cases .. with hkept | ⟨i, hstored⟩
  · rw [hkept]
    exact ⟨h, le_rfl, rfl⟩
  · rw [hstored] at hfollows ⊢
    exact ⟨{ h with follows := hfollows }, nextPart_storePart i data, rfl⟩

theorem GoesOn.afterPart (h : r'.Ready s) (hnext : r.nextPart ≤ r'.nextPart)
    (hheight : r'.hashmapHeight = r.hashmapHeight) (matched : Bool) (now : ℚ) :
    GoesOn s r (r'.afterPart matched now) := by
  have hquiet : ∀ actions : List ResourceAction, actions.filterMap request? = [] →
      GoesOn s r (r', actions) :=
    fun actions hnone => ⟨h, hnext, hheight.ge, .inl hnone⟩
  have hprogress : (if matched then [progressUpdate r'.receivedCount r'.totalParts]
      else []).filterMap request? = [] := by
    split_ifs <;> rfl
  unfold ResourceReceiver.afterPart
  dsimp only
  split
  · exact hquiet _ rfl
  · split
    · have hsame := sameProgress_completeWindow r' now
      exact .requestNext (h.same hsame (bounded_completeWindow h.window now))
        (hnext.trans hsame.nextPart.ge) (hheight.ge.trans hsame.hashmapHeight.ge) hprogress now
    · exact hquiet _ hprogress

theorem GoesOn.receivePart (h : r.Ready s) (hs : s.Hashed P) {j : ℕ} {data : Bytes}
    (hpart : s.parts[j]? = some data) (now : ℚ) : GoesOn s r (r.receivePart P data now) := by
  unfold ResourceReceiver.receivePart
  split_ifs with hfailed
  · exact .of_same h (.refl r) h.window rfl
  · have hsame := sameProgress_notePart r data.length now
    have hnoted := h.same hsame (bounded_notePart h.window ..)
    obtain ⟨hready, hnext, hheight⟩ := hnoted.placePart hs hpart
    exact .afterPart hready (hsame.nextPart.ge.trans hnext) (hheight.trans hsame.hashmapHeight) _ now

theorem hashmapHeight_receivePart (data : Bytes) (now : ℚ) :
    (r.receivePart P data now).1.hashmapHeight = r.hashmapHeight := by
  unfold receivePart
  split_ifs
  · rfl
  · have hnoted := sameProgress_notePart r data.length now
    dsimp only
    rw [(sameProgress_afterPart _ _ now).hashmapHeight, ← hnoted.hashmapHeight]
    rcases placePart_cases .. with hkept | ⟨i, hstored⟩
    · rw [hkept]
    · rw [hstored]
      rfl

/-! ## More of the hashmap -/

section

variable (h : r.Ready s) (hs : s.Hashed P) (htotal : s.totalParts < 2 ^ 64) {segment : ℕ}
include h hs htotal

theorem Ready.known_fillHashmap (hsegment : segment * hashmapMaxLen ≤ r.hashmapHeight) :
    (r.fillHashmap segment (s.segmentHashes segment)).Known ∧
      (r.fillHashmap segment (s.segmentHashes segment)).hashmapHeight =
        max r.hashmapHeight (min ((segment + 1) * hashmapMaxLen) s.totalParts) := by
  have hle := h.height_le
  have hparts := h.follows.totalParts
  have hknown : r.Known := ⟨hparts ▸ htotal, hparts ▸ h.follows.length_hashmap, hparts ▸ hle,
    hparts ▸ h.known⟩
  have hmod : segment * hashmapMaxLen % 2 ^ 64 = segment * hashmapMaxLen :=
    Nat.mod_eq_of_lt (by omega)
  obtain ⟨hfilled, hheight⟩ := hknown.fillHashmap (hmod.trans_le hsegment) (s.segmentHashes segment)
  refine ⟨hfilled, hheight.trans ?_⟩
  rw [hmod, length_segmentHashes, hs.length_partHashes, hparts]
  have hsucc : (segment + 1) * hashmapMaxLen = segment * hashmapMaxLen + hashmapMaxLen := by ring
  omega

theorem Ready.fillHashmap (hsegment : segment * hashmapMaxLen ≤ r.hashmapHeight) :
    (r.fillHashmap segment (s.segmentHashes segment)).Ready s := by
  obtain ⟨hknown, hheight⟩ := h.known_fillHashmap hs htotal hsegment
  have hfollows := h.follows.fillHashmap (hs.length_partHashes ▸ htotal) segment
  have hparts := hfollows.totalParts
  have hle := h.height_le
  have hpos := h.height_pos
  obtain ⟨_, _, heq⟩ := fillHashmap_eq r segment (s.segmentHashes segment)
  refine ⟨hfollows, hparts ▸ hknown.known, hparts ▸ hknown.height_le, by omega, ?_, ?_⟩
  · rw [hheight]
    rcases h.height with hall | hdvd
    · exact .inl (by omega)
    · rcases Nat.le_total ((segment + 1) * hashmapMaxLen) r.hashmapHeight with hold | hnew
      · rw [Nat.max_eq_left (by omega)]
        exact .inr hdvd
      · rw [Nat.max_eq_right (by omega)]
        rcases Nat.le_total ((segment + 1) * hashmapMaxLen) s.totalParts with hin | hin
        · exact .inr ⟨segment + 1, by rw [Nat.min_eq_left hin, Nat.mul_comm]⟩
        · exact .inl (Nat.min_eq_right hin)
  · rw [heq]
    exact h.window

theorem GoesOn.handleHashmapUpdate (hsegment : segment * hashmapMaxLen ≤ r.hashmapHeight)
    (now : ℚ) :
    GoesOn s r (r.handleHashmapUpdate (s.hmu segment) now) ∧
      (r.handleHashmapUpdate (s.hmu segment) now).1.hashmapHeight ≤
        max r.hashmapHeight ((segment + 1) * hashmapMaxLen) := by
  have hready := h.same (sameProgress_touch r now) h.window
  have hfilled := hready.fillHashmap hs htotal hsegment
  have hheight := (hready.known_fillHashmap hs htotal hsegment).2
  have hlt : segment < 2 ^ 64 := by
    have hle := h.height_le
    simp only [hashmapMaxLen] at hsegment
    omega
  unfold ResourceReceiver.handleHashmapUpdate
  rw [parseHmu_hmu s hlt]
  split_ifs with hfailed
  · exact ⟨.of_same h (.refl r) h.window rfl, le_max_left _ _⟩
  · have hresumed : SameProgress ((r.touch now).fillHashmap segment (s.segmentHashes segment))
        { (r.touch now).fillHashmap segment (s.segmentHashes segment) with waitingForHmu := false } := by
      constructor <;> rfl
    have hnext : r.nextPart ≤
        ((r.touch now).fillHashmap segment (s.segmentHashes segment)).nextPart := by
      obtain ⟨_, _, heq⟩ := fillHashmap_eq (r.touch now) segment (s.segmentHashes segment)
      rw [heq]
      rfl
    refine ⟨.requestNext (hfilled.same hresumed hfilled.window) (hnext.trans hresumed.nextPart.ge) ?_
      filterMap_nil now, ?_⟩
    · rw [hresumed.hashmapHeight, hheight]
      exact le_max_left _ _
    · rw [(sameProgress_requestNext _ now).hashmapHeight, hresumed.hashmapHeight, hheight]
      exact max_le_max le_rfl (min_le_left _ _)

end

end ResourceReceiver

/-! ## The answer of the sender -/

namespace Asked

variable (q : Asked) (s : ResourceSender)

theorem head?_data : (q.data s).head? =
    some (if q.exhausted then hashmapIsExhausted else hashmapIsNotExhausted) := by
  cases hq : q.exhausted <;> simp [data, hq]

theorem requestPad_data : requestPad (q.data s) = if q.exhausted then 5 else 1 := by
  rw [requestPad, head?_data]
  cases q.exhausted <;> simp [hashmapIsExhausted, hashmapIsNotExhausted]

theorem requestedHashes_data : requestedHashes (q.data s) = q.indices.map s.hashAt := by
  rw [requestedHashes, requestPad_data, data]
  rw [drop_left' (by cases q.exhausted <;> simp), mapHashes_buildHashmap]

theorem length_data : ¬(q.data s).length < requestPad (q.data s) + 32 := by
  rw [requestPad_data]
  cases hq : q.exhausted
  · simp [data, hq]
  · simp [data, hq]
    omega

theorem fixed_data (h : q.exhausted) : Bytes.fixed 4 (q.data s) 1 = s.hashAt (q.known - 1) := by
  have hsplit : q.data s = [hashmapIsExhausted] ++ (s.hashAt (q.known - 1)).toList ++
      (s.resourceHash.toList ++ buildHashmap (q.indices.map s.hashAt)) := by
    simp [data, h]
  rw [hsplit]
  exact Bytes.fixed_append [hashmapIsExhausted] _ _

end Asked

namespace ResourceSender

variable {P : Primitives} {s s' : ResourceSender}

theorem SameResource.hashAt (h : SameResource s s') : s'.hashAt = s.hashAt := by
  funext i
  rw [ResourceSender.hashAt, h.partHashes, ResourceSender.hashAt]

theorem SameResource.data (h : SameResource s s') (q : Asked) : q.data s' = q.data s := by
  simp only [Asked.data, h.resourceHash, h.hashAt]

section

variable (h : s.Hashed P)
include h

theorem Hashed.same (hsame : SameResource s s') : s'.Hashed P := by
  refine ⟨?_, ?_⟩
  · rw [hsame.partHashes, hsame.parts, hsame.randomHash, h.partHashes]
  · rw [hsame.partHashes]
    exact h.nodup

theorem Hashed.getElem?_partHashes {i : ℕ} (hi : i < s.totalParts) :
    s.partHashes[i]? = some (s.hashAt i) := by
  have hlt : i < s.partHashes.length := by
    rw [h.partHashes, length_map]
    exact hi
  rw [hashAt, getD_eq_getElem?_getD, getElem?_eq_getElem hlt]
  rfl

theorem Hashed.hashAt_inj {i j : ℕ} (hi : i < s.totalParts) (hj : j < s.totalParts)
    (heq : s.hashAt i = s.hashAt j) : i = j := by
  obtain ⟨hi', hget⟩ := List.getElem?_eq_some_iff.1 (h.getElem?_partHashes hi)
  obtain ⟨hj', hget'⟩ := List.getElem?_eq_some_iff.1 (h.getElem?_partHashes hj)
  exact h.nodup.getElem_inj_iff.1 (by rw [hget, hget', heq])

theorem Hashed.partIndexAfter {i : ℕ} (hi : i ∈ s.searchWindow) :
    s.partIndexAfter (s.hashAt i) = i + 1 := by
  have hlt := (mem_searchWindow.1 hi).2.2
  have hmatch : ∀ j ∈ s.searchWindow, s.partHashes[j]? = some (s.hashAt i) → j = i := by
    intro j hj heq
    have hj' := (mem_searchWindow.1 hj).2.2
    rw [h.getElem?_partHashes hj'] at heq
    exact h.hashAt_inj hj' hlt (Option.some.inj heq)
  unfold ResourceSender.partIndexAfter
  split
  · next j hfound =>
    have hown := find?_some hfound
    rw [hmatch j (mem_of_find?_eq_some hfound) (of_decide_eq_true hown)]
  · next hnone =>
    have hother := find?_eq_none.1 hnone i hi
    exact absurd (decide_eq_true (h.getElem?_partHashes hlt)) hother

theorem Hashed.requestedParts {indices : List ℕ} (hsorted : indices.Pairwise (· < ·))
    (hin : ∀ i ∈ indices, i ∈ s.searchWindow) :
    s.requestedParts (indices.map s.hashAt) = indices := by
  refine Pairwise.eq_of_mem_iff ((pairwise_lt_range' ..).filter _) hsorted fun i => ?_
  rw [ResourceSender.requestedParts, mem_filter]
  constructor
  · rintro ⟨hi, hrequested⟩
    have hlt := (mem_searchWindow.1 hi).2.2
    rw [h.getElem?_partHashes hlt, Option.any_some, contains_iff_mem, mem_map] at hrequested
    obtain ⟨j, hj, heq⟩ := hrequested
    rw [← h.hashAt_inj (mem_searchWindow.1 (hin j hj)).2.2 hlt heq]
    exact hj
  · intro hi
    have hlt := (mem_searchWindow.1 (hin i hi)).2.2
    refine ⟨hin i hi, ?_⟩
    rw [h.getElem?_partHashes hlt, Option.any_some, contains_iff_mem]
    exact mem_map_of_mem hi

end

theorem part?_handleRequest (hstatus : s.status ≠ .failed) {data : Bytes}
    (hlen : ¬data.length < requestPad data + 32) (now : ℚ) :
    (s.handleRequest data now).2.filterMap part? =
      (s.requestedParts (requestedHashes data)).filterMap (s.parts[·]?) := by
  rw [handleRequest, if_neg hstatus, if_neg hlen]
  simp only [answerRequest, filterMap_append, sendParts, filterMap_filterMap]
  have hnone : ∀ hmu : Option Bytes, (hmu.toList.map sendHmu).filterMap part? = [] := by
    intro hmu
    cases hmu <;> rfl
  have hsome : ∀ i : ℕ, (((s.noteRequest now).parts[i]?).map sendPart).bind
      part? = s.parts[i]? := by
    intro i
    show (s.parts[i]?.map sendPart).bind part? = s.parts[i]?
    cases s.parts[i]? <;> rfl
  rw [hnone, append_nil]
  simp only [hsome]
  rfl

end ResourceSender

/-! ## The invariant -/

namespace Transfer

def Behind (minHeight start known : ℕ) : Prop :=
  minHeight ≤ start ∧ (minHeight = 0 ∨ minHeight + windowMax < known)

/-- The requests on their way are in the order of what their receiver had, and the window of the
sender is ahead of none of them.  The receiver knows at most two segments more than the lower end. -/
structure Answerable (s : ResourceSender) (asked : List Asked) (t : Transfer) : Prop where
  sender : s.SameResource t.sender
  receiver : t.receiver.Ready s
  requests : t.requests = asked.map fun q => q.data s
  fair : ∀ q ∈ asked, q.Fair s
  ordered : asked.Pairwise fun q q' => q.start ≤ q'.start ∧ q.known ≤ q'.known
  issued : ∀ q ∈ asked, q.start ≤ t.receiver.nextPart ∧ q.known ≤ t.receiver.hashmapHeight
  behind : ∀ q ∈ asked, Behind t.sender.receiverMinConsecutiveHeight q.start q.known
  behind_receiver : Behind t.sender.receiverMinConsecutiveHeight t.receiver.nextPart
    t.receiver.hashmapHeight
  height : t.receiver.hashmapHeight ≤ t.sender.receiverMinConsecutiveHeight + 2 * windowMax
  hmus : ∀ hmu ∈ t.hmus, ∃ segment, hmu = s.hmu segment ∧
    segment * hashmapMaxLen ≤ t.receiver.hashmapHeight ∧
    (segment + 1) * hashmapMaxLen ≤ t.sender.receiverMinConsecutiveHeight + 2 * windowMax

theorem Behind.mono {minHeight start start' known known' : ℕ} (h : Behind minHeight start known)
    (hstart : start ≤ start') (hknown : known ≤ known') : Behind minHeight start' known' := by
  unfold Behind at h ⊢
  omega

variable {P : Primitives} {s : ResourceSender} {asked : List Asked} {t : Transfer}

theorem Answerable.received (h : t.Answerable s asked) {out : ResourceReceiver × List ResourceAction}
    (hout : GoesOn s t.receiver out)
    (hheight : out.1.hashmapHeight ≤ t.sender.receiverMinConsecutiveHeight + 2 * windowMax) :
    ∃ asked', (t.received out).1.Answerable s asked' := by
  have hissued : ∀ q ∈ asked, q.start ≤ out.1.nextPart ∧ q.known ≤ out.1.hashmapHeight := by
    intro q hq
    exact ⟨(h.issued q hq).1.trans hout.nextPart, (h.issued q hq).2.trans hout.height⟩
  have hbehind : Behind t.sender.receiverMinConsecutiveHeight out.1.nextPart out.1.hashmapHeight :=
    h.behind_receiver.mono hout.nextPart hout.height
  have hhmus : ∀ hmu ∈ t.hmus, ∃ segment, hmu = s.hmu segment ∧
      segment * hashmapMaxLen ≤ out.1.hashmapHeight ∧
      (segment + 1) * hashmapMaxLen ≤ t.sender.receiverMinConsecutiveHeight + 2 * windowMax := by
    intro hmu hmem
    obtain ⟨segment, heq, hstart, hstop⟩ := h.hmus hmu hmem
    exact ⟨segment, heq, hstart.trans hout.height, hstop⟩
  rcases hout.requests with hnone | ⟨q, hfair, hstart, hknown, hdata⟩
  · refine ⟨asked, { h with
      receiver := hout.ready
      requests := ?_
      issued := hissued
      behind_receiver := hbehind
      height := hheight
      hmus := hhmus }⟩
    simp [Transfer.received, hnone, h.requests]
  · refine ⟨asked ++ [q], { h with
      receiver := hout.ready
      requests := ?_
      fair := ?_
      ordered := ?_
      issued := ?_
      behind := ?_
      behind_receiver := hbehind
      height := hheight
      hmus := hhmus }⟩
    · simp [Transfer.received, hdata, h.requests]
    · intro q' hq'
      rcases mem_append.1 hq' with hold | hnew
      · exact h.fair q' hold
      · rw [mem_singleton.1 hnew]
        exact hfair
    · refine pairwise_append.2 ⟨h.ordered, pairwise_singleton .., fun q' hq' q'' hq'' => ?_⟩
      rw [mem_singleton.1 hq'', hstart, hknown]
      exact hissued q' hq'
    · intro q' hq'
      rcases mem_append.1 hq' with hold | hnew
      · exact hissued q' hold
      · rw [mem_singleton.1 hnew]
        exact ⟨hstart.le, hknown.le⟩
    · intro q' hq'
      rcases mem_append.1 hq' with hold | hnew
      · exact h.behind q' hold
      · rw [mem_singleton.1 hnew, hstart, hknown]
        exact hbehind

theorem Answerable.lose (h : t.Answerable s asked) (lost : ℕ) :
    ({ t with requests := t.requests.drop lost } : Transfer).Answerable s (asked.drop lost) where
  sender := h.sender
  receiver := h.receiver
  requests := by rw [h.requests, map_drop]
  fair q hq := h.fair q (mem_of_mem_drop hq)
  ordered := h.ordered.drop
  issued q hq := h.issued q (mem_of_mem_drop hq)
  behind q hq := h.behind q (mem_of_mem_drop hq)
  behind_receiver := h.behind_receiver
  height := h.height
  hmus := h.hmus

theorem Answerable.next (h : t.Answerable s asked) {lost : ℕ} {data : Bytes} {rest : List Bytes}
    (hnext : t.requests.drop lost = data :: rest) :
    ∃ (q : Asked) (asked' : List Asked), q.data s = data ∧ (asked'.map fun q => q.data s) = rest ∧
      ({ t with requests := t.requests.drop lost } : Transfer).Answerable s (q :: asked') := by
  have hlost := h.lose lost
  have hmap : (asked.drop lost).map (fun q => q.data s) = data :: rest := by
    rw [← hnext]
    exact hlost.requests.symm
  obtain ⟨q, asked', hdrop, hdata, hrest⟩ := map_eq_cons_iff.1 hmap
  exact ⟨q, asked', hdata, hrest, hdrop ▸ hlost⟩

variable {q : Asked}

section

variable (h : t.Answerable s (q :: asked))
include h

theorem Answerable.in_window :
    (∀ i ∈ q.indices, i ∈ t.sender.searchWindow) ∧
      (q.exhausted → q.known - 1 ∈ t.sender.searchWindow) := by
  have hfair := h.fair q (by simp)
  have hissued := h.issued q (by simp)
  have hbehind := h.behind q (by simp)
  have hheight := h.height
  have htotal : t.sender.totalParts = s.totalParts := congrArg length h.sender.parts
  have hpos := hfair.known_pos
  have hle := hfair.known_le
  unfold Behind at hbehind
  simp only [mem_searchWindow, htotal, collisionGuardSize, windowMax, hashmapMaxLen]
    at hbehind hheight ⊢
  refine ⟨fun i hi => ?_, fun _ => ?_⟩
  · have hstart := hfair.start_le i hi
    have hknown := hfair.lt_known i hi
    omega
  · omega

/-- A request that is handled moves the window up, but not past what is requested later, and brings
at most the segment behind the known hashes. -/
theorem Answerable.move (hs : s.Hashed P) (now : ℚ) :
    let out := t.sender.handleRequest (q.data s) now
    t.sender.receiverMinConsecutiveHeight ≤ out.1.receiverMinConsecutiveHeight ∧
      (∀ start known, q.start ≤ start → q.known ≤ known →
        Behind t.sender.receiverMinConsecutiveHeight start known →
        Behind out.1.receiverMinConsecutiveHeight start known) ∧
      ∀ hmu, .sendHmu hmu ∈ out.2 → ∃ segment, hmu = s.hmu segment ∧
        segment * hashmapMaxLen ≤ q.known ∧
        (segment + 1) * hashmapMaxLen ≤ out.1.receiverMinConsecutiveHeight + 2 * windowMax := by
  have hdata := h.sender.data q
  rcases handleRequest_cases .. with
    ⟨hsame, hnone⟩ | ⟨hhead, hmin, hsegment⟩
  · refine ⟨hsame.ge, fun start known _ _ hold => ?_, fun hmu hmem => absurd hmem (hnone hmu)⟩
    rwa [hsame]
  · have hexhausted : q.exhausted := by
      rw [Asked.head?_data] at hhead
      by_contra hq
      simp [hq, hashmapIsExhausted, hashmapIsNotExhausted] at hhead
    have hfair := h.fair q (by simp)
    have hbehind := h.behind q (by simp)
    have hpos := hfair.known_pos
    have hclose := (hfair.exhausted hexhausted).1
    have hindex : t.sender.partIndexAfter (Bytes.fixed 4 (q.data s) 1) = q.known := by
      rw [← hdata, Asked.fixed_data q t.sender hexhausted,
        (hs.same h.sender).partIndexAfter (h.in_window.2 hexhausted)]
      omega
    rw [hindex] at hmin hsegment
    have hheight : minHeightAfter q.known = q.known - (windowMax + 1) := by
      unfold minHeightAfter
      split_ifs <;> omega
    dsimp only
    rw [hmin, hheight]
    unfold Behind at hbehind ⊢
    simp only [windowMax] at hbehind hclose ⊢
    refine ⟨by omega, fun start known hstart hknown _ => by omega, fun hmu hmem => ?_⟩
    obtain ⟨segment, hend, rfl⟩ := hsegment hmu hmem
    refine ⟨segment, h.sender.hmu segment, hend.le, ?_⟩
    rw [Nat.add_mul, hend]
    simp only [hashmapMaxLen]
    omega

theorem Answerable.answer (hs : s.Hashed P) (now : ℚ) :
    (({ t with requests := asked.map fun q => q.data s } : Transfer).sent
      (t.sender.handleRequest (q.data s) now)).1.Answerable s asked := by
  obtain ⟨hmin, hbehind, hhmus⟩ := h.move hs now
  have hissued := h.issued q (by simp)
  have hlater : ∀ q' ∈ asked, q' ∈ q :: asked := fun q' hq' => mem_cons_of_mem _ hq'
  obtain ⟨hafter, hordered⟩ := pairwise_cons.1 h.ordered
  constructor
  case sender => exact h.sender.trans (sameResource_handleRequest t.sender (q.data s) now)
  case receiver => exact h.receiver
  case requests => rfl
  case fair => exact fun q' hq' => h.fair q' (hlater q' hq')
  case ordered => exact hordered
  case issued => exact fun q' hq' => h.issued q' (hlater q' hq')
  case behind =>
    exact fun q' hq' => hbehind _ _ (hafter q' hq').1 (hafter q' hq').2 (h.behind q' (hlater q' hq'))
  case behind_receiver => exact hbehind _ _ hissued.1 hissued.2 h.behind_receiver
  case height => exact h.height.trans (Nat.add_le_add_right hmin _)
  case hmus =>
    intro hmu hmem
    rcases mem_append.1 hmem with hold | hnew
    · obtain ⟨segment, heq, hstart, hstop⟩ := h.hmus hmu hold
      exact ⟨segment, heq, hstart, hstop.trans (Nat.add_le_add_right hmin _)⟩
    · obtain ⟨segment, heq, hstart, hstop⟩ := hhmus hmu (mem_filterMap_hmu?.1 hnew)
      exact ⟨segment, heq, hstart.trans hissued.2, hstop⟩

end

theorem Answerable.senderTick (h : t.Answerable s asked) (now : ℚ) :
    (t.sent (t.sender.tick now)).1.Answerable s asked := by
  have hmin := minHeight_tick t.sender now
  have hnone : (t.sender.tick now).2.filterMap hmu? = [] := by
    refine eq_nil_iff_forall_not_mem.2 fun hmu hmem => ?_
    exact sendHmu_notMem_tick t.sender now hmu (mem_filterMap_hmu?.1 hmem)
  refine { h with sender := ?_, behind := ?_, behind_receiver := ?_, height := ?_, hmus := ?_ }
  · exact h.sender.trans (sameResource_tick t.sender now)
  all_goals simp only [Transfer.sent, hmin, hnone, append_nil]
  · exact h.behind
  · exact h.behind_receiver
  · exact h.height
  · exact h.hmus

variable {decrypt : Bytes → Option Bytes} {compressor : Compressor}

theorem Answerable.step (h : t.Answerable s asked) (hs : s.Hashed P) (htotal : s.totalParts < 2 ^ 64)
    {e : TransferEvent} (he : ∀ data now, e ≠ .request data now) :
    ∃ asked', (t.step P decrypt compressor e).1.Answerable s asked' := by
  cases e with
  | accept now =>
    refine h.received (.accept h.receiver now) ?_
    rw [(sameProgress_accept ..).hashmapHeight]
    exact h.height
  | request data now => exact absurd rfl (he data now)
  | deliver lost now =>
    have hrest := h.lose lost
    unfold Transfer.step
    dsimp only
    split
    · next hnone => exact ⟨_, hnone ▸ hrest⟩
    · next data rest hnext =>
      obtain ⟨q, asked', rfl, rfl, hq⟩ := h.next hnext
      exact ⟨asked', hq.answer hs now⟩
  | part i now =>
    unfold Transfer.step
    dsimp only
    split
    · next part hpart =>
      rw [h.sender.parts] at hpart
      refine h.received (.receivePart h.receiver hs hpart now) ?_
      rw [hashmapHeight_receivePart]
      exact h.height
    · exact ⟨asked, h⟩
  | hmu i now =>
    unfold Transfer.step
    dsimp only
    split
    · next hmu hsent =>
      obtain ⟨segment, rfl, hstart, hstop⟩ := h.hmus hmu (mem_of_getElem? hsent)
      obtain ⟨hgoes, hheight⟩ := GoesOn.handleHashmapUpdate h.receiver hs htotal hstart now
      exact h.received hgoes (hheight.trans (max_le h.height hstop))
    · exact ⟨asked, h⟩
  | senderTick now => exact ⟨asked, h.senderTick now⟩
  | receiverTick now =>
    refine h.received (.tick P h.receiver now decrypt compressor) ?_
    rw [(sameProgress_tick ..).hashmapHeight]
    exact h.height

/-! ## Runs -/

section Start

variable {r : ResourceReceiver} {sdu : ℕ} {linkRtt now : ℚ} {previousWindow : Option ℕ}
  {previousEifr : Option ℚ}

theorem ready_of_advertisement (hs : s.Advertisable)
    (hwindow : ∀ window, previousWindow = some window → window ≤ windowMax)
    (h : fromAdvertisement (s.getAdvertisement 0) sdu linkRtt now previousWindow
      previousEifr = .ok r) : r.Ready s ∧ r.hashmapHeight ≤ hashmapMaxLen := by
  have hfollows := follows_of_advertisement hs h
  have hparts := toNat_numParts hs
  obtain ⟨hcheck, rfl⟩ := eq_of_advertisement hs h
  have hpos : 0 < s.totalParts := by
    by_contra hzero
    have hnone : UInt64.ofNat s.totalParts = 0 := by
      rw [Nat.eq_zero_of_not_pos hzero]
      rfl
    simp [checkAdvertisement, advertisement, hnone] at hcheck
    split_ifs at hcheck
  have hheight : (ofAdvertisement
      { s.advertisement with hashmap := buildHashmap (s.partHashes.take hashmapMaxLen) }
      (s.getAdvertisement 0) sdu linkRtt now previousWindow previousEifr).hashmapHeight =
      min hashmapMaxLen s.totalParts := by
    simp [ofAdvertisement, advertisement, hparts, hs.length_partHashes]
  refine ⟨⟨hfollows, ?_, ?_, ?_, ?_, ?_⟩, ?_⟩
  · intro i hi
    rw [hheight]
    simp [ofAdvertisement, initialHashmap, advertisement, hparts, hs.length_partHashes, hi]
  · omega
  · rw [hheight]
    exact lt_min (by decide) hpos
  · rw [hheight]
    rcases Nat.le_total hashmapMaxLen s.totalParts with hle | hle
    · exact .inr ⟨1, by rw [Nat.min_eq_left hle]; rfl⟩
    · exact .inl (Nat.min_eq_right hle)
  · cases hprevious : previousWindow with
    | none => exact WindowState.bounded_new
    | some window => exact WindowState.bounded_new.restore (hwindow window hprevious)
  · omega

theorem answerable_start (hs : s.Advertisable) (advertised : ℚ)
    (hwindow : ∀ window, previousWindow = some window → window ≤ windowMax)
    (h : fromAdvertisement (s.getAdvertisement 0) sdu linkRtt now previousWindow
      previousEifr = .ok r) : (start (s.advertise advertised).1 r).Answerable s [] := by
  obtain ⟨hready, hheight⟩ := ready_of_advertisement hs hwindow h
  have hzero : (s.advertise advertised).1.receiverMinConsecutiveHeight = 0 := hs.minHeight
  constructor
  case sender => constructor <;> rfl
  case receiver => exact hready
  case behind_receiver => exact ⟨hzero.trans_le (Nat.zero_le _), .inl hzero⟩
  case height =>
    have hle : hashmapMaxLen ≤ 2 * windowMax := by decide
    exact (hheight.trans hle).trans (Nat.le_add_left _ _)
  all_goals simp [start]

/-- The hashes in a request are those of parts in the sender's search window, and it sends exactly
these parts unless the transfer has failed. -/
def Answers (s : ResourceSender) (data : Bytes) (now : ℚ) : Prop :=
  ∃ indices : List ℕ,
    (requestedHashes data).map some = indices.map (s.partHashes[·]?) ∧
    (∀ i ∈ indices, s.receiverMinConsecutiveHeight ≤ i ∧
      i < s.receiverMinConsecutiveHeight + collisionGuardSize ∧ i < s.totalParts) ∧
    (s.status ≠ .failed → ((s.handleRequest data now).2.filterMap part?).map some =
      indices.map (s.parts[·]?))

theorem map_some_filterMap {α β : Type*} {f : α → Option β} {l : List α}
    (h : ∀ a ∈ l, (f a).isSome) : (l.filterMap f).map some = l.map f := by
  induction l with
  | nil => rfl
  | cons a l ih =>
    obtain ⟨b, hb⟩ := Option.isSome_iff_exists.1 (h a (by simp))
    rw [filterMap_cons_some hb, map_cons, map_cons, hb, ih fun a' ha' => h a' (by simp [ha'])]

theorem Answerable.answers {asked : List Asked} {q : Asked} (h : t.Answerable s (q :: asked))
    (hs : s.Hashed P) (now : ℚ) : Answers t.sender (q.data s) now := by
  have hhashed := hs.same h.sender
  have hin := h.in_window.1
  have hwindow : ∀ i ∈ q.indices, _ := fun i hi => mem_searchWindow.1 (hin i hi)
  rw [← h.sender.data]
  refine ⟨q.indices, ?_, hwindow, fun halive => ?_⟩
  · rw [Asked.requestedHashes_data, map_map]
    exact map_congr_left fun i hi => (hhashed.getElem?_partHashes (hwindow i hi).2.2).symm
  · rw [part?_handleRequest halive (q.length_data t.sender), Asked.requestedHashes_data,
      hhashed.requestedParts (h.fair q (by simp)).sorted hin]
    refine map_some_filterMap fun i hi => ?_
    rw [getElem?_eq_getElem (hwindow i hi).2.2]
    rfl

/-- In every run in which requests are handled in the order of issue, if at all, every request is
answered with exactly the parts it asks for. -/
theorem requests_answered {i : ResourceSender.Input} (hnew : ResourceSender.new P i = .ok s)
    (hsdu : 0 < i.sdu) (hrequestId : ∀ id, i.requestId = some id → id.length < 2 ^ 32)
    (hnodup : s.partHashes.Nodup) (hsize : s.transferSize ≤ autoCompressMaxSize)
    (hwindow : ∀ window, previousWindow = some window → window ≤ windowMax)
    (hreceiver : ResourceReceiver.fromAdvertisement (s.getAdvertisement 0) sdu linkRtt now
      previousWindow previousEifr = .ok r)
    (advertised : ℚ) (events : List TransferEvent)
    (hevents : ∀ data now, .request data now ∉ events) :
    (machine P decrypt compressor).Meets (fun _ t e => ∀ lost now data rest, e = .deliver lost now →
      t.requests.drop lost = data :: rest → Answers t.sender data now)
      [] (start (s.advertise advertised).1 r) events := by
  obtain ⟨k, rfl⟩ := ResourceSender.eq_of_new hnew
  have hhashed := ResourceSender.hashed_ofRandom hnodup
  have hadvertisable := ResourceSender.advertisable_ofRandom hsdu hsize hrequestId
  have hstart := answerable_start hadvertisable advertised hwindow hreceiver
  have hissued : (machine P decrypt compressor).Meets
      (fun _ _ e => ∀ data now, e ≠ .request data now) []
      (start ((ResourceSender.ofRandom P i (i.random k).toList).advertise advertised).1 r) events :=
    .of_forall fun e he data now heq => hevents data now (heq ▸ he)
  have hinvariant : ∃ asked, (start _ r).Answerable _ asked := ⟨[], hstart⟩
  refine Machine.Meets.of_invariant _
    (I := fun _ t => ∃ asked, t.Answerable (ResourceSender.ofRandom P i (i.random k).toList) asked)
    ?_ ?_ hinvariant hissued
  · rintro _ t e ⟨asked, h⟩ he
    exact h.step hhashed hadvertisable.totalParts he
  · rintro _ t e ⟨asked, h⟩ _ lost now data rest rfl hnext
    obtain ⟨q, asked', rfl, -, hq⟩ := h.next hnext
    exact hq.answers hhashed now

theorem requests_answered_sample :
    (machine .sample some sampleInput.compressor).Meets (fun _ t e => ∀ lost now data rest,
      e = .deliver lost now → t.requests.drop lost = data :: rest → Answers t.sender data now)
      [] (start (sampleSender.advertise 0).1 sampleReceiver) sampleRun :=
  requests_answered new_sampleInput (by decide) (by simp [sampleInput]) (by decide +kernel)
    (by decide +kernel) (by simp) fromAdvertisement_sampleSender 0 sampleRun (by simp [sampleRun])

end Start

end Transfer

end Rns
