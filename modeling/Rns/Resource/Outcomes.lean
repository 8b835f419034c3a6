import Rns.Resource.Transfer

/-!
# Packets that come late

A hashmap request can name a hash the sender no longer looks for, and requests, proofs, rejections
and parts can arrive when the transfer has ended.
-/

namespace Rns

open Resource

/-! ## Hashmap updates -/

namespace ResourceSender

variable (s : ResourceSender)

/-- The first part of the window with this hash ends a segment, or leaves the window where it is.
Without such a part, the end of the window ends no segment and leaves the window where it is. -/
def Sequenced (lastMapHash : MapHash) : Prop :=
  let stop := s.receiverMinConsecutiveHeight + s.searchWindow.length
  match s.searchWindow.find? fun i => s.partHashes[i]? = some lastMapHash with
  | some i => (i + 1) % hashmapMaxLen = 0 ∨ minHeightAfter (i + 1) = s.receiverMinConsecutiveHeight
  | none => stop % hashmapMaxLen ≠ 0 ∧ minHeightAfter stop = s.receiverMinConsecutiveHeight

theorem buildHmu_eq (lastMapHash : MapHash) (rest : Bytes) (now : ℚ) :
    s.buildHmu (hashmapIsExhausted :: lastMapHash.toList ++ rest) now =
      let partIndex := s.partIndexAfter lastMapHash
      let s' := { s with receiverMinConsecutiveHeight := minHeightAfter partIndex }
      if partIndex % hashmapMaxLen ≠ 0 then (s', none)
      else ({ s' with lastActivity := now }, some (s.hmu (partIndex / hashmapMaxLen))) := by
  have hlength : ¬(hashmapIsExhausted :: lastMapHash.toList ++ rest).length < 5 := by simp
  rw [buildHmu, if_neg hlength]
  rw [show Bytes.fixed 4 (hashmapIsExhausted :: lastMapHash.toList ++ rest) 1 = lastMapHash from
    Bytes.fixed_append [hashmapIsExhausted] lastMapHash rest]
  rfl

theorem moved_eq_iff (height : ℕ) :
    { s with receiverMinConsecutiveHeight := height } = s ↔ height = s.receiverMinConsecutiveHeight := by
  cases s
  simp

/-- An update is the one that was asked for, and a request without one leaves the sender as it was,
exactly if the hash was found at the end of a segment or nothing moves. -/
theorem hashmap_update_iff (s : ResourceSender) (lastMapHash : MapHash) (rest : Bytes) (now : ℚ) :
    let out := s.buildHmu (hashmapIsExhausted :: lastMapHash.toList ++ rest) now
    ((∀ hmu, out.2 = some hmu → ∃ i ∈ s.searchWindow, s.partHashes[i]? = some lastMapHash ∧
        (i + 1) % hashmapMaxLen = 0 ∧ hmu = s.hmu ((i + 1) / hashmapMaxLen)) ∧
      (out.2 = none → out.1 = s)) ↔
    s.Sequenced lastMapHash := by
  cases hfind : s.searchWindow.find? fun i => s.partHashes[i]? = some lastMapHash with
  | some i =>
    have hhash : s.partHashes[i]? = some lastMapHash := by simpa using List.find?_some hfind
    have hindex : s.partIndexAfter lastMapHash = i + 1 := by rw [partIndexAfter, hfind]
    by_cases hend : (i + 1) % hashmapMaxLen = 0
    · simp only [buildHmu_eq, Sequenced, hfind, hindex, hend, ne_eq, not_true_eq_false, if_false,
        true_or, iff_true, reduceCtorEq, false_implies, and_true]
      rintro _ ⟨⟩
      exact ⟨i, List.mem_of_find?_eq_some hfind, hhash, hend, rfl⟩
    · simp only [buildHmu_eq, Sequenced, hfind, hindex]
      simp [hend, moved_eq_iff]
  | none =>
    have hindex : s.partIndexAfter lastMapHash =
        s.receiverMinConsecutiveHeight + s.searchWindow.length := by rw [partIndexAfter, hfind]
    by_cases hend : (s.receiverMinConsecutiveHeight + s.searchWindow.length) % hashmapMaxLen = 0
    · simp only [buildHmu_eq, Sequenced, hfind, hindex, hend, ne_eq, not_true_eq_false, if_false,
        false_and, iff_false]
      rintro ⟨hall, -⟩
      obtain ⟨i, hi, hhash, -⟩ := hall _ rfl
      exact List.find?_eq_none.1 hfind i hi (by simpa using hhash)
    · simp only [buildHmu_eq, Sequenced, hfind, hindex]
      simp [hend, moved_eq_iff]

/-- A resource whose hashes fill a segment. -/
def fullSegment : Input :=
  { Transfer.sampleInput with
    data := (List.range 70).map UInt8.ofNat
    metadata := none
    sdu := 1
    random := fun n => if n = 0 then #v[200, 201, 202, 203] else .replicate 4 7 }

/-- No part has the hash of the request, and an update is sent. -/
theorem stale_request_answered :
    let s := ofRandom .sample fullSegment [7, 7, 7, 7]
    (∀ i ∈ s.searchWindow, s.partHashes[i]? ≠ some #v[1, 2, 3, 4]) ∧
      (s.buildHmu (hashmapIsExhausted :: [1, 2, 3, 4]) 1).2.isSome := by
  decide +kernel

end ResourceSender

/-! ## Outcomes -/

/-- The transfer has ended. -/
def ResourceStatus.Final (status : ResourceStatus) : Prop :=
  status ∈ [ResourceStatus.complete, .failed, .corrupt, .rejected]

instance (status : ResourceStatus) : Decidable status.Final := by
  unfold ResourceStatus.Final
  infer_instance

/-- A step that keeps the status of an ended transfer and reports nothing then, and otherwise reports
a success at most once, when the transfer ends. -/
structure Settles (status status' : ResourceStatus) (reports : ℕ) : Prop where
  kept : status.Final → status' = status ∧ reports = 0
  once : reports ≤ 1
  final : reports = 1 → status'.Final

theorem Settles.same (status : ResourceStatus) : Settles status status 0 :=
  ⟨fun _ => ⟨rfl, rfl⟩, zero_le_one, nofun⟩

variable {status : ResourceStatus}

theorem Settles.quiet (h : ¬status.Final) (status' : ResourceStatus) : Settles status status' 0 :=
  ⟨fun hfinal => absurd hfinal h, zero_le_one, nofun⟩

theorem Settles.completes (h : ¬status.Final) : Settles status .complete 1 :=
  ⟨fun hfinal => absurd hfinal h, le_rfl, fun _ => by decide⟩

section Runs

variable {σ ι : Type} {M : Machine σ ι ResourceAction} {status : σ → ResourceStatus}
  {report : ResourceAction → Bool} {ok : σ → ι → Prop}

/-- Every call ends the transfer for good, or leaves it as it is. -/
def SettlesOnce (M : Machine σ ι ResourceAction) (status : σ → ResourceStatus)
    (report : ResourceAction → Bool) (s : σ) (before after : List ι) : Prop :=
  ((status (M.run s before).1).Final →
    status (M.run s (before ++ after)).1 = status (M.run s before).1) ∧
  (M.run s (before ++ after)).2.countP report ≤ 1

theorem settlesOnce_of_step (hstep : ∀ s e, ok s e →
      Settles (status s) (status (M.step s e).1) ((M.step s e).2.countP report))
    {s : σ} {before after : List ι} (h : M.Meets (fun _ s e => ok s e) [] s (before ++ after)) :
    SettlesOnce M status report s before after := by
  constructor
  · intro hfinal
    rw [M.run_append]
    have hkeep : ∀ (past : List ι) t e, status t = status (M.run s before).1 → ok t e →
        status (M.step t e).1 = status (M.run s before).1 := by
      intro past t e ht hok
      rw [((hstep t e hok).kept (ht ▸ hfinal)).1, ht]
    exact M.run_keeps hkeep rfl (M.meets_append.1 h).2
  · -- a report so far means that the transfer has ended
    have hstart : ([] : List ResourceAction).countP report ≤ 1 ∧
        (([] : List ResourceAction).countP report = 1 → (status s).Final) := ⟨zero_le_one, nofun⟩
    refine (M.run_invariant
      (I := fun _ t out => out.countP report ≤ 1 ∧ (out.countP report = 1 → (status t).Final))
      (fun past t out e ht hok => ?_) hstart h).1
    have hsettles := hstep t e hok
    rw [List.countP_append]
    by_cases hdone : (status t).Final
    · obtain ⟨hsame, hnone⟩ := hsettles.kept hdone
      rw [hnone, hsame]
      exact ⟨ht.1, fun _ => hdone⟩
    · have hone : out.countP report ≠ 1 := fun hone => hdone (ht.2 hone)
      have hnone : out.countP report = 0 := by
        have hle := ht.1
        omega
      rw [hnone, Nat.zero_add]
      exact ⟨hsettles.once, hsettles.final⟩

end Runs

namespace ResourceSender

inductive Call where
  | handleRequest (requestData : Bytes) (now : ℚ)
  | handleProof (proofData : Bytes)
  | handleReject
  | cancel
  | tick (now : ℚ)

def calls : Machine ResourceSender Call ResourceAction where
  step s
    | .handleRequest requestData now => s.handleRequest requestData now
    | .handleProof proofData => s.handleProof proofData
    | .handleReject => s.handleReject
    | .cancel => s.cancel
    | .tick now => s.tick now

variable (s : ResourceSender)

/-- Requests and proofs come to a transfer that has not ended, or has failed; rejections to one that
has not ended, or was rejected. -/
def Timely : Call → Prop
  | .handleRequest _ _ | .handleProof _ => s.status.Final → s.status = .failed
  | .handleReject => s.status.Final → s.status = .rejected
  | _ => True

theorem countP_handleRequest (requestData : Bytes) (now : ℚ) :
    (s.handleRequest requestData now).2.countP (· = .completed) = 0 := by
  unfold handleRequest
  split_ifs
  · rfl
  · rfl
  · refine List.countP_eq_zero.2 fun a ha => ?_
    simp only [answerRequest, sendParts, List.mem_append, List.mem_filterMap, List.mem_map,
      Option.map_eq_some_iff] at ha
    rcases ha with ⟨_, _, _, _, rfl⟩ | ⟨_, _, rfl⟩ <;> simp

theorem settles_call (c : Call) (h : s.Timely c) :
    Settles s.status (calls.step s c).1.status ((calls.step s c).2.countP (· = .completed)) := by
  cases c with
  | handleRequest requestData now =>
    simp only [calls, countP_handleRequest]
    by_cases hfailed : s.status = .failed
    · rw [handleRequest, if_pos hfailed]
      exact .same _
    · exact .quiet (fun hfinal => hfailed (h hfinal)) _
  | handleProof proofData =>
    simp only [calls, handleProof]
    split_ifs with hfailed
    · exact .same _
    · have hopen : ¬s.status.Final := fun hfinal => hfailed (h hfinal)
      split
      · exact .completes hopen
      · exact .quiet hopen _
      · exact .quiet hopen _
  | handleReject =>
    refine ⟨fun hfinal => ⟨(h hfinal).symm, rfl⟩, zero_le_one, by rintro ⟨⟩⟩
  | cancel =>
    simp only [calls, cancel]
    split_ifs with hopen
    · refine .quiet (fun hfinal => ?_) _
      revert hopen hfinal
      cases s.status <;> decide
    · exact .same _
  | tick now =>
    simp only [calls, tick]
    split
    case h_4 => exact .same _
    all_goals
      rename_i hstatus
      rw [hstatus]
      repeat' split
      all_goals exact .quiet (by decide) _

/-- A second proof completes the transfer a second time. -/
theorem completed_twice :
    let proof := buildProofData Transfer.sampleSender.resourceHash Transfer.sampleSender.expectedProof
    (calls.run (Transfer.sampleSender.advertise 0).1 [.handleProof proof, .handleProof proof]).2 =
      [.completed, .completed] := by
  decide +kernel

end ResourceSender

/-- A request for parts, or a notice of progress. -/
def ResourceAction.Routine : ResourceAction → Prop
  | .sendRequest _ | .progressUpdate _ _ => True
  | _ => False

namespace ResourceReceiver

inductive Call where
  | receivePart (partData : Bytes) (now : ℚ)
  | handleHashmapUpdate (hmuData : Bytes) (now : ℚ)
  | requestNext (now : ℚ)
  | assemble (decrypt : Bytes → Option Bytes) (compressor : Compressor)
  | handleCancel
  | tick (now : ℚ) (decrypt : Bytes → Option Bytes) (compressor : Compressor)

variable (P : Primitives)

def calls : Machine ResourceReceiver Call ResourceAction where
  step r
    | .receivePart partData now => r.receivePart P partData now
    | .handleHashmapUpdate hmuData now => r.handleHashmapUpdate hmuData now
    | .requestNext now => r.requestNext now
    | .assemble decrypt compressor => r.assemble P decrypt compressor
    | .handleCancel => r.handleCancel
    | .tick now decrypt compressor => r.tick P now decrypt compressor

/-- Parts come to a transfer that has not ended, or has failed, and an ended one is not assembled. -/
def Timely (r : ResourceReceiver) : Call → Prop
  | .receivePart _ _ => r.status.Final → r.status = .failed
  | .assemble _ _ => r.status.Final → r.receivedCount ≠ r.totalParts
  | _ => True

/-- The action hands the data over. -/
def delivers : ResourceAction → Bool
  | .dataReceived _ _ => true
  | _ => false

variable (r : ResourceReceiver) (now : ℚ)

theorem status_requestNext : (r.requestNext now).1.status = r.status := by
  unfold requestNext
  split <;> rfl

theorem routine_requestNext : ∀ a ∈ (r.requestNext now).2, a.Routine := by
  unfold requestNext
  split <;> simp [ResourceAction.Routine]

theorem routine_afterPart (matched : Bool) : ∀ a ∈ (r.afterPart matched now).2, a.Routine := by
  have hnext := routine_requestNext (r.completeWindow now) now
  unfold afterPart
  dsimp only
  split_ifs <;> simp_all [ResourceAction.Routine]

theorem routine_receivePart (partData : Bytes) : ∀ a ∈ (r.receivePart P partData now).2, a.Routine := by
  unfold receivePart
  split_ifs
  · exact nofun
  · exact routine_afterPart _ now _

theorem routine_handleHashmapUpdate (hmuData : Bytes) :
    ∀ a ∈ (r.handleHashmapUpdate hmuData now).2, a.Routine := by
  unfold handleHashmapUpdate
  split_ifs
  · exact nofun
  · split
    · exact nofun
    · exact routine_requestNext _ now

theorem countP_routine {out : List ResourceAction} (h : ∀ a ∈ out, a.Routine) :
    out.countP delivers = 0 :=
  List.countP_eq_zero.2 fun a ha => by
    have hroutine := h a ha
    cases a <;> simp_all [ResourceAction.Routine, delivers]

theorem settles_finish (data : Bytes) (hopen : ¬status.Final) :
    Settles status (r.finish P data).1.status
      ((r.finish P data).2.countP delivers) := by
  unfold finish
  dsimp only
  split
  · exact .quiet hopen _
  · split
    · exact .quiet hopen _
    · exact .completes hopen

theorem settles_assemble (decrypt : Bytes → Option Bytes) (compressor : Compressor)
    (h : r.status.Final → r.receivedCount ≠ r.totalParts) :
    Settles r.status (r.assemble P decrypt compressor).1.status
      ((r.assemble P decrypt compressor).2.countP delivers) := by
  unfold assemble
  split_ifs with hall hnone
  · exact .same _
  · exact .quiet (fun hfinal => h hfinal (not_not.1 hall)) _
  · have hopen : ¬r.status.Final := fun hfinal => h hfinal (not_not.1 hall)
    dsimp only
    split
    · exact .quiet hopen _
    · split
      · exact .quiet hopen _
      · exact settles_finish P _ _ hopen

theorem settles_call (c : Call) (h : r.Timely c) :
    Settles r.status ((calls P).step r c).1.status (((calls P).step r c).2.countP delivers) := by
  cases c with
  | receivePart partData now =>
    simp only [calls, countP_routine (routine_receivePart P r now partData)]
    by_cases hfailed : r.status = .failed
    · rw [receivePart, if_pos hfailed]
      exact .same _
    · exact .quiet (fun hfinal => hfailed (h hfinal)) _
  | handleHashmapUpdate hmuData now =>
    simp only [calls, countP_routine (routine_handleHashmapUpdate r now hmuData)]
    unfold handleHashmapUpdate
    split_ifs
    · exact .same _
    · split
      · exact .same _
      · next segment hashes _ =>
        obtain ⟨_, _, heq⟩ := fillHashmap_eq (r.touch now) segment hashes
        rw [status_requestNext, heq]
        exact .same _
  | requestNext now =>
    simp only [calls, countP_routine (routine_requestNext r now), status_requestNext]
    exact .same _
  | assemble decrypt compressor => exact settles_assemble P r decrypt compressor h
  | handleCancel =>
    simp only [calls, handleCancel]
    split_ifs with hopen
    · refine .quiet (fun hfinal => ?_) _
      revert hopen hfinal
      cases r.status <;> decide
    · exact .same _
  | tick now decrypt compressor =>
    simp only [calls, tick]
    split_ifs with hstatus
    · exact .same _
    all_goals have hopen : ¬r.status.Final := by rw [not_not.1 hstatus]; decide
    · exact settles_assemble P r decrypt compressor fun hfinal => absurd hfinal hopen
    · rw [countP_routine (routine_requestNext _ now)]
      exact .quiet hopen _
    · exact .quiet hopen _
    · exact .same _

end ResourceReceiver

/-- An outcome is final, and reported once, in every run of a sender and of a receiver to which
nothing comes late that could take it back. -/
theorem outcomes_final (P : Primitives) :
    (∀ s before after,
      ResourceSender.calls.Meets (fun _ s c => s.Timely c) [] s (before ++ after) →
      SettlesOnce ResourceSender.calls (·.status) (· = .completed) s before after) ∧
    (∀ r before after,
      (ResourceReceiver.calls P).Meets (fun _ r c => r.Timely c) [] r (before ++ after) →
      SettlesOnce (ResourceReceiver.calls P) (·.status) ResourceReceiver.delivers r before after) :=
  ⟨fun _ _ _ h => settlesOnce_of_step ResourceSender.settles_call h,
    fun _ _ _ h => settlesOnce_of_step (ResourceReceiver.settles_call P) h⟩

theorem outcomes_final_sample :
    let proof := buildProofData Transfer.sampleSender.resourceHash Transfer.sampleSender.expectedProof
    SettlesOnce ResourceSender.calls (·.status) (· = .completed) (Transfer.sampleSender.advertise 0).1
      [.handleProof proof] [.cancel, .tick 9] :=
  (outcomes_final .sample).1 _ _ _ ⟨fun hfinal => absurd hfinal (by decide), trivial, trivial, trivial⟩

/-! ## Counters -/

namespace ResourceReceiver

open List

/-- What a receiver's counters say about its parts and its hashes. -/
structure Counted (r : ResourceReceiver) : Prop where
  parts : r.parts.length = r.totalParts
  received : r.receivedCount = r.parts.countP Option.isSome
  height : r.consecutiveCompletedHeight + 1 = (r.parts.takeWhile Option.isSome).length
  hashmap : r.hashmap.length = r.totalParts
  hashes : r.hashmapHeight = r.hashmap.countP Option.isSome

/-- Every call keeps what storing a part where none is and filling in hashes keep. -/
theorem step_keeps (P : Primitives) {I : ResourceReceiver → Prop} {r : ResourceReceiver}
    (hsame : ∀ {r r'}, SameProgress r r' → I r → I r')
    (hstore : ∀ {r i} data, i < r.totalParts → r.missing i → I r → I (r.storePart i data))
    {c : Call} (hfill : ∀ hmuData now segment hashes, c = .handleHashmapUpdate hmuData now →
      parseHmu hmuData = some (segment, hashes) → I ((r.touch now).fillHashmap segment hashes))
    (h : I r) : I ((calls P).step r c).1 := by
  cases c with
  | receivePart partData now =>
    have hnoted := hsame (sameProgress_notePart r partData.length now) h
    simp only [calls, receivePart, placePart]
    split_ifs
    · exact h
    · refine hsame (sameProgress_afterPart _ _ now) ?_
      split
      · next i hslot =>
        have hrange := mem_range'_1.1 (mem_of_find?_eq_some hslot)
        split_ifs with hmissing
        · exact hstore partData (by omega) hmissing hnoted
        · exact hnoted
      · exact hnoted
  | handleHashmapUpdate hmuData now =>
    simp only [calls, handleHashmapUpdate]
    split_ifs
    · exact h
    · split
      · exact hsame (sameProgress_touch r now) h
      · next segment hashes hparse =>
        refine hsame (.trans ?_ (sameProgress_requestNext _ now)) (hfill _ now _ _ rfl hparse)
        constructor <;> rfl
  | requestNext now => exact hsame (sameProgress_requestNext r now) h
  | assemble decrypt compressor => exact hsame (sameProgress_assemble ..) h
  | handleCancel =>
    refine hsame ?_ h
    simp only [calls, handleCancel]
    split_ifs <;> constructor <;> rfl
  | tick now decrypt compressor => exact hsame (sameProgress_tick ..) h

/-- Only the part behind the stored prefix makes it longer, with what follows. -/
theorem length_takeWhile_set {l : List (Option Bytes)} {i : ℕ} (h : l[i]? = some none) (data : Bytes) :
    let stored := (l.takeWhile Option.isSome).length
    let next := if i = stored then i + 1 else stored
    ((l.set i (some data)).takeWhile Option.isSome).length =
      next + (((l.set i (some data)).drop next).takeWhile Option.isSome).length := by
  induction l generalizing i with
  | nil => simp at h
  | cons part l ih =>
    rcases part with _ | part <;> rcases i with _ | i
    · simp [Nat.add_comm]
    · simp
    · simp at h
    · have hrest := ih (i := i) (by simpa using h)
      simp only [set_cons_succ, takeWhile_cons, Option.isSome_some, if_true, length_cons,
        Nat.add_right_cancel_iff]
      split_ifs at hrest ⊢ <;> simp_all <;> omega

namespace Counted

variable {r r' : ResourceReceiver} (h : r.Counted)
include h

theorem same (hsame : SameProgress r r') : r'.Counted :=
  ⟨by rw [hsame.parts, hsame.totalParts, h.1], by rw [hsame.receivedCount, hsame.parts, h.2],
    by rw [hsame.consecutiveCompletedHeight, hsame.parts, h.3],
    by rw [hsame.hashmap, hsame.totalParts, h.4], by rw [hsame.hashmapHeight, hsame.hashmap, h.5]⟩

theorem storePart {i : ℕ} (hi : i < r.totalParts) (hmissing : r.missing i) (data : Bytes) :
    (r.storePart i data).Counted := by
  have hlt : i < r.parts.length := h.parts ▸ hi
  have hnone : r.parts[i] = none := by simpa [missing, getElem?_eq_getElem hlt] using hmissing
  unfold ResourceReceiver.storePart walk
  refine ⟨by simp [h.parts], ?_, ?_, h.hashmap, h.hashes⟩
  · dsimp only
    rw [countP_set hlt, hnone, h.received]
    simp
  · have hheight := h.height
    simp only [hheight, Nat.cast_inj]
    rw [take_of_length_le (by simp [h.parts]),
      length_takeWhile_set (List.getElem?_eq_some_iff.2 ⟨hlt, hnone⟩)]
    split_ifs <;> simp [hheight] <;> omega

theorem fillSlot (idx : ℕ) (hash : MapHash) : (r.fillSlot idx hash).Counted := by
  unfold ResourceReceiver.fillSlot
  split
  · next hin =>
    have hlt : idx < r.hashmap.length := h.hashmap ▸ hin
    refine ⟨h.1, h.2, h.3, by simp [h.hashmap], ?_⟩
    have hhashes := h.hashes
    have hcount := countP_set (p := Option.isSome) (a := some hash) hlt
    have hpos : r.hashmap[idx].isSome → 0 < r.hashmap.countP Option.isSome :=
      fun hsome => countP_pos_iff.2 ⟨_, getElem_mem hlt, hsome⟩
    simp only [getD_eq_getElem _ _ hlt, hcount]
    cases hslot : r.hashmap[idx] <;> simp_all
  · exact h

theorem step (P : Primitives) (c : Call) : ((calls P).step r c).1.Counted :=
  step_keeps P (fun hsame h => h.same hsame) (fun data hi hmissing h => h.storePart hi hmissing data)
    (fun _ now _ _ _ _ => foldlRecOn _ _ (motive := Counted) (h.same (sameProgress_touch r now))
      fun _ h _ _ => h.fillSlot ..) h

theorem run (P : Primitives) (cs : List Call) : ((calls P).run r cs).1.Counted := by
  have hany : (calls P).Meets (fun _ _ _ => True) [] r cs := .of_forall fun _ _ => trivial
  exact (calls P).run_keeps (fun _ _ c h _ => h.step P c) h hany

end Counted

theorem countP_initialHashmap (n : ℕ) (hashmap : Bytes) :
    (initialHashmap n hashmap).countP Option.isSome = min (hashmap.length / 4) n := by
  induction n with
  | zero => simp [initialHashmap]
  | succ n ih =>
    unfold initialHashmap at ih ⊢
    rw [range_succ, map_append, countP_append, ih]
    by_cases hin : n < hashmap.length / 4
    · simp [hin]
      omega
    · simp [hin]
      omega

section

variable (P : Primitives) (a : ResourceAdvertisement) (advData : Bytes) (sdu : ℕ)
  (linkRtt now accepted : ℚ) (window : Option ℕ) (eifr : Option ℚ) (cs : List Call)

theorem counted_accept :
    ((ofAdvertisement a advData sdu linkRtt now window eifr).accept accepted).1.Counted := by
  refine Counted.same ?_ (sameProgress_accept _ accepted)
  constructor <;> simp [ofAdvertisement, countP_replicate, countP_initialHashmap]
  simp [initialHashmap]

theorem known_accept :
    ((ofAdvertisement a advData sdu linkRtt now window eifr).accept accepted).1.Known := by
  refine Known.same ⟨a.numParts.toNat_lt, ?_, min_le_right _ _, fun i hi => ?_⟩
    (sameProgress_accept _ accepted)
  · simp [ofAdvertisement, initialHashmap]
  · have hi' : i < a.numParts.toNat := hi
    simp [ofAdvertisement, initialHashmap, hi']

/-- Whatever reaches the receiver of an advertisement, its counters are those of its parts. -/
theorem receiver_counts :
    ((calls P).run ((ofAdvertisement a advData sdu linkRtt now window eifr).accept accepted).1
      cs).1.Counted := by
  exact (counted_accept ..).run P cs

/-- A hashmap update starts at most where the known hashes end. -/
def continues (r : ResourceReceiver) : Call → Bool
  | .handleHashmapUpdate hmuData _ =>
    (parseHmu hmuData).all fun (segment, _) => segment * hashmapMaxLen % 2 ^ 64 ≤ r.hashmapHeight
  | _ => true

theorem Known.step (P : Primitives) {r : ResourceReceiver} {c : Call} (h : r.Known)
    (hcontinues : r.continues c) : ((calls P).step r c).1.Known := by
  refine step_keeps P (fun hsame h => h.same hsame) (fun _ _ _ h => ⟨h.1, h.2, h.3, h.4⟩) ?_ h
  rintro _ now segment hashes rfl hparse
  have hstart : segment * hashmapMaxLen % 2 ^ 64 ≤ r.hashmapHeight := by
    simpa [continues, hparse] using hcontinues
  exact ((h.same (sameProgress_touch r now)).fillHashmap hstart hashes).1

end

/-- A receiver of 76 parts that knows the first three hashes. -/
def longReceiver : ResourceReceiver :=
  ((ofAdvertisement { Transfer.sampleSender.advertisement with numParts := 76 } [] 4 1 0 none
    none).accept 0).1

def hashmapUpdate (segment : UInt64) (n : ℕ) : Call :=
  .handleHashmapUpdate (replicate 32 0 ++
    Msgpack.pack (.array [.uint segment, .bin (replicate (4 * n) 7)])) 1

end ResourceReceiver

end Rns
