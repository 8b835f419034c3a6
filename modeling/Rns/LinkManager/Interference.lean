import Rns.LinkManager.Frames
import Rns.LinkManager.Integrity
import Rns.Resource.Transfer

/-!
# Transfers side by side

A packet of a transfer is offered to the transfers of its link one after the other until one answers.
This module says when it leaves those alone that it is not meant for.
-/

namespace Rns

open Resource ResourceSender ResourceReceiver Std.ExtTreeMap
open LinkManager (handleContext sample)
open PacketContext (resourceReq resourceIcl resource)
open Prod (snd fst)

/-! ## Offers -/

section Offer

variable {α : Type*} {skip : α → Bool} {handle : α → α × List ResourceAction}
  {live answers : α → Prop} {meant : α → Bool} {x : α} {xs : List α}

theorem offer_finish {g : α → α}
    (hquiet : ∀ x, ¬skip x → (handle x).2 = [] → g (handle x).1 = (handle x).1) (xs : List α) :
    offer skip (fun x => (g (handle x).1, (handle x).2)) xs =
      match (offer skip handle xs).2 with
      | none => offer skip handle xs
      | some (i, answer) => ((offer skip handle xs).1.modify i g, some (i, answer)) := by
  induction xs with
  | nil => rfl
  | cons x rest ih =>
    by_cases hsilent : (offerOne skip handle x).2 = []
    · have hone : offerOne skip (fun x => (g (handle x).1, (handle x).2)) x =
          offerOne skip handle x := by
        unfold offerOne at hsilent ⊢
        split_ifs at hsilent ⊢ with hskip
        · rfl
        · exact Prod.ext (hquiet x hskip hsilent) rfl
      rw [offer_cons_silent (hone ▸ hsilent), offer_cons_silent hsilent, hone, ih]
      obtain ⟨ys, answer⟩ := offer skip handle rest
      cases answer <;> rfl
    · have hskip : ¬skip x := fun hskip => hsilent (by rw [offerOne, if_pos hskip])
      have hone : offerOne skip handle x = handle x := if_neg hskip
      have hone' : offerOne skip (fun x => (g (handle x).1, (handle x).2)) x =
          (g (handle x).1, (handle x).2) := if_neg hskip
      rw [offer_cons_answer (by rwa [hone', ← hone]), offer_cons_answer hsilent, hone, hone']
      rfl

def MeantUpToFirst (live answers : α → Prop) (meant : α → Bool) : List α → Prop
  | [] => True
  | x :: rest =>
    (live x → meant x) ∧ (¬(live x ∧ answers x) → MeantUpToFirst live answers meant rest)

/-- How transfers take an offer: those that are not live ignore it, and whether one is meant does not
change. -/
structure Offered (skip : α → Bool) (handle : α → α × List ResourceAction) (live answers : α → Prop)
    (meant : α → Bool) : Prop where
  idle : ∀ x, ¬live x → offerOne skip handle x = (x, [])
  answers : ∀ x, live x → ((offerOne skip handle x).2 ≠ [] ↔ answers x)
  meant : ∀ x, meant (offerOne skip handle x).1 = meant x

theorem Offered.silent_iff (h : Offered skip handle live answers meant) (x : α) :
    (offerOne skip handle x).2 = [] ↔ ¬(live x ∧ answers x) := by
  by_cases hlive : live x
  · rw [← not_iff_not, not_not, ← ne_eq, h.answers x hlive]
    exact (and_iff_right hlive).symm
  · simp [h.idle x hlive, hlive]

theorem map_snd_shift (o : Option (ℕ × α × List ResourceAction)) :
    (o.map fun (i, before, actions) => (i + 1, before, actions)).map snd = o.map snd := by
  cases o <;> rfl

section

variable (h : Offered skip handle live answers meant)
  (hmeant : MeantUpToFirst live answers meant xs)
include h hmeant

theorem Offered.others : (offer skip handle xs).1.filter (!meant ·) = xs.filter (!meant ·) := by
  induction xs with
  | nil => rfl
  | cons x rest ih =>
    have hsame : meant x = false → (offerOne skip handle x).1 = x := fun hx => by
      rw [h.idle x fun hlive => by simp [hmeant.1 hlive] at hx]
    by_cases hsilent : (offerOne skip handle x).2 = []
    · rw [offer_cons_silent hsilent]
      have hrest := ih (hmeant.2 ((h.silent_iff x).1 hsilent))
      cases hx : meant x with
      | true => simpa [h.meant, hx] using hrest
      | false => simpa [hsame hx, hx] using hrest
    · rw [offer_cons_answer hsilent]
      cases hx : meant x with
      | true => simp [h.meant, hx]
      | false => simp [hsame hx, hx]

theorem Offered.answer_alone :
    (offer skip handle (xs.filter meant)).2.map snd = (offer skip handle xs).2.map snd := by
  induction xs with
  | nil => rfl
  | cons x rest ih =>
    by_cases hsilent : (offerOne skip handle x).2 = []
    · have hrest := ih (hmeant.2 ((h.silent_iff x).1 hsilent))
      rw [offer_cons_silent hsilent, map_snd_shift]
      cases hx : meant x with
      | true => rw [List.filter_cons_of_pos hx, offer_cons_silent hsilent, map_snd_shift, hrest]
      | false => rw [List.filter_cons_of_neg (by simp [hx]), hrest]
    · have hx : meant x := hmeant.1 (by
        by_contra hlive
        exact hsilent (by rw [h.idle x hlive]))
      rw [List.filter_cons_of_pos hx, offer_cons_answer hsilent, offer_cons_answer hsilent]

theorem Offered.meant_answer {i : ℕ} {before : α} {actions : List ResourceAction}
    (hanswer : (offer skip handle xs).2 = some (i, before, actions)) :
    before ∈ xs ∧ meant before := by
  have halone := h.answer_alone hmeant
  rw [hanswer] at halone
  obtain ⟨⟨j, answer⟩, hsome, heq⟩ := Option.map_eq_some_iff.1 halone
  obtain rfl : answer = (before, actions) := heq
  exact List.mem_filter.1 (offer_answer hsome).2.1

end

/-- If no reached transfer that is not meant is touched at any time, only meant transfers are
reached. -/
theorem Offered.meantUpToFirst {τ : Type*} {handle : τ → α → α × List ResourceAction}
    (h : ∀ now, Offered skip (handle now) live answers meant)
    (htouch : ∀ x, live x → ∃ now, (offerOne skip (handle now) x).1 ≠ x)
    (hsame : ∀ now, (offer skip (handle now) xs).1.filter (!meant ·) = xs.filter (!meant ·)) :
    MeantUpToFirst live answers meant xs := by
  induction xs with
  | nil => trivial
  | cons x rest ih =>
    refine ⟨fun hlive => ?_, fun hquiet => ih fun now => ?_⟩
    · by_contra hx
      rw [Bool.not_eq_true] at hx
      obtain ⟨now, hne⟩ := htouch x hlive
      obtain ⟨ys, hcons⟩ := offer_cons_fst ..
      have hhead := hsame now
      rw [hcons, List.filter_cons_of_pos (by simp [(h now).meant, hx]),
        List.filter_cons_of_pos (by simp [hx])] at hhead
      exact hne (List.head_eq_of_cons_eq hhead)
    · have hhead := hsame now
      rw [offer_cons_silent (((h now).silent_iff x).2 hquiet)] at hhead
      cases hx : meant x with
      | true => simpa [(h now).meant, hx] using hhead
      | false =>
        rw [List.filter_cons_of_pos (by simp [(h now).meant, hx]),
          List.filter_cons_of_pos (by simp [hx])] at hhead
        exact List.tail_eq_of_cons_eq hhead

/-- A transfer that notes the time of an offer is touched by it. -/
theorem touched_of_clock {handle : ℚ → α → α × List ResourceAction} (clock : α → ℚ) (hskip : ¬skip x)
    (h : ∀ now, clock (handle now x).1 = now) : ∃ now, (offerOne skip (handle now) x).1 ≠ x := by
  refine ⟨clock x + 1, fun heq => ?_⟩
  have hclock := h (clock x + 1)
  rw [offerOne, if_neg hskip] at heq
  rw [heq] at hclock
  linarith

end Offer

/-! ## How a sender takes a request -/

namespace ResourceSender

variable {s : ResourceSender} {requestData : Bytes}

def requestedResource (requestData : Bytes) : Bytes :=
  (requestData.drop (requestPad requestData)).take 32

/-- The sender has a part for the request, or the next piece of the hashmap. -/
def Answers (requestData : Bytes) (s : ResourceSender) : Prop :=
  requestPad requestData + 32 ≤ requestData.length ∧
    (s.requestedParts (requestedHashes requestData) ≠ [] ∨
      requestData.head? = some hashmapIsExhausted ∧
        s.partIndexAfter (Bytes.fixed 4 requestData 1) % hashmapMaxLen = 0)

theorem filterMap_requestedParts_eq_nil (s : ResourceSender) (requested : List MapHash) :
    ((s.requestedParts requested).filterMap fun i => s.parts[i]?.map ResourceAction.sendPart) = [] ↔
      s.requestedParts requested = [] := by
  refine ⟨fun h => ?_, fun h => by rw [h]; rfl⟩
  rw [List.filterMap_eq_nil_iff] at h
  refine List.eq_nil_iff_forall_not_mem.2 fun i hi => ?_
  have hlt : i < s.parts.length := (mem_searchWindow.1 (List.mem_of_mem_filter hi)).2.2
  have hnone := h i hi
  rw [List.getElem?_eq_getElem hlt] at hnone
  simp at hnone

theorem extendHashmap_isSome (s : ResourceSender)
    (hlong : requestPad requestData + 32 ≤ requestData.length) (now : ℚ) :
    (s.extendHashmap requestData now).2.isSome ↔ requestData.head? = some hashmapIsExhausted ∧
      s.partIndexAfter (Bytes.fixed 4 requestData 1) % hashmapMaxLen = 0 := by
  unfold extendHashmap
  by_cases hexhausted : requestData.head? = some hashmapIsExhausted
  · have hlen : ¬requestData.length < 5 := by
      simp only [requestPad, hexhausted, if_true] at hlong
      omega
    rw [if_pos hexhausted, buildHmu, if_neg hlen]
    dsimp only
    split_ifs with hodd
    · simp [hodd]
    · simp [hexhausted, not_not.1 hodd]
  · simp [hexhausted]

theorem handleRequest_ne_nil_iff (hlive : s.status ≠ .failed) (now : ℚ) :
    (s.handleRequest requestData now).2 ≠ [] ↔ s.Answers requestData := by
  unfold handleRequest Answers
  rw [if_neg hlive]
  split_ifs with hshort
  · simp only [ne_eq, not_true_eq_false, false_iff]
    omega
  · have hlong : requestPad requestData + 32 ≤ requestData.length := by omega
    have hparts := filterMap_requestedParts_eq_nil (s.noteRequest now) (requestedHashes requestData)
    have hhmu := extendHashmap_isSome ((s.noteRequest now).sendParts
      ((s.noteRequest now).requestedParts (requestedHashes requestData)) now).1 hlong now
    simp only [answerRequest, ne_eq, List.append_eq_nil_iff, not_and_or, hlong, true_and]
    refine or_congr (not_congr hparts) (Iff.trans ?_ hhmu)
    simp [Option.isSome_iff_ne_none]

theorem lastActivity_handleRequest (hlive : s.status ≠ .failed) (requestData : Bytes) (now : ℚ) :
    (s.handleRequest requestData now).1.lastActivity = now := by
  have hawait : ∀ s : ResourceSender, s.awaitProof.lastActivity = s.lastActivity := by
    intro s
    unfold awaitProof
    split_ifs <;> rfl
  have hextend : ∀ s : ResourceSender, s.lastActivity = now →
      (s.extendHashmap requestData now).1.lastActivity = now := by
    intro s hs
    unfold extendHashmap buildHmu
    dsimp only
    split_ifs <;> first | exact hs | rfl
  rw [handleRequest, if_neg hlive]
  split_ifs
  · rfl
  · simp only [answerRequest, hawait]
    exact hextend _ rfl

theorem offered_request (requestData : Bytes) (now : ℚ) :
    Offered waitsForTurn (fun s => s.handleRequest requestData now)
      (fun s => ¬s.waitsForTurn ∧ s.status ≠ .failed) (Answers requestData)
      (fun s => s.resourceHash.toList = requestedResource requestData) where
  idle s h := by
    unfold offerOne
    split_ifs with hwaits
    · rfl
    · have hfailed : s.status = .failed := by tauto
      simp only [handleRequest, hfailed, if_true]
  answers s h := by
    rw [offerOne, if_neg h.1, handleRequest_ne_nil_iff h.2 now]
  meant s := by
    unfold offerOne
    split_ifs with hwaits
    · rfl
    · rw [(sameResource_handleRequest ..).resourceHash]

end ResourceSender

/-! ## How a receiver takes a part or a hashmap update -/

namespace ResourceReceiver

variable {r : ResourceReceiver} {data : Bytes}

theorem requestNext_ne_nil_iff (r : ResourceReceiver) (now : ℚ) :
    (r.requestNext now).2 ≠ [] ↔ ¬(r.status = .failed ∨ r.waitingForHmu) := by
  unfold requestNext
  split_ifs with h
  · exact iff_of_false (fun hne => hne rfl) (not_not_intro h)
  · exact iff_of_true (List.cons_ne_nil _ _) h

theorem lastActivity_requestNext {now : ℚ} (h : r.lastActivity = now) :
    (r.requestNext now).1.lastActivity = now := by
  unfold requestNext
  split_ifs
  · exact h
  · rfl

theorem handleHashmapUpdate_ne_nil_iff (hlive : r.status ≠ .failed) (now : ℚ) :
    (r.handleHashmapUpdate data now).2 ≠ [] ↔ (parseHmu data).isSome := by
  rw [handleHashmapUpdate, if_neg hlive]
  split
  · next hnone => simp [hnone]
  · next segment hashes hsome =>
    obtain ⟨_, _, heq⟩ := fillHashmap_eq (r.touch now) segment hashes
    rw [requestNext_ne_nil_iff, hsome, heq]
    exact iff_of_true (not_or.2 ⟨hlive, Bool.false_ne_true⟩) rfl

theorem lastActivity_handleHashmapUpdate (hlive : r.status ≠ .failed) (data : Bytes) (now : ℚ) :
    (r.handleHashmapUpdate data now).1.lastActivity = now := by
  rw [handleHashmapUpdate, if_neg hlive]
  split
  · rfl
  · next segment hashes _ =>
    obtain ⟨_, _, heq⟩ := fillHashmap_eq (r.touch now) segment hashes
    rw [heq]
    exact lastActivity_requestNext rfl

theorem offered_hashmapUpdate (data : Bytes) (now : ℚ) :
    Offered (fun _ => false) (fun r : ResourceReceiver => r.handleHashmapUpdate data now)
      (fun r => r.status ≠ .failed) (fun _ => (parseHmu data).isSome)
      (fun r => r.resourceHash = data.take 32) where
  idle r h := by
    simp only [offerOne, Bool.false_eq_true, if_false, handleHashmapUpdate, not_not.1 h, if_true]
  answers r h := by
    rw [offerOne, if_neg Bool.false_ne_true, handleHashmapUpdate_ne_nil_iff h now]
  meant r := by
    rw [offerOne, if_neg Bool.false_ne_true, (sameTransfer_handleHashmapUpdate ..).resourceHash]

/-! A part reaches its slot whatever the time is, since only the limit of the window depends on it. -/

variable (partLen : ℕ) (now : ℚ)

theorem window_notePart : (r.notePart partLen now).window.window = r.window.window := by
  have hrate : ∀ (w : WindowState) (rate : ℚ), (w.updateReqRespRate rate).window = w.window := by
    intro w rate
    unfold WindowState.updateReqRespRate
    dsimp only
    split_ifs <;> rfl
  unfold notePart measureRtt
  dsimp only
  split_ifs
  · rfl
  · exact hrate _ _
  · rfl

theorem outstandingParts_notePart : (r.notePart partLen now).outstandingParts = r.outstandingParts ∧
      (r.notePart partLen now).waitingForHmu = r.waitingForHmu ∧
      (r.notePart partLen now).lastActivity = now := by
  unfold notePart measureRtt
  dsimp only
  split_ifs <;> exact ⟨rfl, rfl, rfl⟩

theorem matchingSlot_notePart (hash : MapHash) :
    (r.notePart partLen now).matchingSlot hash = r.matchingSlot hash := by
  have hsame := sameProgress_notePart r partLen now
  simp only [matchingSlot, hsame.consecutiveCompletedHeight, hsame.totalParts, hsame.hashmap,
    window_notePart]

variable (P : Primitives)

/-- The part fills a slot of the window, or the receiver has something to say in any case: it has
all parts, or waits for none and may ask for more. -/
def AnswersPart (data : Bytes) (r : ResourceReceiver) : Prop :=
  (∃ i, r.matchingSlot (mapHash P data r.randomHash) = some i ∧ r.missing i) ∨
    r.receivedCount = r.totalParts ∨
    (r.outstandingParts = 0 ∧ r.receivedCount < r.totalParts ∧ ¬r.waitingForHmu)

def expects (data : Bytes) (r : ResourceReceiver) : Bool :=
  r.hashmap.contains (some (mapHash P data r.randomHash))

theorem placePart_matched_iff (r : ResourceReceiver) (data : Bytes) : (r.placePart P data).2 = true ↔
    ∃ i, r.matchingSlot (mapHash P data r.randomHash) = some i ∧ r.missing i := by
  unfold placePart
  split
  · next i hslot => split_ifs with hmissing <;> simp [hslot, hmissing]
  · next hslot => simp [hslot]

theorem afterPart_ne_nil_iff (hlive : r.status ≠ .failed) (matched : Bool) (now : ℚ) :
    (r.afterPart matched now).2 ≠ [] ↔ matched ∨ r.receivedCount = r.totalParts ∨
      (r.outstandingParts = 0 ∧ r.receivedCount < r.totalParts ∧ ¬r.waitingForHmu) := by
  have hcomplete : (r.completeWindow now).status = r.status ∧
      (r.completeWindow now).waitingForHmu = r.waitingForHmu := by
    unfold completeWindow
    dsimp only
    split_ifs <;> exact ⟨rfl, rfl⟩
  have hnext := requestNext_ne_nil_iff (r.completeWindow now) now
  rw [hcomplete.1, hcomplete.2, or_iff_right hlive] at hnext
  unfold afterPart
  dsimp only
  split_ifs with hall hdue hmatched hmatched
  · simp [hall]
  · simp [hmatched]
  · simpa [hmatched, hall, hdue] using hnext
  · simp [hmatched]
  · simp only [ne_eq, not_true_eq_false, hmatched, hall, false_or, false_iff]
    tauto

theorem lastActivity_afterPart {now : ℚ} (h : r.lastActivity = now) (matched : Bool) :
    (r.afterPart matched now).1.lastActivity = now := by
  have hcomplete : (r.completeWindow now).lastActivity = r.lastActivity := by
    unfold completeWindow
    dsimp only
    split_ifs <;> rfl
  unfold afterPart
  dsimp only
  split_ifs <;> first | exact h | exact lastActivity_requestNext (hcomplete.trans h)

theorem placePart_kept (data : Bytes) :
    (r.placePart P data).1.status = r.status ∧ (r.placePart P data).1.lastActivity = r.lastActivity ∧
      (r.placePart P data).1.hashmap = r.hashmap ∧
      ((r.placePart P data).2 = false → (r.placePart P data).1 = r) := by
  rcases placePart_cases P r data with hkept | ⟨i, hstored⟩
  · simp [hkept]
  · rw [hstored]
    exact ⟨rfl, rfl, rfl, nofun⟩

theorem receivePart_ne_nil_iff (hlive : r.status ≠ .failed) (data : Bytes) (now : ℚ) :
    (r.receivePart P data now).2 ≠ [] ↔ r.AnswersPart P data := by
  have hsame := sameProgress_notePart r data.length now
  have hnoted := outstandingParts_notePart (r := r) data.length now
  have hplaced := placePart_kept (r := r.notePart data.length now) P data
  have hstatus : ((r.notePart data.length now).placePart P data).1.status ≠ .failed := by
    rw [hplaced.1]
    exact nofun
  rw [receivePart, if_neg hlive]
  dsimp only
  rw [afterPart_ne_nil_iff hstatus, AnswersPart]
  have hmatched := placePart_matched_iff P (r.notePart data.length now) data
  rw [hsame.randomHash, matchingSlot_notePart] at hmatched
  have hmissing : ∀ i, (r.notePart data.length now).missing i = r.missing i := fun i => by
    rw [missing, hsame.parts, missing]
  simp only [hmissing] at hmatched
  rw [← hmatched]
  by_cases hfits : ((r.notePart data.length now).placePart P data).2 = true
  · simp [hfits]
  · rw [Bool.not_eq_true] at hfits
    rw [hplaced.2.2.2 hfits, hsame.receivedCount, hsame.totalParts, hnoted.1, hnoted.2.1]

theorem lastActivity_receivePart (hlive : r.status ≠ .failed) (data : Bytes) (now : ℚ) :
    (r.receivePart P data now).1.lastActivity = now := by
  have hplaced := (placePart_kept (r := r.notePart data.length now) P data).2.1
  rw [receivePart, if_neg hlive]
  exact lastActivity_afterPart (hplaced.trans (outstandingParts_notePart ..).2.2) _

theorem hashmap_receivePart (data : Bytes) (now : ℚ) :
    (r.receivePart P data now).1.hashmap = r.hashmap := by
  unfold receivePart
  split_ifs
  · rfl
  · dsimp only
    rw [(sameProgress_afterPart _ _ now).hashmap, (placePart_kept P data).2.2.1,
      (sameProgress_notePart ..).hashmap]

def settle (decrypt : Bytes → Option Bytes) (compressor : Compressor) (r : ResourceReceiver) :
    ResourceReceiver :=
  if r.receivedCount = r.totalParts then (r.assemble P decrypt compressor).1 else r

variable (decrypt : Bytes → Option Bytes) (compressor : Compressor)

theorem sameProgress_settle (r : ResourceReceiver) :
    SameProgress r (r.settle P decrypt compressor) := by
  unfold settle
  split_ifs
  · exact sameProgress_assemble ..
  · exact .refl r

theorem lastActivity_settle (r : ResourceReceiver) :
    (r.settle P decrypt compressor).lastActivity = r.lastActivity := by
  have hfinish : ∀ (r : ResourceReceiver) (data : Bytes),
      (r.finish P data).1.lastActivity = r.lastActivity := by
    intro r data
    unfold finish corruptActions
    dsimp only
    split
    · rfl
    · split <;> rfl
  unfold settle assemble
  split_ifs
  · rfl
  · rfl
  · dsimp only
    split
    · rfl
    · split
      · rfl
      · exact hfinish _ _
  · rfl

theorem status_ne_failed_of_not_ended (h : ¬r.ended) : r.status ≠ .failed := by
  intro hfailed
  simp [ended, hfailed, ResourceStatus.code] at h

theorem settle_receivePart_of_silent (h : ¬r.ended) (data : Bytes) (now : ℚ)
    (hsilent : (r.receivePart P data now).2 = []) :
    (r.receivePart P data now).1.settle P decrypt compressor = (r.receivePart P data now).1 := by
  have hlive := status_ne_failed_of_not_ended h
  have hstatus : ((r.notePart data.length now).placePart P data).1.status ≠ .failed := by
    rw [(placePart_kept P data).1]
    exact nofun
  rw [receivePart, if_neg hlive] at hsilent ⊢
  dsimp only at hsilent ⊢
  have hsame := sameProgress_afterPart ((r.notePart data.length now).placePart P data).1
    ((r.notePart data.length now).placePart P data).2 now
  have hsome := not_imp_not.2 (afterPart_ne_nil_iff hstatus _ now).2 (not_not_intro hsilent)
  refine if_neg fun hall => hsome (.inr (.inl ?_))
  rw [← hsame.receivedCount, ← hsame.totalParts, hall]

theorem offered_part (data : Bytes) (now : ℚ) :
    Offered ended (fun r => ((r.receivePart P data now).1.settle P decrypt compressor,
        (r.receivePart P data now).2))
      (fun r => ¬r.ended) (AnswersPart P data) (expects P data) where
  idle r h := if_pos (not_not.1 h)
  answers r h := by
    rw [offerOne, if_neg h, receivePart_ne_nil_iff P (status_ne_failed_of_not_ended h)]
  meant r := by
    unfold offerOne
    split_ifs
    · rfl
    · have hsame := sameProgress_settle P decrypt compressor (r.receivePart P data now).1
      simp only [expects, hsame.hashmap, hsame.randomHash, hashmap_receivePart,
        (sameTransfer_receivePart ..).randomHash]

end ResourceReceiver

/-! ## Packets of a transfer -/

/-- A packet of a transfer that already runs, as a link takes it. -/
inductive TransferPacket where
  | request (plaintext : Bytes)
  | hashmapUpdate (plaintext : Bytes)
  | cancelInitiator (plaintext : Bytes)
  | cancelReceiver (plaintext : Bytes)
  | part (data : Bytes)

variable (P : Primitives) (E : LinkEnv)

namespace TransferPacket

open ManagedLink

variable (t : TransferPacket) (l : ManagedLink)

/-- The packets that decrypt; a part is not encrypted by itself. -/
def ofPacket (packet : RawPacket) : Option TransferPacket :=
  if packet.context = resourceReq then (l.decrypt E packet.data).map .request
  else if packet.context = PacketContext.resourceHmu then
    (l.decrypt E packet.data).map .hashmapUpdate
  else if packet.context = resourceIcl then
    (l.decrypt E packet.data).map .cancelInitiator
  else if packet.context = PacketContext.resourceRcl then
    (l.decrypt E packet.data).map .cancelReceiver
  else if packet.context = resource then some (.part packet.data)
  else none

def handle (linkId : LinkId) (rng : Entropy) (now : ℚ) : ManagedLink × List LinkManagerAction :=
  match t with
  | request plaintext => l.handleResourceReq P E linkId plaintext rng now
  | hashmapUpdate plaintext => l.handleResourceHmu P E linkId plaintext rng now
  | cancelInitiator _ => l.handleResourceIcl linkId
  | cancelReceiver _ => l.handleResourceRcl linkId
  | part data => l.handleResourcePart P E linkId data rng now

/-- The incoming transfers that a packet belongs to: those with the resource hash it carries, or that
expect the part. -/
def incoming (r : ResourceReceiver) : Bool :=
  match t with
  | hashmapUpdate plaintext | cancelInitiator plaintext => r.resourceHash = plaintext.take 32
  | part data => r.expects P data
  | request _ | cancelReceiver _ => false

/-- The outgoing transfers that a packet belongs to. -/
def outgoing (s : ResourceSender) : Bool :=
  match t with
  | request plaintext => s.resourceHash.toList = requestedResource plaintext
  | cancelReceiver plaintext => s.resourceHash.toList = plaintext.take 32
  | hashmapUpdate _ | cancelInitiator _ | part _ => false

def alone : ManagedLink :=
  { l with
    incomingResources := l.incomingResources.filter (t.incoming P)
    outgoingResources := l.outgoingResources.filter t.outgoing }

/-- The transfers that a packet does not belong to are as before, in both directions, and so are the
split transfers of which they are segments. -/
structure Undisturbed (t : TransferPacket) (l l' : ManagedLink) : Prop where
  incoming : l'.incomingResources.filter (!t.incoming P ·) =
    l.incomingResources.filter (!t.incoming P ·)
  outgoing : l'.outgoingResources.filter (!t.outgoing ·) = l.outgoingResources.filter (!t.outgoing ·)
  incomingSplits : ∀ key, (∀ r ∈ l.incomingResources, t.incoming P r → splitKey r ≠ some key) →
    l'.incomingSplits[key]? = l.incomingSplits[key]?
  outgoingSplits : ∀ key,
    (∀ s ∈ l.outgoingResources, t.outgoing s → s.flags.split → s.originalHash ≠ key) →
      l'.outgoingSplits[key]? = l.outgoingSplits[key]?

/-- The packet does not come across a transfer it does not belong to.  A cancellation comes across
all of its direction; the other packets go from one transfer to the next until one answers, past those
that have ended. -/
def Clear : Prop :=
  match t with
  | request plaintext => MeantUpToFirst (fun s => ¬s.waitsForTurn ∧ s.status ≠ .failed)
      (Answers plaintext) (request plaintext).outgoing l.outgoingResources
  | hashmapUpdate plaintext => MeantUpToFirst (fun r => r.status ≠ .failed)
      (fun _ => (parseHmu plaintext).isSome) ((hashmapUpdate plaintext).incoming P)
      l.incomingResources
  | cancelInitiator plaintext =>
    (∀ r ∈ l.incomingResources, (cancelInitiator plaintext).incoming P r) ∧
      ∀ key ∈ l.incomingSplits, ∃ r ∈ l.incomingResources, splitKey r = some key
  | cancelReceiver plaintext =>
    (∀ s ∈ l.outgoingResources, (cancelReceiver plaintext).outgoing s) ∧
      ∀ key ∈ l.outgoingSplits, ∃ s ∈ l.outgoingResources, s.flags.split ∧ s.originalHash = key
  | part data => MeantUpToFirst (fun r => ¬r.ended) (AnswersPart P data)
      ((part data).incoming P) l.incomingResources

theorem handleContext_of_ofPacket {l : ManagedLink} {packet : RawPacket} {t : TransferPacket}
    (h : ofPacket E l packet = some t) (m : LinkManager) (linkId : LinkId) (packetHash : Hash32)
    (rng : Entropy) (now : ℚ) : m.handleContext P E l linkId packet packetHash rng now =
      l.inbound linkId now fun l => t.handle P E l linkId rng now := by
  unfold ofPacket at h
  split_ifs at h with hreq hhmu hicl hrcl hpart
  · obtain ⟨plaintext, hplain, rfl⟩ := Option.map_eq_some_iff.1 h
    simp only [handleContext, hreq, decrypted, hplain]
    rfl
  · obtain ⟨plaintext, hplain, rfl⟩ := Option.map_eq_some_iff.1 h
    simp only [handleContext, hhmu, decrypted, hplain]
    rfl
  · obtain ⟨plaintext, hplain, rfl⟩ := Option.map_eq_some_iff.1 h
    simp only [handleContext, hicl]
    rfl
  · obtain ⟨plaintext, hplain, rfl⟩ := Option.map_eq_some_iff.1 h
    simp only [handleContext, hrcl]
    rfl
  · obtain rfl := Option.some.inj h
    simp only [handleContext, hpart]
    rfl

/-! ## What each packet writes -/

variable (l : ManagedLink) (linkId : LinkId) (rng : Entropy) (now : ℚ)

def offerRequest (plaintext : Bytes) (now : ℚ) (senders : List ResourceSender) :=
  offer waitsForTurn (fun s => s.handleRequest plaintext now) senders

/-- What the answer of a sender becomes. -/
def requestOutput (plaintext : Bytes) :
    Option (ResourceSender × List ResourceAction) → List LinkManagerAction
  | none => []
  | some (before, actions) =>
    let sender := (offerOne waitsForTurn (fun s => s.handleRequest plaintext now) before).1
    (l.processResourceActions P E linkId rng actions).2 ++
      (l.reportSent before sender).2.toList.map fun (sent, total) => .resourceProgress linkId sent total

variable (plaintext : Bytes)

theorem sameResource_offerOne (s : ResourceSender) : s.SameResource
    (offerOne waitsForTurn (fun s => s.handleRequest plaintext now) s).1 := by
  unfold offerOne
  split_ifs
  · exact .refl s
  · exact sameResource_handleRequest ..

theorem reportSent_snd (l l' : ManagedLink) (hsplits : l'.outgoingSplits = l.outgoingSplits)
    (before s : ResourceSender) : (l'.reportSent before s).2 = (l.reportSent before s).2 := by
  unfold reportSent
  rw [hsplits]
  split_ifs
  · rfl
  · cases l.outgoingSplits[s.originalHash]? <;> rfl
  · rfl

theorem handle_request :
    (∃ engine outgoingSplits, ((request plaintext).handle P E l linkId rng now).1 = { l with
        engine
        outgoingSplits
        outgoingResources := (offerRequest plaintext now l.outgoingResources).1 } ∧
      ∀ key, (∀ i before actions,
          (offerRequest plaintext now l.outgoingResources).2 = some (i, before, actions) →
            before.flags.split → before.originalHash ≠ key) →
        outgoingSplits[key]? = l.outgoingSplits[key]?) ∧
    ((request plaintext).handle P E l linkId rng now).2 = requestOutput P E l linkId rng now plaintext
      ((offerRequest plaintext now l.outgoingResources).2.map snd) := by
  simp only [handle, handleResourceReq, offerRequest]
  generalize ho : offer waitsForTurn (fun s => s.handleRequest plaintext now)
    l.outgoingResources = o
  obtain ⟨senders, answer⟩ := o
  cases answer with
  | none => exact ⟨⟨_, _, rfl, fun _ _ => rfl⟩, rfl⟩
  | some answer =>
    obtain ⟨i, before, actions⟩ := answer
    have hget := (offer_answer (congrArg snd ho)).2.2
    rw [ho] at hget
    have hsender := List.getD_eq_getElem?_getD (l := senders) (i := i) (a := before)
    rw [hget, Option.getD_some] at hsender
    have hsame := sameResource_offerOne now plaintext before
    dsimp only
    rw [hsender]
    obtain ⟨splits, hreport, hothers⟩ := reportSent_frame { l with outgoingResources := senders } before
      (offerOne waitsForTurn (fun s => s.handleRequest plaintext now) before).1
    rw [hreport, reportSent_snd l { l with outgoingResources := senders } rfl]
    obtain ⟨engine, hprocess⟩ := processResourceActions_frame P E linkId
      { l with outgoingResources := senders, outgoingSplits := splits } ..
    have hsession : SameSession l { l with outgoingResources := senders, outgoingSplits := splits } :=
      ⟨rfl, rfl, rfl⟩
    refine ⟨⟨engine, splits, hprocess, fun key hkey => hothers key ?_⟩, ?_⟩
    · rw [hsame.flags, hsame.originalHash]
      exact hkey i before actions rfl
    · rw [hsession.processResourceActions]
      rfl

theorem handle_hashmapUpdate :
    (∃ engine, ((hashmapUpdate plaintext).handle P E l linkId rng now).1 = { l with
      engine
      incomingResources := (offer (fun _ => false) (fun r => r.handleHashmapUpdate plaintext now)
        l.incomingResources).1 }) ∧
    ((hashmapUpdate plaintext).handle P E l linkId rng now).2 =
      (l.processResourceActions P E linkId rng (((offer (fun _ => false)
        (fun r => r.handleHashmapUpdate plaintext now) l.incomingResources).2.map snd).elim []
          snd)).2 := by
  simp only [handle, handleResourceHmu]
  generalize offer (fun _ => false) (fun r => r.handleHashmapUpdate plaintext now)
    l.incomingResources = o
  obtain ⟨receivers, answer⟩ := o
  cases answer with
  | none => exact ⟨⟨_, rfl⟩, rfl⟩
  | some answer =>
    have hsession : SameSession l { l with incomingResources := receivers } := ⟨rfl, rfl, rfl⟩
    exact ⟨processResourceActions_frame ..,
      hsession.processResourceActions P E linkId ..⟩

/-- A part offered to the receivers of a link, and put together with the others where it is the
last. -/
def offerPart (data : Bytes) (now : ℚ) (receivers : List ResourceReceiver) :=
  offer ended (fun r => ((r.receivePart P data now).1.settle P (l.decrypt E) E.compressor,
    (r.receivePart P data now).2)) receivers

/-- What the answer of a receiver becomes. -/
def partOutput (data : Bytes) :
    Option (ResourceReceiver × List ResourceAction) → List LinkManagerAction
  | none => []
  | some (before, actions) => (l.finishPart P E linkId 0
      (offerOne ended (fun r => r.receivePart P data now) before).1 actions rng).2

theorem sameTransfer_offerOne (data : Bytes) (r : ResourceReceiver) : r.SameTransfer
    (offerOne ended (fun r => r.receivePart P data now) r).1 := by
  unfold offerOne
  split_ifs
  · exact (SameProgress.refl r).sameTransfer
  · exact sameTransfer_receivePart ..

theorem handle_part (data : Bytes) :
    (∃ engine incomingSplits, ((part data).handle P E l linkId rng now).1 = { l with
        engine
        incomingSplits
        incomingResources := (offerPart P E l data now l.incomingResources).1 } ∧
      ∀ key, (∀ i before actions,
          (offerPart P E l data now l.incomingResources).2 = some (i, before, actions) →
            splitKey before ≠ some key) →
        incomingSplits[key]? = l.incomingSplits[key]?) ∧
    ((part data).handle P E l linkId rng now).2 = partOutput P E l linkId rng now data
      ((offerPart P E l data now l.incomingResources).2.map snd) := by
  have hquiet : ∀ r : ResourceReceiver, ¬r.ended → (r.receivePart P data now).2 = [] →
      (r.receivePart P data now).1.settle P (l.decrypt E) E.compressor = (r.receivePart P data now).1 :=
    fun _ hended => settle_receivePart_of_silent P _ _ hended data now
  have hfinish := offer_finish hquiet l.incomingResources
  simp only [handle, handleResourcePart, offerPart]
  rw [hfinish]
  generalize ho : offer ended (fun r => r.receivePart P data now)
    l.incomingResources = o
  obtain ⟨receivers, answer⟩ := o
  cases answer with
  | none => exact ⟨⟨_, _, rfl, fun _ _ => rfl⟩, rfl⟩
  | some answer =>
    obtain ⟨i, before, actions⟩ := answer
    have hget := (offer_answer (congrArg snd ho)).2.2
    rw [ho] at hget
    have hreceiver := List.getD_eq_getElem?_getD (l := receivers) (i := i) (a := before)
    rw [hget, Option.getD_some] at hreceiver
    have hsame := sameTransfer_offerOne P now data before
    dsimp only
    rw [hreceiver]
    generalize hr : (offerOne ended (fun r => r.receivePart P data now) before).1 = r
      at hget hreceiver hsame ⊢
    obtain ⟨engine, splits, hpart, hothers⟩ := finishPart_frame P E linkId
      { l with incomingResources := receivers } ..
    have hsession : SameSession l { l with incomingResources := receivers } := ⟨rfl, rfl, rfl⟩
    have hkey : splitKey r = splitKey before := by
      rw [splitKey, hsame.flags, hsame.originalHash, splitKey]
    have hsettle : receivers.modify i (settle P (l.decrypt E) E.compressor) =
        if r.receivedCount = r.totalParts then
          receivers.set i (r.assemble P (l.decrypt E) E.compressor).1
        else receivers := by
      obtain ⟨hi, rfl⟩ := List.getElem?_eq_some_iff.1 hget
      rw [List.modify_eq_set_getElem?, hget]
      simp only [settle, Option.map_eq_map, Option.map_some, Option.getD_some]
      split_ifs with hall
      · rfl
      · exact List.set_getElem_self hi
    refine ⟨⟨engine, splits, ?_, fun key hfree => hothers key ?_⟩, ?_⟩
    · rw [hsettle]
      exact hpart
    · rw [hkey]
      exact hfree i before actions rfl
    · simp only [Option.map_some, partOutput, hr]
      exact hsession.finishPart P E linkId rfl ..

theorem handle_cancelInitiator : ((cancelInitiator plaintext).handle P E l linkId rng now).1 =
      { l with incomingResources := [], incomingSplits := ∅ } := by
  have hnone : ((l.incomingResources.map handleCancel).map fst).filter
      (fun r => decide (r.status.code < ResourceStatus.complete.code)) = [] := by
    rw [List.filter_eq_nil_iff, List.map_map]
    intro r' hr'
    obtain ⟨r, -, rfl⟩ := List.mem_map.1 hr'
    unfold Function.comp handleCancel
    split_ifs with hrunning
    · simp [ResourceStatus.code]
    · simpa using hrunning
  simp only [handle, handleResourceIcl]
  rw [hnone]

theorem handle_cancelReceiver : ((cancelReceiver plaintext).handle P E l linkId rng now).1 =
      { l with outgoingResources := [], outgoingSplits := ∅ } := by
  have hnone : unfinishedSenders ((l.outgoingResources.map handleReject).map fst) = [] := by
    rw [unfinishedSenders, List.filter_eq_nil_iff, List.map_map]
    intro s' hs'
    obtain ⟨s, -, rfl⟩ := List.mem_map.1 hs'
    exact of_decide_eq_false rfl
  simp only [handle, handleResourceRcl]
  rw [hnone]

/-! ## When a packet leaves other transfers alone -/

variable {P E l linkId rng now} {t : TransferPacket}

section

variable (h : t.Clear P l) (E : LinkEnv) (linkId : LinkId) (rng : Entropy) (now : ℚ)
include h

theorem Clear.undisturbed : t.Undisturbed P l (t.handle P E l linkId rng now).1 := by
  cases t with
  | request plaintext =>
    have hoffered := offered_request plaintext now
    obtain ⟨⟨engine, splits, hwrites, hothers⟩, -⟩ := handle_request ..
    rw [hwrites]
    refine ⟨rfl, hoffered.others h, fun _ _ => rfl, fun key hkey => hothers key ?_⟩
    intro i before actions hanswer
    obtain ⟨hmem, hmeant⟩ := hoffered.meant_answer h hanswer
    exact hkey before hmem hmeant
  | hashmapUpdate plaintext =>
    obtain ⟨⟨engine, hwrites⟩, -⟩ := handle_hashmapUpdate ..
    rw [hwrites]
    exact ⟨(offered_hashmapUpdate ..).others h, rfl, fun _ _ => rfl, fun _ _ => rfl⟩
  | cancelInitiator plaintext =>
    rw [handle_cancelInitiator]
    have hnone : l.incomingResources.filter (!(cancelInitiator plaintext).incoming P ·) = [] :=
      List.filter_eq_nil_iff.2 fun r hr => by simp [h.1 r hr]
    refine ⟨hnone.symm, rfl, fun key hkey => ?_, fun _ _ => rfl⟩
    rw [getElem?_empty, eq_comm, getElem?_eq_none]
    intro hmem
    obtain ⟨r, hr, hsplit⟩ := h.2 key hmem
    exact hkey r hr (h.1 r hr) hsplit
  | cancelReceiver plaintext =>
    rw [handle_cancelReceiver]
    have hnone : l.outgoingResources.filter (!(cancelReceiver plaintext).outgoing ·) = [] :=
      List.filter_eq_nil_iff.2 fun s hs => by simp [h.1 s hs]
    refine ⟨rfl, hnone.symm, fun _ _ => rfl, fun key hkey => ?_⟩
    rw [getElem?_empty, eq_comm, getElem?_eq_none]
    intro hmem
    obtain ⟨s, hs, hsplit, heq⟩ := h.2 key hmem
    exact hkey s hs (h.1 s hs) hsplit heq
  | part data =>
    have hoffered := offered_part P (l.decrypt E) E.compressor data now
    obtain ⟨⟨engine, splits, hwrites, hothers⟩, -⟩ := handle_part ..
    rw [hwrites]
    refine ⟨hoffered.others h, rfl, fun key hkey => hothers key ?_, fun _ _ => rfl⟩
    intro i before actions hanswer
    obtain ⟨hmem, hmeant⟩ := hoffered.meant_answer h hanswer
    exact hkey before hmem hmeant

theorem Clear.alone :
    (t.handle P E (t.alone P l) linkId rng now).2 = (t.handle P E l linkId rng now).2 := by
  have hsession : SameSession l (t.alone P l) := ⟨rfl, rfl, rfl⟩
  cases t with
  | request plaintext =>
    have halone := (offered_request plaintext now).answer_alone h
    rw [(handle_request ..).2, (handle_request ..).2]
    have houtput : requestOutput P E ((request plaintext).alone P l) linkId rng now plaintext =
        requestOutput P E l linkId rng now plaintext := by
      funext answer
      cases answer with
      | none => rfl
      | some answer =>
        simp only [requestOutput, hsession.processResourceActions,
          reportSent_snd l ((request plaintext).alone P l) rfl]
    rw [houtput]
    exact congrArg _ halone
  | hashmapUpdate plaintext =>
    have halone := (offered_hashmapUpdate plaintext now).answer_alone h
    rw [(handle_hashmapUpdate ..).2,
      (handle_hashmapUpdate ..).2, hsession.processResourceActions]
    exact congrArg (fun answer => (l.processResourceActions P E linkId rng (answer.elim [] snd)).2)
      halone
  | cancelInitiator plaintext =>
    have hall : l.incomingResources.filter .. =
        l.incomingResources := List.filter_eq_self.2 h.1
    simp only [handle, handleResourceIcl, TransferPacket.alone, hall]
  | cancelReceiver plaintext =>
    have hall : l.outgoingResources.filter .. = l.outgoingResources :=
      List.filter_eq_self.2 h.1
    simp only [handle, handleResourceRcl, TransferPacket.alone, hall]
  | part data =>
    have halone := (offered_part P (l.decrypt E) E.compressor data now).answer_alone h
    rw [(handle_part ..).2, (handle_part ..).2]
    have houtput : partOutput P E ((part data).alone P l) linkId rng now data =
        partOutput P E l linkId rng now data := by
      funext answer
      cases answer with
      | none => rfl
      | some answer => exact hsession.finishPart P E linkId rfl ..
    rw [houtput]
    exact congrArg _ halone

end

theorem clear_of_undisturbed {handled : Entropy → ℚ → ManagedLink}
    (hhandled : ∀ rng now, ∃ engine, handled rng now =
      (t.handle P E { l with engine } linkId rng now).1 ∧ engine.token = l.engine.token)
    (h : ∀ rng now, t.Undisturbed P l (handled rng now)) : t.Clear P l := by
  cases t with
  | request plaintext =>
    refine Offered.meantUpToFirst (offered_request plaintext)
      (fun s hs => touched_of_clock lastActivity hs.1
        (lastActivity_handleRequest hs.2 plaintext)) fun now => ?_
    obtain ⟨engine, heq, -⟩ := hhandled .zero now
    obtain ⟨⟨_, _, hwrites, -⟩, -⟩ := handle_request P E { l with engine } ..
    have hsame := (h .zero now).outgoing
    rw [heq, hwrites] at hsame
    exact hsame
  | hashmapUpdate plaintext =>
    refine Offered.meantUpToFirst (offered_hashmapUpdate plaintext)
      (fun r hr => touched_of_clock lastActivity Bool.false_ne_true
        (lastActivity_handleHashmapUpdate hr plaintext)) fun now => ?_
    obtain ⟨engine, heq, -⟩ := hhandled .zero now
    obtain ⟨⟨_, hwrites⟩, -⟩ := handle_hashmapUpdate P E { l with engine } ..
    have hsame := (h .zero now).incoming
    rw [heq, hwrites] at hsame
    exact hsame
  | cancelInitiator plaintext =>
    obtain ⟨engine, heq, -⟩ := hhandled .zero 0
    have hsame := h .zero 0
    rw [heq, handle_cancelInitiator] at hsame
    refine ⟨fun r hr => ?_, fun key hkey => ?_⟩
    · have hnone := List.filter_eq_nil_iff.1 hsame.incoming.symm r hr
      simpa using hnone
    · by_contra hfree
      push Not at hfree
      have hlost := hsame.incomingSplits key fun r hr _ => hfree r hr
      rw [mem_iff_isSome_getElem?, ← hlost] at hkey
      simp at hkey
  | cancelReceiver plaintext =>
    obtain ⟨engine, heq, -⟩ := hhandled .zero 0
    have hsame := h .zero 0
    rw [heq, handle_cancelReceiver] at hsame
    refine ⟨fun s hs => ?_, fun key hkey => ?_⟩
    · have hnone := List.filter_eq_nil_iff.1 hsame.outgoing.symm s hs
      simpa using hnone
    · by_contra hfree
      push Not at hfree
      have hlost := hsame.outgoingSplits key fun s hs _ => hfree s hs
      rw [mem_iff_isSome_getElem?, ← hlost] at hkey
      simp at hkey
  | part data =>
    refine Offered.meantUpToFirst (offered_part P (l.decrypt E) E.compressor data)
      (fun r hr => touched_of_clock lastActivity hr fun now => by
        rw [lastActivity_settle, lastActivity_receivePart P
          (status_ne_failed_of_not_ended hr)]) fun now => ?_
    obtain ⟨engine, heq, htoken⟩ := hhandled .zero now
    obtain ⟨⟨_, _, hwrites, -⟩, -⟩ := handle_part P E { l with engine } ..
    have hdecrypt : { l with engine }.decrypt E = l.decrypt E := by
      funext ciphertext
      simp only [decrypt, htoken]
    have hsame := (h .zero now).incoming
    rw [heq, hwrites, offerPart, hdecrypt] at hsame
    exact hsame

end TransferPacket

namespace LinkManager

open ManagedLink TransferPacket

variable {m : LinkManager} {l : ManagedLink} {linkId : LinkId} {packet : RawPacket} {raw : Bytes}
  {t : TransferPacket}

theorem handleLocalDelivery_of_ofPacket (hlink : m.links[linkId]? = some l)
    (hunpack : RawPacket.unpack P raw = .ok packet)
    (hdata : packet.flags.packetType = PacketType.data) (ht : ofPacket E l packet = some t)
    (packetHash : Hash32) (interface : Transport.InterfaceId) (rng : Entropy) (now : ℚ) :
    m.handleLocalDelivery P E linkId raw packetHash interface rng now =
      ({ m with links := m.links.insert linkId ((l.noteRoute packet interface).inbound linkId now
          fun l => t.handle P E l linkId rng now).1 },
        ((l.noteRoute packet interface).inbound linkId now
          fun l => t.handle P E l linkId rng now).2) := by
  have hroute : ofPacket E (l.noteRoute packet interface) packet = some t := ht
  rw [handleLocalDelivery, hunpack]
  simp only [hdata]
  rw [if_neg (by decide), if_neg (by decide), if_pos trivial, handleLinkData, onLink, hlink]
  simp only [handleContext_of_ofPacket P E hroute]

theorem transfers_undisturbed_iff (hlink : m.links[linkId]? = some l)
    (hunpack : RawPacket.unpack P raw = .ok packet)
    (hdata : packet.flags.packetType = PacketType.data) (ht : ofPacket E l packet = some t)
    (packetHash : Hash32) (interface : Transport.InterfaceId) :
    (∀ rng now,
      let result := m.handleLocalDelivery P E linkId raw packetHash interface rng now
      let without := { m with links := m.links.insert linkId (t.alone P l) }.handleLocalDelivery P E
        linkId raw packetHash interface rng now
      ∃ l', result.1.links[linkId]? = some l' ∧ t.Undisturbed P l l' ∧ result.2 = without.2) ↔
    t.Clear P l := by
  have hresult := handleLocalDelivery_of_ofPacket P E hlink hunpack hdata ht packetHash interface
  have hwithout := handleLocalDelivery_of_ofPacket P E
    (m := { m with links := m.links.insert linkId (t.alone P l) })
    Std.ExtTreeMap.getElem?_insert_self hunpack hdata ht packetHash interface
  constructor
  · intro h
    have hkept : ∀ rng now, t.Undisturbed P (l.noteRoute packet interface)
        ((l.noteRoute packet interface).inbound linkId now
          fun l => t.handle P E l linkId rng now).1 := by
      intro rng now
      obtain ⟨l', hl', hsame, -⟩ := h rng now
      rw [hresult, Std.ExtTreeMap.getElem?_insert_self] at hl'
      rw [Option.some.inj hl']
      exact ⟨hsame.incoming, hsame.outgoing, hsame.incomingSplits, hsame.outgoingSplits⟩
    have htoken : ∀ now, (l.engine.recordInbound now).1.token = l.engine.token := by
      intro now
      unfold LinkEngine.recordInbound
      split_ifs <;> rfl
    exact clear_of_undisturbed (l := l.noteRoute packet interface)
      (fun rng now => ⟨(l.engine.recordInbound now).1, rfl, htoken now⟩) hkept
  · intro hclear rng now
    have hinbound : ∀ engine, t.Clear P { l.noteRoute packet interface with engine } := fun _ => by
      cases t <;> exact hclear
    have hclear' := hinbound (l.engine.recordInbound now).1
    refine ⟨_, by rw [hresult]; exact Std.ExtTreeMap.getElem?_insert_self, ?_, ?_⟩
    · have hsame := hclear'.undisturbed E linkId rng now
      exact ⟨hsame.incoming, hsame.outgoing, hsame.incomingSplits, hsame.outgoingSplits⟩
    · rw [hresult, hwithout]
      exact congrArg (List.append _) (hclear'.alone ..).symm

def sealed (context : UInt8) (plaintext : Bytes) : Bytes :=
  forged PacketType.data context (LinkEngine.zeroToken.cipher .sample (.replicate 16 0) plaintext)

def twoIncoming : ManagedLink :=
  let first := (Transfer.sampleReceiver.accept 0).1
  { ManagedLink.sample false with
    incomingResources := [first, { first with resourceHash := List.replicate 32 5, hashmap := [none] }] }

def oneOutgoing : ManagedLink :=
  { ManagedLink.sample true with outgoingResources := [(Transfer.sampleSender.advertise 0).1] }

theorem transfers_undisturbed_iff_part :
    let m := sample twoIncoming
    let id : LinkId := .replicate 16 0
    let raw := forged PacketType.data resource [7, 7, 7, 7]
    let t := TransferPacket.part [7, 7, 7, 7]
    (∀ rng now,
      let result := m.handleLocalDelivery .sample .sample id raw (.replicate 32 0) ⟨1⟩ rng now
      let without := { m with links := m.links.insert id (t.alone .sample twoIncoming) }.handleLocalDelivery
        .sample .sample id raw (.replicate 32 0) ⟨1⟩ rng now
      ∃ l', result.1.links[id]? = some l' ∧ t.Undisturbed .sample twoIncoming l' ∧
        result.2 = without.2) ↔ t.Clear .sample twoIncoming :=
  transfers_undisturbed_iff .sample .sample (links_sample ..) rfl rfl rfl _ _

/-- The cancellation of one transfer ends the other, and a sender answers a request that names the
hash of another resource. -/
theorem packets_hit_other_transfers :
    let id : LinkId := .replicate 16 0
    let hash := Transfer.sampleReceiver.resourceHash
    let cancelled := (sample twoIncoming).handleLocalDelivery .sample .sample id
      (sealed resourceIcl hash) (.replicate 32 0) ⟨1⟩ .zero 5
    let request := hashmapIsNotExhausted :: List.replicate 32 5 ++
      buildHashmap (Transfer.sampleSender.partHashes.take 1)
    let answered := (sample oneOutgoing).handleLocalDelivery .sample .sample id
      (sealed resourceReq request) (.replicate 32 0) ⟨1⟩ .zero 5
    twoIncoming.decrypt .sample (LinkEngine.zeroToken.cipher .sample (.replicate 16 0) hash) = some hash ∧
      twoIncoming.incomingResources.map (fun r => (r.status, decide (r.resourceHash = hash))) =
        [(.transferring, true), (.transferring, false)] ∧
      cancelled.1.links[id]?.map (fun l => l.incomingResources.length) = some 0 ∧
      (∀ s ∈ oneOutgoing.outgoingResources,
        s.resourceHash.toList ≠ ResourceSender.requestedResource request) ∧
      answered.2.length = 2 := by
  decide +kernel

end LinkManager

end Rns
