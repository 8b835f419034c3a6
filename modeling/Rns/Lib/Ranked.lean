import Mathlib.Data.List.Sort
import Mathlib.Tactic

/-!
# Ranked lists

Selecting from and sorting lists by a ranking, with ties resolved as the standard library does.
-/

namespace Rns

section Select

variable {α : Type*} (lt : α → α → Bool)

/-- `Iterator::min_by`: the first of the smallest. -/
def minBy (l : List α) : Option α :=
  l.foldl (fun best x => match best with
    | none => some x
    | some b => if lt x b then some x else some b) none

/-- `Iterator::max_by`: the last of the greatest. -/
def maxBy (l : List α) : Option α :=
  l.foldl (fun best x => match best with
    | none => some x
    | some b => if lt x b then some b else some x) none

theorem foldl_select_mem (step : Option α → α → Option α) (hnone : ∀ x, step none x = some x)
    (hsome : ∀ b x, step (some b) x = some b ∨ step (some b) x = some x) (l : List α)
    (b : Option α) (hne : l ≠ [] ∨ b.isSome) :
    ∃ m, l.foldl step b = some m ∧ (m ∈ l ∨ b = some m) := by
  induction l generalizing b with
  | nil =>
    obtain ⟨m, rfl⟩ := Option.isSome_iff_exists.mp (hne.resolve_left (by simp))
    exact ⟨m, rfl, .inr rfl⟩
  | cons x l ih =>
    have hx : (step b x).isSome ∧ (step b x = some x ∨ step b x = b) := by
      cases b with
      | none => simp [hnone]
      | some b => rcases hsome b x with h | h <;> simp [h]
    obtain ⟨m, hm, hmem⟩ := ih (step b x) (.inr hx.1)
    refine ⟨m, hm, ?_⟩
    rcases hmem with hmem | hmem
    · exact .inl (List.mem_cons_of_mem _ hmem)
    · rcases hx.2 with h | h
      · rw [h] at hmem
        exact .inl (Option.some.inj hmem ▸ List.mem_cons_self)
      · exact .inr (h ▸ hmem)

theorem minBy_mem {l : List α} (hne : l ≠ []) : ∃ m ∈ l, minBy lt l = some m := by
  obtain ⟨m, hm, hmem⟩ := foldl_select_mem (fun best x => match best with
    | none => some x
    | some b => if lt x b then some x else some b) (fun _ => rfl)
    (fun b x => by dsimp only; split_ifs <;> simp) l none (.inl hne)
  exact ⟨m, hmem.resolve_right (by simp), hm⟩

theorem mem_of_minBy {l : List α} {m : α} (h : minBy lt l = some m) : m ∈ l := by
  have hne : l ≠ [] := by
    rintro rfl
    cases h
  obtain ⟨m', hmem, hm'⟩ := minBy_mem lt hne
  exact Option.some.inj (h.symm.trans hm') ▸ hmem

theorem minBy_eq_none {l : List α} (h : minBy lt l = none) : l = [] := by
  by_contra hne
  obtain ⟨m, -, hm⟩ := minBy_mem lt hne
  exact nomatch h.symm.trans hm

theorem maxBy_mem {l : List α} (hne : l ≠ []) : ∃ m ∈ l, maxBy lt l = some m := by
  obtain ⟨m, hm, hmem⟩ := foldl_select_mem (fun best x => match best with
    | none => some x
    | some b => if lt x b then some b else some x) (fun _ => rfl)
    (fun b x => by dsimp only; split_ifs <;> simp) l none (.inl hne)
  exact ⟨m, hmem.resolve_right (by simp), hm⟩

theorem le_of_maxBy_eq_some {β : Type*} [Preorder β] (g : α → β) (hlt : ∀ a b, lt a b → g a ≤ g b)
    (hge : ∀ a b, ¬lt a b → g b ≤ g a) {l : List α} {m : α} (h : maxBy lt l = some m) :
    ∀ x ∈ l, g x ≤ g m := by
  suffices hfold : ∀ (l : List α) (b : Option α), l.foldl (fun best x => match best with
      | none => some x
      | some b => if lt x b then some b else some x) b = some m →
      (∀ c, b = some c → g c ≤ g m) ∧ ∀ x ∈ l, g x ≤ g m from (hfold l none h).2
  intro l
  induction l with
  | nil =>
    rintro b rfl
    exact ⟨fun c hc => (Option.some.inj hc) ▸ le_refl _, nofun⟩
  | cons x l ih =>
    intro b hb
    obtain ⟨hbest, hrest⟩ := ih _ hb
    cases b with
    | none => exact ⟨nofun, List.forall_mem_cons.mpr ⟨hbest x rfl, hrest⟩⟩
    | some c =>
      dsimp only at hbest
      -- the one that is kept is at least as great as the other
      split_ifs at hbest with hxc
      · have hc := hbest c rfl
        exact ⟨fun _ h => Option.some.inj h ▸ hc,
          List.forall_mem_cons.mpr ⟨(hlt x c hxc).trans hc, hrest⟩⟩
      · have hx := hbest x rfl
        exact ⟨fun _ h => Option.some.inj h ▸ (hge x c hxc).trans hx,
          List.forall_mem_cons.mpr ⟨hx, hrest⟩⟩

end Select

section Sorting

variable {α : Type*} (r : α → α → Prop) [DecidableRel r]

theorem orderedInsert_concat {a e : α} (h : r a e) (l : List α) :
    (l ++ [e]).orderedInsert r a = l.orderedInsert r a ++ [e] := by
  induction l with
  | nil => simp [h]
  | cons b l ih =>
    rw [List.cons_append, List.orderedInsert_cons, List.orderedInsert_cons, ih]
    split_ifs <;> rfl

theorem insertionSort_concat {e : α} {l : List α} (h : ∀ a ∈ l, r a e) :
    (l ++ [e]).insertionSort r = l.insertionSort r ++ [e] := by
  induction l with
  | nil => rfl
  | cons a l ih =>
    rw [List.cons_append, List.insertionSort_cons, List.insertionSort_cons,
      ih fun b hb => h b (by simp [hb]), orderedInsert_concat r (h a (by simp))]

theorem mem_take_insertionSort_concat [Std.Total r] [IsTrans α r] {e : α} {l : List α}
    (he : e ∉ l) : e ∈ ((l ++ [e]).insertionSort r).take l.length ↔ ∃ a ∈ l, ¬r a e := by
  constructor
  · intro hmem
    by_contra hall
    push Not at hall
    rw [insertionSort_concat r hall, List.take_left' (List.length_insertionSort r l)] at hmem
    exact he ((List.perm_insertionSort r l).mem_iff.mp hmem)
  · rintro ⟨a, ha, hrank⟩
    have hperm := List.perm_insertionSort r (l ++ [e])
    have hsorted := List.pairwise_insertionSort r (l ++ [e])
    obtain ⟨init, last, hsplit⟩ : ∃ init last, (l ++ [e]).insertionSort r = init ++ [last] := by
      rcases List.eq_nil_or_concat ((l ++ [e]).insertionSort r) with hnil | ⟨init, last, hconcat⟩
      · have hlen := hperm.length_eq
        simp [hnil] at hlen
      · exact ⟨init, last, by simpa using hconcat⟩
    have hlen : init.length = l.length := by
      have hlen := hperm.length_eq
      rw [hsplit] at hlen
      simpa using hlen
    rw [hsplit] at hperm hsorted
    rw [hsplit, List.take_left' hlen]
    have hmem : e ∈ init ++ [last] := hperm.mem_iff.mpr (by simp)
    rcases List.mem_append.mp hmem with hmem | hmem
    · exact hmem
    · -- the new element would rank behind everything else
      obtain rfl : e = last := List.mem_singleton.mp hmem
      have hane : a ≠ e := fun heq => he (heq ▸ ha)
      have hinit : a ∈ init := by
        have ha' : a ∈ init ++ [e] := hperm.mem_iff.mpr (by simp [ha])
        simpa [hane] using ha'
      exact absurd ((List.pairwise_append.mp hsorted).2.2 a hinit e (by simp)) hrank

/-- The `k` best of a list, in order. -/
def BestOf (k : ℕ) (l best : List α) : Prop :=
  best.Pairwise r ∧ best.length = min k l.length ∧
    ∃ dropped, (best ++ dropped).Perm l ∧ ∀ a ∈ best, ∀ b ∈ dropped, r a b

theorem bestOf_take_insertionSort [Std.Total r] [IsTrans α r] (k : ℕ) {l l' : List α}
    (h : l'.Perm l) : BestOf r k l ((l'.insertionSort r).take k) := by
  have hsorted := List.pairwise_insertionSort r l'
  have hperm := (List.perm_insertionSort r l').trans h
  refine ⟨hsorted.sublist (List.take_sublist k _), ?_, (l'.insertionSort r).drop k, ?_, ?_⟩
  · rw [List.length_take, hperm.length_eq]
  · rwa [List.take_append_drop]
  · rw [← List.take_append_drop k (l'.insertionSort r)] at hsorted
    exact (List.pairwise_append.mp hsorted).2.2

/-- Who comes first in a stable sort ranks strictly before all that stood before, and no later than
all others. -/
theorem head?_insertionSort_iff [Std.Total r] [IsTrans α r] [DecidableEq α] {a : α} {l : List α} :
    (l.insertionSort r).head? = some a ↔
      a ∈ l ∧ (∀ b ∈ l.takeWhile (· ≠ a), ¬r b a) ∧ ∀ b ∈ l, r a b := by
  have hrefl : ∀ x, r x x := fun x => (Std.Total.total x x).elim id id
  induction l with
  | nil => simp
  | cons x l ih =>
    have hperm := List.perm_insertionSort r l
    have hsorted := List.pairwise_insertionSort r l
    rw [List.insertionSort_cons]
    cases hsort : l.insertionSort r with
    | nil =>
      obtain rfl := (hsort ▸ hperm).nil_eq
      by_cases hx : x = a
      · simp [hx, hrefl]
      · simp [hx, Ne.symm hx]
    | cons first rest =>
      rw [hsort] at ih hperm hsorted
      have hleast : ∀ b ∈ l, r first b := fun b hb => by
        rcases List.mem_cons.mp (hperm.mem_iff.mpr hb) with rfl | hb
        · exact hrefl b
        · exact List.rel_of_pairwise_cons hsorted hb
      rw [List.orderedInsert_cons]
      by_cases hx : x = a
      · subst hx
        have hiff : (∀ b ∈ l, r x b) ↔ r x first :=
          ⟨fun h => h first (hperm.mem_iff.mp (by simp)), fun h b hb => trans_of r h (hleast b hb)⟩
        split_ifs with hfirst
        · simp [hiff, hfirst, hrefl]
        · have hne : first ≠ x := fun heq => hfirst (heq ▸ hrefl x)
          simp [hiff, hfirst, hne]
      · simp only [List.head?_cons, Option.some.injEq] at ih
        have hmem : a ∈ x :: l ↔ a ∈ l := by simp [Ne.symm hx]
        rw [hmem, List.takeWhile_cons_of_pos (by simpa using hx), List.forall_mem_cons,
          List.forall_mem_cons]
        split_ifs with hfirst
        · refine iff_of_false (by simpa using hx) fun h => h.2.1.1 ?_
          exact trans_of r hfirst (hleast a h.1)
        · rw [List.head?_cons, Option.some.injEq]
          constructor
          · intro heq
            obtain ⟨ha, hbefore, hall⟩ := ih.mp heq
            exact ⟨ha, ⟨heq ▸ hfirst, hbefore⟩, (Std.Total.total a x).resolve_right (heq ▸ hfirst), hall⟩
          · rintro ⟨ha, hbefore, hall⟩
            exact ih.mpr ⟨ha, hbefore.2, hall.2⟩

end Sorting

end Rns
