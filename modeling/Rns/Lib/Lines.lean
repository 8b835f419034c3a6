import Mathlib.Tactic
import Mathlib.Data.List.Basic

/-!
# Lines with their line breaks

A list cut behind every separator.  Leaving out lines leaves lines.
-/

namespace Rns

variable {α : Type*}

def splitInclusive [DecidableEq α] (sep : α) : List α → List (List α)
  | [] => []
  | x :: xs =>
    if x = sep then [sep] :: splitInclusive sep xs
    else match splitInclusive sep xs with
      | [] => [[x]]
      | line :: rest => (x :: line) :: rest

/-- Lines as they are cut. -/
inductive Lines (sep : α) : List (List α) → Prop
  | nil : Lines sep []
  | last {line : List α} (hne : line ≠ []) (hsep : sep ∉ line) : Lines sep [line]
  | cons (line : List α) {rest : List (List α)} (hsep : sep ∉ line) (hrest : Lines sep rest) :
      Lines sep ((line ++ [sep]) :: rest)

variable {sep : α}

variable {lines : List (List α)} {line : List α}

theorem Lines.ne_nil (h : Lines sep lines) : ∀ line ∈ lines, line ≠ [] := by
  induction h with
  | nil => exact nofun
  | last hne hsep => simpa using hne
  | cons line hsep hrest ih => simpa using ih

theorem Lines.sublist {lines lines' : List (List α)} (h : Lines sep lines)
    (hsub : lines'.Sublist lines) : Lines sep lines' := by
  induction h generalizing lines' with
  | nil => rw [List.sublist_nil.mp hsub]; exact .nil
  | @last line hne hsep =>
    rcases List.sublist_singleton.mp hsub with rfl | rfl
    · exact .nil
    · exact .last hne hsep
  | cons line hsep hrest ih =>
    cases hsub with
    | cons _ hsub => exact ih hsub
    | cons_cons _ hsub => exact .cons _ hsep (ih hsub)

section

variable [DecidableEq α]

theorem lines_splitInclusive (s : List α) : Lines sep (splitInclusive sep s) := by
  induction s with
  | nil => exact .nil
  | cons x xs ih =>
    rw [splitInclusive]
    split_ifs with hx
    · exact .cons [] List.not_mem_nil ih
    · generalize splitInclusive sep xs = lines at ih ⊢
      cases ih with
      | nil => exact .last (List.cons_ne_nil _ _) (by simpa using Ne.symm hx)
      | last hne hsep => exact .last (List.cons_ne_nil _ _) (by simp [Ne.symm hx, hsep])
      | cons line hsep hrest =>
        exact .cons (x :: line) (by simp [Ne.symm hx, hsep]) hrest

theorem splitInclusive_line (hsep : sep ∉ line) (s : List α) :
    splitInclusive sep (line ++ sep :: s) = (line ++ [sep]) :: splitInclusive sep s := by
  induction line with
  | nil => rw [List.nil_append, splitInclusive, if_pos rfl, List.nil_append]
  | cons x xs ih =>
    rw [List.mem_cons, not_or] at hsep
    obtain ⟨hx, hxs⟩ := hsep
    rw [List.cons_append, splitInclusive, if_neg (Ne.symm hx), ih hxs]
    rfl

theorem splitInclusive_last (hne : line ≠ []) (hsep : sep ∉ line) :
    splitInclusive sep line = [line] := by
  induction line with
  | nil => exact absurd rfl hne
  | cons x xs ih =>
    rw [List.mem_cons, not_or] at hsep
    obtain ⟨hx, hxs⟩ := hsep
    rw [splitInclusive, if_neg (Ne.symm hx)]
    cases xs with
    | nil => rfl
    | cons => rw [ih (List.cons_ne_nil _ _) hxs]

theorem Lines.splitInclusive_flatten (h : Lines sep lines) :
    splitInclusive sep lines.flatten = lines := by
  induction h with
  | nil => rfl
  | last hne hsep =>
    rw [List.flatten_cons, List.flatten_nil, List.append_nil, splitInclusive_last hne hsep]
  | cons line hsep hrest ih =>
    rw [List.flatten_cons, List.append_assoc, List.singleton_append, splitInclusive_line hsep, ih]

end

end Rns
