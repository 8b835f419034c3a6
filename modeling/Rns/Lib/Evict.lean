import Mathlib.Tactic

/-!
# Eviction loops

A loop that drops one thing after another while there is too much.  If every round makes the rest
smaller, as many rounds as there are things are enough.
-/

namespace Rns

variable {σ : Type*}

/-- The loop, for so many rounds. -/
def evictWhile (full : σ → Prop) [DecidablePred full] (drop : σ → Option σ) : ℕ → σ → σ
  | 0, s => s
  | rounds + 1, s =>
    if full s then match drop s with
      | none => s
      | some s => evictWhile full drop rounds s
    else s

/-- The loop, without a bound on its rounds, ends in the second state. -/
inductive Evicts (full : σ → Prop) (drop : σ → Option σ) : σ → σ → Prop
  | fits {s : σ} (h : ¬full s) : Evicts full drop s s
  | stuck {s : σ} (h : full s) (hdrop : drop s = none) : Evicts full drop s s
  | round {s s' t : σ} (h : full s) (hdrop : drop s = some s') (hrest : Evicts full drop s' t) :
      Evicts full drop s t

section

variable (full : σ → Prop) [DecidablePred full] {drop : σ → Option σ}

theorem evictWhile_keeps {I : σ → Prop} (hdrop : ∀ s s', I s → drop s = some s' → I s')
    (rounds : ℕ) {s : σ} (h : I s) : I (evictWhile full drop rounds s) := by
  induction rounds generalizing s with
  | zero => exact h
  | succ rounds ih =>
    rw [evictWhile]
    split_ifs
    · split
      · exact h
      · next s' hs' => exact ih (hdrop s s' h hs')
    · exact h

variable {size : σ → ℕ} (hsize : ∀ s s', drop s = some s' → size s' < size s)

include hsize

theorem drop_evictWhile {rounds : ℕ} {s : σ} (hrounds : size s < rounds)
    (hfull : full (evictWhile full drop rounds s)) : drop (evictWhile full drop rounds s) = none := by
  induction rounds generalizing s with
  | zero => exact absurd hrounds (Nat.not_lt_zero _)
  | succ rounds ih =>
    rw [evictWhile] at hfull ⊢
    by_cases hs : full s
    · rw [if_pos hs] at hfull ⊢
      cases hdrop : drop s with
      | none => exact hdrop
      | some s' =>
        rw [hdrop] at hfull
        have hless := hsize s s' hdrop
        exact ih (by omega) hfull
    · rw [if_neg hs] at hfull
      exact absurd hfull hs

theorem evicts_evictWhile {rounds : ℕ} {s : σ} (hrounds : size s < rounds) :
    Evicts full drop s (evictWhile full drop rounds s) := by
  induction rounds generalizing s with
  | zero => exact absurd hrounds (Nat.not_lt_zero _)
  | succ rounds ih =>
    rw [evictWhile]
    by_cases hs : full s
    · rw [if_pos hs]
      cases hdrop : drop s with
      | none => exact .stuck hs hdrop
      | some s' =>
        have hless := hsize s s' hdrop
        exact .round hs hdrop (ih (by omega))
    · rw [if_neg hs]
      exact .fits hs

end

end Rns
