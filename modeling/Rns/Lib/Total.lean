import Mathlib.Algebra.BigOperators.Group.List.Basic
import Mathlib.Algebra.Order.BigOperators.Group.List
import Mathlib.Data.List.Perm.Basic
import Mathlib.Tactic
import Std.Data.ExtTreeMap

/-!
# Totals over maps

The total of a measure over the values of a map, and how it changes with the map.
-/

namespace Rns

open Std
open ExtTreeMap (toList_map length_toList mem_toList_iff_getElem?_eq_some getElem?_erase ext_getElem?
  getElem?_filter')

variable {κ α : Type*} {cmp : κ → κ → Ordering} [TransCmp cmp]

def total (f : α → ℕ) (m : ExtTreeMap κ α cmp) : ℕ :=
  (m.toList.map fun (_, v) => f v).sum

section

variable (f : α → ℕ) (m : ExtTreeMap κ α cmp) {k : κ} {v : α}

theorem total_empty : total f (∅ : ExtTreeMap κ α cmp) = 0 := by
  have hnil : (∅ : ExtTreeMap κ α cmp).toList = [] := ExtTreeMap.toList_eq_nil_iff.mpr rfl
  rw [total, hnil]
  rfl

theorem total_filter_le (p : κ → α → Bool) : total f (m.filter p) ≤ total f m := by
  unfold total
  rw [ExtTreeMap.toList_filter]
  exact (List.filter_sublist.map _).sum_le_sum fun _ _ => Nat.zero_le _

theorem total_map {β : Type*} (g : κ → β → α) (m : ExtTreeMap κ β cmp) (h : β → ℕ)
    (hg : ∀ k v, f (g k v) = h v) : total f (m.map g) = total h m := by
  unfold total
  rw [toList_map, List.map_map]
  exact congrArg List.sum (List.map_congr_left fun p _ => hg p.1 p.2)

theorem total_map_le (g : κ → α → α) (hg : ∀ k v, f (g k v) ≤ f v) : total f (m.map g) ≤ total f m := by
  unfold total
  rw [toList_map, List.map_map]
  exact List.sum_le_sum fun p _ => hg p.1 p.2

theorem size_eq_total : m.size = total (fun _ => 1) m := by
  rw [← length_toList, total, List.map_const', List.sum_replicate, smul_eq_mul, mul_one]

variable [LawfulEqCmp cmp]

theorem nodup_toList : m.toList.Nodup := by
  refine List.Pairwise.imp ?_ m.distinct_keys_toList
  rintro a b hne rfl
  exact hne ReflCmp.compare_self

theorem toList_perm_cons {m m' : ExtTreeMap κ α cmp} (hv : m[k]? = some v)
    (hm' : ∀ k' : κ, m'[k']? = if cmp k k' = .eq then none else m[k']?) :
    m.toList.Perm ((k, v) :: m'.toList) := by
  have hnone : (k, v) ∉ m'.toList := by
    rw [mem_toList_iff_getElem?_eq_some, hm', if_pos ReflCmp.compare_self]
    exact nofun
  refine (List.perm_ext_iff_of_nodup (nodup_toList m)
    (List.nodup_cons.mpr ⟨hnone, nodup_toList m'⟩)).mpr ?_
  rintro ⟨k', v'⟩
  rw [List.mem_cons, mem_toList_iff_getElem?_eq_some,
    mem_toList_iff_getElem?_eq_some, hm', Prod.mk.injEq]
  by_cases heq : cmp k k' = .eq
  · obtain rfl := LawfulEqCmp.eq_of_compare heq
    simp [hv, eq_comm]
  · have hne : k' ≠ k := fun h => heq (h ▸ ReflCmp.compare_self)
    simp [heq, hne]

theorem toList_perm_erase (hv : m[k]? = some v) : m.toList.Perm ((k, v) :: (m.erase k).toList) :=
  toList_perm_cons hv fun _ => getElem?_erase

theorem total_erase (hv : m[k]? = some v) : total f m = f v + total f (m.erase k) := by
  unfold total
  rw [((toList_perm_erase m hv).map _).sum_eq, List.map_cons, List.sum_cons]

theorem size_erase_lt (hv : m[k]? = some v) : (m.erase k).size < m.size := by
  rw [size_eq_total, size_eq_total, total_erase _ m hv]
  omega

theorem erase_eq_self (hv : m[k]? = none) : m.erase k = m := by
  apply ext_getElem?
  intro k'
  rw [getElem?_erase]
  split_ifs with heq
  · rw [← LawfulEqCmp.eq_of_compare heq, hv]
  · rfl

theorem total_erase_le (k : κ) : total f (m.erase k) ≤ total f m := by
  cases hv : m[k]? with
  | some v => exact total_erase f m hv ▸ Nat.le_add_left _ _
  | none => rw [erase_eq_self m hv]

theorem le_total (hv : m[k]? = some v) : f v ≤ total f m :=
  total_erase f m hv ▸ Nat.le_add_right _ _

theorem total_insert (k : κ) (v : α) : total f (m.insert k v) = f v + total f (m.erase k) := by
  have hperm : (m.insert k v).toList.Perm ((k, v) :: (m.erase k).toList) := by
    refine toList_perm_cons ExtTreeMap.getElem?_insert_self fun k' => ?_
    rw [getElem?_erase, ExtTreeMap.getElem?_insert]
    split_ifs <;> rfl
  unfold total
  rw [(hperm.map _).sum_eq, List.map_cons, List.sum_cons]

theorem total_insert_of_none (hv : m[k]? = none) (v : α) :
    total f (m.insert k v) = f v + total f m := by
  rw [total_insert, erase_eq_self m hv]

theorem erase_filter (p : κ → α → Bool) (k : κ) : (m.filter p).erase k = (m.erase k).filter p := by
  apply ext_getElem?
  intro k'
  rw [getElem?_erase, getElem?_filter', getElem?_filter',
    getElem?_erase]
  split_ifs <;> rfl

end

/-! ## How often a value occurs -/

section

variable [DecidableEq α] (m : ExtTreeMap κ α cmp)

def copies (v : α) : ℕ := total (fun w => if w = v then 1 else 0) m

theorem copies_eq_count (v : α) : copies m v = (m.toList.map Prod.snd).count v := by
  unfold copies total
  induction m.toList with
  | nil => rfl
  | cons entry rest ih =>
    rw [List.map_cons, List.map_cons, List.sum_cons, List.count_cons, ih, Nat.add_comm]
    simp

theorem copies_le_size (v : α) : copies m v ≤ m.size := by
  rw [copies_eq_count, ← length_toList, ← List.length_map Prod.snd]
  exact List.count_le_length

theorem length_le_mul {xs values : List α} {n : ℕ} (hmem : ∀ x ∈ xs, x ∈ values)
    (hcount : ∀ v ∈ values, xs.count v ≤ n) : xs.length ≤ values.length * n := by
  induction values generalizing xs with
  | nil =>
    obtain rfl : xs = [] := List.eq_nil_iff_forall_not_mem.mpr fun x hx => nomatch hmem x hx
    exact Nat.zero_le _
  | cons v values ih =>
    have hrest : (xs.filter (· ≠ v)).length ≤ values.length * n := by
      refine ih (fun x hx => ?_) fun w hw => ?_
      · obtain ⟨hx, hne⟩ := List.mem_filter.mp hx
        exact (List.mem_cons.mp (hmem x hx)).resolve_left (by simpa using hne)
      · exact (List.filter_sublist.count_le w).trans (hcount w (List.mem_cons_of_mem _ hw))
    have hsplit : xs.length = xs.count v + (xs.filter (· ≠ v)).length := by
      rw [List.length_eq_countP_add_countP (· == v), List.count_eq_countP,
        ← List.countP_eq_length_filter]
      congr 2
      funext x
      simp
    have hfirst := hcount v List.mem_cons_self
    rw [hsplit, List.length_cons, Nat.succ_mul]
    omega

variable [LawfulEqCmp cmp]

theorem size_le_mul {values : List α} {n : ℕ} (hmem : ∀ (k : κ) v, m[k]? = some v → v ∈ values)
    (hcount : ∀ v ∈ values, copies m v ≤ n) : m.size ≤ values.length * n := by
  rw [← length_toList, ← List.length_map Prod.snd]
  refine length_le_mul (fun x hx => ?_) fun v hv => copies_eq_count m v ▸ hcount v hv
  obtain ⟨⟨k, v⟩, hmem', rfl⟩ := List.mem_map.mp hx
  exact hmem k v (mem_toList_iff_getElem?_eq_some.mp hmem')

theorem copies_eq_zero {v : α} (h : ∀ k : κ, m[k]? ≠ some v) : copies m v = 0 := by
  rw [copies_eq_count, List.count_eq_zero]
  rintro hmem
  obtain ⟨⟨k, w⟩, hmem', rfl⟩ := List.mem_map.mp hmem
  exact h k (mem_toList_iff_getElem?_eq_some.mp hmem')

theorem copies_insert_le (k : κ) (v w : α) :
    copies (m.insert k v) w ≤ copies m w + if v = w then 1 else 0 := by
  rw [copies, total_insert, Nat.add_comm]
  exact Nat.add_le_add_right (total_erase_le _ m k) _

theorem copies_erase_le (k : κ) (v : α) : copies (m.erase k) v ≤ copies m v := total_erase_le _ m k

theorem eq_of_copies_le_one {m : ExtTreeMap κ α cmp} {v : α} (h : copies m v ≤ 1) {k k' : κ}
    (hk : m[k]? = some v) (hk' : m[k']? = some v) : k = k' := by
  by_contra hne
  have herase : (m.erase k)[k']? = some v := by
    rw [getElem?_erase, if_neg fun heq => hne (LawfulEqCmp.eq_of_compare heq), hk']
  have hfirst : copies m v = 1 + copies (m.erase k) v := by
    rw [copies, total_erase _ m hk, if_pos rfl, copies]
  have hsecond := le_total (fun w => if w = v then 1 else 0) (m.erase k) herase
  rw [if_pos rfl] at hsecond
  unfold copies at hfirst h
  omega

end

/-! ## What entries put out -/

section

variable {β γ : Type*} [LawfulEqCmp cmp]

theorem filterMap_flatMap_toList (m : ExtTreeMap κ α cmp) (out : α → List β) (g : β → Option γ) {k : κ}
    (h : ∀ k' v, m[k']? = some v → k' ≠ k → (out v).filterMap g = []) :
    (m.toList.flatMap (out ·.2)).filterMap g = (m[k]?.map fun v => (out v).filterMap g).getD [] := by
  have hsilent : ∀ entries : List (κ × α), (∀ a ∈ entries, a.1 ≠ k ∧ a ∈ m.toList) →
      (entries.flatMap (out ·.2)).filterMap g = [] := by
    intro entries hentries
    rw [List.filterMap_flatMap, List.flatMap_eq_nil_iff]
    exact fun a ha => h a.1 a.2 (mem_toList_iff_getElem?_eq_some.mp (hentries a ha).2)
      (hentries a ha).1
  cases hv : m[k]? with
  | none =>
    refine hsilent m.toList fun a ha => ⟨fun heq => ?_, ha⟩
    rw [← heq, mem_toList_iff_getElem?_eq_some.mp ha] at hv
    cases hv
  | some v =>
    obtain ⟨before, after, hsplit⟩ := List.append_of_mem (mem_toList_iff_getElem?_eq_some.mpr hv)
    have hdistinct := m.distinct_keys_toList
    rw [hsplit, List.pairwise_append, List.pairwise_cons] at hdistinct
    obtain ⟨-, ⟨hafter, -⟩, hbefore⟩ := hdistinct
    have hne : ∀ {a b : κ}, ¬cmp a b = .eq → a ≠ b := fun hcmp heq => hcmp (heq ▸ ReflCmp.compare_self)
    have hmem : ∀ a ∈ before ++ after, a ∈ m.toList := fun a ha => by
      rw [hsplit, List.mem_append, List.mem_cons]
      rcases List.mem_append.mp ha with ha | ha
      · exact .inl ha
      · exact .inr (.inr ha)
    rw [hsplit, List.flatMap_append, List.flatMap_cons, List.filterMap_append, List.filterMap_append,
      hsilent before fun a ha => ⟨hne (hbefore a ha _ List.mem_cons_self), hmem a (List.mem_append_left _ ha)⟩,
      hsilent after fun a ha => ⟨(hne (hafter a ha)).symm, hmem a (List.mem_append_right _ ha)⟩]
    simp

end

end Rns
