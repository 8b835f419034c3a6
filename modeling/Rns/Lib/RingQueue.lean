import Mathlib.Data.List.Rotate
import Mathlib.Data.Nat.ModEq

/-!
# Ring queues

A queue in a list of fixed length: it starts at `head` and goes around the end.
-/

namespace Rns

structure RingQueue (α : Type*) where
  entries : List α
  head : ℕ
  len : ℕ
  deriving DecidableEq

namespace RingQueue

variable {α : Type*}

variable (q : RingQueue α)

def capacity : ℕ := q.entries.length

def pushBack (x : α) : RingQueue α :=
  if q.capacity = 0 then q
  else { q with entries := q.entries.set ((q.head + q.len) % q.capacity) x, len := q.len + 1 }

def popFront : Option α × RingQueue α :=
  if q.len = 0 ∨ q.capacity = 0 then (none, q)
  else (q.entries[q.head]?, { q with
    head := if q.len - 1 = 0 then 0 else (q.head + 1) % q.capacity
    len := q.len - 1 })

def contents : List α := (q.entries.rotate q.head).take q.len

/-- The queue fits in its entries. -/
structure Valid (q : RingQueue α) : Prop where
  head_lt : q.head < q.capacity
  len_le : q.len ≤ q.capacity

variable {q : RingQueue α}

theorem Valid.length_contents (h : q.Valid) : q.contents.length = q.len := by
  rw [contents, List.length_take, List.length_rotate]
  exact Nat.min_eq_left h.len_le

theorem getElem?_rotate_set {entries : List α} {head k len : ℕ} (hk : k < entries.length)
    (hlen : len < entries.length) (x : α) :
    ((entries.set ((head + len) % entries.length) x).rotate head)[k]? =
      if k = len then some x else (entries.rotate head)[k]? := by
  have hpos : 0 < entries.length := Nat.zero_lt_of_lt hk
  rw [List.getElem?_rotate (by rwa [List.length_set]), List.length_set, List.getElem?_rotate hk,
    List.getElem?_set]
  by_cases heq : k = len
  · rw [if_pos heq, if_pos (by rw [heq, Nat.add_comm]), if_pos (Nat.mod_lt _ hpos)]
  · have hne : (head + len) % entries.length ≠ (k + head) % entries.length := by
      intro hmod
      rw [Nat.add_comm head len] at hmod
      have hcancel : len ≡ k [MOD entries.length] := Nat.ModEq.add_right_cancel' head hmod
      exact heq (hcancel.eq_of_lt_of_lt hlen hk).symm
    rw [if_neg heq, if_neg hne]

theorem Valid.pushBack (h : q.Valid) (hlt : q.len < q.capacity) (x : α) :
    (q.pushBack x).Valid ∧ (q.pushBack x).capacity = q.capacity ∧
      (q.pushBack x).contents = q.contents ++ [x] := by
  have hcap : q.capacity ≠ 0 := Nat.ne_zero_of_lt hlt
  rw [RingQueue.pushBack, if_neg hcap]
  have hcapacity : (q.entries.set ((q.head + q.len) % q.capacity) x).length = q.capacity :=
    List.length_set
  refine ⟨⟨h.head_lt.trans_eq hcapacity.symm, Nat.succ_le_of_lt (hlt.trans_eq hcapacity.symm)⟩,
    hcapacity, ?_⟩
  rw [contents, List.take_add_one, contents]
  congr 1
  · refine List.ext_getElem? fun k => ?_
    rw [List.getElem?_take, List.getElem?_take]
    split_ifs with hk
    · rw [capacity, getElem?_rotate_set (hk.trans hlt) hlt, if_neg (Nat.ne_of_lt hk)]
    · rfl
  · rw [capacity, getElem?_rotate_set hlt hlt, if_pos rfl]
    rfl

theorem Valid.popFront (h : q.Valid) (hne : q.len ≠ 0) :
    ∃ x q', q.popFront = (some x, q') ∧ q'.Valid ∧ q'.capacity = q.capacity ∧
      q.contents = x :: q'.contents := by
  obtain ⟨m, hm⟩ := Nat.exists_eq_succ_of_ne_zero hne
  have hcap : q.capacity ≠ 0 := Nat.ne_zero_of_lt h.head_lt
  have hempty : ¬(q.len = 0 ∨ q.capacity = 0) := by simp [hne, hcap]
  have hx : q.entries[q.head]? = some (q.entries.get ⟨q.head, h.head_lt⟩) :=
    List.getElem?_eq_getElem h.head_lt
  rw [RingQueue.popFront, if_neg hempty, hx]
  refine ⟨_, _, rfl, ⟨?_, ?_⟩, rfl, ?_⟩
  · dsimp only [capacity]
    split_ifs
    · exact Nat.pos_of_ne_zero hcap
    · exact Nat.mod_lt _ (Nat.pos_of_ne_zero hcap)
  · exact (Nat.sub_le _ _).trans h.len_le
  · -- The queue is its first entry and the rest of the ring.
    cases hring : q.entries.rotate q.head with
    | nil =>
      have hlen := congrArg List.length hring
      rw [List.length_rotate] at hlen
      exact absurd hlen hcap
    | cons y ring =>
      have hy : q.entries[q.head]? = some y := by
        have hfirst := List.getElem?_rotate (l := q.entries) (n := q.head) (m := 0)
          (Nat.pos_of_ne_zero hcap)
        rw [hring, Nat.zero_add] at hfirst
        have hmod : q.head % q.entries.length = q.head := Nat.mod_eq_of_lt h.head_lt
        rw [hmod] at hfirst
        exact hfirst.symm
      have hnext : q.entries.rotate ((q.head + 1) % q.capacity) = ring ++ [y] := by
        rw [capacity, List.rotate_mod, ← List.rotate_rotate, hring, List.rotate_cons_succ,
          List.rotate_zero]
      have hlen : ring.length + 1 = q.capacity := by
        rw [← List.length_cons, ← hring, List.length_rotate, capacity]
      rw [hx, Option.some.injEq] at hy
      simp only [contents, hring, hm, Nat.succ_sub_one, List.take_succ_cons, hy, List.cons.injEq,
        true_and]
      by_cases hzero : m = 0
      · simp only [hzero, List.take_zero]
      · have hle : m ≤ ring.length := by
          have := h.len_le
          omega
        rw [if_neg hzero, hnext, List.take_append_of_le_length hle]

end RingQueue

end Rns
