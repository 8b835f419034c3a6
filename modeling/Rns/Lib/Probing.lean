import Mathlib.Data.List.ReduceOption
import Mathlib.Logic.Function.Iterate

/-!
# Open addressing

A table of buckets in which a key goes to the first empty bucket at or after its own.  Lookups are right
as no entry has an empty bucket between its own bucket and the one it is in; while the cluster behind a
removed key is put in again this fails only for the entries that are still to come.
-/

namespace Rns

/-- How a table is probed. -/
structure Probing (α : Type*) where
  home : α → ℕ
  next : ℕ → ℕ

/-- It stays within `n` buckets, and from every bucket all buckets are visited. -/
structure Probing.Covers {α : Type*} (pr : Probing α) (n : ℕ) : Prop where
  home_lt : ∀ key, pr.home key < n
  next_lt : ∀ idx < n, pr.next idx < n
  visits : ∀ idx < n, ∀ z < n, ∃ k < n, pr.next^[k] idx = z

/-- The buckets, and the number of those that are taken. -/
structure ProbeTable (α : Type*) where
  buckets : List (Option α)
  len : ℕ
  deriving DecidableEq

namespace ProbeTable

variable {α : Type*} {n : ℕ}

def empty (n : ℕ) : ProbeTable α := ⟨.replicate n none, 0⟩

def entries (t : ProbeTable α) : List α := t.buckets.reduceOption

/-- The way from one bucket to another passes only such buckets. -/
inductive Walk (next : ℕ → ℕ) (q : ℕ → Prop) : ℕ → ℕ → Prop
  | refl (idx : ℕ) : Walk next q idx idx
  | step {idx i : ℕ} (hq : q idx) (hwalk : Walk next q (next idx) i) : Walk next q idx i

def Taken (buckets : List (Option α)) (i : ℕ) : Prop := ∃ entry, buckets[i]? = some (some entry)

section Operations

variable [DecidableEq α] (pr : Probing α)

/-- The probe loop: on to the first bucket that is empty or has the key. -/
def probe (buckets : List (Option α)) (key : α) : ℕ → ℕ → Option ℕ
  | 0, _ => none
  | fuel + 1, idx => match buckets[idx]? with
    | none => none
    | some none => some idx
    | some (some entry) => if entry = key then some idx else probe buckets key fuel (pr.next idx)

variable (t : ProbeTable α) (key : α)

def find : Option ℕ :=
  probe pr t.buckets key t.buckets.length (pr.home key)

def contains : Option Bool :=
  (t.find pr key).map fun idx => t.buckets[idx]? = some (some key)

def insert : Option (Bool × ProbeTable α) :=
  (t.find pr key).map fun idx =>
    if t.buckets[idx]? = some (some key) then (false, t)
    else (true, ⟨t.buckets.set idx (some key), t.len + 1⟩)

def clear (idx : ℕ) : ProbeTable α := ⟨t.buckets.set idx none, t.len - 1⟩

/-- The loop that puts a cluster in again. -/
def reinsert : ℕ → ProbeTable α → ℕ → Option (ProbeTable α)
  | 0, _, _ => none
  | fuel + 1, t, idx => match t.buckets[idx]? with
    | none => none
    | some none => some t
    | some (some entry) => ((t.clear idx).insert pr entry).bind fun inserted =>
      reinsert fuel inserted.2 (pr.next idx)

def remove : Option (Bool × ProbeTable α) :=
  (t.find pr key).bind fun idx =>
    if t.buckets[idx]? = some (some key) then
      (reinsert pr t.buckets.length (t.clear idx) (pr.next idx)).map fun t => (true, t)
    else some (false, t)

end Operations

/-! ## Walks -/

section Walks

variable {next : ℕ → ℕ} {q q' : ℕ → Prop} {idx i z : ℕ} {buckets : List (Option α)} {key : α}

theorem not_taken (hempty : buckets[i]? = some none) : ¬Taken buckets i := by
  rintro ⟨entry, hentry⟩
  rw [hempty] at hentry
  nomatch hentry

theorem Walk.mono (h : ∀ j, q j → q' j) (hwalk : Walk next q idx i) : Walk next q' idx i := by
  induction hwalk with
  | refl => exact .refl _
  | step hq _ ih => exact .step (h _ hq) ih

theorem Walk.avoid (hwalk : Walk next q idx i) (z : ℕ) :
    Walk next (fun j => q j ∧ j ≠ z) idx i ∨ Walk next (fun j => q j ∧ j ≠ z) (next z) i := by
  induction hwalk with
  | refl => exact .inl (.refl _)
  | @step idx i hq _ ih =>
    rcases ih with hrest | hrest
    · by_cases heq : idx = z
      · exact .inr (heq ▸ hrest)
      · exact .inl (.step ⟨hq, heq⟩ hrest)
    · exact .inr hrest

theorem Walk.ne_of_walk {p : ℕ} (hprobe : Walk next (Taken buckets) idx p)
    (hwalk : Walk next (· ≠ z) idx i) (hempty : buckets[i]? = some none) (hne : i ≠ z) : p ≠ z := by
  induction hprobe with
  | refl idx =>
    rintro rfl
    cases hwalk with
    | refl => exact hne rfl
    | step hq _ => exact hq rfl
  | step hq _ ih =>
    cases hwalk with
    | refl => exact absurd hq (not_taken hempty)
    | step _ hrest => exact ih hrest

theorem Walk.not_of_empty {p : ℕ}
    (hprobe : Walk next (fun j => ∃ entry, buckets[j]? = some (some entry) ∧ entry ≠ key) idx p)
    (hempty : buckets[p]? = some none) (hwalk : Walk next (Taken buckets) idx i) :
    buckets[i]? ≠ some (some key) := by
  intro hkey
  induction hprobe with
  | refl idx =>
    cases hwalk with
    | refl => exact not_taken hempty ⟨key, hkey⟩
    | step hq _ => exact not_taken hempty hq
  | step hq _ ih =>
    cases hwalk with
    | refl =>
      obtain ⟨entry, hentry, hne⟩ := hq
      rw [hkey, Option.some.injEq, Option.some.injEq] at hentry
      exact hne hentry.symm
    | step _ hrest => exact ih hempty hrest

end Walks

/-! ## Entries -/

section Entries

variable {t : ProbeTable α} {buckets : List (Option α)} {idx i p : ℕ} {key : α}

theorem mem_entries : key ∈ t.entries ↔ ∃ i : ℕ, t.buckets[i]? = some (some key) := by
  rw [entries, List.reduceOption_mem_iff, List.mem_iff_getElem?]

theorem perm_set_some (h : buckets[idx]? = some none) (key : α) :
    (buckets.set idx (some key)).reduceOption.Perm (key :: buckets.reduceOption) := by
  induction buckets generalizing idx with
  | nil => nomatch h
  | cons bucket buckets ih =>
    cases idx with
    | zero =>
      simp only [List.getElem?_cons_zero, Option.some.injEq] at h
      subst h
      simp
    | succ idx =>
      have hrest := ih (show buckets[idx]? = some none by simpa using h)
      cases bucket with
      | none => simpa using hrest
      | some entry =>
        simp only [List.set_cons_succ, List.reduceOption_cons_of_some]
        exact (hrest.cons entry).trans (.swap key entry _)

theorem perm_clear (h : t.buckets[idx]? = some (some key)) :
    t.entries.Perm (key :: (t.clear idx).entries) := by
  obtain ⟨hlt, hentry⟩ := List.getElem?_eq_some_iff.1 h
  have hsame : (t.buckets.set idx none).set idx (some key) = t.buckets := by
    rw [List.set_set, ← hentry, List.set_getElem_self]
  have hempty : (t.buckets.set idx none)[idx]? = some none := by simp [hlt]
  have hperm := perm_set_some hempty key
  rwa [hsame] at hperm

theorem taken_set {j : ℕ} (hempty : buckets[p]? = some none) (key : α) (h : Taken buckets j) :
    Taken (buckets.set p (some key)) j := by
  have hne : p ≠ j := fun heq => not_taken hempty (heq ▸ h)
  obtain ⟨entry, hentry⟩ := h
  exact ⟨entry, by rw [List.getElem?_set_ne hne, hentry]⟩

theorem getElem?_set_some {entry : α} (hempty : buckets[p]? = some none)
    (h : (buckets.set p (some key))[i]? = some (some entry)) :
    (i = p ∧ entry = key) ∨ (i ≠ p ∧ buckets[i]? = some (some entry)) := by
  by_cases heq : p = i
  · subst heq
    have hlt : p < buckets.length := (List.getElem?_eq_some_iff.1 hempty).1
    rw [List.getElem?_set_self hlt, Option.some.injEq, Option.some.injEq] at h
    exact .inl ⟨rfl, h.symm⟩
  · rw [List.getElem?_set_ne heq] at h
    exact .inr ⟨Ne.symm heq, h⟩

theorem getElem?_clear {entry : α} (h : (t.clear idx).buckets[i]? = some (some entry)) :
    i ≠ idx ∧ t.buckets[i]? = some (some entry) := by
  have hne : idx ≠ i := by
    rintro rfl
    simp [clear, List.getElem?_set] at h
  rw [clear, List.getElem?_set_ne hne] at h
  exact ⟨Ne.symm hne, h⟩

theorem taken_clear {j : ℕ} (h : Taken t.buckets j ∧ j ≠ idx) : Taken (t.clear idx).buckets j := by
  obtain ⟨⟨entry, hentry⟩, hne⟩ := h
  exact ⟨entry, by rw [clear, List.getElem?_set_ne (Ne.symm hne), hentry]⟩

theorem entries_clear (hlen : t.len = t.entries.length) (hnodup : t.entries.Nodup)
    (hentry : t.buckets[idx]? = some (some key)) :
    (t.clear idx).len = (t.clear idx).entries.length ∧ key ∉ (t.clear idx).entries ∧
      (t.clear idx).entries.Nodup := by
  have hperm := perm_clear hentry
  have hnodup' := hperm.nodup_iff.1 hnodup
  refine ⟨?_, (List.nodup_cons.1 hnodup').1, (List.nodup_cons.1 hnodup').2⟩
  rw [clear, hlen, hperm.length_eq, List.length_cons, Nat.add_sub_cancel]
  rfl

theorem walk_clear {next : ℕ → ℕ} {a : ℕ} (idx : ℕ) (h : Walk next (Taken t.buckets) a i) :
    Walk next (Taken (t.clear idx).buckets) a i ∨
      Walk next (Taken (t.clear idx).buckets) (next idx) i :=
  (h.avoid idx).imp (Walk.mono fun _ => taken_clear) (Walk.mono fun _ => taken_clear)

end Entries

/-! ## Tables whose entries are in place -/

section WellFormed

variable (pr : Probing α) {t : ProbeTable α} {z idx : ℕ}

structure WellFormed (n : ℕ) (t : ProbeTable α) : Prop where
  covers : pr.Covers n
  length : t.buckets.length = n
  len : t.len = t.entries.length
  nodup : t.entries.Nodup
  placed : ∀ (i : ℕ) entry, t.buckets[i]? = some (some entry) →
    Walk pr.next (Taken t.buckets) (pr.home entry) i

theorem wellFormed_empty (hcovers : pr.Covers n) : (empty n).WellFormed pr n where
  covers := hcovers
  length := List.length_replicate
  len := by simp [empty, entries]
  nodup := by simp [empty, entries]
  placed i entry h := by simp [empty, List.getElem?_replicate] at h

variable {pr}

theorem WellFormed.exists_empty (h : t.WellFormed pr n) (hlt : t.entries.length < n) :
    ∃ z : ℕ, t.buckets[z]? = some none := by
  rw [← h.length, entries, List.reduceOption_length_lt_iff] at hlt
  exact List.mem_iff_getElem?.1 hlt

/-- The entries from the bucket `idx` on are still to be put in again.  The bucket `z` stays empty:
nothing has to pass it. -/
structure Settling (pr : Probing α) (n z idx : ℕ) (t : ProbeTable α) : Prop where
  covers : pr.Covers n
  length : t.buckets.length = n
  len : t.len = t.entries.length
  nodup : t.entries.Nodup
  lt : idx < n
  empty : t.buckets[z]? = some none
  placed : ∀ (i : ℕ) entry, t.buckets[i]? = some (some entry) →
    Walk pr.next (Taken t.buckets) (pr.home entry) i ∨ Walk pr.next (Taken t.buckets) idx i
  avoids : ∀ (i : ℕ) entry, t.buckets[i]? = some (some entry) →
    Walk pr.next (· ≠ z) (pr.home entry) i

theorem Settling.wellFormed (h : Settling pr n z idx t) (hempty : t.buckets[idx]? = some none) :
    t.WellFormed pr n where
  covers := h.covers
  length := h.length
  len := h.len
  nodup := h.nodup
  placed i entry hentry := by
    rcases h.placed i entry hentry with hplaced | hrun
    · exact hplaced
    · cases hrun with
      | refl => exact absurd ⟨entry, hentry⟩ (not_taken hempty)
      | step htaken _ => exact absurd htaken (not_taken hempty)

end WellFormed

/-! ## Operations -/

section Spec

variable [DecidableEq α] (pr : Probing α) {t : ProbeTable α} {idx i z p fuel : ℕ} {key : α}
  {buckets : List (Option α)}

theorem probe_spec (h : probe pr buckets key fuel idx = some p) :
    Walk pr.next (fun j => ∃ entry, buckets[j]? = some (some entry) ∧ entry ≠ key) idx p ∧
      (buckets[p]? = some none ∨ buckets[p]? = some (some key)) := by
  induction fuel generalizing idx with
  | zero => nomatch h
  | succ fuel ih =>
    rw [probe] at h
    cases hbucket : buckets[idx]? with
    | none =>
      rw [hbucket] at h
      nomatch h
    | some bucket =>
      cases bucket with
      | none =>
        simp only [hbucket, Option.some.injEq] at h
        exact h ▸ ⟨.refl _, .inl hbucket⟩
      | some entry =>
        simp only [hbucket] at h
        split_ifs at h with heq
        · rw [Option.some.injEq] at h
          exact h ▸ ⟨.refl _, .inr (heq ▸ hbucket)⟩
        · exact ⟨.step ⟨entry, hbucket, heq⟩ (ih h).1, (ih h).2⟩

theorem exists_probe {k : ℕ} (hcovers : pr.Covers n) (hlen : buckets.length = n) (hidx : idx < n)
    (hempty : buckets[pr.next^[k] idx]? = some none) (hfuel : k < fuel) (key : α) :
    ∃ p, probe pr buckets key fuel idx = some p := by
  induction k generalizing idx fuel with
  | zero =>
    obtain ⟨fuel, rfl⟩ := Nat.exists_eq_add_of_lt hfuel
    rw [Function.iterate_zero, id] at hempty
    exact ⟨idx, by simp only [probe, hempty]⟩
  | succ k ih =>
    obtain ⟨fuel, rfl⟩ := Nat.exists_eq_succ_of_ne_zero (Nat.ne_zero_of_lt hfuel)
    obtain ⟨p, hp⟩ := ih (hcovers.next_lt idx hidx) hempty (Nat.lt_of_succ_lt_succ hfuel)
    obtain ⟨bucket, hbucket⟩ : ∃ bucket, buckets[idx]? = some bucket :=
      ⟨_, List.getElem?_eq_getElem (hlen ▸ hidx)⟩
    cases bucket with
    | none => exact ⟨idx, by simp only [probe, hbucket]⟩
    | some entry =>
      simp only [probe, hbucket]
      split_ifs
      · exact ⟨idx, rfl⟩
      · exact ⟨p, hp⟩

section

variable (hcovers : pr.Covers n) (hlen : t.buckets.length = n) (hempty : t.buckets[z]? = some none)
include hcovers hlen hempty

theorem exists_find (key : α) : ∃ p, t.find pr key = some p := by
  have hz : z < n := hlen ▸ (List.getElem?_eq_some_iff.1 hempty).1
  obtain ⟨k, hk, hvisit⟩ := hcovers.visits (pr.home key) (hcovers.home_lt key) z hz
  exact exists_probe pr hcovers hlen (hcovers.home_lt key) (hvisit ▸ hempty) (hlen ▸ hk) key

theorem insert_of_not_mem (hnew : key ∉ t.entries) :
    ∃ p, Walk pr.next (Taken t.buckets) (pr.home key) p ∧
      t.buckets[p]? = some none ∧
      t.insert pr key = some (true, ⟨t.buckets.set p (some key), t.len + 1⟩) := by
  obtain ⟨p, hfind⟩ := exists_find pr hcovers hlen hempty key
  obtain ⟨hwalk, hend⟩ := probe_spec pr hfind
  have hne : t.buckets[p]? ≠ some (some key) := fun h => hnew (mem_entries.2 ⟨p, h⟩)
  refine ⟨p, hwalk.mono fun j ⟨entry, hentry, _⟩ => ⟨entry, hentry⟩, hend.resolve_right hne, ?_⟩
  simp only [insert, hfind, Option.map_some, if_neg hne]

end

variable {pr}

theorem WellFormed.contains_eq (h : t.WellFormed pr n) (hlt : t.entries.length < n) (key : α) :
    t.contains pr key = some (decide (key ∈ t.entries)) := by
  obtain ⟨z, hempty⟩ := h.exists_empty hlt
  obtain ⟨p, hfind⟩ := exists_find pr h.covers h.length hempty key
  obtain ⟨hwalk, hend⟩ := probe_spec pr hfind
  have hiff : t.buckets[p]? = some (some key) ↔ key ∈ t.entries := by
    refine ⟨fun hkey => mem_entries.2 ⟨p, hkey⟩, fun hmem => ?_⟩
    obtain ⟨i, hi⟩ := mem_entries.1 hmem
    exact hend.resolve_left fun hnone => hwalk.not_of_empty hnone (h.placed i key hi) hi
  simp only [contains, hfind, Option.map_some, hiff]

theorem WellFormed.insert (h : t.WellFormed pr n) (hlt : t.entries.length < n) (hnew : key ∉ t.entries) :
    ∃ t', t.insert pr key = some (true, t') ∧ t'.WellFormed pr n ∧ t'.entries.Perm (key :: t.entries) := by
  obtain ⟨z, hz⟩ := h.exists_empty hlt
  obtain ⟨p, hwalk, hempty, hinsert⟩ := insert_of_not_mem pr h.covers h.length hz hnew
  have hperm := perm_set_some hempty key
  refine ⟨_, hinsert, ⟨h.covers, ?_, ?_, ?_, ?_⟩, hperm⟩
  · rw [List.length_set, h.length]
  · rw [entries, hperm.length_eq, List.length_cons, h.len, entries]
  · rw [entries, hperm.nodup_iff]
    exact List.nodup_cons.2 ⟨hnew, h.nodup⟩
  · intro i entry hentry
    rcases getElem?_set_some hempty hentry with ⟨rfl, rfl⟩ | ⟨-, hold⟩
    · exact hwalk.mono fun j => taken_set hempty entry
    · exact (h.placed i entry hold).mono fun j => taken_set hempty key

/-! ## Removal -/

theorem Settling.step (h : Settling pr n z idx t) {entry : α}
    (hentry : t.buckets[idx]? = some (some entry)) :
    ∃ t', (t.clear idx).insert pr entry = some (true, t') ∧ Settling pr n z (pr.next idx) t' ∧
      t'.entries.Perm t.entries := by
  obtain ⟨hlen, hnew, hnodup⟩ := entries_clear h.len h.nodup hentry
  have hne : idx ≠ z := fun heq => not_taken h.empty (heq ▸ ⟨entry, hentry⟩)
  have hz : (t.clear idx).buckets[z]? = some none := by rw [clear, List.getElem?_set_ne hne, h.empty]
  have hlength : (t.clear idx).buckets.length = n := by rw [clear, List.length_set, h.length]
  have hidx : (t.clear idx).buckets[idx]? = some none := by
    have hlt : idx < t.buckets.length := h.length ▸ h.lt
    simp [clear, hlt]
  obtain ⟨p, hwalk, hempty, hinsert⟩ := insert_of_not_mem pr h.covers hlength hz hnew
  have hperm := perm_set_some hempty entry
  -- The entry does not get as far as `z`, as it has to pass the bucket it was in.
  have hpz : p ≠ z := hwalk.ne_of_walk (h.avoids idx entry hentry) hidx hne
  refine ⟨_, hinsert, ⟨h.covers, ?_, ?_, ?_, h.covers.next_lt idx h.lt, ?_, ?_, ?_⟩,
    hperm.trans (perm_clear hentry).symm⟩
  · rw [List.length_set, hlength]
  · rw [entries, hperm.length_eq, List.length_cons, hlen, entries]
  · rw [entries, hperm.nodup_iff]
    exact List.nodup_cons.2 ⟨hnew, hnodup⟩
  · rw [List.getElem?_set_ne hpz, hz]
  · intro i other hother
    rcases getElem?_set_some hempty hother with ⟨rfl, rfl⟩ | ⟨-, hold⟩
    · exact .inl (hwalk.mono fun j => taken_set hempty other)
    · obtain ⟨hi, hbefore⟩ := getElem?_clear hold
      have hset := fun j => taken_set (j := j) hempty entry
      rcases h.placed i other hbefore with hplaced | hrun
      · exact (walk_clear idx hplaced).imp (Walk.mono hset) (Walk.mono hset)
      · rcases walk_clear idx hrun with hfrom | hbehind
        · cases hfrom with
          | refl => exact absurd rfl hi
          | step htaken _ => exact absurd htaken (not_taken hidx)
        · exact .inr (hbehind.mono hset)
  · intro i other hother
    rcases getElem?_set_some hempty hother with ⟨rfl, rfl⟩ | ⟨-, hold⟩
    · exact hwalk.mono fun j htaken heq => not_taken hz (heq ▸ htaken)
    · exact h.avoids i other (getElem?_clear hold).2

theorem Settling.reinsert {k : ℕ} (h : Settling pr n z idx t) (hvisit : pr.next^[k] idx = z)
    (hfuel : k < fuel) :
    ∃ t', reinsert pr fuel t idx = some t' ∧ t'.WellFormed pr n ∧ t'.entries.Perm t.entries := by
  induction fuel generalizing k t idx with
  | zero => exact absurd hfuel (Nat.not_lt_zero k)
  | succ fuel ih =>
    obtain ⟨bucket, hbucket⟩ : ∃ bucket, t.buckets[idx]? = some bucket :=
      ⟨_, List.getElem?_eq_getElem (h.length ▸ h.lt)⟩
    cases bucket with
    | none => exact ⟨t, by simp only [ProbeTable.reinsert, hbucket], h.wellFormed hbucket, .refl _⟩
    | some entry =>
      obtain ⟨t₁, hinsert, hsettling, hperm₁⟩ := h.step hbucket
      cases k with
      | zero => exact absurd ⟨entry, hbucket⟩ (not_taken ((show idx = z from hvisit) ▸ h.empty))
      | succ k =>
        obtain ⟨t', hrest, hwell, hperm⟩ := ih hsettling hvisit (Nat.lt_of_succ_lt_succ hfuel)
        refine ⟨t', ?_, hwell, hperm.trans hperm₁⟩
        simp only [ProbeTable.reinsert, hbucket, hinsert, Option.bind_some, hrest]

theorem WellFormed.remove (h : t.WellFormed pr n) (hlt : t.entries.length < n) (hkey : key ∈ t.entries) :
    ∃ t', t.remove pr key = some (true, t') ∧ t'.WellFormed pr n ∧ t.entries.Perm (key :: t'.entries) := by
  obtain ⟨z, hz⟩ := h.exists_empty hlt
  obtain ⟨p, hfind⟩ := exists_find pr h.covers h.length hz key
  have hp : t.buckets[p]? = some (some key) := by
    have hcontains := h.contains_eq hlt key
    simpa only [contains, hfind, Option.map_some, Option.some.injEq, decide_eq_decide, hkey,
      iff_true] using hcontains
  have hplt : p < n := h.length ▸ (List.getElem?_eq_some_iff.1 hp).1
  have hzlt : z < n := h.length ▸ (List.getElem?_eq_some_iff.1 hz).1
  have hne : p ≠ z := fun heq => not_taken hz (heq ▸ ⟨key, hp⟩)
  obtain ⟨hlen, -, hnodup⟩ := entries_clear h.len h.nodup hp
  have hsettling : Settling pr n z (pr.next p) (t.clear p) :=
    { covers := h.covers
      length := by rw [clear, List.length_set, h.length]
      len := hlen
      nodup := hnodup
      lt := h.covers.next_lt p hplt
      empty := by rw [clear, List.getElem?_set_ne hne, hz]
      placed := fun i entry hentry => walk_clear p (h.placed i entry (getElem?_clear hentry).2)
      avoids := fun i entry hentry => (h.placed i entry (getElem?_clear hentry).2).mono
        fun j htaken heq => not_taken hz (heq ▸ htaken) }
  obtain ⟨k, hk, hvisit⟩ := h.covers.visits (pr.next p) (h.covers.next_lt p hplt) z hzlt
  obtain ⟨t', hreinsert, hwell, hperm⟩ := hsettling.reinsert hvisit hk
  refine ⟨t', ?_, hwell, (perm_clear hp).trans (hperm.symm.cons key)⟩
  simp only [ProbeTable.remove, hfind, Option.bind_some, if_pos hp, h.length, hreinsert, Option.map_some]

end Spec

end ProbeTable

end Rns
