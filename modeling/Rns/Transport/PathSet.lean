import Rns.Lib.Machine
import Rns.Lib.Ranked
import Rns.Transport.Types

/-!
# Paths to a destination

The alternative paths to one destination, best first.  The capacity and one path per next hop are fields,
so every set the operations build has them.
-/

namespace Rns.Transport

abbrev RandomBlob := Vector UInt8 10

structure PathEntry where
  timestamp : ℚ
  nextHop : Hash16
  hops : UInt8
  expires : ℚ
  randomBlobs : List RandomBlob
  receivingInterface : InterfaceId
  packetHash : Hash32
  announceRaw : Option Bytes
  deriving DecidableEq

def PathEntry.RanksBefore (a b : PathEntry) : Prop :=
  a.hops < b.hops ∨ a.hops = b.hops ∧ b.timestamp ≤ a.timestamp

instance : DecidableRel PathEntry.RanksBefore := fun a b =>
  inferInstanceAs (Decidable (a.hops < b.hops ∨ a.hops = b.hops ∧ b.timestamp ≤ a.timestamp))

theorem PathEntry.not_ranksBefore_iff {a b : PathEntry} :
    ¬a.RanksBefore b ↔ b.hops < a.hops ∨ a.hops = b.hops ∧ a.timestamp < b.timestamp := by
  unfold RanksBefore
  rw [not_or, not_and, not_le, UInt8.not_lt, UInt8.le_iff_lt_or_eq]
  constructor
  · rintro ⟨hlt | heq, htime⟩
    · exact .inl hlt
    · exact .inr ⟨heq.symm, htime heq.symm⟩
  · rintro (hlt | ⟨heq, htime⟩)
    · exact ⟨.inl hlt, fun heq => absurd hlt (heq ▸ UInt8.lt_irrefl _)⟩
    · exact ⟨.inr heq.symm, fun _ => htime⟩

instance : Std.Total PathEntry.RanksBefore where
  total a b := by
    by_contra hnot
    rw [not_or, PathEntry.not_ranksBefore_iff, PathEntry.not_ranksBefore_iff] at hnot
    obtain ⟨h₁ | ⟨h₁, t₁⟩, h₂ | ⟨h₂, t₂⟩⟩ := hnot
    · exact UInt8.lt_irrefl _ (UInt8.lt_trans h₁ h₂)
    · exact UInt8.lt_irrefl _ (h₂ ▸ h₁)
    · exact UInt8.lt_irrefl _ (h₁ ▸ h₂)
    · exact lt_irrefl _ (t₁.trans t₂)

instance : IsTrans PathEntry PathEntry.RanksBefore where
  trans a b c := by
    rintro (h₁ | ⟨h₁, t₁⟩) (h₂ | ⟨h₂, t₂⟩)
    · exact .inl (UInt8.lt_trans h₁ h₂)
    · exact .inl (h₂ ▸ h₁)
    · exact .inl (h₁ ▸ h₂)
    · exact .inr ⟨h₁.trans h₂, t₂.trans t₁⟩

structure PathSet where
  paths : List PathEntry
  capacity : ℕ
  capacity_pos : 0 < capacity
  length_le : paths.length ≤ capacity
  nextHops_nodup : (paths.map PathEntry.nextHop).Nodup

namespace PathSet

def fromSingle (entry : PathEntry) (capacity : ℕ) : PathSet where
  paths := [entry]
  capacity := max capacity 1
  capacity_pos := by omega
  length_le := by simp
  nextHops_nodup := by simp

def isEmpty (ps : PathSet) : Bool := ps.paths.isEmpty

def primary (ps : PathSet) : Option PathEntry := ps.paths.head?

def findByNextHop (ps : PathSet) (nextHop : Hash16) : Option PathEntry :=
  ps.paths.find? (·.nextHop = nextHop)

def allRandomBlobs (ps : PathSet) : List RandomBlob := ps.paths.flatMap PathEntry.randomBlobs

/-- The first half of `upsert`: a path with the same next hop is replaced in place, a new one is
put at the end. -/
def place (paths : List PathEntry) (entry : PathEntry) : List PathEntry :=
  match paths.findIdx? (·.nextHop = entry.nextHop) with
  | some pos => paths.set pos entry
  | none => paths ++ [entry]

section Place

variable {paths : List PathEntry} {entry : PathEntry}

theorem length_place_of_mem (h : entry.nextHop ∈ paths.map PathEntry.nextHop) :
    (place paths entry).length = paths.length := by
  unfold place
  cases hidx : paths.findIdx? (·.nextHop = entry.nextHop) with
  | none =>
    obtain ⟨p, hp, heq⟩ := List.mem_map.mp h
    have hnone := List.findIdx?_eq_none_iff.mp hidx p hp
    simp [heq] at hnone
  | some pos => exact List.length_set

theorem place_of_not_mem (h : entry.nextHop ∉ paths.map PathEntry.nextHop) :
    place paths entry = paths ++ [entry] := by
  have hnone : paths.findIdx? (·.nextHop = entry.nextHop) = none := by
    rw [List.findIdx?_eq_none_iff]
    intro p hp
    have hne : p.nextHop ≠ entry.nextHop := fun heq => h (heq ▸ List.mem_map_of_mem hp)
    simpa using hne
  rw [place, hnone]

theorem place_cons (path : PathEntry) : place (path :: paths) entry =
    if path.nextHop = entry.nextHop then entry :: paths else path :: place paths entry := by
  unfold place
  rw [List.findIdx?_cons]
  by_cases hhop : path.nextHop = entry.nextHop
  · simp [hhop]
  · cases paths.findIdx? (·.nextHop = entry.nextHop) <;> simp [hhop]

theorem place_perm (h : (paths.map PathEntry.nextHop).Nodup) :
    (place paths entry).Perm (paths.filter (·.nextHop ≠ entry.nextHop) ++ [entry]) := by
  induction paths with
  | nil => rfl
  | cons path paths ih =>
    rw [List.map_cons, List.nodup_cons] at h
    rw [place_cons]
    split_ifs with hhop
    · have hkept : paths.filter (·.nextHop ≠ entry.nextHop) = paths :=
        List.filter_eq_self.mpr fun other hother => by
          simpa using fun heq : other.nextHop = entry.nextHop =>
            h.1 (List.mem_map.mpr ⟨other, hother, heq.trans hhop.symm⟩)
      rw [List.filter_cons_of_neg (by simpa using hhop), hkept]
      exact (List.perm_append_singleton entry paths).symm
    · rw [List.filter_cons_of_pos (by simpa using hhop)]
      exact (ih h.2).cons path

theorem nodup_place (h : (paths.map PathEntry.nextHop).Nodup) :
    ((place paths entry).map PathEntry.nextHop).Nodup := by
  rw [((place_perm h).map _).nodup_iff, List.map_append, List.map_singleton]
  refine List.Nodup.append (h.sublist (List.filter_sublist.map _)) (by simp) ?_
  simp

end Place

variable (ps : PathSet)

/-- `upsert`: place, sort, and keep what fits. -/
def upsert (entry : PathEntry) : PathSet where
  paths := ((place ps.paths entry).insertionSort PathEntry.RanksBefore).take ps.capacity
  capacity := ps.capacity
  capacity_pos := ps.capacity_pos
  length_le := by simp
  nextHops_nodup := by
    refine List.Nodup.sublist ((List.take_sublist _ _).map _) ?_
    rw [((List.perm_insertionSort _ _).map _).nodup_iff]
    exact nodup_place ps.nextHops_nodup

@[simp] theorem paths_upsert (entry : PathEntry) : (ps.upsert entry).paths =
    ((place ps.paths entry).insertionSort PathEntry.RanksBefore).take ps.capacity := rfl

/-- `cull`: remove expired paths and those of interfaces that are gone. -/
def cull (now : ℚ) (interfaceExists : InterfaceId → Bool) : PathSet where
  paths := ps.paths.filter fun p => now ≤ p.expires ∧ interfaceExists p.receivingInterface
  capacity := ps.capacity
  capacity_pos := ps.capacity_pos
  length_le := (List.length_filter_le _ _).trans ps.length_le
  nextHops_nodup := ps.nextHops_nodup.sublist (List.filter_sublist.map _)

def touchPrimary (now : ℚ) : PathSet where
  paths := ps.paths.modifyHead fun p => { p with timestamp := now }
  capacity := ps.capacity
  capacity_pos := ps.capacity_pos
  length_le := by simpa using ps.length_le
  nextHops_nodup := by
    have hsame : ∀ l : List PathEntry, (l.modifyHead fun p => { p with timestamp := now }).map
        PathEntry.nextHop = l.map PathEntry.nextHop := by
      intro l
      cases l <;> rfl
    rw [hsame]
    exact ps.nextHops_nodup

theorem mem_touchPrimary {ps : PathSet} {now : ℚ} {path : PathEntry}
    (h : path ∈ (ps.touchPrimary now).paths) :
    ∃ old ∈ ps.paths, { old with timestamp := path.timestamp } = path := by
  unfold touchPrimary at h
  dsimp only at h
  cases hps : ps.paths with
  | nil => simp [hps] at h
  | cons first rest =>
    rw [hps, List.modifyHead_cons, List.mem_cons] at h
    rcases h with rfl | h
    · exact ⟨first, by simp, rfl⟩
    · exact ⟨path, by simp [h], rfl⟩

def isFull : Bool := ps.paths.length = ps.capacity

def Overflows (entry : PathEntry) : Prop :=
  ps.isFull ∧ entry.nextHop ∉ ps.paths.map PathEntry.nextHop ∧
    ∀ p ∈ ps.paths, p.hops < entry.hops ∨ p.hops = entry.hops ∧ entry.timestamp ≤ p.timestamp

theorem mem_upsert_iff (entry : PathEntry) :
    entry ∈ (ps.upsert entry).paths ↔ ¬ps.Overflows entry := by
  have hsorted : entry ∈ (place ps.paths entry).insertionSort PathEntry.RanksBefore :=
    (List.perm_insertionSort _ _).mem_iff.mpr ((place_perm ps.nextHops_nodup).mem_iff.mpr (by simp))
  by_cases hmem : entry.nextHop ∈ ps.paths.map PathEntry.nextHop
  · have hlen : (place ps.paths entry).length ≤ ps.capacity :=
      (length_place_of_mem hmem).trans_le ps.length_le
    refine iff_of_true ?_ fun hover => hover.2.1 hmem
    rwa [paths_upsert, List.take_of_length_le (by rwa [List.length_insertionSort])]
  · by_cases hfull : ps.isFull
    · have hcapacity : ps.capacity = ps.paths.length := (of_decide_eq_true hfull).symm
      have hnot : entry ∉ ps.paths := fun h => hmem (List.mem_map_of_mem h)
      rw [paths_upsert, place_of_not_mem hmem, hcapacity, mem_take_insertionSort_concat _ hnot]
      simp only [Overflows, hfull, hmem, not_false_eq_true, true_and, not_forall]
      constructor
      · rintro ⟨p, hp, hrank⟩
        exact ⟨p, hp, hrank⟩
      · rintro ⟨p, hp, hrank⟩
        exact ⟨p, hp, hrank⟩
    · refine iff_of_true ?_ fun hover => hfull hover.1
      have hlt : ps.paths.length < ps.capacity :=
        lt_of_le_of_ne ps.length_le fun heq => hfull (decide_eq_true heq)
      rwa [paths_upsert, List.take_of_length_le]
      rw [List.length_insertionSort, place_of_not_mem hmem, List.length_append]
      exact hlt

theorem Overflows.nextHop_ne {ps : PathSet} {entry path : PathEntry} (h : ps.Overflows entry)
    (hpath : path ∈ (ps.upsert entry).paths) : path.nextHop ≠ entry.nextHop := by
  have hplace : path ∈ place ps.paths entry :=
    (List.perm_insertionSort _ _).mem_iff.mp (List.mem_of_mem_take hpath)
  rw [place_of_not_mem h.2.1, List.mem_append, List.mem_singleton] at hplace
  rcases hplace with hold | rfl
  · exact fun heq => h.2.1 (heq ▸ List.mem_map_of_mem hold)
  · exact absurd h ((mem_upsert_iff ps path).mp hpath)

theorem findByNextHop_of_mem {ps : PathSet} {entry : PathEntry} (h : entry ∈ ps.paths) :
    ps.findByNextHop entry.nextHop = some entry := by
  obtain ⟨found, hfound⟩ : ∃ found, ps.findByNextHop entry.nextHop = some found := by
    rw [← Option.isSome_iff_exists, findByNextHop, List.find?_isSome]
    exact ⟨entry, h, by simp⟩
  have hhop : found.nextHop = entry.nextHop := by simpa using List.find?_some hfound
  have heq := List.inj_on_of_nodup_map ps.nextHops_nodup (List.mem_of_find?_eq_some hfound) h hhop
  rw [hfound, heq]

/-! ## Runs -/

/-- `failover`: the primary path is removed, or put behind the others. -/
def failover (remove : Bool) : PathSet :=
  match hpaths : ps.paths with
  | first :: second :: rest =>
    { paths := if remove then second :: rest else second :: rest ++ [first]
      capacity := ps.capacity
      capacity_pos := ps.capacity_pos
      length_le := by
        have hlen := hpaths ▸ ps.length_le
        simp only [List.length_cons] at hlen
        split_ifs <;> simp <;> omega
      nextHops_nodup := by
        have hnodup := hpaths ▸ ps.nextHops_nodup
        split_ifs
        · exact (List.nodup_cons.mp hnodup).2
        · exact ((List.perm_append_singleton first (second :: rest)).map _).nodup_iff.mpr hnodup }
  | _ => ps

def expireAll : PathSet where
  paths := ps.paths.map fun p => { p with timestamp := 0, expires := 0 }
  capacity := ps.capacity
  capacity_pos := ps.capacity_pos
  length_le := by simpa using ps.length_le
  nextHops_nodup := by simpa [Function.comp_def] using ps.nextHops_nodup

inductive Op where
  | upsert (entry : PathEntry)
  | failover (remove : Bool)
  | cull (now : ℚ) (interfaceExists : InterfaceId → Bool)
  | expireAll
  | touchPrimary (now : ℚ)

def machine : Machine PathSet Op Empty where
  step ps op := (match op with
    | .upsert entry => ps.upsert entry
    | .failover remove => ps.failover remove
    | .cull now interfaceExists => ps.cull now interfaceExists
    | .expireAll => ps.expireAll
    | .touchPrimary now => ps.touchPrimary now, [])

theorem capacity_step (op : Op) : (machine.step ps op).1.capacity = ps.capacity := by
  cases op with
  | failover remove =>
    simp only [machine, failover]
    split <;> rfl
  | _ => rfl

/-- What an update chooses from: the new path, and the paths via other next hops. -/
def candidates (entry : PathEntry) : List PathEntry :=
  ps.paths.filter (·.nextHop ≠ entry.nextHop) ++ [entry]

/-- In every run of a path set, the next hops are distinct and no more than the capacity, and an update
keeps the best of the paths with the one via the new next hop replaced. -/
theorem refines_best_k (first : PathEntry) (capacity : ℕ) (ops : List Op) :
    let ps := (machine.run (fromSingle first capacity) ops).1
    (ps.paths.map PathEntry.nextHop).Nodup ∧ ps.paths.length ≤ max capacity 1 ∧
      ∀ entry, BestOf PathEntry.RanksBefore (max capacity 1) (ps.candidates entry)
        (ps.upsert entry).paths := by
  intro ps
  have hany : machine.Meets (fun _ _ _ => True) [] (fromSingle first capacity) ops :=
    .of_forall fun _ _ => trivial
  have hcapacity : ps.capacity = max capacity 1 :=
    machine.run_keeps (fun _ ps op h _ => (capacity_step ps op).trans h) rfl hany
  rw [← hcapacity]
  exact ⟨ps.nextHops_nodup, ps.length_le, fun entry =>
    bestOf_take_insertionSort _ ps.capacity (place_perm ps.nextHops_nodup)⟩

end PathSet

end Rns.Transport
