import Rns.Transport.Engine

/-!
# Failover

A path that does not answer is put behind the others, which only its place in the list records: the next
update sorts the list again, and a path that ranks before the others is then the primary one although it
has not answered.
-/

namespace Rns.Transport

namespace PathSet

/-- The next hop of the primary path. -/
def primaryHop (ps : PathSet) : Option Hash16 := ps.primary.map PathEntry.nextHop

/-- The path, or the new one if it has the same next hop. -/
def replaced (entry path : PathEntry) : PathEntry := if path.nextHop = entry.nextHop then entry else path

/-- The path does not come first when the new one is put in: one that stands before it ranks no later, or
any other ranks before it. -/
def Outranks (ps : PathSet) (entry path : PathEntry) : Prop :=
  (∃ other ∈ ps.paths.takeWhile (· ≠ path), (replaced entry other).RanksBefore path) ∨
    ∃ other ∈ ps.candidates entry, ¬path.RanksBefore other

instance (ps : PathSet) (entry path : PathEntry) : Decidable (ps.Outranks entry path) :=
  inferInstanceAs (Decidable (_ ∨ _))

section Upsert

variable {ps : PathSet} {paths : List PathEntry} {entry path : PathEntry}
  (hhop : entry.nextHop ≠ path.nextHop)

include hhop

theorem takeWhile_place (hnodup : (paths.map PathEntry.nextHop).Nodup) (hpath : path ∈ paths) :
    (place paths entry).takeWhile (· ≠ path) = (paths.takeWhile (· ≠ path)).map (replaced entry) := by
  induction paths with
  | nil => cases hpath
  | cons other paths ih =>
    rw [List.map_cons, List.nodup_cons] at hnodup
    rw [place_cons]
    by_cases hother : other = path
    · simp [hother, hhop.symm]
    · have hrest := (List.mem_cons.mp hpath).resolve_left (Ne.symm hother)
      rw [List.takeWhile_cons_of_pos (a := other) (by simpa using hother), List.map_cons, replaced]
      split_ifs with hsame
      · have hkept : ∀ p ∈ paths.takeWhile (· ≠ path), replaced entry p = p := fun p hp =>
          if_neg fun heq => hnodup.1 (List.mem_map.mpr
            ⟨p, (List.takeWhile_sublist _).subset hp, heq.trans hsame.symm⟩)
        have hne : entry ≠ path := fun heq => hhop (heq ▸ rfl)
        rw [List.takeWhile_cons_of_pos (by simpa using hne), List.map_congr_left hkept, List.map_id']
      · rw [List.takeWhile_cons_of_pos (by simpa using hother), ih hnodup.2 hrest]

theorem primary_upsert_iff (hpath : path ∈ ps.paths) :
    (ps.upsert entry).primary = some path ↔ ¬ps.Outranks entry path := by
  have hperm : (place ps.paths entry).Perm (ps.candidates entry) := place_perm ps.nextHops_nodup
  have hmem : path ∈ ps.candidates entry := by simp [candidates, hpath, hhop.symm]
  rw [primary, paths_upsert, List.head?_take, if_neg ps.capacity_pos.ne', head?_insertionSort_iff,
    takeWhile_place hhop ps.nextHops_nodup hpath, List.forall_mem_map]
  simp only [hperm.mem_iff, hmem, true_and, Outranks, not_or, not_exists, not_and, not_not]

end Upsert

/-- The step does not make a path via the next hop the primary one, unless it is a new announce via
that next hop, a failover or a cull. -/
def StaysBehind (hop : Hash16) (ps : PathSet) : Op → Prop
  | .failover _ | .cull _ _ => True
  | .upsert entry => entry.nextHop ≠ hop → ps.primaryHop ≠ some hop →
      (ps.upsert entry).primaryHop ≠ some hop
  | op => ps.primaryHop ≠ some hop → (machine.step ps op).1.primaryHop ≠ some hop

/-- An update via another next hop finds that the path via this one is outranked. -/
def FindsOutranked (hop : Hash16) (ps : PathSet) : Op → Prop
  | .upsert entry => entry.nextHop ≠ hop → ps.primaryHop ≠ some hop →
      ∀ path ∈ ps.paths, path.nextHop = hop → ps.Outranks entry path
  | _ => True

instance (hop : Hash16) (ps : PathSet) (op : Op) : Decidable (FindsOutranked hop ps op) := by
  unfold FindsOutranked
  split <;> infer_instance

theorem staysBehind_iff (hop : Hash16) (ps : PathSet) (op : Op) :
    StaysBehind hop ps op ↔ FindsOutranked hop ps op := by
  cases op with
  | upsert entry =>
    refine forall_congr' fun hother => forall_congr' fun _ => ?_
    simp only [primaryHop, ne_eq, Option.map_eq_some_iff, not_exists, not_and]
    constructor
    · intro h path hpath hhop
      by_contra hbehind
      exact h path ((primary_upsert_iff (hhop ▸ hother) hpath).mpr hbehind) hhop
    · intro h path hprimary hhop
      have hmem : path ∈ place ps.paths entry := (List.perm_insertionSort _ _).mem_iff.mp
        (List.mem_of_mem_take (List.mem_of_mem_head? hprimary))
      have hcandidate := (place_perm ps.nextHops_nodup).mem_iff.mp hmem
      simp only [List.mem_append, List.mem_filter, List.mem_singleton] at hcandidate
      rcases hcandidate with hold | rfl
      · exact (primary_upsert_iff (hhop ▸ hother) hold.1).mp hprimary (h path hold.1 hhop)
      · exact hother hhop
  | expireAll => simp [StaysBehind, FindsOutranked, machine, expireAll, primaryHop, primary]
  | touchPrimary now =>
    simp only [StaysBehind, FindsOutranked, machine, touchPrimary, primaryHop, primary]
    cases ps.paths <;> simp
  | _ => rfl

theorem failover_cons {ps : PathSet} {first second : PathEntry} {rest : List PathEntry}
    (h : ps.paths = first :: second :: rest) :
    (ps.failover false).paths = second :: rest ++ [first] := by
  unfold failover
  split
  · next hpaths =>
    rw [h] at hpaths
    cases hpaths
    rfl
  · next hnot => exact absurd h (hnot first second rest)

end PathSet

namespace TransportEngine

open PathSet

/-- `mark_path_unresponsive`: with another path to go on with, that is the primary one now; a boundary
interface does not count. -/
def markPathUnresponsive (e : TransportEngine) (destHash : Hash16)
    (receivingInterface : Option InterfaceId) : TransportEngine :=
  if (receivingInterface.bind (e.interfaces[·]?)).map InterfaceInfo.mode = some InterfaceMode.boundary
  then e
  else
    let unresponsive :=
      { e with pathStates := e.pathStates.insert destHash stateUnresponsive }
    match e.pathTable[destHash]? with
    | none => unresponsive
    | some ps =>
      if ps.paths.length > 1 then { e with
        pathTable := e.pathTable.insert destHash (ps.failover false)
        pathStates := e.pathStates.erase destHash }
      else unresponsive

/-- Along a run of the path set whose primary path was demoted, only an announce via its own next hop, a
failover or a cull makes it the primary one again, exactly when every update via another next hop finds it
outranked. -/
theorem failover_not_undone_iff {e : TransportEngine} {destHash : Hash16} {iface : Option InterfaceId}
    {ps : PathSet} {first : PathEntry} (hset : e.pathTable[destHash]? = some ps)
    (hfirst : ps.primary = some first) (htwo : 2 ≤ ps.paths.length)
    (hmode : (iface.bind (e.interfaces[·]?)).map InterfaceInfo.mode ≠ some InterfaceMode.boundary)
    (ops : List Op) :
    (e.markPathUnresponsive destHash iface).pathTable[destHash]? = some (ps.failover false) ∧
      (ps.failover false).primaryHop ≠ some first.nextHop ∧
      (machine.Meets (fun _ => StaysBehind first.nextHop) [] (ps.failover false) ops ↔
        machine.Meets (fun _ => FindsOutranked first.nextHop) [] (ps.failover false) ops) := by
  refine ⟨?_, ?_, machine.meets_congr (fun _ => staysBehind_iff first.nextHop) _ _ _⟩
  · rw [markPathUnresponsive, if_neg hmode, hset]
    simp only [if_pos (show ps.paths.length > 1 from htwo)]
    exact Std.ExtTreeMap.getElem?_insert_self
  · have hnodup := ps.nextHops_nodup
    obtain ⟨second, rest, hpaths⟩ : ∃ second rest, ps.paths = first :: second :: rest := by
      rw [primary] at hfirst
      match hps : ps.paths with
      | [] | [_] => simp [hps] at htwo
      | a :: b :: rest =>
        rw [hps] at hfirst
        exact ⟨b, rest, by rw [Option.some.inj hfirst]⟩
    rw [hpaths, List.map_cons, List.nodup_cons] at hnodup
    rw [primaryHop, primary, failover_cons hpaths]
    exact fun heq => hnodup.1 (by simp [← Option.some.inj heq])

/-- A path via the next hop of these bytes, with so many hops. -/
def samplePath (hop hops : UInt8) : PathEntry :=
  ⟨0, .replicate 16 hop, hops, 100, [], 0, .replicate 32 0, none⟩

def sampleSet : PathSet := (PathSet.fromSingle (samplePath 1 1) 3).upsert (samplePath 2 2)

/-- An engine with these two paths to the destination of zeros. -/
def twoPaths : TransportEngine :=
  { new ⟨true, none, 0, false, 3, 8, 8, 8, 0, 0, false, 0, 0⟩ with
    pathTable := (∅ : Std.ExtTreeMap Hash16 PathSet).insert (.replicate 16 0) sampleSet }

theorem failover_not_undone_iff_sample :
    (sampleSet.failover false).primary = some (samplePath 2 2) ∧
      machine.Meets (fun _ => StaysBehind (samplePath 1 1).nextHop) [] (sampleSet.failover false)
        [.upsert (samplePath 3 0)] :=
  ⟨by decide +kernel, (@failover_not_undone_iff twoPaths (.replicate 16 0) none sampleSet (samplePath 1 1)
    Std.ExtTreeMap.getElem?_insert_self (by decide +kernel) (by decide +kernel) (by decide)
    [.upsert (samplePath 3 0)]).2.2.mpr (by decide +kernel)⟩

/-- A longer path is announced, and the path that failed is the primary one again. -/
theorem update_undoes_failover :
    let demoted := (twoPaths.markPathUnresponsive (.replicate 16 0) none).pathTable[
      (Vector.replicate 16 0 : Hash16)]?
    demoted.bind PathSet.primary = some (samplePath 2 2) ∧
      demoted.bind (fun ps => (ps.upsert (samplePath 3 3)).primary) = some (samplePath 1 1) := by
  decide +kernel

end TransportEngine

end Rns.Transport
