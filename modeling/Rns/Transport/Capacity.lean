import Rns.Lib.Evict
import Rns.Lib.Total
import Rns.Transport.Learned

/-!
# The limits of the engine

Whatever adds to a limited table first makes room, in a loop that drops the oldest, so every limit holds
after every operation.
-/

namespace Rns.Transport

open Std
open Option (map_eq_some_iff map_eq_none_iff)

variable {r : Retained} {maxBytes : ℕ}

namespace TransportEngine

/-! ## Paths -/

variable (e : TransportEngine) {table : ExtTreeMap Hash16 PathSet}

theorem getElem?_of_oldestPathDestination {d : Hash16} (h : oldestPathDestination table = some d) :
    ∃ ps, table[d]? = some ps := by
  obtain ⟨⟨d', primary⟩, hmin, rfl⟩ := map_eq_some_iff.mp h
  obtain ⟨⟨d, ps⟩, hmem, hprimary⟩ := List.mem_filterMap.mp (mem_of_minBy _ hmin)
  obtain ⟨path, -, hpath⟩ := map_eq_some_iff.mp hprimary
  obtain ⟨rfl, rfl⟩ := Prod.mk.inj hpath
  exact ⟨ps, ExtTreeMap.mem_toList_iff_getElem?_eq_some.mp hmem⟩

theorem eq_empty_of_oldestPathDestination
    (hpaths : ∀ (d : Hash16) (ps : PathSet), table[d]? = some ps → ¬ps.isEmpty)
    (h : oldestPathDestination table = none) : table.size = 0 := by
  have hnone := minBy_eq_none _ (map_eq_none_iff.mp h)
  rw [← ExtTreeMap.length_toList, List.length_eq_zero_iff, List.eq_nil_iff_forall_not_mem]
  rintro ⟨d, ps⟩ hmem
  have hsome := hpaths d ps (ExtTreeMap.mem_toList_iff_getElem?_eq_some.mp hmem)
  have hprimary := List.filterMap_eq_nil_iff.mp hnone (d, ps) hmem
  rw [map_eq_none_iff, PathSet.primary, List.head?_eq_none_iff] at hprimary
  exact hsome (by rw [PathSet.isEmpty, hprimary]; rfl)

abbrev Crowded (e : TransportEngine) : Prop := e.pathTable.size ≥ e.config.maxPathDestinations

/-- A round of the loop of `enforce_path_destination_cap`. -/
def dropDestination (e : TransportEngine) : Option TransportEngine :=
  (oldestPathDestination e.pathTable).map fun destHash => { e with
    pathTable := e.pathTable.erase destHash
    pathStates := e.pathStates.erase destHash
    pathDestinationCapEvictCount := e.pathDestinationCapEvictCount + 1 }

theorem evictDestinations_eq_evictWhile (fuel : ℕ) :
    e.evictDestinations fuel = evictWhile Crowded dropDestination fuel e := by
  induction fuel generalizing e with
  | zero => rfl
  | succ fuel ih =>
    rw [evictDestinations, evictWhile, dropDestination]
    split_ifs
    · cases oldestPathDestination e.pathTable with
      | none => rfl
      | some d => exact ih _
    · rfl

theorem size_dropDestination (e' : TransportEngine) (h : e.dropDestination = some e') :
    e'.pathTable.size < e.pathTable.size := by
  obtain ⟨d, hd, rfl⟩ := map_eq_some_iff.mp h
  obtain ⟨ps, hps⟩ := getElem?_of_oldestPathDestination hd
  exact size_erase_lt e.pathTable hps

theorem size_enforcePathDestinationCap (now : ℚ) (hlimit : e.config.maxPathDestinations ≠ usizeMax)
    (hpos : 1 ≤ e.config.maxPathDestinations) :
    (e.enforcePathDestinationCap now).pathTable.size < e.config.maxPathDestinations := by
  rw [enforcePathDestinationCap, if_neg hlimit]
  dsimp only
  rw [evictDestinations_eq_evictWhile]
  generalize hculled : ({ e with pathTable := cullPathTable e.pathTable e.interfaces now } :
    TransportEngine) = culled
  -- what is left always has the limit of the engine and paths for every destination
  let kept (e' : TransportEngine) : Prop := e'.config = e.config ∧
    ∀ (d : Hash16) (ps : PathSet), e'.pathTable[d]? = some ps → ¬ps.isEmpty
  have hstart : kept culled := by
    rw [← hculled]
    refine ⟨rfl, fun d ps hps => ?_⟩
    simp only [cullPathTable, ExtTreeMap.getElem?_filter'] at hps
    simpa using (Option.filter_eq_some_iff.mp hps).2
  have hdrop : ∀ e₁ e₂ : TransportEngine, kept e₁ → e₁.dropDestination = some e₂ → kept e₂ := by
    rintro e₁ e₂ ⟨hconfig, hpaths⟩ h
    obtain ⟨d, -, rfl⟩ := map_eq_some_iff.mp h
    refine ⟨hconfig, fun d' ps hps => ?_⟩
    rw [ExtTreeMap.getElem?_erase] at hps
    split_ifs at hps
    exact hpaths d' ps hps
  have hsize : cullPathTable e.pathTable e.interfaces now = culled.pathTable := by rw [← hculled]
  rw [hsize]
  have hkept := evictWhile_keeps Crowded hdrop (culled.pathTable.size + 1) hstart
  have hends := drop_evictWhile Crowded size_dropDestination (Nat.lt_add_one culled.pathTable.size)
  generalize evictWhile Crowded dropDestination _ culled = after at hkept hends ⊢
  obtain ⟨hconfig, hpaths⟩ := hkept
  by_contra hfull
  have hcrowded : after.Crowded := by
    rw [Crowded, hconfig]
    exact Nat.not_lt.mp hfull
  have hzero := eq_empty_of_oldestPathDestination hpaths
    (map_eq_none_iff.mp (hends hcrowded))
  omega

/-! ## Announces -/

namespace Retained

theorem bytesTotal_eq (r : Retained) : r.bytesTotal =
    total announceEntrySizeBytes r.announceTable + total announceEntrySizeBytes r.heldAnnounces :=
  rfl

theorem evict_eq_evictWhile (maxBytes fuel : ℕ) (r : Retained) :
    evict maxBytes fuel r = evictWhile (fun r : Retained => r.bytesTotal > maxBytes) removeOldest
      fuel r := by
  induction fuel generalizing r with
  | zero => rfl
  | succ fuel ih =>
    rw [evict, evictWhile]
    cases r.removeOldest with
    | none => rfl
    | some r' =>
      dsimp only
      rw [ih r']

theorem getElem?_of_oldestIn {table : ExtTreeMap Hash16 AnnounceEntry} {oldest : Hash16 × AnnounceEntry}
    (h : oldestIn table = some oldest) : table[oldest.1]? = some oldest.2 :=
  ExtTreeMap.mem_toList_iff_getElem?_eq_some.mp (mem_of_minBy _ h)

theorem size_removeOldest (r r' : Retained) (h : r.removeOldest = some r') :
    r'.announceTable.size + r'.heldAnnounces.size < r.announceTable.size + r.heldAnnounces.size := by
  have hactive : ∀ active, oldestIn r.announceTable = some active →
      (r.announceTable.erase ..).size < r.announceTable.size := fun active h =>
    size_erase_lt _ (getElem?_of_oldestIn h)
  have hheld : ∀ held, oldestIn r.heldAnnounces = some held →
      (r.heldAnnounces.erase held.1).size < r.heldAnnounces.size := fun held h =>
    size_erase_lt _ (getElem?_of_oldestIn h)
  unfold removeOldest at h
  split at h
  · next active held ha hh =>
    split_ifs at h
    · obtain rfl := Option.some.inj h
      exact Nat.add_lt_add_right (hactive active ha) _
    · obtain rfl := Option.some.inj h
      exact Nat.add_lt_add_left (hheld held hh) _
  · next active ha hh =>
    obtain rfl := Option.some.inj h
    exact Nat.add_lt_add_right (hactive active ha) _
  · next held ha hh =>
    obtain rfl := Option.some.inj h
    exact Nat.add_lt_add_left (hheld held hh) _
  · cases h

theorem bytesTotal_of_removeOldest (h : r.removeOldest = none) : r.bytesTotal = 0 := by
  have hempty : ∀ {table : ExtTreeMap Hash16 AnnounceEntry}, oldestIn table = none →
      total announceEntrySizeBytes table = 0 := fun {table} h => by
    rw [total, minBy_eq_none _ h]
    rfl
  unfold removeOldest at h
  split at h
  · split_ifs at h
  · cases h
  · cases h
  · next ha hh => rw [bytesTotal_eq, hempty ha, hempty hh]

theorem bytesTotal_evict_le (maxBytes : ℕ) (r : Retained) :
    (evict maxBytes (r.announceTable.size + r.heldAnnounces.size + 1) r).bytesTotal ≤ maxBytes := by
  rw [evict_eq_evictWhile]
  have hends := drop_evictWhile (fun r : Retained => r.bytesTotal > maxBytes) size_removeOldest
    (Nat.lt_add_one (r.announceTable.size + r.heldAnnounces.size))
  by_contra hfull
  have hzero := bytesTotal_of_removeOldest (hends (Nat.not_le.mp hfull))
  omega

theorem bytesTotal_cullExpired_le (r : Retained) (ttl now : ℚ) :
    (r.cullExpired ttl now).bytesTotal ≤ r.bytesTotal :=
  Nat.add_le_add (total_filter_le _ _ _) (total_filter_le _ _ _)

section

variable (h : r.bytesTotal ≤ maxBytes) (d : Hash16) (entry : AnnounceEntry) (ttl now : ℚ)
include h

theorem bytesTotal_insertAnnounceEntry_le :
    (r.insertAnnounceEntry d entry ttl maxBytes now).bytesTotal ≤ maxBytes := by
  unfold insertAnnounceEntry
  dsimp only
  split_ifs
  · exact (bytesTotal_cullExpired_le ..).trans h
  · exact bytesTotal_evict_le _ _

theorem bytesTotal_insertHeldAnnounce_le :
    (r.insertHeldAnnounce d entry ttl maxBytes now).bytesTotal ≤ maxBytes := by
  unfold insertHeldAnnounce
  dsimp only
  split_ifs
  · exact (bytesTotal_cullExpired_le ..).trans h
  · exact bytesTotal_evict_le _ _

end

theorem total_heardRebroadcast_le (table : ExtTreeMap Hash16 AnnounceEntry) (packet : RawPacket)
    (now : ℚ) : total announceEntrySizeBytes (heardRebroadcast table packet now) ≤
      total announceEntrySizeBytes table := by
  unfold heardRebroadcast
  dsimp only
  cases hentry : table[packet.destinationHash]? with
  | none => exact Nat.le_refl _
  | some entry =>
    dsimp only
    generalize hcounted : (if packet.hops ≠ 0 ∧ packet.hops - 1 = entry.hops then _ else table :
      ExtTreeMap Hash16 AnnounceEntry) = counted
    have hcount : total announceEntrySizeBytes counted ≤ total announceEntrySizeBytes table := by
      rw [← hcounted]
      split_ifs
      · exact total_erase_le _ _ _
      · rw [total_insert, total_erase _ _ hentry]
        exact Nat.le_refl _
      · exact Nat.le_refl _
    split
    · exact hcount
    · split_ifs
      · exact (total_erase_le _ _ _).trans hcount
      · exact hcount

end Retained

theorem bytesTotal_retention_step {config : TransportConfig}
    (h : r.bytesTotal ≤ config.announceTableMaxBytes) (op : RetentionOp) :
    ((retention config).step r op).1.bytesTotal ≤ config.announceTableMaxBytes := by
  cases op with
  | hear packet now =>
    exact (Nat.add_le_add_right (Retained.total_heardRebroadcast_le ..) _).trans h
  | insert d entry now => exact Retained.bytesTotal_insertAnnounceEntry_le h ..
  | answer d response now =>
    have haside : (r.setAside d config.announceTableTtlSecs config.announceTableMaxBytes
        now).bytesTotal ≤ config.announceTableMaxBytes := by
      unfold Retained.setAside
      split
      · refine Retained.bytesTotal_insertHeldAnnounce_le (LE.le.trans ?_ h) ..
        exact Nat.add_le_add_right (total_erase_le _ _ _) _
      · exact h
    cases response with
    | none => exact haside
    | some entry => exact Retained.bytesTotal_insertAnnounceEntry_le haside ..
  | check now => exact Retained.bytesTotal_evict_le _ _

end TransportEngine

/-! ## Tunnels -/

namespace TunnelTable

/-- `handle_tunnel`: a tunnel is new, or attached again; then its paths are restored. -/
def handleTunnel (table : TunnelTable) (tunnelId : Hash32) (interface : InterfaceId) (now : ℚ) :
    TunnelTable × List (Hash16 × TunnelPath) :=
  let expires := now + tunnelTimeout
  match table[tunnelId]? with
  | some entry => (table.insert tunnelId { entry with interface := some interface, expires },
      entry.paths.toList)
  | none => (table.insert tunnelId ⟨tunnelId, some interface, ∅, expires⟩, [])

def voidTunnelInterface (table : TunnelTable) (tunnelId : Hash32) : TunnelTable :=
  match table[tunnelId]? with
  | some entry => table.insert tunnelId { entry with interface := none }
  | none => table

variable (table : TunnelTable) {maxDestinationsTotal : ℕ} (now : ℚ) (tunnelId : Hash32)

theorem pathCount_eq : table.pathCount = total (fun entry => entry.paths.size) table :=
  rfl

theorem pathCount_insert {table : TunnelTable} {tunnelId : Hash32} {entry : TunnelEntry}
    (h : table[tunnelId]? = some entry) (entry' : TunnelEntry) :
    pathCount (table.insert tunnelId entry') + entry.paths.size =
      table.pathCount + entry'.paths.size := by
  rw [pathCount_eq, pathCount_eq, total_insert, total_erase _ table h]
  omega

theorem pathCount_cull_le : (table.cull now).pathCount ≤ table.pathCount := by
  rw [pathCount_eq, pathCount_eq, cull]
  refine (total_filter_le _ _ _).trans (total_map_le _ table _ fun _ entry => ?_)
  exact ExtTreeMap.size_filter_le_size

theorem pathCount_handleTunnel (interface : InterfaceId) (now : ℚ) :
    (table.handleTunnel tunnelId interface now).1.pathCount = table.pathCount := by
  unfold handleTunnel
  dsimp only
  cases h : table[tunnelId]? with
  | some entry =>
    exact Nat.add_right_cancel (pathCount_insert h
      { entry with interface := some interface, expires := now + tunnelTimeout })
  | none =>
    dsimp only
    rw [pathCount_eq, total_insert_of_none _ _ h]
    exact Nat.zero_add _

theorem pathCount_voidTunnelInterface :
    (table.voidTunnelInterface tunnelId).pathCount = table.pathCount := by
  unfold voidTunnelInterface
  cases h : table[tunnelId]? with
  | some entry => exact Nat.add_right_cancel (pathCount_insert h { entry with interface := none })
  | none => rfl

theorem getElem?_of_oldestPath {table : TunnelTable} {tunnelId : Hash32} {d : Hash16}
    (h : table.oldestPath = some (tunnelId, d)) :
    ∃ entry path, table[tunnelId]? = some entry ∧ entry.paths[d]? = some path := by
  obtain ⟨⟨tunnelId', d', path⟩, hmin, heq⟩ := map_eq_some_iff.mp h
  obtain ⟨⟨tunnelId'', entry⟩, hentry, hmem⟩ := List.mem_flatMap.mp (mem_of_minBy _ hmin)
  obtain ⟨⟨d'', path'⟩, hpath, heq'⟩ := List.mem_map.mp hmem
  simp only [Prod.mk.injEq] at heq heq'
  obtain ⟨rfl, rfl⟩ := heq
  obtain ⟨rfl, rfl, rfl⟩ := heq'
  exact ⟨entry, path', ExtTreeMap.mem_toList_iff_getElem?_eq_some.mp hentry,
    ExtTreeMap.mem_toList_iff_getElem?_eq_some.mp hpath⟩

theorem pathCount_of_oldestPath {table : TunnelTable} (h : table.oldestPath = none) :
    table.pathCount = 0 := by
  have hnone := minBy_eq_none _ (map_eq_none_iff.mp h)
  rw [List.flatMap_eq_nil_iff] at hnone
  rw [pathCount, List.sum_eq_zero_iff]
  intro size hmem
  obtain ⟨⟨tunnelId, entry⟩, hentry, rfl⟩ := List.mem_map.mp hmem
  have hpaths := List.map_eq_nil_iff.mp (hnone (tunnelId, entry) hentry)
  dsimp only
  rw [← ExtTreeMap.length_toList, hpaths]
  rfl

/-- A round of the loop of `enforce_destination_cap`. -/
def dropPath (now : ℚ) (table : TunnelTable) : Option TunnelTable :=
  table.oldestPath.map fun (tunnelId, destinationHash) => table.removePath tunnelId destinationHash now

theorem evictPaths_eq_evictWhile (maxDestinationsTotal : ℕ) (now : ℚ) (fuel : ℕ) (table : TunnelTable) :
    evictPaths maxDestinationsTotal now fuel table =
      evictWhile (fun table : TunnelTable => table.pathCount ≥ maxDestinationsTotal) (dropPath now)
        fuel table := by
  induction fuel generalizing table with
  | zero => rfl
  | succ fuel ih =>
    rw [evictPaths, evictWhile, dropPath]
    cases table.oldestPath with
    | none => rfl
    | some oldest =>
      dsimp only [Option.map_some]
      rw [ih]

theorem pathCount_dropPath (table table' : TunnelTable) (h : table.dropPath now = some table') :
    table'.pathCount < table.pathCount := by
  obtain ⟨⟨tunnelId, d⟩, holdest, rfl⟩ := map_eq_some_iff.mp h
  obtain ⟨entry, path, hentry, hpath⟩ := getElem?_of_oldestPath holdest
  have hless := size_erase_lt entry.paths hpath
  dsimp only
  rw [removePath, hentry]
  dsimp only
  split_ifs
  · have htotal := total_erase (fun entry : TunnelEntry => entry.paths.size) table hentry
    rw [pathCount_eq, pathCount_eq]
    omega
  · have hinsert := pathCount_insert hentry { entry with paths := entry.paths.erase d }
    dsimp only at hinsert
    omega

theorem pathCount_enforceDestinationCap (hlimit : maxDestinationsTotal ≠ usizeMax)
    (hpos : 1 ≤ maxDestinationsTotal) :
    (table.enforceDestinationCap maxDestinationsTotal now).pathCount < maxDestinationsTotal := by
  rw [enforceDestinationCap, if_neg hlimit, evictPaths_eq_evictWhile]
  have hends := drop_evictWhile
    (fun table : TunnelTable => table.pathCount ≥ maxDestinationsTotal)
    (pathCount_dropPath now) (Nat.lt_add_one table.pathCount)
  by_contra hfull
  have hzero := pathCount_of_oldestPath (map_eq_none_iff.mp (hends (Nat.not_lt.mp hfull)))
  omega

theorem pathCount_storeTunnelPath_le {table : TunnelTable} {maxDestinationsTotal : ℕ}
    (hlimit : maxDestinationsTotal ≠ usizeMax) (hpos : 1 ≤ maxDestinationsTotal)
    (h : table.pathCount ≤ maxDestinationsTotal) (tunnelId : Hash32) (d : Hash16) (path : TunnelPath)
    (now : ℚ) : (table.storeTunnelPath tunnelId d path now maxDestinationsTotal).pathCount ≤
      maxDestinationsTotal := by
  have hculled := (pathCount_cull_le table now).trans h
  unfold storeTunnelPath
  dsimp only
  generalize table.cull now = culled at hculled ⊢
  cases hentry : culled[tunnelId]? with
  | none =>
    dsimp only
    rw [if_neg (by simp), hentry]
    exact hculled
  | some entry =>
    dsimp only
    by_cases hcontains : entry.paths.contains d
    · rw [if_neg (by simp [hcontains]), hentry]
      have hinsert := pathCount_insert hentry { entry with
        paths := entry.paths.insert d path, expires := now + tunnelTimeout }
      dsimp only at hinsert ⊢
      rw [ExtTreeMap.size_insert, if_pos hcontains] at hinsert
      omega
    · rw [if_pos (by simp [hcontains])]
      have hroom := pathCount_enforceDestinationCap culled now hlimit hpos
      generalize culled.enforceDestinationCap maxDestinationsTotal now = room at hroom ⊢
      cases hleft : room[tunnelId]? with
      | none => exact hroom.le
      | some left =>
        have hinsert := pathCount_insert hleft { left with
          paths := left.paths.insert d path, expires := now + tunnelTimeout }
        have hsize : (left.paths.insert d path).size ≤ left.paths.size + 1 :=
          ExtTreeMap.size_insert_le
        dsimp only at hinsert ⊢
        omega

end TunnelTable

end Rns.Transport
