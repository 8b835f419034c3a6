import Rns.Transport.Capacity

/-!
# Runs of the engine within its limits

Only an accepted announce, a path that is restored or put in by hand, and a path request with a new tag
add to what is limited.
-/

namespace Rns.Transport

open Std TunnelTable

variable (interface : InterfaceId) (now : ℚ) (restored : List (Hash16 × TunnelPath))
  (e : TransportEngine)

variable (tunnelId : Hash32) (d : Hash16) (path : PathEntry)

namespace TransportEngine

/-! ## Operations on the tables -/

/-- A path of a tunnel is restored if it is no longer than the known one or that has expired, and
was not announced before it. -/
def shouldRestore (e : TransportEngine) (destHash : Hash16) (path : TunnelPath) (now : ℚ) : Bool :=
  match e.pathTable[destHash]?.bind PathSet.primary with
  | some existing => (path.hops ≤ existing.hops ∨ existing.expires < now) ∧
      timebaseFromRandomBlobs existing.randomBlobs ≤ timebaseFromRandomBlobs path.randomBlobs
  | none => now < path.expires

/-- A round of the loop of `handle_tunnel`. -/
def restorePath (interface : InterfaceId) (now : ℚ) (e : TransportEngine)
    (stored : Hash16 × TunnelPath) : TransportEngine :=
  let (destHash, path) := stored
  if e.shouldRestore destHash path now then
    e.upsertPathDestination destHash {
      timestamp := path.timestamp
      nextHop := path.receivedFrom
      hops := path.hops
      expires := path.expires
      randomBlobs := path.randomBlobs
      receivingInterface := interface
      packetHash := path.packetHash
      announceRaw := none } now
  else e

/-- `handle_tunnel`: the interface belongs to the tunnel, whose paths are restored. -/
def handleTunnel (e : TransportEngine) (tunnelId : Hash32) (interface : InterfaceId) (now : ℚ) :
    TransportEngine :=
  let interfaces := match e.interfaces[interface]? with
    | some info => e.interfaces.insert interface { info with tunnelId := some tunnelId }
    | none => e.interfaces
  let (tunnelTable, restored) := e.tunnelTable.handleTunnel tunnelId interface now
  restored.foldl (restorePath interface now) { e with interfaces, tunnelTable }

/-- `store_tunnel_path` on the tunnels of the engine. -/
def storeTunnelPath (e : TransportEngine) (tunnelId : Hash32) (destHash : Hash16) (path : TunnelPath)
    (now : ℚ) : TransportEngine :=
  let tunnelTable := e.tunnelTable.storeTunnelPath tunnelId destHash path now
    e.config.maxTunnelDestinationsTotal
  { e with tunnelTable }

def dropAnnounceQueues (e : TransportEngine) : TransportEngine :=
  { e with announceTable := ∅, heldAnnounces := ∅, ingressControl := ∅ }

/-! ## Paths and tunnels -/

/-- The path table and the tunnels are within their limits; the greatest `usize` stands for no
limit. -/
structure RouteLimits (e : TransportEngine) : Prop where
  pathsPos : 1 ≤ e.config.maxPathDestinations
  tunnelsPos : 1 ≤ e.config.maxTunnelDestinationsTotal
  paths : e.config.maxPathDestinations ≠ usizeMax →
    e.pathTable.size ≤ e.config.maxPathDestinations
  tunnels : e.config.maxTunnelDestinationsTotal ≠ usizeMax →
    e.tunnelTable.pathCount ≤ e.config.maxTunnelDestinationsTotal

namespace RouteLimits

variable {P : Primitives} {e e' : TransportEngine}

section

variable (h : e.RouteLimits)
include h

theorem of_le (hconfig : e'.config = e.config) (hpaths : e'.pathTable.size ≤ e.pathTable.size)
    (htunnels : e'.tunnelTable.pathCount ≤ e.tunnelTable.pathCount) : e'.RouteLimits where
  pathsPos := hconfig ▸ h.pathsPos
  tunnelsPos := hconfig ▸ h.tunnelsPos
  paths hlimit := by
    rw [hconfig] at hlimit ⊢
    exact hpaths.trans (h.paths hlimit)
  tunnels hlimit := by
    rw [hconfig] at hlimit ⊢
    exact htunnels.trans (h.tunnels hlimit)

theorem of_eq (hconfig : e'.config = e.config) (hpaths : e'.pathTable = e.pathTable)
    (htunnels : e'.tunnelTable = e.tunnelTable) : e'.RouteLimits :=
  h.of_le hconfig (hpaths ▸ Nat.le_refl _) (htunnels ▸ Nat.le_refl _)

theorem of_aside (haside : e.Aside e') : e'.RouteLimits :=
  h.of_eq haside.config haside.pathTable haside.tunnelTable

theorem upsertPathDestination (now : ℚ) : (e.upsertPathDestination d path now).RouteLimits := by
  obtain ⟨pathTable, pathStates, count, heq⟩ := upsertPathDestination_eq e d path now
  have hpaths : e.config.maxPathDestinations ≠ usizeMax →
      (e.upsertPathDestination d path now).pathTable.size ≤ e.config.maxPathDestinations := by
    intro hlimit
    unfold TransportEngine.upsertPathDestination
    dsimp only
    cases hps : e.pathTable[d]? with
    | some ps =>
      have hcontains : e.pathTable.contains d := by
        rw [ExtTreeMap.contains_eq_isSome_getElem?, hps]
        rfl
      dsimp only
      rw [ExtTreeMap.size_insert, if_pos hcontains]
      exact h.paths hlimit
    | none =>
      have hroom := size_enforcePathDestinationCap e now hlimit h.pathsPos
      exact ExtTreeMap.size_insert_le.trans hroom
  rw [heq] at hpaths ⊢
  exact ⟨h.pathsPos, h.tunnelsPos, hpaths, h.tunnels⟩

section

variable (ctx : VerifiedAnnounceCtx)

theorem storeInTunnel : (e.storeInTunnel ctx).RouteLimits := by
  unfold TransportEngine.storeInTunnel
  split
  · exact h
  · exact ⟨h.pathsPos, h.tunnelsPos, h.paths, fun hlimit =>
      pathCount_storeTunnelPath_le hlimit h.tunnelsPos (h.tunnels hlimit) _ _ _ _⟩

theorem answerDiscovery : (e.answerDiscovery ctx).RouteLimits := by
  unfold TransportEngine.answerDiscovery
  dsimp only
  split
  · exact h
  · exact h.of_eq rfl rfl rfl

theorem acceptAnnounce (rng : UInt64) : (e.acceptAnnounce ctx rng).1.RouteLimits := by
  unfold TransportEngine.acceptAnnounce
  rcases e.checkRate ctx with ⟨rateLimiter, rateBlocked⟩
  dsimp only
  generalize { e with rateLimiter }.announceEntries ctx rng rateBlocked = entries
  obtain ⟨path, entry⟩ := entries
  have hready : RouteLimits { e with rateLimiter } := h.of_eq rfl rfl rfl
  have hstored := (hready.upsertPathDestination ctx.packet.destinationHash path ctx.now).storeInTunnel ctx
  refine answerDiscovery ?_ ctx
  dsimp only
  cases entry with
  | none | some => exact hstored.of_eq rfl rfl rfl

theorem processVerifiedAnnounce (rng : UInt64) :
    (e.processVerifiedAnnounce ctx rng).1.RouteLimits := by
  by_cases haccepts : e.Accepts ctx
  · rw [processVerifiedAnnounce_of_accepts haccepts]
    exact (h.of_aside (aside_forgetStaleState e _)).acceptAnnounce ctx rng
  · obtain ⟨_, heq⟩ := processVerifiedAnnounce_of_not_accepts haccepts rng
    rw [heq]
    exact h.of_eq rfl rfl rfl

end

theorem handleTransportForwarding (ctx : InboundPacketCtx) :
    (e.handleTransportForwarding P ctx).1.RouteLimits := by
  unfold TransportEngine.handleTransportForwarding
  split
  · exact h
  · split_ifs
    · exact h
    · split
      · exact h
      · next ps hps =>
        have hcontains : e.pathTable.contains ctx.packet.destinationHash := by
          rw [ExtTreeMap.contains_eq_isSome_getElem?, hps]
          rfl
        have hsize : (e.pathTable.insert ctx.packet.destinationHash
            (ps.touchPrimary ctx.now)).size ≤ e.pathTable.size := by
          rw [ExtTreeMap.size_insert, if_pos hcontains]
        split
        · exact h
        · unfold forwardAlong
          dsimp only
          split_ifs <;> exact h.of_le rfl hsize (Nat.le_refl _)

theorem completeVerifiedAnnounce (pending : PendingAnnounce) (validated : ValidatedAnnounce)
    (key : Hash32) (now : ℚ) (rng : UInt64) :
    (e.completeVerifiedAnnounce pending validated key now rng).1.RouteLimits := by
  have hremember : (e.rememberSignature key now).RouteLimits := h.of_eq rfl rfl rfl
  exact hremember.processVerifiedAnnounce _ rng

theorem cullTables (now : ℚ) : (e.cullTables now).1.RouteLimits := by
  refine h.of_le rfl ?_ ?_
  · calc ((e.pathTable.map _).filter _).size
        ≤ (e.pathTable.map _).size := ExtTreeMap.size_filter_le_size
      _ = e.pathTable.size := ExtTreeMap.size_map
      _ ≤ e.pathTable.size := Nat.le_refl _
  · refine (pathCount_cull_le _ now).trans ?_
    exact total_map_le (fun entry : TunnelEntry => entry.paths.size) e.tunnelTable _ fun _ _ => Nat.le_refl _

end

theorem routeInvariant : RouteInvariant P RouteLimits where
  of_eq := of_eq
  announce h _ rng := h.processVerifiedAnnounce _ rng
  forward h ctx := h.handleTransportForwarding ctx
  cull h now := h.cullTables now

section

variable (h : e.RouteLimits)
include h

theorem restorePath (interface : InterfaceId) (now : ℚ) (stored : Hash16 × TunnelPath) :
    (e.restorePath interface now stored).RouteLimits := by
  unfold TransportEngine.restorePath
  dsimp only
  split_ifs
  · exact h.upsertPathDestination _ _ now
  · exact h

theorem restoreAll :
    (restored.foldl (TransportEngine.restorePath interface now) e).RouteLimits := by
  induction restored generalizing e with
  | nil => exact h
  | cons stored restored ih => exact ih (h.restorePath interface now stored)

theorem handleTunnel (interface : InterfaceId) (now : ℚ) :
    (e.handleTunnel tunnelId interface now).RouteLimits := by
  have hcount := pathCount_handleTunnel e.tunnelTable tunnelId interface now
  unfold TransportEngine.handleTunnel
  generalize e.tunnelTable.handleTunnel .. = handled at hcount ⊢
  obtain ⟨tunnelTable, restored⟩ := handled
  exact restoreAll interface now restored (h.of_le rfl (Nat.le_refl _) hcount.le)

theorem storeTunnelPath (path : TunnelPath) (now : ℚ) :
    (e.storeTunnelPath tunnelId d path now).RouteLimits :=
  ⟨h.pathsPos, h.tunnelsPos, h.paths, fun hlimit =>
    pathCount_storeTunnelPath_le hlimit h.tunnelsPos (h.tunnels hlimit) _ _ _ _⟩

end

end RouteLimits

/-! ## Announces -/

def AnnounceLimit (e : TransportEngine) : Prop :=
  e.retained.bytesTotal ≤ e.config.announceTableMaxBytes

namespace AnnounceLimit

variable {e e' : TransportEngine}

theorem of_amounts (h : e.AnnounceLimit) {ops : List RetentionOp} (hops : e.Amounts ops e') :
    e'.AnnounceLimit := by
  unfold AnnounceLimit at h ⊢
  rw [hops.config, hops.retained]
  generalize e.retained = r at h ⊢
  clear hops
  induction ops generalizing r with
  | nil => exact h
  | cons op ops ih => exact ih _ (bytesTotal_retention_step h op)

end AnnounceLimit

/-! Paths that are restored bring no announces with them. -/

theorem amounts_upsertPathDestination (now : ℚ) :
    Amounts e [] (e.upsertPathDestination d path now) := by
  obtain ⟨pathTable, pathStates, count, heq⟩ := upsertPathDestination_eq ..
  rw [heq]
  exact .of_eq rfl rfl

theorem amounts_restorePath (stored : Hash16 × TunnelPath) :
    Amounts e [] (e.restorePath interface now stored) := by
  unfold restorePath
  dsimp only
  split_ifs
  · exact amounts_upsertPathDestination ..
  · exact .refl e

theorem amounts_restoreAll : Amounts e [] (restored.foldl (restorePath interface now) e) := by
  induction restored generalizing e with
  | nil => exact .refl e
  | cons stored restored ih => exact (amounts_restorePath ..).trans (ih _)

theorem amounts_handleTunnel (interface : InterfaceId) (now : ℚ) :
    Amounts e [] (e.handleTunnel tunnelId interface now) := by
  unfold handleTunnel
  generalize e.tunnelTable.handleTunnel .. = handled
  obtain ⟨tunnelTable, restored⟩ := handled
  refine Amounts.after_quiet ?_ (amounts_restoreAll ..)
  exact .of_eq rfl rfl

end TransportEngine

/-! ## Runs -/

namespace Relay

open TransportEngine

/-- What is done to the engine from outside, and the parts of it that add to its tables. -/
inductive Operation where
  | event (event : Event)
  | insertAnnounceEntry (destHash : Hash16) (entry : AnnounceEntry) (now : ℚ)
  | insertHeldAnnounce (destHash : Hash16) (entry : AnnounceEntry) (now : ℚ)
  | upsertPathDestination (destHash : Hash16) (entry : PathEntry) (now : ℚ)
  | handleTunnel (tunnelId : Hash32) (interface : InterfaceId) (now : ℚ)
  | voidTunnelInterface (tunnelId : Hash32)
  | storeTunnelPath (tunnelId : Hash32) (destHash : Hash16) (path : TunnelPath) (now : ℚ)
  | insertDiscoveryPrTag (uniqueTag : Hash32)
  | dropPath (destHash : Hash16)
  | dropAnnounceQueues

variable (P : Primitives)

def operations : Machine Relay Operation Action where
  step s
    | .event event => (machine P).step s event
    | .insertAnnounceEntry destHash entry now =>
      ({ s with engine := s.engine.insertAnnounceEntry destHash entry now }, [])
    | .insertHeldAnnounce destHash entry now =>
      ({ s with engine := s.engine.insertHeldAnnounce destHash entry now }, [])
    | .upsertPathDestination destHash entry now =>
      ({ s with engine := s.engine.upsertPathDestination destHash entry now }, [])
    | .handleTunnel tunnelId interface now =>
      ({ s with engine := s.engine.handleTunnel tunnelId interface now }, [])
    | .voidTunnelInterface tunnelId =>
      let tunnelTable := s.engine.tunnelTable.voidTunnelInterface tunnelId
      ({ s with engine := { s.engine with tunnelTable } }, [])
    | .storeTunnelPath tunnelId destHash path now =>
      ({ s with engine := s.engine.storeTunnelPath tunnelId destHash path now }, [])
    | .insertDiscoveryPrTag uniqueTag => ((s.insertDiscoveryPrTag uniqueTag).getD s, [])
    | .dropPath destHash =>
      let pathTable := s.engine.pathTable.erase destHash
      ({ s with engine := { s.engine with pathTable } }, [])
    | .dropAnnounceQueues => ({ s with engine := s.engine.dropAnnounceQueues }, [])

/-- Everything is within the limits that were set; the greatest `usize` stands for no limit. -/
structure InBounds (config : TransportConfig) (maxDiscoveryPrTags : ℕ) (s : Relay) : Prop where
  paths : config.maxPathDestinations ≠ usizeMax →
    s.engine.pathTable.size ≤ config.maxPathDestinations
  announces : s.engine.retained.bytesTotal ≤ config.announceTableMaxBytes
  tunnels : config.maxTunnelDestinationsTotal ≠ usizeMax →
    s.engine.tunnelTable.pathCount ≤ config.maxTunnelDestinationsTotal
  tags : maxDiscoveryPrTags ≠ usizeMax → s.discoveryPrTags.length ≤ maxDiscoveryPrTags

structure TagLimit (maxDiscoveryPrTags : ℕ) (s : Relay) : Prop where
  pos : 1 ≤ maxDiscoveryPrTags
  limit : s.maxDiscoveryPrTags = maxDiscoveryPrTags
  tags : maxDiscoveryPrTags ≠ usizeMax → s.discoveryPrTags.length ≤ maxDiscoveryPrTags

namespace TagLimit

variable {P} {maxDiscoveryPrTags : ℕ} {s s' : Relay}

section

variable (h : s.TagLimit maxDiscoveryPrTags)
include h

theorem insertDiscoveryPrTag {tag : Hash32} (hinsert : s.insertDiscoveryPrTag tag = some s') :
    s'.TagLimit maxDiscoveryPrTags := by
  unfold Relay.insertDiscoveryPrTag at hinsert
  by_cases hseen : tag ∈ s.discoveryPrTags
  · rw [if_pos hseen] at hinsert
    cases hinsert
  · rw [if_neg hseen] at hinsert
    rw [← Option.some.inj hinsert]
    refine ⟨h.pos, h.limit, fun hlimit => ?_⟩
    have htags := h.tags hlimit
    have hpos := h.pos
    dsimp only
    rw [h.limit, List.length_append, List.length_singleton]
    by_cases hfull : s.discoveryPrTags.length ≥ maxDiscoveryPrTags
    · rw [if_pos ⟨hlimit, hfull⟩, List.length_drop]
      omega
    · rw [if_neg fun h => hfull h.2]
      omega

theorem handlePathRequest (data : Bytes) (iface : InterfaceId) (now : ℚ)
    (egress : List InterfaceId) :
    (s.handlePathRequest P data iface now egress).1.TagLimit maxDiscoveryPrTags := by
  unfold Relay.handlePathRequest
  cases hparse : s.parsePathRequest data with
  | none => exact h
  | some parsed =>
    obtain ⟨s', destHash, tag⟩ := parsed
    have hparsed : s'.TagLimit maxDiscoveryPrTags := by
      unfold parsePathRequest at hparse
      by_cases hshort : data.length ≤ 16
      · rw [if_pos hshort] at hparse
        cases hparse
      · rw [if_neg hshort] at hparse
        obtain ⟨inserted, hinsert, heq⟩ := Option.map_eq_some_iff.mp hparse
        rw [← (Prod.mk.inj heq).1]
        exact h.insertDiscoveryPrTag hinsert
    dsimp only
    split_ifs
    · exact hparsed
    · split
      · exact ⟨hparsed.pos, hparsed.limit, hparsed.tags⟩
      · exact ⟨hparsed.pos, hparsed.limit, hparsed.tags⟩

theorem tick (now : ℚ) (rng : InterfaceId → UInt64) :
    (s.tick P now rng).1.TagLimit maxDiscoveryPrTags := by
  have hchecked : (s.processTickPendingAnnounces now).1.TagLimit maxDiscoveryPrTags := by
    unfold processTickPendingAnnounces
    split_ifs
    · exact h
    · exact ⟨h.pos, h.limit, h.tags⟩
  unfold Relay.tick
  generalize s.processTickPendingAnnounces now = checked at hchecked ⊢
  dsimp only
  split_ifs <;> exact ⟨hchecked.pos, hchecked.limit, hchecked.tags⟩

theorem event (event : Event) : ((machine P).step s event).1.TagLimit maxDiscoveryPrTags := by
  cases event with
  | node event => exact ⟨h.pos, h.limit, h.tags⟩
  | pathRequest data iface now egress => exact h.handlePathRequest data iface now egress
  | tick now rng => exact h.tick now rng

end

end TagLimit

theorem routeLimits_event {P : Primitives} {s : Relay} (h : s.engine.RouteLimits) (event : Event) :
    ((machine P).step s event).1.engine.RouteLimits := by
  refine route_step RouteLimits.routeInvariant h event fun key now rng _ => ?_
  rw [Node.engine_verify]
  cases s.toNode.completed P key with
  | none => exact h
  | some done => exact h.completeVerifiedAnnounce ..

/-- The limits, with what keeps them. -/
structure Limits (config : TransportConfig) (maxDiscoveryPrTags : ℕ) (s : Relay) : Prop where
  config : s.engine.config = config
  routes : s.engine.RouteLimits
  announces : s.engine.AnnounceLimit
  tags : s.TagLimit maxDiscoveryPrTags

section

variable {P} {config : TransportConfig} {maxDiscoveryPrTags : ℕ} {s : Relay}

theorem Limits.inBounds (h : s.Limits config maxDiscoveryPrTags) :
    s.InBounds config maxDiscoveryPrTags := by
  obtain ⟨rfl, hroutes, hannounces, htags⟩ := h
  exact ⟨hroutes.paths, hannounces, hroutes.tunnels, htags.tags⟩

theorem limits_new (hpaths : 1 ≤ config.maxPathDestinations)
    (htunnels : 1 ≤ config.maxTunnelDestinationsTotal) (htags : 1 ≤ maxDiscoveryPrTags)
    (queueMaxEntries : ℕ) (heldReleaseInterval : InterfaceId → ℚ) (recursivePrs : InterfaceId → Bool) :
    (new config queueMaxEntries maxDiscoveryPrTags heldReleaseInterval recursivePrs).Limits config
      maxDiscoveryPrTags where
  config := rfl
  routes := ⟨hpaths, htunnels, fun _ => Nat.zero_le _, fun _ => Nat.zero_le _⟩
  announces := Nat.zero_le _
  tags := ⟨htags, rfl, fun _ => Nat.zero_le _⟩

theorem Limits.step (h : s.Limits config maxDiscoveryPrTags) (op : Operation) :
    ((operations P).step s op).1.Limits config maxDiscoveryPrTags := by
  have htags : s.TagLimit maxDiscoveryPrTags := h.tags
  have hkept (engine : TransportEngine) : { s with engine }.TagLimit maxDiscoveryPrTags :=
    ⟨htags.1, htags.2, htags.3⟩
  cases op with
  | event event =>
    have hamounts := amounts_step (P := P) s event
    exact ⟨hamounts.config.trans h.config, routeLimits_event h.routes event,
      h.announces.of_amounts hamounts, htags.event event⟩
  | insertAnnounceEntry d entry now =>
    exact ⟨h.config, h.routes.of_eq rfl rfl rfl,
      Retained.bytesTotal_insertAnnounceEntry_le h.announces .., hkept _⟩
  | insertHeldAnnounce d entry now =>
    exact ⟨h.config, h.routes.of_eq rfl rfl rfl,
      Retained.bytesTotal_insertHeldAnnounce_le h.announces .., hkept _⟩
  | upsertPathDestination d entry now =>
    have hamounts := amounts_upsertPathDestination s.engine d entry now
    exact ⟨hamounts.config.trans h.config, h.routes.upsertPathDestination ..,
      h.announces.of_amounts hamounts, hkept _⟩
  | handleTunnel tunnelId interface now =>
    have hamounts := amounts_handleTunnel s.engine tunnelId interface now
    exact ⟨hamounts.config.trans h.config, h.routes.handleTunnel ..,
      h.announces.of_amounts hamounts, hkept _⟩
  | voidTunnelInterface tunnelId =>
    exact ⟨h.config, h.routes.of_le rfl (Nat.le_refl _)
      (pathCount_voidTunnelInterface ..).le, h.announces, hkept _⟩
  | storeTunnelPath tunnelId d path now =>
    exact ⟨h.config, h.routes.storeTunnelPath .., h.announces,
      hkept _⟩
  | insertDiscoveryPrTag tag =>
    change ((s.insertDiscoveryPrTag tag).getD s).Limits config maxDiscoveryPrTags
    cases hinsert : s.insertDiscoveryPrTag tag with
    | none => exact h
    | some s' =>
      have hengine := congrArg Node.engine (toNode_of_insertDiscoveryPrTag hinsert)
      have hinserted := htags.insertDiscoveryPrTag hinsert
      exact ⟨hengine ▸ h.config, hengine ▸ h.routes, hengine ▸ h.announces, hinserted⟩
  | dropPath d =>
    exact ⟨h.config, h.routes.of_le rfl ExtTreeMap.size_erase_le (Nat.le_refl _), h.announces,
      hkept _⟩
  | dropAnnounceQueues =>
    exact ⟨h.config, h.routes.of_eq rfl rfl rfl, Nat.zero_le _, hkept _⟩

theorem Limits.run (h : s.Limits config maxDiscoveryPrTags) (ops : List Operation) :
    ((operations P).run s ops).1.Limits config maxDiscoveryPrTags := by
  induction ops generalizing s with
  | nil => exact h
  | cons op ops ih => exact ih (h.step op)

end

/-! ## The loops end -/

/-- Every eviction loop ends, with the result that the engine goes on with. -/
structure EvictionsEnd : Prop where
  paths (e : TransportEngine) (now : ℚ) (hlimit : e.config.maxPathDestinations ≠ usizeMax) :
    Evicts Crowded dropDestination
      { e with pathTable := cullPathTable e.pathTable e.interfaces now }
      (e.enforcePathDestinationCap now)
  announces (r : Retained) (ttl : ℚ) (maxBytes : ℕ) (now : ℚ) :
    Evicts (fun r : Retained => r.bytesTotal > maxBytes) Retained.removeOldest
      (r.cullExpired ttl now) (r.enforceCap ttl maxBytes now)
  tunnels (table : TunnelTable) (maxDestinationsTotal : ℕ) (now : ℚ)
      (hlimit : maxDestinationsTotal ≠ usizeMax) :
    Evicts (fun table : TunnelTable => table.pathCount ≥ maxDestinationsTotal)
      (dropPath now) table (table.enforceDestinationCap maxDestinationsTotal now)

theorem evictionsEnd : EvictionsEnd where
  paths e now hlimit := by
    rw [enforcePathDestinationCap, if_neg hlimit]
    dsimp only
    rw [evictDestinations_eq_evictWhile]
    exact evicts_evictWhile Crowded size_dropDestination (Nat.lt_add_one _)
  announces r ttl maxBytes now := by
    rw [Retained.enforceCap, Retained.evict_eq_evictWhile]
    exact evicts_evictWhile _ Retained.size_removeOldest (Nat.lt_add_one _)
  tunnels table maxDestinationsTotal now hlimit := by
    rw [enforceDestinationCap, if_neg hlimit, evictPaths_eq_evictWhile]
    exact evicts_evictWhile _ (pathCount_dropPath now) (Nat.lt_add_one _)

/-- From the start on, whatever is done and at whatever times, everything stays within its limit; and
no eviction goes on forever. -/
theorem limits_hold (P : Primitives) {config : TransportConfig} {maxDiscoveryPrTags : ℕ}
    (hpaths : 1 ≤ config.maxPathDestinations) (htunnels : 1 ≤ config.maxTunnelDestinationsTotal)
    (htags : 1 ≤ maxDiscoveryPrTags) (queueMaxEntries : ℕ) (heldReleaseInterval : InterfaceId → ℚ)
    (recursivePrs : InterfaceId → Bool) (ops : List Operation) :
    ((operations P).run (new config queueMaxEntries maxDiscoveryPrTags heldReleaseInterval
      recursivePrs) ops).1.InBounds config maxDiscoveryPrTags ∧ EvictionsEnd :=
  ⟨((limits_new hpaths htunnels htags ..).run
    ops).inBounds, evictionsEnd⟩

def smallConfig : TransportConfig :=
  { sampleConfig with maxPathDestinations := 1, maxTunnelDestinationsTotal := 1 }

/-- Two paths, of which there is room for one, two destinations of a tunnel and two tags. -/
def crowdedOps : List Operation :=
  let path : TunnelPath := ⟨10, .replicate 16 7, 2, 1000, [], .replicate 32 0⟩
  [.upsertPathDestination (.replicate 16 1) ⟨10, .replicate 16 7, 2, 1000, [], 1, .replicate 32 0, none⟩
      10,
    .handleTunnel (.replicate 32 3) 1 11,
    .storeTunnelPath (.replicate 32 3) (.replicate 16 2) path 12,
    .storeTunnelPath (.replicate 32 3) (.replicate 16 4) path 13,
    .handleTunnel (.replicate 32 3) 1 14,
    .insertDiscoveryPrTag (.replicate 32 5),
    .insertDiscoveryPrTag (.replicate 32 6)]

theorem limits_hold_crowded : 1 ≤ smallConfig.maxPathDestinations ∧
    1 ≤ smallConfig.maxTunnelDestinationsTotal ∧
    ((operations .sample).run (new smallConfig 8 1 (fun _ => 5) fun _ => false)
      crowdedOps).1.InBounds smallConfig 1 ∧ EvictionsEnd :=
  ⟨by decide, by decide, limits_hold .sample (by decide) (by decide) (by decide) 8 (fun _ => 5)
    (fun _ => false) ..⟩

end Relay

end Rns.Transport
