import Rns.Transport.Inbound

/-!
# Path updates and replays

A reported path update is in the path table, and the announce that made it is refused from then on as
long as the path stays, where the path set had a place for the new path.
-/

namespace Rns.Transport

/-- The same announce again, over at least as many hops. -/
structure VerifiedAnnounceCtx.Replays (again ctx : VerifiedAnnounceCtx) : Prop where
  destination : again.packet.destinationHash = ctx.packet.destinationHash
  randomBlob : again.randomBlob = ctx.randomBlob
  nextHop : again.receivedFrom = ctx.receivedFrom
  hops : ctx.packet.hops ≤ again.packet.hops

namespace TransportEngine

variable (e : TransportEngine) (ctx : VerifiedAnnounceCtx)

/-- The later engine still has the paths to the destination.  Their times may have changed, and so
may their order. -/
def KeepsPaths (later : TransportEngine) (destHash : Hash16) : Prop :=
  ∀ path ∈ e.pathsTo destHash, ∃ kept ∈ later.pathsTo destHash,
    kept.nextHop = path.nextHop ∧ kept.hops = path.hops ∧ kept.randomBlobs = path.randomBlobs

def Records (destHash nextHop : Hash16) (randomBlob : RandomBlob) : Prop :=
  ∃ path ∈ e.pathsTo destHash, path.nextHop = nextHop ∧ randomBlob ∈ path.randomBlobs

/-- While the paths to the destination stay and are not marked unresponsive, the announce is not
reported again. -/
def RefusesReplays : Prop :=
  ∀ later again rng, e.KeepsPaths later ctx.packet.destinationHash →
    later.pathIsUnresponsive ctx.packet.destinationHash = false → again.Replays ctx →
    ∀ action ∈ (later.processVerifiedAnnounce again rng).2,
      action.reports ctx.packet.destinationHash = false

/-- Every path update the announce makes is recorded, and replays of it are refused. -/
def UpdateIsLasting (rng : UInt64) : Prop :=
  ∀ destHash hops nextHop iface,
    .pathUpdated destHash hops nextHop iface ∈ (e.processVerifiedAnnounce ctx rng).2 →
    (e.processVerifiedAnnounce ctx rng).1.Records destHash nextHop ctx.randomBlob ∧
      (e.processVerifiedAnnounce ctx rng).1.RefusesReplays ctx

/-- The announce is stopped by its identity, its hops, its blob or its time of emission, or the set
of its destination has a place for the new path: it is not full, or has a path via the next hop, or
has a path that ranks behind the new one. -/
def HasPlaceFor : Prop :=
  e.isBlackholed ctx.validated.identityHash ctx.now ∨ ctx.packet.hops > pathfinderM ∨
    ∀ ps, e.pathTable[ctx.packet.destinationHash]? = some ps →
      ps.paths.length < ps.capacity ∨ ctx.receivedFrom ∈ ps.paths.map PathEntry.nextHop ∨
      ctx.randomBlob ∈ ps.allRandomBlobs ∨
      ctx.announceEmitted < timebaseFromRandomBlobs ps.allRandomBlobs ∨
      ∃ p ∈ ps.paths, ctx.packet.hops < p.hops ∨
        p.hops = ctx.packet.hops ∧ p.timestamp < ctx.now

variable {e : TransportEngine} {ctx : VerifiedAnnounceCtx}

theorem not_overflows_of_place {ps : PathSet}
    (h : ps.paths.length < ps.capacity ∨ ctx.receivedFrom ∈ ps.paths.map PathEntry.nextHop ∨
      ∃ p ∈ ps.paths, ctx.packet.hops < p.hops ∨
        p.hops = ctx.packet.hops ∧ p.timestamp < ctx.now) : ¬ps.Overflows (e.newPath ctx) := by
  rintro ⟨hfull, hnew, hrank⟩
  rcases h with hroom | hhop | ⟨p, hp, hbehind⟩
  · exact absurd (of_decide_eq_true hfull) hroom.ne
  · exact hnew hhop
  · exact PathEntry.not_ranksBefore_iff.mpr hbehind (hrank p hp)

theorem overflows_of_not_hasPlaceFor (h : ¬e.HasPlaceFor ctx) :
    e.Accepts ctx ∧ ∃ ps, e.pathTable[ctx.packet.destinationHash]? = some ps ∧
      ∀ e', ps.Overflows (newPath e' ctx) := by
  simp only [HasPlaceFor, not_or, not_forall, not_exists, not_lt] at h
  obtain ⟨hblack, hhops, ps, hps, hfull, hnew, hblob, hemitted, hrank⟩ := h
  have hlen : ps.paths.length = ps.capacity := le_antisymm ps.length_le hfull
  have hne : ps.paths ≠ [] := fun hnil => by
    have hpos := ps.capacity_pos
    simp [hnil] at hlen
    omega
  refine ⟨⟨hblack, hhops, ?_⟩, ps, hps, fun e' => ⟨decide_eq_true hlen, hnew, fun p hp => ?_⟩⟩
  · rw [decide, pathTable_forgetStaleState, hps]
    exact (decideAnnounceMultipath_of_not_mem hne hnew (UInt8.not_lt.mp hhops) _ _ _).mpr
      ⟨hblob, hemitted⟩
  · by_contra hbehind
    exact hrank p ⟨hp, PathEntry.not_ranksBefore_iff.mp hbehind⟩

theorem refusesReplays_of_mem {path : PathEntry}
    (hpath : path ∈ e.pathsTo ctx.packet.destinationHash) (hhop : path.nextHop = ctx.receivedFrom)
    (hblob : ctx.randomBlob ∈ path.randomBlobs) (hhops : path.hops ≤ ctx.packet.hops) :
    e.RefusesReplays ctx := by
  intro later again rng hkeeps hresponsive hagain action haction
  obtain ⟨kept, hkept, hkeptHop, hkeptHops, hkeptBlobs⟩ := hkeeps path hpath
  have hrefused : ¬later.Accepts again := by
    refine not_accepts_of_mem (hagain.destination ▸ hkept) ?_ ?_ ?_ (hagain.destination ▸ hresponsive)
    · rw [hkeptHop, hhop, hagain.nextHop]
    · rwa [hkeptBlobs, hagain.randomBlob]
    · rw [hkeptHops]
      exact UInt8.le_trans hhops hagain.hops
  obtain ⟨_, heq⟩ := processVerifiedAnnounce_of_not_accepts hrefused rng
  rw [heq] at haction
  simp at haction

theorem newPath_mem_acceptAnnounce (haccepts : e.Accepts ctx) (hplace : e.HasPlaceFor ctx)
    (rng : UInt64) : (e.forgetStaleState ctx.packet.destinationHash).newPath ctx ∈
      (e.processVerifiedAnnounce ctx rng).1.pathsTo ctx.packet.destinationHash := by
  rw [processVerifiedAnnounce_of_accepts haccepts, pathsTo_acceptAnnounce_self,
    pathTable_forgetStaleState]
  cases hps : e.pathTable[ctx.packet.destinationHash]? with
  | none => exact List.mem_singleton_self _
  | some ps =>
    obtain ⟨hblack, hhops, hdecide⟩ := haccepts
    rw [decide, pathTable_forgetStaleState, hps] at hdecide
    rcases hplace with hblack' | hhops' | hplace
    · exact absurd hblack' hblack
    · exact absurd hhops' hhops
    · refine (PathSet.mem_upsert_iff _ _).mpr fun hover => ?_
      -- an overflowing set is full and has no path via the next hop, so the decision read the blobs
      have hne : ps.paths ≠ [] := fun hnil => by
        have hlen : ps.paths.length = ps.capacity := of_decide_eq_true hover.1
        have hpos := ps.capacity_pos
        simp [hnil] at hlen
        omega
      obtain ⟨hblob, hemitted⟩ := (decideAnnounceMultipath_of_not_mem hne hover.2.1
        (UInt8.not_lt.mp hhops) _ _ _).mp hdecide
      rcases hplace ps hps with hroom | hhop | hold | holder | hbehind
      · exact not_overflows_of_place (.inl hroom) hover
      · exact not_overflows_of_place (.inr (.inl hhop)) hover
      · exact hblob hold
      · exact absurd hemitted (not_le.mpr holder)
      · exact not_overflows_of_place (.inr (.inr hbehind)) hover

/-- Every path update is recorded and its replays refused exactly where there is a place for the
new path. -/
theorem updateIsLasting_iff (e : TransportEngine) (ctx : VerifiedAnnounceCtx) (rng : UInt64) :
    e.UpdateIsLasting ctx rng ↔ e.HasPlaceFor ctx := by
  constructor
  · intro hlasting
    by_contra hplace
    obtain ⟨haccepts, ps, hps, hover⟩ := overflows_of_not_hasPlaceFor hplace
    have hprocess := processVerifiedAnnounce_of_accepts haccepts rng
    obtain ⟨⟨path, hpath, hhop, -⟩, -⟩ := hlasting ctx.packet.destinationHash ctx.packet.hops
      ctx.receivedFrom ctx.iface (by simp [hprocess, pathUpdated_mem_acceptAnnounce])
    rw [hprocess, pathsTo_acceptAnnounce_self, pathTable_forgetStaleState, hps] at hpath
    exact (hover _).nextHop_ne hpath hhop
  · intro hplace destHash hops nextHop iface hupdated
    have haccepts : e.Accepts ctx := by
      by_contra hrefused
      obtain ⟨_, heq⟩ := processVerifiedAnnounce_of_not_accepts hrefused rng
      simp [heq] at hupdated
    have hmem := newPath_mem_acceptAnnounce haccepts hplace rng
    have hblob := mem_rememberBlob ((e.forgetStaleState ctx.packet.destinationHash).blobsVia
      ctx.packet.destinationHash ctx.receivedFrom) ctx.randomBlob
    rw [processVerifiedAnnounce_of_accepts haccepts, pathUpdated_mem_acceptAnnounce] at hupdated
    obtain ⟨rfl, -, rfl, -⟩ := hupdated
    exact ⟨⟨_, hmem, rfl, hblob⟩, refusesReplays_of_mem hmem rfl hblob (UInt8.le_refl _)⟩

/-! ## A set of one path -/

section Example

/-- A relay that keeps one path per destination. -/
def sampleConfig : TransportConfig where
  transportEnabled := true
  identityHash := none
  localHopsDelta := 0
  preferShorterPath := false
  maxPathsPerDestination := 1
  packetHashlistMaxEntries := 10
  maxPathDestinations := 10
  maxTunnelDestinationsTotal := 10
  announceTableTtlSecs := 30
  announceTableMaxBytes := 10000
  announceSigCacheEnabled := true
  announceSigCacheMaxEntries := 10
  announceSigCacheTtlSecs := 30

/-- An announce that verifies under the sample primitives, for the destination of zeros: relayed by
a transport node of equal bytes, with the emission time and a byte of the signature to tell it
apart. -/
def sampleFrame (relay hops emitted mark : UInt8) (appData : Bytes) (now : ℚ) : InboundFrame where
  raw := [0x51, hops] ++ List.replicate 16 relay ++ List.replicate 17 0 ++
    (List.replicate 74 0 ++ (List.replicate 9 0 ++ [emitted]) ++ (List.replicate 63 0 ++ [mark]) ++
      appData)
  iface := 1
  now
  rx := ⟨none, none⟩

/-- The engine after a first announce over one hop, after a second one over four hops from another
relay, and the reports on the second one and on its repetition. -/
def sampleRun : TransportEngine × List TransportAction × List TransportAction :=
  let e := ((new sampleConfig).handleInbound .sample (sampleFrame 7 0 1 0 [] 100) 0).1
  let (e, actions) := e.handleInbound .sample (sampleFrame 9 3 2 1 [] 200) 0
  (e, actions, (e.handleInbound .sample (sampleFrame 9 3 2 1 [] 300) 0).2)

/-- The second announce is reported as a path update, no path via its relay is stored, and it is
reported again when it is repeated. -/
theorem update_lost_in_full_set :
    .pathUpdated (.replicate 16 0) 4 (.replicate 16 9) 1 ∈ sampleRun.2.1 ∧
      (∀ path ∈ sampleRun.1.pathsTo (.replicate 16 0), path.nextHop ≠ .replicate 16 9) ∧
      .pathUpdated (.replicate 16 0) 4 (.replicate 16 9) 1 ∈ sampleRun.2.2 := by
  decide +kernel

end Example

end TransportEngine

end Rns.Transport
