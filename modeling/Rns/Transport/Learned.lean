import Rns.Transport.RelayMoves

/-!
# Where paths and entries come from

Paths and waiting entries come from accepted announces only.  Hence none is over the hop limit, and the
announce stored with a path unpacks again whenever it is needed.
-/

namespace Rns.Transport

open RawPacket Std.ExtTreeMap

variable {Q : AnnounceEntry → Prop} {entry : AnnounceEntry} {r : Retained}
  {ctx : VerifiedAnnounceCtx} {path : PathEntry}

variable {frame : InboundFrame} {rng : UInt64} {d : Hash16} {now : ℚ}

namespace TransportEngine

variable {P : Primitives} {e e' : TransportEngine}

/-! ## Frames -/

theorem originalRaw_of_prepareInboundPacket {ctx : InboundPacketCtx}
    (h : e.prepareInboundPacket P frame = some ctx) :
    ctx.originalRaw = frame.raw ∧ (unpack P ctx.originalRaw).isOk := by
  cases hunpack : unpack P frame.raw with
  | error => simp [prepareInboundPacket, hunpack] at h
  | ok packet =>
    obtain rfl := prepareInboundPacket_eq_some hunpack h
    exact ⟨rfl, by rw [hunpack]; rfl⟩

/-- A property of the routes of an engine, which announces that unpack and packets that pass keep. -/
structure RouteInvariant (P : Primitives) (I : TransportEngine → Prop) : Prop where
  of_eq : ∀ {e e' : TransportEngine}, I e → e'.config = e.config → e'.pathTable = e.pathTable →
    e'.tunnelTable = e.tunnelTable → I e'
  announce : ∀ {e : TransportEngine} {ctx : VerifiedAnnounceCtx}, I e →
    (unpack P ctx.originalRaw).isOk → ∀ rng, I (e.processVerifiedAnnounce ctx rng).1
  forward : ∀ {e : TransportEngine}, I e → ∀ ctx, I (e.handleTransportForwarding P ctx).1
  cull : ∀ {e : TransportEngine}, I e → ∀ now, I (e.cullTables now).1

namespace RouteInvariant

variable {I : TransportEngine → Prop} (hI : RouteInvariant P I)

include hI

theorem of_aside (h : I e) (haside : Aside e e') : I e' :=
  hI.of_eq h haside.config haside.pathTable haside.tunnelTable

theorem handleInbound (h : I e) (frame : InboundFrame) (rng : UInt64)
    (queue : Option AnnounceVerifyQueue) :
    I (e.handleInboundWithAnnounceQueue P frame rng queue).1 := by
  cases hprepare : e.prepareInboundPacket P frame with
  | none =>
    rw [handleInboundWithAnnounceQueue, hprepare]
    exact h
  | some ctx =>
    have hremember := hI.of_aside h (aside_rememberInboundPacketHash e ctx.packet)
    by_cases htype : ctx.packet.flags.packetType = PacketType.announce
    · have hprocess (a : AnnounceData) (validated : ValidatedAnnounce) :
          I ((e.rememberInboundPacketHash ctx.packet).process P ctx a validated rng).1 := by
        have hready : I ((e.rememberInboundPacketHash ctx.packet).readyFor P ctx a) :=
          hI.of_eq hremember rfl rfl rfl
        unfold process
        exact hI.announce hready (originalRaw_of_prepareInboundPacket hprepare).2 rng
      cases queue with
      | none =>
        rw [handleInbound_announce_now hprepare htype]
        exact processInboundAnnounce_cases (motive := fun result => I result.1) rng hremember
          (hI.of_eq hremember rfl rfl rfl) fun a validated _ _ => hprocess a validated
      | some queue =>
        rw [handleInbound_announce_queued hprepare htype]
        exact tryEnqueueAnnounce_cases (motive := fun result => I result.1) rng queue hremember
          (hI.of_eq hremember rfl rfl rfl) (hI.of_eq hremember rfl rfl rfl)
          (fun _ _ => hI.of_eq hremember rfl rfl rfl) fun a validated _ _ => hprocess a validated
    · rw [handleInbound_of_not_announce hprepare htype]
      simp only [TransportEngine.handleInbound, handleInboundWithAnnounceQueue, hprepare,
        handleInboundAnnounce, if_pos htype]
      have hroute := hI.of_aside (hI.forward hremember ctx) (aside_handleLinkTableRouting _ ctx)
      split_ifs
      · exact hI.of_aside hroute (aside_processInboundProof _ ctx)
      · exact hroute

theorem releaseAll (h : I e) (heldReleaseInterval : InterfaceId → ℚ) (now : ℚ)
    (rng : InterfaceId → UInt64) (ifaces : List InterfaceId) :
    I (releaseAll P heldReleaseInterval now rng ifaces e).1 := by
  induction ifaces generalizing e with
  | nil => exact h
  | cons iface ifaces ih =>
    refine ih ?_
    cases e.interfaces[iface]? with
    | none => exact h
    | some info =>
      dsimp only
      split_ifs
      · split
        · exact hI.of_eq h rfl rfl rfl
        · refine hI.handleInbound (hI.of_eq h ?_ ?_ ?_) .. <;> rfl
      · exact h

theorem handleKnownPathRequest (h : I e) (d : Hash16) (iface : InterfaceId) (now : ℚ) :
    I (e.handleKnownPathRequest P d iface now).1 := by
  unfold TransportEngine.handleKnownPathRequest
  split
  · exact h
  · split_ifs
    · exact h
    · split
      · exact h
      · next raw _ =>
        unfold answerPathRequest pathResponse
        dsimp only
        cases e.announceTable[d]? <;> cases unpack P raw <;> exact hI.of_eq h rfl rfl rfl

end RouteInvariant

/-! ## Paths -/

def AllPaths (Q : PathEntry → Prop) (e : TransportEngine) : Prop :=
  ∀ destHash, ∀ path ∈ e.pathsTo destHash, Q path

namespace AllPaths

variable {Q : PathEntry → Prop}

theorem of_pathTable_eq (h : AllPaths Q e) (heq : e'.pathTable = e.pathTable) : AllPaths Q e' := by
  intro destHash path hpath
  rw [pathsTo, heq] at hpath
  exact h destHash path hpath

theorem of_quiet (hQ : ∀ path timestamp, Q path → Q { path with timestamp }) (h : AllPaths Q e)
    {result : TransportEngine × List TransportAction} (hquiet : Quiet e result) :
    AllPaths Q result.1 := by
  intro destHash path hpath
  obtain ⟨old, hold, heq⟩ := hquiet.paths destHash path hpath
  rw [← heq]
  exact hQ old _ (h destHash old hold)

end AllPaths

theorem mem_paths_upsert {ps : PathSet} {entry path : PathEntry}
    (h : path ∈ (ps.upsert entry).paths) : path ∈ ps.paths ∨ path = entry := by
  rw [PathSet.paths_upsert] at h
  have hplace := (List.perm_insertionSort _ _).mem_iff.mp (List.mem_of_mem_take h)
  unfold PathSet.place at hplace
  split at hplace
  · exact (List.mem_or_eq_of_mem_set hplace)
  · simpa using hplace

theorem mem_pathsTo_acceptAnnounce_or {destHash : Hash16}
    (h : path ∈ (e.acceptAnnounce ctx rng).1.pathsTo destHash) :
    path ∈ e.pathsTo destHash ∨ path = e.newPath ctx := by
  by_cases hne : destHash = ctx.packet.destinationHash
  · subst hne
    rw [pathsTo_acceptAnnounce_self] at h
    unfold pathsTo
    cases hps : e.pathTable[ctx.packet.destinationHash]? with
    | none =>
      rw [hps] at h
      exact .inr (List.mem_singleton.mp h)
    | some ps =>
      rw [hps] at h
      exact mem_paths_upsert h
  · exact .inl (mem_pathsTo_acceptAnnounce e ctx hne h)

theorem AllPaths.processVerifiedAnnounce {Q : PathEntry → Prop} (h : AllPaths Q e)
    (hnew : ctx.packet.hops ≤ pathfinderM → ∀ e' : TransportEngine, Q (e'.newPath ctx))
    (rng : UInt64) : AllPaths Q (e.processVerifiedAnnounce ctx rng).1 := by
  by_cases haccepts : e.Accepts ctx
  · rw [processVerifiedAnnounce_of_accepts haccepts]
    have hforget : AllPaths Q (e.forgetStaleState ctx.packet.destinationHash) :=
      h.of_pathTable_eq (pathTable_forgetStaleState _)
    intro destHash path hpath
    rcases mem_pathsTo_acceptAnnounce_or hpath with hold | rfl
    · exact hforget destHash path hold
    · exact hnew (UInt8.not_lt.mp haccepts.2.1) _
  · obtain ⟨_, heq⟩ := processVerifiedAnnounce_of_not_accepts haccepts rng
    rw [heq]
    exact h.of_pathTable_eq rfl

/-- A path within the hop limit, whose announce unpacks. -/
structure Sound (P : Primitives) (path : PathEntry) : Prop where
  hops : path.hops ≤ pathfinderM
  raw : ∀ raw ∈ path.announceRaw, (unpack P raw).isOk

theorem Sound.touch (path : PathEntry) (timestamp : ℚ) (h : Sound P path) :
    Sound P { path with timestamp } := ⟨h.hops, h.raw⟩

theorem AllPaths.cullTables {Q : PathEntry → Prop} (h : AllPaths Q e) (now : ℚ) :
    AllPaths Q (e.cullTables now).1 := by
  intro destHash path hpath
  refine h destHash path ?_
  unfold pathsTo at hpath ⊢
  simp only [TransportEngine.cullTables, cullPathTable, getElem?_filter',
    getElem?_map] at hpath
  cases hold : e.pathTable[destHash]? with
  | none => simp [hold] at hpath
  | some ps =>
    simp only [hold, Option.map_some, Option.filter_some] at hpath
    split_ifs at hpath
    · exact List.mem_of_mem_filter hpath
    · cases hpath

theorem routeInvariant_sound : RouteInvariant P (AllPaths (Sound P)) where
  of_eq h _ hpaths _ := h.of_pathTable_eq hpaths
  announce h hraw rng := by
    refine h.processVerifiedAnnounce (fun hhops _ => ⟨hhops, fun raw hmem => ?_⟩) rng
    obtain rfl := Option.some.inj hmem
    exact hraw
  forward h ctx := h.of_quiet Sound.touch (quiet_handleTransportForwarding P _ ctx)
  cull h now := h.cullTables now

/-! ## Entries -/

def AllIn (Q : AnnounceEntry → Prop) (table : Std.ExtTreeMap Hash16 AnnounceEntry) : Prop :=
  ∀ (d : Hash16) (entry : AnnounceEntry), table[d]? = some entry → Q entry

namespace AllIn

variable {Q : AnnounceEntry → Prop} {table : Std.ExtTreeMap Hash16 AnnounceEntry}

theorem insert (h : AllIn Q table) (d : Hash16) (hentry : Q entry) :
    AllIn Q (table.insert d entry) := by
  intro d' found hfound
  rw [getElem?_insert] at hfound
  split_ifs at hfound
  · exact Option.some.inj hfound ▸ hentry
  · exact h d' found hfound

theorem erase (h : AllIn Q table) (d : Hash16) : AllIn Q (table.erase d) := by
  intro d' found hfound
  rw [getElem?_erase] at hfound
  split_ifs at hfound
  exact h d' found hfound

theorem filter (h : AllIn Q table) (keep : AnnounceEntry → Bool) :
    AllIn Q (table.filter fun _ entry => keep entry) := by
  intro d found hfound
  rw [getElem?_filter'] at hfound
  exact h d found (Option.filter_eq_some_iff.mp hfound).1

end AllIn

namespace Retained

/-- Every entry has a property that does not depend on how often it was sent or heard. -/
structure AllEntries (Q : AnnounceEntry → Prop) (r : Retained) : Prop where
  announceTable : AllIn Q r.announceTable
  heldAnnounces : AllIn Q r.heldAnnounces

namespace AllEntries

variable {Q : AnnounceEntry → Prop} {r : Retained} (h : AllEntries Q r) {ttl now : ℚ}
  {maxBytes : ℕ}

include h

theorem cullExpired : AllEntries Q (r.cullExpired ttl now) :=
  ⟨h.announceTable.filter _, h.heldAnnounces.filter _⟩

theorem removeOldest {r' : Retained} (hremove : r.removeOldest = some r') : AllEntries Q r' := by
  unfold Retained.removeOldest at hremove
  split at hremove
  · split_ifs at hremove <;> cases hremove
    · exact ⟨h.announceTable.erase _, h.heldAnnounces⟩
    · exact ⟨h.announceTable, h.heldAnnounces.erase _⟩
  · cases hremove
    exact ⟨h.announceTable.erase _, h.heldAnnounces⟩
  · cases hremove
    exact ⟨h.announceTable, h.heldAnnounces.erase _⟩
  · cases hremove

theorem evict (fuel : ℕ) : AllEntries Q (evict maxBytes fuel r) := by
  induction fuel generalizing r with
  | zero => exact h
  | succ fuel ih =>
    rw [Retained.evict]
    split_ifs
    · cases hremove : r.removeOldest with
      | none => exact h
      | some r' => exact ih (h.removeOldest hremove)
    · exact h

theorem enforceCap : AllEntries Q (r.enforceCap ttl maxBytes now) := h.cullExpired.evict _

theorem insertAnnounceEntry (d : Hash16) (hentry : Q entry) :
    AllEntries Q (r.insertAnnounceEntry d entry ttl maxBytes now) := by
  have hculled : AllEntries Q (r.cullExpired ttl now) := h.cullExpired
  unfold Retained.insertAnnounceEntry
  dsimp only
  split_ifs
  · exact hculled
  · have hput : AllEntries Q ⟨(r.cullExpired ttl now).announceTable.insert d entry,
        (r.cullExpired ttl now).heldAnnounces⟩ :=
      ⟨hculled.announceTable.insert d hentry, hculled.heldAnnounces⟩
    exact hput.cullExpired.evict _

theorem insertHeldAnnounce (d : Hash16) (hentry : Q entry) :
    AllEntries Q (r.insertHeldAnnounce d entry ttl maxBytes now) := by
  have hculled : AllEntries Q (r.cullExpired ttl now) := h.cullExpired
  unfold Retained.insertHeldAnnounce
  dsimp only
  split_ifs
  · exact hculled
  · have hput : AllEntries Q ⟨(r.cullExpired ttl now).announceTable,
        (r.cullExpired ttl now).heldAnnounces.insert d entry⟩ :=
      ⟨hculled.announceTable, hculled.heldAnnounces.insert d hentry⟩
    exact hput.cullExpired.evict _

theorem setAside (d : Hash16) : AllEntries Q (r.setAside d ttl maxBytes now) := by
  unfold Retained.setAside
  cases hentry : r.announceTable[d]? with
  | none => exact h
  | some existing =>
    have herased : AllEntries Q { r with announceTable := r.announceTable.erase d } :=
      ⟨h.announceTable.erase d, h.heldAnnounces⟩
    exact herased.insertHeldAnnounce d (h.announceTable d existing hentry)

end AllEntries

def Lasting (Q : AnnounceEntry → Prop) : Prop :=
  ∀ entry retransmitTimeout retries localRebroadcasts, Q entry →
    Q { entry with retransmitTimeout, retries, localRebroadcasts }

theorem AllEntries.processPendingAnnounces (h : AllEntries Q r) (hQ : Lasting Q)
    (identityHash : Hash16) (now : ℚ) :
    AllEntries Q (r.processPendingAnnounces identityHash now).1 := by
  have hcheck : ∀ d entry, entry ∈ ((r.slots d).check d identityHash now).1.pending ∨
      entry ∈ ((r.slots d).check d identityHash now).1.held → Q entry := by
    intro d entry hentry
    have hpending : ∀ found ∈ (r.slots d).pending, Q found := h.announceTable d
    have hheld : ∀ found ∈ (r.slots d).held, Q found := h.heldAnnounces d
    generalize r.slots d = slots at hpending hheld hentry
    obtain ⟨_ | found, held⟩ := slots
    · exact hentry.elim (hpending entry) (hheld entry)
    · have hfound := hpending found rfl
      simp only [Slots.check] at hentry
      split_ifs at hentry
      · rcases hentry with hentry | hentry
        · cases held with
          | none =>
            obtain rfl := Option.some.inj hentry
            exact hQ found _ _ found.localRebroadcasts hfound
          | some held =>
            obtain rfl := Option.some.inj hentry
            exact hheld _ rfl
        · cases hentry
      · exact hentry.elim (hpending entry) (hheld entry)
      · exact hentry.elim (by simp) (hheld entry)
  constructor
  · intro d entry hentry
    refine hcheck d entry (.inl ?_)
    rw [← slots_processPendingAnnounces]
    exact hentry
  · intro d entry hentry
    refine hcheck d entry (.inr ?_)
    rw [← slots_processPendingAnnounces]
    exact hentry

theorem AllEntries.checkAll (h : AllEntries Q r) (hQ : Lasting Q) (identityHash : Option Hash16)
    (ttl : ℚ) (maxBytes : ℕ) (now : ℚ) :
    AllEntries Q (r.checkAll identityHash ttl maxBytes now).1 := by
  have hbefore : AllEntries Q ((r.cullExpired ttl now).enforceCap ttl maxBytes now) :=
    h.cullExpired.enforceCap
  cases identityHash with
  | none =>
    dsimp only [Retained.checkAll]
    exact hbefore.cullExpired.enforceCap
  | some identityHash =>
    have hsent := hbefore.processPendingAnnounces hQ identityHash now
    dsimp only [Retained.checkAll]
    generalize Retained.processPendingAnnounces _ .. = result at hsent ⊢
    exact hsent.cullExpired.enforceCap

end Retained

def RetentionOp.Brings (Q : AnnounceEntry → Prop) : RetentionOp → Prop
  | .insert _ entry _ => Q entry
  | .answer _ response _ => ∀ entry ∈ response, Q entry
  | _ => True

theorem Retained.AllEntries.step (hQ : Retained.Lasting Q) (h : r.AllEntries Q) {op : RetentionOp}
    (hop : op.Brings Q) (config : TransportConfig) :
    ((retention config).step r op).1.AllEntries Q := by
  cases op with
  | hear packet now =>
    refine ⟨fun d entry hentry => ?_, h.heldAnnounces⟩
    rw [show ((retention config).step r (.hear packet now)).1.announceTable =
      heardRebroadcast r.announceTable packet now from rfl, getElem?_heardRebroadcast_eq] at hentry
    split_ifs at hentry
    · obtain ⟨old, hold, hheard⟩ := Option.bind_eq_some_iff.mp hentry
      rw [← AnnounceEntry.Same.of_hear hheard]
      exact hQ old _ _ _ (h.announceTable d old hold)
    · exact h.announceTable d entry hentry
  | insert d entry now => exact h.insertAnnounceEntry d hop
  | answer d response now =>
    have haside : (r.setAside d config.announceTableTtlSecs config.announceTableMaxBytes
      now).AllEntries Q := h.setAside d
    cases response with
    | none => exact haside
    | some entry => exact haside.insertAnnounceEntry d (hop entry rfl)
  | check now => exact h.checkAll hQ ..

theorem Retained.AllEntries.run (hQ : Retained.Lasting Q) (h : r.AllEntries Q)
    (config : TransportConfig) {ops : List RetentionOp} (hops : ∀ op ∈ ops, op.Brings Q) :
    ((retention config).run r ops).1.AllEntries Q := by
  have hmeets : (retention config).Meets (fun _ _ op => op.Brings Q) [] r ops := .of_forall hops
  exact Machine.run_keeps _ (fun _ _ _ hr hop => hr.step hQ hop config) h hmeets

/-! ### What the operations of an event bring -/

def Near (entry : AnnounceEntry) : Prop := entry.hops ≤ pathfinderM

theorem lasting_near : Retained.Lasting Near := fun _ _ _ _ h => h

theorem brings_verifiedOps (e : TransportEngine) (ctx : VerifiedAnnounceCtx) (rng : UInt64) :
    ∀ op ∈ e.verifiedOps ctx rng, op.Brings Near := by
  unfold verifiedOps
  split_ifs with haccepts
  · have hhops : ctx.packet.hops ≤ pathfinderM := UInt8.not_lt.mp haccepts.2.1
    intro op hop
    rcases List.mem_append.mp hop with hop | hop
    · obtain ⟨entry, hentry, rfl⟩ := Option.map_eq_some_iff.mp (Option.mem_toList.mp hop)
      unfold acceptedEntry announceEntries processValidatedAnnounce at hentry
      dsimp only at hentry
      split_ifs at hentry
      obtain rfl := Option.some.inj hentry
      exact hhops
    · obtain ⟨request, -, rfl⟩ := Option.map_eq_some_iff.mp (Option.mem_toList.mp hop)
      exact hhops
  · exact nofun

theorem brings_hearOps (e : TransportEngine) (packet : RawPacket) (now : ℚ) :
    ∀ op ∈ e.hearOps packet now, op.Brings Near := by
  unfold hearOps
  split_ifs <;> simp [RetentionOp.Brings]

theorem brings_frameOps {e : TransportEngine} {queued : Bool} :
    ∀ op ∈ e.frameOps P frame rng queued, op.Brings Near :=
  forall_frameOps brings_hearOps brings_verifiedOps e frame rng queued

theorem brings_releaseAllOps (heldReleaseInterval : InterfaceId → ℚ) (rng : InterfaceId → UInt64)
    {ifaces : List InterfaceId} {e : TransportEngine} :
    ∀ op ∈ releaseAllOps P heldReleaseInterval now rng ifaces e, op.Brings Near :=
  forall_releaseAllOps brings_hearOps brings_verifiedOps heldReleaseInterval now rng ifaces e

theorem mem_paths_of_primary (h : e.pathTable[d]?.bind PathSet.primary = some path) :
    path ∈ e.pathsTo d := by
  obtain ⟨ps, hps, hprimary⟩ := Option.bind_eq_some_iff.mp h
  rw [pathsTo, hps]
  exact List.mem_of_mem_head? hprimary

theorem requestOps_of_sound (h : AllPaths (Sound P) e) {iface : InterfaceId} :
    ∀ op ∈ e.requestOps P d iface now, op.Brings Near ∧
      ∃ response, op = .answer d (some response) now := by
  unfold requestOps
  cases hprimary : e.pathTable[d]?.bind PathSet.primary with
  | none => exact List.forall_mem_nil _
  | some path =>
    have hsound := h d path (mem_paths_of_primary hprimary)
    dsimp only
    split_ifs
    · exact List.forall_mem_nil _
    · cases hraw : path.announceRaw with
      | none => exact List.forall_mem_nil _
      | some raw =>
        have hunpack := hsound.raw raw hraw
        intro op hop
        obtain rfl := List.mem_singleton.mp hop
        unfold pathResponse
        dsimp only
        cases hparsed : unpack P raw with
        | error =>
          rw [hparsed] at hunpack
          cases hunpack
        | ok parsed =>
          refine ⟨fun entry hentry => ?_, _, rfl⟩
          obtain rfl := Option.some.inj hentry
          exact hsound.hops

end TransportEngine

/-! ## Reachable relays -/

namespace Relay

open TransportEngine

variable {P : Primitives} {s : Relay}

/-- Paths and entries are within the hop limit, and announces stored with paths or queued for
verification unpack. -/
structure Invariant (P : Primitives) (s : Relay) : Prop where
  paths : s.engine.AllPaths (Sound P)
  entries : s.engine.retained.AllEntries Near
  queue : s.queue.All fun pending => (unpack P pending.originalRaw).isOk

theorem invariant_new (config : TransportConfig) (queueMaxEntries maxDiscoveryPrTags : ℕ)
    (heldReleaseInterval : InterfaceId → ℚ) (recursivePrs : InterfaceId → Bool) :
    (new config queueMaxEntries maxDiscoveryPrTags heldReleaseInterval recursivePrs).Invariant P := by
  refine ⟨fun d path hpath => ?_, ⟨fun d entry hentry => ?_, fun d entry hentry => ?_⟩,
    fun key entry hentry => ?_⟩
  · simp [new, Node.new, pathsTo, TransportEngine.new] at hpath
  · simp [new, Node.new, retained, TransportEngine.new] at hentry
  · simp [new, Node.new, retained, TransportEngine.new] at hentry
  · simp [new, Node.new, AnnounceVerifyQueue.new, AnnounceVerifyQueue.withLimits] at hentry

/-- The entries that come in with an event are within the hop limit, and a request that is answered
gets a response. -/
theorem Invariant.brings (h : s.Invariant P) {event : Event} :
    ∀ op ∈ s.ops P event, op.Brings Near := by
  cases event with
  | node event =>
    cases event with
    | frame frame rng => exact brings_frameOps
    | queuedFrame frame rng => exact brings_frameOps
    | verify key now rng =>
      rw [ops]
      split
      · simp
      · exact brings_verifiedOps _ _ rng
    | _ => simp [ops]
  | pathRequest data iface now egress =>
    rw [ops]
    cases hparse : s.parsePathRequest data with
    | none => simp
    | some parsed =>
      dsimp only
      have hpaths : AllPaths (Sound P) parsed.1.engine := by
        rw [engine_of_parsePathRequest hparse]
        exact h.paths
      split_ifs
      · simp
      · exact fun op hop => (requestOps_of_sound hpaths op hop).1
  | tick now rng =>
    intro op hop
    rcases List.mem_append.mp hop with hop | hop
    · split_ifs at hop
      · cases hop
      · obtain rfl := List.mem_singleton.mp hop
        trivial
    · exact brings_releaseAllOps _ rng op hop

theorem Invariant.responds (h : s.Invariant P) (event : Event) {response : Option AnnounceEntry}
    (hop : .answer d response now ∈ s.ops P event) : response.isSome := by
  cases event with
  | node event => exact (fromAnnounces_node s event _ hop).elim
  | pathRequest data iface now' egress =>
    rw [ops] at hop
    cases hparse : s.parsePathRequest data with
    | none =>
      rw [hparse] at hop
      cases hop
    | some parsed =>
      have hpaths : AllPaths (Sound P) parsed.1.engine := by
        rw [engine_of_parsePathRequest hparse]
        exact h.paths
      rw [hparse] at hop
      dsimp only at hop
      split_ifs at hop
      · cases hop
      · obtain ⟨-, found, heq⟩ := requestOps_of_sound hpaths _ hop
        cases heq
        rfl
  | tick now' rng =>
    rcases List.mem_append.mp hop with hop | hop
    · split_ifs at hop
      · cases hop
      · cases List.mem_singleton.mp hop
    · exact (fromAnnounces_releaseAllOps _ now' rng _ _ _ hop).elim

theorem Invariant.queue_queuedFrame (h : s.Invariant P) :
    ((s.engine.handleInboundWithAnnounceQueue P frame rng (some s.queue)).2.1.getD s.queue).All
      fun pending => (unpack P pending.originalRaw).isOk := by
  cases hprepare : s.engine.prepareInboundPacket P frame with
  | none =>
    rw [handleInboundWithAnnounceQueue, hprepare]
    exact h.queue
  | some ctx =>
    by_cases htype : ctx.packet.flags.packetType = PacketType.announce
    · rw [handleInbound_announce_queued hprepare htype]
      refine queue_tryEnqueueAnnounce h.queue _ ctx rng fun pending _ hraw _ => ?_
      rw [hraw]
      exact (originalRaw_of_prepareInboundPacket hprepare).2
    · rw [handleInbound_of_not_announce hprepare htype]
      exact h.queue

theorem Invariant.unpacks_completed (h : s.Invariant P) {key : AnnounceVerifyKey}
    {pending : PendingAnnounce} {validated : ValidatedAnnounce} {sigKey : Hash32}
    (hcompleted : s.toNode.completed P key = some (pending, validated, sigKey)) :
    (unpack P pending.originalRaw).isOk := by
  unfold Node.completed at hcompleted
  split at hcompleted
  · cases hcompleted
  · dsimp only at hcompleted
    split at hcompleted
    · cases hcompleted
    · split at hcompleted
      · cases hcompleted
      · obtain ⟨found, hfound, heq⟩ := Option.map_eq_some_iff.mp hcompleted
        obtain ⟨entry, hentry, rfl⟩ := Option.map_eq_some_iff.mp hfound
        obtain rfl := (Prod.mk.inj heq).1
        exact h.queue key entry hentry

theorem queue_verify (s : Node) (key : AnnounceVerifyKey) (now : ℚ) (rng : UInt64) :
    (s.verify P key now rng).1.queue = s.queue ∨
      (s.verify P key now rng).1.queue = s.queue.removeEntry key := by
  unfold Node.verify
  cases s.taken.find? (·.1 = key) with
  | none => exact .inl rfl
  | some found =>
    right
    dsimp only
    cases announceOf found.2.packet with
    | none => rfl
    | some announce =>
      dsimp only
      cases announce.validate P found.2.packet.destinationHash with
      | error => rfl
      | ok validated =>
        dsimp only [AnnounceVerifyQueue.completeSuccess]
        cases s.queue.entries[key]?.map QueueEntry.announce <;> rfl

theorem Invariant.verify (h : s.Invariant P) (key : AnnounceVerifyKey) (now : ℚ) (rng : UInt64) :
    (s.toNode.verify P key now rng).1.engine.AllPaths (Sound P) ∧
      (s.toNode.verify P key now rng).1.queue.All
        fun pending => (unpack P pending.originalRaw).isOk := by
  constructor
  · rw [Node.engine_verify]
    cases hcompleted : s.toNode.completed P key with
    | none => exact h.paths
    | some done =>
      have hremember : AllPaths (Sound P) (s.engine.rememberSignature done.2.2 now) :=
        h.paths.of_pathTable_eq rfl
      exact routeInvariant_sound.announce hremember (h.unpacks_completed hcompleted) rng
  · rcases queue_verify (P := P) s.toNode key now rng with heq | heq
    · rw [heq]
      exact h.queue
    · rw [heq]
      exact h.queue.removeEntry key

section

variable {I : TransportEngine → Prop} (hI : RouteInvariant P I) (h : I s.engine)

include hI h

theorem route_handlePathRequest (data : Bytes) (iface : InterfaceId) (now : ℚ)
    (egress : List InterfaceId) : I (s.handlePathRequest P data iface now egress).1.engine := by
  unfold handlePathRequest
  cases hparse : s.parsePathRequest data with
  | none => exact h
  | some parsed =>
    obtain ⟨s', d, tag⟩ := parsed
    rw [← engine_of_parsePathRequest hparse] at h
    dsimp only
    split_ifs
    · exact h
    · have hknown := hI.handleKnownPathRequest h d iface now
      generalize s'.engine.handleKnownPathRequest P .. = answered at hknown ⊢
      obtain ⟨engine, _ | _⟩ := answered
      · exact hI.of_aside hknown (aside_handleDiscoveryPathRequest ..)
      · exact hknown

theorem route_tick (now : ℚ) (rng : InterfaceId → UInt64) : I (s.tick P now rng).1.engine := by
  have hchecked : I (s.processTickPendingAnnounces now).1.engine := by
    unfold processTickPendingAnnounces
    split_ifs
    · exact h
    · exact hI.of_eq h rfl rfl rfl
  unfold tick
  generalize s.processTickPendingAnnounces now = checked at hchecked ⊢
  have hreleased := hI.releaseAll hchecked checked.1.heldReleaseInterval now rng
    checked.1.engine.ingressControl.interfacesWithHeld
  dsimp only
  split_ifs
  · exact hreleased
  · exact hI.cull hreleased now

/-- The announces that are verified are left to the caller. -/
theorem route_step (event : Event) (hverify : ∀ key now rng, event = .node (.verify key now rng) →
      I (s.toNode.verify P key now rng).1.engine) : I ((machine P).step s event).1.engine := by
  cases event with
  | node event =>
    cases event with
    | frame frame rng => exact hI.handleInbound h ..
    | queuedFrame frame rng => exact hI.handleInbound h ..
    | verify key now rng => exact hverify key now rng rfl
    | _ => exact hI.of_eq h rfl rfl rfl
  | pathRequest data iface now egress => exact route_handlePathRequest hI h data iface now egress
  | tick now rng => exact route_tick hI h now rng

end

theorem queue_handlePathRequest (s : Relay) (data : Bytes) (iface : InterfaceId) (now : ℚ)
    (egress : List InterfaceId) : (s.handlePathRequest P data iface now egress).1.queue = s.queue := by
  unfold handlePathRequest
  cases hparse : s.parsePathRequest data with
  | none => rfl
  | some parsed =>
    rw [← toNode_of_parsePathRequest hparse]
    dsimp only
    split_ifs
    · rfl
    · split <;> rfl

theorem queue_tick (s : Relay) (now : ℚ) (rng : InterfaceId → UInt64) :
    (s.tick P now rng).1.queue = s.queue := by
  have hqueue : (s.processTickPendingAnnounces now).1.queue = s.queue := by
    unfold processTickPendingAnnounces
    split_ifs <;> rfl
  unfold tick
  dsimp only
  split_ifs <;> exact hqueue

theorem Invariant.step (h : s.Invariant P) (event : Event) :
    ((machine P).step s event).1.Invariant P := by
  have hentries : ((machine P).step s event).1.engine.retained.AllEntries Near := by
    rw [(amounts_step s event).retained]
    exact h.entries.run lasting_near _ (h.brings)
  have hpaths := route_step routeInvariant_sound h.paths event fun key now rng _ => (h.verify ..).1
  refine ⟨hpaths, hentries, ?_⟩
  cases event with
  | node event =>
    cases event with
    | queuedFrame frame rng => exact h.queue_queuedFrame
    | takePending now => exact h.queue.takePending now
    | verify key now rng => exact (h.verify ..).2
    | _ => exact h.queue
  | pathRequest data iface now egress =>
    exact (queue_handlePathRequest (P := P) s data iface now egress).symm ▸ h.queue
  | tick now rng => exact (queue_tick (P := P) s now rng).symm ▸ h.queue

theorem Invariant.run (h : s.Invariant P) (events : List Event) :
    ((machine P).run s events).1.Invariant P := by
  induction events generalizing s with
  | nil => exact h
  | cons event events ih => exact ih (h.step event)

/-- Whatever reaches a relay, its paths and the announces that wait are within the hop limit, and the
announces of its paths and the queued frames unpack. -/
theorem learned_in_reach (P : Primitives) (config : TransportConfig) (entries tags : ℕ)
    (interval : InterfaceId → ℚ) (recursive : InterfaceId → Bool) (events : List Event) :
    ((machine P).run (new config entries tags interval recursive) events).1.Invariant P :=
  (invariant_new ..).run events

end Relay

end Rns.Transport
