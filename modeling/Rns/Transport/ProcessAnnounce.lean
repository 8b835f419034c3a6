import Rns.Transport.Engine

/-!
# Processing a verified announce

An accepted announce is put into the path set of its destination and reported.  What was reported is in
the path table unless the set was full and the new path ranks last in it: then the set drops it at once.
-/

namespace Rns.Transport

open Std.ExtTreeMap

structure VerifiedAnnounceCtx where
  packet : RawPacket
  originalRaw : Bytes
  iface : InterfaceId
  now : ℚ
  validated : ValidatedAnnounce
  receivedFrom : Hash16
  randomBlob : RandomBlob
  announceEmitted : ℕ
  deriving DecidableEq

namespace VerifiedAnnounceCtx

def facts (ctx : VerifiedAnnounceCtx) : AnnounceFacts :=
  ⟨ctx.packet.hops, ctx.announceEmitted, ctx.randomBlob⟩

def isPathResponse (ctx : VerifiedAnnounceCtx) : Bool :=
  ctx.packet.context = PacketContext.pathResponse

end VerifiedAnnounceCtx

namespace TransportEngine

variable (e : TransportEngine) (ctx : VerifiedAnnounceCtx) (rng : UInt64)

/-- `announce_raw_for_local_clients`: the announce as the next transport node would see it. -/
def announceRawForLocalClients (packet : RawPacket) : Bytes :=
  match e.config.identityHash with
  | none => packet.raw
  | some identityHash =>
    let payloadStart := if packet.flags.headerType = HeaderType.header2 then 18 else 2
    if packet.raw.length < 2 ∨ packet.raw.length < payloadStart then packet.raw
    else
      let flags := HeaderType.header2 <<< 6 ||| TransportType.transport <<< 4 |||
        (packet.raw.headD 0 &&& 0x0F)
      flags :: packet.hops :: (identityHash.toList ++ packet.raw.drop payloadStart)

/-- The rate limit of the receiving interface; path responses and unknown interfaces have none. -/
def checkRate : AnnounceRateLimiter × Bool :=
  if ctx.isPathResponse then (e.rateLimiter, false)
  else match e.interfaces[ctx.iface]? with
    | none => (e.rateLimiter, false)
    | some info => e.rateLimiter.checkAndUpdate ctx.packet.destinationHash ctx.now
        info.announceRateTarget info.announceRateGrace info.announceRatePenalty

def pathExpires : ℚ :=
  computePathExpires ctx.now ((e.interfaces[ctx.iface]?.map InterfaceInfo.mode).getD InterfaceMode.full)

/-- The blobs of the stored path via a next hop. -/
def blobsVia (destHash nextHop : Hash16) : List RandomBlob :=
  match e.pathTable[destHash]? with
  | none => []
  | some ps => match ps.findByNextHop nextHop with
    | none => []
    | some path => path.randomBlobs

/-- The entries made from the announce. -/
def announceEntries (rateBlocked : Bool) : PathEntry × Option AnnounceEntry :=
  processValidatedAnnounce ctx.packet ctx.receivedFrom ctx.iface ctx.now
    (e.blobsVia ctx.packet.destinationHash ctx.receivedFrom) ctx.randomBlob (e.pathExpires ctx)
    (rng.toNat / (2 ^ 64 - 1)) e.config.transportEnabled ctx.isPathResponse rateBlocked
    (some ctx.originalRaw)

/-- The tunnel of the receiving interface learns the path too. -/
def storeInTunnel : TransportEngine :=
  match e.interfaces[ctx.iface]?.bind InterfaceInfo.tunnelId with
  | none => e
  | some tunnelId =>
    let path := {
      timestamp := ctx.now
      receivedFrom := ctx.receivedFrom
      hops := ctx.packet.hops
      expires := e.pathExpires ctx
      randomBlobs := e.blobsVia ctx.packet.destinationHash ctx.receivedFrom
      packetHash := ctx.packet.packetHash }
    let tunnelTable := e.tunnelTable.storeTunnelPath tunnelId ctx.packet.destinationHash path
      ctx.now e.config.maxTunnelDestinationsTotal
    { e with tunnelTable }

/-- The answer to the path request that waited for the announce: one retransmission only. -/
def discoveryAnswer (requestingInterface : InterfaceId) : AnnounceEntry where
  timestamp := ctx.now
  retransmitTimeout := ctx.now
  retries := pathfinderR
  receivedFrom := ctx.receivedFrom
  hops := ctx.packet.hops
  packetRaw := ctx.packet.raw
  packetData := ctx.packet.data
  destinationHash := ctx.packet.destinationHash
  contextFlag := ctx.packet.flags.contextFlag
  localRebroadcasts := 0
  blockRebroadcasts := true
  attachedInterface := some requestingInterface

/-- A path request that waits for this announce is answered by a path response. -/
def answerDiscovery : TransportEngine :=
  let destHash := ctx.packet.destinationHash
  match e.discoveryPathRequests[destHash]? with
  | none => e
  | some request =>
    { e with discoveryPathRequests := e.discoveryPathRequests.erase destHash }.insertAnnounceEntry
      destHash (discoveryAnswer ctx request.requestingInterface) ctx.now

def announceActions : List TransportAction :=
  [.cacheAnnounce ctx.packet.packetHash ctx.originalRaw,
    .announceReceived ctx.packet.destinationHash ctx.validated ctx.packet.hops ctx.iface
      ctx.packet.rx,
    .pathUpdated ctx.packet.destinationHash ctx.packet.hops ctx.receivedFrom ctx.iface] ++
  if e.hasLocalClients then
    [.forwardToLocalClients (e.announceRawForLocalClients ctx.packet) (some ctx.iface)]
  else []

/-- What `process_verified_announce` does once the announce was accepted. -/
def acceptAnnounce : TransportEngine × List TransportAction :=
  let destHash := ctx.packet.destinationHash
  let (rateLimiter, rateBlocked) := e.checkRate ctx
  let e := { e with rateLimiter }
  let (pathEntry, announceEntry) := e.announceEntries ctx rng rateBlocked
  let e := e.upsertPathDestination destHash pathEntry ctx.now
  let e := e.storeInTunnel ctx
  let e := { e with pathStates := e.pathStates.erase destHash }
  let e := match announceEntry with
    | some entry => e.insertAnnounceEntry destHash entry ctx.now
    | none => e
  (e.answerDiscovery ctx, e.announceActions ctx)

def forgetStaleState (destHash : Hash16) : TransportEngine :=
  if e.hasPath destHash then e else { e with pathStates := e.pathStates.erase destHash }

def decide : MultiPathDecision :=
  decideAnnounceMultipath e.pathTable[ctx.packet.destinationHash]? ctx.facts ctx.receivedFrom
    (e.pathIsUnresponsive ctx.packet.destinationHash) ctx.now e.config.preferShorterPath

def processVerifiedAnnounce : TransportEngine × List TransportAction :=
  if e.isBlackholed ctx.validated.identityHash ctx.now then (e, [])
  else if ctx.packet.hops > pathfinderM then (e, [])
  else
    let e := e.forgetStaleState ctx.packet.destinationHash
    if e.decide ctx = .reject then (e, []) else e.acceptAnnounce ctx rng

/-! ## The path table afterwards -/

/-- The path an accepted announce makes. -/
def newPath : PathEntry where
  timestamp := ctx.now
  nextHop := ctx.receivedFrom
  hops := ctx.packet.hops
  expires := e.pathExpires ctx
  randomBlobs := rememberBlob (e.blobsVia ctx.packet.destinationHash ctx.receivedFrom) ctx.randomBlob
  receivingInterface := ctx.iface
  packetHash := ctx.packet.packetHash
  announceRaw := some ctx.originalRaw

/-! What each part of it can change. -/

theorem evictDestinations_eq (fuel : ℕ) :
    ∃ pathTable pathStates pathDestinationCapEvictCount, e.evictDestinations fuel =
      { e with pathTable, pathStates, pathDestinationCapEvictCount } := by
  induction fuel generalizing e with
  | zero => exact ⟨_, _, _, rfl⟩
  | succ fuel ih =>
    rw [evictDestinations]
    split_ifs
    · split
      · exact ⟨_, _, _, rfl⟩
      · obtain ⟨pathTable, pathStates, count, heq⟩ := ih _
        exact ⟨pathTable, pathStates, count, heq⟩
    · exact ⟨_, _, _, rfl⟩

theorem upsertPathDestination_eq (d : Hash16) (path : PathEntry) (now : ℚ) :
    ∃ pathTable pathStates pathDestinationCapEvictCount, e.upsertPathDestination d path now =
      { e with pathTable, pathStates, pathDestinationCapEvictCount } := by
  unfold upsertPathDestination enforcePathDestinationCap
  dsimp only
  split
  · exact ⟨_, _, _, rfl⟩
  · split_ifs
    · exact ⟨_, _, _, rfl⟩
    · obtain ⟨pathTable, pathStates, count, heq⟩ := evictDestinations_eq
        { e with pathTable := cullPathTable e.pathTable e.interfaces now } _
      rw [heq]
      exact ⟨_, _, _, rfl⟩

theorem storeInTunnel_eq : ∃ tunnelTable, e.storeInTunnel ctx = { e with tunnelTable } := by
  unfold storeInTunnel
  split
  · exact ⟨_, rfl⟩
  · exact ⟨_, rfl⟩

theorem answerDiscovery_eq :
    ∃ discoveryPathRequests announceTable heldAnnounces, e.answerDiscovery ctx =
      { e with discoveryPathRequests, announceTable, heldAnnounces } := by
  unfold answerDiscovery
  dsimp only
  split
  · exact ⟨_, _, _, rfl⟩
  · exact ⟨_, _, _, rfl⟩

theorem forgetStaleState_eq (destHash : Hash16) :
    ∃ pathStates, e.forgetStaleState destHash = { e with pathStates } := by
  unfold forgetStaleState
  split_ifs
  · exact ⟨_, rfl⟩
  · exact ⟨_, rfl⟩

variable {destHash : Hash16}

theorem getElem?_evictDestinations {ps : PathSet} (fuel : ℕ)
    (h : (e.evictDestinations fuel).pathTable[destHash]? = some ps) :
    e.pathTable[destHash]? = some ps := by
  induction fuel generalizing e with
  | zero => exact h
  | succ fuel ih =>
    rw [evictDestinations] at h
    split_ifs at h
    · split at h
      · exact h
      · rename_i oldest _
        have herase := ih _ h
        rw [getElem?_erase] at herase
        split_ifs at herase
        exact herase
    · exact h

theorem mem_pathsTo_enforcePathDestinationCap {path : PathEntry} {now : ℚ}
    (h : path ∈ (e.enforcePathDestinationCap now).pathsTo destHash) :
    path ∈ e.pathsTo destHash := by
  unfold enforcePathDestinationCap at h
  dsimp only at h
  split_ifs at h
  · exact h
  · unfold pathsTo at h ⊢
    split at h
    · rename_i ps hps
      have hculled := getElem?_evictDestinations _ _ hps
      simp only [cullPathTable, getElem?_filter', getElem?_map] at hculled
      cases hold : e.pathTable[destHash]? with
      | none => simp [hold] at hculled
      | some old =>
        obtain ⟨rfl, -⟩ : old.cull now .. = ps ∧ ps.isEmpty = false := by
          simpa [hold, Option.filter_eq_some_iff] using hculled
        exact List.mem_of_mem_filter h
    · simp at h

theorem getElem?_upsertPathDestination_self (destHash : Hash16) (entry : PathEntry) (now : ℚ) :
    (e.upsertPathDestination destHash entry now).pathTable[destHash]? =
      some (match e.pathTable[destHash]? with
        | some ps => ps.upsert entry
        | none => .fromSingle entry e.config.maxPathsPerDestination) := by
  unfold upsertPathDestination
  dsimp only
  cases e.pathTable[destHash]? <;> exact getElem?_insert_self

theorem mem_pathsTo_upsertPathDestination {other : Hash16} {entry path : PathEntry} {now : ℚ}
    (hne : other ≠ destHash) (h : path ∈ (e.upsertPathDestination destHash entry now).pathsTo other) :
    path ∈ e.pathsTo other := by
  have hcmp : ¬compare destHash other = .eq := fun heq => hne (Std.compare_eq_iff_eq.mp heq).symm
  unfold upsertPathDestination at h
  dsimp only at h
  split at h
  · simpa [pathsTo, getElem?_insert, hcmp] using h
  · have hcap : path ∈ (e.enforcePathDestinationCap now).pathsTo other := by
      simpa [pathsTo, getElem?_insert, hcmp] using h
    exact mem_pathsTo_enforcePathDestinationCap e hcap

@[simp] theorem pathTable_storeInTunnel : (e.storeInTunnel ctx).pathTable = e.pathTable := by
  obtain ⟨_, heq⟩ := storeInTunnel_eq e ctx
  rw [heq]

@[simp] theorem pathTable_answerDiscovery : (e.answerDiscovery ctx).pathTable = e.pathTable := by
  obtain ⟨_, _, _, heq⟩ := answerDiscovery_eq e ctx
  rw [heq]

theorem pathTable_acceptAnnounce : ∃ rateLimiter, (e.acceptAnnounce ctx rng).1.pathTable =
      (({ e with rateLimiter }).upsertPathDestination ctx.packet.destinationHash (e.newPath ctx)
        ctx.now).pathTable := by
  refine ⟨(e.checkRate ctx).1, ?_⟩
  unfold acceptAnnounce
  dsimp only
  rw [pathTable_answerDiscovery]
  split
  · exact pathTable_storeInTunnel _ _
  · exact pathTable_storeInTunnel _ _

theorem getElem?_acceptAnnounce_self :
    (e.acceptAnnounce ctx rng).1.pathTable[ctx.packet.destinationHash]? =
      some (match e.pathTable[ctx.packet.destinationHash]? with
        | some ps => ps.upsert (e.newPath ctx)
        | none => .fromSingle (e.newPath ctx) e.config.maxPathsPerDestination) := by
  obtain ⟨rateLimiter, htable⟩ := pathTable_acceptAnnounce ..
  rw [htable]
  exact getElem?_upsertPathDestination_self { e with rateLimiter } _ _ _

theorem pathsTo_acceptAnnounce_self :
    (e.acceptAnnounce ctx rng).1.pathsTo ctx.packet.destinationHash =
      match e.pathTable[ctx.packet.destinationHash]? with
      | some ps => (ps.upsert (e.newPath ctx)).paths
      | none => [e.newPath ctx] := by
  rw [pathsTo, getElem?_acceptAnnounce_self]
  cases e.pathTable[ctx.packet.destinationHash]? <;> rfl

theorem mem_pathsTo_acceptAnnounce {rng : UInt64} {destHash : Hash16} {path : PathEntry}
    (hne : destHash ≠ ctx.packet.destinationHash)
    (h : path ∈ (e.acceptAnnounce ctx rng).1.pathsTo destHash) : path ∈ e.pathsTo destHash := by
  obtain ⟨rateLimiter, htable⟩ := pathTable_acceptAnnounce ..
  unfold pathsTo at h
  rw [htable] at h
  exact mem_pathsTo_upsertPathDestination { e with rateLimiter } hne h

/-! ## Accepted or not -/

def Accepts : Prop :=
  ¬e.isBlackholed ctx.validated.identityHash ctx.now ∧ ¬ctx.packet.hops > pathfinderM ∧
    (e.forgetStaleState ctx.packet.destinationHash).decide ctx ≠ .reject

variable {e ctx}

@[simp] theorem pathTable_forgetStaleState (destHash : Hash16) :
    (e.forgetStaleState destHash).pathTable = e.pathTable := by
  obtain ⟨_, heq⟩ := forgetStaleState_eq ..
  rw [heq]

theorem processVerifiedAnnounce_of_accepts (h : e.Accepts ctx) (rng : UInt64) :
    e.processVerifiedAnnounce ctx rng =
      (e.forgetStaleState ctx.packet.destinationHash).acceptAnnounce ctx rng := by
  obtain ⟨hblack, hhops, hdecide⟩ := h
  rw [processVerifiedAnnounce, if_neg hblack, if_neg hhops]
  exact if_neg hdecide

theorem processVerifiedAnnounce_of_not_accepts (h : ¬e.Accepts ctx) (rng : UInt64) :
    ∃ pathStates, e.processVerifiedAnnounce ctx rng = ({ e with pathStates }, []) := by
  unfold processVerifiedAnnounce
  dsimp only
  split_ifs with hblack hhops hdecide
  · exact ⟨_, rfl⟩
  · exact ⟨_, rfl⟩
  · obtain ⟨_, heq⟩ := forgetStaleState_eq ..
    exact ⟨_, by rw [heq]⟩
  · exact absurd ⟨hblack, hhops, hdecide⟩ h

theorem pathUpdated_mem_acceptAnnounce {destHash nextHop : Hash16} {hops : UInt8}
    {iface : InterfaceId} {rng : UInt64} :
    .pathUpdated destHash hops nextHop iface ∈ (e.acceptAnnounce ctx rng).2 ↔
      destHash = ctx.packet.destinationHash ∧ hops = ctx.packet.hops ∧
        nextHop = ctx.receivedFrom ∧ iface = ctx.iface := by
  have hactions : ∀ e' : TransportEngine,
      .pathUpdated destHash hops nextHop iface ∈ e'.announceActions ctx ↔
      destHash = ctx.packet.destinationHash ∧ hops = ctx.packet.hops ∧
        nextHop = ctx.receivedFrom ∧ iface = ctx.iface := by
    intro e'
    unfold announceActions
    split_ifs <;> simp
  exact hactions _

/-- An announce a stored path remembers is refused, unless it is shorter or the path is to be
recovered. -/
theorem not_accepts_of_mem {path : PathEntry}
    (hpath : path ∈ e.pathsTo ctx.packet.destinationHash) (hhop : path.nextHop = ctx.receivedFrom)
    (hblob : ctx.randomBlob ∈ path.randomBlobs) (hhops : path.hops ≤ ctx.packet.hops)
    (hresponsive : e.pathIsUnresponsive ctx.packet.destinationHash = false) : ¬e.Accepts ctx := by
  rintro ⟨-, -, hdecide⟩
  apply hdecide
  unfold pathsTo at hpath
  cases hps : e.pathTable[ctx.packet.destinationHash]? with
  | none => simp [hps] at hpath
  | some ps =>
    rw [hps] at hpath
    have hhas : e.hasPath ctx.packet.destinationHash = true := by
      simpa [hasPath, hps, PathSet.isEmpty] using List.ne_nil_of_mem hpath
    have hsame : e.forgetStaleState ctx.packet.destinationHash = e := if_pos hhas
    rw [hsame, decide, hps, hresponsive, ← hhop]
    exact decideAnnounceMultipath_of_mem hpath hblob hhops _ _

/-! ## An announce is about its destination only -/

/-- The verified signatures are as before, and other destinations neither get paths nor are
reported. -/
structure OnlyFor (destHash : Hash16) (e : TransportEngine)
    (result : TransportEngine × List TransportAction) : Prop where
  sigCache : result.1.announceSigCache = e.announceSigCache
  paths : ∀ other ≠ destHash, ∀ path ∈ result.1.pathsTo other, path ∈ e.pathsTo other
  actions : ∀ action ∈ result.2, ∀ other ≠ destHash, action.reports other = false

variable (e ctx)

theorem sigCache_acceptAnnounce :
    (e.acceptAnnounce ctx rng).1.announceSigCache = e.announceSigCache := by
  have hstored (e : TransportEngine) (d : Hash16) (path : PathEntry) (now : ℚ) :
      ((e.upsertPathDestination d path now).storeInTunnel ctx).announceSigCache =
        e.announceSigCache := by
    obtain ⟨_, _, _, hupsert⟩ := upsertPathDestination_eq ..
    obtain ⟨_, hstore⟩ := storeInTunnel_eq ..
    rw [hstore, hupsert]
  have hanswer (e : TransportEngine) :
      (e.answerDiscovery ctx).announceSigCache = e.announceSigCache := by
    obtain ⟨_, _, _, heq⟩ := answerDiscovery_eq e ctx
    rw [heq]
  unfold acceptAnnounce
  dsimp only
  rw [hanswer]
  split
  · exact hstored _ _ _ _
  · exact hstored _ _ _ _

theorem onlyFor_acceptAnnounce :
    OnlyFor ctx.packet.destinationHash e (e.acceptAnnounce ctx rng) := by
  have hactions : ∀ e' : TransportEngine, ∀ action ∈ e'.announceActions ctx,
      ∀ other ≠ ctx.packet.destinationHash, action.reports other = false := by
    intro e' action haction other hother
    unfold announceActions at haction
    have hne := hother.symm
    split_ifs at haction <;> simp at haction <;> rcases haction with rfl | rfl | rfl | rfl <;>
      simp [TransportAction.reports, hne]
  exact ⟨sigCache_acceptAnnounce ..,
    fun other hother path hpath => mem_pathsTo_acceptAnnounce e ctx hother hpath, hactions _⟩

theorem onlyFor_processVerifiedAnnounce :
    OnlyFor ctx.packet.destinationHash e (e.processVerifiedAnnounce ctx rng) := by
  by_cases haccepts : e.Accepts ctx
  · have honly := onlyFor_acceptAnnounce (e.forgetStaleState ctx.packet.destinationHash) ctx rng
    obtain ⟨_, hforget⟩ := forgetStaleState_eq ..
    rw [processVerifiedAnnounce_of_accepts haccepts]
    rw [hforget] at honly ⊢
    exact ⟨honly.sigCache, honly.paths, honly.actions⟩
  · obtain ⟨_, heq⟩ := processVerifiedAnnounce_of_not_accepts haccepts rng
    rw [heq]
    exact ⟨rfl, fun _ _ _ hpath => hpath, nofun⟩

end TransportEngine

end Rns.Transport
