import Rns.Transport.QueuedAnnounces
import Rns.Transport.Relay

/-!
# What a relay does to the waiting announces

Each event of a relay amounts to a list of operations on the announce table and the held announces.  So
a relay is followed by the machine of the two tables, and that by the slots of every destination.
-/

namespace Rns.Transport

open TransportEngine List
open DestinationType (single)

variable (e : TransportEngine) (d : Hash16) (packet : RawPacket) (ctx : InboundPacketCtx)
  (frame : InboundFrame) (destHash : Hash16) (a : AnnounceData) (iface : InterfaceId)
  (validated : ValidatedAnnounce) (rng : UInt64) (now : ℚ)

namespace TransportEngine

def retained (e : TransportEngine) : Retained := ⟨e.announceTable, e.heldAnnounces⟩

/-- The engine got from one state to the other by these operations on the tables. -/
structure Amounts (e : TransportEngine) (ops : List RetentionOp) (e' : TransportEngine) : Prop where
  config : e'.config = e.config
  retained : e'.retained = ((retention e.config).run e.retained ops).1

namespace Amounts

variable {e e' e'' : TransportEngine} {ops ops' : List RetentionOp}

theorem of_eq (hconfig : e'.config = e.config) (hretained : e'.retained = e.retained) :
    Amounts e [] e' :=
  ⟨hconfig, hretained⟩

theorem refl (e : TransportEngine) : Amounts e [] e := of_eq rfl rfl

theorem trans (h : Amounts e ops e') (h' : Amounts e' ops' e'') : Amounts e (ops ++ ops') e'' := by
  refine ⟨h'.config.trans h.config, ?_⟩
  rw [Machine.run_append, ← h.retained, ← h.config]
  exact h'.retained

theorem after_quiet (h : Amounts e [] e') (h' : Amounts e' ops e'') : Amounts e ops e'' :=
  h.trans h'

theorem then_quiet (h : Amounts e ops e') (h' : Amounts e' [] e'') : Amounts e ops e'' :=
  append_nil ops ▸ h.trans h'

end Amounts

/-- Neither the paths and tunnels nor the waiting announces changed. -/
structure Aside (e e' : TransportEngine) : Prop where
  config : e'.config = e.config
  retained : e'.retained = e.retained
  pathTable : e'.pathTable = e.pathTable
  tunnelTable : e'.tunnelTable = e.tunnelTable

theorem Aside.refl : Aside e e := ⟨rfl, rfl, rfl, rfl⟩

theorem Aside.amounts {e e' : TransportEngine} (h : Aside e e') : Amounts e [] e' :=
  .of_eq h.config h.retained

theorem amounts_insertAnnounceEntry (entry : AnnounceEntry) (now : ℚ) :
    Amounts e [.insert d entry now] (e.insertAnnounceEntry d entry now) :=
  ⟨rfl, rfl⟩

/-! ## An accepted announce -/

def acceptedEntry (e : TransportEngine) (ctx : VerifiedAnnounceCtx) (rng : UInt64) :
    Option AnnounceEntry :=
  let (rateLimiter, rateBlocked) := e.checkRate ctx
  ({ e with rateLimiter }.announceEntries ctx rng rateBlocked).2

/-- An accepted announce is to be retransmitted, and answers the path request that waits for it. -/
def acceptOps (e : TransportEngine) (ctx : VerifiedAnnounceCtx) (rng : UInt64) :
    List RetentionOp :=
  let destHash := ctx.packet.destinationHash
  ((e.acceptedEntry ctx rng).map fun entry => .insert destHash entry ctx.now).toList ++
    (e.discoveryPathRequests[destHash]?.map fun request =>
      .insert destHash (discoveryAnswer ctx request.requestingInterface) ctx.now).toList

theorem amounts_answerDiscovery (ctx : VerifiedAnnounceCtx) :
    Amounts e (e.discoveryPathRequests[ctx.packet.destinationHash]?.map fun request =>
      RetentionOp.insert ctx.packet.destinationHash
        (discoveryAnswer ctx request.requestingInterface) ctx.now).toList (e.answerDiscovery ctx) := by
  unfold answerDiscovery
  dsimp only
  cases e.discoveryPathRequests[ctx.packet.destinationHash]? with
  | none => exact .refl e
  | some request => exact ⟨rfl, rfl⟩

theorem amounts_acceptAnnounce (ctx : VerifiedAnnounceCtx) (rng : UInt64) :
    Amounts e (e.acceptOps ctx rng) (e.acceptAnnounce ctx rng).1 := by
  unfold acceptAnnounce acceptOps acceptedEntry
  rcases e.checkRate ctx with ⟨rateLimiter, rateBlocked⟩
  dsimp only
  generalize { e with rateLimiter }.announceEntries ctx rng rateBlocked = entries
  obtain ⟨path, entry⟩ := entries
  dsimp only
  obtain ⟨pathTable, pathStates, count, hupsert⟩ := upsertPathDestination_eq { e with rateLimiter }
    ctx.packet.destinationHash path ctx.now
  rw [hupsert]
  obtain ⟨tunnelTable, hstore⟩ := storeInTunnel_eq { e with
    rateLimiter, pathTable, pathStates, pathDestinationCapEvictCount := count } ctx
  dsimp only at hstore ⊢
  rw [hstore]
  dsimp only
  -- the paths are done; what follows are the two insertions
  let e' : TransportEngine := { e with
    rateLimiter, pathTable, tunnelTable
    pathStates := pathStates.erase ctx.packet.destinationHash
    pathDestinationCapEvictCount := count }
  have hquiet : Amounts e [] e' := .of_eq rfl rfl
  cases entry with
  | none => exact hquiet.after_quiet (amounts_answerDiscovery e' ctx)
  | some entry =>
    exact hquiet.after_quiet ((amounts_insertAnnounceEntry e' _ entry ctx.now).trans
      (amounts_answerDiscovery (e'.insertAnnounceEntry _ entry ctx.now) ctx))

/-! ## Announces -/

instance (e : TransportEngine) (ctx : VerifiedAnnounceCtx) : Decidable (e.Accepts ctx) :=
  inferInstanceAs (Decidable (_ ∧ _ ∧ _))

def verifiedOps (e : TransportEngine) (ctx : VerifiedAnnounceCtx) (rng : UInt64) :
    List RetentionOp :=
  if e.Accepts ctx then (e.forgetStaleState ctx.packet.destinationHash).acceptOps ctx rng else []

theorem aside_forgetStaleState : Aside e (e.forgetStaleState d) := by
  obtain ⟨_, heq⟩ := forgetStaleState_eq e d
  rw [heq]
  exact ⟨rfl, rfl, rfl, rfl⟩

theorem amounts_processVerifiedAnnounce (ctx : VerifiedAnnounceCtx) (rng : UInt64) :
    Amounts e (e.verifiedOps ctx rng) (e.processVerifiedAnnounce ctx rng).1 := by
  unfold verifiedOps
  split_ifs with haccepts
  · rw [processVerifiedAnnounce_of_accepts haccepts]
    exact (aside_forgetStaleState e _).amounts.after_quiet (amounts_acceptAnnounce _ ctx rng)
  · obtain ⟨_, heq⟩ := processVerifiedAnnounce_of_not_accepts haccepts rng
    rw [heq]
    exact .of_eq rfl rfl

def hearOps (e : TransportEngine) (packet : RawPacket) (now : ℚ) : List RetentionOp :=
  if packet.transportId.isSome ∧ e.config.transportEnabled then [.hear packet now] else []

theorem amounts_heardTable :
    Amounts e (e.hearOps packet now) { e with announceTable := e.heardTable packet now } := by
  unfold hearOps heardTable
  split_ifs
  · exact ⟨rfl, rfl⟩
  · exact .refl e

theorem amounts_heard : Amounts e (e.hearOps ctx.packet ctx.now) (e.heard ctx) :=
  (amounts_heardTable ..).then_quiet (.of_eq rfl rfl)

variable (P : Primitives)

def processOps (e : TransportEngine) (ctx : InboundPacketCtx) (a : AnnounceData)
    (validated : ValidatedAnnounce) (rng : UInt64) : List RetentionOp :=
  e.hearOps ctx.packet ctx.now ++ (e.readyFor P ctx a).verifiedOps
    (verifiedCtx ctx validated (sender ctx.packet) a.randomHash) rng

theorem amounts_readyFor : Amounts e (e.hearOps ctx.packet ctx.now) (e.readyFor P ctx a) :=
  (amounts_heardTable ..).then_quiet (.of_eq rfl rfl)

theorem amounts_process :
    Amounts e (e.processOps P ctx a validated rng) (e.process P ctx a validated rng).1 :=
  (amounts_readyFor ..).trans (amounts_processVerifiedAnnounce ..)

/-- An announce that is processed at once: it counts as heard only once it is verified. -/
def announceOps (e : TransportEngine) (ctx : InboundPacketCtx) (rng : UInt64) : List RetentionOp :=
  if ctx.packet.flags.destinationType ≠ single then []
  else match announceOf ctx.packet with
  | none => []
  | some a =>
    if (e.ingress ctx).2 then []
    else match verdict P e ctx a with
    | none => []
    | some validated => e.processOps P ctx a validated rng

/-- An announce on its way to the queue: it counts as heard in any case. -/
def queuedAnnounceOps (e : TransportEngine) (ctx : InboundPacketCtx) (rng : UInt64) :
    List RetentionOp :=
  if ctx.packet.flags.destinationType ≠ single then []
  else match announceOf ctx.packet with
  | none => []
  | some a =>
    if e.localDestinations.contains ctx.packet.destinationHash ∨ (e.ingress ctx).2 ∨
        NeedsQueue P e ctx a then e.hearOps ctx.packet ctx.now
    else match verdict P e ctx a with
    | none => e.hearOps ctx.packet ctx.now
    | some validated => e.processOps P ctx a validated rng

variable {P}

theorem amounts_processInboundAnnounce :
    Amounts e (e.announceOps P ctx rng) (e.processInboundAnnounce P ctx rng).1 := by
  unfold announceOps
  by_cases hsingle : ctx.packet.flags.destinationType = single
  · rw [if_neg (not_not.mpr hsingle)]
    cases ha : announceOf ctx.packet with
    | none =>
      simp only [processInboundAnnounce, ha, ite_self]
      exact .refl e
    | some a =>
      rw [processInboundAnnounce_eq hsingle ha]
      dsimp only
      split_ifs
      · exact .of_eq rfl rfl
      · cases verdict P e ctx a with
        | none => exact .of_eq rfl rfl
        | some validated => exact amounts_process ..
  · rw [if_pos hsingle, processInboundAnnounce]
    simp only [if_pos hsingle]
    exact .refl e

theorem amounts_tryEnqueueAnnounce (queue : AnnounceVerifyQueue) :
    Amounts e (e.queuedAnnounceOps P ctx rng) (e.tryEnqueueAnnounce P ctx rng queue).1 := by
  unfold queuedAnnounceOps
  by_cases hsingle : ctx.packet.flags.destinationType = single
  · rw [if_neg (not_not.mpr hsingle)]
    cases ha : announceOf ctx.packet with
    | none =>
      simp only [tryEnqueueAnnounce, ha, ite_self]
      exact .refl e
    | some a =>
      rw [tryEnqueueAnnounce_eq hsingle ha]
      dsimp only
      by_cases hlocal : e.localDestinations.contains ctx.packet.destinationHash
      · rw [if_pos hlocal, if_pos (.inl hlocal)]
        exact amounts_heardTable ..
      by_cases hheld : (e.ingress ctx).2
      · rw [if_neg hlocal, if_pos hheld, if_pos (.inr (.inl hheld))]
        exact amounts_heard e ctx
      by_cases hneeds : NeedsQueue P e ctx a
      · rw [if_neg hlocal, if_neg hheld, if_pos hneeds, if_pos (.inr (.inr hneeds))]
        exact amounts_heard e ctx
      · rw [if_neg hlocal, if_neg hheld, if_neg hneeds, if_neg (by simp [hlocal, hheld, hneeds])]
        cases verdict P e ctx a with
        | none => exact amounts_heard e ctx
        | some validated => exact amounts_process ..
  · rw [if_pos hsingle, tryEnqueueAnnounce]
    simp only [if_pos hsingle]
    exact .refl e

/-! ## Frames -/

theorem aside_rememberInboundPacketHash : Aside e (e.rememberInboundPacketHash packet) := by
  obtain ⟨_, heq⟩ := rememberInboundPacketHash_eq ..
  rw [heq]
  exact ⟨rfl, rfl, rfl, rfl⟩

theorem amounts_handleTransportForwarding : Amounts e [] (e.handleTransportForwarding P ctx).1 := by
  unfold handleTransportForwarding
  split
  · exact .refl e
  · split_ifs
    · exact .refl e
    · split
      · exact .refl e
      · split
        · exact .refl e
        · unfold forwardAlong
          dsimp only
          split_ifs <;> exact .of_eq rfl rfl

theorem aside_handleLinkTableRouting : Aside e (e.handleLinkTableRouting ctx).1 := by
  unfold handleLinkTableRouting
  dsimp only
  split_ifs
  · exact .refl e
  · exact .refl e
  · split
    · exact .refl e
    · split
      · exact .refl e
      · exact ⟨rfl, rfl, rfl, rfl⟩

theorem aside_processInboundProof : Aside e (e.processInboundProof ctx).1 := by
  unfold processInboundProof
  dsimp only
  split_ifs
  · split
    · split
      · exact .refl e
      · exact ⟨rfl, rfl, rfl, rfl⟩
    · exact .refl e
  · split
    · exact ⟨rfl, rfl, rfl, rfl⟩
    · exact .refl e

variable (P)

/-- Of all frames only announces count. -/
def frameOps (e : TransportEngine) (frame : InboundFrame) (rng : UInt64) (queued : Bool) :
    List RetentionOp :=
  match e.prepareInboundPacket P frame with
  | none => []
  | some ctx =>
    if ctx.packet.flags.packetType = PacketType.announce then
      let e := e.rememberInboundPacketHash ctx.packet
      if queued then e.queuedAnnounceOps P ctx rng else e.announceOps P ctx rng
    else []

variable {P}

theorem amounts_of_not_announce {e : TransportEngine} {frame : InboundFrame}
    {ctx : InboundPacketCtx} (hprepare : e.prepareInboundPacket P frame = some ctx)
    (htype : ctx.packet.flags.packetType ≠ PacketType.announce) (rng : UInt64) :
    Amounts e [] (e.handleInbound P frame rng).1 := by
  simp only [handleInbound, handleInboundWithAnnounceQueue, hprepare, handleInboundAnnounce,
    if_pos htype]
  have hroute := ((aside_rememberInboundPacketHash e ctx.packet).amounts.then_quiet
    (amounts_handleTransportForwarding (P := P) _ ctx)).then_quiet
    (aside_handleLinkTableRouting _ ctx).amounts
  split_ifs
  · exact hroute.then_quiet (aside_processInboundProof _ ctx).amounts
  · exact hroute

theorem amounts_handleInbound (queue : Option AnnounceVerifyQueue) :
    Amounts e (e.frameOps P frame rng queue.isSome)
      (e.handleInboundWithAnnounceQueue P frame rng queue).1 := by
  unfold frameOps
  cases hprepare : e.prepareInboundPacket P frame with
  | none =>
    rw [handleInboundWithAnnounceQueue, hprepare]
    exact .refl e
  | some ctx =>
    dsimp only
    have hremember := (aside_rememberInboundPacketHash e ctx.packet).amounts
    split_ifs with htype hqueue
    · obtain ⟨queue, rfl⟩ := Option.isSome_iff_exists.mp hqueue
      rw [handleInbound_announce_queued hprepare htype]
      exact hremember.after_quiet (amounts_tryEnqueueAnnounce _ ctx rng queue)
    · obtain rfl := Option.not_isSome_iff_eq_none.mp hqueue
      rw [handleInbound_announce_now hprepare htype]
      exact hremember.after_quiet (amounts_processInboundAnnounce _ ctx rng)
    · rw [handleInbound_of_not_announce hprepare htype]
      exact amounts_of_not_announce hprepare htype rng

/-! ## Verification -/

/-- The context in which a verified announce from the queue is processed. -/
def pendingCtx (pending : PendingAnnounce) (validated : ValidatedAnnounce) (now : ℚ) :
    VerifiedAnnounceCtx where
  packet := pending.packet
  originalRaw := pending.originalRaw
  iface := pending.interface
  now
  validated
  receivedFrom := pending.receivedFrom
  randomBlob := pending.randomBlob
  announceEmitted := pending.emissionTs

theorem amounts_completeVerifiedAnnounce (pending : PendingAnnounce) (validated : ValidatedAnnounce)
    (key : Hash32) (now : ℚ) (rng : UInt64) :
    Amounts e ((e.rememberSignature key now).verifiedOps (pendingCtx pending validated now) rng)
      (e.completeVerifiedAnnounce pending validated key now rng).1 := by
  have hremember : Amounts e [] (e.rememberSignature key now) := .of_eq rfl rfl
  exact hremember.after_quiet
    (amounts_processVerifiedAnnounce _ (pendingCtx pending validated now) rng)

/-! ## Path requests -/

variable (P)

/-- A request for a known path is answered, unless it came in where a roaming interface has the
path itself. -/
def requestOps (e : TransportEngine) (destHash : Hash16) (iface : InterfaceId) (now : ℚ) :
    List RetentionOp :=
  match e.pathTable[destHash]?.bind PathSet.primary with
  | none => []
  | some path =>
    if e.interfaces[iface]?.map InterfaceInfo.mode = some InterfaceMode.roaming ∧
        path.receivingInterface = iface then []
    else match path.announceRaw with
      | none => []
      | some raw => [.answer destHash (e.pathResponse P destHash iface now path raw) now]

variable {P}

theorem amounts_answerPathRequest (path : PathEntry) (raw : Bytes) :
    Amounts e [.answer destHash (e.pathResponse P destHash iface now path raw) now]
      (e.answerPathRequest P destHash iface now path raw).1 := by
  unfold answerPathRequest pathResponse
  dsimp only
  cases hentry : e.announceTable[destHash]? with
  | none =>
    have haside : e.retained.setAside destHash e.config.announceTableTtlSecs
        e.config.announceTableMaxBytes now = e.retained := by
      rw [Retained.setAside, retained, hentry]
    cases RawPacket.unpack P raw with
    | error => exact ⟨rfl, haside.symm⟩
    | ok parsed =>
      refine ⟨rfl, ?_⟩
      simp only [Machine.run, retention, haside]
      rfl
  | some existing =>
    let aside := { e with announceTable := e.announceTable.erase destHash }.insertHeldAnnounce
      destHash existing now
    have haside : e.retained.setAside destHash e.config.announceTableTtlSecs
        e.config.announceTableMaxBytes now = aside.retained := by
      rw [Retained.setAside, retained, hentry]
      rfl
    cases RawPacket.unpack P raw with
    | error => exact ⟨rfl, haside.symm⟩
    | ok parsed =>
      refine ⟨rfl, ?_⟩
      simp only [Machine.run, retention, haside]
      rfl

theorem amounts_handleKnownPathRequest : Amounts e (e.requestOps P destHash iface now)
      (e.handleKnownPathRequest P destHash iface now).1 := by
  unfold handleKnownPathRequest requestOps
  cases e.pathTable[destHash]?.bind PathSet.primary with
  | none => exact .refl e
  | some path =>
    dsimp only
    split_ifs
    · exact .refl e
    · cases path.announceRaw with
      | none => exact .refl e
      | some raw => exact amounts_answerPathRequest ..

theorem aside_handleDiscoveryPathRequest (tag : Bytes) (iface : InterfaceId) (recursivePrs : Bool)
    (now : ℚ) (egress : List InterfaceId) :
    Aside e (e.handleDiscoveryPathRequest P destHash tag iface recursivePrs now egress).1 := by
  unfold handleDiscoveryPathRequest
  generalize buildPathRequestPacket P destHash e.config.identityHash tag = packet
  cases e.interfaces[iface]? with
  | none => exact .refl e
  | some info =>
    dsimp only
    by_cases hdiscover : recursivePrs ∨ info.mode ∈ discoverPathsFor
    · rw [if_neg (not_not.mpr hdiscover)]
      cases packet with
      | none => exact .refl e
      | some raw =>
        dsimp only
        split
        · exact .refl e
        · exact ⟨rfl, rfl, rfl, rfl⟩
    · rw [if_pos hdiscover]
      exact .refl e

/-! ## Ticks -/

variable (P)

/-- The frame that is released from an interface. -/
def releaseOps (e : TransportEngine) (heldReleaseInterval : InterfaceId → ℚ) (now : ℚ)
    (rng : InterfaceId → UInt64) (iface : InterfaceId) : List RetentionOp :=
  match e.interfaces[iface]? with
  | none => []
  | some info =>
    if ¬info.ingressControl.enabled then []
    else
      let (ingressControl, held) := e.ingressControl.processHeldAnnounces iface info.ingressControl
        (heldReleaseInterval iface) info.iaFreq info.started now
      match held with
      | none => []
      | some held => { e with ingressControl }.frameOps P
          ⟨held.raw, held.receivingInterface, now, held.rx⟩ (rng iface) false

def releaseAllOps (heldReleaseInterval : InterfaceId → ℚ) (now : ℚ) (rng : InterfaceId → UInt64) :
    List InterfaceId → TransportEngine → List RetentionOp
  | [], _ => []
  | iface :: ifaces, e => e.releaseOps P heldReleaseInterval now rng iface ++
      releaseAllOps heldReleaseInterval now rng ifaces
        (e.releaseHeld P heldReleaseInterval now rng iface).1

variable {P}

theorem amounts_releaseHeld (heldReleaseInterval : InterfaceId → ℚ) (now : ℚ)
    (rng : InterfaceId → UInt64) (iface : InterfaceId) :
    Amounts e (e.releaseOps P heldReleaseInterval now rng iface)
      (e.releaseHeld P heldReleaseInterval now rng iface).1 := by
  unfold releaseOps releaseHeld
  cases e.interfaces[iface]? with
  | none => exact .refl e
  | some info =>
    dsimp only
    by_cases henabled : info.ingressControl.enabled
    · rw [if_neg (not_not.mpr henabled), if_neg (not_not.mpr henabled)]
      rcases e.ingressControl.processHeldAnnounces iface info.ingressControl
        (heldReleaseInterval iface) info.iaFreq info.started now with ⟨ingressControl, _ | held⟩
      · exact .of_eq rfl rfl
      · have hquiet : Amounts e [] { e with ingressControl } := .of_eq rfl rfl
        exact hquiet.after_quiet (amounts_handleInbound _ _ (rng iface) none)
    · rw [if_pos henabled, if_pos henabled]
      exact .refl e

variable (heldReleaseInterval : InterfaceId → ℚ) (now : ℚ) (rng : InterfaceId → UInt64)

theorem amounts_releaseAll (ifaces : List InterfaceId) (e : TransportEngine) :
    Amounts e (releaseAllOps P heldReleaseInterval now rng ifaces e)
      (releaseAll P heldReleaseInterval now rng ifaces e).1 := by
  induction ifaces generalizing e with
  | nil => exact .refl e
  | cons iface ifaces ih =>
    exact (amounts_releaseHeld ..).trans (ih _)

theorem releaseAllOps_append (before after : List InterfaceId) (e : TransportEngine) :
    releaseAllOps P heldReleaseInterval now rng (before ++ after) e =
      releaseAllOps P heldReleaseInterval now rng before e ++
        releaseAllOps P heldReleaseInterval now rng after
          (releaseAll P heldReleaseInterval now rng before e).1 := by
  induction before generalizing e with
  | nil => rfl
  | cons iface before ih =>
    rw [cons_append, releaseAllOps, ih, releaseAllOps, append_assoc]
    rfl

theorem amounts_cullTables (now : ℚ) : Amounts e [] (e.cullTables now).1 :=
  .of_eq rfl rfl

end TransportEngine

/-! ## Events -/

namespace Node

variable (P : Primitives)

/-- The announce that is completed when the verification under a key succeeds. -/
def completed (s : Node) (key : AnnounceVerifyKey) :
    Option (PendingAnnounce × ValidatedAnnounce × Hash32) :=
  match s.taken.find? (·.1 = key) with
  | none => none
  | some (_, checked) =>
    let destHash := checked.packet.destinationHash
    match announceOf checked.packet with
    | none => none
    | some announce => match announce.validate P destHash with
      | .error _ => none
      | .ok validated => (s.queue.completeSuccess key).2.map fun pending =>
          (pending, validated, announceSigCacheKey P destHash announce.signature)

variable {P}

theorem engine_verify (s : Node) (key : AnnounceVerifyKey) (now : ℚ) (rng : UInt64) :
    (s.verify P key now rng).1.engine = match s.completed P key with
      | none => s.engine
      | some (pending, validated, sigKey) =>
        (s.engine.completeVerifiedAnnounce pending validated sigKey now rng).1 := by
  unfold verify completed
  cases s.taken.find? (·.1 = key) with
  | none => rfl
  | some found =>
    dsimp only
    cases announceOf found.2.packet with
    | none => rfl
    | some announce =>
      dsimp only
      cases announce.validate P found.2.packet.destinationHash with
      | error => rfl
      | ok validated =>
        dsimp only
        rcases s.queue.completeSuccess key with ⟨queue, _ | pending⟩ <;> rfl

end Node

namespace Relay

variable (P : Primitives)

/-- What an event amounts to on the two tables. -/
def ops (s : Relay) : Event → List RetentionOp
  | .node (.frame frame rng) => s.engine.frameOps P frame rng false
  | .node (.queuedFrame frame rng) => s.engine.frameOps P frame rng true
  | .node (.verify key now rng) => match s.completed P key with
    | none => []
    | some (pending, validated, sigKey) => (s.engine.rememberSignature sigKey now).verifiedOps
        (pendingCtx pending validated now) rng
  | .node _ => []
  | .pathRequest data iface now _ => match s.parsePathRequest data with
    | none => []
    | some (s, destHash, _) =>
      if s.engine.localDestinations.contains destHash ∨ ¬s.engine.config.transportEnabled then []
      else s.engine.requestOps P destHash iface now
  | .tick now rng =>
    (if now ≤ s.announcesLastChecked + announcesCheckInterval then [] else [.check now]) ++
      releaseAllOps P s.heldReleaseInterval now rng
        (s.processTickPendingAnnounces now).1.engine.ingressControl.interfacesWithHeld
        (s.processTickPendingAnnounces now).1.engine

variable {P}

variable (s : Relay) (now : ℚ)

theorem amounts_node (event : Node.Event) :
    s.engine.Amounts (s.ops P (.node event)) ((Node.machine P).step s.toNode event).1.engine := by
  cases event with
  | frame frame rng => exact amounts_handleInbound s.engine frame rng none
  | queuedFrame frame rng =>
    exact amounts_handleInbound s.engine frame rng (some s.queue)
  | verify key now rng =>
    have hengine := Node.engine_verify (P := P) s.toNode key now rng
    unfold ops
    simp only [Node.machine]
    rw [hengine]
    cases s.toNode.completed P key with
    | none => exact .refl _
    | some done =>
      exact amounts_completeVerifiedAnnounce ..
  | _ => exact .of_eq rfl rfl

theorem toNode_of_insertDiscoveryPrTag {s s' : Relay} {tag : Hash32}
    (h : s.insertDiscoveryPrTag tag = some s') : s'.toNode = s.toNode := by
  unfold insertDiscoveryPrTag at h
  by_cases hseen : tag ∈ s.discoveryPrTags
  · rw [if_pos hseen] at h
    cases h
  · rw [if_neg hseen] at h
    rw [← Option.some.inj h]

section

variable {s s' : Relay} {data : Bytes} {parsed : Hash16 × Bytes}
  (h : s.parsePathRequest data = some (s', parsed))
include h

theorem toNode_of_parsePathRequest : s'.toNode = s.toNode := by
  unfold parsePathRequest at h
  by_cases hshort : data.length ≤ 16
  · rw [if_pos hshort] at h
    cases h
  · rw [if_neg hshort] at h
    obtain ⟨inserted, hinsert, heq⟩ := Option.map_eq_some_iff.mp h
    rw [← (Prod.mk.inj heq).1]
    exact toNode_of_insertDiscoveryPrTag hinsert

theorem engine_of_parsePathRequest : s'.engine = s.engine := by
  rw [toNode_of_parsePathRequest h]

end

theorem amounts_pathRequest (data : Bytes) (iface : InterfaceId) (now : ℚ) (egress : List InterfaceId) :
    s.engine.Amounts (s.ops P (.pathRequest data iface now egress))
      (s.handlePathRequest P data iface now egress).1.engine := by
  rw [ops, handlePathRequest]
  cases hparse : s.parsePathRequest data with
  | none => exact .refl _
  | some parsed =>
    obtain ⟨s', destHash, tag⟩ := parsed
    rw [← engine_of_parsePathRequest hparse]
    dsimp only
    split_ifs
    · exact .refl _
    · have hknown := amounts_handleKnownPathRequest (P := P) s'.engine destHash
        iface now
      generalize s'.engine.handleKnownPathRequest P .. = answered at hknown ⊢
      obtain ⟨engine, _ | _⟩ := answered
      · exact hknown.then_quiet
          (aside_handleDiscoveryPathRequest engine destHash tag iface
            (s'.recursivePrs iface) now egress).amounts
      · exact hknown

theorem amounts_processTickPendingAnnounces :
    s.engine.Amounts (if now ≤ s.announcesLastChecked + announcesCheckInterval then [] else [.check now])
      (s.processTickPendingAnnounces now).1.engine := by
  unfold processTickPendingAnnounces
  split_ifs
  · exact .refl _
  · exact ⟨rfl, rfl⟩

theorem amounts_tick (rng : InterfaceId → UInt64) :
    s.engine.Amounts (s.ops P (.tick now rng)) (s.tick P now rng).1.engine := by
  have hchecked := amounts_processTickPendingAnnounces s now
  have hinterval : (s.processTickPendingAnnounces now).1.heldReleaseInterval =
      s.heldReleaseInterval := by
    unfold processTickPendingAnnounces
    split_ifs <;> rfl
  rw [ops, tick]
  generalize s.processTickPendingAnnounces now = checked at hchecked hinterval ⊢
  obtain ⟨s', sent⟩ := checked
  have hreleased := hchecked.trans (amounts_releaseAll (P := P)
    s.heldReleaseInterval now rng s'.engine.ingressControl.interfacesWithHeld s'.engine)
  dsimp only at hinterval hreleased ⊢
  rw [hinterval]
  by_cases hearly : now ≤ s'.tablesLastCulled + tablesCullInterval
  · rw [if_pos hearly]
    exact hreleased
  · rw [if_neg hearly]
    exact hreleased.then_quiet (amounts_cullTables _ now)

theorem amounts_step (event : Event) :
    s.engine.Amounts (s.ops P event) ((machine P).step s event).1.engine := by
  cases event with
  | node event => exact amounts_node s event
  | pathRequest data iface now egress => exact amounts_pathRequest ..
  | tick now rng => exact amounts_tick ..

end Relay

/-! ### Only the check sends -/

namespace TransportEngine

def FromAnnounces (ops : List RetentionOp) : Prop :=
  ∀ op ∈ ops, match op with
    | .hear _ _ | .insert _ _ _ => True
    | _ => False

theorem FromAnnounces.nil : FromAnnounces [] := fun _ h => nomatch h

theorem FromAnnounces.append {ops ops' : List RetentionOp} (h : FromAnnounces ops)
    (h' : FromAnnounces ops') : FromAnnounces (ops ++ ops') := fun op hop =>
  (mem_append.mp hop).elim (h op) (h' op)

theorem sends_nothing {ops : List RetentionOp} (h : ∀ now, .check now ∉ ops)
    (config : TransportConfig) (r : Retained) : ((retention config).run r ops).2 = [] := by
  induction ops generalizing r with
  | nil => rfl
  | cons op ops ih =>
    have hop : ((retention config).step r op).2 = [] := by
      cases op with
      | check now => exact absurd mem_cons_self (h now)
      | _ => rfl
    rw [Machine.run, hop, ih fun now hmem => h now (mem_cons_of_mem _ hmem)]
    rfl

theorem FromAnnounces.sends_nothing {ops : List RetentionOp} (h : FromAnnounces ops)
    (config : TransportConfig) (r : Retained) : ((retention config).run r ops).2 = [] :=
  TransportEngine.sends_nothing (fun now hmem => h (.check now) hmem) ..

variable {P : Primitives}

theorem fromAnnounces_hearOps : FromAnnounces (e.hearOps packet now) := by
  unfold hearOps
  split_ifs <;> simp [FromAnnounces]

theorem fromAnnounces_verifiedOps (ctx : VerifiedAnnounceCtx) (rng : UInt64) :
    FromAnnounces (e.verifiedOps ctx rng) := by
  unfold verifiedOps acceptOps
  split_ifs
  · refine .append ?_ ?_
    · cases acceptedEntry _ ctx rng <;> simp [FromAnnounces]
    · generalize (forgetStaleState e ctx.packet.destinationHash).discoveryPathRequests[
        ctx.packet.destinationHash]? = request
      cases request <;> simp [FromAnnounces]
  · exact .nil

section Forall

-- what holds for the operations of heard and of verified announces holds for those of frames
variable {Q : RetentionOp → Prop}
  (hhear : ∀ (e : TransportEngine) (packet : RawPacket) (now : ℚ), ∀ op ∈ e.hearOps packet now, Q op)
  (hverified : ∀ (e : TransportEngine) (ctx : VerifiedAnnounceCtx) (rng : UInt64),
    ∀ op ∈ e.verifiedOps ctx rng, Q op)

include hhear hverified

theorem forall_processOps (e : TransportEngine) (ctx : InboundPacketCtx) (a : AnnounceData)
    (validated : ValidatedAnnounce) (rng : UInt64) :
    ∀ op ∈ e.processOps P ctx a validated rng, Q op := fun op hop =>
  (mem_append.mp hop).elim (hhear e _ _ op) (hverified _ _ rng op)

theorem forall_announceOps (e : TransportEngine) (ctx : InboundPacketCtx) (rng : UInt64) (queued : Bool) :
    ∀ op ∈ if queued then e.queuedAnnounceOps P ctx rng else e.announceOps P ctx rng, Q op := by
  have hheard := hhear e ctx.packet ctx.now
  have hprocess := forall_processOps (P := P) hhear hverified e ctx
  grind [announceOps, queuedAnnounceOps]

theorem forall_frameOps (e : TransportEngine) (frame : InboundFrame) (rng : UInt64)
    (queued : Bool) : ∀ op ∈ e.frameOps P frame rng queued, Q op := by
  unfold frameOps
  cases e.prepareInboundPacket P frame with
  | none => exact nofun
  | some ctx =>
    dsimp only
    split
    · exact forall_announceOps hhear hverified _ ctx rng queued
    · exact nofun

theorem forall_releaseAllOps (heldReleaseInterval : InterfaceId → ℚ) (now : ℚ)
    (rng : InterfaceId → UInt64) (ifaces : List InterfaceId) (e : TransportEngine) :
    ∀ op ∈ releaseAllOps P heldReleaseInterval now rng ifaces e, Q op := by
  induction ifaces generalizing e with
  | nil => exact nofun
  | cons iface ifaces ih =>
    intro op hop
    refine (mem_append.mp hop).elim ?_ (ih _ op)
    unfold releaseOps
    cases e.interfaces[iface]? with
    | none => exact nofun
    | some info =>
      dsimp only
      split_ifs
      · split
        · exact nofun
        · exact forall_frameOps hhear hverified _ _ _ _ op
      · exact nofun

end Forall

theorem fromAnnounces_frameOps (queued : Bool) : FromAnnounces (e.frameOps P frame rng queued) :=
  forall_frameOps fromAnnounces_hearOps fromAnnounces_verifiedOps e frame rng queued

theorem fromAnnounces_releaseAllOps (heldReleaseInterval : InterfaceId → ℚ) (now : ℚ)
    (rng : InterfaceId → UInt64) (ifaces : List InterfaceId) (e : TransportEngine) :
    FromAnnounces (releaseAllOps P heldReleaseInterval now rng ifaces e) :=
  forall_releaseAllOps fromAnnounces_hearOps fromAnnounces_verifiedOps heldReleaseInterval now rng
    ifaces e

theorem check_not_mem_requestOps (now now' : ℚ) :
    .check now' ∉ e.requestOps P destHash iface now := by
  unfold requestOps
  split
  · exact not_mem_nil
  · split_ifs
    · exact not_mem_nil
    · split
      · exact not_mem_nil
      · simp

end TransportEngine

namespace Relay

variable {P : Primitives}

variable (s : Relay) (event : Event)

theorem fromAnnounces_node (event : Node.Event) : FromAnnounces (s.ops P (.node event)) := by
  cases event with
  | frame | queuedFrame => exact fromAnnounces_frameOps _ _ _ _
  | verify key now rng =>
    rw [ops]
    split
    · exact .nil
    · exact fromAnnounces_verifiedOps _ _ _
  | _ => exact .nil

theorem check_not_mem_pathRequest (data : Bytes) (iface : InterfaceId) (now : ℚ)
    (egress : List InterfaceId) (now' : ℚ) :
    .check now' ∉ s.ops P (.pathRequest data iface now egress) := by
  rw [ops]
  split
  · exact not_mem_nil
  · split_ifs
    · exact not_mem_nil
    · exact check_not_mem_requestOps _ _ _ _ _

theorem retransmit_mem_step {t : Retransmission} (h : t ∈ ((retention s.engine.config).run s.engine.retained
      (s.ops P event)).2) : .retransmit t ∈ ((machine P).step s event).2 := by
  cases event with
  | node event =>
    rw [(fromAnnounces_node s event).sends_nothing] at h
    cases h
  | pathRequest data iface now egress =>
    rw [sends_nothing (check_not_mem_pathRequest s data iface now egress)] at h
    cases h
  | tick now rng =>
    rw [ops, Machine.run_append_snd,
      (fromAnnounces_releaseAllOps _ now rng _ _).sends_nothing, append_nil] at h
    have hsent : t ∈ (s.processTickPendingAnnounces now).2 := by
      unfold processTickPendingAnnounces
      split_ifs at h ⊢
      · exact h
      · simpa [Machine.run, retention, retained] using h
    simp only [machine, tick, append_assoc]
    exact mem_append_left _ (mem_map_of_mem hsent)

theorem follows_retention (P : Primitives) (config : TransportConfig) :
    (machine P).Follows (retention config) (fun s => s.engine.retained) (ops P)
      .retransmit (fun s _ => s.engine.config = config) where
  state s event h := h ▸ (amounts_step s event).retained
  output s event h _ ht := retransmit_mem_step s event (h ▸ ht)

theorem config_step : ((machine P).step s event).1.engine.config = s.engine.config :=
  (amounts_step s event).config

theorem config_run (events : List Event) :
    ((machine P).run s events).1.engine.config = s.engine.config := by
  induction events generalizing s with
  | nil => rfl
  | cons event events ih => exact (ih _).trans (config_step s event)

end Relay

end Rns.Transport
