import Rns.Transport.AnnounceChecks
import Rns.Transport.Replay

/-!
# Authenticity of announces

An announce is reported or stored only after it was verified, or because its destination and signature
were verified before; the cache does not know the content they were verified for.
-/

namespace Rns.Transport

open TransportEngine AnnounceSignatureCache
open PacketType (announce proof)

variable (P : Primitives)

/-- The destination and announce a frame carries. -/
def InboundFrame.announced (frame : InboundFrame) : Option (Hash16 × AnnounceData) :=
  match RawPacket.unpack P frame.raw with
  | .error _ => none
  | .ok packet =>
    if packet.flags.packetType = announce then
      (announceOf packet).map fun announce => (packet.destinationHash, announce)
    else none

variable {event : Event} {queue : AnnounceVerifyQueue} {Q : PendingAnnounce → Prop}
  {ctx : InboundPacketCtx} {a : AnnounceData} {f : InboundFrame}

namespace TransportEngine

/-! ## One frame -/

def Announces (e e' : TransportEngine) (actions : List TransportAction) (destHash : Hash16) : Prop :=
  (∃ action ∈ actions, action.reports destHash) ∨
    ∃ path ∈ e'.pathsTo destHash, ∀ old ∈ e.pathsTo destHash,
      { old with timestamp := path.timestamp } ≠ path

/-- What a step may do with the announce it handles: remember its signature once it was verified,
and report and store it if it was verified now or its signature is remembered. -/
structure AnnounceStep (carried : Option (Hash16 × AnnounceData)) (e e' : TransportEngine)
    (actions : List TransportAction) : Prop where
  cached : ∀ key, e'.announceSigCache.contains key → e.announceSigCache.contains key ∨
    ∃ destHash a, carried = some (destHash, a) ∧ a.Validates P destHash ∧
      key = announceSigCacheKey P destHash a.signature
  announces : ∀ destHash, Announces e e' actions destHash → ∃ a, carried = some (destHash, a) ∧
    (a.Validates P destHash ∨
      e.announceSigCache.contains (announceSigCacheKey P destHash a.signature))

variable {P} {e e₁ : TransportEngine} {carried : Option (Hash16 × AnnounceData)}

variable {result : TransportEngine × List TransportAction}

theorem Quiet.not_announces (h : Quiet e result) (destHash : Hash16) :
    ¬Announces e result.1 result.2 destHash := by
  rintro (⟨action, haction, hreports⟩ | ⟨path, hpath, hnew⟩)
  · simp [h.actions action haction] at hreports
  · obtain ⟨old, hold, heq⟩ := h.paths destHash path hpath
    exact hnew old hold heq

theorem Quiet.announceStep (h : Quiet e result) : AnnounceStep P carried e result.1 result.2 :=
  ⟨fun _ hkey => .inl (h.sigCache ▸ hkey),
    fun destHash hannounces => absurd hannounces (h.not_announces destHash)⟩

theorem OnlyFor.announceStep {destHash : Hash16} {result : TransportEngine × List TransportAction}
    (h : OnlyFor destHash e₁ result) (hpaths : e₁.pathTable = e.pathTable)
    (hcache : ∀ key, e₁.announceSigCache.contains key → e.announceSigCache.contains key ∨
      a.Validates P destHash ∧ key = announceSigCacheKey P destHash a.signature)
    (hok : a.Validates P destHash ∨
      e.announceSigCache.contains (announceSigCacheKey P destHash a.signature)) :
    AnnounceStep P (some (destHash, a)) e result.1 result.2 := by
  refine ⟨fun key hkey => ?_, fun other hannounces => ?_⟩
  · rcases hcache key (h.sigCache ▸ hkey) with hold | ⟨hvalid, hkey⟩
    · exact .inl hold
    · exact .inr ⟨destHash, a, rfl, hvalid, hkey⟩
  · by_cases hother : other = destHash
    · exact ⟨a, by rw [hother], hother ▸ hok⟩
    · exfalso
      rcases hannounces with ⟨action, haction, hreports⟩ | ⟨path, hpath, hnew⟩
      · simp [h.actions action haction other hother] at hreports
      · have hold := h.paths other hother path hpath
        rw [pathsTo, hpaths] at hold
        exact hnew path hold rfl

/-- Neither the paths nor the verified signatures are touched. -/
structure KeepsLearned (e e' : TransportEngine) : Prop where
  pathTable : e'.pathTable = e.pathTable
  sigCache : e'.announceSigCache = e.announceSigCache

theorem KeepsLearned.announceStep (h : KeepsLearned e e₁) : AnnounceStep P carried e e₁ [] := by
  have hquiet : Quiet e (e₁, []) := .of_pathTable_eq h.sigCache h.pathTable nofun
  exact hquiet.announceStep

def carriedBy (packet : RawPacket) : Option (Hash16 × AnnounceData) :=
  (announceOf packet).map fun announce => (packet.destinationHash, announce)

theorem announceStep_process {validated : ValidatedAnnounce} (ha : announceOf ctx.packet = some a)
    (hverdict : verdict P e ctx a = some validated) (rng : UInt64) :
    AnnounceStep P (carriedBy ctx.packet) e (e.process P ctx a validated rng).1
      (e.process P ctx a validated rng).2 := by
  have hcarried : carriedBy ctx.packet = some (ctx.packet.destinationHash, a) := by
    rw [carriedBy, ha]
    rfl
  have honly := onlyFor_processVerifiedAnnounce (e.readyFor P ctx a)
    (verifiedCtx ctx validated (sender ctx.packet) a.randomHash) rng
  rw [hcarried]
  by_cases hkey : e.announceSigCache.contains (cacheKey P ctx a)
  · refine honly.announceStep rfl (fun key hold => .inl ?_) (.inr hkey)
    rwa [readyFor, insert_of_contains hkey] at hold
  · have hvalid : a.Validates P ctx.packet.destinationHash := by
      rw [verdict, if_neg hkey] at hverdict
      cases hvalidate : a.validate P ctx.packet.destinationHash with
      | error => simp [hvalidate, Except.toOption] at hverdict
      | ok validated => exact ⟨validated, hvalidate⟩
    refine honly.announceStep rfl (fun key hold => ?_) (.inl hvalid)
    exact (contains_insert hold).imp_right fun heq => ⟨hvalid, heq⟩

section

variable (e : TransportEngine) (ctx : InboundPacketCtx) (rng : UInt64)

theorem announceStep_processInboundAnnounce : AnnounceStep P (carriedBy ctx.packet) e
      (e.processInboundAnnounce P ctx rng).1 (e.processInboundAnnounce P ctx rng).2 :=
  processInboundAnnounce_cases (motive := fun result => AnnounceStep P _ e result.1 result.2) rng
    (Quiet.refl e).announceStep (KeepsLearned.announceStep ⟨rfl, rfl⟩)
    fun _ _ ha hverdict => announceStep_process ha hverdict rng

theorem announceStep_tryEnqueueAnnounce (queue : AnnounceVerifyQueue) :
    AnnounceStep P (carriedBy ctx.packet) e (e.tryEnqueueAnnounce P ctx rng queue).1
      (e.tryEnqueueAnnounce P ctx rng queue).2.2 :=
  tryEnqueueAnnounce_cases (motive := fun result => AnnounceStep P _ e result.1 result.2.2) rng queue
    (Quiet.refl e).announceStep (KeepsLearned.announceStep ⟨rfl, rfl⟩)
    (KeepsLearned.announceStep ⟨rfl, rfl⟩) (fun _ _ => KeepsLearned.announceStep ⟨rfl, rfl⟩)
    fun _ _ ha hverdict => announceStep_process ha hverdict rng

end

theorem queue_tryEnqueueAnnounce (h : queue.All Q) (e : TransportEngine) (ctx : InboundPacketCtx)
    (rng : UInt64)
    (hpending : ∀ pending, pending.packet = ctx.packet → pending.originalRaw = ctx.originalRaw →
      (announceOf ctx.packet).isSome → Q pending) :
    (e.tryEnqueueAnnounce P ctx rng queue).2.1.All Q :=
  tryEnqueueAnnounce_cases (motive := fun result => result.2.1.All Q) rng queue h h h
    (fun _ ha => h.enqueue _ (hpending _ rfl rfl (by rw [ha]; rfl))) fun _ _ _ _ => h

/-! ### All handlers -/

theorem Quiet.with_actions {e e' : TransportEngine} {actions actions' : List TransportAction}
    (h : Quiet e (e', actions))
    (hactions : ∀ action ∈ actions', ∀ destHash, action.reports destHash = false) :
    Quiet e (e', actions') :=
  ⟨h.sigCache, h.paths, hactions⟩

section Compose

variable {e₂ : TransportEngine} {actions₁ actions₂ : List TransportAction}

theorem AnnounceStep.after_quiet (hquiet : Quiet e (e₁, actions₁))
    (h : AnnounceStep P carried e₁ e₂ actions₂) :
    AnnounceStep P carried e e₂ (actions₁ ++ actions₂) := by
  refine ⟨fun key hkey => hquiet.sigCache ▸ h.cached key hkey, fun destHash hannounces => ?_⟩
  refine hquiet.sigCache ▸ h.announces destHash ?_
  rcases hannounces with ⟨action, haction, hreports⟩ | ⟨path, hpath, hnew⟩
  · rcases List.mem_append.mp haction with haction | haction
    · simp [hquiet.actions action haction] at hreports
    · exact .inl ⟨action, haction, hreports⟩
  · refine .inr ⟨path, hpath, fun middle hmiddle heq => ?_⟩
    obtain ⟨old, hold, hmatch⟩ := hquiet.paths destHash middle hmiddle
    exact hnew old hold (by rw [← heq, ← hmatch])

theorem AnnounceStep.then_quiet (h : AnnounceStep P carried e e₁ actions₁)
    (hquiet : Quiet e₁ (e₂, actions₂)) : AnnounceStep P carried e e₂ (actions₁ ++ actions₂) := by
  refine ⟨fun key hkey => h.cached key (hquiet.sigCache ▸ hkey), fun destHash hannounces => ?_⟩
  refine h.announces destHash ?_
  rcases hannounces with ⟨action, haction, hreports⟩ | ⟨path, hpath, hnew⟩
  · rcases List.mem_append.mp haction with haction | haction
    · exact .inl ⟨action, haction, hreports⟩
    · simp [hquiet.actions action haction] at hreports
  · obtain ⟨middle, hmiddle, hmatch⟩ := hquiet.paths destHash path hpath
    refine .inr ⟨middle, hmiddle, fun old hold heq => hnew old hold ?_⟩
    rw [← hmatch, ← heq]

end Compose

theorem announced_of_prepareInboundPacket {frame : InboundFrame}
    (h : e.prepareInboundPacket P frame = some ctx) : frame.announced P =
      if ctx.packet.flags.packetType = announce then carriedBy ctx.packet else none := by
  unfold prepareInboundPacket at h
  cases hunpack : RawPacket.unpack P frame.raw with
  | error => simp [hunpack] at h
  | ok packet =>
    simp only [hunpack] at h
    split_ifs at h
    obtain rfl := Option.some.inj h
    simp only [InboundFrame.announced, hunpack]
    rfl

theorem announceStep_handleInboundAnnounce (e : TransportEngine) (ctx : InboundPacketCtx)
    (rng : UInt64) (queue : Option AnnounceVerifyQueue) :
    AnnounceStep P
      (if ctx.packet.flags.packetType = announce then carriedBy ctx.packet else none)
      e (e.handleInboundAnnounce P ctx rng queue).1
      (e.handleInboundAnnounce P ctx rng queue).2.2 := by
  unfold handleInboundAnnounce
  by_cases htype : ctx.packet.flags.packetType = announce
  · rw [if_pos htype, if_neg (not_not.mpr htype)]
    cases queue with
    | some queue => exact announceStep_tryEnqueueAnnounce ..
    | none => exact announceStep_processInboundAnnounce ..
  · rw [if_neg htype, if_pos htype]
    exact (Quiet.refl e).announceStep

theorem announceStep_handleInbound (e : TransportEngine) (frame : InboundFrame) (rng : UInt64)
    (queue : Option AnnounceVerifyQueue) : AnnounceStep P (frame.announced P) e
      (e.handleInboundWithAnnounceQueue P frame rng queue).1
      (e.handleInboundWithAnnounceQueue P frame rng queue).2.2 := by
  unfold handleInboundWithAnnounceQueue
  cases hprepare : e.prepareInboundPacket P frame with
  | none => exact (Quiet.refl e).announceStep
  | some ctx =>
    rw [announced_of_prepareInboundPacket hprepare]
    dsimp only
    have hremember := quiet_rememberInboundPacketHash e ctx.packet
    generalize e.rememberInboundPacketHash ctx.packet = e₁ at hremember ⊢
    have hbridged : Quiet e (e₁, e₁.bridgePlainBroadcast ctx) :=
      hremember.with_actions fun action haction => reports_bridgePlainBroadcast haction
    have hforward := hbridged.trans (quiet_handleTransportForwarding P e₁ ctx)
    generalize e₁.handleTransportForwarding P ctx = forwarded at hforward ⊢
    have hroute := hforward.trans (quiet_handleLinkTableRouting forwarded.1 ctx)
    generalize forwarded.1.handleLinkTableRouting ctx = routed at hroute ⊢
    have hannounce := AnnounceStep.after_quiet hroute
      (announceStep_handleInboundAnnounce (P := P) routed.1 ctx rng queue)
    generalize routed.1.handleInboundAnnounce P ctx rng queue = announced at hannounce ⊢
    have hproof : Quiet announced.1 (if ctx.packet.flags.packetType = proof then
        announced.1.processInboundProof ctx else (announced.1, [])) := by
      split_ifs
      · exact quiet_processInboundProof ..
      · exact .refl announced.1
    exact (hannounce.then_quiet hproof).then_quiet
      ((Quiet.refl _).with_actions fun action haction => reports_handleInboundLocalDelivery haction)

theorem queue_handleInbound (h : queue.All Q) (e : TransportEngine) (frame : InboundFrame)
    (rng : UInt64)
    (hpending : ∀ pending x, carriedBy pending.packet = some x → frame.announced P = some x → Q pending) :
    ((e.handleInboundWithAnnounceQueue P frame rng (some queue)).2.1.getD queue).All Q := by
  unfold handleInboundWithAnnounceQueue
  cases hprepare : e.prepareInboundPacket P frame with
  | none => exact h
  | some ctx =>
    have hannounced := announced_of_prepareInboundPacket hprepare
    dsimp only
    unfold handleInboundAnnounce
    by_cases htype : ctx.packet.flags.packetType = announce
    · rw [if_neg (not_not.mpr htype)]
      rw [if_pos htype] at hannounced
      refine queue_tryEnqueueAnnounce h _ ctx rng fun pending hpacket _ hsome => ?_
      obtain ⟨a, ha⟩ := Option.isSome_iff_exists.mp hsome
      have hcarried : carriedBy ctx.packet = some (ctx.packet.destinationHash, a) := by
        rw [carriedBy, ha]
        rfl
      exact hpending pending _ (hpacket ▸ hcarried) (hannounced.trans hcarried)
    · rw [if_pos htype]
      exact h

end TransportEngine

/-! ## Runs -/

/-- The engine with the queue and the announces its verifier has taken out. -/
structure Node where
  engine : TransportEngine
  queue : AnnounceVerifyQueue
  taken : List (AnnounceVerifyKey × PendingAnnounce)

namespace Node

/-- A frame is handled at once or through the queue; the verifier takes announces out of the queue
and verifies them one by one; interfaces and destinations come and go. -/
inductive Event where
  | frame (frame : InboundFrame) (rng : UInt64)
  | queuedFrame (frame : InboundFrame) (rng : UInt64)
  | takePending (now : ℚ)
  | verify (key : AnnounceVerifyKey) (now : ℚ) (rng : UInt64)
  | registerInterface (info : InterfaceInfo)
  | deregisterInterface (id : InterfaceId)
  | registerDestination (destHash : Hash16) (destType : UInt8)
  | deregisterDestination (destHash : Hash16)
  | cullSignatures (now : ℚ)

/-- The verifier's check of an announce it has taken out, and what the driver does on the result. -/
def verify (s : Node) (key : AnnounceVerifyKey) (now : ℚ) (rng : UInt64) :
    Node × List TransportAction :=
  match s.taken.find? (·.1 = key) with
  | none => (s, [])
  | some (_, checked) =>
    let s := { s with taken := s.taken.eraseP (·.1 = key) }
    let destHash := checked.packet.destinationHash
    match announceOf checked.packet with
    | none => ({ s with queue := (s.queue.completeFailure key).1 }, [])
    | some announce => match announce.validate P destHash with
      | .error _ => ({ s with queue := (s.queue.completeFailure key).1 }, [])
      | .ok validated =>
        match s.queue.completeSuccess key with
        | (queue, none) => ({ s with queue }, [])
        | (queue, some pending) =>
          let (engine, actions) := s.engine.completeVerifiedAnnounce pending validated
            (announceSigCacheKey P destHash announce.signature) now rng
          ({ s with engine, queue }, actions)

def machine : Machine Node Event TransportAction where
  step s
    | .frame frame rng =>
      let (engine, _, actions) := s.engine.handleInboundWithAnnounceQueue P frame rng none
      ({ s with engine }, actions)
    | .queuedFrame frame rng =>
      let (engine, queue, actions) :=
        s.engine.handleInboundWithAnnounceQueue P frame rng (some s.queue)
      ({ s with engine, queue := queue.getD s.queue }, actions)
    | .takePending now =>
      let (queue, batch) := s.queue.takePending now
      ({ s with queue, taken := s.taken ++ batch }, [])
    | .verify key now rng => s.verify P key now rng
    | .registerInterface info =>
      let engine := { s.engine with interfaces := s.engine.interfaces.insert info.id info }
      ({ s with engine }, [])
    | .deregisterInterface id =>
      let engine := { s.engine with
        interfaces := s.engine.interfaces.erase id
        ingressControl := s.engine.ingressControl.erase id }
      ({ s with engine }, [])
    | .registerDestination destHash destType =>
      let localDestinations := s.engine.localDestinations.insert destHash destType
      ({ s with engine := { s.engine with localDestinations } }, [])
    | .deregisterDestination destHash =>
      let localDestinations := s.engine.localDestinations.erase destHash
      ({ s with engine := { s.engine with localDestinations } }, [])
    | .cullSignatures now =>
      let announceSigCache := s.engine.announceSigCache.cull now
      ({ s with engine := { s.engine with announceSigCache } }, [])

def new (config : TransportConfig) (queueMaxEntries : ℕ) : Node :=
  ⟨.new config, .new queueMaxEntries, []⟩

def Event.frame? : Event → Option InboundFrame
  | .frame f _ => some f
  | .queuedFrame f _ => some f
  | _ => none

def announcesIn (events : List Event) : List (Hash16 × AnnounceData) :=
  events.filterMap fun event => event.frame?.bind (InboundFrame.announced P)

def Authentic (s : Node) (event : Event) : Prop :=
  ∀ frame, event.frame? = some frame → ∀ destHash,
    s.engine.Announces ((machine P).step s event).1.engine ((machine P).step s event).2 destHash →
    ∃ a, frame.announced P = some (destHash, a) ∧ a.Validates P destHash

variable (past : List Event)

/-- The cache keys of the announce and of every earlier one tell their destinations and signatures
apart. -/
def CollisionFree (event : Event) : Prop :=
  ∀ x ∈ announcesIn P [event], ∀ y ∈ announcesIn P past,
    announceSigCacheKey P x.1 x.2.signature =
      announceSigCacheKey P y.1 y.2.signature →
    x.1 = y.1 ∧ x.2.signature = y.2.signature

def SameContent (event : Event) : Prop :=
  ∀ x ∈ announcesIn P [event], ∀ y ∈ announcesIn P past,
    x.1 = y.1 → x.2.signature = y.2.signature → x.2.signedData x.1 = y.2.signedData y.1

instance (past : List Event) (event : Event) : Decidable (CollisionFree P past event) :=
  inferInstanceAs (Decidable (∀ x ∈ _, ∀ y ∈ _, _ = _ → _ ∧ _))

instance (past : List Event) (event : Event) : Decidable (SameContent P past event) :=
  inferInstanceAs (Decidable (∀ x ∈ _, ∀ y ∈ _, _ = _ → _ = _ → _ = _))

/-! ### The invariant -/

def Seen (pending : PendingAnnounce) : Prop :=
  ∃ x ∈ announcesIn P past, carriedBy pending.packet = some x

/-- Every remembered signature is that of an announce of the run that validates, and every announce
in the queue or taken out of it came in a frame of the run. -/
structure Invariant (past : List Event) (s : Node) : Prop where
  cached : ∀ key, s.engine.announceSigCache.contains key →
    ∃ x ∈ announcesIn P past, x.2.Validates P x.1 ∧
      key = announceSigCacheKey P x.1 x.2.signature
  queue : s.queue.All (Seen P past)
  taken : ∀ entry ∈ s.taken, Seen P past entry.2

variable {P}

theorem announcesIn_append (past : List Event) (event : Event) :
    announcesIn P (past ++ [event]) = announcesIn P past ++ announcesIn P [event] :=
  List.filterMap_append

theorem mem_announcesIn_singleton {x : Hash16 × AnnounceData} (hframe : event.frame? = some f)
    (h : f.announced P = some x) : x ∈ announcesIn P [event] := by
  simp [announcesIn, hframe, h]

variable {past : List Event} {s : Node}

theorem Seen.append {pending : PendingAnnounce} (h : Seen P past pending) (event : Event) :
    Seen P (past ++ [event]) pending := by
  obtain ⟨x, hx, hcarried⟩ := h
  refine ⟨x, ?_, hcarried⟩
  rw [announcesIn_append]
  exact List.mem_append_left _ hx

theorem Invariant.append (h : Invariant P past s) (event : Event) :
    Invariant P (past ++ [event]) s := by
  refine ⟨fun key hkey => ?_, fun key entry hentry => (h.queue key entry hentry).append event,
    fun entry hentry => (h.taken entry hentry).append event⟩
  obtain ⟨x, hx, hvalid⟩ := h.cached key hkey
  refine ⟨x, ?_, hvalid⟩
  rw [announcesIn_append]
  exact List.mem_append_left _ hx

theorem invariant_new (config : TransportConfig) (queueMaxEntries : ℕ) :
    Invariant P [] (new config queueMaxEntries) := by
  refine ⟨fun key hkey => ?_, fun key entry hentry => ?_, nofun⟩
  · simp [new, TransportEngine.new, AnnounceSignatureCache.new, contains] at hkey
  · simp [new, AnnounceVerifyQueue.new, AnnounceVerifyQueue.withLimits] at hentry

section

variable (h : Invariant P past s)
include h

theorem Invariant.cached_of_announceStep (hframe : event.frame? = some f) {engine : TransportEngine}
    {actions : List TransportAction}
    (hstep : AnnounceStep P (f.announced P) s.engine engine actions) :
    ∀ key, engine.announceSigCache.contains key →
      ∃ x ∈ announcesIn P (past ++ [event]), x.2.Validates P x.1 ∧
        key = announceSigCacheKey P x.1 x.2.signature := by
  intro key hkey
  rcases hstep.cached key hkey with hold | ⟨destHash, a, hcarried, hvalid, hkey⟩
  · exact (h.append event).cached key hold
  · refine ⟨(destHash, a), ?_, hvalid, hkey⟩
    rw [announcesIn_append]
    exact List.mem_append_right _ (mem_announcesIn_singleton hframe hcarried)

/-- A frame that announces is authentic: what was not verified now was verified for the same
destination and signature before, hence for the same content. -/
theorem Invariant.authentic (hfree : CollisionFree P past event)
    (hsame : SameContent P past event) : Authentic P s event := by
  intro f hframe destHash hannounces
  have hstep : AnnounceStep P (f.announced P) s.engine
      ((machine P).step s event).1.engine ((machine P).step s event).2 := by
    cases event with
    | frame f' rng =>
      obtain rfl := Option.some.inj hframe
      exact announceStep_handleInbound ..
    | queuedFrame f' rng =>
      obtain rfl := Option.some.inj hframe
      exact announceStep_handleInbound ..
    | _ => cases hframe
  obtain ⟨a, hcarried, hvalid | hkey⟩ := hstep.announces destHash hannounces
  · exact ⟨a, hcarried, hvalid⟩
  · obtain ⟨y, hy, hvalid, hkey⟩ := h.cached _ hkey
    have hx := mem_announcesIn_singleton hframe hcarried
    obtain ⟨hdest, hsig⟩ := hfree _ hx y hy hkey
    have hdata := hsame _ hx y hy hdest hsig
    obtain rfl : destHash = y.1 := hdest
    exact ⟨a, hcarried, hvalid.of_signedData P hdata hsig⟩

theorem Invariant.verify (key : AnnounceVerifyKey) (now : ℚ) (rng : UInt64) :
    Invariant P past (s.verify P key now rng).1 := by
  unfold Node.verify
  cases hfind : s.taken.find? (·.1 = key) with
  | none => exact h
  | some found =>
    obtain ⟨foundKey, checked⟩ := found
    have htaken : ∀ entry ∈ s.taken.eraseP (·.1 = key), Seen P past entry.2 :=
      fun entry hentry => h.taken entry (List.mem_of_mem_eraseP hentry)
    have hfailed : ∀ queue : AnnounceVerifyQueue, queue = s.queue.removeEntry key →
        Invariant P past ⟨s.engine, queue, s.taken.eraseP (·.1 = key)⟩ := by
      rintro queue rfl
      exact ⟨h.cached, h.queue.removeEntry key, htaken⟩
    dsimp only
    cases hannounce : announceOf checked.packet with
    | none => exact hfailed _ rfl
    | some a =>
      dsimp only
      cases hvalidate : a.validate P checked.packet.destinationHash with
      | error => exact hfailed _ rfl
      | ok validated =>
        obtain ⟨x, hx, hcarried⟩ := h.taken _ (List.mem_of_find?_eq_some hfind)
        obtain rfl : (checked.packet.destinationHash, a) = x := by
          simpa [carriedBy, hannounce] using hcarried
        dsimp only [AnnounceVerifyQueue.completeSuccess]
        cases s.queue.entries[key]?.map QueueEntry.announce with
        | none => exact hfailed _ rfl
        | some pending =>
          refine ⟨fun cachedKey hkey => ?_, h.queue.removeEntry key, htaken⟩
          have hsame := (onlyFor_processVerifiedAnnounce
            (s.engine.rememberSignature (announceSigCacheKey P
              checked.packet.destinationHash a.signature) now)
            ⟨pending.packet, pending.originalRaw, pending.interface, now, validated,
              pending.receivedFrom, pending.randomBlob, pending.emissionTs⟩ rng).sigCache
          rcases contains_insert (hsame ▸ hkey) with hold | rfl
          · exact h.cached cachedKey hold
          · exact ⟨_, hx, ⟨validated, hvalidate⟩, rfl⟩

theorem Invariant.step (event : Event) :
    Invariant P (past ++ [event]) ((machine P).step s event).1 := by
  have happend := h.append event
  cases event with
  | frame f rng =>
    exact ⟨h.cached_of_announceStep rfl
      (announceStep_handleInbound ..), happend.queue, happend.taken⟩
  | queuedFrame f rng =>
    refine ⟨h.cached_of_announceStep rfl
      (announceStep_handleInbound ..), ?_, happend.taken⟩
    refine queue_handleInbound happend.queue s.engine f rng
      fun pending x hcarried hannounced => ⟨x, ?_, hcarried⟩
    rw [announcesIn_append]
    exact List.mem_append_right _ (mem_announcesIn_singleton rfl hannounced)
  | takePending now =>
    refine ⟨happend.cached, happend.queue.takePending now, fun entry hentry => ?_⟩
    rcases List.mem_append.mp hentry with hentry | hentry
    · exact happend.taken entry hentry
    · exact happend.queue.taken hentry
  | verify key now rng => exact happend.verify ..
  | registerInterface _ | deregisterInterface _ | registerDestination _ _ | deregisterDestination _ =>
    exact ⟨happend.cached, happend.queue, happend.taken⟩
  | cullSignatures now =>
    exact ⟨fun key hkey => happend.cached key (contains_cull hkey), happend.queue, happend.taken⟩

end

/-- In every run from a fresh engine in which no two announces with one destination and signature
have different content, every frame reports and stores only the announce it carries, and only if
that announce validates. -/
theorem announces_authentic (P : Primitives) (config : TransportConfig) (queueMaxEntries : ℕ)
    (events : List Event)
    (hfree : (machine P).Meets (fun past _ event => CollisionFree P past event) []
      (new config queueMaxEntries) events)
    (hsame : (machine P).Meets (fun past _ event => SameContent P past event) []
      (new config queueMaxEntries) events) :
    (machine P).Meets (fun _ s event => Authentic P s event) [] (new config queueMaxEntries)
      events := by
  have hboth := hfree.and hsame
  refine Machine.Meets.of_invariant (I := Invariant P) _ (fun past s event h _ => h.step event)
    (fun past s event h hok => h.authentic hok.1 hok.2) (invariant_new ..) hboth

/-- Primitives to run announces with: the last bytes of the data are its hash, and a signature is
good if its last byte is that of the message. -/
def lastBytes : Primitives :=
  { Primitives.sample with
    sha256 := fun data => Bytes.fixed 32 data (data.length - 32)
    ed25519Verify := fun _ sig msg => msg.getLast? = some sig[63] }

/-- An announce that is checked at once, and another one that goes through the queue and the
verifier. -/
def sampleEvents : List Event :=
  [.frame (sampleFrame 7 0 1 1 [] 100) 0,
    .queuedFrame (sampleFrame 9 0 2 2 [] 120) 0, .takePending 130,
    .verify ⟨.replicate 16 0, ⟨#[0, 0, 0, 0, 0, 0, 0, 0, 0, 2], rfl⟩, .replicate 16 9⟩ 140 0]

theorem announces_authentic_sample :
    (machine lastBytes).Meets (fun _ s event => Authentic lastBytes s event) []
      (new TransportEngine.sampleConfig 8) sampleEvents :=
  announces_authentic lastBytes TransportEngine.sampleConfig 8 sampleEvents
    (by decide +kernel) (by decide +kernel)

/-! ### A signature with other content -/

/-- An announce that validates, and one with its destination and signature but another random
hash, which does not. -/
def tamperedEvents : List Event :=
  [.frame (sampleFrame 7 0 1 1 [] 100) 0,
    .frame (sampleFrame 7 0 2 1 [] 200) 0]

/-- The second announce is reported although it does not validate. -/
theorem tampered_announce_reported : ¬(machine lastBytes).Meets
    (fun _ s event => Authentic lastBytes s event) [] (new TransportEngine.sampleConfig 8)
    tamperedEvents := by
  rintro ⟨-, hsecond, -⟩
  obtain ⟨a, hcarried, hvalid⟩ := hsecond _ rfl (.replicate 16 0) (.inl (by decide +kernel))
  have hinvalid : ∀ x ∈ (TransportEngine.sampleFrame 7 0 2 1 [] 200).announced lastBytes,
      ¬x.2.Validates lastBytes x.1 := by
    decide +kernel
  exact hinvalid _ hcarried hvalid

end Node

end Rns.Transport
