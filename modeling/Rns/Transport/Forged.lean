import Rns.Transport.Capacity

/-!
# Forged announces and counters

An announce whose destination and signature are remembered is not checked, one on its way to the queue
counts as a rebroadcast before it is checked, and hop counts and the count of heard rebroadcasts are
single bytes.
-/

namespace Rns.Transport

open Std
open PacketType (announce)
open RawPacket (unpack)

/-! ## Counters -/

/-- A counter that goes up by one: its value, and the greatest one it can hold. -/
structure Increment where
  value : ℕ
  greatest : ℕ
  deriving DecidableEq

def Increment.Fits (i : Increment) : Prop := i.value < i.greatest

instance (i : Increment) : Decidable i.Fits := inferInstanceAs (Decidable (_ < _))

namespace TransportEngine

variable (P : Primitives)

variable (e : TransportEngine) (packet : RawPacket) (frame : InboundFrame) (ctx : InboundPacketCtx)

/-- `prepare_inbound_packet` counts the hop. -/
def hopIncrements : List Increment :=
  match unpack P frame.raw with
  | .error _ => []
  | .ok packet => [⟨packet.hops.toNat, 255⟩]

def Counts (entry : AnnounceEntry) (packet : RawPacket) : Prop :=
  packet.hops ≠ 0 ∧ packet.hops - 1 = entry.hops

instance (entry : AnnounceEntry) (packet : RawPacket) : Decidable (Counts entry packet) :=
  inferInstanceAs (Decidable (_ ∧ _))

def waiting : Option AnnounceEntry :=
  if packet.transportId.isSome ∧ e.config.transportEnabled then
    e.announceTable[packet.destinationHash]?
  else none

/-- `announce_received_from` counts the rebroadcast, and compares with one hop more. -/
def hearIncrements : List Increment :=
  match e.waiting packet with
  | none => []
  | some entry => (if Counts entry packet then [⟨entry.localRebroadcasts.toNat, 255⟩] else []) ++
      [⟨entry.hops.toNat, 255⟩]

/-- `check_and_update` counts an announce that comes too soon. -/
def rateIncrements (ctx : VerifiedAnnounceCtx) : List Increment :=
  if ctx.isPathResponse then []
  else match e.interfaces[ctx.iface]?.bind InterfaceInfo.announceRateTarget,
      e.rateLimiter[ctx.packet.destinationHash]? with
    | some rateTarget, some entry =>
      if ctx.now > entry.blockedUntil ∧ ctx.now - entry.last < rateTarget then
        [⟨entry.rateViolations.toNat, 2 ^ 32 - 1⟩]
      else []
    | _, _ => []

/-- `enforce_path_destination_cap` counts every destination it drops. -/
def evictIncrements (destHash : Hash16) (now : ℚ) : List Increment :=
  if e.pathTable.contains destHash then []
  else
    let after := (e.enforcePathDestinationCap now).pathDestinationCapEvictCount
    (List.range' e.pathDestinationCapEvictCount (after - e.pathDestinationCapEvictCount)).map
      (⟨·, usizeMax⟩)

def verifiedIncrements (ctx : VerifiedAnnounceCtx) : List Increment :=
  if e.Accepts ctx then
    e.rateIncrements ctx ++ e.evictIncrements ctx.packet.destinationHash ctx.now
  else []

def processIncrements (a : AnnounceData) (validated : ValidatedAnnounce) : List Increment :=
  e.hearIncrements ctx.packet ++ (e.readyFor P ctx a).verifiedIncrements
    (verifiedCtx ctx validated (sender ctx.packet) a.randomHash)

/-- The counters of an announce that is processed at once. -/
def announceIncrements : List Increment :=
  if ctx.packet.flags.destinationType ≠ DestinationType.single then []
  else match announceOf ctx.packet with
  | none => []
  | some a =>
    if (e.ingress ctx).2 then []
    else match verdict P e ctx a with
    | none => []
    | some validated => e.processIncrements P ctx a validated

/-- The counters of an announce on its way to the queue. -/
def queuedAnnounceIncrements : List Increment :=
  if ctx.packet.flags.destinationType ≠ DestinationType.single then []
  else match announceOf ctx.packet with
  | none => []
  | some a =>
    if e.localDestinations.contains ctx.packet.destinationHash ∨ (e.ingress ctx).2 ∨
        NeedsQueue P e ctx a then e.hearIncrements ctx.packet
    else match verdict P e ctx a with
    | none => e.hearIncrements ctx.packet
    | some validated => e.processIncrements P ctx a validated

/-- The counters that handling a frame raises. -/
def frameIncrements (queued : Bool) : List Increment :=
  hopIncrements P frame ++ match e.prepareInboundPacket P frame with
    | none => []
    | some ctx =>
      if ctx.packet.flags.packetType = announce then
        let e := e.rememberInboundPacketHash ctx.packet
        if queued then e.queuedAnnounceIncrements P ctx else e.announceIncrements P ctx
      else []

/-! ## When it goes well -/

/-- The packet makes the waiting entry count a rebroadcast, or go. -/
def Heeds (now : ℚ) : Prop :=
  match e.waiting packet with
  | none => False
  | some entry => Counts entry packet ∨ packet.hops ≠ 0 ∧ packet.hops - 1 = entry.hops + 1 ∧
      entry.retries > 0 ∧ now < entry.retransmitTimeout

instance (e : TransportEngine) (packet : RawPacket) (now : ℚ) : Decidable (e.Heeds packet now) := by
  unfold Heeds
  split <;> infer_instance

def HasRoom (destHash : Hash16) : Prop :=
  e.rateLimiter[destHash]?.all (·.rateViolations.toNat < 2 ^ 32 - 1) ∧
    e.pathDestinationCapEvictCount + e.pathTable.size ≤ usizeMax

instance (e : TransportEngine) (destHash : Hash16) : Decidable (e.HasRoom destHash) :=
  inferInstanceAs (Decidable (_ ∧ _))

/-- An announce in its packet: it does not count over the limit, there is room, and if it is forged its
signature is not remembered and, on its way to the queue, it is not taken for a rebroadcast. -/
def AnnounceCareful (a : AnnounceData) (queued : Bool) : Prop :=
  e.HasRoom ctx.packet.destinationHash ∧
    (e.waiting ctx.packet).all (fun entry => ¬Counts entry ctx.packet ∨ entry.localRebroadcasts ≠ 255) ∧
    ((a.validate P ctx.packet.destinationHash).toOption = none →
      ¬e.announceSigCache.contains (cacheKey P ctx a) ∧ (queued → ¬e.Heeds ctx.packet ctx.now))

instance (e : TransportEngine) (ctx : InboundPacketCtx) (a : AnnounceData) (queued : Bool) :
    Decidable (e.AnnounceCareful P ctx a queued) :=
  inferInstanceAs (Decidable (_ ∧ _ ∧ (_ → _)))

def FrameCareful (queued : Bool) : Prop :=
  (∀ packet ∈ (unpack P frame.raw).toOption, packet.hops ≠ 255) ∧
    ∀ ctx ∈ e.prepareInboundPacket P frame, ctx.packet.flags.packetType = announce →
      ∀ a ∈ announceOf ctx.packet, e.AnnounceCareful P ctx a queued

instance (e : TransportEngine) (frame : InboundFrame) (queued : Bool) :
    Decidable (e.FrameCareful P frame queued) :=
  inferInstanceAs (Decidable (_ ∧ ∀ ctx ∈ e.prepareInboundPacket P frame, _ → ∀ a ∈ _, _))

/-! ## Tables -/

/-- The tables that announces are for. -/
structure SameTables (e e' : TransportEngine) : Prop where
  pathTable : e'.pathTable = e.pathTable
  announceTable : e'.announceTable = e.announceTable
  heldAnnounces : e'.heldAnnounces = e.heldAnnounces

section

variable {P} {e : TransportEngine} {frame : InboundFrame} {ctx : InboundPacketCtx} {a : AnnounceData}

theorem heardTable_of_not_heeds {packet : RawPacket} {now : ℚ} (h : ¬e.Heeds packet now) :
    e.heardTable packet now = e.announceTable := by
  unfold Heeds waiting at h
  unfold heardTable
  split_ifs at h ⊢ with hlistens
  · unfold heardRebroadcast
    cases hentry : e.announceTable[packet.destinationHash]? with
    | none => simp only [hentry]
    | some entry =>
      simp only [hentry, not_or] at h
      have hcount : ¬(packet.hops ≠ 0 ∧ packet.hops - 1 = entry.hops) := h.1
      simp only [if_neg hcount, hentry, if_neg h.2]
  · rfl

theorem verdict_eq_none (hremembered : ¬e.announceSigCache.contains (cacheKey P ctx a))
    (hvalidate : (a.validate P ctx.packet.destinationHash).toOption = none) :
    verdict P e ctx a = none := by
  rw [verdict, if_neg hremembered, hvalidate]

theorem sameTables_processInboundAnnounce (rng : UInt64) (hforged : ∀ a ∈ announceOf ctx.packet,
      (a.validate P ctx.packet.destinationHash).toOption = none ∧
        ¬e.announceSigCache.contains (cacheKey P ctx a)) :
    e.SameTables (e.processInboundAnnounce P ctx rng).1 :=
  processInboundAnnounce_cases (motive := fun result => e.SameTables result.1) rng ⟨rfl, rfl, rfl⟩
    ⟨rfl, rfl, rfl⟩ fun a _ ha hverdict => by
      rw [verdict_eq_none (hforged a ha).2 (hforged a ha).1] at hverdict
      cases hverdict

theorem sameTables_tryEnqueueAnnounce (rng : UInt64) (queue : AnnounceVerifyQueue)
    (hforged : ∀ a ∈ announceOf ctx.packet,
      (a.validate P ctx.packet.destinationHash).toOption = none ∧
        ¬e.announceSigCache.contains (cacheKey P ctx a) ∧ ¬e.Heeds ctx.packet ctx.now) :
    e.SameTables (e.tryEnqueueAnnounce P ctx rng queue).1 := by
  cases ha : announceOf ctx.packet with
  | none =>
    simp only [tryEnqueueAnnounce, ha, ite_self]
    exact ⟨rfl, rfl, rfl⟩
  | some a =>
    obtain ⟨hvalidate, hremembered, hheeds⟩ := hforged a ha
    have hheard := heardTable_of_not_heeds hheeds
    refine tryEnqueueAnnounce_cases (motive := fun result => e.SameTables result.1) rng queue
      ⟨rfl, rfl, rfl⟩ ⟨rfl, hheard, rfl⟩ ⟨rfl, hheard, rfl⟩ (fun _ _ => ⟨rfl, hheard, rfl⟩)
      fun a' _ ha' hverdict => ?_
    obtain rfl := Option.some.inj (ha.symm.trans ha')
    rw [verdict_eq_none hremembered hvalidate] at hverdict
    cases hverdict

end

end TransportEngine

/-- An announce frame whose content does not pass `validate` for its destination. -/
def InboundFrame.Forged (P : Primitives) (frame : InboundFrame) : Prop :=
  ∃ packet, unpack P frame.raw = .ok packet ∧
    packet.flags.packetType = announce ∧
    ∀ destHash a, frame.announced P = some (destHash, a) → ¬a.Validates P destHash

theorem toOption_validate_eq_none_iff {P : Primitives} {a : AnnounceData} {destHash : Hash16} :
    (a.validate P destHash).toOption = none ↔ ¬a.Validates P destHash := by
  unfold AnnounceData.Validates
  cases a.validate P destHash with
  | error | ok => simp [Except.toOption]

instance (P : Primitives) (frame : InboundFrame) : Decidable (frame.Forged P) :=
  decidable_of_iff (∃ packet ∈ (unpack P frame.raw).toOption,
      packet.flags.packetType = announce ∧
      ∀ x ∈ frame.announced P, (x.2.validate P x.1).toOption = none) (by
    unfold InboundFrame.Forged
    refine exists_congr fun packet => and_congr ?_ (and_congr_right fun _ => ?_)
    · cases unpack P frame.raw <;> simp [Except.toOption]
    · simp only [toOption_validate_eq_none_iff]
      exact ⟨fun h destHash a ha => h (destHash, a) ha, fun h x hx => h x.1 x.2 hx⟩)

namespace TransportEngine

variable {P : Primitives} {e : TransportEngine} {frame : InboundFrame} {ctx : InboundPacketCtx}

theorem toOption_validate_of_forged (hforged : frame.Forged P)
    (hprepare : e.prepareInboundPacket P frame = some ctx) :
    ctx.packet.flags.packetType = announce ∧ ∀ a ∈ announceOf ctx.packet,
      (a.validate P ctx.packet.destinationHash).toOption = none := by
  obtain ⟨packet, hunpack, htype, hnot⟩ := hforged
  obtain rfl := prepareInboundPacket_eq_some hunpack hprepare
  refine ⟨htype, fun a ha => ?_⟩
  have ha' : announceOf packet = some a := ha
  have hannounced : frame.announced P = some (packet.destinationHash, a) := by
    simp only [InboundFrame.announced, hunpack, if_pos htype, ha', Option.map_some]
  exact toOption_validate_eq_none_iff.mpr (hnot _ a hannounced)

theorem sameTables_of_forged (hforged : frame.Forged P) (queue : Option AnnounceVerifyQueue)
    (hcareful : e.FrameCareful P frame queue.isSome) (rng : UInt64) :
    e.SameTables (e.handleInboundWithAnnounceQueue P frame rng queue).1 := by
  cases hprepare : e.prepareInboundPacket P frame with
  | none =>
    rw [handleInboundWithAnnounceQueue, hprepare]
    exact ⟨rfl, rfl, rfl⟩
  | some ctx =>
    obtain ⟨htype, hvalidate⟩ := toOption_validate_of_forged hforged hprepare
    have hannounce := hcareful.2 ctx hprepare htype
    obtain ⟨packetHashlist, heq⟩ := rememberInboundPacketHash_eq ..
    have hremembered : ∀ a ∈ announceOf ctx.packet, ¬e.announceSigCache.contains (cacheKey P ctx a) :=
      fun a ha => ((hannounce a ha).2.2 (hvalidate a ha)).1
    cases queue with
    | none =>
      rw [handleInbound_announce_now hprepare htype, heq]
      let e' : TransportEngine := { e with packetHashlist }
      have hsame : e'.SameTables (e'.processInboundAnnounce P ctx rng).1 :=
        sameTables_processInboundAnnounce rng fun a ha => ⟨hvalidate a ha, hremembered a ha⟩
      exact ⟨hsame.pathTable, hsame.announceTable, hsame.heldAnnounces⟩
    | some queue =>
      rw [handleInbound_announce_queued hprepare htype, heq]
      let e' : TransportEngine := { e with packetHashlist }
      have hsame : e'.SameTables (e'.tryEnqueueAnnounce P ctx rng queue).1 :=
        sameTables_tryEnqueueAnnounce rng queue fun a ha => ⟨hvalidate a ha, hremembered a ha,
          ((hannounce a ha).2.2 (hvalidate a ha)).2 rfl⟩
      exact ⟨hsame.pathTable, hsame.announceTable, hsame.heldAnnounces⟩

/-! ## No overflow -/

theorem evictCount_enforcePathDestinationCap_le (e : TransportEngine) (now : ℚ) :
    (e.enforcePathDestinationCap now).pathDestinationCapEvictCount ≤
      e.pathDestinationCapEvictCount + e.pathTable.size := by
  unfold enforcePathDestinationCap
  split_ifs
  · exact Nat.le_add_right _ _
  · dsimp only
    rw [evictDestinations_eq_evictWhile]
    let bounded (e' : TransportEngine) : Prop :=
      e'.pathDestinationCapEvictCount + e'.pathTable.size ≤
        e.pathDestinationCapEvictCount + e.pathTable.size
    have hstart : bounded { e with pathTable := cullPathTable e.pathTable e.interfaces now } := by
      have hless : (cullPathTable e.pathTable e.interfaces now).size ≤ e.pathTable.size := by
        unfold cullPathTable
        exact ExtTreeMap.size_filter_le_size.trans ExtTreeMap.size_map.le
      exact Nat.add_le_add_left hless _
    have hdrop : ∀ e₁ e₂ : TransportEngine, bounded e₁ → e₁.dropDestination = some e₂ →
        bounded e₂ := by
      intro e₁ e₂ h hdrop
      have hless := size_dropDestination e₁ e₂ hdrop
      obtain ⟨d, -, rfl⟩ := Option.map_eq_some_iff.mp hdrop
      dsimp only [bounded] at h hless ⊢
      omega
    exact (Nat.le_add_right _ _).trans (evictWhile_keeps Crowded hdrop _ hstart)

theorem fits_evictIncrements {d : Hash16} (h : e.HasRoom d) (now : ℚ) :
    ∀ i ∈ e.evictIncrements d now, i.Fits := by
  intro i hi
  unfold evictIncrements at hi
  split_ifs at hi
  · cases hi
  · obtain ⟨value, hvalue, rfl⟩ := List.mem_map.mp hi
    have hle := evictCount_enforcePathDestinationCap_le e now
    have hroom := h.2
    rw [List.mem_range'_1] at hvalue
    change value < usizeMax
    omega

section

variable {ctx : VerifiedAnnounceCtx} (h : e.HasRoom ctx.packet.destinationHash)
include h

theorem fits_rateIncrements : ∀ i ∈ e.rateIncrements ctx, i.Fits := by
  intro i hi
  unfold rateIncrements at hi
  split_ifs at hi
  · cases hi
  · split at hi
    · next rateTarget entry _ hentry =>
      have hroom := h.1
      rw [hentry, Option.all_some, decide_eq_true_eq] at hroom
      split_ifs at hi
      · rw [List.mem_singleton.mp hi]
        exact hroom
      · cases hi
    · cases hi

theorem fits_verifiedIncrements : ∀ i ∈ e.verifiedIncrements ctx, i.Fits := by
  intro i hi
  unfold verifiedIncrements at hi
  split_ifs at hi
  · rcases List.mem_append.mp hi with hi | hi
    · exact fits_rateIncrements h i hi
    · exact fits_evictIncrements h ctx.now i hi
  · cases hi

end

theorem fits_hearIncrements {packet : RawPacket} (hnear : AllIn Near e.announceTable)
    (hcounts : (e.waiting packet).all
      (fun entry => ¬Counts entry packet ∨ entry.localRebroadcasts ≠ 255)) :
    ∀ i ∈ e.hearIncrements packet, i.Fits := by
  intro i hi
  unfold hearIncrements at hi
  cases hwaiting : e.waiting packet with
  | none => simp [hwaiting] at hi
  | some entry =>
    rw [hwaiting, Option.all_some, decide_eq_true_eq] at hcounts
    have hentry : Near entry := by
      unfold waiting at hwaiting
      split_ifs at hwaiting
      exact hnear _ entry hwaiting
    simp only [hwaiting, List.mem_append, List.mem_singleton] at hi
    rcases hi with hi | rfl
    · split_ifs at hi with hcount
      · rw [List.mem_singleton.mp hi]
        have hne : entry.localRebroadcasts.toNat ≠ 255 := fun heq =>
          (hcounts.resolve_left (not_not.mpr hcount)) (UInt8.toNat_inj.mp heq)
        have hlt := entry.localRebroadcasts.toNat_lt
        change entry.localRebroadcasts.toNat < 255
        omega
      · cases hi
    · have hhops : entry.hops.toNat ≤ 128 := UInt8.le_iff_toNat_le.mp hentry
      change entry.hops.toNat < 255
      omega

variable {a : AnnounceData} {queued : Bool}

section

variable (hnear : AllIn Near e.announceTable)
include hnear

theorem fits_processIncrements (h : e.AnnounceCareful P ctx a queued)
    (validated : ValidatedAnnounce) : ∀ i ∈ e.processIncrements P ctx a validated, i.Fits := by
  intro i hi
  rcases List.mem_append.mp hi with hi | hi
  · exact fits_hearIncrements hnear h.2.1 i hi
  · refine fits_verifiedIncrements ?_ i hi
    exact h.1

theorem fits_announceIncrements
    (h : ∀ a ∈ announceOf ctx.packet, e.AnnounceCareful P ctx a queued) :
    ∀ i ∈ if queued then e.queuedAnnounceIncrements P ctx else e.announceIncrements P ctx, i.Fits := by
  have hparts : ∀ a, announceOf ctx.packet = some a → (∀ i ∈ e.hearIncrements ctx.packet, i.Fits) ∧
      ∀ validated, ∀ i ∈ e.processIncrements P ctx a validated, i.Fits := fun a ha =>
    ⟨fits_hearIncrements hnear (h a ha).2.1, fits_processIncrements hnear (h a ha)⟩
  grind [announceIncrements, queuedAnnounceIncrements]

theorem fits_frameIncrements (h : e.FrameCareful P frame queued) :
    ∀ i ∈ e.frameIncrements P frame queued, i.Fits := by
  intro i hi
  rcases List.mem_append.mp hi with hi | hi
  · unfold hopIncrements at hi
    cases hunpack : unpack P frame.raw with
    | error => simp [hunpack] at hi
    | ok packet =>
      have hhops := h.1 packet (by rw [hunpack]; rfl)
      rw [hunpack] at hi
      rw [List.mem_singleton.mp hi]
      have hne : packet.hops.toNat ≠ 255 := fun heq => hhops (UInt8.toNat_inj.mp heq)
      have hlt := packet.hops.toNat_lt
      change packet.hops.toNat < 255
      omega
  · cases hprepare : e.prepareInboundPacket P frame with
    | none => simp [hprepare] at hi
    | some ctx =>
      simp only [hprepare] at hi
      obtain ⟨packetHashlist, heq⟩ := rememberInboundPacketHash_eq ..
      rw [heq] at hi
      split at hi
      · next htype =>
        exact fits_announceIncrements (e := { e with packetHashlist }) hnear (h.2 ctx hprepare htype) i hi
      · cases hi

end

end TransportEngine

/-! ## Runs -/

namespace Relay

open TransportEngine

variable (P : Primitives)

/-- The counters that an event raises; what ingress control has held back is not among it. -/
def increments (s : Relay) : Event → List Increment
  | .node (.frame frame _) => s.engine.frameIncrements P frame false
  | .node (.queuedFrame frame _) => s.engine.frameIncrements P frame true
  | .node (.verify key now _) => match s.completed P key with
    | none => []
    | some (pending, validated, sigKey) => (s.engine.rememberSignature sigKey now).verifiedIncrements
        (pendingCtx pending validated now)
  | _ => []

/-- A forged announce leaves the tables as they are, when it comes in and when its verification
fails. -/
def ForgedHarmless (s : Relay) (event : Event) : Prop :=
  let e' := ((machine P).step s event).1.engine
  match event with
  | .node (.frame frame _) | .node (.queuedFrame frame _) => frame.Forged P → s.engine.SameTables e'
  | .node (.verify key _ _) =>
    (∀ taken ∈ s.taken.find? (·.1 = key), ∀ a ∈ announceOf taken.2.packet,
      ¬a.Validates P taken.2.packet.destinationHash) → s.engine.SameTables e'
  | _ => True

def NoOverflow (s : Relay) (event : Event) : Prop := ∀ i ∈ s.increments P event, i.Fits

/-- What every event has to meet. -/
def Careful (s : Relay) : Event → Prop
  | .node (.frame frame _) => s.engine.FrameCareful P frame false
  | .node (.queuedFrame frame _) => s.engine.FrameCareful P frame true
  | .node (.verify key _ _) => ∀ done ∈ s.completed P key,
      s.engine.HasRoom done.1.packet.destinationHash
  | _ => True

instance (s : Relay) (event : Event) : Decidable (s.Careful P event) := by
  unfold Careful
  split <;> infer_instance

variable {P} {s : Relay}

theorem engine_verify_of_failure {key : AnnounceVerifyKey} (now : ℚ) (rng : UInt64)
    (h : ∀ taken ∈ s.taken.find? (·.1 = key), ∀ a ∈ announceOf taken.2.packet,
      ¬a.Validates P taken.2.packet.destinationHash) :
    (s.toNode.verify P key now rng).1.engine = s.engine := by
  have hnone : s.completed P key = none := by
    unfold Node.completed
    cases hfind : s.taken.find? (·.1 = key) with
    | none => rfl
    | some taken =>
      dsimp only
      cases ha : announceOf taken.2.packet with
      | none => rfl
      | some a =>
        dsimp only
        cases hvalidate : a.validate P taken.2.packet.destinationHash with
        | error => rfl
        | ok validated => exact absurd ⟨validated, hvalidate⟩ (h taken hfind a ha)
  rw [Node.engine_verify, hnone]

theorem forgedHarmless_of_careful {event : Event} (h : s.Careful P event) :
    s.ForgedHarmless P event := by
  cases event with
  | node event =>
    cases event with
    | frame frame rng => exact fun hforged => sameTables_of_forged hforged none h rng
    | queuedFrame frame rng =>
      exact fun hforged => sameTables_of_forged hforged (some s.queue) h rng
    | verify key now rng =>
      intro hfails
      have hsame := engine_verify_of_failure now rng hfails
      change s.engine.SameTables (s.toNode.verify P key now rng).1.engine
      rw [hsame]
      exact ⟨rfl, rfl, rfl⟩
    | _ => trivial
  | _ => trivial

theorem noOverflow_of_careful {event : Event} (hinv : s.Invariant P) (h : s.Careful P event) :
    s.NoOverflow P event := by
  have hnear : AllIn Near s.engine.announceTable := hinv.entries.announceTable
  cases event with
  | node event =>
    cases event with
    | frame | queuedFrame => exact fits_frameIncrements hnear h
    | verify key now rng =>
      intro i hi
      simp only [increments] at hi
      cases hdone : s.completed P key with
      | none => simp [hdone] at hi
      | some done =>
        rw [hdone] at hi
        refine fits_verifiedIncrements ?_ i hi
        exact h done hdone
    | _ => exact nofun
  | _ => exact nofun

/-- In every run from a new relay whose events meet the conditions, no forged announce touches the
tables and no counter overflows. -/
theorem forged_announces_harmless (P : Primitives) (config : TransportConfig)
    (queueMaxEntries maxDiscoveryPrTags : ℕ) (heldReleaseInterval : InterfaceId → ℚ)
    (recursivePrs : InterfaceId → Bool) (events : List Event)
    (h : (machine P).Meets (fun _ s event => s.Careful P event) []
      (new config queueMaxEntries maxDiscoveryPrTags heldReleaseInterval recursivePrs) events) :
    (machine P).Meets (fun _ s event => s.ForgedHarmless P event ∧ s.NoOverflow P event) []
      (new config queueMaxEntries maxDiscoveryPrTags heldReleaseInterval recursivePrs) events := by
  refine Machine.Meets.of_invariant (machine P) (I := fun _ s => s.Invariant P)
    (fun _ s event hinv _ => hinv.step event) (fun _ s event hinv hcareful => ?_)
    (invariant_new ..) h
  exact ⟨forgedHarmless_of_careful hcareful, noOverflow_of_careful hinv hcareful⟩

def fresh : Relay := new sampleConfig 8 8 (fun _ => 5) fun _ => false

/-- An announce, then forged ones, at once and through the queue; none of them is one hop behind the
first. -/
def forgedEvents : List Event :=
  [.node (.frame (sampleFrame 7 0 1 1 [] 100) 0), .node (.frame (sampleFrame 9 1 3 9 [] 101) 0),
    .node (.queuedFrame (sampleFrame 9 7 3 9 [] 102) 0)]

theorem forged_announces_harmless_sample :
    (machine Node.lastBytes).Meets (fun _ s event => s.Careful Node.lastBytes event) [] fresh
        forgedEvents ∧
      (machine Node.lastBytes).Meets (fun _ s event => s.ForgedHarmless Node.lastBytes event ∧
        s.NoOverflow Node.lastBytes event) [] fresh forgedEvents := by
  have hcareful : (machine Node.lastBytes).Meets
      (fun _ s event => s.Careful Node.lastBytes event) [] fresh forgedEvents := by
    decide +kernel
  exact ⟨hcareful, forged_announces_harmless Node.lastBytes sampleConfig 8 8 (fun _ => 5)
    (fun _ => false) forgedEvents hcareful⟩

def informed : Relay :=
  ((machine Node.lastBytes).step fresh (.node (.frame (sampleFrame 7 0 1 1 [] 100) 0))).1

/-- A forged announce that seems to be a rebroadcast is counted as one on its way to the queue; and a
frame from 255 hops away makes the hop count overflow. -/
theorem forged_announce_counts :
    ¬informed.ForgedHarmless Node.lastBytes (.node (.queuedFrame (sampleFrame 9 1 3 9 [] 101) 0)) ∧
      ¬fresh.NoOverflow Node.lastBytes (.node (.frame (sampleFrame 7 255 1 1 [] 100) 0)) := by
  constructor
  · intro h
    have hforged : (sampleFrame 9 1 3 9 [] 101).Forged Node.lastBytes := by decide +kernel
    have hsame := (h hforged).announceTable
    have hbefore : heardCount informed.engine = some 0 := by decide +kernel
    have hafter : heardCount ((machine Node.lastBytes).step informed
        (.node (.queuedFrame (sampleFrame 9 1 3 9 [] 101) 0))).1.engine = some 1 := by decide +kernel
    rw [heardCount, hsame] at hafter
    exact absurd (hbefore.symm.trans hafter) (by decide)
  · unfold NoOverflow
    decide +kernel

end Relay

end Rns.Transport
