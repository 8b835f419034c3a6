import Rns.Transport.Authenticity
import Rns.Transport.Retention

/-!
# The hop limit

An announce over the limit `PATHFINDER_M` is to leave no path and nothing to rebroadcast.  The hop byte
wraps, so a packet with the hop byte 255 counts as one that did not travel at all.
-/

namespace Rns.Transport

variable (e : TransportEngine) (packet : RawPacket)

variable {pending : PendingAnnounce} {frame : InboundFrame}

variable {rng : UInt64} {queue : Option AnnounceVerifyQueue} {key : Hash32}

namespace TransportEngine

variable {P : Primitives}

/-! ## Engines with the same paths and pending announces -/

/-- No path changed and no announce joined those to be rebroadcast.  Rebroadcasts that were heard
may count for an old one, or end it. -/
structure NothingNew (e e' : TransportEngine) : Prop where
  pathTable : e'.pathTable = e.pathTable
  announceTable : ∀ (destHash : Hash16) (entry : AnnounceEntry),
    e'.announceTable[destHash]? = some entry → ∃ old, e.announceTable[destHash]? = some old ∧
      { old with localRebroadcasts := entry.localRebroadcasts } = entry
  heldAnnounces : e'.heldAnnounces = e.heldAnnounces

namespace NothingNew

variable {e e' e'' : TransportEngine}

theorem of_tables_eq (hpaths : e'.pathTable = e.pathTable)
    (hannounces : e'.announceTable = e.announceTable)
    (hheld : e'.heldAnnounces = e.heldAnnounces) : NothingNew e e' :=
  ⟨hpaths, fun _ entry hentry => ⟨entry, hannounces ▸ hentry, rfl⟩, hheld⟩

theorem refl (e : TransportEngine) : NothingNew e e := of_tables_eq rfl rfl rfl

theorem trans (h : NothingNew e e') (h' : NothingNew e' e'') : NothingNew e e'' := by
  refine ⟨h'.pathTable.trans h.pathTable, fun destHash entry hentry => ?_,
    h'.heldAnnounces.trans h.heldAnnounces⟩
  obtain ⟨middle, hmiddle, heq'⟩ := h'.announceTable destHash entry hentry
  obtain ⟨old, hold, heq⟩ := h.announceTable destHash middle hmiddle
  refine ⟨old, hold, ?_⟩
  rw [← heq', ← heq]

end NothingNew

theorem getElem?_heardRebroadcast (table : Std.ExtTreeMap Hash16 AnnounceEntry)
    (packet : RawPacket) (now : ℚ) (destHash : Hash16) (entry : AnnounceEntry)
    (h : (heardRebroadcast table packet now)[destHash]? = some entry) :
    ∃ old : AnnounceEntry, table[destHash]? = some old ∧
      { old with localRebroadcasts := entry.localRebroadcasts } = entry := by
  rw [getElem?_heardRebroadcast_eq] at h
  split_ifs at h
  · obtain ⟨old, hold, hheard⟩ := Option.bind_eq_some_iff.mp h
    exact ⟨old, hold, AnnounceEntry.Same.of_hear hheard⟩
  · exact ⟨entry, h, rfl⟩

theorem nothingNew_heardTable (now : ℚ) :
    NothingNew e { e with announceTable := e.heardTable packet now } := by
  unfold heardTable
  split_ifs
  · exact ⟨rfl, getElem?_heardRebroadcast e.announceTable packet now, rfl⟩
  · exact .refl e

theorem nothingNew_rememberSignature {now : ℚ} : NothingNew e (e.rememberSignature key now) :=
  .of_tables_eq rfl rfl rfl

theorem nothingNew_rememberInboundPacketHash :
    NothingNew e (e.rememberInboundPacketHash packet) := by
  obtain ⟨_, heq⟩ := rememberInboundPacketHash_eq ..
  rw [heq]
  exact .of_tables_eq rfl rfl rfl

/-! ## Announces over the limit -/

theorem processVerifiedAnnounce_of_hops {ctx : VerifiedAnnounceCtx}
    (h : pathfinderM < ctx.packet.hops) {e : TransportEngine} :
    e.processVerifiedAnnounce ctx rng = (e, []) := by
  unfold processVerifiedAnnounce
  rw [if_pos h, ite_self]

variable {ctx : InboundPacketCtx}

section

variable (h : pathfinderM < ctx.packet.hops) (e : TransportEngine)
include h

theorem nothingNew_process (a : AnnounceData) (validated : ValidatedAnnounce) (rng : UInt64) :
    NothingNew e (e.process P ctx a validated rng).1 ∧ (e.process P ctx a validated rng).2 = [] := by
  rw [process, processVerifiedAnnounce_of_hops h]
  exact ⟨(nothingNew_heardTable ..).trans (.of_tables_eq rfl rfl rfl), rfl⟩

theorem nothingNew_processInboundAnnounce (rng : UInt64) :
    NothingNew e (e.processInboundAnnounce P ctx rng).1 ∧
      (e.processInboundAnnounce P ctx rng).2 = [] :=
  processInboundAnnounce_cases (motive := fun result => NothingNew e result.1 ∧ result.2 = []) rng
    ⟨.refl e, rfl⟩ ⟨.of_tables_eq rfl rfl rfl, rfl⟩
    fun _ _ _ _ => nothingNew_process h ..

theorem nothingNew_tryEnqueueAnnounce (rng : UInt64) (queue : AnnounceVerifyQueue) :
    NothingNew e (e.tryEnqueueAnnounce P ctx rng queue).1 ∧
      (e.tryEnqueueAnnounce P ctx rng queue).2.2 = [] := by
  have hheard := nothingNew_heardTable e ctx.packet ctx.now
  have hstopped : NothingNew e (e.heard ctx) := hheard.trans (.of_tables_eq rfl rfl rfl)
  exact tryEnqueueAnnounce_cases
    (motive := fun result => NothingNew e result.1 ∧ result.2.2 = []) rng queue
    ⟨.refl e, rfl⟩ ⟨hheard, rfl⟩ ⟨hstopped, rfl⟩ (fun _ _ => ⟨hstopped, rfl⟩)
    fun _ _ _ _ => nothingNew_process h ..

end

theorem nothingNew_completeVerifiedAnnounce (h : pathfinderM < pending.packet.hops)
    {e : TransportEngine} {validated : ValidatedAnnounce} {now : ℚ} :
    NothingNew e (e.completeVerifiedAnnounce pending validated key now rng).1 ∧
      (e.completeVerifiedAnnounce pending validated key now rng).2 = [] := by
  unfold completeVerifiedAnnounce
  dsimp only
  rw [processVerifiedAnnounce_of_hops h]
  exact ⟨nothingNew_rememberSignature .., rfl⟩

/-! ## Frames -/

def Waits (queue : AnnounceVerifyQueue) (pending : PendingAnnounce) : Prop :=
  ∃ (key : AnnounceVerifyKey) (entry : QueueEntry), queue.entries[key]? = some entry ∧
    entry.announce = pending

/-- Handling the frame leaves no path and nothing to rebroadcast, and what it adds to the queue
leaves none either once it is verified, whatever happened meanwhile. -/
structure Ignores (P : Primitives) (e : TransportEngine) (frame : InboundFrame) (rng : UInt64)
    (queue : Option AnnounceVerifyQueue) : Prop where
  nothingNew : NothingNew e (e.handleInboundWithAnnounceQueue P frame rng queue).1
  /-- Only a plain broadcast is bridged. -/
  actions : ∀ action ∈ (e.handleInboundWithAnnounceQueue P frame rng queue).2.2,
    ∃ raw toLocal exclude, action = .forwardPlainBroadcast raw toLocal exclude
  waiting : ∀ queue' ∈ (e.handleInboundWithAnnounceQueue P frame rng queue).2.1,
    ∀ pending, Waits queue' pending → (∃ old ∈ queue, Waits old pending) ∨
      ∀ (later : TransportEngine) (validated : ValidatedAnnounce) (key : Hash32) (now : ℚ)
        (rng : UInt64),
        NothingNew later (later.completeVerifiedAnnounce pending validated key now rng).1 ∧
          (later.completeVerifiedAnnounce pending validated key now rng).2 = []

/-- The hop count after reception is one more than on the wire, the same from a local client; and
an announce from elsewhere that has travelled `PATHFINDER_M` hops is ignored. -/
structure HopsKept (P : Primitives) (e : TransportEngine) (frame : InboundFrame)
    (packet : RawPacket) (rng : UInt64) : Prop where
  counted : (receivedHops packet.hops (e.interfaceIsLocalClient frame.iface)).toNat =
    packet.hops.toNat + if e.interfaceIsLocalClient frame.iface then 0 else 1
  ignored : packet.flags.packetType = PacketType.announce → pathfinderM ≤ packet.hops →
    ¬e.interfaceIsLocalClient frame.iface → ∀ queue, Ignores P e frame rng queue

theorem receivedHops_exact_iff (hops : UInt8) (fromLocalClient : Bool) :
    (receivedHops hops fromLocalClient).toNat = hops.toNat + (if fromLocalClient then 0 else 1) ↔
      hops ≠ 255 := by
  revert hops fromLocalClient
  decide +kernel

section

variable {e : TransportEngine} {ctx : InboundPacketCtx}

theorem bridged_bridgePlainBroadcast {action : TransportAction}
    (h : action ∈ e.bridgePlainBroadcast ctx) :
    ∃ raw toLocal exclude, action = .forwardPlainBroadcast raw toLocal exclude := by
  unfold bridgePlainBroadcast at h
  split_ifs at h
  · cases h
  · exact ⟨_, _, _, List.mem_singleton.mp h⟩
  · exact ⟨_, _, _, List.mem_singleton.mp h⟩

theorem waits_tryEnqueueAnnounce {queue : AnnounceVerifyQueue}
    (h : Waits (e.tryEnqueueAnnounce P ctx rng queue).2.1 pending) :
    Waits queue pending ∨ pending.packet = ctx.packet := by
  obtain ⟨key, entry, hentry, rfl⟩ := h
  have hall : queue.All fun pending => Waits queue pending ∨ pending.packet = ctx.packet :=
    fun key entry hentry => .inl ⟨key, entry, hentry, rfl⟩
  exact queue_tryEnqueueAnnounce hall e ctx rng (fun _ hpacket _ _ => .inr hpacket) key entry hentry

theorem ignores_of_hops (hprepare : e.prepareInboundPacket P frame = some ctx)
    (htype : ctx.packet.flags.packetType = PacketType.announce)
    (hhops : pathfinderM < ctx.packet.hops) : Ignores P e frame rng queue := by
  have hremember := nothingNew_rememberInboundPacketHash e ctx.packet
  cases queue with
  | none =>
    have hframe := handleInbound_announce_now hprepare htype rng
    generalize e.rememberInboundPacketHash ctx.packet = e₁ at hframe hremember
    obtain ⟨hnew, hactions⟩ := nothingNew_processInboundAnnounce (P := P) hhops e₁ rng
    refine ⟨?_, ?_, ?_⟩ <;> rw [hframe] <;> dsimp only
    · exact hremember.trans hnew
    · rw [hactions, List.append_nil]
      exact fun action haction => bridged_bridgePlainBroadcast haction
    · exact nofun
  | some queue =>
    have hframe := handleInbound_announce_queued hprepare htype rng queue
    generalize e.rememberInboundPacketHash ctx.packet = e₁ at hframe hremember
    obtain ⟨hnew, hactions⟩ := nothingNew_tryEnqueueAnnounce (P := P) hhops e₁ rng queue
    refine ⟨?_, ?_, ?_⟩ <;> rw [hframe] <;> dsimp only
    · exact hremember.trans hnew
    · rw [hactions, List.append_nil]
      exact fun action haction => bridged_bridgePlainBroadcast haction
    · intro queue' hqueue pending hwaits
      obtain rfl := Option.some.inj hqueue
      rcases waits_tryEnqueueAnnounce hwaits with hold | hpacket
      · exact .inl ⟨queue, rfl, hold⟩
      · exact .inr fun later validated key now rng =>
          nothingNew_completeVerifiedAnnounce (hpacket ▸ hhops) ..

end

theorem ignores_of_dropped {e : TransportEngine}
    (hprepare : e.prepareInboundPacket P frame = none) : Ignores P e frame rng queue := by
  have hframe : e.handleInboundWithAnnounceQueue P frame rng queue = (e, queue, []) := by
    rw [handleInboundWithAnnounceQueue, hprepare]
  refine ⟨?_, ?_, ?_⟩ <;> rw [hframe]
  · exact .refl e
  · simp
  · exact fun queue' hqueue pending hwaits => .inl ⟨queue', hqueue, hwaits⟩

/-- Hop counts are exact, and the limit is kept, for every hop byte but the one that wraps. -/
theorem hops_kept_iff (P : Primitives) (e : TransportEngine) (frame : InboundFrame)
    (packet : RawPacket) (hunpack : RawPacket.unpack P frame.raw = .ok packet) (rng : UInt64) :
    HopsKept P e frame packet rng ↔ packet.hops ≠ 255 := by
  constructor
  · intro h
    exact (receivedHops_exact_iff _ _).mp h.counted
  · intro hwrap
    have hexact := (receivedHops_exact_iff packet.hops
      (e.interfaceIsLocalClient frame.iface)).mpr hwrap
    refine ⟨hexact, fun htype hlimit hlocal queue => ?_⟩
    cases hprepare : e.prepareInboundPacket P frame with
    | none => exact ignores_of_dropped hprepare ..
    | some ctx =>
      obtain rfl := prepareInboundPacket_eq_some hunpack hprepare
      refine ignores_of_hops hprepare htype ?_ ..
      rw [if_neg hlocal] at hexact
      rw [UInt8.le_iff_toNat_le] at hlimit
      rw [UInt8.lt_iff_toNat_lt, hexact]
      omega

section Example

theorem unpack_of_hops {raw : Bytes} {hops : UInt8}
    (h : (RawPacket.unpack .sample raw).toOption.map RawPacket.hops = some hops) :
    ∃ packet, RawPacket.unpack .sample raw = .ok packet ∧ packet.hops = hops := by
  cases hunpack : RawPacket.unpack .sample raw with
  | error => simp [hunpack, Except.toOption] at h
  | ok packet => exact ⟨packet, rfl, by simpa [hunpack, Except.toOption] using h⟩

/-- An announce over two hundred hops: it counts one more and is ignored. -/
theorem hops_kept_far : ∃ packet : RawPacket,
    RawPacket.unpack .sample (sampleFrame 7 200 1 0 [] 100).raw = .ok packet ∧
      HopsKept .sample (new sampleConfig) (sampleFrame 7 200 1 0 [] 100) packet 0 := by
  obtain ⟨packet, hunpack, hhops⟩ := unpack_of_hops
    (show ((RawPacket.unpack .sample (sampleFrame 7 200 1 0 [] 100).raw).toOption.map
      RawPacket.hops = some 200) by decide +kernel)
  exact ⟨packet, hunpack, (hops_kept_iff _ _ _ packet hunpack 0).mpr (by rw [hhops]; decide)⟩

/-- An announce with the hop byte 255 makes a path of no hops, and waits to be rebroadcast. -/
theorem wrapped_hops_make_path :
    (∃ packet : RawPacket,
      RawPacket.unpack .sample (sampleFrame 7 255 1 0 [] 100).raw = .ok packet ∧
        packet.hops = 255 ∧ receivedHops packet.hops false = 0 ∧
        ¬HopsKept .sample (new sampleConfig) (sampleFrame 7 255 1 0 [] 100) packet 0) ∧
      let e := ((new sampleConfig).handleInbound .sample (sampleFrame 7 255 1 0 [] 100) 0).1
      (e.pathsTo (.replicate 16 0)).map PathEntry.hops = [0] ∧
        e.announceTable.contains (.replicate 16 0) := by
  obtain ⟨packet, hunpack, hhops⟩ := unpack_of_hops
    (show ((RawPacket.unpack .sample (sampleFrame 7 255 1 0 [] 100).raw).toOption.map
      RawPacket.hops = some 255) by decide +kernel)
  refine ⟨⟨packet, hunpack, hhops, by rw [hhops]; decide, fun h => ?_⟩, by decide +kernel⟩
  exact (receivedHops_exact_iff _ _).mp h.counted hhops

end Example

end TransportEngine

end Rns.Transport
