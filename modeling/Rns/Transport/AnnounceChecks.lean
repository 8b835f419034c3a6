import Rns.Transport.Inbound

/-!
# The checks of an announce

An announce is verified and processed when its frame is handled, or it is put into the queue.  The two
ways make the same checks in another order; both are brought into one form here, with a rule for each
that lists how it can end.
-/

namespace Rns.Transport

namespace TransportEngine

variable {P : Primitives} {e : TransportEngine} {ctx : InboundPacketCtx} {a : AnnounceData}

def sender (packet : RawPacket) : Hash16 := packet.transportId.getD packet.destinationHash

/-- The announces to retransmit after the packet was heard. -/
def heardTable (e : TransportEngine) (packet : RawPacket) (now : ℚ) :
    Std.ExtTreeMap Hash16 AnnounceEntry :=
  if packet.transportId.isSome ∧ e.config.transportEnabled then
    heardRebroadcast e.announceTable packet now
  else e.announceTable

def ingress (e : TransportEngine) (ctx : InboundPacketCtx) : IngressControl × Bool :=
  let held := e.shouldHoldAnnounce ctx.packet ctx.originalRaw ctx.iface ctx.now
  (held.1.ingressControl, held.2)

def cacheKey (P : Primitives) (ctx : InboundPacketCtx) (a : AnnounceData) : Hash32 :=
  announceSigCacheKey P ctx.packet.destinationHash a.signature

def verdict (P : Primitives) (e : TransportEngine) (ctx : InboundPacketCtx) (a : AnnounceData) :
    Option ValidatedAnnounce :=
  if e.announceSigCache.contains (cacheKey P ctx a) then some (a.toValidatedUnchecked P)
  else (a.validate P ctx.packet.destinationHash).toOption

/-- The engine when the announce comes to be processed. -/
def readyFor (P : Primitives) (e : TransportEngine) (ctx : InboundPacketCtx) (a : AnnounceData) :
    TransportEngine :=
  { e with
    announceTable := e.heardTable ctx.packet ctx.now
    ingressControl := (e.ingress ctx).1
    announceSigCache := e.announceSigCache.insert (cacheKey P ctx a) ctx.now }

theorem announceReceivedFrom_eq (e : TransportEngine) (packet : RawPacket) (now : ℚ) :
    e.announceReceivedFrom packet now =
      ({ e with announceTable := e.heardTable packet now }, sender packet) := by
  unfold announceReceivedFrom heardTable sender
  cases packet.transportId with
  | none => simp
  | some transportId => split_ifs with henabled <;> simp_all

theorem shouldHoldAnnounce_eq (e : TransportEngine) (ctx : InboundPacketCtx) :
    e.shouldHoldAnnounce ctx.packet ctx.originalRaw ctx.iface ctx.now =
      ({ e with ingressControl := (e.ingress ctx).1 }, (e.ingress ctx).2) := by
  obtain ⟨ingressControl, heq⟩ :=
    shouldHoldAnnounce_fst e ctx.packet ctx.originalRaw ctx.iface ctx.now
  have hfst : (e.ingress ctx).1 = ingressControl := by rw [ingress, heq]
  rw [hfst, ← heq]
  rfl

/-- Whether an announce is held depends on neither the announces to retransmit nor the packets
seen. -/
theorem ingress_congr (e : TransportEngine) (ctx : InboundPacketCtx)
    (announceTable : Std.ExtTreeMap Hash16 AnnounceEntry) (packetHashlist : PacketHashlist) :
    { e with announceTable, packetHashlist }.ingress ctx = e.ingress ctx := by
  unfold ingress shouldHoldAnnounce
  have hpath : { e with announceTable, packetHashlist }.hasPath ctx.packet.destinationHash =
    e.hasPath ctx.packet.destinationHash := rfl
  dsimp only
  rw [hpath]
  by_cases hknown : e.hasPath ctx.packet.destinationHash ∨
      e.discoveryPathRequests.contains ctx.packet.destinationHash
  · rw [if_pos hknown, if_pos hknown]
  · rw [if_neg hknown, if_neg hknown]
    cases e.interfaces[ctx.iface]? with
    | none => rfl
    | some info =>
      dsimp only
      split_ifs <;> rfl

theorem extractRandomBlob_of_announceOf {packet : RawPacket} (h : announceOf packet = some a) :
    extractRandomBlob packet.data = some a.randomHash := by
  unfold announceOf AnnounceData.unpack at h
  generalize (packet.flags.contextFlag = flagSet : Bool) = hasRatchet at h
  dsimp only at h
  have hlong : ¬packet.data.length <
      if hasRatchet then 64 + 10 + 10 + 32 + 64 else 64 + 10 + 10 + 64 := by
    intro hshort
    rw [if_pos hshort] at h
    exact Option.some_ne_none a h.symm
  rw [if_neg hlong] at h
  have hblob : ¬packet.data.length < 64 + 10 + 10 := by split_ifs at hlong <;> omega
  rw [extractRandomBlob, if_neg hblob, ← Option.some.inj h]

theorem processWithBlob_eq (ha : announceOf ctx.packet = some a) (e : TransportEngine)
    (validated : ValidatedAnnounce) (receivedFrom : Hash16) (rng : UInt64) :
    e.processWithBlob ctx validated receivedFrom rng =
      e.processVerifiedAnnounce (verifiedCtx ctx validated receivedFrom a.randomHash) rng := by
  rw [processWithBlob, extractRandomBlob_of_announceOf ha]

def process (P : Primitives) (e : TransportEngine) (ctx : InboundPacketCtx) (a : AnnounceData)
    (validated : ValidatedAnnounce) (rng : UInt64) : TransportEngine × List TransportAction :=
  (e.readyFor P ctx a).processVerifiedAnnounce
    (verifiedCtx ctx validated (sender ctx.packet) a.randomHash) rng

theorem processInboundAnnounce_eq
    (hsingle : ctx.packet.flags.destinationType = DestinationType.single)
    (ha : announceOf ctx.packet = some a) (e : TransportEngine) (rng : UInt64) :
    e.processInboundAnnounce P ctx rng =
      if (e.ingress ctx).2 then ({ e with ingressControl := (e.ingress ctx).1 }, [])
      else match verdict P e ctx a with
      | none => ({ e with ingressControl := (e.ingress ctx).1 }, [])
      | some validated => e.process P ctx a validated rng := by
  unfold processInboundAnnounce
  dsimp only
  rw [if_neg (not_not.mpr hsingle), ha]
  dsimp only
  rw [shouldHoldAnnounce_eq]
  cases (e.ingress ctx).2 with
  | true => rfl
  | false =>
    dsimp only
    rw [if_neg Bool.false_ne_true]
    have hfrom (e' : TransportEngine) (validated : ValidatedAnnounce) :
        (let received := e'.announceReceivedFrom ctx.packet ctx.now
        received.1.processWithBlob ctx validated received.2 rng) =
          { e' with announceTable := e'.heardTable ctx.packet ctx.now }.processVerifiedAnnounce
            (verifiedCtx ctx validated (sender ctx.packet) a.randomHash) rng := by
      rw [announceReceivedFrom_eq]
      exact processWithBlob_eq ha ..
    unfold verdict
    by_cases hcached : e.announceSigCache.contains (cacheKey P ctx a)
    · have hcache := AnnounceSignatureCache.insert_of_contains hcached ctx.now
      rw [if_pos hcached]
      refine (if_pos hcached).trans ((hfrom _ _).trans ?_)
      unfold process readyFor
      rw [hcache]
      rfl
    · rw [if_neg hcached]
      refine (if_neg hcached).trans ?_
      cases a.validate P ctx.packet.destinationHash with
      | error => rfl
      | ok validated => exact hfrom _ _

/-! ## Through the queue -/

def verifyKey (ctx : InboundPacketCtx) (a : AnnounceData) : AnnounceVerifyKey :=
  ⟨ctx.packet.destinationHash, a.randomHash, sender ctx.packet⟩

/-- The announce as it waits in the queue. -/
def pendingOf (ctx : InboundPacketCtx) (a : AnnounceData) : PendingAnnounce where
  originalRaw := ctx.originalRaw
  packet := ctx.packet
  interface := ctx.iface
  receivedFrom := sender ctx.packet
  queuedAt := ctx.now
  bestHops := ctx.packet.hops
  emissionTs := timebaseFromRandomBlob a.randomHash
  randomBlob := a.randomHash

def NeedsQueue (P : Primitives) (e : TransportEngine) (ctx : InboundPacketCtx)
    (a : AnnounceData) : Prop :=
  ¬e.announceSigCache.contains (cacheKey P ctx a) ∧
    ctx.packet.context ≠ PacketContext.pathResponse

instance : Decidable (NeedsQueue P e ctx a) := inferInstanceAs (Decidable (_ ∧ _))

def heard (e : TransportEngine) (ctx : InboundPacketCtx) : TransportEngine :=
  { e with
    announceTable := e.heardTable ctx.packet ctx.now
    ingressControl := (e.ingress ctx).1 }

theorem tryEnqueueAnnounce_eq
    (hsingle : ctx.packet.flags.destinationType = DestinationType.single)
    (ha : announceOf ctx.packet = some a) (e : TransportEngine) (rng : UInt64)
    (queue : AnnounceVerifyQueue) :
    e.tryEnqueueAnnounce P ctx rng queue =
      if e.localDestinations.contains ctx.packet.destinationHash then
        ({ e with announceTable := e.heardTable ctx.packet ctx.now }, queue, [])
      else if (e.ingress ctx).2 then (e.heard ctx, queue, [])
      else if NeedsQueue P e ctx a then
        (e.heard ctx, (queue.enqueue (verifyKey ctx a) (pendingOf ctx a)).1, [])
      else match verdict P e ctx a with
      | none => (e.heard ctx, queue, [])
      | some validated => ((e.process P ctx a validated rng).1, queue,
          (e.process P ctx a validated rng).2) := by
  have hblob := extractRandomBlob_of_announceOf ha
  unfold tryEnqueueAnnounce
  dsimp only
  rw [if_neg (not_not.mpr hsingle), ha]
  dsimp only
  rw [announceReceivedFrom_eq]
  dsimp only
  by_cases hlocal : e.localDestinations.contains ctx.packet.destinationHash
  · rw [if_pos hlocal, if_pos hlocal]
  rw [if_neg hlocal, if_neg hlocal, shouldHoldAnnounce_eq, ingress_congr]
  cases (e.ingress ctx).2 with
  | true => rfl
  | false =>
    dsimp only
    rw [if_neg Bool.false_ne_true]
    by_cases hcached : e.announceSigCache.contains (cacheKey P ctx a)
    · have hcache := AnnounceSignatureCache.insert_of_contains hcached ctx.now
      have hverdict : verdict P e ctx a = some (a.toValidatedUnchecked P) := if_pos hcached
      have hneeds : ¬NeedsQueue P e ctx a := fun hneeds => hneeds.1 hcached
      rw [if_neg hneeds, hverdict]
      refine (if_pos hcached).trans ?_
      unfold process readyFor
      rw [hcache, processWithBlob_eq ha]
    · have hverdict : verdict P e ctx a = (a.validate P ctx.packet.destinationHash).toOption :=
        if_neg hcached
      refine (if_neg hcached).trans ?_
      by_cases hresponse : ctx.packet.context = PacketContext.pathResponse
      · have hneeds : ¬NeedsQueue P e ctx a := fun hneeds => hneeds.2 hresponse
        rw [if_pos hresponse, if_neg hneeds, hverdict]
        cases a.validate P ctx.packet.destinationHash with
        | error => rfl
        | ok validated =>
          dsimp only [Except.toOption]
          rw [processWithBlob_eq ha]
          rfl
      · have hneeds : NeedsQueue P e ctx a := ⟨hcached, hresponse⟩
        rw [if_neg hresponse, if_pos hneeds, hblob]
        rfl

/-! ## How the checks can end -/

theorem processInboundAnnounce_cases {motive : TransportEngine × List TransportAction → Prop}
    (rng : UInt64) (hother : motive (e, []))
    (hstopped : motive ({ e with ingressControl := (e.ingress ctx).1 }, []))
    (hprocess : ∀ a validated, announceOf ctx.packet = some a →
      verdict P e ctx a = some validated → motive (e.process P ctx a validated rng)) :
    motive (e.processInboundAnnounce P ctx rng) := by
  by_cases hsingle : ctx.packet.flags.destinationType = DestinationType.single
  · cases ha : announceOf ctx.packet with
    | none =>
      simp only [processInboundAnnounce, ha, ite_self]
      exact hother
    | some a =>
      rw [processInboundAnnounce_eq hsingle ha]
      split_ifs
      · exact hstopped
      · cases hverdict : verdict P e ctx a with
        | none => exact hstopped
        | some validated => exact hprocess a validated ha hverdict
  · rw [processInboundAnnounce, if_pos hsingle]
    exact hother

theorem tryEnqueueAnnounce_cases
    {motive : TransportEngine × AnnounceVerifyQueue × List TransportAction → Prop} (rng : UInt64)
    (queue : AnnounceVerifyQueue) (hother : motive (e, queue, []))
    (hlocal : motive ({ e with announceTable := e.heardTable ctx.packet ctx.now }, queue, []))
    (hstopped : motive (e.heard ctx, queue, [])) (hqueued : ∀ a, announceOf ctx.packet = some a →
      motive (e.heard ctx, (queue.enqueue (verifyKey ctx a) (pendingOf ctx a)).1, []))
    (hprocess : ∀ a validated, announceOf ctx.packet = some a →
      verdict P e ctx a = some validated → motive ((e.process P ctx a validated rng).1, queue,
        (e.process P ctx a validated rng).2)) : motive (e.tryEnqueueAnnounce P ctx rng queue) := by
  by_cases hsingle : ctx.packet.flags.destinationType = DestinationType.single
  · cases ha : announceOf ctx.packet with
    | none =>
      simp only [tryEnqueueAnnounce, ha, ite_self]
      exact hother
    | some a =>
      rw [tryEnqueueAnnounce_eq hsingle ha]
      split_ifs
      · exact hlocal
      · exact hstopped
      · exact hqueued a ha
      · cases hverdict : verdict P e ctx a with
        | none => exact hstopped
        | some validated => exact hprocess a validated ha hverdict
  · rw [tryEnqueueAnnounce, if_pos hsingle]
    exact hother

end TransportEngine

end Rns.Transport
