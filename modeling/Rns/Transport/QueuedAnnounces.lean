import Rns.Transport.Authenticity

/-!
# Announces at once and through the queue

The way through the queue counts heard rebroadcasts before anything else, passes over announces of
local destinations, and depends on room in the queue.  It is compared with the one at once.
-/

namespace Rns.Transport

open PacketType (announce)
open DestinationType (single)

variable {queue : AnnounceVerifyQueue} {rng : UInt64}

namespace TransportEngine

variable {P : Primitives} {e : TransportEngine} {ctx : InboundPacketCtx} {a : AnnounceData}

/-- The verification of the announce and what follows from it, if the queue took the announce: the
entry under its key is not what it was. -/
def verifyQueued (P : Primitives) (ctx : InboundPacketCtx) (a : AnnounceData)
    (queue queue' : AnnounceVerifyQueue) (e : TransportEngine) (rng : UInt64) :
    TransportEngine × List TransportAction :=
  let key := verifyKey ctx a
  match queue'.entries[key]? with
  | none => (e, [])
  | some entry =>
    if queue.entries[key]? = some entry then (e, [])
    else
      let (node, actions) := Node.verify P ⟨e, queue', [(key, entry.announce)]⟩ key ctx.now rng
      (node.engine, actions)

theorem verifyQueued_of_eq {queue queue' : AnnounceVerifyQueue}
    (h : queue'.entries[verifyKey ctx a]? = queue.entries[verifyKey ctx a]?) {e : TransportEngine} :
    verifyQueued P ctx a queue queue' e rng = (e, []) := by
  unfold verifyQueued
  dsimp only
  rw [h]
  split
  · rfl
  · next hentry => rw [if_pos hentry]

theorem verifyQueued_of_taken (ha : announceOf ctx.packet = some a)
    (h : (queue.enqueue (verifyKey ctx a) (pendingOf ctx a)).2) {e : TransportEngine} :
    verifyQueued P ctx a queue (queue.enqueue (verifyKey ctx a) (pendingOf ctx a)).1 e rng =
      match a.validate P ctx.packet.destinationHash with
      | .error _ => (e, [])
      | .ok validated => (e.rememberSignature (cacheKey P ctx a) ctx.now).processVerifiedAnnounce
          (verifiedCtx ctx validated (sender ctx.packet) a.randomHash) rng := by
  obtain ⟨found, hfound, hannounce, hother⟩ := queue.enqueue_taken (verifyKey ctx a) h
  generalize (queue.enqueue (verifyKey ctx a) (pendingOf ctx a)).1 = queue' at hfound ⊢
  have hpacket : found.announce.packet = ctx.packet := by rw [hannounce]; rfl
  unfold verifyQueued
  simp only [hfound, if_neg hother]
  unfold Node.verify
  simp only [List.find?_cons, decide_true, hpacket, ha]
  cases a.validate P ctx.packet.destinationHash with
  | error => rfl
  | ok validated =>
    simp only [AnnounceVerifyQueue.completeSuccess, hfound, Option.map_some, hannounce]
    rfl

/-- An announce through the queue, and verified at once. -/
def processThroughQueue (P : Primitives) (e : TransportEngine) (ctx : InboundPacketCtx)
    (a : AnnounceData) (rng : UInt64) (queue : AnnounceVerifyQueue) :
    TransportEngine × List TransportAction :=
  let (e, queue', actions) := e.tryEnqueueAnnounce P ctx rng queue
  let (e, more) := verifyQueued P ctx a queue queue' e rng
  (e, actions ++ more)

def Lost (P : Primitives) (e : TransportEngine) (ctx : InboundPacketCtx) (a : AnnounceData)
    (queue : AnnounceVerifyQueue) : Prop :=
  NeedsQueue P e ctx a ∧ ¬(queue.enqueue (verifyKey ctx a) (pendingOf ctx a)).2

instance (queue : AnnounceVerifyQueue) : Decidable (Lost P e ctx a queue) :=
  inferInstanceAs (Decidable (_ ∧ _))

theorem processThroughQueue_eq (hsingle : ctx.packet.flags.destinationType = single)
    (ha : announceOf ctx.packet = some a) {e : TransportEngine} :
    e.processThroughQueue P ctx a rng queue =
      if e.localDestinations.contains ctx.packet.destinationHash then
        ({ e with announceTable := e.heardTable ctx.packet ctx.now }, [])
      else if (e.ingress ctx).2 then (e.heard ctx, [])
      else if Lost P e ctx a queue then (e.heard ctx, [])
      else match verdict P e ctx a with
      | none => (e.heard ctx, [])
      | some validated => e.process P ctx a validated rng := by
  have hself (e : TransportEngine) : verifyQueued P ctx a queue queue e rng = (e, []) :=
    verifyQueued_of_eq rfl
  unfold processThroughQueue
  rw [tryEnqueueAnnounce_eq hsingle ha]
  by_cases hlocal : e.localDestinations.contains ctx.packet.destinationHash
  · simp only [if_pos hlocal, hself, List.append_nil]
  by_cases hheld : (e.ingress ctx).2
  · simp only [if_neg hlocal, if_pos hheld, hself, List.append_nil]
  simp only [if_neg hlocal, if_neg hheld]
  by_cases hneeds : NeedsQueue P e ctx a
  · have hverdict : verdict P e ctx a = (a.validate P ctx.packet.destinationHash).toOption :=
      if_neg hneeds.1
    simp only [if_pos hneeds, List.nil_append]
    by_cases htaken : (queue.enqueue (verifyKey ctx a) (pendingOf ctx a)).2
    · have hlost : ¬Lost P e ctx a queue := fun hlost => hlost.2 htaken
      rw [if_neg hlost, verifyQueued_of_taken ha htaken, hverdict]
      cases a.validate P ctx.packet.destinationHash with
      | error => rfl
      | ok validated => rfl
    · have hlost : Lost P e ctx a queue := ⟨hneeds, htaken⟩
      rw [if_pos hlost, verifyQueued_of_eq (queue.enqueue_refused _ htaken)]
  · have hlost : ¬Lost P e ctx a queue := fun hlost => hneeds hlost.1
    rw [if_neg hneeds, if_neg hlost]
    cases verdict P e ctx a with
    | none | some => simp only [hself, List.append_nil]

/-! ## The two ways compared -/

/-- The same paths, announces to retransmit, held announces and remembered signatures, and the same
actions.  Held are the announces set aside for a path response and those of the ingress control. -/
structure Agree (now later : TransportEngine × List TransportAction) : Prop where
  pathTable : now.1.pathTable = later.1.pathTable
  announceTable : now.1.announceTable = later.1.announceTable
  heldAnnounces : now.1.heldAnnounces = later.1.heldAnnounces
  ingressControl : now.1.ingressControl = later.1.ingressControl
  announceSigCache : now.1.announceSigCache = later.1.announceSigCache
  actions : now.2 = later.2

theorem Agree.refl (result : TransportEngine × List TransportAction) : Agree result result :=
  ⟨rfl, rfl, rfl, rfl, rfl, rfl⟩

theorem accepts_congr (e : TransportEngine) (vctx : VerifiedAnnounceCtx)
    (announceTable : Std.ExtTreeMap Hash16 AnnounceEntry) (ingressControl : IngressControl)
    (announceSigCache : AnnounceSignatureCache) (packetHashlist : PacketHashlist) :
    { e with announceTable, ingressControl, announceSigCache, packetHashlist }.Accepts vctx ↔
      e.Accepts vctx := by
  have hpath :
      { e with announceTable, ingressControl, announceSigCache, packetHashlist }.hasPath
        vctx.packet.destinationHash = e.hasPath vctx.packet.destinationHash := rfl
  unfold Accepts forgetStaleState
  rw [hpath]
  split_ifs <;> rfl

theorem accepts_readyFor {P : Primitives} {e : TransportEngine} {ctx : InboundPacketCtx}
    {a : AnnounceData} {vctx : VerifiedAnnounceCtx} :
    (e.readyFor P ctx a).Accepts vctx ↔ e.Accepts vctx :=
  accepts_congr ..

variable {validated : ValidatedAnnounce} {frame : InboundFrame}

theorem process_of_not_accepts
    (h : ¬e.Accepts (verifiedCtx ctx validated (sender ctx.packet) a.randomHash)) (rng : UInt64) :
    ∃ pathStates, e.process P ctx a validated rng =
      ({ e.readyFor P ctx a with pathStates }, []) := by
  rw [← accepts_readyFor] at h
  exact processVerifiedAnnounce_of_not_accepts h rng

theorem process_of_accepts
    (h : e.Accepts (verifiedCtx ctx validated (sender ctx.packet) a.randomHash)) :
    (e.process P ctx a validated rng).2 ≠ [] := by
  rw [← accepts_readyFor] at h
  unfold process
  rw [processVerifiedAnnounce_of_accepts h]
  exact List.cons_ne_nil _ _

def ComesToNothing (P : Primitives) (e : TransportEngine) (ctx : InboundPacketCtx)
    (a : AnnounceData) (validated : ValidatedAnnounce) : Prop :=
  ¬e.Accepts (verifiedCtx ctx validated (sender ctx.packet) a.randomHash) ∧
    (e.announceSigCache.contains (cacheKey P ctx a) ∨ e.announceSigCache.maxEntries = 0)

theorem agree_process_heard_iff (P : Primitives) (e : TransportEngine) (ctx : InboundPacketCtx)
    (a : AnnounceData) (validated : ValidatedAnnounce) (rng : UInt64)
    (ingressControl : IngressControl) : Agree (e.process P ctx a validated rng)
        ({ e with announceTable := e.heardTable ctx.packet ctx.now, ingressControl }, []) ↔
      ComesToNothing P e ctx a validated ∧ (e.ingress ctx).1 = ingressControl := by
  unfold ComesToNothing
  rw [← AnnounceSignatureCache.insert_eq_self_iff ..]
  constructor
  · intro h
    have hrefused : ¬e.Accepts (verifiedCtx ctx validated (sender ctx.packet) a.randomHash) :=
      fun haccepts => process_of_accepts haccepts h.actions
    obtain ⟨pathStates, heq⟩ := process_of_not_accepts (P := P) hrefused rng
    rw [heq] at h
    exact ⟨⟨hrefused, h.announceSigCache⟩, h.ingressControl⟩
  · rintro ⟨⟨hrefused, hcache⟩, hingress⟩
    obtain ⟨pathStates, heq⟩ := process_of_not_accepts (P := P) hrefused rng
    rw [heq]
    exact ⟨rfl, rfl, rfl, hingress, hcache, rfl⟩

/-- Hearing the announce changes nothing: for a local destination, the ingress control neither, as
the way through the queue does not ask it. -/
def HearsNothing (e : TransportEngine) (ctx : InboundPacketCtx) : Prop :=
  e.heardTable ctx.packet ctx.now = e.announceTable ∧
    (e.localDestinations.contains ctx.packet.destinationHash →
      (e.ingress ctx).1 = e.ingressControl)

/-- When the two ways agree on an announce.  Held or not verified, it must not count as a heard
rebroadcast.  Verified, it has to get through the queue, for a destination that is not local; or it
would have come to nothing. -/
def Conforms (P : Primitives) (e : TransportEngine) (ctx : InboundPacketCtx) (a : AnnounceData)
    (queue : AnnounceVerifyQueue) : Prop :=
  if (e.ingress ctx).2 then e.HearsNothing ctx
  else match verdict P e ctx a with
  | none => e.HearsNothing ctx
  | some validated =>
    ¬e.localDestinations.contains ctx.packet.destinationHash ∧ ¬Lost P e ctx a queue ∨
      ComesToNothing P e ctx a validated ∧
        (e.localDestinations.contains ctx.packet.destinationHash →
          (e.ingress ctx).1 = e.ingressControl)

theorem agree_stopped_heard_iff {e : TransportEngine} {ctx : InboundPacketCtx} :
    Agree ({ e with ingressControl := (e.ingress ctx).1 }, [])
        (if e.localDestinations.contains ctx.packet.destinationHash then
          ({ e with announceTable := e.heardTable ctx.packet ctx.now }, [])
        else (e.heard ctx, [])) ↔ e.HearsNothing ctx := by
  unfold HearsNothing
  split_ifs with hlocal
  · constructor
    · exact fun h => ⟨h.announceTable.symm, fun _ => h.ingressControl⟩
    · exact fun h => ⟨rfl, h.1.symm, rfl, h.2 hlocal, rfl, rfl⟩
  · constructor
    · exact fun h => ⟨h.announceTable.symm, fun hlocal' => absurd hlocal' hlocal⟩
    · exact fun h => ⟨rfl, h.1.symm, rfl, rfl, rfl, rfl⟩

theorem agree_announce_iff (hsingle : ctx.packet.flags.destinationType = single)
    (ha : announceOf ctx.packet = some a) {e : TransportEngine} :
    Agree (e.processInboundAnnounce P ctx rng) (e.processThroughQueue P ctx a rng queue) ↔
      Conforms P e ctx a queue := by
  rw [processInboundAnnounce_eq hsingle ha, processThroughQueue_eq hsingle ha, Conforms]
  by_cases hheld : (e.ingress ctx).2
  · simp only [if_pos hheld]
    exact agree_stopped_heard_iff
  simp only [if_neg hheld]
  cases hverdict : verdict P e ctx a with
  | none =>
    dsimp only
    rw [ite_self]
    exact agree_stopped_heard_iff
  | some validated =>
    dsimp only
    by_cases hlocal : e.localDestinations.contains ctx.packet.destinationHash
    · rw [if_pos hlocal]
      have hiff := agree_process_heard_iff P e ctx a validated rng e.ingressControl
      refine hiff.trans ?_
      simp [hlocal]
    · rw [if_neg hlocal]
      by_cases hlost : Lost P e ctx a queue
      · rw [if_pos hlost]
        have hiff := agree_process_heard_iff P e ctx a validated rng (e.ingress ctx).1
        refine hiff.trans ?_
        simp [hlocal, hlost]
      · rw [if_neg hlost]
        exact iff_of_true (.refl _) (.inl ⟨hlocal, hlost⟩)

/-! ## Frames -/

/-- A frame handled through the queue, and its announce verified at once. -/
def handleThroughQueue (P : Primitives) (e : TransportEngine) (frame : InboundFrame) (rng : UInt64)
    (queue : AnnounceVerifyQueue) : TransportEngine × List TransportAction :=
  let (e', queue', actions) := e.handleInboundWithAnnounceQueue P frame rng (some queue)
  match e.prepareInboundPacket P frame with
  | none => (e', actions)
  | some ctx => match announceOf ctx.packet with
    | none => (e', actions)
    | some a =>
      let (e', more) := verifyQueued P ctx a queue (queue'.getD queue) e' rng
      (e', actions ++ more)

theorem conforms_rememberInboundPacketHash {packet : RawPacket} :
    Conforms P (e.rememberInboundPacketHash packet) ctx a queue ↔ Conforms P e ctx a queue := by
  unfold rememberInboundPacketHash
  split_ifs
  · rfl
  · have hingress := ingress_congr e ctx e.announceTable (e.packetHashlist.add packet.packetHash)
    have haccepts (vctx : VerifiedAnnounceCtx) := accepts_congr e vctx
      e.announceTable e.ingressControl e.announceSigCache
      (e.packetHashlist.add packet.packetHash)
    unfold Conforms HearsNothing ComesToNothing
    dsimp only at hingress haccepts ⊢
    simp only [hingress, haccepts]
    rfl

theorem handleInbound_of_not_announce (hprepare : e.prepareInboundPacket P frame = some ctx)
    (htype : ctx.packet.flags.packetType ≠ announce) (rng : UInt64)
    (queue : Option AnnounceVerifyQueue) : e.handleInboundWithAnnounceQueue P frame rng queue =
      ((e.handleInbound P frame rng).1, queue, (e.handleInbound P frame rng).2) := by
  simp only [handleInbound, handleInboundWithAnnounceQueue, hprepare, handleInboundAnnounce,
    if_pos htype]

theorem handleThroughQueue_of_no_announce (hprepare : e.prepareInboundPacket P frame = some ctx)
    (hother : ctx.packet.flags.packetType = announce → ctx.packet.flags.destinationType = single →
      announceOf ctx.packet = none) :
    e.handleThroughQueue P frame rng queue = e.handleInbound P frame rng := by
  have hqueued : e.handleInboundWithAnnounceQueue P frame rng (some queue) =
      ((e.handleInbound P frame rng).1, some queue, (e.handleInbound P frame rng).2) := by
    by_cases htype : ctx.packet.flags.packetType = announce
    · have hnow (e : TransportEngine) : e.processInboundAnnounce P ctx rng = (e, []) := by
        unfold processInboundAnnounce
        by_cases hsingle : ctx.packet.flags.destinationType = single
        · simp only [hother htype hsingle, ite_self]
        · exact if_pos hsingle
      have hlater (e : TransportEngine) :
          e.tryEnqueueAnnounce P ctx rng queue = (e, queue, []) := by
        unfold tryEnqueueAnnounce
        by_cases hsingle : ctx.packet.flags.destinationType = single
        · simp only [hother htype hsingle, ite_self]
        · exact if_pos hsingle
      simp only [handleInbound, handleInbound_announce_queued hprepare htype,
        handleInbound_announce_now hprepare htype, hnow, hlater]
    · exact handleInbound_of_not_announce hprepare htype ..
  simp only [handleThroughQueue, hqueued, hprepare, Option.getD_some]
  split
  · rfl
  · simp only [verifyQueued_of_eq, List.append_nil]

theorem agree_append_iff {now later : TransportEngine × List TransportAction}
    {actions : List TransportAction} :
    Agree (now.1, actions ++ now.2) (later.1, actions ++ later.2) ↔ Agree now later := by
  constructor
  · intro h
    exact { h with actions := List.append_cancel_left h.actions }
  · intro h
    exact { h with actions := congrArg (actions ++ ·) h.actions }

theorem agree_frame_iff (hprepare : e.prepareInboundPacket P frame = some ctx)
    (htype : ctx.packet.flags.packetType = announce)
    (hsingle : ctx.packet.flags.destinationType = single) (ha : announceOf ctx.packet = some a) :
    Agree (e.handleInbound P frame rng) (e.handleThroughQueue P frame rng queue) ↔
      Conforms P e ctx a queue := by
  have hnow : e.handleInbound P frame rng =
      let e := e.rememberInboundPacketHash ctx.packet
      ((e.processInboundAnnounce P ctx rng).1,
        e.bridgePlainBroadcast ctx ++ (e.processInboundAnnounce P ctx rng).2) := by
    rw [handleInbound, handleInbound_announce_now hprepare htype]
  have hlater : e.handleThroughQueue P frame rng queue =
      let e := e.rememberInboundPacketHash ctx.packet
      ((e.processThroughQueue P ctx a rng queue).1,
        e.bridgePlainBroadcast ctx ++ (e.processThroughQueue P ctx a rng queue).2) := by
    simp only [handleThroughQueue, handleInbound_announce_queued hprepare htype, hprepare,
      ha, processThroughQueue, Option.getD_some, List.append_assoc]
  rw [hnow, hlater]
  dsimp only
  rw [agree_append_iff, agree_announce_iff hsingle ha, conforms_rememberInboundPacketHash]

section Example

def overheard : TransportEngine :=
  ((new sampleConfig).handleInbound Node.lastBytes (sampleFrame 7 0 1 1 [] 100) 0).1

def heardCount (e : TransportEngine) : Option UInt8 :=
  (e.announceTable.get? (.replicate 16 0)).map AnnounceEntry.localRebroadcasts

end Example

end TransportEngine

end Rns.Transport
