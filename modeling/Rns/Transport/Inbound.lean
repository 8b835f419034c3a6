import Rns.Transport.AnnounceVerifyQueue
import Rns.Transport.Forwarding
import Rns.Transport.ProcessAnnounce

/-!
# Inbound frames

A frame is parsed and filtered, and its packet goes through every handler.  Announces are checked at once
or put into the verification queue.
-/

namespace Rns.Transport

open PacketType (announce proof)
open DestinationType (plain group single)

structure InboundFrame where
  raw : Bytes
  iface : InterfaceId
  now : ℚ
  rx : RxMetadata
  deriving DecidableEq

namespace TransportEngine

variable (P : Primitives) (e : TransportEngine) (frame : InboundFrame) (packet : RawPacket)
  (ctx : InboundPacketCtx)

def packetFilter : Bool :=
  let forOther : Bool := match e.config.identityHash with
    | some identityHash => packet.transportId ≠ some identityHash
    | none => false
  if packet.transportId.isSome ∧ packet.flags.packetType ≠ announce ∧ forOther then false
  else if packet.context ∈ [PacketContext.keepalive, PacketContext.resourceReq,
      PacketContext.resourcePrf, PacketContext.resource, PacketContext.cacheRequest,
      PacketContext.channel] then true
  else if packet.flags.destinationType = plain ∨
      packet.flags.destinationType = group then
    packet.flags.packetType ≠ announce ∧ packet.hops ≤ 1
  else if ¬e.packetHashlist.isDuplicate packet.packetHash then true
  else packet.flags.packetType = announce ∧
    packet.flags.destinationType = single

/-- The hop count after reception: one more, wrapping as in a release build, and one less again
(not below zero) from a local client. -/
def receivedHops (hops : UInt8) (fromLocalClient : Bool) : UInt8 :=
  let hops := hops + 1
  if fromLocalClient ∧ hops ≠ 0 then hops - 1 else hops

def prepareInboundPacket : Option InboundPacketCtx :=
  match RawPacket.unpack P frame.raw with
  | .error _ => none
  | .ok packet =>
    let fromLocalClient := e.interfaceIsLocalClient frame.iface
    let packet := { packet with
      hops := receivedHops packet.hops fromLocalClient
      rx := frame.rx }
    if e.packetFilter packet then
      some ⟨packet, frame.raw, frame.iface, frame.now, fromLocalClient⟩
    else none

/-! ## Announces -/

/-- `announce_sig_cache_key`: the destination and the signature, nothing else. -/
def announceSigCacheKey (destinationHash : Hash16) (signature : Vector UInt8 64) : Hash32 :=
  P.fullHash (destinationHash.toList ++ signature.toList)

/-- The first half of `announce_received_from`: a rebroadcast by a neighbour counts against our
own, one by the neighbour's neighbour makes ours needless. -/
def heardRebroadcast (announceTable : Std.ExtTreeMap Hash16 AnnounceEntry) (packet : RawPacket)
    (now : ℚ) : Std.ExtTreeMap Hash16 AnnounceEntry :=
  let destHash := packet.destinationHash
  match announceTable[destHash]? with
  | none => announceTable
  | some entry =>
    let announceTable := if packet.hops ≠ 0 ∧ packet.hops - 1 = entry.hops then
        let entry := { entry with localRebroadcasts := entry.localRebroadcasts + 1 }
        if entry.retries > 0 ∧ entry.localRebroadcasts ≥ localRebroadcastsMax then
          announceTable.erase destHash
        else announceTable.insert destHash entry
      else announceTable
    match announceTable[destHash]? with
    | none => announceTable
    | some entry =>
      if packet.hops ≠ 0 ∧ packet.hops - 1 = entry.hops + 1 ∧ entry.retries > 0 ∧
          now < entry.retransmitTimeout then announceTable.erase destHash
      else announceTable

def announceReceivedFrom (now : ℚ) : TransportEngine × Hash16 :=
  match packet.transportId with
  | none => (e, packet.destinationHash)
  | some transportId =>
    if e.config.transportEnabled then
      ({ e with announceTable := heardRebroadcast e.announceTable packet now }, transportId)
    else (e, transportId)

def shouldHoldAnnounce (originalRaw : Bytes) (iface : InterfaceId) (now : ℚ) :
    TransportEngine × Bool :=
  if e.hasPath packet.destinationHash ∨
      e.discoveryPathRequests.contains packet.destinationHash then (e, false)
  else match e.interfaces[iface]? with
  | none => (e, false)
  | some info =>
    if packet.context = PacketContext.pathResponse then (e, false)
    else
      let (ingressControl, limit) := e.ingressControl.shouldIngressLimit iface info.ingressControl
        info.iaFreq info.started now
      if limit then
        let held := ⟨originalRaw, packet.hops, iface, packet.rx, now⟩
        ({ e with ingressControl :=
            ingressControl.holdAnnounce iface info.ingressControl packet.destinationHash held }, true)
      else ({ e with ingressControl }, false)

def announceOf : Option AnnounceData :=
  (AnnounceData.unpack packet.data (packet.flags.contextFlag = flagSet)).toOption

variable (validated : ValidatedAnnounce) (rng : UInt64)

/-- The context of an announce that counts as verified. -/
def verifiedCtx (receivedFrom : Hash16) (randomBlob : RandomBlob) : VerifiedAnnounceCtx where
  packet := ctx.packet
  originalRaw := ctx.originalRaw
  iface := ctx.iface
  now := ctx.now
  validated
  receivedFrom
  randomBlob
  announceEmitted := timebaseFromRandomBlob randomBlob

def rememberSignature (sigCacheKey : Hash32) (now : ℚ) : TransportEngine :=
  { e with announceSigCache := e.announceSigCache.insert sigCacheKey now }

/-- Processing with the blob taken out of the packet, if it is long enough. -/
def processWithBlob (receivedFrom : Hash16) (rng : UInt64) :
    TransportEngine × List TransportAction :=
  match extractRandomBlob ctx.packet.data with
  | none => (e, [])
  | some randomBlob =>
    e.processVerifiedAnnounce (verifiedCtx ctx validated receivedFrom randomBlob) rng

def processInboundAnnounce : TransportEngine × List TransportAction :=
  let packet := ctx.packet
  if packet.flags.destinationType ≠ single then (e, [])
  else match announceOf packet with
  | none => (e, [])
  | some announce =>
    match e.shouldHoldAnnounce packet ctx.originalRaw ctx.iface ctx.now with
    | (e, true) => (e, [])
    | (e, false) =>
      let key := announceSigCacheKey P packet.destinationHash announce.signature
      if e.announceSigCache.contains key then
        let (e, receivedFrom) := e.announceReceivedFrom packet ctx.now
        e.processWithBlob ctx (announce.toValidatedUnchecked P) receivedFrom rng
      else match announce.validate P packet.destinationHash with
      | .error _ => (e, [])
      | .ok validated =>
        let e := e.rememberSignature key ctx.now
        let (e, receivedFrom) := e.announceReceivedFrom packet ctx.now
        e.processWithBlob ctx validated receivedFrom rng

def tryEnqueueAnnounce (queue : AnnounceVerifyQueue) :
    TransportEngine × AnnounceVerifyQueue × List TransportAction :=
  let packet := ctx.packet
  if packet.flags.destinationType ≠ single then (e, queue, [])
  else match announceOf packet with
  | none => (e, queue, [])
  | some announce =>
    let (e, receivedFrom) := e.announceReceivedFrom packet ctx.now
    if e.localDestinations.contains packet.destinationHash then (e, queue, [])
    else match e.shouldHoldAnnounce packet ctx.originalRaw ctx.iface ctx.now with
    | (e, true) => (e, queue, [])
    | (e, false) =>
      let key := announceSigCacheKey P packet.destinationHash announce.signature
      if e.announceSigCache.contains key then
        let (e, actions) := e.processWithBlob ctx (announce.toValidatedUnchecked P) receivedFrom rng
        (e, queue, actions)
      else if packet.context = PacketContext.pathResponse then
        match announce.validate P packet.destinationHash with
        | .error _ => (e, queue, [])
        | .ok validated =>
          let e := e.rememberSignature key ctx.now
          let (e, actions) := e.processWithBlob ctx validated receivedFrom rng
          (e, queue, actions)
      else match extractRandomBlob packet.data with
      | none => (e, queue, [])
      | some randomBlob =>
        let pending := {
          originalRaw := ctx.originalRaw
          packet
          interface := ctx.iface
          receivedFrom
          queuedAt := ctx.now
          bestHops := packet.hops
          emissionTs := timebaseFromRandomBlob randomBlob
          randomBlob }
        (e, (queue.enqueue ⟨packet.destinationHash, randomBlob, receivedFrom⟩ pending).1, [])

def completeVerifiedAnnounce (pending : PendingAnnounce) (validated : ValidatedAnnounce)
    (sigCacheKey : Hash32) (now : ℚ) (rng : UInt64) : TransportEngine × List TransportAction :=
  let e := e.rememberSignature sigCacheKey now
  e.processVerifiedAnnounce {
    packet := pending.packet
    originalRaw := pending.originalRaw
    iface := pending.interface
    now
    validated
    receivedFrom := pending.receivedFrom
    randomBlob := pending.randomBlob
    announceEmitted := pending.emissionTs } rng

/-- `handle_inbound_announce`: with or without a queue. -/
def handleInboundAnnounce (queue : Option AnnounceVerifyQueue) :
    TransportEngine × Option AnnounceVerifyQueue × List TransportAction :=
  if ctx.packet.flags.packetType ≠ announce then (e, queue, [])
  else match queue with
  | some queue =>
    let (e, queue, actions) := e.tryEnqueueAnnounce P ctx rng queue
    (e, some queue, actions)
  | none =>
    let (e, actions) := e.processInboundAnnounce P ctx rng
    (e, none, actions)

def handleInboundWithAnnounceQueue (queue : Option AnnounceVerifyQueue) :
    TransportEngine × Option AnnounceVerifyQueue × List TransportAction :=
  match e.prepareInboundPacket P frame with
  | none => (e, queue, [])
  | some ctx =>
    let e := e.rememberInboundPacketHash ctx.packet
    let bridged := e.bridgePlainBroadcast ctx
    let (e, forwarded) := e.handleTransportForwarding P ctx
    let (e, routed) := e.handleLinkTableRouting ctx
    let (e, queue, announced) := e.handleInboundAnnounce P ctx rng queue
    let (e, proved) := if ctx.packet.flags.packetType = proof then
      e.processInboundProof ctx else (e, [])
    (e, queue, bridged ++ forwarded ++ routed ++ announced ++ proved ++
      e.handleInboundLocalDelivery ctx)

def handleInbound : TransportEngine × List TransportAction :=
  let (e, _, actions) := e.handleInboundWithAnnounceQueue P frame rng none
  (e, actions)

section

variable {P : Primitives} {e : TransportEngine} {frame : InboundFrame} {ctx : InboundPacketCtx}

theorem prepareInboundPacket_eq_some {packet : RawPacket}
    (hunpack : RawPacket.unpack P frame.raw = .ok packet)
    (h : e.prepareInboundPacket P frame = some ctx) :
    ctx = ⟨{ packet with
        hops := receivedHops packet.hops (e.interfaceIsLocalClient frame.iface)
        rx := frame.rx }, frame.raw, frame.iface, frame.now,
      e.interfaceIsLocalClient frame.iface⟩ := by
  unfold prepareInboundPacket at h
  simp only [hunpack] at h
  split_ifs at h
  exact (Option.some.inj h).symm

theorem shouldHoldAnnounce_fst (e : TransportEngine) (packet : RawPacket) (originalRaw : Bytes)
    (iface : InterfaceId) (now : ℚ) : ∃ ingressControl,
      (e.shouldHoldAnnounce packet originalRaw iface now).1 = { e with ingressControl } := by
  unfold shouldHoldAnnounce
  by_cases hknown : e.hasPath packet.destinationHash ∨
      e.discoveryPathRequests.contains packet.destinationHash
  · exact ⟨e.ingressControl, by rw [if_pos hknown]⟩
  · rw [if_neg hknown]
    split
    · exact ⟨e.ingressControl, rfl⟩
    · split
      · exact ⟨e.ingressControl, rfl⟩
      · dsimp only
        split
        · exact ⟨_, rfl⟩
        · exact ⟨_, rfl⟩

section

variable (hprepare : e.prepareInboundPacket P frame = some ctx)
  (htype : ctx.packet.flags.packetType = announce) (rng : UInt64)
include hprepare htype

/-- Of all handlers only the one for announces acts on an announce, unless it poses as a plain
broadcast. -/
theorem handleInbound_announce (queue : Option AnnounceVerifyQueue) :
    e.handleInboundWithAnnounceQueue P frame rng queue =
      let e := e.rememberInboundPacketHash ctx.packet
      let (e', queue, actions) := e.handleInboundAnnounce P ctx rng queue
      (e', queue, e.bridgePlainBroadcast ctx ++ actions) := by
  have hforward : ∀ e : TransportEngine, e.handleTransportForwarding P ctx = (e, []) := by
    intro e
    unfold handleTransportForwarding
    split
    · rfl
    · exact if_pos (.inl htype)
  have hroute : ∀ e : TransportEngine, e.handleLinkTableRouting ctx = (e, []) := by
    intro e
    unfold handleLinkTableRouting
    dsimp only
    split_ifs with henabled hskip
    · rfl
    · rfl
    · exact absurd (.inl htype) hskip
  have hdeliver : ∀ e : TransportEngine, e.handleInboundLocalDelivery ctx = [] := by
    intro e
    refine if_neg fun h => ?_
    rcases h.1 with hother | hother <;> exact absurd (htype.symm.trans hother) (by decide)
  have hproof : ¬ctx.packet.flags.packetType = proof := by
    rw [htype]
    decide
  simp only [handleInboundWithAnnounceQueue, hprepare, hforward, hroute, hdeliver, if_neg hproof,
    List.append_nil]

theorem handleInbound_announce_now :
    e.handleInboundWithAnnounceQueue P frame rng none =
      let e := e.rememberInboundPacketHash ctx.packet
      ((e.processInboundAnnounce P ctx rng).1, none,
        e.bridgePlainBroadcast ctx ++ (e.processInboundAnnounce P ctx rng).2) := by
  rw [handleInbound_announce hprepare htype]
  simp only [handleInboundAnnounce, htype, ne_eq, not_true_eq_false, if_false]

theorem handleInbound_announce_queued (queue : AnnounceVerifyQueue) :
    e.handleInboundWithAnnounceQueue P frame rng (some queue) =
      let e := e.rememberInboundPacketHash ctx.packet
      let queued := e.tryEnqueueAnnounce P ctx rng queue
      (queued.1, some queued.2.1, e.bridgePlainBroadcast ctx ++ queued.2.2) := by
  rw [handleInbound_announce hprepare htype]
  simp only [handleInboundAnnounce, htype, ne_eq, not_true_eq_false, if_false]

end

end

end TransportEngine

end Rns.Transport
