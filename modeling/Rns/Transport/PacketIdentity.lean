import Rns.Link.Engine
import Rns.Transport.Frames
import Rns.Transport.Inbound
import Rns.Transport.Outbound

/-!
# The identity of a packet on its way

Whatever a node does to forward a packet, the frame it puts out is a frame of the same packet, so
every node on the way computes the same packet hash, and for a link request the same link id.
-/

namespace Rns

open HeaderType (header2 header1)
open TransportType (transport broadcast)
open DestinationType (single)

/-- `set_link_id_from_hashable`, which the initiator calls on the request it has packed. -/
def LinkEngine.linkIdFromHashable (P : Primitives) (hashablePart : Bytes) (dataLen : ℕ) : LinkId :=
  Transport.computeLinkId P hashablePart (dataLen - linkEcpubsize)

/-- The link id of `new_responder`. -/
def LinkEngine.responderLinkId (P : Primitives) (linkrequestData hashablePart : Bytes) : LinkId :=
  Transport.computeLinkId P hashablePart (linkrequestData.length - linkEcpubsize)

variable {action : TransportAction} {raw : Bytes}

namespace Transport

open RawPacket (FrameOf Received)

/-- The bytes an action puts on interfaces. -/
def TransportAction.frame? : TransportAction → Option Bytes
  | .sendOnInterface _ raw => some raw
  | .broadcastOnAllInterfaces raw _ => some raw
  | .forwardPlainBroadcast raw _ _ => some raw
  | _ => none

variable (P : Primitives)

/-- The frames a node may put out for a packet it holds: as its own, or by one of the ways in
which it forwards. -/
inductive Forwards (p : RawPacket) : Bytes → Prop
  | outbound {raw : Bytes} (t : RouteTables) (destType : UInt8) (attached : Option InterfaceId)
      (options : OutboundRouteOptions) {action : TransportAction}
      (haction : action ∈ t.routeOutboundWithOptions p destType attached options)
      (hraw : action.frame? = some raw) : Forwards p raw
  | bridged {raw : Bytes} (e : TransportEngine) (ctx : InboundPacketCtx) {action : TransportAction}
      (hctx : ctx.packet = p) (haction : action ∈ e.bridgePlainBroadcast ctx)
      (hraw : action.frame? = some raw) : Forwards p raw
  | transport {raw : Bytes} (e : TransportEngine) (ctx : InboundPacketCtx)
      {action : TransportAction} (hctx : ctx.packet = p)
      (haction : action ∈ (e.handleTransportForwarding P ctx).2)
      (hraw : action.frame? = some raw) : Forwards p raw
  | linkTable {raw : Bytes} (e : TransportEngine) (ctx : InboundPacketCtx)
      {action : TransportAction} (hctx : ctx.packet = p)
      (haction : action ∈ (e.handleLinkTableRouting ctx).2)
      (hraw : action.frame? = some raw) : Forwards p raw
  | proof {raw : Bytes} (e : TransportEngine) (ctx : InboundPacketCtx)
      {action : TransportAction} (hctx : ctx.packet = p)
      (haction : action ∈ (e.processInboundProof ctx).2)
      (hraw : action.frame? = some raw) : Forwards p raw

def Hop (p q : RawPacket) : Prop :=
  ∃ raw received hops rx, Forwards P p raw ∧ RawPacket.unpack P raw = .ok received ∧
    q = { received with hops, rx }

/-! ## Every forwarded frame is a frame of the packet -/

variable {P} {p : RawPacket}

theorem transport_flags : ∀ b : UInt8,
    (PacketFlags.unpack (header2 <<< 6 ||| transport <<< 4 |||
      (b &&& 0x0F))).headerType = header2 ∧
    (header2 <<< 6 ||| transport <<< 4 ||| (b &&& 0x0F)) &&& 0x0F = b &&& 0x0F := by
  decide +kernel

theorem transport_flags_fields : ∀ b : UInt8,
    let flags := PacketFlags.unpack (header2 <<< 6 ||| transport <<< 4 |||
      (b &&& 0x0F))
    flags.packetType = (PacketFlags.unpack b).packetType ∧ flags.contextFlag = 0 := by
  decide +kernel

theorem broadcast_flags : ∀ b : UInt8,
    (PacketFlags.unpack (header1 <<< 6 ||| broadcast <<< 4 |||
      (b &&& 0x0F))).headerType = header1 ∧
    (header1 <<< 6 ||| broadcast <<< 4 ||| (b &&& 0x0F)) &&& 0x0F = b &&& 0x0F := by
  decide +kernel

section

variable (h : p.Received P)
include h

theorem frameOf_inject (h1 : p.flags.headerType = header1) (nextHop : Hash16) (hops : UInt8) :
    ∃ b, p.FrameOf b (injectTransportHeaderWithHops p nextHop hops) := by
  obtain ⟨htype, hlow⟩ := transport_flags ..
  have hframe := h.frameOf_withTransport hops nextHop htype hlow
  have hne : header1 ≠ header2 := by decide
  rw [h1, if_neg hne] at hframe
  exact ⟨_, hframe⟩

theorem frameOf_mangleHops (hops : UInt8) : ∃ b, p.FrameOf b (mangleHops p.raw hops) := by
  unfold mangleHops
  split_ifs
  · exact ⟨_, h.frameOf_self.set_hops hops⟩
  · exact ⟨_, h.frameOf_self⟩

theorem frameOf_rawForInterface (destType : UInt8) (info : InterfaceInfo)
    (options : OutboundRouteOptions) :
    ∃ b, p.FrameOf b (rawForInterface p destType info options) := by
  unfold rawForInterface
  split
  · exact ⟨_, h.frameOf_self⟩
  · split
    · split_ifs with hannounce
      · exact frameOf_inject h hannounce.2 _ _
      · exact frameOf_mangleHops h _
    · exact frameOf_mangleHops h _

theorem frameOf_rawFor (t : RouteTables) (destType : UInt8) (iface : InterfaceId)
    (options : OutboundRouteOptions) : ∃ b, p.FrameOf b (t.rawFor p destType iface options) := by
  unfold RouteTables.rawFor
  split
  · exact frameOf_rawForInterface h _ _ _
  · exact ⟨_, h.frameOf_self⟩

end

theorem frameOf_singleton {action sent : TransportAction} {raw bytes : Bytes} (hmem : action ∈ [sent])
    (hraw : action.frame? = some raw) (hsent : sent.frame? = some bytes) (h : ∃ b, p.FrameOf b bytes) :
    ∃ b, p.FrameOf b raw := by
  obtain rfl := List.mem_singleton.mp hmem
  obtain rfl := Option.some.inj (hsent.symm.trans hraw)
  exact h

theorem frameOf_routeOutbound (h : p.Received P) {t : RouteTables} {destType : UInt8}
    {attached : Option InterfaceId} {options : OutboundRouteOptions}
    (haction : action ∈ t.routeOutboundWithOptions p destType attached options)
    (hraw : action.frame? = some raw) : ∃ b, p.FrameOf b raw := by
  have hself : ∃ b, p.FrameOf b p.raw := ⟨_, h.frameOf_self⟩
  have hannounce : action ∈ t.routeAnnounce p destType attached options → ∃ b, p.FrameOf b raw := by
    intro hmem
    obtain ⟨⟨id, info⟩, -, hinfo⟩ := List.mem_filterMap.mp hmem
    dsimp only at hinfo
    split_ifs at hinfo
    obtain rfl := Option.some.inj hinfo
    obtain rfl := Option.some.inj hraw
    exact frameOf_rawForInterface h _ _ _
  have hanywhere : action ∈ t.routeAnywhere p destType attached options → ∃ b, p.FrameOf b raw := by
    intro hmem
    unfold RouteTables.routeAnywhere at hmem
    split at hmem <;> split_ifs at hmem
    · exact frameOf_singleton hmem hraw rfl (frameOf_rawFor h _ _ _ _)
    · exact hannounce hmem
    · exact hannounce hmem
    · exact frameOf_singleton hmem hraw rfl hself
  unfold RouteTables.routeOutboundWithOptions at haction
  split_ifs at haction
  · split at haction
    · unfold RouteTables.routeAlong at haction
      dsimp only at haction
      split_ifs at haction with hvia h1
      · exact frameOf_singleton haction hraw rfl (frameOf_inject h h1 _ _)
      · cases haction
      · exact frameOf_singleton haction hraw rfl (frameOf_rawFor h _ _ _ _)
    · exact hanywhere haction
  · exact hanywhere haction

theorem frameOf_forwardTransportPacket (h : p.Received P)
    (h2 : p.flags.headerType = header2) (nextHop : Hash16) (remainingHops : UInt8) :
    ∃ b, p.FrameOf b (forwardTransportPacket p nextHop remainingHops) := by
  unfold forwardTransportPacket
  split_ifs
  · have hframe := h.frameOf_withTransport p.hops nextHop
      ((congrArg PacketFlags.headerType h.flags_eq).trans h2) rfl
    rw [if_pos h2] at hframe
    exact ⟨_, hframe⟩
  · obtain ⟨htype, hlow⟩ := broadcast_flags ..
    exact ⟨_, h.frameOf_stripped p.hops h2 htype hlow⟩

variable {q : RawPacket} {e : TransportEngine} {ctx : InboundPacketCtx}

theorem frameOf_handleTransportForwarding (h : ctx.packet.Received P)
    (haction : action ∈ (e.handleTransportForwarding P ctx).2) (hraw : action.frame? = some raw) :
    ∃ b, ctx.packet.FrameOf b raw := by
  unfold TransportEngine.handleTransportForwarding at haction
  split at haction
  · cases haction
  · split_ifs at haction with hother
    · cases haction
    · rw [not_or, not_not] at hother
      have h2 := h.header2_of_transportId hother.2
      split at haction
      · cases haction
      · split at haction
        · cases haction
        · next path _ =>
          have hframe : ∀ remaining : UInt8, ∀ rewrite : Prop, [Decidable rewrite] →
              ∃ b, ctx.packet.FrameOf b (if rewrite then
                (forwardTransportPacket ctx.packet path.nextHop remaining).set 1
                  e.config.localHopsDelta
                else forwardTransportPacket ctx.packet path.nextHop remaining) := by
            intro remaining rewrite _
            obtain ⟨b, hframe⟩ := frameOf_forwardTransportPacket h h2 ..
            split_ifs
            · exact ⟨b, hframe.set_hops _⟩
            · exact ⟨b, hframe⟩
          unfold TransportEngine.forwardAlong at haction
          dsimp only at haction
          split at haction
          · simp only [List.mem_cons, List.not_mem_nil, or_false] at haction
            rcases haction with rfl | rfl
            · cases hraw
            · obtain rfl := Option.some.inj hraw
              exact hframe _ _
          · exact frameOf_singleton haction hraw rfl (hframe _ _)

theorem frameOf_routeViaLinkTable (h : p.Received P) {entry : LinkEntry} {iface out : InterfaceId}
    {rewrite : LocalHopRewrite}
    (hroute : routeViaLinkTable p entry iface rewrite = some (out, raw)) :
    ∃ b, p.FrameOf b raw := by
  have hframe := h.frameOf_withHops (rewrite.hopByte p)
  unfold routeViaLinkTable at hroute
  dsimp only at hroute
  split_ifs at hroute <;> obtain rfl := (Prod.mk.inj (Option.some.inj hroute)).2 <;>
    exact ⟨_, hframe⟩

section

variable (h : ctx.packet.Received P)
include h

theorem frameOf_handleLinkTableRouting (haction : action ∈ (e.handleLinkTableRouting ctx).2)
    (hraw : action.frame? = some raw) : ∃ b, ctx.packet.FrameOf b raw := by
  unfold TransportEngine.handleLinkTableRouting at haction
  dsimp only at haction
  split_ifs at haction
  · cases haction
  · cases haction
  · split at haction
    · cases haction
    · split at haction
      · cases haction
      · next hroute => exact frameOf_singleton haction hraw rfl (frameOf_routeViaLinkTable h hroute)

/-- A proof goes along its link or back along the reverse table; what is delivered here goes on no
interface. -/
theorem frameOf_processInboundProof (haction : action ∈ (e.processInboundProof ctx).2)
    (hraw : action.frame? = some raw) : ∃ b, ctx.packet.FrameOf b raw := by
  have hdeliver : action ∉ [TransportEngine.deliver ctx] := by
    intro hmem
    obtain rfl := List.mem_singleton.mp hmem
    cases hraw
  unfold TransportEngine.processInboundProof at haction
  dsimp only at haction
  split_ifs at haction
  · split at haction
    · split at haction
      · cases haction
      · next hroute =>
        simp only [List.mem_cons, List.not_mem_nil, or_false] at haction
        rcases haction with rfl | rfl
        · cases hraw
        · obtain rfl := Option.some.inj hraw
          exact frameOf_routeViaLinkTable h hroute
    · exact absurd haction hdeliver
  · split at haction
    · rcases List.mem_append.mp haction with hback | hmem
      · unfold routeProofViaReverse at hback
        split_ifs at hback
        · exact frameOf_singleton hback hraw rfl ⟨_, h.frameOf_withHops _⟩
        · cases hback
      · exact absurd hmem hdeliver
    · exact absurd haction hdeliver

theorem frameOf_bridgePlainBroadcast (haction : action ∈ e.bridgePlainBroadcast ctx)
    (hraw : action.frame? = some raw) : ∃ b, ctx.packet.FrameOf b raw := by
  unfold TransportEngine.bridgePlainBroadcast at haction
  split_ifs at haction
  · cases haction
  all_goals
    exact frameOf_singleton haction hraw rfl ⟨_, h.frameOf_self⟩

end

/-! ## Chains of nodes -/

section

variable (h : p.Received P)
include h

theorem Forwards.frameOf (hforwards : Forwards P p raw) : ∃ b, p.FrameOf b raw := by
  cases hforwards with
  | outbound t destType attached options haction hraw => exact frameOf_routeOutbound h haction hraw
  | bridged e ctx hctx haction hraw =>
    subst hctx
    exact frameOf_bridgePlainBroadcast h haction hraw
  | transport e ctx hctx haction hraw =>
    subst hctx
    exact frameOf_handleTransportForwarding h haction hraw
  | linkTable e ctx hctx haction hraw =>
    subst hctx
    exact frameOf_handleLinkTableRouting h haction hraw
  | proof e ctx hctx haction hraw =>
    subst hctx
    exact frameOf_processInboundProof h haction hraw

theorem Forwards.unpack_same (hforwards : Forwards P p raw) :
    ∃ q, RawPacket.unpack P raw = .ok q ∧ p.Same q := by
  obtain ⟨b, hframe⟩ := hforwards.frameOf h
  obtain ⟨q, hunpack, hsame, -⟩ := hframe.unpack_same h
  exact ⟨q, hunpack, hsame⟩

theorem Hop.received_same (hhop : Hop P p q) : q.Received P ∧ p.Same q := by
  obtain ⟨raw, received, hops, rx, hforwards, hunpack, rfl⟩ := hhop
  obtain ⟨q, hq, hsame⟩ := hforwards.unpack_same h
  obtain rfl := Except.ok.inj (hunpack.symm.trans hq)
  obtain rfl : received.raw = raw := (RawPacket.unpack_inv P hunpack).1
  exact ⟨⟨received.hops, received.rx, hunpack⟩,
    hsame.destinationHash, hsame.context, hsame.data, hsame.hashablePart, hsame.packetHash⟩

theorem chain_received_same (hchain : Relation.ReflTransGen (Hop P) p q) :
    q.Received P ∧ p.Same q := by
  induction hchain with
  | refl => exact ⟨h, .refl p⟩
  | tail _ hhop ih =>
    obtain ⟨hreceived, hsame⟩ := hhop.received_same ih.1
    exact ⟨hreceived, ih.2.trans hsame⟩

end

theorem linkId_createLinkEntry (nextHop : Hash16) (outbound receiving : InterfaceId)
    (remaining : UInt8) (now timeout : ℚ) :
    (createLinkEntry P p nextHop outbound remaining receiving now timeout).1 =
      LinkEngine.linkIdFromHashable P
        (RawPacket.computeHashablePart p.flags.headerType p.raw) p.data.length :=
  rfl

/-- Along every chain of nodes the packet keeps its hash and is never broken, and initiator,
transport nodes and responder compute the same link id. -/
theorem identity_survives_forwarding (p q : RawPacket) (hp : p.Received P)
    (hchain : Relation.ReflTransGen (Hop P) p q) :
    q.packetHash = p.packetHash ∧ (∀ raw, Forwards P q raw →
        ∃ next, RawPacket.unpack P raw = .ok next ∧ next.packetHash = p.packetHash) ∧
      let linkId := LinkEngine.linkIdFromHashable P
        (RawPacket.computeHashablePart p.flags.headerType p.raw) p.data.length
      (∀ nextHop outbound remaining receiving now timeout,
        (createLinkEntry P q nextHop outbound remaining receiving now timeout).1 = linkId) ∧
      LinkEngine.responderLinkId P q.data
        (RawPacket.computeHashablePart q.flags.headerType q.raw) = linkId := by
  obtain ⟨hreceived, hsame⟩ := chain_received_same hp hchain
  refine ⟨hsame.packetHash, fun raw hforwards => ?_, ?_, ?_⟩
  · obtain ⟨next, hunpack, hnext⟩ := hforwards.unpack_same hreceived
    exact ⟨next, hunpack, hnext.packetHash.trans hsame.packetHash⟩
  · intro nextHop outbound remaining receiving now timeout
    rw [linkId_createLinkEntry, hsame.hashablePart, hsame.data]
  · rw [LinkEngine.responderLinkId, hsame.hashablePart, hsame.data]
    rfl

/-- A link request as its initiator packs it, and as the first transport node receives it. -/
def sampleRequest : RawPacket where
  flags := ⟨header1, 0, broadcast, single,
    PacketType.linkRequest⟩
  hops := 0
  transportId := none
  destinationHash := .replicate 16 1
  context := PacketContext.none
  data := List.replicate 67 5
  raw := 0x02 :: 0 :: (List.replicate 16 1 ++ 0 :: List.replicate 67 5)
  packetHash := Primitives.sample.fullHash (0x02 :: (List.replicate 16 1 ++ 0 :: List.replicate 67 5))
  rx := ⟨none, none⟩

def sampleForwarded : RawPacket :=
  { sampleRequest with
    flags := ⟨header2, 0, transport, single,
      PacketType.linkRequest⟩
    hops := 1
    transportId := some (.replicate 16 9)
    raw := injectTransportHeaderWithHops sampleRequest (.replicate 16 9) 0 }

def sampleTables : RouteTables where
  pathTable := Std.ExtTreeMap.insert ∅ (.replicate 16 1) (.fromSingle
    ⟨0, .replicate 16 9, 2, 100, [], 7, .replicate 32 0, none⟩ 1)
  interfaces := ∅
  localDestinations := ∅

theorem identity_survives_forwarding_sample :
    sampleRequest.Received .sample ∧ Hop .sample sampleRequest sampleForwarded ∧
      sampleForwarded.packetHash = sampleRequest.packetHash := by
  have hp : sampleRequest.Received .sample := ⟨0, ⟨none, none⟩, by decide +kernel⟩
  have hhop : Hop .sample sampleRequest sampleForwarded := by
    refine ⟨sampleForwarded.raw, { sampleForwarded with hops := 0 }, 1, ⟨none, none⟩, ?_,
      by decide +kernel, rfl⟩
    have haction : .sendOnInterface 7 sampleForwarded.raw ∈
        sampleTables.routeOutboundWithOptions sampleRequest single none ⟨none, 0⟩ := by
      decide +kernel
    exact .outbound sampleTables single none ⟨none, 0⟩ haction rfl
  exact ⟨hp, hhop, (identity_survives_forwarding sampleRequest sampleForwarded hp (.single hhop)).1⟩

end Transport

end Rns
