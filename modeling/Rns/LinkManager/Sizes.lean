import Rns.Channel.Rings
import Rns.Crypto.Sealing
import Rns.LinkManager.Operations

/-!
# The sizes of what goes over a link

The data unit of a link follows from its MTU; for the smallest MTUs the computation falls below zero.
Messages of a channel are held against this data unit, but they are packed with the default MTU, and
their length field has 16 bits.
-/

namespace Rns

open RawPacket
open HeaderType (header1 header2)

/-! ## Packets -/

theorem RawPacket.length_layout_header1 (flags : PacketFlags) (hops : UInt8) (destinationHash : Hash16)
    (context : UInt8) (data : Bytes) :
    (layout flags hops destinationHash none context data).length = headerMinSize + data.length := by
  simp only [layout, List.nil_append, List.length_cons, List.length_append, Vector.length_toList,
    headerMinSize]
  omega

section

variable {P : Primitives} {linkId : LinkId} {packetType context : UInt8} {data : Bytes} {maxMtu : ℕ}

theorem linkPacket_isSome_iff : (linkPacket P linkId packetType context data maxMtu).isSome ↔
      headerMinSize + data.length ≤ maxMtu := by
  have hlength := length_layout_header1 (linkFlags packetType) 0 linkId context data
  unfold linkPacket packWithMaxMtu
  rw [if_neg (by simp [linkFlags, header1, header2])]
  dsimp only
  by_cases hfits : headerMinSize + data.length ≤ maxMtu
  · rw [if_neg (by omega)]
    exact iff_of_true rfl hfits
  · rw [if_pos (by omega)]
    exact iff_of_false (by simp [Except.toOption]) hfits

theorem linkPacket_eq_some {packet : RawPacket}
    (h : linkPacket P linkId packetType context data maxMtu = some packet) :
    packet.flags = linkFlags packetType ∧ packet.destinationHash = linkId ∧
      packet.context = context ∧ packet.data = data ∧
      packet.raw.length = headerMinSize + data.length := by
  have hlength := length_layout_header1 (linkFlags packetType) 0 linkId context data
  unfold linkPacket packWithMaxMtu at h
  rw [if_neg (by simp [linkFlags, header1, header2])] at h
  dsimp only at h
  split_ifs at h
  · cases h
  · obtain rfl := Option.some.inj h
    exact ⟨rfl, rfl, rfl, rfl, hlength⟩

theorem unpack_linkPacket (htype : (linkFlags packetType).Fits) {packet : RawPacket}
    (h : linkPacket P linkId packetType context data maxMtu = some packet) :
    unpack P packet.raw = .ok packet := by
  rw [linkPacket] at h
  cases hpack : packWithMaxMtu P (linkFlags packetType) 0 linkId none context data
      maxMtu with
  | error e =>
    rw [hpack] at h
    cases h
  | ok packed =>
    rw [hpack] at h
    obtain rfl := Option.some.inj h
    exact unpack_pack P htype (by simp [linkFlags, header1, header2])
      hpack

end

/-! ## The data unit of a link -/

namespace LinkSession

variable (P : Primitives) (K : KeyPrimitives)

/-- The data unit is computed without a subtraction below zero, lies between zero and the MTU, and
whatever has its length fits a packet once it is sealed. -/
structure MduOk (s : LinkSession) : Prop where
  no_underflow : 1 ≤ (s.mtu.toNat - (1 + headerMinSize + 48)) / 16 * 16
  pos : 0 < s.mdu
  lt : s.mdu < s.mtu.toNat
  fits : ∀ (token : Token) (plaintext : Bytes) (iv : Block) (linkId : LinkId) (context : UInt8),
    plaintext.length = s.mdu → ∃ sealedData packet,
      token.encryptWithIv P plaintext iv = .value sealedData ∧
        linkPacket P linkId PacketType.data context sealedData s.mtu.toNat = some packet ∧
        packet.raw.length ≤ s.mtu.toNat

/-- A handshake leaves a session with an MTU: that of the request, or of the proof of an initiator;
without signalling it is the default, or that of the initiator. -/
inductive Negotiates : UInt32 → LinkSession → Prop
  | request {sign : Bytes → Vector UInt8 64} {ownerSigPubBytes : Vector UInt8 32}
      {data hashablePart lrproof : Bytes} {destHash : Hash16} {hops : UInt8} {now : ℚ}
      {random : Vector UInt8 32} {session : LinkSession} {mtu : Option UInt32} {mode : LinkMode}
      (accepted : newResponder P K sign ownerSigPubBytes data hashablePart destHash hops now random =
        .ok (session, lrproof))
      (signalled : parseSignalling (data.drop linkEcpubsize) = .ok (mtu, mode)) :
      Negotiates (mtu.getD (UInt32.ofNat Rns.mtu)) session
  | proof {s session : LinkSession} {data lrrtt : Bytes} {peerSigPubBytes : Vector UInt8 32} {now : ℚ}
      {iv : Block} {actions : List LinkAction} {mtu : Option UInt32} {mode : LinkMode}
      (sized : s.mdu = computeMdu s.mtu.toNat)
      (accepted : s.handleLrproof P K data peerSigPubBytes now iv =
        .value (session, .ok (lrrtt, actions)))
      (signalled : parseSignalling (data.drop 96) = .ok (mtu, mode)) :
      Negotiates (mtu.getD s.mtu) session

variable {P K}

theorem Negotiates.sized {mtu : UInt32} {session : LinkSession} (h : Negotiates P K mtu session) :
    session.mtu = mtu ∧ session.mdu = computeMdu mtu.toNat := by
  cases h with
  | request accepted signalled =>
    obtain ⟨peerPub, peerMtu, key, hanswers⟩ := newResponder_cases P K accepted
    rw [hanswers.signalling] at signalled
    cases signalled
    exact ⟨hanswers.mtu, hanswers.mtu ▸ hanswers.mdu⟩
  | proof sized accepted signalled =>
    rcases handleLrproof_cases P K accepted with ⟨-, e, herror⟩ | ⟨-, peerPub, confirmed, key, haccepts⟩
    · cases herror
    · have hmtu := (validateLrproof_ok P haccepts.valid).2.2.1
      rw [hmtu, Except.ok.injEq, Prod.mk.injEq] at signalled
      rw [← signalled.1]
      refine ⟨haccepts.mtu, ?_⟩
      rw [haccepts.mdu]
      cases confirmed with
      | none => exact sized
      | some mtu => rfl

theorem mduOk_iff {s : LinkSession} (hmdu : s.mdu = computeMdu s.mtu.toNat) :
    s.MduOk P ↔ 84 ≤ s.mtu.toNat := by
  have hheader : headerMinSize = 19 := rfl
  have hlt := s.mtu.toNat_lt
  constructor
  · intro h
    have hunderflow := h.no_underflow
    rw [hheader] at hunderflow
    omega
  · intro hle
    have hvalue : s.mdu = (s.mtu.toNat - 68) / 16 * 16 - 1 := by
      rw [hmdu, computeMdu, hheader, if_neg (by omega)]
    refine ⟨by rw [hheader]; omega, by omega, by omega, ?_⟩
    intro token plaintext iv linkId context hlength
    obtain ⟨sealedData, hsealed, hsize⟩ := token.encryptWithIv_length ..
    have hfits : headerMinSize + sealedData.length ≤ s.mtu.toNat := by
      rw [hsize, hlength, hheader, Token.overhead]
      omega
    obtain ⟨packet, hpacket⟩ := Option.isSome_iff_exists.mp (linkPacket_isSome_iff.mpr hfits)
    obtain ⟨-, -, -, -, hraw⟩ := linkPacket_eq_some hpacket
    exact ⟨sealedData, packet, hsealed, hpacket, hraw ▸ hfits⟩

/-- The data unit of every link that a handshake leaves is well defined exactly if its MTU is at
least 84. -/
theorem mdu_well_defined_iff {mtu : UInt32} {session : LinkSession}
    (h : Negotiates P K mtu session) : session.MduOk P ↔ 84 ≤ mtu.toNat := by
  obtain ⟨hmtu, hmdu⟩ := h.sized
  rw [← hmtu] at hmdu ⊢
  exact mduOk_iff hmdu

section Example

def sampleResponder (mtu : UInt32) : Except LinkError (LinkSession × Bytes) :=
  newResponder .sample .sample (fun _ => .replicate 64 0) (.replicate 32 9)
    (List.replicate 64 1 ++ Rns.signalling (some mtu) .aes256Cbc) [] (.replicate 16 7) 0 0
    (.replicate 32 3)

theorem mdu_well_defined_iff_sample :
    ∃ session, Negotiates .sample .sample 1000 session ∧ session.MduOk .sample := by
  have hsome : (sampleResponder 1000).toOption.isSome := by decide +kernel
  obtain ⟨⟨session, lrproof⟩, hsession⟩ := Option.isSome_iff_exists.mp hsome
  have haccepted : sampleResponder 1000 = .ok (session, lrproof) := by
    cases hmade : sampleResponder 1000 with
    | error e => simp [hmade, Except.toOption] at hsession
    | ok made => rw [hmade] at hsession; exact congrArg _ (Option.some.inj hsession)
  have hsignalled : parseSignalling ((List.replicate 64 1 ++
      Rns.signalling (some 1000) .aes256Cbc).drop linkEcpubsize) = .ok (some 1000, .aes256Cbc) := by
    decide +kernel
  have hnegotiates : Negotiates .sample .sample 1000 session := .request haccepted hsignalled
  exact ⟨session, hnegotiates, (mdu_well_defined_iff hnegotiates).mpr (by decide)⟩

/-- A request with an MTU of 83 is accepted; its data unit lies below zero and wraps. -/
theorem mdu_underflows :
    (sampleResponder 83).toOption.map (fun made => (made.1.mtu, made.1.mdu)) =
      some (83, 2 ^ 64 - 1) := by
  decide +kernel

end Example

end LinkSession

/-! ## Envelopes -/

namespace Channel

theorem send_of_fits (c : Channel) (msgtype : UInt16) (payload : Bytes) (linkMdu : ℕ)
    (hready : c.isReadyToSend) (hfits : channelEnvelopeOverhead + payload.length ≤ linkMdu) (now : ℚ) :
    ∃ c', c.send msgtype payload now linkMdu =
      .ok (c', [.sendOnLink (packEnvelope msgtype c.nextSequence payload) c.nextSequence]) := by
  refine ⟨{ c with
    nextSequence := c.nextSequence + 1
    txRing := c.txRing ++
      [⟨c.nextSequence, packEnvelope msgtype c.nextSequence payload, 1, now, false⟩] }, ?_⟩
  rw [send, if_neg (not_not.mpr hready), if_neg (by rw [length_packEnvelope]; omega)]

theorem take_mod_eq_self_iff (payload : Bytes) :
    payload.take (payload.length % 65536) = payload ↔ payload.length < 65536 := by
  constructor
  · intro h
    have hlength := congrArg List.length h
    rw [List.length_take] at hlength
    omega
  · intro h
    rw [Nat.mod_eq_of_lt h, List.take_length]

/-- A message that is accepted opens to what was sent exactly if its length fits the length field. -/
theorem sent_envelope_opens_iff {c c' : Channel} {msgtype sequence : UInt16} {payload raw : Bytes}
    {now : ℚ} {linkMdu : ℕ}
    (h : c.send msgtype payload now linkMdu = .ok (c', [.sendOnLink raw sequence])) :
    unpackEnvelope raw = .ok (msgtype, sequence, payload) ↔ payload.length < 65536 := by
  have hactions := (send_ok h).1
  simp only [List.cons.injEq, ChannelAction.sendOnLink.injEq, and_true] at hactions
  obtain ⟨rfl, rfl⟩ := hactions
  rw [unpackEnvelope_packEnvelope, Except.ok.injEq, Prod.mk.injEq, Prod.mk.injEq,
    take_mod_eq_self_iff]
  exact and_iff_right rfl |>.trans (and_iff_right rfl)

theorem sent_envelope_opens_iff_sample :
    ∃ c' raw, (new 1).send 4 [1, 2, 3] 0 431 = .ok (c', [.sendOnLink raw 0]) ∧
      unpackEnvelope raw = .ok (4, 0, [1, 2, 3]) := by
  obtain ⟨made, hmade⟩ := send_of_fits (new 1) 4 [1, 2, 3] 431 (by decide +kernel) (by decide) 0
  exact ⟨made, _, hmade, (sent_envelope_opens_iff hmade).mpr (by decide)⟩

/-- A link with the greatest MTU accepts a message of 65536 bytes, which opens to an empty one. -/
theorem long_envelope_opens_empty :
    ∃ c' raw, (new 1).send 4 (List.replicate 65536 7) 0 (computeMdu 0x1FFFFF) =
        .ok (c', [.sendOnLink raw 0]) ∧ unpackEnvelope raw = .ok (4, 0, []) := by
  obtain ⟨made, hmade⟩ := send_of_fits (new 1) 4 (List.replicate 65536 7) (computeMdu 0x1FFFFF)
    (by decide +kernel) (by rw [List.length_replicate]; decide) 0
  refine ⟨made, _, hmade, ?_⟩
  rw [unpackEnvelope_packEnvelope, List.length_replicate]
  rfl

end Channel

/-! ## Messages on the wire -/

/-- The links use the session tokens of the sources. -/
structure LinkEnv.UsesTokens (E : LinkEnv) (P : Primitives) : Prop where
  encrypt : ∀ token iv data, E.encrypt token iv data = token.cipher P iv data
  decrypt : ∀ token data, E.decrypt token data = token.plain P data

theorem LinkEnv.usesTokens_sample : LinkEnv.sample.UsesTokens .sample :=
  ⟨fun _ _ _ => rfl, fun _ _ => rfl⟩

theorem Token.length_cipher (P : Primitives) (token : Token) (iv : Vector UInt8 16) (data : Bytes) :
    (token.cipher P iv data).length = overhead + (data.length / 16 + 1) * 16 := by
  obtain ⟨out, hout, hlength⟩ := token.encryptWithIv_length ..
  rw [cipher, hout]
  exact hlength

theorem Token.plain_cipher {P : Primitives} (hP : P.CbcInverts) (token : Token)
    (iv : Vector UInt8 16) (data : Bytes) : token.plain P (token.cipher P iv data) = some data := by
  obtain ⟨out, hout, -⟩ := token.encryptWithIv_length ..
  rw [cipher, hout, plain, decrypt_encryptWithIv hP hout]

section

variable {P : Primitives} {E : LinkEnv}

theorem linkPacket_encrypt_isSome_iff (hE : E.UsesTokens P) (token : Token) (iv : Vector UInt8 16)
    (linkId : LinkId) (packetType context : UInt8) (data : Bytes) :
    (linkPacket P linkId packetType context (E.encrypt token iv data) Rns.mtu).isSome ↔
      data.length ≤ 431 := by
  rw [linkPacket_isSome_iff, hE.encrypt, token.length_cipher]
  simp only [headerMinSize, Token.overhead, Rns.mtu]
  omega

/-- A message is on the wire: a packet for the link is sent that decrypts to its envelope, and the
packet is remembered with its sequence number. -/
def OnWire (P : Primitives) (E : LinkEnv) (m : LinkManager) (linkId : LinkId) (token : Token)
    (envelope : Bytes) (sequence : UInt16) (out : List LinkManagerAction) : Prop :=
  ∃ packet l, LinkManagerAction.sendPacket packet.raw DestinationType.link none ∈ out ∧
    unpack P packet.raw = .ok packet ∧ packet.destinationHash = linkId ∧
    packet.context = PacketContext.channel ∧ E.decrypt token packet.data = some envelope ∧
    m.links[linkId]? = some l ∧ l.pendingChannelPackets[packet.packetHash]? = some sequence

/-- A message that is accepted is put on the wire exactly if it is at most 425 bytes long, whatever
the MTU of the link. -/
theorem accepted_message_on_wire_iff (hP : P.CbcInverts) (hE : E.UsesTokens P) {m m' : LinkManager}
    {linkId : LinkId} {l : ManagedLink} (hl : m.links[linkId]? = some l) {token : Token}
    (htoken : l.engine.token = some token) {channel : Channel} (hchannel : l.channel = some channel)
    {msgtype : UInt16} {payload : Bytes} {rng : Entropy} {now : ℚ} {out : List LinkManagerAction}
    (h : m.sendChannelMessage P E linkId msgtype payload rng now = .ok (m', out)) :
    OnWire P E m' linkId token (packEnvelope msgtype channel.nextSequence payload)
      channel.nextSequence out ↔ payload.length ≤ 425 := by
  simp only [LinkManager.sendChannelMessage, hl, ManagedLink.sendChannelMessage, hchannel] at h
  cases hsend : channel.send msgtype payload now l.mdu with
  | error e =>
    rw [hsend] at h
    cases h
  | ok sent =>
    obtain ⟨channel', actions⟩ := sent
    obtain ⟨rfl, -, -⟩ := Channel.send_ok hsend
    generalize henvelope : packEnvelope msgtype channel.nextSequence payload = envelope at h ⊢
    have hlength : envelope.length = 6 + payload.length := by
      rw [← henvelope, length_packEnvelope]
      rfl
    have hfits := linkPacket_encrypt_isSome_iff hE token (rng.iv 0) linkId PacketType.data
      PacketContext.channel envelope
    rw [hsend] at h
    simp only [Except.map, henvelope, ManagedLink.processChannelActions,
      ManagedLink.processChannelAction, ManagedLink.encrypt, htoken, Option.map_some,
      Except.ok.injEq, Prod.mk.injEq, List.append_nil] at h
    cases hpacket : linkPacket P linkId PacketType.data PacketContext.channel
        (E.encrypt ..) Rns.mtu with
    | none =>
      rw [hpacket] at h hfits
      obtain ⟨-, rfl⟩ := h
      refine iff_of_false ?_ ?_
      · rintro ⟨packet, l', hmem, -⟩
        exact absurd hmem List.not_mem_nil
      have hlong : ¬envelope.length ≤ 431 := fun hle => nomatch hfits.mpr hle
      omega
    | some packet =>
      rw [hpacket] at h hfits
      obtain ⟨rfl, rfl⟩ := h
      obtain ⟨-, hdest, hcontext, hdata, -⟩ := linkPacket_eq_some hpacket
      have hshort := hfits.mp rfl
      refine iff_of_true ⟨packet, _, by simp, ?_, hdest, hcontext, ?_,
        Std.ExtTreeMap.getElem?_insert_self, Std.ExtTreeMap.getElem?_insert_self⟩ (by omega)
      · exact unpack_linkPacket ⟨0x0C, rfl⟩ hpacket
      · rw [hdata, hE.decrypt, hE.encrypt, token.plain_cipher hP]

end

def ManagedLink.wide : ManagedLink := { ManagedLink.sample true with mtu := 1000 }

theorem exists_sent {sent : Except String (LinkManager × List LinkManagerAction)}
    (h : sent.toOption.isSome) : ∃ m out, sent = .ok (m, out) := by
  cases sent with
  | error e => cases h
  | ok result => exact ⟨result.1, result.2, rfl⟩

theorem accepted_message_on_wire_iff_sample :
    ∃ m' out, (LinkManager.sample .wide).sendChannelMessage .sample .sample (.replicate 16 0) 4
        [1, 2, 3] .zero 5 = .ok (m', out) ∧
      OnWire .sample .sample m' (.replicate 16 0) LinkEngine.zeroToken (packEnvelope 4 0 [1, 2, 3]) 0
        out := by
  obtain ⟨m', out, h⟩ := @exists_sent ((LinkManager.sample .wide).sendChannelMessage .sample
    .sample (.replicate 16 0) 4 [1, 2, 3] .zero 5) (by decide +kernel)
  exact ⟨m', out, h, (accepted_message_on_wire_iff Primitives.cbcInverts_sample
    LinkEnv.usesTokens_sample (LinkManager.links_sample .wide) rfl rfl h).mpr (by decide)⟩

/-- A link of twice the default MTU accepts a message of 426 bytes and sends nothing. -/
theorem wide_message_not_sent :
    let sent := (LinkManager.sample .wide).sendChannelMessage .sample .sample (.replicate 16 0) 4
      (List.replicate 426 7) .zero 5
    ManagedLink.wide.engine.state = .active ∧ ManagedLink.wide.mdu = 927 ∧
      sent.toOption.map (·.2) = some [] := by
  decide +kernel

end Rns
