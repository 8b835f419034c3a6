import Rns.Packet

/-!
# Frames of one packet

On its way a packet is put into different frames.  All of them carry the same payload behind the header
and agree in the lower four bits of the flags, and that is all the packet hash sees.
-/

namespace Rns

variable {b : UInt8} {raw : Bytes}

namespace RawPacket

variable (P : Primitives)

variable (p : RawPacket)

def Received : Prop :=
  ∃ hops rx, unpack P p.raw = .ok { p with hops, rx }

def payload : Bytes :=
  p.destinationHash.toList ++ p.context :: p.data

def lowFlags : UInt8 :=
  p.raw.headD 0 &&& 0x0F

/-- Another frame of the packet, with the flags `b`. -/
inductive FrameOf (p : RawPacket) (b : UInt8) : Bytes → Prop
  | header1 (hops : UInt8) (htype : (PacketFlags.unpack b).headerType = HeaderType.header1)
      (hlow : b &&& 0x0F = p.lowFlags) : FrameOf p b (b :: hops :: p.payload)
  | header2 (hops : UInt8) (transportId : Hash16)
      (htype : (PacketFlags.unpack b).headerType = HeaderType.header2)
      (hlow : b &&& 0x0F = p.lowFlags) : FrameOf p b (b :: hops :: (transportId.toList ++ p.payload))

/-- The same packet, as another node holds it. -/
structure Same (p q : RawPacket) : Prop where
  destinationHash : q.destinationHash = p.destinationHash
  context : q.context = p.context
  data : q.data = p.data
  hashablePart : computeHashablePart q.flags.headerType q.raw =
    computeHashablePart p.flags.headerType p.raw
  packetHash : q.packetHash = p.packetHash

theorem Same.refl : p.Same p := ⟨rfl, rfl, rfl, rfl, rfl⟩

theorem Same.trans {p q r : RawPacket} (h : p.Same q) (h' : q.Same r) : p.Same r :=
  ⟨h'.destinationHash.trans h.destinationHash, h'.context.trans h.context, h'.data.trans h.data,
    h'.hashablePart.trans h.hashablePart, h'.packetHash.trans h.packetHash⟩

section

variable {P} {p : RawPacket}

section

variable (h : p.Received P)
include h

theorem Received.flags_eq : PacketFlags.unpack (p.raw.headD 0) = p.flags := by
  obtain ⟨hops, rx, h⟩ := h
  exact (unpack_inv P h).2.1

theorem Received.drop_eq :
    p.flags.headerType = HeaderType.header1 ∧ p.transportId = none ∧ p.raw.drop 2 = p.payload ∨
      p.flags.headerType = HeaderType.header2 ∧ ∃ id : Hash16, p.transportId = some id ∧
        p.raw.drop 2 = id.toList ++ p.payload ∧ p.raw.drop 18 = p.payload := by
  obtain ⟨hops, rx, h⟩ := h
  rcases (unpack_inv P h).2.2.2 with hone | ⟨htype, id, hid, hdrop⟩
  · exact .inl hone
  · refine .inr ⟨htype, id, hid, hdrop, ?_⟩
    change p.raw.drop 2 = id.toList ++ p.payload at hdrop
    have hskip : p.raw.drop 18 = (p.raw.drop 2).drop 16 := by rw [List.drop_drop]
    rw [hskip, hdrop, List.drop_left' (by simp)]

theorem Received.header2_of_transportId {id : Hash16} (hid : p.transportId = some id) :
    p.flags.headerType = HeaderType.header2 := by
  rcases h.drop_eq with ⟨-, hnone, -⟩ | ⟨h2, -⟩
  · rw [hnone] at hid
    cases hid
  · exact h2

theorem Received.hashablePart :
    computeHashablePart p.flags.headerType p.raw = p.lowFlags :: p.payload := by
  rcases h.drop_eq with ⟨htype, -, hdrop⟩ | ⟨htype, -, -, -, hdrop⟩
  · simp [computeHashablePart, htype, hdrop, lowFlags, HeaderType.header1, HeaderType.header2]
  · simp [computeHashablePart, htype, hdrop, lowFlags]

theorem Received.packetHash : p.packetHash = P.fullHash (p.lowFlags :: p.payload) := by
  rw [← h.hashablePart]
  obtain ⟨hops, rx, h⟩ := h
  exact (unpack_inv P h).2.2.1

theorem Received.frameOf_withHops (hops : UInt8) :
    p.FrameOf (p.raw.headD 0) (p.raw.headD 0 :: hops :: p.raw.drop 2) := by
  have hflags := congrArg PacketFlags.headerType h.flags_eq
  rcases h.drop_eq with ⟨htype, -, hdrop⟩ | ⟨htype, id, -, hdrop, -⟩
  · rw [hdrop]
    exact .header1 hops (hflags.trans htype) rfl
  · rw [hdrop]
    exact .header2 hops id (hflags.trans htype) rfl

theorem Received.frameOf_self : p.FrameOf (p.raw.headD 0) p.raw := by
  have hlen : 2 ≤ p.raw.length := by
    by_contra hshort
    have hnil : p.raw.drop 2 = [] := List.drop_of_length_le (by omega)
    rcases h.drop_eq with ⟨-, -, hdrop⟩ | ⟨-, id, -, hdrop, -⟩ <;> simp [hnil, payload] at hdrop
  obtain ⟨b, hops, rest, hraw⟩ : ∃ b hops rest, p.raw = b :: hops :: rest := by
    match hraw : p.raw with
    | [] | [_] => simp [hraw] at hlen
    | b :: hops :: rest => exact ⟨b, hops, rest, rfl⟩
  simpa only [hraw, List.headD_cons, List.drop_succ_cons, List.drop_zero] using
    h.frameOf_withHops hops

end

theorem FrameOf.set_hops (h : p.FrameOf b raw) (hops : UInt8) : p.FrameOf b (raw.set 1 hops) := by
  cases h with
  | header1 _ htype hlow => exact .header1 hops htype hlow
  | header2 _ id htype hlow => exact .header2 hops id htype hlow

theorem Received.frameOf_withTransport (h : p.Received P) (hops : UInt8) (id : Hash16)
    (htype : (PacketFlags.unpack b).headerType = HeaderType.header2)
    (hlow : b &&& 0x0F = p.lowFlags) :
    p.FrameOf b (b :: hops :: (id.toList ++
      p.raw.drop (if p.flags.headerType = HeaderType.header2 then 18 else 2))) := by
  rcases h.drop_eq with ⟨h1, -, hdrop⟩ | ⟨h2, -, -, -, hdrop⟩
  · have hne : HeaderType.header1 ≠ HeaderType.header2 := by decide
    rw [h1, if_neg hne, hdrop]
    exact .header2 hops id htype hlow
  · rw [if_pos h2, hdrop]
    exact .header2 hops id htype hlow

theorem Received.frameOf_stripped (h : p.Received P) (hops : UInt8)
    (h2 : p.flags.headerType = HeaderType.header2)
    (htype : (PacketFlags.unpack b).headerType = HeaderType.header1)
    (hlow : b &&& 0x0F = p.lowFlags) : p.FrameOf b (b :: hops :: p.raw.drop 18) := by
  rcases h.drop_eq with ⟨h1, -⟩ | ⟨-, -, -, -, hdrop⟩
  · exact absurd (h1.symm.trans h2) (by decide)
  · rw [hdrop]
    exact .header1 hops htype hlow

theorem FrameOf.unpack_same (h : p.Received P) (hframe : p.FrameOf b raw) :
    ∃ q, unpack P raw = .ok q ∧ p.Same q ∧ q.flags = PacketFlags.unpack b := by
  cases hframe with
  | header1 hops htype hlow =>
    refine ⟨_, unpack_header1 P p.destinationHash p.data htype, ⟨rfl, rfl, rfl, ?_, ?_⟩, rfl⟩
    · rw [h.hashablePart, ← hlow]
      simp [computeHashablePart, htype, payload, HeaderType.header1, HeaderType.header2]
    · rw [h.packetHash, ← hlow]
      simp [computeHashablePart, payload, HeaderType.header1, HeaderType.header2]
  | header2 hops transportId htype hlow =>
    rw [payload, ← List.append_assoc]
    refine ⟨_, unpack_header2 P transportId p.destinationHash p.data htype,
      ⟨rfl, rfl, rfl, ?_, ?_⟩, rfl⟩
    · rw [h.hashablePart, ← hlow]
      simp [computeHashablePart, htype, payload]
    · rw [h.packetHash, ← hlow]
      simp [computeHashablePart, payload]

end

end RawPacket

end Rns
