import Mathlib
import Rns.Crypto.Primitives

/-!
# Packets on the wire

A packet is a byte of flags, a byte of hops, the transport node it is addressed to (second header
type only), the destination, a context byte and data.
-/

namespace Rns

open Bytes

abbrev Hash16 := Vector UInt8 16

abbrev Hash32 := Vector UInt8 32

/-! ## Constants -/

def mtu : ℕ := 500

def headerMinSize : ℕ := 19

def linkEcpubsize : ℕ := 64

namespace PacketType
def data : UInt8 := 0x00
def announce : UInt8 := 0x01
def linkRequest : UInt8 := 0x02
def proof : UInt8 := 0x03
end PacketType

namespace HeaderType
def header1 : UInt8 := 0x00
def header2 : UInt8 := 0x01
end HeaderType

namespace DestinationType
def single : UInt8 := 0x00
def group : UInt8 := 0x01
def plain : UInt8 := 0x02
def link : UInt8 := 0x03
end DestinationType

namespace TransportType
def broadcast : UInt8 := 0x00
def transport : UInt8 := 0x01
end TransportType

def flagSet : UInt8 := 0x01

namespace PacketContext
def none : UInt8 := 0x00
def resource : UInt8 := 0x01
def resourceAdv : UInt8 := 0x02
def resourceReq : UInt8 := 0x03
def resourceHmu : UInt8 := 0x04
def resourcePrf : UInt8 := 0x05
def resourceIcl : UInt8 := 0x06
def resourceRcl : UInt8 := 0x07
def cacheRequest : UInt8 := 0x08
def request : UInt8 := 0x09
def response : UInt8 := 0x0A
def pathResponse : UInt8 := 0x0B
def channel : UInt8 := 0x0E
def keepalive : UInt8 := 0xFA
def linkIdentify : UInt8 := 0xFB
def linkClose : UInt8 := 0xFC
def lrRtt : UInt8 := 0xFE
def lrProof : UInt8 := 0xFF
end PacketContext

/-! ## Flags -/

structure PacketFlags where
  headerType : UInt8
  contextFlag : UInt8
  transportType : UInt8
  destinationType : UInt8
  packetType : UInt8
  deriving DecidableEq

namespace PacketFlags

def pack (flags : PacketFlags) : UInt8 :=
  flags.headerType <<< 6 ||| flags.contextFlag <<< 5 ||| flags.transportType <<< 4 |||
    flags.destinationType <<< 2 ||| flags.packetType

def unpack (byte : UInt8) : PacketFlags where
  headerType := (byte &&& 0b01000000) >>> 6
  contextFlag := (byte &&& 0b00100000) >>> 5
  transportType := (byte &&& 0b00010000) >>> 4
  destinationType := (byte &&& 0b00001100) >>> 2
  packetType := byte &&& 0b00000011

def Fits (flags : PacketFlags) : Prop := ∃ byte, unpack byte = flags

theorem Fits.unpack_pack {flags : PacketFlags} (h : flags.Fits) : unpack flags.pack = flags := by
  have hall : ∀ byte, unpack (unpack byte).pack = unpack byte := by decide +kernel
  obtain ⟨byte, rfl⟩ := h
  exact hall byte

theorem Fits.headerType {flags : PacketFlags} (h : flags.Fits) :
    flags.headerType = HeaderType.header1 ∨ flags.headerType = HeaderType.header2 := by
  have hall : ∀ byte, (unpack byte).headerType = HeaderType.header1 ∨
      (unpack byte).headerType = HeaderType.header2 := by decide +kernel
  obtain ⟨byte, rfl⟩ := h
  exact hall byte

def InRange (flags : PacketFlags) : Prop :=
  flags.headerType < 2 ∧ flags.contextFlag < 2 ∧ flags.transportType < 2 ∧
    flags.destinationType < 4 ∧ flags.packetType < 4

instance (flags : PacketFlags) : Decidable flags.InRange := inferInstanceAs (Decidable (_ ∧ _))

theorem InRange.fits {flags : PacketFlags} (h : flags.InRange) : flags.Fits := by
  have hone : ∀ x : UInt8, x < 2 → x = 0 ∨ x = 1 := by decide +kernel
  have htwo : ∀ x : UInt8, x < 4 → x = 0 ∨ x = 1 ∨ x = 2 ∨ x = 3 := by decide +kernel
  obtain ⟨header, context, transport, destination, type⟩ := flags
  obtain ⟨hheader, hcontext, htransport, hdestination, htype⟩ := h
  refine ⟨pack ⟨header, context, transport, destination, type⟩, ?_⟩
  rcases hone _ hheader with rfl | rfl <;> rcases hone _ hcontext with rfl | rfl <;>
    rcases hone _ htransport with rfl | rfl <;>
    rcases htwo _ hdestination with rfl | rfl | rfl | rfl <;>
    rcases htwo _ htype with rfl | rfl | rfl | rfl <;> rfl

theorem pack_unpack (byte : UInt8) : (unpack byte).pack = byte &&& 0x7f := by
  revert byte
  decide +kernel

end PacketFlags

/-! ## Packets -/

inductive PacketError where
  | tooShort
  | exceedsMtu
  | missingTransportId
  | invalidHeaderType
  deriving Repr, DecidableEq

/-- Signal quality, as reported by the interface. -/
structure RxMetadata where
  rssi : Option ℤ
  snr : Option ℚ
  deriving DecidableEq

structure RawPacket where
  flags : PacketFlags
  hops : UInt8
  transportId : Option Hash16
  destinationHash : Hash16
  context : UInt8
  data : Bytes
  raw : Bytes
  packetHash : Hash32
  rx : RxMetadata
  deriving DecidableEq

namespace RawPacket

variable (P : Primitives)

/-- `compute_hashable_part`: neither the upper flag bits nor the hops nor the transport node. -/
def computeHashablePart (headerType : UInt8) (raw : Bytes) : Bytes :=
  (raw.headD 0 &&& 0b00001111) ::
    if headerType = HeaderType.header2 then raw.drop 18 else raw.drop 2

variable (flags : PacketFlags) (hops : UInt8) (destinationHash : Hash16)
  (transportId : Option Hash16) (context : UInt8)

def layout (data : Bytes) : Bytes :=
  let transport := match transportId with
    | some id => if flags.headerType = HeaderType.header2 then id.toList else []
    | none => []
  flags.pack :: hops :: (transport ++ destinationHash.toList ++ context :: data)

def packWithMaxMtu (data : Bytes) (maxMtu : ℕ) : Except PacketError RawPacket :=
  if flags.headerType = HeaderType.header2 ∧ transportId.isNone then .error .missingTransportId
  else
    let raw := layout flags hops destinationHash transportId context data
    if raw.length > maxMtu then .error .exceedsMtu
    else
      let packetHash := P.fullHash (computeHashablePart flags.headerType raw)
      .ok ⟨flags, hops, transportId, destinationHash, context, data, raw, packetHash, ⟨none, none⟩⟩

def pack (data : Bytes) : Except PacketError RawPacket :=
  packWithMaxMtu P flags hops destinationHash transportId context data mtu

def unpack (raw : Bytes) : Except PacketError RawPacket :=
  if raw.length < headerMinSize then .error .tooShort
  else
    let flags := PacketFlags.unpack (raw.getD 0 0)
    let hops := raw.getD 1 0
    let packetHash := P.fullHash (computeHashablePart flags.headerType raw)
    if flags.headerType = HeaderType.header2 then
      if raw.length < 35 then .error .tooShort
      else .ok ⟨flags, hops, some (fixed 16 raw 2), fixed 16 raw 18, raw.getD 34 0,
        raw.drop 35, raw, packetHash, ⟨none, none⟩⟩
    else if flags.headerType = HeaderType.header1 then
      if raw.length < 19 then .error .tooShort
      else .ok ⟨flags, hops, none, fixed 16 raw 2, raw.getD 18 0, raw.drop 19, raw,
        packetHash, ⟨none, none⟩⟩
    else .error .invalidHeaderType

theorem unpack_header1 {b hops context : UInt8} (destinationHash : Hash16) (data : Bytes)
    (h : (PacketFlags.unpack b).headerType = HeaderType.header1) :
    let raw := b :: hops :: (destinationHash.toList ++ context :: data)
    unpack P raw = .ok ⟨PacketFlags.unpack b, hops, none, destinationHash, context, data, raw,
      P.fullHash (computeHashablePart HeaderType.header1 raw), ⟨none, none⟩⟩ := by
  intro raw
  have hraw : raw = ([b, hops] ++ destinationHash.toList) ++ context :: data := by simp [raw]
  have hlen : ([b, hops] ++ destinationHash.toList).length = 18 := by simp
  have hdest : fixed 16 raw 2 = destinationHash :=
    hraw ▸ fixed_append [b, hops] destinationHash (context :: data)
  have hcontext : raw.getD 18 0 = context := by
    rw [hraw, List.getD_append_right _ _ _ _ hlen.le, hlen]
    rfl
  have hdata : raw.drop 19 = data := by
    rw [hraw, List.append_cons, List.drop_left' (by simp)]
  have hshort : ¬raw.length < 19 := by simp [raw]; omega
  have hne : HeaderType.header1 ≠ HeaderType.header2 := by decide
  have hzero : raw.getD 0 0 = b := rfl
  have hone : raw.getD 1 0 = hops := rfl
  simp only [unpack, headerMinSize, hshort, hzero, hone, h, hne, hdest, hcontext, hdata, if_false,
    if_true]

theorem unpack_header2 {b hops context : UInt8} (transportId destinationHash : Hash16)
    (data : Bytes) (h : (PacketFlags.unpack b).headerType = HeaderType.header2) :
    let raw := b :: hops :: (transportId.toList ++ destinationHash.toList ++ context :: data)
    unpack P raw = .ok ⟨PacketFlags.unpack b, hops, some transportId, destinationHash, context, data,
      raw, P.fullHash (computeHashablePart HeaderType.header2 raw), ⟨none, none⟩⟩ := by
  intro raw
  have hraw : raw = ([b, hops] ++ transportId.toList ++ destinationHash.toList) ++
      context :: data := by simp [raw]
  have hlen : ([b, hops] ++ transportId.toList ++ destinationHash.toList).length = 34 := by simp
  have htransport : fixed 16 raw 2 = transportId := by
    rw [hraw, List.append_assoc _ destinationHash.toList]
    exact fixed_append [b, hops] transportId _
  have hdest : fixed 16 raw 18 = destinationHash := by
    have hpre : ([b, hops] ++ transportId.toList).length = 18 := by simp
    rw [hraw, ← hpre]
    exact fixed_append ..
  have hcontext : raw.getD 34 0 = context := by
    rw [hraw, List.getD_append_right _ _ _ _ hlen.le, hlen]
    rfl
  have hdata : raw.drop 35 = data := by
    rw [hraw, List.append_cons, List.drop_left' (by simp)]
  have hshort : ¬raw.length < 35 := by simp [raw]; omega
  have hmin : ¬raw.length < 19 := by omega
  have hzero : raw.getD 0 0 = b := rfl
  have hone : raw.getD 1 0 = hops := rfl
  simp only [unpack, headerMinSize, hshort, hmin, hzero, hone, h, htransport, hdest, hcontext,
    hdata, if_false, if_true]

theorem unpack_inv {raw : Bytes} {p : RawPacket} (h : unpack P raw = .ok p) :
    p.raw = raw ∧ PacketFlags.unpack (raw.headD 0) = p.flags ∧
      p.packetHash = P.fullHash (computeHashablePart p.flags.headerType raw) ∧
      (p.flags.headerType = HeaderType.header1 ∧ p.transportId = Option.none ∧
          raw.drop 2 = p.destinationHash.toList ++ p.context :: p.data ∨
        p.flags.headerType = HeaderType.header2 ∧ ∃ id : Hash16, p.transportId = some id ∧
          raw.drop 2 = id.toList ++ (p.destinationHash.toList ++ p.context :: p.data)) := by
  have hpayload : ∀ off, off + 17 ≤ raw.length → raw.drop off =
      (fixed 16 raw off).toList ++ raw.getD (off + 16) 0 :: raw.drop (off + 17) := by
    intro off hlen
    have hcontext : off + 16 < raw.length := by omega
    rw [toList_fixed (by omega), List.getD_eq_getElem _ _ hcontext,
      ← List.drop_eq_getElem_cons hcontext, ← List.drop_drop, List.take_append_drop]
  have hzero : raw.getD 0 0 = raw.headD 0 := by cases raw <;> rfl
  rw [unpack] at h
  dsimp only at h
  split_ifs at h with hmin h2 hshort h1 hshort
  · obtain rfl := Except.ok.inj h
    refine ⟨rfl, hzero ▸ rfl, rfl, .inr ⟨h2, _, rfl, ?_⟩⟩
    have hskip : raw.drop 18 = (raw.drop 2).drop 16 := by rw [List.drop_drop]
    rw [← hpayload 18 (by omega), toList_fixed (by omega), hskip, List.take_append_drop]
  · obtain rfl := Except.ok.inj h
    exact ⟨rfl, hzero ▸ rfl, rfl, .inl ⟨h1, rfl, hpayload 2 (by omega)⟩⟩

/-- Whatever was packed from flags that fit, with a transport node exactly in the second header
type, unpacks to the same packet. -/
theorem unpack_pack {flags : PacketFlags} {hops : UInt8} {destinationHash : Hash16}
    {transportId : Option Hash16} {context : UInt8} {data : Bytes} {maxMtu : ℕ} {p : RawPacket}
    (hflags : flags.Fits) (htransport : transportId.isSome ↔ flags.headerType = HeaderType.header2)
    (h : packWithMaxMtu P flags hops destinationHash transportId context data maxMtu = .ok p) :
    unpack P p.raw = .ok p := by
  have hunpack := hflags.unpack_pack
  simp only [packWithMaxMtu] at h
  split_ifs at h with hmissing hlong
  obtain rfl := Except.ok.inj h
  rcases hflags.headerType with htype | htype
  · cases transportId with
    | some id => exact absurd (htype.symm.trans (htransport.mp rfl)) (by decide)
    | none =>
      have h1 : (PacketFlags.unpack flags.pack).headerType = HeaderType.header1 := by
        rw [hunpack, htype]
      simp only [layout, htype, List.nil_append]
      simpa only [hunpack] using unpack_header1 P destinationHash data h1
  · cases transportId with
    | none => exact absurd ⟨htype, rfl⟩ hmissing
    | some id =>
      have h2 : (PacketFlags.unpack flags.pack).headerType = HeaderType.header2 := by
        rw [hunpack, htype]
      simp only [layout, htype, if_true]
      simpa only [hunpack] using unpack_header2 P id destinationHash data h2

theorem layout_of_unpack {raw : Bytes} {p : RawPacket} (h : unpack P raw = .ok p) :
    layout p.flags p.hops p.destinationHash p.transportId p.context p.data =
      (raw.headD 0 &&& 0x7f) :: raw.drop 1 := by
  obtain ⟨-, hflags, -, hrest⟩ := unpack_inv P h
  have hlong : ¬raw.length < headerMinSize := fun hshort => by simp [unpack, hshort] at h
  have hhops : p.hops = raw.getD 1 0 := by
    unfold unpack at h
    dsimp only at h
    split_ifs at h <;> cases h <;> rfl
  have htail : raw.drop 1 = p.hops :: raw.drop 2 := by
    have hlt : 1 < raw.length := by
      unfold headerMinSize at hlong
      omega
    rw [hhops, List.getD_eq_getElem _ _ hlt, List.drop_eq_getElem_cons hlt]
  rw [htail, ← PacketFlags.pack_unpack, hflags]
  rcases hrest with ⟨-, htransport, hdata⟩ | ⟨htype, id, htransport, hdata⟩
  · rw [hdata, htransport]
    rfl
  · simp [layout, hdata, htransport, htype]

/-- What is packed unpacks to the same packet.  What is unpacked packs to the same bytes but for the
top bit of the first one, which belongs to the access code of the interface. -/
theorem codec_round_trip :
    (∀ flags hops destinationHash transportId context data p, flags.InRange →
      (transportId.isSome ↔ flags.headerType = HeaderType.header2) →
      pack P flags hops destinationHash transportId context data = .ok p →
      unpack P p.raw = .ok p ∧ p.flags = flags ∧ p.hops = hops ∧
        p.destinationHash = destinationHash ∧ p.transportId = transportId ∧ p.context = context ∧
        p.data = data) ∧
    ∀ raw p, unpack P raw = .ok p → raw.length ≤ mtu →
      ∃ q, pack P p.flags p.hops p.destinationHash p.transportId p.context p.data = .ok q ∧
        q.raw = (raw.headD 0 &&& 0x7f) :: raw.drop 1 ∧ (q.raw = raw ↔ raw.headD 0 &&& 0x80 = 0) := by
  constructor
  · intro flags hops destinationHash transportId context data p hflags htransport h
    refine ⟨unpack_pack P hflags.fits htransport h, ?_⟩
    simp only [pack, packWithMaxMtu] at h
    split_ifs at h
    cases h
    exact ⟨rfl, rfl, rfl, rfl, rfl, rfl⟩
  · intro raw p h hmtu
    have hlayout := layout_of_unpack P h
    obtain ⟨-, -, -, hrest⟩ := unpack_inv P h
    have hsome : ¬(p.flags.headerType = HeaderType.header2 ∧ p.transportId.isNone) := by
      rcases hrest with ⟨htype, -⟩ | ⟨-, id, htransport, -⟩
      · exact fun hno => absurd (htype.symm.trans hno.1) (by decide)
      · simp [htransport]
    cases raw with
    | nil => cases h
    | cons byte rest =>
      have hlen : ¬((byte &&& 0x7f) :: rest).length > mtu := not_lt.mpr hmtu
      refine ⟨_, by rw [pack, packWithMaxMtu, if_neg hsome]; simp only [hlayout]; exact if_neg hlen,
        rfl, ?_⟩
      have hbit : ∀ b : UInt8, b &&& 0x7f = b ↔ b &&& 0x80 = 0 := by decide +kernel
      simpa using hbit byte

theorem codec_round_trip_sample :
    ∃ p q, pack Primitives.sample ⟨0, 0, 0, 0, 1⟩ 3 (.replicate 16 7) none 0 [1] = .ok p ∧
      unpack Primitives.sample p.raw = .ok p ∧
      pack Primitives.sample p.flags p.hops p.destinationHash p.transportId p.context p.data = .ok q ∧
      q.raw = p.raw := by
  obtain ⟨hpack, hunpack⟩ := codec_round_trip Primitives.sample
  have h := (hpack ⟨0, 0, 0, 0, 1⟩ 3 (.replicate 16 7) none 0 [1] _ (by decide) (by decide) rfl).1
  obtain ⟨q, hq, -, hsame⟩ := hunpack _ _ h (by decide)
  exact ⟨_, q, rfl, h, hq, hsame.mpr (by decide)⟩

theorem top_bit_not_repacked :
    ∃ p q, unpack Primitives.sample (0x80 :: List.replicate 18 7) = .ok p ∧
      pack Primitives.sample p.flags p.hops p.destinationHash p.transportId p.context p.data = .ok q ∧
      q.raw ≠ p.raw :=
  ⟨_, _, rfl, rfl, by decide +kernel⟩

end RawPacket

end Rns
