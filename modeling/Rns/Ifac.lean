import Rns.Lib.Outcome
import Rns.Packet

/-!
# Interface access codes

A packet leaves an interface with the end of its signature in it, and all but that code masked with a
stream derived from it.
-/

namespace Rns

open Outcome

/-- `hkdf` for a length and an input that are not empty, and a salt. -/
structure Kdf where
  hkdf : ℕ → Bytes → Bytes → Bytes
  length_hkdf : ∀ length deriveFrom salt, (hkdf length deriveFrom salt).length = length

/-- The access codes of an interface; the identity has a private key, so that it always signs. -/
structure IfacState where
  size : ℕ
  key : Bytes
  sign : Bytes → Vector UInt8 64
  size_pos : 1 ≤ size

namespace IfacState

/-- An accepted size, in bits in the configuration file and in bytes at run time. -/
inductive Setting where
  | bits (n : UInt64)
  | bytes (n : UInt64)

/-- `extract_ifac_config`, the setter of `ifac_size_bytes`. -/
def Setting.size : Setting → ℕ
  | .bits n => max (n.toNat / 8) 1
  | .bytes n => max n.toNat 1

/-- `derive_ifac`, from the key and the identity it derives. -/
def derive (key : Bytes) (sign : Bytes → Vector UInt8 64) (size : ℕ) : IfacState :=
  ⟨max size 1, key, sign, le_max_right _ _⟩

variable (K : Kdf) (state : IfacState)

/-- The last bytes of the signature. -/
def code (raw : Bytes) : Bytes := (state.sign raw).toList.drop (64 - state.size)

/-- The mask on everything but the code. -/
def maskAround (mask raw : Bytes) : Bytes :=
  raw.mapIdx fun i byte => if i ≤ 1 ∨ i > state.size + 1 then byte ^^^ mask.getD i 0 else byte

/-- `mask_outbound`: `64 - size` must not underflow. -/
def maskOutbound (raw : Bytes) : Outcome Bytes :=
  if raw.length < 2 then .value raw
  else do
    require (state.size ≤ 64)
    let ifac := state.code raw
    let mask := K.hkdf (raw.length + state.size) ifac state.key
    let newRaw := (raw.headD 0 ||| 0x80) :: raw.getD 1 0 :: (ifac ++ raw.drop 2)
    return (state.maskAround mask newRaw).modifyHead (· ||| 0x80)

def unmaskInbound (raw : Bytes) : Outcome (Option Bytes) := do
  require (2 + state.size < 2 ^ 64)
  if raw.length ≤ 2 + state.size ∨ raw.headD 0 &&& 0x80 ≠ 0x80 then return none
  let ifac := (raw.drop 2).take state.size
  let unmasked := state.maskAround (K.hkdf raw.length ifac state.key) raw
  let newRaw := (unmasked.headD 0 &&& 0x7F) :: unmasked.getD 1 0 :: unmasked.drop (2 + state.size)
  require (state.size ≤ 64)
  return if ifac = state.code newRaw then some newRaw else none

variable {K state}

theorem maskAround_cons {ifac : Bytes} (h : ifac.length = state.size) (flags hops : UInt8)
    (rest mask : Bytes) : state.maskAround mask (flags :: hops :: (ifac ++ rest)) =
      (flags ^^^ mask.getD 0 0) :: (hops ^^^ mask.getD 1 0) ::
        (ifac ++ rest.mapIdx fun i byte => byte ^^^ mask.getD (i + state.size + 2) 0) := by
  have hifac : (ifac.mapIdx fun i byte => if i + 1 + 1 ≤ 1 ∨ i + 1 + 1 > state.size + 1
      then byte ^^^ mask.getD (i + 1 + 1) 0 else byte) = ifac := by
    refine List.ext_getElem (by simp) fun i hi _ => ?_
    rw [List.length_mapIdx] at hi
    rw [List.getElem_mapIdx, if_neg (by omega)]
  have hafter : ∀ i, i + state.size + 2 > state.size + 1 := by omega
  simp only [maskAround, List.mapIdx_cons, List.mapIdx_append, hifac, h]
  simp [hafter]

theorem flags_unmasked (flags mask : UInt8) :
    (((flags ||| 0x80) ^^^ mask ||| 0x80) ^^^ mask) &&& 0x7F = flags &&& 0x7F := by
  apply UInt8.toBitVec_inj.1
  ext i hi
  have hbit : (0x80 : UInt8).toBitVec[i] = false ∨ (0x7F : UInt8).toBitVec[i] = false := by
    revert i
    decide
  simp only [UInt8.toBitVec_and, UInt8.toBitVec_xor, UInt8.toBitVec_or, BitVec.getElem_and,
    BitVec.getElem_xor, BitVec.getElem_or]
  grind

theorem unmask_mask (hsize : state.size ≤ 64) {flags : UInt8} (hflags : flags &&& 0x80 = 0)
    (hops : UInt8) {rest : Bytes} (hrest : 1 ≤ rest.length) :
    (state.maskOutbound K (flags :: hops :: rest) >>= state.unmaskInbound K) =
      .value (some (flags :: hops :: rest)) := by
  have hclear : flags &&& 0x7F = flags := by
    revert flags
    decide +kernel
  have hset : ∀ byte : UInt8, (byte ||| 0x80) &&& 0x80 = 0x80 := by decide +kernel
  rw [maskOutbound, if_neg (by simp), require_of hsize, value_bind]
  dsimp only [List.length_cons, List.headD_cons, List.getD_cons_succ, List.getD_cons_zero,
    List.drop_succ_cons, List.drop_zero]
  have hlength : (state.code (flags :: hops :: rest)).length = state.size := by
    simp only [code, List.length_drop, Vector.length_toList]
    omega
  generalize hifac : state.code (flags :: hops :: rest) = ifac at hlength ⊢
  have hsame : ifac.length + rest.length + 1 + 1 = rest.length + 1 + 1 + state.size := by omega
  have htake (tail : Bytes) : (ifac ++ tail).take state.size = ifac := hlength ▸ List.take_left
  rw [maskAround_cons hlength, List.modifyHead_cons, pure_eq, value_bind,
    unmaskInbound, require_of (by omega), value_bind, if_neg (by simp [hset]; omega)]
  simp only [List.length_cons, List.length_append, List.length_mapIdx, hsame, List.drop_succ_cons,
    List.drop_zero, htake]
  generalize K.hkdf _ ifac state.key = mask
  have hid : rest.mapIdx (fun _ byte => byte) = rest := by simp [List.mapIdx_eq_iff]
  rw [maskAround_cons hlength, require_of hsize]
  simp [hlength, flags_unmasked, hclear, hifac, Nat.add_comm 2, hid, Function.comp_def]

/-- Unmasking undoes masking, and a packet that is unmasked carried its own code. -/
theorem access_code_round_trip (K : Kdf) (state : IfacState) (hsize : state.size ≤ 64) :
    (∀ raw : Bytes, 3 ≤ raw.length → raw.headD 0 &&& 0x80 = 0 →
      (state.maskOutbound K raw >>= state.unmaskInbound K) = .value (some raw)) ∧
    ∀ raw packet, state.unmaskInbound K raw = .value (some packet) →
      (raw.drop 2).take state.size = (state.sign packet).toList.drop (64 - state.size) := by
  refine ⟨fun raw hlong hflags => ?_, fun raw packet h => ?_⟩
  · obtain _ | ⟨flags, _ | ⟨hops, rest⟩⟩ := raw
    · simp at hlong
    · simp at hlong
    · exact unmask_mask hsize hflags hops (by simpa using hlong)
  · rw [unmaskInbound, require_of (by omega), require_of hsize] at h
    simp only [value_bind] at h
    split_ifs at h with hshort hcode
    · cases h
    · cases h
      exact hcode
    · cases h

def sampleKdf : Kdf := ⟨fun length _ _ => .replicate length 0x55, fun _ _ _ => List.length_replicate⟩

theorem access_code_round_trip_sample :
    let state := derive [] (fun raw => Bytes.fixed 64 raw 0) 8
    state.size ≤ 64 ∧ (state.maskOutbound sampleKdf [1, 2, 3] >>= state.unmaskInbound sampleKdf) =
      .value (some [1, 2, 3]) :=
  ⟨by decide, (access_code_round_trip _ _ (by decide)).1 _ (by decide) (by decide)⟩

/-- Nothing that is sent or received makes an accepted size panic if and only if the size is no larger
than a signature. -/
theorem accepted_size_usable_iff (K : Kdf) (key : Bytes) (sign : Bytes → Vector UInt8 64)
    (setting : Setting) :
    (∀ raw, (maskOutbound K (derive key sign setting.size) raw).Returns ∧
      (unmaskInbound K (derive key sign setting.size) raw).Returns) ↔
    match setting with
    | .bits n => n < 520
    | .bytes n => n ≤ 64 := by
  trans (derive key sign setting.size).size ≤ 64
  · generalize derive key sign setting.size = state
    refine ⟨fun h => ?_, fun hsize raw => ?_⟩
    · by_contra hlarge
      have hmask := (h [0, 0]).1
      rw [maskOutbound, if_neg (by simp), require_of_not hlarge] at hmask
      exact not_returns_panic hmask
    · rw [maskOutbound, unmaskInbound, require_of hsize, require_of (by omega)]
      simp only [value_bind]
      split_ifs <;> exact ⟨⟨_, rfl⟩, ⟨_, rfl⟩⟩
  · cases setting <;> simp [derive, Setting.size, UInt64.lt_iff_toNat_lt, UInt64.le_iff_toNat_le]
    omega

/-- A size of 65 bytes, with a packet of two bytes. -/
theorem oversized_code_panics :
    maskOutbound sampleKdf (derive [] (fun raw => Bytes.fixed 64 raw 0) (Setting.bytes 65).size) [0, 0] =
      .panic := by
  decide +kernel

end IfacState

end Rns
