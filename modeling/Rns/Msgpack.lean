import Rns.Lib.Bytes

/-!
# Msgpack

The encoder and decoder for the values in advertisements, hashmap updates and requests.  The decoder
gives back what is left of the input instead of the number of bytes it took.
-/

namespace Rns

open List (cons_append nil_append append_assoc length_append length_cons)
open Int64 (ofNat not_le le_iff_toInt_le toInt_inj)
open Bytes (be)

/-! ## Strings -/

/-- Inside a character: how many bytes are missing, and the range of the next one. -/
structure Utf8State where
  missing : ℕ
  low : UInt8
  high : UInt8
  deriving DecidableEq

namespace Utf8State

def start : Utf8State := ⟨0, 0x80, 0xBF⟩

/-- The table of well-formed UTF-8 sequences. -/
def next (s : Utf8State) (b : UInt8) : Option Utf8State :=
  if s.missing = 0 then
    if b ≤ 0x7F then some start
    else if 0xC2 ≤ b ∧ b ≤ 0xDF then some ⟨1, 0x80, 0xBF⟩
    else if b = 0xE0 then some ⟨2, 0xA0, 0xBF⟩
    else if b = 0xED then some ⟨2, 0x80, 0x9F⟩
    else if 0xE1 ≤ b ∧ b ≤ 0xEF then some ⟨2, 0x80, 0xBF⟩
    else if b = 0xF0 then some ⟨3, 0x90, 0xBF⟩
    else if 0xF1 ≤ b ∧ b ≤ 0xF3 then some ⟨3, 0x80, 0xBF⟩
    else if b = 0xF4 then some ⟨3, 0x80, 0x8F⟩
    else none
  else if s.low ≤ b ∧ b ≤ s.high then some ⟨s.missing - 1, 0x80, 0xBF⟩
  else none

end Utf8State

/-- `core::str::from_utf8` accepts the bytes. -/
def validUtf8 (bytes : Bytes) : Bool :=
  bytes.foldlM Utf8State.next Utf8State.start = some Utf8State.start

/-- A string, by its bytes. -/
structure Utf8 where
  bytes : Bytes
  valid : validUtf8 bytes
  deriving DecidableEq

namespace Msgpack

inductive Value where
  | nil
  | bool (v : Bool)
  | uint (v : UInt64)
  | int (v : Int64)
  /-- A float, by its bits. -/
  | float (bits : UInt64)
  | bin (data : Bytes)
  | str (s : Utf8)
  | array (items : List Value)
  | map (entries : List (Value × Value))

inductive Error where
  | unexpectedEof
  | unsupportedFormat (b : UInt8)
  | invalidUtf8
  | trailingData
  | maxDepthExceeded
  deriving Repr, DecidableEq

namespace Value

def asUint : Value → Option UInt64
  | .uint v => some v
  | _ => none

def asBin : Value → Option Bytes
  | .bin data => some data
  | _ => none

def asArray : Value → Option (List Value)
  | .array items => some items
  | _ => none

def asMap : Value → Option (List (Value × Value))
  | .map entries => some entries
  | _ => none

def isNil : Value → Bool
  | .nil => true
  | _ => false

def mapGet (v : Value) (key : Bytes) : Option Value :=
  v.asMap.bind fun entries => entries.findSome? fun
    | (.str s, value) => if s.bytes = key then some value else none
    | _ => none

end Value

/-! ## Encoder -/

def packUint (v : UInt64) : Bytes :=
  if v ≤ 127 then [v.toUInt8]
  else if v ≤ 0xFF then 0xcc :: be 1 v.toNat
  else if v ≤ 0xFFFF then 0xcd :: be 2 v.toNat
  else if v ≤ 0xFFFFFFFF then 0xce :: be 4 v.toNat
  else 0xcf :: be 8 v.toNat

/-- Negative numbers in two's complement, in as few bytes as they need. -/
def packInt (v : Int64) : Bytes :=
  if 0 ≤ v then packUint v.toUInt64
  else if -32 ≤ v then [v.toUInt64.toUInt8]
  else if -128 ≤ v then 0xd0 :: be 1 v.toUInt64.toNat
  else if -32768 ≤ v then 0xd1 :: be 2 v.toUInt64.toNat
  else if -2147483648 ≤ v then 0xd2 :: be 4 v.toUInt64.toNat
  else 0xd3 :: be 8 v.toUInt64.toNat

def packBin (data : Bytes) : Bytes :=
  if data.length ≤ 0xFF then 0xc4 :: be 1 data.length ++ data
  else if data.length ≤ 0xFFFF then 0xc5 :: be 2 data.length ++ data
  else 0xc6 :: be 4 data.length ++ data

def packStr (s : Utf8) : Bytes :=
  let len := s.bytes.length
  if len ≤ 31 then (0xa0 ||| UInt8.ofNat len) :: s.bytes
  else if len ≤ 0xFF then 0xd9 :: be 1 len ++ s.bytes
  else if len ≤ 0xFFFF then 0xda :: be 2 len ++ s.bytes
  else 0xdb :: be 4 len ++ s.bytes

def packCount (short long16 long32 : UInt8) (len : ℕ) : Bytes :=
  if len ≤ 15 then [short ||| UInt8.ofNat len]
  else if len ≤ 0xFFFF then long16 :: be 2 len
  else long32 :: be 4 len

mutual

def pack : Value → Bytes
  | .nil => [0xc0]
  | .bool true => [0xc3]
  | .bool false => [0xc2]
  | .uint v => packUint v
  | .int v => packInt v
  | .float bits => 0xcb :: be 8 bits.toNat
  | .bin data => packBin data
  | .str s => packStr s
  | .array items => packCount 0x90 0xdc 0xdd items.length ++ packItems items
  | .map entries => packCount 0x80 0xde 0xdf entries.length ++ packEntries entries

def packItems : List Value → Bytes
  | [] => []
  | item :: items => pack item ++ packItems items

def packEntries : List (Value × Value) → Bytes
  | [] => []
  | (k, v) :: entries => pack k ++ (pack v ++ packEntries entries)

end

def packStrMap (entries : List (Utf8 × Value)) : Bytes :=
  pack (.map (entries.map fun (k, v) => (.str k, v)))

/-! ## Decoder -/

abbrev Decoded := Except Error (Value × Bytes)

/-- A field of `k` bytes that says how to go on. -/
def sized (k : ℕ) (data : Bytes) (next : ℕ → Bytes → Decoded) : Decoded :=
  if data.length < k then .error .unexpectedEof
  else next (Bytes.readBe (data.take k)) (data.drop k)

/-- A number of `k` bytes. -/
def number (k : ℕ) (data : Bytes) (value : ℕ → Value) : Decoded :=
  sized k data fun n data => .ok (value n, data)

def unpackBinBytes (len : ℕ) (data : Bytes) : Decoded :=
  if data.length < len then .error .unexpectedEof else .ok (.bin (data.take len), data.drop len)

def unpackStrBytes (len : ℕ) (data : Bytes) : Decoded :=
  if data.length < len then .error .unexpectedEof
  else if h : validUtf8 (data.take len) then .ok (.str ⟨data.take len, h⟩, data.drop len)
  else .error .invalidUtf8

section

variable (decode : Bytes → Decoded)

def unpackItems : ℕ → Bytes → Except Error (List Value × Bytes)
  | 0, data => .ok ([], data)
  | count + 1, data => do
    let (item, data) ← decode data
    let (items, data) ← unpackItems count data
    return (item :: items, data)

/-- Every element takes a byte at least, so a longer array does not fit. -/
def unpackArrayEntries (count : ℕ) (data : Bytes) : Decoded :=
  if count > data.length then .error .unexpectedEof
  else do
    let (items, data) ← unpackItems decode count data
    return (.array items, data)

def unpackPairs : ℕ → Bytes → Except Error (List (Value × Value) × Bytes)
  | 0, data => .ok ([], data)
  | count + 1, data => do
    let (k, data) ← decode data
    let (v, data) ← decode data
    let (entries, data) ← unpackPairs count data
    return ((k, v) :: entries, data)

def unpackMapEntries (count : ℕ) (data : Bytes) : Decoded :=
  if count * 2 > data.length then .error .unexpectedEof
  else do
    let (entries, data) ← unpackPairs decode count data
    return (.map entries, data)

end

/-- `f32 as f64` on the bits: a wider exponent, and small numbers get normal. -/
def widen (bits : UInt32) : UInt64 :=
  let sign := (bits >>> 31).toUInt64 <<< 63
  let exponent := ((bits >>> 23) &&& 0xFF).toUInt64
  let mantissa := (bits &&& 0x7FFFFF).toUInt64
  if exponent = 0xFF then
    let quiet : UInt64 := if mantissa = 0 then 0 else (1 : UInt64) <<< 51
    sign ||| (0x7FF : UInt64) <<< 52 ||| quiet ||| mantissa <<< 29
  else if exponent = 0 then
    if mantissa = 0 then sign
    else
      let top := UInt64.ofNat (Nat.log2 mantissa.toNat)
      sign ||| (top + 874) <<< 52 ||| (mantissa <<< (52 - top) &&& 0xFFFFFFFFFFFFF)
  else sign ||| (exponent + 896) <<< 52 ||| mantissa <<< 29

/-- The formats with a byte of their own. -/
def unpackTagged (decode : Bytes → Decoded) (b : UInt8) (data : Bytes) : Decoded :=
  match b with
  | 0xc0 => .ok (.nil, data)
  | 0xc2 => .ok (.bool false, data)
  | 0xc3 => .ok (.bool true, data)
  | 0xc4 => sized 1 data unpackBinBytes
  | 0xc5 => sized 2 data unpackBinBytes
  | 0xc6 => sized 4 data unpackBinBytes
  | 0xca => number 4 data fun n => .float (widen (.ofNat n))
  | 0xcb => number 8 data fun n => .float (.ofNat n)
  | 0xcc => number 1 data fun n => .uint (.ofNat n)
  | 0xcd => number 2 data fun n => .uint (.ofNat n)
  | 0xce => number 4 data fun n => .uint (.ofNat n)
  | 0xcf => number 8 data fun n => .uint (.ofNat n)
  | 0xd0 => number 1 data fun n => .int (Int8.ofNat n).toInt64
  | 0xd1 => number 2 data fun n => .int (Int16.ofNat n).toInt64
  | 0xd2 => number 4 data fun n => .int (Int32.ofNat n).toInt64
  | 0xd3 => number 8 data fun n => .int (ofNat n)
  | 0xd9 => sized 1 data unpackStrBytes
  | 0xda => sized 2 data unpackStrBytes
  | 0xdb => sized 4 data unpackStrBytes
  | 0xdc => sized 2 data (unpackArrayEntries decode)
  | 0xdd => sized 4 data (unpackArrayEntries decode)
  | 0xde => sized 2 data (unpackMapEntries decode)
  | 0xdf => sized 4 data (unpackMapEntries decode)
  | _ => .error (.unsupportedFormat b)

/-- `unpack_depth`, by the levels of nesting that are left. -/
def unpackDepth : ℕ → Bytes → Decoded
  | _, [] => .error .unexpectedEof
  | 0, _ :: _ => .error .maxDepthExceeded
  | levels + 1, b :: data =>
    if b ≤ 0x7f then .ok (.uint b.toUInt64, data)
    else if b ≤ 0x8f then unpackMapEntries (unpackDepth levels) (b &&& 0x0f).toNat data
    else if b ≤ 0x9f then unpackArrayEntries (unpackDepth levels) (b &&& 0x0f).toNat data
    else if b ≤ 0xbf then unpackStrBytes (b &&& 0x1f).toNat data
    else if b ≥ 0xe0 then .ok (.int b.toInt8.toInt64, data)
    else unpackTagged (unpackDepth levels) b data

/-- `unpack`; `MAX_DEPTH` is 32, and the outermost value has depth zero. -/
def unpack (data : Bytes) : Decoded := unpackDepth 33 data

def unpackExact (data : Bytes) : Except Error Value := do
  let (value, rest) ← unpack data
  if rest ≠ [] then .error .trailingData else return value

/-- `unpack` with the number of bytes it took. -/
def unpackConsumed (data : Bytes) : Except Error (Value × ℕ) := do
  let (value, rest) ← unpack data
  return (value, data.length - rest.length)

/-! ## Reading back -/

mutual

/-- Every length fits the longest field there is for it. -/
def Value.Sized : Value → Prop
  | .bin data => data.length < 2 ^ 32
  | .str s => s.bytes.length < 2 ^ 32
  | .array items => items.length < 2 ^ 32 ∧ SizedItems items
  | .map entries => entries.length < 2 ^ 32 ∧ SizedEntries entries
  | _ => True

def SizedItems : List Value → Prop
  | [] => True
  | item :: items => item.Sized ∧ SizedItems items

def SizedEntries : List (Value × Value) → Prop
  | [] => True
  | (k, v) :: entries => k.Sized ∧ v.Sized ∧ SizedEntries entries

end

mutual

/-- Non-negative numbers unsigned: their encoding does not tell them from unsigned ones. -/
def Value.norm : Value → Value
  | .int v => if 0 ≤ v then .uint v.toUInt64 else .int v
  | .array items => .array (normItems items)
  | .map entries => .map (normEntries entries)
  | v => v

def normItems : List Value → List Value
  | [] => []
  | item :: items => item.norm :: normItems items

def normEntries : List (Value × Value) → List (Value × Value)
  | [] => []
  | (k, v) :: entries => (k.norm, v.norm) :: normEntries entries

end

mutual

def Value.levels : Value → ℕ
  | .array items => itemLevels items + 1
  | .map entries => entryLevels entries + 1
  | _ => 1

def itemLevels : List Value → ℕ
  | [] => 0
  | item :: items => max item.levels (itemLevels items)

def entryLevels : List (Value × Value) → ℕ
  | [] => 0
  | (k, v) :: entries => max k.levels (max v.levels (entryLevels entries))

end

theorem sized_be {k n : ℕ} {data : Bytes} (next : ℕ → Bytes → Decoded) :
    sized k (be k n ++ data) next = next (n % 256 ^ k) data := by
  have hlen : ¬(be k n ++ data).length < k := by simp
  rw [sized, if_neg hlen, List.take_left' (Bytes.length_be k n), List.drop_left' (Bytes.length_be k n),
    Bytes.readBe_be]

theorem unpackBinBytes_append {data rest : Bytes} :
    unpackBinBytes data.length (data ++ rest) = .ok (.bin data, rest) := by
  simp [unpackBinBytes]

theorem unpackStrBytes_append {s : Utf8} {rest : Bytes} :
    unpackStrBytes s.bytes.length (s.bytes ++ rest) = .ok (.str s, rest) := by
  have hvalid := s.valid
  simp [unpackStrBytes, hvalid]

variable {next : (Bytes → Decoded) → ℕ → Bytes → Decoded} {tag : UInt8}

theorem unpackDepth_sized {k : ℕ}
    (htag : ∀ decode data, unpackTagged decode tag data = sized k data (next decode))
    (htagged : 0xc0 ≤ tag ∧ tag < 0xe0) {levels n : ℕ} {data : Bytes} :
    unpackDepth (levels + 1) (tag :: (be k n ++ data)) =
      next (unpackDepth levels) (n % 256 ^ k) data := by
  have h1 : ¬tag ≤ 0x7f := by grind
  have h2 : ¬tag ≤ 0x8f := by grind
  have h3 : ¬tag ≤ 0x9f := by grind
  have h4 : ¬tag ≤ 0xbf := by grind
  have h5 : ¬tag ≥ 0xe0 := by grind
  simp only [unpackDepth, h1, h2, h3, h4, h5, if_false, htag, sized_be]

/-! ### Numbers -/

theorem unpackDepth_number {k : ℕ} {value : ℕ → Value}
    (htag : ∀ decode data, unpackTagged decode tag data = number k data value)
    (htagged : 0xc0 ≤ tag ∧ tag < 0xe0) {levels n : ℕ} {rest : Bytes} :
    unpackDepth (levels + 1) (tag :: be k n ++ rest) = .ok (value (n % 256 ^ k), rest) := by
  have hsized : ∀ decode data,
      unpackTagged decode tag data = sized k data fun n data => .ok (value n, data) := htag
  exact unpackDepth_sized hsized htagged ..

theorem ofNat_field {v : UInt64} {k : ℕ} (hlt : v.toNat < 256 ^ k) :
    UInt64.ofNat (v.toNat % 256 ^ k) = v := by
  rw [Nat.mod_eq_of_lt hlt]
  exact UInt64.ofNat_toNat

theorem unpackDepth_packUint {v : UInt64} {levels : ℕ} {rest : Bytes} :
    unpackDepth (levels + 1) (packUint v ++ rest) = .ok (.uint v, rest) := by
  unfold packUint
  split_ifs with h1 h2 h3 h4
  · have hlow : v.toNat ≤ 127 := h1
    have hbyte : v.toUInt8 ≤ 0x7f := by
      rw [UInt8.le_iff_toNat_le, UInt64.toNat_toUInt8]
      exact (Nat.mod_le _ _).trans hlow
    have hvalue : v.toUInt8.toUInt64 = v := by
      apply UInt64.toNat_inj.1
      simp
      omega
    simp only [cons_append, nil_append, unpackDepth, hbyte, if_true, hvalue]
  · rw [unpackDepth_number (fun _ _ => rfl) (by decide), ofNat_field (Nat.lt_succ_of_le h2)]
  · rw [unpackDepth_number (fun _ _ => rfl) (by decide), ofNat_field (Nat.lt_succ_of_le h3)]
  · rw [unpackDepth_number (fun _ _ => rfl) (by decide), ofNat_field (Nat.lt_succ_of_le h4)]
  · rw [unpackDepth_number (fun _ _ => rfl) (by decide), ofNat_field v.toNat_lt]

theorem bmod_toUInt64 {v : Int64} {m : ℕ} (hm : m = 2 ^ 8 ∨ m = 2 ^ 16 ∨ m = 2 ^ 32 ∨ m = 2 ^ 64)
    (hlow : -(m / 2 : ℤ) ≤ v.toInt) (hneg : v.toInt < 0) :
    Int.bmod (v.toUInt64.toNat % m : ℕ) m = v.toInt := by
  have hv : v.toInt = Int.bmod v.toUInt64.toNat (2 ^ 64) := BitVec.toInt_eq_toNat_bmod v.toBitVec
  rcases hm with rfl | rfl | rfl | rfl <;> simp only [Int.bmod] at hv ⊢ <;> omega

theorem unpackDepth_packInt {v : Int64} (hneg : v < 0) {levels : ℕ} {rest : Bytes} :
    unpackDepth (levels + 1) (packInt v ++ rest) = .ok (.int v, rest) := by
  have hpos : ¬0 ≤ v := not_le.2 hneg
  rw [Int64.lt_iff_toInt_lt] at hneg
  unfold packInt
  rw [if_neg hpos]
  split_ifs with h1 h2 h3 h4
  · rw [le_iff_toInt_le] at h1
    have hlow : -32 ≤ v.toInt := h1
    have hbmod : Int.bmod (v.toUInt64.toNat % 2 ^ 8 : ℕ) (2 ^ 8) = v.toInt :=
      bmod_toUInt64 (.inl rfl) (le_trans (by norm_num) hlow) hneg
    have hneg' : v.toInt < 0 := hneg
    have hbyte : ∀ b : UInt8, b.toNat = v.toUInt64.toNat % 2 ^ 8 →
        0xe0 ≤ b ∧ b.toInt8.toInt64 = v := by
      intro b hb
      have hint : b.toInt8.toInt = Int.bmod b.toNat (2 ^ 8) := BitVec.toInt_eq_toNat_bmod b.toBitVec
      rw [hb, hbmod] at hint
      refine ⟨?_, by rw [← toInt_inj, Int8.toInt_toInt64, hint]⟩
      rw [UInt8.le_iff_toNat_le, hb]
      simp only [Int.bmod] at hbmod
      change 224 ≤ _
      omega
    obtain ⟨hhigh, hvalue⟩ := hbyte v.toUInt64.toUInt8 (by simp)
    generalize v.toUInt64.toUInt8 = b at hhigh hvalue
    have h1 : ¬b ≤ 0x7f := by grind
    have h2 : ¬b ≤ 0x8f := by grind
    have h3 : ¬b ≤ 0x9f := by grind
    have h4 : ¬b ≤ 0xbf := by grind
    simp only [cons_append, nil_append, unpackDepth, h1, h2, h3, h4, if_false, ge_iff_le,
      hhigh, if_true, hvalue]
  · rw [unpackDepth_number (fun _ _ => rfl) (by decide)]
    have hvalue : (Int8.ofNat (v.toUInt64.toNat % 256 ^ 1)).toInt64 = v := by
      rw [← toInt_inj, Int8.toInt_toInt64, Int8.toInt_ofNat']
      exact bmod_toUInt64 (.inl rfl) (le_iff_toInt_le.1 h2) hneg
    rw [hvalue]
  · rw [unpackDepth_number (fun _ _ => rfl) (by decide)]
    have hvalue : (Int16.ofNat (v.toUInt64.toNat % 256 ^ 2)).toInt64 = v := by
      rw [← toInt_inj, Int16.toInt_toInt64, Int16.toInt_ofNat']
      exact bmod_toUInt64 (.inr (.inl rfl)) (le_iff_toInt_le.1 h3) hneg
    rw [hvalue]
  · rw [unpackDepth_number (fun _ _ => rfl) (by decide)]
    have hvalue : (Int32.ofNat (v.toUInt64.toNat % 256 ^ 4)).toInt64 = v := by
      rw [← toInt_inj, Int32.toInt_toInt64, Int32.toInt_ofNat']
      exact bmod_toUInt64 (.inr (.inr (.inl rfl))) (le_iff_toInt_le.1 h4) hneg
    rw [hvalue]
  · rw [unpackDepth_number (fun _ _ => rfl) (by decide)]
    have hvalue : ofNat (v.toUInt64.toNat % 256 ^ 8) = v := by
      rw [← toInt_inj, Int64.toInt_ofNat']
      exact bmod_toUInt64 (.inr (.inr (.inr rfl))) v.le_toInt hneg
    rw [hvalue]

/-! ### Byte strings and strings -/

theorem unpackDepth_length {k n : ℕ} (hn : n < 256 ^ k)
    (htag : ∀ decode data, unpackTagged decode tag data = sized k data (next decode))
    (htagged : 0xc0 ≤ tag ∧ tag < 0xe0) {levels : ℕ} {data : Bytes} :
    unpackDepth (levels + 1) (tag :: (be k n ++ data)) = next (unpackDepth levels) n data := by
  rw [unpackDepth_sized htag htagged, Nat.mod_eq_of_lt hn]

theorem unpackDepth_packBin {data : Bytes} (hlen : data.length < 2 ^ 32) {levels : ℕ} {rest : Bytes} :
    unpackDepth (levels + 1) (packBin data ++ rest) = .ok (.bin data, rest) := by
  unfold packBin
  split_ifs with h1 h2 <;> rw [cons_append, cons_append, append_assoc]
  · rw [unpackDepth_length (Nat.lt_succ_of_le h1) (fun _ _ => rfl) (by decide)]
    exact unpackBinBytes_append ..
  · rw [unpackDepth_length (Nat.lt_succ_of_le h2) (fun _ _ => rfl) (by decide)]
    exact unpackBinBytes_append ..
  · rw [unpackDepth_length hlen (fun _ _ => rfl) (by decide)]
    exact unpackBinBytes_append ..

theorem short_str : ∀ n < 32, let b := 0xa0 ||| UInt8.ofNat n
    ¬b ≤ 0x7f ∧ ¬b ≤ 0x8f ∧ ¬b ≤ 0x9f ∧ b ≤ 0xbf ∧ (b &&& 0x1f).toNat = n := by
  decide

theorem short_array : ∀ n < 16, let b := 0x90 ||| UInt8.ofNat n
    ¬b ≤ 0x7f ∧ ¬b ≤ 0x8f ∧ b ≤ 0x9f ∧ (b &&& 0x0f).toNat = n := by
  decide

theorem short_map : ∀ n < 16, let b := 0x80 ||| UInt8.ofNat n
    ¬b ≤ 0x7f ∧ b ≤ 0x8f ∧ (b &&& 0x0f).toNat = n := by
  decide

theorem unpackDepth_packStr {s : Utf8} (hlen : s.bytes.length < 2 ^ 32) {levels : ℕ} {rest : Bytes} :
    unpackDepth (levels + 1) (packStr s ++ rest) = .ok (.str s, rest) := by
  unfold packStr
  dsimp only
  split_ifs with h1 h2 h3
  · obtain ⟨hb1, hb2, hb3, hb4, hlen⟩ := short_str s.bytes.length (Nat.lt_succ_of_le h1)
    simp only [cons_append, unpackDepth, hb1, hb2, hb3, hb4, if_false, if_true, hlen]
    exact unpackStrBytes_append
  all_goals rw [cons_append, cons_append, append_assoc]
  · rw [unpackDepth_length (Nat.lt_succ_of_le h2) (fun _ _ => rfl) (by decide)]
    exact unpackStrBytes_append
  · rw [unpackDepth_length (Nat.lt_succ_of_le h3) (fun _ _ => rfl) (by decide)]
    exact unpackStrBytes_append
  · rw [unpackDepth_length hlen (fun _ _ => rfl) (by decide)]
    exact unpackStrBytes_append

/-! ### Arrays and maps -/

theorem unpackDepth_packCount_array {n : ℕ} (hn : n < 2 ^ 32) {levels : ℕ} {data : Bytes} :
    unpackDepth (levels + 1) (packCount 0x90 0xdc 0xdd n ++ data) =
      unpackArrayEntries (unpackDepth levels) n data := by
  unfold packCount
  split_ifs with h1 h2
  · obtain ⟨hb1, hb2, hb3, hcount⟩ := short_array n (Nat.lt_succ_of_le h1)
    simp only [cons_append, nil_append, unpackDepth, hb1, hb2, hb3, if_false, if_true, hcount]
  · exact unpackDepth_length (Nat.lt_succ_of_le h2) (fun _ _ => rfl) (by decide)
  · exact unpackDepth_length hn (fun _ _ => rfl) (by decide)

theorem unpackDepth_packCount_map {n : ℕ} (hn : n < 2 ^ 32) {levels : ℕ} {data : Bytes} :
    unpackDepth (levels + 1) (packCount 0x80 0xde 0xdf n ++ data) =
      unpackMapEntries (unpackDepth levels) n data := by
  unfold packCount
  split_ifs with h1 h2
  · obtain ⟨hb1, hb2, hcount⟩ := short_map n (Nat.lt_succ_of_le h1)
    simp only [cons_append, nil_append, unpackDepth, hb1, hb2, if_false, if_true, hcount]
  · exact unpackDepth_length (Nat.lt_succ_of_le h2) (fun _ _ => rfl) (by decide)
  · exact unpackDepth_length hn (fun _ _ => rfl) (by decide)

theorem length_pack_pos (v : Value) : 0 < (pack v).length := by
  have hcount : ∀ short long16 long32 n, 0 < (packCount short long16 long32 n).length := by
    intro short long16 long32 n
    unfold packCount
    split_ifs <;> simp
  cases v with
  | bool v => cases v <;> simp [pack]
  | uint v =>
    simp only [pack, packUint]
    split_ifs <;> simp
  | int v =>
    simp only [pack, packInt, packUint]
    split_ifs <;> simp
  | bin data =>
    simp only [pack, packBin]
    split_ifs <;> simp
  | str s =>
    simp only [pack, packStr]
    split_ifs <;> simp
  | array | map =>
    rw [pack, length_append]
    exact Nat.add_pos_left (hcount _ _ _ _) _
  | nil => simp [pack]
  | float bits => simp [pack]

theorem length_packItems (items : List Value) : items.length ≤ (packItems items).length := by
  induction items with
  | nil => simp
  | cons item items ih =>
    have hpos := length_pack_pos item
    simp only [packItems, length_append, length_cons]
    omega

theorem length_packEntries (entries : List (Value × Value)) :
    entries.length * 2 ≤ (packEntries entries).length := by
  induction entries with
  | nil => simp
  | cons entry entries ih =>
    have hk := length_pack_pos entry.1
    have hv := length_pack_pos entry.2
    simp only [packEntries, length_append, length_cons]
    omega

mutual

theorem unpackDepth_pack (v : Value) (h : v.Sized) (levels : ℕ) (hlevels : v.levels ≤ levels)
    (rest : Bytes) : unpackDepth levels (pack v ++ rest) = .ok (v.norm, rest) := by
  obtain ⟨levels, rfl⟩ : ∃ n, levels = n + 1 := by
    refine ⟨levels - 1, ?_⟩
    cases v <;> simp only [Value.levels] at hlevels <;> omega
  match v with
  | .nil => rfl
  | .bool true => rfl
  | .bool false => rfl
  | .uint v => exact unpackDepth_packUint ..
  | .int v =>
    rw [Value.norm]
    split_ifs with hpos
    · rw [pack, packInt, if_pos hpos]
      exact unpackDepth_packUint ..
    · exact unpackDepth_packInt (not_le.1 hpos) ..
  | .float bits =>
    rw [pack, unpackDepth_number (fun _ _ => rfl) (by decide), ofNat_field bits.toNat_lt]
    rfl
  | .bin data =>
    rw [Value.Sized] at h
    exact unpackDepth_packBin h ..
  | .str s =>
    rw [Value.Sized] at h
    exact unpackDepth_packStr h ..
  | .array items =>
    rw [Value.Sized] at h
    rw [Value.levels] at hlevels
    have hitems := unpackItems_pack items h.2 levels (Nat.le_of_succ_le_succ hlevels) rest
    have hfits : ¬items.length > (packItems items ++ rest).length := by
      have hlen := length_packItems items
      rw [length_append]
      omega
    rw [pack, append_assoc, unpackDepth_packCount_array h.1, unpackArrayEntries, if_neg hfits,
      hitems]
    rfl
  | .map entries =>
    rw [Value.Sized] at h
    rw [Value.levels] at hlevels
    have hentries := unpackPairs_pack entries h.2 levels (Nat.le_of_succ_le_succ hlevels) rest
    have hfits : ¬entries.length * 2 > (packEntries entries ++ rest).length := by
      have hlen := length_packEntries entries
      rw [length_append]
      omega
    rw [pack, append_assoc, unpackDepth_packCount_map h.1, unpackMapEntries, if_neg hfits, hentries]
    rfl

theorem unpackItems_pack (items : List Value) (h : SizedItems items) (levels : ℕ)
    (hlevels : itemLevels items ≤ levels) (rest : Bytes) :
    unpackItems (unpackDepth levels) items.length (packItems items ++ rest) =
      .ok (normItems items, rest) := by
  match items with
  | [] => rfl
  | item :: items =>
    rw [SizedItems] at h
    rw [itemLevels, max_le_iff] at hlevels
    have hitem := unpackDepth_pack item h.1 levels hlevels.1 (packItems items ++ rest)
    have hitems := unpackItems_pack items h.2 levels hlevels.2 rest
    rw [packItems, append_assoc, length_cons, unpackItems, hitem]
    change (unpackItems (unpackDepth levels) items.length (packItems items ++ rest)).bind _ = _
    rw [hitems]
    rfl

theorem unpackPairs_pack (entries : List (Value × Value)) (h : SizedEntries entries) (levels : ℕ)
    (hlevels : entryLevels entries ≤ levels) (rest : Bytes) :
    unpackPairs (unpackDepth levels) entries.length (packEntries entries ++ rest) =
      .ok (normEntries entries, rest) := by
  match entries with
  | [] => rfl
  | (k, v) :: entries =>
    rw [SizedEntries] at h
    rw [entryLevels, max_le_iff, max_le_iff] at hlevels
    have hk := unpackDepth_pack k h.1 levels hlevels.1 (pack v ++ (packEntries entries ++ rest))
    have hv := unpackDepth_pack v h.2.1 levels hlevels.2.1 (packEntries entries ++ rest)
    have hentries := unpackPairs_pack entries h.2.2 levels hlevels.2.2 rest
    rw [packEntries, append_assoc, append_assoc, length_cons, unpackPairs, hk]
    change (unpackDepth levels (pack v ++ (packEntries entries ++ rest))).bind _ = _
    rw [hv]
    change (unpackPairs (unpackDepth levels) entries.length (packEntries entries ++ rest)).bind _ = _
    rw [hentries]
    rfl

end

theorem unpack_pack {v : Value} (h : v.Sized) (hlevels : v.levels ≤ 33) (rest : Bytes) :
    unpack (pack v ++ rest) = .ok (v.norm, rest) :=
  unpackDepth_pack v h 33 hlevels rest

theorem unpackExact_pack {v : Value} (h : v.Sized) (hlevels : v.levels ≤ 33) :
    unpackExact (pack v) = .ok v.norm := by
  have hunpack := unpack_pack h hlevels []
  rw [List.append_nil] at hunpack
  rw [unpackExact, hunpack]
  rfl

/-- The decoder gives the normal form of a value, and takes the bytes of its encoding exactly. -/
theorem unpackConsumed_pack (v : Value) (h : v.Sized) (hlevels : v.levels ≤ 33) (rest : Bytes) :
    unpackConsumed (pack v ++ rest) = .ok (v.norm, (pack v).length) := by
  have hunpack := unpack_pack h hlevels rest
  have htaken : (pack v ++ rest).length - rest.length = (pack v).length := by
    rw [length_append, Nat.add_sub_cancel]
  rw [unpackConsumed, hunpack]
  change Except.ok (v.norm, (pack v ++ rest).length - rest.length) = _
  rw [htaken]

/-- A map with a signed key, which comes back unsigned, and a byte after it. -/
theorem unpackConsumed_pack_map :
    unpackConsumed (pack (.map [(.int 5, .array [.int (-3), .bin [1, 2]])]) ++ [9]) =
      .ok (.map [(.uint 5, .array [.int (-3), .bin [1, 2]])], 8) := by
  have h : (Value.map [(.int 5, .array [.int (-3), .bin [1, 2]])]).Sized := by
    simp [Value.Sized, SizedItems, SizedEntries]
  have hlevels : (Value.map [(.int 5, .array [.int (-3), .bin [1, 2]])]).levels ≤ 33 := by
    simp [Value.levels, itemLevels, entryLevels]
  exact unpackConsumed_pack _ h hlevels [9]

end Msgpack

end Rns
