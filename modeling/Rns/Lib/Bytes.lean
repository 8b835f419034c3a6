import Mathlib.Tactic

/-!
# Byte strings and fixed-size arrays

`Bytes` is a byte slice or vector, `Vector UInt8 n` an array `[u8; n]`.  `fixed n data off` is the
array copied out of `data[off..off + n]`; the bound is checked by the caller, as in the source.
-/

namespace Rns

abbrev Bytes := List UInt8

instance transOrd16 : Std.TransOrd (Vector UInt8 16) := inferInstance

instance transOrd32 : Std.TransOrd (Vector UInt8 32) := inferInstance

instance lawfulBEq32 : LawfulBEq (Vector UInt8 32) := inferInstance

namespace Bytes

/-- The array `[u8; n]` copied out of `data` at offset `off`. -/
def fixed (n : ℕ) (data : Bytes) (off : ℕ) : Vector UInt8 n :=
  Vector.ofFn fun i : Fin n => data.getD (off + i) 0

theorem toList_fixed {n off : ℕ} {data : Bytes} (h : off + n ≤ data.length) :
    (fixed n data off).toList = (data.drop off).take n := by
  apply List.ext_getElem
  · simp; omega
  · intro i hi _
    have hin : off + i < data.length := by
      simp at hi
      omega
    simp [fixed, List.getElem?_eq_getElem hin]

theorem fixed_append {n : ℕ} (pre : Bytes) (v : Vector UInt8 n) (post : Bytes) :
    fixed n (pre ++ v.toList ++ post) pre.length = v := by
  apply Vector.toList_inj.mp
  rw [toList_fixed (by simp)]
  simp

def be16 (n : ℕ) : Bytes := [UInt8.ofNat (n / 256), UInt8.ofNat n]

@[simp] theorem length_be16 (n : ℕ) : (be16 n).length = 2 := rfl

/-- The number in the two bytes at offset `off`; the bound is checked by the caller. -/
def readBe16 (data : Bytes) (off : ℕ) : ℕ :=
  (data.getD off 0).toNat * 256 + (data.getD (off + 1) 0).toNat

theorem readBe16_be16 (n : ℕ) (post : Bytes) : readBe16 (be16 n ++ post) 0 = n % 65536 := by
  simp [readBe16, be16]
  omega

theorem readBe16_append (pre post : Bytes) :
    readBe16 (pre ++ post) pre.length = readBe16 post 0 := by
  simp [readBe16, List.getElem?_append_right]

/-- The `n` big-endian bytes of a number; what does not fit is cut off. -/
def be : ℕ → ℕ → Bytes
  | 0, _ => []
  | n + 1, v => UInt8.ofNat (v / 256 ^ n) :: be n v

@[simp] theorem length_be (n v : ℕ) : (be n v).length = n := by
  induction n with
  | zero => rfl
  | succ n ih => simp [be, ih]

def readBe (data : Bytes) : ℕ := data.foldl (fun acc b => acc * 256 + b.toNat) 0

theorem foldl_be (n v acc : ℕ) :
    (be n v).foldl (fun acc b => acc * 256 + b.toNat) acc = acc * 256 ^ n + v % 256 ^ n := by
  induction n generalizing acc with
  | zero => simp [be, Nat.mod_one]
  | succ n ih =>
    have hdigit : (UInt8.ofNat (v / 256 ^ n)).toNat = v / 256 ^ n % 256 := by simp
    rw [be, List.foldl_cons, ih, hdigit, pow_succ, Nat.mod_mul]
    ring

theorem readBe_be (n v : ℕ) : readBe (be n v) = v % 256 ^ n := by
  simp [readBe, foldl_be]

end Bytes

end Rns
