import Rns.Lib.Bytes

/-!
# Cryptographic primitives

The functions the sources take from outside crates.  Nothing is assumed about them beyond their types,
so every result holds for every choice; the repository's own code over them is modelled.
-/

namespace Rns

abbrev Block := Vector UInt8 16

abbrev BlockMode (keyLen : ℕ) :=
  Vector UInt8 keyLen → Block → (blocks : List Block) → { out : List Block // out.length = blocks.length }

/-- The external primitives. -/
structure Primitives where
  sha256 : Bytes → Vector UInt8 32
  hmacSha256 : Bytes → Bytes → Vector UInt8 32
  x25519Exchange : Vector UInt8 32 → Vector UInt8 32 → Vector UInt8 32
  ed25519Verify : Vector UInt8 32 → Vector UInt8 64 → Bytes → Bool
  aes128Encrypt : BlockMode 16
  aes128Decrypt : BlockMode 16
  aes256Encrypt : BlockMode 32
  aes256Decrypt : BlockMode 32
  f64FromBeBytes : Vector UInt8 8 → ℚ

namespace Primitives

/-- Primitives to run the model with: a key-independent MAC, block functions that copy. -/
def sample : Primitives where
  sha256 data := Bytes.fixed 32 data 0
  hmacSha256 _ data := Bytes.fixed 32 data 0
  x25519Exchange a b := a.zipWith (· ^^^ ·) b
  ed25519Verify pub sig msg := decide (Bytes.fixed 32 sig.toList 0 = pub ∧ msg.headD 0 = sig[32])
  aes128Encrypt _ _ blocks := ⟨blocks, rfl⟩
  aes128Decrypt _ _ blocks := ⟨blocks, rfl⟩
  aes256Encrypt _ _ blocks := ⟨blocks, rfl⟩
  aes256Decrypt _ _ blocks := ⟨blocks, rfl⟩
  f64FromBeBytes bytes := (bytes[0].toNat : ℚ)

variable (P : Primitives)

/-- `full_hash`: SHA-256. -/
def fullHash (data : Bytes) : Vector UInt8 32 := P.sha256 data

/-- `truncated_hash`: the first 16 bytes of SHA-256. -/
def truncatedHash (data : Bytes) : Vector UInt8 16 := Bytes.fixed 16 (P.fullHash data).toList 0

end Primitives

/-! ## HKDF -/

inductive HkdfError where
  | invalidLength
  | emptyInput
  deriving Repr, DecidableEq

namespace Hkdf

variable (P : Primitives)

/-- The expansion loop of `hkdf`: rounds `i, i + 1, …`, `fuel` of them, after `block`. -/
def expand (prk context : Bytes) : ℕ → ℕ → Bytes → Bytes
  | 0, _, _ => []
  | fuel + 1, i, block =>
    let next := (P.hmacSha256 prk (block ++ context ++ [UInt8.ofNat ((i + 1) % 256)])).toList
    next ++ expand prk context fuel (i + 1) next

/-- `hkdf`: extract with HMAC, then expand; the counter wraps modulo 256. -/
def hkdf (length : ℕ) (deriveFrom : Bytes) (salt context : Option Bytes) :
    Except HkdfError Bytes :=
  if length < 1 then .error .invalidLength
  else if deriveFrom.isEmpty then .error .emptyInput
  else
    let salt := match salt with
      | some s => if s.isEmpty then List.replicate 32 0 else s
      | none => List.replicate 32 0
    let prk := (P.hmacSha256 salt deriveFrom).toList
    .ok ((expand P prk (context.getD []) ((length + 31) / 32) 0 []).take length)

theorem length_expand (prk context : Bytes) (fuel i : ℕ) (block : Bytes) :
    (expand P prk context fuel i block).length = 32 * fuel := by
  induction fuel generalizing i block with
  | zero => rfl
  | succ fuel ih =>
    simp only [expand, List.length_append, ih, Vector.length_toList]
    omega

theorem hkdf_ok {length : ℕ} {deriveFrom : Bytes} (hlen : 1 ≤ length) (hin : deriveFrom ≠ [])
    (salt context : Option Bytes) :
    ∃ key, hkdf P length deriveFrom salt context = .ok key ∧ key.length = length := by
  have hne : deriveFrom.isEmpty = false := by simpa using hin
  refine ⟨_, by simp only [hkdf, Nat.not_lt.mpr hlen, if_false, hne, Bool.false_eq_true]; rfl, ?_⟩
  rw [List.length_take, length_expand]
  omega

end Hkdf

end Rns
