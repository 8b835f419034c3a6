import Rns.Lib.Outcome
import Rns.Crypto.Primitives

/-!
# Session tokens

PKCS#7 padding, the AES-CBC wrappers and `Token`, the encrypt-then-MAC container
`iv (16) ‖ ciphertext ‖ hmac (32)`.  The wrappers assert that they are given whole blocks; the
assertion is kept as a panic.
-/

namespace Rns

open Outcome

/-! ## PKCS#7 -/

namespace Pkcs7

inductive PadError where
  | invalidPadding
  | emptyInput
  deriving Repr, DecidableEq

/-- `pad`: fill up to the next multiple of `blockSize`, with at least one byte. -/
def pad (data : Bytes) (blockSize : ℕ) : Bytes :=
  let n := blockSize - data.length % blockSize
  data ++ List.replicate n (UInt8.ofNat n)

/-- `unpad`: cut the number of bytes the last byte names.  The slice `data[..data.len() - n]`
panics when that is more than there are. -/
def unpad (data : Bytes) (blockSize : ℕ) : Outcome (Except PadError Bytes) :=
  match data.getLast? with
  | none => .value (.error .emptyInput)
  | some last =>
    let n := last.toNat
    if n > blockSize then .value (.error .invalidPadding)
    else do
      require (n ≤ data.length)
      return .ok (data.take (data.length - n))

theorem unpad_returns {data : Bytes} {blockSize : ℕ} (h : blockSize ≤ data.length) :
    (unpad data blockSize).Returns := by
  unfold unpad
  cases data.getLast? with
  | none => simp
  | some last =>
    dsimp only
    split_ifs with hbig
    · simp
    · rw [require_of (by omega)]
      simp

end Pkcs7

/-! ## AES-CBC on byte strings -/

namespace Aes

/-- The first `count` blocks of `buf`. -/
def blocksOf : ℕ → Bytes → List Block
  | 0, _ => []
  | count + 1, buf => Bytes.fixed 16 buf 0 :: blocksOf count (buf.drop 16)

/-- `bytemuck_cast_blocks_mut`: a buffer as a sequence of blocks. -/
def castBlocks (buf : Bytes) : Outcome (List Block) := do
  require (buf.length % 16 = 0)
  return blocksOf (buf.length / 16) buf

def bytesOf (blocks : List Block) : Bytes := blocks.flatMap Vector.toList

/-- The body shared by `encrypt_cbc` and `decrypt_cbc` of both key sizes. -/
def cbc {keyLen : ℕ} (mode : BlockMode keyLen) (key : Vector UInt8 keyLen) (data : Bytes)
    (iv : Block) : Outcome Bytes := do
  require (data.length % 16 = 0)
  let blocks ← castBlocks data
  return bytesOf (mode key iv blocks).val

@[simp] theorem length_blocksOf (count : ℕ) (buf : Bytes) :
    (blocksOf count buf).length = count := by
  induction count generalizing buf with
  | zero => rfl
  | succ count ih => simp [blocksOf, ih]

@[simp] theorem length_bytesOf (blocks : List Block) :
    (bytesOf blocks).length = 16 * blocks.length := by
  induction blocks with
  | nil => rfl
  | cons b bs ih =>
    have hcons : bytesOf (b :: bs) = b.toList ++ bytesOf bs := List.flatMap_cons
    rw [hcons, List.length_append, ih, Vector.length_toList, List.length_cons]
    omega

variable {keyLen : ℕ} (mode : BlockMode keyLen) (key : Vector UInt8 keyLen) {data : Bytes}
  (iv : Block)

theorem cbc_of_aligned (h : data.length % 16 = 0) :
    ∃ out, cbc mode key data iv = .value out ∧ out.length = data.length := by
  refine ⟨bytesOf (mode key iv (blocksOf (data.length / 16) data)).val, ?_, ?_⟩
  · simp [cbc, castBlocks, require_of h]
  · rw [length_bytesOf, (mode key iv _).property, length_blocksOf]
    omega

theorem cbc_of_not_aligned (h : data.length % 16 ≠ 0) : cbc mode key data iv = .panic := by
  simp [cbc, require_of_not h]

end Aes

/-! ## Tokens -/

/-- The cipher of a token, with its key. -/
inductive AesMode where
  | aes128 (key : Vector UInt8 16)
  | aes256 (key : Vector UInt8 32)
  deriving DecidableEq

namespace AesMode

variable (P : Primitives)

/-- `encrypt_cbc` of the mode. -/
def encryptCbc (mode : AesMode) (plaintext : Bytes) (iv : Block) : Outcome Bytes :=
  match mode with
  | .aes128 key => Aes.cbc P.aes128Encrypt key plaintext iv
  | .aes256 key => Aes.cbc P.aes256Encrypt key plaintext iv

/-- `decrypt_cbc` of the mode. -/
def decryptCbc (mode : AesMode) (ciphertext : Bytes) (iv : Block) : Outcome Bytes :=
  match mode with
  | .aes128 key => Aes.cbc P.aes128Decrypt key ciphertext iv
  | .aes256 key => Aes.cbc P.aes256Decrypt key ciphertext iv

theorem decryptCbc_of_aligned (mode : AesMode) {ciphertext : Bytes} (iv : Block)
    (h : ciphertext.length % 16 = 0) :
    ∃ out, mode.decryptCbc P ciphertext iv = .value out ∧ out.length = ciphertext.length := by
  cases mode with
  | aes128 key | aes256 key => exact Aes.cbc_of_aligned _ key iv h

theorem decryptCbc_of_not_aligned (mode : AesMode) {ciphertext : Bytes} (iv : Block)
    (h : ciphertext.length % 16 ≠ 0) : mode.decryptCbc P ciphertext iv = .panic := by
  cases mode with
  | aes128 key | aes256 key => exact Aes.cbc_of_not_aligned _ key iv h

end AesMode

/-- A session token: MAC key and cipher. -/
structure Token where
  signingKey : Bytes
  mode : AesMode
  deriving DecidableEq

inductive TokenError where
  | invalidKeyLength
  | invalidToken
  | hmacMismatch
  | decryptionFailed
  deriving Repr, DecidableEq

namespace Token

def overhead : ℕ := 48

/-- `Token::new`: 32 bytes give AES-128, 64 bytes AES-256; the first half signs. -/
def new (key : Bytes) : Except TokenError Token :=
  if key.length = 32 then .ok ⟨key.take 16, .aes128 (Bytes.fixed 16 key 16)⟩
  else if key.length = 64 then .ok ⟨key.take 32, .aes256 (Bytes.fixed 32 key 32)⟩
  else .error .invalidKeyLength

variable (P : Primitives)

variable (t : Token) (token : Bytes)

def encryptWithIv (plaintext : Bytes) (iv : Block) : Outcome Bytes := do
  let ciphertext ← t.mode.encryptCbc P (Pkcs7.pad plaintext 16) iv
  let signedParts := iv.toList ++ ciphertext
  return signedParts ++ (P.hmacSha256 t.signingKey signedParts).toList

/-- `verify_hmac`: the last 32 bytes are the MAC of the rest. -/
def verifyHmac : Except TokenError Bool :=
  if token.length ≤ 32 then .error .invalidToken
  else
    let body := token.take (token.length - 32)
    .ok (token.drop (token.length - 32) == (P.hmacSha256 t.signingKey body).toList)

def decrypt : Outcome (Except TokenError Bytes) :=
  if token.length ≤ overhead then .value (.error .invalidToken)
  else match t.verifyHmac P token with
    | .error _ => .value (.error .invalidToken)
    | .ok false => .value (.error .hmacMismatch)
    | .ok true => do
      let iv := Bytes.fixed 16 token 0
      let ciphertext := (token.take (token.length - 32)).drop 16
      let decrypted ← t.mode.decryptCbc P ciphertext iv
      let unpadded ← Pkcs7.unpad decrypted 16
      return unpadded.mapError fun _ => .decryptionFailed

def MacValid : Prop := t.verifyHmac P token = .ok true

instance (t : Token) (token : Bytes) : Decidable (t.MacValid P token) :=
  inferInstanceAs (Decidable (t.verifyHmac P token = .ok true))

/-- The strings that reach the block assertion of the cipher: longer than the overhead, with a
valid MAC, and with a ciphertext that is not a whole number of blocks. -/
def Misaligned : Prop :=
  overhead < token.length ∧ t.MacValid P token ∧ (token.length - overhead) % 16 ≠ 0

theorem new_ok_of_length {key : Bytes} (h : key.length = 32 ∨ key.length = 64) :
    ∃ t, Token.new key = .ok t := by
  rcases h with h | h <;> simp [Token.new, h]

theorem decrypt_of_macValid {t : Token} {token : Bytes} (hlen : overhead < token.length)
    (hmac : t.MacValid P token) :
    t.decrypt P token = do
      let decrypted ← t.mode.decryptCbc P ((token.take (token.length - 32)).drop 16)
        (Bytes.fixed 16 token 0)
      let unpadded ← Pkcs7.unpad decrypted 16
      return unpadded.mapError fun _ => .decryptionFailed := by
  unfold decrypt
  rw [if_neg (by omega), show t.verifyHmac P token = .ok true from hmac]

theorem decrypt_of_not_macValid {t : Token} {token : Bytes}
    (h : token.length ≤ overhead ∨ ¬t.MacValid P token) :
    ∃ e, t.decrypt P token = .value (.error e) := by
  unfold decrypt
  split_ifs with hlen
  · exact ⟨_, rfl⟩
  · have hmac : ¬t.MacValid P token := h.resolve_left hlen
    unfold MacValid at hmac
    match hv : t.verifyHmac P token with
    | .error _ => exact ⟨_, rfl⟩
    | .ok false => exact ⟨_, rfl⟩
    | .ok true => exact absurd hv hmac

/-- `decrypt` returns `Ok` or `Err` on every string that is not misaligned, and panics on every
string that is. -/
theorem decrypt_returns : (t.decrypt P token).Returns ↔ ¬t.Misaligned P token := by
  by_cases hok : overhead < token.length ∧ t.MacValid P token
  · obtain ⟨hlen, hmac⟩ := hok
    have hclen : ((token.take (token.length - 32)).drop 16).length = token.length - overhead := by
      simp only [List.length_drop, List.length_take, overhead]
      omega
    rw [decrypt_of_macValid P hlen hmac]
    by_cases hal : (token.length - overhead) % 16 = 0
    · -- whole blocks: at least one, so the unpadding cannot run past the start
      obtain ⟨out, hout, hlen'⟩ :=
        t.mode.decryptCbc_of_aligned P (Bytes.fixed 16 token 0) (hclen ▸ hal)
      have h16 : 16 ≤ out.length := by
        rw [hlen', hclen]
        omega
      have hret : (Pkcs7.unpad out 16).Returns := Pkcs7.unpad_returns h16
      rw [hout, value_bind]
      exact iff_of_true (returns_bind_value.mpr hret) fun hmis => hmis.2.2 hal
    · rw [t.mode.decryptCbc_of_not_aligned P _ (hclen.symm ▸ hal), panic_bind]
      exact iff_of_false not_returns_panic (not_not_intro ⟨hlen, hmac, hal⟩)
  · have hbad : token.length ≤ overhead ∨ ¬t.MacValid P token := by
      rw [← not_lt]
      exact not_and_or.mp hok
    obtain ⟨e, he⟩ := decrypt_of_not_macValid P hbad
    rw [he]
    exact iff_of_true (returns_value _) fun hmis => hok ⟨hmis.1, hmis.2.1⟩

/-- What a peer holding the key sends to hit the assertion: an IV, a ciphertext that is not a
whole number of blocks, and their MAC. -/
def forge (iv : Block) (ciphertext : Bytes) : Bytes :=
  iv.toList ++ ciphertext ++ (P.hmacSha256 t.signingKey (iv.toList ++ ciphertext)).toList

theorem forge_misaligned (iv : Block) (ciphertext : Bytes) (h : ciphertext.length % 16 ≠ 0) :
    t.Misaligned P (t.forge P iv ciphertext) := by
  have hlen : (t.forge P iv ciphertext).length = ciphertext.length + 48 := by
    simp only [forge, List.length_append, Vector.length_toList]
    omega
  have hpos : 0 < ciphertext.length := by
    rcases Nat.eq_zero_or_pos ciphertext.length with h0 | h0
    · simp [h0] at h
    · exact h0
  refine ⟨by rw [hlen, overhead]; omega, ?_, by rw [hlen, overhead]; simpa using h⟩
  have hcut : ciphertext.length + 48 - 32 = (iv.toList ++ ciphertext).length := by
    simp only [List.length_append, Vector.length_toList]
    omega
  unfold MacValid verifyHmac
  rw [if_neg (by omega), hlen, hcut, forge, List.take_left', List.drop_left'] <;> simp

end Token

end Rns
