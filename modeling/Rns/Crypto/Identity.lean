import Rns.Crypto.Token

/-!
# Identities

The decryption side of `Identity`.  The sender chooses the ephemeral key, so anyone who knows the
public key can compute the MAC of the token.
-/

namespace Rns

inductive CryptoError where
  | noPrivateKey
  | tokenError (e : TokenError)
  | hkdfError (e : HkdfError)
  | invalidCiphertext
  deriving Repr, DecidableEq

/-- The part of an identity that decryption reads: the X25519 private key, when it is held, and
the identity hash. -/
structure Identity where
  prv : Option (Vector UInt8 32)
  hash : Vector UInt8 16
  deriving DecidableEq

namespace Identity

/-- `KEYSIZE / 8 / 2`: the length of the ephemeral public key. -/
def ephemeralLength : ℕ := 512 / 8 / 2

def derivedKeyLength : ℕ := 64

variable (P : Primitives)

/-- The key both ends derive from the exchange of `prv` with `peerPub`. -/
def derivedKey (id : Identity) (prv peerPub : Vector UInt8 32) : Except HkdfError Bytes :=
  Hkdf.hkdf P derivedKeyLength (P.x25519Exchange prv peerPub).toList (some id.hash.toList) none

def decrypt (id : Identity) (ciphertextToken : Bytes) : Outcome (Except CryptoError Bytes) :=
  match id.prv with
  | none => .value (.error .noPrivateKey)
  | some prv =>
    if ciphertextToken.length ≤ ephemeralLength then .value (.error .invalidCiphertext)
    else
      let peerPub := Bytes.fixed 32 ciphertextToken 0
      let ciphertext := ciphertextToken.drop 32
      match id.derivedKey P prv peerPub with
      | .error e => .value (.error (.hkdfError e))
      | .ok key => match Token.new key with
        | .error e => .value (.error (.tokenError e))
        | .ok token => do
          let plaintext ← token.decrypt P ciphertext
          return plaintext.mapError .tokenError

/-- The token `decrypt` opens the string with: the private key is held, the ephemeral key is there,
and the derived key has the length of a token key. -/
def tokenFor (id : Identity) (ciphertextToken : Bytes) : Option Token :=
  match id.prv with
  | none => none
  | some prv =>
    if ciphertextToken.length ≤ ephemeralLength then none
    else ((id.derivedKey P prv (Bytes.fixed 32 ciphertextToken 0)).toOption).bind fun key =>
      (Token.new key).toOption

theorem derivedKey_token (id : Identity) (prv peerPub : Vector UInt8 32) :
    ∃ key token, id.derivedKey P prv peerPub = .ok key ∧ Token.new key = .ok token := by
  have hne : (P.x25519Exchange prv peerPub).toList ≠ [] := by
    intro h
    simpa using congrArg List.length h
  have hpos : 1 ≤ derivedKeyLength := by decide
  obtain ⟨key, hkey, hlen⟩ := Hkdf.hkdf_ok P hpos hne (some id.hash.toList) none
  have hkeyLen : key.length = 32 ∨ key.length = 64 := .inr hlen
  obtain ⟨token, htoken⟩ := Token.new_ok_of_length hkeyLen
  exact ⟨key, token, hkey, htoken⟩

/-- `decrypt` returns exactly when the string after the ephemeral key is not misaligned under the
token of the exchange. -/
theorem decrypt_returns (id : Identity) (b : Bytes) : (id.decrypt P b).Returns ↔
      ∀ token, id.tokenFor P b = some token → ¬token.Misaligned P (b.drop 32) := by
  unfold decrypt tokenFor
  cases id.prv with
  | none => simp
  | some prv =>
    dsimp only
    split_ifs with hlen
    · simp
    · obtain ⟨key, token, hkey, htoken⟩ := id.derivedKey_token P prv (Bytes.fixed 32 b 0)
      simp only [hkey, htoken, Except.toOption, Option.bind_some, Option.some.injEq,
        forall_eq']
      exact Outcome.returns_bind_value.trans (token.decrypt_returns P (b.drop 32))

end Identity

end Rns
