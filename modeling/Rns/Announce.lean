import Rns.Packet

/-!
# Announces

The data of an announce packet: public key, name hash, random bytes, a ratchet key when the context
flag is set, the signature, and application data up to the end.
-/

namespace Rns

inductive AnnounceError where
  | dataTooShort
  | invalidSignature
  | destinationMismatch
  deriving Repr, DecidableEq

structure AnnounceData where
  publicKey : Vector UInt8 64
  nameHash : Vector UInt8 10
  randomHash : Vector UInt8 10
  ratchet : Option (Vector UInt8 32)
  signature : Vector UInt8 64
  appData : Option Bytes
  deriving DecidableEq

structure ValidatedAnnounce where
  identityHash : Hash16
  publicKey : Vector UInt8 64
  nameHash : Vector UInt8 10
  randomHash : Vector UInt8 10
  ratchet : Option (Vector UInt8 32)
  appData : Option Bytes
  deriving DecidableEq

variable {destinationHash : Hash16} {a b : AnnounceData}

namespace AnnounceData

def ratchetBytes : Option (Vector UInt8 32) → Bytes
  | some ratchet => ratchet.toList
  | none => []

def unpack (data : Bytes) (hasRatchet : Bool) : Except AnnounceError AnnounceData :=
  let minLen := if hasRatchet then 64 + 10 + 10 + 32 + 64 else 64 + 10 + 10 + 64
  if data.length < minLen then .error .dataTooShort
  else
    let sigStart := if hasRatchet then 64 + 10 + 10 + 32 else 64 + 10 + 10
    let appDataStart := sigStart + 64
    .ok {
      publicKey := Bytes.fixed 64 data 0
      nameHash := Bytes.fixed 10 data 64
      randomHash := Bytes.fixed 10 data (64 + 10)
      ratchet := if hasRatchet then some (Bytes.fixed 32 data (64 + 10 + 10)) else none
      signature := Bytes.fixed 64 data sigStart
      appData := if data.length > appDataStart then some (data.drop appDataStart) else none }

def signedData (a : AnnounceData) (destinationHash : Hash16) : Bytes :=
  destinationHash.toList ++ a.publicKey.toList ++ a.nameHash.toList ++ a.randomHash.toList ++
    ratchetBytes a.ratchet ++ a.appData.getD []

variable (P : Primitives)

def validate (a : AnnounceData) (destinationHash : Hash16) :
    Except AnnounceError ValidatedAnnounce :=
  if ¬P.ed25519Verify (Bytes.fixed 32 a.publicKey.toList 32) a.signature
      (a.signedData destinationHash) then .error .invalidSignature
  else
    let identityHash := P.truncatedHash a.publicKey.toList
    let expectedHash := P.truncatedHash (a.nameHash.toList ++ identityHash.toList)
    if expectedHash ≠ destinationHash then .error .destinationMismatch
    else .ok ⟨identityHash, a.publicKey, a.nameHash, a.randomHash, a.ratchet, a.appData⟩

def toValidatedUnchecked (a : AnnounceData) : ValidatedAnnounce :=
  ⟨P.truncatedHash a.publicKey.toList, a.publicKey, a.nameHash, a.randomHash, a.ratchet, a.appData⟩

def Validates (a : AnnounceData) (destinationHash : Hash16) : Prop :=
  ∃ validated, a.validate P destinationHash = .ok validated

theorem validates_iff {a : AnnounceData} :
    a.Validates P destinationHash ↔
      P.ed25519Verify (Bytes.fixed 32 a.publicKey.toList 32) a.signature
        (a.signedData destinationHash) ∧
      P.truncatedHash (a.nameHash.toList ++ (P.truncatedHash a.publicKey.toList).toList) =
        destinationHash := by
  unfold Validates validate
  by_cases hsig : P.ed25519Verify (Bytes.fixed 32 a.publicKey.toList 32) a.signature
      (a.signedData destinationHash)
  · by_cases hhash : P.truncatedHash (a.nameHash.toList ++
        (P.truncatedHash a.publicKey.toList).toList) = destinationHash
    · simp [hsig, hhash]
    · simp [hsig, hhash]
  · simp [hsig]

instance (a : AnnounceData) (destinationHash : Hash16) : Decidable (a.Validates P destinationHash) :=
  decidable_of_iff' _ (validates_iff P)

theorem signedData_inj (h : a.signedData destinationHash = b.signedData destinationHash) :
    a.publicKey = b.publicKey ∧ a.nameHash = b.nameHash ∧ a.randomHash = b.randomHash := by
  simp only [signedData, List.append_assoc] at h
  obtain ⟨-, h⟩ := List.append_inj h rfl
  obtain ⟨hkey, h⟩ := List.append_inj h (by simp)
  obtain ⟨hname, h⟩ := List.append_inj h (by simp)
  obtain ⟨hrandom, -⟩ := List.append_inj h (by simp)
  exact ⟨Vector.toList_inj.mp hkey, Vector.toList_inj.mp hname, Vector.toList_inj.mp hrandom⟩

theorem Validates.of_signedData (h : a.Validates P destinationHash)
    (hdata : b.signedData destinationHash = a.signedData destinationHash)
    (hsig : b.signature = a.signature) : b.Validates P destinationHash := by
  obtain ⟨hkey, hname, -⟩ := signedData_inj hdata
  rw [validates_iff] at h ⊢
  rwa [hdata, hsig, hkey, hname]

end AnnounceData

end Rns
