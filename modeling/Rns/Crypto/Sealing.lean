import Rns.Crypto.Token

/-!
# What a token seals it opens

The length of a sealed string, and that it opens to what was sealed.  Of the cipher only one thing is
assumed: that decryption undoes encryption under the same key and initialisation vector.
-/

namespace Rns

/-- Decryption in CBC mode undoes encryption. -/
structure Primitives.CbcInverts (P : Primitives) : Prop where
  aes128 : ∀ key iv blocks,
    (P.aes128Decrypt key iv (P.aes128Encrypt key iv blocks).val).val = blocks
  aes256 : ∀ key iv blocks,
    (P.aes256Decrypt key iv (P.aes256Encrypt key iv blocks).val).val = blocks

theorem Primitives.cbcInverts_sample : Primitives.sample.CbcInverts := ⟨fun _ _ _ => rfl, fun _ _ _ => rfl⟩

namespace Pkcs7

theorem length_pad (data : Bytes) : (pad data 16).length = (data.length / 16 + 1) * 16 := by
  simp only [pad, List.length_append, List.length_replicate]
  omega

theorem unpad_pad (data : Bytes) : unpad (pad data 16) 16 = .value (.ok data) := by
  obtain ⟨n, hn, hpos, hle⟩ : ∃ n, 16 - data.length % 16 = n + 1 ∧ 0 < n + 1 ∧ n + 1 ≤ 16 :=
    ⟨15 - data.length % 16, by omega, by omega, by omega⟩
  have hlast : (pad data 16).getLast? = some (UInt8.ofNat (n + 1)) := by
    rw [pad, hn, List.replicate_succ']
    simp
  have hbyte : (UInt8.ofNat (n + 1)).toNat = n + 1 := by
    rw [UInt8.toNat_ofNat']
    omega
  have hlength : (pad data 16).length = data.length + (n + 1) := by simp [pad, hn]
  unfold unpad
  rw [hlast]
  simp only [hbyte]
  rw [if_neg (by omega), Outcome.require_of (by rw [hlength]; omega), Outcome.value_bind, hlength,
    Nat.add_sub_cancel]
  simp [pad]

end Pkcs7

variable {iv : Block} {plaintext out : Bytes} {keyLen : ℕ}

namespace Aes

theorem bytesOf_blocksOf (count : ℕ) (buf : Bytes) (h : buf.length = 16 * count) :
    bytesOf (blocksOf count buf) = buf := by
  induction count generalizing buf with
  | zero => exact (List.eq_nil_of_length_eq_zero (by simpa using h)).symm
  | succ count ih =>
    have hrest : bytesOf (blocksOf count (buf.drop 16)) = buf.drop 16 :=
      ih _ (by rw [List.length_drop]; omega)
    have hcons : bytesOf (blocksOf (count + 1) buf) =
        (Bytes.fixed 16 buf 0).toList ++ bytesOf (blocksOf count (buf.drop 16)) := List.flatMap_cons
    rw [hcons, hrest, Bytes.toList_fixed (by omega), List.drop_zero, List.take_append_drop]

theorem blocksOf_bytesOf (blocks : List Block) :
    blocksOf blocks.length (bytesOf blocks) = blocks := by
  induction blocks with
  | nil => rfl
  | cons b bs ih =>
    have hcons : bytesOf (b :: bs) = b.toList ++ bytesOf bs := List.flatMap_cons
    have hfirst : Bytes.fixed 16 (b.toList ++ bytesOf bs) 0 = b := by
      simpa using Bytes.fixed_append [] b (bytesOf bs)
    rw [hcons, List.length_cons, blocksOf, hfirst, List.drop_left' (by simp), ih]

theorem cbc_eq (mode : BlockMode keyLen) (key : Vector UInt8 keyLen) {data : Bytes} (iv : Block)
    (h : data.length % 16 = 0) :
    cbc mode key data iv = .value (bytesOf (mode key iv (blocksOf (data.length / 16) data)).val) := by
  simp [cbc, castBlocks, Outcome.require_of h]

theorem cbc_cbc {enc dec : BlockMode keyLen} {key : Vector UInt8 keyLen}
    (hinv : ∀ blocks, (dec key iv (enc key iv blocks).val).val = blocks) {data out : Bytes}
    (h : data.length % 16 = 0) (hout : cbc enc key data iv = .value out) :
    cbc dec key out iv = .value data := by
  rw [cbc_eq enc key iv h] at hout
  obtain rfl := Outcome.value.inj hout
  have hcount : (enc key iv (blocksOf (data.length / 16) data)).val.length = data.length / 16 := by
    rw [(enc key iv _).property, length_blocksOf]
  have hlength : (bytesOf (enc key iv (blocksOf (data.length / 16) data)).val).length % 16 = 0 := by
    rw [length_bytesOf]
    omega
  have hblocks : (bytesOf (enc key iv (blocksOf (data.length / 16) data)).val).length / 16 =
      (enc key iv (blocksOf (data.length / 16) data)).val.length := by
    rw [length_bytesOf]
    omega
  rw [cbc_eq dec key iv hlength, hblocks, blocksOf_bytesOf, hinv, bytesOf_blocksOf _ _ (by omega)]

end Aes

namespace AesMode

theorem encryptCbc_of_aligned (P : Primitives) (mode : AesMode) {plaintext : Bytes} (iv : Block)
    (h : plaintext.length % 16 = 0) :
    ∃ out, mode.encryptCbc P plaintext iv = .value out ∧ out.length = plaintext.length := by
  cases mode with
  | aes128 key | aes256 key => exact Aes.cbc_of_aligned _ key iv h

theorem decryptCbc_encryptCbc {P : Primitives} (hP : P.CbcInverts) {mode : AesMode}
    (h : plaintext.length % 16 = 0) (hout : mode.encryptCbc P plaintext iv = .value out) :
    mode.decryptCbc P out iv = .value plaintext := by
  cases mode with
  | aes128 key => exact Aes.cbc_cbc (hP.aes128 key iv) h hout
  | aes256 key => exact Aes.cbc_cbc (hP.aes256 key iv) h hout

end AesMode

namespace Token

variable (P : Primitives)

theorem encryptWithIv_length (t : Token) (plaintext : Bytes) (iv : Block) :
    ∃ out, t.encryptWithIv P plaintext iv = .value out ∧
      out.length = overhead + (plaintext.length / 16 + 1) * 16 := by
  have hpad := Pkcs7.length_pad plaintext
  obtain ⟨ciphertext, hcipher, hlength⟩ :=
    AesMode.encryptCbc_of_aligned P t.mode iv (show (Pkcs7.pad plaintext 16).length % 16 = 0 by omega)
  refine ⟨iv.toList ++ ciphertext ++ (P.hmacSha256 t.signingKey (iv.toList ++ ciphertext)).toList,
    ?_, ?_⟩
  · simp [encryptWithIv, hcipher]
  · simp only [List.length_append, Vector.length_toList, overhead]
    omega

variable {P}

theorem decrypt_encryptWithIv (hP : P.CbcInverts) {t : Token}
    (h : t.encryptWithIv P plaintext iv = .value out) :
    t.decrypt P out = .value (.ok plaintext) := by
  have hpad : (Pkcs7.pad plaintext 16).length % 16 = 0 := by
    rw [Pkcs7.length_pad]
    omega
  obtain ⟨ciphertext, hcipher, hlength⟩ := t.mode.encryptCbc_of_aligned P iv hpad
  have hblocks : ciphertext.length = (plaintext.length / 16 + 1) * 16 := by
    rw [hlength, Pkcs7.length_pad]
  obtain rfl : iv.toList ++ ciphertext ++
      (P.hmacSha256 t.signingKey (iv.toList ++ ciphertext)).toList = out := by
    simpa [encryptWithIv, hcipher] using h
  generalize hmac : P.hmacSha256 t.signingKey (iv.toList ++ ciphertext) = mac
  have hlen : (iv.toList ++ ciphertext ++ mac.toList).length = ciphertext.length + 48 := by
    simp only [List.length_append, Vector.length_toList]
    omega
  have hbody : (iv.toList ++ ciphertext ++ mac.toList).take
      ((iv.toList ++ ciphertext ++ mac.toList).length - 32) = iv.toList ++ ciphertext := by
    rw [hlen]
    exact List.take_left' (by simp; omega)
  have htag : (iv.toList ++ ciphertext ++ mac.toList).drop
      ((iv.toList ++ ciphertext ++ mac.toList).length - 32) = mac.toList := by
    rw [hlen]
    exact List.drop_left' (by simp; omega)
  have hvalid : t.MacValid P (iv.toList ++ ciphertext ++ mac.toList) := by
    unfold MacValid verifyHmac
    rw [if_neg (by omega)]
    simp only [hbody, htag, hmac, BEq.rfl]
  have hiv : Bytes.fixed 16 (iv.toList ++ ciphertext ++ mac.toList) 0 = iv := by
    simpa using Bytes.fixed_append [] iv (ciphertext ++ mac.toList)
  rw [decrypt_of_macValid P (by rw [hlen, overhead]; omega) hvalid, hbody, hiv,
    List.drop_left' (by simp), AesMode.decryptCbc_encryptCbc hP hpad hcipher, Outcome.value_bind,
    Pkcs7.unpad_pad, Outcome.value_bind]
  rfl

end Token

end Rns
