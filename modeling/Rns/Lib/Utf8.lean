import Rns.Lib.Bytes
import Rns.Lib.Text

/-!
# Strings and their bytes

The UTF-8 encoding of a string and its inverse, on lists.
-/

namespace Rns.Text

/-- `String::into_bytes`. -/
def toUtf8 (s : Text) : Bytes := s.flatMap String.utf8EncodeChar

/-- One character after the other; every character has at least one byte. -/
def decodeUtf8 : ℕ → Bytes → Option Text
  | _, [] => some []
  | 0, _ :: _ => none
  | fuel + 1, b :: rest => match (b :: rest).toByteArray.utf8DecodeChar? 0 with
    | none => none
    | some c => (decodeUtf8 fuel ((b :: rest).drop c.utf8Size)).map (c :: ·)

/-- `str::from_utf8`. -/
def ofUtf8 (bytes : Bytes) : Option Text := decodeUtf8 bytes.length bytes

theorem decodeUtf8_toUtf8 {fuel : ℕ} {s : Text} (h : s.toUtf8.length ≤ fuel) :
    decodeUtf8 fuel s.toUtf8 = some s := by
  induction s generalizing fuel with
  | nil => cases fuel <;> rfl
  | cons c s ih =>
    have hcons : toUtf8 (c :: s) = String.utf8EncodeChar c ++ toUtf8 s := List.flatMap_cons
    have hlength := String.length_utf8EncodeChar c
    have hpos := c.utf8Size_pos
    rw [hcons, List.length_append, hlength] at h
    obtain ⟨fuel, rfl⟩ : ∃ n, fuel = n + 1 := ⟨fuel - 1, by omega⟩
    have hdrop : (String.utf8EncodeChar c ++ toUtf8 s).drop c.utf8Size = toUtf8 s :=
      List.drop_left' hlength
    obtain ⟨b, rest, hbytes⟩ : ∃ b rest, String.utf8EncodeChar c ++ toUtf8 s = b :: rest :=
      List.exists_cons_of_length_pos (by rw [List.length_append, hlength]; omega)
    rw [hcons, hbytes, decodeUtf8, ← hbytes, List.toByteArray_append,
      ByteArray.utf8DecodeChar?_utf8EncodeChar_append]
    dsimp only
    rw [hdrop, ih (by omega)]
    rfl

theorem ofUtf8_toUtf8 (s : Text) : ofUtf8 s.toUtf8 = some s := decodeUtf8_toUtf8 (Nat.le_refl _)

theorem toUtf8_injective : Function.Injective toUtf8 := fun s t h =>
  Option.some.inj (by rw [← ofUtf8_toUtf8, h, ofUtf8_toUtf8])

end Rns.Text
