import Mathlib.Tactic
import Mathlib.Data.List.DropRight

/-!
# Strings as character lists

The string functions of the standard library that the sources use, on lists of characters.
-/

namespace Rns

abbrev Text := List Char

namespace Text

/-- `str::len`: the number of bytes of the UTF-8 encoding. -/
def utf8Len (s : Text) : ℕ := (s.map Char.utf8Size).sum

/-- `str::trim_matches` for one character. -/
def trimMatches (c : Char) (s : Text) : Text := (s.dropWhile (· == c)).rdropWhile (· == c)

/-- `char::is_whitespace`: the Unicode property `White_Space`. -/
def isWhitespace (c : Char) : Bool :=
  let n := c.toNat
  (9 ≤ n ∧ n ≤ 13) ∨ n = 0x20 ∨ n = 0x85 ∨ n = 0xa0 ∨ n = 0x1680 ∨ (0x2000 ≤ n ∧ n ≤ 0x200a) ∨
    n = 0x2028 ∨ n = 0x2029 ∨ n = 0x202f ∨ n = 0x205f ∨ n = 0x3000

/-- `str::trim`. -/
def trim (s : Text) : Text := (s.dropWhile isWhitespace).rdropWhile isWhitespace

/-- `str::split_once`. -/
def splitOnce (c : Char) : Text → Option (Text × Text)
  | [] => none
  | x :: xs =>
    if x = c then some ([], xs)
    else (splitOnce c xs).map fun (before, after) => (x :: before, after)

/-- `str::lines`: a line ends at `\n` or `\r\n`, and a final line break starts no new line. -/
def lines (s : Text) : List Text :=
  let parts := s.splitOn '\n'
  let ended := parts.dropLast.map fun line =>
    if line.getLast? = some '\r' then line.dropLast else line
  ended ++ parts.getLast?.toList.filter (· ≠ [])

/-- `str::to_ascii_lowercase`. -/
def toAsciiLowercase (s : Text) : Text := s.map Char.toLower

/-- `str::eq_ignore_ascii_case`. -/
def eqIgnoreAsciiCase (s t : Text) : Bool := toAsciiLowercase s = toAsciiLowercase t

/-! ## Trimming and splitting -/

theorem exists_trimMatches (c : Char) (s : Text) :
    ∃ m n, s = List.replicate m c ++ trimMatches c s ++ List.replicate n c := by
  have hpre : s.takeWhile (· == c) = List.replicate (s.takeWhile (· == c)).length c :=
    List.eq_replicate_of_mem fun x hx => by simpa using List.mem_takeWhile_imp hx
  have hpost : (s.dropWhile (· == c)).rtakeWhile (· == c) =
      List.replicate ((s.dropWhile (· == c)).rtakeWhile (· == c)).length c :=
    List.eq_replicate_of_mem fun x hx => by simpa using List.mem_rtakeWhile_imp hx
  refine ⟨(s.takeWhile (· == c)).length,
    ((s.dropWhile (· == c)).rtakeWhile (· == c)).length, ?_⟩
  rw [← hpre, ← hpost, trimMatches, List.append_assoc, List.rdropWhile_append_rtakeWhile,
    List.takeWhile_append_dropWhile]

theorem trimMatches_eq_of_head {c : Char} {s : Text} (h : s.head? ≠ some c) :
    trimMatches c s = s.rdropWhile (· == c) := by
  cases s with
  | nil => rfl
  | cons x xs =>
    have hx : (x == c) = false := by simpa using h
    rw [trimMatches, List.dropWhile_cons, hx]
    simp

theorem not_mem_or_last (c : Char) (s : Text) :
    c ∉ s ∨ ∃ before after, s = before ++ c :: after ∧ c ∉ after := by
  induction s with
  | nil => simp
  | cons x xs ih =>
    rcases ih with hxs | ⟨before, after, rfl, hafter⟩
    · by_cases hx : x = c
      · exact .inr ⟨[], xs, by simp [hx], hxs⟩
      · exact .inl (by simp [Ne.symm hx, hxs])
    · exact .inr ⟨x :: before, after, by simp, hafter⟩

theorem not_mem_of_splitOnce {c : Char} {s before after : Text}
    (h : splitOnce c s = some (before, after)) : s = before ++ c :: after ∧ c ∉ before := by
  induction s generalizing before with
  | nil => simp [splitOnce] at h
  | cons x xs ih =>
    by_cases hx : x = c
    · simp only [splitOnce, hx, if_true, Option.some.injEq, Prod.mk.injEq] at h
      obtain ⟨rfl, rfl⟩ := h
      simp [hx]
    · simp only [splitOnce, hx, if_false, Option.map_eq_some_iff, Prod.mk.injEq] at h
      obtain ⟨⟨b, a⟩, hb, rfl, rfl⟩ := h
      obtain ⟨rfl, hnot⟩ := ih hb
      exact ⟨by simp, by simp [Ne.symm hx, hnot]⟩

theorem splitOnce_append {c : Char} {before : Text} (h : c ∉ before) (after : Text) :
    splitOnce c (before ++ c :: after) = some (before, after) := by
  induction before with
  | nil => simp [splitOnce]
  | cons x xs ih =>
    simp only [List.mem_cons, not_or] at h
    simp [splitOnce, Ne.symm h.1, ih h.2]

end Text

end Rns
