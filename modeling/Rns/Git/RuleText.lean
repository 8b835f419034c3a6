import Rns.Git.Access

/-!
# Rule texts written by the server

The server writes rules that name identities in hexadecimal.  What it writes is read back as the rules it
meant.
-/

namespace Rns

open Text

namespace Text

theorem trim_eq_self {s : Text} (hhead : ∀ c ∈ s.head?, isWhitespace c = false)
    (hlast : ∀ c ∈ s.getLast?, isWhitespace c = false) : s.trim = s := by
  have hdrop : s.dropWhile isWhitespace = s := by
    cases s with
    | nil => rfl
    | cons c cs => rw [List.dropWhile_cons_of_neg (by simp [hhead c (by simp)])]
  rw [trim, hdrop, List.rdropWhile_eq_self_iff]
  intro hne
  simp [hlast _ (List.getLast?_eq_some_getLast hne)]

theorem intercalate_ended (ls : List Text) :
    ['\n'].intercalate (ls ++ [[]]) = ls.flatMap (· ++ ['\n']) := by
  induction ls with
  | nil => rfl
  | cons l ls ih =>
    have hne : ls ++ [[]] ≠ [] := by simp
    rw [List.cons_append, List.intercalate_cons_of_ne_nil hne, ih, List.flatMap_cons]

theorem lines_ended {ls : List Text} (h : ∀ l ∈ ls, '\n' ∉ l ∧ '\r' ∉ l) :
    lines (ls.flatMap (· ++ ['\n'])) = ls := by
  have hsplit : (ls.flatMap (· ++ ['\n'])).splitOn '\n' = ls ++ [[]] := by
    rw [← intercalate_ended]
    refine List.splitOn_intercalate _ ?_ (by simp)
    intro l hl
    rcases List.mem_append.1 hl with hl | hl
    · exact (h l hl).1
    · simp [List.mem_singleton.1 hl]
  have hkept : ls.map (fun line => if line.getLast? = some '\r' then line.dropLast else line) = ls := by
    refine List.map_congr_left (fun l hl => ?_) |>.trans (List.map_id ls)
    exact if_neg fun hlast => (h l hl).2 (List.mem_of_mem_getLast? hlast)
  simp only [lines, hsplit, List.dropLast_concat, hkept]
  simp

end Text

namespace Git

/-! ## Hexadecimal digits -/

variable (id : Id) {n : ℕ} {key : Text} {c : Char} (bytes : Bytes)

theorem hexDigit_hexChar (h : n < 16) : hexDigit (hexChar n) = some n := by
  interval_cases n <;> rfl

theorem hexChar_plain (h : n < 16) :
    hexChar n ≠ '+' ∧ hexChar n ≠ '#' ∧ hexChar n ≠ ',' ∧ hexChar n ≠ '\n' ∧ hexChar n ≠ '\r' ∧
      (hexChar n).utf8Size = 1 ∧ isWhitespace (hexChar n) = false := by
  interval_cases n <;> decide

theorem mem_hex {bytes : Bytes} {c : Char} (h : c ∈ hex bytes) : ∃ n < 16, c = hexChar n := by
  obtain ⟨b, -, hc⟩ := List.mem_flatMap.1 h
  have hb := b.toNat_lt
  rcases List.mem_pair.1 hc with rfl | rfl
  · exact ⟨b.toNat / 16, by omega, rfl⟩
  · exact ⟨b.toNat % 16, by omega, rfl⟩

theorem not_mem_hex {bytes : Bytes} {c : Char} (hc : c = '#' ∨ c = ',' ∨ c = '\n' ∨ c = '\r') :
    c ∉ hex bytes := by
  intro h
  obtain ⟨n, hn, rfl⟩ := mem_hex h
  have hplain := hexChar_plain hn
  tauto

theorem isWhitespace_of_mem_hex {bytes : Bytes} {c : Char} (h : c ∈ hex bytes) :
    isWhitespace c = false := by
  obtain ⟨n, hn, rfl⟩ := mem_hex h
  exact (hexChar_plain hn).2.2.2.2.2.2

theorem length_hex : (hex bytes).length = 2 * bytes.length := by
  simp [hex, List.length_flatMap, Nat.mul_comm]

theorem utf8Len_hex : (hex bytes).utf8Len = 2 * bytes.length := by
  have hones : (hex bytes).map Char.utf8Size = List.replicate (hex bytes).length 1 :=
    List.eq_replicate_iff.2 ⟨by simp, fun n hn => by
      obtain ⟨c, hc, rfl⟩ := List.mem_map.1 hn
      obtain ⟨m, hm, rfl⟩ := mem_hex hc
      exact (hexChar_plain hm).2.2.2.2.2.1⟩
  rw [utf8Len, hones, List.sum_replicate, length_hex, smul_eq_mul, Nat.mul_one]

theorem trim_hex : (hex bytes).trim = hex bytes :=
  trim_eq_self (fun _ hc => isWhitespace_of_mem_hex (List.mem_of_mem_head? hc))
    fun _ hc => isWhitespace_of_mem_hex (List.mem_of_mem_getLast? hc)

/-! ## Reading an identity back -/

theorem parseHexByte_hex (b : UInt8) :
    parseHexByte [hexChar (b.toNat / 16), hexChar (b.toNat % 16)] = .ok b := by
  have hb := b.toNat_lt
  have hhigh : b.toNat / 16 < 16 := by omega
  have hlow : b.toNat % 16 < 16 := by omega
  have hsum : 16 * (b.toNat / 16) + b.toNat % 16 = b.toNat := by omega
  have hplus := (hexChar_plain hhigh).1
  have hdigits : [hexChar (b.toNat / 16), hexChar (b.toNat % 16)].mapM hexDigit =
      some [b.toNat / 16, b.toNat % 16] := by
    simp [hexDigit_hexChar hhigh, hexDigit_hexChar hlow]
  unfold parseHexByte
  split
  case h_1 heq => exact absurd (List.cons.inj heq).1 hplus
  case h_2 =>
    simp only [hdigits]
    simp [hsum]

theorem splitBytes_two {d : Char} (hc : c.utf8Size = 1) (hd : d.utf8Size = 1) (rest : Text) :
    splitBytes 2 (c :: d :: rest) = some ([c, d], rest) := by
  simp [splitBytes, hc, hd]

theorem parseHexBytes_hex : parseHexBytes bytes.length (hex bytes) = .ok bytes := by
  induction bytes with
  | nil => rfl
  | cons b bytes ih =>
    have hb := b.toNat_lt
    have hhigh := (hexChar_plain (show b.toNat / 16 < 16 by omega)).2.2.2.2.2.1
    have hlow := (hexChar_plain (show b.toNat % 16 < 16 by omega)).2.2.2.2.2.1
    have hcut : hex (b :: bytes) = hexChar (b.toNat / 16) :: hexChar (b.toNat % 16) :: hex bytes := rfl
    rw [List.length_cons, parseHexBytes, hcut, splitBytes_two hhigh hlow]
    simp only [parseHexByte_hex, ih]
    rfl

theorem parseHex16_hex : parseHex16 (hex id.toList) = .ok id := by
  have hlength : id.toList.length = 16 := by simp
  have hparse := parseHexBytes_hex id.toList
  rw [hlength] at hparse
  have hfixed : Bytes.fixed 16 id.toList 0 = id := by simpa using Bytes.fixed_append [] id []
  simp only [parseHex16, trim_hex, utf8Len_hex, hlength, hparse]
  exact congrArg Except.ok hfixed

/-! ## Rule texts -/

/-- The line `key = identity`, with the space after the key in `key`. -/
def grantLine (key : Text) (id : Id) : Text := key ++ '=' :: ' ' :: hex id.toList

theorem parseLine_grantLine {ops : List Operation} (id : Id)
    (hkey : operationsOfKey (toAsciiLowercase key.trim) = some ops)
    (hhead : ∃ c ∈ key.head?, isWhitespace c = false) (hplain : '#' ∉ key ∧ '=' ∉ key) :
    parseLine (grantLine key id) = .ok (ops.map fun op => (op, hex id.toList)) := by
  have hdigits : hex id.toList ≠ [] := by
    intro hnil
    simpa [hnil] using length_hex id.toList
  have hcomment : '#' ∉ key ++ '=' :: ' ' :: hex id.toList := by
    simp [hplain.1, not_mem_hex]
  have htrim : trim (key ++ '=' :: ' ' :: hex id.toList) = key ++ '=' :: ' ' :: hex id.toList := by
    refine trim_eq_self ?_ ?_
    · obtain ⟨c, hc, hspace⟩ := hhead
      intro d hd
      rw [List.head?_append_of_ne_nil _ (by rintro rfl; simp at hc)] at hd
      rwa [Option.mem_unique hd hc]
    · intro d hd
      have hlast : (key ++ '=' :: ' ' :: hex id.toList).getLast? = (hex id.toList).getLast? := by
        rw [List.append_cons, List.append_cons, List.getLast?_append_of_ne_nil _ hdigits]
      rw [hlast] at hd
      exact isWhitespace_of_mem_hex (List.mem_of_mem_getLast? hd)
  have hvalue : trim (' ' :: hex id.toList) = hex id.toList := by
    have hspace : isWhitespace ' ' = true := by decide
    have hskip : trim (' ' :: hex id.toList) = trim (hex id.toList) := by
      simp [trim, hspace]
    rw [hskip, trim_hex]
  have hcomma : ',' ∉ ' ' :: hex id.toList := by simp [not_mem_hex]
  have hfirst : ((key ++ '=' :: ' ' :: hex id.toList).splitOn '#').headD [] =
      key ++ '=' :: ' ' :: hex id.toList := by
    rw [List.splitOn_eq_singleton hcomment, List.headD_cons]
  unfold parseLine grantLine
  rw [hfirst, htrim]
  have hnonempty : key ++ '=' :: ' ' :: hex id.toList ≠ [] := by simp
  simp only [if_neg hnonempty, splitOnce_append hplain.2, Option.orElse_some, Option.getD_some, hkey,
    List.splitOn_eq_singleton hcomma, List.map_cons, List.map_nil, hvalue]
  rw [List.map_eq_flatMap]

theorem grantLine_plain (id : Id) (hc : c = '\n' ∨ c = '\r') (hkey : c ∉ key) :
    c ∉ grantLine key id := by
  have hdigits : c ∉ hex id.toList := not_mem_hex (by tauto)
  rcases hc with rfl | rfl <;> simp [grantLine, hkey, hdigits]

theorem parse_identity : Rule.parse [hex id.toList] (fun _ => none) = .ok (.identities [id]) := by
  have hother : ∀ word : Text, word.length < 32 → eqIgnoreAsciiCase (hex id.toList) word = false := by
    intro word hword
    refine decide_eq_false fun heq => ?_
    have hlength := congrArg List.length heq
    simp only [toAsciiLowercase, List.length_map, length_hex, Vector.length_toList] at hlength
    omega
  simp [Rule.parse, hother, parseIdentityRef, parseHex16_hex]

end Git

end Rns
