import Mathlib
import Rns.Lib.Text

/-!
# Days of the statistics

Counters are kept by day, under the date as a text.  Years are counted from March, so that the leap day
comes last.
-/

namespace Rns.Git

open List

/-- The first part of `civil_from_days`: the year from March and its day.  Only the first dividend can be
negative. -/
def marchYear (days : ℤ) : ℤ × ℤ :=
  let days := days + 719468
  let era := (if days ≥ 0 then days else days - 146096).tdiv 146097
  let dayOfEra := days - era * 146097
  let yearOfEra := (dayOfEra - dayOfEra / 1460 + dayOfEra / 36524 - dayOfEra / 146096) / 365
  (yearOfEra + era * 400, dayOfEra - (365 * yearOfEra + yearOfEra / 4 - yearOfEra / 100))

/-- The second part: year, month and day. -/
def marchDate (year dayOfYear : ℤ) : ℤ × ℤ × ℤ :=
  let monthPart := (5 * dayOfYear + 2) / 153
  let day := dayOfYear - (153 * monthPart + 2) / 5 + 1
  let month := monthPart + if monthPart < 10 then 3 else -9
  (year + if month ≤ 2 then 1 else 0, month, day)

/-- `civil_from_days`, for days whose sums fit their words. -/
def civilFromDays (days : ℤ) : ℤ × ℤ × ℤ :=
  let (year, month, day) := marchDate (marchYear days).1 (marchYear days).2
  (year.bmod (2 ^ 32), month % 2 ^ 32, day % 2 ^ 32)

def daysFromCivil (year month day : ℤ) : Option ℤ :=
  if ¬(1 ≤ month ∧ month ≤ 12) ∨ ¬(1 ≤ day ∧ day ≤ 31) then none
  else
    let year := year - if month ≤ 2 then 1 else 0
    let era := (if year ≥ 0 then year else year - 399).tdiv 400
    let yearOfEra := year - era * 400
    let monthPart := month + if month > 2 then -3 else 9
    let dayOfYear := (153 * monthPart + 2) / 5 + day - 1
    let dayOfEra := yearOfEra * 365 + yearOfEra / 4 - yearOfEra / 100 + dayOfYear
    some (era * 146097 + dayOfEra - 719468)

/-- `{:0width}`, which counts the sign. -/
def padded (width : ℕ) : ℤ → Text
  | .ofNat n => (Nat.toDigits 10 n).leftpad width '0'
  | .negSucc n => '-' :: (Nat.toDigits 10 (n + 1)).leftpad (width - 1) '0'

def formatDay (dayIndex : ℤ) : Text :=
  let (year, month, day) := civilFromDays dayIndex
  padded 4 year ++ '-' :: (padded 2 month ++ '-' :: padded 2 day)

def splitSign (signed : Bool) : Text → ℤ × Text
  | '+' :: digits => (1, digits)
  | '-' :: digits => if signed then (-1, digits) else (1, '-' :: digits)
  | s => (1, s)

/-- `parse` of an integer type. -/
def parseInt (min max : ℤ) (s : Text) : Option ℤ :=
  let (sign, digits) := splitSign (min < 0) s
  let n := sign * Nat.ofDigitChars 10 digits 0
  if digits ≠ [] ∧ (∀ c ∈ digits, c.isDigit) ∧ min ≤ n ∧ n ≤ max then some n else none

def parseDay (day : Text) : Option ℤ :=
  match day.splitOn '-' with
  | [year, month, day] => do
    daysFromCivil (← parseInt (-2 ^ 31) (2 ^ 31 - 1) year) (← parseInt 0 (2 ^ 32 - 1) month)
      (← parseInt 0 (2 ^ 32 - 1) day)
  | _ => none

def daysInMonth (year month : ℤ) : ℤ :=
  if month = 2 then if 4 ∣ year ∧ (¬100 ∣ year ∨ 400 ∣ year) then 29 else 28
  else if month ∈ [4, 6, 9, 11] then 30 else 31

/-! ## Dates from March -/

def Earlier (date date' : ℤ × ℤ × ℤ) : Prop :=
  date.1 < date'.1 ∨ date.1 = date'.1 ∧
    (date.2.1 < date'.2.1 ∨ date.2.1 = date'.2.1 ∧ date.2.2 < date'.2.2)

section Months

variable {year r year' r' : ℤ} (hr : 0 ≤ r ∧ r ≤ 365)

include hr

theorem part_spec {part : ℤ} (hpart : part = (5 * r + 2) / 153) :
    (0 ≤ part ∧ part < 12) ∧ (153 * part + 2) / 5 ≤ r ∧ r ≤ (153 * part + 2) / 5 + 30 := by
  omega

theorem marchDate_spec {y month day : ℤ} (h : marchDate year r = (y, month, day)) :
    (1 ≤ month ∧ month ≤ 12) ∧ (1 ≤ day ∧ day ≤ 31) ∧ (y - if month ≤ 2 then 1 else 0) = year ∧
      (153 * (month + if month > 2 then -3 else 9) + 2) / 5 + day - 1 = r := by
  obtain ⟨hpart, hfirst⟩ := part_spec hr rfl
  simp only [marchDate, Prod.mk.injEq] at h
  obtain ⟨rfl, rfl, rfl⟩ := h
  refine ⟨by split_ifs <;> omega, by omega, ?_⟩
  split_ifs <;> omega

theorem earlier_marchDate_iff (hr' : 0 ≤ r' ∧ r' ≤ 365) :
    Earlier (marchDate year r) (marchDate year' r') ↔ year < year' ∨ year = year' ∧ r < r' := by
  obtain ⟨hpart, hfirst⟩ := part_spec hr rfl
  obtain ⟨hpart', hfirst'⟩ := part_spec hr' rfl
  simp only [marchDate, Earlier]
  split_ifs <;> omega

end Months

/-- A year after `c` centuries, `b` cycles of four years and `a` years of an era has the day `r`. -/
structure Cycle (c b a r : ℤ) : Prop where
  hc : 0 ≤ c ∧ c < 4
  hb : 0 ≤ b ∧ b < 25
  ha : 0 ≤ a ∧ a < 4
  hr : 0 ≤ r ∧ (r < 365 ∨ r = 365 ∧ a = 3 ∧ (b < 24 ∨ c = 3))

/-- Day `n` from 1 March of year 0 on is day `r` of year `y` from March. -/
def Reckoned (n y r : ℤ) : Prop :=
  ∃ e c b a, n = 146097 * e + (36524 * c + 1461 * b + 365 * a + r) ∧
    y = 100 * c + 4 * b + a + e * 400 ∧ Cycle c b a r

theorem exists_reckoned (n : ℤ) : ∃ y r, Reckoned n y r := by
  obtain ⟨c, rest, hera, hc, hrest⟩ : ∃ c rest, n % 146097 = 36524 * c + rest ∧ (0 ≤ c ∧ c < 4) ∧
      0 ≤ rest ∧ (rest < 36524 ∨ rest = 36524 ∧ c = 3) :=
    ⟨min (n % 146097 / 36524) 3, _, (add_sub_cancel ..).symm, by omega, by omega⟩
  obtain ⟨a, r, hcycle, ha, hr⟩ : ∃ a r, rest % 1461 = 365 * a + r ∧ (0 ≤ a ∧ a < 4) ∧
      0 ≤ r ∧ (r < 365 ∨ r = 365 ∧ a = 3) :=
    ⟨min (rest % 1461 / 365) 3, _, (add_sub_cancel ..).symm, by omega, by omega⟩
  exact ⟨_, r, n / 146097, c, rest / 1461, a, by omega, rfl, hc, by omega, ha, by omega⟩

section Cycles

variable {c b a r : ℤ} (h : Cycle c b a r)

include h

theorem Cycle.yearOfEra_eq {doe : ℤ} (hdoe : doe = 36524 * c + 1461 * b + 365 * a + r) :
    (doe - doe / 1460 + doe / 36524 - doe / 146096) / 365 = 100 * c + 4 * b + a := by
  obtain ⟨hc, hb, ha, hr⟩ := h
  have hcycle : doe / 1460 = 25 * c + b ∨ doe / 1460 = 25 * c + b + 1 := by omega
  have hcentury : doe / 36524 = c + doe / 146096 := by
    by_cases hlast : doe = 146096
    · have hc : c = 3 := by omega
      rw [hlast, hc]
      rfl
    · have hrest : 1461 * b + 365 * a + r < 36524 := by omega
      omega
  have hsum : doe - doe / 1460 + doe / 36524 - doe / 146096 = doe - doe / 1460 + c := by omega
  rw [hsum]
  omega

theorem Cycle.quarters : (100 * c + 4 * b + a) / 4 = 25 * c + b ∧ (100 * c + 4 * b + a) / 100 = c := by
  obtain ⟨-, hb, ha, -⟩ := h
  omega

end Cycles

namespace Reckoned

variable {n y r n' y' r' year month day : ℤ} (h : Reckoned n y r)

include h

theorem day_le : 0 ≤ r ∧ r ≤ 365 := by
  obtain ⟨e, c, b, a, -, -, -, -, -, hr⟩ := h
  omega

theorem marchYear_eq (hpos : 0 ≤ n) : marchYear (n - 719468) = (y, r) := by
  obtain ⟨e, c, b, a, hn, rfl, hcycle⟩ := h
  have hyear := hcycle.yearOfEra_eq rfl
  obtain ⟨hfour, hhundred⟩ := hcycle.quarters
  obtain ⟨hc, hb, ha, hr⟩ := hcycle
  have hera : n.tdiv 146097 = e := by
    rw [Int.tdiv_eq_ediv_of_nonneg hpos]
    omega
  have hrest : n - e * 146097 = 36524 * c + 1461 * b + 365 * a + r := by omega
  simp only [marchYear, Int.sub_add_cancel, if_pos hpos.ge, hera, hrest, hyear, hfour, hhundred]
  congr 1
  ring

theorem day_le_daysInMonth (hdate : marchDate y r = (year, month, day)) : day ≤ daysInMonth year month := by
  obtain ⟨part, hpart⟩ : ∃ part, part = (5 * r + 2) / 153 := ⟨_, rfl⟩
  obtain ⟨⟨hlow, hhigh⟩, -⟩ := part_spec h.day_le hpart
  obtain ⟨e, c, b, a, -, rfl, hc, hb, ha, hr⟩ := h
  simp only [marchDate, ← hpart, Prod.mk.injEq] at hdate
  obtain ⟨rfl, rfl, rfl⟩ := hdate
  unfold daysInMonth
  interval_cases part <;> simp
  case «11» => split_ifs <;> omega
  all_goals omega

theorem daysFromCivil_eq (hpos : 0 ≤ y) (hdate : marchDate y r = (year, month, day)) :
    daysFromCivil year month day = some (n - 719468) := by
  obtain ⟨hmonth, hday, hyear, hdayOfYear⟩ := marchDate_spec h.day_le hdate
  obtain ⟨e, c, b, a, hn, hy, hcycle⟩ := h
  obtain ⟨hfour, hhundred⟩ := hcycle.quarters
  obtain ⟨hc, hb, ha, -⟩ := hcycle
  have hera : y.tdiv 400 = e := by
    rw [Int.tdiv_eq_ediv_of_nonneg hpos]
    omega
  have hrest : y - e * 400 = 100 * c + 4 * b + a := by omega
  rw [daysFromCivil, if_neg (by tauto)]
  simp only [hyear, hdayOfYear, if_pos hpos.ge, hera, hrest, hfour, hhundred, hn]
  congr 1
  ring

omit h in
theorem lt_of_lex (h : Reckoned n y r) (h' : Reckoned n' y' r') (hlex : y < y' ∨ y = y' ∧ r < r') :
    n < n' := by
  obtain ⟨e, c, b, a, hn, hy, hc, hb, ha, hr⟩ := h
  obtain ⟨e', c', b', a', hn', hy', hc', hb', ha', hr'⟩ := h'
  have hcases : e < e' ∨ e = e' ∧ (c < c' ∨ c = c' ∧ (b < b' ∨ b = b' ∧
      (a < a' ∨ a = a' ∧ r < r'))) := by
    omega
  rcases hcases with he | ⟨rfl, hc | ⟨rfl, hb | ⟨rfl, ha | ⟨rfl, hr⟩⟩⟩⟩ <;> omega

theorem lt_iff_lex (h' : Reckoned n' y' r') : n < n' ↔ y < y' ∨ y = y' ∧ r < r' := by
  refine ⟨fun hlt => ?_, h.lt_of_lex h'⟩
  by_contra hnot
  by_cases hsame : y = y' ∧ r = r'
  · obtain ⟨e, c, b, a, hn, hy, hc, hb, ha, -⟩ := h
    obtain ⟨e', c', b', a', hn', hy', hc', hb', ha', -⟩ := h'
    omega
  · have hgt := h'.lt_of_lex h (by omega)
    omega

end Reckoned

/-! ## Texts -/

section Texts

variable {width n : ℕ} {c : Char}

theorem isDigit_of_mem_padded (h : c ∈ padded width n) : c.isDigit := by
  rcases mem_append.1 h with h | h
  · rw [(mem_replicate.1 h).2]
    rfl
  · exact Nat.isDigit_of_mem_toDigits (by decide) (by decide) h

theorem not_mem_padded (h : c.isDigit = false) : c ∉ padded width n := fun hmem => by
  rw [isDigit_of_mem_padded hmem] at h
  cases h

theorem parseInt_padded {min max : ℤ} (hmin : min ≤ n) (hmax : n ≤ max) :
    parseInt min max (padded width n) = some (n : ℤ) := by
  have hvalue : Nat.ofDigitChars 10 (padded width n) 0 = n := by
    change Nat.ofDigitChars 10 (leftpad ..) 0 = n
    rw [leftpad, Nat.ofDigitChars_append, Nat.ofDigitChars_replicate_zero]
    simp
  have hne : padded width n ≠ [] := append_ne_nil_of_right_ne_nil _ Nat.toDigits_ne_nil
  have hsign (signed : Bool) : splitSign signed (padded width n) = (1, padded width n) := by
    unfold splitSign
    split
    · next heq => exact absurd (heq ▸ mem_cons_self) (not_mem_padded (by decide))
    · next heq => exact absurd (heq ▸ mem_cons_self) (not_mem_padded (by decide))
    · rfl
  simp only [parseInt, hsign, hvalue, one_mul]
  exact if_pos ⟨hne, fun _ => isDigit_of_mem_padded, hmin, hmax⟩

theorem parseDay_text {year month day : ℕ} (hyear : year < 2 ^ 31) (hmonth : month < 2 ^ 32)
    (hday : day < 2 ^ 32) : parseDay (padded 4 year ++ '-' :: (padded 2 month ++ '-' :: padded 2 day)) =
      daysFromCivil year month day := by
  have hsplit : (padded 4 year ++ '-' :: (padded 2 month ++ '-' :: padded 2 day)).splitOn '-' =
      [padded 4 year, padded 2 month, padded 2 day] := by
    have hnot : ∀ l ∈ [padded 4 year, padded 2 month, padded 2 day], '-' ∉ l := by
      simp [not_mem_padded]
    simpa using splitOn_intercalate '-' hnot (by simp)
  rw [parseDay, hsplit]
  dsimp only
  rw [parseInt_padded (by omega) (by omega), parseInt_padded (by omega) (by omega),
    parseInt_padded (by omega) (by omega)]
  rfl

theorem padded_succ (h : 1 ≤ width) :
    padded (width + 1) n = padded width (n / 10 : ℕ) ++ [(n % 10).digitChar] := by
  change leftpad .. = leftpad .. ++ _
  rw [Nat.toDigits_eq_if (by decide)]
  split_ifs with hlt
  · obtain ⟨k, rfl⟩ := Nat.exists_eq_add_of_le' h
    simp [leftpad, Nat.div_eq_of_lt hlt, Nat.mod_eq_of_lt hlt, replicate_succ']
  · simp [leftpad]

theorem padded_one (h : n < 10) : padded 1 n = [n.digitChar] := by
  change leftpad .. = _
  simp [leftpad, Nat.toDigits_of_lt_base h]

theorem digitChar_lt_iff {a b : ℕ} (ha : a < 10) (hb : b < 10) :
    (a.digitChar < b.digitChar ↔ a < b) ∧ (a.digitChar = b.digitChar ↔ a = b) := by
  interval_cases a <;> interval_cases b <;> decide

theorem text_lt_iff {year month day year' month' day' : ℕ} (hyear : year < 10000) (hmonth : month < 100)
    (hday : day < 100) (hyear' : year' < 10000) (hmonth' : month' < 100) (hday' : day' < 100) :
    padded 4 year ++ '-' :: (padded 2 month ++ '-' :: padded 2 day) <
      padded 4 year' ++ '-' :: (padded 2 month' ++ '-' :: padded 2 day') ↔
    Earlier (year, month, day) (year', month', day') := by
  have hirrefl : ¬('-' < '-') := by decide
  simp (disch := omega) only [padded_succ, padded_one, cons_append, nil_append, cons_lt_cons_iff,
    digitChar_lt_iff, hirrefl, List.lt_irrefl, true_and, false_or, or_false, and_false, Earlier]
  omega

end Texts

/-- The day 2147483647-12-31. -/
def lastDay : ℤ := 784351576776

theorem civilFromDays_spec {d : ℤ} (h : 0 ≤ d) (hlast : d ≤ lastDay) : ∃ (y r : ℤ) (year month day : ℕ),
    Reckoned (d + 719468) y r ∧ marchDate y r = ((year : ℤ), (month : ℤ), (day : ℤ)) ∧
      civilFromDays d = marchDate y r ∧ 0 ≤ y ∧ year < 2 ^ 31 ∧ (1 ≤ month ∧ month ≤ 12) ∧
      1 ≤ day ∧ day ≤ 31 := by
  obtain ⟨y, r, hd⟩ := exists_reckoned (d + 719468)
  obtain ⟨year, month, day, hdate⟩ : ∃ year month day, marchDate y r = (year, month, day) := ⟨_, _, _, rfl⟩
  obtain ⟨hmonth, hday, hyear, hdayOfYear⟩ := marchDate_spec hd.day_le hdate
  have hfits : year < 2 ^ 31 := by
    have hend : Reckoned (lastDay + 719468) 2147483647 305 :=
      ⟨5368709, 0, 11, 3, by decide, by decide, by decide, by decide, by decide, by decide⟩
    by_contra hlate
    have hlt := hend.lt_of_lex hd (by split_ifs at hyear hdayOfYear <;> omega)
    omega
  have hpos : 0 ≤ y := by
    obtain ⟨e, c, b, a, hn, hy, hc, hb, ha, hr⟩ := hd
    omega
  have hnonneg : 0 ≤ year := by split_ifs at hyear <;> omega
  have hcivil : civilFromDays d = (year, month, day) := by
    have hmarch := hd.marchYear_eq (by omega)
    rw [Int.add_sub_cancel] at hmarch
    simp only [civilFromDays, hmarch, hdate]
    rw [Int.bmod_eq_of_le_mul_two (by omega) (by omega), Int.emod_eq_of_lt (by omega) (by omega),
      Int.emod_eq_of_lt (by omega) (by omega)]
  lift year to ℕ using hnonneg
  lift month to ℕ using (by omega)
  lift day to ℕ using (by omega)
  exact ⟨y, r, year, month, day, hd, hdate, hcivil.trans hdate.symm, hpos, by omega, by omega, by omega⟩

def ValidDate : ℤ × ℤ × ℤ → Prop
  | (year, month, day) => (1 ≤ month ∧ month ≤ 12) ∧ 1 ≤ day ∧ day ≤ daysInMonth year month

/-- Days are read back from their texts, their dates exist, and as long as years have four digits the
texts are in the order of the days. -/
theorem day_texts {d : ℤ} (h : 0 ≤ d) (hlast : d ≤ lastDay) :
    parseDay (formatDay d) = some d ∧ ValidDate (civilFromDays d) ∧
    ∀ d', 0 ≤ d' → d' ≤ lastDay → (civilFromDays d).1 ≤ 9999 → (civilFromDays d').1 ≤ 9999 →
      (d < d' ↔ formatDay d < formatDay d') := by
  obtain ⟨y, r, year, month, day, hd, hdate, hcivil, hpos, hyear, hmonth, hday⟩ := civilFromDays_spec h hlast
  have hvalid := hd.day_le_daysInMonth hdate
  rw [formatDay, hcivil, hdate]
  refine ⟨?_, ⟨by omega, by omega, hvalid⟩, fun d' h' hlast' hshort hshort' => ?_⟩
  · rw [parseDay_text (by omega) (by omega) (by omega), hd.daysFromCivil_eq hpos hdate, Int.add_sub_cancel]
  · obtain ⟨y', r', year', month', day', hd', hdate', hcivil', -, -, hmonth', hday'⟩ :=
      civilFromDays_spec h' hlast'
    rw [hcivil', hdate'] at hshort'
    rw [formatDay, hcivil', hdate', text_lt_iff (by omega) (by omega) (by omega) (by omega) (by omega)
      (by omega), ← hdate, ← hdate', earlier_marchDate_iff hd.day_le hd'.day_le, ← hd.lt_iff_lex hd',
      add_lt_add_iff_right]

theorem day_texts_sample : parseDay (formatDay 20000) = some 20000 ∧
    ((20000 : ℤ) < 20088 ↔ formatDay 20000 < formatDay 20088) :=
  have h := day_texts (d := 20000) (by decide) (by decide)
  ⟨h.1, h.2.2 20088 (by decide) (by decide) (by decide) (by decide)⟩

end Rns.Git
