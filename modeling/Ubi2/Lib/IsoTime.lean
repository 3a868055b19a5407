import Ubi2.Lib.Digits

namespace Ubi2.Lib

namespace Decimal

-- The last `n` decimal digits of a number, and the number that digits stand for.
def fixed : Nat → Nat → List Char
  | 0, _ => []
  | n + 1, v => fixed n (v / 10) ++ [Nat.digitChar (v % 10)]

def value (ds : List Char) : Nat := ds.foldl (fun acc c => acc * 10 + Hex.digitValue c) 0

theorem length_fixed (n v : Nat) : (fixed n v).length = n := by
  induction n generalizing v with
  | zero => rfl
  | succ n ih => rw [fixed, List.length_append, ih, List.length_singleton]

theorem value_fixed {n v : Nat} (h : v < 10 ^ n) : value (fixed n v) = v := by
  induction n generalizing v with
  | zero =>
    rw [Nat.pow_zero] at h
    obtain rfl : v = 0 := by omega
    rfl
  | succ n ih =>
    rw [Nat.pow_succ] at h
    have hdigit := (Hex.digitValue_digitChar (v % 10) (by omega)).1
    have hinit := ih (v := v / 10) (by omega)
    rw [value] at hinit
    rw [fixed, value, List.foldl_append, hinit, List.foldl_cons, List.foldl_nil, hdigit]
    omega

theorem fixed_ne {n v : Nat} {c : Char} (hc : c ∉ Hex.lowerDigits) : c ∉ fixed n v := by
  induction n generalizing v with
  | zero => exact List.not_mem_nil
  | succ n ih =>
    rw [fixed, List.mem_append, List.mem_singleton]
    rintro (h | rfl)
    · exact ih h
    · exact hc (Hex.digitValue_digitChar (v % 10) (by omega)).2

end Decimal

namespace IsoTime

-- A day of the Gregorian calendar. Years start in March, so that a leap day comes last.
structure Civil where
  year : Int
  month : Nat
  day : Nat
deriving DecidableEq, Repr

-- The days from the first of March of the year 0 to the start of 1970.
def shift : Int := 719468

-- The year of a 400-year era that a day of it is in, and the day of that year. Centuries, the
-- four years of a leap year and years all end in the short one, which the last one outlives.
def yearOf (dayOfEra : Nat) : Nat × Nat :=
  let century := min (dayOfEra / 36524) 3
  let dayOfCentury := dayOfEra - century * 36524
  let olympiad := dayOfCentury / 1461
  let dayOfOlympiad := dayOfCentury - olympiad * 1461
  let year := min (dayOfOlympiad / 365) 3
  (century * 100 + olympiad * 4 + year, dayOfOlympiad - year * 365)

-- The month of a year that starts in March, from 0 on, and the day of the month.
def monthOf (dayOfYear : Nat) : Nat × Nat :=
  let marchMonth := (5 * dayOfYear + 2) / 153
  (marchMonth, dayOfYear - (153 * marchMonth + 2) / 5 + 1)

def civil (days : Int) : Civil :=
  let year := yearOf ((days + shift) % 146097).toNat
  let month := monthOf year.2
  let yearOfEra := (year.1 : Int) + (days + shift) / 146097 * 400
  if month.1 < 10 then ⟨yearOfEra, month.1 + 3, month.2⟩ else ⟨yearOfEra + 1, month.1 - 9, month.2⟩

def daysOf (date : Civil) : Int :=
  let year := if date.month ≤ 2 then date.year - 1 else date.year
  let yearOfEra := (year % 400).toNat
  let marchMonth := (date.month + 9) % 12
  let dayOfYear := (153 * marchMonth + 2) / 5 + date.day - 1
  year / 400 * 146097 + (yearOfEra * 365 + yearOfEra / 4 - yearOfEra / 100 + dayOfYear : Nat) - shift

theorem yearOf_lt {d : Nat} (h : d < 146097) : (yearOf d).1 < 400 ∧ (yearOf d).2 < 366 ∧
    (yearOf d).1 * 365 + (yearOf d).1 / 4 - (yearOf d).1 / 100 + (yearOf d).2 = d := by
  simp only [yearOf]
  generalize hc : min (d / 36524) 3 = c
  have hcentury : c ≤ 3 ∧ c * 36524 ≤ d ∧ d - c * 36524 ≤ 36524 := by omega
  have hlast : c < 3 → d - c * 36524 < 36524 := by omega
  generalize he : d - c * 36524 = e at hcentury hlast
  generalize hq : e / 1461 = q
  have hquad : q ≤ 24 ∧ q * 1461 ≤ e ∧ e - q * 1461 < 1461 := by omega
  have hshort : q = 24 → c < 3 → e - q * 1461 < 1460 := by omega
  generalize hf : e - q * 1461 = f at hquad hshort
  generalize hy : min (f / 365) 3 = y
  have hyear : y ≤ 3 ∧ y * 365 ≤ f ∧ f - y * 365 < 366 := by omega
  have hfour : (c * 100 + q * 4 + y) / 4 = c * 25 + q := by omega
  have hhundred : (c * 100 + q * 4 + y) / 100 = c := by omega
  rw [hfour, hhundred]
  omega

theorem monthOf_lt {n : Nat} (h : n < 366) : (monthOf n).1 < 12 ∧ 1 ≤ (monthOf n).2 ∧
    (153 * (monthOf n).1 + 2) / 5 + (monthOf n).2 - 1 = n := by
  simp only [monthOf]
  omega

theorem daysOf_civil (days : Int) : daysOf (civil days) = days := by
  have hlt : ((days + shift) % 146097).toNat < 146097 := by omega
  obtain ⟨hyear, hday, hsum⟩ := yearOf_lt hlt
  obtain ⟨hmonth, -, hdayOfYear⟩ := monthOf_lt hday
  have hdays : days = (days + shift) / 146097 * 146097 +
      ((days + shift) % 146097).toNat - shift := by omega
  simp only [civil]
  generalize (days + shift) / 146097 = era at hdays ⊢
  generalize ((days + shift) % 146097).toNat = d at hyear hsum hdayOfYear hmonth hdays ⊢
  generalize monthOf (yearOf d).2 = month at hdayOfYear hmonth ⊢
  generalize yearOf d = year at hyear hsum hdayOfYear ⊢
  by_cases hten : month.1 < 10
  · have hback : (month.1 + 3 + 9) % 12 = month.1 := by omega
    have htwo : ¬month.1 + 3 ≤ 2 := by omega
    have hyearBack : (((year.1 : Int) + era * 400) % 400).toNat = year.1 := by omega
    have heraBack : ((year.1 : Int) + era * 400) / 400 = era := by omega
    rw [if_pos hten]
    simp only [daysOf, if_neg htwo, hback, hyearBack, heraBack, hdayOfYear, hsum]
    exact hdays.symm
  · have hback : (month.1 - 9 + 9) % 12 = month.1 := by omega
    have htwo : month.1 - 9 ≤ 2 := by omega
    have hyearBack : (((year.1 : Int) + era * 400 + 1 - 1) % 400).toNat = year.1 := by omega
    have heraBack : ((year.1 : Int) + era * 400 + 1 - 1) / 400 = era := by omega
    rw [if_neg hten]
    simp only [daysOf, if_pos htwo, hback, hyearBack, heraBack, hdayOfYear, hsum]
    exact hdays.symm

theorem civil_lt {days : Int} (h : -100000000 ≤ days ∧ days ≤ 100000000) :
    -1000000 < (civil days).year ∧ (civil days).year < 1000000 ∧ (civil days).month < 100 ∧
      (civil days).day < 100 := by
  have hlt : ((days + shift) % 146097).toNat < 146097 := by omega
  obtain ⟨hyear, hday, -⟩ := yearOf_lt hlt
  obtain ⟨hmonth, hpos, hsum⟩ := monthOf_lt hday
  have hera : -700 ≤ (days + shift) / 146097 ∧ (days + shift) / 146097 ≤ 700 := by
    rw [shift]
    omega
  have hdayOf : (monthOf (yearOf ((days + shift) % 146097).toNat).2).2 < 100 := by
    simp only [monthOf]
    omega
  simp only [civil]
  split
  · exact ⟨by dsimp only; omega, by dsimp only; omega, by dsimp only; omega, hdayOf⟩
  · exact ⟨by dsimp only; omega, by dsimp only; omega, by dsimp only; omega, hdayOf⟩

def MAX_TIME : Int := 8640000000000000
def MS_PER_DAY : Int := 86400000

def yearText (year : Int) : List Char :=
  if 0 ≤ year ∧ year ≤ 9999 then Decimal.fixed 4 year.toNat
  else if year < 0 then '-' :: Decimal.fixed 6 year.natAbs
  else '+' :: Decimal.fixed 6 year.natAbs

def timeText (ms : Nat) : List Char :=
  Decimal.fixed 2 (ms / 3600000) ++ ':' :: (Decimal.fixed 2 (ms / 60000 % 60) ++
    ':' :: (Decimal.fixed 2 (ms / 1000 % 60) ++ '.' :: (Decimal.fixed 3 (ms % 1000) ++ ['Z'])))

def dateText (date : Civil) : List Char :=
  yearText date.year ++ '-' :: (Decimal.fixed 2 date.month ++ '-' :: Decimal.fixed 2 date.day)

-- `Date.prototype.toISOString` of a time in milliseconds. There is none past the range of dates.
def toISOString (t : Int) : Option String :=
  if -MAX_TIME ≤ t ∧ t ≤ MAX_TIME then
    some (String.ofList (dateText (civil (t / MS_PER_DAY)) ++
      'T' :: timeText (t % MS_PER_DAY).toNat))
  else none

-- The number that a text starts with, written with so many digits.
def readNumber (n : Nat) (text : List Char) : Option (Nat × List Char) :=
  if n ≤ text.length then some (Decimal.value (text.take n), text.drop n) else none

def expect (c : Char) (text : List Char) : Option (List Char) :=
  if text.head? = some c then some text.tail else none

def readYear (text : List Char) : Option (Int × List Char) :=
  if text.head? = some '-' then (readNumber 6 text.tail).map fun (n, rest) => (-(n : Int), rest)
  else if text.head? = some '+' then (readNumber 6 text.tail).map fun (n, rest) => ((n : Int), rest)
  else (readNumber 4 text).map fun (n, rest) => ((n : Int), rest)

def readDate (text : List Char) : Option (Civil × List Char) := do
  let (year, text) ← readYear text
  let text ← expect '-' text
  let (month, text) ← readNumber 2 text
  let text ← expect '-' text
  let (day, text) ← readNumber 2 text
  some (⟨year, month, day⟩, text)

def readTime (text : List Char) : Option Nat := do
  let (hour, text) ← readNumber 2 text
  let text ← expect ':' text
  let (minute, text) ← readNumber 2 text
  let text ← expect ':' text
  let (second, text) ← readNumber 2 text
  let text ← expect '.' text
  let (ms, _) ← readNumber 3 text
  some (hour * 3600000 + minute * 60000 + second * 1000 + ms)

def read (text : List Char) : Option Int := do
  let (date, text) ← readDate text
  let text ← expect 'T' text
  let ms ← readTime text
  some (daysOf date * MS_PER_DAY + ms)

-- The time of a text that is what `toISOString` writes for it.
def canonical (s : String) : Option Int :=
  match read s.toList with
  | some t => if toISOString t = some s then some t else none
  | none => none

theorem readNumber_fixed {n v : Nat} (h : v < 10 ^ n) (rest : List Char) :
    readNumber n (Decimal.fixed n v ++ rest) = some (v, rest) := by
  have hlength := Decimal.length_fixed n v
  rw [readNumber, if_pos (by rw [List.length_append]; omega),
    List.take_append_of_le_length (by omega), List.take_of_length_le (by omega),
    List.drop_append_of_le_length (by omega), List.drop_of_length_le (by omega),
    Decimal.value_fixed h, List.nil_append]

theorem expect_cons (c : Char) (rest : List Char) : expect c (c :: rest) = some rest := by
  rw [expect, List.head?_cons, if_pos rfl, List.tail_cons]

theorem head_fixed_ne {n v : Nat} {c : Char} {rest : List Char} (hc : c ∉ Hex.lowerDigits)
    (hn : 0 < n) : (Decimal.fixed n v ++ rest).head? ≠ some c := by
  intro h
  cases htext : Decimal.fixed n v with
  | nil =>
    have hlength := Decimal.length_fixed n v
    rw [htext, List.length_nil] at hlength
    omega
  | cons d ds =>
    rw [htext, List.cons_append, List.head?_cons, Option.some.injEq] at h
    have hmem : d ∈ Decimal.fixed n v := htext ▸ List.mem_cons_self
    rw [h] at hmem
    exact Decimal.fixed_ne hc hmem

theorem readYear_yearText {year : Int} (h : -1000000 < year ∧ year < 1000000) (rest : List Char) :
    readYear (yearText year ++ rest) = some (year, rest) := by
  rw [yearText]
  split
  · rename_i hfour
    rw [readYear, if_neg (head_fixed_ne (by decide) (by decide)),
      if_neg (head_fixed_ne (by decide) (by decide)), readNumber_fixed (by omega), Option.map_some]
    have hback : (year.toNat : Int) = year := by omega
    simp only [hback]
  · split
    · have hback : -(year.natAbs : Int) = year := by omega
      rw [readYear, List.cons_append, List.head?_cons, if_pos rfl, List.tail_cons,
        readNumber_fixed (by omega), Option.map_some]
      simp only [hback]
    · have hback : (year.natAbs : Int) = year := by omega
      rw [readYear, List.cons_append, List.head?_cons, if_neg (by decide), if_pos rfl,
        List.tail_cons, readNumber_fixed (by omega), Option.map_some]
      simp only [hback]

theorem readDate_dateText {date : Civil} (hyear : -1000000 < date.year ∧ date.year < 1000000)
    (hmonth : date.month < 100) (hday : date.day < 100) (rest : List Char) :
    readDate (dateText date ++ rest) = some (date, rest) := by
  simp only [readDate, dateText, List.append_assoc, List.cons_append, readYear_yearText hyear,
    Option.bind_eq_bind, Option.bind_some, expect_cons, readNumber_fixed (n := 2) hmonth,
    readNumber_fixed (n := 2) hday]

theorem readTime_timeText {ms : Nat} (h : ms < 86400000) : readTime (timeText ms) = some ms := by
  have hhour : ms / 3600000 < 10 ^ 2 := by omega
  have hminute : ms / 60000 % 60 < 10 ^ 2 := by omega
  have hsecond : ms / 1000 % 60 < 10 ^ 2 := by omega
  have hms : ms % 1000 < 10 ^ 3 := by omega
  simp only [readTime, timeText, readNumber_fixed hhour, readNumber_fixed hminute,
    readNumber_fixed hsecond, readNumber_fixed hms, Option.bind_eq_bind, Option.bind_some,
    expect_cons, Option.some.injEq]
  omega

theorem canonical_iff {s : String} {t : Int} : canonical s = some t ↔ toISOString t = some s := by
  rw [canonical]
  constructor
  · intro h
    split at h
    · rename_i t' _
      by_cases hiso : toISOString t' = some s
      · rw [if_pos hiso, Option.some.injEq] at h
        exact h ▸ hiso
      · rw [if_neg hiso] at h
        cases h
    · cases h
  · intro h
    have hread : read s.toList = some t := by
      rw [toISOString] at h
      split at h
      · rename_i hrange
        cases h
        rw [MAX_TIME] at hrange
        have hdays : -100000000 ≤ t / MS_PER_DAY ∧ t / MS_PER_DAY ≤ 100000000 := by
          rw [MS_PER_DAY]
          omega
        have hms : (t % MS_PER_DAY).toNat < 86400000 := by
          rw [MS_PER_DAY]
          omega
        obtain ⟨hlow, hhigh, hmonth, hday⟩ := civil_lt hdays
        simp only [read, String.toList_ofList, readDate_dateText ⟨hlow, hhigh⟩ hmonth hday,
          Option.bind_eq_bind, Option.bind_some, expect_cons, readTime_timeText hms, daysOf_civil,
          Option.some.injEq]
        rw [MS_PER_DAY]
        omega
      · cases h
    rw [hread]
    simp only [if_pos h]

example : toISOString 1786968000000 = some "2026-08-17T12:00:00.000Z" := by decide

end IsoTime

end Ubi2.Lib
