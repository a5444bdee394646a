import Mathlib.Algebra.GroupWithZero.Nat

namespace JsonScada.Library.Calendar

-- The first day of a year of the Gregorian calendar, in days from 1970-01-01.
def firstDay (y : Int) : Int :=
  365 * (y - 1970) + (y - 1) / 4 - (y - 1) / 100 + (y - 1) / 400 - 477

-- The mean length of a year gives an estimate that is at most one year off.
def year (day : Int) : Int :=
  let y := 1970 + day * 400 / 146097
  if day < firstDay y then y - 1
  else if firstDay (y + 1) ≤ day then y + 1
  else y

def isLeap (y : Int) : Bool := firstDay (y + 1) = firstDay y + 366

def monthLengths (leap : Bool) : List Nat :=
  [31, if leap then 29 else 28, 31, 30, 31, 30, 31, 31, 30, 31, 30, 31]

-- The month and the day of the month, both from one, of a day of the year.
def monthDay (month : Nat) : List Nat → Nat → Nat × Nat
  | [], n => (month, n + 1)
  | length :: rest, n => if n < length then (month, n + 1) else monthDay (month + 1) rest (n - length)

theorem firstDay_mono {y z : Int} (h : y ≤ z) : firstDay y ≤ firstDay z := by
  simp only [firstDay]
  omega

theorem firstDay_year_le (day : Int) : firstDay (year day) ≤ day := by
  simp only [year]
  split
  · simp only [firstDay] at *
    omega
  · split
    · assumption
    · omega

theorem lt_firstDay_year (day : Int) : day < firstDay (year day + 1) := by
  simp only [year]
  split
  · simpa using ‹_›
  · split
    · simp only [firstDay] at *
      omega
    · omega

-- A day lies in a year or later when that year has begun.
theorem le_year_iff (day y : Int) : y ≤ year day ↔ firstDay y ≤ day := by
  constructor
  · intro h
    exact Int.le_trans (firstDay_mono h) (firstDay_year_le day)
  · intro h
    by_cases hle : y ≤ year day
    · exact hle
    · have hmono := firstDay_mono (show year day + 1 ≤ y by omega)
      have hlt := lt_firstDay_year day
      omega

section Text

def padded (width n : Nat) : List Char :=
  let digits := Nat.toDigits 10 n
  List.replicate (width - digits.length) '0' ++ digits

def msPerDay : Int := 86400000

-- A time in milliseconds as year, month and day, then the time of the day in UTC.
def isoDate (yearText : Int → List Char) (ms : Int) : String :=
  let day := ms / msPerDay
  let y := year day
  let (month, dayOfMonth) := monthDay 1 (monthLengths (isLeap y)) (day - firstDay y).toNat
  let time := (ms % msPerDay).toNat
  String.ofList (yearText y ++ '-' :: padded 2 month ++ '-' :: padded 2 dayOfMonth ++
    'T' :: padded 2 (time / 3600000) ++ ':' :: padded 2 (time / 60000 % 60) ++
    ':' :: padded 2 (time / 1000 % 60) ++ '.' :: padded 3 (time % 1000) ++ ['Z'])

theorem isoDate_congr {f g : Int → List Char} {ms : Int}
    (h : f (year (ms / msPerDay)) = g (year (ms / msPerDay))) : isoDate f ms = isoDate g ms := by
  simp only [isoDate, h]

end Text

section Reading

-- The number in a field of so many digits, up to the character that ends it.
def field (width : Nat) (stop : Char) (s : List Char) : Option (Nat × List Char) :=
  let digits := s.take width
  if digits.length = width && digits.all Char.isDigit && (s.drop width).head? = some stop then
    some (Nat.ofDigitChars 10 digits 0, s.drop (width + 1))
  else none

-- The year is written with four digits, or with a sign and six; there is no year -0.
def isoYear (y : Int) : List Char :=
  if 0 ≤ y ∧ y ≤ 9999 then padded 4 y.natAbs
  else (if y < 0 then '-' else '+') :: padded 6 y.natAbs

def yearField (s : List Char) : Option (Int × List Char) :=
  match s with
  | '+' :: s => (field 6 '-' s).map fun (n, s) => (n, s)
  | '-' :: s => (field 6 '-' s).bind fun (n, s) => if n = 0 then none else some (-n, s)
  | s => (field 4 '-' s).map fun (n, s) => (n, s)

-- The day of the year of a month and a day of the month.
def dayOfYear (start : Nat) : List Nat → Nat × Nat → Option Nat
  | [], _ => none
  | length :: rest, (month, day) =>
      if month = start then if 1 ≤ day ∧ day ≤ length then some (day - 1) else none
      else (dayOfYear (start + 1) rest (month, day)).map (length + ·)

-- The largest time value there is.
def maxTime : Nat := 8640000000000000

-- A time written as `isoDate` writes it.
def parseISO (s : List Char) : Option Int := do
  let (y, s) ← yearField s
  let (month, s) ← field 2 '-' s
  let (day, s) ← field 2 'T' s
  let (hour, s) ← field 2 ':' s
  let (minute, s) ← field 2 ':' s
  let (second, s) ← field 2 '.' s
  let (milli, s) ← field 3 'Z' s
  let n ← dayOfYear 1 (monthLengths (isLeap y)) (month, day)
  let ms := (firstDay y + n) * msPerDay + hour * 3600000 + minute * 60000 + second * 1000 + milli
  if s = [] ∧ hour < 24 ∧ minute < 60 ∧ second < 60 ∧ ms.natAbs ≤ maxTime then some ms else none

theorem length_padded {width n : Nat} (hw : 0 < width) (h : n < 10 ^ width) :
    (padded width n).length = width := by
  have hlen := (Nat.length_toDigits_le_iff (by decide : 1 < 10) hw).mpr h
  simp only [padded, List.length_append, List.length_replicate]
  omega

theorem isDigit_padded {width n : Nat} {c : Char} (h : c ∈ padded width n) : c.isDigit = true := by
  rcases List.mem_append.mp h with h | h
  · rw [List.eq_of_mem_replicate h]
    decide
  · exact Nat.isDigit_of_mem_toDigits (by decide) (by decide) h

theorem ofDigitChars_padded (width n : Nat) : Nat.ofDigitChars 10 (padded width n) 0 = n := by
  rw [padded, Nat.ofDigitChars_append, Nat.ofDigitChars_replicate_zero, Nat.mul_zero,
    Nat.ofDigitChars_ten_toDigits]

-- A padded number is read back.
theorem field_padded {width n : Nat} (hw : 0 < width) (h : n < 10 ^ width) (stop : Char)
    (s : List Char) : field width stop (padded width n ++ stop :: s) = some (n, s) := by
  have hlen := length_padded hw h
  have hdigits : (padded width n).all Char.isDigit = true :=
    List.all_eq_true.mpr fun c hc => isDigit_padded hc
  have hdrop : (padded width n ++ stop :: s).drop (width + 1) = s := by
    rw [List.drop_append, List.drop_of_length_le (by omega), hlen]
    simp
  simp [field, List.take_left' hlen, List.drop_left' hlen, hlen, hdigits, hdrop, ofDigitChars_padded]

theorem yearField_isoYear {y : Int} (h : y.natAbs < 1000000) (s : List Char) :
    yearField (isoYear y ++ '-' :: s) = some (y, s) := by
  unfold isoYear
  split
  · have hfield := field_padded (by decide) (show y.natAbs < 10 ^ 4 by omega) '-' s
    have hy : (y.natAbs : Int) = y := by omega
    cases hp : padded 4 y.natAbs with
    | nil =>
        have hlen := length_padded (by decide) (show y.natAbs < 10 ^ 4 by omega)
        rw [hp] at hlen
        cases hlen
    | cons c cs =>
        have hdigit : c.isDigit = true := isDigit_padded (hp ▸ List.mem_cons_self)
        rw [hp] at hfield
        unfold yearField
        split
        · simp_all
        · simp_all
        · rw [hfield, Option.map_some]
          exact congrArg (fun n => some (n, s)) hy
  · have hfield := field_padded (by decide) (show y.natAbs < 10 ^ 6 by omega) '-' s
    by_cases hneg : y < 0
    · have hy : -(y.natAbs : Int) = y := by omega
      have hne : y.natAbs ≠ 0 := by omega
      rw [if_pos hneg, List.cons_append, yearField, hfield, Option.bind_some]
      simp only [if_neg hne, hy]
    · have hy : (y.natAbs : Int) = y := by omega
      rw [if_neg hneg, List.cons_append, yearField, hfield, Option.map_some]
      exact congrArg (fun n => some (n, s)) hy

theorem start_le_monthDay (start : Nat) (lengths : List Nat) (n : Nat) :
    start ≤ (monthDay start lengths n).1 := by
  induction lengths generalizing start n with
  | nil => exact Nat.le_refl start
  | cons length rest ih =>
      unfold monthDay
      split
      · exact Nat.le_refl start
      · exact Nat.le_trans (Nat.le_succ start) (ih (start + 1) (n - length))

theorem dayOfYear_monthDay {lengths : List Nat} {n : Nat} (start : Nat) (h : n < lengths.sum) :
    dayOfYear start lengths (monthDay start lengths n) = some n := by
  induction lengths generalizing start n with
  | nil => cases h
  | cons length rest ih =>
      rw [List.sum_cons] at h
      unfold monthDay
      split
      · simp only [dayOfYear, if_pos, Nat.add_sub_cancel]
        rw [if_pos (by omega)]
      · have hstart := start_le_monthDay (start + 1) rest (n - length)
        have hne : (monthDay (start + 1) rest (n - length)).1 ≠ start := by omega
        simp only [dayOfYear, if_neg hne, ih (start + 1) (show n - length < rest.sum by omega),
          Option.map_some, Option.some.injEq]
        omega

theorem monthDay_le {lengths : List Nat} {bound n : Nat} (start : Nat) (h : n < lengths.sum)
    (hbound : ∀ length ∈ lengths, length ≤ bound) :
    (monthDay start lengths n).1 < start + lengths.length ∧
      (monthDay start lengths n).2 ≤ bound := by
  induction lengths generalizing start n with
  | nil => cases h
  | cons length rest ih =>
      rw [List.sum_cons] at h
      have hlength := hbound length List.mem_cons_self
      rw [List.length_cons, monthDay]
      split
      · exact ⟨by omega, by omega⟩
      · have hrest := ih (start + 1) (show n - length < rest.sum by omega)
          fun l hl => hbound l (List.mem_cons_of_mem length hl)
        exact ⟨by omega, hrest.2⟩

-- The months of a year have as many days as the year.
theorem sum_monthLengths (y : Int) :
    ((monthLengths (isLeap y)).sum : Int) = firstDay (y + 1) - firstDay y := by
  cases hleap : isLeap y with
  | false =>
      have hne : firstDay (y + 1) ≠ firstDay y + 366 := by simpa [isLeap] using hleap
      have hsum : (monthLengths false).sum = 365 := rfl
      rw [hsum]
      simp only [firstDay] at *
      omega
  | true =>
      have heq : firstDay (y + 1) = firstDay y + 366 := by simpa [isLeap] using hleap
      have hsum : (monthLengths true).sum = 366 := rfl
      omega

theorem natAbs_year_lt {ms : Int} (h : ms.natAbs ≤ maxTime) :
    (year (ms / msPerDay)).natAbs < 1000000 := by
  have hday : -100000000 ≤ ms / msPerDay ∧ ms / msPerDay ≤ 100000000 := by
    simp only [maxTime, msPerDay] at *
    omega
  have hlow := (le_year_iff (ms / msPerDay) (-999999)).mpr (by simp only [firstDay]; omega)
  have hhigh : ¬1000000 ≤ year (ms / msPerDay) := by
    rw [le_year_iff]
    simp only [firstDay]
    omega
  omega

-- A time that is written is read back.
theorem parseISO_isoDate {ms : Int} (h : ms.natAbs ≤ maxTime) :
    parseISO (isoDate isoYear ms).toList = some ms := by
  have hyear := natAbs_year_lt h
  have hlow := firstDay_year_le (ms / msPerDay)
  have hhigh := lt_firstDay_year (ms / msPerDay)
  have hsum := sum_monthLengths (year (ms / msPerDay))
  have hn : (ms / msPerDay - firstDay (year (ms / msPerDay))).toNat <
      (monthLengths (isLeap (year (ms / msPerDay)))).sum := by omega
  have hday := dayOfYear_monthDay 1 hn
  have hbound : ∀ length ∈ monthLengths (isLeap (year (ms / msPerDay))), length ≤ 31 := by
    cases isLeap (year (ms / msPerDay)) <;> decide
  have hmonth := monthDay_le 1 hn hbound
  have hlength : (monthLengths (isLeap (year (ms / msPerDay)))).length = 12 := rfl
  have htime : (ms % msPerDay).toNat < 86400000 := by
    simp only [msPerDay]
    omega
  have hms : ms / msPerDay * msPerDay + (ms % msPerDay).toNat = ms := by
    simp only [msPerDay]
    omega
  generalize hmd : monthDay 1 _ _ = md at *
  obtain ⟨month, day⟩ := md
  simp only [parseISO, isoDate, hmd, String.toList_ofList, List.append_assoc, List.cons_append]
  generalize (ms % msPerDay).toNat = time at *
  have hval : (firstDay (year (ms / msPerDay)) +
      ((ms / msPerDay - firstDay (year (ms / msPerDay))).toNat : Int)) * msPerDay +
      (time / 3600000 : Nat) * 3600000 + (time / 60000 % 60 : Nat) * 60000 +
      (time / 1000 % 60 : Nat) * 1000 + (time % 1000 : Nat) = ms := by
    rw [show firstDay (year (ms / msPerDay)) +
      ((ms / msPerDay - firstDay (year (ms / msPerDay))).toNat : Int) = ms / msPerDay by omega]
    omega
  rw [yearField_isoYear hyear, Option.bind_eq_bind, Option.bind_some]
  simp only [Option.bind_eq_bind]
  rw [field_padded (by decide) (by omega), Option.bind_some, field_padded (by decide) (by omega),
    Option.bind_some, field_padded (by decide) (by omega), Option.bind_some,
    field_padded (by decide) (by omega), Option.bind_some, field_padded (by decide) (by omega),
    Option.bind_some, field_padded (by decide) (by omega), Option.bind_some, hday,
    Option.bind_some, hval, if_pos]
  exact ⟨rfl, by omega, by omega, by omega, h⟩

end Reading

end JsonScada.Library.Calendar
