import Mathlib.Data.Rat.Floor
import Mathlib.Tactic.Linarith
import JsonScada.Library.Calendar
import JsonScada.Library.Decimal

-- Timestamps as Go's `time.Parse` reads them by the layout RFC3339Nano.
namespace JsonScada.Library.Rfc3339

section Fields

-- A number of so many digits.
def digits (width : ℕ) (s : List Char) : Option (ℕ × List Char) :=
  let field := s.take width
  if field.length = width ∧ field.all Char.isDigit then
    some (Decimal.digitsValue field, s.drop width)
  else none

-- The hour may have one digit.
def hour (s : List Char) : Option (ℕ × List Char) :=
  match digits 2 s with
  | some field => some field
  | none => digits 1 s

def literal (c : Char) : List Char → Option (List Char)
  | [] => none
  | d :: s => if d = c then some s else none

abbrev Digits : Type := {ds : List Char // ds.all Char.isDigit = true}

-- The digits behind a point or a comma, where there is at least one.
def fraction : List Char → Digits × List Char
  | [] => (⟨[], rfl⟩, [])
  | c :: s =>
      if (c = '.' ∨ c = ',') ∧ s.takeWhile Char.isDigit ≠ [] then
        (⟨s.takeWhile Char.isDigit, List.all_takeWhile⟩, s.dropWhile Char.isDigit)
      else (⟨[], rfl⟩, c :: s)

-- The offset from UTC in seconds, up to 24 hours and 60 minutes.
def offset : List Char → Option (ℤ × List Char)
  | [] => none
  | c :: s =>
      if c = 'Z' then some (0, s)
      else do
        let (h, s) ← digits 2 s
        let s ← literal ':' s
        let (m, s) ← digits 2 s
        if (c = '+' ∨ c = '-') ∧ h ≤ 24 ∧ m ≤ 60 then
          some ((if c = '-' then -1 else 1) * (h * 3600 + m * 60 : ℕ), s)
        else none

end Fields

-- A time as it is written: whole seconds since 1970, and the digits of the fraction.
structure Timestamp where
  seconds : ℤ
  fraction : Digits

def read (s : List Char) : Option Timestamp := do
  let (year, s) ← digits 4 s
  let s ← literal '-' s
  let (month, s) ← digits 2 s
  let s ← literal '-' s
  let (day, s) ← digits 2 s
  let s ← literal 'T' s
  let (h, s) ← hour s
  let s ← literal ':' s
  let (m, s) ← digits 2 s
  let s ← literal ':' s
  let (second, s) ← digits 2 s
  let (ds, s) := fraction s
  let (off, s) ← offset s
  let n ← Calendar.dayOfYear 1 (Calendar.monthLengths (Calendar.isLeap year)) (month, day)
  if s = [] ∧ h < 24 ∧ m < 60 ∧ second < 60 then
    some ⟨(Calendar.firstDay year + n) * 86400 + (h * 3600 + m * 60 + second : ℕ) - off, ds⟩
  else none

-- The first nine digits of a fraction, which make nanoseconds.
def nanoseconds (ds : List Char) : ℕ :=
  let ds := ds.take 9
  Decimal.digitsValue ds * 10 ^ (9 - ds.length)

-- `time.Parse(time.RFC3339Nano, s)`, in nanoseconds since 1970
def parse (s : List Char) : Option ℤ :=
  (read s).map fun t => t.seconds * 1000000000 + nanoseconds t.fraction

-- The time that the digits name, in nanoseconds.
def Timestamp.exact (t : Timestamp) : ℚ :=
  (t.seconds + Decimal.digitsValue t.fraction.1 / 10 ^ t.fraction.1.length) * 1000000000

section Exact

theorem foldl_digits (ds : List Char) (acc : ℕ) :
    ds.foldl (fun acc c => acc * 10 + (c.toNat - '0'.toNat)) acc =
      acc * 10 ^ ds.length + Decimal.digitsValue ds := by
  unfold Decimal.digitsValue
  induction ds generalizing acc with
  | nil => simp
  | cons c ds ih =>
      rw [List.foldl_cons, ih, List.length_cons, List.foldl_cons, ih (0 * 10 + _)]
      ring

theorem digitsValue_append (ds es : List Char) :
    Decimal.digitsValue (ds ++ es) =
      Decimal.digitsValue ds * 10 ^ es.length + Decimal.digitsValue es := by
  rw [Decimal.digitsValue, List.foldl_append]
  exact foldl_digits es _

theorem digitsValue_lt {ds : List Char} (h : ds.all Char.isDigit = true) :
    Decimal.digitsValue ds < 10 ^ ds.length := by
  induction ds using List.reverseRecOn with
  | nil => decide
  | append_singleton ds c ih =>
      rw [List.all_append, Bool.and_eq_true] at h
      have hds := ih h.1
      have hc : c.isDigit = true := by simpa using h.2
      have hdigit : c.toNat - '0'.toNat < 10 := by
        simp only [Char.isDigit, Bool.and_eq_true, decide_eq_true_eq] at hc
        have hle : c.toNat ≤ '9'.toNat := hc.2
        have hnine : '9'.toNat = 57 := rfl
        have hzero : '0'.toNat = 48 := rfl
        omega
      have hsingle : Decimal.digitsValue [c] = c.toNat - '0'.toNat := by
        simp [Decimal.digitsValue]
      rw [digitsValue_append, hsingle, List.length_append, List.length_singleton, pow_succ]
      omega

-- Digits beyond the ninth are cut off.
theorem nanoseconds_eq_floor {ds : List Char} (h : ds.all Char.isDigit = true) :
    (nanoseconds ds : ℤ) = ⌊(Decimal.digitsValue ds : ℚ) / 10 ^ ds.length * 1000000000⌋ := by
  have hsplit := List.take_append_drop 9 ds
  have hlength : (ds.take 9).length + (ds.drop 9).length = ds.length := by
    rw [← List.length_append, hsplit]
  have hrest : (ds.drop 9).all Char.isDigit = true :=
    List.all_eq_true.mpr fun c hc => List.all_eq_true.mp h c (List.mem_of_mem_drop hc)
  have hlt := digitsValue_lt hrest
  have hvalue : Decimal.digitsValue ds = _ := (congrArg _ hsplit.symm).trans (digitsValue_append _ _)
  rw [eq_comm, Int.floor_eq_iff, nanoseconds]
  rw [hvalue, ← hlength]
  by_cases hlong : 9 ≤ ds.length
  · -- nine digits are read, the others make less than one unit
    have hnine : (ds.take 9).length = 9 := by simp [hlong]
    rw [hnine, Nat.sub_self, pow_zero, mul_one, pow_add]
    have hpos : (0 : ℚ) < 10 ^ (ds.drop 9).length := by positivity
    have hrestlt : (Decimal.digitsValue (ds.drop 9) : ℚ) < 10 ^ (ds.drop 9).length := by
      exact_mod_cast hlt
    have hscaled : ((Decimal.digitsValue (ds.take 9) * 10 ^ (ds.drop 9).length +
        Decimal.digitsValue (ds.drop 9) : ℕ) : ℚ) / (10 ^ 9 * 10 ^ (ds.drop 9).length) * 1000000000 =
          Decimal.digitsValue (ds.take 9) +
            Decimal.digitsValue (ds.drop 9) / 10 ^ (ds.drop 9).length := by
      push_cast
      field_simp
      ring
    rw [hscaled]
    constructor
    · have hnonneg : (0 : ℚ) ≤ Decimal.digitsValue (ds.drop 9) / 10 ^ (ds.drop 9).length := by
        positivity
      push_cast
      linarith
    · have hone := (div_lt_one hpos).mpr hrestlt
      push_cast
      linarith
  · have hnil : ds.drop 9 = [] := List.drop_eq_nil_of_le (by omega)
    have hall : ds.take 9 = ds := List.take_of_length_le (by omega)
    obtain ⟨k, hk⟩ : ∃ k, ds.length + k = 9 := ⟨9 - ds.length, by omega⟩
    have hsub : 9 - ds.length = k := by omega
    have hpow : (1000000000 : ℚ) = 10 ^ ds.length * 10 ^ k := by
      rw [← pow_add, hk]
      norm_num
    have hscaled : (Decimal.digitsValue ds : ℚ) / 10 ^ ds.length * 1000000000 =
        (Decimal.digitsValue ds * 10 ^ k : ℕ) := by
      rw [hpow]
      push_cast
      field_simp
    rw [hnil, hall, hsub]
    simp only [List.length_nil, pow_zero, mul_one, Decimal.digitsValue, List.foldl_nil, add_zero]
      at hscaled ⊢
    rw [hscaled]
    constructor
    · exact_mod_cast le_rfl
    · push_cast
      linarith

-- What is read is the time that is written, with the nanoseconds cut off.
theorem parse_eq_some_iff {s : List Char} {ns : ℤ} :
    parse s = some ns ↔ ∃ t, read s = some t ∧ ns = ⌊t.exact⌋ := by
  have hexact : ∀ t : Timestamp,
      t.seconds * 1000000000 + (nanoseconds t.fraction.1 : ℤ) = ⌊t.exact⌋ := by
    intro t
    have hcast : (t.seconds : ℚ) * 1000000000 = ((t.seconds * 1000000000 : ℤ) : ℚ) := by
      push_cast
      rfl
    rw [nanoseconds_eq_floor t.fraction.2, Timestamp.exact, add_mul, hcast, Int.floor_intCast_add]
  rw [parse, Option.map_eq_some_iff]
  refine exists_congr fun t => and_congr_right fun _ => ?_
  rw [hexact, eq_comm]

end Exact

end JsonScada.Library.Rfc3339
