import Mathlib.Data.Rat.Floor
import Mathlib.Algebra.Order.Field.Power
import Mathlib.Tactic.Linarith
import Mathlib.Tactic.NormNum
import Mathlib.Tactic.Positivity

namespace JsonScada.Library

-- A double-precision number: finite ones by their exact value, with one zero.
inductive Double where
  | nan
  | inf (negative : Bool)
  | fin (q : ℚ)
  deriving DecidableEq

namespace Double

def isNaN : Double → Bool
  | nan => true
  | _ => false

def isInf : Double → Bool
  | inf _ => true
  | _ => false

def isFinite : Double → Bool
  | fin _ => true
  | _ => false

def abs : Double → Double
  | nan => nan
  | inf _ => inf false
  | fin q => fin |q|

def neg : Double → Double
  | nan => nan
  | inf s => inf (!s)
  | fin q => fin (-q)

-- The comparisons of a programming language: false as soon as a NaN takes part.
def lt : Double → Double → Bool
  | fin a, fin b => decide (a < b)
  | inf true, inf false => true
  | inf true, fin _ => true
  | fin _, inf false => true
  | _, _ => false

def eq : Double → Double → Bool
  | nan, _ => false
  | a, b => decide (a = b)

def le (a b : Double) : Bool := lt a b || eq a b

def floor : Double → Double
  | fin q => fin ⌊q⌋
  | a => a

-- The conversion to an integer, towards zero. That of a NaN or an infinity is
-- left open by the languages that have it.
def toInt : Double → ℤ
  | fin q => if 0 ≤ q then ⌊q⌋ else ⌈q⌉
  | _ => 0

@[simp] theorem eq_self_fin (q : ℚ) : eq (fin q) (fin q) = true := by simp [eq]

theorem eq_iff {a b : Double} : eq a b = true ↔ a = b ∧ a ≠ nan := by
  cases a <;> simp [eq]

theorem eq_self_iff {a : Double} : eq a a = true ↔ a ≠ nan := by
  simp [eq_iff]

theorem lt_irrefl (a : Double) : lt a a = false := by
  cases a <;> simp [lt]

theorem lt_trans {a b c : Double} (hab : lt a b = true) (hbc : lt b c = true) : lt a c = true := by
  rcases a with _ | (_ | _) | x <;> rcases b with _ | (_ | _) | y <;>
    rcases c with _ | (_ | _) | z <;> simp only [lt, decide_eq_true_eq, reduceCtorEq] at *
  exact hab.trans hbc

theorem ne_nan_of_lt {a b : Double} (h : lt a b = true) : a ≠ nan ∧ b ≠ nan := by
  rcases a with _ | (_ | _) | x <;> rcases b with _ | (_ | _) | y <;> simp [lt] at h ⊢

theorem eq_of_not_lt {a b : Double} (ha : a ≠ nan) (hb : b ≠ nan) (hab : lt a b = false)
    (hba : lt b a = false) : a = b := by
  rcases a with _ | (_ | _) | x <;> rcases b with _ | (_ | _) | y <;>
    simp only [lt, decide_eq_false_iff_not, not_lt, reduceCtorEq, ne_eq, not_true_eq_false] at *
  rw [le_antisymm hba hab]

theorem lt_of_lt_of_not_lt {a b c : Double} (hb : b ≠ nan) (hac : lt a c = true)
    (hbc : lt b c = false) : lt a b = true := by
  rcases a with _ | (_ | _) | x <;> rcases b with _ | (_ | _) | y <;>
    rcases c with _ | (_ | _) | z <;>
    simp only [lt, decide_eq_true_eq, decide_eq_false_iff_not, reduceCtorEq, ne_eq,
      not_true_eq_false] at *
  exact hac.trans_le (not_lt.mp hbc)

section Arithmetic

-- The rounding of an exact result. Every operation below rounds once.
variable (round : ℚ → Double)

def add : Double → Double → Double
  | fin a, fin b => round (a + b)
  | inf s, inf t => if s = t then inf s else nan
  | inf s, fin _ => inf s
  | fin _, inf t => inf t
  | _, _ => nan

def sub (a b : Double) : Double := add round a b.neg

def mul : Double → Double → Double
  | fin a, fin b => round (a * b)
  | inf s, inf t => inf (s != t)
  | inf s, fin b => if b = 0 then nan else inf (s != decide (b < 0))
  | fin a, inf t => if a = 0 then nan else inf (decide (a < 0) != t)
  | _, _ => nan

-- Zero has no sign here: what is divided by it keeps its own.
def div : Double → Double → Double
  | fin a, fin b =>
      if b = 0 then if a = 0 then nan else inf (decide (a < 0))
      else round (a / b)
  | inf s, fin b => inf (s != decide (b < 0))
  | fin _, inf _ => fin 0
  | _, _ => nan

end Arithmetic

section Rounding

def pow2 (e : ℤ) : ℚ :=
  if 0 ≤ e then ((2 ^ e.toNat : ℕ) : ℚ) else (((2 ^ (-e).toNat : ℕ) : ℚ))⁻¹

theorem pow2_eq (e : ℤ) : pow2 e = (2 : ℚ) ^ e := by
  unfold pow2
  split_ifs with h
  · obtain ⟨n, rfl⟩ := Int.eq_ofNat_of_zero_le h
    simp
  · obtain ⟨n, hn⟩ := Int.eq_ofNat_of_zero_le (show 0 ≤ -e by omega)
    obtain rfl : e = -(n : ℤ) := by omega
    simp

-- The exponent of a positive rational: one of the two next to the difference
-- of the bit lengths of its numerator and denominator.
def exponent (q : ℚ) : ℤ :=
  let e : ℤ := (Nat.log2 q.num.natAbs : ℤ) - Nat.log2 q.den
  if pow2 e ≤ q then e else e - 1

-- The quotient of two numbers lies within a factor of two of the quotient of
-- their leading powers.
private theorem quotient_bounds (n d : ℕ) (hn : n ≠ 0) (hd : d ≠ 0) :
    (2 : ℚ) ^ ((Nat.log2 n : ℤ) - Nat.log2 d - 1) ≤ n / d ∧
      (n : ℚ) / d < (2 : ℚ) ^ ((Nat.log2 n : ℤ) - Nat.log2 d + 1) := by
  have hn1 : (2 : ℚ) ^ Nat.log2 n ≤ n := by exact_mod_cast Nat.log2_self_le hn
  have hn2 : (n : ℚ) < (2 : ℚ) ^ (Nat.log2 n + 1) := by exact_mod_cast Nat.lt_log2_self
  have hd1 : (2 : ℚ) ^ Nat.log2 d ≤ d := by exact_mod_cast Nat.log2_self_le hd
  have hd2 : (d : ℚ) < (2 : ℚ) ^ (Nat.log2 d + 1) := by exact_mod_cast Nat.lt_log2_self
  have hdpos : (0 : ℚ) < d := by exact_mod_cast Nat.pos_of_ne_zero hd
  constructor
  · rw [le_div_iff₀ hdpos, zpow_sub₀ two_ne_zero, zpow_sub₀ two_ne_zero, zpow_one,
      zpow_natCast, zpow_natCast]
    calc (2 : ℚ) ^ Nat.log2 n / 2 ^ Nat.log2 d / 2 * d
        ≤ 2 ^ Nat.log2 n / 2 ^ Nat.log2 d / 2 * 2 ^ (Nat.log2 d + 1) := by gcongr
      _ = 2 ^ Nat.log2 n := by field_simp; ring
      _ ≤ n := hn1
  · rw [div_lt_iff₀ hdpos, zpow_add₀ two_ne_zero, zpow_sub₀ two_ne_zero, zpow_one,
      zpow_natCast, zpow_natCast]
    calc (n : ℚ) < 2 ^ (Nat.log2 n + 1) := hn2
      _ = 2 ^ Nat.log2 n / 2 ^ Nat.log2 d * 2 * 2 ^ Nat.log2 d := by field_simp; ring
      _ ≤ 2 ^ Nat.log2 n / 2 ^ Nat.log2 d * 2 * d := by gcongr

theorem exponent_spec {q : ℚ} (hq : 0 < q) :
    (2 : ℚ) ^ exponent q ≤ q ∧ q < (2 : ℚ) ^ (exponent q + 1) := by
  have hval : (q.num.natAbs : ℚ) / q.den = q := by
    have hnum : ((q.num.natAbs : ℤ) : ℚ) = (q.num : ℚ) := by
      rw [Int.natAbs_of_nonneg (Rat.num_nonneg.mpr hq.le)]
    rw [Int.cast_natCast] at hnum
    rw [hnum, Rat.num_div_den]
  have hb := quotient_bounds q.num.natAbs q.den (by simpa using hq.ne') q.den_nz
  rw [hval] at hb
  simp only [exponent, pow2_eq]
  split_ifs with h
  · exact ⟨h, hb.2⟩
  · exact ⟨hb.1, by rw [sub_add_cancel]; exact lt_of_not_ge h⟩

-- Round to an integer, halves to the even one.
def roundEven (q : ℚ) : ℤ :=
  let f := ⌊q⌋
  if q - f < 1 / 2 then f
  else if 1 / 2 < q - f then f + 1
  else if f % 2 = 0 then f else f + 1

@[simp] theorem roundEven_intCast (z : ℤ) : roundEven z = z := by
  simp [roundEven]

theorem roundEven_error (q : ℚ) : |(roundEven q : ℚ) - q| ≤ 1 / 2 := by
  have h0 : (0 : ℚ) ≤ q - ⌊q⌋ := sub_nonneg.mpr (Int.floor_le q)
  have h1 : q - ⌊q⌋ < 1 := by linarith [Int.lt_floor_add_one q]
  simp only [roundEven]
  split_ifs <;> push_cast <;> rw [abs_le] <;> constructor <;> linarith

theorem roundEven_of_not_tie {q : ℚ} (h : ¬(q - ⌊q⌋ = 1 / 2 ∧ ⌊q⌋ % 2 = 0)) :
    roundEven q = ⌊q + 1 / 2⌋ := by
  have h0 : (⌊q⌋ : ℚ) ≤ q := Int.floor_le q
  have h1 : q < ⌊q⌋ + 1 := Int.lt_floor_add_one q
  have hlow (hlt : q - ⌊q⌋ < 1 / 2) : ⌊q + 1 / 2⌋ = ⌊q⌋ := by
    rw [Int.floor_eq_iff]
    constructor <;> linarith
  have hhigh (hle : 1 / 2 ≤ q - ⌊q⌋) : ⌊q + 1 / 2⌋ = ⌊q⌋ + 1 := by
    rw [Int.floor_eq_iff]
    push_cast
    constructor <;> linarith
  simp only [roundEven]
  split_ifs with hlt hgt heven
  · exact (hlow hlt).symm
  · exact (hhigh hgt.le).symm
  · exact absurd ⟨le_antisymm (le_of_not_gt hgt) (le_of_not_gt hlt), heven⟩ h
  · exact (hhigh (le_of_not_gt hlt)).symm

theorem roundEven_neg (q : ℚ) : roundEven (-q) = -roundEven q := by
  by_cases hint : (⌊q⌋ : ℚ) = q
  · rw [← hint, ← Int.cast_neg, roundEven_intCast, roundEven_intCast]
  · have h0 : (⌊q⌋ : ℚ) < q := lt_of_le_of_ne (Int.floor_le q) hint
    have h1 : q < ⌊q⌋ + 1 := Int.lt_floor_add_one q
    have hfloor : ⌊-q⌋ = -⌊q⌋ - 1 := by
      rw [Int.floor_eq_iff]
      push_cast
      constructor <;> linarith
    simp only [roundEven, hfloor]
    push_cast
    split_ifs <;> first | linarith | omega

-- Spacing of the doubles around a non-zero number.
def ulp (q : ℚ) : ℚ := pow2 (max (exponent |q| - 52) (-1074))

theorem ulp_pos (q : ℚ) : 0 < ulp q := by
  rw [ulp, pow2_eq]
  positivity

-- Rounding to the nearest double, ties to even.
def round (q : ℚ) : Double :=
  if q = 0 then fin 0
  else
    let r := (roundEven (q / ulp q) : ℚ) * ulp q
    if pow2 1024 ≤ |r| then inf (decide (q < 0)) else fin r

-- A multiple of the spacing in range is a double already.
theorem round_of_multiple {q : ℚ} {m : ℤ} (hm : q = m * ulp q) (hq : |q| < pow2 1024) :
    round q = fin q := by
  unfold round
  split_ifs with h0
  · rw [h0]
  · have hdiv : q / ulp q = m := by
      rw [div_eq_iff (ulp_pos q).ne']
      exact hm
    simp only [hdiv, roundEven_intCast, ← hm]
    rw [if_neg (not_le.mpr hq)]

theorem exponent_le {q : ℚ} {e : ℤ} (hq : 0 < q) (hlt : q < (2 : ℚ) ^ (e + 1)) :
    exponent q ≤ e := by
  have h := (exponent_spec hq).1.trans_lt hlt
  have := (zpow_lt_zpow_iff_right₀ (by norm_num : (1 : ℚ) < 2)).mp h
  omega

theorem le_exponent {q : ℚ} {e : ℤ} (hq : 0 < q) (hle : (2 : ℚ) ^ e ≤ q) :
    e ≤ exponent q := by
  have h := hle.trans_lt (exponent_spec hq).2
  have := (zpow_lt_zpow_iff_right₀ (by norm_num : (1 : ℚ) < 2)).mp h
  omega

-- Integers up to 2^53 in size are multiples of their spacing.
theorem intCast_multiple {z : ℤ} (hz : |z| < 2 ^ 53) :
    (∃ m : ℤ, (z : ℚ) = m * ulp z) ∧ |(z : ℚ)| < pow2 1024 := by
  have hlt : |(z : ℚ)| < (2 : ℚ) ^ ((52 : ℤ) + 1) := by
    have : ((|z| : ℤ) : ℚ) < ((2 ^ 53 : ℤ) : ℚ) := by exact_mod_cast hz
    push_cast at this
    norm_num at this ⊢
    exact this
  constructor
  · by_cases h0 : z = 0
    · exact ⟨0, by simp [h0]⟩
    have hpos : (0 : ℚ) < |(z : ℚ)| := by simpa using h0
    have hge : 0 ≤ exponent |(z : ℚ)| := by
      apply le_exponent hpos
      have : (1 : ℤ) ≤ |z| := Int.one_le_abs h0
      have : ((1 : ℤ) : ℚ) ≤ ((|z| : ℤ) : ℚ) := by exact_mod_cast this
      simpa using this
    have hle := exponent_le hpos hlt
    have hulp : ulp (z : ℚ) = (2 : ℚ) ^ (exponent |(z : ℚ)| - 52) := by
      rw [ulp, pow2_eq, max_eq_left (by omega)]
    obtain ⟨k, hk⟩ := Int.eq_ofNat_of_zero_le (show 0 ≤ 52 - exponent |(z : ℚ)| by omega)
    refine ⟨z * 2 ^ k, ?_⟩
    rw [hulp, show exponent |(z : ℚ)| - 52 = -(k : ℤ) by omega, zpow_neg, zpow_natCast]
    push_cast
    field_simp
  · rw [pow2_eq]
    refine hlt.trans_le ?_
    exact zpow_le_zpow_right₀ (by norm_num) (by norm_num)

theorem round_intCast {z : ℤ} (hz : |z| < 2 ^ 53) : round z = fin z := by
  obtain ⟨⟨m, hm⟩, hlt⟩ := intCast_multiple hz
  exact round_of_multiple hm hlt

theorem round_nonneg {q r : ℚ} (hq : 0 ≤ q) (h : round q = fin r) : 0 ≤ r := by
  simp only [round] at h
  split_ifs at h with h0 hbig
  · obtain rfl := fin.inj h
    exact le_refl _
  · obtain rfl := fin.inj h
    have hdiv : 0 ≤ q / ulp q := div_nonneg hq (ulp_pos q).le
    have hfloor : 0 ≤ ⌊q / ulp q⌋ := Int.floor_nonneg.mpr hdiv
    have hint : 0 ≤ roundEven (q / ulp q) := by
      simp only [roundEven]
      split_ifs <;> omega
    exact mul_nonneg (by exact_mod_cast hint) (ulp_pos q).le

-- The result is the multiple of the unit that is nearest.
theorem round_error_le {q : ℚ} : |(roundEven (q / ulp q) : ℚ) * ulp q - q| ≤ 1 / 2 * ulp q := by
  have hu := ulp_pos q
  have h := roundEven_error (q / ulp q)
  have hfac : (roundEven (q / ulp q) : ℚ) * ulp q - q =
      ((roundEven (q / ulp q) : ℚ) - q / ulp q) * ulp q := by
    field_simp
  rw [hfac, abs_mul, abs_of_pos hu]
  exact mul_le_mul_of_nonneg_right h hu.le

-- Below 2^27 the rounding error is below a hundredth.
theorem round_error {q : ℚ} (h0 : 0 ≤ q) (hq : q < 2 ^ 27) :
    ∃ r, round q = fin r ∧ |r - q| ≤ 1 / 100 := by
  by_cases hz : q = 0
  · exact ⟨0, by simp [round, hz], by norm_num [hz]⟩
  have hpos : 0 < q := lt_of_le_of_ne h0 (Ne.symm hz)
  have hulp : ulp q ≤ (2 : ℚ) ^ (-26 : ℤ) := by
    rw [ulp, abs_of_pos hpos, pow2_eq]
    apply zpow_le_zpow_right₀ (by norm_num)
    have := exponent_le (e := 26) hpos (by norm_num at hq ⊢; exact hq)
    omega
  have hsmall : |(roundEven (q / ulp q) : ℚ) * ulp q - q| ≤ 1 / 100 :=
    round_error_le.trans (by norm_num at hulp ⊢; linarith)
  refine ⟨(roundEven (q / ulp q) : ℚ) * ulp q, ?_, hsmall⟩
  have hb := abs_le.mp hsmall
  have hlim : |(roundEven (q / ulp q) : ℚ) * ulp q| < pow2 1024 := by
    rw [pow2_eq]
    refine lt_of_lt_of_le (b := (2 : ℚ) ^ (28 : ℤ)) ?_ (zpow_le_zpow_right₀ (by norm_num) (by norm_num))
    rw [abs_lt]
    norm_num at hq ⊢
    constructor <;> linarith
  simp only [round, hz, if_false]
  rw [if_neg (not_le.mpr hlim)]

end Rounding

end Double

end JsonScada.Library
