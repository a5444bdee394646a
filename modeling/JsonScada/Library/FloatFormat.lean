import JsonScada.Library.Rounding

namespace JsonScada.Library

-- A binary floating-point format: its digits, the exponent of its least unit, and that of the
-- power of two that it does not come up to.
structure FloatFormat where
  digits : ℕ
  least : ℤ
  top : ℤ
  digits_pos : 1 ≤ digits
  least_le : least + digits ≤ top

namespace FloatFormat

variable (fmt : FloatFormat)

-- The exponent of the spacing around a number that is not zero.
def unitExponent (q : ℚ) : ℤ := max (Double.exponent |q| - fmt.digits + 1) fmt.least

def unit (q : ℚ) : ℚ := Double.pow2 (fmt.unitExponent q)

-- To the nearest number of the format, ties to even. What is too large is an infinity.
def round (q : ℚ) : Double :=
  if q = 0 then .fin 0
  else
    let r := (Double.roundEven (q / fmt.unit q) : ℚ) * fmt.unit q
    if Double.pow2 fmt.top ≤ |r| then .inf (decide (q < 0)) else .fin r

def convert : Double → Double
  | .fin q => fmt.round q
  | x => x

-- The finite numbers of the format.
def Has (q : ℚ) : Prop :=
  (∃ m e : ℤ, |m| ≤ 2 ^ fmt.digits ∧ fmt.least ≤ e ∧ q = m * 2 ^ e) ∧ |q| < 2 ^ fmt.top

-- No number of the format is nearer. An infinity is nearest from half the way between the largest
-- finite number and the top.
def IsNearest (q : ℚ) : Double → Prop
  | .fin r => fmt.Has r ∧ ∀ y, fmt.Has y → |r - q| ≤ |y - q|
  | .inf s => (2 : ℚ) ^ fmt.top - 2 ^ (fmt.top - fmt.digits - 1) ≤ |q| ∧ s = decide (q < 0)
  | .nan => False

-- An infinity and a NaN stay what they are.
def IsRounded : Double → Double → Prop
  | .fin q, y => fmt.IsNearest q y
  | x, y => y = x

variable {fmt} {q : ℚ}

theorem unit_eq : fmt.unit q = (2 : ℚ) ^ fmt.unitExponent q := Double.pow2_eq _

theorem unit_pos : 0 < fmt.unit q := by
  rw [unit_eq]
  positivity

theorem roundEven_nearest (x : ℚ) (n : ℤ) : |(Double.roundEven x : ℚ) - x| ≤ |(n : ℚ) - x| := by
  by_cases hn : n = Double.roundEven x
  · rw [hn]
  · have hone : (1 : ℤ) ≤ |n - Double.roundEven x| := Int.one_le_abs (sub_ne_zero.mpr hn)
    have hgap : (1 : ℚ) ≤ |(n : ℚ) - Double.roundEven x| := by exact_mod_cast hone
    have herror := Double.roundEven_error x
    have htri := abs_sub_le (n : ℚ) x (Double.roundEven x)
    rw [abs_sub_comm x] at htri
    linarith

-- The rounded number is the nearest multiple of the spacing.
theorem nearest_multiple (q : ℚ) (n : ℤ) :
    |(Double.roundEven (q / fmt.unit q) : ℚ) * fmt.unit q - q| ≤ |(n : ℚ) * fmt.unit q - q| := by
  have hu : 0 < fmt.unit q := unit_pos
  have hscale (z : ℤ) : |(z : ℚ) * fmt.unit q - q| = |(z : ℚ) - q / fmt.unit q| * fmt.unit q := by
    rw [← abs_of_pos hu, ← abs_mul, abs_of_pos hu, sub_mul, div_mul_cancel₀ _ hu.ne']
  rw [hscale, hscale]
  exact mul_le_mul_of_nonneg_right (roundEven_nearest _ n) hu.le

theorem abs_le_digits (h0 : q ≠ 0) : |q / fmt.unit q| ≤ 2 ^ fmt.digits := by
  have hu : 0 < fmt.unit q := unit_pos
  have hhigh := (Double.exponent_spec (abs_pos.mpr h0)).2
  rw [abs_div, abs_of_pos hu, div_le_iff₀ hu, unit_eq, ← zpow_natCast, ← zpow_add₀ two_ne_zero]
  refine hhigh.le.trans (zpow_le_zpow_right₀ one_le_two ?_)
  have : Double.exponent |q| - fmt.digits + 1 ≤ fmt.unitExponent q := le_max_left _ _
  omega

theorem abs_roundEven_le {x : ℚ} {n : ℕ} (h : |x| ≤ 2 ^ n) : |Double.roundEven x| ≤ 2 ^ n := by
  obtain ⟨hlow, hhigh⟩ := abs_le.mp h
  rw [abs_le]
  constructor
  · apply Double.le_roundEven
    push_cast
    exact hlow
  · have hneg : -(2 ^ n : ℤ) ≤ Double.roundEven (-x) := by
      apply Double.le_roundEven
      push_cast
      linarith
    rw [Double.roundEven_neg] at hneg
    omega

-- A number of the format that is not a multiple of the spacing is no larger than the power of two
-- below.
theorem le_power_of_not_multiple {m e : ℤ} (hm : |m| ≤ 2 ^ fmt.digits) (hleast : fmt.least ≤ e)
    (he : e < fmt.unitExponent q) :
    fmt.unitExponent q = Double.exponent |q| - fmt.digits + 1 ∧
      |(m : ℚ) * 2 ^ e| ≤ 2 ^ Double.exponent |q| := by
  have hunit : fmt.unitExponent q = Double.exponent |q| - fmt.digits + 1 := by
    unfold unitExponent at he ⊢
    omega
  refine ⟨hunit, ?_⟩
  have hm' : |(m : ℚ)| ≤ 2 ^ fmt.digits := by exact_mod_cast hm
  rw [abs_mul, abs_of_pos (by positivity : (0 : ℚ) < 2 ^ e)]
  calc |(m : ℚ)| * 2 ^ e ≤ 2 ^ fmt.digits * 2 ^ e := by gcongr
    _ = 2 ^ ((fmt.digits : ℤ) + e) := by rw [zpow_add₀ two_ne_zero, zpow_natCast]
    _ ≤ 2 ^ Double.exponent |q| := zpow_le_zpow_right₀ one_le_two (by omega)

-- The power of two below, with the sign of the number, is a multiple of the spacing.
theorem power_multiple (hunit : fmt.unitExponent q = Double.exponent |q| - fmt.digits + 1) (s : ℤ) :
    ((s * 2 ^ (fmt.digits - 1) : ℤ) : ℚ) * fmt.unit q = s * 2 ^ Double.exponent |q| := by
  have hdigits := fmt.digits_pos
  rw [unit_eq, hunit]
  push_cast
  rw [mul_assoc, ← zpow_natCast, ← zpow_add₀ two_ne_zero]
  congr 2
  omega

theorem nearest_of_has (h0 : q ≠ 0) {y : ℚ} (hy : fmt.Has y) :
    |(Double.roundEven (q / fmt.unit q) : ℚ) * fmt.unit q - q| ≤ |y - q| := by
  obtain ⟨⟨m, e, hm, hleast, rfl⟩, -⟩ := hy
  by_cases he : e < fmt.unitExponent q
  · obtain ⟨hunit, hle⟩ := le_power_of_not_multiple hm hleast he
    have hlow := (Double.exponent_spec (abs_pos.mpr h0)).1
    -- the power of two lies between the two numbers
    have hbetween : ∃ s : ℤ, |(s : ℚ) * 2 ^ Double.exponent |q| - q| ≤ |(m : ℚ) * 2 ^ e - q| := by
      have hpos : (0 : ℚ) < 2 ^ Double.exponent |q| := by positivity
      obtain ⟨hylow, hyhigh⟩ := abs_le.mp hle
      rcases lt_or_gt_of_ne h0 with hneg | hpos'
      · rw [abs_of_neg hneg] at hlow hpos hylow hyhigh ⊢
        refine ⟨-1, ?_⟩
        push_cast
        rw [abs_of_nonneg (by linarith), abs_of_nonneg (by linarith)]
        linarith
      · rw [abs_of_pos hpos'] at hlow hpos hylow hyhigh ⊢
        refine ⟨1, ?_⟩
        push_cast
        rw [abs_of_nonpos (by linarith), abs_of_nonpos (by linarith)]
        linarith
    obtain ⟨s, hs⟩ := hbetween
    rw [← power_multiple hunit] at hs
    exact (nearest_multiple q _).trans hs
  · obtain ⟨n, hn⟩ := Int.eq_ofNat_of_zero_le (sub_nonneg.mpr (not_lt.mp he))
    have hmultiple : (m : ℚ) * 2 ^ e = ((m * 2 ^ n : ℤ) : ℚ) * fmt.unit q := by
      rw [unit_eq]
      push_cast
      rw [mul_assoc, ← zpow_natCast, ← zpow_add₀ two_ne_zero]
      congr 2
      omega
    rw [hmultiple]
    exact nearest_multiple q _

theorem has_round (h0 : q ≠ 0)
    (hlt : |(Double.roundEven (q / fmt.unit q) : ℚ) * fmt.unit q| < 2 ^ fmt.top) :
    fmt.Has ((Double.roundEven (q / fmt.unit q) : ℚ) * fmt.unit q) := by
  refine ⟨⟨_, fmt.unitExponent q, abs_roundEven_le (abs_le_digits h0), le_max_right _ _, ?_⟩, hlt⟩
  rw [unit_eq]

-- What is rounded up to the top is more than half the way there.
theorem le_of_overflow (h0 : q ≠ 0)
    (hle : 2 ^ fmt.top ≤ |(Double.roundEven (q / fmt.unit q) : ℚ) * fmt.unit q|) :
    (2 : ℚ) ^ fmt.top - 2 ^ (fmt.top - fmt.digits - 1) ≤ |q| := by
  have hhalf : (0 : ℚ) < 2 ^ (fmt.top - fmt.digits - 1) := by positivity
  by_cases hlarge : (2 : ℚ) ^ fmt.top ≤ |q|
  · linarith
  · have hexp := Double.exponent_le (e := fmt.top - 1) (abs_pos.mpr h0)
      (by rw [sub_add_cancel]; exact not_le.mp hlarge)
    have hunit : fmt.unit q ≤ 2 ^ (fmt.top - fmt.digits) := by
      rw [unit_eq]
      refine zpow_le_zpow_right₀ one_le_two ?_
      have := fmt.least_le
      unfold unitExponent
      omega
    have hdouble : (2 : ℚ) ^ (fmt.top - fmt.digits) = 2 * 2 ^ (fmt.top - fmt.digits - 1) := by
      rw [← zpow_one_add₀ two_ne_zero]
      congr 1
      omega
    have herror : |(Double.roundEven (q / fmt.unit q) : ℚ) * fmt.unit q - q| ≤
        1 / 2 * fmt.unit q := by
      have hu : 0 < fmt.unit q := unit_pos
      have hscale : (Double.roundEven (q / fmt.unit q) : ℚ) * fmt.unit q - q =
          ((Double.roundEven (q / fmt.unit q) : ℚ) - q / fmt.unit q) * fmt.unit q := by
        rw [sub_mul, div_mul_cancel₀ _ hu.ne']
      rw [hscale, abs_mul, abs_of_pos hu]
      exact mul_le_mul_of_nonneg_right (Double.roundEven_error _) hu.le
    have htri := abs_sub_abs_le_abs_sub
      ((Double.roundEven (q / fmt.unit q) : ℚ) * fmt.unit q) q
    linarith

theorem round_isNearest (fmt : FloatFormat) (q : ℚ) : fmt.IsNearest q (fmt.round q) := by
  unfold round
  split_ifs with h0
  · subst h0
    refine ⟨⟨⟨0, fmt.least, by simp, le_rfl, by simp⟩, by rw [abs_zero]; positivity⟩, ?_⟩
    intro y _
    simp
  · dsimp only
    rw [Double.pow2_eq]
    split_ifs with htop
    · exact ⟨le_of_overflow h0 htop, rfl⟩
    · exact ⟨has_round h0 (not_le.mp htop), fun y hy => nearest_of_has h0 hy⟩

theorem convert_isRounded (fmt : FloatFormat) (x : Double) : fmt.IsRounded x (fmt.convert x) := by
  cases x with
  | nan => rfl
  | inf s => rfl
  | fin q => exact round_isNearest fmt q

-- A number of the format is its own rounding.
theorem round_of_has (h : fmt.Has q) : fmt.round q = .fin q := by
  by_cases h0 : q = 0
  · rw [round, if_pos h0, h0]
  · have hnear := nearest_of_has h0 h
    rw [sub_self, abs_zero, abs_nonpos_iff, sub_eq_zero] at hnear
    rw [round, if_neg h0, hnear, Double.pow2_eq, if_neg (not_le.mpr h.2)]

theorem round_round {r : ℚ} (h : fmt.round q = .fin r) : fmt.round r = .fin r := by
  have hnear := round_isNearest fmt q
  rw [h] at hnear
  exact round_of_has hnear.1

theorem finite_of_lt (h : |q| < (2 : ℚ) ^ fmt.top - 2 ^ (fmt.top - fmt.digits - 1)) :
    ∃ r, fmt.round q = .fin r := by
  have hnear := round_isNearest fmt q
  cases hr : fmt.round q with
  | fin r => exact ⟨r, rfl⟩
  | inf s =>
      rw [hr] at hnear
      exact absurd hnear.1 (not_le.mpr h)
  | nan =>
      rw [hr] at hnear
      exact hnear.elim

-- IEEE 754 single precision.
def single : FloatFormat where
  digits := 24
  least := -149
  top := 128
  digits_pos := by decide
  least_le := by decide

-- IEEE 754 double precision.
def double : FloatFormat where
  digits := 53
  least := -1074
  top := 1024
  digits_pos := by decide
  least_le := by decide

theorem double_round (q : ℚ) : double.round q = Double.round q := by
  have hunit : double.unit q = Double.ulp q := by
    rw [unit, Double.ulp, unitExponent]
    congr 2
    show Double.exponent |q| - (53 : ℕ) + 1 = _
    omega
  rw [round, Double.round, hunit]
  rfl

theorem round_mono {fmt : FloatFormat} {x y a b : ℚ} (h : x ≤ y) (hx : fmt.round x = .fin a)
    (hy : fmt.round y = .fin b) : a ≤ b := by
  have hnearx := round_isNearest fmt x
  have hneary := round_isNearest fmt y
  rw [hx] at hnearx
  rw [hy] at hneary
  by_contra hlt
  have hab := hnearx.2 b hneary.1
  have hba := hneary.2 a hnearx.1
  rcases eq_or_lt_of_le h with rfl | hxy
  · rw [hx] at hy
    obtain rfl := Double.fin.inj hy
    exact hlt le_rfl
  · have hlow : a + b ≤ 2 * x := by
      by_contra hc
      nlinarith only [sq_le_sq.mpr hab, hlt, hc]
    have hhigh : 2 * y ≤ a + b := by
      by_contra hc
      nlinarith only [sq_le_sq.mpr hba, hlt, hc]
    linarith

theorem double_mono {x y a b : ℚ} (h : x ≤ y) (hx : Double.round x = .fin a)
    (hy : Double.round y = .fin b) : a ≤ b := by
  rw [← double_round] at hx hy
  exact round_mono h hx hy

end FloatFormat

end JsonScada.Library
