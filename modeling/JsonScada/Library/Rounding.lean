import JsonScada.Library.Binary64
import Mathlib.Tactic.Linarith
import Mathlib.Tactic.NormNum
import Mathlib.Tactic.Positivity
import Mathlib.Tactic.FieldSimp

-- The distance of a double to the integer below it, and its place against one half.
namespace JsonScada.Library

section Widths

-- The numbers of an integer type.
def InRange (signed : Bool) (bits : ℕ) (z : ℤ) : Prop :=
  if signed then -2 ^ (bits - 1) ≤ z ∧ z < 2 ^ (bits - 1) else 0 ≤ z ∧ z < 2 ^ bits

instance (signed : Bool) (bits : ℕ) (z : ℤ) : Decidable (InRange signed bits z) := by
  unfold InRange
  infer_instance

theorem inRange_min {signed : Bool} {z : ℤ} (a b : ℕ) :
    InRange signed (min a b) z ↔ InRange signed a z ∧ InRange signed b z := by
  have hmono {m n : ℕ} (h : m ≤ n) (hz : InRange signed m z) : InRange signed n z := by
    have hpow : (2 : ℤ) ^ (m - 1) ≤ 2 ^ (n - 1) := by gcongr; norm_num
    have hpow' : (2 : ℤ) ^ m ≤ 2 ^ n := by gcongr; norm_num
    cases signed with
    | true => exact ⟨(neg_le_neg hpow).trans hz.1, hz.2.trans_le hpow⟩
    | false => exact ⟨hz.1, hz.2.trans_le hpow'⟩
  rcases le_total a b with h | h
  · rw [min_eq_left h]
    exact ⟨fun hz => ⟨hz, hmono h hz⟩, And.left⟩
  · rw [min_eq_right h]
    exact ⟨fun hz => ⟨hmono h hz, hz⟩, And.right⟩

end Widths

namespace Double

theorem le_roundEven {n : ℤ} {q : ℚ} (h : (n : ℚ) ≤ q) : n ≤ roundEven q := by
  have hfloor : n ≤ ⌊q⌋ := Int.le_floor.mpr h
  simp only [roundEven]
  split_ifs <;> omega

-- Below one nothing overflows.
theorem round_of_lt_one {q : ℚ} (h0 : 0 < q) (h1 : q < 1) :
    round q = fin (roundEven (q / ulp q) * ulp q) := by
  have hulp : ulp q ≤ 1 := by
    rw [ulp, abs_of_pos h0, pow2_eq]
    have hexp : exponent q ≤ -1 := exponent_le h0 (by simpa using h1)
    exact zpow_le_one_of_nonpos₀ (by norm_num) (by omega)
  have hb := abs_le.mp (round_error_le (q := q))
  have hlim : |(roundEven (q / ulp q) : ℚ) * ulp q| < pow2 1024 := by
    rw [pow2_eq]
    refine lt_of_lt_of_le (b := (2 : ℚ) ^ (1 : ℤ)) ?_ (zpow_le_zpow_right₀ (by norm_num) (by norm_num))
    rw [abs_lt]
    norm_num
    constructor <;> linarith
  simp only [round, h0.ne', if_false]
  rw [if_neg (not_le.mpr hlim)]

-- A number between one half and one does not fall below the half.
theorem half_le_round {q : ℚ} (h0 : 1 / 2 ≤ q) (h1 : q < 1) :
    ∃ r, round q = fin r ∧ 1 / 2 ≤ r := by
  have hpos : 0 < q := by linarith
  have hexp : exponent q = -1 := by
    refine le_antisymm (exponent_le hpos (by simpa using h1)) (le_exponent hpos ?_)
    norm_num at h0 ⊢
    exact h0
  have hulp : ulp q = (2 : ℚ) ^ (-53 : ℤ) := by
    rw [ulp, abs_of_pos hpos, hexp, pow2_eq]
    norm_num
  refine ⟨_, round_of_lt_one hpos h1, ?_⟩
  have hle : ((2 ^ 52 : ℤ) : ℚ) ≤ q / ulp q := by
    rw [le_div_iff₀ (ulp_pos q), hulp]
    norm_num at h0 ⊢
    linarith
  have hround : ((2 ^ 52 : ℤ) : ℚ) ≤ roundEven (q / ulp q) := by exact_mod_cast le_roundEven hle
  calc (1 / 2 : ℚ) = ((2 ^ 52 : ℤ) : ℚ) * ulp q := by rw [hulp]; norm_num
    _ ≤ roundEven (q / ulp q) * ulp q := mul_le_mul_of_nonneg_right hround (ulp_pos q).le

-- A number below one half by the gap of the doubles there does not come up to it.
theorem round_lt_half {q : ℚ} (h0 : 0 < q) (h1 : q ≤ 1 / 2 - 2 ^ (-54 : ℤ)) :
    ∃ r, round q = fin r ∧ r < 1 / 2 := by
  have hlt : q < 1 / 2 := by
    norm_num at h1 ⊢
    linarith
  have hulp : ulp q ≤ (2 : ℚ) ^ (-54 : ℤ) := by
    rw [ulp, abs_of_pos h0, pow2_eq]
    have hexp : exponent q ≤ -2 := exponent_le h0 (by norm_num; linarith)
    exact zpow_le_zpow_right₀ (by norm_num) (by omega)
  refine ⟨_, round_of_lt_one h0 (by linarith), ?_⟩
  have hb := abs_le.mp (round_error_le (q := q))
  norm_num at h1 hulp ⊢
  linarith

-- From 2^53 on nothing is rounded below 2^53.
theorem round_of_large {q : ℚ} (h : 2 ^ 53 ≤ q) :
    round q = inf false ∨ ∃ r, round q = fin r ∧ 2 ^ 53 ≤ r := by
  have hpos : 0 < q := lt_of_lt_of_le (by norm_num) h
  have hexp : 53 ≤ exponent q := by
    apply le_exponent hpos
    norm_num at h ⊢
    exact h
  have hulp : ulp q = (2 : ℚ) ^ (exponent q - 52) := by
    rw [ulp, abs_of_pos hpos, pow2_eq, max_eq_left (by omega)]
  have hle : ((2 ^ 52 : ℤ) : ℚ) ≤ q / ulp q := by
    rw [le_div_iff₀ (ulp_pos q), hulp]
    calc ((2 ^ 52 : ℤ) : ℚ) * 2 ^ (exponent q - 52) = 2 ^ exponent q := by
          rw [Int.cast_pow, Int.cast_ofNat, ← zpow_natCast, ← zpow_add₀ (by norm_num)]
          congr 1
          push_cast
          ring
      _ ≤ q := (exponent_spec hpos).1
  have hround : ((2 ^ 52 : ℤ) : ℚ) ≤ roundEven (q / ulp q) := by exact_mod_cast le_roundEven hle
  have hunit : (2 : ℚ) ≤ ulp q := by
    rw [hulp]
    calc (2 : ℚ) = 2 ^ (1 : ℤ) := by norm_num
      _ ≤ 2 ^ (exponent q - 52) := zpow_le_zpow_right₀ (by norm_num) (by omega)
  have hlarge : (2 : ℚ) ^ 53 ≤ roundEven (q / ulp q) * ulp q := by
    calc (2 : ℚ) ^ 53 = ((2 ^ 52 : ℤ) : ℚ) * 2 := by norm_num
      _ ≤ roundEven (q / ulp q) * ulp q := by gcongr
  simp only [round, hpos.ne', if_false]
  split_ifs
  · exact .inl (by rw [decide_eq_false hpos.not_gt])
  · exact .inr ⟨_, rfl, hlarge⟩

-- Rounding keeps the order against a small integer.
theorem le_of_round_le {z n : ℤ} (hn : |n| < 2 ^ 53) (h : le (round z) (fin n) = true) : z ≤ n := by
  obtain ⟨hlow, hhigh⟩ := abs_lt.mp hn
  by_cases hz : |z| < 2 ^ 53
  · rw [round_intCast hz] at h
    have hle : (z : ℚ) ≤ n := by
      simp only [le, lt, eq, Bool.or_eq_true, decide_eq_true_eq, Double.fin.injEq] at h
      exact h.elim le_of_lt le_of_eq
    exact_mod_cast hle
  · by_contra hlt
    have hlarge : (2 ^ 53 : ℤ) ≤ z := by
      by_contra hsmall
      exact hz (abs_lt.mpr ⟨by omega, by omega⟩)
    have hcast : (2 : ℚ) ^ 53 ≤ z := by exact_mod_cast hlarge
    rcases round_of_large hcast with hr | ⟨r, hr, hbig⟩
    · rw [hr] at h
      cases h
    · rw [hr] at h
      have hle : r ≤ n := by
        simp only [le, lt, eq, Bool.or_eq_true, decide_eq_true_eq, Double.fin.injEq] at h
        exact h.elim le_of_lt le_of_eq
      have hsmall : (n : ℚ) < 2 ^ 53 := by exact_mod_cast hhigh
      linarith

theorem toInt_intCast (z : ℤ) : toInt (fin z) = z := by
  simp [toInt]

theorem abs_toInt_le (q : ℚ) : |(toInt (fin q) : ℚ)| ≤ |q| := by
  simp only [toInt]
  split_ifs with h
  · rw [abs_of_nonneg h, abs_of_nonneg (by exact_mod_cast Int.floor_nonneg.mpr h)]
    exact Int.floor_le q
  · have hneg : q ≤ 0 := (not_le.mp h).le
    have hceil : (⌈q⌉ : ℚ) ≤ 0 := by exact_mod_cast Int.ceil_le.mpr (by simpa using hneg)
    rw [abs_of_nonpos hneg, abs_of_nonpos hceil]
    linarith [Int.le_ceil q]

-- From 2^52 on a double is an integer.
theorem integer_of_large {q : ℚ} (hround : round q = fin q) (hq : 2 ^ 52 ≤ |q|) : ∃ z : ℤ, q = z := by
  have hpos : 0 < |q| := lt_of_lt_of_le (by norm_num) hq
  have hexp : 52 ≤ exponent |q| := by
    apply le_exponent hpos
    norm_num at hq ⊢
    exact hq
  obtain ⟨n, hn⟩ := Int.eq_ofNat_of_zero_le (show 0 ≤ exponent |q| - 52 by omega)
  have hulp : ulp q = ((2 ^ n : ℤ) : ℚ) := by
    rw [ulp, pow2_eq, max_eq_left (by omega), hn]
    push_cast
    rw [zpow_natCast]
  rw [round, if_neg (abs_pos.mp hpos)] at hround
  dsimp only at hround
  split_ifs at hround
  refine ⟨roundEven (q / ulp q) * 2 ^ n, ?_⟩
  rw [hulp] at hround ⊢
  push_cast at hround ⊢
  exact (fin.inj hround).symm

-- The integer part of a double is a double.
theorem round_toInt {q : ℚ} (hround : round q = fin q) : round (toInt (fin q)) = fin (toInt (fin q)) := by
  by_cases hq : 2 ^ 53 ≤ |q|
  · obtain ⟨z, rfl⟩ := integer_of_large hround (le_trans (by norm_num) hq)
    rw [toInt_intCast]
    exact hround
  · apply round_intCast
    have hlt := (abs_toInt_le q).trans_lt (not_le.mp hq)
    exact_mod_cast hlt

section Neighbours

variable {q x : ℚ}

theorem roundEven_of_near {y : ℚ} {m : ℤ} (h : |y - m| < 1 / 2) : roundEven y = m := by
  have herror := roundEven_error y
  have htri := abs_sub_le (roundEven y : ℚ) y m
  have hlt : |(roundEven y : ℚ) - m| < 1 := by linarith
  have hint : |roundEven y - m| < 1 := by exact_mod_cast hlt
  exact sub_eq_zero.mp (Int.abs_lt_one_iff.mp hint)

-- A double is a multiple of its spacing below the limit.
theorem multiple_of_round (h0 : q ≠ 0) (hround : round q = fin q) :
    (∃ m : ℤ, q = m * ulp q) ∧ |q| < 2 ^ (1024 : ℤ) := by
  rw [round, if_neg h0] at hround
  dsimp only at hround
  rw [pow2_eq] at hround
  split_ifs at hround with hlarge
  have heq := fin.inj hround
  exact ⟨⟨_, heq.symm⟩, by rw [heq] at hlarge; exact not_le.mp hlarge⟩

-- So is the power of two below it.
theorem multiples (hq : 0 < q) (hround : round q = fin q) :
    ∃ m M : ℤ, q = m * ulp q ∧ (2 : ℚ) ^ exponent q = M * ulp q := by
  obtain ⟨⟨m, hm⟩, -⟩ := multiple_of_round hq.ne' hround
  have hu := ulp_pos q
  have hulp : ulp q = (2 : ℚ) ^ max (exponent q - 52) (-1074) := by rw [ulp, abs_of_pos hq, pow2_eq]
  have hle : max (exponent q - 52) (-1074) ≤ exponent q := by
    have hone : (1 : ℤ) ≤ m := by
      rw [hm] at hq
      have hpos := (mul_pos_iff_of_pos_right hu).mp hq
      exact_mod_cast hpos
    have hcast : (1 : ℚ) ≤ m := by exact_mod_cast hone
    apply le_exponent hq
    rw [← hulp]
    nlinarith only [hcast, hm, hu]
  obtain ⟨n, hn⟩ := Int.eq_ofNat_of_zero_le (sub_nonneg.mpr hle)
  refine ⟨m, 2 ^ n, hm, ?_⟩
  rw [hulp]
  push_cast
  rw [← zpow_natCast, ← zpow_add₀ two_ne_zero]
  congr 1
  omega

-- What lies within half the spacing, between the same powers of two, is rounded to the double.
theorem round_of_near (hq : 0 < q) (hround : round q = fin q) (hlow : (2 : ℚ) ^ exponent q ≤ x)
    (hhigh : x < 2 ^ (exponent q + 1)) (hnear : |x - q| < ulp q / 2) : round x = fin q := by
  have hx : 0 < x := lt_of_lt_of_le (by positivity) hlow
  have hulp : ulp x = ulp q := by
    rw [ulp, ulp, abs_of_pos hx, abs_of_pos hq,
      le_antisymm (exponent_le hx hhigh) (le_exponent hx hlow)]
  obtain ⟨⟨m, hm⟩, hlt⟩ := multiple_of_round hq.ne' hround
  have hu := ulp_pos q
  have heven : roundEven (x / ulp q) = m := by
    apply roundEven_of_near
    have hscale : x / ulp q - m = (x - q) / ulp q := by
      rw [sub_div]
      congr 1
      rw [eq_div_iff hu.ne']
      exact hm.symm
    rw [hscale, abs_div, abs_of_pos hu, div_lt_iff₀ hu]
    linarith
  rw [round, if_neg hx.ne', hulp, heven, ← hm, pow2_eq, if_neg (not_le.mpr hlt)]

end Neighbours

end Double

namespace Binary64

-- A finite pattern is an integer below 2^53 in size, scaled by a power of two.
theorem scaled_of_toDouble {x : Binary64} {q : ℚ} (h : x.toDouble = .fin q) :
    ∃ (s k : ℤ), |s| < 2 ^ 53 ∧ q = s * 2 ^ k := by
  simp only [toDouble] at h
  split at h
  · split at h <;> cases h
  · have hq := Double.fin.inj h
    have hsig : x.significand < 2 ^ 53 := by
      have hman := x.man.isLt
      unfold significand
      split <;> omega
    rw [Double.pow2_eq] at hq
    have habs : |(x.significand : ℤ)| < 2 ^ 53 := by
      rw [Nat.abs_cast]
      exact_mod_cast hsig
    by_cases hneg : x.negative = true
    · refine ⟨-x.significand, ((max x.exp.val 1 : ℕ) : ℤ) - 1075, ?_, ?_⟩
      · rwa [abs_neg]
      · rw [← hq, if_pos hneg]
        push_cast
        ring
    · refine ⟨x.significand, ((max x.exp.val 1 : ℕ) : ℤ) - 1075, habs, ?_⟩
      rw [← hq, if_neg hneg]
      push_cast
      ring

-- The doubles below one half more than an integer keep a gap to it.
theorem fract_gap {s k : ℤ} {q : ℚ} (hs : |s| < 2 ^ 53) (hq : q = s * 2 ^ k)
    (hhalf : q - ⌊q⌋ < 1 / 2) : q - ⌊q⌋ ≤ 1 / 2 - 2 ^ (-54 : ℤ) := by
  by_cases hk : -53 ≤ k
  · -- a multiple of 2^-53
    obtain ⟨n, hn⟩ := Int.eq_ofNat_of_zero_le (show 0 ≤ k + 53 by omega)
    have hunits : q - ⌊q⌋ = ((s * 2 ^ n - ⌊q⌋ * 2 ^ 53 : ℤ) : ℚ) * 2 ^ (-53 : ℤ) := by
      have hpow : (2 : ℚ) ^ k = 2 ^ n * 2 ^ (-53 : ℤ) := by
        rw [← zpow_natCast, ← zpow_add₀ two_ne_zero]
        congr 1
        omega
      have hone : (9007199254740992 : ℚ) * 2 ^ (-53 : ℤ) = 1 := by norm_num
      push_cast
      rw [sub_mul, mul_assoc, mul_assoc, ← hpow, ← hq, hone, mul_one]
    rw [hunits] at hhalf ⊢
    have hlt : s * 2 ^ n - ⌊q⌋ * 2 ^ 53 < 2 ^ 52 := by
      have h : ((s * 2 ^ n - ⌊q⌋ * 2 ^ 53 : ℤ) : ℚ) < ((2 ^ 52 : ℤ) : ℚ) := by
        norm_num at hhalf ⊢
        linarith
      exact_mod_cast h
    have hle : ((s * 2 ^ n - ⌊q⌋ * 2 ^ 53 : ℤ) : ℚ) ≤ ((2 ^ 52 - 1 : ℤ) : ℚ) := by
      exact_mod_cast Int.le_sub_one_of_lt hlt
    norm_num at hle ⊢
    linarith
  · -- less than one half in size
    have hsmall : |q| ≤ 1 / 2 - 2 ^ (-54 : ℤ) := by
      have hscale : (2 : ℚ) ^ k ≤ 2 ^ (-54 : ℤ) := zpow_le_zpow_right₀ (by norm_num) (by omega)
      have hint : |(s : ℚ)| ≤ 2 ^ 53 - 1 := by
        have h : ((|s| : ℤ) : ℚ) ≤ ((2 ^ 53 - 1 : ℤ) : ℚ) := by
          exact_mod_cast Int.le_sub_one_of_lt hs
        norm_num at h ⊢
        exact h
      rw [hq, abs_mul, abs_of_pos (by positivity : (0 : ℚ) < 2 ^ k)]
      calc |(s : ℚ)| * 2 ^ k ≤ (2 ^ 53 - 1) * 2 ^ (-54 : ℤ) := by gcongr
        _ = 1 / 2 - 2 ^ (-54 : ℤ) := by norm_num
    obtain ⟨hlow, hhigh⟩ := abs_le.mp hsmall
    by_cases hneg : q < 0
    · have hfloor : ⌊q⌋ = -1 := by
        rw [Int.floor_eq_iff]
        norm_num at hlow ⊢
        constructor <;> linarith
      rw [hfloor] at hhalf
      norm_num at hhalf hlow
      linarith
    · have hfloor : ⌊q⌋ = 0 := by
        rw [Int.floor_eq_iff]
        norm_num at hhigh ⊢
        constructor <;> linarith
      rw [hfloor, Int.cast_zero, sub_zero]
      exact hhigh

-- The computed distance is on the right side of one half.
theorem half_le_fract_iff {s k : ℤ} {q : ℚ} (hs : |s| < 2 ^ 53) (hq : q = s * 2 ^ k) :
    Double.le (.fin (1 / 2)) (Double.round (q - ⌊q⌋)) = true ↔ 1 / 2 ≤ q - ⌊q⌋ := by
  have h0 : 0 ≤ q - ⌊q⌋ := sub_nonneg.mpr (Int.floor_le q)
  have h1 : q - ⌊q⌋ < 1 := by linarith [Int.lt_floor_add_one q]
  have hle (r : ℚ) : Double.le (.fin (1 / 2)) (.fin r) = true ↔ 1 / 2 ≤ r := by
    simp [Double.le, Double.lt, Double.eq, le_iff_lt_or_eq]
  constructor
  · intro h
    by_contra hhalf
    rw [not_le] at hhalf
    rcases h0.eq_or_lt with hzero | hpos
    · rw [← hzero, Double.round, if_pos rfl, hle] at h
      norm_num at h
    · obtain ⟨r, hr, hlt⟩ := Double.round_lt_half hpos (fract_gap hs hq hhalf)
      rw [hr, hle] at h
      linarith
  · intro h
    obtain ⟨r, hr, hge⟩ := Double.half_le_round h h1
    rw [hr, hle]
    exact hge

end Binary64

end JsonScada.Library
