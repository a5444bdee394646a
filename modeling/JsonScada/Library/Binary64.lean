import JsonScada.Library.Double
import Mathlib.Data.ZMod.Defs
import Mathlib.Tactic.Ring

namespace JsonScada.Library

-- The fields of a double-precision bit pattern. Unlike `Double` it has two
-- zeros, and a NaN for every payload.
structure Binary64 where
  negative : Bool
  exp : Fin 2048
  man : Fin (2 ^ 52)
  deriving DecidableEq

-- The fields of a single-precision bit pattern.
structure Binary32 where
  negative : Bool
  exp : Fin 256
  man : Fin (2 ^ 23)
  deriving DecidableEq

namespace Binary64

def bits (x : Binary64) : UInt64 :=
  UInt64.ofNat ((if x.negative then 2 ^ 63 else 0) + x.exp * 2 ^ 52 + x.man)

def ofBits (b : UInt64) : Binary64 where
  negative := decide (2 ^ 63 ≤ b.toNat)
  exp := ⟨b.toNat / 2 ^ 52 % 2048, Nat.mod_lt _ (by norm_num)⟩
  man := ⟨b.toNat % 2 ^ 52, Nat.mod_lt _ (by norm_num)⟩

theorem bits_ofBits (b : UInt64) : (ofBits b).bits = b := by
  apply UInt64.toNat_inj.mp
  have hb := b.toNat_lt
  simp only [bits, ofBits, UInt64.toNat_ofNat', decide_eq_true_eq]
  split_ifs <;> omega

theorem ofBits_bits (x : Binary64) : ofBits x.bits = x := by
  obtain ⟨s, e, m⟩ := x
  have he := e.isLt
  have hm := m.isLt
  cases s <;> simp only [bits, ofBits, UInt64.toNat_ofNat', mk.injEq, Fin.ext_iff, if_true,
    if_false, Bool.false_eq_true, decide_eq_true_eq, decide_eq_false_iff_not] <;> omega

-- The significand with its hidden bit.
def significand (x : Binary64) : Nat :=
  if x.exp = 0 then x.man else 2 ^ 52 + x.man

def toDouble (x : Binary64) : Double :=
  if x.exp = 2047 then (if x.man = 0 then .inf x.negative else .nan)
  else
    let q := (x.significand : ℚ) * Double.pow2 ((max x.exp.val 1 : ℕ) - 1075)
    .fin (if x.negative then -q else q)

-- From the magnitude bits, the exponent and the mantissa in one number. What is
-- too large becomes an infinity.
def ofMagnitude (negative : Bool) (m : Nat) : Binary64 where
  negative := negative
  exp := ⟨min m (2047 * 2 ^ 52) / 2 ^ 52, by omega⟩
  man := ⟨min m (2047 * 2 ^ 52) % 2 ^ 52, Nat.mod_lt _ (by norm_num)⟩

-- The pattern of a double: exact for the numbers a double can be.
def ofDouble : Double → Binary64
  | .nan => ⟨false, 2047, 2 ^ 51 + 1⟩
  | .inf s => ⟨s, 2047, 0⟩
  | .fin q =>
      if q = 0 then ⟨false, 0, 0⟩
      else
        let e := max (Double.exponent |q|) (-1022)
        ofMagnitude (decide (q < 0)) ((e + 1022).toNat * 2 ^ 52 + ⌊|q| / Double.ulp q⌋.toNat)

-- The leading digits of a double: its size in units of its spacing.
private theorem units_bounds {q : ℚ} (hq : q ≠ 0) {m : ℤ} (hm : q = m * Double.ulp q) :
    ⌊|q| / Double.ulp q⌋.toNat = m.natAbs ∧ m.natAbs < 2 ^ 53 ∧
      (-1022 < Double.exponent |q| → 2 ^ 52 ≤ m.natAbs) := by
  have hu := Double.ulp_pos q
  have habs : |q| = (m.natAbs : ℚ) * Double.ulp q := by
    conv_lhs => rw [hm]
    rw [abs_mul, abs_of_pos hu, Nat.cast_natAbs, Int.cast_abs]
  obtain ⟨hlow, hhigh⟩ := Double.exponent_spec (abs_pos.mpr hq)
  have hulp : Double.ulp q = (2 : ℚ) ^ max (Double.exponent |q| - 52) (-1074) := by
    rw [Double.ulp, Double.pow2_eq]
  refine ⟨?_, ?_, ?_⟩
  · rw [habs, mul_div_cancel_right₀ _ hu.ne', Int.floor_natCast, Int.toNat_natCast]
  · have h : (m.natAbs : ℚ) * Double.ulp q < 2 ^ 53 * Double.ulp q := by
      rw [← habs]
      refine hhigh.trans_le ?_
      rw [hulp, show (2 : ℚ) ^ 53 = (2 : ℚ) ^ (53 : ℤ) by norm_num, ← zpow_add₀ two_ne_zero]
      exact zpow_le_zpow_right₀ (by norm_num) (by omega)
    have := lt_of_mul_lt_mul_right h hu.le
    exact_mod_cast this
  · intro he
    have h : 2 ^ 52 * Double.ulp q ≤ (m.natAbs : ℚ) * Double.ulp q := by
      rw [← habs]
      refine le_trans ?_ hlow
      rw [hulp, show (2 : ℚ) ^ 52 = (2 : ℚ) ^ (52 : ℤ) by norm_num, ← zpow_add₀ two_ne_zero]
      exact zpow_le_zpow_right₀ (by norm_num) (by omega)
    have := le_of_mul_le_mul_right h hu
    exact_mod_cast this

-- A double is the value of its own pattern.
theorem toDouble_ofDouble {q : ℚ} {m : ℤ} (hm : q = m * Double.ulp q)
    (hq : |q| < Double.pow2 1024) : (ofDouble (.fin q)).toDouble = .fin q := by
  by_cases h0 : q = 0
  · subst h0
    decide +kernel
  have hu := Double.ulp_pos q
  obtain ⟨hfloor, hlt, hnormal⟩ := units_bounds h0 hm
  have hmax : Double.exponent |q| ≤ 1023 := by
    apply Double.exponent_le (abs_pos.mpr h0)
    rwa [Double.pow2_eq] at hq
  obtain ⟨e, he⟩ := Int.eq_ofNat_of_zero_le
    (show 0 ≤ max (Double.exponent |q|) (-1022) + 1022 by omega)
  have hulp : Double.ulp q = Double.pow2 ((e : ℤ) - 1074) := by
    rw [Double.ulp]
    congr 1
    omega
  have hsign : (if decide (q < 0) = true then -((m.natAbs : ℚ) * Double.ulp q)
      else (m.natAbs : ℚ) * Double.ulp q) = q := by
    rw [Nat.cast_natAbs, Int.cast_abs]
    by_cases hneg : q < 0
    · have : (m : ℚ) < 0 := by
        rw [hm] at hneg
        exact neg_of_mul_neg_left hneg hu.le
      rw [if_pos (by simpa using hneg), abs_of_neg this, neg_mul, neg_neg]
      exact hm.symm
    · have : (0 : ℚ) ≤ m := by
        rw [hm, not_lt] at hneg
        exact nonneg_of_mul_nonneg_left hneg hu
      rw [if_neg (by simpa using hneg), abs_of_nonneg this]
      exact hm.symm
  simp only [ofDouble, h0, if_false, hfloor, he, Int.toNat_natCast]
  generalize hx : ofMagnitude (decide (q < 0)) (e * 2 ^ 52 + m.natAbs) = x
  -- the hidden one is either there or the exponent is the smallest
  have hexp : x.exp.val = e + m.natAbs / 2 ^ 52 ∧ x.man.val = m.natAbs % 2 ^ 52 := by
    rw [← hx]
    simp only [ofMagnitude]
    omega
  have hone : m.natAbs < 2 ^ 52 → e = 0 := by
    intro h
    by_contra hne
    have := hnormal (by omega)
    omega
  have hsig : x.significand = m.natAbs := by
    by_cases hz : x.exp = 0
    · have := congrArg Fin.val hz
      simp only [Fin.val_zero] at this
      rw [significand, if_pos hz]
      omega
    · have : x.exp.val ≠ 0 := fun h => hz (Fin.ext h)
      rw [significand, if_neg hz]
      omega
  have hne : x.exp ≠ 2047 := by
    intro h
    have := congrArg Fin.val h
    simp only [Fin.coe_ofNat_eq_mod] at this
    omega
  have hscale : ((max x.exp.val 1 : ℕ) : ℤ) - 1075 = (e : ℤ) - 1074 := by omega
  have hneg : x.negative = decide (q < 0) := by
    rw [← hx]
    rfl
  rw [toDouble, if_neg hne, hsig, hscale, ← hulp, hneg]
  exact congrArg _ hsign

-- The nearest pattern of an integer.
def ofInt (z : ℤ) : Binary64 := ofDouble (Double.round z)

theorem toDouble_ofInt {z : ℤ} (hz : |z| < 2 ^ 53) : (ofInt z).toDouble = .fin z := by
  obtain ⟨⟨m, hm⟩, hlt⟩ := Double.intCast_multiple hz
  rw [ofInt, Double.round_intCast hz, toDouble_ofDouble hm hlt]

private theorem fields_ext {x y : Binary64} (hnegative : x.negative = y.negative)
    (hexp : x.exp = y.exp) (hman : x.man = y.man) : x = y := by
  obtain ⟨_, _, _⟩ := x
  obtain ⟨_, _, _⟩ := y
  simp only at hnegative hexp hman
  rw [hnegative, hexp, hman]

-- The exponent and the spacing of the value of a pattern.
private theorem exponent_magnitude {x : Binary64} (h0 : x.significand ≠ 0) :
    let q := (x.significand : ℚ) * Double.pow2 ((max x.exp.val 1 : ℕ) - 1075)
    0 < q ∧ max (Double.exponent q) (-1022) + 1022 = ((max x.exp.val 1 - 1 : ℕ) : ℤ) ∧
      max (Double.exponent q - 52) (-1074) = ((max x.exp.val 1 : ℕ) : ℤ) - 1075 := by
  intro q
  have hman := x.man.isLt
  have hsig : (0 : ℚ) < x.significand := by exact_mod_cast Nat.pos_of_ne_zero h0
  have hq : q = (x.significand : ℚ) * (2 : ℚ) ^ (((max x.exp.val 1 : ℕ) : ℤ) - 1075) := by
    rw [← Double.pow2_eq]
  have hpos : 0 < q := by
    rw [hq]
    positivity
  have hbound {n : ℕ} {e : ℤ} (hlt : x.significand < 2 ^ n)
      (he : e = n + (((max x.exp.val 1 : ℕ) : ℤ) - 1075)) : q < (2 : ℚ) ^ e := by
    rw [hq, he, zpow_add₀ two_ne_zero, zpow_natCast]
    have hlt' : (x.significand : ℚ) < 2 ^ n := by exact_mod_cast hlt
    gcongr
  by_cases hexp : x.exp = 0
  · -- a subnormal has the smallest exponent
    have hexp' : x.exp.val = 0 := congrArg Fin.val hexp
    have hlt : x.significand < 2 ^ 52 := by
      rw [significand, if_pos hexp]
      exact hman
    have hle := Double.exponent_le (e := -1023) hpos (hbound hlt (by omega))
    exact ⟨hpos, by omega, by omega⟩
  · have hexp' : x.exp.val ≠ 0 := fun h => hexp (Fin.ext h)
    have hval : x.significand = 2 ^ 52 + x.man := by rw [significand, if_neg hexp]
    have hle := Double.exponent_le (e := (x.exp.val : ℤ) - 1023) hpos
      (hbound (n := 53) (by omega) (by omega))
    have hge : (x.exp.val : ℤ) - 1023 ≤ Double.exponent q := by
      apply Double.le_exponent hpos
      have hsplit : (x.exp.val : ℤ) - 1023 = 52 + (((max x.exp.val 1 : ℕ) : ℤ) - 1075) := by omega
      have hlow : (2 : ℚ) ^ (52 : ℤ) ≤ x.significand := by
        rw [hval]
        push_cast
        norm_num
      rw [hq, hsplit, zpow_add₀ two_ne_zero]
      gcongr
    exact ⟨hpos, by omega, by omega⟩

-- The hidden one is carried into the exponent.
private theorem magnitude_eq (x : Binary64) :
    (max x.exp.val 1 - 1) * 2 ^ 52 + x.significand = x.exp * 2 ^ 52 + x.man := by
  by_cases hzero : x.exp = 0
  · have hzero' : x.exp.val = 0 := congrArg Fin.val hzero
    rw [significand, if_pos hzero]
    omega
  · have hzero' : x.exp.val ≠ 0 := fun h => hzero (Fin.ext h)
    rw [significand, if_neg hzero]
    omega

theorem ofMagnitude_negative (s : Bool) (m : ℕ) : (ofMagnitude s m).negative = s := rfl

private theorem ofMagnitude_self {x : Binary64} (hlt : x.exp.val < 2047) :
    ofMagnitude x.negative (x.exp * 2 ^ 52 + x.man) = x := by
  have hman := x.man.isLt
  have hexpField : (ofMagnitude x.negative (x.exp * 2 ^ 52 + x.man)).exp = x.exp := by
    simp only [ofMagnitude, Fin.ext_iff]
    omega
  have hmanField : (ofMagnitude x.negative (x.exp * 2 ^ 52 + x.man)).man = x.man := by
    simp only [ofMagnitude, Fin.ext_iff]
    omega
  exact fields_ext (ofMagnitude_negative _ _) hexpField hmanField

-- The pattern of a value, where the value tells it.
theorem ofDouble_toDouble {x : Binary64} (hexp : x.exp ≠ 2047) (h0 : x.significand ≠ 0) :
    ofDouble x.toDouble = x := by
  obtain ⟨hpos, hexponent, hspacing⟩ := exponent_magnitude h0
  generalize hq : (x.significand : ℚ) * Double.pow2 ((max x.exp.val 1 : ℕ) - 1075) = q
    at hpos hexponent hspacing
  have hulp : Double.ulp q = Double.pow2 (((max x.exp.val 1 : ℕ) : ℤ) - 1075) := by
    rw [Double.ulp, abs_of_pos hpos, hspacing]
  have hfloor : ⌊q / Double.ulp q⌋.toNat = x.significand := by
    rw [hulp, ← hq, mul_div_cancel_right₀, Int.floor_natCast, Int.toNat_natCast]
    rw [Double.pow2_eq]
    positivity
  have hsign (s : Bool) : ofDouble (.fin (if s then -q else q)) =
      ofMagnitude s ((max x.exp.val 1 - 1) * 2 ^ 52 + x.significand) := by
    have habs : |if s then -q else q| = q := by
      cases s
      · simpa using hpos.le
      · simpa using hpos.le
    have hne : (if s then -q else q) ≠ 0 := by
      cases s
      · simpa using hpos.ne'
      · simpa using hpos.ne'
    have hneg : decide ((if s then -q else q) < 0) = s := by
      cases s
      · simpa using hpos.le
      · simpa using hpos
    have hulp' : Double.ulp (if s then -q else q) = Double.ulp q := by
      rw [Double.ulp, habs, Double.ulp, abs_of_pos hpos]
    simp only [ofDouble, hne, if_false, habs, hneg, hulp', hfloor, hexponent, Int.toNat_natCast]
  rw [toDouble, if_neg hexp]
  have hlt : x.exp.val < 2047 := by
    have hmax := x.exp.isLt
    simp only [ne_eq, Fin.ext_iff, Fin.coe_ofNat_eq_mod] at hexp
    omega
  simp only [hq, hsign, magnitude_eq, ofMagnitude_self hlt]

-- A pattern that its value tells: not the negative zero, and of the NaNs the one that is written.
structure Plain (x : Binary64) : Prop where
  zero : x ≠ ⟨true, 0, 0⟩
  nan : x.toDouble = .nan → x = ofDouble .nan

theorem ofDouble_toDouble_iff (x : Binary64) : ofDouble x.toDouble = x ↔ x.Plain := by
  constructor
  · intro h
    refine ⟨?_, fun hnan => by rw [← hnan, h]⟩
    rintro rfl
    revert h
    decide +kernel
  · intro h
    by_cases hexp : x.exp = 2047
    · by_cases hman : x.man = 0
      · obtain ⟨s, e, m⟩ := x
        simp only at hexp hman
        simp only [toDouble, hexp, hman, if_true, ofDouble]
      · have hnan : x.toDouble = .nan := by rw [toDouble, if_pos hexp, if_neg hman]
        rw [hnan]
        exact (h.nan hnan).symm
    · by_cases hsig : x.significand = 0
      · have hzero : x = ⟨false, 0, 0⟩ ∨ x = ⟨true, 0, 0⟩ := by
          obtain ⟨s, e, m⟩ := x
          unfold significand at hsig
          split at hsig
          · rename_i he
            have hm : m = 0 := Fin.ext hsig
            simp only at he
            rw [he, hm]
            cases s
            · exact .inl rfl
            · exact .inr rfl
          · omega
        obtain rfl := hzero.resolve_right h.zero
        decide +kernel
      · exact ofDouble_toDouble hexp hsig

end Binary64

namespace Binary32

def bits (x : Binary32) : UInt32 :=
  UInt32.ofNat ((if x.negative then 2 ^ 31 else 0) + x.exp * 2 ^ 23 + x.man)

def ofBits (b : UInt32) : Binary32 where
  negative := decide (2 ^ 31 ≤ b.toNat)
  exp := ⟨b.toNat / 2 ^ 23 % 256, Nat.mod_lt _ (by norm_num)⟩
  man := ⟨b.toNat % 2 ^ 23, Nat.mod_lt _ (by norm_num)⟩

theorem bits_ofBits (b : UInt32) : (ofBits b).bits = b := by
  apply UInt32.toNat_inj.mp
  have hb := b.toNat_lt
  simp only [bits, ofBits, UInt32.toNat_ofNat', decide_eq_true_eq]
  split_ifs <;> omega

theorem ofBits_bits (x : Binary32) : ofBits x.bits = x := by
  obtain ⟨s, e, m⟩ := x
  have he := e.isLt
  have hm := m.isLt
  cases s <;> simp only [bits, ofBits, UInt32.toNat_ofNat', mk.injEq, Fin.ext_iff, if_true,
    if_false, Bool.false_eq_true, decide_eq_true_eq, decide_eq_false_iff_not] <;> omega

-- Every NaN that a conversion returns is quiet.
def Quiet (x : Binary32) : Prop :=
  x.exp = 255 → x.man ≠ 0 → 2 ^ 22 ≤ x.man.val

-- Single to double precision. The value is kept, a NaN is made quiet.
def widen (x : Binary32) : Binary64 :=
  if x.exp = 255 then
    if x.man = 0 then ⟨x.negative, 2047, 0⟩
    else ⟨x.negative, 2047, ⟨(2 ^ 22 + x.man % 2 ^ 22) * 2 ^ 29, by omega⟩⟩
  else if x.exp = 0 then
    if x.man = 0 then ⟨x.negative, 0, 0⟩
    else
      -- a subnormal gets its leading one in place
      let k := Nat.log2 x.man
      .ofMagnitude x.negative ((k + 873) * 2 ^ 52 + x.man * 2 ^ (52 - k))
  else .ofMagnitude x.negative ((x.exp + 896) * 2 ^ 52 + x.man * 2 ^ 29)

-- Divide by a power of two, to nearest, ties to even.
def roundShift (sig shift : Nat) : Nat :=
  let q := sig / 2 ^ shift
  let r := sig % 2 ^ shift
  if 2 ^ shift < 2 * r then q + 1 else if 2 ^ shift = 2 * r then q + q % 2 else q

theorem roundShift_mul (m shift : Nat) : roundShift (m * 2 ^ shift) shift = m := by
  have hpos : 0 < 2 ^ shift := Nat.two_pow_pos shift
  have hr : m * 2 ^ shift % 2 ^ shift = 0 := Nat.mul_mod_left _ _
  have hq : m * 2 ^ shift / 2 ^ shift = m := Nat.mul_div_cancel _ hpos
  simp only [roundShift, hr, hq]
  rw [if_neg (by omega), if_neg (by omega)]

def ofMagnitude (negative : Bool) (m : Nat) : Binary32 where
  negative := negative
  exp := ⟨min m (255 * 2 ^ 23) / 2 ^ 23, by omega⟩
  man := ⟨min m (255 * 2 ^ 23) % 2 ^ 23, Nat.mod_lt _ (by norm_num)⟩

private theorem ofMagnitude_quiet (s : Bool) (m : Nat) : (ofMagnitude s m).Quiet := by
  intro he hm
  simp only [ofMagnitude, Fin.ext_iff, ne_eq, Fin.coe_ofNat_eq_mod] at he hm
  omega

-- Double to single precision. Below the normal range the shift grows, and a
-- carry out of the mantissa runs into the exponent as it should.
def narrow (x : Binary64) : Binary32 :=
  if x.exp = 2047 then
    if x.man = 0 then ⟨x.negative, 255, 0⟩
    else ⟨x.negative, 255, ⟨2 ^ 22 + x.man / 2 ^ 29 % 2 ^ 22, by omega⟩⟩
  else if 897 ≤ x.exp.val then
    ofMagnitude x.negative ((x.exp - 897) * 2 ^ 23 + roundShift x.significand 29)
  else ofMagnitude x.negative (roundShift x.significand (29 + (897 - x.exp)))

theorem narrow_quiet (x : Binary64) : (narrow x).Quiet := by
  unfold narrow Quiet
  split_ifs with h1 h2 h3
  · simp
  · simp
  · exact ofMagnitude_quiet _ _
  · exact ofMagnitude_quiet _ _

-- The fields of a magnitude below the infinity.
private theorem ofMagnitude64_fields {s : Bool} {e m : Nat} (he : e < 2047) (hm : m < 2 ^ 52) :
    (Binary64.ofMagnitude s (e * 2 ^ 52 + m)).exp = ⟨e, by omega⟩ ∧
      (Binary64.ofMagnitude s (e * 2 ^ 52 + m)).man = ⟨m, hm⟩ := by
  constructor <;> simp only [Binary64.ofMagnitude, Fin.ext_iff] <;> omega

private theorem ofMagnitude_eq (x : Binary32) (hx : x.exp ≠ 255) :
    ofMagnitude x.negative (x.exp * 2 ^ 23 + x.man) = x := by
  obtain ⟨s, e, m⟩ := x
  have he := e.isLt
  have hm := m.isLt
  simp only [ne_eq, Fin.ext_iff, Fin.coe_ofNat_eq_mod] at hx
  simp only [ofMagnitude, mk.injEq, Fin.ext_iff, true_and]
  omega

-- Normalising a subnormal moves its leading one to the hidden place.
private theorem subnormal_shift {n : Nat} (hpos : n ≠ 0) (hn : n < 2 ^ 23) :
    Nat.log2 n < 23 ∧
      ∃ r, n * 2 ^ (52 - Nat.log2 n) = 2 ^ 52 + r ∧ r < 2 ^ 52 := by
  have hlow : 2 ^ Nat.log2 n ≤ n := Nat.log2_self_le hpos
  have hhigh : n < 2 ^ (Nat.log2 n + 1) := Nat.lt_log2_self
  generalize Nat.log2 n = k at hlow hhigh ⊢
  have hk : k < 23 := (Nat.pow_lt_pow_iff_right (by norm_num)).mp (hlow.trans_lt hn)
  have hpow : 2 ^ k * 2 ^ (52 - k) = 2 ^ 52 := by
    rw [← pow_add]
    congr 1
    omega
  refine ⟨hk, (n - 2 ^ k) * 2 ^ (52 - k), ?_, ?_⟩
  · rw [Nat.sub_mul, hpow]
    have : 2 ^ k * 2 ^ (52 - k) ≤ n * 2 ^ (52 - k) := Nat.mul_le_mul_right _ hlow
    omega
  · rw [pow_succ] at hhigh
    have h : n - 2 ^ k < 2 ^ k := by omega
    calc (n - 2 ^ k) * 2 ^ (52 - k) < 2 ^ k * 2 ^ (52 - k) :=
          Nat.mul_lt_mul_of_pos_right h (Nat.two_pow_pos _)
      _ = 2 ^ 52 := hpow

-- Narrowing a pattern whose exponent is in the range of single precision.
private theorem narrow_ofMagnitude {s : Bool} {e r m shift base : Nat} (hpos : e ≠ 0)
    (he : e < 2047) (hr : r < 2 ^ 52) (hsig : 2 ^ 52 + r = m * 2 ^ shift)
    (hcase : (897 ≤ e ∧ shift = 29 ∧ base = (e - 897) * 2 ^ 23) ∨
      (e < 897 ∧ shift = 29 + (897 - e) ∧ base = 0)) :
    narrow (.ofMagnitude s (e * 2 ^ 52 + r)) = ofMagnitude s (base + m) := by
  obtain ⟨hexp, hman⟩ := ofMagnitude64_fields (s := s) he hr
  have hne : (Binary64.ofMagnitude s (e * 2 ^ 52 + r)).exp ≠ 2047 := by
    intro h
    have := congrArg Fin.val (hexp.symm.trans h)
    simp only [Fin.coe_ofNat_eq_mod] at this
    omega
  have hne0 : (Binary64.ofMagnitude s (e * 2 ^ 52 + r)).exp ≠ 0 := by
    intro h
    have := congrArg Fin.val (hexp.symm.trans h)
    simp only [Fin.coe_ofNat_eq_mod] at this
    omega
  have hsignif : (Binary64.ofMagnitude s (e * 2 ^ 52 + r)).significand = m * 2 ^ shift := by
    rw [Binary64.significand, if_neg hne0, hman]
    exact hsig
  rw [narrow, if_neg hne, hsignif, hexp]
  rcases hcase with ⟨hge, hshift, hbase⟩ | ⟨hlt, hshift, hbase⟩
  · rw [if_pos hge, ← hshift, roundShift_mul, hbase]
    rfl
  · rw [if_neg (by simp only; omega), ← hshift, roundShift_mul, hbase, Nat.zero_add]
    rfl

-- Widening and narrowing again gives back everything but a signalling NaN.
theorem narrow_widen {x : Binary32} (hx : x.Quiet) : narrow x.widen = x := by
  have hexp := x.exp.isLt
  have hman := x.man.isLt
  by_cases h1 : x.exp = 255
  · by_cases h2 : x.man = 0
    · obtain ⟨s, e, m⟩ := x
      simp_all [narrow, widen]
    · -- a quiet NaN keeps its payload
      have hq := hx h1 h2
      obtain ⟨s, e, m⟩ := x
      simp only at h1 h2 hq hman
      have hne : (⟨(2 ^ 22 + m % 2 ^ 22) * 2 ^ 29, by omega⟩ : Fin (2 ^ 52)) ≠ 0 := by
        simp only [ne_eq, Fin.ext_iff, Fin.val_zero]
        omega
      simp only [narrow, widen, h1, if_true, h2, hne, if_false, mk.injEq, Fin.ext_iff, true_and]
      omega
  have hback := ofMagnitude_eq x h1
  by_cases h0 : x.exp = 0
  · by_cases h2 : x.man = 0
    · have hz : x.widen = ⟨x.negative, 0, 0⟩ := by
        simp only [widen, h0, h2, if_true, if_neg (show (0 : Fin 256) ≠ 255 by decide)]
      have hnz : ∀ s, narrow ⟨s, 0, 0⟩ = ⟨s, 0, 0⟩ := by decide +kernel
      rw [hz, hnz, ← h0, ← h2]
    · have hpos : x.man.val ≠ 0 := fun h => h2 (Fin.ext h)
      obtain ⟨hk, r, hr, hlt⟩ := subnormal_shift hpos hman
      have hmag : (Nat.log2 x.man + 873) * 2 ^ 52 + x.man * 2 ^ (52 - Nat.log2 x.man) =
          (Nat.log2 x.man + 874) * 2 ^ 52 + r := by
        rw [hr]
        ring
      simp only [widen, if_false, h0, if_true, h2, if_neg (show (0 : Fin 256) ≠ 255 by decide)]
      rw [hmag, narrow_ofMagnitude (by omega) (by omega) hlt hr.symm
        (.inr ⟨by omega, by omega, rfl⟩)]
      rw [h0] at hback
      simpa using hback
  · have hpos : x.exp.val ≠ 0 := fun h => h0 (Fin.ext h)
    have hmax : x.exp.val ≠ 255 := fun h => h1 (Fin.ext h)
    simp only [widen, h1, if_false, h0]
    rw [narrow_ofMagnitude (r := x.man * 2 ^ 29) (by omega) (by omega) (by omega)
      (show _ = (2 ^ 23 + x.man.val) * 2 ^ 29 by omega) (.inl ⟨by omega, rfl, rfl⟩)]
    have : (x.exp.val + 896 - 897) * 2 ^ 23 + (2 ^ 23 + x.man.val) =
        x.exp * 2 ^ 23 + x.man := by omega
    rw [this]
    exact hback

-- A pattern that its value tells.
structure Plain (x : Binary32) : Prop where
  zero : x ≠ ⟨true, 0, 0⟩
  nan : x.exp = 255 → x.man ≠ 0 → x = narrow (.ofDouble .nan)

theorem widen_ne_nan {x : Binary32} (hx : ¬(x.exp = 255 ∧ x.man ≠ 0)) : x.widen.toDouble ≠ .nan := by
  intro hnan
  have hback : narrow x.widen = x := narrow_widen fun hexp hman => absurd ⟨hexp, hman⟩ hx
  unfold Binary64.toDouble at hnan
  split at hnan
  · rename_i hexp
    split at hnan
    · cases hnan
    · rename_i hman
      rw [narrow, if_pos hexp, if_neg hman] at hback
      apply hx
      rw [← hback]
      refine ⟨rfl, fun h => ?_⟩
      have hval := congrArg Fin.val h
      simp only [Fin.val_zero] at hval
      omega
  · cases hnan

theorem narrow_toDouble_iff (x : Binary32) :
    narrow (.ofDouble x.widen.toDouble) = x ↔ x.Plain := by
  by_cases hx : x.exp = 255 ∧ x.man ≠ 0
  · have hnan : x.widen.toDouble = .nan := by
      have hman := x.man.isLt
      have hne : (⟨(2 ^ 22 + x.man % 2 ^ 22) * 2 ^ 29, by omega⟩ : Fin (2 ^ 52)) ≠ 0 := by
        simp only [ne_eq, Fin.ext_iff, Fin.val_zero]
        omega
      simp only [widen, hx.1, if_true, hx.2, if_false, Binary64.toDouble, hne]
    rw [hnan]
    constructor
    · intro h
      refine ⟨?_, fun _ _ => h.symm⟩
      rintro rfl
      exact absurd hx (by decide)
    · intro h
      exact (h.nan hx.1 hx.2).symm
  · have hback : narrow x.widen = x := narrow_widen fun hexp hman => absurd ⟨hexp, hman⟩ hx
    constructor
    · intro h
      refine ⟨?_, fun hexp hman => absurd ⟨hexp, hman⟩ hx⟩
      rintro rfl
      revert h
      decide +kernel
    · intro h
      have hplain : x.widen.Plain := by
        refine ⟨fun hzero => h.zero ?_, fun hnan => absurd hnan (widen_ne_nan hx)⟩
        rw [← hback, hzero]
        decide +kernel
      rw [(Binary64.ofDouble_toDouble_iff _).mpr hplain, hback]

end Binary32

end JsonScada.Library
