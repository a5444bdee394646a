import JsonScada.Library.FloatFormat

namespace JsonScada.Library

-- The number `coeff * 10 ^ exp`.
structure Decimal where
  coeff : Nat
  exp : ℤ
  deriving DecidableEq

namespace Decimal

def pow10 (e : ℤ) : ℚ :=
  if 0 ≤ e then ((10 ^ e.toNat : ℕ) : ℚ) else (((10 ^ (-e).toNat : ℕ) : ℚ))⁻¹

def value (d : Decimal) : ℚ := d.coeff * pow10 d.exp

def digits (d : Decimal) : List Char := Nat.toDigits 10 d.coeff

section Shortest

-- The place of the leading digit of a positive number.
def exponent (q : ℚ) : ℤ :=
  let e : ℤ := (Nat.toDigits 10 q.num.natAbs).length - (Nat.toDigits 10 q.den).length
  if pow10 e ≤ q then e else e - 1

-- The better of the two numbers of `k` digits around a positive double, if one
-- of them still reads as that double. A tie goes to the even digit.
def ofLength (q : ℚ) (k : Nat) : Option Decimal :=
  let s := exponent q - k + 1
  let c := ⌊q / pow10 s⌋.toNat
  let low : Decimal := ⟨c, s⟩
  let high : Decimal := if (c + 1) % 10 = 0 then ⟨(c + 1) / 10, s + 1⟩ else ⟨c + 1, s⟩
  let reads (d : Decimal) : Bool := Double.round d.value = .fin q
  if reads low && reads high then
    let excess := q - low.value - (high.value - q)
    some (if excess < 0 ∨ (excess = 0 ∧ c % 2 = 0) then low else high)
  else if reads low then some low
  else if reads high then some high
  else none

-- The fewest digits that read as the given positive double: seventeen are enough.
def shortest (q : ℚ) : Decimal :=
  ((List.range 17).findSome? fun k => ofLength q (k + 1)).getD
    ⟨⌊q / pow10 (exponent q - 16)⌋.toNat, exponent q - 16⟩

variable {q : ℚ}

theorem pow10_eq (e : ℤ) : pow10 e = (10 : ℚ) ^ e := by
  unfold pow10
  split_ifs with h
  · obtain ⟨n, rfl⟩ := Int.eq_ofNat_of_zero_le h
    simp
  · obtain ⟨n, hn⟩ := Int.eq_ofNat_of_zero_le (show 0 ≤ -e by omega)
    obtain rfl : e = -(n : ℤ) := by omega
    simp

-- A number lies between the powers of ten that its digits tell.
theorem toDigits_bounds {n : ℕ} (hn : 0 < n) :
    10 ^ ((Nat.toDigits 10 n).length - 1) ≤ n ∧ n < 10 ^ (Nat.toDigits 10 n).length := by
  have hpos : 0 < (Nat.toDigits 10 n).length := Nat.length_toDigits_pos
  constructor
  · by_cases hone : (Nat.toDigits 10 n).length - 1 = 0
    · rw [hone]
      exact hn
    · by_contra hlt
      have hle := (Nat.length_toDigits_le_iff (b := 10) (by norm_num) (Nat.pos_of_ne_zero hone)).mpr
        (not_le.mp hlt)
      omega
  · exact (Nat.length_toDigits_le_iff (by norm_num) hpos).mp le_rfl

theorem exponent_spec (hq : 0 < q) :
    (10 : ℚ) ^ exponent q ≤ q ∧ q < 10 ^ (exponent q + 1) := by
  have hnum : 0 < q.num.natAbs := Int.natAbs_pos.mpr (Rat.num_pos.mpr hq).ne'
  obtain ⟨hnlow, hnhigh⟩ := toDigits_bounds hnum
  obtain ⟨hdlow, hdhigh⟩ := toDigits_bounds q.den_pos
  have hnpos : 0 < (Nat.toDigits 10 q.num.natAbs).length := Nat.length_toDigits_pos
  have hdpos : 0 < (Nat.toDigits 10 q.den).length := Nat.length_toDigits_pos
  have hdiv : q = (q.num.natAbs : ℚ) / q.den := by
    have habs : ((q.num.natAbs : ℕ) : ℤ) = q.num := Int.natAbs_of_nonneg (Rat.num_pos.mpr hq).le
    have hcast : ((q.num.natAbs : ℕ) : ℚ) = q.num := by rw [← Int.cast_natCast, habs]
    rw [hcast, Rat.num_div_den]
  unfold exponent
  dsimp only
  generalize (Nat.toDigits 10 q.num.natAbs).length = a at *
  generalize (Nat.toDigits 10 q.den).length = b at *
  have hden : (0 : ℚ) < q.den := by exact_mod_cast q.den_pos
  have hnl : (10 : ℚ) ^ ((a : ℤ) - 1) ≤ q.num.natAbs := by
    rw [show (a : ℤ) - 1 = ((a - 1 : ℕ) : ℤ) by omega, zpow_natCast]
    exact_mod_cast hnlow
  have hnh : (q.num.natAbs : ℚ) < 10 ^ (a : ℤ) := by
    rw [zpow_natCast]
    exact_mod_cast hnhigh
  have hdl : (10 : ℚ) ^ ((b : ℤ) - 1) ≤ q.den := by
    rw [show (b : ℤ) - 1 = ((b - 1 : ℕ) : ℤ) by omega, zpow_natCast]
    exact_mod_cast hdlow
  have hdh : (q.den : ℚ) < 10 ^ (b : ℤ) := by
    rw [zpow_natCast]
    exact_mod_cast hdhigh
  have hupper : q < 10 ^ ((a : ℤ) - b + 1) := by
    rw [hdiv, div_lt_iff₀ hden]
    calc (q.num.natAbs : ℚ) < 10 ^ (a : ℤ) := hnh
      _ = 10 ^ ((a : ℤ) - b + 1) * 10 ^ ((b : ℤ) - 1) := by
          rw [← zpow_add₀ (by norm_num)]
          congr 1
          omega
      _ ≤ 10 ^ ((a : ℤ) - b + 1) * q.den := by gcongr
  have hlower : 10 ^ ((a : ℤ) - b - 1) ≤ q := by
    rw [hdiv, le_div_iff₀ hden]
    calc (10 : ℚ) ^ ((a : ℤ) - b - 1) * q.den ≤ 10 ^ ((a : ℤ) - b - 1) * 10 ^ (b : ℤ) := by gcongr
      _ = 10 ^ ((a : ℤ) - 1) := by
          rw [← zpow_add₀ (by norm_num)]
          congr 1
          omega
      _ ≤ q.num.natAbs := hnl
  rw [pow10_eq]
  split_ifs with h
  · exact ⟨h, hupper⟩
  · rw [sub_add_cancel]
    exact ⟨hlower, not_le.mp h⟩

-- The two numbers of `k` digits around a double.
def below (q : ℚ) (k : ℕ) : Decimal := ⟨⌊q / pow10 (exponent q - k + 1)⌋.toNat, exponent q - k + 1⟩

def above (q : ℚ) (k : ℕ) : Decimal :=
  if ((below q k).coeff + 1) % 10 = 0 then ⟨((below q k).coeff + 1) / 10, (below q k).exp + 1⟩
  else ⟨(below q k).coeff + 1, (below q k).exp⟩

theorem ofLength_def (q : ℚ) (k : ℕ) : ofLength q k =
    if Double.round (below q k).value = .fin q ∧ Double.round (above q k).value = .fin q then
      some (if q - (below q k).value - ((above q k).value - q) < 0 ∨
        (q - (below q k).value - ((above q k).value - q) = 0 ∧ (below q k).coeff % 2 = 0)
        then below q k else above q k)
    else if Double.round (below q k).value = .fin q then some (below q k)
    else if Double.round (above q k).value = .fin q then some (above q k)
    else none := by
  simp only [ofLength, Bool.and_eq_true, decide_eq_true_eq]
  rfl

theorem ofLength_eq_some {k : ℕ} {d : Decimal} (h : ofLength q k = some d) :
    (d = below q k ∨ d = above q k) ∧ Double.round d.value = .fin q := by
  rw [ofLength_def] at h
  split_ifs at h with hboth hcloser hlow hhigh <;> obtain rfl := Option.some.inj h
  · exact ⟨.inl rfl, hboth.1⟩
  · exact ⟨.inr rfl, hboth.2⟩
  · exact ⟨.inl rfl, hlow⟩
  · exact ⟨.inr rfl, hhigh⟩

theorem ofLength_ne_none {k : ℕ}
    (h : Double.round (below q k).value = .fin q ∨ Double.round (above q k).value = .fin q) :
    ofLength q k ≠ none := by
  rw [ofLength_def]
  split_ifs with hboth hcloser hlow hhigh <;> simp_all

theorem value_below (hq : 0 < q) (k : ℕ) :
    (below q k).value ≤ q ∧ q < (below q k).value + 10 ^ (exponent q - k + 1) := by
  have hs : (0 : ℚ) < 10 ^ (exponent q - k + 1) := by positivity
  have hnonneg : 0 ≤ ⌊q / 10 ^ (exponent q - k + 1)⌋ := Int.floor_nonneg.mpr (by positivity)
  have hvalue : (below q k).value = ⌊q / 10 ^ (exponent q - k + 1)⌋ * 10 ^ (exponent q - k + 1) := by
    simp only [below, value, pow10_eq]
    congr 1
    rw [← Int.cast_natCast, Int.toNat_of_nonneg hnonneg]
  rw [hvalue]
  constructor
  · exact (le_div_iff₀ hs).mp (Int.floor_le _)
  · have hlt := (div_lt_iff₀ hs).mp (Int.lt_floor_add_one (q / 10 ^ (exponent q - k + 1)))
    linarith

theorem value_above (q : ℚ) (k : ℕ) :
    (above q k).value = (below q k).value + 10 ^ (exponent q - k + 1) := by
  have hsum : (((below q k).coeff + 1 : ℕ) : ℚ) * 10 ^ (exponent q - k + 1) =
      (below q k).value + 10 ^ (exponent q - k + 1) := by
    rw [value, pow10_eq, show (below q k).exp = exponent q - k + 1 from rfl]
    push_cast
    ring
  rw [← hsum]
  unfold above
  split_ifs with h
  · obtain ⟨m, hm⟩ := Nat.dvd_of_mod_eq_zero h
    simp only [value, pow10_eq]
    rw [hm, Nat.mul_div_cancel_left m (by norm_num), zpow_add_one₀ (by norm_num)]
    push_cast
    simp only [below]
    ring
  · simp only [value, pow10_eq]
    rfl

-- Seventeen digits are closer together than the doubles there.
theorem spacing_lt (hq : 0 < q) :
    (10 : ℚ) ^ (exponent q - 17 + 1) * 10 ^ 16 ≤ q ∧ 2 ^ (Double.exponent q - 52) ≤ Double.ulp q := by
  constructor
  · refine le_trans (le_of_eq ?_) (exponent_spec hq).1
    rw [← zpow_natCast, ← zpow_add₀ (by norm_num)]
    congr 1
    push_cast
    ring
  · rw [Double.ulp, abs_of_pos hq, Double.pow2_eq]
    exact zpow_le_zpow_right₀ (by norm_num) (le_max_left _ _)

theorem reads_seventeen (hq : 0 < q) (hround : Double.round q = .fin q) :
    Double.round (below q 17).value = .fin q ∨ Double.round (above q 17).value = .fin q := by
  obtain ⟨hlow, hhigh⟩ := value_below hq 17
  have habove := value_above q 17
  obtain ⟨hspacing, hulp⟩ := spacing_lt hq
  obtain ⟨helow, hehigh⟩ := Double.exponent_spec hq
  push_cast at hhigh habove
  have hpos : (0 : ℚ) < 10 ^ (exponent q - 17 + 1) := by positivity
  generalize (10 : ℚ) ^ (exponent q - 17 + 1) = spacing at *
  rw [← habove] at hhigh
  generalize (above q 17).value = high at *
  generalize (below q 17).value = low at *
  have hpower : (2 : ℚ) ^ (Double.exponent q + 1) = 2 ^ 53 * 2 ^ (Double.exponent q - 52) := by
    rw [← zpow_natCast, ← zpow_add₀ two_ne_zero]
    congr 1
    push_cast
    ring
  have hpower' : (2 : ℚ) ^ Double.exponent q = 2 ^ 52 * 2 ^ (Double.exponent q - 52) := by
    rw [← zpow_natCast, ← zpow_add₀ two_ne_zero]
    congr 1
    push_cast
    ring
  have hu := Double.ulp_pos q
  obtain ⟨m, M, hm, hM⟩ := Double.multiples hq hround
  have hMm : M ≤ m := by
    have hle : (M : ℚ) * Double.ulp q ≤ m * Double.ulp q := by
      rw [← hM, ← hm]
      exact helow
    exact_mod_cast le_of_mul_le_mul_right hle hu
  have hmM : m + 1 ≤ 2 * M := by
    rw [zpow_add_one₀ two_ne_zero, hM] at hehigh
    have hlt : (m : ℚ) < 2 * M := by nlinarith only [hehigh, hm, hu]
    have hint : m < 2 * M := by exact_mod_cast hlt
    omega
  have hroom : q + Double.ulp q ≤ 2 ^ (Double.exponent q + 1) := by
    have hcast : ((m : ℚ) + 1) ≤ 2 * M := by exact_mod_cast hmM
    rw [zpow_add_one₀ two_ne_zero, hM]
    nlinarith only [hcast, hm, hu]
  have hhalf : spacing < Double.ulp q := by linarith
  by_cases hnear : high - q < Double.ulp q / 2
  · refine .inr (Double.round_of_near hq hround (by linarith) (by linarith) ?_)
    rw [abs_of_pos (by linarith)]
    exact hnear
  · have hbelow : q - low < Double.ulp q / 2 := by linarith
    rcases eq_or_lt_of_le hMm with heq | hlt
    · -- at a power of two the doubles below are closer, the digits are closer still
      have hqpow : q = 2 ^ Double.exponent q := by rw [hM, heq, ← hm]
      exact absurd (by linarith) hnear
    · refine .inl (Double.round_of_near hq hround ?_ (by linarith) ?_)
      · have hcast : ((M : ℚ) + 1) ≤ m := by exact_mod_cast hlt
        rw [hM]
        nlinarith only [hcast, hm, hu, hbelow]
      · rw [abs_sub_comm, abs_of_nonneg (by linarith)]
        exact hbelow

theorem findSome_range {β : Type*} {f : ℕ → Option β} {n : ℕ} {b : β}
    (h : (List.range n).findSome? f = some b) : ∃ k < n, f k = some b ∧ ∀ j < k, f j = none := by
  obtain ⟨before, k, after, hsplit, hk, hnone⟩ := List.findSome?_eq_some_iff.mp h
  have hget (j : ℕ) (hj : j < (before ++ k :: after).length) : (before ++ k :: after)[j] = j := by
    simp only [← hsplit, List.getElem_range]
  have hlen : before.length = k := by
    have hk := hget before.length (by simp)
    simpa using hk.symm
  refine ⟨k, ?_, hk, fun j hj => hnone j ?_⟩
  · have hlength := congrArg List.length hsplit
    simp at hlength
    omega
  · have hj' := hget j (by simp; omega)
    rw [List.getElem_append_left (by omega)] at hj'
    rw [← hj']
    exact List.getElem_mem _

-- The shortest digits are those of the first length that reads as the double.
theorem shortest_spec (hq : 0 < q) (hround : Double.round q = .fin q) :
    ∃ k < 17, ofLength q (k + 1) = some (shortest q) ∧ ∀ j < k, ofLength q (j + 1) = none := by
  have hsome : ((List.range 17).findSome? fun k => ofLength q (k + 1)) ≠ none := by
    intro hnone
    exact ofLength_ne_none (reads_seventeen hq hround)
      (List.findSome?_eq_none_iff.mp hnone 16 (by decide))
  obtain ⟨d, hd⟩ := Option.ne_none_iff_exists'.mp hsome
  have hshortest : shortest q = d := by
    rw [shortest, hd]
    rfl
  rw [hshortest]
  exact findSome_range hd

theorem reads_shortest (hq : 0 < q) (hround : Double.round q = .fin q) :
    Double.round (shortest q).value = .fin q := by
  obtain ⟨k, -, hk, -⟩ := shortest_spec hq hround
  exact (ofLength_eq_some hk).2

theorem exp_le_of_ofLength {k : ℕ} {d : Decimal} (h : ofLength q k = some d) :
    exponent q - k + 1 ≤ d.exp := by
  rcases (ofLength_eq_some h).1 with rfl | rfl
  · exact le_rfl
  · unfold above
    split_ifs
    · show _ ≤ exponent q - k + 1 + 1
      omega
    · exact le_rfl

-- The digits of an integer end before the point.
theorem exp_nonneg_of_integer {z : ℤ} (hz : 0 < z) (hround : Double.round z = .fin z) :
    0 ≤ (shortest (z : ℚ)).exp := by
  have hq : (0 : ℚ) < z := by exact_mod_cast hz
  obtain ⟨k, hk, hlength, hnone⟩ := shortest_spec hq hround
  have hexp := exp_le_of_ofLength hlength
  have hnonneg : 0 ≤ exponent (z : ℚ) := by
    by_contra hneg
    have hone : (z : ℚ) < 1 := (exponent_spec hq).2.trans_le (zpow_le_one_of_nonpos₀ (by norm_num) (by omega))
    have hint : z < 1 := by exact_mod_cast hone
    omega
  obtain ⟨e, he⟩ := Int.eq_ofNat_of_zero_le hnonneg
  by_cases hlate : k ≤ e
  · push_cast at hexp
    omega
  · -- all the digits of the number read as the number
    have hvalue : (below (z : ℚ) (e + 1)).value = z := by
      have hzero : exponent (z : ℚ) - ((e + 1 : ℕ) : ℤ) + 1 = 0 := by
        push_cast
        omega
      simp only [below, value, hzero, pow10_eq, zpow_zero, div_one, mul_one, Int.floor_intCast]
      exact_mod_cast Int.toNat_of_nonneg hz.le
    exact absurd (hnone e (by omega)) (ofLength_ne_none (.inl (by rw [hvalue]; exact hround)))

end Shortest

section Printing

-- All digits, none of them in an exponent.
def plain (d : Decimal) : List Char :=
  let ds := d.digits
  let point : ℤ := ds.length + d.exp
  if 0 ≤ d.exp then ds ++ List.replicate d.exp.toNat '0'
  else if 0 < point then ds.take point.toNat ++ '.' :: ds.drop point.toNat
  else '0' :: '.' :: List.replicate (-point).toNat '0' ++ ds

-- One digit before the point: the mantissa, and the exponent of ten.
def scientific (d : Decimal) : List Char × ℤ :=
  let ds := d.digits
  (if ds.length = 1 then ds else ds.take 1 ++ '.' :: ds.drop 1, ds.length + d.exp - 1)

-- Number::toString(10) of ECMA-262.
def ecmaString : Double → String
  | .nan => "NaN"
  | .inf false => "Infinity"
  | .inf true => "-Infinity"
  | .fin q =>
      if q = 0 then "0"
      else
        let sign := if q < 0 then ['-'] else []
        let d := shortest |q|
        let digits := d.digits
        let k : ℤ := digits.length
        let n : ℤ := k + d.exp
        let text :=
          if k ≤ n ∧ n ≤ 21 then digits ++ List.replicate (n - k).toNat '0'
          else if 0 < n ∧ n ≤ 21 then digits.take n.toNat ++ '.' :: digits.drop n.toNat
          else if -6 < n ∧ n ≤ 0 then '0' :: '.' :: List.replicate (-n).toNat '0' ++ digits
          else
            let mant := if digits.length = 1 then digits else digits.take 1 ++ '.' :: digits.drop 1
            mant ++ ['e', if n - 1 < 0 then '-' else '+'] ++ Nat.toDigits 10 (n - 1).natAbs
        String.ofList (sign ++ text)

-- The binary digits of a fraction, while there are any.
def fractionBits : Nat → ℚ → List Char
  | 0, _ => []
  | fuel + 1, frac =>
      if frac ≤ 0 then []
      else if 1 ≤ frac * 2 then '1' :: fractionBits fuel (frac * 2 - 1)
      else '0' :: fractionBits fuel (frac * 2)

-- Number.prototype.toString(2): a double has finitely many binary digits.
def radix2 : Double → String
  | .nan => "NaN"
  | .inf false => "Infinity"
  | .inf true => "-Infinity"
  | .fin q =>
      let sign := if q < 0 then ['-'] else []
      let whole := ⌊|q|⌋.toNat
      let frac := |q| - whole
      String.ofList (sign ++ Nat.toDigits 2 whole ++
        if frac = 0 then [] else '.' :: fractionBits 1075 frac)

end Printing

section Reading

def digitsValue (ds : List Char) : Nat :=
  ds.foldl (fun acc c => acc * 10 + (c.toNat - '0'.toNat)) 0

def sign : List Char → Bool × List Char
  | '-' :: s => (true, s)
  | '+' :: s => (false, s)
  | s => (false, s)

-- `e`, an optional sign and at least one digit; or nothing at all.
def exponentPart : List Char → Option ℤ
  | [] => some 0
  | c :: s =>
      if c = 'e' ∨ c = 'E' then
        let (negative, ds) := sign s
        if ds ≠ [] ∧ ds.all Char.isDigit then
          some (if negative then -(digitsValue ds : ℤ) else digitsValue ds)
        else none
      else none

-- Digits with at most one point among them, then the exponent part.
def parse (s : List Char) : Option (Bool × Decimal) :=
  let (negative, s) := sign s
  let whole := s.takeWhile Char.isDigit
  let s := s.dropWhile Char.isDigit
  let (fraction, s) := match s with
    | '.' :: s => (s.takeWhile Char.isDigit, s.dropWhile Char.isDigit)
    | s => ([], s)
  if whole = [] ∧ fraction = [] then none
  else
    match exponentPart s with
    | none => none
    | some e => some (negative, ⟨digitsValue (whole ++ fraction), e - fraction.length⟩)

-- The nearest double, an infinity where there is none.
def toBinary64 (negative : Bool) (d : Decimal) : Binary64 :=
  { Binary64.ofDouble (Double.round d.value) with negative := negative }

end Reading

end Decimal

end JsonScada.Library

-- The number texts of Go's strconv, for base ten and 64 bits.
namespace JsonScada.Library.Strconv

section Format

-- `FormatFloat(v, 'g', -1, 64)`, or with 'G' for another exponent mark.
def formatFloat (mark : Char) : Double → String
  | .nan => "NaN"
  | .inf false => "+Inf"
  | .inf true => "-Inf"
  | .fin x =>
      if x = 0 then "0"
      else
        let sign := if x < 0 then ['-'] else []
        let d := Decimal.shortest |x|
        let (mant, exp) := d.scientific
        if exp < -4 ∨ 6 ≤ exp then
          -- the exponent has two digits at least
          let digits := Nat.toDigits 10 exp.natAbs
          let digits := if digits.length = 1 then '0' :: digits else digits
          String.ofList (sign ++ mant ++ [mark, if exp < 0 then '-' else '+'] ++ digits)
        else String.ofList (sign ++ d.plain)

end Format

section Parse

-- `ParseUint(s, 10, 64)`
def parseUint (s : List Char) : Option Nat :=
  let n := Decimal.digitsValue s
  if s ≠ [] ∧ s.all Char.isDigit ∧ n < 2 ^ 64 then some n else none

def isHex (c : Char) : Bool := c.isDigit || ('a' ≤ c && c ≤ 'f')

def hexValue (ds : List Char) : Nat :=
  ds.foldl (fun n c => n * 16 + if c.isDigit then c.toNat - '0'.toNat else c.toNat - 'a'.toNat + 10) 0

-- The underscores of a number separate digits, or follow its base prefix.
def underscoreOk (s : List Char) : Bool :=
  let (_, s) := Decimal.sign (s.map Char.toLower)
  let (hex, saw, s) : Bool × Char × List Char :=
    match s with
    | '0' :: c :: rest =>
        if c = 'b' ∨ c = 'o' ∨ c = 'x' then (decide (c = 'x'), '0', rest) else (false, '^', s)
    | _ => (false, '^', s)
  let last := s.foldl (fun saw c =>
    match saw with
    | none => none
    | some saw =>
        if c.isDigit || (hex && isHex c) then some '0'
        else if c = '_' then if saw = '0' then some '_' else none
        else if saw = '_' then none
        else some '!') (some saw)
  match last with
  | some saw => saw ≠ '_'
  | none => false

def parseWord (s : List Char) : Option Double :=
  let (negative, t) := Decimal.sign s
  let t := String.ofList (t.map Char.toLower)
  if t = "inf" ∨ t = "infinity" then some (.inf negative)
  else if String.ofList (s.map Char.toLower) = "nan" then some .nan
  else none

-- Hexadecimal digits with at most one point, then a binary exponent, which is needed.
def parseHex (s : List Char) : Option ℚ :=
  let whole := s.takeWhile isHex
  let s := s.dropWhile isHex
  let (fraction, s) := match s with
    | '.' :: s => (s.takeWhile isHex, s.dropWhile isHex)
    | s => ([], s)
  match s with
  | 'p' :: s =>
      let (negative, ds) := Decimal.sign s
      if (whole ≠ [] ∨ fraction ≠ []) ∧ ds ≠ [] ∧ ds.all Char.isDigit then
        let e : ℤ := if negative then -(Decimal.digitsValue ds : ℤ) else Decimal.digitsValue ds
        some (hexValue (whole ++ fraction) * Double.pow2 (e - 4 * fraction.length))
      else none
  | _ => none

def parseNumber (s : List Char) : Option ℚ :=
  let (negative, t) := Decimal.sign s
  match t.map Char.toLower with
  | '0' :: 'x' :: ds => (parseHex ds).map fun q => if negative then -q else q
  | _ => (Decimal.parse s).map fun (negative, d) => if negative then -d.value else d.value

-- `ParseFloat(s, 64)`, none where it returns an error: bad syntax, or out of range.
def parseFloat (s : List Char) : Option Double :=
  match parseWord s with
  | some x => some x
  | none =>
      let s' := s.filter (· ≠ '_')
      if s' = s ∨ underscoreOk s then
        match (parseNumber s').map Double.round with
        | some (.fin q) => some (.fin q)
        | _ => none
      else none

end Parse

end JsonScada.Library.Strconv
