import JsonScada.Modbus.ByteOrder
import JsonScada.Modbus.Codec

namespace JsonScada.Modbus

open JsonScada.Library

section Integers

theorem uint_lt (c : Bytes) : uint c < 256 ^ c.length := by
  have h := Positional.value_lt (b := 256) (c.map UInt8.toNat) (by
    intro d hd
    obtain ⟨b, _, rfl⟩ := List.mem_map.mp hd
    exact b.toNat_lt)
  simpa [uint] using h

@[simp] theorem put_length (width : Nat) (x : ℤ) : (put width x).length = width := by
  simp [put]

theorem put_congr {width : Nat} {x y : ℤ} (h : x % 256 ^ width = y % 256 ^ width) :
    put width x = put width y := by
  simp [put, h]

theorem put_uint (c : Bytes) : put c.length (uint c) = c := by
  have hlt := uint_lt c
  have hmod : ((uint c : ℤ) % 256 ^ c.length).toNat = uint c := by
    have : (uint c : ℤ) % 256 ^ c.length = uint c :=
      Int.emod_eq_of_lt (by omega) (by exact_mod_cast hlt)
    rw [this, Int.toNat_natCast]
  have hdigits := Positional.digits_value (b := 256) (c.map UInt8.toNat) (by
    intro d hd
    obtain ⟨b, _, rfl⟩ := List.mem_map.mp hd
    exact b.toNat_lt)
  rw [List.length_map] at hdigits
  rw [put, hmod, uint, hdigits, List.map_map]
  simp [Function.comp_def]

theorem uint_put (width : Nat) (x : ℤ) : (uint (put width x) : ℤ) = x % 256 ^ width := by
  have hpos : (0 : ℤ) < 256 ^ width := by positivity
  have hmap : ((Positional.digits 256 width (x % 256 ^ width).toNat).map UInt8.ofNat).map
      UInt8.toNat = Positional.digits 256 width (x % 256 ^ width).toNat := by
    rw [List.map_map]
    apply List.map_congr_left (g := id) _ |>.trans (List.map_id _)
    intro d hd
    have := Positional.digits_lt (b := 256) (by norm_num) _ _ d hd
    simp only [Function.comp_apply, UInt8.toNat_ofNat', id]
    omega
  have hnonneg := Int.emod_nonneg x hpos.ne'
  have hlt := Int.emod_lt_of_pos x hpos
  rw [uint, put, hmap, Positional.value_digits, Nat.mod_eq_of_lt (by zify; omega)]
  omega

-- Signed and unsigned readings differ by the modulus only.
theorem signed_emod (bits n : Nat) : signed bits n % 2 ^ bits = (n : ℤ) % 2 ^ bits := by
  unfold signed
  split_ifs
  · rfl
  · rw [Int.sub_emod, Int.emod_self]
    simp

end Integers

section Rounding

@[simp] theorem jsRound_intCast (z : ℤ) : jsRound (.fin z) = .fin z := by
  have hround : Double.round 0 = .fin 0 := by simp [Double.round]
  simp only [jsRound, Double.floor, Int.floor_intCast, Double.sub, Double.neg, Double.add,
    add_neg_cancel, hround]
  rw [if_neg]
  decide +kernel

theorem clampInt_exact {v : Value} {n min max : ℤ} (hv : v.float.toDouble = .fin n)
    (hmin : min ≤ n) (hmax : n ≤ max) : clampInt v min max = .ok (.fin n) := by
  have h1 : Double.lt (.fin n) (.fin min) = false := by
    simpa [Double.lt] using hmin
  have h2 : Double.lt (.fin max) (.fin n) = false := by
    simpa [Double.lt] using hmax
  simp [clampInt, hv, h1, h2, Double.isNaN]

@[simp] theorem toInt_intCast (z : ℤ) : Double.toInt (.fin z) = z := by
  simp [Double.toInt]

theorem clampInt_ofInt {n min max : ℤ} (hn : |n| < 2 ^ 53) (hmin : min ≤ n) (hmax : n ≤ max) :
    clampInt (.num (.ofInt n)) min max = .ok (.fin n) :=
  clampInt_exact (Binary64.toDouble_ofInt hn) hmin hmax

end Rounding

section Bcd

-- A byte of two decimal digits.
def IsBcd (b : UInt8) : Prop := b.toNat / 16 ≤ 9 ∧ b.toNat % 16 ≤ 9

def bcdValue (c : Bytes) : Nat :=
  Positional.value 100 (c.map fun b => b.toNat / 16 * 10 + b.toNat % 16)

private theorem bcd_digit_lt {c : Bytes} (hc : ∀ b ∈ c, IsBcd b) :
    ∀ d ∈ c.map fun b => b.toNat / 16 * 10 + b.toNat % 16, d < 100 := by
  intro d hd
  obtain ⟨b, hb, rfl⟩ := List.mem_map.mp hd
  have := hc b hb
  simp only [IsBcd] at this
  omega

theorem bcdValue_lt {c : Bytes} (hc : ∀ b ∈ c, IsBcd b) : bcdValue c < 100 ^ c.length := by
  have := Positional.value_lt (b := 100) _ (bcd_digit_lt hc)
  simpa [bcdValue] using this

theorem bcdValue_append_singleton (c : Bytes) (b : UInt8) :
    bcdValue (c ++ [b]) = bcdValue c * 100 + (b.toNat / 16 * 10 + b.toNat % 16) := by
  simp [bcdValue, Positional.value_append_singleton]

-- Every double on the way is an integer in the exact range.
private theorem decodeBcdFrom_append (c : Bytes) (b : UInt8) (x : Double) :
    decodeBcdFrom x (c ++ [b]) = (decodeBcdFrom x c).bind fun r => decodeBcdFrom r [b] := by
  induction c generalizing x with
  | nil => simp [decodeBcdFrom]
  | cons a rest ih =>
      rw [List.cons_append, decodeBcdFrom, decodeBcdFrom]
      split_ifs
      · rfl
      · exact ih _

theorem decodeBcdFrom_exact {c : Bytes} (hc : ∀ b ∈ c, IsBcd b) (hlen : c.length ≤ 7) :
    decodeBcdFrom (.fin 0) c = some (.fin (bcdValue c)) := by
  induction c using List.reverseRecOn with
  | nil => simp [decodeBcdFrom, bcdValue, Positional.value]
  | append_singleton c b ih =>
      rw [List.length_append, List.length_singleton] at hlen
      have hc' : ∀ a ∈ c, IsBcd a := fun a ha => hc a (by simp [ha])
      have hb := hc b (by simp)
      simp only [IsBcd] at hb
      have hlt : bcdValue c < 10 ^ 12 := by
        refine (bcdValue_lt hc').trans_le ?_
        calc 100 ^ c.length ≤ 100 ^ 6 := Nat.pow_le_pow_right (by norm_num) (by omega)
          _ = 10 ^ 12 := by norm_num
      have exact (m : ℕ) (hm : m < 2 ^ 53) : Double.round (m : ℚ) = .fin m := by
        exact_mod_cast Double.round_intCast (z := m) (by rw [abs_of_nonneg (by positivity)]; omega)
      rw [decodeBcdFrom_append, ih hc' (by omega), Option.bind_some, decodeBcdFrom,
        if_neg (by omega), bcdValue_append_singleton]
      generalize b.toNat / 16 = hi at hb ⊢
      generalize b.toNat % 16 = lo at hb ⊢
      have h1 := exact (bcdValue c * 100) (by omega)
      have h2 := exact (hi * 10) (by omega)
      have h3 := exact (bcdValue c * 100 + hi * 10) (by omega)
      have h4 := exact (bcdValue c * 100 + hi * 10 + lo) (by omega)
      push_cast at h1 h2 h3 h4
      simp only [Double.mul, Double.add, h1, h2, h3, h4, decodeBcdFrom]
      push_cast
      ring_nf

-- The last digit of an integer, and what is left of it.
private theorem mod10_digit {d r : Nat} (hr : r < 10) :
    mod10 (.fin ((10 * d + r : ℕ) : ℚ)) = .fin r := by
  have hfloor : ⌊((10 * d + r : ℕ) : ℚ) / 10⌋ = (d : ℤ) := by
    have : (r : ℚ) < 10 := by exact_mod_cast hr
    rw [Int.floor_eq_iff]
    push_cast
    constructor
    · rw [le_div_iff₀ (by norm_num)]
      linarith [(Nat.cast_nonneg r : (0 : ℚ) ≤ r)]
    · rw [div_lt_iff₀ (by norm_num)]
      linarith
  simp only [mod10, hfloor]
  congr 1
  push_cast
  ring

-- The rounding error of a tenth is too small to reach another integer.
private theorem floorDiv10_digit {d r : Nat} (hr : r < 10) (hn : 10 * d + r < 2 ^ 27) :
    floorDiv10 (.fin ((10 * d + r : ℕ) : ℚ)) = .fin d := by
  have hsplit : ((10 * d + r : ℕ) : ℚ) / 10 = d + (r : ℚ) / 10 := by
    push_cast
    ring
  by_cases hzero : r = 0
  · have hround : Double.round (d : ℚ) = .fin d := by
      exact_mod_cast Double.round_intCast (z := d) (by rw [abs_of_nonneg (by positivity)]; omega)
    have hwhole : ((10 * d + r : ℕ) : ℚ) / 10 = d := by
      rw [hsplit, hzero]
      simp
    simp only [floorDiv10, hwhole, hround, Double.floor, Int.floor_natCast]
    norm_cast
  · have hlo : (0 : ℚ) ≤ ((10 * d + r : ℕ) : ℚ) / 10 := by positivity
    have hhi : ((10 * d + r : ℕ) : ℚ) / 10 < 2 ^ 27 := by
      have : ((10 * d + r : ℕ) : ℚ) < 2 ^ 27 := by exact_mod_cast hn
      linarith
    obtain ⟨x, hx, herr⟩ := Double.round_error hlo hhi
    have hr1 : (1 : ℚ) ≤ r := by exact_mod_cast Nat.one_le_iff_ne_zero.mpr hzero
    have hr9 : (r : ℚ) ≤ 9 := by exact_mod_cast (by omega : r ≤ 9)
    rw [hsplit] at herr
    have hb := abs_le.mp herr
    have hfloor : ⌊x⌋ = (d : ℤ) := by
      rw [Int.floor_eq_iff]
      push_cast
      constructor <;> linarith
    simp only [floorDiv10, hx, Double.floor, hfloor]
    norm_cast

-- Whatever number is encoded, the digits are decimal ones.
private theorem mod10_toInt {v : Double} (hv : ∀ q, v = .fin q → 0 ≤ q) :
    (mod10 v).toInt.toNat ≤ 9 := by
  cases v with
  | nan => simp [mod10, Double.toInt]
  | inf s => simp [mod10, Double.toInt]
  | fin q =>
      have h1 := Int.floor_le (q / 10)
      have h2 := Int.lt_floor_add_one (q / 10)
      have hlo : 0 ≤ q - 10 * ⌊q / 10⌋ := by linarith
      have hhi : q - 10 * ⌊q / 10⌋ < 10 := by linarith
      have : ⌊q - 10 * ⌊q / 10⌋⌋ < 10 := by
        rw [Int.floor_lt]
        exact_mod_cast hhi
      simp only [mod10, Double.toInt, if_pos hlo]
      omega

private theorem floorDiv10_nonneg {v : Double} (hv : ∀ q, v = .fin q → 0 ≤ q) :
    ∀ q, floorDiv10 v = .fin q → 0 ≤ q := by
  intro q h
  cases v with
  | nan => cases h
  | inf s => cases h
  | fin p =>
      have hp := hv p rfl
      simp only [floorDiv10] at h
      cases hr : Double.round (p / 10) with
      | nan => rw [hr] at h; cases h
      | inf s => rw [hr] at h; cases h
      | fin r =>
          rw [hr] at h
          obtain rfl := Double.fin.inj h
          have := Double.round_nonneg (by positivity) hr
          exact_mod_cast Int.floor_nonneg.mpr this

theorem encodeBcdDigits_isBcd {n : Nat} {v : Double} (hv : ∀ q, v = .fin q → 0 ≤ q) :
    ∀ b ∈ encodeBcdDigits n v, IsBcd b := by
  induction n generalizing v with
  | zero => simp [encodeBcdDigits]
  | succ n ih =>
      intro b hb
      rw [encodeBcdDigits] at hb
      split_ifs at hb
      · have h1 := floorDiv10_nonneg hv
        rcases List.mem_append.mp hb with hb | hb
        · exact ih (floorDiv10_nonneg h1) b hb
        · obtain rfl := List.mem_singleton.mp hb
          have hlo := mod10_toInt hv
          have hhi := mod10_toInt h1
          simp only [IsBcd, UInt8.toNat_ofNat']
          omega
      -- a number without digits leaves the byte zero
      · rcases List.mem_append.mp hb with hb | hb
        · exact ih hv b hb
        · obtain rfl := List.mem_singleton.mp hb
          simp [IsBcd]

@[simp] theorem encodeBcdDigits_length (n : Nat) (v : Double) :
    (encodeBcdDigits n v).length = n := by
  induction n generalizing v with
  | zero => rfl
  | succ n ih =>
      rw [encodeBcdDigits]
      split_ifs <;> simp [ih]

-- The digits of an integer, down from the last one.
theorem encodeBcdDigits_natCast {k n : Nat} (hn : n < 2 ^ 27) :
    (encodeBcdDigits k (.fin n)).map (fun b => b.toNat / 16 * 10 + b.toNat % 16) =
      Positional.digits 100 k n := by
  induction k generalizing n with
  | zero => rfl
  | succ k ih =>
      have hn1 : n = 10 * (n / 10) + n % 10 := (Nat.div_add_mod n 10).symm
      have hn2 : n / 10 = 10 * (n / 100) + n / 10 % 10 := by omega
      have hlo : mod10 (.fin (n : ℚ)) = .fin ((n % 10 : ℕ) : ℚ) := by
        conv_lhs => rw [hn1]
        exact mod10_digit (by omega)
      have hrest : floorDiv10 (.fin (n : ℚ)) = .fin ((n / 10 : ℕ) : ℚ) := by
        conv_lhs => rw [hn1]
        exact floorDiv10_digit (by omega) (by omega)
      have hhi : mod10 (.fin ((n / 10 : ℕ) : ℚ)) = .fin ((n / 10 % 10 : ℕ) : ℚ) := by
        conv_lhs => rw [hn2]
        exact mod10_digit (by omega)
      have hrest2 : floorDiv10 (.fin ((n / 10 : ℕ) : ℚ)) = .fin ((n / 100 : ℕ) : ℚ) := by
        conv_lhs => rw [hn2]
        exact floorDiv10_digit (by omega) (by omega)
      have hint (m : ℕ) : Double.toInt (.fin (m : ℚ)) = m := by exact_mod_cast toInt_intCast m
      have hbyte : (n / 10 % 10 * 16 + n % 10) % 256 / 16 * 10 +
          (n / 10 % 10 * 16 + n % 10) % 256 % 16 = n % 100 := by omega
      simp only [encodeBcdDigits, Double.isFinite, if_true, hrest, hrest2, hlo, hhi,
        List.map_append, ih (show n / 100 < 2 ^ 27 by omega), Positional.digits, hint,
        Int.toNat_natCast, List.map_cons, List.map_nil, UInt8.toNat_ofNat']
      rw [← hbyte]

theorem encodeBcd_natCast (k n : Nat) :
    encodeBcd (.fin n) k = encodeBcdDigits k (.fin n) := by
  have hround : jsRound (.fin (n : ℚ)) = .fin n := by exact_mod_cast jsRound_intCast n
  have hlt : Double.lt (.fin (n : ℚ)) (.fin 0) = false := by simp [Double.lt]
  simp [encodeBcd, hround, hlt]

theorem encodeBcd_isBcd (k : Nat) (x : Double) : ∀ b ∈ encodeBcd x k, IsBcd b := by
  unfold encodeBcd
  apply encodeBcdDigits_isBcd
  intro q hq
  split_ifs at hq with h
  · obtain rfl := Double.fin.inj hq
    exact le_refl _
  · rw [hq] at h
    simpa [Double.lt] using h

@[simp] theorem encodeBcd_length (k : Nat) (x : Double) : (encodeBcd x k).length = k := by
  simp [encodeBcd]

-- Two decimal bytes of one value are the same byte.
private theorem isBcd_ext {c d : Bytes} (hc : ∀ b ∈ c, IsBcd b) (hd : ∀ b ∈ d, IsBcd b)
    (h : c.map (fun b => b.toNat / 16 * 10 + b.toNat % 16) =
      d.map (fun b => b.toNat / 16 * 10 + b.toNat % 16)) : c = d := by
  induction c generalizing d with
  | nil =>
      cases d with
      | nil => rfl
      | cons b d => simp at h
  | cons a c ih =>
      cases d with
      | nil => simp at h
      | cons b d =>
          simp only [List.map_cons, List.cons.injEq] at h
          have ha := hc a (by simp)
          have hb := hd b (by simp)
          simp only [IsBcd] at ha hb
          have hab : a = b := by
            apply UInt8.toNat_inj.mp
            omega
          rw [hab, ih (fun b hb => hc b (by simp [hb])) (fun b hb => hd b (by simp [hb])) h.2]

-- Decimal bytes are the encoding of their own value.
theorem encodeBcd_bcdValue {c : Bytes} (hc : ∀ b ∈ c, IsBcd b) (hlen : c.length ≤ 4) :
    encodeBcd (.fin (bcdValue c)) c.length = c := by
  have hlt : bcdValue c < 2 ^ 27 := by
    refine (bcdValue_lt hc).trans_le ?_
    calc 100 ^ c.length ≤ 100 ^ 4 := Nat.pow_le_pow_right (by norm_num) hlen
      _ ≤ 2 ^ 27 := by norm_num
  apply isBcd_ext (encodeBcd_isBcd _ _) hc
  rw [encodeBcd_natCast, encodeBcdDigits_natCast hlt, bcdValue]
  have := Positional.digits_value (b := 100) _ (bcd_digit_lt hc)
  rwa [List.length_map] at this

theorem bcdValue_encodeBcd {k n : Nat} (hn : n < 100 ^ k) (hk : k ≤ 4) :
    bcdValue (encodeBcd (.fin n) k) = n := by
  have hlt : n < 2 ^ 27 := by
    refine hn.trans_le ?_
    calc 100 ^ k ≤ 100 ^ 4 := Nat.pow_le_pow_right (by norm_num) hk
      _ ≤ 2 ^ 27 := by norm_num
  rw [bcdValue, encodeBcd_natCast, encodeBcdDigits_natCast hlt, Positional.value_digits,
    Nat.mod_eq_of_lt hn]

theorem decodeBcd_exact {c : Bytes} (hc : ∀ b ∈ c, IsBcd b) (hlen : c.length ≤ 4) :
    decodeBcd c c.length = { value := .num (.ofDouble (.fin (bcdValue c))) } := by
  simp [decodeBcd, decodeBcdFrom_exact hc (by omega)]

theorem bcdValue_toDouble {c : Bytes} (hc : ∀ b ∈ c, IsBcd b) (hlen : c.length ≤ 4) :
    (Binary64.ofDouble (.fin (bcdValue c))).toDouble = .fin (bcdValue c) := by
  have hlt : bcdValue c < 2 ^ 53 := by
    refine (bcdValue_lt hc).trans_le ?_
    calc 100 ^ c.length ≤ 100 ^ 4 := Nat.pow_le_pow_right (by norm_num) hlen
      _ ≤ 2 ^ 53 := by norm_num
  have hz : |(bcdValue c : ℤ)| < 2 ^ 53 := by
    rw [abs_of_nonneg (by positivity)]
    exact_mod_cast hlt
  have h := Binary64.toDouble_ofInt hz
  rw [Binary64.ofInt, Double.round_intCast hz] at h
  exact_mod_cast h

end Bcd

section Registers

-- A list of a given length is not cut by taking that many.
theorem uint_take {c : Bytes} {n : Nat} (h : c.length = n) : uint (c.take n) = uint c := by
  rw [List.take_of_length_le h.le]

private theorem put_signed {c : Bytes} {width : Nat} (h : c.length = width) :
    put width (signed (8 * width) (uint c)) = c := by
  have hcongr : put width (signed (8 * width) (uint c)) = put width (uint c) := by
    apply put_congr
    have h256 : (256 : ℤ) ^ width = 2 ^ (8 * width) := by
      rw [pow_mul]
      norm_num
    rw [h256]
    exact signed_emod _ _
  rw [hcongr, ← h, put_uint]

private theorem signed_range (bits : Nat) {n : Nat} (hn : n < 256 ^ (bits / 8)) :
    signed bits n = n ∧ n < 2 ^ (bits - 1) ∨
      signed bits n = n - 2 ^ bits ∧ 2 ^ (bits - 1) ≤ n ∧ n < 256 ^ (bits / 8) := by
  unfold signed
  split_ifs with h
  · exact .inl ⟨rfl, h⟩
  · exact .inr ⟨rfl, by omega, hn⟩

-- A number in range passes the check and its bytes are written.
private theorem clampInt_put {z min max : ℤ} {width : Nat} {c : Bytes}
    (hsmall : -2 ^ 53 < min ∧ max < 2 ^ 53) (hmin : min ≤ z) (hmax : z ≤ max)
    (hput : put width z = c) :
    (clampInt (.num (.ofInt z)) min max).map (fun n => put width n.toInt) = .ok c := by
  rw [clampInt_ofInt (abs_lt.mpr ⟨by omega, by omega⟩) hmin hmax]
  simp only [Except.map, toInt_intCast]
  rw [hput]

private theorem uint_lt_of_length {c : Bytes} {n : Nat} (h : c.length = n) : uint c < 256 ^ n := by
  rw [← h]
  exact uint_lt c

-- Whatever bytes stand in the registers of an integer or float type, encoding
-- their own value gives them back; of a float type, unless they are a signalling
-- NaN, and of a BCD type, if they are decimal digits.
def Canonical (t : ValueType) (c : Bytes) : Prop :=
  typeBytes t = some c.length ∧
    (t = .float32 → (Binary32.ofBits (UInt32.ofNat (uint c))).Quiet) ∧
    (t = .bcd16 ∨ t = .bcd32 → ∀ b ∈ c, IsBcd b)

theorem encodeCanonical_decodeCanonical {t : ValueType} {c : Bytes} (hc : Canonical t c) :
    ∃ r, decodeCanonical t c = .ok r ∧ encodeCanonical t r.value = .ok c := by
  obtain ⟨hlen, hquiet, hbcd⟩ := hc
  cases t with
  | bool => cases hlen
  | string => cases hlen
  | other name => cases hlen
  | uint16 =>
      have h2 : c.length = 2 := (Option.some.inj hlen).symm
      have hlt := uint_lt_of_length h2
      refine ⟨_, by simp only [decodeCanonical, h2]; rfl, ?_⟩
      rw [uint_take h2]
      exact clampInt_put (by norm_num) (by omega) (by omega) (h2 ▸ put_uint c)
  | bitstring16 =>
      have h2 : c.length = 2 := (Option.some.inj hlen).symm
      have hlt := uint_lt_of_length h2
      refine ⟨_, by simp only [decodeCanonical, h2]; rfl, ?_⟩
      simp only
      rw [uint_take h2]
      exact clampInt_put (by norm_num) (by omega) (by omega) (h2 ▸ put_uint c)
  | int16 =>
      have h2 : c.length = 2 := (Option.some.inj hlen).symm
      have hlt := uint_lt_of_length h2
      have hrange := signed_range 16 hlt
      refine ⟨_, by simp only [decodeCanonical, h2]; rfl, ?_⟩
      rw [uint_take h2]
      exact clampInt_put (by norm_num) (by omega) (by omega) (put_signed h2)
  | uint32 =>
      have h4 : c.length = 4 := (Option.some.inj hlen).symm
      have hlt := uint_lt_of_length h4
      refine ⟨_, by simp only [decodeCanonical, h4]; rfl, ?_⟩
      rw [uint_take h4]
      exact clampInt_put (by norm_num) (by omega) (by omega) (h4 ▸ put_uint c)
  | int32 =>
      have h4 : c.length = 4 := (Option.some.inj hlen).symm
      have hlt := uint_lt_of_length h4
      have hrange := signed_range 32 hlt
      refine ⟨_, by simp only [decodeCanonical, h4]; rfl, ?_⟩
      rw [uint_take h4]
      exact clampInt_put (by norm_num) (by omega) (by omega) (put_signed h4)
  | uint64 =>
      have h8 : c.length = 8 := (Option.some.inj hlen).symm
      have hlt := uint_lt_of_length h8
      refine ⟨_, by simp only [decodeCanonical, h8]; rfl, ?_⟩
      rw [uint_take h8]
      have hback : (UInt64.ofNat (uint c)).toNat = uint c := Nat.mod_eq_of_lt hlt
      simp only [encodeCanonical, toWrapped64, Except.map, hback]
      rw [← h8, put_uint]
  | int64 =>
      have h8 : c.length = 8 := (Option.some.inj hlen).symm
      have hlt := uint_lt_of_length h8
      refine ⟨_, by simp only [decodeCanonical, h8]; rfl, ?_⟩
      rw [uint_take h8]
      have hback : (UInt64.ofNat (uint c)).toNat = uint c := Nat.mod_eq_of_lt hlt
      simp only [encodeCanonical, toWrapped64, Except.map, UInt64.toUInt64_toInt64, hback]
      rw [← h8, put_uint]
  | float32 =>
      have h4 : c.length = 4 := (Option.some.inj hlen).symm
      have hlt := uint_lt_of_length h4
      refine ⟨_, by simp only [decodeCanonical, h4]; rfl, ?_⟩
      rw [uint_take h4]
      have hback : (UInt32.ofNat (uint c)).toNat = uint c := Nat.mod_eq_of_lt hlt
      simp only [encodeCanonical, Value.float, Binary32.narrow_widen (hquiet rfl),
        Binary32.bits_ofBits, hback]
      rw [← h4, put_uint]
  | float64 =>
      have h8 : c.length = 8 := (Option.some.inj hlen).symm
      have hlt := uint_lt_of_length h8
      refine ⟨_, by simp only [decodeCanonical, h8]; rfl, ?_⟩
      rw [uint_take h8]
      have hback : (UInt64.ofNat (uint c)).toNat = uint c := Nat.mod_eq_of_lt hlt
      simp only [encodeCanonical, Value.float, Binary64.bits_ofBits, hback]
      rw [← h8, put_uint]
  | bcd16 =>
      have h2 : c.length = 2 := (Option.some.inj hlen).symm
      refine ⟨_, by simp only [decodeCanonical, h2]; rfl, ?_⟩
      have hdec := decodeBcd_exact (hbcd (.inl rfl)) (by omega)
      rw [h2] at hdec
      rw [hdec]
      have henc := encodeBcd_bcdValue (hbcd (.inl rfl)) (by omega)
      rw [h2] at henc
      simp only [encodeCanonical, Value.float, bcdValue_toDouble (hbcd (.inl rfl)) (by omega), henc]
  | bcd32 =>
      have h4 : c.length = 4 := (Option.some.inj hlen).symm
      refine ⟨_, by simp only [decodeCanonical, h4]; rfl, ?_⟩
      have hdec := decodeBcd_exact (hbcd (.inr rfl)) (by omega)
      rw [h4] at hdec
      rw [hdec]
      have henc := encodeBcd_bcdValue (hbcd (.inr rfl)) (by omega)
      rw [h4] at henc
      simp only [encodeCanonical, Value.float, bcdValue_toDouble (hbcd (.inr rfl)) (by omega), henc]

-- What encoding returns is in that form.
theorem canonical_of_encodeCanonical {t : ValueType} {v : Value} {c : Bytes}
    (h : encodeCanonical t v = .ok c) : Canonical t c := by
  have hnumber {e : Except CodecError Double} {width : Nat}
      (h : e.map (fun n => put width n.toInt) = .ok c) : c.length = width := by
    cases e with
    | error e => cases h
    | ok n =>
        obtain rfl := Except.ok.inj h
        exact put_length _ _
  cases t with
  | bool => cases h
  | string => cases h
  | other name => cases h
  | uint16 => exact ⟨congrArg some (hnumber h).symm, by simp, by simp⟩
  | bitstring16 => exact ⟨congrArg some (hnumber h).symm, by simp, by simp⟩
  | int16 => exact ⟨congrArg some (hnumber h).symm, by simp, by simp⟩
  | uint32 => exact ⟨congrArg some (hnumber h).symm, by simp, by simp⟩
  | int32 => exact ⟨congrArg some (hnumber h).symm, by simp, by simp⟩
  | uint64 =>
      simp only [encodeCanonical] at h
      cases hw : toWrapped64 v with
      | error e => rw [hw] at h; cases h
      | ok x =>
          rw [hw] at h
          obtain rfl := Except.ok.inj h
          exact ⟨congrArg some (put_length _ _).symm, by simp, by simp⟩
  | int64 =>
      simp only [encodeCanonical] at h
      cases hw : toWrapped64 v with
      | error e => rw [hw] at h; cases h
      | ok x =>
          rw [hw] at h
          obtain rfl := Except.ok.inj h
          exact ⟨congrArg some (put_length _ _).symm, by simp, by simp⟩
  | float32 =>
      obtain rfl := Except.ok.inj h
      refine ⟨congrArg some (put_length _ _).symm, ?_, by simp⟩
      intro _
      have hlt := (Binary32.narrow v.float).bits.toNat_lt
      have hback := uint_put 4 (Binary32.narrow v.float).bits.toNat
      rw [Int.emod_eq_of_lt (by positivity) (by omega)] at hback
      rw [Nat.cast_inj.mp hback, UInt32.ofNat_toNat, Binary32.ofBits_bits]
      exact Binary32.narrow_quiet _
  | float64 =>
      obtain rfl := Except.ok.inj h
      exact ⟨congrArg some (put_length _ _).symm, by simp, by simp⟩
  | bcd16 =>
      obtain rfl := Except.ok.inj h
      exact ⟨congrArg some (encodeBcd_length _ _).symm, by simp, fun _ => encodeBcd_isBcd _ _⟩
  | bcd32 =>
      obtain rfl := Except.ok.inj h
      exact ⟨congrArg some (encodeBcd_length _ _).symm, by simp, fun _ => encodeBcd_isBcd _ _⟩

-- The exact number that a value stands for.
def Value.exact : Value → Option ℚ
  | .num f =>
      match f.toDouble with
      | .fin q => some q
      | _ => none
  | .int64 i => some i.toInt
  | .uint64 u => some u.toNat
  | .bool b => some (if b then 1 else 0)
  | .str _ => none

-- The integers an integer or BCD type can hold.
def ValueType.range : ValueType → Option (ℤ × ℤ)
  | .uint16 | .bitstring16 => some (0, 0xffff)
  | .int16 => some (-0x8000, 0x7fff)
  | .uint32 => some (0, 0xffffffff)
  | .int32 => some (-0x80000000, 0x7fffffff)
  | .uint64 => some (0, 0xffffffffffffffff)
  | .int64 => some (-0x8000000000000000, 0x7fffffffffffffff)
  | .bcd16 => some (0, 9999)
  | .bcd32 => some (0, 99999999)
  | _ => none

theorem exact_num {f : Binary64} {q : ℚ} (h : (Value.num f).exact = some q) :
    f.toDouble = .fin q := by
  simp only [Value.exact] at h
  split at h
  · rename_i p hp
    rw [hp, Option.some.inj h]
  · cases h

theorem float_of_exact {v : Value} {n : ℤ} (hv : v.exact = some (n : ℚ)) (hn : |n| < 2 ^ 53) :
    v.float.toDouble = .fin n := by
  cases v with
  | num f => exact exact_num hv
  | int64 i =>
      have h : i.toInt = n := by exact_mod_cast Option.some.inj hv
      rw [Value.float, h, Binary64.toDouble_ofInt hn]
  | uint64 u =>
      have h : (u.toNat : ℤ) = n := by exact_mod_cast Option.some.inj hv
      rw [Value.float, h, Binary64.toDouble_ofInt hn]
  | bool b =>
      have h : (if b then 1 else 0 : ℤ) = n := by
        have := Option.some.inj hv
        cases b <;> exact_mod_cast this
      rw [Value.float, h, Binary64.toDouble_ofInt hn]
  | str s => cases hv

theorem toWrapped64_exact {v : Value} {n : ℤ} (hv : v.exact = some (n : ℚ)) :
    toWrapped64 v = .ok (UInt64.ofNat (n % 2 ^ 64).toNat) := by
  cases v with
  | num f =>
      simp only [toWrapped64, Value.float, exact_num hv, jsRound_intCast, toInt_intCast]
      rfl
  | int64 i =>
      obtain rfl : i.toInt = n := by exact_mod_cast Option.some.inj hv
      simp only [toWrapped64]
      congr 1
      apply UInt64.toNat_inj.mp
      have hsplit : i.toInt = i.toUInt64.toNat ∨ i.toInt = i.toUInt64.toNat - 2 ^ 64 := by
        have h := BitVec.toInt_eq_toNat_cond i.toBitVec
        split_ifs at h
        · exact .inl h
        · exact .inr (by exact_mod_cast h)
      have := i.toUInt64.toNat_lt
      rw [UInt64.toNat_ofNat']
      omega
  | uint64 u =>
      obtain rfl : (u.toNat : ℤ) = n := by exact_mod_cast Option.some.inj hv
      simp only [toWrapped64]
      congr 1
      apply UInt64.toNat_inj.mp
      have := u.toNat_lt
      rw [UInt64.toNat_ofNat']
      omega
  | bool b =>
      have h : (if b then 1 else 0 : ℤ) = n := by
        have := Option.some.inj hv
        cases b <;> exact_mod_cast this
      subst h
      cases b <;> rfl
  | str s => cases hv

-- The exact value of a number that was read.
private theorem exact_ofInt {n : ℤ} (hn : |n| < 2 ^ 53) :
    (Value.num (.ofInt n)).exact = some (n : ℚ) := by
  simp [Value.exact, Binary64.toDouble_ofInt hn]

private theorem uint_put_nonneg {n : ℤ} {w : Nat} (h0 : 0 ≤ n) (hn : n < 256 ^ w) :
    (uint (put w n) : ℤ) = n := by
  rw [uint_put, Int.emod_eq_of_lt h0 hn]

private theorem signed_put {n : ℤ} {w : Nat} (hw : 0 < w)
    (h0 : -(2 : ℤ) ^ (8 * w - 1) ≤ n) (hn : n < (2 : ℤ) ^ (8 * w - 1)) :
    signed (8 * w) (uint (put w n)) = n := by
  have h256 : (256 : ℤ) ^ w = 2 ^ (8 * w) := by
    rw [pow_mul]
    norm_num
  have hdouble : (2 : ℤ) ^ (8 * w) = 2 * 2 ^ (8 * w - 1) := by
    rw [← pow_succ']
    congr 1
    omega
  have hput := uint_put w n
  rw [h256] at hput
  have hcast : ((2 ^ (8 * w - 1) : ℕ) : ℤ) = 2 ^ (8 * w - 1) := by push_cast; rfl
  unfold signed
  by_cases hneg : n < 0
  · have hmod : n % 2 ^ (8 * w) = n + 2 ^ (8 * w) := by
      rw [← Int.add_emod_right, Int.emod_eq_of_lt (by omega) (by omega)]
    rw [if_neg (by omega)]
    omega
  · rw [Int.emod_eq_of_lt (by omega) (by omega)] at hput
    rw [if_pos (by omega)]
    exact hput

-- The BCD types differ in their length only.
private theorem bcd_read {t : ValueType} {v : Value} {n : ℤ} {k : Nat}
    (henc : encodeCanonical t v = .ok (encodeBcd v.float.toDouble k))
    (hv : v.exact = some (n : ℚ)) (h0 : 0 ≤ n) (hn : n < 100 ^ k) (hk : k ≤ 4)
    (hdec : ∀ c : Bytes, c.length = k → decodeCanonical t c = .ok (decodeBcd c k)) :
    ∃ c r, encodeCanonical t v = .ok c ∧ decodeCanonical t c = .ok r ∧ r.invalid = false ∧
      r.value.exact = some (n : ℚ) := by
  obtain ⟨m, rfl⟩ := Int.eq_ofNat_of_zero_le h0
  have hm : m < 100 ^ k := by exact_mod_cast hn
  have hsmall : m < 2 ^ 53 := by
    refine hm.trans_le ?_
    calc 100 ^ k ≤ 100 ^ 4 := Nat.pow_le_pow_right (by norm_num) hk
      _ ≤ 2 ^ 53 := by norm_num
  have hfloat := float_of_exact hv (by rw [abs_of_nonneg (by positivity)]; exact_mod_cast hsmall)
  rw [Int.cast_natCast] at hfloat
  have hbcd := encodeBcd_isBcd k (.fin m)
  have hlen := encodeBcd_length k (.fin m)
  have hread := decodeBcd_exact hbcd (by omega)
  have hdouble := bcdValue_toDouble hbcd (by omega)
  rw [bcdValue_encodeBcd hm hk] at hread hdouble
  rw [hlen] at hread
  rw [hfloat] at henc
  refine ⟨_, _, henc, hdec _ hlen, by rw [hread], ?_⟩
  rw [hread]
  simp [Value.exact, hdouble]

theorem decodeCanonical_encodeCanonical {t : ValueType} {v : Value} {n lo hi : ℤ}
    (ht : t.range = some (lo, hi)) (hv : v.exact = some (n : ℚ)) (hlo : lo ≤ n) (hhi : n ≤ hi) :
    ∃ c r, encodeCanonical t v = .ok c ∧ decodeCanonical t c = .ok r ∧ r.invalid = false ∧
      r.value.exact = some (n : ℚ) := by
  have number {width : Nat} {e : Except CodecError Double} (he : e = .ok (.fin n)) :
      e.map (fun x => put width x.toInt) = .ok (put width n) := by
    rw [he, Except.map, toInt_intCast]
  cases t with
  | bool => cases ht
  | float32 => cases ht
  | float64 => cases ht
  | string => cases ht
  | other name => cases ht
  | uint16 =>
      obtain ⟨rfl, rfl⟩ := Prod.mk.inj (Option.some.inj ht)
      have hn : |n| < 2 ^ 53 := abs_lt.mpr ⟨by omega, by omega⟩
      have hu := uint_put_nonneg (w := 2) hlo (by omega)
      refine ⟨put 2 n, { value := .num (.ofInt n) }, ?_, ?_, rfl, exact_ofInt hn⟩
      · exact number (clampInt_exact (float_of_exact hv hn) hlo hhi)
      · simp only [decodeCanonical, put_length, uint_take (put_length 2 n), hu]
        rfl
  | bitstring16 =>
      obtain ⟨rfl, rfl⟩ := Prod.mk.inj (Option.some.inj ht)
      have hn : |n| < 2 ^ 53 := abs_lt.mpr ⟨by omega, by omega⟩
      have hu := uint_put_nonneg (w := 2) hlo (by omega)
      refine ⟨put 2 n, _, ?_, by simp only [decodeCanonical, put_length]; rfl, rfl, ?_⟩
      · exact number (clampInt_exact (float_of_exact hv hn) hlo hhi)
      · simp only [uint_take (put_length 2 n), hu]
        exact exact_ofInt hn
  | int16 =>
      obtain ⟨rfl, rfl⟩ := Prod.mk.inj (Option.some.inj ht)
      have hn : |n| < 2 ^ 53 := abs_lt.mpr ⟨by omega, by omega⟩
      have hs := signed_put (n := n) (w := 2) (by norm_num) (by norm_num; omega) (by norm_num; omega)
      refine ⟨put 2 n, { value := .num (.ofInt n) }, ?_, ?_, rfl, exact_ofInt hn⟩
      · exact number (clampInt_exact (float_of_exact hv hn) hlo hhi)
      · simp only [decodeCanonical, put_length, uint_take (put_length 2 n)]
        rw [show signed 16 (uint (put 2 n)) = n from hs]
        rfl
  | uint32 =>
      obtain ⟨rfl, rfl⟩ := Prod.mk.inj (Option.some.inj ht)
      have hn : |n| < 2 ^ 53 := abs_lt.mpr ⟨by omega, by omega⟩
      have hu := uint_put_nonneg (w := 4) hlo (by omega)
      refine ⟨put 4 n, { value := .num (.ofInt n) }, ?_, ?_, rfl, exact_ofInt hn⟩
      · exact number (clampInt_exact (float_of_exact hv hn) hlo hhi)
      · simp only [decodeCanonical, put_length, uint_take (put_length 4 n), hu]
        rfl
  | int32 =>
      obtain ⟨rfl, rfl⟩ := Prod.mk.inj (Option.some.inj ht)
      have hn : |n| < 2 ^ 53 := abs_lt.mpr ⟨by omega, by omega⟩
      have hs := signed_put (n := n) (w := 4) (by norm_num) (by norm_num; omega) (by norm_num; omega)
      refine ⟨put 4 n, { value := .num (.ofInt n) }, ?_, ?_, rfl, exact_ofInt hn⟩
      · exact number (clampInt_exact (float_of_exact hv hn) hlo hhi)
      · simp only [decodeCanonical, put_length, uint_take (put_length 4 n)]
        rw [show signed 32 (uint (put 4 n)) = n from hs]
        rfl
  | uint64 =>
      obtain ⟨rfl, rfl⟩ := Prod.mk.inj (Option.some.inj ht)
      have hw := toWrapped64_exact hv
      rw [Int.emod_eq_of_lt hlo (by omega)] at hw
      have hlt := (UInt64.ofNat n.toNat).toNat_lt
      have hu := uint_put_nonneg (n := (UInt64.ofNat n.toNat).toNat) (w := 8)
        (by omega) (by omega)
      refine ⟨put 8 (UInt64.ofNat n.toNat).toNat, { value := .uint64 (UInt64.ofNat n.toNat) },
        ?_, ?_, rfl, ?_⟩
      · simp only [encodeCanonical, hw, Except.map]
      · simp only [decodeCanonical, put_length, uint_take (put_length 8 _)]
        rw [Nat.cast_inj.mp hu, UInt64.ofNat_toNat]
        rfl
      · have : ((UInt64.ofNat n.toNat).toNat : ℤ) = n := by
          rw [UInt64.toNat_ofNat']
          omega
        simp only [Value.exact]
        exact_mod_cast congrArg (fun z : ℤ => some (z : ℚ)) this
  | int64 =>
      obtain ⟨rfl, rfl⟩ := Prod.mk.inj (Option.some.inj ht)
      have hw := toWrapped64_exact hv
      generalize hx : UInt64.ofNat (n % 2 ^ 64).toNat = x at hw
      have hxn : (x.toNat : ℤ) = n % 2 ^ 64 := by
        rw [← hx, UInt64.toNat_ofNat']
        omega
      have hlt := x.toNat_lt
      have hu := uint_put_nonneg (n := x.toNat) (w := 8) (by omega) (by omega)
      refine ⟨put 8 x.toNat, { value := .int64 x.toInt64 }, ?_, ?_, rfl, ?_⟩
      · simp only [encodeCanonical, hw, Except.map]
      · simp only [decodeCanonical, put_length, uint_take (put_length 8 _)]
        rw [Nat.cast_inj.mp hu, UInt64.ofNat_toNat]
        rfl
      · have : x.toInt64.toInt = n := by
          have h := BitVec.toInt_eq_toNat_cond x.toBitVec
          change x.toInt64.toInt = _ at h
          have hb : x.toBitVec.toNat = x.toNat := rfl
          rw [hb] at h
          split_ifs at h <;> push_cast at h <;> omega
        simp only [Value.exact, this]
  | bcd16 =>
      obtain ⟨rfl, rfl⟩ := Prod.mk.inj (Option.some.inj ht)
      exact bcd_read (k := 2) rfl hv hlo (by omega) (by norm_num) fun c hc => by
        simp only [decodeCanonical, hc]
        rfl
  | bcd32 =>
      obtain ⟨rfl, rfl⟩ := Prod.mk.inj (Option.some.inj ht)
      exact bcd_read (k := 4) rfl hv hlo (by omega) (by norm_num) fun c hc => by
        simp only [decodeCanonical, hc]
        rfl

theorem decodeCanonical_float64 (f : Binary64) :
    ∃ c r, encodeCanonical .float64 (.num f) = .ok c ∧ decodeCanonical .float64 c = .ok r ∧
      r.value = .num f := by
  have hlt := f.bits.toNat_lt
  have hu := uint_put_nonneg (n := f.bits.toNat) (w := 8) (by omega) (by omega)
  refine ⟨put 8 f.bits.toNat, _, rfl, by simp only [decodeCanonical, put_length]; rfl, ?_⟩
  simp only [uint_take (put_length 8 _), Nat.cast_inj.mp hu, UInt64.ofNat_toNat,
    Binary64.ofBits_bits]

theorem decodeCanonical_float32 {x : Binary32} (hx : x.Quiet) :
    ∃ c r, encodeCanonical .float32 (.num x.widen) = .ok c ∧
      decodeCanonical .float32 c = .ok r ∧ r.value = .num x.widen := by
  have hlt := x.bits.toNat_lt
  have hu := uint_put_nonneg (n := x.bits.toNat) (w := 4) (by omega) (by omega)
  refine ⟨put 4 x.bits.toNat, _, ?_, by simp only [decodeCanonical, put_length]; rfl, ?_⟩
  · simp only [encodeCanonical, Value.float, Binary32.narrow_widen hx]
  · simp only [uint_take (put_length 4 _), Nat.cast_inj.mp hu, UInt32.ofNat_toNat,
      Binary32.ofBits_bits]

end Registers

end JsonScada.Modbus
