import JsonScada.Library.Rounding
import JsonScada.Modbus.Codec.Strings

-- What becomes of a number that is no integer, or that the registers cannot hold.
namespace JsonScada.Modbus

open JsonScada.Library

-- When the encoding of a value that counts as x is not refused, reading the registers gives the
-- nearest integer, the larger one of two.
def EncodesRounded (t : ValueType) (perm : Perm) (v : Value) (x : ℚ) : Prop :=
  ∀ w, encode t v perm none = .ok w →
    ∃ r, decode t w 0 perm none = .ok r ∧ r.invalid = false ∧
      r.value.exact = some ((⌊x + 1 / 2⌋ : ℤ) : ℚ)

def ValueType.Bcd (t : ValueType) : Prop := t = .bcd16 ∨ t = .bcd32

section Rounding

variable {f : Binary64} {x : ℚ}

-- A double with a fraction is below 2^52 in size.
theorem abs_lt_of_fract {s k : ℤ} (hs : |s| < 2 ^ 53) (hx : x = s * 2 ^ k) (hfract : (⌊x⌋ : ℚ) ≠ x) :
    |x| < 2 ^ 52 := by
  have hk : k ≤ -1 := by
    by_contra hk
    obtain ⟨n, hn⟩ := Int.eq_ofNat_of_zero_le (show 0 ≤ k by omega)
    apply hfract
    have hint : x = ((s * 2 ^ n : ℤ) : ℚ) := by
      rw [hx, hn, zpow_natCast]
      push_cast
      ring
    rw [hint, Int.floor_intCast]
  have hscale : (2 : ℚ) ^ k ≤ 2 ^ (-1 : ℤ) := zpow_le_zpow_right₀ (by norm_num) hk
  have hint : |(s : ℚ)| < 2 ^ 53 := by
    have h : ((|s| : ℤ) : ℚ) < ((2 ^ 53 : ℤ) : ℚ) := by exact_mod_cast hs
    norm_num at h ⊢
    exact h
  rw [hx, abs_mul, abs_of_pos (by positivity : (0 : ℚ) < 2 ^ k)]
  calc |(s : ℚ)| * 2 ^ k ≤ |(s : ℚ)| * 2 ^ (-1 : ℤ) := by gcongr
    _ < 2 ^ 53 * 2 ^ (-1 : ℤ) := by gcongr
    _ = 2 ^ 52 := by norm_num

-- The rounding of the code is the mathematical one.
theorem jsRound_of_toDouble (hx : f.toDouble = .fin x) :
    jsRound (.fin x) = .fin ((⌊x + 1 / 2⌋ : ℤ) : ℚ) := by
  obtain ⟨s, k, hs, hscaled⟩ := Binary64.scaled_of_toDouble hx
  have h0 : (⌊x⌋ : ℚ) ≤ x := Int.floor_le x
  have h1 : x < ⌊x⌋ + 1 := Int.lt_floor_add_one x
  have hhalf := Binary64.half_le_fract_iff hs hscaled
  have hdist : Double.sub Double.round (.fin x) (Double.floor (.fin x)) = Double.round (x - ⌊x⌋) := by
    simp only [Double.sub, Double.floor, Double.neg, Double.add, ← sub_eq_add_neg]
  simp only [jsRound, hdist]
  by_cases hfract : 1 / 2 ≤ x - ⌊x⌋
  · have hfloor : ⌊x + 1 / 2⌋ = ⌊x⌋ + 1 := by
      rw [Int.floor_eq_iff]
      push_cast
      constructor <;> linarith
    have hsmall : |⌊x⌋ + 1| < 2 ^ 53 := by
      have hne : (⌊x⌋ : ℚ) ≠ x := by linarith
      obtain ⟨hlow, hhigh⟩ := abs_lt.mp (abs_lt_of_fract hs hscaled hne)
      have hlow' : (-(2 ^ 52) - 1 : ℤ) < ⌊x⌋ := by
        have h : ((-(2 ^ 52) - 1 : ℤ) : ℚ) < ⌊x⌋ := by
          push_cast
          linarith
        exact_mod_cast h
      have hhigh' : ⌊x⌋ < (2 ^ 52 : ℤ) := by
        have h : (⌊x⌋ : ℚ) < ((2 ^ 52 : ℤ) : ℚ) := by
          push_cast
          linarith
        exact_mod_cast h
      rw [abs_lt]
      constructor <;> omega
    have hsum : Double.add Double.round (Double.floor (.fin x)) (.fin 1) =
        .fin ((⌊x⌋ + 1 : ℤ) : ℚ) := by
      simp only [Double.floor, Double.add]
      rw [← Int.cast_one, ← Int.cast_add, Double.round_intCast hsmall]
    rw [if_pos (hhalf.mpr hfract), hfloor, hsum]
  · have hfloor : ⌊x + 1 / 2⌋ = ⌊x⌋ := by
      rw [Int.floor_eq_iff]
      constructor <;> linarith
    rw [if_neg fun h => hfract (hhalf.mp h), hfloor, Double.floor]

end Rounding

section Encoding

variable {t : ValueType} {spec : String} {perm : Perm} {width : Nat} {v : Value} {x : ℚ}
  {lo hi : ℤ}

-- The integer and BCD types of at most 32 bits encode what the rounding gives.
theorem encodeCanonical_congr {w : Value} (hwidth : typeBytes t = some width) (hsmall : width ≤ 4)
    (hrange : t.range = some (lo, hi))
    (h : jsRound v.float.toDouble = jsRound w.float.toDouble) :
    encodeCanonical t v = encodeCanonical t w := by
  cases t with
  | bool => cases hwidth
  | float32 => cases hrange
  | float64 => cases hrange
  | string => cases hwidth
  | other name => cases hwidth
  | int64 => cases hwidth; omega
  | uint64 => cases hwidth; omega
  | uint16 => simp only [encodeCanonical, clampUint, clampInt, h]
  | bitstring16 => simp only [encodeCanonical, clampUint, clampInt, h]
  | int16 => simp only [encodeCanonical, clampInt, h]
  | uint32 => simp only [encodeCanonical, clampUint, clampInt, h]
  | int32 => simp only [encodeCanonical, clampInt, h]
  | bcd16 => simp only [encodeCanonical, encodeBcd, h]
  | bcd32 => simp only [encodeCanonical, encodeBcd, h]

theorem range_small (hwidth : typeBytes t = some width) (hsmall : width ≤ 4)
    (hrange : t.range = some (lo, hi)) : -(2 ^ 53 : ℤ) < lo ∧ hi < 2 ^ 53 := by
  cases t with
  | int64 => cases hwidth; omega
  | uint64 => cases hwidth; omega
  | _ => cases hrange <;> norm_num

-- A number that rounds into the range is read back rounded.
theorem encodesRounded_of_range (ht : typeBytes t = some width) (hsmall : width ≤ 4)
    (hrange : t.range = some (lo, hi)) (hperm : parseByteOrder spec width = .ok perm)
    (hv : v.float.toDouble = .fin x) (hlo : lo ≤ ⌊x + 1 / 2⌋) (hhi : ⌊x + 1 / 2⌋ ≤ hi) :
    EncodesRounded t perm v x := by
  have hbound := range_small ht hsmall hrange
  have habs : |⌊x + 1 / 2⌋| < 2 ^ 53 := by
    rw [abs_lt]
    constructor <;> omega
  have hint : (Binary64.ofInt ⌊x + 1 / 2⌋).toDouble = .fin (⌊x + 1 / 2⌋ : ℤ) :=
    Binary64.toDouble_ofInt habs
  have hround : jsRound v.float.toDouble =
      jsRound (Value.num (.ofInt ⌊x + 1 / 2⌋)).float.toDouble := by
    rw [hv, jsRound_of_toDouble hv, Value.float, hint, jsRound_intCast]
  have hsame : encode t v perm none = encode t (.num (.ofInt ⌊x + 1 / 2⌋)) perm none := by
    have hwidth : typeBytes t = some perm.width := by rw [parsed_width hperm, ht]
    rw [encode_eq hwidth, encode_eq hwidth, encodeCanonical_congr ht hsmall hrange hround]
  have hexact : (Value.num (.ofInt ⌊x + 1 / 2⌋)).exact = some ((⌊x + 1 / 2⌋ : ℤ) : ℚ) := by
    simp only [Value.exact, hint]
  obtain ⟨w, r, henc, hdec, hvalid, hvalue⟩ := decode_encode_number ht hperm hrange hexact hlo hhi
  intro w' henc'
  rw [hsame, henc] at henc'
  obtain rfl := Except.ok.inj henc'
  exact ⟨r, hdec, hvalid, hvalue⟩

-- The integer types refuse what is out of their range.
theorem encodeCanonical_error (hwidth : typeBytes t = some width) (hsmall : width ≤ 4)
    (hrange : t.range = some (lo, hi)) (hbcd : ¬t.Bcd) (hv : v.float.toDouble = .fin x)
    (hout : ⌊x + 1 / 2⌋ < lo ∨ hi < ⌊x + 1 / 2⌋) :
    ∃ e, encodeCanonical t v = .error e := by
  have hround := jsRound_of_toDouble hv
  have hclamp : clampInt v lo hi = .error (.range (.fin ⌊x + 1 / 2⌋) (.fin lo) (.fin hi)) := by
    have htest : (Double.lt (.fin ((⌊x + 1 / 2⌋ : ℤ) : ℚ)) (.fin (lo : ℚ)) ||
        Double.lt (.fin (hi : ℚ)) (.fin ((⌊x + 1 / 2⌋ : ℤ) : ℚ))) = true := by
      simpa [Double.lt] using hout
    simp only [clampInt, hv, hround, htest, Double.isNaN]
    rfl
  cases t with
  | bool => cases hwidth
  | float32 => cases hrange
  | float64 => cases hrange
  | string => cases hwidth
  | other name => cases hwidth
  | int64 => cases hwidth; omega
  | uint64 => cases hwidth; omega
  | bcd16 => exact absurd (.inl rfl) hbcd
  | bcd32 => exact absurd (.inr rfl) hbcd
  | uint16 => cases hrange; exact ⟨_, by simp only [encodeCanonical, clampUint, hclamp]; rfl⟩
  | bitstring16 => cases hrange; exact ⟨_, by simp only [encodeCanonical, clampUint, hclamp]; rfl⟩
  | int16 => cases hrange; exact ⟨_, by simp only [encodeCanonical, hclamp]; rfl⟩
  | uint32 => cases hrange; exact ⟨_, by simp only [encodeCanonical, clampUint, hclamp]; rfl⟩
  | int32 => cases hrange; exact ⟨_, by simp only [encodeCanonical, hclamp]; rfl⟩

-- What a BCD type read back is a number of its digits, whatever was encoded.
theorem bcd_read_range (ht : typeBytes t = some width) (hrange : t.range = some (lo, hi))
    (hbcd : t.Bcd) (hperm : parseByteOrder spec width = .ok perm) :
    ∃ w r n, encode t v perm none = .ok w ∧ decode t w 0 perm none = .ok r ∧
      r.value.exact = some ((n : ℤ) : ℚ) ∧ lo ≤ n ∧ n ≤ hi := by
  have read {k : Nat} (hk : k ≤ 4)
      (henc : encodeCanonical t v = .ok (encodeBcd v.float.toDouble k))
      (hdec : ∀ c : Bytes, c.length = k → decodeCanonical t c = .ok (decodeBcd c k))
      (hlo : lo = 0) (hhi : hi + 1 = 100 ^ k) :
      ∃ w r n, encode t v perm none = .ok w ∧ decode t w 0 perm none = .ok r ∧
        r.value.exact = some ((n : ℤ) : ℚ) ∧ lo ≤ n ∧ n ≤ hi := by
    have hdigits := encodeBcd_isBcd k v.float.toDouble
    have hlen := encodeBcd_length k v.float.toDouble
    have hread := decodeBcd_exact hdigits (by omega)
    have hdouble := bcdValue_toDouble hdigits (by omega)
    have hlt := bcdValue_lt hdigits
    rw [hlen] at hread hlt
    have hlt' : (bcdValue (encodeBcd v.float.toDouble k) : ℤ) < 100 ^ k := by exact_mod_cast hlt
    obtain ⟨hencode, hdecode⟩ := registers_of_canonical ht hperm henc ((hdec _ hlen).trans
      (congrArg Except.ok hread))
    refine ⟨_, _, bcdValue (encodeBcd v.float.toDouble k), hencode, hdecode, ?_, ?_, ?_⟩
    · simp [Value.exact, hdouble]
    · rw [hlo]
      positivity
    · omega
  rcases hbcd with rfl | rfl
  · cases hrange
    exact read (by norm_num) rfl (fun c hc => by simp [decodeCanonical, hc]) rfl rfl
  · cases hrange
    exact read (by norm_num) rfl (fun c hc => by simp [decodeCanonical, hc]) rfl rfl

-- A type of at most 32 bits refuses a number or gives it back rounded, but for the BCD types,
-- which write some digits for every number.
theorem encode_rounds_iff (ht : typeBytes t = some width) (hsmall : width ≤ 4)
    (hrange : t.range = some (lo, hi)) (hperm : parseByteOrder spec width = .ok perm)
    (hv : v.float.toDouble = .fin x) :
    EncodesRounded t perm v x ↔ (t.Bcd → lo ≤ ⌊x + 1 / 2⌋ ∧ ⌊x + 1 / 2⌋ ≤ hi) := by
  constructor
  · intro h hbcd
    obtain ⟨w, r, n, henc, hdec, hexact, hlo, hhi⟩ := bcd_read_range ht hrange hbcd hperm
    obtain ⟨r', hdec', -, hexact'⟩ := h w henc
    rw [hdec] at hdec'
    obtain rfl := Except.ok.inj hdec'
    rw [hexact] at hexact'
    have hn : n = ⌊x + 1 / 2⌋ := by exact_mod_cast Option.some.inj hexact'
    rw [← hn]
    exact ⟨hlo, hhi⟩
  · intro h
    by_cases hin : lo ≤ ⌊x + 1 / 2⌋ ∧ ⌊x + 1 / 2⌋ ≤ hi
    · exact encodesRounded_of_range ht hsmall hrange hperm hv hin.1 hin.2
    · have hout : ⌊x + 1 / 2⌋ < lo ∨ hi < ⌊x + 1 / 2⌋ := by omega
      obtain ⟨e, he⟩ := encodeCanonical_error ht hsmall hrange (fun hbcd => hin (h hbcd)) hv hout
      intro w henc
      rw [encode_eq (by rw [parsed_width hperm, ht]), he] at henc
      cases henc

-- Minus a half goes to zero.
theorem encode_rounds_minusHalf :
    (Value.num (.ofDouble (.fin (-1 / 2)))).float.toDouble = .fin (-1 / 2) ∧
      EncodesRounded .uint16 (newPerm 2 [1, 0]) (.num (.ofDouble (.fin (-1 / 2)))) (-1 / 2) := by
  have hv : (Value.num (.ofDouble (.fin (-1 / 2)))).float.toDouble = .fin (-1 / 2) := by
    decide +kernel
  have hperm : parseByteOrder "BA" 2 = .ok (newPerm 2 [1, 0]) := by decide
  refine ⟨hv, (encode_rounds_iff rfl (by norm_num) rfl hperm hv).mpr ?_⟩
  rintro (h | h) <;> cases h

-- The setpoint 12345 goes out as 2345.
theorem bcd_digit_dropped :
    (Value.num (.ofInt 12345)).float.toDouble = .fin 12345 ∧
      parseByteOrder "AB" 2 = .ok (newPerm 2 [0, 1]) ∧
      encode .bcd16 (.num (.ofInt 12345)) (newPerm 2 [0, 1]) none = .ok [0x23, 0x45] ∧
      (decode .bcd16 [0x23, 0x45] 0 (newPerm 2 [0, 1]) none).map (fun r => r.value) =
        .ok (.num (.ofInt 2345)) ∧
      ¬EncodesRounded .bcd16 (newPerm 2 [0, 1]) (.num (.ofInt 12345)) 12345 := by
  have henc : encode .bcd16 (.num (.ofInt 12345)) (newPerm 2 [0, 1]) none = .ok [0x23, 0x45] := by
    decide +kernel
  have hdec : (decode .bcd16 [0x23, 0x45] 0 (newPerm 2 [0, 1]) none).map (fun r => r.value) =
      .ok (.num (.ofInt 2345)) := by
    decide +kernel
  refine ⟨by decide +kernel, by decide, henc, hdec, ?_⟩
  intro h
  obtain ⟨r, hread, -, hexact⟩ := h _ henc
  have hvalue : r.value = .num (.ofInt 2345) := by
    rw [hread] at hdec
    exact Except.ok.inj hdec
  have h2345 : (Value.num (.ofInt 2345)).exact = some 2345 := by decide +kernel
  have hfloor : ⌊(12345 : ℚ) + 1 / 2⌋ = 12345 := by decide +kernel
  rw [hvalue, h2345, hfloor] at hexact
  norm_num at hexact

end Encoding

-- Which contents of registers come back when the number that was read of them is encoded again.
section Restored

-- Rounded and wrapped to 64 bits, the number is this integer.
def Returns (n : ℤ) (x : Double) : Prop :=
  (jsRound x).isFinite = true ∧ (jsRound x).toInt % 2 ^ 64 = n % 2 ^ 64

-- The integer in eight bytes.
def int64Of (t : ValueType) (c : Bytes) : ℤ :=
  if t = .int64 then (UInt64.ofNat (uint c)).toInt64.toInt else (UInt64.ofNat (uint c)).toNat

-- The canonical bytes that come back. The 64-bit integers are read as they are, and a command
-- scales them.
def Restored (t : ValueType) (k1 k2 : ℚ) (c : Bytes) : Prop :=
  match t with
  | .bcd16 | .bcd32 => ∀ b ∈ c, IsBcd b
  | .float32 => (Binary32.ofBits (UInt32.ofNat (uint c))).Plain
  | .float64 => (Binary64.ofBits (UInt64.ofNat (uint c))).Plain
  | .int64 | .uint64 =>
      Returns (int64Of t c) (Binary64.ofDouble (.fin ((int64Of t c - k2) / k1))).toDouble
  | _ => True

variable {t : ValueType} {c : Bytes} {dec : DecodeResult} {f : Binary64}

theorem put_eq_iff {n : ℕ} (hn : n < 256 ^ c.length) : put c.length n = c ↔ n = uint c := by
  constructor
  · intro h
    have hback := uint_put c.length n
    rw [h, Int.emod_eq_of_lt (by positivity) (by exact_mod_cast hn)] at hback
    exact_mod_cast hback.symm
  · rintro rfl
    exact put_uint c

-- A number that was read of canonical bytes is encoded again.
theorem encode_again (hc : Canonical t c) (hdec : decodeCanonical t c = .ok dec)
    (hvalue : dec.value = .num f) (hplain : Binary64.ofDouble f.toDouble = f) :
    encodeCanonical t (.num (.ofDouble f.toDouble)) = .ok c := by
  obtain ⟨r, hr, henc⟩ := encodeCanonical_decodeCanonical hc
  obtain rfl := Except.ok.inj (hr.symm.trans hdec)
  rw [hvalue] at henc
  rwa [hplain]

theorem ofDouble_ofInt {n : ℤ} (hn : |n| < 2 ^ 53) :
    Binary64.ofDouble (Binary64.ofInt n).toDouble = Binary64.ofInt n := by
  rw [Binary64.toDouble_ofInt hn, Binary64.ofInt, Double.round_intCast hn]

theorem abs_signed_lt (bits : ℕ) {n : ℕ} (hbits : 0 < bits) (hn : n < 2 ^ bits) :
    |signed bits n| ≤ 2 ^ bits := by
  have hhalf : 2 ^ (bits - 1) ≤ 2 ^ bits := Nat.pow_le_pow_right (by decide) (by omega)
  unfold signed
  split
  · rw [abs_of_nonneg (by omega)]
    exact_mod_cast hn.le
  · have hneg : (n : ℤ) - 2 ^ bits ≤ 0 := by
      have hn' : (n : ℤ) < 2 ^ bits := by exact_mod_cast hn
      omega
    rw [abs_of_nonpos hneg]
    omega

-- The integers of 16 and 32 bits are read exactly.
theorem small_exact (ht : typeBytes t = some c.length) (hdec : decodeCanonical t c = .ok dec)
    (hsmall : t ∈ [.int16, .uint16, .int32, .uint32, .bitstring16]) :
    ∃ n : ℤ, |n| < 2 ^ 53 ∧ dec.value = .num (.ofInt n) := by
  have hlt := uint_lt c
  have hnat (h4 : c.length ≤ 4) : |((uint c : ℕ) : ℤ)| < 2 ^ 53 := by
    have hpow : 256 ^ c.length ≤ 256 ^ 4 := Nat.pow_le_pow_right (by decide) h4
    rw [abs_of_nonneg (by omega)]
    omega
  cases t with
  | uint16 | bitstring16 =>
      have h2 : 2 = c.length := Option.some.inj ht
      simp only [decodeCanonical, ← h2, uint_take h2.symm] at hdec
      obtain rfl := Except.ok.inj hdec
      exact ⟨_, hnat (by omega), rfl⟩
  | int16 =>
      have h2 : 2 = c.length := Option.some.inj ht
      simp only [decodeCanonical, ← h2, uint_take h2.symm] at hdec
      obtain rfl := Except.ok.inj hdec
      rw [← h2] at hlt
      exact ⟨_, (abs_signed_lt 16 (by decide) (by omega)).trans_lt (by norm_num), rfl⟩
  | uint32 =>
      have h4 : 4 = c.length := Option.some.inj ht
      simp only [decodeCanonical, ← h4, uint_take h4.symm] at hdec
      obtain rfl := Except.ok.inj hdec
      exact ⟨_, hnat (by omega), rfl⟩
  | int32 =>
      have h4 : 4 = c.length := Option.some.inj ht
      simp only [decodeCanonical, ← h4, uint_take h4.symm] at hdec
      obtain rfl := Except.ok.inj hdec
      rw [← h4] at hlt
      exact ⟨_, (abs_signed_lt 32 (by decide) (by omega)).trans_lt (by norm_num), rfl⟩
  | _ => simp at hsmall

-- Digits above nine read as zero.
theorem bcd_restored_iff (hlen : c.length ≤ 4) (hvalue : (decodeBcd c c.length).value = .num f) :
    encodeBcd (Binary64.ofDouble f.toDouble).toDouble c.length = c ↔ ∀ b ∈ c, IsBcd b := by
  constructor
  · intro h
    rw [← h]
    exact encodeBcd_isBcd _ _
  · intro h
    rw [decodeBcd_exact h hlen] at hvalue
    obtain rfl := Value.num.inj hvalue
    rw [bcdValue_toDouble h hlen, bcdValue_toDouble h hlen, encodeBcd_bcdValue h hlen]

-- A number that is scaled by the read and unscaled by the command.
theorem restored_num_iff (k1 k2 : ℚ) (ht : typeBytes t = some c.length)
    (hdec : decodeCanonical t c = .ok dec) (hvalue : dec.value = .num f) :
    encodeCanonical t (.num (.ofDouble f.toDouble)) = .ok c ↔ Restored t k1 k2 c := by
  have hlt := uint_lt c
  have hsmall (hmem : t ∈ [.int16, .uint16, .int32, .uint32, .bitstring16])
      (hc : Canonical t c) : encodeCanonical t (.num (.ofDouble f.toDouble)) = .ok c := by
    obtain ⟨n, hn, hvalue'⟩ := small_exact ht hdec hmem
    obtain rfl := Value.num.inj (hvalue.symm.trans hvalue')
    exact encode_again hc hdec hvalue (ofDouble_ofInt hn)
  cases t with
  | bool | string | other name => cases ht
  | int16 | uint16 | int32 | uint32 | bitstring16 =>
      simp only [Restored, iff_true]
      exact hsmall (by simp) ⟨ht, by simp, by simp⟩
  | int64 | uint64 =>
      have h8 : 8 = c.length := Option.some.inj ht
      simp only [decodeCanonical, ← h8] at hdec
      obtain rfl := Except.ok.inj hdec
      cases hvalue
  | bcd16 =>
      have h2 : 2 = c.length := Option.some.inj ht
      simp only [decodeCanonical, ← h2] at hdec
      obtain rfl := Except.ok.inj hdec
      rw [h2] at hvalue
      have hiff := bcd_restored_iff (by omega) hvalue
      simp only [encodeCanonical, Value.float, Restored, Except.ok.injEq, h2]
      exact hiff
  | bcd32 =>
      have h4 : 4 = c.length := Option.some.inj ht
      simp only [decodeCanonical, ← h4] at hdec
      obtain rfl := Except.ok.inj hdec
      rw [h4] at hvalue
      have hiff := bcd_restored_iff (by omega) hvalue
      simp only [encodeCanonical, Value.float, Restored, Except.ok.injEq, h4]
      exact hiff
  | float32 =>
      have h4 : 4 = c.length := Option.some.inj ht
      simp only [decodeCanonical, ← h4, uint_take h4.symm] at hdec
      obtain rfl := Except.ok.inj hdec
      obtain rfl := Value.num.inj hvalue
      rw [← h4] at hlt
      simp only [encodeCanonical, Value.float, Restored, Except.ok.injEq, h4]
      generalize hx : Binary32.ofBits (UInt32.ofNat (uint c)) = x
      have hbits : x.bits.toNat = uint c := by
        rw [← hx, Binary32.bits_ofBits, UInt32.toNat_ofNat']
        omega
      have hbound := (Binary32.narrow (.ofDouble x.widen.toDouble)).bits.toNat_lt
      rw [put_eq_iff (by rw [← h4]; omega), ← Binary32.narrow_toDouble_iff, ← hbits,
        UInt32.toNat_inj]
      constructor
      · intro h
        rw [← Binary32.ofBits_bits (Binary32.narrow _), h, Binary32.ofBits_bits]
      · intro h
        rw [h]
  | float64 =>
      have h8 : 8 = c.length := Option.some.inj ht
      simp only [decodeCanonical, ← h8, uint_take h8.symm] at hdec
      obtain rfl := Except.ok.inj hdec
      obtain rfl := Value.num.inj hvalue
      rw [← h8] at hlt
      simp only [encodeCanonical, Value.float, Restored, Except.ok.injEq, h8]
      generalize hx : Binary64.ofBits (UInt64.ofNat (uint c)) = x
      have hbits : x.bits.toNat = uint c := by
        rw [← hx, Binary64.bits_ofBits, UInt64.toNat_ofNat']
        omega
      have hbound := (Binary64.ofDouble x.toDouble).bits.toNat_lt
      rw [put_eq_iff (by rw [← h8]; omega), ← Binary64.ofDouble_toDouble_iff, ← hbits,
        UInt64.toNat_inj]
      constructor
      · intro h
        rw [← Binary64.ofBits_bits (Binary64.ofDouble _), h, Binary64.ofBits_bits]
      · intro h
        rw [h]

-- The integers that are read as such.
theorem int64_read (h8 : c.length = 8) (hdec : decodeCanonical t c = .ok dec) :
    (∀ i, t = .int64 → dec.value = .int64 i → i.toInt = int64Of t c) ∧
      ∀ u, t = .uint64 → dec.value = .uint64 u → (u.toNat : ℤ) = int64Of t c := by
  constructor
  · rintro i rfl hvalue
    simp only [decodeCanonical, h8, uint_take h8] at hdec
    obtain rfl := Except.ok.inj hdec
    obtain rfl := Value.int64.inj hvalue
    rfl
  · rintro u rfl hvalue
    simp only [decodeCanonical, h8, uint_take h8] at hdec
    obtain rfl := Except.ok.inj hdec
    obtain rfl := Value.uint64.inj hvalue
    rfl

-- A 64-bit integer, which only the command scales.
theorem restored_int64_iff (k1 k2 : ℚ) (h64 : t = .int64 ∨ t = .uint64) (hlen : c.length = 8) :
    encodeCanonical t (.num (.ofDouble (.fin ((int64Of t c - k2) / k1)))) = .ok c ↔
      Restored t k1 k2 c := by
  have hlt := uint_lt c
  rw [hlen] at hlt
  have hmod : int64Of t c % 2 ^ 64 = uint c := by
    have hnat : (UInt64.ofNat (uint c)).toNat = uint c := Nat.mod_eq_of_lt hlt
    unfold int64Of
    split
    · have htoNat : (UInt64.ofNat (uint c)).toInt64.toBitVec.toNat = uint c := hnat
      rw [Int64.toInt, BitVec.toInt_eq_toNat_bmod, htoNat]
      have hbmod := Int.bmod_emod (x := (uint c : ℤ)) (m := 2 ^ 64)
      refine hbmod.trans ?_
      push_cast
      omega
    · rw [hnat]
      omega
  have hwrap (y : Double) :
      ((if y.isNaN || y.isInf then .error (.bigInt y)
        else .ok (UInt64.ofNat (y.toInt % 2 ^ 64).toNat) : Except CodecError UInt64).map
          fun u => put 8 u.toNat) = .ok c ↔
        y.isFinite = true ∧ y.toInt % 2 ^ 64 = uint c := by
    cases y with
    | nan => simp [Double.isNaN, Double.isFinite, Except.map]
    | inf s => simp [Double.isNaN, Double.isInf, Double.isFinite, Except.map]
    | fin q =>
        have hbound := Int.emod_lt_of_pos (Double.toInt (.fin q)) (show (0 : ℤ) < 2 ^ 64 by decide)
        have hnonneg := Int.emod_nonneg (Double.toInt (.fin q)) (show (2 ^ 64 : ℤ) ≠ 0 by decide)
        have hback : (UInt64.ofNat (Double.toInt (.fin q) % 2 ^ 64).toNat).toNat =
            (Double.toInt (.fin q) % 2 ^ 64).toNat := Nat.mod_eq_of_lt (by omega)
        simp only [Double.isNaN, Double.isInf, Double.isFinite, Bool.or_self, Bool.false_eq_true,
          if_false, Except.map, Except.ok.injEq, true_and, hback]
        rw [← hlen, put_eq_iff (by rw [hlen]; omega)]
        omega
  have hencode (x : Binary64) :
      encodeCanonical t (.num x) = .ok c ↔ Returns (int64Of t c) x.toDouble := by
    have hcases : encodeCanonical t (.num x) =
        (toWrapped64 (.num x)).map fun u => put 8 u.toNat := by
      rcases h64 with rfl | rfl <;> rfl
    rw [hcases, Returns, hmod]
    exact hwrap (jsRound x.toDouble)
  rw [hencode]
  rcases h64 with rfl | rfl <;> rfl

end Restored

end JsonScada.Modbus
