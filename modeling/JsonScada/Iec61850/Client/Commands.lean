import JsonScada.Iec61850.Client.MmsValue

-- What the client writes for a command, and what it reads back.
namespace JsonScada.Iec61850.Client

open JsonScada.Library
open JsonScada.Iec60870 (Platform)

section Write

-- The times of the MMS library: the instant that a value made of an instant holds.
structure MmsTimes where
  newUTCTime : ℤ → ℤ
  newBinaryTime : ℤ → ℤ

variable (pl : Platform) (times : MmsTimes)

def uint32 (x : Double) : BitVec 32 := BitVec.ofInt 32 (pl.toInt .uint32 x).1

def unixMilli (x : Double) : ℤ := (pl.toInt .int x).1 * 1000000

-- The value that is built for an object, of the type that the object has.
def writeValueCommand (current : Mms) (value : Double) : Option Leaf :=
  match current with
  | .leaf (.boolean _) => some (.boolean (!Double.eq value (.fin 0)))
  | .leaf (.unsigned _) => some (.unsigned (uint32 pl value).toNat)
  | .leaf (.integer _) => some (.integer (pl.toInt .int value).1)
  | .leaf (.float32 _) => some (.float32 (FloatFormat.single.convert value))
  | .leaf (.float64 _) => some (.float64 value)
  | .leaf (.visibleString _) => some (.visibleString (formatDouble value))
  | .leaf (.mmsString _) => some (.mmsString (formatDouble value))
  | .leaf (.bitString bits) => some (.bitString (setBitsFromUint32 bits.length (uint32 pl value)))
  | .leaf (.utcTime _) => some (.utcTime (times.newUTCTime (unixMilli pl value)))
  | .leaf (.binaryTime _) => some (.binaryTime (times.newBinaryTime (unixMilli pl value)))
  | .leaf (.octetString bytes) =>
      let b := List.replicate (max bytes.length 1) (0 : UInt8)
      some (.octetString (b.set 0 (UInt8.ofNat ((uint32 pl value).toNat % 256))))
  | _ => none

-- What is published of an object that holds a value.
def publishedValue (conn : Connection) (now : ℤ) (e : Entry) (selfPublish : Bool) (l : Leaf) :
    Double :=
  (buildIECValue conn now e (extractSimple (.leaf l)) selfPublish).value

theorem publishedValue_eq (conn : Connection) (now : ℤ) (e : Entry) (selfPublish : Bool)
    (l : Leaf) :
    publishedValue conn now e selfPublish l = (mmsGetDoubleVal (.leaf l)).1 := rfl

end Write

section Bits

theorem and_one_eq (v : BitVec 32) : decide (v &&& 1#32 = 1#32) = v.getLsbD 0 := by
  have hand : v &&& 1#32 = if v.getLsbD 0 then 1#32 else 0#32 := by
    apply BitVec.eq_of_getLsbD_eq
    intro i hi
    by_cases hzero : i = 0
    · subst hzero
      cases hbit : v.getLsbD 0 <;> rw [BitVec.getLsbD_and, hbit] <;> rfl
    · cases hbit : v.getLsbD 0 <;> simp [hzero]
  rw [hand]
  cases v.getLsbD 0 <;> rfl

theorem setBitsFromUint32_eq (n : ℕ) (v : BitVec 32) :
    setBitsFromUint32 n v = (List.range n).map v.getLsbD := by
  induction n generalizing v with
  | zero => rfl
  | succ n ih =>
      rw [setBitsFromUint32, and_one_eq, ih, List.range_succ_eq_map, List.map_cons, List.map_map]
      congr 1
      refine List.map_congr_left fun i _ => ?_
      rw [BitVec.getLsbD_ushiftRight, Function.comp_apply, Nat.succ_eq_add_one, Nat.add_comm]

theorem length_setBitsFromUint32 (n : ℕ) (v : BitVec 32) : (setBitsFromUint32 n v).length = n := by
  rw [setBitsFromUint32_eq, List.length_map, List.length_range]

-- Each bit that is set goes to its own weight.
theorem getLsbD_foldl (l : List (Bool × ℕ)) (n : ℕ) (out : BitVec 32) {k : ℕ} (hk : k < 32) :
    (l.foldl (fun out (bit, i) => if bit then out ||| 1#32 <<< (n - 1 - i) else out) out).getLsbD k =
      (out.getLsbD k || l.any fun (bit, i) => bit && decide (n - 1 - i = k)) := by
  induction l generalizing out with
  | nil => simp
  | cons b l ih =>
      obtain ⟨bit, i⟩ := b
      rw [List.foldl_cons, ih, List.any_cons]
      cases bit with
      | false => simp
      | true =>
          have hbit : (out ||| 1#32 <<< (n - 1 - i)).getLsbD k =
              (out.getLsbD k || decide (n - 1 - i = k)) := by
            rw [BitVec.getLsbD_or, BitVec.getLsbD_shiftLeft, BitVec.getLsbD_one]
            congr 1
            by_cases heq : n - 1 - i = k
            · simp [heq, hk]
            · by_cases hlt : k < n - 1 - i
              · simp [hlt, heq]
              · have hne : k - (n - 1 - i) ≠ 0 := by omega
                simp [hne, heq]
          simp [hbit, Bool.or_assoc]

theorem getLsbD_bitStringToUint32BE (bits : List Bool) {k : ℕ} (hk : k < 32) :
    (bitStringToUint32BE bits).getLsbD k = true ↔
      ∃ i, bits[i]? = some true ∧ bits.length - 1 - i = k := by
  rw [bitStringToUint32BE, getLsbD_foldl _ _ _ hk, BitVec.getLsbD_zero, Bool.false_or,
    List.any_eq_true]
  constructor
  · rintro ⟨⟨bit, i⟩, hmem, hbit⟩
    rw [List.mk_mem_zipIdx_iff_getElem?] at hmem
    rw [Bool.and_eq_true, decide_eq_true_iff] at hbit
    exact ⟨i, hbit.1 ▸ hmem, hbit.2⟩
  · rintro ⟨i, hi, hk⟩
    exact ⟨(true, i), List.mk_mem_zipIdx_iff_getElem?.mpr hi, by simp [hk]⟩

-- What is read of bits that were written has them in reverse order.
theorem getLsbD_reversed (n : ℕ) (v : BitVec 32) {k : ℕ} (hk : k < 32) :
    (bitStringToUint32BE (setBitsFromUint32 n v)).getLsbD k =
      (decide (k < n) && v.getLsbD (n - 1 - k)) := by
  rw [Bool.eq_iff_iff, getLsbD_bitStringToUint32BE _ hk, length_setBitsFromUint32,
    setBitsFromUint32_eq, Bool.and_eq_true, decide_eq_true_iff]
  constructor
  · rintro ⟨i, hi, rfl⟩
    obtain ⟨hin, hbit⟩ := List.getElem?_eq_some_iff.mp hi
    rw [List.length_map, List.length_range] at hin
    have hback : n - 1 - (n - 1 - i) = i := by omega
    rw [hback]
    exact ⟨by omega, by simpa using hbit⟩
  · rintro ⟨hkn, hbit⟩
    refine ⟨n - 1 - k, ?_, by omega⟩
    rw [List.getElem?_map, List.getElem?_range (by omega), Option.map_some, hbit]

end Bits

section ReadBack

-- The command values that the type of an object represents.
def Represents (x : Double) : Leaf → Prop
  | .boolean _ => x = .fin 0 ∨ x = .fin 1
  | .integer _ => ∃ z : ℤ, -2 ^ 63 ≤ z ∧ z < 2 ^ 63 ∧ x = .fin z
  | .unsigned _ | .octetString _ => ∃ n : ℕ, n < 2 ^ 32 ∧ x = .fin n
  | .bitString bits => ∃ n : ℕ, n < 2 ^ bits.length ∧ n < 2 ^ 32 ∧ x = .fin n
  -- whole seconds in 32 bits
  | .utcTime _ => ∃ ms : ℕ, ms < 2 ^ 32 * 1000 ∧ x = .fin ms
  | .float32 _ | .float64 _ => True
  | _ => False

-- What is published where an object holds what was written for a command.
def ReadsBack (x y : Double) : Leaf → Prop
  | .boolean _ | .integer _ | .unsigned _ | .float64 _ => y = x
  | .float32 _ => y = FloatFormat.single.convert x
  | .octetString _ => ∃ n : ℕ, x = .fin n ∧ y = .fin (n % 256 : ℕ)
  | .bitString bits => ∃ n m : ℕ, x = .fin n ∧ y = .fin m ∧
      if bits.length = 2 then m = n % 2
      else ∀ k, m.testBit k = (decide (k < bits.length ∧ k < 32) && n.testBit (bits.length - 1 - k))
  | .utcTime _ => ∃ ms : ℕ, x = .fin ms ∧ (y = .fin ms ∨ y = .fin (ms - 1 : ℕ))
  | _ => False

variable {pl : Platform} {times : MmsTimes}

theorem uint32_natCast {n : ℕ} (h : n < 2 ^ 32) : (uint32 pl (.fin n)).toNat = n := by
  have hint : (pl.toInt .uint32 (.fin (n : ℤ))).1 = n :=
    Iec60870.Platform.toInt_intCast ⟨by positivity, by
      show (n : ℤ) ≤ 2 ^ 32 - 1
      omega⟩
  have hcast : ((n : ℤ) : ℚ) = (n : ℚ) := by norm_cast
  rw [hcast] at hint
  rw [uint32, hint, BitVec.ofInt_natCast, BitVec.toNat_ofNat, Nat.mod_eq_of_lt h]

theorem toInt_int {z : ℤ} (hlow : -2 ^ 63 ≤ z) (hhigh : z < 2 ^ 63) :
    (pl.toInt .int (.fin z)).1 = z :=
  Iec60870.Platform.toInt_intCast ⟨hlow, by
    show z ≤ 2 ^ 63 - 1
    omega⟩

-- Two bits are a double point: what is read is the bit that goes out first.
theorem bitStringValue_two (v : BitVec 32) :
    bitStringValue (setBitsFromUint32 2 v) = (.fin (v.toNat % 2 : ℕ), true) := by
  have hbit : v.getLsbD 0 = decide (v.toNat % 2 = 1) := by
    rw [← BitVec.testBit_toNat, Nat.testBit_zero]
  have hlist : setBitsFromUint32 2 v = [v.getLsbD 0, v.getLsbD 1] := setBitsFromUint32_eq 2 v
  rw [hlist]
  rcases Nat.mod_two_eq_zero_or_one v.toNat with hmod | hmod
  · rw [hmod] at hbit ⊢
    rw [hbit]
    cases v.getLsbD 1 <;> rfl
  · rw [hmod] at hbit ⊢
    rw [hbit]
    cases v.getLsbD 1 <;> rfl

theorem bitStringValue_reversed {n : ℕ} (hn : n ≠ 2) (v : BitVec 32) :
    ∃ m : ℕ, bitStringValue (setBitsFromUint32 n v) = (.fin m, false) ∧
      ∀ k, m.testBit k = (decide (k < n ∧ k < 32) && v.toNat.testBit (n - 1 - k)) := by
  refine ⟨(bitStringToUint32BE (setBitsFromUint32 n v)).toNat, ?_, fun k => ?_⟩
  · rw [bitStringValue, length_setBitsFromUint32, if_neg hn]
  · rw [BitVec.testBit_toNat, BitVec.testBit_toNat]
    by_cases hk : k < 32
    · rw [getLsbD_reversed n v hk]
      simp [hk]
    · rw [BitVec.getLsbD_of_ge _ k (by omega)]
      simp [hk]

-- The library keeps a time to the accuracy asked for, ten bits of a second.
def Accurate (times : MmsTimes) : Prop :=
  ∀ ns, |times.newUTCTime ns - ns| * 2 ^ 10 ≤ 1000000000

theorem utcMillis_newUTCTime (h : Accurate times) (ms : ℕ) :
    utcMillis (times.newUTCTime (ms * 1000000)) = ms ∨
      utcMillis (times.newUTCTime (ms * 1000000)) = ms - 1 := by
  have hnear := h (ms * 1000000)
  generalize times.newUTCTime (ms * 1000000) = ns at hnear ⊢
  have hbounds := abs_le.mp (show |ns - ms * 1000000| ≤ 976562 by omega)
  unfold utcMillis zeroTime
  rw [if_neg (by omega)]
  omega

variable {conn : Connection} {now : ℤ} {e : Entry} {selfPublish : Bool}

-- An object that holds exactly what was written for a command.
theorem readsBack_of_written {current out : Leaf} {x : Double}
    (haccurate : Accurate times) (hdouble : ∀ q, x = .fin q → Double.round q = .fin q)
    (hx : Represents x current) (hout : writeValueCommand pl times (.leaf current) x = some out) :
    ReadsBack x (publishedValue conn now e selfPublish out) current := by
  rw [publishedValue_eq]
  cases current with
  | boolean b =>
      obtain rfl := Option.some.inj hout
      rcases hx with rfl | rfl <;> rfl
  | integer z =>
      obtain rfl := Option.some.inj hout
      obtain ⟨w, hlow, hhigh, rfl⟩ := hx
      show Double.round ((pl.toInt .int (.fin w)).1 : ℚ) = .fin w
      rw [toInt_int hlow hhigh]
      exact hdouble w rfl
  | unsigned n =>
      obtain rfl := Option.some.inj hout
      obtain ⟨m, hm, rfl⟩ := hx
      show unsignedValue (uint32 pl (.fin m)).toNat = .fin m
      rw [uint32_natCast hm, unsignedValue, Nat.mod_eq_of_lt hm]
  | float32 y =>
      obtain rfl := Option.some.inj hout
      rfl
  | float64 y =>
      obtain rfl := Option.some.inj hout
      rfl
  | bitString bits =>
      obtain rfl := Option.some.inj hout
      obtain ⟨n, -, hn, rfl⟩ := hx
      refine ⟨n, ?_⟩
      show ∃ m : ℕ, _ ∧ (bitStringValue _).1 = _ ∧ _
      by_cases htwo : bits.length = 2
      · rw [htwo, bitStringValue_two, uint32_natCast hn]
        exact ⟨n % 2, rfl, rfl, rfl⟩
      · obtain ⟨m, hvalue, hbits⟩ := bitStringValue_reversed htwo (uint32 pl (.fin n))
        rw [uint32_natCast hn] at hbits
        rw [hvalue]
        refine ⟨m, rfl, rfl, ?_⟩
        rw [if_neg htwo]
        exact hbits
  | octetString bytes =>
      obtain rfl := Option.some.inj hout
      obtain ⟨n, hn, rfl⟩ := hx
      obtain ⟨k, hk⟩ : ∃ k, max bytes.length 1 = k + 1 := ⟨max bytes.length 1 - 1, by omega⟩
      refine ⟨n, rfl, ?_⟩
      rw [hk, uint32_natCast hn]
      show Double.fin ((UInt8.ofNat (n % 256)).toNat : ℚ) = _
      rw [UInt8.toNat_ofNat', Nat.mod_mod]
  | utcTime ns =>
      obtain rfl := Option.some.inj hout
      obtain ⟨ms, hms, rfl⟩ := hx
      have hmilli : unixMilli pl (.fin ms) = ms * 1000000 := by
        have hint : (pl.toInt .int (.fin (ms : ℤ))).1 = ms := toInt_int (by omega) (by omega)
        rw [unixMilli, ← Int.cast_natCast, hint]
      refine ⟨ms, rfl, ?_⟩
      show Double.round (utcMillis (times.newUTCTime (unixMilli pl (.fin ms))) : ℕ) = _ ∨
        Double.round (utcMillis (times.newUTCTime (unixMilli pl (.fin ms))) : ℕ) = _
      rw [hmilli]
      have hround : ∀ k : ℕ, k ≤ ms → Double.round (k : ℚ) = .fin k := by
        intro k hk
        have hsmall := Double.round_intCast (z := k) (by rw [abs_of_nonneg (by omega)]; omega)
        exact_mod_cast hsmall
      rcases utcMillis_newUTCTime haccurate ms with heq | heq
      · rw [heq]
        exact .inl (hround ms le_rfl)
      · rw [heq]
        exact .inr (hround (ms - 1) (Nat.sub_le ms 1))
  | visibleString s => exact hx.elim
  | mmsString s => exact hx.elim
  | binaryTime ns => exact hx.elim
  | dataAccessError code text => exact hx.elim
  | generalizedTime text => exact hx.elim
  | other text => exact hx.elim

-- Times with fractions of a second in 24 bits, as MMS has them.
def fractionTimes : MmsTimes where
  newUTCTime ns :=
    let fraction := ns % 1000000000 * 2 ^ 24 / 1000000000
    ns / 1000000000 * 1000000000 + fraction * 1000000000 / 2 ^ 24
  newBinaryTime ns := ns / 1000000 * 1000000

theorem fractionTimes_accurate : Accurate fractionTimes := by
  intro ns
  have hnear : |fractionTimes.newUTCTime ns - ns| ≤ 61 := by
    rw [abs_le]
    simp only [fractionTimes]
    omega
  omega

def gateway : Connection := ⟨"IED1", 61, [], false⟩

def setting : Entry where
  key := "IED1LD0/GGIO1.SPCSO1.setValSP"
  path := "IED1LD0/GGIO1.SPCSO1.setVal"
  fc := .sp
  jsTag := "IED1_setVal"

-- A time of 1500 ms on an object that has a time.
theorem readsBack_of_written_time :
    ReadsBack (.fin 1500)
      (publishedValue gateway 0 setting false (.utcTime (fractionTimes.newUTCTime 1500000000)))
      (.utcTime 0) :=
  have hmilli : unixMilli Iec60870.plainPlatform (.fin 1500) = 1500000000 := by decide
  have hwritten : writeValueCommand Iec60870.plainPlatform fractionTimes (.leaf (.utcTime 0))
      (.fin 1500) = some (.utcTime (fractionTimes.newUTCTime 1500000000)) := by
    rw [writeValueCommand, hmilli]
  readsBack_of_written fractionTimes_accurate
    (fun q hq => by
      obtain rfl := Double.fin.inj hq
      exact Double.round_intCast (z := 1500) (by norm_num))
    ⟨1500, by norm_num, rfl⟩ hwritten

-- The lowest bit of eight is read as the highest.
theorem bitString_reversed :
    writeValueCommand Iec60870.plainPlatform fractionTimes
        (.leaf (.bitString (List.replicate 8 false))) (.fin 1) =
      some (.bitString (true :: List.replicate 7 false)) ∧
    publishedValue gateway 0 setting false (.bitString (true :: List.replicate 7 false)) ≠
      .fin 1 := by
  refine ⟨?_, ?_⟩
  · have hbits : setBitsFromUint32 8 (uint32 Iec60870.plainPlatform (.fin 1)) =
        true :: List.replicate 7 false := by decide
    exact congrArg (fun bits => some (Leaf.bitString bits)) hbits
  · rw [publishedValue_eq]
    have hvalue : bitStringValue (true :: List.replicate 7 false) = (.fin 128, false) := by
      decide
    show (bitStringValue _).1 ≠ _
    rw [hvalue]
    decide

end ReadBack

end JsonScada.Iec61850.Client
