import JsonScada.Iec60870.Convert
import Mathlib.Tactic.Linarith

namespace JsonScada.Iec60870

open JsonScada.Library

section Wire

-- A number is outside a range of integers.
def Outside (lo hi : ℤ) (v : ℚ) : Prop := v < lo ∨ hi < v

instance (lo hi : ℤ) (v : ℚ) : Decidable (Outside lo hi v) := inferInstanceAs (Decidable (_ ∨ _))

-- The integer that stands for a number: it without its fraction, or the bound that it exceeds.
structure IsWire (lo hi : ℤ) (v : ℚ) (z : ℤ) : Prop where
  mem : lo ≤ z ∧ z ≤ hi
  inside : ¬Outside lo hi v → z = if 0 ≤ v then ⌊v⌋ else ⌈v⌉
  below : v < lo → z = lo
  above : hi < v → z = hi

-- A digital value, inverted once or not at all.
def inverted (value kconv1 : ℚ) : Bool := Bool.xor (value ≠ 0) (kconv1 = -1)

-- The quality with the overflow of a value added to it.
def Quality.addOverflow (q : Quality) (overflow : Bool) : Quality :=
  { q with overflow := q.overflow || overflow }

end Wire

section Clamping

variable (pl : Platform) {lo hi : ℤ}

theorem isWire_trunc {v : ℚ} (h : ¬Outside lo hi v) :
    IsWire lo hi v (if 0 ≤ v then ⌊v⌋ else ⌈v⌉) := by
  have hlo : (lo : ℚ) ≤ v := le_of_not_gt fun hlt => h (.inl hlt)
  have hhi : v ≤ hi := le_of_not_gt fun hlt => h (.inr hlt)
  refine ⟨?_, fun _ => rfl, fun hlt => absurd (.inl hlt) h, fun hlt => absurd (.inr hlt) h⟩
  split_ifs with hsign
  · exact ⟨Int.le_floor.mpr hlo, Int.floor_le_iff.mpr (hhi.trans_lt (lt_add_one _))⟩
  · refine ⟨?_, Int.ceil_le.mpr hhi⟩
    exact Int.le_ceil_iff.mpr ((sub_one_lt _).trans_le hlo)

-- The value is brought into the range before it is converted.
theorem clamped_spec (value k₁ k₂ : ℚ) (hlo : -2 ^ 15 ≤ lo) (hle : lo ≤ hi) (hhi : hi ≤ 2 ^ 15 - 1)
    (hround : pl.round = .fin) :
    IsWire lo hi (value * k₁ + k₂) (clamped pl (.fin value) (.fin k₁) (.fin k₂) lo hi).1 ∧
      (clamped pl (.fin value) (.fin k₁) (.fin k₂) lo hi).2 =
        decide (Outside lo hi (value * k₁ + k₂)) := by
  have hscaled : scaled pl (.fin value) (.fin k₁) (.fin k₂) = .fin (value * k₁ + k₂) := by
    simp only [scaled, hround, Double.mul, Double.add]
  have hword : ∀ z : ℤ, lo ≤ z ∧ z ≤ hi → IntType.int16.min ≤ z ∧ z ≤ IntType.int16.max := by
    simp only [IntType.min, IntType.max]
    omega
  generalize value * k₁ + k₂ = v at hscaled ⊢
  simp only [clamped, hscaled, clamp, Double.lt, decide_eq_true_eq]
  split_ifs with habove hbelow
  · have hnot : ¬v < lo := fun hlt =>
      absurd (Int.cast_lt.mp (habove.trans hlt)) (not_lt.mpr hle)
    refine ⟨?_, (decide_eq_true (.inr habove)).symm⟩
    rw [Platform.toInt_intCast (hword hi ⟨hle, le_rfl⟩)]
    exact ⟨⟨hle, le_rfl⟩, fun h => absurd (.inr habove) h, fun h => absurd h hnot, fun _ => rfl⟩
  · refine ⟨?_, (decide_eq_true (.inl hbelow)).symm⟩
    rw [Platform.toInt_intCast (hword lo ⟨le_rfl, hle⟩)]
    exact ⟨⟨le_rfl, hle⟩, fun h => absurd (.inl hbelow) h, fun _ => rfl, fun h => absurd h habove⟩
  · have hinside : ¬Outside lo hi v := fun h => h.elim hbelow habove
    have hwire := isWire_trunc hinside
    refine ⟨?_, (decide_eq_false hinside).symm⟩
    rw [Platform.toInt_of_mem (hword _ hwire.mem)]
    exact hwire

theorem extend_eq (q : Quality) (overflow : Bool) : q.extend overflow = q.addOverflow overflow := by
  cases overflow <;> simp [Quality.extend, Quality.addOverflow]

theorem boolVal_eq (value k₁ : ℚ) : boolVal (.fin value) (.fin k₁) = inverted value k₁ := by
  by_cases hk : k₁ = -1 <;> by_cases hv : value = 0 <;>
    simp [boolVal, isInverted, inverted, Double.eq, hk, hv]

end Clamping

section Built

variable (pl : Platform) (now addr : ℤ) (value k₁ k₂ : ℚ) (sbo : Bool) (cmdQualif : ℤ) (q : Quality)
  (timeTag : Option ℤ) (transient : Bool)

-- What is built of exact numbers.
def built (asduNum : ℤ) : Option Info :=
  (buildInfoObj { pl with round := .fin } now asduNum addr (.fin value) sbo cmdQualif q timeTag
    (.fin k₁) (.fin k₂) transient).map InfoObject.info

-- Objects with a time tag are those of the type that embeds it.
theorem built_eq (asduNum : ℤ) :
    built pl now addr value k₁ k₂ sbo cmdQualif q timeTag transient asduNum =
      buildInfo { pl with round := .fin } (timedType asduNum timeTag) (.fin value) sbo cmdQualif q
        (.fin k₁) (.fin k₂) transient := by
  simp only [built, buildInfoObj, Option.map_map]
  exact congrFun Option.map_id _

variable {pl now addr value k₁ k₂ sbo cmdQualif q timeTag transient} in
-- A type and the timed one that it is upgraded to are built alike.
theorem built_typed {base timed n : ℤ} {info : Info} (htimed : mapToWithCP56Time timed = none)
    (hbase : mapToWithCP56Time base = none ∨ mapToWithCP56Time base = some timed)
    (hn : n ∈ [base, timed])
    (hinfo : buildInfo { pl with round := .fin } base (.fin value) sbo cmdQualif q (.fin k₁)
      (.fin k₂) transient = some info)
    (hinfo' : buildInfo { pl with round := .fin } timed (.fin value) sbo cmdQualif q (.fin k₁)
      (.fin k₂) transient = some info) :
    built pl now addr value k₁ k₂ sbo cmdQualif q timeTag transient n = some info := by
  have hmem : timedType n timeTag = base ∨ timedType n timeTag = timed := by
    simp only [List.mem_cons, List.not_mem_nil, or_false] at hn
    cases timeTag with
    | none => exact hn
    | some t =>
        rcases hn with rfl | rfl
        · rcases hbase with hbase | hbase <;> simp [timedType, hbase]
        · simp [timedType, htimed]
  rw [built_eq]
  rcases hmem with h | h
  · rw [h, hinfo]
  · rw [h, hinfo']

-- Values are clamped to the range of their type and truncated, and those that were outside get
-- the overflow quality if the type has one. Single and double points are inverted once.
structure BuiltExactly : Prop where
  step : ∀ n ∈ [5, 32], ∃ z, IsWire (-64) 63 (value * k₁ + k₂) z ∧
    built pl now addr value k₁ k₂ sbo cmdQualif q timeTag transient n =
      some (.stepPosition z transient
        (q.addOverflow (decide (Outside (-64) 63 (value * k₁ + k₂)))))
  normal : ∀ n ∈ [9, 34], ∃ z, IsWire (-32768) 32767 (value * k₁ + k₂) z ∧
    built pl now addr value k₁ k₂ sbo cmdQualif q timeTag transient n =
      some (.measuredNormal z
        (some (q.addOverflow (decide (Outside (-32768) 32767 (value * k₁ + k₂))))))
  normalOnly : ∃ z, IsWire (-32768) 32767 (value * k₁ + k₂) z ∧
    built pl now addr value k₁ k₂ sbo cmdQualif q timeTag transient 21 =
      some (.measuredNormal z none)
  scaled : ∀ n ∈ [11, 35], ∃ z, IsWire (-32768) 32767 (value * k₁ + k₂) z ∧
    built pl now addr value k₁ k₂ sbo cmdQualif q timeTag transient n =
      some (.measuredScaled z
        (q.addOverflow (decide (Outside (-32768) 32767 (value * k₁ + k₂)))))
  setpointNormal : ∀ n ∈ [48, 61], ∃ z, IsWire (-32768) 32767 (value * k₁ + k₂) z ∧
    built pl now addr value k₁ k₂ sbo cmdQualif q timeTag transient n =
      some (.command (.setpointNormal z { qual := 0, inSelect := sbo }))
  setpointScaled : ∀ n ∈ [49, 62], ∃ z, IsWire (-32768) 32767 (value * k₁ + k₂) z ∧
    built pl now addr value k₁ k₂ sbo cmdQualif q timeTag transient n =
      some (.command (.setpointScaled z { qual := 0, inSelect := sbo }))
  parameters : ∃ z, IsWire (-32768) 32767 (value * k₁ + k₂) z ∧
    built pl now addr value k₁ k₂ sbo cmdQualif q timeTag transient 110 =
      some (.command (.parameterNormal z (pl.parseQualifierOfParamMV (byte cmdQualif)))) ∧
    built pl now addr value k₁ k₂ sbo cmdQualif q timeTag transient 111 =
      some (.command (.parameterScaled z (pl.parseQualifierOfParamMV (byte cmdQualif))))
  single : ∀ n ∈ [1, 30], built pl now addr value k₁ k₂ sbo cmdQualif q timeTag transient n =
    some (.singlePoint (inverted value k₁) q)
  -- one in transit is neither on nor off
  double : ∀ n ∈ [3, 31], built pl now addr value k₁ k₂ sbo cmdQualif q timeTag transient n =
    some (.doublePoint
      (if transient then .indeterminateOrIntermediate
        else if inverted value k₁ then .determinedOn else .determinedOff) q)

end Built

section Theorems

theorem values_clamped (pl : Platform) (now addr : ℤ) (value k₁ k₂ : ℚ) (sbo : Bool)
    (cmdQualif : ℤ) (q : Quality) (timeTag : Option ℤ) (transient : Bool) :
    BuiltExactly pl now addr value k₁ k₂ sbo cmdQualif q timeTag transient := by
  obtain ⟨hstep, hstepFlag⟩ := clamped_spec { pl with round := .fin } value k₁ k₂
    (show -2 ^ 15 ≤ (-64 : ℤ) by omega) (show -64 ≤ (63 : ℤ) by omega) (by omega) rfl
  obtain ⟨hword, hwordFlag⟩ := clamped_spec { pl with round := .fin } value k₁ k₂
    (show -2 ^ 15 ≤ (-32768 : ℤ) by omega) (show -32768 ≤ (32767 : ℤ) by omega) (by omega) rfl
  constructor
  case step =>
    intro n hn
    rw [← hstepFlag, ← extend_eq]
    exact ⟨_, hstep, built_typed rfl (.inr rfl) hn rfl rfl⟩
  case normal =>
    intro n hn
    rw [← hwordFlag, ← extend_eq]
    exact ⟨_, hword, built_typed rfl (.inr rfl) hn rfl rfl⟩
  case normalOnly => exact ⟨_, hword, by rw [built_eq]; cases timeTag <;> rfl⟩
  case scaled =>
    intro n hn
    rw [← hwordFlag, ← extend_eq]
    exact ⟨_, hword, built_typed rfl (.inr rfl) hn rfl rfl⟩
  case setpointNormal =>
    exact fun n hn => ⟨_, hword, built_typed rfl (.inl rfl) hn rfl rfl⟩
  case setpointScaled =>
    exact fun n hn => ⟨_, hword, built_typed rfl (.inl rfl) hn rfl rfl⟩
  case parameters =>
    refine ⟨_, hword, ?_, ?_⟩ <;> rw [built_eq] <;> cases timeTag <;> rfl
  case single =>
    intro n hn
    rw [← boolVal_eq]
    exact built_typed rfl (.inr rfl) hn rfl rfl
  case double =>
    intro n hn
    rw [← boolVal_eq]
    exact built_typed rfl (.inr rfl) hn rfl rfl

-- The overflow quality, where there is one.
def Info.overflow : Info → Bool
  | stepPosition _ _ qds => qds.overflow
  | measuredNormal _ (some qds) => qds.overflow
  | measuredScaled _ qds => qds.overflow
  | _ => false

-- The overflow of an object says whether its value was outside the range of 16 bits.
def FlagsOverflow (pl : Platform) (value k₁ k₂ : ℚ) (q : Quality) (asduNum : ℤ) : Prop :=
  (built pl 0 1 value k₁ k₂ false 0 q none false asduNum).map Info.overflow =
    some (decide (Outside (-32768) 32767 (value * k₁ + k₂)))

instance (pl : Platform) (value k₁ k₂ : ℚ) (q : Quality) (asduNum : ℤ) :
    Decidable (FlagsOverflow pl value k₁ k₂ q asduNum) :=
  inferInstanceAs (Decidable (_ = _))

-- A value beyond the range of a type without quality is clamped silently, and the overflow that a
-- point has already is kept for a value within the range.
theorem overflow_unflagged :
    ¬FlagsOverflow plainPlatform 40000 1 0 {} 21 ∧
      ¬FlagsOverflow plainPlatform 5 1 0 { overflow := true } 11 := by
  decide +kernel

end Theorems

end JsonScada.Iec60870
