import JsonScada.Processor.Limits
import JsonScada.Processor.Tuples.Reading

-- Whether the values that are stored and sent to the historian are finite numbers.
namespace JsonScada.Processor

open JsonScada.Library
open JsonScada.Library.Sql

section Definitions

variable (pl : Platform) (fd sdu : Document)

-- The guard in front of the conversions.
def sourceMissing : Bool := (sdu.num "valueAtSource").isNone || (analogSource sdu).isNaN

-- An analog or digital point with finite factors, and a source value that is not infinite.
structure FiniteInputs : Prop where
  type : fd.str "type" = "analog" ∨ fd.str "type" = "digital"
  kconv1 : ∃ k, fd.num "kconv1" = some (.fin k)
  kconv2 : ∃ k, fd.num "kconv2" = some (.fin k)
  source : ∀ negative, sdu.num "valueAtSource" ≠ some (.inf negative)

-- A value that is written is a finite number, the sample says the same number in both of its
-- forms, and what has no source value is marked as invalid.
structure FiniteNumbers (effects : List Effect) : Prop where
  stored : ∀ u, .rt u ∈ effects → ∀ x, u.set.num "value" = some x → x.isFinite = true
  sampled : ∀ entry, .hist entry ∈ effects → ∃ q, entry.obj.num "value" = some (.fin q) ∧
    ∀ fields, readTuple entry.sql.toList = some fields →
      fields[2]? = some (word (Decimal.ecmaString (.fin q)))
  storedInvalid : sourceMissing sdu = true → ∀ u, .rt u ∈ effects → u.set.has "invalid" = true →
    u.set.boolStrict "invalid" = some true
  sampledInvalid : sourceMissing sdu = true → ∀ entry, .hist entry ∈ effects →
    entry.obj.boolStrict "invalid" = some true

-- The source value is a number, and neither the product nor the sum is out of range.
def scalesFinite : Bool :=
  match analogSource sdu, fd.num "kconv1", fd.num "kconv2" with
  | .fin s, some (.fin k1), some (.fin k2) =>
      match pl.round (s * k1) with
      | .fin p => (pl.round (p + k2)).isFinite
      | _ => false
  | _, _, _ => false

end Definitions

section Values

variable {pl : Platform} {now : Int} {count : Nat} {fd sdu : Document}

theorem isFinite_iff {x : Double} : x.isFinite = true ↔ ∃ q, x = .fin q := by
  cases x <;> simp [Double.isFinite]

-- The dead band makes no number finite.
theorem isFinite_deadband (value zdb : Double) :
    (if !Double.eq zdb (.fin 0) && Double.lt value.abs zdb then .fin 0 else value).isFinite =
      value.isFinite := by
  cases value with
  | fin q => split <;> rfl
  | nan => simp [Double.abs, Double.lt]
  | inf negative =>
      cases zdb with
      | fin z => simp [Double.abs, Double.lt]
      | nan => simp [Double.abs, Double.lt]
      | inf negative' => simp [Double.abs, Double.lt]

theorem analogSource_ne_inf (h : FiniteInputs fd sdu) (negative : Bool) :
    analogSource sdu ≠ .inf negative := by
  intro hsource
  unfold analogSource at hsource
  cases hnum : sdu.num "valueAtSource" with
  | none => simp [hnum] at hsource
  | some x =>
      rw [hnum, Option.getD_some] at hsource
      exact h.source negative (hnum.trans (congrArg some hsource))

theorem isFinite_scaled (h : FiniteInputs fd sdu) :
    (scaled pl fd (analogSource sdu)).isFinite = scalesFinite pl fd sdu := by
  obtain ⟨k1, hk1⟩ := h.kconv1
  obtain ⟨k2, hk2⟩ := h.kconv2
  have hraw : (Double.add pl.round (Double.mul pl.round (analogSource sdu) (.fin k1))
      (.fin k2)).isFinite = scalesFinite pl fd sdu := by
    rw [scalesFinite, hk1, hk2]
    cases hsource : analogSource sdu with
    | nan => rfl
    | inf negative => exact absurd hsource (analogSource_ne_inf h negative)
    | fin s =>
        dsimp only [Double.mul]
        cases pl.round (s * k1) with
        | fin p => rfl
        | nan => rfl
        | inf negative => rfl
  simp only [scaled, Document.numOr, hk1, hk2, Option.getD_some]
  split
  · rw [isFinite_deadband, hraw]
  · exact hraw

-- A digital has the number of the guard, or one of its two states.
theorem isFinite_digital (h : FiniteInputs fd sdu) (hdigital : fd.str "type" = "digital") :
    (convert pl now fd sdu).value.isFinite = true := by
  have hguard : (if sourceMissing sdu then .fin 0 else analogSource sdu).isFinite = true := by
    cases hmissing : sourceMissing sdu with
    | true => rfl
    | false =>
        simp only [sourceMissing, Bool.or_eq_false_iff] at hmissing
        cases hsource : analogSource sdu with
        | fin q => rfl
        | nan => simp [hsource, Double.isNaN] at hmissing
        | inf negative => exact absurd hsource (analogSource_ne_inf h negative)
  have hpoint (value : Double) (q : Quality) (txt : String) (hvalue : value.isFinite = true) :
      (doublePoint (lowBit pl) sdu value q txt).1.isFinite = true := by
    unfold doublePoint
    split
    · dsimp only
      split <;> rfl
    · exact hvalue
  have hinvert (value : Double) (hvalue : value.isFinite = true) :
      (invertDigital fd value).isFinite = true := by
    unfold invertDigital
    split
    · split
      · split <;> rfl
      · exact hvalue
    · exact hvalue
  simp only [convert, hdigital, if_true, convertDigital]
  exact hinvert _ (hpoint _ _ _ hguard)

theorem isFinite_convert_iff (h : FiniteInputs fd sdu) :
    (convert pl now fd sdu).value.isFinite = true ↔
      (fd.str "type" = "analog" → scalesFinite pl fd sdu = true) := by
  rcases h.type with hanalog | hdigital
  · rw [value_analog hanalog, isFinite_scaled h]
    simp only [hanalog, forall_const]
  · have hne : fd.str "type" ≠ "analog" := by rw [hdigital]; decide
    simp only [isFinite_digital h hdigital, hne, false_implies]

-- What has no source value is invalid.
theorem invalid_convert (h : FiniteInputs fd sdu) (hmissing : sourceMissing sdu = true) :
    (convert pl now fd sdu).invalid = true := by
  rcases h.type with hanalog | hdigital
  · rw [invalid_analog hanalog, analogInvalid]
    simp only [sourceMissing] at hmissing
    rw [hmissing, Bool.or_true]
  · have hpoint (value : Double) (q : Quality) (txt : String) (hq : q.invalid = true) :
        (doublePoint (lowBit pl) sdu value q txt).2.1 = true := by
      unfold doublePoint
      split
      · simp only [hq, Bool.or_true]
      · exact hq
    simp only [convert, hdigital, if_true, convertDigital]
    apply hpoint
    simp only [sourceMissing, analogSource] at hmissing
    simp only [hmissing, Bool.or_true]

end Values

section Effects

variable {pl : Platform} {now : Int} {count : Nat} {fd sdu : Document} {c : Converted}

theorem num_ownSet_value : (ownSet pl now fd sdu c).num "value" = some c.value :=
  rfl

theorem invalid_ownSet : (ownSet pl now fd sdu c).boolStrict "invalid" = some c.invalid := by
  have hlookup : (ownSet pl now fd sdu c).lookup "invalid" = some (.bool c.invalid) := by
    simp only [ownSet]
    split <;> split <;> rfl
  simp only [Document.boolStrict, hlookup]

theorem num_histObj_value (htype : fd.str "type" = "analog" ∨ fd.str "type" = "digital") (t : Int) :
    (histObj fd sdu t c).num "value" = some c.value := by
  have hvalue : fd.str "type" ≠ "string" ∧ fd.str "type" ≠ "json" := by
    rcases htype with htype | htype
    · rw [htype]
      decide
    · rw [htype]
      decide
  simp only [histObj, if_neg hvalue.1, if_neg hvalue.2]
  rfl

theorem invalid_histObj (t : Int) : (histObj fd sdu t c).boolStrict "invalid" = some c.invalid :=
  rfl

-- The third field of the row is the value, when the row reads at all.
theorem number_of_readTuple {t : Int} {fields : List (List Token)}
    (h : readTuple (histSql fd sdu t c).toList = some fields) :
    fields[2]? = some (word (Decimal.ecmaString c.value)) := by
  have hfree : Free (histSql fd sdu t c) :=
    free_of_ne_none fun hnone => by rw [hnone] at h; cases h
  have hread : readTuple (histSql fd sdu t c).toList = some (histFields fd sdu t c) :=
    readTuple_histSql_iff.mpr (free_of_free_histSql hfree)
  obtain rfl : histFields fd sdu t c = fields := Option.some.inj (hread.symm.trans h)
  rfl

theorem finiteNumbers_of_isFinite (h : FiniteInputs fd sdu)
    (hvalue : (convert pl now fd sdu).value.isFinite = true) :
    FiniteNumbers sdu (processUpdate pl now count fd sdu).1 := by
  obtain ⟨q, hq⟩ := isFinite_iff.mp hvalue
  have hrt {u : RtUpdate} (hu : .rt u ∈ (processUpdate pl now count fd sdu).1) :
      (∃ q, u.set.num "value" = some (.fin q)) ∧
        (u.set.has "invalid" = true →
          u.set.boolStrict "invalid" = some (convert pl now fd sdu).invalid) := by
    rcases rt_cases pl now count fd sdu hu with hsystem | ⟨-, rfl⟩
    · exact ⟨hsystem.number, fun hhas => by rw [hsystem.has (by decide)] at hhas; cases hhas⟩
    · exact ⟨⟨q, num_ownSet_value.trans (congrArg some hq)⟩, fun _ => invalid_ownSet⟩
  constructor
  case stored =>
    intro u hu x hx
    obtain ⟨⟨r, hr⟩, -⟩ := hrt hu
    obtain rfl : .fin r = x := Option.some.inj (hr.symm.trans hx)
    rfl
  case sampled =>
    intro entry hentry
    obtain ⟨-, -, rfl⟩ := (hist_mem_processUpdate_iff pl now count fd sdu).mp hentry
    refine ⟨q, (num_histObj_value h.type _).trans (congrArg some hq), fun fields hread => ?_⟩
    rw [number_of_readTuple hread, hq]
  case storedInvalid =>
    intro hmissing u hu hhas
    rw [(hrt hu).2 hhas, invalid_convert h hmissing]
  case sampledInvalid =>
    intro hmissing entry hentry
    obtain ⟨-, -, rfl⟩ := (hist_mem_processUpdate_iff pl now count fd sdu).mp hentry
    exact (invalid_histObj _).trans (congrArg some (invalid_convert h hmissing))

-- What is stored of an analog is finite exactly when its scaling is.
theorem numbers_finite_iff (pl : Platform) (now : Int) (count : Nat) (fd sdu : Document)
    (h : FiniteInputs fd sdu) :
    FiniteNumbers sdu (processUpdate pl now count fd sdu).1 ↔
      (fd.str "type" = "analog" → rangeWritten pl fd sdu = true → scalesFinite pl fd sdu = true) := by
  constructor
  · intro hnumbers hanalog hwritten
    have hupdates : updates fd sdu (convert pl now fd sdu) = true := by
      rw [updates_analog now hanalog, hwritten]
    have hown : .rt (ownUpdate pl now fd sdu (convert pl now fd sdu)) ∈
        (processUpdate pl now count fd sdu).1 :=
      (rt_mem_processUpdate_iff pl now count fd sdu).mpr
        ⟨hupdates, .inr (.inr ⟨suppressed_analog hanalog _, rfl⟩)⟩
    have hvalue := hnumbers.stored _ hown _ num_ownSet_value
    exact (isFinite_convert_iff h).mp hvalue hanalog
  · intro hscales
    by_cases hvalue : (convert pl now fd sdu).value.isFinite = true
    · exact finiteNumbers_of_isFinite h hvalue
    · -- an analog that is not written
      have hanalog : fd.str "type" = "analog" := by
        by_contra hanalog
        exact hvalue ((isFinite_convert_iff h).mpr fun hanalog' => absurd hanalog' hanalog)
      have hunwritten : updates fd sdu (convert pl now fd sdu) = false := by
        rw [updates_analog now hanalog, Bool.eq_false_iff]
        exact fun hwritten => hvalue ((isFinite_convert_iff h).mpr fun _ => hscales hanalog hwritten)
      have hrt (u : RtUpdate) : .rt u ∉ (processUpdate pl now count fd sdu).1 := by
        rw [rt_mem_processUpdate_iff, hunwritten]
        simp
      have hhist (entry : HistEntry) : .hist entry ∉ (processUpdate pl now count fd sdu).1 := by
        rw [hist_mem_processUpdate_iff, hunwritten]
        simp
      exact ⟨fun u hu => absurd hu (hrt u), fun entry hentry => absurd hentry (hhist entry),
        fun _ u hu => absurd hu (hrt u), fun _ entry hentry => absurd hentry (hhist entry)⟩

end Effects

section Samples

def flowMeter : Document :=
  [("_id", .number (.fin 3)), ("tag", .string "FLOW"), ("type", .string "analog"),
    ("kconv1", .number (.fin 2)), ("kconv2", .number (.fin 1)), ("value", .number (.fin 5)),
    ("invalid", .bool false), ("timeTag", .dateTime 0), ("alarmDisabled", .bool false)]

def flowReading (x : Double) : Document := [("valueAtSource", .number x), ("timeTag", .dateTime 0)]

theorem flowMeter_inputs (x : Double) (hx : x.isInf = false) :
    FiniteInputs flowMeter (flowReading x) := by
  constructor
  case type => exact .inl rfl
  case kconv1 => exact ⟨2, rfl⟩
  case kconv2 => exact ⟨1, rfl⟩
  case source =>
    intro negative hsource
    obtain rfl : x = .inf negative := Option.some.inj hsource
    cases hx

-- A reading of 7 is stored as 15.
theorem flowReading_finite :
    FiniteNumbers (flowReading (.fin 7))
      (processUpdate exactPlatform 0 0 flowMeter (flowReading (.fin 7))).1 :=
  (numbers_finite_iff exactPlatform 0 0 flowMeter _ (flowMeter_inputs _ rfl)).mpr fun _ _ => rfl

-- A reading that is not a number is scaled after the guard, and stored as what it is.
theorem flowReading_nan_stored :
    FiniteInputs flowMeter (flowReading .nan) ∧
      ¬FiniteNumbers (flowReading .nan)
        (processUpdate exactPlatform 0 0 flowMeter (flowReading .nan)).1 := by
  refine ⟨flowMeter_inputs _ rfl, fun hnumbers => ?_⟩
  have hown : .rt (ownUpdate exactPlatform 0 flowMeter (flowReading .nan)
      (convert exactPlatform 0 flowMeter (flowReading .nan))) ∈
        (processUpdate exactPlatform 0 0 flowMeter (flowReading .nan)).1 :=
    (rt_mem_processUpdate_iff exactPlatform 0 0 flowMeter (flowReading .nan)).mpr
      ⟨by decide, .inr (.inr ⟨by decide, rfl⟩)⟩
  have hvalue := hnumbers.stored _ hown _ num_ownSet_value
  exact absurd hvalue (by decide)

end Samples

end JsonScada.Processor
