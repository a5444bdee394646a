import JsonScada.Processor.HandleChange.Lemmas
import JsonScada.Processor.Node

namespace JsonScada.Processor.Node

open JsonScada.Library

section Schema

def isNumeric : Option Value → Bool
  | none | some .null | some (.number _) => true
  | _ => false

def isFlag : Option Value → Bool
  | none | some (.bool _) => true
  | _ => false

def isString : Option Value → Bool
  | none | some (.string _) => true
  | _ => false

def isDate : Option Value → Bool
  | none | some .null | some (.dateTime _) => true
  | _ => false

-- The point has the types of the schema in the fields that are read.
structure TypedPoint (fd : Document) : Prop where
  numeric : ∀ k ∈ ["value", "kconv1", "kconv2", "zeroDeadband", "hysteresis", "hiLimit", "loLimit",
      "alarmRange", "priority", "historianPeriod", "historianDeadBand", "historianLastValue",
      "updatesCnt"], isNumeric (fd.lookup k) = true
  flag : ∀ k ∈ ["alarmed", "alarmDisabled", "isEvent", "invalid"], isFlag (fd.lookup k) = true
  string : ∀ k ∈ ["tag", "type", "unit", "stateTextTrue", "stateTextFalse", "eventTextTrue",
      "eventTextFalse", "valueString", "valueJson"], isString (fd.lookup k) = true
  date : ∀ k ∈ ["timeTag", "timeTagAtSource"], isDate (fd.lookup k) = true

-- So has the update of the protocol driver, which always bears its time.
structure TypedUpdate (sdu : Document) : Prop where
  numeric : isNumeric (sdu.lookup "valueAtSource") = true
  flag : ∀ k ∈ ["invalidAtSource", "notTopicalAtSource", "overflowAtSource", "transientAtSource",
      "carryAtSource", "substitutedAtSource", "blockedAtSource", "timeTagAtSourceOk", "rangeCheck",
      "isHistorical", "isNotForHistorical"], isFlag (sdu.lookup k) = true
  string : ∀ k ∈ ["asduAtSource", "valueStringAtSource", "valueJsonAtSource",
      "causeOfTransmissionAtSource"], isString (sdu.lookup k) = true
  date : isDate (sdu.lookup "timeTagAtSource") = true
  timeTag : (sdu.timeOf "timeTag").isSome = true

theorem numeric_cases {v : Option Value} (h : isNumeric v = true) :
    v = none ∨ v = some .null ∨ ∃ x, v = some (.number x) := by
  unfold isNumeric at h
  split at h <;> simp_all

theorem flag_cases {v : Option Value} (h : isFlag v = true) :
    v = none ∨ ∃ b, v = some (.bool b) := by
  unfold isFlag at h
  split at h <;> simp_all

theorem string_cases {v : Option Value} (h : isString v = true) :
    v = none ∨ ∃ s, v = some (.string s) := by
  unfold isString at h
  split at h <;> simp_all

theorem date_cases {v : Option Value} (h : isDate v = true) :
    v = none ∨ v = some .null ∨ ∃ ms, v = some (.dateTime ms) := by
  unfold isDate at h
  split at h <;> simp_all

end Schema

section Operators

variable (rt : Runtime) {d : Document} {k : String}

-- Only null is a number in one language and none in the other.
theorem toNumber_of_not_null (h : isNumeric (d.lookup k) = true) (hnull : d.isNull k = false) :
    toNumber rt (d.lookup k) = d.numOr k .nan := by
  rcases numeric_cases h with hv | hv | ⟨x, hv⟩
  · simp [Document.numOr, Document.num, hv, toNumber]
  · simp [Document.isNull, hv] at hnull
  · simp [Document.numOr, Document.num, hv, toNumber]

-- Below zero: a missing number is not.
theorem lt_toNumber_zero (h : isNumeric (d.lookup k) = true) :
    Double.lt (toNumber rt (d.lookup k)) (.fin 0) = Double.lt (d.numOr k (.fin 0)) (.fin 0) := by
  rcases numeric_cases h with hv | hv | ⟨x, hv⟩
  · simp [Document.numOr, Document.num, hv, toNumber, Double.lt]
  · simp [Document.numOr, Document.num, hv, toNumber]
  · simp [Document.numOr, Document.num, hv, toNumber]

theorem lt_zero_toNumber (h : isNumeric (d.lookup k) = true) :
    Double.lt (.fin 0) (toNumber rt (d.lookup k)) = Double.lt (.fin 0) (d.numOr k (.fin 0)) := by
  rcases numeric_cases h with hv | hv | ⟨x, hv⟩
  · simp [Document.numOr, Document.num, hv, toNumber, Double.lt]
  · simp [Document.numOr, Document.num, hv, toNumber]
  · simp [Document.numOr, Document.num, hv, toNumber]

theorem toNumber_of_truthy (h : isNumeric (d.lookup k) = true) (htruthy : d.truthy k = true) :
    toNumber rt (d.lookup k) = d.numOr k (.fin 0) := by
  rcases numeric_cases h with hv | hv | ⟨x, hv⟩
  · simp [Document.truthy, truthyValue, hv] at htruthy
  · simp [Document.truthy, truthyValue, hv] at htruthy
  · simp [Document.numOr, Document.num, hv, toNumber]

theorem looseEq_of_numeric (x : Double) (h : isNumeric (d.lookup k) = true) :
    looseEq rt x (d.lookup k) = ((d.num k).map (Double.eq x)).getD false := by
  rcases numeric_cases h with hv | hv | ⟨y, hv⟩ <;> simp [Document.num, hv, looseEq, toNumber]

theorem text_of_has (h : isString (d.lookup k) = true) (hhas : d.has k = true) :
    text (d.lookup k) = d.str k := by
  rcases string_cases h with hv | ⟨s, hv⟩
  · simp [Document.has, hv] at hhas
  · simp [Document.str, hv, text]

theorem rawOrNil_of_has (h : isString (d.lookup k) = true) (hhas : d.has k = true) :
    rawOrNil (d.lookup k) = .string (d.str k) := by
  rcases string_cases h with hv | ⟨s, hv⟩
  · simp [Document.has, hv] at hhas
  · simp [Document.str, hv, rawOrNil]

theorem lookup_of_has (h : isString (d.lookup k) = true) (hhas : d.has k = true) :
    d.lookup k = some (.string (d.str k)) := by
  rcases string_cases h with hv | ⟨s, hv⟩
  · simp [Document.has, hv] at hhas
  · simp [Document.str, hv]

-- A missing text is an empty one for Go, and no text at all for JavaScript.
theorem isText_of_string (s : String) (h : isString (d.lookup k) = true)
    (hhas : s ≠ "" ∨ d.has k = true) : (!isText s (d.lookup k)) = decide (s ≠ d.str k) := by
  rcases string_cases h with hv | ⟨t, hv⟩
  · simp only [Document.has, hv, Option.isSome_none, Bool.false_eq_true, or_false] at hhas
    simp [isText, Document.str, hv, hhas]
  · simp [isText, Document.str, hv, eq_comm]

theorem boolStrict_of_flag (h : isFlag (d.lookup k) = true) :
    decide (d.boolStrict k = some true) = d.truthy k := by
  rcases flag_cases h with hv | ⟨b, hv⟩ <;> simp [Document.boolStrict, Document.truthy, truthyValue, hv]

end Operators

section Numbers

-- Halfway between two decimals, the smaller of which is even: rounding to even and
-- rounding away from zero part here.
def tiesDown (v : Double) (digits : Nat) : Bool :=
  match v with
  | .fin q =>
      let scaled := |q| * 10 ^ digits
      |q| < 10 ^ 21 && scaled - ⌊scaled⌋ = 1 / 2 && ⌊scaled⌋ % 2 = 0
  | _ => false

theorem parseFloatToFixed_eq (rt : Runtime) (pl : Platform) (hround : rt.round = pl.round)
    {v : Double} {digits : Nat} (h : tiesDown v digits = false) :
    parseFloatToFixed rt v digits = jsParseFloatToFixed pl v digits := by
  cases v with
  | nan => rfl
  | inf s => rfl
  | fin q =>
      by_cases hlarge : 10 ^ 21 ≤ |q|
      · simp [parseFloatToFixed, jsParseFloatToFixed, hlarge]
      · have htie :
            ¬(|q| * 10 ^ digits - ⌊|q| * 10 ^ digits⌋ = 1 / 2 ∧ ⌊|q| * 10 ^ digits⌋ % 2 = 0) := by
          rintro ⟨hhalf, heven⟩
          simp [tiesDown, not_le.mp hlarge, hhalf, heven] at h
        have hsize := Double.roundEven_of_not_tie htie
        simp only [parseFloatToFixed, jsParseFloatToFixed, hlarge, if_false, hround, ← hsize]
        by_cases hneg : q < 0
        · have hflip : q * 10 ^ digits = -(|q| * 10 ^ digits) := by
            rw [abs_of_neg hneg]
            ring
          rw [if_pos hneg, hflip, Double.roundEven_neg]
        · rw [if_neg hneg, abs_of_nonneg (not_lt.mp hneg)]

-- Years of four digits are written alike.
theorem toISOString_eq {ms : Int} (h : 0 ≤ utcYear ms ∧ utcYear ms ≤ 9999) :
    toISOString ms = jsISODate ms := by
  refine Calendar.isoDate_congr ?_
  have hyear := h
  simp only [utcYear] at hyear
  simp [hyear, not_lt.mpr hyear.1]

end Numbers

section Condition

variable (pl : Platform) (rt : Runtime) (fd sdu : Document) (c : Processor.Converted)

-- The update of the point itself is due.
def updatesOwn : Bool := updates fd sdu c && !suppressed fd sdu c.value

-- A historical sample is due.
def samples : Bool := updates fd sdu c && Processor.insertIntoHistorian pl fd sdu c.value

-- The text of the value is stored, in the point or in a sample.
def storesText : Bool := updatesOwn fd sdu c || samples pl fd sdu c

-- An analog enters the sequence of events: for its limits, or as an event.
def analogEvents : Bool :=
  fd.str "type" = "analog" &&
    ((hasLimits fd && rangeChanged fd c.alarmRange) ||
      (!fd.truthy "alarmDisabled" &&
        ((fd.boolStrict "isEvent" = some true && !c.invalid && valueChanged fd c.value) ||
          Processor.isSOE fd sdu)))

-- A digital enters the sequence of events.
def digitalEvents : Bool :=
  Processor.isSOE fd sdu && fd.str "type" ≠ "analog" && !fd.truthy "alarmDisabled" &&
    !sdu.truthy "isNotForHistorical" && !(Double.eq c.value (.fin 0) && fd.truthy "isEvent")

-- There is a reason to update besides a changed text.
def changedAnyway : Bool :=
  Processor.isSOE fd sdu || sdu.truthy "rangeCheck" ||
    (valueChanged fd c.value &&
      !(!Processor.isSOE fd sdu && fd.str "type" = "digital" &&
        fd.boolStrict "isEvent" = some true)) ||
    sourceTimeTagAtSourceChanged fd sdu || fd.isNull "timeTag" || invalidChanged c.invalid fd

def isBitstring : Bool := sdu.has "asduAtSource" && hasPrefix (sdu.str "asduAtSource") "M_BO_"

-- The value of the driver, zero when it gives none.
def sourceValue : Double :=
  let v := sdu.numOr "valueAtSource" (.fin 0)
  if v.isNaN then .fin 0 else v

-- The milliseconds that a Date object can hold.
def inDateRange (d : Document) (key : String) : Prop :=
  ∀ ms, d.timeOf key = some ms → -8640000000000000 ≤ ms ∧ ms ≤ 8640000000000000

-- Where the two languages part, and the port does not make up for it: every read of
-- such a field comes with the condition under which it takes place.
structure Agreed : Prop where
  dates : inDateRange fd "timeTagAtSource" ∧ inDateRange sdu "timeTagAtSource" ∧
    inDateRange sdu "timeTag"
  -- the year of the source time, which Node.js takes in local time
  sourceYear : isSOE rt fd sdu = Processor.isSOE fd sdu
  -- a double point beyond 32 bits
  lowBit : fd.str "type" = "digital" → isDoublePoint sdu = true →
    lowBit (sourceValue sdu) = Processor.lowBit pl (sourceValue sdu)
  -- an analog without value or with null factors
  valueAtSource : fd.str "type" = "analog" → sdu.has "valueAtSource" = true
  kconv1 : fd.str "type" = "analog" → fd.isNull "kconv1" = false
  kconv2 : fd.str "type" = "analog" → fd.isNull "kconv2" = false
  -- the rounding of a printed value
  number : fd.str "type" = "analog" → isBitstring sdu = false → storesText pl fd sdu c = true →
    tiesDown c.value 4 = false
  eventNumber : analogEvents fd sdu c = true → tiesDown c.value 3 = false
  -- null is zero for the arrow that compares with the old value
  oldValue : analogEvents fd sdu c = true → fd.isNull "value" = true →
    Double.lt (.fin 0) c.value.abs = false
  -- texts that are missing
  unit : fd.str "type" = "digital" ∨ fd.str "type" = "analog" → storesText pl fd sdu c = true →
    fd.has "unit" = true
  eventUnit : analogEvents fd sdu c = true → fd.has "unit" = true
  stateText : fd.str "type" = "digital" → storesText pl fd sdu c = true →
    fd.has (if Double.eq c.value (.fin 0) then "stateTextFalse" else "stateTextTrue") = true
  eventText : digitalEvents fd sdu c = true →
    fd.has (if Double.eq c.value (.fin 0) then "eventTextFalse" else "eventTextTrue") = true
  tag : updates fd sdu c = true ∨ analogEvents fd sdu c = true ∨ digitalEvents fd sdu c = true →
    fd.has "tag" = true
  valueString : fd.str "type" = "string" → sdu.str "valueStringAtSource" = "" →
    changedAnyway fd sdu c = true ∨ fd.has "valueString" = true
  valueJson : fd.str "type" = "json" → sdu.str "valueJsonAtSource" = "" →
    changedAnyway fd sdu c = true ∨ fd.has "valueJson" = true
  -- null is a priority that beeps, and a count of zero
  priority : updates fd sdu c = true → fd.truthy "alarmDisabled" = false →
    Processor.newBeep fd sdu c = true → fd.isNull "priority" = false
  updatesCnt : updatesOwn fd sdu c = true → fd.isNull "updatesCnt" = false
  -- a missing alarm state that the conversion does not set is stored as null
  alarmed : updatesOwn fd sdu c = true → fd.has "alarmed" = true ∨
    fd.truthy "alarmDisabled" = true ∨ c.alarmed = true ∨
    (fd.str "type" = "analog" ∧ hasLimits fd = true ∧ (Processor.limitRange pl fd c.value).2 = true)
  -- the texts of a sample
  sampleYear : samples pl fd sdu c = true → ∀ ms,
    sdu.timeOf "timeTag" = some ms ∨ sdu.timeOf "timeTagAtSource" = some ms →
      0 ≤ utcYear ms ∧ utcYear ms ≤ 9999
  sampleJson : samples pl fd sdu c = true →
    jsonColumn rt (sdu.str "valueJsonAtSource") =
      Processor.jsonColumn (sdu.str "valueJsonAtSource")

end Condition

section Conversion

variable {pl : Platform} {rt : Runtime} {fd sdu : Document}

-- What the rest of the handlers reads of a conversion agrees.
structure Matches (pl : Platform) (fd sdu : Document) (c : Processor.Converted)
    (j : Converted) : Prop where
  value : j.value = c.value
  invalid : j.invalid = c.invalid
  transient : j.transient = c.transient
  alarmRange : j.alarmRange = c.alarmRange
  soe : j.soe = c.soe
  alarmed : truthyValue j.alarmed = c.alarmed
  storedAlarm : updatesOwn fd sdu c = true →
    fd.truthy "alarmDisabled" = true ∨ j.alarmed = some (.bool c.alarmed)
  storedText : storesText pl fd sdu c = true → j.valueString = c.valueString
  plainText : fd.str "type" ≠ "digital" → fd.str "type" ≠ "analog" → j.valueString = c.valueString

theorem isMissing_eq (rt : Runtime) (h : isNumeric (sdu.lookup "valueAtSource") = true) :
    isMissing rt (sdu.lookup "valueAtSource") =
      ((sdu.num "valueAtSource").isNone ||
        ((sdu.num "valueAtSource").getD (.fin 0)).isNaN) := by
  rcases numeric_cases h with hv | hv | ⟨x, hv⟩ <;> simp [isMissing, Document.num, hv, toNumber]

-- The value that both conversions start from.
theorem received_eq (rt : Runtime) (h : isNumeric (sdu.lookup "valueAtSource") = true) :
    (if isMissing rt (sdu.lookup "valueAtSource") then .fin 0
      else toNumber rt (sdu.lookup "valueAtSource")) = sourceValue sdu := by
  rcases numeric_cases h with hv | hv | ⟨x, hv⟩
  · simp [isMissing, sourceValue, Document.numOr, Document.num, hv, Double.isNaN]
  · simp [isMissing, sourceValue, Document.numOr, Document.num, hv, Double.isNaN]
  · simp [isMissing, sourceValue, Document.numOr, Document.num, hv, toNumber]

theorem doublePoint_congr {f g : Double → Int} {value : Double} (q : Quality) (txt : String)
    (h : isDoublePoint sdu = true → f value = g value) :
    doublePoint f sdu value q txt = doublePoint g sdu value q txt := by
  by_cases hpoint : isDoublePoint sdu = true
  · simp only [doublePoint, hpoint, h hpoint]
  · simp only [doublePoint, hpoint, Bool.false_eq_true, if_false]

-- A missing alarm state counts as no alarm.
theorem truthy_alarmed : truthyValue (fd.lookup "alarmed") = fd.truthy "alarmed" := rfl

theorem lookup_alarmed (h : isFlag (fd.lookup "alarmed") = true) (hhas : fd.has "alarmed" = true) :
    fd.lookup "alarmed" = some (.bool (fd.truthy "alarmed")) := by
  rcases flag_cases h with hv | ⟨b, hv⟩
  · simp [Document.has, hv] at hhas
  · simp [Document.truthy, truthyValue, hv]

theorem changed_eq (rt : Runtime) (value : Double) (h : isNumeric (fd.lookup "value") = true) :
    (!looseEq rt value (fd.lookup "value")) = valueChanged fd value := by
  rw [looseEq_of_numeric rt value h, valueChanged]
  cases fd.num "value" <;> rfl

theorem rangeChanged_eq (rt : Runtime) (range : Double)
    (h : isNumeric (fd.lookup "alarmRange") = true) :
    (!looseEq rt range (fd.lookup "alarmRange")) = rangeChanged fd range := by
  rw [looseEq_of_numeric rt range h, rangeChanged]
  cases fd.num "alarmRange" with
  | none => rfl
  | some prev =>
      cases range <;> cases prev <;> simp [Double.eq, eq_comm]

theorem isEmpty_eq {k : String} (h : isString (fd.lookup k) = true) (hhas : fd.has k = true) :
    isEmpty (fd.lookup k) = decide (fd.str k = "") := by
  rw [lookup_of_has h hhas]
  rfl

theorem truthy_number (value : Double) (h : value.isNaN = false) :
    truthyValue (some (.number value)) = !Double.eq value (.fin 0) := by
  simp [truthyValue, h]

theorem doublePoint_isNaN (sdu : Document) (f : Double → Int) {value : Double} (q : Quality)
    (txt : String) (h : value.isNaN = false) : (doublePoint f sdu value q txt).1.isNaN = false := by
  simp only [doublePoint]
  split
  · split <;> rfl
  · exact h

theorem invertDigital_isNaN (fd : Document) {value : Double} (h : value.isNaN = false) :
    (invertDigital fd value).isNaN = false := by
  simp only [invertDigital]
  split
  · split
    · split <;> rfl
    · exact h
  · exact h

theorem digital_matches (htyped : TypedPoint fd) (hdigital : fd.str "type" = "digital")
    {q : Quality} {value : Double} {txt : String} (hvalue : value.isNaN = false)
    (hlow : isDoublePoint sdu = true → lowBit value = Processor.lowBit pl value)
    (hagreed : Agreed pl rt fd sdu (Processor.convertDigital pl fd sdu q value txt)) :
    Matches pl fd sdu (Processor.convertDigital pl fd sdu q value txt)
      (convertDigital rt fd sdu q value txt) := by
  have hchanged (v : Double) := changed_eq rt v (htyped.numeric "value" (by simp))
  have hflag := htyped.flag "alarmed" (by simp)
  have hunit := htyped.string "unit" (by simp)
  have hnumber := doublePoint_isNaN sdu (Processor.lowBit pl) q txt hvalue
  have hpoint := doublePoint_congr q txt hlow
  rcases hp : doublePoint (Processor.lowBit pl) sdu value q txt with ⟨v, invalid, transient, qualif⟩
  rw [hp] at hpoint hnumber
  have hfinal := invertDigital_isNaN fd hnumber
  simp only [Processor.convertDigital, hp] at hagreed ⊢
  simp only [convertDigital, hpoint, hchanged, truthy_number _ hfinal]
  refine ⟨rfl, rfl, rfl, rfl, rfl, ?_, ?_, ?_, fun h => absurd hdigital h⟩
  · by_cases hset : (valueChanged fd (invertDigital fd v) && !fd.truthy "alarmDisabled") = true
    · simp [hset, truthyValue]
    · simp [hset, truthy_alarmed]
  · intro hown
    by_cases hset : (valueChanged fd (invertDigital fd v) && !fd.truthy "alarmDisabled") = true
    · simp [hset]
    · simp only [hset, Bool.false_eq_true, if_false]
      rcases hagreed.alarmed hown with hhas | hdisabled | halarm | ⟨hanalog, -⟩
      · right
        simpa [hset] using lookup_alarmed hflag hhas
      · exact .inl hdisabled
      · right
        simp only [hset, Bool.or_false] at halarm ⊢
        rcases flag_cases hflag with hv | ⟨b, hv⟩
        · simp [Document.truthy, truthyValue, hv] at halarm
        · simp_all [Document.truthy, truthyValue]
      · simp [hdigital] at hanalog
  · intro hstores
    have hhas := hagreed.unit (.inl hdigital) hstores
    have hstate := hagreed.stateText hdigital hstores
    simp only at hstate
    by_cases hzero : Double.eq (invertDigital fd v) (.fin 0) = true
    · simp only [hzero, if_true] at hstate ⊢
      simp [text_of_has (htyped.string _ (by simp)) hstate, isEmpty_eq hunit hhas,
        text_of_has hunit hhas]
    · simp only [hzero, Bool.false_eq_true, if_false] at hstate ⊢
      simp [text_of_has (htyped.string _ (by simp)) hstate, isEmpty_eq hunit hhas,
        text_of_has hunit hhas]

theorem scaled_eq (hround : rt.round = pl.round) (htyped : TypedPoint fd)
    (hsource : isNumeric (sdu.lookup "valueAtSource") = true)
    (hhas : sdu.has "valueAtSource" = true) (hkconv1 : fd.isNull "kconv1" = false)
    (hkconv2 : fd.isNull "kconv2" = false) :
    scaled rt fd (sdu.lookup "valueAtSource") =
      Processor.scaled pl fd ((sdu.num "valueAtSource").getD (.fin 0)) := by
  have hnumber : toNumber rt (sdu.lookup "valueAtSource") =
      (sdu.num "valueAtSource").getD (.fin 0) := by
    rcases numeric_cases hsource with hv | hv | ⟨x, hv⟩
    · simp [Document.has, hv] at hhas
    · simp [Document.num, hv, toNumber]
    · simp [Document.num, hv, toNumber]
  have hband (v : Double) :
      (!strictEq (.fin 0) (fd.lookup "zeroDeadband") &&
          Double.lt v.abs (toNumber rt (fd.lookup "zeroDeadband"))) =
        (!Double.eq (fd.numOr "zeroDeadband" (.fin 0)) (.fin 0) &&
          Double.lt v.abs (fd.numOr "zeroDeadband" (.fin 0))) := by
    rcases numeric_cases (htyped.numeric "zeroDeadband" (by simp)) with hv | hv | ⟨x, hv⟩
    · cases v <;> simp [Document.numOr, Document.num, hv, toNumber, Double.lt, Double.abs]
    · cases v <;>
        simp [Document.numOr, Document.num, hv, toNumber, strictEq, Double.lt, Double.abs]
    · cases x <;> simp [Document.numOr, Document.num, hv, toNumber, strictEq, Double.eq, eq_comm]
  simp only [scaled, Processor.scaled, hnumber, hround, hband,
    toNumber_of_not_null rt (htyped.numeric "kconv1" (by simp)) hkconv1,
    toNumber_of_not_null rt (htyped.numeric "kconv2" (by simp)) hkconv2]

theorem limitRange_eq (hround : rt.round = pl.round) (htyped : TypedPoint fd)
    (hlimits : hasLimits fd = true) (value : Double) :
    limitRange rt fd value = Processor.limitRange pl fd value := by
  simp only [hasLimits, Bool.and_eq_true, Bool.not_eq_true'] at hlimits
  have hhysteresis :
      (if fd.truthy "hysteresis" then toNumber rt (fd.lookup "hysteresis") else .fin 0) =
        if fd.truthy "hysteresis" then fd.numOr "hysteresis" (.fin 0) else .fin 0 := by
    by_cases h : fd.truthy "hysteresis" = true
    · simp only [h, if_true, toNumber_of_truthy rt (htyped.numeric "hysteresis" (by simp)) h]
    · simp only [h, Bool.false_eq_true, if_false]
  have hrange :
      (if fd.truthy "alarmRange" then toNumber rt (fd.lookup "alarmRange") else .fin 0) =
        if fd.truthy "alarmRange" then (fd.num "alarmRange").getD (.fin 0) else .fin 0 := by
    by_cases h : fd.truthy "alarmRange" = true
    · simp only [h, if_true, toNumber_of_truthy rt (htyped.numeric "alarmRange" (by simp)) h,
        Document.numOr]
    · simp only [h, Bool.false_eq_true, if_false]
  simp only [limitRange, Processor.limitRange, hhysteresis, hrange, hround,
    toNumber_of_not_null rt (htyped.numeric "hiLimit" (by simp)) hlimits.1.1.1.2,
    toNumber_of_not_null rt (htyped.numeric "loLimit" (by simp)) hlimits.1.2]

theorem arrow_eq (htyped : TypedPoint fd) {value : Double} (up down : String)
    (hold : fd.isNull "value" = true → Double.lt (.fin 0) value.abs = false) :
    arrow rt fd value up down = Processor.arrow fd value up down := by
  rcases numeric_cases (htyped.numeric "value" (by simp)) with hv | hv | ⟨x, hv⟩
  · simp [arrow, Processor.arrow, Document.num, hv, toNumber, Double.abs, Double.lt]
  · have hsmall := hold (by simp [Document.isNull, hv])
    have hlarge : Double.lt value.abs (.fin 0) = false := by
      cases value <;> simp [Double.abs, Double.lt]
    have hzero : (Double.fin 0).abs = .fin 0 := by simp [Double.abs]
    simp [arrow, Processor.arrow, Document.num, hv, toNumber, hzero, hsmall, hlarge]
  · simp [arrow, Processor.arrow, Document.num, hv, toNumber]

theorem eventNumber_eq (hround : rt.round = pl.round) (htyped : TypedPoint fd) {value : Double}
    (hties : tiesDown value 3 = false) (hunit : fd.has "unit" = true) :
    eventNumber rt fd value = Processor.eventNumber pl fd value := by
  simp only [eventNumber, Processor.eventNumber, jsFixedString,
    parseFloatToFixed_eq rt pl hround hties, text_of_has (htyped.string "unit" (by simp)) hunit]

-- The conditions for an entry of an analog.
structure EventAgreed (fd : Document) (value : Double) : Prop where
  number : tiesDown value 3 = false
  oldValue : fd.isNull "value" = true → Double.lt (.fin 0) value.abs = false
  unit : fd.has "unit" = true
  tag : fd.has "tag" = true

theorem limitSoe_eq (hround : rt.round = pl.round) (htyped : TypedPoint fd) (now : Int)
    {value : Double} (hagreed : EventAgreed fd value) (alarmed : Bool) :
    limitSoe rt now fd value alarmed = Processor.limitSoe pl now fd value alarmed := by
  simp only [limitSoe, Processor.limitSoe, arrow_eq htyped _ _ hagreed.oldValue,
    eventNumber_eq hround htyped hagreed.number hagreed.unit,
    rawOrNil_of_has (htyped.string "tag" (by simp)) hagreed.tag]

theorem eventSoe_eq (hround : rt.round = pl.round) (htyped : TypedPoint fd) (now : Int)
    {value : Double} (hagreed : EventAgreed fd value)
    (hsoe : isSOE rt fd sdu = Processor.isSOE fd sdu) :
    eventSoe rt now fd sdu value = Processor.eventSoe pl now fd sdu value := by
  have hsource (h : Processor.isSOE fd sdu = true) :
      rawOrNil (sdu.lookup "timeTagAtSource") =
        .dateTime ((sdu.timeOf "timeTagAtSource").getD now) := by
    unfold Processor.isSOE Document.timeOf at h
    cases hv : sdu.lookup "timeTagAtSource" with
    | none => simp [hv] at h
    | some v =>
        cases v with
        | dateTime ms => simp [rawOrNil, Document.timeOf, hv]
        | _ => simp [hv] at h
  simp only [eventSoe, Processor.eventSoe, arrow_eq htyped _ _ hagreed.oldValue, hsoe,
    eventNumber_eq hround htyped hagreed.number hagreed.unit,
    rawOrNil_of_has (htyped.string "tag" (by simp)) hagreed.tag]
  by_cases h : Processor.isSOE fd sdu = true
  · simp only [h, if_true, hsource h]
  · simp only [h, Bool.false_eq_true, if_false]

-- The limits of an analog, as the two handlers check them: the range, the alarm and
-- the entry for a change of it.
def checkLimitsGo (pl : Platform) (now : Int) (fd : Document) (value : Double) :
    Double × Bool × List Effect :=
  let alarmed := fd.truthy "alarmed"
  if hasLimits fd then
    let (alarmRange, normal) := Processor.limitRange pl fd value
    let alarmed := if normal then false else alarmed
    if rangeChanged fd alarmRange then
      let alarmed := if Double.eq alarmRange (.fin 0) then alarmed else true
      (alarmRange, alarmed, [Processor.limitSoe pl now fd value alarmed])
    else (alarmRange, alarmed, [])
  else (.fin 0, alarmed, [])

def checkLimits (rt : Runtime) (now : Int) (fd : Document) (value : Double) :
    Double × Option Value × List Effect :=
  let alarmed := fd.lookup "alarmed"
  if hasLimits fd then
    let (alarmRange, normal) := limitRange rt fd value
    let alarmed := if normal then some (.bool false) else alarmed
    if !looseEq rt alarmRange (fd.lookup "alarmRange") then
      let alarmed :=
        if looseEq rt alarmRange (some (.number (.fin 0))) then alarmed else some (.bool true)
      (alarmRange, alarmed, [limitSoe rt now fd value (truthyValue alarmed)])
    else (alarmRange, alarmed, [])
  else (.fin 0, alarmed, [])

theorem checkLimits_eq (hround : rt.round = pl.round) (htyped : TypedPoint fd) (now : Int)
    (value : Double)
    (hevent : hasLimits fd = true →
      rangeChanged fd (checkLimitsGo pl now fd value).1 = true → EventAgreed fd value) :
    (checkLimits rt now fd value).1 = (checkLimitsGo pl now fd value).1 ∧
      truthyValue (checkLimits rt now fd value).2.1 = (checkLimitsGo pl now fd value).2.1 ∧
      (checkLimits rt now fd value).2.2 = (checkLimitsGo pl now fd value).2.2 ∧
      (fd.has "alarmed" = true ∨ (checkLimitsGo pl now fd value).2.1 = true ∨
          (hasLimits fd = true ∧ (Processor.limitRange pl fd value).2 = true) →
        (checkLimits rt now fd value).2.1 = some (.bool (checkLimitsGo pl now fd value).2.1)) := by
  have hflag := htyped.flag "alarmed" (by simp)
  have hrange (range : Double) :=
    rangeChanged_eq rt range (htyped.numeric "alarmRange" (by simp))
  -- an alarm state that is there, or set, is a flag
  have hkept (h : fd.has "alarmed" = true ∨ fd.truthy "alarmed" = true) :
      fd.lookup "alarmed" = some (.bool (fd.truthy "alarmed")) := by
    rcases h with h | h
    · exact lookup_alarmed hflag h
    · refine lookup_alarmed hflag ?_
      rcases flag_cases hflag with hv | ⟨b, hv⟩
      · simp [Document.truthy, truthyValue, hv] at h
      · simp [Document.has, hv]
  by_cases hlimits : hasLimits fd = true
  · have hranges : limitRange rt fd value = Processor.limitRange pl fd value :=
      limitRange_eq hround htyped hlimits value
    rcases hr : Processor.limitRange pl fd value with ⟨range, normal⟩
    rw [hr] at hranges
    have hzero : looseEq rt range (some (.number (.fin 0))) = Double.eq range (.fin 0) := rfl
    by_cases hchanged : rangeChanged fd range = true
    · have hsoe := hevent hlimits (by simp [checkLimitsGo, hlimits, hr, hchanged])
      simp only [checkLimits, checkLimitsGo, hlimits, if_true, hranges, hr, hrange, hchanged, hzero,
        limitSoe_eq hround htyped now hsoe, true_and]
      by_cases hraised : Double.eq range (.fin 0) = true
      · cases normal with
        | true => simp [hraised, truthyValue]
        | false => simpa [hraised, truthy_alarmed] using fun h => hkept h
      · simp [hraised, truthyValue]
    · simp only [checkLimits, checkLimitsGo, hlimits, if_true, hranges, hr, hrange, hchanged,
        Bool.false_eq_true, if_false, true_and]
      cases normal with
      | true => simp [truthyValue]
      | false => simpa [truthy_alarmed] using fun h => hkept h
  · simp only [checkLimits, checkLimitsGo, hlimits, Bool.false_eq_true, if_false, true_and, false_and,
      or_false]
    exact ⟨rfl, hkept⟩

theorem analog_matches (hround : rt.round = pl.round) (htyped : TypedPoint fd)
    (hsource : isNumeric (sdu.lookup "valueAtSource") = true)
    (hanalog : fd.str "type" = "analog") (now : Int) {q : Quality} {txt : String}
    {c : Processor.Converted}
    (hc : c = Processor.convertAnalog pl now fd sdu q ((sdu.num "valueAtSource").getD (.fin 0)) txt)
    (hagreed : Agreed pl rt fd sdu c) :
    Matches pl fd sdu c (convertAnalog rt now fd sdu q (sdu.lookup "valueAtSource") txt) := by
  have hscaled := scaled_eq hround htyped hsource (hagreed.valueAtSource hanalog)
    (hagreed.kconv1 hanalog) (hagreed.kconv2 hanalog)
  have hvalue : Processor.scaled pl fd ((sdu.num "valueAtSource").getD (.fin 0)) = c.value := by
    rw [hc]
    rfl
  have hinvalid : c.invalid = q.invalid := by rw [hc]; rfl
  rw [hvalue] at hscaled
  have hevents (h : analogEvents fd sdu c = true) : EventAgreed fd c.value :=
    ⟨hagreed.eventNumber h, hagreed.oldValue h, hagreed.eventUnit h, hagreed.tag (.inr (.inl h))⟩
  -- the entry as an event
  have hevent :
      (if !fd.truthy "alarmDisabled" &&
          ((fd.boolStrict "isEvent" = some true && !q.invalid && valueChanged fd c.value) ||
            isSOE rt fd sdu) then
        [eventSoe rt now fd sdu c.value] else []) =
      if !fd.truthy "alarmDisabled" &&
          ((fd.boolStrict "isEvent" = some true && !q.invalid && valueChanged fd c.value) ||
            Processor.isSOE fd sdu) then
        [Processor.eventSoe pl now fd sdu c.value] else [] := by
    rw [hagreed.sourceYear]
    split
    · next hdue =>
      have hin : analogEvents fd sdu c = true := by
        simp only [analogEvents, hanalog, hinvalid, hdue, Bool.or_true, decide_true, Bool.and_true]
      rw [eventSoe_eq hround htyped now (hevents hin) hagreed.sourceYear]
    · rfl
  -- the text of the value
  have htext (hstores : storesText pl fd sdu c = true) :
      (if sdu.has "asduAtSource" && hasPrefix (sdu.str "asduAtSource") "M_BO_" then
        Decimal.radix2 c.value
      else Decimal.ecmaString (parseFloatToFixed rt c.value 4)) ++ " " ++ text (fd.lookup "unit") =
      (if sdu.has "asduAtSource" && hasPrefix (sdu.str "asduAtSource") "M_BO_" then
        Decimal.radix2 c.value
      else jsFixedString pl c.value 4) ++ " " ++ fd.str "unit" := by
    rw [text_of_has (htyped.string "unit" (by simp)) (hagreed.unit (.inr hanalog) hstores)]
    by_cases hbits : isBitstring sdu = true
    · simp only [isBitstring] at hbits
      simp only [hbits, if_true]
    · rw [Bool.not_eq_true] at hbits
      rw [parseFloatToFixed_eq rt pl hround (hagreed.number hanalog hbits hstores)]
      rfl
  have halarm : c.alarmed = (checkLimitsGo pl now fd c.value).2.1 := by
    conv_rhs => rw [← hvalue]
    rw [hc]
    rfl
  have hrange : c.alarmRange = (checkLimitsGo pl now fd c.value).1 := by
    conv_rhs => rw [← hvalue]
    rw [hc]
    rfl
  have hsoe : c.soe = (checkLimitsGo pl now fd c.value).2.2 ++
      if !fd.truthy "alarmDisabled" &&
          ((fd.boolStrict "isEvent" = some true && !q.invalid && valueChanged fd c.value) ||
            Processor.isSOE fd sdu) then
        [Processor.eventSoe pl now fd sdu c.value] else [] := by
    conv_rhs => rw [← hvalue]
    rw [hc]
    rfl
  have hlimit := checkLimits_eq hround htyped now c.value fun hlimits hchanged =>
    hevents (by simp [analogEvents, hanalog, hlimits, hrange, hchanged])
  refine ⟨hscaled, hinvalid.symm, ?_, ?_, ?_, ?_, ?_, ?_, fun _ h => absurd hanalog h⟩
  · rw [hc]
    rfl
  · rw [hrange, ← hlimit.1, ← hscaled]
    rfl
  · rw [hsoe, ← hlimit.2.2.1, ← hevent, ← hscaled]
    rfl
  · rw [halarm, ← hlimit.2.1, ← hscaled]
    rfl
  · intro hown
    by_cases hdisabled : fd.truthy "alarmDisabled" = true
    · exact .inl hdisabled
    · right
      rw [halarm, ← hlimit.2.2.2 ?_, ← hscaled]
      · rfl
      · rcases hagreed.alarmed hown with hhas | h | h | ⟨-, h⟩
        · exact .inl hhas
        · exact absurd h hdisabled
        · exact .inr (.inl (halarm ▸ h))
        · exact .inr (.inr h)
  · intro hstores
    calc (convertAnalog rt now fd sdu q (sdu.lookup "valueAtSource") txt).valueString
        = _ ++ " " ++ text (fd.lookup "unit") ++ (if txt ≠ "" then " " ++ txt else "") := rfl
      _ = _ ++ " " ++ fd.str "unit" ++ (if txt ≠ "" then " " ++ txt else "") := by
          rw [hscaled, htext hstores]
      _ = c.valueString := by
          conv_lhs => rw [← hvalue]
          rw [hc]
          rfl

end Conversion

end JsonScada.Processor.Node
