import JsonScada.Processor.HandleChange.Lemmas
import JsonScada.Processor.Reprocess

namespace JsonScada.Processor

open JsonScada.Library

section Frame

-- The fields that the handler sets in the document of the point.
def ownFields : List String :=
  ["value", "valueString", "valueJson", "historianLastValue", "timeTag", "overflow", "invalid",
    "transient", "frozen", "timeTagAtSource", "timeTagAtSourceOk", "updatesCnt", "alarmRange",
    "alarmed", "timeTagAlarm"]

theorem ownSet_fields (pl : Platform) (now : Int) (fd sdu : Document) (c : Converted) :
    ∀ f ∈ ownSet pl now fd sdu c, f.1 ∈ ownFields := by
  intro f hf
  simp only [ownSet, List.mem_append] at hf
  rcases hf with ((hf | hf) | hf) | hf
  · simp only [List.mem_cons, List.not_mem_nil, or_false] at hf
    rcases hf with rfl | rfl | rfl <;> simp [ownFields]
  · split at hf
    · rw [List.mem_singleton.mp hf]
      simp [ownFields]
    · cases hf
  · simp only [List.mem_cons, List.not_mem_nil, or_false] at hf
    rcases hf with rfl | rfl | rfl | rfl | rfl | rfl | rfl | rfl | rfl | rfl <;> simp [ownFields]
  · split at hf
    · rw [List.mem_singleton.mp hf]
      simp [ownFields]
    · cases hf

-- The documents agree on what the handler does not set.
def Agree (fd fd' : Document) : Prop := ∀ k, k ∉ ownFields → fd'.lookup k = fd.lookup k

namespace Agree

variable {fd fd' : Document}

theorem refl (fd : Document) : Agree fd fd := fun _ _ => rfl

theorem applied (pl : Platform) (now : Int) (fd sdu : Document) (c : Converted) :
    Agree fd (applySet fd (ownSet pl now fd sdu c)) := fun _ hk =>
  lookup_applySet_of_fields (ownSet_fields pl now fd sdu c) hk

variable (h : Agree fd fd')

include h

theorem has {k : String} (hk : k ∉ ownFields) : fd'.has k = fd.has k := by
  rw [Document.has, h k hk, Document.has]

theorem isNull {k : String} (hk : k ∉ ownFields) : fd'.isNull k = fd.isNull k := by
  rw [Document.isNull, h k hk, Document.isNull]

theorem str {k : String} (hk : k ∉ ownFields) : fd'.str k = fd.str k := by
  rw [Document.str, h k hk, Document.str]

theorem num {k : String} (hk : k ∉ ownFields) : fd'.num k = fd.num k := by
  rw [Document.num, h k hk, Document.num]

theorem numOr {k : String} (x : Double) (hk : k ∉ ownFields) : fd'.numOr k x = fd.numOr k x := by
  rw [Document.numOr, h.num hk, Document.numOr]

theorem boolStrict {k : String} (hk : k ∉ ownFields) : fd'.boolStrict k = fd.boolStrict k := by
  rw [Document.boolStrict, h k hk, Document.boolStrict]

theorem truthy {k : String} (hk : k ∉ ownFields) : fd'.truthy k = fd.truthy k := by
  rw [Document.truthy, h k hk, Document.truthy]

theorem type : fd'.str "type" = fd.str "type" := h.str (by decide)

-- What is converted does not depend on what the handler sets.
theorem scaled (pl : Platform) (value : Double) : scaled pl fd' value = scaled pl fd value := by
  simp only [Processor.scaled, h.numOr _ (k := "kconv1") (by decide),
    h.numOr _ (k := "kconv2") (by decide), h.has (k := "zeroDeadband") (by decide),
    h.numOr _ (k := "zeroDeadband") (by decide)]

theorem invertDigital (value : Double) : invertDigital fd' value = invertDigital fd value := by
  simp only [Processor.invertDigital, h.num (k := "kconv1") (by decide)]

theorem hasLimits : hasLimits fd' = hasLimits fd := by
  simp only [Processor.hasLimits, h.has (k := "hiLimit") (by decide),
    h.has (k := "loLimit") (by decide), h.isNull (k := "hiLimit") (by decide),
    h.isNull (k := "loLimit") (by decide), h.truthy (k := "alarmDisabled") (by decide)]

theorem convert (pl : Platform) (now now' : Int) (sdu : Document) :
    (convert pl now' fd' sdu).value = (convert pl now fd sdu).value ∧
      (convert pl now' fd' sdu).valueString = (convert pl now fd sdu).valueString ∧
      (convert pl now' fd' sdu).invalid = (convert pl now fd sdu).invalid := by
  rw [convert_now pl now' fd' sdu now]
  by_cases hdigital : fd.str "type" = "digital"
  · have htext (p : Prop) [Decidable p] : fd'.str (if p then "stateTextFalse" else "stateTextTrue") =
        fd.str (if p then "stateTextFalse" else "stateTextTrue") := by
      by_cases hp : p
      · rw [if_pos hp, h.str (by decide)]
      · rw [if_neg hp, h.str (by decide)]
    simp only [Processor.convert, h.type, hdigital, if_true, convertDigital, h.invertDigital,
      h.str (k := "unit") (by decide), htext, and_self]
  · by_cases hanalog : fd.str "type" = "analog"
    · simp only [Processor.convert, h.type, hanalog, String.reduceEq, if_false, if_true,
        convertAnalog, h.scaled, h.str (k := "unit") (by decide), and_self]
    · simp only [Processor.convert, h.type, hdigital, hanalog, if_false, and_self]

end Agree

end Frame

section Limits

variable (pl : Platform) (now : Int) (fd sdu : Document)

theorem truthyValue_number {x : Double} (h : truthyValue (some (.number x)) = true) : x ≠ .nan := by
  intro hx
  simp [hx, truthyValue, Double.isNaN] at h

theorem not_truthyValue_number {x : Double} (h : truthyValue (some (.number x)) = false)
    (hx : x ≠ .nan) : x = .fin 0 := by
  simp only [truthyValue, Bool.and_eq_false_iff, Bool.not_eq_false'] at h
  rcases h with h | h
  · cases x <;> simp_all [Double.isNaN]
  · exact (Double.eq_iff.mp h).1

-- The range that the limits decide, none in the hysteresis band.
def decidedRange (value : Double) : Option Double :=
  let hysteresis := if fd.truthy "hysteresis" then fd.numOr "hysteresis" (.fin 0) else .fin 0
  let hiLimit := fd.numOr "hiLimit" .nan
  let loLimit := fd.numOr "loLimit" .nan
  if Double.lt (Double.add pl.round hiLimit hysteresis) value then some (.fin 1)
  else if Double.lt value (Double.sub pl.round loLimit hysteresis) then some (.fin (-1))
  else if Double.lt value (Double.sub pl.round hiLimit hysteresis) &&
      Double.lt (Double.add pl.round loLimit hysteresis) value then some (.fin 0)
  else none

def storedRange : Double :=
  if fd.truthy "alarmRange" then (fd.num "alarmRange").getD (.fin 0) else .fin 0

theorem limitRange_eq (value : Double) :
    (limitRange pl fd value).1 = (decidedRange pl fd value).getD (storedRange fd) := by
  simp only [limitRange, decidedRange, storedRange]
  generalize (if fd.truthy "hysteresis" then fd.numOr "hysteresis" (.fin 0) else .fin 0) = hysteresis
  split
  · rfl
  · split
    · rfl
    · split <;> rfl

theorem decidedRange_ne_nan {value r : Double} (h : decidedRange pl fd value = some r) :
    r ≠ .nan := by
  simp only [decidedRange] at h
  generalize (if fd.truthy "hysteresis" then fd.numOr "hysteresis" (.fin 0) else .fin 0) =
    hysteresis at h
  intro hr
  subst hr
  split at h
  · cases h
  · split at h
    · cases h
    · split at h <;> cases h

theorem storedRange_ne_nan : storedRange fd ≠ .nan := by
  unfold storedRange
  by_cases htruthy : fd.truthy "alarmRange" = true
  · rw [if_pos htruthy]
    unfold Document.num
    split
    · next x hlookup =>
      simp only [Document.truthy, hlookup] at htruthy
      exact truthyValue_number htruthy
    · simp
  · rw [if_neg htruthy]
    simp

theorem storedRange_of_number {x : Double} (h : fd.lookup "alarmRange" = some (.number x))
    (hx : x ≠ .nan) : storedRange fd = x := by
  simp only [storedRange, Document.truthy, Document.num, h, Option.getD_some]
  by_cases htruthy : truthyValue (some (.number x)) = true
  · rw [if_pos htruthy]
  · rw [if_neg htruthy]
    exact (not_truthyValue_number (by simpa using htruthy) hx).symm

-- A range is a number, and it stays once it is stored.
theorem limitRange_ne_nan (value : Double) : (limitRange pl fd value).1 ≠ .nan := by
  rw [limitRange_eq]
  cases h : decidedRange pl fd value with
  | none => exact storedRange_ne_nan fd
  | some r => exact decidedRange_ne_nan pl fd h

theorem limitRange_stored {fd fd' : Document} (h : Agree fd fd') (value : Double)
    (hstored : fd'.lookup "alarmRange" = some (.number (limitRange pl fd value).1)) :
    (limitRange pl fd' value).1 = (limitRange pl fd value).1 := by
  have hdecided : decidedRange pl fd' value = decidedRange pl fd value := by
    simp only [decidedRange, h.truthy (k := "hysteresis") (by decide),
      h.numOr _ (k := "hysteresis") (by decide), h.numOr _ (k := "hiLimit") (by decide),
      h.numOr _ (k := "loLimit") (by decide)]
  have hrange := storedRange_of_number fd' hstored (limitRange_ne_nan pl fd value)
  rw [limitRange_eq, hdecided, hrange, limitRange_eq]
  cases decidedRange pl fd value <;> rfl

end Limits

section Change

variable (pl : Platform) (now : Int) {fd fd' sdu : Document}

theorem timeOf_of_not_has {d : Document} {k : String} (h : d.has k = false) : d.timeOf k = none := by
  rw [Document.has, Option.isSome_eq_false_iff, Option.isNone_iff_eq_none] at h
  simp only [Document.timeOf, h]

theorem truthy_of_not_has {d : Document} {k : String} (h : d.has k = false) :
    d.truthy k = false := by
  rw [Document.has, Option.isSome_eq_false_iff, Option.isNone_iff_eq_none] at h
  simp only [Document.truthy, h, truthyValue]

theorem isSOE_of_not_has (h : sdu.has "timeTagAtSource" = false) : isSOE fd sdu = false := by
  simp only [isSOE, timeOf_of_not_has h]

theorem digitalSoe_of_not_has (h : sdu.has "timeTagAtSource" = false) (c : Converted) :
    digitalSoe now fd sdu c = [] := by
  simp only [digitalSoe, isSOE_of_not_has h, Bool.false_and, Bool.false_eq_true, if_false]

-- The tests that are left for an update without source time and range check.
theorem changedForUpdate_eq (hsource : sdu.has "timeTagAtSource" = false)
    (hrange : sdu.has "rangeCheck" = false) (c : Converted) :
    changedForUpdate fd sdu c =
      ((valueChanged fd c.value &&
          !(decide (fd.str "type" = "digital") && decide (fd.boolStrict "isEvent" = some true))) ||
        (decide (fd.str "type" = "string") && decide (c.valueString ≠ fd.str "valueString")) ||
        (decide (fd.str "type" = "json") &&
          decide (sdu.str "valueJsonAtSource" ≠ fd.str "valueJson")) ||
        fd.isNull "timeTag" || invalidChanged c.invalid fd) := by
  simp only [changedForUpdate, isSOE_of_not_has hsource, truthy_of_not_has hrange,
    sourceTimeTagAtSourceChanged, timeOf_of_not_has hsource, Bool.false_or, Bool.not_false,
    Bool.true_and, Bool.or_false]

theorem doublePoint_value_ne_nan (low : Double → Int) {value : Double} (h : value ≠ .nan)
    (q : Quality) (txt : String) : (doublePoint low sdu value q txt).1 ≠ .nan := by
  unfold doublePoint
  split
  · dsimp only
    split <;> simp
  · exact h

theorem invertDigital_ne_nan {value : Double} (h : value ≠ .nan) :
    invertDigital fd value ≠ .nan := by
  unfold invertDigital
  split
  · split
    · split <;> simp
    · exact h
  · exact h

-- Only an analog can be converted to NaN.
theorem analog_of_nan (h : (convert pl now fd sdu).value = .nan) : fd.str "type" = "analog" := by
  have hvalue : (if (sdu.num "valueAtSource").isNone || ((sdu.num "valueAtSource").getD (.fin 0)).isNaN
      then Double.fin 0 else (sdu.num "valueAtSource").getD (.fin 0)) ≠ .nan := by
    split
    · simp
    · next hmissing =>
      intro hnan
      simp [hnan, Double.isNaN] at hmissing
  by_contra hanalog
  by_cases hdigital : fd.str "type" = "digital"
  · simp only [convert, hdigital, if_true, convertDigital] at h
    exact invertDigital_ne_nan (doublePoint_value_ne_nan _ hvalue _ _) h
  · simp only [convert, hdigital, hanalog, if_false] at h
    exact hvalue h

-- What is stored is found unchanged.
theorem not_changed_of_stored (hsource : sdu.has "timeTagAtSource" = false)
    (hrange : sdu.has "rangeCheck" = false) {c c' : Converted}
    (hc : c'.value = c.value ∧ c'.valueString = c.valueString ∧ c'.invalid = c.invalid)
    (hnan : c.value ≠ .nan) :
    valueChanged (applySet fd (ownSet pl now fd sdu c)) c'.value = false ∧
      changedForUpdate (applySet fd (ownSet pl now fd sdu c)) sdu c' = false := by
  obtain ⟨hvalue, htext, hinvalid⟩ := hc
  have hunchanged : valueChanged (applySet fd (ownSet pl now fd sdu c)) c'.value = false := by
    simp only [valueChanged, Document.num, lookup_applySet, lookup_ownSet_value, Option.some_or,
      hvalue, Double.eq_self_iff.mpr hnan, Bool.not_true]
  refine ⟨hunchanged, ?_⟩
  rw [changedForUpdate_eq hsource hrange, hunchanged]
  simp only [Document.str, Document.isNull, invalidChanged, Document.boolStrict, lookup_applySet,
    lookup_ownSet_valueString, lookup_ownSet_valueJson, lookup_ownSet_timeTag,
    lookup_ownSet_invalid, Option.some_or, htext, hinvalid]
  simp

end Change

section Replay

variable (pl : Platform) (now : Int) {fd sdu : Document}

-- Nothing but a row for the realtime table.
def Quiet (es : List Effect) : Prop := ∀ e ∈ es, ∃ tag row, e = .sqlRt tag row

theorem quiet_soe_iff {es : List Effect} (h : ∀ e ∈ es, ∃ entry, e = .soe entry) :
    Quiet es ↔ es = [] := by
  constructor
  · intro hquiet
    rw [List.eq_nil_iff_forall_not_mem]
    intro e he
    obtain ⟨entry, rfl⟩ := h e he
    obtain ⟨_, _, hrow⟩ := hquiet _ he
    cases hrow
  · rintro rfl e he
    cases he

-- The limits give an event for an update that does not change the value.
def limitPending (pl : Platform) (fd sdu : Document) : Bool :=
  decide (fd.str "type" = "analog") && hasLimits fd &&
    rangeChanged fd (limitRange pl fd (convert pl 0 fd sdu).value).1

theorem value_convert : (convert pl now fd sdu).value = (convert pl 0 fd sdu).value := by
  rw [convert_now pl now fd sdu 0]

theorem soe_eq_nil_iff (hsource : sdu.has "timeTagAtSource" = false)
    (hvalue : fd.str "type" = "analog" → valueChanged fd (convert pl now fd sdu).value = false) :
    (convert pl now fd sdu).soe = [] ↔ limitPending pl fd sdu = false := by
  unfold limitPending
  rw [← value_convert pl now]
  by_cases hdigital : fd.str "type" = "digital"
  · simp [convert, hdigital, convertDigital]
  · by_cases hanalog : fd.str "type" = "analog"
    · have hchanged := hvalue hanalog
      simp only [convert, hanalog, String.reduceEq, if_false, if_true, convertAnalog] at hchanged ⊢
      simp only [hchanged, isSOE_of_not_has hsource, Bool.and_false, Bool.or_false,
        Bool.false_eq_true, if_false, List.append_nil, decide_true, Bool.true_and]
      by_cases hlimits : hasLimits fd = true
      · simp only [hlimits, if_true, Bool.true_and]
        split
        · next hrange => simp [hrange]
        · next hrange => simpa using hrange
      · simp [hlimits]
    · simp [convert, hdigital, hanalog]

-- Whether the update, when it comes again, is without effect.
def replayQuiet (pl : Platform) (fd sdu : Document) : Bool :=
  let c := convert pl 0 fd sdu
  if changedForUpdate fd sdu c then
    if suppressed fd sdu c.value then
      fd.truthy "alarmDisabled" && !insertIntoHistorian pl fd sdu c.value
    else !c.value.isNaN
  else !limitPending pl fd sdu

-- The document after the flush of what the handler queued for the point.
def flushed (pl : Platform) (now : Int) (fd sdu : Document) : Document :=
  if writes pl fd sdu then applySet fd (ownSet pl now fd sdu (convert pl now fd sdu)) else fd

theorem processUpdate_of_not_changed (count : Nat) (hsource : sdu.has "timeTagAtSource" = false)
    (h : changedForUpdate fd sdu (convert pl now fd sdu) = false) :
    (processUpdate pl now count fd sdu).1 = (convert pl now fd sdu).soe := by
  simp only [processUpdate, h, Bool.false_and, Bool.false_eq_true, if_false,
    digitalSoe_of_not_has now hsource, List.append_nil]

theorem changedForUpdate_convert :
    changedForUpdate fd sdu (convert pl now fd sdu) =
      changedForUpdate fd sdu (convert pl 0 fd sdu) := by
  rw [convert_now pl now fd sdu 0]
  rfl

theorem quiet_of_not_changed (count : Nat) (hsource : sdu.has "timeTagAtSource" = false)
    (hrange : sdu.has "rangeCheck" = false)
    (h : changedForUpdate fd sdu (convert pl now fd sdu) = false) :
    Quiet (processUpdate pl now count fd sdu).1 ↔ limitPending pl fd sdu = false := by
  rw [processUpdate_of_not_changed pl now count hsource h,
    quiet_soe_iff fun e he => convert_soe pl now fd sdu he, soe_eq_nil_iff pl now hsource]
  intro hanalog
  rw [changedForUpdate_eq hsource hrange] at h
  simp only [hanalog, String.reduceEq, decide_false, Bool.false_and, Bool.not_false, Bool.and_true,
    Bool.or_eq_false_iff] at h
  exact h.1.1.1.1

-- A suppressed OFF state is found changed again.
theorem quiet_of_suppressed (count : Nat) (hsource : sdu.has "timeTagAtSource" = false)
    (hhistorical : sdu.has "isHistorical" = false)
    (h : changedForUpdate fd sdu (convert pl now fd sdu) = true)
    (hsuppressed : suppressed fd sdu (convert pl now fd sdu).value = true) :
    Quiet (processUpdate pl now count fd sdu).1 ↔
      (fd.truthy "alarmDisabled" &&
        !insertIntoHistorian pl fd sdu (convert pl now fd sdu).value) = true := by
  have hdigital : fd.str "type" = "digital" := by
    simp only [suppressed, Bool.and_eq_true, decide_eq_true_eq] at hsuppressed
    exact hsuppressed.1.1.2
  have hsoe : (convert pl now fd sdu).soe = [] := by
    simp [convert, hdigital, convertDigital]
  simp only [processUpdate, h, truthy_of_not_has hhistorical, Bool.not_false, Bool.and_self, if_true,
    hsoe, hsuppressed, digitalSoe_of_not_has now hsource, List.nil_append, List.append_nil,
    hdigital, decide_true, Bool.and_true]
  constructor
  · intro hquiet
    have hcount : fd.truthy "alarmDisabled" = true := by
      by_contra henabled
      obtain ⟨_, _, hrow⟩ := hquiet (countUpdate now (count + 1)) (by simp [henabled])
      simp [countUpdate] at hrow
    have hhist : insertIntoHistorian pl fd sdu (convert pl now fd sdu).value = false := by
      by_contra hhist
      rw [Bool.not_eq_false] at hhist
      obtain ⟨_, _, hrow⟩ := hquiet
        (.hist ⟨histSql fd sdu ((sdu.timeOf "timeTag").getD zeroTime) (convert pl now fd sdu),
          histObj fd sdu ((sdu.timeOf "timeTag").getD zeroTime) (convert pl now fd sdu)⟩)
        (by simp [hhist])
      cases hrow
    simp [hcount, hhist]
  · intro hquiet e he
    rw [Bool.and_eq_true, Bool.not_eq_true'] at hquiet
    simp only [hquiet.1, hquiet.2, Bool.not_true, Bool.false_and, Bool.false_eq_true, if_false,
      List.nil_append, List.mem_singleton] at he
    exact ⟨_, _, he⟩

theorem alarmRange_convert (hanalog : fd.str "type" = "analog") (hlimits : hasLimits fd = true) :
    (convert pl now fd sdu).alarmRange = (limitRange pl fd (convert pl now fd sdu).value).1 := by
  simp only [convert, hanalog, String.reduceEq, if_false, if_true, convertAnalog, hlimits]
  split <;> rfl

-- A value that is stored is found unchanged, with its range.
theorem quiet_of_stored (now' : Int) (count : Nat) (hsource : sdu.has "timeTagAtSource" = false)
    (hrange : sdu.has "rangeCheck" = false) (hnan : (convert pl now fd sdu).value ≠ .nan) :
    Quiet (processUpdate pl now' count
      (applySet fd (ownSet pl now fd sdu (convert pl now fd sdu))) sdu).1 := by
  have hagree := Agree.applied pl now fd sdu (convert pl now fd sdu)
  have hstored : (applySet fd (ownSet pl now fd sdu (convert pl now fd sdu))).lookup "alarmRange" =
      some (.number (convert pl now fd sdu).alarmRange) := by
    rw [lookup_applySet, lookup_ownSet_alarmRange, Option.some_or]
  have hconverted := hagree.convert pl now now' sdu
  have hchanged : changedForUpdate (applySet fd (ownSet pl now fd sdu (convert pl now fd sdu))) sdu
      (convert pl now' (applySet fd (ownSet pl now fd sdu (convert pl now fd sdu))) sdu) = false :=
    (not_changed_of_stored pl now hsource hrange hconverted hnan).2
  rw [quiet_of_not_changed pl now' count hsource hrange hchanged]
  unfold limitPending
  rw [← value_convert pl now', hconverted.1, hagree.type, hagree.hasLimits]
  by_cases hanalog : fd.str "type" = "analog"
  · by_cases hlimits : hasLimits fd = true
    · rw [alarmRange_convert pl now hanalog hlimits] at hstored
      have hne := limitRange_ne_nan pl fd (convert pl now fd sdu).value
      simp only [rangeChanged, limitRange_stored pl hagree _ hstored, Document.num, hstored,
        Double.eq_self_iff.mpr hne, Bool.not_true, Bool.and_false]
    · rw [Bool.not_eq_true] at hlimits
      simp only [hlimits, Bool.and_false, Bool.false_and]
  · simp only [hanalog, decide_false, Bool.false_and]

-- NaN is never equal to what is stored.
theorem not_quiet_of_nan (now' : Int) (count : Nat) (hsource : sdu.has "timeTagAtSource" = false)
    (hrange : sdu.has "rangeCheck" = false) (hhistorical : sdu.has "isHistorical" = false)
    (hnan : (convert pl now fd sdu).value = .nan) :
    ¬ Quiet (processUpdate pl now' count
      (applySet fd (ownSet pl now fd sdu (convert pl now fd sdu))) sdu).1 := by
  have hagree := Agree.applied pl now fd sdu (convert pl now fd sdu)
  have hanalog := analog_of_nan pl now hnan
  intro hquiet
  have hvalue :
      (convert pl now' (applySet fd (ownSet pl now fd sdu (convert pl now fd sdu))) sdu).value =
        .nan := by
    rw [(hagree.convert pl now now' sdu).1, hnan]
  have hown := (rt_mem_processUpdate_iff pl now' count
    (applySet fd (ownSet pl now fd sdu (convert pl now fd sdu))) sdu
    (u := ownUpdate pl now' _ sdu _)).mpr ⟨?_, .inr (.inr ⟨?_, rfl⟩)⟩
  · obtain ⟨_, _, hrow⟩ := hquiet _ hown
    cases hrow
  · rw [updates, changedForUpdate_eq hsource hrange, hvalue, hagree.type, hanalog,
      truthy_of_not_has hhistorical]
    simp [valueChanged, Document.num, lookup_applySet, lookup_ownSet_value, hnan, Double.eq]
  · simp [suppressed, hagree.type, hanalog]

end Replay

section Repeated

-- A protection event that was invalid, and its OFF state.
def eventPoint : Document :=
  [("_id", .number (.fin 7)), ("tag", .string "P"), ("type", .string "digital"),
    ("isEvent", .bool true), ("value", .number (.fin 1)), ("invalid", .bool true),
    ("alarmed", .bool false), ("alarmDisabled", .bool false), ("timeTag", .dateTime 0),
    ("updatesCnt", .number (.fin 0))]

def offState : Document := [("valueAtSource", .number (.fin 0))]

end Repeated

end JsonScada.Processor
