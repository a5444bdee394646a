import JsonScada.Processor.Bson
import JsonScada.Processor.Replay

-- The events of the analog limits, and the updates that store what they tell.
namespace JsonScada.Processor

open JsonScada.Library

variable (pl : Platform) (now : Int) (count : Nat) (fd sdu : Document)

section Definitions

-- The value that an analog is scaled from.
def analogSource : Double := (sdu.num "valueAtSource").getD (.fin 0)

def analogInvalid : Bool :=
  (qualityBits sdu).invalid || ((sdu.num "valueAtSource").isNone || (analogSource sdu).isNaN)

-- An analog with enabled limits whose value is in another range than the stored one.
def rangeEntered : Bool :=
  decide (fd.str "type" = "analog") && hasLimits fd &&
    rangeChanged fd (limitRange pl fd (scaled pl fd (analogSource sdu))).1

-- An update of an analog that is stored: not for its range, but for its value, its times, its
-- validity or because it asks for it.
def rangeWritten : Bool :=
  !sdu.truthy "isHistorical" &&
    (isSOE fd sdu || sdu.truthy "rangeCheck" ||
      valueChanged fd (scaled pl fd (analogSource sdu)) || sourceTimeTagAtSourceChanged fd sdu ||
      fd.isNull "timeTag" || invalidChanged (analogInvalid sdu) fd)

-- A limit event of an analog is among the effects.
def EmitsLimitEvent : Prop :=
  fd.str "type" = "analog" ∧ ∃ alarmed,
    limitSoe pl now fd (convert pl now fd sdu).value alarmed ∈ (processUpdate pl now count fd sdu).1

-- A limit event comes with an update of the point which has the new range, and after it the
-- same update has no limit event.
def LimitEventPaired : Prop :=
  EmitsLimitEvent pl now count fd sdu →
    ∃ u, .rt u ∈ (processUpdate pl now count fd sdu).1 ∧ u.id = rawOrNil (fd.lookup "_id") ∧
      u.set.reverse.lookup "alarmRange" =
        some (.number (limitRange pl fd (scaled pl fd (analogSource sdu))).1) ∧
      ∀ now' count', ¬EmitsLimitEvent pl now' count' (applySet fd u.set) sdu

end Definitions

section Analog

variable {pl now count fd sdu}

theorem value_analog (h : fd.str "type" = "analog") :
    (convert pl now fd sdu).value = scaled pl fd (analogSource sdu) := by
  simp only [convert, h, String.reduceEq, if_false, if_true, convertAnalog, analogSource]

theorem invalid_analog (h : fd.str "type" = "analog") :
    (convert pl now fd sdu).invalid = analogInvalid sdu := by
  simp only [convert, h, String.reduceEq, if_false, if_true, convertAnalog, analogInvalid,
    analogSource]

theorem updates_analog (now : Int) (h : fd.str "type" = "analog") :
    updates fd sdu (convert pl now fd sdu) = rangeWritten pl fd sdu := by
  have hstring : (fd.str "type" = "string") = False := by rw [h]; decide
  have hjson : (fd.str "type" = "json") = False := by rw [h]; decide
  have hdigital : (fd.str "type" = "digital") = False := by rw [h]; decide
  rw [updates, changedForUpdate, value_analog h, invalid_analog h, rangeWritten, Bool.and_comm]
  simp only [hstring, hjson, hdigital, decide_false, Bool.false_and, Bool.and_false, Bool.not_false,
    Bool.and_true, Bool.or_false]

theorem suppressed_analog (h : fd.str "type" = "analog") (value : Double) :
    suppressed fd sdu value = false := by
  simp [suppressed, h]

-- Of two texts that go on differently after the same beginning.
theorem eventText_ne (fd : Document) (value : Double) (flag : Bool) :
    arrow fd value " ↑" " ↓" ≠
      arrow fd value " ⤉" " ⤈" ++ if flag then " 🚩" else " 🆗" := by
  unfold arrow
  cases fd.num "value" with
  | none =>
      dsimp only
      cases flag <;> decide
  | some old =>
      dsimp only
      split
      · cases flag <;> decide
      · split <;> cases flag <;> decide

theorem limitSoe_ne_eventSoe (now : Int) (value : Double) (alarmed : Bool) :
    limitSoe pl now fd value alarmed ≠ eventSoe pl now fd sdu value := by
  intro h
  simp only [limitSoe, eventSoe, soeEntry, Effect.soe.injEq, List.cons.injEq, Prod.mk.injEq,
    Value.string.injEq] at h
  have htext := h.2.2.2.2.1.2
  rw [String.append_assoc, String.append_right_inj] at htext
  exact eventText_ne fd value alarmed htext.symm

theorem limitSoe_mem_convertAnalog {q : Quality} {source : Double} {txt : String} :
    (∃ alarmed, limitSoe pl now fd (scaled pl fd source) alarmed ∈
      (convertAnalog pl now fd sdu q source txt).soe) ↔
        (hasLimits fd && rangeChanged fd (limitRange pl fd (scaled pl fd source)).1) = true := by
  have hevent (alarmed b : Bool) : limitSoe pl now fd (scaled pl fd source) alarmed ∉
      if b then [eventSoe pl now fd sdu (scaled pl fd source)] else [] := by
    cases b with
    | false => simp
    | true => simpa using limitSoe_ne_eventSoe now (scaled pl fd source) alarmed
  by_cases hlimits : hasLimits fd = true
  · by_cases hrange : rangeChanged fd (limitRange pl fd (scaled pl fd source)).1 = true
    · simp only [convertAnalog, hlimits, hrange, if_true, Bool.and_self, iff_true]
      exact ⟨_, List.mem_append_left _ (List.mem_singleton.mpr rfl)⟩
    · simp only [convertAnalog, hlimits, hrange, if_true, Bool.false_eq_true, if_false, Bool.and_false,
        List.nil_append, iff_false, not_exists]
      exact fun alarmed => hevent alarmed _
  · simp only [convertAnalog, hlimits, Bool.false_and, Bool.false_eq_true, if_false, List.nil_append,
      iff_false, not_exists]
    exact fun alarmed => hevent alarmed _

-- An event of the limits, and none else, is emitted for a value in another range.
theorem emitsLimitEvent_iff : EmitsLimitEvent pl now count fd sdu ↔ rangeEntered pl fd sdu = true := by
  by_cases h : fd.str "type" = "analog"
  · have hsoe (alarmed : Bool) : limitSoe pl now fd (convert pl now fd sdu).value alarmed ∈
        (processUpdate pl now count fd sdu).1 ↔
          limitSoe pl now fd (convert pl now fd sdu).value alarmed ∈ (convert pl now fd sdu).soe := by
      constructor
      · intro hmem
        rcases soe_mem_processUpdate pl now count fd sdu hmem with hmem | hmem
        · exact hmem
        · simp [digitalSoe, h] at hmem
      · intro hmem
        unfold processUpdate
        dsimp only
        split
        · simp only [List.append_assoc]
          exact List.mem_append_left _ hmem
        · exact List.mem_append_left _ hmem
    have hconvert : (convert pl now fd sdu).soe =
        (convertAnalog pl now fd sdu { qualityBits sdu with invalid := analogInvalid sdu }
          (analogSource sdu)
          (qualifier { qualityBits sdu with invalid := analogInvalid sdu })).soe := by
      simp only [convert, h, String.reduceEq, if_false, if_true, analogInvalid, analogSource]
    simp only [EmitsLimitEvent, hsoe, h, true_and]
    rw [value_analog h, hconvert, limitSoe_mem_convertAnalog, rangeEntered, h]
    rfl
  · simp [EmitsLimitEvent, rangeEntered, h]

theorem alarmRange_analog (h : fd.str "type" = "analog") (hlimits : hasLimits fd = true) :
    (convert pl now fd sdu).alarmRange = (limitRange pl fd (scaled pl fd (analogSource sdu))).1 := by
  rw [alarmRange_convert pl now h hlimits, value_analog h]

-- The update of the point is the only one that has a range.
theorem own_of_alarmRange {u : RtUpdate} {x : Value}
    (hu : .rt u ∈ (processUpdate pl now count fd sdu).1)
    (hx : u.set.reverse.lookup "alarmRange" = some x) :
    u = ownUpdate pl now fd sdu (convert pl now fd sdu) := by
  rcases rt_cases pl now count fd sdu hu with hsystem | ⟨-, hown⟩
  · rw [hsystem.lookup (by decide)] at hx
    cases hx
  · exact hown

-- A range that is stored is not entered again by the same value.
theorem not_rangeEntered_of_stored {fd' : Document} (hagree : Agree fd fd')
    (hstored : fd'.lookup "alarmRange" =
      some (.number (limitRange pl fd (scaled pl fd (analogSource sdu))).1)) :
    rangeEntered pl fd' sdu = false := by
  have hnan := limitRange_ne_nan pl fd (scaled pl fd (analogSource sdu))
  have hsame := limitRange_stored pl hagree (scaled pl fd (analogSource sdu)) hstored
  have hnum : fd'.num "alarmRange" =
      some (limitRange pl fd (scaled pl fd (analogSource sdu))).1 := by
    simp only [Document.num, hstored]
  rw [rangeEntered, hagree.scaled, hsame, rangeChanged, hnum]
  simp only [Double.eq_self_iff.mpr hnan, Bool.not_true, Bool.and_false]

theorem rangeWritten_of_paired (hpaired : LimitEventPaired pl now count fd sdu)
    (hentered : rangeEntered pl fd sdu = true) : rangeWritten pl fd sdu = true := by
  obtain ⟨u, hu, -, hrange, -⟩ := hpaired (emitsLimitEvent_iff.mpr hentered)
  have hanalog := (emitsLimitEvent_iff.mpr hentered : EmitsLimitEvent pl now count fd sdu).1
  rw [← updates_analog now hanalog]
  exact ((rt_mem_processUpdate_iff pl now count fd sdu).mp hu).1

theorem limit_event_paired_iff (pl : Platform) (now : Int) (count : Nat) (fd sdu : Document) :
    LimitEventPaired pl now count fd sdu ↔
      (rangeEntered pl fd sdu = true → rangeWritten pl fd sdu = true) := by
  constructor
  · exact rangeWritten_of_paired
  · intro hwritten hemits
    have hentered := emitsLimitEvent_iff.mp hemits
    have hlimits : hasLimits fd = true := by
      simp only [rangeEntered, Bool.and_eq_true] at hentered
      exact hentered.1.2
    have hstored : (ownSet pl now fd sdu (convert pl now fd sdu)).reverse.lookup "alarmRange" =
        some (.number (limitRange pl fd (scaled pl fd (analogSource sdu))).1) := by
      rw [lookup_ownSet_alarmRange, alarmRange_analog hemits.1 hlimits]
    refine ⟨ownUpdate pl now fd sdu (convert pl now fd sdu), ?_, rfl, hstored, ?_⟩
    · refine (rt_mem_processUpdate_iff pl now count fd sdu).mpr ⟨?_, .inr (.inr ⟨?_, rfl⟩)⟩
      · rw [updates_analog now hemits.1]
        exact hwritten hentered
      · exact suppressed_analog hemits.1 _
    · intro now' count' hagain
      have hagree := Agree.applied pl now fd sdu (convert pl now fd sdu)
      have hsecond := emitsLimitEvent_iff.mp hagain
      rw [ownUpdate, not_rangeEntered_of_stored hagree] at hsecond
      · cases hsecond
      · rw [lookup_applySet, hstored, Option.some_or]

end Analog

section Samples

-- A point whose high limit was set below its value.
def loweredLimit : Document :=
  [("_id", .number (.fin 7)), ("tag", .string "OVEN.TEMP"), ("type", .string "analog"),
    ("kconv1", .number (.fin 1)), ("kconv2", .number (.fin 0)), ("value", .number (.fin 50)),
    ("invalid", .bool false), ("timeTag", .dateTime 0), ("alarmRange", .number (.fin 0)),
    ("alarmed", .bool false), ("alarmDisabled", .bool false), ("hiLimit", .number (.fin 40)),
    ("loLimit", .number (.fin 10)), ("hysteresis", .number (.fin 0))]

def sameReading : Document := [("valueAtSource", .number (.fin 50))]

-- The same value enters the range above the limit, and the range is not stored.
theorem loweredLimit_not_paired :
    ¬LimitEventPaired exactPlatform 0 0 loweredLimit sameReading := by
  intro hpaired
  have hentered : rangeEntered exactPlatform loweredLimit sameReading = true := by decide +kernel
  exact absurd (rangeWritten_of_paired hpaired hentered) (by decide +kernel)

end Samples

end JsonScada.Processor
