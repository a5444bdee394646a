import JsonScada.Modbus.Client
import JsonScada.Processor.ChangeStream

namespace JsonScada.Modbus

open JsonScada.Library
open JsonScada.Processor

section Marks

variable (round : ℚ → Double) (now : Int) (conn : Double)

-- A block that fails marks each of its tags once.
theorem readBlock_failed (b : Block) (isGi : Bool) (h : b.invalidPublished = false) :
    (readBlock round now conn b none isGi).2 = b.slices.map fun s => queueInvalid now conn s.b.id := by
  simp [readBlock, h]

theorem readBlock_failed_again (b : Block) (isGi : Bool) :
    (readBlock round now conn (readBlock round now conn b none isGi).1 none isGi).2 = [] := by
  by_cases h : b.invalidPublished = true <;> simp [readBlock, h]

end Marks

section Event

variable (now : Int) (conn : Double) (id : Processor.Value) {fd : Document}

def invalidMark : Document :=
  [("invalidAtSource", .bool true), ("timeTag", .dateTime now),
    ("originator", .string (originator conn))]

theorem pathOf_invalidAtSource :
    pathOf "sourceDataUpdate.invalidAtSource" = ["sourceDataUpdate", "invalidAtSource"] := by
  decide

theorem pathOf_timeTag : pathOf "sourceDataUpdate.timeTag" = ["sourceDataUpdate", "timeTag"] := by
  decide

theorem pathOf_originator :
    pathOf "sourceDataUpdate.originator" = ["sourceDataUpdate", "originator"] := by
  decide

-- A point that never had an update gets one.
theorem changeEvent_new (h : fd.lookup "sourceDataUpdate" = none) :
    changeEvent fd (queueInvalid now conn id).set =
      some ⟨"update", some (setField fd "sourceDataUpdate" (.document (invalidMark now conn))),
        some [("sourceDataUpdate", .document (invalidMark now conn))]⟩ := by
  simp [changeEvent, updateSet, queueInvalid, pathOf_invalidAtSource, pathOf_timeTag,
    pathOf_originator, setPath, h, lookup_setField, setField_setField, setField, updatedFields,
    reported, joinPath, valueAt, rawOrNil, invalidMark]

-- The parts of an update that is there are reported apart.
theorem changeEvent_existing {sub : Document}
    (h : fd.lookup "sourceDataUpdate" = some (.document sub)) :
    ∃ fd' fields, changeEvent fd (queueInvalid now conn id).set =
        some ⟨"update", some fd', some fields⟩ ∧
      fields.has "sourceDataUpdate" = false := by
  simp [changeEvent, updateSet, queueInvalid, pathOf_invalidAtSource, pathOf_timeTag,
    pathOf_originator, setPath, h, lookup_setField, setField_setField, setField, updatedFields,
    reported, joinPath, valueAt, rawOrNil]
  rfl

-- Through a value that is no document nothing can be set.
theorem changeEvent_blocked {v : Processor.Value} (h : fd.lookup "sourceDataUpdate" = some v)
    (hv : ∀ sub, v ≠ .document sub) : changeEvent fd (queueInvalid now conn id).set = none := by
  cases v with
  | document sub => exact absurd rfl (hv sub)
  | _ => simp [changeEvent, updateSet, queueInvalid, pathOf_invalidAtSource, setPath, h]

end Event

section Handled

variable (pl : Platform) (now : Int) (count : Nat) (fd sdu : Document)

-- An update without a value is invalid.
theorem invalid_of_missing (h : sdu.num "valueAtSource" = none) :
    (convert pl now fd sdu).invalid = true := by
  by_cases hdigital : fd.str "type" = "digital"
  · simp only [convert, hdigital, if_true, convertDigital, doublePoint, h, Option.isNone_none,
      Bool.true_or, Bool.or_true]
    split <;> simp
  · by_cases hanalog : fd.str "type" = "analog"
    · simp [convert, hanalog, convertAnalog, h]
    · simp [convert, hdigital, hanalog, h]

-- A protection event that is OFF when it has no value.
def offEvent : Bool :=
  fd.truthy "isEvent" && fd.str "type" = "digital" && Double.eq (invertDigital fd (.fin 0)) (.fin 0)

theorem suppressed_mark {sdu : Document} (hvalue : sdu.num "valueAtSource" = none)
    (hasdu : sdu.has "asduAtSource" = false) (hhistorical : sdu.truthy "isHistorical" = false) :
    suppressed fd sdu (convert pl now fd sdu).value = offEvent fd := by
  by_cases hdigital : fd.str "type" = "digital"
  · have hconverted : (convert pl now fd sdu).value = invertDigital fd (.fin 0) := by
      simp [convert, hdigital, convertDigital, doublePoint, isDoublePoint, hvalue, hasdu]
    rw [hconverted]
    simp [suppressed, offEvent, hhistorical]
  · simp [suppressed, offEvent, hdigital]

-- Whether the handler makes the point invalid.
def EmitsInvalid (id : Processor.Value) (ev : ChangeEvent) : Prop :=
  ∃ u, .rt u ∈ (handleChange pl now true count ev).1 ∧ u.id = id ∧
    u.set.reverse.lookup "invalid" = some (.bool true)

theorem emitsInvalid_iff (hvalue : sdu.num "valueAtSource" = none)
    (hasdu : sdu.has "asduAtSource" = false) (hhistorical : sdu.truthy "isHistorical" = false)
    (hinvalid : fd.boolStrict "invalid" ≠ some true) :
    EmitsInvalid pl now count (rawOrNil (fd.lookup "_id"))
        ⟨"update", some fd, some [("sourceDataUpdate", .document sdu)]⟩ ↔
      offEvent fd = false := by
  have hprocess : handleChange pl now true count
      ⟨"update", some fd, some [("sourceDataUpdate", .document sdu)]⟩ =
      processUpdate pl now count fd sdu := rfl
  have hmissing := invalid_of_missing pl now fd sdu hvalue
  have hupdates : updates fd sdu (convert pl now fd sdu) = true := by
    simp [updates, changedForUpdate, invalidChanged, hmissing, hinvalid, hhistorical]
  unfold EmitsInvalid
  rw [hprocess]
  constructor
  · rintro ⟨u, hu, -, hset⟩
    rcases rt_cases pl now count fd sdu hu with hsystem | ⟨hsuppressed, -⟩
    · rw [hsystem.lookup (by decide)] at hset
      cases hset
    · rwa [suppressed_mark pl now fd hvalue hasdu hhistorical] at hsuppressed
  · intro hoff
    rw [← suppressed_mark pl now fd hvalue hasdu hhistorical] at hoff
    refine ⟨ownUpdate pl now fd sdu (convert pl now fd sdu), ?_, rfl, ?_⟩
    · rw [rt_mem_processUpdate_iff]
      exact ⟨hupdates, .inr (.inr ⟨hoff, rfl⟩)⟩
    · rw [ownUpdate, lookup_ownSet_invalid, hmissing]

end Handled

section Mark

variable (pl : Platform) (now now' : Int) (count : Nat) (conn : Double)
  (divide : ChangeEvent → Bool) {fd : Document}

-- What is there already keeps the mark from passing the pipeline.
theorem not_passes_of_existing (id : Processor.Value) {v : Processor.Value}
    (h : fd.lookup "sourceDataUpdate" = some v) {ev : ChangeEvent}
    (hev : changeEvent fd (queueInvalid now' conn id).set = some ev) :
    changeStreamPipeline divide ev = false := by
  by_cases hv : ∃ sub, v = .document sub
  · obtain ⟨sub, rfl⟩ := hv
    obtain ⟨fd', fields, hevent, hfields⟩ := changeEvent_existing now' conn id h
    obtain rfl := Option.some.inj (hev.symm.trans hevent)
    simp [changeStreamPipeline, hfields]
  · rw [changeEvent_blocked now' conn id h (fun sub hsub => hv ⟨sub, hsub⟩)] at hev
    cases hev

theorem offEvent_setField (v : Processor.Value) :
    offEvent (setField fd "sourceDataUpdate" v) = offEvent fd := by
  have htruthy := truthy_setField fd "sourceDataUpdate" v (k := "isEvent") (by decide)
  have hstr := str_setField fd "sourceDataUpdate" v (k := "type") (by decide)
  have hnum := num_setField fd "sourceDataUpdate" v (k := "kconv1") (by decide)
  simp only [offEvent, invertDigital, htruthy, hstr, hnum]

theorem emitsInvalid_new_iff (hinvalid : fd.boolStrict "invalid" ≠ some true) :
    EmitsInvalid pl now count (rawOrNil (fd.lookup "_id"))
        ⟨"update", some (setField fd "sourceDataUpdate" (.document (invalidMark now' conn))),
          some [("sourceDataUpdate", .document (invalidMark now' conn))]⟩ ↔
      offEvent fd = false := by
  have hid : (setField fd "sourceDataUpdate" (.document (invalidMark now' conn))).lookup "_id" =
      fd.lookup "_id" := by
    simp [lookup_setField]
  rw [← hid, emitsInvalid_iff pl now count _ (invalidMark now' conn) rfl rfl rfl,
    offEvent_setField]
  rwa [boolStrict_setField _ _ _ (by decide)]

theorem passes_new (hvalue : fd.has "value" = true) {ev : ChangeEvent}
    (hev : ev = ⟨"update", some (setField fd "sourceDataUpdate" (.document (invalidMark now' conn))),
      some [("sourceDataUpdate", .document (invalidMark now' conn))]⟩) :
    changeStreamPipeline divide ev = divide ev := by
  subst hev
  have hhas := has_setField fd "sourceDataUpdate" (.document (invalidMark now' conn))
    (k := "value") (by decide)
  have hnew : Document.has [("sourceDataUpdate", .document (invalidMark now' conn))]
      "sourceDataUpdate" = true := rfl
  simp [changeStreamPipeline, hhas, hvalue, hnew]

-- The event of an invalid mark.
def markEvent (fd : Document) : Option ChangeEvent :=
  changeEvent fd (queueInvalid now' conn (rawOrNil (fd.lookup "_id"))).set

end Mark

-- A point becomes invalid by its mark exactly when it had no update before, and is not
-- an event that is OFF; such an event is also the only one whose mark passes the
-- pipeline and is then without effect.
theorem becomes_invalid_iff (pl : Platform) (now now' : Int) (count : Nat) (conn : Double)
    (divide : ChangeEvent → Bool) (fd : Document) (hvalue : fd.has "value" = true)
    (hinvalid : fd.boolStrict "invalid" ≠ some true)
    (hdivide : ∀ ev, markEvent now' conn fd = some ev → divide ev = true) :
    ((∃ ev, markEvent now' conn fd = some ev ∧ changeStreamPipeline divide ev = true ∧
        EmitsInvalid pl now count (rawOrNil (fd.lookup "_id")) ev) ↔
      fd.has "sourceDataUpdate" = false ∧ offEvent fd = false) ∧
    ((∀ ev, markEvent now' conn fd = some ev → changeStreamPipeline divide ev = true →
        EmitsInvalid pl now count (rawOrNil (fd.lookup "_id")) ev) ↔
      (fd.has "sourceDataUpdate" = false → offEvent fd = false)) := by
  cases hlookup : fd.lookup "sourceDataUpdate" with
  | some v =>
      have hhas : fd.has "sourceDataUpdate" = true := by simp [Document.has, hlookup]
      have hblocked {ev : ChangeEvent} (hev : markEvent now' conn fd = some ev) :=
        not_passes_of_existing now' conn divide _ hlookup hev
      simp only [hhas, Bool.true_eq_false, false_and, iff_false, false_implies, iff_true]
      constructor
      · rintro ⟨ev, hev, hpasses, -⟩
        rw [hblocked hev] at hpasses
        cases hpasses
      · intro ev hev hpasses
        rw [hblocked hev] at hpasses
        cases hpasses
  | none =>
      have hhas : fd.has "sourceDataUpdate" = false := by simp [Document.has, hlookup]
      have hevent := changeEvent_new now' conn (rawOrNil (fd.lookup "_id")) hlookup
      have hemits := emitsInvalid_new_iff pl now now' count conn hinvalid
      simp only [hhas, true_and, forall_const]
      constructor
      · constructor
        · rintro ⟨ev, hev, -, h⟩
          obtain rfl := Option.some.inj (hev.symm.trans hevent)
          exact hemits.mp h
        · intro hoff
          refine ⟨_, hevent, ?_, hemits.mpr hoff⟩
          rw [passes_new now' conn divide hvalue rfl]
          exact hdivide _ hevent
      · constructor
        · intro h
          apply hemits.mp (h _ hevent ?_)
          rw [passes_new now' conn divide hvalue rfl]
          exact hdivide _ hevent
        · intro hoff ev hev _
          obtain rfl := Option.some.inj (hev.symm.trans hevent)
          exact hemits.mpr hoff

section Silent

-- A point that was read once, and is good.
def goodPoint : Document :=
  [("_id", .number (.fin 1)), ("type", .string "analog"), ("kconv1", .number (.fin 1)),
    ("kconv2", .number (.fin 0)), ("value", .number (.fin 7)), ("invalid", .bool false),
    ("timeTag", .dateTime 0),
    ("sourceDataUpdate", .document [("valueAtSource", .number (.fin 7)),
      ("invalidAtSource", .bool false)])]

-- A protection event that was never read.
def newEvent : Document :=
  [("_id", .number (.fin 2)), ("type", .string "digital"), ("isEvent", .bool true),
    ("kconv1", .number (.fin 1)), ("value", .number (.fin 0)), ("invalid", .bool false),
    ("timeTag", .dateTime 0)]

-- The mark of a point that was read does not pass the pipeline, and the handler would
-- not find it; the mark of an event that is OFF passes, and is suppressed.
theorem mark_without_effect :
    (∃ ev, markEvent 1 (.fin 1) goodPoint = some ev ∧
      changeStreamPipeline (fun _ => true) ev = false ∧
      (handleChange exactPlatform 1 true 0 ev).1 = []) ∧
    ∃ ev, markEvent 1 (.fin 1) newEvent = some ev ∧
      changeStreamPipeline (fun _ => true) ev = true ∧
      ¬ EmitsInvalid exactPlatform 1 0 (.number (.fin 2)) ev := by
  constructor
  · have hread : goodPoint.lookup "sourceDataUpdate" = some (.document
        [("valueAtSource", .number (.fin 7)), ("invalidAtSource", .bool false)]) := rfl
    obtain ⟨fd', fields, hevent, hfields⟩ :=
      changeEvent_existing 1 (.fin 1) (rawOrNil (goodPoint.lookup "_id")) hread
    refine ⟨_, hevent, ?_, ?_⟩
    · simp [changeStreamPipeline, hfields]
    · have hdoc : fields.doc "sourceDataUpdate" = none := by
        rw [Document.has, Option.isSome_eq_false_iff, Option.isNone_iff_eq_none] at hfields
        simp [Document.doc, hfields]
      simp [handleChange, hdoc]
  · have hnew : newEvent.lookup "sourceDataUpdate" = none := rfl
    refine ⟨_, changeEvent_new 1 (.fin 1) (rawOrNil (newEvent.lookup "_id")) hnew, ?_, ?_⟩
    · exact passes_new 1 (.fin 1) _ rfl rfl
    · intro hemits
      have hoff := (emitsInvalid_new_iff exactPlatform 1 1 0 (.fin 1) (by decide)).mp hemits
      revert hoff
      decide

theorem becomes_invalid_iff_new_point :
    ∃ ev, markEvent 1 (.fin 1) (goodPoint.take 7) = some ev ∧
      changeStreamPipeline (fun _ => true) ev = true ∧
      EmitsInvalid exactPlatform 1 0 (.number (.fin 1)) ev :=
  (becomes_invalid_iff exactPlatform 1 1 0 (.fin 1) (fun _ => true) (goodPoint.take 7) rfl
    (by decide) (fun _ _ => rfl)).1.mpr ⟨rfl, by decide⟩

end Silent

end JsonScada.Modbus
