import JsonScada.Processor.HandleChange

namespace JsonScada.Processor

open JsonScada.Library

-- A platform whose arithmetic is exact.
def exactPlatform : Platform :=
  { round := .fin, int32OutOfRange := fun _ => 0 }

-- The document and the source data update that the handler processes for an event.
def sourceUpdate (ev : ChangeEvent) : Option (Document × Document) :=
  match ev.fullDocument, ev.updatedFields.bind (·.doc "sourceDataUpdate") with
  | some fd, some sdu => some (fd, sdu)
  | _, _ => none

variable (pl : Platform) (now : Int) (count : Nat) (fd sdu : Document)

-- The update of the point itself.
def ownUpdate (c : Converted) : RtUpdate :=
  { id := rawOrNil (fd.lookup "_id"), set := ownSet pl now fd sdu c }

-- The changes that are written: not the historical ones.
def updates (c : Converted) : Bool := changedForUpdate fd sdu c && !sdu.truthy "isHistorical"

theorem convertAnalog_now (now' : Int) (q : Quality) (value : Double) (txt : String) :
    convertAnalog pl now fd sdu q value txt =
      { convertAnalog pl now' fd sdu q value txt with
        soe := (convertAnalog pl now fd sdu q value txt).soe } := by
  by_cases hlimits : hasLimits fd = true
  · by_cases hrange : rangeChanged fd (limitRange pl fd (scaled pl fd value)).1 = true
    · simp only [convertAnalog, hlimits, hrange, if_true]
    · simp only [convertAnalog, hlimits, hrange, if_true, Bool.false_eq_true, if_false]
  · simp only [convertAnalog, hlimits, Bool.false_eq_true, if_false]

-- The time of processing goes into the events only.
theorem convert_now (now' : Int) :
    convert pl now fd sdu =
      { convert pl now' fd sdu with soe := (convert pl now fd sdu).soe } := by
  by_cases hdigital : fd.str "type" = "digital"
  · simp [convert, hdigital, convertDigital]
  · by_cases hanalog : fd.str "type" = "analog"
    · simp only [convert, hanalog, String.reduceEq, if_false, if_true]
      exact convertAnalog_now pl now fd sdu now' _ _ _
    · simp [convert, hdigital, hanalog]

theorem convertAnalog_soe {q : Quality} {value : Double} {txt : String} {e : Effect}
    (h : e ∈ (convertAnalog pl now fd sdu q value txt).soe) : ∃ entry, e = .soe entry := by
  simp only [convertAnalog, List.mem_append] at h
  rcases h with h | h
  · by_cases hlimits : hasLimits fd = true
    · by_cases hrange : rangeChanged fd (limitRange pl fd (scaled pl fd value)).1 = true
      · simp only [hlimits, if_true, hrange, List.mem_singleton] at h
        exact ⟨_, h⟩
      · simp [hlimits, hrange] at h
    · simp [hlimits] at h
  · split at h
    · rw [List.mem_singleton] at h
      exact ⟨_, h⟩
    · simp at h

-- The conversion emits nothing but events.
theorem convert_soe {e : Effect} (h : e ∈ (convert pl now fd sdu).soe) :
    ∃ entry, e = .soe entry := by
  by_cases hdigital : fd.str "type" = "digital"
  · simp [convert, hdigital, convertDigital] at h
  · by_cases hanalog : fd.str "type" = "analog"
    · simp only [convert, hanalog, if_true, String.reduceEq, if_false] at h
      exact convertAnalog_soe pl now fd sdu h
    · simp [convert, hdigital, hanalog] at h

theorem digitalSoe_soe {c : Converted} {e : Effect} (h : e ∈ digitalSoe now fd sdu c) :
    ∃ entry, e = .soe entry := by
  unfold digitalSoe at h
  split at h
  · rw [List.mem_singleton] at h
    exact ⟨_, h⟩
  · simp at h

-- The updates that are queued: of the beep point, of the counter, and of the point.
theorem rt_mem_processUpdate_iff {u : RtUpdate} :
    .rt u ∈ (processUpdate pl now count fd sdu).1 ↔
      updates fd sdu (convert pl now fd sdu) = true ∧
        ((!fd.truthy "alarmDisabled" && newBeep fd sdu (convert pl now fd sdu)) = true ∧
            .rt u ∈ beepUpdate now fd ∨
          (!fd.truthy "alarmDisabled" && decide (fd.str "type" = "digital")) = true ∧
            .rt u = countUpdate now (count + 1) ∨
          suppressed fd sdu (convert pl now fd sdu).value = false ∧
            u = ownUpdate pl now fd sdu (convert pl now fd sdu)) := by
  have hsoe : Effect.rt u ∉ (convert pl now fd sdu).soe := by
    intro h
    obtain ⟨_, h⟩ := convert_soe pl now fd sdu h
    cases h
  have hdigital : Effect.rt u ∉ digitalSoe now fd sdu (convert pl now fd sdu) := by
    intro h
    obtain ⟨_, h⟩ := digitalSoe_soe now fd sdu h
    cases h
  have hhist (e : HistEntry) : Effect.rt u ≠ .hist e := by simp
  by_cases hupdates : updates fd sdu (convert pl now fd sdu) = true
  · have hcond := hupdates
    simp only [updates] at hcond
    simp only [processUpdate, hcond, if_true, List.mem_append, hsoe, hdigital, false_or, or_false,
      hupdates, true_and, List.mem_singleton, reduceCtorEq, List.mem_ite_nil_right, hhist, and_false]
    rw [List.mem_ite_nil_left, List.mem_singleton, Bool.not_eq_true, Effect.rt.injEq, or_assoc]
    rfl
  · have hcond := hupdates
    simp only [updates, Bool.not_eq_true] at hcond
    simp [processUpdate, hcond, hupdates, hsoe, hdigital]

-- An update of a point of the system itself.
structure SystemUpdate (u : RtUpdate) : Prop where
  fields : ∀ f ∈ u.set, f.1 ∈ ["beepType", "value", "valueString", "timeTag"]
  number : ∃ q, u.set.num "value" = some (.fin q)
  groups : ∀ f ∈ u.addToSet, f.1 = "beepGroup1List"

theorem SystemUpdate.ne {u : RtUpdate} (h : SystemUpdate u) {k : String}
    (hk : k ∉ ["beepType", "value", "valueString", "timeTag"]) : ∀ f ∈ u.set, k ≠ f.1 := by
  rintro f hf rfl
  exact hk (h.fields f hf)

theorem SystemUpdate.lookup {u : RtUpdate} (h : SystemUpdate u) {k : String}
    (hk : k ∉ ["beepType", "value", "valueString", "timeTag"]) :
    u.set.reverse.lookup k = none := by
  rw [List.lookup_eq_none_iff]
  intro f hf
  simpa using h.ne hk f (List.mem_reverse.mp hf)

theorem SystemUpdate.has {u : RtUpdate} (h : SystemUpdate u) {k : String}
    (hk : k ∉ ["beepType", "value", "valueString", "timeTag"]) : u.set.has k = false := by
  have hnone : u.set.lookup k = none := by
    rw [List.lookup_eq_none_iff]
    intro f hf
    simpa using h.ne hk f hf
  rw [Document.has, hnone, Option.isSome_none]

theorem mem_beepUpdate {e : Effect} (h : e ∈ beepUpdate now fd) :
    ∃ u, e = .rt u ∧ u.id = .number beepPointKey ∧ SystemUpdate u := by
  unfold beepUpdate at h
  cases hpriority : fd.num "priority" with
  | none => simp [hpriority] at h
  | some priority =>
      simp only [hpriority] at h
      split at h
      · rw [List.mem_singleton] at h
        exact ⟨_, h, rfl, by simp, ⟨1, rfl⟩, by simp⟩
      · split at h
        · rw [List.mem_singleton] at h
          exact ⟨_, h, rfl, by simp, ⟨1, rfl⟩, by simp⟩
        · simp at h

theorem beepUpdate_id {u : RtUpdate} (h : .rt u ∈ beepUpdate now fd) :
    u.id = .number beepPointKey := by
  obtain ⟨_, ⟨rfl⟩, hid, -⟩ := mem_beepUpdate now fd h
  exact hid

theorem countUpdate_system {u : RtUpdate} (h : .rt u = countUpdate now count) : SystemUpdate u := by
  obtain ⟨rfl⟩ := h
  exact ⟨by simp, ⟨count, rfl⟩, by simp⟩

-- Every other update is that of the point.
theorem rt_cases {u : RtUpdate} (h : .rt u ∈ (processUpdate pl now count fd sdu).1) :
    SystemUpdate u ∨
      suppressed fd sdu (convert pl now fd sdu).value = false ∧
        u = ownUpdate pl now fd sdu (convert pl now fd sdu) := by
  obtain ⟨-, ⟨-, hbeep⟩ | ⟨-, hcount⟩ | hown⟩ := (rt_mem_processUpdate_iff pl now count fd sdu).mp h
  · obtain ⟨_, ⟨rfl⟩, -, hsystem⟩ := mem_beepUpdate now fd hbeep
    exact .inl hsystem
  · exact .inl (countUpdate_system now _ hcount)
  · exact .inr hown

-- The sample of the historian.
def histEntry (c : Converted) : HistEntry :=
  ⟨histSql fd sdu ((sdu.timeOf "timeTag").getD zeroTime) c,
    histObj fd sdu ((sdu.timeOf "timeTag").getD zeroTime) c⟩

theorem not_mem_of_not_event {e : Effect} (he : ∀ entry, e ≠ .soe entry) (hrt : ∀ u, e ≠ .rt u)
    (c : Converted) :
    e ∉ (convert pl now fd sdu).soe ∧ e ∉ digitalSoe now fd sdu c ∧ e ∉ beepUpdate now fd := by
  refine ⟨fun h => ?_, fun h => ?_, fun h => ?_⟩
  · obtain ⟨entry, h⟩ := convert_soe pl now fd sdu h
    exact he entry h
  · obtain ⟨entry, h⟩ := digitalSoe_soe now fd sdu h
    exact he entry h
  · obtain ⟨u, h, -⟩ := mem_beepUpdate now fd h
    exact hrt u h

theorem hist_mem_processUpdate_iff {entry : HistEntry} :
    .hist entry ∈ (processUpdate pl now count fd sdu).1 ↔
      updates fd sdu (convert pl now fd sdu) = true ∧
        insertIntoHistorian pl fd sdu (convert pl now fd sdu).value = true ∧
        entry = histEntry fd sdu (convert pl now fd sdu) := by
  obtain ⟨hsoe, hdigital, hbeep⟩ := not_mem_of_not_event pl now fd sdu (e := .hist entry) (by simp)
    (by simp) (convert pl now fd sdu)
  by_cases hupdates : updates fd sdu (convert pl now fd sdu) = true
  · have hcond := hupdates
    simp only [updates] at hcond
    simp only [processUpdate, hcond, if_true, List.mem_append, hsoe, hdigital, hbeep, hupdates,
      true_and, List.mem_singleton, List.mem_ite_nil_right, List.mem_ite_nil_left, countUpdate,
      reduceCtorEq, and_false, false_or, or_false, Effect.hist.injEq]
    rfl
  · have hcond := hupdates
    simp only [updates, Bool.not_eq_true] at hcond
    simp [processUpdate, hcond, hupdates, hsoe, hdigital]

theorem sqlRt_mem_processUpdate_iff {tag : String} {doc : Document} :
    .sqlRt tag doc ∈ (processUpdate pl now count fd sdu).1 ↔
      updates fd sdu (convert pl now fd sdu) = true ∧ tag = fd.str "tag" ∧
        doc = mirrorDocument pl now fd sdu (convert pl now fd sdu) := by
  obtain ⟨hsoe, hdigital, hbeep⟩ := not_mem_of_not_event pl now fd sdu (e := .sqlRt tag doc) (by simp)
    (by simp) (convert pl now fd sdu)
  by_cases hupdates : updates fd sdu (convert pl now fd sdu) = true
  · have hcond := hupdates
    simp only [updates] at hcond
    simp only [processUpdate, hcond, if_true, List.mem_append, hsoe, hdigital, hbeep, hupdates,
      true_and, List.mem_singleton, List.mem_ite_nil_right, List.mem_ite_nil_left, countUpdate,
      reduceCtorEq, and_false, false_or, or_false, Effect.sqlRt.injEq]
  · have hcond := hupdates
    simp only [updates, Bool.not_eq_true] at hcond
    simp [processUpdate, hcond, hupdates, hsoe, hdigital]

-- The events are those of the conversion and the one of a digital.
theorem soe_mem_processUpdate {entry : Document}
    (h : .soe entry ∈ (processUpdate pl now count fd sdu).1) :
    .soe entry ∈ (convert pl now fd sdu).soe ∨
      .soe entry ∈ digitalSoe now fd sdu (convert pl now fd sdu) := by
  have hbeep : .soe entry ∉ beepUpdate now fd := by
    intro h
    obtain ⟨u, he, -⟩ := mem_beepUpdate now fd h
    cases he
  unfold processUpdate at h
  simp only at h
  split at h
  · simp only [List.mem_append, List.mem_singleton, List.mem_ite_nil_right, List.mem_ite_nil_left,
      hbeep, and_false, or_false, countUpdate, reduceCtorEq] at h
    exact h
  · simpa using h

section OwnSet

variable (c : Converted)

theorem lookup_ownSet_value :
    (ownSet pl now fd sdu c).reverse.lookup "value" = some (.number c.value) := by
  simp only [ownSet]
  split <;> split <;> rfl

theorem lookup_ownSet_valueString :
    (ownSet pl now fd sdu c).reverse.lookup "valueString" = some (.string c.valueString) := by
  simp only [ownSet]
  split <;> split <;> rfl

theorem lookup_ownSet_valueJson :
    (ownSet pl now fd sdu c).reverse.lookup "valueJson" =
      some (.string (sdu.str "valueJsonAtSource")) := by
  simp only [ownSet]
  split <;> split <;> rfl

theorem lookup_ownSet_timeTag :
    (ownSet pl now fd sdu c).reverse.lookup "timeTag" = some (.dateTime now) := by
  simp only [ownSet]
  split <;> split <;> rfl

theorem lookup_ownSet_alarmRange :
    (ownSet pl now fd sdu c).reverse.lookup "alarmRange" = some (.number c.alarmRange) := by
  simp only [ownSet]
  split <;> split <;> rfl

theorem lookup_ownSet_invalid :
    (ownSet pl now fd sdu c).reverse.lookup "invalid" = some (.bool c.invalid) := by
  simp only [ownSet]
  split <;> split <;> rfl

theorem lookup_ownSet_alarmed :
    (ownSet pl now fd sdu c).reverse.lookup "alarmed" =
      some (.bool (c.alarmed && !fd.truthy "alarmDisabled")) := by
  simp only [ownSet]
  split <;> split <;> rfl

theorem lookup_ownSet_updatesCnt :
    (ownSet pl now fd sdu c).reverse.lookup "updatesCnt" = some (.number (updatesCnt pl fd)) := by
  simp only [ownSet]
  split <;> split <;> rfl

theorem has_ownSet_timeTagAlarm :
    (ownSet pl now fd sdu c).has "timeTagAlarm" = hasAlarmTime fd sdu c := by
  by_cases halarm : hasAlarmTime fd sdu c = true
  · simp only [ownSet, halarm, if_true]
    split <;> rfl
  · rw [Bool.not_eq_true] at halarm
    simp only [ownSet, halarm, Bool.false_eq_true, if_false]
    split <;> rfl

theorem lookup_ownSet_timeTagAtSource :
    (ownSet pl now fd sdu c).lookup "timeTagAtSource" =
      some ((sourceTime sdu).getD (.null, .null)).1 := by
  simp only [ownSet]
  split <;> split <;> rfl

end OwnSet

-- Only the update of the point itself has a source time.
theorem ownUpdate_of_has {u : RtUpdate} (h : .rt u ∈ (processUpdate pl now count fd sdu).1)
    (hu : u.set.has "timeTagAtSource" = true) :
    suppressed fd sdu (convert pl now fd sdu).value = false ∧
      u = ownUpdate pl now fd sdu (convert pl now fd sdu) := by
  rcases rt_cases pl now count fd sdu h with hsystem | hown
  · rw [hsystem.has (by decide)] at hu
    cases hu
  · exact hown

-- What the handler does for an event is the row of a new document or the effects of a
-- source data update.
theorem mem_handleChange {active : Bool} {ev : ChangeEvent} {e : Effect}
    (h : e ∈ (handleChange pl now active count ev).1) :
    (∃ tag doc, e = .sqlRt tag doc) ∨
      ∃ fd sdu, sourceUpdate ev = some (fd, sdu) ∧ e ∈ (processUpdate pl now count fd sdu).1 := by
  unfold handleChange at h
  split at h
  · simp at h
  · cases hfd : ev.fullDocument with
    | none => simp [hfd] at h
    | some fd =>
        simp only [hfd] at h
        split at h
        · exact .inl ⟨_, _, List.mem_singleton.mp h⟩
        · split at h
          · simp at h
          · cases hsdu : ev.updatedFields.bind (·.doc "sourceDataUpdate") with
            | none => simp [hsdu] at h
            | some sdu =>
                simp only [hsdu] at h
                exact .inr ⟨fd, sdu, by simp only [sourceUpdate, hfd, hsdu], h⟩

-- An update of the handler adds to the groups that beep, and to nothing else.
theorem handleChange_groups {active : Bool} {ev : ChangeEvent} {u : RtUpdate}
    (h : .rt u ∈ (handleChange pl now active count ev).1) :
    ∀ f ∈ u.addToSet, f.1 = "beepGroup1List" := by
  rcases mem_handleChange pl now count h with ⟨_, _, h⟩ | ⟨fd, sdu, -, h⟩
  · cases h
  · rcases rt_cases pl now count fd sdu h with hsystem | ⟨-, rfl⟩
    · exact hsystem.groups
    · simp [ownUpdate]

end JsonScada.Processor
