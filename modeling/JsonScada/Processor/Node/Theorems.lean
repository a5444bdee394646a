import JsonScada.Processor.Node.Agreement

namespace JsonScada.Processor.Node

open JsonScada.Library

variable {pl : Platform} {rt : Runtime} {fd sdu : Document}

theorem sourceValue_eq :
    (if (sdu.num "valueAtSource").isNone || ((sdu.num "valueAtSource").getD (.fin 0)).isNaN then
        .fin 0
      else (sdu.num "valueAtSource").getD (.fin 0)) = sourceValue sdu := by
  cases hv : sdu.num "valueAtSource" with
  | none => simp [sourceValue, Document.numOr, hv]
  | some x => simp [sourceValue, Document.numOr, hv]

theorem sourceValue_isNaN : (sourceValue sdu).isNaN = false := by
  simp only [sourceValue]
  split
  · rfl
  · next h => simpa using h

theorem convert_matches (hround : rt.round = pl.round) (htyped : TypedPoint fd)
    (hupdate : TypedUpdate sdu) (now : Int)
    (hagreed : Agreed pl rt fd sdu (Processor.convert pl now fd sdu)) :
    Matches pl fd sdu (Processor.convert pl now fd sdu) (convert rt now fd sdu) := by
  have hmissing := isMissing_eq rt hupdate.numeric
  have hreceived := received_eq rt hupdate.numeric
  rw [hmissing] at hreceived
  by_cases hdigital : fd.str "type" = "digital"
  · simp only [Processor.convert, hdigital, if_true, sourceValue_eq] at hagreed ⊢
    simp only [convert, hdigital, if_true, hreceived, hmissing]
    exact digital_matches htyped hdigital sourceValue_isNaN (hagreed.lowBit hdigital) hagreed
  · by_cases hanalog : fd.str "type" = "analog"
    · simp only [Processor.convert, hanalog, String.reduceEq, if_false, if_true] at hagreed ⊢
      simp only [convert, hanalog, String.reduceEq, if_false, if_true, hmissing]
      exact analog_matches hround htyped hupdate.numeric hanalog now rfl hagreed
    · simp only [Processor.convert, hdigital, hanalog, if_false, sourceValue_eq] at hagreed ⊢
      simp only [convert, hdigital, hanalog, if_false, hreceived, hmissing]
      refine ⟨rfl, rfl, rfl, rfl, rfl, rfl, ?_, fun _ => rfl, fun _ _ => rfl⟩
      intro hown
      have hflag := htyped.flag "alarmed" (by simp)
      rcases hagreed.alarmed hown with h | h | h | ⟨h, -⟩
      · exact .inr (lookup_alarmed hflag h)
      · exact .inl h
      · refine .inr (lookup_alarmed hflag ?_)
        rcases flag_cases hflag with hv | ⟨b, hv⟩
        · simp [Document.truthy, truthyValue, hv] at h
        · simp [Document.has, hv]
      · exact absurd h hanalog

section Update

variable {c : Processor.Converted} {j : Converted}

theorem changedForUpdate_eq (htyped : TypedPoint fd) (hmatches : Matches pl fd sdu c j)
    (hagreed : Agreed pl rt fd sdu c)
    (htext : fd.str "type" = "string" → c.valueString = sdu.str "valueStringAtSource") :
    changedForUpdate rt fd sdu j = Processor.changedForUpdate fd sdu c := by
  have hstring : fd.str "type" = "string" → changedAnyway fd sdu c = false →
      (!isText j.valueString (fd.lookup "valueString")) =
        decide (c.valueString ≠ fd.str "valueString") := by
    intro htype hanyway
    rw [hmatches.plainText (by simp [htype]) (by simp [htype])]
    refine isText_of_string _ (htyped.string _ (by simp)) ?_
    by_cases hempty : c.valueString = ""
    · rcases hagreed.valueString htype (htext htype ▸ hempty) with h | h
      · simp [h] at hanyway
      · exact .inr h
    · exact .inl hempty
  have hjson : fd.str "type" = "json" → changedAnyway fd sdu c = false →
      (!isText (sdu.str "valueJsonAtSource") (fd.lookup "valueJson")) =
        decide (sdu.str "valueJsonAtSource" ≠ fd.str "valueJson") := by
    intro htype hanyway
    refine isText_of_string _ (htyped.string _ (by simp)) ?_
    by_cases hempty : sdu.str "valueJsonAtSource" = ""
    · rcases hagreed.valueJson htype hempty with h | h
      · simp [h] at hanyway
      · exact .inr h
    · exact .inl hempty
  simp only [changedForUpdate, Processor.changedForUpdate, hagreed.sourceYear, hmatches.value,
    hmatches.invalid]
  by_cases hanyway : changedAnyway fd sdu c = true
  · simp only [changedAnyway, Bool.or_eq_true] at hanyway
    rcases hanyway with ((((h | h) | h) | h) | h) | h <;>
      simp only [h, Bool.or_true, Bool.true_or]
  · rw [Bool.not_eq_true] at hanyway
    by_cases htype : fd.str "type" = "string"
    · simp [htype, hstring htype hanyway]
    · by_cases htype' : fd.str "type" = "json"
      · simp [htype', hjson htype' hanyway]
      · simp [htype, htype']

theorem newBeep_eq (hmatches : Matches pl fd sdu c j)
    (hsoe : isSOE rt fd sdu = Processor.isSOE fd sdu) :
    newBeep rt fd sdu j = Processor.newBeep fd sdu c := by
  simp only [newBeep, Processor.newBeep, hmatches.alarmed, hmatches.value, hsoe]
  rfl

theorem beepUpdate_eq (htyped : TypedPoint fd) (now : Int) (h : fd.isNull "priority" = false) :
    beepUpdate rt now fd = Processor.beepUpdate now fd := by
  rcases numeric_cases (htyped.numeric "priority" (by simp)) with hv | hv | ⟨x, hv⟩
  · simp [beepUpdate, Processor.beepUpdate, Document.num, hv, strictEq, toNumber, Double.le, Double.lt,
      Double.eq]
  · simp [Document.isNull, hv] at h
  · have hzero : strictEq (.fin 0) (some (.number x)) = Double.eq x (.fin 0) := by
      cases x <;> simp [strictEq, Double.eq, eq_comm]
    simp [beepUpdate, Processor.beepUpdate, Document.num, hv, hzero, toNumber]

theorem insertIntoHistorian_eq (hround : rt.round = pl.round) (htyped : TypedPoint fd)
    (value : Double) :
    insertIntoHistorian rt fd sdu value = Processor.insertIntoHistorian pl fd sdu value := by
  have hperiod := lt_toNumber_zero rt (htyped.numeric "historianPeriod" (by simp))
  have hband := lt_zero_toNumber rt (htyped.numeric "historianDeadBand" (by simp))
  simp only [insertIntoHistorian, Processor.insertIntoHistorian, hperiod, hband, hround]
  rcases numeric_cases (htyped.numeric "historianLastValue" (by simp)) with hv | hv | ⟨x, hv⟩
  · simp [Document.num, Document.has, hv]
  · simp [Document.num, Document.isNull, hv]
  · have hhas : fd.has "historianLastValue" = true := by simp [Document.has, hv]
    have hnull : fd.isNull "historianLastValue" = false := by simp [Document.isNull, hv]
    have hnum : fd.num "historianLastValue" = some x := by simp [Document.num, hv]
    simp only [hhas, hnull, hnum, hv, toNumber, Bool.not_false, Bool.true_and]
    rcases numeric_cases (htyped.numeric "historianDeadBand" (by simp)) with hb | hb | ⟨y, hb⟩
    · simp [Document.numOr, Document.num, Document.has, hb]
    · simp [Document.numOr, Document.num, hb]
    · simp [Document.numOr, Document.num, hb]

-- The source time fields of the update: none, or a date with a flag that may be missing.
theorem sourceTime_cases (hupdate : TypedUpdate sdu) :
    (sourceTime sdu = none ∧ Processor.sourceTime sdu = none) ∨
      ∃ ms ok, sdu.timeOf "timeTagAtSource" = some ms ∧ isFlag ok = true ∧
        sourceTime sdu = some (.dateTime ms, ok) ∧
        Processor.sourceTime sdu = some (.dateTime ms, rawOrNil ok) := by
  rcases date_cases hupdate.date with hv | hv | ⟨ms, hv⟩
  · left
    simp [sourceTime, Processor.sourceTime, Document.has, hv]
  · left
    simp [sourceTime, Processor.sourceTime, Document.isNull, hv]
  · right
    have hflag := hupdate.flag "timeTagAtSourceOk" (by simp)
    refine ⟨ms, sdu.lookup "timeTagAtSourceOk", by simp [Document.timeOf, hv], hflag, ?_, ?_⟩
    · simp [sourceTime, Document.has, Document.isNull, hv, rawOrNil]
    · rcases flag_cases hflag with hok | ⟨b, hok⟩ <;>
        simp [Processor.sourceTime, Document.has, Document.isNull, Document.timeOf,
          Document.boolStrict, hv, hok, rawOrNil]

theorem hasAlarmTime_eq (hmatches : Matches pl fd sdu c j)
    (hsoe : isSOE rt fd sdu = Processor.isSOE fd sdu) :
    hasAlarmTime rt fd sdu j = Processor.hasAlarmTime fd sdu c := by
  simp only [hasAlarmTime, Processor.hasAlarmTime, hmatches.alarmed, hmatches.value, hsoe]

theorem updatesCnt_eq (hround : rt.round = pl.round) (htyped : TypedPoint fd)
    (h : fd.isNull "updatesCnt" = false) : updatesCnt rt fd = Processor.updatesCnt pl fd := by
  simp only [updatesCnt, Processor.updatesCnt, hround,
    toNumber_of_not_null rt (htyped.numeric "updatesCnt" (by simp)) h]

theorem ownSet_eq (hround : rt.round = pl.round) (htyped : TypedPoint fd)
    (hupdate : TypedUpdate sdu) (now : Int) (hmatches : Matches pl fd sdu c j)
    (hagreed : Agreed pl rt fd sdu c) (hown : updatesOwn fd sdu c = true) :
    ownSet rt now fd sdu j = Processor.ownSet pl now fd sdu c := by
  have hstores : storesText pl fd sdu c = true := by simp [storesText, hown]
  have hdisabled := boolStrict_of_flag (htyped.flag "alarmDisabled" (by simp))
  have halarmed :
      (if fd.boolStrict "alarmDisabled" = some true then .bool false else rawOrNil j.alarmed) =
        Value.bool (c.alarmed && !fd.truthy "alarmDisabled") := by
    by_cases hd : fd.truthy "alarmDisabled" = true
    · rw [hd, decide_eq_true_eq] at hdisabled
      simp [hdisabled, hd]
    · rw [Bool.not_eq_true] at hd
      rw [hd, decide_eq_false_iff_not] at hdisabled
      rcases hmatches.storedAlarm hown with h | h
      · simp [h] at hd
      · simp [hdisabled, hd, h, rawOrNil]
  have hcommon :
      ((sourceTime sdu).getD (.null, some .null)).1 =
          ((Processor.sourceTime sdu).getD (.null, .null)).1 ∧
        rawOrNil ((sourceTime sdu).getD (.null, some .null)).2 =
          ((Processor.sourceTime sdu).getD (.null, .null)).2 := by
    rcases sourceTime_cases hupdate with ⟨h, h'⟩ | ⟨ms, ok, -, -, h, h'⟩
    · rw [h, h']
      exact ⟨rfl, rfl⟩
    · rw [h, h']
      exact ⟨rfl, rfl⟩
  simp only [ownSet, Processor.ownSet, hmatches.value, hmatches.invalid, hmatches.transient,
    hmatches.alarmRange, hmatches.storedText hstores, insertIntoHistorian_eq hround htyped,
    hasAlarmTime_eq hmatches hagreed.sourceYear, updatesCnt_eq hround htyped (hagreed.updatesCnt hown),
    halarmed, hcommon]

end Update

section Historian

variable {c : Processor.Converted} {j : Converted}

theorem histFlags_eq (hupdate : TypedUpdate sdu) (hmatches : Matches pl fd sdu c j) :
    histFlags fd sdu j = Processor.histFlags fd sdu c.invalid := by
  simp only [histFlags, Processor.histFlags, hmatches.invalid]
  rcases sourceTime_cases hupdate with ⟨h, h'⟩ | ⟨ms, ok, -, hok, h, h'⟩
  · rw [h, h']
  · rw [h, h']
    rcases flag_cases hok with rfl | ⟨b, rfl⟩
    · rfl
    · cases b <;> rfl

-- An empty text needs no quoting.
theorem quoted_eq (s : String) :
    (if s = "" then "" else sqlQuote s) = if s ≠ "" then sqlQuote s else "" := by
  by_cases h : s = "" <;> simp [h]

theorem histSql_eq (hupdate : TypedUpdate sdu) (hmatches : Matches pl fd sdu c j)
    (hagreed : Agreed pl rt fd sdu c) (hsample : samples pl fd sdu c = true) {timeTag : Int}
    (htime : sdu.timeOf "timeTag" = some timeTag) :
    histSql rt fd sdu timeTag j (fd.str "tag") = Processor.histSql fd sdu timeTag c := by
  have hstores : storesText pl fd sdu c = true := by simp [storesText, hsample]
  have hiso := toISOString_eq (hagreed.sampleYear hsample timeTag (.inl htime))
  unfold histSql Processor.histSql
  rw [hmatches.value, hmatches.storedText hstores, hiso, quoted_eq,
    histFlags_eq hupdate hmatches, hagreed.sampleJson hsample]
  rcases sourceTime_cases hupdate with ⟨h, h'⟩ | ⟨ms, ok, hms, -, h, h'⟩
  · rw [h, h']
  · rw [h, h']
    simp only [toISOString_eq (hagreed.sampleYear hsample ms (.inr hms))]

theorem histObj_eq (hupdate : TypedUpdate sdu) (hmatches : Matches pl fd sdu c j)
    (hstores : storesText pl fd sdu c = true) (timeTag : Int) :
    histObj fd sdu timeTag j (fd.str "tag") = Processor.histObj fd sdu timeTag c := by
  simp only [histObj, Processor.histObj, hmatches.value, hmatches.invalid,
    hmatches.storedText hstores]
  rcases sourceTime_cases hupdate with ⟨h, h'⟩ | ⟨ms, ok, -, hok, h, h'⟩
  · rw [h, h']
  · rw [h, h']
    rcases flag_cases hok with rfl | ⟨b, rfl⟩ <;> simp only [rawOrNil]

end Historian

section Handler

-- The rows of the PostgreSQL mirror are left out.
def observed (effects : List Effect) : List Effect :=
  effects.filter fun e =>
    match e with
    | .sqlRt _ _ => false
    | _ => true

variable {c : Processor.Converted} {j : Converted}

theorem isSOE_timeOf (h : Processor.isSOE fd sdu = true) :
    ∃ ms, sdu.lookup "timeTagAtSource" = some (.dateTime ms) := by
  unfold Processor.isSOE Document.timeOf at h
  split at h
  · next hms =>
    split at hms
    · next ms hv => exact ⟨ms, hv⟩
    · cases hms
  · cases h

theorem digitalSoe_eq (htyped : TypedPoint fd) (now : Int) (hmatches : Matches pl fd sdu c j)
    (hagreed : Agreed pl rt fd sdu c) :
    digitalSoe rt now fd sdu j = Processor.digitalSoe now fd sdu c := by
  simp only [digitalSoe, Processor.digitalSoe, hagreed.sourceYear, hmatches.value, hmatches.invalid]
  by_cases hdue : digitalEvents fd sdu c = true
  · have htag := rawOrNil_of_has (htyped.string "tag" (by simp)) (hagreed.tag (.inr (.inr hdue)))
    have htext := hagreed.eventText hdue
    have hcond := hdue
    simp only [digitalEvents] at hcond
    simp only [hcond, if_true, htag]
    simp only [Bool.and_eq_true] at hcond
    obtain ⟨ms, hms⟩ := isSOE_timeOf hcond.1.1.1.1
    have htime : rawOrNil (sdu.lookup "timeTagAtSource") =
        .dateTime ((sdu.timeOf "timeTagAtSource").getD zeroTime) := by
      simp [rawOrNil, Document.timeOf, hms]
    by_cases hzero : Double.eq c.value (.fin 0) = true
    · simp only [hzero, if_true] at htext ⊢
      rw [htime, rawOrNil_of_has (htyped.string "eventTextFalse" (by simp)) htext]
    · simp only [hzero, Bool.false_eq_true, if_false] at htext ⊢
      rw [htime, rawOrNil_of_has (htyped.string "eventTextTrue" (by simp)) htext]
  · simp only [digitalEvents] at hdue
    simp only [hdue, Bool.false_eq_true, if_false]

theorem processUpdate_eq (hround : rt.round = pl.round) (htyped : TypedPoint fd)
    (hupdate : TypedUpdate sdu) (now : Int) (count : Nat)
    (hagreed : Agreed pl rt fd sdu (Processor.convert pl now fd sdu)) {timeTag : Int}
    (htime : sdu.timeOf "timeTag" = some timeTag) :
    let node := processUpdate rt now count fd sdu timeTag
    let go := Processor.processUpdate pl now count fd sdu
    observed node.1 = observed go.1 ∧ node.2 = go.2 := by
  have hmatches := convert_matches hround htyped hupdate now hagreed
  have htext : fd.str "type" = "string" →
      (Processor.convert pl now fd sdu).valueString = sdu.str "valueStringAtSource" := by
    intro htype
    simp [Processor.convert, htype]
  have hchanged := changedForUpdate_eq htyped hmatches hagreed htext
  have hdigital := digitalSoe_eq htyped now hmatches hagreed
  intro node go
  simp only [node, go, processUpdate, Processor.processUpdate, hchanged, hmatches.soe, hdigital,
    hmatches.value]
  generalize Processor.convert pl now fd sdu = c at *
  by_cases hupdates : updates fd sdu c = true
  · have hcond := hupdates
    simp only [updates] at hcond
    have htag := lookup_of_has (htyped.string "tag" (by simp)) (hagreed.tag (.inl hupdates))
    have hbeep :
        (if !fd.truthy "alarmDisabled" && newBeep rt fd sdu (convert rt now fd sdu) then
          beepUpdate rt now fd else []) =
        if !fd.truthy "alarmDisabled" && Processor.newBeep fd sdu c then
          Processor.beepUpdate now fd else [] := by
      rw [newBeep_eq hmatches hagreed.sourceYear]
      split
      · next hdue =>
        rw [Bool.and_eq_true, Bool.not_eq_true'] at hdue
        exact beepUpdate_eq htyped now (hagreed.priority hupdates hdue.1 hdue.2)
      · rfl
    have hown :
        (if suppressed fd sdu c.value then []
          else [Effect.rt { id := rawOrNil (fd.lookup "_id"),
                            set := ownSet rt now fd sdu (convert rt now fd sdu) }]) =
        if suppressed fd sdu c.value then []
        else [Effect.rt { id := rawOrNil (fd.lookup "_id"),
                          set := Processor.ownSet pl now fd sdu c }] := by
      split
      · rfl
      · next hdue =>
        rw [ownSet_eq hround htyped hupdate now hmatches hagreed (by simp [updatesOwn, hupdates, hdue])]
    have hhist :
        (if insertIntoHistorian rt fd sdu c.value then
          [Effect.hist ⟨histSql rt fd sdu timeTag (convert rt now fd sdu) (fd.str "tag"),
            histObj fd sdu timeTag (convert rt now fd sdu) (fd.str "tag")⟩] else []) =
        if Processor.insertIntoHistorian pl fd sdu c.value then
          [Effect.hist ⟨Processor.histSql fd sdu timeTag c,
            Processor.histObj fd sdu timeTag c⟩] else [] := by
      rw [insertIntoHistorian_eq hround htyped]
      split
      · next hdue =>
        have hsample : samples pl fd sdu c = true := by simp [samples, hupdates, hdue]
        rw [histSql_eq hupdate hmatches hagreed hsample htime,
          histObj_eq hupdate hmatches (by simp [storesText, hsample])]
      · rfl
    simp only [hcond, if_true, htag, hbeep, hown, hhist, htime, Option.getD_some, observed,
      List.filter_append, List.append_assoc, List.filter_cons, List.filter_nil,
      Bool.false_eq_true, if_false, and_self]
  · simp only [updates] at hupdates
    simp only [hupdates, Bool.false_eq_true, if_false, and_self]

-- The time of processing plays no part.
theorem Agreed.at_now (h : Agreed pl rt fd sdu (Processor.convert pl 0 fd sdu)) (now : Int) :
    Agreed pl rt fd sdu (Processor.convert pl now fd sdu) := by
  rw [Processor.convert_now pl now fd sdu 0]
  cases h
  constructor <;> assumption

-- An event that is processed has the types of the schema.
def SchemaTyped (ev : ChangeEvent) : Prop :=
  ∀ fd sdu, sourceUpdate ev = some (fd, sdu) → TypedPoint fd ∧ TypedUpdate sdu

-- The event reaches none of the reads in which the languages part.
def AgreedEvent (pl : Platform) (rt : Runtime) (active : Bool) (ev : ChangeEvent) : Prop :=
  active = true → ev.operationType ≠ "delete" → ev.operationType ≠ "insert" →
    ∀ fd sdu, sourceUpdate ev = some (fd, sdu) → Agreed pl rt fd sdu (Processor.convert pl 0 fd sdu)

section Example

def amd64 : Platform := { round := Double.round, int32OutOfRange := fun _ => -2 ^ 31 }

def utc : Runtime := { round := Double.round, localOffset := fun _ => 0 }

def voltage : Document :=
  [("_id", .number (.fin 1)), ("tag", .string "U1"), ("type", .string "analog"),
    ("unit", .string "V"), ("kconv1", .number (.fin 1)), ("kconv2", .number (.fin 0)),
    ("value", .number (.fin 0)), ("valueString", .string "0 V"), ("alarmed", .bool false),
    ("invalid", .bool false), ("updatesCnt", .number (.fin 0)), ("timeTag", .dateTime 0)]

def voltageReading (x : ℚ) : ChangeEvent :=
  { operationType := "update"
    fullDocument := some voltage
    updatedFields := some [("sourceDataUpdate", .document
      [("valueAtSource", .number (.fin x)), ("timeTag", .dateTime 0)])] }

theorem voltageReading_typed (x : ℚ) : SchemaTyped (voltageReading x) := by
  intro fd sdu h
  obtain ⟨rfl, rfl⟩ : voltage = fd ∧
      [("valueAtSource", .number (.fin x)), ("timeTag", .dateTime 0)] = sdu := by
    simpa [sourceUpdate, voltageReading, Document.doc] using h
  exact ⟨⟨by decide, by decide, by decide, by decide⟩,
    ⟨rfl, by simp [isFlag, List.lookup_cons], by simp [isString, List.lookup_cons], rfl, rfl⟩⟩

def storedTexts (effects : List Effect) : List String :=
  effects.filterMap fun e =>
    match e with
    | .rt u => some (u.set.str "valueString")
    | _ => none

end Example

end Handler

end JsonScada.Processor.Node
