import JsonScada.Dnp3.Client
import JsonScada.Processor.HandleChange.Lemmas

namespace JsonScada.Dnp3

open JsonScada.Library
open JsonScada.Processor

section Written

variable (iv : Dnp3Value)

theorem lookup_bson (u : SourceDataUpdate) (k : String) :
    u.bson.lookup k = (u.extra.reverse.lookup k).or
      (List.lookup k [("valueAtSource", .number u.valueAtSource),
        ("valueStringAtSource", .string u.valueStringAtSource),
        ("asduAtSource", .string u.asduAtSource),
        ("causeOfTransmissionAtSource", .string u.causeOfTransmissionAtSource),
        ("timeTagAtSource", u.timeTagAtSource), ("timeTagAtSourceOk", .bool u.timeTagAtSourceOk),
        ("timeTag", u.timeTag), ("notTopicalAtSource", .bool u.notTopicalAtSource),
        ("invalidAtSource", .bool u.invalidAtSource),
        ("overflowAtSource", .bool u.overflowAtSource),
        ("blockedAtSource", .bool u.blockedAtSource),
        ("substitutedAtSource", .bool u.substitutedAtSource)]) :=
  lookup_applySet _ _ _

-- The source time that is written: zero where there is none.
def writtenTime : ℤ := if iv.hasSourceTimestamp then sanitizeTime iv.sourceTimestamp else 0

theorem bson_timeTagAtSource :
    (updateOf iv).bson.lookup "timeTagAtSource" = some (.dateTime (writtenTime iv)) := by
  rw [lookup_bson]
  rfl

theorem bson_valueAtSource :
    (updateOf iv).bson.lookup "valueAtSource" = some (.number iv.value) := by
  rw [lookup_bson]
  rfl

theorem bson_asduAtSource :
    (updateOf iv).bson.lookup "asduAtSource" =
      some (.string (toString iv.group ++ " " ++ toString iv.variation)) := by
  rw [lookup_bson]
  rfl

theorem bson_isHistorical : (updateOf iv).bson.lookup "isHistorical" = none := by
  rw [lookup_bson]
  rfl

theorem lt_utcYear {t : ℤ} (h : 0 ≤ t) : 1899 < utcYear t := by
  have hday : 0 ≤ t / Calendar.msPerDay := Int.ediv_nonneg h (by decide)
  have hyear : 1900 ≤ Calendar.year (t / Calendar.msPerDay) := by
    rw [Calendar.le_year_iff]
    refine le_trans ?_ hday
    decide
  unfold utcYear
  omega

end Written

section Processed

variable {fd sdu : Document} {t : ℤ}

-- The documents whose events are put in sequence by their source time.
def SequenceDoc (fd : Document) : Prop :=
  fd.str "type" = "digital" ∨ (fd.str "type" = "analog" ∧ fd.truthy "isEvent" = true)

theorem isSOE_of_time (hdoc : SequenceDoc fd) (ht : sdu.timeOf "timeTagAtSource" = some t)
    (h0 : 0 ≤ t) : isSOE fd sdu = true := by
  unfold isSOE
  rw [ht]
  simp only [Bool.and_eq_true, Bool.or_eq_true, decide_eq_true_eq]
  exact ⟨hdoc, lt_utcYear h0⟩

variable {pl : Platform} {now : Int} {count : Nat} {entry : Document}

theorem soe_convert_time (ht : sdu.timeOf "timeTagAtSource" = some t) (hsoe : isSOE fd sdu = true)
    (h : .soe entry ∈ (convert pl now fd sdu).soe) :
    entry.timeOf "timeTagAtSource" = some t ∨
      (hasLimits fd = true ∧ entry.timeOf "timeTagAtSource" = some now) := by
  by_cases hdigital : fd.str "type" = "digital"
  · simp [convert, hdigital, convertDigital] at h
  · by_cases hanalog : fd.str "type" = "analog"
    · simp only [convert, hanalog, String.reduceEq, if_false, if_true, convertAnalog,
        List.mem_append] at h
      rcases h with h | h
      · by_cases hlimits : hasLimits fd = true
        · simp only [hlimits, if_true] at h
          split at h
          · rw [List.mem_singleton, limitSoe, soeEntry, Effect.soe.injEq] at h
            rw [h]
            exact .inr ⟨hlimits, rfl⟩
          · cases h
        · simp [hlimits] at h
      · split at h
        · rw [List.mem_singleton, eventSoe, if_pos hsoe, soeEntry, Effect.soe.injEq, ht] at h
          rw [h]
          exact .inl rfl
        · cases h
    · simp [convert, hdigital, hanalog] at h

-- The events of an update with a source time bear it, but for those of the limits.
theorem soe_time (ht : sdu.timeOf "timeTagAtSource" = some t) (hsoe : isSOE fd sdu = true)
    (h : .soe entry ∈ (processUpdate pl now count fd sdu).1) :
    entry.timeOf "timeTagAtSource" = some t ∨
      (hasLimits fd = true ∧ entry.timeOf "timeTagAtSource" = some now) := by
  rcases soe_mem_processUpdate pl now count fd sdu h with h | h
  · exact soe_convert_time ht hsoe h
  · unfold digitalSoe at h
    split at h
    · rw [List.mem_singleton, soeEntry, Effect.soe.injEq, ht] at h
      rw [h]
      exact .inl rfl
    · cases h

theorem ownUpdate_time (ht : sdu.timeOf "timeTagAtSource" = some t) (c : Converted) :
    (ownUpdate pl now fd sdu c).set.timeOf "timeTagAtSource" = some t := by
  have hlookup : sdu.lookup "timeTagAtSource" = some (.dateTime t) := by
    unfold Document.timeOf at ht
    split at ht
    · next ms h =>
        obtain rfl := Option.some.inj ht
        exact h
    · cases ht
  have hsource : sourceTime sdu =
      some (.dateTime t, ((sdu.boolStrict "timeTagAtSourceOk").map Value.bool).getD .null) := by
    simp only [sourceTime, Document.has, Document.isNull, hlookup, ht, Option.isSome_some,
      Bool.not_false, Bool.and_self, if_true, Option.map_some, Option.getD_some]
  simp only [ownUpdate, Document.timeOf, lookup_ownSet_timeTagAtSource, hsource, Option.getD_some]

end Processed

section Claim

-- Of the events of the update none has a time but that of the processing, and the
-- point gets no source time.
def WithoutSourceTime (fd sdu : Document) : Prop :=
  ∀ pl now active count ev, sourceUpdate ev = some (fd, sdu) →
    (∀ entry, .soe entry ∈ (handleChange pl now active count ev).1 →
      entry.timeOf "timeTagAtSource" = some now) ∧
    ∀ u, .rt u ∈ (handleChange pl now active count ev).1 → u.set.timeOf "timeTagAtSource" = none

-- The update has the source time, its events and the point get exactly that one. An
-- event of the limits alarm has the time of the processing.
def WithSourceTime (t : ℤ) (fd sdu : Document) : Prop :=
  sdu.timeOf "timeTagAtSource" = some t ∧
    ∀ pl now active count ev, sourceUpdate ev = some (fd, sdu) →
      (∀ entry, .soe entry ∈ (handleChange pl now active count ev).1 →
        entry.timeOf "timeTagAtSource" = some t ∨
          (hasLimits fd = true ∧ entry.timeOf "timeTagAtSource" = some now)) ∧
      ∀ u, .rt u ∈ (handleChange pl now active count ev).1 →
        u.set.has "timeTagAtSource" = true → u.set.timeOf "timeTagAtSource" = some t

-- The timestamp is there, valid and inside the window.
def Timestamp.Accepted (ts : Timestamp) : Prop :=
  ts.isValid = true ∧ minSaneTimeMs ≤ ts.unixMilli ∧ ts.unixMilli ≤ maxSaneTimeMs

-- The time of a measurement reaches the events of a point as it is, or not at all.
def TimeKept (info : Fragment) (m : Measurement) (fd : Document) : Prop :=
  ∀ w, writeOf (SoeHandler.handle info m) = some w →
    (m.time.Accepted → WithSourceTime m.time.unixMilli fd w.sourceDataUpdate) ∧
      (¬m.time.Accepted → WithoutSourceTime fd w.sourceDataUpdate)

-- The number that a measurement is stored as.
def Measured.number : Measured → Double
  | .binary b | .binaryOutputStatus b => if b then .fin 1 else .fin 0
  | .doubleBit b => if b = .determinedOn ∨ b = .indeterminate then .fin 1 else .fin 0
  | .analog x | .analogOutputStatus x => x
  | .counter n | .frozenCounter n => .fin n.toNat

variable (info : Fragment) (m : Measurement) {fd : Document}

theorem handle_value : (SoeHandler.handle info m).value = m.value.number := by
  unfold SoeHandler.handle
  cases hv : m.value with
  | doubleBit b => cases b <;> rfl
  | _ => rfl

theorem handle_time :
    (SoeHandler.handle info m).hasSourceTimestamp = m.time.isValid ∧
      (m.time.isValid = true → (SoeHandler.handle info m).sourceTimestamp = m.time.unixMilli) := by
  unfold SoeHandler.handle
  cases m.value <;> exact ⟨rfl, fun h => if_pos h⟩

theorem handle_group : (SoeHandler.handle info m).group ∈ [1, 3, 10, 20, 23, 30, 40] ∧
    (SoeHandler.handle info m).variation = 0 := by
  unfold SoeHandler.handle
  cases m.value <;> refine ⟨?_, rfl⟩ <;>
    simp [SoeHandler.push, groupBinaryInput, groupDoubleBinaryInput, groupAnalogInput, groupCounter,
      groupFrozenCounterEvent, groupBinaryOutputStatus, groupAnalogOutputStatus]

theorem writtenTime_of_accepted (h : m.time.Accepted) :
    writtenTime (SoeHandler.handle info m) = m.time.unixMilli := by
  obtain ⟨hvalid, hmin, hmax⟩ := h
  obtain ⟨hhas, htime⟩ := handle_time info m
  rw [writtenTime, hhas, if_pos hvalid, htime hvalid, sanitizeTime, if_neg (by omega)]

-- No measurement is taken for a double point of another protocol.
theorem not_isDoublePoint :
    isDoublePoint (updateOf (SoeHandler.handle info m)).bson = false := by
  obtain ⟨hgroup, hvariation⟩ := handle_group info m
  have hprefix : ∀ g ∈ [1, 3, 10, 20, 23, 30, 40],
      hasPrefix (toString (g : ℤ) ++ " " ++ toString (0 : ℤ)) "M_DP_" = false := by
    decide
  have hasdu := bson_asduAtSource (SoeHandler.handle info m)
  rw [hvariation] at hasdu
  simp only [isDoublePoint, Document.has, Document.str, hasdu, Option.isSome_some, Bool.true_and]
  exact hprefix _ hgroup

theorem convert_digital_value (pl : Platform) (now : Int) (hdigital : fd.str "type" = "digital")
    (hnan : m.value.number.isNaN = false) :
    (convert pl now fd (updateOf (SoeHandler.handle info m)).bson).value =
      invertDigital fd m.value.number := by
  have hnum : (updateOf (SoeHandler.handle info m)).bson.num "valueAtSource" =
      some m.value.number := by
    rw [Document.num, bson_valueAtSource, handle_value]
  simp only [convert, hdigital, if_true, convertDigital, doublePoint, not_isDoublePoint,
    Bool.false_eq_true, if_false, hnum, Option.isNone_some, Option.getD_some, hnan, Bool.or_self]

theorem writtenTime_of_not_accepted (h : ¬m.time.Accepted) :
    writtenTime (SoeHandler.handle info m) = 0 := by
  obtain ⟨hhas, htime⟩ := handle_time info m
  unfold writtenTime
  rw [hhas]
  by_cases hvalid : m.time.isValid = true
  · rw [if_pos hvalid, htime hvalid, sanitizeTime, if_pos]
    by_contra hin
    exact h ⟨hvalid, by omega, by omega⟩
  · rw [if_neg hvalid]

theorem writeOf_eq {w : WriteModel} (h : writeOf (SoeHandler.handle info m) = some w) :
    isSkipped m.value.number = false ∧
      w.sourceDataUpdate = (updateOf (SoeHandler.handle info m)).bson := by
  unfold writeOf at h
  rw [handle_value] at h
  by_cases hskip : isSkipped m.value.number = true
  · rw [if_pos hskip] at h
    cases h
  · rw [if_neg hskip] at h
    obtain rfl := Option.some.inj h
    exact ⟨Bool.not_eq_true _ ▸ hskip, rfl⟩

theorem writeOf_isSome (hskip : isSkipped m.value.number = false) :
    ∃ w, writeOf (SoeHandler.handle info m) = some w ∧
      w.sourceDataUpdate = (updateOf (SoeHandler.handle info m)).bson := by
  unfold writeOf
  rw [handle_value, hskip]
  exact ⟨_, rfl, rfl⟩

theorem withSourceTime (hdoc : SequenceDoc fd) (h : m.time.Accepted) :
    WithSourceTime m.time.unixMilli fd (updateOf (SoeHandler.handle info m)).bson := by
  have ht : (updateOf (SoeHandler.handle info m)).bson.timeOf "timeTagAtSource" =
      some m.time.unixMilli := by
    rw [Document.timeOf, bson_timeTagAtSource, writtenTime_of_accepted info m h]
  have hsoe := isSOE_of_time hdoc ht (le_trans (by decide) h.2.1)
  refine ⟨ht, ?_⟩
  intro pl now active count ev hev
  refine ⟨?_, ?_⟩
  · intro entry hentry
    rcases mem_handleChange pl now count hentry with ⟨_, _, he⟩ | ⟨fd', sdu', hev', hentry⟩
    · cases he
    · obtain ⟨rfl, rfl⟩ := Prod.mk.inj (Option.some.inj (hev.symm.trans hev'))
      exact soe_time ht hsoe hentry
  · intro u hu hhas
    rcases mem_handleChange pl now count hu with ⟨_, _, he⟩ | ⟨fd', sdu', hev', hu⟩
    · cases he
    · obtain ⟨rfl, rfl⟩ := Prod.mk.inj (Option.some.inj (hev.symm.trans hev'))
      obtain ⟨-, rfl⟩ := ownUpdate_of_has pl now count fd _ hu hhas
      exact ownUpdate_time ht _

-- The protection events whose OFF state is not stored.
def Hidden (fd : Document) (x : Double) : Prop :=
  fd.str "type" = "digital" ∧ fd.truthy "isEvent" = true ∧ invertDigital fd x = .fin 0

theorem isNaN_of_not_skipped {x : Double} (h : isSkipped x = false) : x.isNaN = false := by
  simp only [isSkipped, Bool.or_eq_false_iff] at h
  exact h.1.1.1

theorem not_historical :
    (updateOf (SoeHandler.handle info m)).bson.truthy "isHistorical" = false := by
  rw [Document.truthy, bson_isHistorical]
  rfl

theorem suppressed_iff (hskip : isSkipped m.value.number = false) (pl : Platform) (now : Int) :
    suppressed fd (updateOf (SoeHandler.handle info m)).bson
        (convert pl now fd (updateOf (SoeHandler.handle info m)).bson).value = true ↔
      Hidden fd m.value.number := by
  simp only [suppressed, not_historical, Bool.and_eq_true, decide_eq_true_eq, Bool.not_false,
    and_true, Hidden]
  by_cases hdigital : fd.str "type" = "digital"
  · rw [convert_digital_value info m pl now hdigital (isNaN_of_not_skipped hskip), Double.eq_iff]
    constructor
    · rintro ⟨⟨hevent, -⟩, hzero, -⟩
      exact ⟨hdigital, hevent, hzero⟩
    · rintro ⟨-, hevent, hzero⟩
      exact ⟨⟨hevent, hdigital⟩, hzero, by rw [hzero]; simp⟩
  · simp [hdigital]

variable {info m}

theorem hidden_withoutSourceTime (hskip : isSkipped m.value.number = false)
    (hhidden : Hidden fd m.value.number) :
    WithoutSourceTime fd (updateOf (SoeHandler.handle info m)).bson := by
  intro pl now active count ev hev
  have hsuppressed := (suppressed_iff info m hskip pl now).mpr hhidden
  obtain ⟨hdigital, hevent, hzero⟩ := hhidden
  have hvalue := convert_digital_value info m pl now hdigital (isNaN_of_not_skipped hskip)
  refine ⟨?_, ?_⟩
  · intro entry hentry
    rcases mem_handleChange pl now count hentry with ⟨_, _, he⟩ | ⟨fd', sdu', hev', hentry⟩
    · cases he
    · obtain ⟨rfl, rfl⟩ := Prod.mk.inj (Option.some.inj (hev.symm.trans hev'))
      rcases soe_mem_processUpdate pl now count fd _ hentry with h | h
      · simp [convert, hdigital, convertDigital] at h
      · simp [digitalSoe, hvalue, hzero, hevent, Double.eq] at h
  · intro u hu
    rcases mem_handleChange pl now count hu with ⟨_, _, he⟩ | ⟨fd', sdu', hev', hu⟩
    · cases he
    · obtain ⟨rfl, rfl⟩ := Prod.mk.inj (Option.some.inj (hev.symm.trans hev'))
      by_cases hhas : u.set.has "timeTagAtSource" = true
      · obtain ⟨hnot, -⟩ := ownUpdate_of_has pl now count fd _ hu hhas
        rw [hsuppressed] at hnot
        cases hnot
      · rw [Bool.not_eq_true, Document.has, Option.isSome_eq_false_iff,
          Option.isNone_iff_eq_none] at hhas
        rw [Document.timeOf, hhas]

-- The update of a reading without a timestamp sets the source time of its point to zero.
theorem not_withoutSourceTime (hdoc : SequenceDoc fd) (htime : ¬m.time.Accepted)
    (hskip : isSkipped m.value.number = false) (hhidden : ¬Hidden fd m.value.number) :
    ¬WithoutSourceTime fd (updateOf (SoeHandler.handle info m)).bson := by
  intro h
  have ht : (updateOf (SoeHandler.handle info m)).bson.timeOf "timeTagAtSource" = some 0 := by
    rw [Document.timeOf, bson_timeTagAtSource, writtenTime_of_not_accepted info m htime]
  have hsoe := isSOE_of_time hdoc ht le_rfl
  have hown : suppressed fd (updateOf (SoeHandler.handle info m)).bson
      (convert exactPlatform 0 fd (updateOf (SoeHandler.handle info m)).bson).value = false := by
    rw [← Bool.not_eq_true, suppressed_iff info m hskip]
    exact hhidden
  have hupdates : updates fd (updateOf (SoeHandler.handle info m)).bson
      (convert exactPlatform 0 fd (updateOf (SoeHandler.handle info m)).bson) = true := by
    simp [updates, changedForUpdate, hsoe, not_historical]
  have hmem := (rt_mem_processUpdate_iff exactPlatform 0 0 fd _).mpr
    ⟨hupdates, .inr (.inr ⟨hown, rfl⟩)⟩
  have hnone := (h exactPlatform 0 true 0
    { operationType := "update", fullDocument := some fd
      updatedFields := some [("sourceDataUpdate",
        .document (updateOf (SoeHandler.handle info m)).bson)] } rfl).2 _ hmem
  rw [ownUpdate_time ht] at hnone
  cases hnone

theorem timeKept_of_untimed (hdoc : SequenceDoc fd) (htime : ¬m.time.Accepted) :
    TimeKept info m fd ↔ isSkipped m.value.number = true ∨ Hidden fd m.value.number := by
  constructor
  · intro h
    by_contra hcond
    rw [not_or, Bool.not_eq_true] at hcond
    obtain ⟨w, hw, hsdu⟩ := writeOf_isSome info m hcond.1
    apply not_withoutSourceTime hdoc htime hcond.1 hcond.2
    rw [← hsdu]
    exact (h w hw).2 htime
  · rintro hcond w hw
    obtain ⟨hskip, hsdu⟩ := writeOf_eq info m hw
    refine ⟨fun hacc => absurd hacc htime, fun _ => ?_⟩
    rw [hsdu]
    exact hidden_withoutSourceTime hskip (hcond.resolve_left (by simp [hskip]))

-- A measurement without an accepted timestamp is taken for an event of 1970, unless
-- nothing of it is stored.
theorem timeKept_iff (info : Fragment) (m : Measurement) {fd : Document} (hdoc : SequenceDoc fd) :
    TimeKept info m fd ↔
      m.time.Accepted ∨ isSkipped m.value.number = true ∨ Hidden fd m.value.number := by
  by_cases htime : m.time.Accepted
  · refine iff_of_true ?_ (.inl htime)
    intro w hw
    obtain ⟨-, hsdu⟩ := writeOf_eq info m hw
    refine ⟨fun _ => ?_, fun hnot => absurd htime hnot⟩
    rw [hsdu]
    exact withSourceTime info m hdoc htime
  · rw [timeKept_of_untimed hdoc htime, or_iff_right htime]

-- A static read of a binary input, which has no timestamp.
def staticRead : Measurement where
  index := 3
  value := .binary true
  flags := fun b => b = .online
  time := { isValid := false, synchronized := false, unixMilli := 0 }

def breakerDoc : Document :=
  [("_id", .number (.fin 3001)), ("tag", .string "BREAKER"), ("type", .string "digital")]

def integrityPoll : Fragment where
  connNumber := 1
  now := 1700000000000
  isEvent := false

theorem staticRead_timeKept_iff :
    TimeKept integrityPoll staticRead breakerDoc ↔
      staticRead.time.Accepted ∨ isSkipped staticRead.value.number = true ∨
        Hidden breakerDoc staticRead.value.number :=
  timeKept_iff integrityPoll staticRead (.inl (by decide))

-- It becomes an event of 1970.
theorem staticRead_not_kept : ¬TimeKept integrityPoll staticRead breakerDoc := by
  have htime : ¬staticRead.time.Accepted := by
    rintro ⟨h, -⟩
    cases h
  rw [timeKept_of_untimed (.inl (by decide)) htime]
  rintro (h | ⟨-, h, -⟩)
  · exact absurd h (by decide +kernel)
  · exact absurd h (by decide)

end Claim

end JsonScada.Dnp3
