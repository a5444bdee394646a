import JsonScada.Library.Run
import JsonScada.Processor.Limits

-- The alarm range of an analog as an automaton over the values that are processed.
namespace JsonScada.Processor

open JsonScada.Library

section Automaton

-- A value is below, within or above its limits.
inductive LimitRange where
  | below
  | normal
  | above
  deriving DecidableEq

-- The values at which the range changes.
structure Band (α : Type) where
  exceeds : α → Bool
  falls : α → Bool
  inside : α → Bool

-- Between the thresholds of leaving and of coming back the range stays.
def Band.next {α : Type} (b : Band α) (r : LimitRange) (value : α) : LimitRange :=
  if b.exceeds value then .above
  else if b.falls value then .below
  else if b.inside value then .normal
  else r

end Automaton

section Point

deriving instance DecidableEq for RtUpdate, HistEntry, Effect

def LimitRange.number : LimitRange → Double
  | .below => .fin (-1)
  | .normal => .fin 0
  | .above => .fin 1

def hysteresis (fd : Document) : Double :=
  if fd.truthy "hysteresis" then fd.numOr "hysteresis" (.fin 0) else .fin 0

-- The band of a point: its limits, away from zero and back by the hysteresis.
def band (pl : Platform) (fd : Document) : Band Double where
  exceeds := Double.lt (Double.add pl.round (fd.numOr "hiLimit" .nan) (hysteresis fd))
  falls v := Double.lt v (Double.sub pl.round (fd.numOr "loLimit" .nan) (hysteresis fd))
  inside v :=
    Double.lt v (Double.sub pl.round (fd.numOr "hiLimit" .nan) (hysteresis fd)) &&
      Double.lt (Double.add pl.round (fd.numOr "loLimit" .nan) (hysteresis fd)) v

-- The document has the range, and is alarmed exactly outside the limits.
def InRange (fd : Document) (r : LimitRange) : Prop :=
  fd.lookup "alarmRange" = some (.number r.number) ∧
    fd.truthy "alarmed" = decide (r ≠ .normal)

instance (fd : Document) (r : LimitRange) : Decidable (InRange fd r) :=
  inferInstanceAs (Decidable (_ ∧ _))

-- The `$set` of an effect that is for the point.
def storeOne (id : Value) (d : Document) : Effect → Document
  | .rt u => if u.id = id then applySet d u.set else d
  | _ => d

def store (fd : Document) (effects : List Effect) : Document :=
  effects.foldl (storeOne (rawOrNil (fd.lookup "_id"))) fd

structure PointState where
  doc : Document
  count : ℕ := 0

-- A source data update and the time of its processing.
structure Reading where
  now : Int
  sdu : Document

variable (pl : Platform)

def PointState.after (s : PointState) (a : Reading) : PointState where
  doc := store s.doc (processUpdate pl a.now s.count s.doc a.sdu).1
  count := (processUpdate pl a.now s.count s.doc a.sdu).2

-- Each `$set` is applied before the next update is processed.
def pointStep (s : PointState) (a : Reading) : Option PointState := some (s.after pl a)

def readingValue (fd : Document) (a : Reading) : Double := scaled pl fd (analogSource a.sdu)

def limitEvents (s : PointState) (a : Reading) : List Effect :=
  let event := limitSoe pl a.now s.doc (convert pl a.now s.doc a.sdu).value
  (processUpdate pl a.now s.count s.doc a.sdu).1.filter fun e => e = event true || e = event false

-- The stored range moves as the automaton, with one event for each change.
def Follows (s : PointState) (a : Reading) : Prop :=
  ∃ r, InRange s.doc r ∧
    let r' := (band pl s.doc).next r (readingValue pl s.doc a)
    InRange (s.after pl a).doc r' ∧ (limitEvents pl s a).length = if r' = r then 0 else 1

-- A value in another range is stored.
def Stores (s : PointState) (a : Reading) : Prop :=
  rangeEntered pl s.doc a.sdu = true → rangeWritten pl s.doc a.sdu = true

instance (s : PointState) (a : Reading) : Decidable (Stores pl s a) :=
  inferInstanceAs (Decidable (_ → _))

end Point

section Lemmas

variable {pl : Platform} {now : Int} {count : ℕ} {fd sdu : Document} {r : LimitRange}

theorem number_ne_nan (r : LimitRange) : r.number ≠ .nan := by cases r <;> simp [LimitRange.number]

theorem number_inj {r s : LimitRange} : r.number = s.number ↔ r = s := by
  cases r <;> cases s <;> simp [LimitRange.number] <;> norm_num

theorem storedRange_of_inRange (h : InRange fd r) : storedRange fd = r.number :=
  storedRange_of_number fd h.1 (number_ne_nan r)

theorem limitRange_next (h : InRange fd r) (value : Double) :
    (limitRange pl fd value).1 = ((band pl fd).next r value).number := by
  have hdecided : decidedRange pl fd value =
      if (band pl fd).exceeds value then some (.fin 1)
      else if (band pl fd).falls value then some (.fin (-1))
      else if (band pl fd).inside value then some (.fin 0)
      else none := rfl
  rw [limitRange_eq, storedRange_of_inRange h, hdecided, Band.next]
  split
  · rfl
  · split
    · rfl
    · split <;> rfl

theorem rangeChanged_iff (h : InRange fd r) (s : LimitRange) :
    rangeChanged fd s.number = true ↔ s ≠ r := by
  have hnum : fd.num "alarmRange" = some r.number := by simp only [Document.num, h.1]
  have heq : Double.eq r.number s.number = true ↔ s = r := by
    rw [Double.eq_iff, number_inj]
    exact ⟨fun h => h.1.symm, fun h => ⟨h.symm, number_ne_nan r⟩⟩
  rw [rangeChanged, hnum, Bool.not_eq_true', ← Bool.not_eq_true, heq]

theorem rangeEntered_iff (hanalog : fd.str "type" = "analog") (hlimits : hasLimits fd = true)
    (h : InRange fd r) : rangeEntered pl fd sdu = true ↔
      (band pl fd).next r (scaled pl fd (analogSource sdu)) ≠ r := by
  rw [rangeEntered, hlimits, limitRange_next h, decide_eq_true hanalog, Bool.and_self,
    Bool.true_and, rangeChanged_iff h]

theorem limitRange_band (value : Double) : limitRange pl fd value =
    if (band pl fd).exceeds value then (.fin 1, false)
    else if (band pl fd).falls value then (.fin (-1), false)
    else if (band pl fd).inside value then (.fin 0, true)
    else (storedRange fd, false) := rfl

-- What the limits make of the alarm, from the range and whether the value is back.
def limitAlarm (fd : Document) (range : Double) (normal : Bool) : Bool :=
  let alarmed := if normal then false else fd.truthy "alarmed"
  if rangeChanged fd range then if Double.eq range (.fin 0) then alarmed else true else alarmed

theorem alarmed_eq (hanalog : fd.str "type" = "analog") (hlimits : hasLimits fd = true) :
    (convert pl now fd sdu).alarmed =
      limitAlarm fd (limitRange pl fd (scaled pl fd (analogSource sdu))).1
        (limitRange pl fd (scaled pl fd (analogSource sdu))).2 := by
  have hsource : (sdu.num "valueAtSource").getD (.fin 0) = analogSource sdu := rfl
  by_cases hrange :
      rangeChanged fd (limitRange pl fd (scaled pl fd (analogSource sdu))).1 = true
  · simp only [convert, hanalog, String.reduceEq, if_false, if_true, convertAnalog, hlimits, hsource,
      limitAlarm, hrange]
  · simp only [convert, hanalog, String.reduceEq, if_false, if_true, convertAnalog, hlimits, hsource,
      limitAlarm, hrange, Bool.false_eq_true]

-- A range that the value decides has its alarm, from whichever range it comes.
theorem limitAlarm_decided (h : InRange fd r) (s : LimitRange) :
    limitAlarm fd s.number (decide (s = .normal)) = decide (s ≠ .normal) := by
  have hchanged := rangeChanged_iff h s
  have halarmed := h.2
  unfold limitAlarm
  by_cases hsame : s = r
  · subst hsame
    have hnot : rangeChanged fd s.number = false := by simpa using hchanged
    rw [hnot, halarmed]
    cases s <;> rfl
  · rw [hchanged.mpr hsame]
    cases s
    · rfl
    · rfl
    · rfl

theorem limitAlarm_kept (h : InRange fd r) :
    limitAlarm fd r.number false = decide (r ≠ .normal) := by
  have hchanged := rangeChanged_iff h r
  have hnot : rangeChanged fd r.number = false := by simpa using hchanged
  simp only [limitAlarm, hnot, h.2, Bool.false_eq_true, if_false]

-- The alarm follows the range: it is raised when the range is left, kept in the band and
-- cleared when the value is back.
theorem alarmed_next (hanalog : fd.str "type" = "analog") (hlimits : hasLimits fd = true)
    (h : InRange fd r) : (convert pl now fd sdu).alarmed =
      decide ((band pl fd).next r (scaled pl fd (analogSource sdu)) ≠ .normal) := by
  rw [alarmed_eq hanalog hlimits, limitRange_band, Band.next]
  split
  · exact limitAlarm_decided h .above
  · split
    · exact limitAlarm_decided h .below
    · split
      · exact limitAlarm_decided h .normal
      · rw [storedRange_of_inRange h]
        exact limitAlarm_kept h

-- Before the events of the conversion there are none, and behind them no others.
theorem processUpdate_eq_append (pl : Platform) (now : Int) (count : ℕ) (sdu : Document)
    (hanalog : fd.str "type" = "analog") :
    ∃ rest, (processUpdate pl now count fd sdu).1 = (convert pl now fd sdu).soe ++ rest ∧
      ∀ entry, .soe entry ∉ rest := by
  have hdigital : digitalSoe now fd sdu (convert pl now fd sdu) = [] := by
    simp [digitalSoe, hanalog]
  have hbeep (entry : Document) : .soe entry ∉ beepUpdate now fd := by
    intro hmem
    obtain ⟨u, hu, -⟩ := mem_beepUpdate now fd hmem
    cases hu
  unfold processUpdate
  dsimp only
  split
  · simp only [List.append_assoc]
    refine ⟨_, rfl, fun entry hmem => ?_⟩
    simp only [hdigital, List.append_nil, List.mem_append, List.mem_ite_nil_right,
      List.mem_ite_nil_left, List.mem_singleton, hbeep, countUpdate, reduceCtorEq, and_false,
      or_false] at hmem
  · exact ⟨[], by rw [hdigital], fun entry hmem => by cases hmem⟩

-- The events of an analog: that of its limits, and its own one.
theorem soe_analog (pl : Platform) (now : Int) (sdu : Document)
    (hanalog : fd.str "type" = "analog") : ∃ alarmed event : Bool,
    (convert pl now fd sdu).soe =
      (if rangeEntered pl fd sdu then
        [limitSoe pl now fd (scaled pl fd (analogSource sdu)) alarmed] else []) ++
      if event then [eventSoe pl now fd sdu (scaled pl fd (analogSource sdu))] else [] := by
  have hsource : (sdu.num "valueAtSource").getD (.fin 0) = analogSource sdu := rfl
  by_cases hlimits : hasLimits fd = true
  · by_cases hrange :
        rangeChanged fd (limitRange pl fd (scaled pl fd (analogSource sdu))).1 = true
    · simp only [convert, hanalog, String.reduceEq, if_false, if_true, convertAnalog, hlimits, hsource,
        hrange, rangeEntered, decide_true, Bool.and_self]
      exact ⟨_, _, rfl⟩
    · simp only [convert, hanalog, String.reduceEq, if_false, if_true, convertAnalog, hlimits, hsource,
        hrange, rangeEntered, Bool.false_eq_true, Bool.and_false]
      exact ⟨false, _, rfl⟩
  · simp only [convert, hanalog, String.reduceEq, if_false, if_true, convertAnalog, hlimits, hsource,
      rangeEntered, Bool.false_eq_true, Bool.and_false, Bool.false_and]
    exact ⟨false, _, rfl⟩

-- One event when the range is entered, else none.
theorem limitEvents_length (s : PointState) (a : Reading) (hanalog : s.doc.str "type" = "analog") :
    (limitEvents pl s a).length = if rangeEntered pl s.doc a.sdu then 1 else 0 := by
  obtain ⟨rest, heffects, hnone⟩ :=
    processUpdate_eq_append pl a.now s.count a.sdu hanalog
  obtain ⟨alarmed, event, hsoe⟩ := soe_analog pl a.now a.sdu hanalog
  have hrest (p : Effect → Bool) (hp : ∀ e, p e = true → ∃ entry, e = .soe entry) :
      rest.filter p = [] := by
    rw [List.filter_eq_nil_iff]
    intro e he hpe
    obtain ⟨entry, rfl⟩ := hp e hpe
    exact hnone entry he
  have hevent (alarmed : Bool) : eventSoe pl a.now s.doc a.sdu (scaled pl s.doc (analogSource a.sdu)) ≠
      limitSoe pl a.now s.doc (scaled pl s.doc (analogSource a.sdu)) alarmed :=
    (limitSoe_ne_eventSoe a.now _ alarmed).symm
  rw [limitEvents, heffects, List.filter_append, hrest, List.append_nil, hsoe, value_analog hanalog]
  · cases rangeEntered pl s.doc a.sdu <;> cases event <;> cases alarmed <;> simp [hevent]
  · intro e he
    rcases Bool.or_eq_true_iff.mp he with he | he
    · exact ⟨_, of_decide_eq_true he⟩
    · exact ⟨_, of_decide_eq_true he⟩

end Lemmas

section Store

variable {pl : Platform} {now : Int} {count : ℕ} {fd fd' sdu : Document} {id : Value}

theorem foldl_storeOne_of_not_rt {effects : List Effect} (h : ∀ u, .rt u ∉ effects) (d : Document) :
    effects.foldl (storeOne id) d = d := by
  induction effects generalizing d with
  | nil => rfl
  | cons e effects ih =>
      rw [List.foldl_cons, ih fun u hu => h u (List.mem_cons_of_mem e hu)]
      cases e with
      | rt u => exact absurd List.mem_cons_self (h u)
      | soe | hist | sqlRt => rfl

theorem lookup_foldl_storeOne {effects : List Effect} {k : String}
    (h : ∀ u, .rt u ∈ effects → u.set.reverse.lookup k = none) (d : Document) :
    (effects.foldl (storeOne id) d).lookup k = d.lookup k := by
  induction effects generalizing d with
  | nil => rfl
  | cons e effects ih =>
      rw [List.foldl_cons, ih fun u hu => h u (List.mem_cons_of_mem e hu)]
      cases e with
      | rt u =>
          change (if u.id = id then applySet d u.set else d).lookup k = d.lookup k
          split
          · rw [lookup_applySet, h u List.mem_cons_self, Option.none_or]
          · rfl
      | soe | hist | sqlRt => rfl

-- What the limits of a point depend on, and the conversion of its values.
def limitFields : List String :=
  ["type", "hiLimit", "loLimit", "hysteresis", "alarmDisabled", "kconv1", "kconv2", "zeroDeadband"]

def SameLimits (fd fd' : Document) : Prop := ∀ k ∈ limitFields, fd'.lookup k = fd.lookup k

theorem sameLimits_store : SameLimits fd (store fd (processUpdate pl now count fd sdu).1) := by
  intro k hk
  apply lookup_foldl_storeOne
  intro u hu
  rw [List.lookup_eq_none_iff]
  intro f hf
  rw [bne_iff_ne]
  rintro rfl
  have hmem := List.mem_reverse.mp hf
  rcases rt_cases pl now count fd sdu hu with hsystem | ⟨-, rfl⟩
  · have hfield := hsystem.fields f hmem
    simp only [limitFields, List.mem_cons, List.not_mem_nil, or_false] at hk
    rcases hk with hk | hk | hk | hk | hk | hk | hk | hk <;> simp [hk] at hfield
  · have hfield := ownSet_fields pl now fd sdu _ f hmem
    simp only [limitFields, List.mem_cons, List.not_mem_nil, or_false] at hk
    rcases hk with hk | hk | hk | hk | hk | hk | hk | hk <;> simp [hk, ownFields] at hfield

namespace SameLimits

variable (h : SameLimits fd fd')

include h

theorem type : fd'.str "type" = fd.str "type" := by
  rw [Document.str, h "type" (by decide), Document.str]

theorem has {k : String} (hk : k ∈ limitFields) : fd'.has k = fd.has k := by
  rw [Document.has, h k hk, Document.has]

theorem truthy {k : String} (hk : k ∈ limitFields) : fd'.truthy k = fd.truthy k := by
  rw [Document.truthy, h k hk, Document.truthy]

theorem numOr {k : String} (hk : k ∈ limitFields) (x : Double) : fd'.numOr k x = fd.numOr k x := by
  rw [Document.numOr, Document.num, h k hk, Document.numOr, Document.num]

theorem isNull {k : String} (hk : k ∈ limitFields) : fd'.isNull k = fd.isNull k := by
  rw [Document.isNull, h k hk, Document.isNull]

theorem hasLimits : hasLimits fd' = hasLimits fd := by
  simp only [Processor.hasLimits, h.has (k := "hiLimit") (by decide),
    h.has (k := "loLimit") (by decide), h.isNull (k := "hiLimit") (by decide),
    h.isNull (k := "loLimit") (by decide), h.truthy (k := "alarmDisabled") (by decide)]

theorem scaled (value : Double) : scaled pl fd' value = scaled pl fd value := by
  simp only [Processor.scaled, h.numOr (k := "kconv1") (by decide),
    h.numOr (k := "kconv2") (by decide), h.has (k := "zeroDeadband") (by decide),
    h.numOr (k := "zeroDeadband") (by decide)]

theorem band : band pl fd' = band pl fd := by
  have hhysteresis : hysteresis fd' = hysteresis fd := by
    simp only [hysteresis, h.truthy (k := "hysteresis") (by decide),
      h.numOr (k := "hysteresis") (by decide)]
  simp only [Processor.band, hhysteresis, h.numOr (k := "hiLimit") (by decide),
    h.numOr (k := "loLimit") (by decide)]

end SameLimits

theorem store_of_not_written (hanalog : fd.str "type" = "analog")
    (h : rangeWritten pl fd sdu = false) : store fd (processUpdate pl now count fd sdu).1 = fd := by
  apply foldl_storeOne_of_not_rt
  intro u hu
  have hupdates := ((rt_mem_processUpdate_iff pl now count fd sdu).mp hu).1
  rw [updates_analog now hanalog, h] at hupdates
  cases hupdates

-- The last `$set` of the point is its own one.
theorem store_of_written (now : Int) (count : ℕ) (hanalog : fd.str "type" = "analog")
    (h : rangeWritten pl fd sdu = true) : ∃ d, store fd (processUpdate pl now count fd sdu).1 =
      applySet d (ownSet pl now fd sdu (convert pl now fd sdu)) := by
  have hupdates : (changedForUpdate fd sdu (convert pl now fd sdu) &&
      !sdu.truthy "isHistorical") = true := (updates_analog now hanalog).trans h
  have hdigital : digitalSoe now fd sdu (convert pl now fd sdu) = [] := by
    simp [digitalSoe, hanalog]
  have hshape : ∃ front back, (processUpdate pl now count fd sdu).1 =
      front ++ .rt (ownUpdate pl now fd sdu (convert pl now fd sdu)) :: back ∧
        ∀ u, .rt u ∉ back := by
    simp only [processUpdate, hupdates, if_true, suppressed_analog hanalog, Bool.false_eq_true,
      if_false, hdigital, List.append_nil]
    refine ⟨_, _, by rw [List.append_assoc, List.append_assoc]; rfl, fun u hu => ?_⟩
    simp only [List.append_eq, List.nil_append, List.mem_append, List.mem_singleton,
      List.mem_ite_nil_right, reduceCtorEq, and_false, or_false] at hu
  obtain ⟨front, back, heffects, hback⟩ := hshape
  rw [store, heffects, List.foldl_append, List.foldl_cons, foldl_storeOne_of_not_rt hback]
  exact ⟨_, if_pos rfl⟩

end Store

section Runs

variable {pl : Platform} {s : PointState} {a : Reading} {r : LimitRange}

theorem inRange_after (hanalog : s.doc.str "type" = "analog") (hlimits : hasLimits s.doc = true)
    (h : InRange s.doc r) (hok : Stores pl s a) :
    InRange (s.after pl a).doc ((band pl s.doc).next r (readingValue pl s.doc a)) := by
  cases hwritten : rangeWritten pl s.doc a.sdu with
  | false =>
      have hkept : (band pl s.doc).next r (readingValue pl s.doc a) = r := by
        by_contra hne
        have hstored := hok ((rangeEntered_iff hanalog hlimits h).mpr hne)
        rw [hwritten] at hstored
        cases hstored
      rw [hkept, PointState.after, store_of_not_written hanalog hwritten]
      exact h
  | true =>
      obtain ⟨d, hd⟩ := store_of_written a.now s.count hanalog hwritten
      have henabled : s.doc.truthy "alarmDisabled" = false := by
        simp only [hasLimits, Bool.and_eq_true, Bool.not_eq_true'] at hlimits
        exact hlimits.2
      constructor
      · rw [PointState.after, hd, lookup_applySet, lookup_ownSet_alarmRange, Option.some_or,
          alarmRange_analog hanalog hlimits, limitRange_next h]
        rfl
      · rw [PointState.after, hd, Document.truthy, lookup_applySet, lookup_ownSet_alarmed,
          Option.some_or, alarmed_next hanalog hlimits h, henabled, Bool.not_false, Bool.and_true]
        rfl

-- A step from a consistent document moves the range as the automaton.
theorem follows (hanalog : s.doc.str "type" = "analog") (hlimits : hasLimits s.doc = true)
    (h : InRange s.doc r) (hok : Stores pl s a) : Follows pl s a := by
  refine ⟨r, h, inRange_after hanalog hlimits h hok, ?_⟩
  have hentered : rangeEntered pl s.doc a.sdu = true ↔
      (band pl s.doc).next r (readingValue pl s.doc a) ≠ r := rangeEntered_iff hanalog hlimits h
  rw [limitEvents_length s a hanalog]
  by_cases hsame : (band pl s.doc).next r (readingValue pl s.doc a) = r
  · have hnot : rangeEntered pl s.doc a.sdu = false := by
      rw [← Bool.not_eq_true, hentered]
      exact fun hne => hne hsame
    rw [hnot, if_pos hsame]
    rfl
  · rw [hentered.mpr hsame, if_neg hsame]
    rfl

-- An analog with the limits, in one of their ranges.
structure AnalogInv (pl : Platform) (fd : Document) (s : PointState) : Prop where
  limits : SameLimits fd s.doc
  range : ∃ r, InRange s.doc r

theorem AnalogInv.step {fd : Document} {s' : PointState} (hanalog : fd.str "type" = "analog")
    (hlimits : hasLimits fd = true) (h : AnalogInv pl fd s) (hok : Stores pl s a)
    (hstep : pointStep pl s a = some s') : AnalogInv pl fd s' := by
  obtain rfl := Option.some.inj hstep
  obtain ⟨r, hr⟩ := h.range
  have hafter := inRange_after (h.limits.type.trans hanalog) (h.limits.hasLimits.trans hlimits) hr hok
  refine ⟨fun k hk => ?_, _, hafter⟩
  exact (sameLimits_store k hk).trans (h.limits k hk)

theorem inRange_of_run {fd : Document} (hanalog : fd.str "type" = "analog")
    (hlimits : hasLimits fd = true) {as : List Reading} {s' : PointState}
    (hsame : SameLimits fd s.doc) (h : InRange s.doc r)
    (hok : Run.Allowed (pointStep pl) (Stores pl) s as)
    (hrun : Run.run (pointStep pl) s as = some s') :
    InRange s'.doc (as.foldl (fun r a => (band pl fd).next r (readingValue pl fd a)) r) := by
  induction as generalizing s r with
  | nil =>
      obtain rfl := Option.some.inj hrun
      exact h
  | cons a as ih =>
      have hafter := inRange_after (hsame.type.trans hanalog) (hsame.hasLimits.trans hlimits) h hok.1
      rw [hsame.band, readingValue, hsame.scaled] at hafter
      refine ih (fun k hk => ?_) hafter (hok.2 _ rfl) hrun
      exact (sameLimits_store k hk).trans (hsame k hk)

theorem hysteresis_automaton (pl : Platform) (fd : Document) (count : ℕ) (r : LimitRange)
    (as : List Reading) (hanalog : fd.str "type" = "analog") (hlimits : hasLimits fd = true)
    (hstart : InRange fd r)
    (hok : Run.Allowed (pointStep pl) (Stores pl) ⟨fd, count⟩ as) :
    Run.Allowed (pointStep pl) (Follows pl) ⟨fd, count⟩ as ∧
      ∀ s, Run.run (pointStep pl) ⟨fd, count⟩ as = some s →
        InRange s.doc (as.foldl (fun r a => (band pl fd).next r (readingValue pl fd a)) r) := by
  have hinv : AnalogInv pl fd ⟨fd, count⟩ := ⟨fun k _ => rfl, r, hstart⟩
  constructor
  · refine Run.allowed_imp (fun s a s' => AnalogInv.step hanalog hlimits) ?_ hinv hok
    intro s a h hok
    obtain ⟨r, hr⟩ := h.range
    exact follows (h.limits.type.trans hanalog) (h.limits.hasLimits.trans hlimits) hr hok
  · intro s hrun
    exact inRange_of_run hanalog hlimits hinv.limits hstart hok hrun

end Runs

section Samples

-- Limits at 10 and 40, left by more than 2 and entered again by more than 2.
def ovenPoint : Document := setField loweredLimit "hysteresis" (.number (.fin 2))

def ovenReading (n : ℕ) : Reading := ⟨0, [("valueAtSource", .number (.fin n))]⟩

-- Over the high limit, in the band, on its inner threshold, and back.
def ovenReadings : List Reading := [ovenReading 43, ovenReading 39, ovenReading 38, ovenReading 30]

theorem ovenReadings_follow :
    Run.Allowed (pointStep exactPlatform) (Follows exactPlatform) ⟨ovenPoint, 0⟩ ovenReadings ∧
      ∃ s, Run.run (pointStep exactPlatform) ⟨ovenPoint, 0⟩ ovenReadings = some s ∧
        InRange s.doc .normal := by
  have hok : Run.Allowed (pointStep exactPlatform) (Stores exactPlatform) ⟨ovenPoint, 0⟩
      ovenReadings := by decide +kernel
  obtain ⟨hfollows, hend⟩ := hysteresis_automaton exactPlatform ovenPoint 0 .normal ovenReadings
    (by decide) (by decide) (by decide) hok
  have hrange : ovenReadings.foldl (fun r a => (band exactPlatform ovenPoint).next r
      (readingValue exactPlatform ovenPoint a)) .normal = .normal := by decide +kernel
  rw [hrange] at hend
  exact ⟨hfollows, _, rfl, hend _ rfl⟩

-- An event, and no change of the stored range.
theorem loweredLimit_not_follows : InRange loweredLimit .normal ∧
    ¬Follows exactPlatform ⟨loweredLimit, 0⟩ ⟨0, sameReading⟩ := by
  refine ⟨by decide, ?_⟩
  rintro ⟨r, hr, hafter, -⟩
  have hnormal : r = .normal := number_inj.mp (Value.number.inj (Option.some.inj hr.1.symm))
  subst hnormal
  have hkept : (PointState.after exactPlatform ⟨loweredLimit, 0⟩ ⟨0, sameReading⟩).doc.lookup
      "alarmRange" = some (.number (.fin 0)) := by decide +kernel
  have hnext : (band exactPlatform loweredLimit).next .normal
      (readingValue exactPlatform loweredLimit ⟨0, sameReading⟩) = .above := by decide +kernel
  have habove := hkept.symm.trans hafter.1
  rw [hnext] at habove
  exact absurd habove (by decide)

end Samples

end JsonScada.Processor
