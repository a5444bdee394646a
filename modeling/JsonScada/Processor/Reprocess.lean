import JsonScada.Processor.HandleChange.Lemmas

namespace JsonScada.Processor

open JsonScada.Library

-- Whether the handler queues a `$set` of the point for an update.
def writes (pl : Platform) (fd sdu : Document) : Bool :=
  let c := convert pl 0 fd sdu
  updates fd sdu c && !suppressed fd sdu c.value

-- The update leaves an alarm as it was read: it neither clears it nor raises a new one.
def carriesAlarm (pl : Platform) (fd sdu : Document) : Bool :=
  let c := convert pl 0 fd sdu
  fd.truthy "alarmed" && !fd.truthy "alarmDisabled" && c.alarmed && !hasAlarmTime fd sdu c

namespace Reprocess

-- A change event whose full document is read, and its `$set` once it is queued.
structure InFlight where
  fd : Document
  sdu : Document
  set : Option Document := none

structure State where
  doc : Document
  -- the change events whose full document is not read yet
  events : List Document := []
  inFlight : List InFlight := []
  -- the alarm of the document is acknowledged, and no new one was raised since
  acked : Bool := false
  flushes : Nat := 0

inductive Label where
  -- a driver writes sourceDataUpdate
  | driver (sdu : Document)
  -- any other update of the point
  | write (fields : Document)
  | acknowledge
  -- the full document of the next change event is looked up
  | read
  | handle (now : Int) (active : Bool)
  | flush

inductive Step (pl : Platform) : State → Label → State → Prop where
  | driver (s : State) (sdu : Document) :
      Step pl s (.driver sdu)
        { s with
          doc := setField s.doc "sourceDataUpdate" (.document sdu)
          events := s.events ++ [sdu] }
  | write (s : State) (fields : Document) :
      Step pl s (.write fields) { s with doc := applySet s.doc fields }
  | acknowledge (s : State) :
      Step pl s .acknowledge
        { s with doc := setField s.doc "alarmed" (.bool false), acked := true }
  | read (s : State) (sdu : Document) (events : List Document) (h : s.events = sdu :: events) :
      Step pl s .read
        { s with events := events, inFlight := s.inFlight ++ [{ fd := s.doc, sdu := sdu }] }
  | handle (s : State) (now : Int) (fd sdu : Document) (pre post : List InFlight)
      (h : s.inFlight = pre ++ { fd := fd, sdu := sdu } :: post) (hwrites : writes pl fd sdu = true) :
      Step pl s (.handle now true)
        { s with
          inFlight := pre ++
            { fd := fd, sdu := sdu, set := some (ownSet pl now fd sdu (convert pl now fd sdu)) } ::
            post }
  | ignore (s : State) (now : Int) (active : Bool) (fd sdu : Document) (pre post : List InFlight)
      (h : s.inFlight = pre ++ { fd := fd, sdu := sdu } :: post)
      (hnone : active = false ∨ writes pl fd sdu = false) :
      Step pl s (.handle now active) { s with inFlight := pre ++ post }
  | flush (s : State) (fd sdu set : Document) (pre post : List InFlight)
      (h : s.inFlight = pre ++ { fd := fd, sdu := sdu, set := some set } :: post) :
      Step pl s .flush
        { s with
          doc := applySet s.doc set
          inFlight := pre ++ post
          -- a new alarm is not the one that was acknowledged
          acked := s.acked && !set.has "timeTagAlarm"
          flushes := s.flushes + 1 }

-- The steps after which nothing is reverted and no count is lost: the point is
-- acknowledged while no event in flight carries its alarm, an event that writes is
-- read while no other one in flight does, from a document whose count can be
-- incremented exactly, and nobody else writes these two fields.
def Allowed (pl : Platform) (s : State) : Label → Prop
  | .acknowledge =>
      ∀ x ∈ s.inFlight, (writes pl x.fd x.sdu && carriesAlarm pl x.fd x.sdu) = false
  | .read =>
      ∀ sdu events, s.events = sdu :: events → writes pl s.doc sdu = true →
        (∀ x ∈ s.inFlight, writes pl x.fd x.sdu = false) ∧
          ∃ q, s.doc.num "updatesCnt" = some (.fin q) ∧ pl.round (q + 1) = .fin (q + 1)
  | .write fields =>
      fields.reverse.lookup "alarmed" = none ∧ fields.reverse.lookup "updatesCnt" = none
  | .driver _ | .handle _ _ | .flush => True

-- A run whose steps all meet a condition.
inductive Run (pl : Platform) (allowed : State → Label → Prop) :
    State → List Label → State → Prop where
  | refl (s : State) : Run pl allowed s [] s
  | step {s t u : State} {l : Label} {ls : List Label} (hallowed : allowed s l)
      (hstep : Step pl s l t) (h : Run pl allowed t ls u) : Run pl allowed s (l :: ls) u

end Reprocess

end JsonScada.Processor

namespace JsonScada.Processor.Reprocess

open JsonScada.Library

section Snapshot

variable (pl : Platform) (now : Int) (doc fd sdu : Document)

theorem updatesCnt_of_exact {q : ℚ} (hq : fd.num "updatesCnt" = some (.fin q))
    (hround : pl.round (q + 1) = .fin (q + 1)) : updatesCnt pl fd = .fin (q + 1) := by
  simp only [updatesCnt, Document.numOr, hq, Option.getD_some, Double.add, hround]

-- What the flush stores does not depend on the document that it is stored in.
theorem num_applySet_ownSet (c : Converted) :
    (applySet doc (ownSet pl now fd sdu c)).num "updatesCnt" = some (updatesCnt pl fd) := by
  simp only [Document.num, lookup_applySet, lookup_ownSet_updatesCnt, Option.some_or]

theorem truthy_applySet_ownSet (c : Converted) :
    (applySet doc (ownSet pl now fd sdu c)).truthy "alarmed" =
      (c.alarmed && !fd.truthy "alarmDisabled") := by
  simp only [Document.truthy, lookup_applySet, lookup_ownSet_alarmed, Option.some_or, truthyValue]

theorem not_carriesAlarm (h : fd.truthy "alarmed" = false) : carriesAlarm pl fd sdu = false := by
  simp [carriesAlarm, h]

theorem hasAlarmTime_convert :
    hasAlarmTime fd sdu (convert pl now fd sdu) = hasAlarmTime fd sdu (convert pl 0 fd sdu) := by
  rw [convert_now pl now fd sdu 0]
  rfl

theorem alarmed_convert : (convert pl now fd sdu).alarmed = (convert pl 0 fd sdu).alarmed := by
  rw [convert_now pl now fd sdu 0]

-- An alarm that is stored is the old one, or a new one with its time.
theorem carriesAlarm_or_alarmTime
    (h : ((convert pl now fd sdu).alarmed && !fd.truthy "alarmDisabled") = true) :
    carriesAlarm pl fd sdu = true ∨ hasAlarmTime fd sdu (convert pl now fd sdu) = true := by
  rw [alarmed_convert, Bool.and_eq_true] at h
  obtain ⟨halarmed, henabled⟩ := h
  rw [hasAlarmTime_convert]
  by_cases htime : hasAlarmTime fd sdu (convert pl 0 fd sdu) = true
  · exact .inr htime
  · left
    rw [Bool.not_eq_true] at htime
    have hold : fd.truthy "alarmed" = true := by
      by_contra hnew
      simp [hasAlarmTime, henabled, halarmed, hnew] at htime
    simp only [carriesAlarm, hold, henabled, halarmed, htime, Bool.true_and, Bool.not_false]

-- The condition on an acknowledge is exact: an event that carries the alarm sets it
-- again, and as the old one.
theorem carriesAlarm_reverts (h : carriesAlarm pl fd sdu = true) :
    (applySet doc (ownSet pl now fd sdu (convert pl now fd sdu))).truthy "alarmed" = true ∧
      (ownSet pl now fd sdu (convert pl now fd sdu)).has "timeTagAlarm" = false := by
  simp only [carriesAlarm, Bool.and_eq_true, Bool.not_eq_true'] at h
  obtain ⟨⟨⟨-, henabled⟩, halarmed⟩, htime⟩ := h
  constructor
  · rw [truthy_applySet_ownSet, alarmed_convert, halarmed, henabled]
    rfl
  · rw [has_ownSet_timeTagAlarm, hasAlarmTime_convert, htime]

end Snapshot

section Invariant

variable {pl : Platform}

-- What holds in every state, from a count of `start` on.
structure Inv (pl : Platform) (start : Option Double) (s : State) : Prop where
  released : s.acked = true → s.doc.truthy "alarmed" = false
  fresh : s.acked = true → ∀ x ∈ s.inFlight,
    (writes pl x.fd x.sdu && carriesAlarm pl x.fd x.sdu) = false
  count : ∀ q₀, start = some (.fin q₀) → s.doc.num "updatesCnt" = some (.fin (q₀ + s.flushes))
  -- the event that is going to write was read with the present count
  next : ∀ x ∈ s.inFlight, writes pl x.fd x.sdu = true → ∀ q₀, start = some (.fin q₀) →
    updatesCnt pl x.fd = .fin (q₀ + s.flushes + 1)
  single : s.inFlight.countP (fun x => writes pl x.fd x.sdu) ≤ 1
  queued : ∀ x ∈ s.inFlight, ∀ set, x.set = some set → writes pl x.fd x.sdu = true ∧
    ∃ now, set = ownSet pl now x.fd x.sdu (convert pl now x.fd x.sdu)

theorem inv_initial (doc : Document) : Inv pl (doc.num "updatesCnt") { doc := doc } := by
  refine ⟨?_, ?_, ?_, ?_, ?_, ?_⟩
  · intro h
    cases h
  · intro h
    cases h
  · intro q₀ hq₀
    rw [hq₀, Nat.cast_zero, add_zero]
  · simp
  · simp
  · simp

-- A document that has the same alarm and count.
theorem inv_document {start : Option Double} {s : State} (h : Inv pl start s) {d : Document}
    (events : List Document)
    (halarmed : d.truthy "alarmed" = s.doc.truthy "alarmed")
    (hcount : d.num "updatesCnt" = s.doc.num "updatesCnt") :
    Inv pl start { s with doc := d, events := events } := by
  refine ⟨?_, h.fresh, ?_, h.next, h.single, h.queued⟩
  · intro hacked
    exact halarmed.trans (h.released hacked)
  · intro q₀ hq₀
    exact hcount.trans (h.count q₀ hq₀)

-- Events that are dropped leave the others as they are.
theorem inv_sublist {start : Option Double} {s : State} (h : Inv pl start s) {inFlight : List InFlight}
    (hsub : inFlight.Sublist s.inFlight) : Inv pl start { s with inFlight := inFlight } := by
  refine ⟨h.released, ?_, h.count, ?_, ?_, ?_⟩
  · intro hacked x hx
    exact h.fresh hacked x (hsub.subset hx)
  · intro x hx
    exact h.next x (hsub.subset hx)
  · exact (List.Sublist.countP_le hsub).trans h.single
  · intro x hx
    exact h.queued x (hsub.subset hx)

theorem inv_read {start : Option Double} {s : State} (h : Inv pl start s) {sdu : Document}
    {events : List Document}
    (hevents : s.events = sdu :: events) (hallowed : Allowed pl s .read) :
    Inv pl start { s with
      events := events
      inFlight := s.inFlight ++ [{ fd := s.doc, sdu := sdu }] } := by
  refine ⟨h.released, ?_, h.count, ?_, ?_, ?_⟩
  · intro hacked x hx
    rcases List.mem_append.mp hx with hx | hx
    · exact h.fresh hacked x hx
    · rw [List.mem_singleton.mp hx, not_carriesAlarm pl s.doc sdu (h.released hacked), Bool.and_false]
  · intro x hx hwrites q₀ hq₀
    rcases List.mem_append.mp hx with hx | hx
    · exact h.next x hx hwrites q₀ hq₀
    · rw [List.mem_singleton.mp hx] at hwrites ⊢
      obtain ⟨_, q, hq, hround⟩ := hallowed sdu events hevents hwrites
      have hqcount : q = q₀ + s.flushes := by
        rw [h.count q₀ hq₀] at hq
        exact (Double.fin.inj (Option.some.inj hq)).symm
      rw [← hqcount]
      exact updatesCnt_of_exact pl s.doc hq hround
  · rw [List.countP_append]
    by_cases hwrites : writes pl s.doc sdu = true
    · have hnone := (hallowed sdu events hevents hwrites).1
      have hzero : s.inFlight.countP (fun x => writes pl x.fd x.sdu) = 0 := by
        rw [List.countP_eq_zero]
        intro x hx
        rw [hnone x hx]
        exact Bool.false_ne_true
      simp [hzero, hwrites]
    · simpa [hwrites] using h.single
  · intro x hx set hset
    rcases List.mem_append.mp hx with hx | hx
    · exact h.queued x hx set hset
    · rw [List.mem_singleton.mp hx] at hset
      cases hset

theorem inv_handle {start : Option Double} {s : State} (h : Inv pl start s) (now : Int)
    {fd sdu : Document}
    {pre post : List InFlight} (hflight : s.inFlight = pre ++ { fd := fd, sdu := sdu } :: post)
    (hwrites : writes pl fd sdu = true) :
    Inv pl start { s with
      inFlight := pre ++
        { fd := fd, sdu := sdu, set := some (ownSet pl now fd sdu (convert pl now fd sdu)) } ::
        post } := by
  have hold (x : InFlight)
      (hx : x ∈ pre ++
        { fd := fd, sdu := sdu, set := some (ownSet pl now fd sdu (convert pl now fd sdu)) } ::
          post) :
      ∃ y ∈ s.inFlight, y.fd = x.fd ∧ y.sdu = x.sdu := by
    rw [hflight]
    simp only [List.mem_append, List.mem_cons] at hx
    rcases hx with hx | rfl | hx
    · exact ⟨x, by simp [hx], rfl, rfl⟩
    · exact ⟨{ fd := fd, sdu := sdu }, by simp, rfl, rfl⟩
    · exact ⟨x, by simp [hx], rfl, rfl⟩
  refine ⟨h.released, ?_, h.count, ?_, ?_, ?_⟩
  · intro hacked x hx
    obtain ⟨y, hy, hfd, hsdu⟩ := hold x hx
    rw [← hfd, ← hsdu]
    exact h.fresh hacked y hy
  · intro x hx
    obtain ⟨y, hy, hfd, hsdu⟩ := hold x hx
    rw [← hfd, ← hsdu]
    exact h.next y hy
  · have hsingle := h.single
    rw [hflight] at hsingle
    simpa only [List.countP_append, List.countP_cons] using hsingle
  · intro x hx set hset
    simp only [List.mem_append, List.mem_cons] at hx
    rcases hx with hx | rfl | hx
    · exact h.queued x (by simp [hflight, hx]) set hset
    · exact ⟨hwrites, now, (Option.some.inj hset).symm⟩
    · exact h.queued x (by simp [hflight, hx]) set hset

theorem inv_flush {start : Option Double} {s : State} (h : Inv pl start s) {fd sdu set : Document}
    {pre post : List InFlight}
    (hflight : s.inFlight = pre ++ { fd := fd, sdu := sdu, set := some set } :: post) :
    Inv pl start { s with
      doc := applySet s.doc set
      inFlight := pre ++ post
      acked := s.acked && !set.has "timeTagAlarm"
      flushes := s.flushes + 1 } := by
  have hmem : { fd := fd, sdu := sdu, set := some set } ∈ s.inFlight := by simp [hflight]
  have hothers : ∀ x ∈ pre ++ post, x ∈ s.inFlight := by
    intro x hx
    rw [hflight]
    rcases List.mem_append.mp hx with hx | hx <;> simp [hx]
  obtain ⟨hwrites, now, hset⟩ := h.queued _ hmem set rfl
  simp only at hwrites hset
  -- the event that is flushed was the one that writes
  have hnone : (pre ++ post).countP (fun x => writes pl x.fd x.sdu) = 0 := by
    have hsingle := h.single
    rw [hflight, List.countP_append, List.countP_cons, if_pos hwrites] at hsingle
    rw [List.countP_append]
    omega
  refine ⟨?_, ?_, ?_, ?_, ?_, ?_⟩
  · intro hacked
    rw [hset, has_ownSet_timeTagAlarm, Bool.and_eq_true, Bool.not_eq_true'] at hacked
    have hfresh := h.fresh hacked.1 _ hmem
    rw [hwrites, Bool.true_and] at hfresh
    rw [hset, truthy_applySet_ownSet]
    by_contra halarm
    rw [Bool.not_eq_false] at halarm
    rcases carriesAlarm_or_alarmTime pl now fd sdu halarm with hcarries | htime
    · rw [hcarries] at hfresh
      cases hfresh
    · rw [htime] at hacked
      cases hacked.2
  · intro hacked x hx
    rw [Bool.and_eq_true] at hacked
    exact h.fresh hacked.1 x (hothers x hx)
  · intro q₀ hq₀
    rw [hset, num_applySet_ownSet, h.next _ hmem hwrites q₀ hq₀, Nat.cast_add, Nat.cast_one,
      add_assoc]
  · intro x hx hx'
    exact absurd hx' (List.countP_eq_zero.mp hnone x hx)
  · rw [hnone]
    exact Nat.zero_le 1
  · intro x hx
    exact h.queued x (hothers x hx)

theorem inv_step {start : Option Double} {s t : State} {l : Label} (h : Inv pl start s)
    (hallowed : Allowed pl s l) (hstep : Step pl s l t) : Inv pl start t := by
  cases hstep with
  | driver sdu =>
      exact inv_document h _ (truthy_setField _ _ _ (by decide)) (num_setField _ _ _ (by decide))
  | write fields =>
      exact inv_document h s.events (truthy_applySet_of_none _ hallowed.1)
        (num_applySet_of_none _ hallowed.2)
  | acknowledge =>
      refine ⟨?_, ?_, ?_, h.next, h.single, h.queued⟩
      · intro _
        simp [Document.truthy, lookup_setField, truthyValue]
      · intro _
        exact hallowed
      · intro q₀ hq₀
        exact (num_setField _ _ _ (by decide)).trans (h.count q₀ hq₀)
  | read sdu events hevents => exact inv_read h hevents hallowed
  | handle now fd sdu pre post hflight hwrites => exact inv_handle h now hflight hwrites
  | ignore now active fd sdu pre post hflight _ =>
      apply inv_sublist h
      rw [hflight]
      exact List.Sublist.append_left (List.sublist_cons_self _ _) pre
  | flush fd sdu set pre post hflight => exact inv_flush h hflight

theorem inv_run {start : Option Double} {s t : State} {ls : List Label}
    (hrun : Run pl (Allowed pl) s ls t) (h : Inv pl start s) : Inv pl start t := by
  induction hrun with
  | refl => exact h
  | step hallowed hstep _ ih => exact ih (inv_step h hallowed hstep)

end Invariant

-- In every run whose steps meet the condition an acknowledged alarm stays so until a
-- new one is raised, and the count has grown by one with each flush.
theorem acknowledged_and_counted (pl : Platform) (doc : Document) (ls : List Label) (s : State)
    (hrun : Run pl (Allowed pl) { doc := doc } ls s) :
    (s.acked = true → s.doc.truthy "alarmed" = false) ∧
      ∀ q₀, doc.num "updatesCnt" = some (.fin q₀) →
        s.doc.num "updatesCnt" = some (.fin (q₀ + s.flushes)) := by
  have hinv := inv_run hrun (inv_initial doc)
  exact ⟨hinv.released, hinv.count⟩

section Stale

-- An alarmed analog point that was never updated, and readings of it.
def alarmedPoint : Document :=
  [("_id", .number (.fin 1)), ("type", .string "analog"), ("kconv1", .number (.fin 1)),
    ("kconv2", .number (.fin 0)), ("value", .number (.fin 0)), ("invalid", .bool false),
    ("timeTag", .dateTime 0), ("alarmed", .bool true), ("updatesCnt", .number (.fin 0))]

def reading (n : Nat) : Document := [("valueAtSource", .number (.fin n))]

-- The document while the driver writes its reading.
def pointReading (n : Nat) : Document :=
  setField alarmedPoint "sourceDataUpdate" (.document (reading n))

theorem writes_reading : writes exactPlatform (pointReading 1) (reading 1) = true := by
  decide +kernel

-- An acknowledge is reverted by an event that was read before it, and of two events
-- that were read from one document only one is counted.
theorem stale_snapshot :
    (∃ s, Run exactPlatform (fun _ _ => True) { doc := alarmedPoint }
        [.driver (reading 1), .read, .acknowledge, .handle 0 true, .flush] s ∧
      s.acked = true ∧ s.doc.truthy "alarmed" = true) ∧
    ∃ s, Run exactPlatform (fun _ _ => True) { doc := alarmedPoint }
        [.driver (reading 1), .driver (reading 1), .read, .read, .handle 0 true, .handle 0 true,
          .flush, .flush] s ∧
      s.flushes = 2 ∧ s.doc.num "updatesCnt" = some (.fin 1) := by
  constructor
  · refine ⟨_, .step trivial (.driver _ _) (.step trivial (.read _ _ _ rfl)
      (.step trivial (.acknowledge _) (.step trivial (.handle _ _ _ _ [] [] rfl writes_reading)
        (.step trivial (.flush _ _ _ _ [] [] rfl) (.refl _))))), ?_, ?_⟩
    · rw [has_ownSet_timeTagAlarm]
      decide
    · rw [truthy_applySet_ownSet]
      decide
  · refine ⟨_, .step trivial (.driver _ _) (.step trivial (.driver _ _)
      (.step trivial (.read _ _ _ rfl) (.step trivial (.read _ _ _ rfl)
        (.step trivial (.handle _ _ _ _ [] _ rfl writes_reading)
          (.step trivial (.handle _ _ _ _ [_] [] rfl writes_reading)
            (.step trivial (.flush _ _ _ _ [] _ rfl)
              (.step trivial (.flush _ _ _ _ [] [] rfl) (.refl _)))))))), rfl, ?_⟩
    rw [num_applySet_ownSet]
    decide +kernel

theorem acknowledged_and_counted_reading :
    ∃ s, Run exactPlatform (Allowed exactPlatform) { doc := alarmedPoint }
        [.driver (reading 1), .read, .handle 0 true, .flush, .acknowledge] s ∧
      s.doc.truthy "alarmed" = false ∧ s.doc.num "updatesCnt" = some (.fin (0 + 1)) := by
  have hread : Allowed exactPlatform
      { doc := pointReading 1, events := [reading 1] } .read := by
    intro sdu events hevents _
    exact ⟨by simp, 0, rfl, by rfl⟩
  have hacknowledge (s : State) (h : s.inFlight = []) :
      Allowed exactPlatform s .acknowledge := by
    intro x hx
    simp [h] at hx
  have hdriver (s : State) (sdu : Document) : Allowed exactPlatform s (.driver sdu) := trivial
  have hhandle (s : State) (now : Int) : Allowed exactPlatform s (.handle now true) := trivial
  have hflush (s : State) : Allowed exactPlatform s .flush := trivial
  have hrun := Run.step (hdriver _ _) (.driver { doc := alarmedPoint } (reading 1))
    (.step hread (.read _ _ _ rfl)
      (.step (hhandle _ _) (.handle _ 0 _ _ [] [] rfl writes_reading)
        (.step (hflush _) (.flush _ _ _ _ [] [] rfl)
          (.step (hacknowledge _ rfl) (.acknowledge _) (.refl _)))))
  obtain ⟨hreleased, hcount⟩ := acknowledged_and_counted exactPlatform alarmedPoint _ _ hrun
  exact ⟨_, hrun, hreleased rfl, hcount 0 rfl⟩

end Stale

section Refinement

-- The events of the model write what the handler queues for the point, which is none
-- of the points that the processor keeps for itself.
theorem own_mem_handleChange_iff (pl : Platform) (now : Int) (count : Nat) (fd sdu : Document)
    (hbeep : rawOrNil (fd.lookup "_id") ≠ .number beepPointKey)
    (hcount : rawOrNil (fd.lookup "_id") ≠ .number cntUpdatesPointKey) (u : RtUpdate) :
    .rt u ∈ (handleChange pl now true count
        ⟨"update", some fd, some [("sourceDataUpdate", .document sdu)]⟩).1 ∧
          u.id = rawOrNil (fd.lookup "_id") ↔
      writes pl fd sdu = true ∧ u = ownUpdate pl now fd sdu (convert pl now fd sdu) := by
  have hprocess : handleChange pl now true count
      ⟨"update", some fd, some [("sourceDataUpdate", .document sdu)]⟩ =
      processUpdate pl now count fd sdu := rfl
  have hwrites : writes pl fd sdu = true ↔ updates fd sdu (convert pl now fd sdu) = true ∧
      suppressed fd sdu (convert pl now fd sdu).value = false := by
    rw [convert_now pl now fd sdu 0, ← Bool.not_eq_true', ← Bool.and_eq_true]
    rfl
  rw [hprocess, rt_mem_processUpdate_iff, hwrites]
  constructor
  · rintro ⟨⟨hupdates, ⟨-, h⟩ | ⟨-, h⟩ | ⟨hsuppressed, h⟩⟩, hid⟩
    · exact absurd (hid.symm.trans (beepUpdate_id now fd h)) hbeep
    · simp only [countUpdate, Effect.rt.injEq] at h
      rw [h] at hid
      exact absurd hid.symm hcount
    · exact ⟨⟨hupdates, hsuppressed⟩, h⟩
  · rintro ⟨⟨hupdates, hsuppressed⟩, rfl⟩
    exact ⟨⟨hupdates, .inr (.inr ⟨hsuppressed, rfl⟩)⟩, rfl⟩

end Refinement

end JsonScada.Processor.Reprocess
