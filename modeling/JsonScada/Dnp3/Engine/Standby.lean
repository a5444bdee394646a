import JsonScada.Dnp3.Engine.Lemmas

namespace JsonScada.Dnp3.Engine

open JsonScada.Library
open JsonScada.Processor (Document)

section Purpose

-- The event is a write to realtimeData or a command that goes out.
def Event.isEffect : Event → Bool
  | .created | .written _ | .invalidated _ | .issued _ => true
  | .linkUp _ | .linkDown _ | .received _ => false

def effects (s : State) : List Event := s.trace.filter Event.isEffect

-- The node is deactivated, and its callback has returned.
def Standby (s : State) : Prop := s.callback = .stopSessions []

-- Until it is activated again the node does nothing.
def Silent (conns : List ℤ) (s : State) : Prop :=
  ∀ as s', (∀ a ∈ as, a ≠ .setActive true) → Run.run (step conns) s as = some s' →
    effects s' = effects s

-- Nothing of the active time is left over: no value to write, no link that the watch takes
-- to be up, no invalidation on its way, and no session that still has its link.
structure Quiet (s : State) : Prop where
  values : ∀ v ∈ s.writer.phase.values ++ s.writer.queue.values, writable v = false
  links : ∀ c, (s.runtime c).wasConnected = false
  watch : ∀ c rest, s.watch ≠ .seen c true rest
  invalidations : s.invalidations = []
  sessions : ∀ session ∈ s.sessions, session.connected = false

end Purpose

variable {conns : List ℤ} {s s' : State}

section Quiet

-- What a node on standby can rely on besides.
structure Stopped (s : State) : Prop where
  callback : s.callback = .stopSessions []
  inactive : s.active = false
  sessions : ∀ c, (s.runtime c).session = none
  cancelled : ∀ session ∈ s.sessions, session.cancelled = true

theorem Inv.stopped (h : Inv conns s) (hstandby : Standby s) : Stopped s := by
  have hnone : ∀ c, (s.runtime c).session = none := fun c =>
    h.owned.stopped _ hstandby c (by simp)
  refine ⟨hstandby, h.owned.inactive _ hstandby, hnone, ?_⟩
  intro session hsession
  obtain ⟨i, hi⟩ := List.getElem?_of_mem hsession
  by_contra hlive
  rw [Bool.not_eq_true] at hlive
  have howner := h.owned.owner i session hi hlive
  rw [hnone] at howner
  cases howner

-- Nothing writable is pending, so nothing comes of a step of the writer.
theorem writer_quiet {w w' : Writer.State} {a : Writer.Action} (hcarries : Carries w.phase)
    (hvalues : ∀ v ∈ w.phase.values ++ w.queue.values, writable v = false)
    (hpush : ∀ v, a ≠ .push v) (hstep : Writer.step w a = some w') :
    writerEvents w a = [] ∧
      ∀ v ∈ w'.phase.values ++ w'.queue.values, writable v = false := by
  cases a with
  | push v => exact absurd rfl (hpush v)
  | drain =>
      obtain ⟨hidle, rfl⟩ := Writer.step_drain hstep
      refine ⟨rfl, ?_⟩
      intro v hv
      apply hvalues v
      dsimp only at hv
      split_ifs at hv with hempty
      · exact absurd hv (by simp [Writer.Phase.values, ValueQueue.new])
      · simpa [hidle, Writer.Phase.values, ValueQueue.new] using hv
  | isLive live lookupOk =>
      obtain ⟨batch, hphase, ⟨-, rfl⟩ | ⟨-, rfl⟩⟩ := Writer.step_isLive hstep
      · exact ⟨rfl, fun v hv => hvalues v (List.mem_append_right _ hv)⟩
      · rw [hphase] at hvalues
        exact ⟨rfl, hvalues⟩
  | insertMany reached =>
      obtain ⟨batch, inserts, writes, ordered, hphase, rfl⟩ := Writer.step_insertMany hstep
      rw [hphase] at hvalues hcarries
      obtain rfl : inserts = [] := by
        apply hcarries.2
        rw [List.filter_eq_nil_iff]
        intro v hv
        simp [hvalues v (List.mem_append_left _ hv)]
      refine ⟨?_, hvalues⟩
      simp [writerEvents, hphase, JsMongo.insertMany]
  | bulkWrite executed ok =>
      obtain ⟨batch, writes, ordered, hphase, -, rfl⟩ := Writer.step_bulkWrite hstep
      rw [hphase] at hvalues
      refine ⟨?_, fun v hv => hvalues v (List.mem_append_right _ hv)⟩
      have hnone : batch.filter writable = [] := by
        rw [List.filter_eq_nil_iff]
        intro v hv
        simp [hvalues v (List.mem_append_left _ hv)]
      simp [writerEvents, hphase, Writer.Phase.values, writtenBy, hnone]

-- A node on standby with nothing left over stays so, and nothing is seen of it.
theorem quiet_step {a : Action} (h : Quiet s) (hstopped : Stopped s)
    (hcarries : Carries s.writer.phase) (ha : a ≠ .setActive true)
    (hstep : step conns s a = some s') : Quiet s' ∧ Stopped s' ∧ s'.trace = s.trace := by
  cases a with
  | setActive want =>
      obtain ⟨-, hchange, -⟩ := step_setActive hstep
      cases want with
      | true => exact absurd rfl ha
      | false => exact absurd hstopped.inactive hchange
  | startSession =>
      obtain ⟨c, rest, hcallback, -⟩ := step_startSession hstep
      rw [hstopped.callback] at hcallback
      cases hcallback
  | stopSession =>
      obtain ⟨c, rest, hcallback, -⟩ := step_stopSession hstep
      rw [hstopped.callback] at hcallback
      cases hcallback
  | connect i =>
      obtain ⟨session, hi, hlive, -⟩ := step_connect hstep
      rw [hstopped.cancelled session (List.mem_of_getElem? hi)] at hlive
      cases hlive
  | disconnect i =>
      obtain ⟨session, hi, hup, -⟩ := step_disconnect hstep
      rw [h.sessions session (List.mem_of_getElem? hi)] at hup
      cases hup
  | receive i v =>
      obtain ⟨session, hi, hup, -⟩ := step_receive hstep
      rw [h.sessions session (List.mem_of_getElem? hi)] at hup
      cases hup
  | writer a =>
      obtain ⟨hpush, w, hw, rfl⟩ := step_writer hstep
      obtain ⟨hevents, hvalues⟩ := writer_quiet hcarries h.values hpush hw
      refine ⟨⟨hvalues, h.links, h.watch, h.invalidations, h.sessions⟩, ?_, by simp [hevents]⟩
      exact ⟨hstopped.callback, hstopped.inactive, hstopped.sessions, hstopped.cancelled⟩
  | tick =>
      obtain ⟨-, rfl⟩ := step_tick hstep
      refine ⟨⟨h.values, h.links, by simp, h.invalidations, h.sessions⟩, ?_, rfl⟩
      exact ⟨hstopped.callback, hstopped.inactive, hstopped.sessions, hstopped.cancelled⟩
  | look =>
      obtain ⟨c, rest, -, rfl⟩ := step_look hstep
      refine ⟨⟨h.values, h.links, ?_, h.invalidations, h.sessions⟩, ?_, rfl⟩
      · simp [sessionConnected, hstopped.sessions c]
      · exact ⟨hstopped.callback, hstopped.inactive, hstopped.sessions, hstopped.cancelled⟩
  | act =>
      obtain ⟨c, now, rest, hwatch, rfl⟩ := step_act hstep
      have hnow : now = false := by
        rw [← Bool.not_eq_true]
        rintro rfl
        exact h.watch c rest hwatch
      subst hnow
      refine ⟨⟨h.values, ?_, by simp, ?_, h.sessions⟩, ?_, rfl⟩
      · intro c'
        by_cases hcc : c' = c
        · subst hcc
          simp
        · simp [Function.update_of_ne hcc, h.links c']
      · simp [h.links c, h.invalidations]
      · refine ⟨hstopped.callback, hstopped.inactive, ?_, hstopped.cancelled⟩
        intro c'
        by_cases hcc : c' = c
        · subst hcc
          simp [hstopped.sessions c']
        · simp [Function.update_of_ne hcc, hstopped.sessions c']
  | invalidatePoints c ok =>
      obtain ⟨hc, -⟩ := step_invalidatePoints hstep
      rw [h.invalidations] at hc
      cases hc
  | executeCommand c =>
      obtain rfl | ⟨hactive, -⟩ := step_executeCommand hstep
      · exact ⟨h, hstopped, rfl⟩
      · rw [hstopped.inactive] at hactive
        cases hactive
  | getSession =>
      obtain ⟨e, rfl⟩ := step_getSession hstep
      refine ⟨⟨h.values, h.links, h.watch, h.invalidations, h.sessions⟩, ?_, rfl⟩
      exact ⟨hstopped.callback, hstopped.inactive, hstopped.sessions, hstopped.cancelled⟩
  | dispatch accepted =>
      obtain ⟨commands, rfl⟩ := step_dispatch hstep
      refine ⟨⟨h.values, h.links, h.watch, h.invalidations, h.sessions⟩, ?_, rfl⟩
      exact ⟨hstopped.callback, hstopped.inactive, hstopped.sessions, hstopped.cancelled⟩
  | operate i =>
      obtain ⟨events, rfl, hevents⟩ := step_operate hstep
      refine ⟨⟨h.values, h.links, h.watch, h.invalidations, h.sessions⟩, ?_, ?_⟩
      · exact ⟨hstopped.callback, hstopped.inactive, hstopped.sessions, hstopped.cancelled⟩
      · have hnone : events = [] := by
          rw [List.eq_nil_iff_forall_not_mem]
          intro e he
          obtain ⟨session, hi, hup, -⟩ := hevents e he
          rw [h.sessions session (List.mem_of_getElem? hi)] at hup
          cases hup
        simp [hnone]

theorem Quiet.silent (h : Quiet s) (hstopped : Stopped s) (hinv : Inv conns s) :
    Silent conns s := by
  intro as
  induction as generalizing s with
  | nil =>
      intro s' _ hrun
      rw [← Option.some.inj hrun]
  | cons a as ih =>
      intro s' has hrun
      obtain ⟨t, ht, hrun⟩ := Run.run_cons hrun
      obtain ⟨hquiet, hstill, htrace⟩ := quiet_step h hstopped hinv.carries (has a (by simp)) ht
      have hrest := ih hquiet hstill (hinv.step ht) s' (fun b hb => has b (by simp [hb])) hrun
      rw [hrest, effects, effects, htrace]

end Quiet

section Silent

-- Silence lasts over every step, and the step is silent itself.
theorem Silent.next {a : Action} (h : Silent conns s) (ha : a ≠ .setActive true)
    (hstep : step conns s a = some s') : Silent conns s' ∧ effects s' = effects s := by
  have heffects : effects s' = effects s := by
    apply h [a] s' (by simpa using ha)
    simp [Run.run, hstep]
  refine ⟨?_, heffects⟩
  intro as t has hrun
  rw [heffects]
  apply h (a :: as) t
  · intro b hb
    rcases List.mem_cons.mp hb with rfl | hb
    · exact ha
    · exact has b hb
  · rw [Run.run, hstep]
    exact hrun

theorem step_writer_some {a : Writer.Action} {w : Writer.State} (hpush : ∀ v, a ≠ .push v)
    (h : Writer.step s.writer a = some w) :
    step conns s (.writer a) =
      some { s with writer := w, trace := s.trace ++ writerEvents s.writer a } := by
  cases a with
  | push v => exact absurd rfl (hpush v)
  | _ => simp only [step, h, Option.map_some]

theorem canExecute_range (n : ℕ) (ordered : Bool) :
    Writer.canExecute n ordered true (List.range n) = true := by
  cases ordered <;> simp [Writer.canExecute]

theorem writtenBy_range (batch : List Dnp3Value) :
    writtenBy batch (List.range (batch.filter writable).length) = batch.filter writable := by
  have hall := Writer.executedOf_range (batch.filter writable) (batch.filter writable).length
  rw [List.take_length] at hall
  exact hall

-- A batch that the writer is about to write holds nothing writable, and then neither does
-- the queue behind it.
theorem Silent.inserted (h : Silent conns s) (hcarries : Carries s.writer.phase)
    {batch : List Dnp3Value} {writes : List WriteModel} {ordered : Bool}
    (hphase : s.writer.phase = .inserted batch writes ordered) :
    (∀ v ∈ batch, writable v = false) ∧ ∃ t, Silent conns t ∧ t.writer.phase = .idle ∧
      t.writer.queue = s.writer.queue := by
  rw [hphase] at hcarries
  obtain rfl : writes = (batch.filter writable).map Writer.writeModel := hcarries
  have hexec := canExecute_range (batch.filter writable).length ordered
  have hw : Writer.step s.writer
      (.bulkWrite (List.range (batch.filter writable).length) true) = some { s.writer with
        coll := ((List.range (batch.filter writable).length).filterMap fun i =>
          ((batch.filter writable).map Writer.writeModel)[i]?).foldl Writer.applyWrite s.writer.coll
        phase := .idle } := by
    simp only [Writer.step, hphase, List.length_map, hexec, if_true]
  obtain ⟨hsilent, heffects⟩ := h.next (by simp) (step_writer_some (by simp) hw)
  refine ⟨?_, _, hsilent, rfl, rfl⟩
  have hnone : batch.filter writable = [] := by
    simpa [effects, writerEvents, hphase, Writer.Phase.values, writtenBy_range,
      List.filter_map, Function.comp_def, Event.isEffect] using heffects
  intro v hv
  simpa using List.filter_eq_nil_iff.mp hnone v hv

theorem Silent.planned (h : Silent conns s) (hcarries : Carries s.writer.phase)
    {batch : List Dnp3Value} {inserts : List Document} {writes : List WriteModel} {ordered : Bool}
    (hphase : s.writer.phase = .planned batch inserts writes ordered) :
    (∀ v ∈ batch, writable v = false) ∧ ∃ t, Silent conns t ∧ t.writer.phase = .idle ∧
      t.writer.queue = s.writer.queue := by
  have hw : Writer.step s.writer (.insertMany []) = some { s.writer with
      coll := JsMongo.insertMany s.writer.coll inserts []
      phase := .inserted batch writes ordered } := by
    simp only [Writer.step, hphase]
  obtain ⟨hsilent, -⟩ := h.next (by simp) (step_writer_some (by simp) hw)
  exact hsilent.inserted (hcarries.writer hw) rfl

theorem Silent.drained (h : Silent conns s) {batch : List Dnp3Value}
    (hphase : s.writer.phase = .drained batch) :
    (∀ v ∈ batch, writable v = false) ∧ ∃ t, Silent conns t ∧ t.writer.phase = .idle ∧
      t.writer.queue = s.writer.queue := by
  obtain ⟨w, hw, hplanned⟩ : ∃ w, Writer.step s.writer (.isLive true fun _ => true) = some w ∧
      w.phase = .planned batch
        (Writer.planBatch s.writer.coll (fun _ => true) s.writer.conns batch).inserts
        (Writer.planBatch s.writer.coll (fun _ => true) s.writer.conns batch).writes
        (Writer.planBatch s.writer.coll (fun _ => true) s.writer.conns batch).hasDuplicates ∧
      w.queue = s.writer.queue := by
    simp only [Writer.step, hphase, if_true]
    exact ⟨_, rfl, rfl, rfl⟩
  obtain ⟨hsilent, -⟩ := h.next (by simp) (step_writer_some (by simp) hw)
  have hcarries : Carries s.writer.phase := by rw [hphase]; trivial
  rw [← hplanned.2]
  exact hsilent.planned (hcarries.writer hw) hplanned.1

theorem Silent.idle (h : Silent conns s) (hphase : s.writer.phase = .idle) :
    ∀ v ∈ s.writer.queue.values, writable v = false := by
  by_cases hempty : s.writer.queue.values.isEmpty = true
  · rw [List.isEmpty_iff.mp hempty]
    simp
  · rw [Bool.not_eq_true] at hempty
    obtain ⟨w, hw, hdrained⟩ : ∃ w, Writer.step s.writer .drain = some w ∧
        w.phase = .drained s.writer.queue.values := by
      refine ⟨_, by simp only [Writer.step, hphase, ValueQueue.drain, hempty]; rfl, ?_⟩
      simp [hempty]
    obtain ⟨hsilent, -⟩ := h.next (by simp) (step_writer_some (by simp) hw)
    exact (hsilent.drained hdrained).1

theorem Silent.values (h : Silent conns s) (hcarries : Carries s.writer.phase) :
    ∀ v ∈ s.writer.phase.values ++ s.writer.queue.values, writable v = false := by
  have hbatch : (∀ v ∈ s.writer.phase.values, writable v = false) ∧
      ∃ t, Silent conns t ∧ t.writer.phase = .idle ∧ t.writer.queue = s.writer.queue := by
    cases hphase : s.writer.phase with
    | idle => exact ⟨by simp [Writer.Phase.values], s, h, hphase, rfl⟩
    | drained batch => exact h.drained hphase
    | planned batch inserts writes ordered => exact h.planned hcarries hphase
    | inserted batch writes ordered => exact h.inserted hcarries hphase
  obtain ⟨hbatch, t, hsilent, hidle, hqueue⟩ := hbatch
  intro v hv
  rcases List.mem_append.mp hv with hv | hv
  · exact hbatch v hv
  · exact hsilent.idle hidle v (hqueue ▸ hv)

theorem Silent.invalidations (h : Silent conns s) : s.invalidations = [] := by
  rw [List.eq_nil_iff_forall_not_mem]
  intro c hc
  have hstep : step conns s (.invalidatePoints c true) = some { s with
      invalidations := s.invalidations.erase c
      trace := s.trace ++ [.invalidated c] } := by
    simp [step, hc]
  obtain ⟨-, heffects⟩ := h.next (by simp) hstep
  simp [effects, Event.isEffect] at heffects

-- The watch goes on over the connections, and takes each of them to be down.
theorem Silent.look (h : Silent conns s) (hnone : ∀ c, (s.runtime c).session = none) {c : ℤ}
    {rest : List ℤ} (hwatch : s.watch = .between (c :: rest)) :
    (s.runtime c).wasConnected = false ∧ ∃ t, Silent conns t ∧ t.watch = .between rest ∧
      (∀ c, (t.runtime c).session = none) ∧
      ∀ c', c' ≠ c → t.runtime c' = s.runtime c' := by
  have hlook : step conns s .look = some { s with watch := .seen c false rest } := by
    simp [step, hwatch, sessionConnected, hnone c]
  obtain ⟨hsilent, -⟩ := h.next (by simp) hlook
  have hact : step conns { s with watch := .seen c false rest } .act = some { s with
      watch := .between rest
      runtime := Function.update s.runtime c
        { s.runtime c with connected := false, wasConnected := false }
      invalidations :=
        if (s.runtime c).wasConnected then c :: s.invalidations else s.invalidations } := by
    simp [step]
  obtain ⟨hsilent, -⟩ := hsilent.next (by simp) hact
  have hinvalid := hsilent.invalidations
  refine ⟨?_, _, hsilent, rfl, ?_, ?_⟩
  · rw [← Bool.not_eq_true]
    intro hwas
    rw [hwas] at hinvalid
    cases hinvalid
  · intro c'
    by_cases hcc : c' = c
    · subst hcc
      simp [hnone c']
    · simp [Function.update_of_ne hcc, hnone c']
  · intro c' hcc
    exact Function.update_of_ne hcc _ _

theorem Silent.between (h : Silent conns s) (hnone : ∀ c, (s.runtime c).session = none)
    {rest : List ℤ} (hwatch : s.watch = .between rest) :
    (∀ c ∈ rest, (s.runtime c).wasConnected = false) ∧
      ∃ t, Silent conns t ∧ t.watch = .between [] ∧ (∀ c, (t.runtime c).session = none) ∧
        ∀ c ∉ rest, t.runtime c = s.runtime c := by
  induction rest generalizing s with
  | nil => exact ⟨by simp, s, h, hwatch, hnone, fun _ _ => rfl⟩
  | cons c rest ih =>
      obtain ⟨hdown, t, hsilent, hnext, hnone, hsame⟩ := h.look hnone hwatch
      obtain ⟨hrest, u, hsilent, hend, hnone, hsame'⟩ := ih hsilent hnone hnext
      refine ⟨?_, u, hsilent, hend, hnone, ?_⟩
      · intro c' hc'
        by_cases hcc : c' = c
        · exact hcc ▸ hdown
        · rw [← hsame c' hcc]
          exact hrest c' (List.mem_of_ne_of_mem hcc hc')
      · intro c' hc'
        rw [List.mem_cons, not_or] at hc'
        rw [hsame' c' hc'.2, hsame c' hc'.1]

-- The next tick looks at every connection.
theorem Silent.links (h : Silent conns s) (hinv : Inv conns s)
    (hnone : ∀ c, (s.runtime c).session = none) {rest : List ℤ}
    (hwatch : s.watch = .between rest) : ∀ c, (s.runtime c).wasConnected = false := by
  obtain ⟨hrest, t, hsilent, hend, hnone, hsame⟩ := h.between hnone hwatch
  have htick : step conns t .tick = some { t with watch := .between conns } := by
    simp [step, hend]
  obtain ⟨hsilent, -⟩ := hsilent.next (by simp) htick
  obtain ⟨hall, -⟩ := hsilent.between hnone rfl
  intro c
  by_cases hc : c ∈ rest
  · exact hrest c hc
  · rw [← hsame c hc, ← Bool.not_eq_true]
    intro hwas
    have hmem : c ∈ conns := by
      apply hinv.watched.wasConnected c
      rw [← hsame c hc]
      exact hwas
    have hdown : (t.runtime c).wasConnected = false := hall c hmem
    rw [hwas] at hdown
    cases hdown

theorem Silent.seen (h : Silent conns s) (hinv : Inv conns s)
    (hnone : ∀ c, (s.runtime c).session = none) {c : ℤ} {now : Bool} {rest : List ℤ}
    (hwatch : s.watch = .seen c now rest) :
    now = false ∧ ∀ c, (s.runtime c).wasConnected = false := by
  have hact : step conns s .act = some { s with
      watch := .between rest
      runtime := Function.update s.runtime c
        { s.runtime c with connected := now, wasConnected := now }
      invalidations :=
        if (s.runtime c).wasConnected && !now then c :: s.invalidations else s.invalidations } := by
    simp [step, hwatch]
  obtain ⟨hsilent, -⟩ := h.next (by simp) hact
  have hinvalid := hsilent.invalidations
  have hlinks := hsilent.links (hinv.step hact) (by
    intro c'
    by_cases hcc : c' = c
    · subst hcc
      simp [hnone c']
    · simp [Function.update_of_ne hcc, hnone c']) rfl
  have hnow : now = false := by simpa using hlinks c
  refine ⟨hnow, ?_⟩
  intro c'
  by_cases hcc : c' = c
  · subst hcc hnow
    rw [← Bool.not_eq_true]
    intro hwas
    simp [hwas] at hinvalid
  · simpa [Function.update_of_ne hcc] using hlinks c'

theorem isSkipped_zero : isSkipped (.fin 0) = false := by decide +kernel

-- A session that has its link yet may deliver a value.
theorem Silent.sessions (h : Silent conns s) (hinv : Inv conns s) :
    ∀ session ∈ s.sessions, session.connected = false := by
  intro session hsession
  obtain ⟨i, hi⟩ := List.getElem?_of_mem hsession
  rw [← Bool.not_eq_true]
  intro hup
  let v : Dnp3Value :=
    { address := 0, baseGroup := 1, group := 1, variation := 0, value := .fin 0
      valueString := "false", cot := 20, serverTimestamp := 0, hasSourceTimestamp := false
      sourceTimestamp := 0, timeTagOk := false, quality := {}, connNumber := session.conn
      isEvent := true }
  have hstep : step conns s (.receive i v) = some { s with
      writer := { s.writer with queue := s.writer.queue.push v }
      trace := s.trace ++ [.received v] } := by
    simp [step, hi, hup, v]
  obtain ⟨hsilent, -⟩ := h.next (by simp) hstep
  have hskip := hsilent.values (hinv.step hstep).carries v
    (List.mem_append_right _ (ValueQueue.mem_push_self _ v))
  have hwritable : writable v = true := by simp [writable, v, isSkipped_zero]
  rw [hwritable] at hskip
  cases hskip

theorem Silent.quiet (h : Silent conns s) (hstopped : Stopped s) (hinv : Inv conns s) :
    Quiet s := by
  have hwatch : (∀ c, (s.runtime c).wasConnected = false) ∧ ∀ c rest, s.watch ≠ .seen c true rest := by
    cases hwatch : s.watch with
    | between rest => exact ⟨h.links hinv hstopped.sessions hwatch, by simp⟩
    | seen c now rest =>
        obtain ⟨rfl, hlinks⟩ := h.seen hinv hstopped.sessions hwatch
        exact ⟨hlinks, by simp⟩
  exact ⟨h.values hinv.carries, hwatch.1, hwatch.2, h.invalidations, h.sessions hinv⟩

end Silent

section Claim

theorem standby_silent_iff (hreach : Reachable conns s) (hstandby : Standby s) :
    Silent conns s ↔ Quiet s :=
  ⟨fun h => h.quiet (hreach.inv.stopped hstandby) hreach.inv,
    fun h => h.silent (hreach.inv.stopped hstandby) hreach.inv⟩

def unlinkedRun : List Action :=
  [.setActive true, .startSession, .setActive false, .stopSession]

-- The node is active and on standby again before its session has a link.
theorem unlinked_silent_iff : ∃ s,
    Run.run (step [1]) (start (Writer.start [] fun _ => none)) unlinkedRun = some s ∧
      (Silent [1] s ↔ Quiet s) :=
  ⟨_, rfl, standby_silent_iff ⟨[], fun _ => none, unlinkedRun, rfl⟩ rfl⟩

def linkedRun : List Action :=
  [.setActive true, .startSession, .connect 0, .tick, .look, .act, .setActive false, .stopSession]

-- The link watch has seen the link, and invalidates the points of the connection when the
-- session is gone.
theorem standby_invalidates : ∃ s,
    Run.run (step [1]) (start (Writer.start [] fun _ => none)) linkedRun = some s ∧
      Standby s ∧ ¬Silent [1] s := by
  refine ⟨_, rfl, rfl, ?_⟩
  intro h
  have heffects := h [.tick, .look, .act, .invalidatePoints 1 true] _ (by simp) rfl
  exact absurd (congrArg List.length heffects) (by decide)

end Claim

end JsonScada.Dnp3.Engine
