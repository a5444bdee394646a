import JsonScada.Dnp3.Engine
import JsonScada.Dnp3.Writer.Lemmas

namespace JsonScada.Dnp3.Engine

open JsonScada.Library
open JsonScada.Processor (Document)

section Inversion

-- What each action needs, and what it leaves.
variable {conns : List ℤ} {s s' : State}

theorem step_setActive {want : Bool} (h : step conns s (.setActive want) = some s') :
    (s.callback = .startSessions [] ∨ s.callback = .stopSessions []) ∧ s.active ≠ want ∧
      s' = { s with
        active := want
        callback := if want then .startSessions conns else .stopSessions conns } := by
  simp only [step] at h
  by_cases hsame : s.active = want
  · split at h <;> simp [hsame] at h
  · rw [if_neg hsame] at h
    split at h
    · exact ⟨.inl ‹_›, hsame, (Option.some.inj h).symm⟩
    · exact ⟨.inr ‹_›, hsame, (Option.some.inj h).symm⟩
    · cases h

theorem step_startSession (h : step conns s .startSession = some s') :
    ∃ c rest, s.callback = .startSessions (c :: rest) ∧
      (s' = { s with callback := .startSessions rest } ∨
        (s.runtime c).session = none ∧ s' = { s with
          callback := .startSessions rest
          runtime := Function.update s.runtime c
            { s.runtime c with session := some s.sessions.length }
          sessions := s.sessions ++ [{ conn := c }] }) := by
  simp only [step] at h
  split at h
  · rename_i c rest hcallback
    split_ifs at h with hsome
    · exact ⟨c, rest, hcallback, .inl (Option.some.inj h).symm⟩
    · exact ⟨c, rest, hcallback, .inr ⟨by simpa using hsome, (Option.some.inj h).symm⟩⟩
  · cases h

theorem step_stopSession (h : step conns s .stopSession = some s') :
    ∃ c rest, s.callback = .stopSessions (c :: rest) ∧
      s' = { s with
        callback := .stopSessions rest
        runtime := Function.update s.runtime c
          { s.runtime c with session := none, connected := false }
        sessions := (s.runtime c).session.elim s.sessions (cancel s.sessions) } := by
  simp only [step] at h
  split at h
  · exact ⟨_, _, ‹_›, (Option.some.inj h).symm⟩
  · cases h

theorem step_connect {i : ℕ} (h : step conns s (.connect i) = some s') :
    ∃ session, s.sessions[i]? = some session ∧ session.cancelled = false ∧
      session.connected = false ∧ s' = setConnected s i session true := by
  simp only [step] at h
  split at h
  · split_ifs at h with hbusy
    rw [Bool.or_eq_true, not_or, Bool.not_eq_true, Bool.not_eq_true] at hbusy
    exact ⟨_, ‹_›, hbusy.1, hbusy.2, (Option.some.inj h).symm⟩
  · cases h

theorem step_disconnect {i : ℕ} (h : step conns s (.disconnect i) = some s') :
    ∃ session, s.sessions[i]? = some session ∧ session.connected = true ∧
      s' = setConnected s i session false := by
  simp only [step] at h
  split at h
  · split_ifs at h with hup
    exact ⟨_, ‹_›, hup, (Option.some.inj h).symm⟩
  · cases h

theorem step_receive {i : ℕ} {v : Dnp3Value} (h : step conns s (.receive i v) = some s') :
    ∃ session, s.sessions[i]? = some session ∧ session.connected = true ∧
      session.conn = v.connNumber ∧
      s' = { s with
        writer := { s.writer with queue := s.writer.queue.push v }
        trace := s.trace ++ [.received v] } := by
  simp only [step] at h
  split at h
  · split_ifs at h with hup
    rw [Bool.and_eq_true, decide_eq_true_eq] at hup
    exact ⟨_, ‹_›, hup.1, hup.2, (Option.some.inj h).symm⟩
  · cases h

theorem step_writer {a : Writer.Action} (h : step conns s (.writer a) = some s') :
    (∀ v, a ≠ .push v) ∧ ∃ w, Writer.step s.writer a = some w ∧
      s' = { s with writer := w, trace := s.trace ++ writerEvents s.writer a } := by
  simp only [step] at h
  split at h
  · cases h
  · rename_i hpush
    obtain ⟨w, hw, rfl⟩ := Option.map_eq_some_iff.mp h
    exact ⟨hpush, w, hw, rfl⟩

theorem step_tick (h : step conns s .tick = some s') :
    s.watch = .between [] ∧ s' = { s with watch := .between conns } := by
  simp only [step] at h
  split at h
  · exact ⟨‹_›, (Option.some.inj h).symm⟩
  · cases h

theorem step_look (h : step conns s .look = some s') :
    ∃ c rest, s.watch = .between (c :: rest) ∧
      s' = { s with watch := .seen c (sessionConnected s c) rest } := by
  simp only [step] at h
  split at h
  · exact ⟨_, _, ‹_›, (Option.some.inj h).symm⟩
  · cases h

theorem step_act (h : step conns s .act = some s') :
    ∃ c now rest, s.watch = .seen c now rest ∧
      s' = { s with
        watch := .between rest
        runtime := Function.update s.runtime c
          { s.runtime c with connected := now, wasConnected := now }
        invalidations :=
          if (s.runtime c).wasConnected && !now then c :: s.invalidations
          else s.invalidations } := by
  simp only [step] at h
  split at h
  · exact ⟨_, _, _, ‹_›, (Option.some.inj h).symm⟩
  · cases h

theorem step_invalidatePoints {c : ℤ} {ok : Bool}
    (h : step conns s (.invalidatePoints c ok) = some s') :
    c ∈ s.invalidations ∧
      s' = { s with
        invalidations := s.invalidations.erase c
        trace := s.trace ++ if ok then [.invalidated c] else [] } := by
  simp only [step] at h
  by_cases hc : c ∈ s.invalidations
  · rw [if_pos hc] at h
    exact ⟨hc, (Option.some.inj h).symm⟩
  · rw [if_neg hc] at h
    cases h

theorem step_executeCommand {c : ℤ} (h : step conns s (.executeCommand c) = some s') :
    s' = s ∨ (s.active = true ∧ s' = { s with execution := .checkedActive c }) := by
  simp only [step] at h
  split at h
  · split_ifs at h with hc
    · rw [Bool.and_eq_true] at hc
      exact .inr ⟨hc.1, (Option.some.inj h).symm⟩
    · exact .inl (Option.some.inj h).symm
  · cases h

theorem step_getSession (h : step conns s .getSession = some s') :
    ∃ e, s' = { s with execution := e } := by
  simp only [step] at h
  split at h
  · exact ⟨_, (Option.some.inj h).symm⟩
  · cases h

theorem step_dispatch {accepted : Bool} (h : step conns s (.dispatch accepted) = some s') :
    ∃ commands, s' = { s with execution := .idle, commands := commands } := by
  simp only [step] at h
  split at h
  · exact ⟨_, (Option.some.inj h).symm⟩
  · cases h

theorem step_operate {i : ℕ} (h : step conns s (.operate i) = some s') :
    ∃ events, s' = { s with commands := s.commands.erase i, trace := s.trace ++ events } ∧
      ∀ e ∈ events, ∃ session, s.sessions[i]? = some session ∧ session.connected = true ∧
        e = .issued session.conn := by
  simp only [step] at h
  split_ifs at h with hi
  refine ⟨_, (Option.some.inj h).symm, ?_⟩
  intro e he
  split at he
  · rename_i session hsession
    split_ifs at he with hup
    · exact ⟨session, hsession, hup, List.mem_singleton.mp he⟩
    · cases he
  · cases he

end Inversion

section Invariants

-- What the callbacks of the redundancy controller keep of the sessions.
structure Owned (conns : List ℤ) (s : State) : Prop where
  inactive : ∀ rest, s.callback = .stopSessions rest → s.active = false
  known : ∀ c, (s.runtime c).session.isSome → c ∈ conns
  starting : ∀ rest, s.callback = .startSessions rest → ∀ c ∈ rest, c ∈ conns
  stopped : ∀ rest, s.callback = .stopSessions rest → ∀ c ∉ rest, (s.runtime c).session = none
  owner : ∀ i session, s.sessions[i]? = some session → session.cancelled = false →
    (s.runtime session.conn).session = some i

-- The link watch looks at the connections of the engine and at no other.
structure Watched (conns : List ℤ) (s : State) : Prop where
  between : ∀ rest, s.watch = .between rest → ∀ c ∈ rest, c ∈ conns
  seen : ∀ c now rest, s.watch = .seen c now rest → c ∈ conns ∧ ∀ c ∈ rest, c ∈ conns
  wasConnected : ∀ c, (s.runtime c).wasConnected = true → c ∈ conns

-- What a planned batch holds.
def Carries : Writer.Phase → Prop
  | .planned batch inserts writes _ =>
      writes = (batch.filter writable).map Writer.writeModel ∧
        (batch.filter writable = [] → inserts = [])
  | .inserted batch writes _ => writes = (batch.filter writable).map Writer.writeModel
  | _ => True

structure Inv (conns : List ℤ) (s : State) : Prop where
  owned : Owned conns s
  watched : Watched conns s
  carries : Carries s.writer.phase

variable {conns : List ℤ} {s s' : State}

theorem cancel_getElem? {sessions : List Session} {i j : ℕ} {session : Session}
    (h : (cancel sessions i)[j]? = some session) (hlive : session.cancelled = false) :
    i ≠ j ∧ sessions[j]? = some session := by
  rw [cancel, List.getElem?_modify] at h
  obtain ⟨old, hold, rfl⟩ := Option.map_eq_some_iff.mp h
  by_cases hij : i = j
  · rw [if_pos hij] at hlive
    cases hlive
  · rw [if_neg hij]
    exact ⟨hij, hold⟩

-- The sessions are those that there were, of the same connections and as far cancelled.
def SameSessions (before after : List Session) : Prop :=
  ∀ (j : ℕ) (session : Session), after[j]? = some session →
    ∃ old, before[j]? = some old ∧ session.conn = old.conn ∧ session.cancelled = old.cancelled

theorem SameSessions.refl (sessions : List Session) : SameSessions sessions sessions :=
  fun _ session h => ⟨session, h, rfl, rfl⟩

theorem sameSessions_set {sessions : List Session} {i : ℕ} {session : Session} (now : Bool)
    (hi : sessions[i]? = some session) :
    SameSessions sessions (sessions.set i { session with connected := now }) := by
  intro j other h
  by_cases hij : i = j
  · subst hij
    obtain ⟨hlt, -⟩ := List.getElem?_eq_some_iff.mp hi
    rw [List.getElem?_set_self hlt] at h
    obtain rfl := Option.some.inj h
    exact ⟨session, hi, rfl, rfl⟩
  · rw [List.getElem?_set_ne hij] at h
    exact ⟨other, h, rfl, rfl⟩

-- A step that leaves the callback and the owners of the sessions alone.
theorem Owned.congr (h : Owned conns s) (hactive : s'.active = s.active)
    (hcallback : s'.callback = s.callback)
    (hruntime : ∀ c, (s'.runtime c).session = (s.runtime c).session)
    (hsessions : SameSessions s.sessions s'.sessions) : Owned conns s' := by
  constructor
  · intro rest hrest
    rw [hactive]
    exact h.inactive rest (hcallback ▸ hrest)
  · intro c hc
    rw [hruntime] at hc
    exact h.known c hc
  · intro rest hrest
    exact h.starting rest (hcallback ▸ hrest)
  · intro rest hrest c hc
    rw [hruntime]
    exact h.stopped rest (hcallback ▸ hrest) c hc
  · intro j session hj hlive
    obtain ⟨old, hold, hconn, hcancelled⟩ := hsessions j session hj
    rw [hruntime, hconn]
    exact h.owner j old hold (hcancelled ▸ hlive)

theorem update_session {runtime : ℤ → Runtime} {c : ℤ} {r : Runtime}
    (hr : r.session = (runtime c).session) (c' : ℤ) :
    (Function.update runtime c r c').session = (runtime c').session := by
  by_cases hc : c' = c
  · subst hc
    rw [Function.update_self, hr]
  · rw [Function.update_of_ne hc]

theorem update_wasConnected {runtime : ℤ → Runtime} {c : ℤ} {r : Runtime}
    (hr : r.wasConnected = (runtime c).wasConnected) (c' : ℤ) :
    (Function.update runtime c r c').wasConnected = (runtime c').wasConnected := by
  by_cases hc : c' = c
  · subst hc
    rw [Function.update_self, hr]
  · rw [Function.update_of_ne hc]

theorem Owned.step {a : Action} (h : Owned conns s) (hstep : step conns s a = some s') :
    Owned conns s' := by
  cases a with
  | setActive want =>
      obtain ⟨-, -, rfl⟩ := step_setActive hstep
      cases want with
      | true =>
          refine ⟨by simp, h.known, ?_, by simp, h.owner⟩
          intro rest hrest c hc
          obtain rfl : conns = rest := by simpa using hrest
          exact hc
      | false =>
          refine ⟨fun _ _ => rfl, h.known, by simp, ?_, h.owner⟩
          intro rest hrest c hc
          obtain rfl : conns = rest := by simpa using hrest
          by_contra hsome
          exact hc (h.known c (Option.isSome_iff_ne_none.mpr hsome))
  | startSession =>
      obtain ⟨c, rest, hcallback, rfl | ⟨hnone, rfl⟩⟩ := step_startSession hstep
      · refine ⟨by simp, h.known, ?_, by simp, h.owner⟩
        intro _ hrest c' hc'
        obtain rfl : rest = _ := by simpa using hrest
        exact h.starting _ hcallback c' (List.mem_cons_of_mem _ hc')
      · refine ⟨by simp, ?_, ?_, by simp, ?_⟩
        · intro c' hc'
          by_cases hcc : c' = c
          · subst hcc
            exact h.starting _ hcallback c' List.mem_cons_self
          · simp only [Function.update_of_ne hcc] at hc'
            exact h.known c' hc'
        · intro _ hrest c' hc'
          obtain rfl : rest = _ := by simpa using hrest
          exact h.starting _ hcallback c' (List.mem_cons_of_mem _ hc')
        · intro i session hi hlive
          dsimp only at hi ⊢
          by_cases hlt : i < s.sessions.length
          · rw [List.getElem?_append_left hlt] at hi
            have howner := h.owner i session hi hlive
            have hcc : session.conn ≠ c := by
              intro hcc
              rw [hcc, hnone] at howner
              cases howner
            rw [Function.update_of_ne hcc]
            exact howner
          · rw [List.getElem?_append_right (by omega), List.getElem?_singleton] at hi
            split_ifs at hi with hzero
            obtain rfl := Option.some.inj hi
            rw [Function.update_self]
            exact congrArg some (by omega)
  | stopSession =>
      obtain ⟨c, rest, hcallback, rfl⟩ := step_stopSession hstep
      refine ⟨fun _ _ => h.inactive _ hcallback, ?_, by simp, ?_, ?_⟩
      · intro c' hc'
        by_cases hcc : c' = c
        · subst hcc
          simp only [Function.update_self] at hc'
          cases hc'
        · simp only [Function.update_of_ne hcc] at hc'
          exact h.known c' hc'
      · intro _ hrest c' hc'
        obtain rfl : rest = _ := by simpa using hrest
        dsimp only
        by_cases hcc : c' = c
        · subst hcc
          rw [Function.update_self]
        · rw [Function.update_of_ne hcc]
          exact h.stopped _ hcallback c' (by simp [hcc, hc'])
      · intro j session hj hlive
        dsimp only at hj ⊢
        cases hsession : (s.runtime c).session with
        | none =>
            rw [hsession] at hj
            have howner := h.owner j session hj hlive
            have hcc : session.conn ≠ c := by
              intro hcc
              rw [hcc, hsession] at howner
              cases howner
            rw [Function.update_of_ne hcc]
            exact howner
        | some i =>
            rw [hsession] at hj
            obtain ⟨hij, hj⟩ := cancel_getElem? hj hlive
            have howner := h.owner j session hj hlive
            have hcc : session.conn ≠ c := by
              intro hcc
              rw [hcc, hsession] at howner
              exact hij (Option.some.inj howner)
            rw [Function.update_of_ne hcc]
            exact howner
  | connect i =>
      obtain ⟨session, hi, -, -, rfl⟩ := step_connect hstep
      exact h.congr rfl rfl (fun _ => rfl) (sameSessions_set true hi)
  | disconnect i =>
      obtain ⟨session, hi, -, rfl⟩ := step_disconnect hstep
      exact h.congr rfl rfl (fun _ => rfl) (sameSessions_set false hi)
  | receive i v =>
      obtain ⟨session, -, -, -, rfl⟩ := step_receive hstep
      exact h.congr rfl rfl (fun _ => rfl) (.refl _)
  | writer a =>
      obtain ⟨-, w, -, rfl⟩ := step_writer hstep
      exact h.congr rfl rfl (fun _ => rfl) (.refl _)
  | tick =>
      obtain ⟨-, rfl⟩ := step_tick hstep
      exact h.congr rfl rfl (fun _ => rfl) (.refl _)
  | look =>
      obtain ⟨c, rest, -, rfl⟩ := step_look hstep
      exact h.congr rfl rfl (fun _ => rfl) (.refl _)
  | act =>
      obtain ⟨c, now, rest, -, rfl⟩ := step_act hstep
      exact h.congr rfl rfl (update_session rfl) (.refl _)
  | invalidatePoints c ok =>
      obtain ⟨-, rfl⟩ := step_invalidatePoints hstep
      exact h.congr rfl rfl (fun _ => rfl) (.refl _)
  | executeCommand c =>
      obtain rfl | ⟨-, rfl⟩ := step_executeCommand hstep
      · exact h
      · exact h.congr rfl rfl (fun _ => rfl) (.refl _)
  | getSession =>
      obtain ⟨e, rfl⟩ := step_getSession hstep
      exact h.congr rfl rfl (fun _ => rfl) (.refl _)
  | dispatch accepted =>
      obtain ⟨commands, rfl⟩ := step_dispatch hstep
      exact h.congr rfl rfl (fun _ => rfl) (.refl _)
  | operate i =>
      obtain ⟨events, rfl, -⟩ := step_operate hstep
      exact h.congr rfl rfl (fun _ => rfl) (.refl _)

theorem Watched.congr (h : Watched conns s) (hwatch : s'.watch = s.watch)
    (hruntime : ∀ c, (s'.runtime c).wasConnected = (s.runtime c).wasConnected) :
    Watched conns s' := by
  constructor
  · intro rest hrest
    exact h.between rest (hwatch ▸ hrest)
  · intro c now rest hrest
    exact h.seen c now rest (hwatch ▸ hrest)
  · intro c hc
    rw [hruntime] at hc
    exact h.wasConnected c hc

theorem Watched.step {a : Action} (h : Watched conns s) (hstep : step conns s a = some s') :
    Watched conns s' := by
  cases a with
  | setActive want =>
      obtain ⟨-, -, rfl⟩ := step_setActive hstep
      exact h.congr rfl fun _ => rfl
  | startSession =>
      obtain ⟨c, rest, -, rfl | ⟨-, rfl⟩⟩ := step_startSession hstep
      · exact h.congr rfl fun _ => rfl
      · exact h.congr rfl (update_wasConnected rfl)
  | stopSession =>
      obtain ⟨c, rest, -, rfl⟩ := step_stopSession hstep
      exact h.congr rfl (update_wasConnected rfl)
  | connect i =>
      obtain ⟨session, -, -, -, rfl⟩ := step_connect hstep
      exact h.congr rfl fun _ => rfl
  | disconnect i =>
      obtain ⟨session, -, -, rfl⟩ := step_disconnect hstep
      exact h.congr rfl fun _ => rfl
  | receive i v =>
      obtain ⟨session, -, -, -, rfl⟩ := step_receive hstep
      exact h.congr rfl fun _ => rfl
  | writer a =>
      obtain ⟨-, w, -, rfl⟩ := step_writer hstep
      exact h.congr rfl fun _ => rfl
  | tick =>
      obtain ⟨-, rfl⟩ := step_tick hstep
      refine ⟨?_, by simp, h.wasConnected⟩
      intro rest hrest c hc
      obtain rfl : conns = rest := by simpa using hrest
      exact hc
  | look =>
      obtain ⟨c, rest, hwatch, rfl⟩ := step_look hstep
      have hmem := h.between _ hwatch
      refine ⟨by simp, ?_, h.wasConnected⟩
      intro c' now rest' hseen
      obtain ⟨rfl, -, rfl⟩ : c = c' ∧ _ ∧ rest = rest' := by simpa using hseen
      exact ⟨hmem c List.mem_cons_self, fun c' hc' => hmem c' (List.mem_cons_of_mem _ hc')⟩
  | act =>
      obtain ⟨c, now, rest, hwatch, rfl⟩ := step_act hstep
      obtain ⟨hc, hrest⟩ := h.seen c now rest hwatch
      refine ⟨?_, by simp, ?_⟩
      · intro rest' hrest'
        obtain rfl : rest = rest' := by simpa using hrest'
        exact hrest
      · intro c' hc'
        by_cases hcc : c' = c
        · exact hcc ▸ hc
        · simp only [Function.update_of_ne hcc] at hc'
          exact h.wasConnected c' hc'
  | invalidatePoints c ok =>
      obtain ⟨-, rfl⟩ := step_invalidatePoints hstep
      exact h.congr rfl fun _ => rfl
  | executeCommand c =>
      obtain rfl | ⟨-, rfl⟩ := step_executeCommand hstep
      · exact h
      · exact h.congr rfl fun _ => rfl
  | getSession =>
      obtain ⟨e, rfl⟩ := step_getSession hstep
      exact h.congr rfl fun _ => rfl
  | dispatch accepted =>
      obtain ⟨commands, rfl⟩ := step_dispatch hstep
      exact h.congr rfl fun _ => rfl
  | operate i =>
      obtain ⟨events, rfl, -⟩ := step_operate hstep
      exact h.congr rfl fun _ => rfl

theorem planBatch_carries (coll : List Document) (lookupOk : ℤ → Bool)
    (wconns : ℤ → Option Connection) (batch : List Dnp3Value) :
    (Writer.planBatch coll lookupOk wconns batch).writes =
        (batch.filter writable).map Writer.writeModel ∧
      (batch.filter writable = [] →
        (Writer.planBatch coll lookupOk wconns batch).inserts = []) := by
  induction batch using List.reverseRecOn with
  | nil => exact ⟨rfl, fun _ => rfl⟩
  | append_singleton batch v ih =>
      have hconcat : Writer.planBatch coll lookupOk wconns (batch ++ [v]) =
          Writer.planValue coll lookupOk (Writer.planBatch coll lookupOk wconns batch) v := by
        simp [Writer.planBatch]
      rw [hconcat, List.filter_append, List.append_eq_nil_iff]
      cases hv : isSkipped v.value with
      | true =>
          have hskip : writeOf v = none := by simp [writeOf, hv]
          simpa [Writer.planValue, hskip, writable, hv] using ih
      | false =>
          have hwrite := Writer.writeOf_eq hv
          constructor
          · simp [Writer.planValue, hwrite, writable, hv, ih.1]
          · simp [writable, hv]

theorem Carries.writer {w w' : Writer.State} {a : Writer.Action} (h : Carries w.phase)
    (hstep : Writer.step w a = some w') : Carries w'.phase := by
  cases a with
  | push v =>
      obtain rfl := Option.some.inj hstep
      exact h
  | drain =>
      obtain ⟨-, rfl⟩ := Writer.step_drain hstep
      dsimp only
      split_ifs <;> trivial
  | isLive live lookupOk =>
      obtain ⟨batch, -, ⟨-, rfl⟩ | ⟨-, rfl⟩⟩ := Writer.step_isLive hstep
      · trivial
      · exact planBatch_carries _ _ _ batch
  | insertMany reached =>
      obtain ⟨batch, inserts, writes, ordered, hphase, rfl⟩ := Writer.step_insertMany hstep
      rw [hphase] at h
      exact h.1
  | bulkWrite executed ok =>
      obtain ⟨batch, writes, ordered, -, -, rfl⟩ := Writer.step_bulkWrite hstep
      trivial

-- Only an action of the writer changes what the writer holds of a batch.
theorem step_phase {a : Action} (hstep : step conns s a = some s') :
    s'.writer.phase = s.writer.phase ∨
      ∃ b, a = .writer b ∧ Writer.step s.writer b = some s'.writer := by
  cases a with
  | setActive want =>
      obtain ⟨-, -, rfl⟩ := step_setActive hstep
      exact .inl rfl
  | startSession =>
      obtain ⟨c, rest, -, rfl | ⟨-, rfl⟩⟩ := step_startSession hstep <;> exact .inl rfl
  | stopSession =>
      obtain ⟨c, rest, -, rfl⟩ := step_stopSession hstep
      exact .inl rfl
  | connect i =>
      obtain ⟨session, -, -, -, rfl⟩ := step_connect hstep
      exact .inl rfl
  | disconnect i =>
      obtain ⟨session, -, -, rfl⟩ := step_disconnect hstep
      exact .inl rfl
  | receive i v =>
      obtain ⟨session, -, -, -, rfl⟩ := step_receive hstep
      exact .inl rfl
  | writer a =>
      obtain ⟨-, w, hw, rfl⟩ := step_writer hstep
      exact .inr ⟨a, rfl, hw⟩
  | tick =>
      obtain ⟨-, rfl⟩ := step_tick hstep
      exact .inl rfl
  | look =>
      obtain ⟨c, rest, -, rfl⟩ := step_look hstep
      exact .inl rfl
  | act =>
      obtain ⟨c, now, rest, -, rfl⟩ := step_act hstep
      exact .inl rfl
  | invalidatePoints c ok =>
      obtain ⟨-, rfl⟩ := step_invalidatePoints hstep
      exact .inl rfl
  | executeCommand c =>
      obtain rfl | ⟨-, rfl⟩ := step_executeCommand hstep <;> exact .inl rfl
  | getSession =>
      obtain ⟨e, rfl⟩ := step_getSession hstep
      exact .inl rfl
  | dispatch accepted =>
      obtain ⟨commands, rfl⟩ := step_dispatch hstep
      exact .inl rfl
  | operate i =>
      obtain ⟨events, rfl, -⟩ := step_operate hstep
      exact .inl rfl

theorem Inv.step {a : Action} (h : Inv conns s) (hstep : step conns s a = some s') :
    Inv conns s' := by
  refine ⟨h.owned.step hstep, h.watched.step hstep, ?_⟩
  rcases step_phase hstep with hphase | ⟨b, -, hw⟩
  · rw [hphase]
    exact h.carries
  · exact h.carries.writer hw

theorem inv_start (w : Writer.State) (hw : w.phase = .idle) : Inv conns (start w) := by
  refine ⟨⟨fun _ _ => rfl, by simp [start], by simp [start], by simp [start], by simp [start]⟩,
    ⟨?_, by simp [start], by simp [start]⟩, ?_⟩
  · intro rest hrest
    obtain rfl : [] = rest := by simpa [start] using hrest
    simp
  · rw [show (start w).writer.phase = .idle from hw]
    trivial

-- The engine at any time after its start.
def Reachable (conns : List ℤ) (s : State) : Prop :=
  ∃ coll wconns as, Run.run (Engine.step conns) (start (Writer.start coll wconns)) as = some s

theorem Reachable.inv (h : Reachable conns s) : Inv conns s := by
  obtain ⟨coll, wconns, as, hrun⟩ := h
  exact Run.preserved (Inv conns) (fun _ _ _ hinv hstep => hinv.step hstep) (inv_start _ rfl) hrun

end Invariants

end JsonScada.Dnp3.Engine
