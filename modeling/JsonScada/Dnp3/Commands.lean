import JsonScada.Library.ChangeLog
import JsonScada.Library.Run
import JsonScada.Processor.Bson

namespace JsonScada.Dnp3.Commands

open JsonScada.Library
open JsonScada.Processor (Document)

-- Where the loop over the change stream stands.
inductive Stage where
  | disconnected
  | connected
  | watching

-- The commands in their order of insertion, with the place that the stream has come to.
-- The resume token names an event by its place in the log.
structure State where
  log : ChangeLog Document
  stage : Stage
  resumeToken : Option ℕ
  -- how many commands there were when the first stream was opened
  watchedAt : Option ℕ
  -- the places of the commands that were passed to `executeCommand`
  passed : List ℕ

inductive Action where
  | insert (cmd : Document)
  | connect (ok : Bool)
  | watch (ok : Bool)
  -- the stream delivers an event, which may fail to decode
  | next (decoded : Bool)
  -- the stream ends with an error
  | fail

-- One step of `commandsLoop`, or the insertion of a command.
def step (s : State) : Action → Option State
  | .insert cmd => some { s with log := s.log.push cmd }
  | .connect ok =>
      match s.stage with
      | .disconnected => some { s with stage := if ok then .connected else .disconnected }
      | _ => none
  | .watch ok =>
      match s.stage with
      | .connected =>
          if ok then
            some { s with
              log := s.log.openAt s.resumeToken
              stage := .watching
              watchedAt := s.watchedAt.or (some s.log.events.length) }
          -- the token may be stale
          else some { s with stage := .disconnected, resumeToken := none }
      | _ => none
  | .next decoded =>
      match s.stage with
      | .watching =>
          s.log.next.map fun r =>
            { s with
              log := r.2
              resumeToken := some r.2.place
              passed := if decoded then s.passed ++ [s.log.place] else s.passed }
      | _ => none
  | .fail =>
      match s.stage with
      | .watching => some { s with stage := .disconnected }
      | _ => none

def start : State where
  log := .empty
  stage := .disconnected
  resumeToken := none
  watchedAt := none
  passed := []

section Purpose

-- Every command since the first stream was opened has been passed on once.
def ExactlyOnce (s : State) : Prop :=
  ∀ w, s.watchedAt = some w → ∀ i, w ≤ i → i < s.log.events.length → s.passed.count i = 1

-- A stream is open and has nothing to deliver.
def CaughtUp (s : State) : Prop := s.stage = .watching ∧ s.log.pending = []

-- A stream that is opened without a token, but for the first one, misses no command, and
-- an event that is delivered can be decoded.
def Keeps (s : State) : Action → Prop
  | .watch true => s.resumeToken = none → s.watchedAt ≠ none → s.log.pending = []
  | .next decoded => decoded = true
  | _ => True

end Purpose

section Inversion

variable {s s' : State}

theorem step_connect {ok : Bool} (h : step s (.connect ok) = some s') :
    s.stage = .disconnected ∧ ∃ stage, stage ≠ .watching ∧ s' = { s with stage := stage } := by
  simp only [step] at h
  split at h
  · exact ⟨‹_›, _, by cases ok <;> simp, (Option.some.inj h).symm⟩
  · cases h

theorem step_watch {ok : Bool} (h : step s (.watch ok) = some s') :
    s.stage = .connected ∧
      (ok = true ∧ s' = { s with
          log := s.log.openAt s.resumeToken
          stage := .watching
          watchedAt := s.watchedAt.or (some s.log.events.length) } ∨
        ok = false ∧ s' = { s with stage := .disconnected, resumeToken := none }) := by
  simp only [step] at h
  split at h
  · cases ok with
    | true => exact ⟨‹_›, .inl ⟨rfl, (Option.some.inj h).symm⟩⟩
    | false => exact ⟨‹_›, .inr ⟨rfl, (Option.some.inj h).symm⟩⟩
  · cases h

theorem step_next {decoded : Bool} (h : step s (.next decoded) = some s') :
    s.stage = .watching ∧ ∃ cmd log, s.log.next = some (cmd, log) ∧
      s' = { s with
        log := log
        resumeToken := some log.place
        passed := if decoded then s.passed ++ [s.log.place] else s.passed } := by
  simp only [step] at h
  split at h
  · obtain ⟨r, hr, rfl⟩ := Option.map_eq_some_iff.mp h
    exact ⟨‹_›, r.1, r.2, hr, rfl⟩
  · cases h

theorem step_fail (h : step s .fail = some s') :
    s.stage = .watching ∧ s' = { s with stage := .disconnected } := by
  simp only [step] at h
  split at h
  · exact ⟨‹_›, (Option.some.inj h).symm⟩
  · cases h

end Inversion

section Invariant

variable {s s' : State} {a : Action}

-- Whatever fails: the token is that of the last event that was delivered, and nothing is
-- passed on before its turn.
structure Inv (s : State) : Prop where
  token : ∀ t, s.resumeToken = some t → t = s.log.place
  watching : s.stage = .watching → s.watchedAt ≠ none
  unwatched : s.watchedAt = none → s.resumeToken = none ∧ s.passed = []
  watchedAt : ∀ w, s.watchedAt = some w → w ≤ s.log.place
  passed : ∀ i ∈ s.passed, i < s.log.place
  once : s.passed.Nodup

-- An opened stream goes on where the last one stood, or at the end of the log.
theorem Inv.openAt (h : Inv s) :
    s.log.place ≤ (s.log.openAt s.resumeToken).place ∧
      (s.resumeToken ≠ none → (s.log.openAt s.resumeToken).place = s.log.place) := by
  cases htoken : s.resumeToken with
  | none => exact ⟨by simpa using s.log.place_le, fun hne => absurd rfl hne⟩
  | some t =>
      have hplace : (s.log.openAt (some t)).place = s.log.place := by
        rw [h.token t htoken]
        exact s.log.place_openAt_of_le s.log.place_le
      exact ⟨hplace.ge, fun _ => hplace⟩

theorem Inv.step (h : Inv s) (hstep : step s a = some s') : Inv s' := by
  cases a with
  | insert cmd =>
      obtain rfl := Option.some.inj hstep
      exact ⟨h.token, h.watching, h.unwatched, h.watchedAt, h.passed, h.once⟩
  | connect ok =>
      obtain ⟨-, stage, hstage, rfl⟩ := step_connect hstep
      exact ⟨h.token, fun hw => absurd hw hstage, h.unwatched, h.watchedAt, h.passed, h.once⟩
  | watch ok =>
      obtain ⟨-, ⟨-, rfl⟩ | ⟨-, rfl⟩⟩ := step_watch hstep
      · obtain ⟨hle, hsame⟩ := h.openAt
        refine ⟨?_, by simp, by simp, ?_, fun i hi => (h.passed i hi).trans_le hle, h.once⟩
        · intro t ht
          dsimp only at ht ⊢
          rw [hsame (by rw [ht]; exact Option.some_ne_none t)]
          exact h.token t ht
        · intro w hw
          cases hwatched : s.watchedAt with
          | none =>
              obtain ⟨htoken, -⟩ := h.unwatched hwatched
              dsimp only at hw ⊢
              rw [hwatched, Option.none_or] at hw
              rw [htoken, ← Option.some.inj hw, ChangeLog.place_openAt_none]
          | some w' =>
              dsimp only at hw
              rw [hwatched, Option.some_or] at hw
              obtain rfl := Option.some.inj hw
              exact (h.watchedAt w' hwatched).trans hle
      · exact ⟨by simp, by simp, fun hw => ⟨rfl, (h.unwatched hw).2⟩, h.watchedAt, h.passed,
          h.once⟩
  | next decoded =>
      obtain ⟨hstage, cmd, log, hnext, rfl⟩ := step_next hstep
      obtain ⟨-, -, hplace⟩ := s.log.next_eq_some hnext
      refine ⟨by simp, h.watching, fun hw => absurd hw (h.watching hstage), ?_, ?_, ?_⟩
      · intro w hw
        dsimp only
        have := h.watchedAt w hw
        omega
      · intro i hi
        dsimp only at hi ⊢
        split_ifs at hi
        · rcases List.mem_append.mp hi with hi | hi
          · have := h.passed i hi
            omega
          · have := List.mem_singleton.mp hi
            omega
        · have := h.passed i hi
          omega
      · dsimp only
        split_ifs
        · apply h.once.append (List.nodup_singleton _)
          rw [List.disjoint_singleton]
          exact fun hmem => absurd (h.passed _ hmem) (Nat.lt_irrefl _)
        · exact h.once
  | fail =>
      obtain ⟨-, rfl⟩ := step_fail hstep
      exact ⟨h.token, by simp, h.unwatched, h.watchedAt, h.passed, h.once⟩

theorem inv_start : Inv start :=
  ⟨by simp [start], by simp [start], fun _ => ⟨rfl, rfl⟩, by simp [start], by simp [start],
    List.nodup_nil⟩

-- All that has been delivered was passed on.
def Complete (s : State) : Prop :=
  ∀ w, s.watchedAt = some w → ∀ i, w ≤ i → i < s.log.place → i ∈ s.passed

theorem Complete.step (h : Complete s) (hinv : Inv s) (hkeeps : Keeps s a)
    (hstep : step s a = some s') : Complete s' := by
  cases a with
  | insert cmd =>
      obtain rfl := Option.some.inj hstep
      exact h
  | connect ok =>
      obtain ⟨-, stage, -, rfl⟩ := step_connect hstep
      exact h
  | watch ok =>
      obtain ⟨-, ⟨rfl, rfl⟩ | ⟨-, rfl⟩⟩ := step_watch hstep
      · intro w hw i hwi hi
        dsimp only at hw hi ⊢
        cases hwatched : s.watchedAt with
        | none =>
            obtain ⟨htoken, -⟩ := hinv.unwatched hwatched
            rw [hwatched, Option.none_or] at hw
            rw [htoken, ChangeLog.place_openAt_none, Option.some.inj hw] at hi
            omega
        | some w' =>
            rw [hwatched, Option.some_or] at hw
            have hsame : (s.log.openAt s.resumeToken).place = s.log.place := by
              by_cases htoken : s.resumeToken = none
              · have hread := hkeeps htoken (by rw [hwatched]; exact Option.some_ne_none w')
                rw [htoken, ChangeLog.place_openAt_none]
                exact (s.log.pending_eq_nil_iff.mp hread).symm
              · exact hinv.openAt.2 htoken
            rw [hsame] at hi
            exact h w (hwatched.trans hw) i hwi hi
      · exact h
  | next decoded =>
      obtain ⟨-, cmd, log, hnext, rfl⟩ := step_next hstep
      obtain ⟨-, -, hplace⟩ := s.log.next_eq_some hnext
      intro w hw i hwi hi
      dsimp only at hi ⊢
      rw [if_pos (show decoded = true from hkeeps), List.mem_append, List.mem_singleton]
      by_cases hlast : i = s.log.place
      · exact .inr hlast
      · exact .inl (h w hw i hwi (by omega))
  | fail =>
      obtain ⟨-, rfl⟩ := step_fail hstep
      exact h

-- A command that the streams have gone past without passing it on.
def Missed (i : ℕ) (s : State) : Prop :=
  ∃ w, s.watchedAt = some w ∧ w ≤ i ∧ i < s.log.place ∧ i ∉ s.passed

theorem Missed.step {i : ℕ} (h : Missed i s) (hinv : Inv s) (hstep : step s a = some s') :
    Missed i s' := by
  obtain ⟨w, hw, hwi, hi, hmiss⟩ := h
  cases a with
  | insert cmd =>
      obtain rfl := Option.some.inj hstep
      exact ⟨w, hw, hwi, hi, hmiss⟩
  | connect ok =>
      obtain ⟨-, stage, -, rfl⟩ := step_connect hstep
      exact ⟨w, hw, hwi, hi, hmiss⟩
  | watch ok =>
      obtain ⟨-, ⟨-, rfl⟩ | ⟨-, rfl⟩⟩ := step_watch hstep
      · exact ⟨w, by simp [hw], hwi, hi.trans_le hinv.openAt.1, hmiss⟩
      · exact ⟨w, hw, hwi, hi, hmiss⟩
  | next decoded =>
      obtain ⟨-, cmd, log, hnext, rfl⟩ := step_next hstep
      obtain ⟨-, -, hplace⟩ := s.log.next_eq_some hnext
      refine ⟨w, hw, hwi, by dsimp only; omega, ?_⟩
      dsimp only
      split_ifs
      · rw [List.mem_append, List.mem_singleton, not_or]
        exact ⟨hmiss, by omega⟩
      · exact hmiss
  | fail =>
      obtain ⟨-, rfl⟩ := step_fail hstep
      exact ⟨w, hw, hwi, hi, hmiss⟩

-- A step that does not keep every command misses one.
theorem missed_of_not_keeps (hinv : Inv s) (hkeeps : ¬Keeps s a) (hstep : step s a = some s') :
    ∃ i, Missed i s' := by
  cases a with
  | insert cmd => exact absurd trivial hkeeps
  | connect ok => exact absurd trivial hkeeps
  | watch ok =>
      obtain ⟨-, ⟨rfl, rfl⟩ | ⟨rfl, rfl⟩⟩ := step_watch hstep
      · simp only [Keeps] at hkeeps
        push Not at hkeeps
        obtain ⟨htoken, hwatched, hpending⟩ := hkeeps
        obtain ⟨w, hw⟩ := Option.ne_none_iff_exists'.mp hwatched
        have hlt : s.log.place < s.log.events.length := by
          apply Nat.lt_of_le_of_ne s.log.place_le
          exact fun heq => hpending (s.log.pending_eq_nil_iff.mpr heq)
        refine ⟨s.log.place, w, by simp [hw], hinv.watchedAt w hw, ?_, ?_⟩
        · rw [htoken]
          simpa using hlt
        · exact fun hmem => absurd (hinv.passed _ hmem) (Nat.lt_irrefl _)
      · exact absurd trivial hkeeps
  | next decoded =>
      obtain ⟨hstage, cmd, log, hnext, rfl⟩ := step_next hstep
      obtain ⟨-, -, hplace⟩ := s.log.next_eq_some hnext
      obtain ⟨w, hw⟩ := Option.ne_none_iff_exists'.mp (hinv.watching hstage)
      refine ⟨s.log.place, w, hw, hinv.watchedAt w hw, by dsimp only; omega, ?_⟩
      dsimp only
      rw [if_neg (show ¬decoded = true from hkeeps)]
      exact fun hmem => absurd (hinv.passed _ hmem) (Nat.lt_irrefl _)
  | fail => exact absurd trivial hkeeps

end Invariant

section Claim

theorem missed_run {as : List Action} {i : ℕ} {s s' : State} (hinv : Inv s) (h : Missed i s)
    (hrun : Run.run step s as = some s') : Inv s' ∧ Missed i s' := by
  refine Run.preserved (fun s => Inv s ∧ Missed i s) ?_ ⟨hinv, h⟩ hrun
  exact fun _ _ _ hboth hstep => ⟨hboth.1.step hstep, hboth.2.step hboth.1 hstep⟩

theorem keeps_of_exactlyOnce {as : List Action} {s s' : State} (hinv : Inv s)
    (hrun : Run.run step s as = some s') (honce : ExactlyOnce s') :
    Run.Allowed step Keeps s as := by
  induction as generalizing s with
  | nil => trivial
  | cons a as ih =>
      obtain ⟨t, ht, hrun⟩ := Run.run_cons hrun
      constructor
      · by_contra hkeeps
        obtain ⟨i, hmiss⟩ := missed_of_not_keeps hinv hkeeps ht
        obtain ⟨-, w, hw, hwi, hi, hnot⟩ := missed_run (hinv.step ht) hmiss hrun
        have hcount := honce w hw i hwi (hi.trans_le s'.log.place_le)
        rw [List.count_eq_zero_of_not_mem hnot] at hcount
        cases hcount
      · intro u hu
        obtain rfl := Option.some.inj (ht.symm.trans hu)
        exact ih (hinv.step ht) hrun

theorem exactlyOnce_iff {as : List Action} {s : State} (hrun : Run.run step start as = some s)
    (hup : CaughtUp s) : ExactlyOnce s ↔ Run.Allowed step Keeps start as := by
  constructor
  · exact fun honce => keeps_of_exactlyOnce inv_start hrun honce
  · intro hkeeps
    have h : Inv s ∧ Complete s := by
      refine @Run.invariant _ _ _ _ (fun s => Inv s ∧ Complete s) ?_ _ _ _
        ⟨inv_start, by simp [Complete, start]⟩ hkeeps hrun
      exact fun _ _ _ hboth hok hstep =>
        ⟨hboth.1.step hstep, hboth.2.step hboth.1 hok hstep⟩
    intro w hw i hwi hi
    have hread := s.log.pending_eq_nil_iff.mp hup.2
    exact List.count_eq_one_of_mem h.1.once (h.2 w hw i hwi (by omega))

-- The stream breaks after a command and goes on behind it.
def resumedRun : List Action :=
  [.connect true, .watch true, .insert [], .next true, .fail, .insert [], .connect false,
    .connect true, .watch true, .next true]

theorem resumed_exactlyOnce_iff : ∃ s, Run.run step start resumedRun = some s ∧
    (ExactlyOnce s ↔ Run.Allowed step Keeps start resumedRun) :=
  ⟨_, rfl, exactlyOnce_iff rfl ⟨rfl, rfl⟩⟩

-- The stream breaks before it has seen a command, and one is inserted in the meantime.
theorem command_missed : ∃ s,
    Run.run step start [.connect true, .watch true, .fail, .insert [], .connect true, .watch true] =
      some s ∧
    CaughtUp s ∧ ¬ExactlyOnce s := by
  refine ⟨_, rfl, ⟨rfl, rfl⟩, ?_⟩
  intro h
  have hcount := h 0 rfl 0 (Nat.le_refl 0) (by decide)
  cases hcount

end Claim

end JsonScada.Dnp3.Commands
