import JsonScada.Library.Run
import JsonScada.Modbus.Client.Commands
import Mathlib.Data.Fintype.Basic
import Mathlib.Data.Fintype.Pi
import Mathlib.Logic.Function.Basic

-- Commands to the bits of registers on one connection, each in a goroutine of its own: a read of
-- the register and a write of the modified word, both through the gate of the connection.
namespace JsonScada.Modbus.BitCommands

open JsonScada.Library

section Command

-- The device that has a register, and its address.
abbrev Register := ℕ × ℕ

structure Command where
  unit : ℕ
  addr : ℕ
  bit : ℕ
  on : Bool
  bit_lt : bit < 16

def Command.register (c : Command) : Register := (c.unit, c.addr)

-- The two requests of a command, each with a turn at the gate.
inductive Turn where
  | read
  | write (word : BitVec 16)
  deriving DecidableEq

def Command.request (c : Command) : Turn → Commands.Request
  | .read => .readRegister c.unit c.addr
  | .write word => .writeRegister c.unit c.addr (Bits.setBit word c.bit c.on)

-- The command of a document that is carried out as a read and a write.
def Command.ofDoc (rt : Runtime) (cfg : Commands.Config) (bindings : String → Option Binding)
    (doc : Processor.Document) : Option Command :=
  match Commands.target rt cfg doc with
  | .error _ => none
  | .ok t =>
      match Commands.dispatch rt cfg bindings t doc with
      | .ok (.readModifyWrite bit on) =>
          if h : bit < 16 then
            some { unit := t.unit, addr := t.addr.offset, bit := bit, on := on, bit_lt := h }
          else none
      | _ => none

-- The command by itself: the read, and the write of what was read.
def Command.result (cfg : Commands.Config) (link : Commands.Link) (c : Command) : Commands.Result :=
  match Commands.exec (c.request .read) cfg.maxRetries link.read with
  | (requests, .error text) => { requests := requests, ok := false, desc := text }
  | (requests, .ok word) =>
      let r := Commands.send cfg link c.unit (c.request (.write word))
      { r with requests := requests ++ r.requests }

variable {rt : Runtime} {cfg : Commands.Config} {bindings : String → Option Binding}
  {doc : Processor.Document} {c : Command}

theorem ofDoc_eq_some (h : Command.ofDoc rt cfg bindings doc = some c) :
    ∃ t, Commands.target rt cfg doc = .ok t ∧ c.register = (t.unit, t.addr.offset) ∧
      Commands.dispatch rt cfg bindings t doc = .ok (.readModifyWrite c.bit c.on) := by
  unfold Command.ofDoc at h
  cases htarget : Commands.target rt cfg doc with
  | error text =>
      rw [htarget] at h
      cases h
  | ok t =>
      rw [htarget] at h
      simp only at h
      split at h
      · rename_i bit on hdispatch
        split at h
        · obtain rfl := Option.some.inj h
          exact ⟨t, rfl, rfl, hdispatch⟩
        · cases h
      · cases h

-- With nothing else on the connection a document is carried out like this.
theorem executeCommand_of_ofDoc (link : Commands.Link)
    (h : Command.ofDoc rt cfg bindings doc = some c) :
    Commands.executeCommand rt cfg bindings link doc = c.result cfg link := by
  obtain ⟨t, htarget, hregister, hdispatch⟩ := ofDoc_eq_some h
  obtain ⟨hunit, haddr⟩ := Prod.mk.inj hregister
  rcases hexec : Commands.exec (.readRegister t.unit t.addr.offset) cfg.maxRetries link.read with
    ⟨requests, _ | _⟩ <;>
  simp only [Commands.executeCommand, Command.result, htarget, hdispatch, Command.request, hunit,
    haddr, hexec]

-- Masks are not used, and the command is no broadcast.
theorem ofDoc_mask (h : Command.ofDoc rt cfg bindings doc = some c) :
    cfg.useMaskWrite = false ∧ c.unit ≠ 0 := by
  obtain ⟨t, -, hregister, hdispatch⟩ := ofDoc_eq_some h
  obtain ⟨hunit, -⟩ := Prod.mk.inj hregister
  rw [hunit]
  unfold Commands.dispatch at hdispatch
  simp only at hdispatch
  split at hdispatch
  · cases Except.ok.inj hdispatch
  · split at hdispatch
    · split at hdispatch
      · cases Except.ok.inj hdispatch
      · rename_i hmask
        simpa using hmask
    · split at hdispatch
      · cases hdispatch
      · split at hdispatch <;> cases Except.ok.inj hdispatch

end Command

section Gate

-- Where a command is: before a turn, in the queue of the gate, at the gate with as many retries
-- left, or past its request and about to let the gate go.
inductive Phase where
  | idle (turn : Turn)
  | waiting (turn : Turn)
  | holding (turn : Turn) (left : ℕ)
  | leaving (turn : Turn)
  | finishing (ok : Bool)
  | finished (ok : Bool)
  deriving DecidableEq

-- The commands are those of the run, started or not.
structure State (ι : Type) where
  registers : Register → BitVec 16
  busy : Bool := false
  prio : ℕ := 0
  polling : Bool := false
  phase : ι → Phase := fun _ => .idle .read

-- How one attempt of a request ends. The device may have executed one that gets no answer.
inductive Outcome where
  | answered
  | timedOut (executed : Bool)
  | failed (executed : Bool)
  deriving DecidableEq

def Outcome.executed : Outcome → Bool
  | .answered => true
  | .timedOut executed | .failed executed => executed

inductive Action (ι : Type) where
  -- `acquire`: the call, and its return
  | request (i : ι)
  | acquire (i : ι)
  | attempt (i : ι) (outcome : Outcome)
  | release (i : ι)
  -- a read of the poll cycle, which commands overtake
  | pollAcquire
  | pollRelease

-- What a request for one register leaves in the registers.
def execute (registers : Register → BitVec 16) (req : Commands.Request) : Register → BitVec 16 :=
  let r := (req.touched.unit, req.touched.first)
  Function.update registers r (req.wordAfter (registers r))

-- The phase after an attempt.
def afterAttempt (read : BitVec 16) (turn : Turn) (left : ℕ) : Outcome → Phase
  | .answered =>
      match turn with
      | .read => .leaving (.write read)
      | .write _ => .finishing true
  | .timedOut _ =>
      match left with
      | 0 => .finishing false
      | left + 1 => .holding turn left
  | .failed _ => .finishing false

variable {ι : Type} [DecidableEq ι] (cmd : ι → Command) (maxRetries : ℕ)

def State.setPhase (s : State ι) (i : ι) (p : Phase) : State ι :=
  { s with phase := Function.update s.phase i p }

def step (s : State ι) : Action ι → Option (State ι)
  | .request i =>
      match s.phase i with
      | .idle turn => some { s.setPhase i (.waiting turn) with prio := s.prio + 1 }
      | _ => none
  | .acquire i =>
      match s.phase i with
      | .waiting turn =>
          if s.busy then none
          else some { s.setPhase i (.holding turn maxRetries) with prio := s.prio - 1, busy := true }
      | _ => none
  | .attempt i outcome =>
      match s.phase i with
      | .holding turn left =>
          let p := afterAttempt (s.registers (cmd i).register) turn left outcome
          let req := (cmd i).request turn
          some
            { s.setPhase i p with
              registers := if outcome.executed then execute s.registers req else s.registers }
      | _ => none
  | .release i =>
      match s.phase i with
      | .leaving turn => some { s.setPhase i (.idle turn) with busy := false }
      | .finishing ok => some { s.setPhase i (.finished ok) with busy := false }
      | _ => none
  | .pollAcquire =>
      if s.busy || 0 < s.prio then none else some { s with busy := true, polling := true }
  | .pollRelease => if s.polling then some { s with busy := false, polling := false } else none

def start (registers : Register → BitVec 16) : State ι := { registers := registers }

def Phase.atGate : Phase → Prop
  | .holding _ _ | .leaving _ | .finishing _ => True
  | _ => False

-- The gate has one holder, a command or a read of the poll cycle.
structure Exclusive (s : State ι) : Prop where
  busy : ∀ i, (s.phase i).atGate → s.busy = true ∧ s.polling = false
  one : ∀ i j, (s.phase i).atGate → (s.phase j).atGate → i = j
  polling : s.polling = true → s.busy = true

variable {cmd maxRetries} {s s' : State ι} {a : Action ι}

theorem atGate_setPhase {i j : ι} {p : Phase} (h : ((s.setPhase i p).phase j).atGate) :
    j = i ∧ p.atGate ∨ j ≠ i ∧ (s.phase j).atGate := by
  by_cases hj : j = i
  · subst hj
    simp only [State.setPhase, Function.update_self] at h
    exact .inl ⟨rfl, h⟩
  · simp only [State.setPhase, Function.update_of_ne hj] at h
    exact .inr ⟨hj, h⟩

theorem Exclusive.step (h : Exclusive s) (hstep : step cmd maxRetries s a = some s') :
    Exclusive s' := by
  cases a with
  | request i =>
      simp only [BitCommands.step] at hstep
      split at hstep
      · obtain rfl := Option.some.inj hstep
        have hgate {j : ι} {turn : Turn} (hj : ((s.setPhase i (.waiting turn)).phase j).atGate) :
            (s.phase j).atGate :=
          (atGate_setPhase hj).elim (fun hi => hi.2.elim) And.right
        exact
          ⟨fun j hj => h.busy j (hgate hj), fun j k hj hk => h.one j k (hgate hj) (hgate hk),
            h.polling⟩
      · cases hstep
  | acquire i =>
      simp only [BitCommands.step] at hstep
      split at hstep
      · split at hstep
        · cases hstep
        · rename_i hbusy
          obtain rfl := Option.some.inj hstep
          -- nobody was at the gate
          have hgate {j : ι} {turn : Turn}
              (hj : ((s.setPhase i (.holding turn maxRetries)).phase j).atGate) : j = i :=
            (atGate_setPhase hj).elim And.left fun hother =>
              absurd (h.busy j hother.2).1 hbusy
          have hpolling : s.polling = false := by
            cases hp : s.polling with
            | false => rfl
            | true => exact absurd (h.polling hp) hbusy
          exact
            ⟨fun j _ => ⟨rfl, hpolling⟩, fun j k hj hk => (hgate hj).trans (hgate hk).symm,
              fun _ => rfl⟩
      · cases hstep
  | attempt i outcome =>
      simp only [BitCommands.step] at hstep
      split at hstep
      · rename_i turn left hp
        obtain rfl := Option.some.inj hstep
        have hi : (s.phase i).atGate := by
          rw [hp]
          trivial
        have hgate {j : ι} {p : Phase} (hj : ((s.setPhase i p).phase j).atGate) :
            (s.phase j).atGate :=
          (atGate_setPhase hj).elim (fun hself => by rw [hself.1]; exact hi) And.right
        exact
          ⟨fun j hj => h.busy j (hgate hj), fun j k hj hk => h.one j k (hgate hj) (hgate hk),
            h.polling⟩
      · cases hstep
  | release i =>
      -- whoever lets the gate go was alone at it
      have hleave {p : Phase} (hi : (s.phase i).atGate) (hp : ¬p.atGate) :
          Exclusive { s.setPhase i p with busy := false } := by
        have hgate {j : ι} : ¬((s.setPhase i p).phase j).atGate := fun hj =>
          (atGate_setPhase hj).elim (fun hself => hp hself.2) fun hother =>
            hother.1 (h.one j i hother.2 hi)
        have hpolling := (h.busy i hi).2
        exact
          ⟨fun j hj => absurd hj hgate, fun j k hj _ => absurd hj hgate,
            fun hpoll => absurd (hpolling.symm.trans hpoll) (by decide)⟩
      simp only [BitCommands.step] at hstep
      split at hstep
      · rename_i turn hp
        obtain rfl := Option.some.inj hstep
        exact hleave (by rw [hp]; trivial) id
      · rename_i ok hp
        obtain rfl := Option.some.inj hstep
        exact hleave (by rw [hp]; trivial) id
      · cases hstep
  | pollAcquire =>
      simp only [BitCommands.step] at hstep
      split at hstep
      · cases hstep
      · rename_i hbusy
        obtain rfl := Option.some.inj hstep
        have hfree : s.busy = false := by
          cases hb : s.busy with
          | false => rfl
          | true => simp [hb] at hbusy
        have hgate {j : ι} : ¬(s.phase j).atGate := fun hj =>
          absurd ((h.busy j hj).1.symm.trans hfree) (by decide)
        exact ⟨fun j hj => absurd hj hgate, fun j k hj _ => absurd hj hgate, fun _ => rfl⟩
  | pollRelease =>
      simp only [BitCommands.step] at hstep
      split at hstep
      · rename_i hpolling
        obtain rfl := Option.some.inj hstep
        have hgate {j : ι} : ¬(s.phase j).atGate := fun hj =>
          absurd ((h.busy j hj).2.symm.trans hpolling) (by decide)
        exact ⟨fun j hj => absurd hj hgate, fun j k hj _ => absurd hj hgate, fun hp => nomatch hp⟩
      · cases hstep

-- One request at a time on the connection.
theorem exclusive_of_run {registers : Register → BitVec 16} {actions : List (Action ι)}
    (hrun : Run.run (BitCommands.step cmd maxRetries) (start registers) actions = some s) :
    Exclusive s := by
  have hstart : Exclusive (start registers : State ι) :=
    { busy := fun _ hi => False.elim hi
      one := fun _ _ hi _ => False.elim hi
      polling := fun hp => nomatch hp }
  exact Run.preserved Exclusive (fun _ _ _ h hstep => h.step hstep) hstart hrun

end Gate

-- What becomes of the bits of a register that several commands write.
section Kept

variable {ι : Type} (cmd : ι → Command)

-- The commanded bits of completed commands have their values, and no other bit has changed.
structure Kept (registers : Register → BitVec 16) (s : State ι) : Prop where
  commanded : ∀ i, s.phase i = .finished true →
    (s.registers (cmd i).register).getLsbD (cmd i).bit = (cmd i).on
  others : ∀ r k, (∀ i, (cmd i).register = r → (cmd i).bit ≠ k) →
    (s.registers r).getLsbD k = (registers r).getLsbD k

-- The word that a command has read and not yet written.
def Phase.word : Phase → Option (BitVec 16)
  | .idle (.write word) | .waiting (.write word) | .holding (.write word) _
  | .leaving (.write word) => some word
  | _ => none

def Phase.reading : Phase → Bool
  | .holding .read _ => true
  | _ => false

-- Where the read of a command is answered, no other command of the register is between its read
-- and its write.
def Alone (s : State ι) : Action ι → Prop
  | .attempt i .answered =>
      (s.phase i).reading = true →
        ∀ j, j ≠ i → (cmd j).register = (cmd i).register → (s.phase j).word = none
  | _ => True

instance [Fintype ι] [DecidableEq ι] (s : State ι) (a : Action ι) : Decidable (Alone cmd s a) :=
  match a with
  | .attempt _ .answered => inferInstanceAs (Decidable (_ → ∀ _, _))
  | .attempt _ (.timedOut _) | .attempt _ (.failed _) | .request _ | .acquire _ | .release _
  | .pollAcquire | .pollRelease => .isTrue trivial

end Kept

section Steps

-- Whether the write of the command was answered.
def Phase.written : Phase → Prop
  | .finishing ok | .finished ok => ok = true
  | _ => False

variable {ι : Type} [DecidableEq ι] {cmd : ι → Command} {maxRetries : ℕ} {s s' : State ι}
  {a : Action ι}

theorem execute_read (registers : Register → BitVec 16) (c : Command) :
    execute registers (c.request .read) = registers :=
  Function.update_eq_self _ _

theorem execute_write (registers : Register → BitVec 16) (c : Command) (word : BitVec 16) :
    execute registers (c.request (.write word)) =
      Function.update registers c.register (Bits.setBit word c.bit c.on) := rfl

-- A command that goes on with the word that it has, or gives it up.
structure Quiet (s s' : State ι) : Prop where
  registers : s'.registers = s.registers
  word : ∀ i w, (s'.phase i).word = some w → (s.phase i).word = some w
  written : ∀ i, (s'.phase i).written → (s.phase i).written

-- The next phase of one command.
theorem quiet_of_phase {i : ι} {p : Phase} (hregisters : s'.registers = s.registers)
    (hphase : s'.phase = Function.update s.phase i p)
    (hword : ∀ w, p.word = some w → (s.phase i).word = some w)
    (hwritten : p.written → (s.phase i).written) : Quiet s s' where
  registers := hregisters
  word := by
    intro j w hj
    rw [hphase] at hj
    by_cases hji : j = i
    · subst hji
      rw [Function.update_self] at hj
      exact hword w hj
    · rwa [Function.update_of_ne hji] at hj
  written := by
    intro j hj
    rw [hphase] at hj
    by_cases hji : j = i
    · subst hji
      rw [Function.update_self] at hj
      exact hwritten hj
    · rwa [Function.update_of_ne hji] at hj

-- An attempt with no answer leaves the command with its turn, or with none.
theorem afterAttempt_unanswered {outcome : Outcome} (houtcome : outcome ≠ .answered)
    (read : BitVec 16) (turn : Turn) (left : ℕ) :
    (afterAttempt read turn left outcome = .finishing false) ∨
      ∃ left', afterAttempt read turn left outcome = .holding turn left' := by
  cases outcome with
  | answered => exact absurd rfl houtcome
  | failed executed => exact .inl rfl
  | timedOut executed =>
      cases left with
      | zero => exact .inl rfl
      | succ left => exact .inr ⟨left, rfl⟩

theorem unanswered_word {outcome : Outcome} (houtcome : outcome ≠ .answered) (read : BitVec 16)
    (turn : Turn) (left : ℕ) {w : BitVec 16}
    (h : (afterAttempt read turn left outcome).word = some w) : turn = .write w := by
  rcases afterAttempt_unanswered houtcome read turn left with hp | ⟨left', hp⟩
  · rw [hp] at h
    cases h
  · rw [hp] at h
    cases turn with
    | read => cases h
    | write word => rw [Option.some.inj h]

theorem unanswered_written {outcome : Outcome} (houtcome : outcome ≠ .answered) (read : BitVec 16)
    (turn : Turn) (left : ℕ) : ¬(afterAttempt read turn left outcome).written := by
  rcases afterAttempt_unanswered houtcome read turn left with hp | ⟨left', hp⟩ <;>
    simp [hp, Phase.written]

-- What a step can do with the words and the registers: nothing, read a word, or write one.
theorem step_cases (h : step cmd maxRetries s a = some s') :
    Quiet s s' ∨
      (∃ i left, a = .attempt i .answered ∧ s.phase i = .holding .read left ∧
        s'.registers = s.registers ∧
        s'.phase = Function.update s.phase i (.leaving (.write (s.registers (cmd i).register)))) ∨
      ∃ i word left p, s.phase i = .holding (.write word) left ∧
        s'.registers =
          Function.update s.registers (cmd i).register (Bits.setBit word (cmd i).bit (cmd i).on) ∧
        s'.phase = Function.update s.phase i p ∧ ∀ w, p.word = some w → w = word := by
  cases a with
  | request i =>
      simp only [step] at h
      split at h
      · rename_i turn hp
        obtain rfl := Option.some.inj h
        refine .inl (quiet_of_phase rfl rfl ?_ False.elim)
        rw [hp]
        cases turn <;> exact fun w hw => hw
      · cases h
  | acquire i =>
      simp only [step] at h
      split at h
      · rename_i turn hp
        split at h
        · cases h
        · obtain rfl := Option.some.inj h
          refine .inl (quiet_of_phase rfl rfl ?_ False.elim)
          rw [hp]
          cases turn <;> exact fun w hw => hw
      · cases h
  | release i =>
      simp only [step] at h
      split at h
      · rename_i turn hp
        obtain rfl := Option.some.inj h
        refine .inl (quiet_of_phase rfl rfl ?_ False.elim)
        rw [hp]
        cases turn <;> exact fun w hw => hw
      · rename_i ok hp
        obtain rfl := Option.some.inj h
        refine .inl (quiet_of_phase rfl rfl ?_ ?_)
        · intro w hw
          cases hw
        · rw [hp]
          exact id
      · cases h
  | pollAcquire =>
      simp only [step] at h
      split at h
      · cases h
      · obtain rfl := Option.some.inj h
        exact .inl ⟨rfl, fun _ _ => id, fun _ => id⟩
  | pollRelease =>
      simp only [step] at h
      split at h
      · obtain rfl := Option.some.inj h
        exact .inl ⟨rfl, fun _ _ => id, fun _ => id⟩
      · cases h
  | attempt i outcome =>
      simp only [step] at h
      split at h
      · rename_i turn left hp
        obtain rfl := Option.some.inj h
        cases turn with
        | read =>
            have hregisters : (if outcome.executed then execute s.registers ((cmd i).request .read)
                else s.registers) = s.registers := by
              rw [execute_read, ite_self]
            by_cases houtcome : outcome = .answered
            · subst houtcome
              exact .inr (.inl ⟨i, left, rfl, hp, hregisters, rfl⟩)
            · refine .inl (quiet_of_phase hregisters rfl ?_ ?_)
              · intro w hw
                cases unanswered_word houtcome _ _ _ hw
              · exact fun hw => absurd hw (unanswered_written houtcome _ _ _)
        | write word =>
            have hword {w : BitVec 16} {read : BitVec 16}
                (hw : (afterAttempt read (.write word) left outcome).word = some w) : w = word := by
              by_cases houtcome : outcome = .answered
              · subst houtcome
                cases hw
              · cases unanswered_word houtcome _ _ _ hw
                rfl
            by_cases hexecuted : outcome.executed = true
            · refine .inr (.inr ⟨i, word, left, _, hp, ?_, rfl, fun w hw => hword hw⟩)
              simp only [hexecuted, if_true]
              exact execute_write s.registers (cmd i) word
            · have houtcome : outcome ≠ .answered := by
                rintro rfl
                exact hexecuted rfl
              refine .inl (quiet_of_phase (by simp only [hexecuted]; rfl) rfl ?_ ?_)
              · intro w hw
                rw [hword hw, hp]
                rfl
              · exact fun hw => absurd hw (unanswered_written houtcome _ _ _)
      · cases h

end Steps

section Invariant

variable {ι : Type} [DecidableEq ι] {cmd : ι → Command} {maxRetries : ℕ}
  {registers : Register → BitVec 16} {s s' : State ι} {a : Action ι}

structure Inv (cmd : ι → Command) (registers : Register → BitVec 16) (s : State ι) : Prop where
  -- a register is as it was read, but for the bit that the reader writes
  held : ∀ i w, (s.phase i).word = some w → ∀ k, k ≠ (cmd i).bit →
    (s.registers (cmd i).register).getLsbD k = w.getLsbD k
  alone : ∀ i j, (cmd i).register = (cmd j).register → (s.phase i).word ≠ none →
    (s.phase j).word ≠ none → i = j
  written : ∀ i, (s.phase i).written →
    (s.registers (cmd i).register).getLsbD (cmd i).bit = (cmd i).on
  others : ∀ r k, (∀ i, (cmd i).register = r → (cmd i).bit ≠ k) →
    (s.registers r).getLsbD k = (registers r).getLsbD k

omit [DecidableEq ι] in
theorem inv_start : Inv cmd registers (start registers : State ι) where
  held := fun _ _ h => nomatch h
  alone := fun _ _ _ h => absurd rfl h
  written := fun _ h => h.elim
  others := fun _ _ _ => rfl

omit [DecidableEq ι] in
theorem Inv.quiet (h : Inv cmd registers s) (hq : Quiet s s') : Inv cmd registers s' where
  held := by
    intro i w hw
    rw [hq.registers]
    exact h.held i w (hq.word i w hw)
  alone := by
    intro i j hr hi hj
    obtain ⟨w, hi⟩ := Option.ne_none_iff_exists'.mp hi
    obtain ⟨w', hj⟩ := Option.ne_none_iff_exists'.mp hj
    exact h.alone i j hr (by simp [hq.word i w hi]) (by simp [hq.word j w' hj])
  written := by
    intro i hi
    rw [hq.registers]
    exact h.written i (hq.written i hi)
  others := by
    intro r k hk
    rw [hq.registers]
    exact h.others r k hk

-- A word is read while nobody else of the register has one.
theorem Inv.read (h : Inv cmd registers s) {i : ι} {left : ℕ} (hp : s.phase i = .holding .read left)
    (hregisters : s'.registers = s.registers)
    (hphase : s'.phase =
      Function.update s.phase i (.leaving (.write (s.registers (cmd i).register))))
    (halone : ∀ j, j ≠ i → (cmd j).register = (cmd i).register → (s.phase j).word = none) :
    Inv cmd registers s' := by
  have hself : s'.phase i = .leaving (.write (s.registers (cmd i).register)) := by
    rw [hphase, Function.update_self]
  have hother {j : ι} (hj : j ≠ i) : s'.phase j = s.phase j := by
    rw [hphase, Function.update_of_ne hj]
  refine ⟨?_, ?_, ?_, ?_⟩
  · intro j w hw k hk
    rw [hregisters]
    by_cases hj : j = i
    · subst hj
      rw [hself] at hw
      rw [← Option.some.inj hw]
    · rw [hother hj] at hw
      exact h.held j w hw k hk
  · intro j k hr hj hk
    by_cases hji : j = i
    · subst hji
      by_contra hne
      have hkj : k ≠ j := fun he => hne he.symm
      rw [hother hkj] at hk
      exact hk (halone k hkj hr.symm)
    · rw [hother hji] at hj
      by_cases hki : k = i
      · subst hki
        exact absurd (halone j hji hr) hj
      · rw [hother hki] at hk
        exact h.alone j k hr hj hk
  · intro j hj
    rw [hregisters]
    by_cases hji : j = i
    · subst hji
      rw [hself] at hj
      exact hj.elim
    · rw [hother hji] at hj
      exact h.written j hj
  · intro r k hk
    rw [hregisters]
    exact h.others r k hk

-- A write changes the bit of its command only.
theorem Inv.write (h : Inv cmd registers s)
    (hdistinct : ∀ i j, (cmd i).register = (cmd j).register → (cmd i).bit = (cmd j).bit → i = j)
    {i : ι} {word : BitVec 16} {left : ℕ} {p : Phase} (hp : s.phase i = .holding (.write word) left)
    (hregisters : s'.registers =
      Function.update s.registers (cmd i).register (Bits.setBit word (cmd i).bit (cmd i).on))
    (hphase : s'.phase = Function.update s.phase i p) (hword : ∀ w, p.word = some w → w = word) :
    Inv cmd registers s' := by
  have hself : s'.phase i = p := by rw [hphase, Function.update_self]
  have hother {j : ι} (hj : j ≠ i) : s'.phase j = s.phase j := by
    rw [hphase, Function.update_of_ne hj]
  have hheld : (s.phase i).word = some word := by rw [hp]; rfl
  have hbit (r : Register) (k : ℕ) (hk : r ≠ (cmd i).register ∨ k ≠ (cmd i).bit) :
      (s'.registers r).getLsbD k = (s.registers r).getLsbD k := by
    rw [hregisters]
    by_cases hr : r = (cmd i).register
    · have hk : k ≠ (cmd i).bit := hk.resolve_left fun hne => hne hr
      rw [hr, Function.update_self, Bits.getLsbD_setBit _ (cmd i).bit_lt, if_neg hk]
      exact (h.held i word hheld k hk).symm
    · rw [Function.update_of_ne hr]
  have hown : (s'.registers (cmd i).register).getLsbD (cmd i).bit = (cmd i).on := by
    rw [hregisters, Function.update_self, Bits.getLsbD_setBit _ (cmd i).bit_lt, if_pos rfl]
  refine ⟨?_, ?_, ?_, ?_⟩
  · intro j w hw k hk
    by_cases hj : j = i
    · subst hj
      rw [hself] at hw
      obtain rfl := hword w hw
      rw [hbit _ k (.inr hk)]
      exact h.held j w hheld k hk
    · rw [hother hj] at hw
      have hr : (cmd j).register ≠ (cmd i).register := by
        intro hr
        exact hj (h.alone j i hr (by simp [hw]) (by simp [hheld]))
      rw [hbit _ k (.inl hr)]
      exact h.held j w hw k hk
  · intro j k hr hj hk
    have hhad {l : ι} (hl : (s'.phase l).word ≠ none) : (s.phase l).word ≠ none := by
      by_cases hli : l = i
      · rw [hli, hheld]
        exact Option.some_ne_none _
      · rwa [hother hli] at hl
    exact h.alone j k hr (hhad hj) (hhad hk)
  · intro j hj
    by_cases hji : j = i
    · rw [hji]
      exact hown
    · rw [hother hji] at hj
      have hne : (cmd j).register ≠ (cmd i).register ∨ (cmd j).bit ≠ (cmd i).bit := by
        by_contra hsame
        rw [not_or, not_not, not_not] at hsame
        exact hji (hdistinct j i hsame.1 hsame.2)
      rw [hbit _ _ hne]
      exact h.written j hj
  · intro r k hk
    have hne : r ≠ (cmd i).register ∨ k ≠ (cmd i).bit := by
      by_contra hsame
      rw [not_or, not_not, not_not] at hsame
      exact hk i hsame.1.symm hsame.2.symm
    rw [hbit r k hne]
    exact h.others r k hk

theorem inv_step
    (hdistinct : ∀ i j, (cmd i).register = (cmd j).register → (cmd i).bit = (cmd j).bit → i = j)
    (h : Inv cmd registers s) (halone : Alone cmd s a) (hstep : step cmd maxRetries s a = some s') :
    Inv cmd registers s' := by
  rcases step_cases hstep with hq | ⟨i, left, rfl, hp, hregisters, hphase⟩ |
    ⟨i, word, left, p, hp, hregisters, hphase, hword⟩
  · exact h.quiet hq
  · exact h.read hp hregisters hphase (halone (by rw [hp]; rfl))
  · exact h.write hdistinct hp hregisters hphase hword

-- Commands to different bits do not cancel each other in the runs in which those to one register
-- do not overlap from read to write.
theorem bits_kept
    (hdistinct : ∀ i j, (cmd i).register = (cmd j).register → (cmd i).bit = (cmd j).bit → i = j)
    {actions : List (Action ι)}
    (halone : Run.Allowed (step cmd maxRetries) (Alone cmd) (start registers) actions)
    (hrun : Run.run (step cmd maxRetries) (start registers) actions = some s) :
    Kept cmd registers s := by
  have hinv : Inv cmd registers s :=
    Run.invariant (fun s a s' h hok hstep => inv_step hdistinct h hok hstep) inv_start halone hrun
  refine ⟨?_, hinv.others⟩
  intro i hi
  apply hinv.written i
  rw [hi]
  rfl

end Invariant

section Example

-- Two bits of register 0 of unit 1, both to be set.
def bits : Bool → Command
  | false => { unit := 1, addr := 0, bit := 0, on := true, bit_lt := by decide }
  | true => { unit := 1, addr := 0, bit := 1, on := true, bit_lt := by decide }

-- A turn whose request is answered.
def turn (i : Bool) : List (Action Bool) :=
  [.request i, .acquire i, .attempt i .answered, .release i]

-- A command whose write is executed but answered only at the second attempt, then the other one.
def oneByOne : List (Action Bool) :=
  turn false ++ [.request false, .acquire false, .attempt false (.timedOut true),
    .attempt false .answered, .release false] ++ [.pollAcquire, .pollRelease] ++
    turn true ++ turn true

theorem bits_kept_oneByOne :
    ∃ s, Run.run (step bits 2) (start fun _ => 4) oneByOne = some s ∧
      s.phase false = .finished true ∧ s.phase true = .finished true ∧
      s.registers (1, 0) = 7 ∧ Kept bits (fun _ => 4) s := by
  have hdistinct : ∀ i j, (bits i).register = (bits j).register → (bits i).bit = (bits j).bit →
      i = j := by
    decide
  have halone : Run.Allowed (step bits 2) (Alone bits) (start fun _ => 4) oneByOne := by
    decide
  refine ⟨_, rfl, by decide, by decide, by decide, ?_⟩
  exact bits_kept hdistinct halone rfl

-- Both read the register before either writes it: the bit that was written first is lost.
theorem bit_lost :
    ∃ s, Run.run (step bits 2) (start fun _ => 4)
        (turn false ++ turn true ++ turn false ++ turn true) = some s ∧
      s.phase false = .finished true ∧ s.phase true = .finished true ∧
      s.registers (1, 0) = 6 ∧ ¬Kept bits (fun _ => 4) s := by
  refine ⟨_, rfl, by decide, by decide, by decide, ?_⟩
  intro h
  have hbit := h.commanded false (by decide)
  revert hbit
  decide

end Example

end JsonScada.Modbus.BitCommands
