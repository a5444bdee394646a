import JsonScada.Dnp3.Control
import JsonScada.Dnp3.Fields
import JsonScada.Library.FloatFormat

namespace JsonScada.Dnp3.Commands

open JsonScada.Library
open JsonScada.JsMongo
open JsonScada.Iec60870 (Platform IntType)
open JsonScada.Processor (Document Value)

section Execution

-- What a command finds of its connection.
structure Conn where
  hasSession : Bool
  connected : Bool
  commandsEnabled : Bool

-- What the driver finds when a command comes. The time is in nanoseconds.
structure Env where
  pl : Platform
  active : Bool
  now : ℤ
  connByNumber : ℤ → Option Conn

-- The requests that are sent to an outstation.
inductive Command where
  | crob (index : UInt16) (block : ControlRelayOutputBlock)
  | analogOutputInt32 (index : UInt16) (value : IntType.int32.Range)
  | analogOutputInt16 (index : UInt16) (value : IntType.int16.Range)
  | analogOutputFloat32 (index : UInt16) (value : Double)
  | analogOutputFloat64 (index : UInt16) (value : Double)
deriving DecidableEq

inductive Outcome where
  | ignored
  | cancelled (reason : String)
  | issued (command : Command) (useSBO : Bool)
deriving DecidableEq

def commandExpiry : ℤ := 10000000000

def validPointIndex (address : ℤ) : Bool := 0 ≤ address && address ≤ 0xffff

variable (env : Env) (cmd : Document)

def isExpired : Bool :=
  commandExpiry < env.now - getDateMs env.pl cmd "timeTag" (env.now / 1000000) * 1000000

def group : ℤ := getInt env.pl cmd "protocolSourceCommonAddress" 0
def variation : ℤ := getInt env.pl cmd "protocolSourceASDU" 0
def address : ℤ := getInt env.pl cmd "protocolSourceObjectAddress" 0
def commandValue : Double := getDouble cmd "value" (.fin 0)

-- What stops a command before its value is looked at, and none if nothing does.
def refusal : Option Outcome :=
  if !env.active then some .ignored
  else if (cmd.lookup "_id").isNone then some .ignored
  else
    match env.connByNumber (getInt env.pl cmd "protocolSourceConnectionNumber" 0) with
    -- a command of another driver
    | none => some .ignored
    | some conn =>
        if !conn.hasSession then some (.cancelled "connection_not_found")
        else if !conn.connected then some (.cancelled "not_connected")
        else if !conn.commandsEnabled then some (.cancelled "cmds_disabled")
        else if isExpired env cmd then some (.cancelled "expired")
        else if !validPointIndex (address env cmd) then some (.cancelled "invalid_address")
        else none

-- The analog output by its variation, which is single precision for any other number.
def analogOutput (pl : Platform) (index : UInt16) (variation : ℤ) (value : Double) : Command :=
  if variation = 1 then .analogOutputInt32 index (pl.toInt .int32 value)
  else if variation = 2 then .analogOutputInt16 index (pl.toInt .int16 value)
  else if variation = 4 then .analogOutputFloat64 index value
  else .analogOutputFloat32 index (FloatFormat.single.convert value)

def executeCommand : Outcome :=
  match refusal env cmd with
  | some outcome => outcome
  | none =>
      let index := toUInt16 (address env cmd)
      let useSBO := getBool cmd "protocolSourceCommandUseSBO" false
      let duration := getInt env.pl cmd "protocolSourceCommandDuration" 0
      let value := commandValue cmd
      if group env cmd = groupCROBCommand then .issued (.crob index (crobFor duration value)) useSBO
      else if group env cmd = groupAnalogOutputBlock then
        .issued (analogOutput env.pl index (variation env cmd) value) useSBO
      else .cancelled "unsupported_group"

end Execution

section Purpose

-- The value that an analog output asks for is the commanded one, without its fraction or rounded
-- to the nearest.
def Asks (value : Double) : Command → Prop
  | .crob _ _ => False
  | .analogOutputInt32 _ v => value.isFinite = true ∧ v.1 = value.toInt
  | .analogOutputInt16 _ v => value.isFinite = true ∧ v.1 = value.toInt
  | .analogOutputFloat32 _ v => FloatFormat.single.IsRounded value v
  | .analogOutputFloat64 _ v => v = value

def Command.index : Command → UInt16
  | crob index _ => index
  | analogOutputInt32 index _ => index
  | analogOutputInt16 index _ => index
  | analogOutputFloat32 index _ => index
  | analogOutputFloat64 index _ => index

variable (env : Env) (cmd : Document)

def isSetpoint : Bool :=
  group env cmd = groupAnalogOutputBlock && [1, 2, 3, 4].contains (variation env cmd)

-- The command is one for this driver, which runs the protocol.
def isOwn : Bool :=
  env.active && (cmd.lookup "_id").isSome &&
    (env.connByNumber (getInt env.pl cmd "protocolSourceConnectionNumber" 0)).isSome

-- A setpoint is cancelled for a reason, or sent to the commanded point with the commanded value.
def SentAsAsked : Prop :=
  isSetpoint env cmd = true → isOwn env cmd = true →
    (∃ reason, executeCommand env cmd = .cancelled reason) ∨
      ∃ command useSBO, executeCommand env cmd = .issued command useSBO ∧
        Asks (commandValue cmd) command ∧ (command.index.toNat : ℤ) = address env cmd

-- The integer variations have the value.
def Sendable (variation : ℤ) (value : Double) : Prop :=
  (variation = 1 → FitsInt .int32 value) ∧ (variation = 2 → FitsInt .int16 value)

end Purpose

section Claim

variable {env : Env} {cmd : Document}

-- What is stopped is cancelled, where it is one for this driver.
theorem refusal_some (hown : isOwn env cmd = true) {outcome : Outcome}
    (h : refusal env cmd = some outcome) : ∃ reason, outcome = .cancelled reason := by
  simp only [isOwn, Bool.and_eq_true, Option.isSome_iff_exists] at hown
  obtain ⟨⟨hactive, id, hid⟩, conn, hconn⟩ := hown
  unfold refusal at h
  rw [hactive, hid, hconn] at h
  simp only [Option.isNone_some, Bool.not_true, Bool.false_eq_true, if_false] at h
  split_ifs at h <;> exact ⟨_, (Option.some.inj h).symm⟩

theorem refusal_none (h : refusal env cmd = none) :
    isOwn env cmd = true ∧ 0 ≤ address env cmd ∧ address env cmd ≤ 65535 := by
  unfold refusal at h
  cases hconn : env.connByNumber (getInt env.pl cmd "protocolSourceConnectionNumber" 0) with
  | none =>
      rw [hconn] at h
      split_ifs at h
  | some conn =>
      rw [hconn] at h
      dsimp only at h
      split_ifs at h with hactive hid
      have hvalid : ¬(!validPointIndex (address env cmd)) = true := ‹_›
      refine ⟨?_, by simpa [validPointIndex] using hvalid⟩
      rw [isOwn, hconn, Option.isSome_some, Bool.and_true, Bool.and_eq_true]
      exact ⟨by simpa using hactive, by simpa [Option.isSome_iff_ne_none] using hid⟩

theorem asks_analogOutput {pl : Platform} {index : UInt16} {variation : ℤ} {value : Double} :
    Asks value (analogOutput pl index variation value) ↔ Sendable variation value := by
  have hint {t : IntType} : value.isFinite = true ∧ (pl.toInt t value).1 = value.toInt ↔
      FitsInt t value := by
    constructor
    · rintro ⟨hfinite, hval⟩
      exact ⟨hfinite, hval ▸ (pl.toInt t value).2.1, hval ▸ (pl.toInt t value).2.2⟩
    · intro h
      exact ⟨h.1, toInt_of_fits h⟩
  unfold analogOutput Sendable
  split_ifs with h1 h2 h4
  · subst h1
    simpa [Asks] using hint
  · subst h2
    simpa [Asks] using hint
  · simp [Asks, h4]
  · simp [Asks, h1, h2, FloatFormat.convert_isRounded]

theorem index_analogOutput (pl : Platform) (index : UInt16) (variation : ℤ) (value : Double) :
    (analogOutput pl index variation value).index = index := by
  unfold analogOutput
  split_ifs <;> rfl

theorem sentAsAsked_iff (env : Env) (cmd : Document) :
    SentAsAsked env cmd ↔ (isSetpoint env cmd = true → refusal env cmd = none →
      Sendable (variation env cmd) (commandValue cmd)) := by
  unfold SentAsAsked
  refine imp_congr_right fun hset => ?_
  have hgroup : group env cmd = groupAnalogOutputBlock := by
    simp only [isSetpoint, Bool.and_eq_true, decide_eq_true_eq] at hset
    exact hset.1
  cases hr : refusal env cmd with
  | some outcome =>
      refine ⟨fun _ h => (Option.some_ne_none outcome h).elim, fun _ hown => .inl ?_⟩
      obtain ⟨reason, rfl⟩ := refusal_some hown hr
      exact ⟨reason, by rw [executeCommand, hr]⟩
  | none =>
      obtain ⟨hown, haddr⟩ := refusal_none hr
      have hexec : executeCommand env cmd = .issued
          (analogOutput env.pl (toUInt16 (address env cmd)) (variation env cmd) (commandValue cmd))
          (getBool cmd "protocolSourceCommandUseSBO" false) := by
        rw [executeCommand, hr]
        simp only [hgroup]
        rfl
      rw [hexec]
      constructor
      · intro h _
        rcases h hown with ⟨reason, hcancelled⟩ | ⟨command, useSBO, hissued, hasks, -⟩
        · cases hcancelled
        · obtain ⟨rfl, -⟩ := Outcome.issued.inj hissued
          exact asks_analogOutput.mp hasks
      · intro h _
        refine .inr ⟨_, _, rfl, asks_analogOutput.mpr (h rfl), ?_⟩
        rw [index_analogOutput]
        exact toNat_toUInt16 haddr

-- A platform that keeps the low bits of what is out of range.
def lowBits : Platform :=
  { Iec60870.plainPlatform with
    outOfRange := fun t x =>
      ⟨t.min + (x.toInt - t.min) % (t.max - t.min + 1), by
        have hsize : 0 < t.max - t.min + 1 := by cases t <;> decide
        have hlow := Int.emod_nonneg (x.toInt - t.min) hsize.ne'
        have hhigh := Int.emod_lt_of_pos (x.toInt - t.min) hsize
        omega⟩ }

def oneOutstation : Env where
  pl := lowBits
  active := true
  now := 1700000000000000000
  connByNumber := fun n =>
    if n = 1 then some { hasSession := true, connected := true, commandsEnabled := true } else none

-- A setpoint for the analog output 3.
def setpoint (variation value : ℚ) : Document :=
  [("_id", .string "65a1"), ("protocolSourceConnectionNumber", .number (.fin 1)),
    ("protocolSourceCommonAddress", .number (.fin 41)),
    ("protocolSourceObjectAddress", .number (.fin 3)),
    ("protocolSourceASDU", .number (.fin variation)), ("value", .number (.fin value)),
    ("timeTag", .dateTime 1700000000000)]

-- A setpoint of 40000 goes out as -25536.
theorem wrapped_setpoint_sent :
    executeCommand oneOutstation (setpoint 2 40000) =
        .issued (.analogOutputInt16 3 ⟨-25536, by decide⟩) false ∧
      ¬SentAsAsked oneOutstation (setpoint 2 40000) := by
  have hsent : executeCommand oneOutstation (setpoint 2 40000) =
      .issued (.analogOutputInt16 3 ⟨-25536, by decide⟩) false := by decide
  refine ⟨hsent, fun h => ?_⟩
  rcases h (by decide) (by decide) with ⟨reason, hcancelled⟩ | ⟨_, _, hissued, hasks, -⟩
  · cases hsent.symm.trans hcancelled
  · obtain ⟨rfl, -⟩ := Outcome.issued.inj (hsent.symm.trans hissued)
    exact absurd hasks.2 (by decide)

end Claim

end JsonScada.Dnp3.Commands
