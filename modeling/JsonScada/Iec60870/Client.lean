import JsonScada.Iec60870.Convert
import JsonScada.JsMongo

namespace JsonScada.Iec60870.Client

open JsonScada.Library
open JsonScada.JsMongo
open JsonScada.Processor (Document Value rawOrNil)

-- One protocol connection. That of IEC 103 sends its commands by itself.
structure Conn where
  protocolConnectionNumber : Double
  commandsEnabled : Bool := true
  rawCmd : Bool := false

-- The execute twin of the last select-before-operate command of a connection.
structure LastSelected where
  obj : InfoObject
  ca : ℤ
deriving DecidableEq

abbrev Selections := ℕ → Option LastSelected

def setLastSelected (s : Selections) (conn : ℕ) (obj : InfoObject) (ca : ℤ) : Selections :=
  Function.update s conn (some { obj := obj, ca := ca })

-- The stored twin, when the confirmed select has its object address.
def selectedFor (s : Selections) (conn : ℕ) (ioa : ℤ) : Option InfoObject :=
  match s conn with
  | some last => if last.obj.ioa = ioa then some last.obj else none
  | none => none

-- What the client finds when something happens: the clock, the connections that are up,
-- and whether a command can be sent.
structure Env where
  pl : Platform
  now : ℤ
  isConnected : ℕ → Bool
  sendOk : Bool

inductive Effect where
  -- an object handed over for sending with the cause Activation
  | send (conn : ℕ) (ca : UInt16) (obj : InfoObject)
  | rawCmd (conn : ℕ) (asduNum objAddr commonAddr : ℤ) (value : Double) (duration : ℤ)
  | setResult (id : Value) (field : String) (val : Value)
  | ack (ack : IecCmdAck)

section Commands

variable (env : Env) (conns : List Conn)

-- The zero time of Go, in milliseconds.
def getTime (pl : Platform) (doc : Document) (key : String) : ℤ :=
  match doc.lookup key with
  | some (.dateTime ms) => ms
  | some (.number x) => (pl.decodeTime (.number x)).getD Processor.zeroTime
  | _ => Processor.zeroTime

def defaultExpiry : ℤ := 10000000000

def isExpired (doc : Document) : Bool :=
  defaultExpiry ≤ env.now - getTime env.pl doc "timeTag" * 1000000

-- The types that are sent in control direction.
def isControlType (typeId : ℕ) : Bool :=
  (45 ≤ typeId && typeId ≤ 51) || (58 ≤ typeId && typeId ≤ 64) ||
    typeId ∈ [100, 101, 102, 103, 105, 107, 110, 111, 112, 113]

-- `asdu.CommonAddr(ca)`
def toCommonAddr (ca : ℤ) : UInt16 := UInt16.ofNat (ca % 2 ^ 16).toNat

-- The object goes out, unless its type is none of a command.
def sendCommand (conn : ℕ) (ca : ℤ) (obj : InfoObject) : List Effect :=
  if isControlType obj.typeId then [.send conn (toCommonAddr ca) obj] else []

def findConn (connNumber : ℤ) : Option ℕ :=
  conns.findIdx? fun c => (env.pl.toInt .int c.protocolConnectionNumber).1 = connNumber

-- A command that passed the checks: the object to send, and its execute twin when it is a
-- select that is to be confirmed first.
structure Issue where
  conn : ℕ
  obj : InfoObject
  exec : Option InfoObject
  ca : ℤ
deriving DecidableEq

inductive Outcome where
  | connectionNotFound
  | cancelled (reason : String)
  | raw (conn : ℕ) (asduNum objAddr commonAddr : ℤ) (value : Double) (duration : ℤ)
  | issued (issue : Issue)
deriving DecidableEq

-- The object of a command, to select or to execute.
def commandObj (doc : Document) (sbo : Bool) : Option InfoObject :=
  let objAddr : ℤ := (getU32 doc "protocolSourceObjectAddress" 0).toNat
  let asduNum : ℤ := (getU32 doc "protocolSourceASDU" 0).toNat
  let duration := (env.pl.toInt .int (getDouble doc "protocolSourceCommandDuration" (.fin 0))).1
  let value := getDouble doc "value" (.fin 0)
  buildInfoObj env.pl env.now asduNum objAddr value sbo duration {} none (.fin 1) (.fin 0) false

def commandOutcome (doc : Document) : Outcome :=
  let connNumber := (env.pl.toInt .int (getDouble doc "protocolSourceConnectionNumber" (.fin 0))).1
  let objAddr : ℤ := (getU32 doc "protocolSourceObjectAddress" 0).toNat
  let commonAddr : ℤ := (getU32 doc "protocolSourceCommonAddress" 0).toNat
  let asduNum : ℤ := (getU32 doc "protocolSourceASDU" 0).toNat
  let duration := (env.pl.toInt .int (getDouble doc "protocolSourceCommandDuration" (.fin 0))).1
  let useSbo := getBool doc "protocolSourceCommandUseSBO" false
  let value := getDouble doc "value" (.fin 0)
  match findConn env conns connNumber with
  | none => .connectionNotFound
  | some i =>
      let srv := conns.getD i { protocolConnectionNumber := .fin 0 }
      if !srv.commandsEnabled then .cancelled "commands disabled"
      else if !env.isConnected i then .cancelled "not connected"
      else if srv.rawCmd then
        if isExpired env doc then .cancelled "expired"
        else .raw i asduNum objAddr commonAddr value duration
      else
        match commandObj env doc useSbo with
        | none => .cancelled "asdu not implemented"
        | some sc =>
            if isExpired env doc then .cancelled "expired"
            else
              let exec := if useSbo then commandObj env doc false else none
              .issued { conn := i, obj := sc, exec := exec, ca := commonAddr }

-- What is recorded in the document of a command after an attempt to send it.
def sendResult (doc : Document) (ok : Bool) : Effect :=
  if ok then .setResult (rawOrNil (doc.lookup "_id")) "delivered" (.bool true)
  else .setResult (rawOrNil (doc.lookup "_id")) "cancelReason" (.string "not connected")

def processCommand (s : Selections) (doc : Document) : Selections × List Effect :=
  match commandOutcome env conns doc with
  | .connectionNotFound => (s, [])
  | .cancelled reason =>
      (s, [.setResult (rawOrNil (doc.lookup "_id")) "cancelReason" (.string reason)])
  | .raw i asduNum objAddr commonAddr value duration =>
      (s, [.rawCmd i asduNum objAddr commonAddr value duration, sendResult doc env.sendOk])
  | .issued issue =>
      let s :=
        match issue.exec with
        | some exec => setLastSelected s issue.conn exec issue.ca
        | none => s
      (s, sendCommand issue.conn issue.ca issue.obj ++
        [sendResult doc (isControlType issue.obj.typeId && env.sendOk)])

end Commands

section Received

-- A received confirmation: the execute twin follows a select that is confirmed.
def asduHandler (env : Env) (conns : List Conn) (s : Selections) (conn : ℕ) (pack : CommandAsdu) :
    List Effect :=
  let srv := conns.getD conn { protocolConnectionNumber := .fin 0 }
  let connNumber := (env.pl.toInt .int srv.protocolConnectionNumber).1
  (pack.acks connNumber env.now).map .ack ++
    pack.selects.flatMap fun sel =>
      match selectedFor s conn sel.ioa with
      | some exec => sendCommand conn sel.ca exec
      | none => []

-- A command taken from the queue, or a confirmation received by a connection.
inductive Action where
  | command (doc : Document)
  | confirmation (conn : ℕ) (pack : CommandAsdu)

def step (env : Env) (conns : List Conn) (s : Selections) : Action → Selections × List Effect
  | .command doc => processCommand env conns s doc
  | .confirmation conn pack => (s, asduHandler env conns s conn pack)

end Received

end JsonScada.Iec60870.Client
