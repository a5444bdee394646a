import JsonScada.Dnp3.Writer

namespace JsonScada.Dnp3.Engine

open JsonScada.Library
open JsonScada.Processor (Document)

section State

-- A master session, from the library. It is there until its context is cancelled, and
-- may be connected for some time after that.
structure Session where
  conn : ℤ
  connected : Bool := false
  cancelled : Bool := false

-- What the engine keeps of a connection while it runs. The session is named by its place
-- in the list of all sessions.
structure Runtime where
  session : Option ℕ := none
  connected : Bool := false
  wasConnected : Bool := false

-- The connections that a callback of the redundancy controller has yet to go through.
inductive Callback where
  | startSessions (rest : List ℤ)
  | stopSessions (rest : List ℤ)

-- The tick of the link watch: the connections that it has yet to look at, and what it has
-- seen of one before it acts on it.
inductive LinkWatch where
  | between (rest : List ℤ)
  | seen (conn : ℤ) (now : Bool) (rest : List ℤ)

-- How far `executeCommand` has come.
inductive Execution where
  | idle
  | checkedActive (conn : ℤ)
  | gotSession (conn : ℤ) (session : ℕ)

-- What can be seen of the driver, in its order: the links, the values that are received,
-- what is done to realtimeData (a document inserted, the update for a value, the points of
-- a connection marked invalid), and the commands that go out.
inductive Event where
  | linkUp (conn : ℤ)
  | linkDown (conn : ℤ)
  | received (v : Dnp3Value)
  | created
  | written (v : Dnp3Value)
  | invalidated (conn : ℤ)
  | issued (conn : ℤ)
deriving DecidableEq

structure State where
  writer : Writer.State
  active : Bool
  callback : Callback
  runtime : ℤ → Runtime
  sessions : List Session
  watch : LinkWatch
  -- goroutines on their way: the connections to invalidate, and the sessions of commands
  invalidations : List ℤ
  execution : Execution
  commands : List ℕ
  trace : List Event

inductive Action where
  -- `setActive` of the redundancy controller, and its callbacks for one connection each
  | setActive (want : Bool)
  | startSession
  | stopSession
  -- the sessions
  | connect (session : ℕ)
  | disconnect (session : ℕ)
  | receive (session : ℕ) (v : Dnp3Value)
  -- the value writer
  | writer (a : Writer.Action)
  -- the link watch: its ticker, the reading of one session, and what follows from it
  | tick
  | look
  | act
  -- an UpdateMany that marks the points of a connection, and its success
  | invalidatePoints (conn : ℤ) (ok : Bool)
  -- the command watcher
  | executeCommand (conn : ℤ)
  | getSession
  -- `accepted` by the other checks of the command
  | dispatch (accepted : Bool)
  -- the command goes out, where its session can send
  | operate (session : ℕ)

end State

section Step

-- A value that is not skipped by the writer.
def writable (v : Dnp3Value) : Bool := !isSkipped v.value

-- The values whose updates a BulkWrite executes.
def writtenBy (batch : List Dnp3Value) (executed : List ℕ) : List Dnp3Value :=
  executed.filterMap fun i => (batch.filter writable)[i]?

-- What a step of the writer does to realtimeData.
def writerEvents (w : Writer.State) : Writer.Action → List Event
  | .insertMany reached =>
      match w.phase with
      | .planned _ inserts _ _ =>
          ((JsMongo.insertMany w.coll inserts reached).drop w.coll.length).map fun _ => .created
      | _ => []
  | .bulkWrite executed _ => (writtenBy w.phase.values executed).map .written
  | _ => []

-- Some session of the connection has a live link.
def linkOf (sessions : List Session) (conn : ℤ) : Bool :=
  sessions.any fun s => s.conn = conn && s.connected

def linkEvents (before after : List Session) (conn : ℤ) : List Event :=
  if linkOf before conn = linkOf after conn then []
  else if linkOf after conn then [.linkUp conn] else [.linkDown conn]

def setConnected (s : State) (i : ℕ) (session : Session) (now : Bool) : State :=
  let sessions := s.sessions.set i { session with connected := now }
  { s with sessions := sessions, trace := s.trace ++ linkEvents s.sessions sessions session.conn }

-- `Session`, and what it answers to `Connected`.
def sessionConnected (s : State) (conn : ℤ) : Bool :=
  ((s.runtime conn).session.bind fun i => s.sessions[i]?).any Session.connected

def cancel (sessions : List Session) (i : ℕ) : List Session :=
  sessions.modify i fun session => { session with cancelled := true }

variable (conns : List ℤ)

def step (s : State) : Action → Option State
  | .setActive want =>
      match s.callback with
      | .startSessions [] | .stopSessions [] =>
          if s.active = want then none
          else
            some { s with
              active := want
              callback := if want then .startSessions conns else .stopSessions conns }
      | _ => none
  | .startSession =>
      match s.callback with
      | .startSessions (c :: rest) =>
          if (s.runtime c).session.isSome then some { s with callback := .startSessions rest }
          else
            some { s with
              callback := .startSessions rest
              runtime := Function.update s.runtime c
                { s.runtime c with session := some s.sessions.length }
              sessions := s.sessions ++ [{ conn := c }] }
      | _ => none
  | .stopSession =>
      match s.callback with
      | .stopSessions (c :: rest) =>
          some { s with
            callback := .stopSessions rest
            runtime := Function.update s.runtime c
              { s.runtime c with session := none, connected := false }
            sessions := (s.runtime c).session.elim s.sessions (cancel s.sessions) }
      | _ => none
  | .connect i =>
      match s.sessions[i]? with
      | some session =>
          if session.cancelled || session.connected then none
          else some (setConnected s i session true)
      | none => none
  | .disconnect i =>
      match s.sessions[i]? with
      | some session => if session.connected then some (setConnected s i session false) else none
      | none => none
  | .receive i v =>
      match s.sessions[i]? with
      | some session =>
          if session.connected && session.conn = v.connNumber then
            some { s with
              writer := { s.writer with queue := s.writer.queue.push v }
              trace := s.trace ++ [.received v] }
          else none
      | none => none
  | .writer a =>
      match a with
      | .push _ => none
      | a =>
          (Writer.step s.writer a).map fun w =>
            { s with writer := w, trace := s.trace ++ writerEvents s.writer a }
  | .tick =>
      match s.watch with
      | .between [] => some { s with watch := .between conns }
      | _ => none
  | .look =>
      match s.watch with
      | .between (c :: rest) => some { s with watch := .seen c (sessionConnected s c) rest }
      | _ => none
  | .act =>
      match s.watch with
      | .seen c now rest =>
          some { s with
            watch := .between rest
            runtime := Function.update s.runtime c
              { s.runtime c with connected := now, wasConnected := now }
            invalidations :=
              if (s.runtime c).wasConnected && !now then c :: s.invalidations
              else s.invalidations }
      | _ => none
  | .invalidatePoints c ok =>
      if c ∈ s.invalidations then
        some { s with
          invalidations := s.invalidations.erase c
          trace := s.trace ++ if ok then [.invalidated c] else [] }
      else none
  | .executeCommand c =>
      match s.execution with
      | .idle =>
          if s.active && c ∈ conns then some { s with execution := .checkedActive c } else some s
      | _ => none
  | .getSession =>
      match s.execution with
      | .checkedActive c =>
          some { s with execution := (s.runtime c).session.elim .idle (.gotSession c) }
      | _ => none
  | .dispatch accepted =>
      match s.execution with
      | .gotSession c i =>
          some { s with
            execution := .idle
            commands := if (s.runtime c).connected && accepted then i :: s.commands
              else s.commands }
      | _ => none
  | .operate i =>
      if i ∈ s.commands then
        some { s with
          commands := s.commands.erase i
          trace := s.trace ++
            match s.sessions[i]? with
            | some session => if session.connected then [.issued session.conn] else []
            | none => [] }
      else none

-- The engine before the redundancy controller has made its node active.
def start (w : Writer.State) : State where
  writer := w
  active := false
  callback := .stopSessions []
  runtime := fun _ => {}
  sessions := []
  watch := .between []
  invalidations := []
  execution := .idle
  commands := []
  trace := []

end Step

end JsonScada.Dnp3.Engine
