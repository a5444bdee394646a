import JsonScada.Library.Lease

namespace JsonScada.Redundancy

open JsonScada.Library

-- Milliseconds since 1970.
abbrev Time := Int

-- Go's zero time, 0001-01-01T00:00:00Z.
def zeroTime : Time := -62135596800000

-- The manager that the drivers share.
namespace Driver

def keepAliveCountLimit : Nat := 4

-- Counts consecutive readings of the active node's keep-alive that came back
-- unchanged.
structure StallCounter where
  last : Time := zeroTime
  count : Nat := 0
  deriving DecidableEq, Repr

def StallCounter.observe (s : StallCounter) (keepAlive : Time) : StallCounter × Bool :=
  let count := if s.last = keepAlive then s.count + 1 else 0
  ({ last := keepAlive, count := count }, decide (keepAliveCountLimit < count))

def StallCounter.reset (s : StallCounter) : StallCounter := { s with count := 0 }

-- What arbitration reads of the instance document.
structure DriverInstance where
  nodeNames : List String
  activeNodeName : String
  activeNodeKeepAliveTimeTag : Time
  deriving DecidableEq, Repr

-- An empty list means any node.
def nodeAllowed (inst : DriverInstance) (nodeName : String) : Bool :=
  inst.nodeNames.isEmpty || inst.nodeNames.contains nodeName

structure Controller where
  nodeName : String
  -- what to do when the instance document does not exist at all
  missingInstanceActive : Bool
  -- whether a callback replaces the exit of a node that is not listed
  onNodeNotAllowed : Bool
  deriving DecidableEq, Repr

structure State where
  active : Bool := false
  stalls : StallCounter := {}
  deriving DecidableEq, Repr

-- What a tick finds: `FindOne` returns the document, finds none, or fails.
inductive Reading where
  | instance (inst : DriverInstance)
  | noDocuments
  | error
  deriving DecidableEq, Repr

def noInstance (c : Controller) (s : State) : State :=
  if c.missingInstanceActive then { s with active := true }
  else if s.active then { active := false, stalls := s.stalls.reset }
  else s

-- The decision on a document that allows this node.
def arbitrate (c : Controller) (s : State) (inst : DriverInstance) : State :=
  if inst.activeNodeName = c.nodeName then { active := true, stalls := s.stalls.reset }
  else
    let s := if s.active then { active := false, stalls := s.stalls.reset } else s
    let (stalls, takeOver) := s.stalls.observe inst.activeNodeKeepAliveTimeTag
    { active := s.active || takeOver, stalls := stalls }

inductive Event where
  -- the ping before a reading fails: `loop` returns and `Run` connects again
  | pingFailed
  | tick (r : Reading)
  deriving DecidableEq, Repr

-- One turn of `loop`: the new state and whether the keep-alive is written, or
-- `none` where the process ends. A new connection starts with a new stall counter,
-- the active flag stays. Every error of `FindOne` is handled as a document that
-- does not exist.
def step (c : Controller) (s : State) : Event → Option (State × Bool)
  | .pingFailed => some ({ s with stalls := {} }, false)
  | .tick .noDocuments => some (noInstance c s, false)
  | .tick .error => some (noInstance c s, false)
  | .tick (.instance inst) =>
      if nodeAllowed inst c.nodeName then
        let s := arbitrate c s inst
        some (s, s.active)
      else if c.onNodeNotAllowed then some ({ s with stalls := {} }, false)
      else none

def run (c : Controller) (s : State) (es : List Event) : Option State :=
  es.foldlM (fun s e => (step c s e).map Prod.fst) s

end Driver

-- The manager of the data processor.
namespace Process

def countKeepAliveUpdatesLimit : Nat := 4

-- The keep-alive is kept as the text of its ISO date, which is different for
-- different milliseconds: `none` is the empty text.
structure RedundancyState where
  lastActiveNodeKeepAliveTimeTag : Option Time := none
  countKeepAliveNotUpdated : Nat := 0
  active : Bool := false
  deriving DecidableEq, Repr

structure ProcessInstance where
  enabled : Bool
  nodeNames : List String
  activeNodeName : String
  activeNodeKeepAliveTimeTag : Option Time
  deriving DecidableEq, Repr

def nodeAllowed (inst : ProcessInstance) (nodeName : String) : Bool :=
  inst.nodeNames.isEmpty || inst.nodeNames.contains nodeName

def arbitrate (nodeName : String) (st : RedundancyState) (inst : ProcessInstance) :
    RedundancyState :=
  let instKeepAlive := inst.activeNodeKeepAliveTimeTag
  if inst.activeNodeName = nodeName then { st with countKeepAliveNotUpdated := 0, active := true }
  else
    let count := if st.active then 0 else st.countKeepAliveNotUpdated
    let count := if st.lastActiveNodeKeepAliveTimeTag = instKeepAlive then count + 1 else 0
    let takeOver := decide (countKeepAliveUpdatesLimit < count)
    { lastActiveNodeKeepAliveTimeTag := instKeepAlive
      countKeepAliveNotUpdated := if takeOver then 0 else count
      active := takeOver }

inductive Reading where
  | instance (inst : ProcessInstance)
  | noDocuments
  | error
  deriving DecidableEq, Repr

-- What a call writes: nothing, its name and the time, or a new document with both.
inductive Write where
  | none
  | keepAlive
  | insert
  deriving DecidableEq, Repr

-- One call, `none` where the process exits.
def processRedundancy (nodeName : String) (st : RedundancyState) :
    Reading → Option (RedundancyState × Write)
  | .noDocuments => some ({ st with active := true }, .insert)
  | .error => some (st, .none)
  | .instance inst =>
      if !inst.enabled then none
      else if nodeAllowed inst nodeName then
        let st := arbitrate nodeName st inst
        some (st, if st.active then .keepAlive else .none)
      else none

-- Without a connection the ticker only clears the flag.
def tick (nodeName : String) (st : RedundancyState) (connected : Bool) (r : Reading) :
    Option (RedundancyState × Write) :=
  if connected then processRedundancy nodeName st r else some ({ st with active := false }, .none)

end Process

-- Either manager is a rule for sharing the instance document. The writes never
-- touch `nodeNames`; a node it does not allow has left.
section Rules

open Driver in
def driverRule (missingInstanceActive onNodeNotAllowed : Bool) (nodeNames : List String) :
    Lease.Rule String Time State where
  limit := keepAliveCountLimit
  active s := s.active
  stall s := s.stalls.count
  last s := s.stalls.last
  decide n s d := arbitrate ⟨n, missingInstanceActive, onNodeNotAllowed⟩ s ⟨nodeNames, d.name, d.stamp⟩
  own n s t := by simp [arbitrate]
  advanced n s d hname hstamp := by
    have hne : s.stalls.last ≠ d.stamp := fun h => hstamp h.symm
    cases hs : s.active <;>
      simp [arbitrate, hname, hs, StallCounter.observe, StallCounter.reset, hne,
        keepAliveCountLimit]
  stalled n s d hname hstamp hs := by
    simp only [arbitrate, hname, if_false, hs, StallCounter.observe, hstamp, eq_self, if_true,
      true_and, Bool.false_eq_true, Bool.false_or, decide_eq_false_iff_not]
    refine ⟨Nat.le_refl _, ?_⟩
    intro h
    omega

open Process in
def processRule (enabled : Bool) (nodeNames : List String) :
    Lease.Rule String (Option Time) RedundancyState where
  limit := countKeepAliveUpdatesLimit
  active st := st.active
  stall st := st.countKeepAliveNotUpdated
  last st := st.lastActiveNodeKeepAliveTimeTag
  decide n st d := arbitrate n st ⟨enabled, nodeNames, d.name, d.stamp⟩
  own n st t := by simp [arbitrate]
  advanced n st d hname hstamp := by
    have hne : st.lastActiveNodeKeepAliveTimeTag ≠ d.stamp := fun h => hstamp h.symm
    simp [arbitrate, hname, hne, countKeepAliveUpdatesLimit]
  stalled n st d hname hstamp hs := by
    simp only [arbitrate, hname, if_false, hs, hstamp, eq_self, if_true, true_and,
      Bool.false_eq_true, decide_eq_false_iff_not]
    refine ⟨?_, ?_⟩
    · split_ifs <;> omega
    · intro h
      omega

end Rules

end JsonScada.Redundancy
