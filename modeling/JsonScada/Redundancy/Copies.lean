import JsonScada.Iccp.Server
import JsonScada.Library.Stall
import JsonScada.Redundancy

-- The takeover rules of the programs that have a copy of their own.
namespace JsonScada.Redundancy

open JsonScada.Library

-- The calculations process.
namespace Calculations

def countKeepAliveUpdatesLimit : Nat := 4

structure State where
  isActive : Bool := false
  countKeepAliveUpdates : Nat := 0
  lastActiveNodeKeepAliveTimeTag : Time := zeroTime
  logLevel : Int := 1
  periodOfCalculation : Double := .fin 2
  deriving DecidableEq

structure ProcessInstance where
  enabled : Bool
  logLevel : Int
  nodeNames : List String
  activeNodeName : String
  activeNodeKeepAliveTimeTag : Time
  periodOfCalculation : Double
  deriving DecidableEq

def nodeAllowed (inst : ProcessInstance) (nodeName : String) : Bool :=
  inst.nodeNames.isEmpty || inst.nodeNames.contains nodeName

def arbitrate (nodeName : String) (s : State) (inst : ProcessInstance) : State :=
  if inst.activeNodeName = nodeName then { s with isActive := true }
  else
    let count := if s.isActive then 0 else s.countKeepAliveUpdates
    let count :=
      if s.lastActiveNodeKeepAliveTimeTag = inst.activeNodeKeepAliveTimeTag then count + 1 else count
    { s with
      isActive := decide (countKeepAliveUpdatesLimit < count)
      countKeepAliveUpdates := count
      lastActiveNodeKeepAliveTimeTag := inst.activeNodeKeepAliveTimeTag }

-- Larger settings of the instance are taken over.
def settings (s : State) (inst : ProcessInstance) : State :=
  { s with
    logLevel := if s.logLevel < inst.logLevel then inst.logLevel else s.logLevel
    periodOfCalculation :=
      if Double.lt s.periodOfCalculation inst.periodOfCalculation then inst.periodOfCalculation
      else s.periodOfCalculation }

inductive Reading where
  | disconnected
  | instance (inst : ProcessInstance)
  | noDocuments
  | error
  deriving DecidableEq

-- What a turn writes: nothing, its name and the time, or a new document with both.
inductive Write where
  | none
  | keepAlive
  | insert
  deriving DecidableEq

-- One turn, `none` where the process exits. The insert of a new document may fail.
def processRedundancy (nodeName : String) (inserted : Bool) (s : State) :
    Reading → Option (State × Write)
  | .disconnected | .error => some (s, .none)
  | .noDocuments => if inserted then some (s, .insert) else none
  | .instance inst =>
      if !inst.enabled then none
      else if nodeAllowed inst nodeName then
        let s := arbitrate nodeName (settings s inst) inst
        some (s, if s.isActive then .keepAlive else .none)
      else none

end Calculations

-- The ICCP drivers, the server and the client alike.
namespace Iccp

open JsonScada.Iccp.Server (trimSpace)

def countKeepAliveUpdatesLimit : Nat := 4

structure State where
  isActive : Bool := false
  countKeepAliveUpdates : Nat := 0
  lastActiveNodeKeepAliveTimeTag : Time := zeroTime
  deriving DecidableEq

structure DriverInstance where
  nodeNames : List String
  activeNodeName : String
  activeNodeKeepAliveTimeTag : Time
  deriving DecidableEq

def contains (a : List String) (str : String) : Bool := a.any fun n => trimSpace str = trimSpace n

def arbitrate (nodeName : String) (s : State) (inst : DriverInstance) : State :=
  if inst.activeNodeName = nodeName then { s with isActive := true }
  else
    let count := if s.isActive then 0 else s.countKeepAliveUpdates
    let count :=
      if s.lastActiveNodeKeepAliveTimeTag = inst.activeNodeKeepAliveTimeTag then count + 1 else count
    { isActive := decide (countKeepAliveUpdatesLimit < count)
      countKeepAliveUpdates := count
      lastActiveNodeKeepAliveTimeTag := inst.activeNodeKeepAliveTimeTag }

-- One call: the new state and whether the keep-alive is written, `none` where the process ends.
def processRedundancy (nodeName : String) (s : State) :
    Option DriverInstance → Option (State × Bool)
  | none => some (s, false)
  | some inst =>
      if !inst.nodeNames.isEmpty && !contains inst.nodeNames nodeName then none
      else
        let s := arbitrate nodeName s inst
        some (s, s.isActive)

end Iccp

-- Each program as a standby that reads the keep-alives of another node. Becoming active ends the
-- count, as the next reading of another name starts with none.
section Standbys

variable (nodeName : String) (other : { n : String // n ≠ nodeName }) (nodeNames : List String)

def driverStandby (missingInstanceActive onNodeNotAllowed : Bool) :
    Stall.Standby Time Driver.State where
  limit := Driver.keepAliveCountLimit
  active s := s.active
  last s := s.stalls.last
  count s := if s.active then 0 else s.stalls.count
  read s t :=
    Driver.arbitrate ⟨nodeName, missingInstanceActive, onNodeNotAllowed⟩ s ⟨nodeNames, other, t⟩

def processStandby (enabled : Bool) : Stall.Standby (Option Time) Process.RedundancyState where
  limit := Process.countKeepAliveUpdatesLimit
  active st := st.active
  last st := st.lastActiveNodeKeepAliveTimeTag
  count st := if st.active then 0 else st.countKeepAliveNotUpdated
  read st t := Process.arbitrate nodeName st ⟨enabled, nodeNames, other, t⟩

def calculationsStandby (enabled : Bool) (logLevel : Int) (periodOfCalculation : Double) :
    Stall.Standby Time Calculations.State where
  limit := Calculations.countKeepAliveUpdatesLimit
  active s := s.isActive
  last s := s.lastActiveNodeKeepAliveTimeTag
  count s := if s.isActive then 0 else s.countKeepAliveUpdates
  read s t := Calculations.arbitrate nodeName s
    ⟨enabled, logLevel, nodeNames, other, t, periodOfCalculation⟩

def iccpStandby : Stall.Standby Time Iccp.State where
  limit := Iccp.countKeepAliveUpdatesLimit
  active s := s.isActive
  last s := s.lastActiveNodeKeepAliveTimeTag
  count s := if s.isActive then 0 else s.countKeepAliveUpdates
  read s t := Iccp.arbitrate nodeName s ⟨nodeNames, other, t⟩

variable {nodeName other nodeNames}

-- What the programs make of a keep-alive of another node.
theorem driverStandby_read {missingInstanceActive onNodeNotAllowed : Bool} (s : Driver.State)
    (t : Time) :
    let m := driverStandby nodeName other nodeNames missingInstanceActive onNodeNotAllowed
    let n := if m.last s = t then m.count s + 1 else 0
    m.read s t = { active := decide (m.limit < n), stalls := ⟨t, n⟩ } := by
  have hother : other.val ≠ nodeName := other.property
  cases hactive : s.active <;>
    simp [driverStandby, Driver.arbitrate, hother, hactive, Driver.StallCounter.observe,
      Driver.StallCounter.reset]

theorem processStandby_read {enabled : Bool} (st : Process.RedundancyState) (t : Option Time) :
    let m := processStandby nodeName other nodeNames enabled
    let n := if m.last st = t then m.count st + 1 else 0
    m.read st t = { lastActiveNodeKeepAliveTimeTag := t
                    countKeepAliveNotUpdated := if decide (m.limit < n) then 0 else n
                    active := decide (m.limit < n) } := by
  have hother : other.val ≠ nodeName := other.property
  simp only [processStandby, Process.arbitrate, hother, if_false]

theorem calculationsStandby_read {enabled : Bool} {logLevel : Int} {periodOfCalculation : Double}
    (s : Calculations.State) (t : Time) :
    let m := calculationsStandby nodeName other nodeNames enabled logLevel periodOfCalculation
    let n := if m.last s = t then m.count s + 1 else m.count s
    m.read s t = { s with isActive := decide (m.limit < n)
                          countKeepAliveUpdates := n
                          lastActiveNodeKeepAliveTimeTag := t } := by
  have hother : other.val ≠ nodeName := other.property
  simp only [calculationsStandby, Calculations.arbitrate, hother, if_false]

theorem iccpStandby_read (s : Iccp.State) (t : Time) :
    let m := iccpStandby nodeName other nodeNames
    let n := if m.last s = t then m.count s + 1 else m.count s
    m.read s t = { isActive := decide (m.limit < n)
                   countKeepAliveUpdates := n
                   lastActiveNodeKeepAliveTimeTag := t } := by
  have hother : other.val ≠ nodeName := other.property
  simp only [iccpStandby, Iccp.arbitrate, hother, if_false]

end Standbys

section Rules

variable {τ σ : Type*} [DecidableEq τ] {m : Stall.Standby τ σ}

-- A claim ends the count.
theorem claimed_le (claimed : Bool) (n : ℕ) : (if claimed then 0 else n) ≤ n := by
  cases claimed
  · exact Nat.le_refl n
  · exact Nat.zero_le n

-- A program that counts from 0 after each new time.
theorem restarts_of_read (hlast : ∀ s t, m.last (m.read s t) = t)
    (hactive : ∀ s t, m.active (m.read s t) =
      decide (m.limit < if m.last s = t then m.count s + 1 else 0))
    (hcount : ∀ s t, m.count (m.read s t) ≤ if m.last s = t then m.count s + 1 else 0) :
    m.Restarts := by
  constructor
  case last => exact hlast
  case count =>
    intro s t
    have hle := hcount s t
    by_cases ht : m.last s = t
    · rw [if_pos ht] at hle
      rwa [if_pos ht.symm]
    · rw [if_neg ht] at hle
      rwa [if_neg (Ne.symm ht)]
  case claim =>
    intro s t hclaim
    rw [hactive, decide_eq_true_eq] at hclaim
    by_cases ht : m.last s = t
    · rw [if_pos ht] at hclaim
      exact ⟨ht.symm, Nat.le_of_lt_succ hclaim⟩
    · rw [if_neg ht] at hclaim
      exact absurd hclaim (Nat.not_lt_zero _)

-- A program that goes on counting after a new time.
theorem accumulates_of_read (hlast : ∀ s t, m.last (m.read s t) = t)
    (hactive : ∀ s t, m.active (m.read s t) =
      decide (m.limit < if m.last s = t then m.count s + 1 else m.count s))
    (hcount : ∀ s t, m.count (m.read s t) = if m.active (m.read s t) then 0
      else if m.last s = t then m.count s + 1 else m.count s) :
    m.Accumulates := by
  have hclaim (s : σ) (t : τ) (hle : m.count s ≤ m.limit) :
      m.active (m.read s t) = true ↔ t = m.last s ∧ m.count s = m.limit := by
    rw [hactive, decide_eq_true_eq]
    by_cases ht : m.last s = t
    · rw [if_pos ht]
      constructor
      · exact fun hlt => ⟨ht.symm, by omega⟩
      · rintro ⟨-, heq⟩
        omega
    · rw [if_neg ht]
      constructor
      · exact fun hlt => absurd hlt (by omega)
      · rintro ⟨heq, -⟩
        exact absurd heq.symm ht
  constructor
  case last => exact hlast
  case claim => exact hclaim
  case count =>
    intro s t hle
    rw [hcount]
    by_cases ht : m.last s = t
    · by_cases hlimit : m.count s = m.limit
      · rw [if_pos ((hclaim s t hle).mpr ⟨ht.symm, hlimit⟩), if_pos ht.symm, if_pos hlimit]
      · rw [if_neg fun h => hlimit ((hclaim s t hle).mp h).2, if_pos ht, if_pos ht.symm,
          if_neg hlimit]
    · rw [if_neg fun h => ht ((hclaim s t hle).mp h).1.symm, if_neg ht, if_neg (Ne.symm ht)]

end Rules

section Copies

variable {nodeName : String} {other : { n : String // n ≠ nodeName }} {nodeNames : List String}

theorem driverStandby_restarts {missingInstanceActive onNodeNotAllowed : Bool} :
    (driverStandby nodeName other nodeNames missingInstanceActive onNodeNotAllowed).Restarts := by
  apply restarts_of_read
  · intro s t
    rw [driverStandby_read]
    rfl
  · intro s t
    rw [driverStandby_read]
    rfl
  · intro s t
    rw [driverStandby_read]
    exact claimed_le _ _

theorem processStandby_restarts {enabled : Bool} :
    (processStandby nodeName other nodeNames enabled).Restarts := by
  apply restarts_of_read
  · intro s t
    rw [processStandby_read]
    rfl
  · intro s t
    rw [processStandby_read]
    rfl
  · intro s t
    rw [processStandby_read]
    exact (claimed_le _ _).trans (claimed_le _ _)

theorem calculationsStandby_accumulates {enabled : Bool} {logLevel : Int} {period : Double} :
    (calculationsStandby nodeName other nodeNames enabled logLevel period).Accumulates := by
  apply accumulates_of_read
  · intro s t
    rw [calculationsStandby_read]
    rfl
  · intro s t
    rw [calculationsStandby_read]
    rfl
  · intro s t
    rw [calculationsStandby_read]
    rfl

theorem iccpStandby_accumulates : (iccpStandby nodeName other nodeNames).Accumulates := by
  apply accumulates_of_read
  · intro s t
    rw [iccpStandby_read]
    rfl
  · intro s t
    rw [iccpStandby_read]
    rfl
  · intro s t
    rw [iccpStandby_read]
    rfl

end Copies

-- The shared manager and the data processor take over on a stall only. The calculations process and
-- the ICCP drivers do so exactly as long as the unchanged readings are grouped.
theorem takeovers_on_stall (nodeName : String) (other : { n : String // n ≠ nodeName })
    (nodeNames : List String) :
    (∀ missing notAllowed,
      let m := driverStandby nodeName other nodeNames missing notAllowed
      ∀ (s : m.Start) ts, m.ClaimsOnStall s.val ts) ∧
    (∀ enabled,
      let m := processStandby nodeName other nodeNames enabled
      ∀ (s : m.Start) ts, m.ClaimsOnStall s.val ts) ∧
    (∀ enabled logLevel period,
      let m := calculationsStandby nodeName other nodeNames enabled logLevel period
      ∀ (s : m.Start) ts, m.ClaimsOnStall s.val ts ↔ Stall.Grouped m.limit (m.last s.val) ts) ∧
    (let m := iccpStandby nodeName other nodeNames
      ∀ (s : m.Start) ts, m.ClaimsOnStall s.val ts ↔ Stall.Grouped m.limit (m.last s.val) ts) :=
  ⟨fun _ _ s _ => Stall.claimsOnStall_of_restarts driverStandby_restarts s.property,
    fun _ s _ => Stall.claimsOnStall_of_restarts processStandby_restarts s.property,
    fun _ _ _ s _ => Stall.claimsOnStall_iff_grouped calculationsStandby_accumulates s.property,
    fun s _ => Stall.claimsOnStall_iff_grouped iccpStandby_accumulates s.property⟩

-- A node that renews its time at every other reading of the calculations process is displaced.
theorem advancing_node_displaced :
    let m := calculationsStandby "B" ⟨"A", by decide⟩ [] true 1 (.fin 2)
    ¬∀ ts, m.ClaimsOnStall {} ts := by
  intro m hclaims
  have hstall := hclaims [1, 1, 2, 2, 3, 3, 4, 4, 5, 5] _ List.prefix_rfl (by decide) (by decide)
  exact absurd hstall (by unfold Stall.Stalled; decide)

end JsonScada.Redundancy
