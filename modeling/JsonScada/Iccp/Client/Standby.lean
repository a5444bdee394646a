import JsonScada.Iccp.Client.Coverage
import JsonScada.Library.Run
import JsonScada.Redundancy

-- The ICCP client as one node of a pair: the redundancy ticks, the connections with their polls
-- and reports, and the writer.
namespace JsonScada.Iccp.Client

open JsonScada.Library

structure Instance where
  nodeNames : List String
  activeNodeName : String
  activeNodeKeepAliveTimeTag : Redundancy.Time

def countKeepAliveUpdatesLimit : ℕ := 4

structure Activity where
  isActive : Bool := false
  countKeepAliveUpdates : ℕ := 0
  lastActiveNodeKeepAliveTimeTag : Redundancy.Time := Redundancy.zeroTime
  deriving DecidableEq

-- The decision of `processRedundancy` on the document of the instance: none where the driver
-- exits.
def processRedundancy (nodeName : String) (s : Activity) (inst : Instance) : Option Activity :=
  if inst.nodeNames ≠ [] ∧ Server.contains inst.nodeNames nodeName = false then none
  else if inst.activeNodeName = nodeName then some { s with isActive := true }
  else
    let count := if s.isActive then 0 else s.countKeepAliveUpdates
    let count :=
      if s.lastActiveNodeKeepAliveTimeTag = inst.activeNodeKeepAliveTimeTag then count + 1 else count
    some {
      isActive := decide (count > countKeepAliveUpdatesLimit)
      countKeepAliveUpdates := count
      lastActiveNodeKeepAliveTimeTag := inst.activeNodeKeepAliveTimeTag }

-- Where `runICCPConnection` stands.
inductive Phase where
  | waiting
  | connecting
  | polling (left : List (List TagMapping))
  | looping

def Phase.idle : Phase → Bool
  | .waiting | .looping => true
  | .connecting | .polling _ => false

def Phase.poll : List (List TagMapping) → Phase
  | [] => .looping
  | left => .polling left

structure Link where
  conn : Connection
  mappings : List TagMapping := []
  phase : Phase := .waiting
  setup : Setup

structure Driver where
  activity : Activity := {}
  links : List Link
  dataChan : List DataUpdate := []
  batch : List DataUpdate := []
  -- while a tick has made the node inactive: how many values are left that were queued before it
  queuedBefore : Option ℕ := none

inductive LinkEvent where
  -- the top of the loop, with the tags that are read and the peer that is connected to
  | begin (mappings : List TagMapping) (peer : Peer)
  -- the connection or the list of the domains fails
  | abandon
  | subscribe (a : DomainAnswers)
  | ready
  | chunk (a : Option Answer)
  | pollTick (identity : Bool)
  | report (full : Bool) (v : ReportValue)

inductive Occurrence where
  -- none: the document cannot be read
  | tick (reading : Option Instance)
  | link (i : ℕ) (e : LinkEvent)
  | take
  -- the writes that the server executes of the batch
  | flush (executed : List DataUpdate)

def Driver.setActivity (s : Driver) (activity : Activity) : Driver :=
  { s with
    activity := activity
    queuedBefore :=
      if activity.isActive then none
      else if s.activity.isActive then some (s.batch.length + s.dataChan.length)
      else s.queuedBefore }

-- What becomes of a connection, and the updates that it queues.
def stepLink (pl : Platform) (isActive : Bool) (l : Link) : LinkEvent → Option (Link × List DataUpdate)
  | .begin mappings peer =>
      match l.phase with
      | .waiting =>
          if isActive = false ∨ mappings = [] then some (l, [])
          else some ({ l with
            mappings := mappings, phase := .connecting, setup := { peer := peer } }, [])
      | _ => none
  | .abandon =>
      match l.phase with
      | .connecting => some ({ l with phase := .waiting, setup := { l.setup with subs := [] } }, [])
      | _ => none
  | .subscribe a =>
      match l.phase with
      | .connecting => some ({ l with setup := subscribe pl l.mappings l.setup a }, [])
      | _ => none
  | .ready =>
      match l.phase with
      | .connecting => some ({ l with phase := .poll (pollRequests l.mappings []) }, [])
      | _ => none
  | .chunk a =>
      match l.phase, a with
      | .polling (chunk :: left), some a =>
          some ({ l with phase := .poll left }, send a.full (chunkUpdates pl l.conn chunk a))
      | .polling (_ :: _), none => some ({ l with phase := .looping }, [])
      | _, _ => none
  | .pollTick identity =>
      match l.phase with
      | .looping =>
          if isActive = false then some (l, [])
          else if identity then
            some ({ l with
              phase := .poll (pollRequests l.mappings (coveredDomains l.setup.subs)) }, [])
          else some ({ l with phase := .waiting, setup := { l.setup with subs := [] } }, [])
      | _ => none
  | .report full v =>
      if l.setup.subs = [] then none else some (l, reportValue pl l.conn l.mappings full v)

def Driver.step (pl : Platform) (nodeName : String) (s : Driver) : Occurrence → Option Driver
  | .tick none => some s
  | .tick (some inst) => (processRedundancy nodeName s.activity inst).map s.setActivity
  | .link i e =>
      (s.links[i]?.bind fun l => stepLink pl s.activity.isActive l e).map fun (l, upds) =>
        { s with links := s.links.set i l, dataChan := s.dataChan ++ upds }
  | .take =>
      match s.dataChan with
      | u :: rest => some { s with dataChan := rest, batch := s.batch ++ [u] }
      | [] => none
  | .flush executed =>
      if executed.Subperm s.batch then
        some { s with
          batch := []
          queuedBefore := s.queuedBefore.map (· - s.batch.length) }
      else none

-- What is written to `realtimeData`.
def Driver.written (s : Driver) : Occurrence → List DataUpdate
  | .flush executed => if executed.Subperm s.batch then executed else []
  | _ => []

def driverStart (links : List (Connection × Peer)) : Driver where
  links := links.map fun (conn, peer) => { conn := conn, setup := { peer := peer } }

-- A node that a tick has made inactive writes nothing any more, once what was queued before is
-- written.
def WritesNothing (s : Driver) (a : Occurrence) : Prop := s.queuedBefore = some 0 → s.written a = []

instance (s : Driver) (a : Occurrence) : Decidable (WritesNothing s a) :=
  inferInstanceAs (Decidable (_ → _))

-- A tick makes the node inactive only while no connection is set up and no poll is under way, and
-- no value of a mapped object is reported to an inactive node.
def Quiet (nodeName : String) (s : Driver) : Occurrence → Prop
  | .tick (some inst) =>
      s.activity.isActive = true → inst.activeNodeName ≠ nodeName →
        ∀ l ∈ s.links, l.phase.idle = true
  | .link i (.report _ v) =>
      s.activity.isActive = true ∨
        ∀ l ∈ s.links[i]?, mappingByRef l.mappings (v.domain ++ "/" ++ v.item) = none
  | _ => True

instance (nodeName : String) (s : Driver) : (a : Occurrence) → Decidable (Quiet nodeName s a)
  | .tick (some _) => inferInstanceAs (Decidable (_ → _ → ∀ l ∈ s.links, l.phase.idle = true))
  | .link i (.report _ v) =>
      inferInstanceAs (Decidable (s.activity.isActive = true ∨
        ∀ l ∈ s.links[i]?, mappingByRef l.mappings (v.domain ++ "/" ++ v.item) = none))
  | .tick none | .take | .flush _ | .link _ (.begin _ _) | .link _ .abandon
  | .link _ (.subscribe _) | .link _ .ready | .link _ (.chunk _) | .link _ (.pollTick _) =>
      .isTrue trivial

variable {pl : Platform} {nodeName : String} {s s' : Driver}

-- While the node is inactive, no connection is at work, and what waits was queued before.
structure Resting (s : Driver) : Prop where
  idle : s.activity.isActive = false → ∀ l ∈ s.links, l.phase.idle = true
  inactive : ∀ n ∈ s.queuedBefore, s.activity.isActive = false
  before : ∀ n ∈ s.queuedBefore, s.batch.length + s.dataChan.length ≤ n

theorem resting_start (links : List (Connection × Peer)) : Resting (driverStart links) where
  idle := by
    rintro - l hl
    obtain ⟨p, -, rfl⟩ := List.mem_map.mp hl
    rfl
  inactive := by rintro n ⟨⟩
  before := by rintro n ⟨⟩

-- A tick makes an active node inactive only where another one is named.
theorem inactive_cases {act act' : Activity} {inst : Instance}
    (h : processRedundancy nodeName act inst = some act') (hact : act.isActive = true)
    (hact' : act'.isActive = false) : inst.activeNodeName ≠ nodeName := by
  rintro rfl
  unfold processRedundancy at h
  split at h
  · cases h
  · rw [if_pos rfl] at h
    obtain rfl := Option.some.inj h
    cases hact'

theorem Resting.tick (h : Resting s) {inst : Instance}
    (hok : s.activity.isActive = true → inst.activeNodeName ≠ nodeName →
      ∀ l ∈ s.links, l.phase.idle = true)
    (hstep : s.step pl nodeName (.tick (some inst)) = some s') : Resting s' := by
  obtain ⟨act, hact, rfl⟩ := Option.map_eq_some_iff.mp hstep
  cases hactive : act.isActive with
  | true =>
      have hnone : (s.setActivity act).queuedBefore = none := by simp [Driver.setActivity, hactive]
      refine ⟨fun hinactive => ?_, ?_, ?_⟩
      · exact absurd (hactive.symm.trans hinactive) (by decide)
      · rw [hnone]
        rintro n ⟨⟩
      · rw [hnone]
        rintro n ⟨⟩
  | false =>
      cases hwas : s.activity.isActive with
      | true =>
          have hsome : (s.setActivity act).queuedBefore =
              some (s.batch.length + s.dataChan.length) := by
            simp [Driver.setActivity, hactive, hwas]
          refine ⟨fun _ => hok hwas (inactive_cases hact hwas hactive), fun _ _ => hactive, ?_⟩
          rw [hsome]
          rintro n ⟨⟩
          exact Nat.le_refl _
      | false =>
          have hsame : (s.setActivity act).queuedBefore = s.queuedBefore := by
            simp [Driver.setActivity, hactive, hwas]
          refine ⟨fun _ => h.idle hwas, fun _ _ => hactive, ?_⟩
          rw [hsame]
          exact h.before

-- What an idle connection of an inactive node does leaves it idle, and queues nothing but the
-- values of reports.
theorem stepLink_idle {l l' : Link} {e : LinkEvent} {upds : List DataUpdate}
    (hidle : l.phase.idle = true) (hstep : stepLink pl false l e = some (l', upds))
    (hreport : ∀ full v, e = .report full v →
      mappingByRef l.mappings (v.domain ++ "/" ++ v.item) = none) :
    l'.phase.idle = true ∧ upds = [] := by
  cases e with
  | report full v =>
      rw [stepLink] at hstep
      split at hstep
      · cases hstep
      · obtain ⟨rfl, rfl⟩ := Prod.mk.inj (Option.some.inj hstep)
        refine ⟨hidle, ?_⟩
        rw [reportValue, reportUpdate, hreport full v rfl]
        exact ite_self []
  | begin mappings peer =>
      cases hphase : l.phase with
      | waiting =>
          simp only [stepLink, hphase, true_or, if_true, Option.some.injEq, Prod.mk.injEq] at hstep
          obtain ⟨rfl, rfl⟩ := hstep
          exact ⟨hidle, rfl⟩
      | _ => simp [stepLink, hphase] at hstep
  | pollTick identity =>
      cases hphase : l.phase with
      | looping =>
          simp only [stepLink, hphase, if_true, Option.some.injEq, Prod.mk.injEq] at hstep
          obtain ⟨rfl, rfl⟩ := hstep
          exact ⟨hidle, rfl⟩
      | _ => simp [stepLink, hphase] at hstep
  -- the others ask for a setup or a poll that is under way
  | _ =>
      cases hphase : l.phase with
      | connecting | polling _ =>
          rw [hphase] at hidle
          cases hidle
      | waiting | looping => simp [stepLink, hphase] at hstep

theorem Resting.link (h : Resting s) {i : ℕ} {e : LinkEvent}
    (hok : Quiet nodeName s (.link i e))
    (hstep : s.step pl nodeName (.link i e) = some s') : Resting s' := by
  obtain ⟨⟨l', upds⟩, hl', rfl⟩ := Option.map_eq_some_iff.mp hstep
  obtain ⟨l, hl, hl'⟩ := Option.bind_eq_some_iff.mp hl'
  cases hactive : s.activity.isActive with
  | true =>
      have hnone : s.queuedBefore = none := by
        cases hbefore : s.queuedBefore with
        | none => rfl
        | some n => exact absurd (hactive.symm.trans (h.inactive n hbefore)) (by decide)
      refine ⟨fun hinactive => ?_, ?_, ?_⟩
      · exact absurd (hactive.symm.trans hinactive) (by decide)
      · rw [hnone]
        rintro n ⟨⟩
      · rw [hnone]
        rintro n ⟨⟩
  | false =>
      rw [hactive] at hl'
      have hidle := h.idle hactive
      obtain ⟨hkept, rfl⟩ := stepLink_idle (hidle l (List.mem_of_getElem? hl)) hl' (by
        rintro full v rfl
        rcases hok with hok | hok
        · exact absurd (hactive.symm.trans hok) (by decide)
        · exact hok l hl)
      refine ⟨fun _ m hm => ?_, fun _ _ => hactive, ?_⟩
      · rcases List.mem_or_eq_of_mem_set hm with hm | rfl
        · exact hidle m hm
        · exact hkept
      · dsimp only
        rw [List.append_nil]
        exact h.before

theorem Resting.take (h : Resting s) (hstep : s.step pl nodeName .take = some s') : Resting s' := by
  rw [Driver.step] at hstep
  split at hstep
  · next u rest hchan =>
    obtain rfl := Option.some.inj hstep
    refine ⟨h.idle, h.inactive, fun n hn => ?_⟩
    have hle := h.before n hn
    rw [hchan, List.length_cons] at hle
    change (s.batch ++ [u]).length + rest.length ≤ n
    rw [List.length_append, List.length_singleton]
    omega
  · cases hstep

theorem Resting.flush (h : Resting s) {executed : List DataUpdate}
    (hstep : s.step pl nodeName (.flush executed) = some s') : Resting s' := by
  rw [Driver.step] at hstep
  split at hstep
  · obtain rfl := Option.some.inj hstep
    refine ⟨h.idle, fun n hn => ?_, fun n hn => ?_⟩
    · obtain ⟨m, hm, -⟩ := Option.map_eq_some_iff.mp hn
      exact h.inactive m hm
    · obtain ⟨m, hm, rfl⟩ := Option.map_eq_some_iff.mp hn
      have hle := h.before m hm
      change [].length + s.dataChan.length ≤ m - s.batch.length
      rw [List.length_nil]
      omega
  · cases hstep

theorem Resting.step (h : Resting s) {a : Occurrence} (hok : Quiet nodeName s a)
    (hstep : s.step pl nodeName a = some s') : Resting s' := by
  cases a with
  | tick reading =>
      cases reading with
      | none =>
          obtain rfl := Option.some.inj hstep
          exact h
      | some inst => exact h.tick hok hstep
  | link i e => exact h.link hok hstep
  | take => exact h.take hstep
  | flush executed => exact h.flush hstep

theorem Resting.writesNothing (h : Resting s) (a : Occurrence) : WritesNothing s a := by
  intro hzero
  cases a with
  | flush executed =>
      have hle := h.before 0 hzero
      have hbatch : s.batch = [] := List.length_eq_zero_iff.mp (by omega)
      rw [Driver.written]
      split
      · next hsub =>
        rw [hbatch] at hsub
        exact List.subperm_nil.mp hsub
      · rfl
  | tick reading => rfl
  | link i e => rfl
  | take => rfl

-- Of a run whose steps are quiet, no step of an inactive node writes a value that was queued after
-- the tick.
theorem standby_writes_nothing (pl : Platform) (nodeName : String)
    (links : List (Connection × Peer)) (as : List Occurrence)
    (hok : Run.Allowed (Driver.step pl nodeName) (Quiet nodeName) (driverStart links) as) :
    Run.Allowed (Driver.step pl nodeName) WritesNothing (driverStart links) as :=
  Run.allowed_imp (fun _ _ _ h hok hstep => h.step hok hstep) (fun _ a h _ => h.writesNothing a)
    (resting_start links) hok

section Samples

def named (node : String) (keepAlive : ℤ) : Occurrence := .tick (some ⟨[], node, keepAlive⟩)

def switchMapping : TagMapping := ⟨pointTag "a" "Dom/A", ⟨"Dom", "A"⟩⟩

-- The node is active, subscribes to the domain and writes what its first poll reads; then another
-- node is active.
def subscribed : List Occurrence :=
  [named "A" 0, .link 0 (.begin [switchMapping] earlierSet), .link 0 (.subscribe setExists),
    .link 0 .ready, .link 0 (.chunk (some ⟨[closedSwitch], 5, fun _ => false⟩)),
    .take, .flush [switchUpdate 5], named "B" 0]

def oneLink : List (Connection × Peer) := [(⟨1, .fin 0⟩, earlierSet)]

theorem standby_at_rest :
    Run.Allowed (Driver.step plain "A") WritesNothing (driverStart oneLink)
      (subscribed ++ [.link 0 (.pollTick true), named "B" 1, .flush []]) :=
  standby_writes_nothing plain "A" oneLink _ (by decide)

-- The subscription goes on, and its report is written.
theorem standby_report_written :
    ¬Run.Allowed (Driver.step plain "A") WritesNothing (driverStart oneLink)
      (subscribed ++ [.link 0 (.report false ⟨"Dom", "A", closedSwitch, 9⟩), .take,
        .flush [switchUpdate 9]]) := by
  decide

end Samples

end JsonScada.Iccp.Client
