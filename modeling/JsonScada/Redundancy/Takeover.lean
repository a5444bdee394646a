import JsonScada.Redundancy
import Mathlib.Data.List.Basic
import Mathlib.Data.List.Induction

namespace JsonScada.Redundancy.Driver

variable (c : Controller)

-- The documents read since the last (re)connection, the latest first. A document
-- that does not list the node ends the connection.
def readings : List Event → List DriverInstance :=
  List.foldl (fun ds e =>
    match e with
    | .pingFailed => []
    | .tick (.instance inst) => if nodeAllowed inst c.nodeName then inst :: ds else []
    | .tick _ => ds) []

-- The keep-alive of the latest document that names another node.
def lastKeepAlive (ds : List DriverInstance) : Time :=
  ((ds.find? fun d => decide (d.activeNodeName ≠ c.nodeName)).map
    (·.activeNodeKeepAliveTimeTag)).getD zeroTime

-- More than `keepAliveCountLimit` readings in a row, the one at hand included,
-- name another node, and each finds the keep-alive as the reading before left it.
def Stalled (ds : List DriverInstance) (inst : DriverInstance) : Prop :=
  keepAliveCountLimit ≤ ds.length ∧
    (∀ d ∈ ds.take keepAliveCountLimit, d.activeNodeName ≠ c.nodeName ∧
      d.activeNodeKeepAliveTimeTag = inst.activeNodeKeepAliveTimeTag) ∧
    lastKeepAlive c (ds.drop keepAliveCountLimit) = inst.activeNodeKeepAliveTimeTag

-- The causes for which a standby may take over at the event `e`.
def Cause (past : List Event) : Event → Prop
  | .tick (.instance inst) =>
      inst.activeNodeName = c.nodeName ∨ Stalled c (readings c past) inst
  | .tick .noDocuments => c.missingInstanceActive = true
  | _ => False

-- The stall counter is what the readings say.
structure Counts (s : State) (ds : List DriverInstance) : Prop where
  last : s.stalls.last = lastKeepAlive c ds
  length : s.stalls.count ≤ ds.length
  unchanged : ∀ d ∈ ds.take s.stalls.count, d.activeNodeName ≠ c.nodeName ∧
    d.activeNodeKeepAliveTimeTag = s.stalls.last
  before : 0 < s.stalls.count → lastKeepAlive c (ds.drop s.stalls.count) = s.stalls.last

variable {c}

theorem counts_nil (active : Bool) : Counts c { active := active, stalls := {} } [] :=
  ⟨rfl, Nat.le_refl _, by simp, by simp⟩

theorem counts_reset {s : State} {ds : List DriverInstance} (active : Bool)
    (h : Counts c s ds) : Counts c { active := active, stalls := s.stalls.reset } ds :=
  ⟨h.last, Nat.zero_le _, by simp [StallCounter.reset], by simp [StallCounter.reset]⟩

theorem counts_active {s : State} {ds : List DriverInstance} (active : Bool)
    (h : Counts c s ds) : Counts c { s with active := active } ds :=
  ⟨h.last, h.length, h.unchanged, h.before⟩

-- The own name leaves the memory of other keep-alives as it is.
theorem counts_own {s : State} {ds : List DriverInstance} {inst : DriverInstance}
    (hname : inst.activeNodeName = c.nodeName) (h : Counts c s ds) :
    Counts c { active := true, stalls := s.stalls.reset } (inst :: ds) := by
  refine ⟨?_, Nat.zero_le _, by simp [StallCounter.reset], by simp [StallCounter.reset]⟩
  have hsame : lastKeepAlive c (inst :: ds) = lastKeepAlive c ds := by
    simp [lastKeepAlive, hname]
  rw [hsame]
  exact h.last

theorem counts_observe {s : State} {ds : List DriverInstance} {inst : DriverInstance}
    (active : Bool) (hname : inst.activeNodeName ≠ c.nodeName) (h : Counts c s ds) :
    Counts c { active := active, stalls := (s.stalls.observe inst.activeNodeKeepAliveTimeTag).1 }
      (inst :: ds) := by
  have hlast : lastKeepAlive c (inst :: ds) = inst.activeNodeKeepAliveTimeTag := by
    simp [lastKeepAlive, hname]
  by_cases hka : s.stalls.last = inst.activeNodeKeepAliveTimeTag
  · have hobs : s.stalls.observe inst.activeNodeKeepAliveTimeTag =
        (⟨inst.activeNodeKeepAliveTimeTag, s.stalls.count + 1⟩,
          decide (keepAliveCountLimit < s.stalls.count + 1)) := by
      simp [StallCounter.observe, hka]
    rw [hobs]
    refine ⟨hlast.symm, ?_, ?_, ?_⟩
    · have := h.length
      simp only [List.length_cons]
      omega
    · intro d hd
      rcases List.mem_cons.mp hd with rfl | hd
      · exact ⟨hname, rfl⟩
      · obtain ⟨h1, h2⟩ := h.unchanged d hd
        exact ⟨h1, h2.trans hka⟩
    · intro _
      by_cases hpos : 0 < s.stalls.count
      · exact (h.before hpos).trans hka
      · have hzero : s.stalls.count = 0 := by omega
        simp only [hzero, List.drop_succ_cons, List.drop_zero]
        exact h.last.symm.trans hka
  · have hobs : s.stalls.observe inst.activeNodeKeepAliveTimeTag =
        (⟨inst.activeNodeKeepAliveTimeTag, 0⟩, false) := by
      simp [StallCounter.observe, hka]
    rw [hobs]
    exact ⟨hlast.symm, Nat.zero_le _, by simp, by simp⟩

theorem counts_arbitrate {s : State} {ds : List DriverInstance} {inst : DriverInstance}
    (h : Counts c s ds) : Counts c (arbitrate c s inst) (inst :: ds) := by
  by_cases hname : inst.activeNodeName = c.nodeName
  · rw [arbitrate, if_pos hname]
    exact counts_own hname h
  · rw [arbitrate, if_neg hname]
    by_cases hactive : s.active = true
    · rw [if_pos hactive]
      exact counts_observe _ hname (counts_reset false h)
    · rw [if_neg hactive]
      exact counts_observe _ hname h

theorem counts_noInstance {s : State} {ds : List DriverInstance} (h : Counts c s ds) :
    Counts c (noInstance c s) ds := by
  unfold noInstance
  split_ifs
  · exact counts_active true h
  · exact counts_reset false h
  · exact h

theorem readings_append (es : List Event) (e : Event) :
    readings c (es ++ [e]) =
      match e with
      | .pingFailed => []
      | .tick (.instance inst) =>
          if nodeAllowed inst c.nodeName then inst :: readings c es else []
      | .tick _ => readings c es := by
  simp [readings, List.foldl_append]

theorem counts_step {s s' : State} {es : List Event} {e : Event} {wrote : Bool}
    (hs : Counts c s (readings c es)) (h : step c s e = some (s', wrote)) :
    Counts c s' (readings c (es ++ [e])) := by
  rw [readings_append]
  cases e with
  | pingFailed =>
      obtain ⟨rfl, _⟩ := Prod.mk.inj (Option.some.inj h)
      exact counts_nil _
  | tick r =>
      cases r with
      | noDocuments =>
          obtain ⟨rfl, _⟩ := Prod.mk.inj (Option.some.inj h)
          exact counts_noInstance hs
      | error =>
          obtain ⟨rfl, _⟩ := Prod.mk.inj (Option.some.inj h)
          exact counts_noInstance hs
      | «instance» inst =>
          simp only [step] at h
          split_ifs at h with hallowed hcallback
          · obtain ⟨rfl, _⟩ := Prod.mk.inj (Option.some.inj h)
            simp only [hallowed, if_true]
            exact counts_arbitrate hs
          · obtain ⟨rfl, _⟩ := Prod.mk.inj (Option.some.inj h)
            simp only [hallowed]
            exact counts_nil _

theorem run_append (s : State) (es : List Event) (e : Event) :
    run c s (es ++ [e]) = (run c s es).bind fun s => (step c s e).map Prod.fst := by
  simp [run, List.foldlM_append]

theorem counts_run {s : State} {es : List Event} (h : run c {} es = some s) :
    Counts c s (readings c es) := by
  induction es using List.reverseRecOn generalizing s with
  | nil =>
      obtain rfl := Option.some.inj h
      exact counts_nil _
  | append_singleton es e ih =>
      rw [run_append] at h
      obtain ⟨s₁, hrun, hstep⟩ := Option.bind_eq_some_iff.mp h
      obtain ⟨⟨s', wrote⟩, hone, rfl⟩ := Option.map_eq_some_iff.mp hstep
      exact counts_step (ih hrun) hone

-- An inactive node that a document activates read its own name, or the count has
-- passed the limit.
theorem arbitrate_active {s : State} {inst : DriverInstance} (hs : s.active = false)
    (h : (arbitrate c s inst).active = true) :
    inst.activeNodeName = c.nodeName ∨
      (s.stalls.last = inst.activeNodeKeepAliveTimeTag ∧ keepAliveCountLimit ≤ s.stalls.count) := by
  by_cases hname : inst.activeNodeName = c.nodeName
  · exact .inl hname
  · right
    by_cases hka : s.stalls.last = inst.activeNodeKeepAliveTimeTag
    · refine ⟨hka, ?_⟩
      simp [arbitrate, hname, hs, StallCounter.observe, hka] at h
      omega
    · simp [arbitrate, hname, hs, StallCounter.observe, hka] at h

theorem stalled_of_counts {s : State} {ds : List DriverInstance} {inst : DriverInstance}
    (h : Counts c s ds) (hlast : s.stalls.last = inst.activeNodeKeepAliveTimeTag)
    (hcount : keepAliveCountLimit ≤ s.stalls.count) : Stalled c ds inst := by
  refine ⟨Nat.le_trans hcount h.length, ?_, ?_⟩
  · intro d hd
    obtain ⟨h1, h2⟩ := h.unchanged d ((List.take_subset_take_left ds hcount) hd)
    exact ⟨h1, h2.trans hlast⟩
  · by_cases heq : s.stalls.count = keepAliveCountLimit
    · rw [← heq, h.before (by simp only [keepAliveCountLimit] at hcount; omega)]
      exact hlast
    · -- the reading before those is one of the counted readings too
      have hlt : keepAliveCountLimit < ds.length := by
        have := h.length
        omega
      have hmem : ds[keepAliveCountLimit] ∈ ds.take s.stalls.count := by
        rw [List.mem_take_iff_getElem]
        exact ⟨keepAliveCountLimit, by omega, rfl⟩
      obtain ⟨h1, h2⟩ := h.unchanged _ hmem
      rw [List.drop_eq_getElem_cons hlt]
      simp only [lastKeepAlive, List.find?_cons, h1, ne_eq, not_false_eq_true, decide_true,
        Option.map_some, Option.getD_some]
      exact h2.trans hlast

theorem cause_of_step {s s' : State} {es : List Event} {e : Event} {wrote : Bool}
    (hs : Counts c s (readings c es)) (h : step c s e = some (s', wrote))
    (hstandby : s.active = false) (hactive : s'.active = true)
    (herror : e = .tick .error → c.missingInstanceActive = false) : Cause c es e := by
  have missing (hmissing : (noInstance c s).active = true) : c.missingInstanceActive = true := by
    by_contra hm
    simp [noInstance, hm, hstandby] at hmissing
  cases e with
  | pingFailed =>
      obtain ⟨rfl, _⟩ := Prod.mk.inj (Option.some.inj h)
      rw [hstandby] at hactive
      cases hactive
  | tick r =>
      cases r with
      | noDocuments =>
          obtain ⟨rfl, _⟩ := Prod.mk.inj (Option.some.inj h)
          exact missing hactive
      | error =>
          obtain ⟨rfl, _⟩ := Prod.mk.inj (Option.some.inj h)
          rw [herror rfl] at missing
          exact absurd (missing hactive) (by simp)
      | «instance» inst =>
          simp only [step] at h
          split_ifs at h with hallowed hcallback
          · obtain ⟨rfl, _⟩ := Prod.mk.inj (Option.some.inj h)
            rcases arbitrate_active hstandby hactive with hname | ⟨hlast, hcount⟩
            · exact .inl hname
            · exact .inr (stalled_of_counts hs hlast hcount)
          · obtain ⟨rfl, _⟩ := Prod.mk.inj (Option.some.inj h)
            rw [hstandby] at hactive
            cases hactive

-- A standby activates with cause at every event of every run, exactly as long as
-- no read error meets it where a missing document would activate it.
theorem takeover_has_cause (c : Controller) (events : List Event) :
    (∀ es e rest s s' wrote, events = es ++ e :: rest → run c {} es = some s →
      step c s e = some (s', wrote) → s.active = false → s'.active = true → Cause c es e) ↔
    (∀ es rest s, events = es ++ .tick .error :: rest → run c {} es = some s →
      s.active = false → c.missingInstanceActive = false) := by
  constructor
  · intro h es rest s hsplit hrun hstandby
    by_contra hm
    have hm : c.missingInstanceActive = true := by simpa using hm
    have hstep : step c s (.tick .error) = some ({ s with active := true }, false) := by
      simp [step, noInstance, hm]
    exact h es _ rest s _ _ hsplit hrun hstep hstandby rfl
  · intro h es e rest s s' wrote hsplit hrun hstep hstandby hactive
    apply cause_of_step (counts_run hrun) hstep hstandby hactive
    rintro rfl
    exact h es rest s hsplit hrun hstandby

-- One failed read is enough.
theorem takeover_on_error :
    ∃ es e s s' wrote, run ⟨"standby", true, false⟩ {} es = some s ∧
      step ⟨"standby", true, false⟩ s e = some (s', wrote) ∧ s.active = false ∧
      s'.active = true ∧ ¬ Cause ⟨"standby", true, false⟩ es e :=
  ⟨[], .tick .error, {}, { active := true }, false, rfl, rfl, rfl, rfl, fun h => h⟩

end JsonScada.Redundancy.Driver
