import JsonScada.Iec60870.Client.Writer

namespace JsonScada.Iec60870.Client.Writer

open JsonScada.Library
open JsonScada.JsMongo
open JsonScada.Processor (Document Value)

deriving instance DecidableEq for IecValue

section Purpose

variable (driver : Driver)

-- The value that gets into the queue. One that comes while the queue is full is discarded.
def accepted (s : State) : Action → List IecValue
  | .enqueue v => if hasRoom s then [v] else []
  | _ => []

def enqueued (s : State) (as : List Action) : List IecValue :=
  Run.emitted (step driver) accepted s as

def State.pending (s : State) : List IecValue := s.phase.pending ++ s.dataQ

def isIdle : Phase → Bool
  | .idle => true
  | _ => false

def CaughtUp (s : State) : Prop := isIdle s.phase = true ∧ s.dataQ = []

instance (s : State) : Decidable (CaughtUp s) := inferInstanceAs (Decidable (_ ∧ _))

-- The point has a tag where tags are created, and its tag has the value.
structure Stored (conns : ℤ → Option Connection) (coll : List Document) (k : PointKey)
    (v : IecValue) : Prop where
  created : autoCreates conns k.conn = true → HasDoc coll k
  last : ∀ source, sourceOf coll k = some source → source = some (written driver v)

-- What is meant to hold of a writer that has caught up with the values it was given.
structure NothingLost (values : List IecValue) (s : State) : Prop where
  stored : ∀ k v, Backlog.lastOf keyOf k values = some v → Stored driver s.conns s.coll k v
  known : ∀ k, known s.conns k = true → HasDoc s.coll k

end Purpose

section Condition

-- The new tags are all stored.
def Stores (s : State) : Action → Prop
  | .insertMany reached => InsertsAll s.coll s.phase.insertDocs reached
  | _ => True

instance decidableStores (s : State) : ∀ a, Decidable (Stores s a)
  | .enqueue _ => .isTrue trivial
  | .dequeue => .isTrue trivial
  | .buildWrites _ => .isTrue trivial
  | .insertMany _ => inferInstanceAs (Decidable (InsertsAll ..))
  | .bulkWrite _ _ => .isTrue trivial

-- The values of the points whose last value of the batch is not the one that is executed last.
def unsettled (pending : List IecValue) (executed : List ℕ) : List IecValue :=
  pending.filter fun v =>
    Backlog.lastOf keyOf (keyOf v) (Backlog.executedOf pending executed) ≠
      Backlog.lastOf keyOf (keyOf v) pending

def lostBy (s : State) : Action → List IecValue
  | .bulkWrite executed _ => unsettled s.phase.pending executed
  | _ => []

-- A point that is left with another value has a value in the queue, or gets one later.
def Recovered (driver : Driver) (s : State) : List Action → Prop
  | [] => True
  | a :: as =>
      Stores s a ∧ ∀ s', step driver s a = some s' →
        (∀ v ∈ lostBy s a, ∃ w ∈ s.dataQ ++ enqueued driver s' as, keyOf w = keyOf v) ∧
          Recovered driver s' as

instance decidableRecovered (driver : Driver) : ∀ s as, Decidable (Recovered driver s as)
  | _, [] => .isTrue trivial
  | s, a :: as =>
      have (s' : State) : Decidable (Recovered driver s' as) := decidableRecovered driver s' as
      have : Decidable (∀ s', step driver s a = some s' →
          (∀ v ∈ lostBy s a, ∃ w ∈ s.dataQ ++ enqueued driver s' as, keyOf w = keyOf v) ∧
            Recovered driver s' as) :=
        inferInstanceAs (Decidable (∀ s' ∈ step driver s a, _ ∧ _))
      inferInstanceAs (Decidable (_ ∧ _))

-- No document is a tag of two points, and those of the connections that create tags are found by
-- the addresses that are read from them.
structure WellAddressed (coll : List Document) (conns : ℤ → Option Connection) : Prop where
  onePoint : ∀ d ∈ coll, OnePoint d
  found : ∀ d ∈ coll, ∀ n srv, conns n = some srv → srv.autoCreateTags = true →
    fieldMatches (equals srv.protocolConnectionNumber)
      (d.lookup "protocolSourceConnectionNumber") = true →
    matchesPoint ⟨n, (getU32 d "protocolSourceCommonAddress" 0).toNat,
      (getU32 d "protocolSourceObjectAddress" 0).toNat⟩ d = true

end Condition

section Invariant

variable (driver : Driver)

-- What the writes of a batch are, until they are sent.
def Carried (conns : ℤ → Option Connection) (pending : List IecValue)
    (writes : List WriteModel) : Prop :=
  writes = pending.map (writeModel driver) ∧
    ∀ iv ∈ pending, autoCreates conns iv.connNumber = true → known conns (keyOf iv) = true

def Ready (conns : ℤ → Option Connection) : Phase → Prop
  | .built pending writes _ => Carried driver conns pending writes
  | .flushed pending writes => Carried driver conns pending writes
  | _ => True

-- `done` are the values that got into the queue so far, and `later` those that are still to.
structure Inv (done later : List IecValue) (s : State) : Prop where
  ready : Ready driver s.conns s.phase
  known : ∀ k, known s.conns k = true → HasDoc (s.coll ++ s.phase.insertDocs) k
  onePoint : ∀ d ∈ s.coll ++ s.phase.insertDocs, OnePoint d
  owned : ∀ d ∈ s.phase.insertDocs, ∀ k, matchesPoint k d = true →
    autoCreates s.conns k.conn = true
  keeps : Backlog.Keeps keyOf (Stored driver s.conns s.coll) done s.pending later

variable {driver} {done later : List IecValue} {s s' : State}

theorem Inv.enqueue {v : IecValue} (h : Inv driver done (v :: later) s) :
    Inv driver (done ++ [v]) later { s with dataQ := s.dataQ ++ [v] } := by
  refine ⟨h.ready, h.known, h.onePoint, h.owned, ?_⟩
  have hpush := h.keeps.push
  rw [State.pending, List.append_assoc] at hpush
  exact hpush

theorem Inv.dequeue (h : Inv driver done later s) {v : IecValue} {dataQ : List IecValue}
    (hq : s.dataQ = v :: dataQ) (hdocs : s.phase.insertDocs = []) :
    Inv driver done later
      { s with dataQ := dataQ, phase := .collecting (s.phase.pending ++ [v]) } := by
  obtain ⟨-, hknown, hone, -, hkeeps⟩ := h
  rw [hdocs] at hknown hone
  refine ⟨trivial, hknown, hone, fun d hd => absurd hd List.not_mem_nil, ?_⟩
  rw [State.pending, hq, ← List.singleton_append, ← List.append_assoc] at hkeeps
  exact hkeeps

theorem Inv.build (h : Inv driver done later s) {pending : List IecValue} {b : Built}
    (hphase : s.phase = .collecting pending) (hb : Builds driver s.conns pending b) :
    Inv driver done later
      { s with conns := b.conns, phase := .built pending b.writes b.insertDocs } := by
  obtain ⟨-, hknown, hone, -, hkeeps⟩ := h
  rw [hphase, show (Phase.collecting pending).insertDocs = [] from rfl, List.append_nil]
    at hknown hone
  rw [State.pending, hphase] at hkeeps
  refine ⟨⟨hb.writes, fun iv hiv hauto => ?_⟩, fun k hk => ?_, fun d hd => ?_, fun d hd k hk => ?_,
    ?_⟩
  · exact hb.known iv hiv ((hb.grows.auto _).symm.trans hauto)
  · rcases (hb.grows.known k).mp hk with hk | ⟨d, hd, hmatch⟩
    · exact (hknown k hk).append
    · exact hasDoc_iff.mpr ⟨d, List.mem_append_right _ hd, hmatch⟩
  · rcases List.mem_append.mp hd with hd | hd
    · exact hone d hd
    · exact (hb.grows.docs d hd).1
  · exact (hb.grows.auto _).trans ((hb.grows.docs d hd).2 k hk)
  · refine hkeeps.imp fun k v hstored => ⟨fun hauto => ?_, hstored.last⟩
    exact hstored.created ((hb.grows.auto _).symm.trans hauto)

-- The new tags are those of points that had none, if they were written to before.
theorem Inv.insert (h : Inv driver done later s) {pending : List IecValue}
    {writes : List WriteModel} {insertDocs : List Document}
    (hphase : s.phase = .built pending writes insertDocs) :
    Inv driver done later
      { s with coll := s.coll ++ insertDocs, phase := .flushed pending writes } := by
  obtain ⟨hready, hknown, hone, howned, hkeeps⟩ := h
  rw [hphase] at hready hknown hone howned
  rw [State.pending, hphase] at hkeeps
  refine ⟨hready, fun k hk => (hknown k hk).append, ?_, fun d hd => absurd hd List.not_mem_nil, ?_⟩
  · intro d hd
    rw [show (Phase.flushed pending writes).insertDocs = [] from rfl, List.append_nil] at hd
    exact hone d hd
  · refine hkeeps.imp fun k v hstored => ⟨fun hauto => (hstored.created hauto).append, ?_⟩
    intro source hsource
    by_cases hdoc : HasDoc s.coll k
    · rw [sourceOf_append hdoc] at hsource
      exact hstored.last source hsource
    · have hother : ∀ d ∈ insertDocs, matchesPoint k d = false := fun d hd =>
        Bool.eq_false_iff.mpr fun hk => hdoc (hstored.created (howned d hd k hk))
      rw [sourceOf_append_of_none hother] at hsource
      exact hstored.last source hsource

theorem Inv.write (h : Inv driver done later s) {pending : List IecValue}
    {writes : List WriteModel} {executed : List ℕ} (hphase : s.phase = .flushed pending writes)
    (hback : ∀ v ∈ unsettled pending executed, ∃ w ∈ s.dataQ ++ later, keyOf w = keyOf v) :
    Inv driver done later { s with
      coll := (Backlog.executedOf writes executed).foldl applyWrite s.coll, phase := .idle } := by
  obtain ⟨hready, hknown, hone, -, hkeeps⟩ := h
  rw [hphase, show (Phase.flushed pending writes).insertDocs = [] from rfl, List.append_nil]
    at hknown hone
  rw [hphase] at hready
  rw [State.pending, hphase] at hkeeps
  replace hkeeps : Backlog.Keeps keyOf (Stored driver s.conns s.coll) done (pending ++ s.dataQ)
    later := hkeeps
  obtain ⟨rfl, hcreated⟩ : Carried driver s.conns pending writes := hready
  rw [Backlog.executedOf_map]
  have hdoc (k : PointKey) : HasDoc s.coll k →
      HasDoc (((Backlog.executedOf pending executed).map (writeModel driver)).foldl applyWrite
        s.coll) k := (hasDoc_applyWrites hone _).mpr
  refine ⟨trivial, fun k hk => (hdoc k (hknown k hk)).append, ?_,
    fun d hd => absurd hd List.not_mem_nil, ?_⟩
  · intro d hd
    rw [show (Phase.idle).insertDocs = [] from rfl, List.append_nil] at hd
    exact onePoint_applyWrites hone _ d hd
  · refine Backlog.Keeps.release hkeeps (fun k v hv => ?_) (fun k v hnone hstored => ?_)
    · obtain ⟨hmem, rfl⟩ := Backlog.mem_of_lastOf hv
      by_cases hlast : Backlog.lastOf keyOf (keyOf v) (Backlog.executedOf pending executed) =
          Backlog.lastOf keyOf (keyOf v) pending
      · refine .inl ⟨fun hauto => hdoc _ (hknown _ (hcreated v hmem hauto)), ?_⟩
        intro source hsource
        rw [sourceOf_applyWrites hone, hlast, hv] at hsource
        obtain ⟨old, -, rfl⟩ := Option.map_eq_some_iff.mp hsource
        rfl
      · exact .inr (hback v (List.mem_filter.mpr ⟨hmem, decide_eq_true hlast⟩))
    · -- no value of the batch is for the point
      have hexec : Backlog.lastOf keyOf k (Backlog.executedOf pending executed) = none :=
        Backlog.lastOf_eq_none_iff.mpr fun w hw =>
          Backlog.lastOf_eq_none_iff.mp hnone w (Backlog.mem_executedOf hw)
      refine ⟨fun hauto => hdoc k (hstored.created hauto), ?_⟩
      intro source hsource
      rw [sourceOf_applyWrites hone, hexec] at hsource
      obtain ⟨old, hold, rfl⟩ := Option.map_eq_some_iff.mp hsource
      exact hstored.last old hold

theorem inv_step {a : Action} (h : Inv driver done (accepted s a ++ later) s)
    (hstores : Stores s a)
    (hback : ∀ v ∈ lostBy s a, ∃ w ∈ s.dataQ ++ later, keyOf w = keyOf v)
    (hstep : step driver s a = some s') : Inv driver (done ++ accepted s a) later s' := by
  cases a with
  | enqueue v =>
      obtain rfl := Option.some.inj hstep
      by_cases hroom : hasRoom s = true
      · rw [show accepted s (.enqueue v) = [v] from if_pos hroom] at h ⊢
        rw [if_pos hroom]
        exact h.enqueue
      · rw [show accepted s (.enqueue v) = [] from if_neg hroom] at h ⊢
        rw [if_neg hroom, List.append_nil]
        exact h
  | dequeue =>
      obtain ⟨v, dataQ, hq, hphase, rfl⟩ := step_dequeue hstep
      rw [show accepted s .dequeue = [] from rfl, List.append_nil]
      have hdocs : s.phase.insertDocs = [] := by
        rcases hphase with hphase | ⟨pending, hphase⟩ <;> rw [hphase] <;> rfl
      exact h.dequeue hq hdocs
  | buildWrites lookupOk =>
      obtain ⟨pending, b, hphase, hb, rfl⟩ := step_buildWrites hstep
      rw [show accepted s (.buildWrites lookupOk) = [] from rfl, List.append_nil]
      exact h.build hphase hb
  | insertMany reached =>
      obtain ⟨pending, writes, insertDocs, hphase, rfl⟩ := step_insertMany hstep
      rw [show accepted s (.insertMany reached) = [] from rfl, List.append_nil]
      rw [Stores, hphase] at hstores
      have hall : InsertsAll s.coll insertDocs reached := hstores
      rw [insertMany_of_all hall]
      exact h.insert hphase
  | bulkWrite executed ok =>
      obtain ⟨pending, writes, hphase, rfl⟩ := step_bulkWrite hstep
      rw [show accepted s (.bulkWrite executed ok) = [] from rfl, List.append_nil]
      rw [lostBy, hphase] at hback
      exact h.write hphase hback

theorem inv_run {as : List Action} (h : Inv driver done (enqueued driver s as) s)
    (hrec : Recovered driver s as) (hrun : Run.run (step driver) s as = some s') :
    Inv driver (done ++ enqueued driver s as) [] s' := by
  induction as generalizing done s with
  | nil =>
      obtain rfl := Option.some.inj hrun
      rw [show enqueued driver s [] = [] from rfl, List.append_nil]
      exact h
  | cons a as ih =>
      obtain ⟨t, ht, hrun⟩ := Run.run_cons hrun
      obtain ⟨hstores, hrest⟩ := hrec
      obtain ⟨hback, hrec⟩ := hrest t ht
      have henqueued : enqueued driver s (a :: as) = accepted s a ++ enqueued driver t as := by
        rw [enqueued, Run.emitted, ht, Option.elim_some]
        rfl
      rw [henqueued] at h ⊢
      rw [← List.append_assoc]
      exact ih (inv_step h hstores hback ht) hrec hrun

theorem inv_start {coll : List Document} {conns : ℤ → Option Connection} {count : ℤ → ℕ}
    (hcoll : WellAddressed coll conns) (later : List IecValue) :
    Inv driver [] later (start coll conns count) := by
  refine ⟨trivial, fun k hk => ?_, ?_, fun d hd => absurd hd List.not_mem_nil,
    Backlog.keeps_nil _ _⟩
  · rw [show (start coll conns count).phase.insertDocs = [] from rfl, List.append_nil]
    obtain ⟨srv', hsrv', hmem⟩ := (Option.any_eq_true _ _).mp hk
    obtain ⟨srv, hsrv, rfl⟩ := Option.map_eq_some_iff.mp hsrv'
    have hmem := List.contains_iff_mem.mp hmem
    dsimp only at hmem
    split_ifs at hmem with hauto
    · obtain ⟨d, hd, haddr⟩ := List.mem_map.mp hmem
      obtain ⟨hd, hconn⟩ := List.mem_filter.mp (List.mem_of_mem_take hd)
      obtain ⟨hca, hioa⟩ := Prod.mk.inj haddr
      have hfound := hcoll.found d hd k.conn srv hsrv hauto hconn
      rw [hca, hioa] at hfound
      exact hasDoc_iff.mpr ⟨d, hd, hfound⟩
    · cases hmem
  · rw [show (start coll conns count).phase.insertDocs = [] from rfl, List.append_nil]
    exact hcoll.onePoint

end Invariant

section Claim

variable {driver : Driver}

theorem recovered_stores_last {coll : List Document} {conns : ℤ → Option Connection}
    {count : ℤ → ℕ} {as : List Action} {s : State} (hcoll : WellAddressed coll conns)
    (hrun : Run.run (step driver) (start coll conns count) as = some s)
    (hrec : Recovered driver (start coll conns count) as) (hup : CaughtUp s) :
    NothingLost driver (enqueued driver (start coll conns count) as) s := by
  obtain ⟨-, hknown, -, -, hkeeps⟩ := inv_run (inv_start hcoll _) hrec hrun
  rw [List.nil_append] at hkeeps
  obtain ⟨hidle, hempty⟩ := hup
  have hphase : s.phase = .idle := by
    cases hp : s.phase with
    | idle => rfl
    | collecting pending => rw [hp] at hidle; cases hidle
    | built pending writes insertDocs => rw [hp] at hidle; cases hidle
    | flushed pending writes => rw [hp] at hidle; cases hidle
  rw [State.pending, hphase, hempty] at hkeeps
  rw [hphase, show (Phase.idle).insertDocs = [] from rfl] at hknown
  simp only [List.append_nil] at hknown
  exact ⟨fun k v hv => Backlog.Keeps.of_empty hkeeps hv, hknown⟩

def iec104 : Driver where
  driverName := "IEC60870-5-104"
  typeString := fun n => toString n

def station (n : ℤ) : Option Connection :=
  if n = 81 then
    some { protocolConnectionNumber := .fin 81, name := "KAW2", autoCreateTags := true }
  else none

-- A measured value with a short floating point.
def measured (address : ℤ) (value : Double) : IecValue where
  address := address
  asdu := 13
  isDigital := false
  value := value
  cot := 3
  serverTimestamp := 1700000000000000000
  sourceTimestamp := none
  timestampOk := false
  quality := {}
  connNumber := 81
  commonAddress := 1

-- The value is enqueued, and its batch of one is written.
def cycle (v : IecValue) (stored : Bool) (executed : List ℕ) (ok : Bool) : List Action :=
  [.enqueue v, .dequeue, .buildWrites fun _ => true, .insertMany [stored], .bulkWrite executed ok]

-- A failed BulkWrite, whose value comes again.
def retried : List Action :=
  cycle (measured 1001 (.fin 5)) true [] false ++ cycle (measured 1001 (.fin 6)) true [0] true

theorem recovered_stores_last_retried : ∃ s,
    Run.run (step iec104) (start [] station fun _ => 0) retried = some s ∧
      NothingLost iec104 (enqueued iec104 (start [] station fun _ => 0) retried) s := by
  have hrun : (Run.run (step iec104) (start [] station fun _ => 0) retried).any
      (fun s => CaughtUp s) = true := by decide
  obtain ⟨s, hrun, hup⟩ := (Option.any_eq_true _ _).mp hrun
  exact ⟨s, hrun, recovered_stores_last ⟨by simp, by simp⟩ hrun (by decide)
    (of_decide_eq_true hup)⟩

-- The InsertMany fails once.
def failedInsert : List Action :=
  cycle (measured 1001 (.fin 5)) false [0] true ++ cycle (measured 1001 (.fin 6)) true [0] true

theorem failed_insert_never_created : ∃ s,
    Run.run (step iec104) (start [] station fun _ => 0) failedInsert = some s ∧ CaughtUp s ∧
      ¬NothingLost iec104 (enqueued iec104 (start [] station fun _ => 0) failedInsert) s := by
  have hrun : (Run.run (step iec104) (start [] station fun _ => 0) failedInsert).any
      (fun s => CaughtUp s ∧ known s.conns ⟨81, 1, 1001⟩ = true ∧
        (sourceOf s.coll ⟨81, 1, 1001⟩).isSome = false) = true := by decide
  obtain ⟨s, hrun, hs⟩ := (Option.any_eq_true _ _).mp hrun
  obtain ⟨hup, hknown, hnone⟩ := of_decide_eq_true hs
  refine ⟨s, hrun, hup, fun h => ?_⟩
  have hdoc := h.known _ hknown
  rw [HasDoc, hnone] at hdoc
  cases hdoc

end Claim

end JsonScada.Iec60870.Client.Writer
