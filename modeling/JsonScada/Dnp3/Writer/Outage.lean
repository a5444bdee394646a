import JsonScada.Dnp3.Writer.Lemmas

namespace JsonScada.Dnp3.Writer

open JsonScada.Library
open JsonScada.JsMongo
open JsonScada.Processor (Document Value)

section Purpose

def HasDoc (coll : List Document) (k : ValueKey) : Prop := (sourceOf coll k).isSome

def Action.pushed : Action → Option Dnp3Value
  | .push v => some v
  | _ => none

def pushes (as : List Action) : List Dnp3Value := as.filterMap Action.pushed

-- What waits for its write, in the order of the writes.
def State.pending (s : State) : List Dnp3Value := s.phase.values ++ s.queue.values

def CaughtUp (s : State) : Prop := s.phase = .idle ∧ s.queue.values = []

instance decidableIdle : ∀ p : Phase, Decidable (p = .idle)
  | .idle => .isTrue rfl
  | .drained _ => .isFalse nofun
  | .planned _ _ _ _ => .isFalse nofun
  | .inserted _ _ _ => .isFalse nofun

instance (s : State) : Decidable (CaughtUp s) := inferInstanceAs (Decidable (_ ∧ _))

-- The point shows the value, and has a document where tags are created.
structure Stored (conns : ℤ → Option Connection) (coll : List Document) (k : ValueKey)
    (v : Dnp3Value) : Prop where
  created : AutoCreates conns k.conn → HasDoc coll k
  last : ∀ source, sourceOf coll k = some source → source = some (written v)

-- What is meant to hold of a writer that has caught up with the values pushed to it.
structure NothingLost (pushed : List Dnp3Value) (s : State) : Prop where
  stored : ∀ k v, (ofKey keyOf k pushed).getLast? = some v → Stored s.conns s.coll k v
  remembered : ∀ n conn, s.conns n = some conn → ∀ a ∈ conn.insertedAddresses,
    HasDoc s.coll ⟨n, a.1, a.2⟩

end Purpose

section Condition

def Phase.inserts : Phase → List Document
  | planned _ inserts _ _ => inserts
  | _ => []

-- The values of the batch that no executed operation is for.
def unreached (batch : List Dnp3Value) (executed : List ℕ) : List Dnp3Value :=
  executedOf batch ((List.range batch.length).filter (· ∉ executed))

-- The values that the step lets go without a write.
def lostBy (s : State) : Action → List Dnp3Value
  | .isLive false _ => s.phase.values
  | .bulkWrite executed _ => unreached s.phase.values executed
  | _ => []

-- A value that can be written is pushed, and the documents of new tags are all stored.
def Stores (s : State) : Action → Prop
  | .push v => isSkipped v.value = false
  | .insertMany reached => InsertsAll s.coll s.phase.inserts reached
  | _ => True

-- A value that is let go has its point in the queue again, or pushed again later.
def Recovered (s : State) : List Action → Prop
  | [] => True
  | a :: as =>
      Stores s a ∧
      (∀ v ∈ lostBy s a, ∃ w ∈ s.queue.values ++ pushes as, keyOf w = keyOf v) ∧
      ∀ s', step s a = some s' → Recovered s' as

instance decidableStores (s : State) : ∀ a, Decidable (Stores s a)
  | .push _ => inferInstanceAs (Decidable (_ = _))
  | .drain => .isTrue trivial
  | .isLive _ _ => .isTrue trivial
  | .insertMany _ => inferInstanceAs (Decidable (InsertsAll ..))
  | .bulkWrite _ _ => .isTrue trivial

instance decidableRecovered : ∀ s as, Decidable (Recovered s as)
  | _, [] => .isTrue trivial
  | s, a :: as =>
      have (s' : State) : Decidable (Recovered s' as) := decidableRecovered s' as
      have : Decidable (∀ s', step s a = some s' → Recovered s' as) :=
        inferInstanceAs (Decidable (∀ s' ∈ step s a, Recovered s' as))
      inferInstanceAs (Decidable (_ ∧ _ ∧ _))

-- The tags of the connections that create tags hold whole numbers as their addresses.
def WellAddressed (coll : List Document) (conns : ℤ → Option Connection) : Prop :=
  ∀ d ∈ coll, ∀ n, AutoCreates conns n →
    d.lookup "protocolSourceConnectionNumber" = some (.number (.fin n)) →
    ∃ g a : ℤ, d.lookup "protocolSourceCommonAddress" = some (.number (.fin g)) ∧
      d.lookup "protocolSourceObjectAddress" = some (.number (.fin a))

end Condition

section Invariant

-- What the plan of a batch says, while it is carried out.
structure Carried (conns : ℤ → Option Connection) (batch : List Dnp3Value)
    (writes : List WriteModel) (ordered : Bool) : Prop where
  writes : writes = batch.map writeModel
  distinct : ordered = false → (batch.map keyOf).Nodup
  marked : ∀ iv ∈ batch, ∀ conn, conns iv.connNumber = some conn →
    conn.autoCreateTags = true → (iv.baseGroup, iv.address) ∈ conn.insertedAddresses

def Ready (conns : ℤ → Option Connection) : Phase → Prop
  | .planned batch _ writes ordered => Carried conns batch writes ordered
  | .inserted batch writes ordered => Carried conns batch writes ordered
  | _ => True

-- `done` are the values pushed so far and `later` those that are still to come.
structure Inv (done later : List Dnp3Value) (s : State) : Prop where
  writable : ∀ v ∈ s.pending, isSkipped v.value = false
  ready : Ready s.conns s.phase
  remembered : ∀ n conn, s.conns n = some conn → ∀ a ∈ conn.insertedAddresses,
    HasDoc (s.coll ++ s.phase.inserts) ⟨n, a.1, a.2⟩
  owned : ∀ d ∈ s.phase.inserts, ∃ k, AutoCreates s.conns k.conn ∧
    matchesFilter (pointFilter k) d = true
  keeps : ∀ k v, (ofKey keyOf k done).getLast? = some v →
    (ofKey keyOf k s.pending).getLast? = some v ∨
      (ofKey keyOf k s.pending = [] ∧ Stored s.conns s.coll k v) ∨ ∃ w ∈ later, keyOf w = k

theorem HasDoc.append {coll docs : List Document} {k : ValueKey} (h : HasDoc coll k) :
    HasDoc (coll ++ docs) k := by
  unfold HasDoc
  rw [sourceOf_append_of_isSome h]
  exact h

theorem hasDoc_applyWrites {coll : List Document} {k : ValueKey} (ivs : List Dnp3Value) :
    HasDoc ((ivs.map writeModel).foldl applyWrite coll) k ↔ HasDoc coll k := by
  unfold HasDoc
  rw [sourceOf_applyWrites, Option.isSome_map]

variable {done later : List Dnp3Value} {s s' : State}

theorem Inv.push {v : Dnp3Value} (h : Inv done (v :: later) s) (hv : isSkipped v.value = false) :
    Inv (done ++ [v]) later { s with queue := s.queue.push v } := by
  refine ⟨?_, h.ready, h.remembered, h.owned, ?_⟩
  · intro w hw
    rcases List.mem_append.mp hw with hw | hw
    · exact h.writable w (List.mem_append_left _ hw)
    · rcases ValueQueue.mem_push hw with hw | rfl
      · exact h.writable w (List.mem_append_right _ hw)
      · exact hv
  · intro k w hw
    by_cases hk : keyOf v = k
    · subst hk
      left
      rw [ofKey_append, ofKey_cons_self _ rfl, ofKey_nil, List.getLast?_concat] at hw
      obtain rfl := Option.some.inj hw
      rw [State.pending, ofKey_append, List.getLast?_append, ValueQueue.push_last, Option.some_or]
    · rw [ofKey_append, ofKey_cons_ne _ hk, ofKey_nil, List.append_nil] at hw
      have hsame : ofKey keyOf k (s.phase.values ++ (s.queue.push v).values) =
          ofKey keyOf k s.pending := by
        rw [State.pending, ofKey_append, ofKey_append, s.queue.push_ofKey_ne hk]
      rw [State.pending, hsame]
      rcases h.keeps k w hw with hlast | hstored | ⟨u, hu, huk⟩
      · exact .inl hlast
      · exact .inr (.inl hstored)
      · rcases List.mem_cons.mp hu with rfl | hu
        · exact absurd huk hk
        · exact .inr (.inr ⟨u, hu, huk⟩)

-- The last value of a point, seen from behind the batch that the writer holds.
theorem Inv.keeps_cases (h : Inv done later s) {k : ValueKey} {v : Dnp3Value}
    (hv : (ofKey keyOf k done).getLast? = some v) :
    (ofKey keyOf k s.queue.values).getLast? = some v ∨
      (ofKey keyOf k s.queue.values = [] ∧
        ((ofKey keyOf k s.phase.values).getLast? = some v ∨
          ofKey keyOf k s.phase.values = [] ∧ Stored s.conns s.coll k v)) ∨
      ∃ w ∈ later, keyOf w = k := by
  rcases h.keeps k v hv with hlast | ⟨hnone, hstored⟩ | hlater
  · rw [State.pending, ofKey_append, List.getLast?_append] at hlast
    cases hq : (ofKey keyOf k s.queue.values).getLast? with
    | some w =>
        rw [hq, Option.some_or] at hlast
        exact .inl hlast
    | none =>
        rw [hq, Option.none_or] at hlast
        exact .inr (.inl ⟨List.getLast?_eq_none_iff.mp hq, .inl hlast⟩)
  · rw [State.pending, ofKey_append, List.append_eq_nil_iff] at hnone
    exact .inr (.inl ⟨hnone.2, .inr ⟨hnone.1, hstored⟩⟩)
  · exact .inr (.inr hlater)

theorem Inv.drain (h : Inv done later s) (hidle : s.phase = .idle) :
    Inv done later { s with
      queue := { ValueQueue.new with closed := s.queue.closed }
      phase := if s.queue.values.isEmpty then .idle else .drained s.queue.values } := by
  have hpending : s.pending = s.queue.values := by rw [State.pending, hidle]; rfl
  have hwritable := h.writable
  have hremembered := h.remembered
  have hkeeps := h.keeps
  rw [show s.phase.inserts = [] by rw [hidle]; rfl] at hremembered
  rw [hpending] at hwritable hkeeps
  by_cases hempty : s.queue.values.isEmpty = true
  · rw [List.isEmpty_iff.mp hempty] at hwritable hkeeps
    rw [if_pos hempty]
    exact ⟨hwritable, trivial, hremembered, by simp [Phase.inserts], hkeeps⟩
  · rw [← List.append_nil s.queue.values] at hwritable hkeeps
    rw [if_neg hempty]
    exact ⟨hwritable, trivial, hremembered, by simp [Phase.inserts], hkeeps⟩

-- The batch is planned, and nothing is written yet.
theorem Inv.plan (h : Inv done later s) {batch : List Dnp3Value} (hphase : s.phase = .drained batch)
    {p : Plan} (hp : Planned s.conns batch p) :
    Inv done later { s with
      conns := p.conns, phase := .planned batch p.inserts p.writes p.hasDuplicates } := by
  have hremembered := h.remembered
  have hkeeps := h.keeps
  have hwritable := h.writable
  rw [hphase] at hremembered
  rw [State.pending, hphase] at hkeeps hwritable
  refine ⟨hwritable, ⟨hp.writes, hp.distinct, hp.marked⟩, ?_, ?_, ?_⟩
  · intro n conn' hconn' a ha
    obtain ⟨conn, hconn, -, -, hadded⟩ := hp.marks.back n conn' hconn'
    rcases hadded a ha with ha | ⟨d, hd, hmatch⟩
    · have hdoc := hremembered n conn hconn a ha
      rw [show (Phase.drained batch).inserts = [] from rfl, List.append_nil] at hdoc
      exact hdoc.append
    · exact sourceOf_isSome_append hd hmatch
  · intro d hd
    obtain ⟨k, hauto, hmatch⟩ := hp.marks.owned d hd
    exact ⟨k, hp.marks.autoCreates _ hauto, hmatch⟩
  · intro k v hv
    rcases hkeeps k v hv with hlast | ⟨hnone, hstored⟩ | hlater
    · exact .inl hlast
    · refine .inr (.inl ⟨hnone, ?_, hstored.last⟩)
      rintro ⟨conn', hconn', hauto'⟩
      obtain ⟨conn, hconn, hauto, -⟩ := hp.marks.back _ conn' hconn'
      exact hstored.created ⟨conn, hconn, hauto ▸ hauto'⟩
    · exact .inr (.inr hlater)

-- The batch is let go, and each of its points comes again.
theorem Inv.drop (h : Inv done later s) {batch : List Dnp3Value} (hphase : s.phase = .drained batch)
    (hback : ∀ v ∈ batch, ∃ w ∈ s.queue.values ++ later, keyOf w = keyOf v) :
    Inv done later { s with phase := .idle } := by
  refine ⟨?_, trivial, ?_, by simp [Phase.inserts], ?_⟩
  · intro v hv
    exact h.writable v (List.mem_append_right _ hv)
  · have hremembered := h.remembered
    rw [hphase] at hremembered
    exact hremembered
  · intro k v hv
    rcases h.keeps_cases hv with hlast | ⟨hnone, hlast | ⟨-, hstored⟩⟩ | hlater
    · exact .inl hlast
    · rw [hphase] at hlast
      obtain ⟨pre, post, heq, hk, -⟩ := exists_of_getLast?_ofKey hlast
      obtain ⟨w, hw, hwk⟩ := hback v (by rw [show batch = _ from heq]; simp)
      rcases List.mem_append.mp hw with hw | hw
      · exact absurd (hwk.trans hk) (ofKey_eq_nil_iff.mp hnone w hw)
      · exact .inr (.inr ⟨w, hw, hwk.trans hk⟩)
    · exact .inr (.inl ⟨hnone, hstored⟩)
    · exact .inr (.inr hlater)

theorem Inv.insert (h : Inv done later s) {batch : List Dnp3Value} {inserts : List Document}
    {writes : List WriteModel} {ordered : Bool}
    (hphase : s.phase = .planned batch inserts writes ordered) :
    Inv done later { s with
      coll := s.coll ++ inserts, phase := .inserted batch writes ordered } := by
  have hready := h.ready
  have hremembered := h.remembered
  have howned := h.owned
  have hkeeps := h.keeps
  have hwritable := h.writable
  rw [hphase] at hready hremembered howned
  rw [State.pending, hphase] at hkeeps hwritable
  refine ⟨hwritable, hready, ?_, by simp [Phase.inserts], ?_⟩
  · intro n conn hconn a ha
    exact (hremembered n conn hconn a ha).append
  · intro k v hv
    rcases hkeeps k v hv with hlast | ⟨hnone, hstored⟩ | hlater
    · exact .inl hlast
    · refine .inr (.inl ⟨hnone, fun hauto => (hstored.created hauto).append, ?_⟩)
      intro source hsource
      dsimp only at hsource
      by_cases hdoc : HasDoc s.coll k
      · rw [sourceOf_append_of_isSome hdoc] at hsource
        exact hstored.last source hsource
      -- without a document the point is none that tags are created for
      · have hother : ∀ d ∈ inserts, matchesFilter (pointFilter k) d = false := by
          intro d hd
          obtain ⟨k', hauto, hmatch⟩ := howned d hd
          apply pointFilter_disjoint _ hmatch
          rintro rfl
          exact hdoc (hstored.created hauto)
        rw [sourceOf_append_of_none hother] at hsource
        exact hstored.last source hsource
    · exact .inr (.inr hlater)

theorem Inv.write (h : Inv done later s) {batch : List Dnp3Value} {writes : List WriteModel}
    {ordered ok : Bool} {executed : List ℕ} (hphase : s.phase = .inserted batch writes ordered)
    (hexec : canExecute writes.length ordered ok executed = true)
    (hback : ∀ v ∈ unreached batch executed,
      ∃ w ∈ s.queue.values ++ later, keyOf w = keyOf v) :
    Inv done later { s with
      coll := (executed.filterMap fun i => writes[i]?).foldl applyWrite s.coll, phase := .idle } := by
  have hready := h.ready
  have hremembered := h.remembered
  rw [hphase] at hready hremembered
  rw [show (Phase.inserted batch writes ordered).inserts = [] from rfl, List.append_nil]
    at hremembered
  obtain ⟨rfl, hdistinct, hmarked⟩ : Carried s.conns batch writes ordered := hready
  rw [List.length_map] at hexec
  rw [executed_values]
  refine ⟨?_, trivial, ?_, by simp [Phase.inserts], ?_⟩
  · intro v hv
    exact h.writable v (List.mem_append_right _ hv)
  · intro n conn hconn a ha
    rw [show (Phase.idle).inserts = [] from rfl, List.append_nil, hasDoc_applyWrites]
    exact hremembered n conn hconn a ha
  · intro k v hv
    rcases h.keeps_cases hv with hlast | ⟨hnone, hlast | ⟨hother, hstored⟩⟩ | hlater
    · exact .inl hlast
    · rw [hphase] at hlast
      have hlast : (ofKey keyOf k batch).getLast? = some v := hlast
      obtain ⟨pre, post, hbatch, hk, -⟩ := exists_of_getLast?_ofKey hlast
      by_cases hall : ∀ (i : ℕ) w, batch[i]? = some w → keyOf w = k → i ∈ executed
      · refine .inr (.inl ⟨hnone, ?_, ?_⟩)
        · rintro ⟨conn, hconn, hauto⟩
          rw [hasDoc_applyWrites]
          subst hk
          exact hremembered _ conn hconn _ (hmarked v (by rw [hbatch]; simp) conn hconn hauto)
        · intro source hsource
          dsimp only at hsource
          rw [sourceOf_applyWrites] at hsource
          obtain ⟨old, -, rfl⟩ := Option.map_eq_some_iff.mp hsource
          exact after_executed hexec hdistinct hlast hall old
      · push Not at hall
        obtain ⟨i, w, hi, hwk, hmiss⟩ := hall
        have hmem : w ∈ unreached batch executed := by
          refine List.mem_filterMap.mpr ⟨i, ?_, hi⟩
          obtain ⟨hlt, -⟩ := List.getElem?_eq_some_iff.mp hi
          simpa [hmiss] using hlt
        obtain ⟨u, hu, huk⟩ := hback w hmem
        rcases List.mem_append.mp hu with hu | hu
        · exact absurd (huk.trans hwk) (ofKey_eq_nil_iff.mp hnone u hu)
        · exact .inr (.inr ⟨u, hu, huk.trans hwk⟩)
    · have hother : ofKey keyOf k batch = [] := by
        rw [hphase] at hother
        exact hother
      refine .inr (.inl ⟨hnone, ?_, ?_⟩)
      · intro hauto
        rw [hasDoc_applyWrites]
        exact hstored.created hauto
      · intro source hsource
        dsimp only at hsource
        rw [sourceOf_applyWrites] at hsource
        obtain ⟨old, hold, rfl⟩ := Option.map_eq_some_iff.mp hsource
        rw [after_executed_of_none hother fun w hw => mem_executedOf hw]
        exact hstored.last old hold
    · exact .inr (.inr hlater)

theorem inv_step {a : Action} {as : List Action} (h : Inv done (pushes (a :: as)) s)
    (hstores : Stores s a)
    (hback : ∀ v ∈ lostBy s a, ∃ w ∈ s.queue.values ++ pushes as, keyOf w = keyOf v)
    (hstep : step s a = some s') : Inv (done ++ a.pushed.toList) (pushes as) s' := by
  cases a with
  | push v =>
      obtain rfl := Option.some.inj hstep
      exact h.push hstores
  | drain =>
      obtain ⟨hidle, rfl⟩ := step_drain hstep
      rw [show (Action.drain).pushed.toList = [] from rfl, List.append_nil]
      exact h.drain hidle
  | isLive live lookupOk =>
      obtain ⟨batch, hphase, ⟨rfl, rfl⟩ | ⟨rfl, rfl⟩⟩ := step_isLive hstep
      · rw [show (Action.isLive false lookupOk).pushed.toList = [] from rfl, List.append_nil]
        rw [lostBy, hphase] at hback
        exact h.drop hphase hback
      · rw [show (Action.isLive true lookupOk).pushed.toList = [] from rfl, List.append_nil]
        apply h.plan hphase
        apply planBatch_planned
        intro v hv
        apply h.writable v
        rw [State.pending, hphase]
        exact List.mem_append_left _ hv
  | insertMany reached =>
      obtain ⟨batch, inserts, writes, ordered, hphase, rfl⟩ := step_insertMany hstep
      rw [show (Action.insertMany reached).pushed.toList = [] from rfl, List.append_nil]
      rw [Stores, hphase] at hstores
      have hall : InsertsAll s.coll inserts reached := hstores
      rw [insertMany_of_all hall]
      exact h.insert hphase
  | bulkWrite executed ok =>
      obtain ⟨batch, writes, ordered, hphase, hexec, rfl⟩ := step_bulkWrite hstep
      rw [show (Action.bulkWrite executed ok).pushed.toList = [] from rfl, List.append_nil]
      rw [lostBy, hphase] at hback
      exact h.write hphase hexec hback

theorem inv_run {as : List Action} (h : Inv done (pushes as) s) (hrec : Recovered s as)
    (hrun : Run.run step s as = some s') : Inv (done ++ pushes as) [] s' := by
  induction as generalizing done s with
  | nil =>
      obtain rfl := Option.some.inj hrun
      rw [show pushes [] = [] from rfl, List.append_nil]
      exact h
  | cons a as ih =>
      obtain ⟨hstores, hback, hrest⟩ := hrec
      obtain ⟨t, ht, hrun⟩ := Run.run_cons hrun
      have hpushes : pushes (a :: as) = a.pushed.toList ++ pushes as := by
        cases ha : a.pushed <;> simp [pushes, ha]
      rw [hpushes, ← List.append_assoc]
      exact ih (inv_step h hstores hback ht) (hrest t ht) hrun

theorem inv_start {coll : List Document} {conns : ℤ → Option Connection}
    (hcoll : WellAddressed coll conns) (later : List Dnp3Value) :
    Inv [] later (start coll conns) := by
  refine ⟨fun _ hv => (List.not_mem_nil hv).elim, trivial, ?_, by simp [start, Phase.inserts],
    fun _ _ hv => by cases hv⟩
  intro n conn' hconn' a ha
  rw [show (start coll conns).phase.inserts = [] from rfl, List.append_nil]
  obtain ⟨conn, hconn, rfl⟩ := Option.map_eq_some_iff.mp hconn'
  dsimp only at ha
  split_ifs at ha with hauto
  · obtain ⟨d, hd, rfl⟩ := List.mem_map.mp ha
    obtain ⟨hd, hmatch⟩ := List.mem_filter.mp hd
    have hnum : d.lookup "protocolSourceConnectionNumber" = some (.number (.fin n)) := by
      simpa [matchesFilter, lookup_number_iff] using hmatch
    obtain ⟨g, addr, hg, haddr⟩ := hcoll d hd n ⟨conn, hconn, hauto⟩ hnum
    rw [getInt_of_lookup hg, getInt_of_lookup haddr]
    refine @sourceOf_isSome_append [] _ _ _ hd ?_
    exact matchesFilter_pointFilter.mpr ⟨hnum, hg, haddr⟩
  · cases ha

end Invariant

section Claim

theorem recovered_nothing_lost {coll : List Document} {conns : ℤ → Option Connection}
    {as : List Action} {s : State} (hcoll : WellAddressed coll conns)
    (hrun : Run.run step (start coll conns) as = some s)
    (hrec : Recovered (start coll conns) as) (hup : CaughtUp s) : NothingLost (pushes as) s := by
  have h := inv_run (inv_start hcoll (pushes as)) hrec hrun
  rw [List.nil_append] at h
  obtain ⟨hidle, hempty⟩ := hup
  have hpending : s.pending = [] := by rw [State.pending, hidle, hempty]; rfl
  constructor
  · intro k v hv
    rcases h.keeps k v hv with hlast | ⟨-, hstored⟩ | ⟨w, hw, -⟩
    · rw [hpending] at hlast
      cases hlast
    · exact hstored
    · cases hw
  · have hremembered := h.remembered
    rw [hidle, show (Phase.idle).inserts = [] from rfl, List.append_nil] at hremembered
    exact hremembered

def outstation : Connection where
  protocolConnectionNumber := 1
  name := "PLC"
  commandsEnabled := true
  autoCreateTags := true

def oneOutstation (n : ℤ) : Option Connection := if n = 1 then some outstation else none

-- A static read of a binary input.
def reading (address : ℤ) (value : Double) : Dnp3Value where
  address := address
  baseGroup := 1
  group := 1
  variation := 0
  value := value
  valueString := if value = .fin 0 then "false" else "true"
  cot := 20
  serverTimestamp := 1700000000000
  hasSourceTimestamp := false
  sourceTimestamp := 0
  timeTagOk := false
  quality := { online := true }
  connNumber := 1
  isEvent := false

-- The value that is due in an outage is let go, and so is its point until it is read again.
def outage (later : Dnp3Value) : List Action :=
  [.push (reading 3 (.fin 1)), .drain, .isLive false fun _ => true, .push later, .drain,
    .isLive true fun _ => true, .insertMany [true], .bulkWrite [0] true]

theorem reread_nothing_lost : ∃ s,
    Run.run step (start [] oneOutstation) (outage (reading 3 (.fin 0))) = some s ∧
      NothingLost (pushes (outage (reading 3 (.fin 0)))) s := by
  have hrun : (Run.run step (start [] oneOutstation) (outage (reading 3 (.fin 0)))).any
      (fun s => CaughtUp s) = true := by decide +kernel
  obtain ⟨s, hrun, hup⟩ := (Option.any_eq_true _ _).mp hrun
  exact ⟨s, hrun, recovered_nothing_lost (by simp [WellAddressed]) hrun (by decide +kernel)
    (of_decide_eq_true hup)⟩

theorem outage_loses_point : ∃ s,
    Run.run step (start [] oneOutstation) (outage (reading 4 (.fin 1))) = some s ∧ CaughtUp s ∧
      ¬NothingLost (pushes (outage (reading 4 (.fin 1)))) s := by
  have hrun : (Run.run step (start [] oneOutstation) (outage (reading 4 (.fin 1)))).any
      (fun s => CaughtUp s ∧ (s.conns 1).any (·.autoCreateTags) ∧
        (sourceOf s.coll ⟨1, 1, 3⟩).isSome = false) = true := by decide +kernel
  obtain ⟨s, hrun, hs⟩ := (Option.any_eq_true _ _).mp hrun
  obtain ⟨hup, hauto, hnone⟩ := of_decide_eq_true hs
  refine ⟨s, hrun, hup, ?_⟩
  intro h
  have hdoc := (h.stored ⟨1, 1, 3⟩ (reading 3 (.fin 1)) rfl).created
    ((Option.any_eq_true _ _).mp hauto)
  rw [HasDoc, hnone] at hdoc
  cases hdoc

end Claim

end JsonScada.Dnp3.Writer
