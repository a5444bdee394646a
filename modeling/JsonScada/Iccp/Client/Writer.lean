import JsonScada.Iccp.Client
import JsonScada.Iccp.Client.Coverage
import JsonScada.Library.Run
import JsonScada.Processor.Bson

-- The writers of the ICCP client: each is bound to the database client that it was started with,
-- and all of them receive from one channel.
namespace JsonScada.Iccp.Client

open JsonScada.Library
open JsonScada.Processor (Value)

def dataChanSize : ℕ := 50000

def batchSize : ℕ := 5000

-- What the filter of an update selects by.
abbrev Key := ℤ × String

def DataUpdate.key (u : DataUpdate) : Key :=
  (u.protocolSourceConnectionNumber, u.protocolSourceObjectAddress)

-- A document of `realtimeData`, without its `sourceDataUpdate`.
structure Doc where
  connection : ℤ
  data : RtData
  command : Bool

-- A text equals the field, or an element of it where it is an array.
def equalsText (s : String) : Value → Bool
  | .array items => decide (Value.string s ∈ items)
  | v => decide (v = .string s)

def Doc.selected (k : Key) (d : Doc) : Bool :=
  decide (d.connection = k.1) && equalsText k.2 d.data.protocolSourceObjectAddress

structure Database where
  pl : Platform
  hoursShift : ℤ → Double
  docs : List Doc

-- The update of a value that is received for a document: none for a command, and none where the
-- address maps to no object.
def Database.updateFor (db : Database) (d : Doc) (dv : Option DataValue) (now : ℤ) :
    Option DataUpdate :=
  if d.command then none
  else
    (buildTagMappings db.pl [d.data]).head?.map fun m =>
      dataValueToUpdate db.pl ⟨d.connection, db.hoursShift d.connection⟩ dv m now

structure Writer where
  -- whether its database client has not been disconnected
  connected : Bool := true
  batch : List DataUpdate := []

structure Writing where
  -- `sourceDataUpdate` of each document
  source : ℕ → Option DataUpdate
  connected : Bool := false
  writers : List Writer := []
  dataChan : List DataUpdate := []
  -- what was received for each document
  received : ℕ → Option DataUpdate := fun _ => none

-- `UpdateOne`: the first document that the filter selects
def Database.updateOne (db : Database) (source : ℕ → Option DataUpdate) (u : DataUpdate) :
    ℕ → Option DataUpdate :=
  match db.docs.findIdx? (Doc.selected u.key) with
  | some i => Function.update source i (some u)
  | none => source

inductive Work where
  -- the main loop: connects and starts a writer, or a ping fails and it disconnects
  | connect
  | pingFailed
  | receive (i : ℕ) (dv : Option DataValue) (now : ℤ)
  | take (w : ℕ)
  -- the writes that the server executes, and whether the call succeeds
  | flush (w : ℕ) (executed : List DataUpdate) (ok : Bool)

-- What the server can execute of a batch: no order is promised, all of it where the call succeeds,
-- and nothing for a client that is disconnected.
def Writer.executes (wr : Writer) (executed : List DataUpdate) (ok : Bool) : Bool :=
  if ok then wr.connected && decide (executed.Perm wr.batch)
  else decide (executed.Subperm wr.batch) && (wr.connected || executed.isEmpty)

def Database.step (db : Database) (s : Writing) : Work → Option Writing
  | .connect =>
      if s.connected then none
      else some { s with connected := true, writers := s.writers ++ [{}] }
  | .pingFailed =>
      if s.connected then
        some { s with
          connected := false
          writers := s.writers.map fun wr => { wr with connected := false } }
      else none
  | .receive i dv now =>
      (db.docs[i]?.bind fun d => db.updateFor d dv now).map fun u =>
        { s with
          received := Function.update s.received i (some u)
          dataChan := if s.dataChan.length < dataChanSize then s.dataChan ++ [u] else s.dataChan }
  | .take w =>
      match s.writers[w]?, s.dataChan with
      | some wr, u :: rest =>
          if wr.batch.length < batchSize then
            some { s with
              dataChan := rest
              writers := s.writers.set w { wr with batch := wr.batch ++ [u] } }
          else none
      | _, _ => none
  | .flush w executed ok =>
      match s.writers[w]? with
      | some wr =>
          if wr.batch ≠ [] ∧ wr.executes executed ok = true then
            some { s with
              source := executed.foldl db.updateOne s.source
              writers := s.writers.set w { wr with batch := [] } }
          else none
      | none => none

def writingStart (source : ℕ → Option DataUpdate) : Writing where
  source := source

-- No value is waiting.
def Writing.Idle (s : Writing) : Prop := s.dataChan = [] ∧ ∀ wr ∈ s.writers, wr.batch = []

instance (s : Writing) : Decidable s.Idle := inferInstanceAs (Decidable (_ ∧ _))

-- What is stored for each tag is the last value that was received for it.
def Writing.UpToDate (s : Writing) : Prop := ∀ i u, s.received i = some u → s.source i = some u

-- The filter of a tag's updates selects its own document.
def Database.Addressed (db : Database) : Prop :=
  ∀ i d, db.docs[i]? = some d → ∀ dv now u, db.updateFor d dv now = some u →
    db.docs.findIdx? (Doc.selected u.key) = some i ∧
      d.data.protocolSourceObjectAddress = .string u.protocolSourceObjectAddress

-- A value that is received finds room, is taken by a writer whose client is connected, and its
-- bulk write succeeds and keeps the order of the values of a tag.
def Undisturbed (s : Writing) : Work → Prop
  | .receive _ _ _ => s.dataChan.length < dataChanSize
  | .take w => ∃ wr ∈ s.writers[w]?, wr.connected = true
  | .flush w executed ok =>
      ok = true ∧ ∃ wr ∈ s.writers[w]?, ∀ u ∈ wr.batch,
        ofKey DataUpdate.key u.key executed = ofKey DataUpdate.key u.key wr.batch
  | _ => True

instance (s : Writing) : (a : Work) → Decidable (Undisturbed s a)
  | .receive _ _ _ => inferInstanceAs (Decidable (_ < _))
  | .take _ => inferInstanceAs (Decidable (∃ _ ∈ _, _ = true))
  | .flush _ _ _ => inferInstanceAs (Decidable (_ ∧ ∃ _ ∈ _, ∀ _ ∈ _, _ = _))
  | .connect | .pingFailed => .isTrue trivial

section Keys

variable {db : Database} {i : ℕ} {k : Key}

theorem withValue_key (pl : Platform) (dv : DataValue) (dp : PointData) (upd : DataUpdate) :
    (withValue pl dv dp upd).key = upd.key := by
  unfold withValue
  repeat' split
  all_goals rfl

theorem withQuality_key (quality : Option (Validity × CurrentSource)) (upd : DataUpdate) :
    (withQuality quality upd).key = upd.key := by
  unfold withQuality
  repeat' split
  all_goals rfl

theorem dataValueToUpdate_key (pl : Platform) (conn : Connection) (dv : Option DataValue)
    (m : TagMapping) (now : ℤ) :
    (dataValueToUpdate pl conn dv m now).key =
      (conn.protocolConnectionNumber, objAddrToString pl m.tag.protocolSourceObjectAddress) := by
  cases dv with
  | none => rfl
  | some dv => exact (withQuality_key _ _).trans (withValue_key pl dv _ _)

theorem tag_of_mem {pl : Platform} {tags : List RtData} {m : TagMapping}
    (h : m ∈ buildTagMappings pl tags) : m.tag ∈ tags := by
  obtain ⟨t, ht, hm⟩ := List.mem_filterMap.mp h
  dsimp only at hm
  split at hm
  · cases hm
  · obtain ⟨ref, -, rfl⟩ := Option.map_eq_some_iff.mp hm
    exact ht

theorem updateFor_key {d : Doc} {dv : Option DataValue} {now : ℤ} {u : DataUpdate}
    (h : db.updateFor d dv now = some u) :
    u.key = (d.connection, objAddrToString db.pl d.data.protocolSourceObjectAddress) := by
  unfold Database.updateFor at h
  split at h
  · cases h
  · obtain ⟨m, hm, rfl⟩ := Option.map_eq_some_iff.mp h
    have htag := List.mem_singleton.mp (tag_of_mem (List.mem_of_head? hm))
    rw [dataValueToUpdate_key, htag]

-- The key of a document that the filter of its updates selects.
def Mine (db : Database) (i : ℕ) (k : Key) : Prop :=
  ∃ d, db.docs[i]? = some d ∧ d.data.protocolSourceObjectAddress = .string k.2 ∧
    db.docs.findIdx? (Doc.selected k) = some i

theorem mine_of_received (haddr : db.Addressed) {d : Doc} {dv : Option DataValue} {now : ℤ}
    {u : DataUpdate} (hd : db.docs[i]? = some d) (hu : db.updateFor d dv now = some u) :
    Mine db i u.key := by
  obtain ⟨hfirst, htext⟩ := haddr i d hd dv now u hu
  exact ⟨d, hd, htext, hfirst⟩

theorem selected_of_first {p : Doc → Bool} (h : db.docs.findIdx? p = some i) {d : Doc}
    (hd : db.docs[i]? = some d) : p d = true := by
  obtain ⟨hi, hp, -⟩ := List.findIdx?_eq_some_iff_getElem.mp h
  rw [List.getElem?_eq_getElem hi] at hd
  obtain rfl := Option.some.inj hd
  exact hp

theorem key_of_selected {d : Doc} {s : String} {k' : Key}
    (hd : d.data.protocolSourceObjectAddress = .string s) (h : d.selected k' = true) :
    k' = (d.connection, s) := by
  rw [Doc.selected, Bool.and_eq_true, hd] at h
  obtain ⟨hconn, htext⟩ := h
  have htext : s = k'.2 := Processor.Value.string.inj (of_decide_eq_true htext)
  rw [of_decide_eq_true hconn, htext]

-- One update goes to the document of its own key, and to that one only.
theorem updateOne_at (h : Mine db i k) (source : ℕ → Option DataUpdate) (u : DataUpdate) :
    db.updateOne source u i = if u.key = k then some u else source i := by
  obtain ⟨d, hd, htext, hfirst⟩ := h
  unfold Database.updateOne
  by_cases hk : u.key = k
  · rw [hk, hfirst, if_pos rfl]
    exact Function.update_self i (some u) source
  · rw [if_neg hk]
    cases hother : db.docs.findIdx? (Doc.selected u.key) with
    | none => rfl
    | some j =>
        have hji : j ≠ i := by
          rintro rfl
          have hu := key_of_selected htext (selected_of_first hother hd)
          have hme := key_of_selected htext (selected_of_first hfirst hd)
          exact hk (hu.trans hme.symm)
        exact Function.update_of_ne hji.symm (some u) source

theorem updateAll_at (h : Mine db i k) (source : ℕ → Option DataUpdate) (us : List DataUpdate) :
    us.foldl db.updateOne source i = (ofKey DataUpdate.key k us).getLast?.or (source i) := by
  induction us using List.reverseRecOn with
  | nil => rfl
  | append_singleton us u ih =>
      rw [List.foldl_append, List.foldl_cons, List.foldl_nil, updateOne_at h, ofKey_append]
      by_cases hk : u.key = k
      · rw [if_pos hk, ofKey_cons_self _ hk, ofKey_nil, List.getLast?_concat, Option.some_or]
      · rw [if_neg hk, ofKey_cons_ne _ hk, ofKey_nil, List.append_nil, ih]

end Keys

section Invariant

variable {db : Database} {s s' : Writing}

-- What was received and is not yet written.
def Writing.pending (s : Writing) : List DataUpdate := s.writers.flatMap Writer.batch ++ s.dataChan

-- One writer at most has a connected client: the last one.
def Clients (s : Writing) : Prop :=
  ∃ (closed : List Writer) (current : Option Writer), s.writers = closed ++ current.toList ∧
    (∀ wr ∈ closed, wr.connected = false) ∧ current.isSome = s.connected ∧
    ∀ wr ∈ current, wr.connected = true

-- A value is in the batch of a writer that cannot write it any more.
def Stuck (s : Writing) : Prop := ∃ wr ∈ s.writers, wr.connected = false ∧ wr.batch ≠ []

-- The last value that was received for a tag is the last one that waits, or else it is stored.
def Kept (db : Database) (s : Writing) : Prop :=
  ∀ i u, s.received i = some u → ∃ k, Mine db i k ∧
    (ofKey DataUpdate.key k s.pending).getLast?.or (s.source i) = some u

structure Inv (db : Database) (s : Writing) : Prop where
  clients : Clients s
  kept : Stuck s ∨ Kept db s

theorem inv_start (source : ℕ → Option DataUpdate) : Inv db (writingStart source) where
  clients := ⟨[], none, rfl, by simp, rfl, by simp⟩
  kept := .inr fun i u h => by cases h

theorem Kept.congr (h : Kept db s) (hpending : ∀ k, ofKey DataUpdate.key k s'.pending =
    ofKey DataUpdate.key k s.pending) (hsource : s'.source = s.source)
    (hreceived : s'.received = s.received) : Kept db s' := by
  intro i u hu
  rw [hreceived] at hu
  obtain ⟨k, hk, hlast⟩ := h i u hu
  refine ⟨k, hk, ?_⟩
  rw [hpending, hsource]
  exact hlast

theorem Inv.connect (h : Inv db s) (hstep : db.step s .connect = some s') : Inv db s' := by
  rw [Database.step] at hstep
  split at hstep
  · cases hstep
  · next hdown =>
    obtain rfl := Option.some.inj hstep
    obtain ⟨⟨closed, current, hwriters, hclosed, hsome, -⟩, hkept⟩ := h
    have hnone : current = none := by
      cases current with
      | none => rfl
      | some wr => exact absurd hsome.symm hdown
    subst hnone
    constructor
    · refine ⟨closed, some {}, ?_, hclosed, rfl, ?_⟩
      · simp [hwriters]
      · rintro wr ⟨⟩
        rfl
    · rcases hkept with ⟨wr, hwr, hstuck⟩ | hkept
      · exact .inl ⟨wr, List.mem_append_left _ hwr, hstuck⟩
      · right
        apply hkept.congr
        · intro k
          simp [Writing.pending]
        · rfl
        · rfl

theorem Inv.pingFailed (h : Inv db s) (hstep : db.step s .pingFailed = some s') : Inv db s' := by
  rw [Database.step] at hstep
  split at hstep
  · obtain rfl := Option.some.inj hstep
    obtain ⟨-, hkept⟩ := h
    constructor
    · refine ⟨s.writers.map fun wr => { wr with connected := false }, none, by simp, ?_, rfl, by simp⟩
      intro wr hwr
      obtain ⟨wr', -, rfl⟩ := List.mem_map.mp hwr
      rfl
    · rcases hkept with ⟨wr, hwr, -, hbatch⟩ | hkept
      · exact .inl ⟨{ wr with connected := false }, List.mem_map_of_mem hwr, rfl, hbatch⟩
      · right
        apply hkept.congr
        · intro k
          simp [Writing.pending, List.flatMap_map]
        · rfl
        · rfl
  · cases hstep

theorem Inv.receive (haddr : db.Addressed) (h : Inv db s) {i : ℕ} {dv : Option DataValue} {now : ℤ}
    (hroom : s.dataChan.length < dataChanSize)
    (hstep : db.step s (.receive i dv now) = some s') : Inv db s' := by
  rw [Database.step, Option.map_eq_some_iff] at hstep
  obtain ⟨u, hu, rfl⟩ := hstep
  obtain ⟨d, hd, hu⟩ := Option.bind_eq_some_iff.mp hu
  obtain ⟨hclients, hkept⟩ := h
  refine ⟨hclients, ?_⟩
  rcases hkept with hstuck | hkept
  · exact .inl hstuck
  · right
    have hmine := mine_of_received haddr hd hu
    rw [if_pos hroom]
    intro j v hv
    have hpending (k : Key) : ofKey DataUpdate.key k
        (s.writers.flatMap Writer.batch ++ (s.dataChan ++ [u])) =
          ofKey DataUpdate.key k s.pending ++ ofKey DataUpdate.key k [u] := by
      rw [← List.append_assoc, ofKey_append]
      rfl
    by_cases hj : j = i
    · subst hj
      obtain rfl : u = v := by simpa using hv
      refine ⟨u.key, hmine, ?_⟩
      change (ofKey DataUpdate.key u.key (s.writers.flatMap Writer.batch ++
        (s.dataChan ++ [u]))).getLast?.or (s.source j) = some u
      rw [hpending, ofKey_cons_self _ rfl, ofKey_nil, List.getLast?_concat, Option.some_or]
    · dsimp only at hv
      rw [Function.update_of_ne hj] at hv
      obtain ⟨k, hk, hlast⟩ := hkept j v hv
      have hne : u.key ≠ k := by
        rintro rfl
        obtain ⟨-, -, -, hfirst⟩ := hmine
        obtain ⟨-, -, -, hfirst'⟩ := hk
        exact hj (Option.some.inj (hfirst'.symm.trans hfirst))
      refine ⟨k, hk, ?_⟩
      change (ofKey DataUpdate.key k (s.writers.flatMap Writer.batch ++
        (s.dataChan ++ [u]))).getLast?.or (s.source j) = some v
      rw [hpending, ofKey_cons_ne _ hne, ofKey_nil, List.append_nil]
      exact hlast

-- A writer whose client is connected stands behind all others.
theorem last_of_connected (h : Clients s) {w : ℕ} {wr : Writer} (hwr : s.writers[w]? = some wr)
    (hconnected : wr.connected = true) :
    ∃ closed, s.writers = closed ++ [wr] ∧ closed.length = w ∧
      (∀ wr ∈ closed, wr.connected = false) ∧ s.connected = true := by
  obtain ⟨closed, current, hwriters, hclosed, hsome, -⟩ := h
  rw [hwriters] at hwr
  by_cases hw : w < closed.length
  · rw [List.getElem?_append_left hw] at hwr
    have := hclosed wr (List.mem_of_getElem? hwr)
    rw [hconnected] at this
    cases this
  · rw [List.getElem?_append_right (by omega)] at hwr
    cases current with
    | none => cases hwr
    | some wr' =>
        obtain ⟨hlt, heq⟩ := List.getElem?_eq_some_iff.mp hwr
        have hzero : w - closed.length = 0 := by
          simp at hlt
          omega
        simp only [hzero, Option.toList_some, List.getElem_cons_zero] at heq
        subst heq
        exact ⟨closed, hwriters, by omega, hclosed, hsome.symm⟩

-- What the last writer does leaves the others as they are.
theorem set_last {closed : List Writer} {wr wr' : Writer} {w : ℕ} (hw : closed.length = w) :
    (closed ++ [wr]).set w wr' = closed ++ [wr'] := set_at hw

theorem clients_last {closed : List Writer} {wr : Writer} (hwriters : s.writers = closed ++ [wr])
    (hclosed : ∀ wr ∈ closed, wr.connected = false) (hwr : wr.connected = true)
    (hconnected : s.connected = true) : Clients s := by
  refine ⟨closed, some wr, hwriters, hclosed, hconnected.symm, ?_⟩
  rintro _ ⟨⟩
  exact hwr

theorem flatMap_closed {closed : List Writer} (hempty : ∀ wr ∈ closed, wr.batch = []) (wr : Writer) :
    (closed ++ [wr]).flatMap Writer.batch = wr.batch := by
  rw [List.flatMap_append, List.flatMap_eq_nil_iff.mpr hempty, List.nil_append,
    List.flatMap_singleton]

-- A value that is stuck stays where it is.
theorem stuck_last {closed : List Writer} {wr wr' : Writer} (hwriters : s.writers = closed ++ [wr])
    (hconnected : wr.connected = true) (hwriters' : s'.writers = closed ++ [wr']) (h : Stuck s) :
    Stuck s' := by
  obtain ⟨wr'', hwr'', hclosed, hbatch⟩ := h
  rw [hwriters] at hwr''
  rcases List.mem_append.mp hwr'' with hwr'' | hwr''
  · exact ⟨wr'', hwriters' ▸ List.mem_append_left _ hwr'', hclosed, hbatch⟩
  · obtain rfl := List.mem_singleton.mp hwr''
    rw [hconnected] at hclosed
    cases hclosed

theorem closed_empty {closed : List Writer} {wr : Writer} (hwriters : s.writers = closed ++ [wr])
    (hclosed : ∀ wr ∈ closed, wr.connected = false) (h : ¬Stuck s) : ∀ wr ∈ closed, wr.batch = [] := by
  intro wr' hwr'
  by_contra hbatch
  exact h ⟨wr', hwriters ▸ List.mem_append_left _ hwr', hclosed wr' hwr', hbatch⟩

theorem Inv.take (h : Inv db s) {w : ℕ} (hok : ∃ wr ∈ s.writers[w]?, wr.connected = true)
    (hstep : db.step s (.take w) = some s') : Inv db s' := by
  obtain ⟨wr, hwr, hconnected⟩ := hok
  obtain ⟨closed, hwriters, hw, hclosed, hup⟩ := last_of_connected h.clients hwr hconnected
  rw [Database.step, hwr] at hstep
  cases hchan : s.dataChan with
  | nil =>
      rw [hchan] at hstep
      cases hstep
  | cons u rest =>
      rw [hchan] at hstep
      dsimp only at hstep
      split at hstep
      · obtain rfl := Option.some.inj hstep
        rw [hwriters, set_last hw]
        constructor
        · exact clients_last rfl hclosed hconnected hup
        · rcases h.kept with hstuck | hkept
          · exact .inl (stuck_last hwriters hconnected rfl hstuck)
          · by_cases hstuck : Stuck s
            · exact .inl (stuck_last hwriters hconnected rfl hstuck)
            · right
              have hempty := closed_empty hwriters hclosed hstuck
              apply hkept.congr
              · intro k
                simp only [Writing.pending, hwriters, flatMap_closed hempty, hchan,
                  List.append_assoc, List.singleton_append]
              · rfl
              · rfl
      · cases hstep

theorem ofKey_of_order {executed batch : List DataUpdate} (hperm : executed.Perm batch)
    (h : ∀ u ∈ batch, ofKey DataUpdate.key u.key executed = ofKey DataUpdate.key u.key batch)
    (k : Key) : ofKey DataUpdate.key k executed = ofKey DataUpdate.key k batch := by
  by_cases hk : ∃ u ∈ batch, u.key = k
  · obtain ⟨u, hu, rfl⟩ := hk
    exact h u hu
  · have hbatch : ∀ u ∈ batch, u.key ≠ k := fun u hu hkey => hk ⟨u, hu, hkey⟩
    rw [ofKey_eq_nil hbatch, ofKey_eq_nil fun u hu => hbatch u (hperm.mem_iff.mp hu)]

theorem Inv.flush (h : Inv db s) {w : ℕ} {executed : List DataUpdate} {ok : Bool}
    (hok : ok = true ∧ ∃ wr ∈ s.writers[w]?, ∀ u ∈ wr.batch,
      ofKey DataUpdate.key u.key executed = ofKey DataUpdate.key u.key wr.batch)
    (hstep : db.step s (.flush w executed ok) = some s') : Inv db s' := by
  obtain ⟨rfl, wr, hwr, horder⟩ := hok
  rw [Database.step, hwr] at hstep
  dsimp only at hstep
  split at hstep
  · next hexec =>
    obtain rfl := Option.some.inj hstep
    obtain ⟨hconnected, hperm⟩ : wr.connected = true ∧ executed.Perm wr.batch := by
      have := hexec.2
      rw [Writer.executes, if_pos rfl, Bool.and_eq_true] at this
      exact ⟨this.1, of_decide_eq_true this.2⟩
    obtain ⟨closed, hwriters, hw, hclosed, hup⟩ := last_of_connected h.clients hwr hconnected
    rw [hwriters, set_last hw]
    constructor
    · exact clients_last rfl hclosed hconnected hup
    · by_cases hstuck : Stuck s
      · exact .inl (stuck_last hwriters hconnected rfl hstuck)
      · right
        have hempty := closed_empty hwriters hclosed hstuck
        intro i u hu
        obtain ⟨k, hk, hlast⟩ := h.kept.resolve_left hstuck i u hu
        refine ⟨k, hk, ?_⟩
        rw [← hlast]
        simp only [Writing.pending, hwriters, flatMap_closed hempty, List.nil_append, ofKey_append]
        rw [updateAll_at hk, ofKey_of_order hperm horder k, List.getLast?_append, Option.or_assoc]
  · cases hstep

theorem Inv.step (haddr : db.Addressed) (h : Inv db s) {a : Work} (hok : Undisturbed s a)
    (hstep : db.step s a = some s') : Inv db s' := by
  cases a with
  | connect => exact h.connect hstep
  | pingFailed => exact h.pingFailed hstep
  | receive i dv now => exact h.receive haddr hok hstep
  | take w => exact h.take hok hstep
  | flush w executed ok => exact h.flush hok hstep

end Invariant

-- However often the database is lost, a run whose steps are undisturbed leaves every tag with the
-- last value that was received for it, when no value is waiting.
theorem last_received_stored (db : Database) (source : ℕ → Option DataUpdate) (haddr : db.Addressed)
    (as : List Work) (s : Writing) (hrun : Run.run db.step (writingStart source) as = some s)
    (hok : Run.Allowed db.step Undisturbed (writingStart source) as) (hidle : s.Idle) :
    s.UpToDate := by
  have hinv : Inv db s :=
    Run.invariant (fun s a s' h hok hstep => h.step haddr hok hstep) (inv_start source) hok hrun
  obtain ⟨hchan, hbatch⟩ := hidle
  intro i u hu
  have hkept : Kept db s := by
    apply hinv.kept.resolve_left
    rintro ⟨wr, hwr, -, hstuck⟩
    exact hstuck (hbatch wr hwr)
  obtain ⟨k, -, hlast⟩ := hkept i u hu
  have hpending : s.pending = [] := by
    rw [Writing.pending, hchan, List.flatMap_eq_nil_iff.mpr hbatch]
    rfl
  rw [hpending, ofKey_nil, List.getLast?_nil, Option.none_or] at hlast
  exact hlast

section Samples

def twoPoints : Database where
  pl := plain
  hoursShift := fun _ => .fin 0
  docs := [⟨1, pointTag "a" "Dom/A", false⟩, ⟨1, pointTag "b" "Dom/B", false⟩]

theorem twoPoints_addressed : twoPoints.Addressed := by
  intro i d hd dv now u hu
  have hkey := updateFor_key hu
  match i with
  | 0 =>
      obtain rfl := Option.some.inj hd
      rw [hkey]
      exact ⟨rfl, congrArg Processor.Value.string (congrArg Prod.snd hkey).symm⟩
  | 1 =>
      obtain rfl := Option.some.inj hd
      rw [hkey]
      exact ⟨rfl, congrArg Processor.Value.string (congrArg Prod.snd hkey).symm⟩
  | _ + 2 => cases hd

-- The first writer is idle when the database is lost, and takes nothing after that.
def survived : List Work :=
  [.connect, .receive 0 closedSwitch 5, .take 0, .flush 0 [switchUpdate 5] true, .pingFailed,
    .connect, .receive 0 closedSwitch 9, .take 1, .flush 1 [switchUpdate 9] true]

theorem survived_stored :
    ∃ s, Run.run twoPoints.step (writingStart fun _ => none) survived = some s ∧ s.UpToDate := by
  have hsome : (Run.run twoPoints.step (writingStart fun _ => none) survived).isSome = true := by
    decide
  have hok : Run.Allowed twoPoints.step Undisturbed (writingStart fun _ => none) survived := by
    decide
  have hidle : ∀ s ∈ Run.run twoPoints.step (writingStart fun _ => none) survived, s.Idle := by
    decide
  obtain ⟨s, hrun⟩ := Option.isSome_iff_exists.mp hsome
  exact ⟨s, hrun, last_received_stored twoPoints _ twoPoints_addressed survived s hrun hok
    (hidle s hrun)⟩

-- The writer of the lost client takes the value, and drops it.
def takenByDead : List Work :=
  [.connect, .pingFailed, .connect, .receive 0 closedSwitch 5, .take 0, .flush 0 [] false]

theorem dead_writer_drops :
    ∃ s, Run.run twoPoints.step (writingStart fun _ => none) takenByDead = some s ∧ s.Idle ∧
      ¬s.UpToDate := by
  have hrun : ∃ s ∈ Run.run twoPoints.step (writingStart fun _ => none) takenByDead,
      s.Idle ∧ s.received 0 = some (switchUpdate 5) ∧ s.source 0 = none := by
    decide
  obtain ⟨s, hs, hidle, hreceived, hstored⟩ := hrun
  refine ⟨s, hs, hidle, fun hup => ?_⟩
  rw [hup 0 _ hreceived] at hstored
  cases hstored

end Samples

end JsonScada.Iccp.Client
