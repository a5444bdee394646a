import JsonScada.Iec61850.Client
import JsonScada.Iec61850.Client.Segments
import JsonScada.Library.ChangeLog

-- The client between the buffers of the server and the database: the report handlers with
-- what they have still to queue, the queue, the writer, and the EntryIDs that are saved.
namespace JsonScada.Iec61850.Client.Buffered

open JsonScada.Library

section System

structure Site where
  conn : Connection
  -- the tags of the connection, and which blocks are buffered
  tags : List Entry
  keys : (tags.map Entry.key).Nodup
  buffered : String → Bool

-- The element of a report that a value was made of.
structure Origin where
  rcb : String
  report : ℕ
  element : ℕ
deriving DecidableEq

-- A queued value. What was polled, or received by another connection, has no origin.
abbrev Item := Option Origin × IECValue

-- A report handler with the elements that it has not come to.
structure Handler where
  st : RcbState
  report : Option ℕ
  rest : List (ReportEntry × ℕ)

structure State where
  client : Client.State
  -- the reports that the server has made of each block, with the place that it has come to
  buffers : String → ChangeLog Report
  handlers : List Handler
  queue : List Item
  batch : List Item
  saved : String → Option EntryID
  -- what is in the database, and what the writer has let go unwritten since the start
  written : List Origin
  lost : List Origin

inductive Action where
  -- a report comes into the buffer of its block, in one segment or more
  | occur (ref : String) (segments : List Report)
  -- what the client does besides its reports
  | client (a : Client.Action)
  -- `own` is where the server goes on when no EntryID tells it
  | enable (ref : String) (answers : EnableAnswers) (own : ℕ)
  | report (ref : String)
  -- the report of another block that has the same RptID
  | stray (ref : String) (rep : Report)
  -- a handler goes on to its next element
  | element (now : ℤ) (handler : ℕ)
  -- a value of another connection
  | other (iv : IECValue)
  | dequeue
  -- the updates that are executed and find their tag, whatever the call returns
  | bulkWrite (stored : ℕ → Bool)
  | trim
  | save (ok : Bool)
  -- the client ends anywhere and is started again
  | crash (tags : List Entry)

def dataBufferLimit : ℕ := 20000

variable (site : Site)

-- A report has one EntryID, which no other report of the block has.
def fresh (log : ChangeLog Report) (segments : List Report) : Bool :=
  segments.all fun rep =>
    segments.all (fun rep' => rep'.entryID = rep.entryID) &&
      (rep.entryID = [] || log.events.all fun e => e.entryID ≠ rep.entryID)

-- The place behind the last segment of a report.
def behind (id : EntryID) (log : ChangeLog Report) : ℕ :=
  ChangeLog.behind (fun rep => rep.entryID = id) log.events

-- The EntryID that a block is enabled with in the end.
def resumed (s : State) (ref : String) (a : EnableAnswers) : Option EntryID :=
  if site.buffered ref && a.first ≠ .entryIDRefused then resyncEntryID s.client ref else none

def resumeAt (s : State) (ref : String) (a : EnableAnswers) (own : ℕ) : ℕ :=
  match resumed site s ref a with
  | some id => behind id (s.buffers ref)
  | none => own

def subscribed (c : Client.State) (ref : String) : Bool := c.subs.any fun sub => sub.ref = ref

-- The state of the client, and the values that it has put into the queue.
def settle (s : State) (origin : Option Origin) (c : Client.State) : State :=
  { s with
    client := { c with dataQueue := [] }
    queue := s.queue ++ c.dataQueue.map fun iv => (origin, iv) }

def receive (s : State) (st : RcbState) (report : Option ℕ) (rep : Report) : State :=
  if foreign st rep then s
  else if repeated s.client st rep then s
  else
    { s with
      client := trackReport s.client st rep
      handlers := s.handlers ++ [⟨st, report, (included rep).zipIdx⟩] }

-- The client finds the tags that were there, and with automatic creation more of them.
def Preloads (tags : List Entry) : Prop :=
  (tags.map Entry.key).Nodup ∧ (∀ e ∈ site.tags, e.key ∈ tags.map Entry.key) ∧
    (site.conn.autoCreateTags = false → ∀ e ∈ tags, e.key ∈ site.tags.map Entry.key)

instance (tags : List Entry) : Decidable (Preloads site tags) :=
  inferInstanceAs (Decidable ((tags.map Entry.key).Nodup ∧
    (∀ e ∈ site.tags, e.key ∈ tags.map Entry.key) ∧
    (site.conn.autoCreateTags = false → ∀ e ∈ tags, e.key ∈ site.tags.map Entry.key)))

def step (s : State) : Action → Option State
  | .occur ref segments =>
      if fresh (s.buffers ref) segments then
        some { s with
          buffers := Function.update s.buffers ref
            (segments.foldl ChangeLog.push (s.buffers ref)) }
      else none
  | .client a =>
      match a with
      | .enable .. | .report .. => none
      | a => (Client.step site.conn s.client a).map (settle s none)
  | .enable ref a own =>
      (Client.step site.conn s.client (.enable ref (site.buffered ref) a)).map fun c =>
        let log := s.buffers ref
        { settle s none c with
          buffers := Function.update s.buffers ref
            (if subscribed c ref then log.openAt (some (resumeAt site s ref a own)) else log) }
  | .report ref =>
      match rcb s.client ref, (s.buffers ref).next with
      | some st, some (rep, log) =>
          if subscribed s.client ref then
            some (receive { s with buffers := Function.update s.buffers ref log } st
              (some (s.buffers ref).place) rep)
          else none
      | _, _ => none
  | .stray ref rep =>
      match rcb s.client ref with
      | some st =>
          if subscribed s.client ref && st.collision then some (receive s st none rep) else none
      | none => none
  | .element now n =>
      match s.handlers[n]? with
      | some ⟨st, report, (el, k) :: rest⟩ =>
          some (settle { s with handlers := s.handlers.set n ⟨st, report, rest⟩ }
            (report.map fun i => ⟨st.ref, i, k⟩) (handleElement site.conn now st s.client el))
      | _ => none
  | .other iv => some { s with queue := s.queue ++ [(none, iv)] }
  | .dequeue =>
      match s.queue with
      | item :: queue => some { s with queue := queue, batch := s.batch ++ [item] }
      | [] => none
  | .bulkWrite stored =>
      if s.batch.isEmpty then none
      else
        some { s with
          batch := []
          written := s.written ++
            (s.batch.zipIdx.filter fun p => stored p.2).filterMap fun p => p.1.1
          lost := s.lost ++
            (s.batch.zipIdx.filter fun p => !stored p.2).filterMap fun p => p.1.1 }
  | .trim =>
      -- after a call that failed: nothing is left in the batch
      if s.batch.isEmpty then
        let n := s.queue.length - dataBufferLimit
        some { s with
          queue := s.queue.drop n
          lost := s.lost ++ (s.queue.take n).filterMap Prod.fst }
      else none
  | .save ok =>
      if s.client.phase ≠ .disconnected then
        some { s with saved := if ok then s.client.lastReportIds else s.saved }
      else none
  | .crash tags =>
      if Preloads site tags then
        some { s with
          client := Client.start tags s.saved
          handlers := []
          queue := []
          batch := []
          lost := [] }
      else none

-- The first start: no EntryID is saved, and the server has no reports in store yet.
def start : State where
  client := Client.start site.tags fun _ => none
  buffers := fun _ => ChangeLog.empty
  handlers := []
  queue := []
  batch := []
  saved := fun _ => none
  written := []
  lost := []

end System

section Values

variable (site : Site)

-- An element that a value is made of.
def carried (el : ReportEntry) : Bool :=
  el.ref ≠ "" && (site.conn.autoCreateTags || site.tags.any fun e => e.key = el.key)

-- The values of a report.
def originsAt (buffers : String → ChangeLog Report) (ref : String) (i : ℕ) : List Origin :=
  match (buffers ref).events[i]? with
  | some rep => ((included rep).zipIdx.filter fun p => carried site p.1).map fun p => ⟨ref, i, p.2⟩
  | none => []

def Handler.origins (h : Handler) : List Origin :=
  (h.rest.filter fun p => carried site p.1).filterMap fun p =>
    h.report.map fun i => ⟨h.st.ref, i, p.2⟩

-- The values that are on their way to the database.
def waiting (s : State) : List Origin :=
  s.handlers.flatMap (Handler.origins site) ++ s.queue.filterMap Prod.fst ++
    s.batch.filterMap Prod.fst

end Values

variable {site : Site} {s s' : State} {ref : String}

section Origins

theorem mem_items {items : List Item} {o : Origin} :
    o ∈ items.filterMap Prod.fst ↔ ∃ iv, (some o, iv) ∈ items := by
  rw [List.mem_filterMap]
  constructor
  · rintro ⟨⟨o', iv⟩, hmem, rfl⟩
    exact ⟨iv, hmem⟩
  · rintro ⟨iv, hmem⟩
    exact ⟨_, hmem, rfl⟩

theorem mem_waiting {o : Origin} : o ∈ waiting site s ↔
    (∃ h ∈ s.handlers, o ∈ h.origins site) ∨ (∃ iv, (some o, iv) ∈ s.queue) ∨
      ∃ iv, (some o, iv) ∈ s.batch := by
  rw [waiting, List.mem_append, List.mem_append, List.mem_flatMap, mem_items, mem_items, or_assoc]

theorem mem_handler {h : Handler} {o : Origin} : o ∈ h.origins site ↔
    ∃ p ∈ h.rest, carried site p.1 = true ∧ ∃ i, h.report = some i ∧ o = ⟨h.st.ref, i, p.2⟩ := by
  simp only [Handler.origins, List.mem_filterMap, List.mem_filter, Option.map_eq_some_iff]
  constructor
  · rintro ⟨p, ⟨hp, hcarried⟩, i, hi, rfl⟩
    exact ⟨p, hp, hcarried, i, hi, rfl⟩
  · rintro ⟨p, hp, hcarried, i, hi, rfl⟩
    exact ⟨p, ⟨hp, hcarried⟩, i, hi, rfl⟩

theorem mem_originsAt {buffers : String → ChangeLog Report} {i : ℕ} {o : Origin} :
    o ∈ originsAt site buffers ref i ↔ ∃ rep, (buffers ref).events[i]? = some rep ∧
      ∃ p ∈ (included rep).zipIdx, carried site p.1 = true ∧ o = ⟨ref, i, p.2⟩ := by
  unfold originsAt
  cases hrep : (buffers ref).events[i]? with
  | none => simp
  | some rep =>
      simp only [List.mem_map, List.mem_filter, Option.some.injEq]
      constructor
      · rintro ⟨p, ⟨hp, hcarried⟩, rfl⟩
        exact ⟨rep, rfl, p, hp, hcarried, rfl⟩
      · rintro ⟨rep, rfl, p, hp, hcarried, rfl⟩
        exact ⟨p, ⟨hp, hcarried⟩, rfl⟩

theorem rcb_of_mem_originsAt {buffers : String → ChangeLog Report} {i : ℕ} {o : Origin}
    (h : o ∈ originsAt site buffers ref i) : o.rcb = ref := by
  obtain ⟨_, _, _, _, _, rfl⟩ := mem_originsAt.mp h
  rfl

theorem originsAt_congr {buffers buffers' : String → ChangeLog Report} {i : ℕ}
    (h : (buffers' ref).events[i]? = (buffers ref).events[i]?) :
    originsAt site buffers' ref i = originsAt site buffers ref i := by
  unfold originsAt
  rw [h]

theorem originsAt_events {buffers buffers' : String → ChangeLog Report}
    (h : (buffers' ref).events = (buffers ref).events) (i : ℕ) :
    originsAt site buffers' ref i = originsAt site buffers ref i := by
  apply originsAt_congr
  rw [h]

end Origins

section Client

-- The client has an entry for every element that a value is made of, and knows its blocks.
structure Sound (site : Site) (c : Client.State) : Prop where
  keys : (c.entries.map Entry.key).Nodup
  mapped : ∀ el, mapped site.conn c el = carried site el
  blocks : ∀ st ∈ c.rcbs, st.buffered = site.buffered st.ref

variable {c c' : Client.State}

theorem Sound.congr (h : Sound site c) (hentries : c'.entries = c.entries)
    (hblocks : ∀ st ∈ c'.rcbs, st.buffered = site.buffered st.ref) : Sound site c' where
  keys := hentries ▸ h.keys
  mapped := by
    intro el
    rw [← h.mapped el]
    simp only [Client.mapped, entry, hentries]
  blocks := hblocks

theorem sound_start {tags : List Entry} (htags : Preloads site tags)
    (saved : String → Option EntryID) : Sound site (Client.start tags saved) := by
  obtain ⟨hkeys, hthere, hmore⟩ := htags
  have hsame : (Client.start tags saved).entries.map Entry.key = tags.map Entry.key := by
    rw [Client.start, List.map_map]
    rfl
  refine ⟨hsame ▸ hkeys, ?_, by simp [Client.start]⟩
  intro el
  have hentry : (entry (Client.start tags saved) el.key).isSome ↔ el.key ∈ tags.map Entry.key := by
    rw [entry_isSome, hsame]
  have htag : (site.tags.any fun e => e.key = el.key) = true ↔
      el.key ∈ site.tags.map Entry.key := by simp
  cases hauto : site.conn.autoCreateTags with
  | true => simp [Client.mapped, carried, hauto]
  | false =>
      have hiff : (entry (Client.start tags saved) el.key).isSome =
          site.tags.any fun e => e.key = el.key := by
        rw [Bool.eq_iff_iff, hentry, htag]
        constructor
        · intro hmem
          obtain ⟨e, he, hkey⟩ := List.mem_map.mp hmem
          exact hkey ▸ hmore hauto e he
        · intro hmem
          obtain ⟨e, he, hkey⟩ := List.mem_map.mp hmem
          exact hkey ▸ hthere e he
      rw [Client.mapped, carried, hauto, hiff, Bool.or_false, Bool.false_or]

theorem Sound.addEntry (h : Sound site c) (hauto : site.conn.autoCreateTags = true)
    {e : Entry} : Sound site (addEntry c e) where
  keys := keys_addEntry h.keys e
  mapped := by
    intro el
    simp [Client.mapped, carried, hauto]
  blocks := by
    unfold Client.addEntry
    split_ifs <;> exact h.blocks

theorem Sound.handleElement (h : Sound site c) (now : ℤ) (st : RcbState) (el : ReportEntry) :
    Sound site (handleElement site.conn now st c el) := by
  obtain ⟨-, hkeys, -⟩ := handleElement_queue site.conn now st h.keys el
  obtain ⟨hrcbs, -⟩ := foldl_frame site.conn now st [el] c
  refine ⟨hkeys, ?_, ?_⟩
  · intro el'
    rw [mapped_handleElement now st el el' h.keys]
    exact h.mapped el'
  · rw [List.foldl_cons, List.foldl_nil] at hrcbs
    rw [hrcbs]
    exact h.blocks

theorem lastReportIds_handleElement (conn : Connection) (now : ℤ) (st : RcbState)
    (c : Client.State) (el : ReportEntry) :
    (handleElement conn now st c el).lastReportIds = c.lastReportIds := by
  cases h : mapped conn c el with
  | false => rw [handleElement_skip now st h]
  | true =>
      obtain ⟨e, -, heq⟩ := handleElement_mapped now st h
      rw [heq]
      simp only [setEntryReport, Client.addEntry]
      split_ifs <;> rfl

-- What the client does besides its reports does not touch the blocks it is subscribed to,
-- unless it drops them.
structure Plain (c c' : Client.State) : Prop where
  ids : ∀ ref id, c'.lastReportIds ref = some id → c.lastReportIds ref = some id
  subs : c'.subs ⊆ c.subs

theorem step_client {a : Client.Action} (h : Sound site c)
    (hreport : ∀ now ref rep, a ≠ .report now ref rep)
    (henable : ∀ ref buffered answers, a ≠ .enable ref buffered answers)
    (hstep : Client.step site.conn c a = some c') : Sound site c' ∧ Plain c c' := by
  cases a with
  | report now ref rep => exact absurd rfl (hreport now ref rep)
  | enable ref buffered answers => exact absurd rfl (henable ref buffered answers)
  | connect =>
      simp only [Client.step] at hstep
      split_ifs at hstep
      obtain rfl := Option.some.inj hstep
      exact ⟨h.congr rfl (by simp), fun _ _ hid => hid, List.nil_subset _⟩
  | browse ref fc =>
      simp only [Client.step] at hstep
      split_ifs at hstep with hguard
      obtain rfl := Option.some.inj hstep
      refine ⟨h.addEntry hguard.2, ?_, ?_⟩
      · intro ref' id hid
        unfold Client.addEntry at hid
        split_ifs at hid <;> exact hid
      · unfold Client.addEntry
        split_ifs <;> exact List.Subset.refl _
  | discovered =>
      simp only [Client.step] at hstep
      split_ifs at hstep
      obtain rfl := Option.some.inj hstep
      exact ⟨h.congr rfl h.blocks, fun _ _ hid => hid, List.Subset.refl _⟩
  | poll now answers =>
      simp only [Client.step] at hstep
      split_ifs at hstep
      obtain rfl := Option.some.inj hstep
      exact ⟨h.congr rfl h.blocks, fun _ _ hid => hid, List.Subset.refl _⟩
  | close =>
      simp only [Client.step] at hstep
      split_ifs at hstep
      obtain rfl := Option.some.inj hstep
      exact ⟨h.congr rfl h.blocks, fun _ _ hid => hid, List.nil_subset _⟩

-- To enable a block leaves the other blocks alone.
structure Enabling (st : RcbState) (c c' : Client.State) : Prop where
  entries : c'.entries = c.entries
  queue : c'.dataQueue = c.dataQueue
  ids : ∀ ref id, c'.lastReportIds ref = some id → c.lastReportIds ref = some id
  subs : ∀ sub ∈ c'.subs, sub ∈ c.subs ∨ sub.ref = st.ref
  blocks : ∀ r ∈ c'.rcbs, (r.ref = st.ref ∧ r.buffered = st.buffered) ∨
    ∃ r₀ ∈ c.rcbs, r.ref = r₀.ref ∧ r.buffered = r₀.buffered

theorem registerRCB_enabling (c : Client.State) (st : RcbState) :
    Enabling st c (registerRCB c st) := by
  refine ⟨rfl, rfl, fun _ _ hid => hid, fun _ hsub => .inl hsub, ?_⟩
  intro r hr
  rcases List.mem_append.mp hr with hr | hr
  · obtain ⟨r₀, hr₀, rfl⟩ := List.mem_map.mp hr
    refine .inr ⟨r₀, hr₀, ?_⟩
    split_ifs <;> exact ⟨rfl, rfl⟩
  · obtain rfl := List.mem_singleton.mp hr
    exact .inl ⟨rfl, rfl⟩

theorem Enabling.forget {st : RcbState} (h : Enabling st c c') (ref : String) :
    Enabling st c (forgetLastReportID c' ref) := by
  refine ⟨h.entries, h.queue, ?_, h.subs, h.blocks⟩
  intro ref' id hid
  have hid : Function.update c'.lastReportIds ref none ref' = some id := hid
  by_cases heq : ref' = ref
  · rw [heq, Function.update_self] at hid
    cases hid
  · rw [Function.update_of_ne heq] at hid
    exact h.ids ref' id hid

theorem activateRCB_enabling (c : Client.State) (st : RcbState) (a : EnableAnswers) :
    Enabling st c (activateRCB c st a) := by
  have hprepared : ∀ b : Bool, Enabling st c
      (if b then forgetLastReportID (registerRCB c st) st.ref else registerRCB c st) := by
    intro b
    cases b
    · exact registerRCB_enabling c st
    · exact (registerRCB_enabling c st).forget st.ref
  have h := hprepared (st.buffered && (resyncEntryID c st.ref).isSome &&
    decide (a.first = .entryIDRefused))
  simp only [activateRCB]
  split
  · refine ⟨h.entries, h.queue, h.ids, ?_, h.blocks⟩
    intro sub hsub
    rcases List.mem_append.mp hsub with hsub | hsub
    · exact h.subs sub hsub
    · obtain rfl := List.mem_singleton.mp hsub
      exact .inr rfl
  · exact ⟨h.entries, h.queue, h.ids, h.subs, h.blocks⟩

theorem step_enable {ref : String} {buffered : Bool} {a : EnableAnswers}
    (hstep : Client.step site.conn c (.enable ref buffered a) = some c') :
    ∃ st : RcbState, st.ref = ref ∧ st.buffered = buffered ∧ Enabling st c c' := by
  simp only [Client.step] at hstep
  split_ifs at hstep
  obtain rfl := Option.some.inj hstep
  have hsame : ∀ rcb : RCB, Enabling (rcbState ref buffered rcb) c c := fun rcb =>
    ⟨rfl, rfl, fun _ _ hid => hid, fun _ hsub => .inl hsub,
      fun r hr => .inr ⟨r, hr, rfl, rfl⟩⟩
  unfold enableRCB
  split_ifs
  · exact ⟨rcbState ref buffered ⟨"", ""⟩, rfl, rfl, hsame _⟩
  · cases a.rcb with
    | none => exact ⟨rcbState ref buffered ⟨"", ""⟩, rfl, rfl, hsame _⟩
    | some rcb =>
        refine ⟨rcbState ref buffered rcb, rfl, rfl, ?_⟩
        dsimp only
        split_ifs
        · exact hsame rcb
        · exact hsame rcb
        · exact activateRCB_enabling c _ a

theorem Sound.enable {st : RcbState} (h : Sound site c) (hen : Enabling st c c')
    (hst : st.buffered = site.buffered st.ref) : Sound site c' := by
  apply h.congr hen.entries
  intro r hr
  rcases hen.blocks r hr with ⟨href, hbuffered⟩ | ⟨r₀, hr₀, href, hbuffered⟩
  · rw [href, hbuffered]
    exact hst
  · rw [href, hbuffered]
    exact h.blocks r₀ hr₀

end Client

section Uninterrupted

variable {conn : Connection} {c : Client.State}

theorem addEntry_queued (c : Client.State) (queue : List IECValue) (e : Entry) :
    addEntry { c with dataQueue := queue } e = { addEntry c e with dataQueue := queue } := by
  unfold addEntry
  by_cases hthere : (entry c e.key).isSome
  · rw [if_pos hthere]
    exact if_pos hthere
  · rw [if_neg hthere]
    exact if_neg hthere

-- What was in the queue before makes no difference to an element.
theorem handleElement_queued (conn : Connection) (now : ℤ) (st : RcbState) (c : Client.State)
    (queue : List IECValue) (el : ReportEntry) :
    handleElement conn now st { c with dataQueue := queue } el =
      { handleElement conn now st { c with dataQueue := [] } el with
        dataQueue :=
          queue ++ (handleElement conn now st { c with dataQueue := [] } el).dataQueue } := by
  have hsame : ∀ q, mapped conn { c with dataQueue := q } el = mapped conn c el := fun _ => rfl
  cases hmapped : mapped conn c el with
  | false =>
      rw [handleElement_skip now st ((hsame _).trans hmapped),
        handleElement_skip now st ((hsame _).trans hmapped), List.append_nil]
  | true =>
      obtain ⟨e, he, heq⟩ := handleElement_mapped now st ((hsame queue).trans hmapped)
      obtain ⟨e', he', heq'⟩ := handleElement_mapped now st ((hsame []).trans hmapped)
      rw [addEntry_queued c queue] at he
      rw [addEntry_queued c []] at he'
      have hentry : some e = some e' := he.symm.trans he'
      obtain rfl := Option.some.inj hentry
      rw [heq, heq', addEntry_queued c queue, addEntry_queued c []]
      rfl

theorem foldl_queued (conn : Connection) (now : ℤ) (st : RcbState) (c : Client.State)
    (queue : List IECValue) (els : List ReportEntry) :
    els.foldl (handleElement conn now st) { c with dataQueue := queue } =
      { els.foldl (handleElement conn now st) { c with dataQueue := [] } with
        dataQueue := queue ++
          (els.foldl (handleElement conn now st) { c with dataQueue := [] }).dataQueue } := by
  induction els generalizing c queue with
  | nil => simp
  | cons el els ih =>
      rw [List.foldl_cons, List.foldl_cons, handleElement_queued, ih,
        ih (handleElement conn now st { c with dataQueue := [] } el)
          (handleElement conn now st { c with dataQueue := [] } el).dataQueue]
      simp only [List.append_assoc]

-- A handler that nothing comes between does what is left of its report.
theorem elements_run (site : Site) (now : ℤ) {s : State} {n k : ℕ} {st : RcbState}
    {report : Option ℕ} {els : List ReportEntry}
    (hn : s.handlers[n]? = some ⟨st, report, els.zipIdx k⟩) (hempty : s.client.dataQueue = []) :
    ∃ t, Run.run (step site) s (List.replicate els.length (.element now n)) = some t ∧
      t.client = { els.foldl (handleElement site.conn now st) s.client with dataQueue := [] } ∧
      t.queue.map Prod.snd = s.queue.map Prod.snd ++
        (els.foldl (handleElement site.conn now st) s.client).dataQueue := by
  induction els generalizing s k with
  | nil =>
      refine ⟨s, rfl, ?_, ?_⟩
      · rw [List.foldl_nil, ← hempty]
      · rw [List.foldl_nil, hempty, List.append_nil]
  | cons el els ih =>
      have hlt : n < s.handlers.length := (List.getElem?_eq_some_iff.mp hn).1
      let next : State :=
        settle { s with handlers := s.handlers.set n ⟨st, report, els.zipIdx (k + 1)⟩ }
          (report.map fun i => ⟨st.ref, i, k⟩) (handleElement site.conn now st s.client el)
      have hstep : step site s (.element now n) = some next := by
        rw [List.zipIdx_cons] at hn
        simp only [step, hn]
        rfl
      have hnext : next.handlers[n]? = some ⟨st, report, els.zipIdx (k + 1)⟩ :=
        List.getElem?_set_self hlt
      obtain ⟨t, hrun, hclient, hqueue⟩ := ih hnext rfl
      have hfold := foldl_queued site.conn now st (handleElement site.conn now st s.client el)
        (handleElement site.conn now st s.client el).dataQueue els
      refine ⟨t, ?_, ?_, ?_⟩
      · rw [List.length_cons, List.replicate_succ, Run.run, hstep]
        exact hrun
      · rw [hclient, List.foldl_cons]
        have := congrArg (fun c : Client.State => { c with dataQueue := [] }) hfold
        exact this.symm
      · rw [hqueue, List.foldl_cons, hfold]
        simp [next, settle, List.map_append, List.append_assoc]

-- What comes of a report that is handled with nothing in between.
theorem report_uninterrupted (site : Site) (now : ℤ) {s : State} {st : RcbState} {rep : Report}
    (report : Option ℕ) (hempty : s.client.dataQueue = []) (hforeign : foreign st rep = false)
    (hrepeated : repeated s.client st rep = false) :
    ∃ t, Run.run (step site) (receive s st report rep)
        (List.replicate (included rep).length (.element now s.handlers.length)) = some t ∧
      ∃ processed, { t.client with processed := processed } =
        { reportHandler site.conn now s.client st rep with dataQueue := [] } ∧
      t.queue.map Prod.snd =
        s.queue.map Prod.snd ++ (reportHandler site.conn now s.client st rep).dataQueue := by
  have hreceive : receive s st report rep =
      { s with
        client := trackReport s.client st rep
        handlers := s.handlers ++ [⟨st, report, (included rep).zipIdx⟩] } := by
    rw [receive, hforeign, hrepeated, if_neg Bool.false_ne_true, if_neg Bool.false_ne_true]
  have hhandler : (receive s st report rep).handlers[s.handlers.length]? =
      some ⟨st, report, (included rep).zipIdx⟩ := by
    rw [hreceive]
    exact List.getElem?_concat_length
  have hqueue : (receive s st report rep).client.dataQueue = [] := by
    rw [hreceive, ← hempty]
    unfold trackReport
    split_ifs <;> rfl
  obtain ⟨t, hrun, hclient, hvalues⟩ := elements_run site now hhandler hqueue
  rw [hreceive] at hclient hvalues
  have hhandled : reportHandler site.conn now s.client st rep =
      { (included rep).foldl (handleElement site.conn now st) (trackReport s.client st rep) with
        processed := ((included rep).foldl (handleElement site.conn now st)
          (trackReport s.client st rep)).processed ++ [(st.ref, rep.entryID, rep.subSeqNum)] } := by
    rw [reportHandler, hforeign, hrepeated, if_neg Bool.false_ne_true, if_neg Bool.false_ne_true]
  refine ⟨t, hrun, ((included rep).foldl (handleElement site.conn now st)
    (trackReport s.client st rep)).processed ++ [(st.ref, rep.entryID, rep.subSeqNum)], ?_, ?_⟩
  · rw [hclient, hhandled]
  · rw [hvalues, hhandled]

end Uninterrupted

end JsonScada.Iec61850.Client.Buffered
