import JsonScada.JsTags
import JsonScada.Library.Run
import JsonScada.OpcUa.Client.Browse
import JsonScada.OpcUa.Client.Subscribe
import JsonScada.OpcUa.Client.Tags

-- A connection that discovers its tags, beside the writer that inserts them.
namespace JsonScada.OpcUa.Client.Discovery

open JsonScada.Library
open JsonScada.Processor (Document Value)

def bulkWriteLimit : ℕ := 6000

-- Where the loop of the connection stands. A discovery that fails ends the session, and the
-- tags are read back.
inductive Phase where
  | down
  | browsing
  | reading (nodes : List Entry)
  | examining (batch : List ((Entry × NodeInfo) × ReadValue)) (nodes : List Entry)
  | subscribed
  | failed
  | cleared
  | emptied
  | preloading (docs : List Document)

-- Where the writer stands: taking values, or at a new one, before its key or before the second
-- key of a pair.
inductive Writing where
  | draining (writes : List WriteModel)
  | tagging (ov : OPCValue) (update : Option WriteModel) (writes : List WriteModel)
  | pairing (ov : OPCValue) (update : Option WriteModel) (key : Double) (writes : List WriteModel)

structure State where
  conn : Connection
  phase : Phase := .down
  nextPtr : ℕ
  queue : List OPCValue := []
  writing : Writing := .draining []
  -- operations that were sent without an acknowledgement
  inFlight : List WriteModel := []
  coll : List Document
  -- whether the tags have been read back since they were last cleared
  loaded : Bool := true
  -- the items that the session began with
  listed : List MonItem := []

inductive Action where
  | connect
  | browsed (entries : List Entry)
  -- the session is lost while browsing or reading
  | discoveryFailed
  | readBatch (infos : List NodeInfo) (values : Option (List ReadValue))
  | skipBatch
  | examine (now : ℤ)
  | discovered
  | lose
  | reload (reached : Bool)
  | resetKeys
  | find (ok : Bool)
  | commit
  -- a notification, of this session or of one before
  | receive (it : MonItem) (v : DataValue) (now : ℤ)
  | dequeueValue
  -- the answer to the lookup of the highest _id
  | nextKey (lookupOk : Bool)
  | bulkWrite
  -- an operation in flight is executed, or lost
  | execute (i : ℕ) (ok : Bool)

-- Every node has been read, and the subscriptions are open.
def State.isSubscribed (s : State) : Bool :=
  match s.phase with
  | .subscribed => true
  | _ => false

section Loop

def valuesOf (n : ℕ) : Option (List ReadValue) → List ReadValue
  | some values => if values.length = n then values else List.replicate n .unread
  | none => List.replicate n .unread

-- What ResetDiscovery clears under its lock.
def clearDiscovery (c : Connection) : Connection :=
  { c.resetDiscovery with tagKeys := c.tagKeys }

variable (rt : Runtime) (topics : List String)

def loopStep (s : State) : Action → Option State
  | .connect =>
      match s.phase with
      | .down =>
          let conn := s.conn.setClient true
          some { s with
            conn := conn
            phase := if conn.autoCreateTags then .browsing else .subscribed
            listed := conn.listMon }
      | _ => none
  | .browsed entries =>
      match s.phase with
      | .browsing =>
          if (entries.map Entry.key).Nodup ∧
              ∀ e ∈ entries, e.ref.nodeId.map NodeId.text = some e.key then
            some { s with phase := .reading (toRead topics s.conn.commandsEnabled entries) }
          else none
      | _ => none
  | .discoveryFailed =>
      match s.phase with
      | .browsing | .reading (_ :: _) =>
          some { s with conn := s.conn.setClient false, phase := .failed }
      | _ => none
  | .readBatch infos values =>
      match s.phase with
      | .reading (e :: nodes) =>
          let batch := (e :: nodes).take maxNodesToRead
          if infos.length = batch.length then
            some { s with
              phase := .examining ((batch.zip infos).zip (valuesOf batch.length values))
                ((e :: nodes).drop maxNodesToRead) }
          else none
      | _ => none
  | .skipBatch =>
      match s.phase with
      | .reading (e :: nodes) =>
          some { s with phase := .reading ((e :: nodes).drop maxNodesToRead) }
      | _ => none
  | .examine now =>
      match s.phase with
      | .examining (((e, info), rv) :: batch) nodes =>
          let (conn, queued) := autotagNode topics s.conn s.nextPtr e info rv now
          some { s with
            conn := conn
            queue := s.queue ++ queued
            nextPtr := s.nextPtr + 1
            phase := .examining batch nodes }
      | .examining [] nodes => some { s with phase := .reading nodes }
      | _ => none
  | .discovered =>
      match s.phase with
      | .reading [] => some { s with phase := .subscribed }
      | _ => none
  | .lose =>
      match s.phase with
      | .subscribed => some { s with conn := s.conn.setClient false, phase := .down }
      | _ => none
  | .reload reached =>
      match s.phase with
      | .failed =>
          if reached then
            some { s with conn := clearDiscovery s.conn, phase := .cleared, loaded := false }
          else some { s with phase := .down }
      | _ => none
  | .resetKeys =>
      match s.phase with
      | .cleared => some { s with conn := { s.conn with tagKeys := {} }, phase := .emptied }
      | _ => none
  | .find ok =>
      match s.phase with
      | .emptied =>
          if ok then
            some { s with phase := .preloading (tagsOf s.coll s.conn.protocolConnectionNumber) }
          -- the error is logged, and the connection goes on without its tags
          else some { s with phase := .down }
      | _ => none
  | .commit =>
      match s.phase with
      | .preloading docs =>
          let p := preload rt s.nextPtr docs
          some { s with
            conn := s.conn.commitPreloadedTags p.listMon p.subs p.addrs
            nextPtr := s.nextPtr + docs.length
            phase := .down
            loaded := true }
      | _ => none
  | _ => none

end Loop

section Writer

variable (rt : Runtime)

-- A value whose update is too large still makes its tag, without the value.
def withoutValue (ov : OPCValue) : OPCValue := { ov with valueString := "", valueJSON := "" }

-- The command twin first, then the tag, which points at it.
def pairOf (c : Connection) (ov : OPCValue) (key next : Double) : List WriteModel :=
  [.insertOne (commandDoc ov key), .insertOne (tagDoc c ov next key)]

def hasTwin (c : Connection) (ov : OPCValue) : Bool :=
  c.commandsEnabled && ov.createCommandForSupervised

-- Whether a value makes a tag.
def isNew (c : Connection) (ov : OPCValue) : Bool :=
  ov.selfPublish && ov.connNumber = c.protocolConnectionNumber && !c.hasInsertedAddress ov.address

def writerStep (s : State) : Action → Option State
  | .dequeueValue =>
      match s.writing, s.queue with
      | .draining writes, ov :: queue =>
          if writes.length < bulkWriteLimit then
            let update := updateModel rt ov
            if isNew s.conn ov then
              some { s with
                conn := (s.conn.addInsertedAddress ov.address).1
                queue := queue
                writing := .tagging (if update.isNone then withoutValue ov else ov) update writes }
            else some { s with queue := queue, writing := .draining (writes ++ update.toList) }
          else none
      | _, _ => none
  | .nextKey lookupOk =>
      match s.writing with
      | .draining _ => none
      | .tagging ov update writes =>
          let (keys, key) := s.conn.tagKeys.next s.coll lookupOk ov.connNumber
          let conn := { s.conn with tagKeys := keys }
          let ov := withDetails conn ov
          if hasTwin conn ov then
            some { s with conn := conn, writing := .pairing ov update key writes }
          else
            some { s with
              conn := conn
              writing :=
                .draining (writes ++ .insertOne (tagDoc conn ov key (.fin 0)) :: update.toList) }
      | .pairing ov update key writes =>
          let (keys, next) := s.conn.tagKeys.next s.coll lookupOk ov.connNumber
          let conn := { s.conn with tagKeys := keys }
          some { s with
            conn := conn
            writing := .draining (writes ++ pairOf conn ov key next ++ update.toList) }
  | .bulkWrite =>
      match s.writing with
      | .draining (w :: writes) =>
          some { s with inFlight := s.inFlight ++ w :: writes, writing := .draining [] }
      | _ => none
  | .execute i ok =>
      match s.inFlight[i]? with
      | some w =>
          some { s with
            coll := if ok then w.apply s.coll else s.coll
            inFlight := s.inFlight.eraseIdx i }
      | none => none
  | .receive it v now =>
      some { s with queue := s.queue ++ [Subscribe.opcValue s.conn it v now] }
  | _ => none

end Writer

def step (rt : Runtime) (topics : List String) (s : State) (a : Action) : Option State :=
  (loopStep rt topics s a).or (writerStep rt s a)

-- The connection after the start of the driver.
def start (rt : Runtime) (coll : List Document) (c : Connection) : State :=
  let docs := tagsOf coll c.protocolConnectionNumber
  let p := preload rt 0 docs
  { conn := { c.commitPreloadedTags p.listMon p.subs p.addrs with tagKeys := {} }
    nextPtr := docs.length
    coll := coll }

end JsonScada.OpcUa.Client.Discovery

namespace JsonScada.OpcUa.Client

open JsonScada.Library
open JsonScada.JsMongo
open JsonScada.JsTags
open JsonScada.Processor (Document Value applySet lookup_applySet)

-- What a browse has recorded is taken over, whatever the server answered.
theorem Discovery.browsed_of_run {rt : Runtime} {topics : List String} {space : AddressSpace}
    {rootPath : String} {limit : ℕ} {origin : NodeId} {as : List Client.Action} {b : Client.State}
    (hrun : Run.run (Client.step space rootPath) (Client.start limit origin) as = some b)
    {s : State} (hphase : s.phase = .browsing) :
    Discovery.step rt topics s (.browsed b.entries) = some { s with
      phase := .reading (toRead topics s.conn.commandsEnabled b.entries) } := by
  have hkeyed := keyed_of_browse hrun
  simp only [step, loopStep, hphase, if_pos (And.intro hkeyed.once hkeyed.text), Option.some_or]

section Tags

-- What tells a tag and its twin.
structure Tag where
  key : Option Double
  conn : Option Double
  address : String
  origin : String
  asdu : String
  supervisedOfCommand : Option Double
deriving DecidableEq

def tagOf (d : Document) : Tag where
  key := d.num "_id"
  conn := d.num "protocolSourceConnectionNumber"
  address := d.str "protocolSourceObjectAddress"
  origin := d.str "origin"
  asdu := d.str "protocolSourceASDU"
  supervisedOfCommand := d.num "supervisedOfCommand"

theorem tagOf_congr {d d' : Document}
    (h : ∀ key ∈ ["_id", "protocolSourceConnectionNumber", "protocolSourceObjectAddress", "origin",
      "protocolSourceASDU", "supervisedOfCommand"], d'.lookup key = d.lookup key) :
    tagOf d' = tagOf d := by
  simp only [tagOf, Document.num, Document.str, h _ (by simp : "_id" ∈ _),
    h _ (by simp : "protocolSourceConnectionNumber" ∈ _),
    h _ (by simp : "protocolSourceObjectAddress" ∈ _), h _ (by simp : "origin" ∈ _),
    h _ (by simp : "protocolSourceASDU" ∈ _), h _ (by simp : "supervisedOfCommand" ∈ _)]

theorem tagOf_applySet {d set : Document}
    (h : ∀ key ∈ ["_id", "protocolSourceConnectionNumber", "protocolSourceObjectAddress", "origin",
      "protocolSourceASDU", "supervisedOfCommand"], set.reverse.lookup key = none) :
    tagOf (applySet d set) = tagOf d :=
  tagOf_congr fun key hkey => by rw [lookup_applySet, h key hkey, Option.none_or]

theorem tagOf_withIntervals (d : Document) (p s q : Double) :
    tagOf (withIntervals d p s q) = tagOf d :=
  tagOf_applySet (by simp [List.lookup_cons])

theorem tagOf_setSource (d : Document) (v : Value) :
    tagOf (applySet d [("sourceDataUpdate", v)]) = tagOf d :=
  tagOf_applySet (by simp [List.lookup_cons])

-- The tag of a new document.
theorem tagOf_newRealtimeDoc (ov : OPCValue) (id c : Double) :
    tagOf (newRealtimeDoc ov id c) =
      { key := some id
        conn := some (.fin ov.connNumber)
        address := ov.address
        origin := if ov.isCommand then "command" else "supervised"
        asdu := ov.asdu
        supervisedOfCommand := some (if ov.createCommandForSupervised then succ id else .fin 0) } := by
  have hshape : ∀ key ∈ ["_id", "protocolSourceConnectionNumber", "protocolSourceObjectAddress",
      "protocolSourceASDU"], (shapeOf ov id).reverse.lookup key = none := by
    intro key hkey
    simp only [List.mem_cons, List.not_mem_nil, or_false] at hkey
    unfold shapeOf digitalTexts
    dsimp only
    split_ifs <;> rcases hkey with rfl | rfl | rfl | rfl <;> rfl
  have hcommand : ov.isCommand = true →
      (shapeOf ov id).reverse.lookup "origin" = some (.string "command") ∧
        (shapeOf ov id).reverse.lookup "supervisedOfCommand" = some (.number
          (if ov.createCommandForSupervised then succ id else .fin 0)) := by
    intro hc
    unfold shapeOf digitalTexts succ
    dsimp only
    rw [if_pos hc]
    split_ifs <;> exact ⟨rfl, rfl⟩
  have hplain : ov.isCommand = false →
      (shapeOf ov id).reverse.lookup "origin" = none ∧
        (shapeOf ov id).reverse.lookup "supervisedOfCommand" = none := by
    intro hc
    unfold shapeOf digitalTexts
    dsimp only
    rw [hc, if_neg Bool.false_ne_true]
    split_ifs <;> exact ⟨rfl, rfl⟩
  have hlookup : ∀ key, (newRealtimeDoc ov id c).lookup key =
      ((shapeOf ov id).reverse.lookup key).or _ := fun key => lookup_applySet _ _ key
  simp only [tagOf, Document.num, Document.str, hlookup, lookup_applySet,
    hshape _ (by simp : "_id" ∈ _), hshape _ (by simp : "protocolSourceConnectionNumber" ∈ _),
    hshape _ (by simp : "protocolSourceObjectAddress" ∈ _),
    hshape _ (by simp : "protocolSourceASDU" ∈ _)]
  cases hc : ov.isCommand with
  | true =>
      rw [(hcommand hc).1, (hcommand hc).2]
      simp [List.lookup_cons]
  | false =>
      rw [(hplain hc).1, (hplain hc).2]
      have hs : ov.createCommandForSupervised = false := (Bool.or_eq_false_iff.mp hc).2
      simp [List.lookup_cons, hs]

theorem tagOf_tagDoc (c : Connection) (ov : OPCValue) (key command : Double) :
    tagOf (tagDoc c ov key command) =
      { key := some key
        conn := some (.fin ov.connNumber)
        address := ov.address
        origin := if ov.createCommandForMethod then "command" else "supervised"
        asdu := ov.asdu
        supervisedOfCommand := some (.fin 0) } := by
  rw [tagDoc, tagOf_withIntervals, tagOf_newRealtimeDoc]
  simp [OPCValue.isCommand]

theorem tagOf_commandDoc {ov : OPCValue} (h : ov.createCommandForSupervised = true) (key : Double) :
    tagOf (commandDoc ov key) =
      { key := some key
        conn := some (.fin ov.connNumber)
        address := ov.address
        origin := "command"
        asdu := ov.asdu
        supervisedOfCommand := some (succ key) } := by
  rw [commandDoc, tagOf_withIntervals, tagOf_newRealtimeDoc]
  simp [OPCValue.isCommand, h]

end Tags

section Preload

variable {rt : Runtime}

theorem addrs_foldl_preloadTag (docs : List (Document × ℕ)) (p : Preloaded) (a : String) :
    a ∈ (docs.foldl (fun p d => preloadTag rt p d.2 d.1) p).addrs ↔
      a ∈ p.addrs ∨ ∃ d ∈ docs, (tagOf d.1).address = a := by
  induction docs generalizing p with
  | nil => simp
  | cons d docs ih =>
      have hone : a ∈ (preloadTag rt p d.2 d.1).addrs ↔ a = (tagOf d.1).address ∨ a ∈ p.addrs := by
        unfold preloadTag
        dsimp only
        split_ifs <;> exact List.mem_cons
      rw [List.foldl_cons, ih, hone]
      simp only [List.mem_cons, exists_eq_or_imp]
      constructor
      · rintro ((rfl | h) | h)
        · exact .inr (.inl rfl)
        · exact .inl h
        · exact .inr (.inr h)
      · rintro (h | rfl | h)
        · exact .inl (.inr h)
        · exact .inl (.inl rfl)
        · exact .inr h

-- Every tag that is read marks its address.
theorem mem_preload_addrs {ptr : ℕ} {docs : List Document} {a : String} :
    a ∈ (preload rt ptr docs).addrs ↔ ∃ d ∈ docs, (tagOf d).address = a := by
  rw [preload, addrs_foldl_preloadTag]
  constructor
  · rintro (h | ⟨d, hd, ha⟩)
    · cases h
    · exact ⟨d.1, List.fst_mem_of_mem_zipIdx hd, ha⟩
  · rintro ⟨d, hd, ha⟩
    obtain ⟨i, hi, rfl⟩ := List.getElem_of_mem hd
    refine .inr ⟨(docs[i], ptr + i), ?_, ha⟩
    exact List.mk_mem_zipIdx_iff_le_and_getElem?_sub.mpr (by simp [hi])

theorem mem_tagsOf {coll : List Document} {n : ℤ} {d : Document} :
    d ∈ tagsOf coll n ↔ d ∈ coll ∧ (tagOf d).conn = some (.fin n) := by
  rw [tagsOf, List.mem_filter]
  refine and_congr_right fun _ => ?_
  simp only [matchesFilter, List.all_cons, List.all_nil, Bool.and_true, lookup_number_iff, tagOf,
    Document.num]
  cases d.lookup "protocolSourceConnectionNumber" with
  | none => simp
  | some v => cases v <;> simp

end Preload

section Writes

variable {coll : List Document}

def WriteModel.inserted : WriteModel → Option Document
  | insertOne d => some d
  | updateOne _ _ => none

def inserts (writes : List WriteModel) : List Document := writes.filterMap WriteModel.inserted

@[simp] theorem inserts_append (ws ws' : List WriteModel) :
    inserts (ws ++ ws') = inserts ws ++ inserts ws' :=
  List.filterMap_append

theorem inserts_update {rt : Runtime} {ov : OPCValue} :
    inserts (updateModel rt ov).toList = [] := by
  unfold updateModel
  dsimp only
  split_ifs <;> rfl

theorem inserts_eraseIdx {ws : List WriteModel} {i : ℕ} {w : WriteModel} (h : ws[i]? = some w) :
    (w.inserted.toList ++ inserts (ws.eraseIdx i)).Perm (inserts ws) := by
  obtain ⟨hi, rfl⟩ := List.getElem?_eq_some_iff.mp h
  have hperm := (List.getElem_cons_eraseIdx_perm hi).filterMap WriteModel.inserted
  rw [List.filterMap_cons] at hperm
  cases hw : ws[i].inserted with
  | none =>
      rw [hw] at hperm
      exact hperm
  | some d =>
      rw [hw] at hperm
      exact hperm

theorem map_tagOf_update (filter sdu : Document) :
    ((WriteModel.updateOne filter sdu).apply coll).map tagOf = coll.map tagOf :=
  Table.map_updateFirst (fun d => tagOf_setSource d _) coll

-- A document whose key is new is stored.
theorem apply_insert {d : Document} {key : Double} (hd : (tagOf d).key = some key)
    (hnew : ∀ t ∈ coll.map tagOf, t.key ≠ some key) :
    (WriteModel.insertOne d).apply coll = coll ++ [d] := by
  have hlookup : d.lookup "_id" = some (.number key) := by
    simp only [tagOf, Document.num] at hd
    split at hd
    · rename_i x hx
      rw [hx, Option.some.inj hd]
    · cases hd
  rw [WriteModel.apply, insertOne_of_new hlookup, Option.getD_some]
  intro c hc hkey
  apply hnew (tagOf c) (List.mem_map_of_mem hc)
  simp [tagOf, Document.num, hkey]

end Writes

end JsonScada.OpcUa.Client
