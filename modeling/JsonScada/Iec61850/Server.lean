import JsonScada.JsMongo
import JsonScada.Library.ChangeLog
import JsonScada.Library.LastWrite
import JsonScada.Library.Run

namespace JsonScada.Iec61850.Server

open JsonScada.Library
open JsonScada.JsMongo
open JsonScada.Processor (Document Value)

section Points

-- A document of realtimeData, reduced to what the server shows of it.
structure Point where
  id : Double
  tag : String
  type : String
  origin : String
  group1 : String
  value : Double
  valueString : String
  invalid : Bool
  substituted : Bool
  overflow : Bool
  transient : Bool
  timeTagAtSource : Option ℤ
  timeTagAtSourceOk : Bool
deriving DecidableEq

def getString (doc : Document) (key : String) (default : String) : String :=
  match doc.lookup key with
  | some (.string s) => s
  | _ => default

-- An absent quality flag means unknown, which is invalid.
def pointFromDoc (doc : Document) : Point where
  id := getDouble doc "_id" (.fin 0)
  tag := getString doc "tag" ""
  type := getString doc "type" "digital"
  origin := getString doc "origin" ""
  group1 := getString doc "group1" ""
  value := getDouble doc "value" (.fin 0)
  valueString := getString doc "valueString" ""
  invalid := getBool doc "invalid" true
  substituted := getBool doc "substituted" false
  overflow := getBool doc "overflow" false
  transient := getBool doc "transient" false
  timeTagAtSource := doc.timeOf "timeTagAtSource"
  timeTagAtSourceOk := getBool doc "timeTagAtSourceOk" false

def Point.isCommand (p : Point) : Bool := p.origin = "command"

structure ServerConnection where
  protocolConnectionNumber : ℤ
  topics : List String
  commandsEnabled : Bool

variable (conn : ServerConnection)

def inTopics (doc : Document) : Bool :=
  conn.topics.isEmpty ||
    (doc.lookup "group1").any fun v => conn.topics.any fun t => sameValue v (.string t)

-- What the snapshot and the change stream both ask of a document.
def exposed (doc : Document) : Bool :=
  (doc.num "_id").any (fun id => Double.lt (.fin 0) id) && inTopics conn doc

def selectPoints (coll : List Document) : List Point :=
  let docs := coll.filter fun d => exposed conn d &&
    d.num "protocolSourceConnectionNumber" ≠ some (.fin conn.protocolConnectionNumber) &&
    (conn.commandsEnabled || d.str "origin" ≠ "command")
  ((docs.map pointFromDoc).filter fun p => p.tag ≠ "").mergeSort fun p q => !Double.lt q.id p.id

end Points

section Model

-- The classes that a point is mapped to.
inductive PointKind where
  | sps | mv | vss | spc | apc
deriving DecidableEq

-- A tag with its place in the model: the data object that is its own.
structure MappedPoint where
  tag : String
  kind : PointKind
  isCommand : Bool
  objRef : ℕ
deriving DecidableEq

def mapPoint (objRef : ℕ) (p : Point) : MappedPoint :=
  let typ := p.type.toLower
  { tag := p.tag
    kind :=
      if p.isCommand && typ = "analog" then .apc
      else if p.isCommand then .spc
      else if typ = "analog" then .mv
      else if typ = "string" || typ = "json" then .vss
      else .sps
    isCommand := p.isCommand
    objRef := objRef }

def buildModel (points : List Point) : List MappedPoint := points.mapIdx mapPoint

-- The tags of a collection are different.
def byTag (built : List MappedPoint) (tag : String) : Option MappedPoint :=
  built.find? fun mp => mp.tag = tag

end Model

section Update

structure PointUpdate where
  point : MappedPoint
  value : Double
  valueString : String
  invalid : Bool
  substituted : Bool
  overflow : Bool
  transient : Bool
  test : Bool := false
  sourceTime : Option ℤ
  sourceTimeOk : Bool
deriving DecidableEq

def updateFromPoint (mp : MappedPoint) (p : Point) : PointUpdate where
  point := mp
  value := p.value
  valueString := p.valueString
  invalid := p.invalid
  substituted := p.substituted
  overflow := p.overflow
  transient := p.transient
  sourceTime := p.timeTagAtSource
  sourceTimeOk := p.timeTagAtSourceOk

inductive Validity where
  | good | invalid | questionable
deriving DecidableEq

structure Quality where
  validity : Validity := .good
  overflow : Bool := false
  oscillatory : Bool := false
  substituted : Bool := false
  test : Bool := false
deriving DecidableEq

def mapQuality (upd : PointUpdate) : Quality where
  validity :=
    if upd.invalid then .invalid
    else if upd.overflow || upd.transient then .questionable
    else .good
  overflow := !upd.invalid && upd.overflow
  oscillatory := !upd.invalid && upd.transient
  substituted := upd.substituted
  test := upd.test

-- To single precision, ties to even.
def float32 : Double → Double
  | .fin q =>
      if q = 0 then .fin 0
      else
        let ulp := Double.pow2 (max (Double.exponent |q| - 23) (-149))
        let r := (Double.roundEven (q / ulp) : ℚ) * ulp
        if Double.pow2 128 ≤ |r| then .inf (decide (q < 0)) else .fin r
  | x => x

inductive MmsValue where
  | bool (b : Bool)
  | float32 (x : Double)
  | visibleString (s : String)
deriving DecidableEq

def valueOf (upd : PointUpdate) : MmsValue :=
  match upd.point.kind with
  | .sps | .spc => .bool (!Double.eq upd.value (.fin 0))
  | .mv | .apc => .float32 (Server.float32 upd.value)
  | .vss => .visibleString upd.valueString

structure UtcTime where
  ms : ℤ
  clockNotSynchronized : Bool
deriving DecidableEq

structure Attributes where
  t : UtcTime
  q : Quality
  value : MmsValue
deriving DecidableEq

-- What is served at each data object: nothing of the database before the first update.
abbrev Served := ℕ → Option Attributes

def applyUpdate (now : ℤ) (tx : Served) (upd : PointUpdate) : Served :=
  Function.update tx upd.point.objRef
    (some
      { t := { ms := upd.sourceTime.getD now
               clockNotSynchronized := upd.sourceTime.isNone || !upd.sourceTimeOk }
        q := mapQuality upd
        value := valueOf upd })

-- A command is an output, and not pushed.
def updateOf (built : List MappedPoint) (p : Point) : Option PointUpdate :=
  match byTag built p.tag with
  | none => none
  | some mp => if mp.isCommand then none else some (updateFromPoint mp p)

def pushed (built : List MappedPoint) (doc : Document) : Option PointUpdate :=
  let p := pointFromDoc doc
  if p.tag = "" then none else updateOf built p

end Update

section Database

def docId (d : Document) : Option Double := d.num "_id"

-- What happens to the collection. An update comes with the document that it leaves.
inductive Change where
  | insert (doc : Document)
  | update (doc : Document) (updatedFields : List String)
  | replace (doc : Document)
  | delete (id : Option Double)

inductive Operation where
  | insert
  | update (updatedFields : List String)
  | replace (doc : Document)
  | delete

structure Event where
  id : Option Double
  operation : Operation

def Change.event : Change → Event
  | insert doc => ⟨docId doc, .insert⟩
  | update doc fields => ⟨docId doc, .update fields⟩
  | replace doc => ⟨docId doc, .replace doc⟩
  | delete id => ⟨id, .delete⟩

-- The document that a change leaves.
def Change.doc : Change → Option Document
  | insert doc | update doc _ | replace doc => some doc
  | delete _ => none

def findDoc (coll : List Document) (id : Option Double) : Option Document :=
  coll.find? fun d => docId d = id

-- The _id is unique, and so is the tag.
def Apart (d e : Document) : Prop :=
  docId d ≠ docId e ∧ (d.str "tag" = e.str "tag" → d.str "tag" = "")

instance (d e : Document) : Decidable (Apart d e) := inferInstanceAs (Decidable (_ ∧ _))

def Change.apply (coll : List Document) (c : Change) : Option (List Document) :=
  let others := coll.filter fun d => docId d ≠ c.event.id
  match c with
  | .insert doc => if ∀ d ∈ coll, Apart d doc then some (coll ++ [doc]) else none
  | .update doc _ | .replace doc =>
      if (findDoc coll c.event.id).isSome ∧ ∀ d ∈ others, Apart d doc then
        some (coll.map fun d => if docId d = docId doc then doc else d)
      else none
  | .delete _ => some others

variable (conn : ServerConnection)

-- An update comes with the document as it is when the event is read.
def fullDocument (coll : List Document) (e : Event) : Option Document :=
  match e.operation with
  | .update _ => findDoc coll e.id
  | .replace doc => some doc
  | .insert | .delete => none

def csMatch (doc : Document) (e : Event) : Bool :=
  match e.operation with
  | .update fields => !fields.contains "sourceDataUpdate" && exposed conn doc
  | .replace _ => true
  | .insert | .delete => false

-- What is queued for an event.
def received (built : List MappedPoint) (coll : List Document) (e : Event) : Option PointUpdate :=
  (fullDocument coll e).bind fun doc => if csMatch conn doc e then pushed built doc else none

end Database

section Process

def updateBatchLimit : ℕ := 500

-- How far `main` has come: the model is built, the listener is bound, the initial values
-- are applied.
inductive Startup where
  | loading | binding | bound | serving
deriving DecidableEq

structure State where
  coll : List Document
  log : ChangeLog Event
  startup : Startup
  points : List Point
  built : List MappedPoint
  watching : Bool
  updateQueue : List PointUpdate
  -- taken off the queue by the update loop
  upd : Option PointUpdate
  served : Served

inductive Action where
  | change (c : Change)
  | selectPoints
  -- a new stream starts at the end of the log
  | watch (ok : Bool)
  | next (decoded : Bool)
  | fail
  | bind (ok : Bool)
  | applyInitialValues (now : ℤ)
  | dequeue
  -- one transaction of the update loop
  | update (now : ℤ)

variable (conn : ServerConnection)

def initialUpdates (built : List MappedPoint) (points : List Point) : List PointUpdate :=
  points.filterMap (updateOf built)

def step (s : State) : Action → Option State
  | .change c =>
      (c.apply s.coll).map fun coll => { s with coll := coll, log := s.log.push c.event }
  | .selectPoints =>
      match s.startup with
      | .loading =>
          let points := Server.selectPoints conn s.coll
          some { s with startup := .binding, points := points, built := buildModel points }
      | _ => none
  | .watch ok =>
      if s.startup = .loading ∨ s.watching then none
      else if ok then some { s with log := s.log.openAt none, watching := true }
      else some s
  | .next decoded =>
      if s.watching then
        s.log.next.map fun r =>
          { s with
            log := r.2
            updateQueue := s.updateQueue ++
              if decoded then (received conn s.built s.coll r.1).toList else [] }
      else none
  | .fail => if s.watching then some { s with watching := false } else none
  | .bind ok =>
      match s.startup with
      | .binding => some { s with startup := if ok then .bound else .binding }
      | _ => none
  | .applyInitialValues now =>
      match s.startup with
      | .bound =>
          some { s with
            served := (initialUpdates s.built s.points).foldl (applyUpdate now) s.served
            startup := .serving }
      | _ => none
  | .dequeue =>
      match s.startup, s.upd, s.updateQueue with
      | .bound, none, u :: us | .serving, none, u :: us =>
          some { s with upd := some u, updateQueue := us }
      | _, _, _ => none
  | .update now =>
      s.upd.map fun u =>
        { s with
          served :=
            (u :: s.updateQueue.take (updateBatchLimit - 1)).foldl (applyUpdate now) s.served
          upd := none
          updateQueue := s.updateQueue.drop (updateBatchLimit - 1) }

-- The process starts on a collection that is there.
def start (coll : List Document) : State where
  coll := coll
  log := .empty
  startup := .loading
  points := []
  built := []
  watching := false
  updateQueue := []
  upd := none
  served := fun _ => none

end Process

section Collection

variable {coll coll' : List Document} {c : Change} {d : Document} {id : Option Double}

theorem Apart.symm {d e : Document} (h : Apart d e) : Apart e d :=
  ⟨h.1.symm, fun htag => htag.trans (h.2 htag.symm)⟩

theorem findDoc_eq_some (hcoll : coll.Pairwise Apart) :
    findDoc coll id = some d ↔ d ∈ coll ∧ docId d = id := by
  constructor
  · intro h
    exact ⟨List.mem_of_find?_eq_some h, by simpa using List.find?_some h⟩
  · rintro ⟨hd, rfl⟩
    cases hfind : findDoc coll (docId d) with
    | none =>
        have := List.find?_eq_none.mp hfind d hd
        simp at this
    | some e =>
        have he : docId e = docId d := by simpa using List.find?_some hfind
        by_contra hne
        have hsymm : Std.Symm Apart := ⟨fun _ _ h => h.symm⟩
        exact (hcoll.forall hd (List.mem_of_find?_eq_some hfind) (by simpa using Ne.symm hne)).1
          he.symm

-- Two documents of one tag are one.
theorem eq_of_tag (hcoll : coll.Pairwise Apart) {e : Document} (hd : d ∈ coll) (he : e ∈ coll)
    (htag : d.str "tag" = e.str "tag") (hne : d.str "tag" ≠ "") : docId d = docId e := by
  by_contra hid
  have hsymm : Std.Symm Apart := ⟨fun _ _ h => h.symm⟩
  have hde : d ≠ e := fun h => hid (congrArg docId h)
  exact hne ((hcoll.forall hd he hde).2 htag)

-- What a change does to the collection.
structure Applied (c : Change) (coll coll' : List Document) : Prop where
  apart : coll'.Pairwise Apart
  others : ∀ id, id ≠ c.event.id → findDoc coll' id = findDoc coll id
  changed : findDoc coll' c.event.id = c.doc

theorem findDoc_append (coll : List Document) (doc : Document) (id : Option Double) :
    findDoc (coll ++ [doc]) id =
      (findDoc coll id).or (if docId doc = id then some doc else none) := by
  by_cases h : docId doc = id <;> simp [findDoc, h]

-- A document in the place of the one that has its _id.
theorem findDoc_put (coll : List Document) (doc : Document) (id : Option Double) :
    findDoc (coll.map fun d => if docId d = docId doc then doc else d) id =
      if id = docId doc then (findDoc coll id).map fun _ => doc else findDoc coll id := by
  unfold findDoc
  induction coll with
  | nil => simp
  | cons d coll ih =>
      rw [List.map_cons, List.find?_cons, List.find?_cons, ih]
      by_cases hd : docId d = docId doc
      · by_cases hid : id = docId doc
        · simp [hd, hid]
        · simp [hd, hid, Ne.symm hid]
      · by_cases hid : id = docId doc
        · simp [hd, hid]
        · simp [hd, hid]

theorem findDoc_remove (coll : List Document) (id id' : Option Double) :
    findDoc (coll.filter fun d => docId d ≠ id') id = if id = id' then none else findDoc coll id := by
  unfold findDoc
  rw [List.find?_filter]
  split_ifs with h
  · subst h
    rw [List.find?_eq_none]
    intro d _
    simp
  · congr 1
    funext d
    by_cases hd : docId d = id
    · simp [hd, h]
    · simp [hd]

theorem apart_put {doc : Document} (hcoll : coll.Pairwise Apart)
    (hothers : ∀ d ∈ coll.filter fun d => docId d ≠ docId doc, Apart d doc) :
    (coll.map fun d => if docId d = docId doc then doc else d).Pairwise Apart := by
  rw [List.pairwise_map]
  refine hcoll.imp_of_mem ?_
  intro d e hd he hde
  split_ifs with hdoc hdoc' hdoc'
  · exact absurd (hdoc.trans hdoc'.symm) hde.1
  · exact (hothers e (by simp [he, hdoc'])).symm
  · exact hothers d (by simp [hd, hdoc])
  · exact hde

theorem applied_put {doc : Document} {op : Operation} (hcoll : coll.Pairwise Apart)
    (hold : (findDoc coll (docId doc)).isSome)
    (hothers : ∀ d ∈ coll.filter fun d => docId d ≠ docId doc, Apart d doc)
    (hevent : c.event = ⟨docId doc, op⟩) (hdoc : c.doc = some doc) :
    Applied c coll (coll.map fun d => if docId d = docId doc then doc else d) where
  apart := apart_put hcoll hothers
  others id hid := by
    rw [hevent] at hid
    rw [findDoc_put, if_neg hid]
  changed := by
    obtain ⟨d, hd⟩ := Option.isSome_iff_exists.mp hold
    rw [hevent, findDoc_put, if_pos rfl, hd, hdoc, Option.map_some]

theorem apply_applied (hcoll : coll.Pairwise Apart) (h : c.apply coll = some coll') :
    Applied c coll coll' := by
  cases c with
  | insert doc =>
      simp only [Change.apply] at h
      split_ifs at h with hfree
      obtain rfl := Option.some.inj h
      refine ⟨?_, ?_, ?_⟩
      · rw [List.pairwise_append]
        exact ⟨hcoll, List.pairwise_singleton .., fun d hd e he => by
          obtain rfl := List.mem_singleton.mp he
          exact hfree d hd⟩
      · intro id hid
        have hne : docId doc ≠ id := Ne.symm hid
        rw [findDoc_append, if_neg hne, Option.or_none]
      · show findDoc (coll ++ [doc]) (docId doc) = some doc
        have hnone : findDoc coll (docId doc) = none := by
          rw [findDoc, List.find?_eq_none]
          intro d hd
          simpa using (hfree d hd).1
        rw [findDoc_append, if_pos rfl, hnone, Option.none_or]
  | update doc fields =>
      simp only [Change.apply] at h
      split_ifs at h with hput
      obtain rfl := Option.some.inj h
      exact applied_put hcoll hput.1 hput.2 rfl rfl
  | replace doc =>
      simp only [Change.apply] at h
      split_ifs at h with hput
      obtain rfl := Option.some.inj h
      exact applied_put hcoll hput.1 hput.2 rfl rfl
  | delete id =>
      obtain rfl := Option.some.inj h
      refine ⟨hcoll.filter _, ?_, ?_⟩
      · intro id' hid
        rw [findDoc_remove, if_neg hid]
      · exact (findDoc_remove ..).trans (if_pos rfl)

end Collection

section Model

variable {points : List Point} {mp mp' : MappedPoint} {p : Point} {u u' : PointUpdate}

theorem mem_buildModel (h : mp ∈ buildModel points) :
    ∃ p ∈ points, mp.tag = p.tag ∧ mp.isCommand = p.isCommand ∧
      (buildModel points)[mp.objRef]? = some mp := by
  obtain ⟨i, hi, rfl⟩ := List.mem_mapIdx.mp h
  refine ⟨points[i], List.getElem_mem hi, rfl, rfl, ?_⟩
  rw [buildModel, List.getElem?_mapIdx]
  show Option.map (mapPoint i) points[i]? = _
  rw [List.getElem?_eq_getElem hi]
  rfl

-- A data object is that of one tag.
theorem eq_of_objRef (h : mp ∈ buildModel points) (h' : mp' ∈ buildModel points)
    (href : mp.objRef = mp'.objRef) : mp = mp' := by
  obtain ⟨_, -, -, -, hget⟩ := mem_buildModel h
  obtain ⟨_, -, -, -, hget'⟩ := mem_buildModel h'
  rw [href] at hget
  exact Option.some.inj (hget.symm.trans hget')

theorem updateOf_eq_some {built : List MappedPoint} (h : updateOf built p = some u) :
    byTag built p.tag = some u.point ∧ u.point.isCommand = false ∧ u = updateFromPoint u.point p := by
  unfold updateOf at h
  cases hmp : byTag built p.tag with
  | none => simp [hmp] at h
  | some mp =>
      simp only [hmp] at h
      split_ifs at h with hcommand
      obtain rfl := Option.some.inj h
      exact ⟨rfl, Bool.eq_false_iff.mpr hcommand, rfl⟩

theorem byTag_eq_some {built : List MappedPoint} {tag : String} (h : byTag built tag = some mp) :
    mp ∈ built ∧ mp.tag = tag :=
  ⟨List.mem_of_find?_eq_some h, by simpa using List.find?_some h⟩

theorem pushed_eq_some {built : List MappedPoint} {d : Document} :
    pushed built d = some u ↔
      (pointFromDoc d).tag ≠ "" ∧ updateOf built (pointFromDoc d) = some u := by
  unfold pushed
  by_cases h : (pointFromDoc d).tag = "" <;> simp [h]

-- Updates of two tags are at two data objects.
theorem pushed_tag {d d' : Document} (h : pushed (buildModel points) d = some u)
    (h' : pushed (buildModel points) d' = some u') (href : u.point.objRef = u'.point.objRef) :
    (pointFromDoc d).tag = (pointFromDoc d').tag := by
  obtain ⟨hmem, htag⟩ := byTag_eq_some (updateOf_eq_some (pushed_eq_some.mp h).2).1
  obtain ⟨hmem', htag'⟩ := byTag_eq_some (updateOf_eq_some (pushed_eq_some.mp h').2).1
  rw [← htag, ← htag', eq_of_objRef hmem hmem' href]

end Model

section Snapshot

variable {conn : ServerConnection} {coll : List Document} {p : Point} {mp : MappedPoint}

theorem tag_pointFromDoc (d : Document) : (pointFromDoc d).tag = d.str "tag" := by
  show getString d "tag" "" = d.str "tag"
  unfold getString Document.str
  rfl

theorem mem_selectPoints (h : p ∈ selectPoints conn coll) :
    ∃ d ∈ coll, pointFromDoc d = p ∧ p.tag ≠ "" := by
  unfold selectPoints at h
  rw [List.mem_mergeSort, List.mem_filter, List.mem_map] at h
  obtain ⟨⟨d, hd, rfl⟩, htag⟩ := h
  exact ⟨d, (List.mem_filter.mp hd).1, rfl, by simpa using htag⟩

theorem tags_selectPoints (conn : ServerConnection) (hcoll : coll.Pairwise Apart) :
    ((selectPoints conn coll).map Point.tag).Nodup := by
  unfold selectPoints
  rw [((List.mergeSort_perm _ _).map Point.tag).nodup_iff]
  refine List.pairwise_map.mpr (List.pairwise_filter.mpr (List.pairwise_map.mpr ?_))
  refine (hcoll.filter _).imp ?_
  intro d e hde hd _ htag
  rw [tag_pointFromDoc, tag_pointFromDoc] at htag
  rw [tag_pointFromDoc] at hd
  simp [hde.2 htag] at hd

-- A point of the model is found by its tag.
theorem byTag_buildModel {points : List Point} (htags : (points.map Point.tag).Nodup)
    (h : mp ∈ buildModel points) : byTag (buildModel points) mp.tag = some mp := by
  cases hfind : byTag (buildModel points) mp.tag with
  | none =>
      have := List.find?_eq_none.mp hfind mp h
      simp at this
  | some mp' =>
      obtain ⟨h', htag⟩ := byTag_eq_some hfind
      obtain ⟨i, hi, rfl⟩ := List.mem_mapIdx.mp h
      obtain ⟨j, hj, rfl⟩ := List.mem_mapIdx.mp h'
      have hi' : i < (points.map Point.tag).length := by simpa using hi
      have hj' : j < (points.map Point.tag).length := by simpa using hj
      have hsame : (points.map Point.tag)[j] = (points.map Point.tag)[i] := by
        rw [List.getElem_map, List.getElem_map]
        exact htag
      obtain rfl := htags.getElem_inj_iff.mp hsame
      rfl

end Snapshot

section Tells

-- What an update tells of a data object: a quality and a value.
def tells (ref : ℕ) (u : PointUpdate) : Option (Quality × MmsValue) :=
  if u.point.objRef = ref then some (mapQuality u, valueOf u) else none

-- What is served there.
def shown (served : Served) (ref : ℕ) : Option (Quality × MmsValue) :=
  (served ref).map fun a => (a.q, a.value)

theorem shown_applyUpdate (now : ℤ) (tx : Served) (u : PointUpdate) (ref : ℕ) :
    shown (applyUpdate now tx u) ref = (tells ref u).or (shown tx ref) := by
  unfold shown applyUpdate tells
  by_cases h : u.point.objRef = ref
  · subst h
    simp
  · simp [h, Function.update_of_ne (Ne.symm h)]

theorem shown_foldl (now : ℤ) (tx : Served) (us : List PointUpdate) (ref : ℕ) :
    shown (us.foldl (applyUpdate now) tx) ref = LastWrite.after (tells ref) (shown tx ref) us := by
  induction us using List.reverseRecOn with
  | nil => rfl
  | append_singleton us u ih =>
      rw [List.foldl_append, List.foldl_cons, List.foldl_nil, shown_applyUpdate, ih,
        LastWrite.after_concat]

theorem after_toList {u : Option PointUpdate} {ref : ℕ} {init : Option (Quality × MmsValue)} :
    LastWrite.after (tells ref) init u.toList = (u.bind (tells ref)).or init := by
  cases u <;> rfl

end Tells

end JsonScada.Iec61850.Server
