import JsonScada.Library.Assoc
import JsonScada.Library.LastWrite
import JsonScada.Library.Run
import JsonScada.Processor.Bson
import JsonScada.WebServer.Js

-- The driver as a Sparkplug device: births from a snapshot of the database, and the changes that
-- are queued after the birth and published from time to time. The connection stays up.
namespace JsonScada.Mqtt.Publisher

open JsonScada.Library
open JsonScada.Processor (Document Value truthyValue rawOrNil)
open JsonScada.WebServer (strictEq valueText)

section Model

structure Connection where
  protocolConnectionNumber : ℤ
  commandsEnabled : Bool

-- A document under its `_id`.
abbrev Row := ℚ × Document

-- Of a metric, what a host shows of the tag. Its times, texts and topics are left out.
structure Metric where
  -- the metrics of a birth have a name
  name : Option Value
  aliasId : ℚ
  type : String
  value : Value
  good : Bool
  deriving DecidableEq

section Metrics

variable (conn : Connection)

-- The type of the metric and its value, as the birth and the changes have them.
def metricValue (element : Document) : Option (String × Value) :=
  match element.lookup "type" with
  | some (.string "digital") =>
      -- pure events steady state is false
      some ("boolean", .bool (!truthyValue (element.lookup "isEvent") &&
        truthyValue (element.lookup "value")))
  | some (.string "string") =>
      some ("string",
        match element.lookup "valueString" with
        | some (.string s) => .string s
        | _ =>
            match element.lookup "value" with
            | none | some .null => .string ""
            | some v => .string (valueText v))
  | some (.string "analog") =>
      some ("double",
        match element.lookup "value" with
        | none | some .null => .number (.fin 0)
        | some v => v)
  | _ => none

def isCommand (element : Document) : Bool :=
  strictEq (element.lookup "origin") (some (.string "command"))

-- The query of the snapshot.
def selected (row : Row) : Bool :=
  !strictEq (row.2.lookup "protocolSourceConnectionNumber")
      (some (.number (.fin conn.protocolConnectionNumber))) &&
    (conn.commandsEnabled || !isCommand row.2) && 0 < row.1

def birthMetric (row : Row) : Option Metric :=
  if selected conn row then
    (metricValue row.2).map fun (type, value) =>
      { name := some (rawOrNil (row.2.lookup "tag")), aliasId := row.1, type := type, value := value,
        good := !truthyValue (row.2.lookup "invalid") }
  else none

def getDeviceBirthPayload (db : List Row) : List Metric := db.filterMap (birthMetric conn)

def getMetricPayload (row : Row) : Option Metric :=
  if isCommand row.2 || row.1 < 1 then none
  else
    (metricValue row.2).map fun (type, value) =>
      { name := none, aliasId := row.1, type := type, value := value,
        good := !truthyValue (row.2.lookup "invalid") }

end Metrics

section Database

inductive Op where
  | insert
  | update (updatedFields : List String)
  | replace
  | delete
  deriving DecidableEq

-- The pipeline of the change stream.
def inStream (op : Op) (id : ℚ) : Bool :=
  match op with
  | .update updatedFields => "sourceDataUpdate" ∉ updatedFields && id ≠ -2 && id ≠ -1
  | .replace => true
  | .insert | .delete => false

def write (db : List Row) (op : Op) (id : ℚ) (doc : Document) : Option (List Row) :=
  match op, (db.lookup id).isSome with
  | .insert, false => some (db ++ [(id, doc)])
  | .update _, true | .replace, true =>
      some (db.map fun row => (row.1, if row.1 = id then doc else row.2))
  | .delete, true => some (db.filter fun row => row.1 ≠ id)
  | _, _ => none

end Database

-- What is published: a DBIRTH, or a DDATA.
inductive Message where
  | deviceBirth (metrics : List Metric)
  | deviceData (metrics : List Metric)
  deriving DecidableEq

def Message.metrics : Message → List Metric
  | .deviceBirth metrics | .deviceData metrics => metrics

-- A birth in progress, with the payload when the snapshot has been read. The first one follows
-- a connect, the others a rebirth command.
structure Birth where
  first : Bool
  payload : Option (List Metric)
  deriving DecidableEq

structure State where
  db : List Row := []
  -- events of the stream, before and after the lookup of the document
  changes : List ℚ := []
  fetched : List Row := []
  sparkplugPublishQueue : List Metric := []
  births : List Birth := []
  sparkplugDeviceBirthed : Bool := false
  published : List Message := []
  deriving DecidableEq

inductive Action where
  | change (op : Op) (id : ℚ) (doc : Document)
  | lookup
  -- the event arrives at the driver
  | handle
  -- the timer that publishes the queue
  | publish
  | birth
  | rebirth
  -- the snapshot of a birth in progress, and its publishing
  | read (i : ℕ)
  | announce (i : ℕ)

-- The metrics of a birth are queued for the plain topics only.
def dataMetrics (queue : List Metric) : List Metric := queue.filter fun m => m.name.isNone

variable (conn : Connection)

def step (s : State) : Action → Option State
  | .change op id doc =>
      (write s.db op id doc).map fun db =>
        { s with db := db, changes := if inStream op id then s.changes ++ [id] else s.changes }
  | .lookup =>
      match s.changes with
      | [] => none
      | id :: changes =>
          some
            { s with
              changes := changes
              fetched := s.fetched ++ ((s.db.lookup id).map fun doc => (id, doc)).toList }
  | .handle =>
      match s.fetched with
      | [] => none
      | row :: fetched =>
          some
            { s with
              fetched := fetched
              sparkplugPublishQueue := s.sparkplugPublishQueue ++
                if s.sparkplugDeviceBirthed then (getMetricPayload row).toList else [] }
  | .publish =>
      let metrics := dataMetrics s.sparkplugPublishQueue
      some
        { s with
          sparkplugPublishQueue := []
          published := s.published ++ if metrics = [] then [] else [.deviceData metrics] }
  | .birth =>
      some
        { s with sparkplugPublishQueue := [], births := s.births ++ [⟨true, none⟩] }
  | .rebirth => some { s with births := s.births ++ [⟨false, none⟩] }
  | .read i =>
      match s.births[i]? with
      | some ⟨first, none⟩ =>
          some { s with births := s.births.set i ⟨first, some (getDeviceBirthPayload conn s.db)⟩ }
      | _ => none
  | .announce i =>
      match s.births[i]? with
      | some ⟨first, some deviceBirthPayload⟩ =>
          some
            { s with
              births := s.births.eraseIdx i
              published := s.published ++ [.deviceBirth deviceBirthPayload]
              sparkplugDeviceBirthed := true
              sparkplugPublishQueue := s.sparkplugPublishQueue ++
                if first then deviceBirthPayload else [] }
      | _ => none

section Host

-- The aliases of the last birth.
def announced (published : List Message) : List ℚ :=
  published.foldl
    (fun aliases message =>
      match message with
      | .deviceBirth metrics => metrics.map (·.aliasId)
      | .deviceData _ => aliases) []

def written (id : ℚ) (m : Metric) : Option Value := if m.aliasId = id then some m.value else none

-- The last value of a tag.
def lastValue (id : ℚ) (metrics : List Metric) : Option Value :=
  LastWrite.after (written id) none metrics

-- What a host shows that has got the messages.
def shown (id : ℚ) (published : List Message) : Option Value :=
  lastValue id (published.flatMap Message.metrics)

-- Every metric of a DDATA has an alias of the DBIRTH before it.
def Aliased (published : List Message) : Prop :=
  ∀ pre metrics post, published = pre ++ .deviceData metrics :: post →
    ∀ m ∈ metrics, m.aliasId ∈ announced pre

-- The value of a tag in the database, `none` for what is no metric.
def current (db : List Row) (id : ℚ) : Option Value :=
  ((db.lookup id).bind metricValue).map (·.2)

-- Nothing is under way.
structure Quiescent (s : State) : Prop where
  changes : s.changes = []
  fetched : s.fetched = []
  queue : s.sparkplugPublishQueue = []
  births : s.births = []

-- The host shows the value of every tag that was announced and is in the database.
def Converged (s : State) : Prop :=
  ∀ id ∈ announced s.published, ∀ v, current s.db id = some v → shown id s.published = some v

end Host

end Model

-- What the operations of the publisher do to the database, and to the messages.
section Lemmas

open JsonScada.Processor (Document Value)

variable {conn : Connection} {db db' : List Row} {op : Op} {id id' : ℚ} {doc : Document}
  {row : Row} {m : Metric} {ms ns : List Metric}

section Database

-- An operation writes one document.
theorem write_cases (h : write db op id doc = some db') :
    (db.lookup id = none ∧ db' = db ++ [(id, doc)]) ∨
    db' = db.map (fun row => (row.1, if row.1 = id then doc else row.2)) ∨
    db' = db.filter fun row => row.1 ≠ id := by
  unfold write at h
  split at h
  next hnone => exact .inl ⟨by simpa using hnone, (Option.some.inj h).symm⟩
  next => exact .inr (.inl (Option.some.inj h).symm)
  next => exact .inr (.inl (Option.some.inj h).symm)
  next => exact .inr (.inr (Option.some.inj h).symm)
  next => cases h

theorem write_keys (hkeys : (db.map Prod.fst).Nodup) (h : write db op id doc = some db') :
    (db'.map Prod.fst).Nodup := by
  rcases write_cases h with ⟨hnone, rfl⟩ | rfl | rfl
  · have hid : id ∉ db.map Prod.fst := by
      intro hmem
      obtain ⟨row, hrow, rfl⟩ := List.mem_map.mp hmem
      rw [Assoc.lookup_of_mem hkeys hrow] at hnone
      cases hnone
    rw [List.map_append, List.map_singleton]
    exact hkeys.append (List.nodup_singleton id) (by simpa using hid)
  · rw [List.map_map]
    exact hkeys
  · exact (List.filter_sublist.map Prod.fst).nodup hkeys

theorem lookup_write (h : write db op id doc = some db') (hid : id' ≠ id) :
    db'.lookup id' = db.lookup id' := by
  rcases write_cases h with ⟨-, rfl⟩ | rfl | rfl
  · have hne : (id' == id) = false := by simpa using hid
    rw [List.lookup_append, List.lookup_cons, hne, List.lookup_nil, Option.or_none]
  · rw [Assoc.lookup_map fun k d => if k = id then doc else d]
    simp [hid]
  · exact Assoc.lookup_filter_ne hid db

end Database

section Values

theorem lastValue_append : lastValue id (ms ++ ns) = (lastValue id ns).or (lastValue id ms) := by
  unfold lastValue
  rw [LastWrite.after_append, LastWrite.after_init]

theorem lastValue_eq_none : lastValue id ms = none ↔ id ∉ ms.map (·.aliasId) := by
  induction ms using List.reverseRecOn with
  | nil => simp [lastValue, LastWrite.after]
  | append_singleton ms m ih =>
    rw [lastValue_append, Option.or_eq_none_iff, ih]
    simp only [lastValue, LastWrite.after, List.foldl_cons, List.foldl_nil, Option.or_none, written]
    split
    next h => simp [h]
    next h => simp [Ne.symm h]

theorem lastValue_isSome : (lastValue id ms).isSome = true ↔ id ∈ ms.map (·.aliasId) := by
  rw [Option.isSome_iff_ne_none, ne_eq, lastValue_eq_none, not_not]

theorem birthMetric_eq_some (h : birthMetric conn row = some m) :
    m.aliasId = row.1 ∧ (metricValue row.2).map (·.2) = some m.value ∧ m.name.isNone = false := by
  unfold birthMetric at h
  split at h
  · obtain ⟨⟨type, value⟩, hvalue, rfl⟩ := Option.map_eq_some_iff.mp h
    exact ⟨rfl, by rw [hvalue]; rfl, rfl⟩
  · cases h

theorem getMetricPayload_eq_some (h : getMetricPayload row = some m) :
    m.aliasId = row.1 ∧ (metricValue row.2).map (·.2) = some m.value ∧ m.name.isNone = true := by
  unfold getMetricPayload at h
  split at h
  · cases h
  · obtain ⟨⟨type, value⟩, hvalue, rfl⟩ := Option.map_eq_some_iff.mp h
    exact ⟨rfl, by rw [hvalue]; rfl, rfl⟩

-- A snapshot has the values of the database.
theorem lastValue_snapshot (hkeys : (db.map Prod.fst).Nodup)
    (hid : id ∈ (getDeviceBirthPayload conn db).map (·.aliasId)) :
    lastValue id (getDeviceBirthPayload conn db) = current db id := by
  have hcurrent : ∀ m ∈ getDeviceBirthPayload conn db, current db m.aliasId = some m.value := by
    intro m hm
    obtain ⟨row, hrow, hmetric⟩ := List.mem_filterMap.mp hm
    obtain ⟨halias, hvalue, -⟩ := birthMetric_eq_some hmetric
    rw [current, halias, Assoc.lookup_of_mem hkeys hrow]
    exact hvalue
  obtain ⟨m, hm, rfl⟩ := List.mem_map.mp hid
  rw [hcurrent m hm]
  apply LastWrite.after_eq_of_all
  · intro n hn w hw
    unfold written at hw
    split at hw
    next halias =>
      have := hcurrent n hn
      rw [halias, hcurrent m hm] at this
      exact (Option.some.inj hw).symm.trans (Option.some.inj this).symm
    next => cases hw
  · exact ⟨m, hm, by simp [written]⟩

theorem dataMetrics_append : dataMetrics (ms ++ ns) = dataMetrics ms ++ dataMetrics ns :=
  List.filter_append ms ns

theorem dataMetrics_snapshot : dataMetrics (getDeviceBirthPayload conn db) = [] := by
  rw [dataMetrics, List.filter_eq_nil_iff]
  intro m hm
  obtain ⟨row, -, hmetric⟩ := List.mem_filterMap.mp hm
  simp [(birthMetric_eq_some hmetric).2.2]

theorem dataMetrics_payload (row : Row) :
    dataMetrics (getMetricPayload row).toList = (getMetricPayload row).toList := by
  cases h : getMetricPayload row with
  | none => rfl
  | some m => simp [dataMetrics, (getMetricPayload_eq_some h).2.2]

end Values

section Messages

variable {published : List Message}

theorem announced_birth :
    announced (published ++ [.deviceBirth ms]) = ms.map (·.aliasId) := by
  simp [announced]

theorem announced_data : announced (published ++ [.deviceData ms]) = announced published := by
  simp [announced]

theorem shown_concat (message : Message) :
    shown id (published ++ [message]) = (lastValue id message.metrics).or (shown id published) := by
  simp only [shown, List.flatMap_append, List.flatMap_singleton, lastValue_append]

theorem aliased_nil : Aliased [] := by
  intro pre ms post h
  simp at h

theorem aliased_birth (h : Aliased published) : Aliased (published ++ [.deviceBirth ms]) := by
  intro pre ns post heq
  rcases List.eq_nil_or_concat post with rfl | ⟨post, last, rfl⟩
  · cases (List.append_inj' heq rfl).2
  · have heq : published ++ [.deviceBirth ms] = (pre ++ .deviceData ns :: post) ++ [last] := by
      simpa using heq
    exact h pre ns post (List.append_inj' heq rfl).1

theorem aliased_data (h : Aliased published) (hms : ∀ m ∈ ms, m.aliasId ∈ announced published) :
    Aliased (published ++ [.deviceData ms]) := by
  intro pre ns post heq
  rcases List.eq_nil_or_concat post with rfl | ⟨post, last, rfl⟩
  · obtain ⟨rfl, hlast⟩ := List.append_inj' heq rfl
    cases hlast
    exact hms
  · have heq : published ++ [.deviceData ms] = (pre ++ .deviceData ns :: post) ++ [last] := by
      simpa using heq
    exact h pre ns post (List.append_inj' heq rfl).1

end Messages

end Lemmas

end JsonScada.Mqtt.Publisher
