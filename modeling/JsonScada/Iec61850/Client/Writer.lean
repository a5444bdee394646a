import JsonScada.Dnp3.Client
import JsonScada.Iec61850.Client
import JsonScada.JsTags
import JsonScada.Library.Run

-- The tags that the client creates by itself.
namespace JsonScada.Iec61850.Client

open JsonScada.Library
open JsonScada.JsMongo
open JsonScada.JsTags
open JsonScada.Processor (Document Value applySet)

section Text

-- What is used of the Go library: json.Unmarshal into any value, and unicode.ToUpper.
structure Runtime where
  unmarshal : String → Option Value
  toUpper : Char → Char
  toUpper_ascii : ∀ c : Char, c.toNat < 128 → toUpper c = c.toUpper

variable (rt : Runtime)

def trimSpace (s : String) : String := String.ofList (Processor.trim Processor.isSpace s.toList)

def toUpper (s : String) : String := String.ofList (s.toList.map rt.toUpper)

-- unicode.SimpleFold, down to an ASCII letter.
def foldRune (c : Char) : Char :=
  if c.toNat = 0x17f then 's' else if c.toNat = 0x212a then 'k' else c.toLower

-- strings.EqualFold, of a text with an ASCII one in lower case.
def equalFold (s lower : String) : Bool := s.toList.map foldRune = lower.toList

-- strings.Cut
def cut (s : String) (sep : Char) : Option (String × String) :=
  match s.toList.dropWhile (· ≠ sep) with
  | [] => none
  | _ :: rest => some (String.ofList (s.toList.takeWhile (· ≠ sep)), String.ofList rest)

-- A point is an object with a functional constraint, whatever its tag is called.
def pointKey (ref fc : String) : String := trimSpace ref ++ toUpper rt (trimSpace fc)

-- The logical device, the logical node and the rest of an object reference.
def splitRef (ref : String) : String × String × String :=
  match cut ref '/' with
  | none => ("", "", ref)
  | some (ld, path) =>
      match cut path '.' with
      | none => (ld, "", path)
      | some (ln, rest) => (ld, ln, rest)

end Text

section Supervised

variable (rt : Runtime)

def tagFromParameters (iv : IECValue) : String :=
  iv.connName ++ ";" ++ iv.address ++ "[" ++ iv.commonAddress ++ "]"

-- What the type of a tag decides.
def shapeOf (iv : IECValue) : Document :=
  if equalFold iv.asdu "boolean" || iv.isDigital then
    [("alarmState", .number (.fin 2)), ("stateTextFalse", .string "FALSE"),
      ("stateTextTrue", .string "TRUE"), ("eventTextFalse", .string "FALSE"),
      ("eventTextTrue", .string "TRUE"), ("type", .string "digital"), ("value", .number iv.value),
      ("valueString", .string "????")]
  else if equalFold iv.asdu "string" || equalFold iv.asdu "extensionobject" then
    [("alarmState", .number (.fin (-1))), ("stateTextFalse", .string ""),
      ("stateTextTrue", .string ""), ("eventTextFalse", .string ""),
      ("eventTextTrue", .string ""), ("type", .string "string"), ("value", .number (.fin 0)),
      ("valueString", .string iv.valueString)]
  else
    [("alarmState", .number (.fin (-1))), ("stateTextFalse", .string ""),
      ("stateTextTrue", .string ""), ("eventTextFalse", .string ""),
      ("eventTextTrue", .string ""), ("type", .string "analog"), ("value", .number iv.value),
      ("valueString", .string "????")]

def newRealtimeDoc (iv : IECValue) (id : Double) : Document :=
  let (ld, ln, rest) := splitRef iv.address
  -- a display name of its own is kept
  let rest := if iv.displayName ≠ "" ∧ iv.displayName ≠ iv.address then iv.displayName else rest
  applySet (applySet baseDoc
    [("_id", .number id), ("protocolSourceASDU", .string iv.asdu),
      ("protocolSourceCommonAddress", .string (toUpper rt iv.commonAddress)),
      ("protocolSourceConnectionNumber", .number (.fin iv.connNumber)),
      ("protocolSourceObjectAddress", .string iv.address),
      ("protocolSourceCommandUseSBO", .bool false),
      ("protocolSourceCommandDuration", .number (.fin 0)),
      ("description", .string (iv.connName ++ "~" ++ ld ++ "~" ++ ln ++ "~" ++ rest)),
      ("ungroupedDescription", .string rest), ("group1", .string iv.connName),
      ("group2", .string ld), ("group3", .string ln), ("origin", .string "supervised"),
      ("tag", .string (tagFromParameters iv)), ("commandOfSupervised", .number (.fin 0)),
      ("invalid", .bool true), ("invalidDetectTimeout", .number (.fin 60000)),
      ("protocolDestinations", .null), ("supervisedOfCommand", .number (.fin 0))])
    (shapeOf iv)

end Supervised

section Commands

-- A controllable object that was found while browsing, waiting for its tag.
structure CommandTag where
  connNumber : ℤ
  connName : String
  ref : String
  isDigital : Bool
  useSBO : Bool
  asdu : String
  -- how often the supervised twin was looked for
  attempts : ℕ := 0

def CommandTag.tag (ct : CommandTag) : String := ct.connName ++ ";" ++ ct.ref ++ "[CO]"

def newCommandDoc (ct : CommandTag) (id supervisedID : Double) : Document :=
  let (ld, ln, rest) := splitRef ct.ref
  applySet baseDoc
    [("_id", .number id), ("protocolSourceASDU", .string ct.asdu),
      ("protocolSourceCommonAddress", .string "CO"),
      ("protocolSourceConnectionNumber", .number (.fin ct.connNumber)),
      ("protocolSourceObjectAddress", .string ct.ref),
      ("protocolSourceCommandUseSBO", .bool ct.useSBO),
      ("protocolSourceCommandDuration", .number (.fin 0)),
      ("description",
        .string (ct.connName ++ "~" ++ ld ++ "~" ++ ln ++ "~" ++ rest ++ " command")),
      ("ungroupedDescription", .string (rest ++ " command")), ("group1", .string ct.connName),
      ("group2", .string ld), ("group3", .string ln), ("origin", .string "command"),
      ("tag", .string ct.tag), ("supervisedOfCommand", .number supervisedID),
      ("commandOfSupervised", .number (.fin 0)), ("invalid", .bool false),
      ("invalidDetectTimeout", .number (.fin 0)), ("protocolDestinations", .null),
      ("value", .number (.fin 0)), ("valueString", .string ""),
      ("type", .string (if ct.isDigital then "digital" else "analog")),
      ("alarmState", .number (.fin (-1))),
      ("stateTextFalse", .string (if ct.isDigital then "FALSE" else "")),
      ("stateTextTrue", .string (if ct.isDigital then "TRUE" else "")),
      ("eventTextFalse", .string (if ct.isDigital then "FALSE" else "")),
      ("eventTextTrue", .string (if ct.isDigital then "TRUE" else ""))]

end Commands

end JsonScada.Iec61850.Client

namespace JsonScada.Iec61850.Client.Writer

open JsonScada.Library
open JsonScada.JsMongo
open JsonScada.JsTags
open JsonScada.Processor (Document Value)

def bulkWriteLimit : ℕ := 1250
def dataBufferLimit : ℕ := 20000
def commandLinkAttempts : ℕ := 40
def protocolDriverName : String := "IEC61850"

-- What the writer reads and keeps of a connection. The keys are those of the points that
-- it takes to have a tag.
structure Connection where
  protocolConnectionNumber : ℤ
  autoCreateTags : Bool
  tagKeys : KeyAllocator := {}
  insertedTags : List String := []

section Update

variable (rt : Runtime)

-- `SupervisedFilter`, by connection and object address
def supervisedFilter (connNumber : ℤ) (objectAddress : String) : Document :=
  [("protocolSourceConnectionNumber", .number (.fin connNumber)),
    ("protocolSourceObjectAddress", .string objectAddress), ("origin", .string "supervised")]

-- The stored document wraps the parsed value.
def parseValueJSON (iv : IECValue) : Document :=
  match rt.unmarshal iv.valueJSON with
  | some v => [("a", v)]
  | none => []

def sourceDataUpdate (iv : IECValue) : Dnp3.SourceDataUpdate where
  valueAtSource := iv.value
  valueStringAtSource := iv.valueString
  asduAtSource := iv.asdu
  causeOfTransmissionAtSource := toString iv.cot
  timeTagAtSource := iv.sourceTimestamp.elim .null fun ms => .dateTime ms
  timeTagAtSourceOk := iv.sourceTimestamp.isSome
  timeTag := .dateTime iv.serverTimestamp
  notTopicalAtSource := false
  invalidAtSource := !iv.quality
  overflowAtSource := false
  blockedAtSource := false
  substitutedAtSource := false
  extra :=
    [("valueBsonAtSource", .document (parseValueJSON rt iv)),
      ("transientAtSource", .bool iv.isTransient),
      ("originator", .string (protocolDriverName ++ "|" ++ toString iv.connNumber))]

-- The operations of a bulk write: the tag of a new point under its _id, and the update of
-- a value, whose filter has no functional constraint.
inductive WriteModel where
  | insertOne (iv : IECValue) (id : Double)
  | updateOne (iv : IECValue)
deriving DecidableEq

def WriteModel.value : WriteModel → IECValue
  | insertOne iv _ => iv
  | updateOne iv => iv

-- The collection after one operation.
def apply (coll : List Document) : WriteModel → List Document
  | .insertOne iv id => (insertOne coll (newRealtimeDoc rt iv id)).getD coll
  | .updateOne iv =>
      updateOne (supervisedFilter iv.connNumber iv.address)
        [("sourceDataUpdate", .document (sourceDataUpdate rt iv).bson)] coll

-- Every document is stored.
def InsertsAll (coll : List Document) : List WriteModel → Prop
  | [] => True
  | .insertOne iv id :: ops =>
      hasId coll (newRealtimeDoc rt iv id) = false ∧ InsertsAll (apply rt coll (.insertOne iv id)) ops
  | .updateOne iv :: ops => InsertsAll (apply rt coll (.updateOne iv)) ops

instance decidableInsertsAll : ∀ coll ops, Decidable (InsertsAll rt coll ops)
  | _, [] => .isTrue trivial
  | coll, .insertOne iv id :: ops =>
      have := decidableInsertsAll (apply rt coll (.insertOne iv id)) ops
      inferInstanceAs (Decidable (_ ∧ _))
  | coll, .updateOne iv :: ops => decidableInsertsAll (apply rt coll (.updateOne iv)) ops

end Update

section Creation

variable (rt : Runtime)

-- The insert for a point that is new, which is marked at once.
def maybeInsertTag (coll : List Document) (lookupOk : Bool) (conns : ℤ → Option Connection)
    (iv : IECValue) : (ℤ → Option Connection) × List WriteModel :=
  match conns iv.connNumber with
  | none => (conns, [])
  | some conn =>
      let key := pointKey rt iv.address iv.commonAddress
      if key ∈ conn.insertedTags then (conns, [])
      else
        let (keys, id) := conn.tagKeys.next coll lookupOk conn.protocolConnectionNumber
        (Function.update conns iv.connNumber
          (some { conn with tagKeys := keys, insertedTags := key :: conn.insertedTags }),
          [.insertOne iv id])

-- How a call ends: it may be carried out and fail all the same.
inductive Outcome where
  | done | failed | unanswered
deriving DecidableEq

structure CommandAnswers where
  -- FindOne, and the lookup of the highest _id
  found : Bool
  lookupOk : Bool
  insert : Outcome
  link : Outcome

structure Commands where
  conns : ℤ → Option Connection
  coll : List Document
  requeued : List CommandTag := []

def supervisedID (coll : List Document) (ct : CommandTag) (found : Bool) : Double :=
  if found then
    (findOne coll (supervisedFilter ct.connNumber ct.ref)).elim (.fin 0) fun sup =>
      getDouble sup "_id" (.fin 0)
  else .fin 0

-- The supervised point is waited for, rather than a blind command be committed.
def waits (supervisedID : Double) (ct : CommandTag) : Bool :=
  Double.eq supervisedID (.fin 0) && ct.attempts < commandLinkAttempts

-- The other end of the pair.
def linkSupervised (coll : List Document) (supervisedID id : Double) (link : Outcome) :
    List Document :=
  if Double.eq supervisedID (.fin 0) || link = .failed then coll
  else updateOne [("_id", .number supervisedID)] [("commandOfSupervised", .number id)] coll

def createCommandTag (conns : ℤ → Option Connection) (coll : List Document) (ct : CommandTag)
    (a : CommandAnswers) : Commands :=
  match conns ct.connNumber with
  | none => { conns := conns, coll := coll }
  | some conn =>
      let key := pointKey rt ct.ref "CO"
      let supervisedID := supervisedID coll ct a.found
      if key ∈ conn.insertedTags then { conns := conns, coll := coll }
      else if waits supervisedID ct then
        { conns := conns, coll := coll, requeued := [{ ct with attempts := ct.attempts + 1 }] }
      else
        let (keys, id) := conn.tagKeys.next coll a.lookupOk conn.protocolConnectionNumber
        let numbered (tags : List String) :=
          Function.update conns ct.connNumber
            (some { conn with tagKeys := keys, insertedTags := tags })
        match a.insert, insertOne coll (newCommandDoc ct id supervisedID) with
        | .done, some coll =>
            { conns := numbered (key :: conn.insertedTags)
              coll := linkSupervised coll supervisedID id a.link }
        -- a failed insert is only logged, and the object is not queued again
        | .unanswered, some coll => { conns := numbered conn.insertedTags, coll := coll }
        | _, _ => { conns := numbered conn.insertedTags, coll := coll }

end Creation

section Run

-- Where the cycle of the writer stands: before the liveness check, putting a bulk write
-- together, creating command tags, or giving up after an error.
inductive Phase where
  | idle
  | draining (batch : List IECValue) (writes : List WriteModel)
  | commands (pending : List CommandTag)
  | failed

structure State where
  queue : List IECValue
  commandTagQueue : List CommandTag
  conns : ℤ → Option Connection
  coll : List Document
  phase : Phase

inductive Action where
  | enqueueValue (iv : IECValue)
  | enqueueCommandTag (ct : CommandTag)
  | ping (ok : Bool)
  | dequeueValue (lookupOk : Bool)
  -- the operations that are executed, in their order, and the success of the call
  | bulkWrite (executed : List ℕ) (ok : Bool)
  | createCommandTag (answers : CommandAnswers)
  | trimQueue

def executedOf (writes : List WriteModel) (executed : List ℕ) : List WriteModel :=
  executed.filterMap fun i => writes[i]?

variable (rt : Runtime)

-- What an unordered BulkWrite may execute: everything when it succeeds, in any order. With
-- nothing to write it is not called.
def canExecute (coll : List Document) (writes : List WriteModel) (executed : List ℕ) (ok : Bool) :
    Bool :=
  if ok then
    executed.Perm (List.range writes.length) && InsertsAll rt coll (executedOf writes executed)
  else !writes.isEmpty && executed.Nodup && executed.all (· < writes.length)

def commandsPhase (pending : List CommandTag) : Phase :=
  if pending.isEmpty then .idle else .commands pending

def step (s : State) : Action → Option State
  | .enqueueValue iv => some { s with queue := s.queue ++ [iv] }
  | .enqueueCommandTag ct => some { s with commandTagQueue := s.commandTagQueue ++ [ct] }
  | .ping ok =>
      match s.phase with
      | .idle => some { s with phase := if ok then .draining [] [] else .failed }
      | _ => none
  | .dequeueValue lookupOk =>
      match s.phase, s.queue with
      | .draining batch writes, iv :: queue =>
          if writes.length < bulkWriteLimit then
            let (conns, insert) :=
              if iv.selfPublish then maybeInsertTag rt s.coll lookupOk s.conns iv
              else (s.conns, [])
            some { s with
              queue := queue
              conns := conns
              phase := .draining (batch ++ [iv]) (writes ++ insert ++ [.updateOne iv]) }
          else none
      | _, _ => none
  | .bulkWrite executed ok =>
      match s.phase with
      | .draining _ writes =>
          -- the loop ends with the queue empty, the batch full or its time over
          if (!writes.isEmpty || s.queue.isEmpty) && canExecute rt s.coll writes executed ok then
            let coll := (executedOf writes executed).foldl (apply rt) s.coll
            if ok then
              some { s with
                coll := coll
                phase := commandsPhase s.commandTagQueue
                commandTagQueue := [] }
            else some { s with coll := coll, phase := .failed }
          else none
      | _ => none
  | .createCommandTag answers =>
      match s.phase with
      | .commands (ct :: pending) =>
          let c := createCommandTag rt s.conns s.coll ct answers
          some { s with
            conns := c.conns
            coll := c.coll
            commandTagQueue := s.commandTagQueue ++ c.requeued
            phase := commandsPhase pending }
      | _ => none
  | .trimQueue =>
      match s.phase with
      | .failed =>
          some { s with
            queue := s.queue.drop (s.queue.length - dataBufferLimit)
            phase := .idle }
      | _ => none

-- The keys of the tags of a connection.
def preloadKeys (coll : List Document) (n : ℤ) : List String :=
  (coll.filter (matchesFilter [("protocolSourceConnectionNumber", .number (.fin n))])).filterMap
    fun d =>
      let objAddr := trimSpace (d.str "protocolSourceObjectAddress")
      let commonAddr := toUpper rt (trimSpace (d.str "protocolSourceCommonAddress"))
      if objAddr = "" then none else some (pointKey rt objAddr commonAddr)

def start (coll : List Document) (conns : ℤ → Option Connection) : State where
  queue := []
  commandTagQueue := []
  conns := fun n => (conns n).map fun conn =>
    { conn with
      tagKeys := {}
      insertedTags := if conn.autoCreateTags then preloadKeys rt coll n else [] }
  coll := coll
  phase := .idle

end Run

end JsonScada.Iec61850.Client.Writer
