import JsonScada.Library.Run
import JsonScada.Mqtt.AutoTag

-- The runs of `processMongoUpdates` over the queue of values. A timer starts one every
-- half a second, whether or not the earlier ones have come to their end.
namespace JsonScada.Mqtt

open JsonScada.Library
open JsonScada.JsMongo (findOne updateOne insertOne)
open JsonScada.Processor (Document Value)
open JsonScada.Processor.Node (Runtime)

-- The driver and its database.
structure Driver where
  runtime : Runtime
  connNumber : ℤ
  autoCreateTags : Bool
  -- the collection has the unique index of its setup
  tagIndex : Bool

-- A value with its number among all that were queued.
structure Queued where
  number : ℕ
  data : Data
  deriving DecidableEq

def Queued.address (v : Queued) : String := v.data.protocolSourceObjectAddress

-- Where a run stands.
inductive Phase where
  -- before the condition of the loop
  | loop
  -- the query of `AutoCreateTag` is not answered, or it is
  | finding (v : Queued)
  | found (v : Queued) (any : Bool)
  | inserting (v : Queued) (newTag : Document)
  | inserted (v : Queued) (acknowledged : Bool)
  -- `AutoCreateTag` has returned
  | created (v : Queued)
  deriving DecidableEq

-- An update that was sent.
structure Update where
  value : Queued
  updTag : Document
  deriving DecidableEq

structure State where
  -- everything that was ever queued
  values : List Data := []
  valuesQueue : List Queued := []
  listCreatedTags : List String := []
  autoKeyId : ℤ
  coll : List Document
  runs : List Phase := []
  -- sent, and not executed: the run does not wait for its updates
  updates : List Update := []
  executed : List Queued := []
  deriving DecidableEq

inductive Action where
  | enqueue (d : Data)
  -- the timer starts a run
  | tick
  -- a run goes on, up to its next `await` or the next turn of its loop
  | goOn (i : ℕ) (now : ℤ)
  -- the database answers a run
  | answer (i : ℕ)
  -- the database executes an update
  | execute (i : ℕ)

variable (drv : Driver)

namespace Driver

def filter (v : Queued) : Document := addressFilter drv.connNumber v.address

def hasTag (coll : List Document) (v : Queued) : Bool := (findOne coll (drv.filter v)).isSome

-- No tag is looked for.
def listed (s : State) (v : Queued) : Bool :=
  !drv.autoCreateTags || tagName drv.connNumber v.data ∈ s.listCreatedTags

def insertTag (coll : List Document) (newTag : Document) : Option (List Document) :=
  if drv.tagIndex && coll.any (fun d => d.lookup "tag" = newTag.lookup "tag") then none
  else insertOne coll newTag

-- What a run does at its turn, none while it waits for the database.
def goOn (s : State) (i : ℕ) (now : ℤ) : Phase → Option State
  | .loop =>
      match s.valuesQueue with
      | [] => some { s with runs := s.runs.eraseIdx i }
      | v :: valuesQueue =>
          some
            { s with
              valuesQueue := valuesQueue
              runs := s.runs.set i (if drv.listed s v then .created v else .finding v) }
  | .found v true | .inserted v true =>
      some
        { s with
          listCreatedTags := s.listCreatedTags ++ [tagName drv.connNumber v.data]
          runs := s.runs.set i (.created v) }
  | .found v false =>
      let key := s.autoKeyId + 1
      some
        { s with
          autoKeyId := key
          runs := s.runs.set i
            (match createdTag drv.runtime drv.connNumber key v.data.withGroups with
            | some newTag => .inserting v newTag
            -- an error ends this turn of the loop
            | none => .loop) }
  | .inserted _ false => some { s with runs := s.runs.set i .loop }
  | .created v =>
      some
        { s with
          updates := s.updates ++ [⟨v, updTag drv.runtime drv.connNumber now v.data⟩]
          runs := s.runs.set i .loop }
  | .finding _ | .inserting _ _ => none

def answer (s : State) (i : ℕ) : Phase → Option State
  | .finding v => some { s with runs := s.runs.set i (.found v (drv.hasTag s.coll v)) }
  | .inserting v newTag =>
      match drv.insertTag s.coll newTag with
      | some coll => some { s with coll := coll, runs := s.runs.set i (.inserted v true) }
      | none => some { s with runs := s.runs.set i (.inserted v false) }
  | _ => none

def execute (s : State) (i : ℕ) (u : Update) : State :=
  { s with
    updates := s.updates.eraseIdx i
    coll := updateOne (drv.filter u.value) [("sourceDataUpdate", .document u.updTag)] s.coll
    executed := s.executed ++ [u.value] }

def step (s : State) : Action → Option State
  | .enqueue d =>
      some
        { s with
          values := s.values ++ [d]
          valuesQueue := s.valuesQueue ++ [⟨s.values.length, d⟩] }
  | .tick => some { s with runs := s.runs ++ [.loop] }
  | .goOn i now => s.runs[i]?.bind (drv.goOn s i now)
  | .answer i => s.runs[i]?.bind (drv.answer s i)
  | .execute i => s.updates[i]?.map (drv.execute s i)

end Driver

-- The driver starts with what the database has.
def start (coll : List Document) (autoKeyId : ℤ) : State := { autoKeyId := autoKeyId, coll := coll }

end JsonScada.Mqtt
