import JsonScada.Dnp3.AutoCreate
import JsonScada.Library.Run

namespace JsonScada.Dnp3.Writer

open JsonScada.Library
open JsonScada.JsMongo
open JsonScada.Processor (Document Value)

-- What the loop over a batch puts together, with the connections as it leaves them.
structure Plan where
  conns : ℤ → Option Connection
  inserts : List Document := []
  writes : List WriteModel := []
  -- the points that are written already, and whether one came twice
  seen : List ValueKey := []
  hasDuplicates : Bool := false

section Plan

variable (coll : List Document) (lookupOk : ℤ → Bool)

def createFor (conns : ℤ → Option Connection) (iv : Dnp3Value) :
    (ℤ → Option Connection) × List Document :=
  match conns iv.connNumber with
  | none => (conns, [])
  | some conn =>
      let (conn, docs) := autoCreateFor coll (lookupOk iv.connNumber) conn iv
      (Function.update conns iv.connNumber (some conn), docs)

def planValue (p : Plan) (iv : Dnp3Value) : Plan :=
  match writeOf iv with
  | none => p
  | some w =>
      let (conns, docs) := createFor coll lookupOk p.conns iv
      { conns := conns
        inserts := p.inserts ++ docs
        writes := p.writes ++ [w]
        seen := keyOf iv :: p.seen
        hasDuplicates := p.hasDuplicates || keyOf iv ∈ p.seen }

def planBatch (conns : ℤ → Option Connection) (batch : List Dnp3Value) : Plan :=
  batch.foldl (planValue coll lookupOk) { conns := conns }

end Plan

section Run

-- Where the writer stands. A batch that it holds is in no other place.
inductive Phase where
  | idle
  | drained (batch : List Dnp3Value)
  | planned (batch : List Dnp3Value) (inserts : List Document) (writes : List WriteModel)
      (ordered : Bool)
  | inserted (batch : List Dnp3Value) (writes : List WriteModel) (ordered : Bool)

def Phase.values : Phase → List Dnp3Value
  | idle => []
  | drained batch => batch
  | planned batch _ _ _ => batch
  | inserted batch _ _ => batch

structure State where
  queue : ValueQueue
  conns : ℤ → Option Connection
  coll : List Document
  phase : Phase

inductive Action where
  | push (v : Dnp3Value)
  | drain
  -- the answer to the liveness check, and to the lookups of the highest _id
  | isLive (live : Bool) (lookupOk : ℤ → Bool)
  -- the documents that an InsertMany gets to; its error is only logged
  | insertMany (reached : List Bool)
  -- the operations of a BulkWrite that are executed, in their order, and its success
  | bulkWrite (executed : List ℕ) (ok : Bool)

def applyWrite (coll : List Document) (w : WriteModel) : List Document :=
  updateOne w.filter [("sourceDataUpdate", .document w.sourceDataUpdate)] coll

-- What a BulkWrite of `n` operations may execute: all of them when it succeeds, in their
-- order when it is ordered. With nothing to write it is not called.
def canExecute (n : ℕ) (ordered ok : Bool) (executed : List ℕ) : Bool :=
  if ok then if ordered then executed = List.range n else executed.Perm (List.range n)
  else n ≠ 0 && if ordered then executed <+: List.range n
    else executed.Nodup && executed.all (· < n)

def step (s : State) : Action → Option State
  | .push v => some { s with queue := s.queue.push v }
  | .drain =>
      match s.phase with
      | .idle =>
          s.queue.drain.map fun r =>
            -- only a closed queue drains empty
            { s with queue := r.2, phase := if r.1.1.isEmpty then .idle else .drained r.1.1 }
      | _ => none
  | .isLive live lookupOk =>
      match s.phase with
      | .drained batch =>
          if live then
            let p := planBatch s.coll lookupOk s.conns batch
            some { s with
              conns := p.conns
              phase := .planned batch p.inserts p.writes p.hasDuplicates }
          else some { s with phase := .idle }
      | _ => none
  | .insertMany reached =>
      match s.phase with
      | .planned batch inserts writes ordered =>
          some { s with
            coll := insertMany s.coll inserts reached
            phase := .inserted batch writes ordered }
      | _ => none
  | .bulkWrite executed ok =>
      match s.phase with
      | .inserted _ writes ordered =>
          if canExecute writes.length ordered ok executed then
            some { s with
              coll := (executed.filterMap fun i => writes[i]?).foldl applyWrite s.coll
              phase := .idle }
          else none
      | _ => none

-- The writer after the start of the driver.
def start (coll : List Document) (conns : ℤ → Option Connection) : State where
  queue := ValueQueue.new
  conns := fun n => (conns n).map fun conn =>
    { conn with
      tagKeys := {}
      insertedAddresses := if conn.autoCreateTags then preloadAddresses coll n else [] }
  coll := coll
  phase := .idle

end Run

end JsonScada.Dnp3.Writer
