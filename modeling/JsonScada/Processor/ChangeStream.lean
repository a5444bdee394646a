import JsonScada.Processor.Replay

namespace JsonScada.Processor

open JsonScada.Library

section Set

def components : List Char → List (List Char)
  | [] => [[]]
  | '.' :: s => [] :: components s
  | c :: s =>
      match components s with
      | [] => [[c]]
      | w :: ws => (c :: w) :: ws

-- The parts of a dotted path.
def pathOf (key : String) : List String := (components key.toList).map String.ofList

def joinPath (path : List String) : String := ".".intercalate path

-- `$set` of a path. It fails when it leads through a value that is no document.
def setPath (d : Document) : List String → Value → Option Document
  | [], _ => some d
  | [k], v => some (setField d k v)
  | k :: path, v =>
      match d.lookup k with
      | none => (setPath [] path v).map fun sub => setField d k (.document sub)
      | some (.document sub) => (setPath sub path v).map fun sub => setField d k (.document sub)
      | some _ => none

-- All paths of a `$set`, or none of them.
def updateSet (d set : Document) : Option Document :=
  set.foldlM (fun d f => setPath d (pathOf f.1) f.2) d

def valueAt (d : Document) : List String → Option Value
  | [] => none
  | [k] => d.lookup k
  | k :: path => (d.doc k).bind fun sub => valueAt sub path

end Set

section Event

-- A change is reported under its path, up to the first part that is new.
def reported (d : Document) : List String → List String
  | [] => []
  | [k] => [k]
  | k :: path =>
      match d.lookup k with
      | some (.document sub) => k :: reported sub path
      | _ => [k]

def updatedFields (d d' set : Document) : Document :=
  set.foldl (fun fields f =>
    let path := reported d (pathOf f.1)
    setField fields (joinPath path) (rawOrNil (valueAt d' path))) []

-- The change event of an update, with the document as the update leaves it.
def changeEvent (d set : Document) : Option ChangeEvent :=
  (updateSet d set).map fun d' =>
    { operationType := "update"
      fullDocument := some d'
      updatedFields := some (updatedFields d d' set) }

-- The `$match` of the change stream; a divide expression is any further condition.
def changeStreamPipeline (divide : ChangeEvent → Bool) (ev : ChangeEvent) : Bool :=
  (match ev.fullDocument with
    | some fd => fd.has "value"
    | none => false) &&
  divide ev &&
  (match ev.updatedFields with
    | some fields => fields.has "sourceDataUpdate"
    | none => false) &&
  (ev.operationType = "update" || ev.operationType = "insert")

-- The document after an update and the flush of what the handler queues for it.
def process (pl : Platform) (now : Int) (d set : Document) : Document :=
  match changeEvent d set with
  | none => d
  | some ev =>
      match sourceUpdate ev with
      | some (fd, sdu) => flushed pl now fd sdu
      | none => ev.fullDocument.getD d

-- Whether the handler queues an update of the point for it.
def isWritten (pl : Platform) (d set : Document) : Bool :=
  match (changeEvent d set).bind sourceUpdate with
  | some (fd, sdu) => writes pl fd sdu
  | none => false

end Event

section WholeUpdate

-- A new sourceDataUpdate is reported as a whole.
theorem changeEvent_whole (d sdu : Document) :
    changeEvent d [("sourceDataUpdate", .document sdu)] =
      some ⟨"update", some (setField d "sourceDataUpdate" (.document sdu)),
        some [("sourceDataUpdate", .document sdu)]⟩ := by
  have hpath : pathOf "sourceDataUpdate" = ["sourceDataUpdate"] := by decide
  simp [changeEvent, updateSet, updatedFields, hpath, setPath, reported, valueAt, joinPath, setField,
    lookup_setField, rawOrNil]

theorem process_whole (pl : Platform) (now : Int) (d sdu : Document) :
    process pl now d [("sourceDataUpdate", .document sdu)] =
      flushed pl now (setField d "sourceDataUpdate" (.document sdu)) sdu := by
  simp only [process, changeEvent_whole]
  rfl

theorem isWritten_whole (pl : Platform) (d sdu : Document) :
    isWritten pl d [("sourceDataUpdate", .document sdu)] =
      writes pl (setField d "sourceDataUpdate" (.document sdu)) sdu := by
  simp only [isWritten, changeEvent_whole]
  rfl

end WholeUpdate

section Stored

variable (pl : Platform) (now : Int) (fd sdu : Document)

theorem flushed_value (hwrites : writes pl fd sdu = true) :
    (flushed pl now fd sdu).num "value" = some (convert pl now fd sdu).value := by
  simp only [flushed, hwrites, if_true, Document.num, lookup_applySet, lookup_ownSet_value,
    Option.some_or]

-- An analog holds the converted value after every update, stored now or before.
theorem flushed_value_analog (hanalog : fd.str "type" = "analog")
    (hhistorical : sdu.truthy "isHistorical" = false) :
    (flushed pl now fd sdu).num "value" = some (convert pl now fd sdu).value := by
  by_cases hwrites : writes pl fd sdu = true
  · exact flushed_value pl now fd sdu hwrites
  · have hsame : valueChanged fd (convert pl now fd sdu).value = false := by
      rw [value_convert]
      by_contra hchanged
      rw [Bool.not_eq_false] at hchanged
      apply hwrites
      simp [writes, updates, changedForUpdate, suppressed, hanalog, hhistorical, hchanged]
    rw [flushed, if_neg hwrites]
    unfold valueChanged at hsame
    cases hvalue : fd.num "value" with
    | none => simp [hvalue] at hsame
    | some old =>
        simp only [hvalue, Bool.not_eq_false'] at hsame
        rw [(Double.eq_iff.mp hsame).1]

end Stored

end JsonScada.Processor
