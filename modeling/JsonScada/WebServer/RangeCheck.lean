import JsonScada.Library.Run
import JsonScada.Processor.ChangeStream
import JsonScada.Processor.Bson
import JsonScada.WebServer.Write

-- The write of the properties of a point, among the drivers that write its
-- sourceDataUpdate and the processor that handles each change of it.
namespace JsonScada.WebServer.RangeCheck

open JsonScada.Library
open JsonScada.Processor
  (Platform Document Value applySet setField convert ownSet writes changeStreamPipeline)

-- A property write that has read the point.
structure PropertyWrite where
  prevData : Document
  changes : Document
  -- the changes are written, the sourceDataUpdate that was read is not
  updated : Bool := false

structure State where
  doc : Document
  web : List PropertyWrite := []
  -- the new sourceDataUpdates whose full document is not looked up yet
  events : List Document := []
  -- those that wait for the handler, each behind its full document
  lookedUp : List (Document × Document) := []
  -- what the handler has queued for the writer
  queued : List Document := []

inductive Label where
  | driver (sdu : Document)
  | findOne (rights : UserRights) (props : Document)
  | update (i : ℕ)
  | recheck (i : ℕ) (now : ℤ)
  | lookup
  -- with room for what it queues, or with none
  | handle (now : ℤ) (active room : Bool)
  | flush

def source (d : Document) : Option Document := d.doc "sourceDataUpdate"

-- An update that changes nothing is not reported.
def State.store (s : State) (sdu : Document) : State :=
  if source s.doc = some sdu then s
  else
    { s with
      doc := setField s.doc "sourceDataUpdate" (.document sdu)
      events := s.events ++ [sdu] }

def changeOf (fd sdu : Document) : Processor.ChangeEvent :=
  ⟨"update", some fd, some [("sourceDataUpdate", .document sdu)]⟩

def step (env : Driver) (pl : Platform) (s : State) : Label → Option State
  | .driver sdu => some (s.store sdu)
  | .findOne rights props =>
      some { s with
        web := s.web ++ [{ prevData := s.doc, changes := edited env rights s.doc props }] }
  | .update i =>
      match s.web[i]? with
      | some ⟨prevData, changes, false⟩ =>
          some { s with
            doc := applySet s.doc changes
            web :=
              if env.acknowledged && recheck 0 prevData changes ≠ [] then
                s.web.set i ⟨prevData, changes, true⟩
              else s.web.eraseIdx i }
      | _ => none
  | .recheck i now =>
      match s.web[i]? with
      | some ⟨prevData, changes, true⟩ =>
          ((recheck now prevData changes).doc "sourceDataUpdate").map fun sdu =>
            { s with web := s.web.eraseIdx i }.store sdu
      | _ => none
  | .lookup =>
      match s.events with
      | [] => none
      | sdu :: events =>
          let found :=
            if changeStreamPipeline (fun _ => true) (changeOf s.doc sdu) then [(s.doc, sdu)] else []
          some { s with events := events, lookedUp := s.lookedUp ++ found }
  | .handle now active room =>
      match s.lookedUp with
      | [] => none
      | (fd, sdu) :: lookedUp =>
          let sets :=
            if active && room && writes pl fd sdu then [ownSet pl now fd sdu (convert pl now fd sdu)]
            else []
          some { s with lookedUp := lookedUp, queued := s.queued ++ sets }
  | .flush =>
      match s.queued with
      | [] => none
      | fields :: queued => some { s with doc := applySet s.doc fields, queued := queued }

-- A sourceDataUpdate apart from the mark that the web server adds.
def withoutCheck (sdu : Document) : Document := sdu.filter fun f => f.1 ≠ "rangeCheck"

-- An update that stands for the value of now.
def current (sdu : Document) : Bool := !sdu.truthy "isHistorical"

-- The last update of a kind that the drivers have written, after an earlier one.
def latest (p : Document → Bool) (u : Option Document) : List Label → Option Document
  | [] => u
  | .driver sdu :: ls => latest p (if p sdu then some sdu else u) ls
  | _ :: ls => latest p u ls

def State.Done (s : State) : Prop := s.events = [] ∧ s.lookedUp = [] ∧ s.queued = []

instance (s : State) : Decidable s.Done := inferInstanceAs (Decidable (_ ∧ _ ∧ _))

-- The value of a point is that of an update.
def Shows (pl : Platform) (d sdu : Document) : Prop :=
  d.num "value" = some (convert pl 0 d sdu).value

-- An analog point with a value, at rest.
structure Start (pl : Platform) (s : State) : Prop where
  done : s.Done
  web : s.web = []
  analog : s.doc.str "type" = "analog"
  value : s.doc.has "value" = true
  shows_source : ∀ sdu, source s.doc = some sdu → current sdu = true → Shows pl s.doc sdu

-- Nothing that is looked up or queued will be stored.
def State.quiet (pl : Platform) (s : State) : Bool :=
  s.queued.isEmpty && s.lookedUp.all fun x => !writes pl x.1 x.2

-- The sourceDataUpdate is the one that a property write has read.
def stillHeld (s : State) (w : PropertyWrite) : Bool :=
  (source w.prevData).map withoutCheck = (source s.doc).map withoutCheck

-- The steps after which nothing is rolled back: a property write sets no value and
-- finds the sourceDataUpdate as it has read it when it writes it back; an update that is
-- not stored, because the value is found to be there, is looked up with nothing else on its
-- way; the processor is active and has room for what it queues.
def Allowed (pl : Platform) (s : State) : Label → Prop
  | .driver _ | .update _ | .flush => True
  | .findOne rights props =>
      (rights.substituteValues && props.has "substituted" && props.has "newValue") = false
  | .recheck i _ => ∀ w ∈ s.web[i]?, stillHeld s w = true
  | .lookup => ∀ sdu ∈ s.events.head?, current sdu = true → writes pl s.doc sdu = false →
      s.quiet pl = true
  | .handle _ active room => active = true ∧ room = true

instance (pl : Platform) (s : State) (l : Label) : Decidable (Allowed pl s l) := by
  cases l <;> unfold Allowed <;> infer_instance

end JsonScada.WebServer.RangeCheck
