import JsonScada.Library.Run
import JsonScada.Modbus.PointMap

namespace JsonScada.Modbus

open JsonScada.Library
open JsonScada.Processor (Document rawOrNil)

-- jsmongo.GetDocArray
def getDocArray (d : Document) (key : String) : List Document :=
  match d.lookup key with
  | some (.array items) =>
      items.filterMap fun
        | .document fields => some fields
        | _ => none
  | _ => []

section Extract

variable (rt : Runtime) (connNumber : Double)

-- The first destination entry of the connection.
def findDest (d : Document) : Option Document :=
  (getDocArray d "protocolDestinations").find? fun x =>
    Double.eq (jsNumberField (x.lookup "protocolDestinationConnectionNumber")) connNumber

def extractTagDoc (d : Document) : Option TagDoc :=
  (findDest connNumber d).map fun dest =>
    { id := rawOrNil (d.lookup "_id")
      tag := anyStr rt (rawOrNil (d.lookup "tag"))
      type := rawOrNil (d.lookup "type")
      value := d.lookup "value"
      valueString := rawOrNil (d.lookup "valueString")
      invalid := rawOrNil (d.lookup "invalid")
      origin := rawOrNil (d.lookup "origin")
      kconv1 := d.lookup "kconv1"
      kconv2 := d.lookup "kconv2"
      protocolSourceConnectionNumber := rawOrNil (d.lookup "protocolSourceConnectionNumber")
      protocolSourceCommonAddress := rawOrNil (d.lookup "protocolSourceCommonAddress")
      protocolSourceObjectAddress := rawOrNil (d.lookup "protocolSourceObjectAddress")
      protocolSourceASDU := rawOrNil (d.lookup "protocolSourceASDU")
      dest := dest }

end Extract

namespace Watcher

-- The collection, the change stream, the two goroutines and the map they feed.
structure State where
  -- the documents with a destination of the connection, in _id order
  coll : List Document
  -- the changed documents that the watch loop has not got to yet
  stream : List Document
  -- what a full reload has read and has not swapped in yet
  reloading : Option (List Document)
  -- the reload channel holds a request
  reload : Bool
  pm : PointMap

inductive Action where
  -- a document of the collection gets new content, or a new one appears
  | write (d : Document)
  | insert (position : Nat) (d : Document)
  -- the query of a full reload, on the ticker or on a request
  | query (requested : Bool)
  -- the rebuild of the map from what was read
  | swap
  -- the watch loop takes the next changed document
  | apply

variable (rt : Runtime) (cfg : Config) (connNumber : Double)

def idText (d : Document) : String := anyString rt (rawOrNil (d.lookup "_id"))

def fullReload (docs : List Document) : PointMap :=
  PointMap.rebuild rt cfg (docs.filterMap (extractTagDoc rt connNumber))

-- A tag that is not mapped asks for a reload.
def applyDoc (s : State) (d : Document) : State :=
  match extractTagDoc rt connNumber d with
  | none => s
  | some t =>
      let (pm, mapped) := s.pm.update rt cfg t.id (t.reading rt)
      { s with pm := pm, reload := s.reload || !mapped }

def step (s : State) : Action → Option State
  | .write d =>
      if s.coll.any fun c => idText rt c = idText rt d then
        some { s with
          coll := s.coll.map fun c => if idText rt c = idText rt d then d else c
          stream := s.stream ++ [d] }
      else none
  | .insert position d =>
      if s.coll.any fun c => idText rt c = idText rt d then none
      else
        some { s with
          coll := s.coll.take position ++ d :: s.coll.drop position
          stream := s.stream ++ [d] }
  | .query requested =>
      if s.reloading.isSome || (requested && !s.reload) then none
      else some { s with reloading := some s.coll, reload := s.reload && !requested }
  | .swap =>
      s.reloading.map fun docs =>
        { s with reloading := none, pm := fullReload rt cfg connNumber docs }
  | .apply =>
      match s.stream with
      | [] => none
      | d :: rest => some (applyDoc rt cfg connNumber { s with stream := rest } d)

-- The server after its first full reload.
def start (coll : List Document) : State where
  coll := coll
  stream := []
  reloading := none
  reload := false
  pm := fullReload rt cfg connNumber coll

def State.Idle (s : State) : Prop := s.stream = [] ∧ s.reloading = none ∧ s.reload = false

end Watcher

end JsonScada.Modbus
