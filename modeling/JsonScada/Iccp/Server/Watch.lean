import JsonScada.Iccp.Server
import JsonScada.Library.Binary64
import JsonScada.Library.Run

-- The ICCP server driver as it runs: the models that the main loop builds, the servers of the
-- clients, the watchers of the database, and the buffer between the watchers and the models.
namespace JsonScada.Iccp.Server

open JsonScada.Library

section Values

-- What a point shows. Its time stamp is left out.
inductive DataValue where
  | state (on : Bool)
  | real (x : Binary32)
  | discrete (n : ℤ)
  deriving DecidableEq

structure ICCPValue where
  data : DataValue
  valid : Bool
  deriving DecidableEq

def convertToICCPValue (tag : RtData) (iccpType : ICCPType) : ICCPValue where
  data :=
    match iccpType with
    | .stateQTimeTagExtended => .state !(Double.eq tag.value (.fin 0))
    | .realQTimeTagExtended => .real (Binary32.narrow (.ofDouble tag.value))
    | .discreteQTimeTagExtended => .discrete tag.value.toInt
  valid := !tag.invalid

end Values

section RealtimeData

-- The documents, found by their _id.
def findDoc (docs : List RtData) (id : Double) : Option RtData := docs.find? fun d => d.id = id

-- No other document has the tag.
def Accepts (docs : List RtData) (doc : RtData) : Prop := ∀ d ∈ docs, d.id ≠ doc.id → d.tag ≠ doc.tag

instance (docs : List RtData) (doc : RtData) : Decidable (Accepts docs doc) :=
  inferInstanceAs (Decidable (∀ d ∈ docs, d.id ≠ doc.id → d.tag ≠ doc.tag))

def deleteDoc (docs : List RtData) (id : Double) : List RtData := docs.filter fun d => d.id ≠ id

-- A document that is inserted, or takes the place of the one of its _id.
def putDoc (docs : List RtData) (doc : RtData) : List RtData := deleteDoc docs doc.id ++ [doc]

theorem mem_deleteDoc {docs : List RtData} {id : Double} {d : RtData} :
    d ∈ deleteDoc docs id ↔ d ∈ docs ∧ d.id ≠ id := by
  simp [deleteDoc]

theorem nodup_deleteDoc {docs : List RtData} (h : (docs.map RtData.tag).Nodup) (id : Double) :
    ((deleteDoc docs id).map RtData.tag).Nodup :=
  h.sublist (List.filter_sublist.map _)

theorem nodup_putDoc {docs : List RtData} {doc : RtData} (h : (docs.map RtData.tag).Nodup)
    (haccepts : Accepts docs doc) : ((putDoc docs doc).map RtData.tag).Nodup := by
  rw [putDoc, List.map_append, List.nodup_append]
  refine ⟨nodup_deleteDoc h doc.id, List.nodup_singleton _, ?_⟩
  intro t ht t' ht'
  obtain ⟨d, hd, rfl⟩ := List.mem_map.mp ht
  obtain rfl := List.mem_singleton.mp ht'
  exact haccepts d (mem_deleteDoc.mp hd).1 (mem_deleteDoc.mp hd).2

def Collection.delete (c : Collection) (id : Double) : Collection where
  tags := deleteDoc c.tags id
  nodup := nodup_deleteDoc c.nodup id

def Collection.put (c : Collection) (doc : RtData) (h : Accepts c.tags doc) : Collection where
  tags := putDoc c.tags doc
  nodup := nodup_putDoc c.nodup h

-- What the change stream tells of. An update comes with its document as it is when it is read.
inductive ChangeEvent where
  | update (id : Double)
  | replace (doc : RtData)

def fullDocument (docs : List RtData) : ChangeEvent → Option RtData
  | .update id => findDoc docs id
  | .replace doc => some doc

end RealtimeData

section Generations

-- A connection with the port that it listens on, none where its settings do not let it.
structure ServerConnection extends Connection where
  port : Option ℕ

structure IndicationPoint where
  iccpType : ICCPType
  value : ICCPValue

structure ChangeStream where
  events : List ChangeEvent
  -- received, and not yet looked at
  batch : List RtData
  -- the servers, the tag and the value that the watcher is about to buffer
  buffering : Option (List ℕ × String × ICCPValue)

-- What the main loop builds each time that it connects to the database. A second one has a model
-- of its own, and the first one goes on.
structure Generation where
  connections : List Connection
  ipByTag : String → Option IndicationPoint
  -- the servers of the associated clients
  registry : List (ℕ × Connection)
  clientConnected : Bool
  stream : Option ChangeStream

def newPoint (p : Point) : Option (String × IndicationPoint) :=
  match p.kind with
  | .control _ => none
  | .indication type => some (p.tag.tag, ⟨type, convertToICCPValue p.tag type⟩)

def build (pl : Platform) (connections : List Connection) (c : Collection) : Generation where
  connections := connections
  ipByTag := filled newPoint (points pl connections c)
  registry := []
  clientConnected := true
  stream := none

namespace Generation

variable (gen : Generation)

def notify (e : ChangeEvent) : Generation :=
  { gen with stream := gen.stream.map fun cs => { cs with events := cs.events ++ [e] } }

-- The indication point that a document is of, where the filter of the stream and the watcher let
-- it through.
def pointFor (tag : RtData) : Option IndicationPoint :=
  if topicsOf gen.connections ≠ [] && tag.group1 ∉ topicsOf gen.connections then none
  else if Double.eq tag.id (.fin 0) then none
  else if ownTag gen.connections tag then none
  else if tag.origin = "command" then none
  else gen.ipByTag tag.tag

-- The servers whose connection has the topic.
def servers (tag : RtData) : List ℕ :=
  (gen.registry.filter fun e =>
    e.2.topics = [] || contains e.2.topics tag.group1).map Prod.fst

-- What a document gives to buffer, none where it is passed over or no server is to have it.
def handle (tag : RtData) : Option (List ℕ × String × ICCPValue) :=
  match gen.pointFor tag, gen.servers tag with
  | some ip, s :: ss => some (s :: ss, tag.tag, convertToICCPValue tag ip.iccpType)
  | _, _ => none

end Generation

end Generations

section Driver

-- An update in the buffer, for a server and a point of a model.
structure PendingPointUpdate where
  model : ℕ
  server : ℕ
  tag : String
  value : ICCPValue

structure State where
  realtimeData : Collection
  generations : List Generation
  -- the ports that are bound, with the generation that serves their clients
  listeners : List (ℕ × ServerConnection)
  nextServer : ℕ
  pendingChanges : List PendingPointUpdate
  -- taken out of the buffer by the ticker of a generation, and not yet applied
  flushing : List (ℕ × PendingPointUpdate)

inductive Action where
  -- a document is inserted, updated or replaced
  | put (doc : RtData) (replaced : Bool)
  | delete (id : Double)
  -- the main loop connects to the database and builds a model, or gives up a lost connection
  | connect (connections : List ServerConnection)
  | disconnect
  -- a watcher opens its stream, gets an event, loses the stream, looks at an event, buffers it
  | watch (g : ℕ)
  | receive (g : ℕ)
  | fail (g : ℕ)
  | next (g : ℕ)
  | buffer (g : ℕ)
  -- a ticker takes the buffer, and a value of it is put into its model
  | drain (g : ℕ)
  | updateOnlineValue (i : ℕ)
  -- a client associates at a listener, or goes
  | associate (l : ℕ)
  | release (g server : ℕ)

-- A port that is bound is not bound again.
def listen (g : ℕ) (listeners : List (ℕ × ServerConnection)) (conn : ServerConnection) :
    List (ℕ × ServerConnection) :=
  if conn.port.isNone || listeners.any fun l => l.2.port = conn.port then listeners
  else listeners ++ [(g, conn)]

-- The latest value of a point replaces the one that a server still waits for.
def bufferUpdate (g : ℕ) (servers : List ℕ) (tag : String) (value : ICCPValue)
    (pending : List PendingPointUpdate) : List PendingPointUpdate :=
  (pending.filter fun u => !(u.model = g && u.tag = tag && servers.contains u.server)) ++
    servers.map fun server => ⟨g, server, tag, value⟩

def Generation.updateValue (gen : Generation) (tag : String) (value : ICCPValue) : Generation :=
  { gen with
    ipByTag := fun t =>
      if t = tag then (gen.ipByTag t).map fun ip => { ip with value := value } else gen.ipByTag t }

namespace State

def setGeneration (s : State) (g : ℕ) (gen : Generation) : State :=
  { s with generations := s.generations.set g gen }

def setStream (s : State) (g : ℕ) (gen : Generation) (cs : Option ChangeStream) : State :=
  s.setGeneration g { gen with stream := cs }

end State

def step (pl : Platform) (s : State) : Action → Option State
  | .put doc replaced =>
      if h : Accepts s.realtimeData.tags doc then
        let event := if replaced then .replace doc else .update doc.id
        some { s with
          realtimeData := s.realtimeData.put doc h
          generations :=
            -- the stream has no event of an insertion
            if (findDoc s.realtimeData.tags doc.id).isSome then
              s.generations.map fun gen => gen.notify event
            else s.generations }
      else none
  | .delete id => some { s with realtimeData := s.realtimeData.delete id }
  | .connect connections =>
      if s.generations.any Generation.clientConnected then none
      else
        let conns := connections.map ServerConnection.toConnection
        some { s with
          generations := s.generations ++ [build pl conns s.realtimeData]
          listeners := connections.foldl (listen s.generations.length) s.listeners }
  | .disconnect =>
      some { s with
        generations := s.generations.map fun gen => { gen with clientConnected := false } }
  | .watch g => do
      let gen ← s.generations[g]?
      if gen.clientConnected && gen.stream.isNone then some (s.setStream g gen (some ⟨[], [], none⟩))
      else none
  | .receive g => do
      let gen ← s.generations[g]?
      let cs ← gen.stream
      match cs.events with
      | [] => none
      | e :: es =>
          if gen.clientConnected then
            let batch := cs.batch ++ (fullDocument s.realtimeData.tags e).toList
            some (s.setStream g gen (some ⟨es, batch, cs.buffering⟩))
          else none
  | .fail g => do
      let gen ← s.generations[g]?
      let cs ← gen.stream
      -- what has been received is looked at first
      if cs.batch.isEmpty && cs.buffering.isNone then some (s.setStream g gen none) else none
  | .next g => do
      let gen ← s.generations[g]?
      let cs ← gen.stream
      match cs.batch, cs.buffering with
      | doc :: docs, none => some (s.setStream g gen (some ⟨cs.events, docs, gen.handle doc⟩))
      | _, _ => none
  | .buffer g => do
      let gen ← s.generations[g]?
      let cs ← gen.stream
      let (servers, tag, value) ← cs.buffering
      let s' := s.setStream g gen (some ⟨cs.events, cs.batch, none⟩)
      some { s' with pendingChanges := bufferUpdate g servers tag value s.pendingChanges }
  | .drain g =>
      if s.flushing.any fun e => e.1 = g then none
      else
        some { s with
          flushing := s.flushing ++ s.pendingChanges.map fun u => (g, u)
          pendingChanges := [] }
  | .updateOnlineValue i => do
      let (_, u) ← s.flushing[i]?
      some { s with
        flushing := s.flushing.eraseIdx i
        generations := s.generations.modify u.model fun gen => gen.updateValue u.tag u.value }
  | .associate l => do
      let (g, conn) ← s.listeners[l]?
      let gen ← s.generations[g]?
      let registry := gen.registry ++ [(s.nextServer, conn.toConnection)]
      some { s.setGeneration g { gen with registry := registry } with nextServer := s.nextServer + 1 }
  | .release g server => do
      let gen ← s.generations[g]?
      some (s.setGeneration g
        { gen with registry := gen.registry.filter fun e => e.1 ≠ server })

def start (c : Collection) : State where
  realtimeData := c
  generations := []
  listeners := []
  nextServer := 0
  pendingChanges := []
  flushing := []

-- What the client of a server reads.
def State.read (s : State) (g server : ℕ) (tag : String) : Option IndicationPoint := do
  let gen ← s.generations[g]?
  if gen.registry.any fun e => e.1 = server then gen.ipByTag tag else none

end Driver

end JsonScada.Iccp.Server
