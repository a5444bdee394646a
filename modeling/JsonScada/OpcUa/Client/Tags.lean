import JsonScada.Dnp3.Client
import JsonScada.OpcUa.Client.Browse
import JsonScada.OpcUa.Client.Connection

-- The tags that the OPC UA client creates by itself, and the tags that it finds.
namespace JsonScada.OpcUa.Client

open JsonScada.Library
open JsonScada.JsMongo
open JsonScada.JsTags
open JsonScada.Processor (Document Value applySet)

section Tags

-- What is used of other packages: ua.ParseNodeID, json.Unmarshal into any value, and the number
-- of bytes that bson.Marshal gives.
structure Runtime where
  parseNodeID : String → Option NodeId
  unmarshal : String → Option Value
  marshalSize : Document → Option ℕ

variable (rt : Runtime)

section Creation

def tagTypeFor (asdu : String) (isArray : Bool) : String :=
  if isArray then "json"
  else if asdu.toLower = "boolean" then "digital"
  else if asdu.toLower ∈ ["string", "bytestring", "localeid", "localizedtext", "xmlelement",
      "qualifiedname", "guid"] then "string"
  else if asdu.toLower ∈ ["nodeid", "expandednodeid", "extensionobject"] then "json"
  else "analog"

def tagFromOPCParameters (ov : OPCValue) : String := ov.connName ++ ";" ++ ov.address

def OPCValue.isCommand (ov : OPCValue) : Bool :=
  ov.createCommandForMethod || ov.createCommandForSupervised

def digitalTexts : Document :=
  [("stateTextFalse", .string "FALSE"), ("stateTextTrue", .string "TRUE"),
    ("eventTextFalse", .string "FALSE"), ("eventTextTrue", .string "TRUE")]

-- What the type of a tag decides.
def shapeOf (ov : OPCValue) (id : Double) : Document :=
  let typ := tagTypeFor ov.asdu ov.isArray
  if ov.isCommand then
    [("origin", .string "command"), ("tag", .string (tagFromOPCParameters ov ++ ";cmd")),
      ("description", .string (ov.connName ++ "~" ++ ov.path ++ "~" ++ ov.displayName ++ "-Command")),
      ("alarmState", .number (.fin 2)), ("protocolSourcePublishingInterval", .number (.fin 0)),
      ("protocolSourceSamplingInterval", .number (.fin 0)),
      ("protocolSourceQueueSize", .number (.fin 0)), ("commandOfSupervised", .number (.fin 0)),
      -- the supervised twin is expected to get the next key
      ("supervisedOfCommand", .number
        (if ov.createCommandForSupervised then Double.add Double.round id (.fin 1) else .fin 0)),
      ("value", .number (.fin 0)), ("valueString", .string ""), ("valueJson", .string "")] ++
      (if typ = "digital" then digitalTexts else [])
  else if typ = "digital" then
    [("alarmState", .number (.fin 2)), ("value", .number ov.value)] ++ digitalTexts
  else if typ = "string" then [("valueString", .string ov.valueString)]
  else if typ = "json" then
    [("valueString", .string ov.valueString), ("valueJson", .string ov.valueJSON)]
  else [("value", .number ov.value), ("valueJson", .null)]

def newRealtimeDoc (ov : OPCValue) (id commandOfSupervised : Double) : Document :=
  applySet (applySet baseDoc
    [("_id", .number id), ("protocolSourceBrowsePath", .string ov.path),
      ("protocolSourceAccessLevel", .string (toString ov.accessLevels)),
      ("protocolSourceASDU", .string ov.asdu),
      ("protocolSourceCommonAddress", .string ov.commonAddress),
      ("protocolSourceConnectionNumber", .number (.fin ov.connNumber)),
      ("protocolSourceObjectAddress", .string ov.address),
      ("protocolSourceCommandUseSBO", .bool false),
      ("protocolSourceCommandDuration", .number (.fin 0)),
      ("protocolSourcePublishingInterval", .number (.fin 5)),
      ("protocolSourceSamplingInterval", .number (.fin 2)),
      ("protocolSourceQueueSize", .number (.fin 10)), ("protocolSourceDiscardOldest", .bool true),
      ("alarmState", .number (.fin (-1))),
      ("description", .string (ov.connName ++ "~" ++ ov.path ++ "~" ++ ov.displayName)),
      ("ungroupedDescription", .string ov.displayName), ("group1", .string ov.connName),
      ("group2", .string ov.path), ("group3", .string ""), ("stateTextFalse", .string ""),
      ("stateTextTrue", .string ""), ("eventTextFalse", .string ""), ("eventTextTrue", .string ""),
      ("origin", .string "supervised"), ("tag", .string (tagFromOPCParameters ov)),
      ("type", .string (tagTypeFor ov.asdu ov.isArray)), ("value", .number (.fin 0)),
      ("valueString", .string ""), ("valueJson", .string ""),
      ("commandOfSupervised", .number commandOfSupervised), ("invalid", .bool true),
      ("invalidDetectTimeout", .number (.fin 60000)), ("protocolDestinations", .array []),
      ("supervisedOfCommand", .number (.fin 0))])
    (shapeOf ov id)

def withIntervals (d : Document) (publishing sampling queueSize : Double) : Document :=
  applySet d
    [("protocolSourcePublishingInterval", .number publishing),
      ("protocolSourceSamplingInterval", .number sampling),
      ("protocolSourceQueueSize", .number queueSize)]

-- A value takes its path from what browsing recorded of its node.
def withDetails (c : Connection) (ov : OPCValue) : OPCValue :=
  match c.nodeIdsDetails ov.address with
  | some details => { ov with parentName := details.parentName, path := details.path }
  | none => { ov with parentName := "", path := "" }

def commandDoc (ov : OPCValue) (key : Double) : Document :=
  withIntervals (newRealtimeDoc ov key (.fin 0)) (.fin 0) (.fin 0) (.fin 0)

def tagDoc (c : Connection) (ov : OPCValue) (key commandOfSupervised : Double) : Document :=
  withIntervals
    (newRealtimeDoc { ov with createCommandForSupervised := false } key commandOfSupervised)
    c.autoCreateTagPublishingInterval c.autoCreateTagSamplingInterval c.autoCreateTagQueueSize

end Creation

section Update

def supervisedFilter (connNumber : ℤ) (objectAddress : String) : Document :=
  [("protocolSourceConnectionNumber", .number (.fin connNumber)),
    ("protocolSourceObjectAddress", .string objectAddress), ("origin", .string "supervised")]

def sourceDataUpdate (ov : OPCValue) : Dnp3.SourceDataUpdate where
  valueAtSource := ov.value
  valueStringAtSource := ov.valueString
  asduAtSource := ov.asdu
  causeOfTransmissionAtSource := toString ov.cot
  timeTagAtSource := ov.sourceTimestamp.elim .null fun ns => .dateTime (ns / 1000000)
  timeTagAtSourceOk := ov.sourceTimestamp.isSome
  timeTag := .dateTime (ov.serverTimestamp / 1000000)
  notTopicalAtSource := false
  invalidAtSource := !ov.quality
  overflowAtSource := false
  blockedAtSource := false
  substitutedAtSource := false
  extra :=
    [("valueBsonAtSource",
        if ov.valueJSON = "" then .null else (rt.unmarshal ov.valueJSON).getD .null),
      ("valueJsonAtSource", .string ov.valueJSON)]

def maxUpdateBytes : ℕ := 3 * 1024 * 1024

-- Only a long rendering is encoded to be measured.
def updateTooLarge (update : Document) (renderedLen : ℕ) : Bool :=
  maxUpdateBytes / 16 < renderedLen && (rt.marshalSize update).any (maxUpdateBytes < ·)

-- The operations of a bulk write.
inductive WriteModel where
  | insertOne (d : Document)
  | updateOne (filter sourceDataUpdate : Document)

-- None for an update that is too large.
def updateModel (ov : OPCValue) : Option WriteModel :=
  let sdu := (sourceDataUpdate rt ov).bson
  if updateTooLarge rt [("$set", .document [("sourceDataUpdate", .document sdu)])]
      (ov.valueJSON.utf8ByteSize + ov.valueString.utf8ByteSize) then none
  else some (.updateOne (supervisedFilter ov.connNumber ov.address) sdu)

-- The collection after one operation.
def WriteModel.apply (coll : List Document) : WriteModel → List Document
  | insertOne d => (JsMongo.insertOne coll d).getD coll
  | updateOne filter sdu => JsMongo.updateOne filter [("sourceDataUpdate", .document sdu)] coll

end Update

section Preload

-- The address of a stored tag may be no node.
def isStoredDiagnostic (address path : String) : Bool :=
  (rt.parseNodeID address).any isEphemeralDiagnosticId || onDiagnosticPath path

def isDiagnosticTag (doc : Document) : Bool :=
  isStoredDiagnostic rt (doc.str "protocolSourceObjectAddress")
    (doc.str "protocolSourceBrowsePath" ++ "/" ++ doc.str "ungroupedDescription")

def isMonitoredTag (doc : Document) : Bool :=
  !isDiagnosticTag rt doc && doc.str "origin" = "supervised"

def itemOfTag (ptr : ℕ) (doc : Document) : MonItem where
  ptr := ptr
  nodeID := doc.str "protocolSourceObjectAddress"
  displayName := doc.str "ungroupedDescription"
  samplingMs := Double.mul Double.round
    (getDouble doc "protocolSourceSamplingInterval" (.fin 0)) (.fin 1000)
  queueSize := (getDouble doc "protocolSourceQueueSize" (.fin 0)).toInt.toNat % 2 ^ 32

-- The item joins the group of its publishing interval.
def addToGroup (pub : Double) (it : MonItem) :
    List (Double × List MonItem) → List (Double × List MonItem)
  | [] => [(pub, [it])]
  | (p, items) :: subs =>
      if Double.eq p pub then (p, items ++ [it]) :: subs else (p, items) :: addToGroup pub it subs

-- What is read of the tags of a connection.
structure Preloaded where
  listMon : List MonItem := []
  subs : List (Double × List MonItem) := []
  addrs : List String := []

def preloadTag (p : Preloaded) (ptr : ℕ) (doc : Document) : Preloaded :=
  let addr := doc.str "protocolSourceObjectAddress"
  if isMonitoredTag rt doc then
    let it := itemOfTag ptr doc
    { listMon := p.listMon ++ [it]
      subs := addToGroup (getDouble doc "protocolSourcePublishingInterval" (.fin 0)) it p.subs
      addrs := addr :: p.addrs }
  else { p with addrs := addr :: p.addrs }

-- Items are told apart by numbers from `ptr` on.
def preload (ptr : ℕ) (docs : List Document) : Preloaded :=
  (docs.zipIdx ptr).foldl (fun p d => preloadTag rt p d.2 d.1) {}

def tagsOf (coll : List Document) (connNumber : ℤ) : List Document :=
  coll.filter (matchesFilter [("protocolSourceConnectionNumber", .number (.fin connNumber))])

end Preload

end Tags

-- Reading what was browsed, to create its tags and to monitor it.
section Autotag

section Paths

-- strings.Replace with the empty text, once.
def removeFirst (sub : List Char) : List Char → List Char
  | [] => []
  | c :: cs =>
      if sub.isPrefixOf (c :: cs) then (c :: cs).drop sub.length else c :: removeFirst sub cs

def splitBrowsePath (full : String) : String × String :=
  match (full.toList.splitOn '/').dropLast with
  | [] => ("", "")
  | dirs =>
      let dir := List.intercalate ['/'] dirs
      (String.ofList (removeFirst "/Objects/".toList dir), String.ofList (dirs.getLastD []))

def contains (s sub : String) : Bool := decide (sub.toList <:+: s.toList)

end Paths

section Selection

variable (topics : List String) (commandsEnabled : Bool)

-- The first filter: a topic is a whole segment of the path.
def isKept (e : Entry) : Bool :=
  topics.isEmpty || e.ref.nodeClass = .objectClass ||
    (e.ref.nodeClass = .methodClass && !commandsEnabled) ||
    topics.any fun topic => contains (e.path ++ "/") ("/" ++ topic ++ "/")

-- Objects are containers, and methods matter only as commands.
def toRead (entries : List Entry) : List Entry :=
  (entries.filter (isKept topics commandsEnabled)).filter fun e =>
    !(e.ref.nodeClass = .objectClass || (e.ref.nodeClass = .methodClass && !commandsEnabled))

-- The second filter: a topic is a part of the path.
def addToMonitoring (e : Entry) : Bool :=
  topics.isEmpty || topics.any fun topic => contains e.path topic

end Selection

section Nodes

def maxNodesToRead : ℕ := 500

-- The attributes of a node, as they were read.
structure NodeInfo where
  ok : Bool
  nodeClass : NodeClass
  browseName : String
  displayName : String
  accessLevel : ℕ
  executable : Bool
  userExecutable : Bool

-- The value of a node: none was given, or none for this node, or the null value, or one.
inductive ReadValue where
  | unread
  | missing
  | null
  | value (v : DataValue)

def currentWrite : ℕ := 2

def detailsOf (e : Entry) (info : NodeInfo) : NodeDetails where
  displayName := info.displayName
  browseName := info.browseName
  parentName := (splitBrowsePath e.path).2
  path := (splitBrowsePath e.path).1

def methodValue (c : Connection) (e : Entry) (info : NodeInfo) (now : ℤ) : OPCValue where
  createCommandForMethod := true
  accessLevels := currentWrite
  selfPublish := true
  address := e.key
  asdu := "method"
  serverTimestamp := now
  quality := false
  cot := 0
  connNumber := c.protocolConnectionNumber
  connName := c.name
  commonAddress := ""
  displayName := info.displayName
  parentName := (splitBrowsePath e.path).2
  path := (splitBrowsePath e.path).1

def readingValue (c : Connection) (e : Entry) (info : NodeInfo) (v : DataValue) (now : ℤ) :
    OPCValue where
  createCommandForSupervised := c.commandsEnabled && Nat.land info.accessLevel currentWrite ≠ 0
  accessLevels := info.accessLevel
  valueJSON := v.valueJSON
  selfPublish := true
  address := e.key
  isArray := v.isArray
  asdu := v.asdu
  value := v.value
  valueString := v.valueString
  sourceTimestamp := v.sourceTimestamp.map (· + c.hoursShift)
  serverTimestamp := now
  quality := v.good
  cot := 20
  connNumber := c.protocolConnectionNumber
  connName := c.name
  commonAddress := ""
  displayName := info.displayName
  parentName := (splitBrowsePath e.path).2
  path := (splitBrowsePath e.path).1

def itemOfNode (c : Connection) (ptr : ℕ) (e : Entry) (info : NodeInfo) : MonItem where
  ptr := ptr
  nodeID := e.key
  displayName := info.browseName
  samplingMs := Library.Double.mul Library.Double.round c.autoCreateTagSamplingInterval (.fin 1000)
  queueSize := c.autoCreateTagQueueSize.toInt.toNat % 2 ^ 32

variable (topics : List String) (c : Connection)

def isMethod (info : NodeInfo) : Bool := info.nodeClass = .methodClass && c.commandsEnabled

-- Whether the node becomes an item.
def isAdded (e : Entry) (info : NodeInfo) (rv : ReadValue) : Bool :=
  !c.hasInsertedAddress e.key && info.ok && !isMethod c info && addToMonitoring topics e &&
    match rv with
    | .unread | .missing => false
    | .null | .value _ => true

-- One node of a batch, with what is queued for it. A null value makes an item and nothing else.
def autotagNode (ptr : ℕ) (e : Entry) (info : NodeInfo) (rv : ReadValue) (now : ℤ) :
    Connection × List OPCValue :=
  if c.hasInsertedAddress e.key || !info.ok then (c, [])
  else if isMethod c info then
    if info.executable && info.userExecutable then
      (c.setNodeDetails e.key (detailsOf e info), [methodValue c e info now])
    else (c, [])
  else if isAdded topics c e info rv then
    let c' := c.setNodeDetails e.key (detailsOf e info)
    let c' := { c' with listMon := c'.listMon ++ [itemOfNode c ptr e info] }
    match rv with
    | .value v => (c', [readingValue c e info v now])
    | _ => (c', [])
  else (c, [])

end Nodes

end Autotag

end JsonScada.OpcUa.Client
