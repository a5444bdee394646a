import JsonScada.Mqtt.Updates

-- The Sparkplug nodes and devices that the driver listens to: births, data and deaths.
namespace JsonScada.Mqtt

open JsonScada.Library
open JsonScada.JsMongo (findOne updateOne matchesFilter)
open JsonScada.Processor (Document Value truthyValue rawOrNil applySet)
open JsonScada.WebServer (strictEq)

section Topics

inductive MsgType where
  | ndata | ddata | nbirth | dbirth | ndeath | ddeath
  -- a command, or a type that is not known
  | other
  deriving DecidableEq

-- The levels of a topic, empty where there is none.
structure TopicInfo where
  space : String
  groupId : String
  msgType : MsgType
  edgeNodeId : String
  deviceId : String := ""
  deriving DecidableEq

def MsgType.ofDevice : MsgType → Bool
  | .ddata | .dbirth | .ddeath => true
  | _ => false

-- Topics with less levels than required are ignored.
def TopicInfo.valid (t : TopicInfo) : Bool :=
  t.space ≠ "" && t.groupId ≠ "" && t.edgeNodeId ≠ "" && !(t.msgType.ofDevice && t.deviceId = "")

def TopicInfo.nodeLocator (t : TopicInfo) : String :=
  t.space ++ "/" ++ t.groupId ++ "/" ++ t.edgeNodeId

def TopicInfo.deviceLocator (t : TopicInfo) : String :=
  if t.deviceId = "" then t.nodeLocator else t.nodeLocator ++ "/" ++ t.deviceId

-- What a message speaks of.
def TopicInfo.locator (t : TopicInfo) : String :=
  if t.msgType.ofDevice then t.deviceLocator else t.nodeLocator

def startsWith (path s : String) : Bool := path.toList.isPrefixOf s.toList

-- A text that goes on after the path with another level.
def under (path s : String) : Bool := startsWith (path ++ "/") s

def topicStr (s : String) : String :=
  String.ofList ((Processor.trim Processor.Node.isSpace s.toList).map fun c =>
    if c = '/' then '|' else if c = '+' then '^' else if c = '#' then '@' else c)

end Topics

section Metrics

-- A metric of a payload: what its name, its alias, its template and its quality are, and
-- the fields that are made of its value, its times and its catalog.
inductive Metric where
  | mk (name aliasName : Option String) (typed : Bool) (members : Option (List Metric))
      (isNull : Bool) (properties fields : Document)

-- A value is invalid when there is none, unless one of its properties tells.
def invalidOf (isNull : Bool) (properties : Document) : Bool :=
  let quality (key : String) (invalid : Bool) : Bool :=
    match properties.lookup key with
    | some v => !strictEq (some v) (some (.number (.fin 192)))
    | none => invalid
  let good :=
    match properties.lookup "good" with
    | some v => !truthyValue (some v)
    | none => isNull
  quality "Quality" (quality "quality" good)

abbrev Aliases := List (String × String)

-- The address of a metric, and the aliases with its own.
def objectAddress (locator template : String) (aliases : Aliases) (name aliasName : Option String) :
    Option (String × Aliases) :=
  match name.filter fun s => Processor.trim Processor.Node.isSpace s.toList ≠ [] with
  | some name =>
      let path :=
        if Processor.trim Processor.Node.isSpace template.toList ≠ [] then
          topicStr template ++ "/" ++ name
        else topicStr name
      let address := locator ++ "/" ++ path
      some (address, aliasName.elim aliases fun a => (a, address) :: aliases)
  | none => (aliasName.bind (List.lookup · aliases)).map (·, aliases)

mutual

-- What is queued for a metric, and for those of a template.
def queueMetric (locator template : String) (aliases : Aliases) : Metric → List Data × Aliases
  | .mk name aliasName typed members isNull properties fields =>
      if typed then
        match objectAddress locator template aliases name aliasName with
        | none => ([], aliases)
        | some (address, aliases) =>
            match members with
            | some members => queueMetrics locator (name.getD "") aliases members
            | none =>
                ([⟨address, ("invalid", .bool (invalidOf isNull properties)) :: fields⟩], aliases)
      else ([], aliases)

def queueMetrics (locator template : String) (aliases : Aliases) :
    List Metric → List Data × Aliases
  | [] => ([], aliases)
  | m :: metrics =>
      let (data, aliases) := queueMetric locator template aliases m
      let (rest, aliases) := queueMetrics locator template aliases metrics
      (data ++ rest, aliases)

end

end Metrics

section Messages

structure Device where
  birthed : Bool
  lastReqDateTime : Option ℤ := none
  mapAliasToObjectAddress : Aliases := []

abbrev DevicesList := List (String × Device)

def setDevice (devices : DevicesList) (locator : String) (d : Device) : DevicesList :=
  (locator, d) :: devices.filter (·.1 ≠ locator)

def isBirthed (devices : DevicesList) (locator : String) : Bool :=
  (devices.lookup locator).any Device.birthed

def secondsBetweenNodeRequests : ℤ := 300

-- The effect of a message: what is known of the devices, what is queued and the path whose
-- tags are invalidated.
structure Effect where
  devices : DevicesList
  queued : List Data := []
  invalidated : Option String := none

def unborn (d : Device) : Device := { d with birthed := false }

-- Data of what is not birthed is ignored, and a rebirth is requested now and then.
def refused (devices : DevicesList) (nodeLocator : String) (now : ℤ) : Effect :=
  let waiting := (devices.lookup nodeLocator).any fun d =>
    d.lastReqDateTime.any fun last => now < last + secondsBetweenNodeRequests * 1000
  if waiting then { devices := devices }
  else
    { devices := setDevice devices nodeLocator { birthed := false, lastReqDateTime := some now } }

def processBirth (devices : DevicesList) (locator : String) (metrics : List Metric) : Effect :=
  let (queued, aliases) := queueMetrics locator "" [] metrics
  { devices := setDevice devices locator { birthed := true, mapAliasToObjectAddress := aliases }
    queued := queued }

def processData (devices : DevicesList) (locator : String) (d : Device) (metrics : List Metric) :
    Effect :=
  let (queued, aliases) := queueMetrics locator "" d.mapAliasToObjectAddress metrics
  { devices := setDevice devices locator { d with mapAliasToObjectAddress := aliases }
    queued := queued }

def handleMessage (devices : DevicesList) (t : TopicInfo) (metrics : List Metric) (now : ℤ) :
    Effect :=
  if !t.valid then { devices := devices }
  else
    match t.msgType with
    | .ndata | .ddata =>
        match devices.lookup t.locator with
        | some d =>
            if d.birthed then processData devices t.locator d metrics
            else refused devices t.nodeLocator now
        | none => refused devices t.nodeLocator now
    | .nbirth =>
        { processBirth devices t.locator metrics with invalidated := some t.nodeLocator }
    | .dbirth => processBirth devices t.locator metrics
    | .ndeath =>
        { devices := devices.map fun (key, d) =>
            (key, if startsWith t.nodeLocator key then unborn d else d)
          invalidated := some t.nodeLocator }
    | .ddeath =>
        { devices := devices.map fun (key, d) =>
            (key, if key = t.deviceLocator then unborn d else d)
          invalidated := some t.deviceLocator }
    | .other => { devices := devices }

end Messages

section Invalidation

variable (connNumber : ℤ)

def docAddress (d : Document) : Option String :=
  match d.lookup "protocolSourceObjectAddress" with
  | some (.string address) => some address
  | _ => none

-- The documents that `InvalidatePathTags` selects: it looks for addresses that begin with
-- the path.
def selects (path : String) (d : Document) : Bool :=
  matchesFilter [("protocolSourceConnectionNumber", .number (.fin connNumber))] d &&
    (docAddress d).any (startsWith path)

def invalidatePathTags (path : String) (coll : List Document) : List Document :=
  coll.map fun d => if selects connNumber path d then applySet d [("invalid", .bool true)] else d

end Invalidation

end JsonScada.Mqtt
