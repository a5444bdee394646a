import JsonScada.WebServer.Database

-- The write service: acknowledgements, commands and the properties of points.
namespace JsonScada.WebServer

open JsonScada.Library
open JsonScada.Processor (Document Value rawOrNil setField)
open JsonScada.Processor.Node (Runtime)

def beepPointKey : Double := .fin (-1)
def eventsRemoveGuardSeconds : ℤ := 20
def commandSentAsSOESymbol : String := "⚙️➡️"

-- What the handler takes from the driver of the database.
structure Driver where
  js : Runtime
  -- the condition that a client has sent, none when the database refuses it
  asked : Option Value → Option (Option Value → Bool)
  -- `new ObjectId(v)`, none when it throws
  objectId : Option Value → Option (List UInt8)
  -- `toFixed(2)` of a Double of the database, none where it has no such method
  toFixed : Double → Option String
  acknowledged : Bool

-- What differs from one node of a request to the next.
structure Moment where
  now : ℤ
  elapsed : String
  -- the identifiers of what is inserted
  newId : ℕ → List UInt8

inductive Flow where
  | next (r : Response)
  | answered (r : Response)
  | thrown

-- What one node of a request does: the writes in their order, the user actions that are
-- queued, and how it goes on.
structure Outcome where
  writes : List Write := []
  actions : List Document := []
  flow : Flow

variable (env : Driver) (s : Session) (m : Moment)

section Points

-- A text is looked for as it is.
def tagFilter (id : Option Value) : Option Filter :=
  match id with
  | some (.string t) => some (Filter.field "tag" (Filter.string t))
  | id => (env.asked id).map fun p d => p (d.lookup "tag")

def keyFilter (id : Option Value) : Filter :=
  Filter.field "_id" (Filter.number (parseInt env.js id))

-- The query for a node, none where the type of its id is another. The query may be one
-- that the database refuses.
def findPoint (idType id : Option Value) : Option (Option Filter) :=
  if strictEq idType (some (.number (.fin opcIdTypeNumber))) then some (some (keyFilter env id))
  else if strictEq idType (some (.number (.fin opcIdTypeString))) then some (tagFilter env id)
  else none

end Points

section Acknowledge

-- One part of the handling of an acknowledgement.
structure Part where
  writes : List Write := []
  actions : List Document := []
  thrown : Bool := false

def Part.andThen (a b : Part) : Part :=
  if a.thrown then a else ⟨a.writes ++ b.writes, a.actions ++ b.actions, b.thrown⟩

def userAction (action : String) (time : ℤ) (fields : Document) : Document :=
  [("username", .string s.username), ("action", .string action)] ++ fields ++
    [("timeTag", .dateTime time)]

def soeFilter (conditions : List Filter) : Filter :=
  Filter.all (conditions ++ [s.rights.groupFilter])

-- Events of the last seconds are kept from being removed.
def notRecent : Filter :=
  Filter.any
    [Filter.field "timeTag" (Filter.notBefore (m.now + eventsRemoveGuardSeconds * 1000)),
      Filter.field "timeTag" (Filter.notAfter (m.now - eventsRemoveGuardSeconds * 1000))]

def notRemoved : Filter := Filter.field "ack" (Filter.atMost (.fin 1))

def notAcknowledged : Filter := Filter.field "ack" (Filter.number (.fin 0))

def setAck (n : ℚ) : Document → Document := set [("ack", .number (.fin n))]

-- The events of a node.
def pointEvents (id : Option Value) (conditions : List Filter) (n : ℚ) (action : String)
    (time : ℤ) : Part :=
  match tagFilter env id with
  | none => { thrown := true }
  | some f =>
      { writes := [.updateSoeMany (soeFilter s (f :: conditions)) (setAck n)]
        actions := [userAction s action time [("tag", rawOrNil id)]] }

-- The event that the properties of a node name.
def oneEvent (node : Document) (id : Option Value) (condition : Filter) (n : ℚ)
    (action : String) : Part :=
  match (member (node.lookup "_Properties") "event_id").bind env.objectId with
  | none => { thrown := true }
  | some event =>
      let f := Filter.field "_id" fun | .other bytes => bytes = event | _ => false
      { writes := [.updateSoeMany (soeFilter s [f, condition]) (setAck n)]
        actions :=
          [userAction s action m.now [("tag", rawOrNil id), ("eventId", .other event)]] }

def acknowledgeEvents (flag : ℕ → Bool) (node : Document) (id : Option Value) : Part :=
  let removed := m.now - eventsRemoveGuardSeconds * 1000
  if flag Acknowledge.removeAllEvents then
    { writes := [.updateSoeMany (soeFilter s [notRemoved, notRecent m]) (setAck 2)]
      actions := [userAction s "Remove All Events" removed []] }
  else if flag Acknowledge.ackAllEvents then
    { writes := [.updateSoeMany (soeFilter s [notAcknowledged]) (setAck 1)]
      actions := [userAction s "Ack All Events" m.now []] }
  else if flag Acknowledge.removePointEvents then
    pointEvents env s id [notRemoved, notRecent m] 2 "Remove Point Events" removed
  else if flag Acknowledge.ackPointEvents then
    pointEvents env s id [notAcknowledged] 1 "Ack Point Events" m.now
  else if flag Acknowledge.removeOneEvent then
    oneEvent env s m node id notRemoved 2 "Remove One Event"
  else if flag Acknowledge.ackOneEvent then
    oneEvent env s m node id notAcknowledged 1 "Ack One Event"
  else {}

def digitalEvent : List Filter :=
  [Filter.field "type" (Filter.string "digital"), Filter.field "isEvent" Filter.isTrue]

def supervisedOrCalculated : Filter :=
  Filter.any [Filter.field "origin" (Filter.string "supervised"),
    Filter.field "origin" (Filter.string "calculated")]

def setAlarmed : Document → Document := set [("alarmed", .bool false)]

-- A digital event returns to zero. A field that is set to one that is missing is removed.
def returnToZero (d : Document) : Document :=
  let d' := setField d "value" (.number (.fin 0))
  let d' :=
    match d.lookup "stateTextFalse" with
    | some v => setField d' "valueString" v
    | none => d'.filter fun f => f.1 ≠ "valueString"
  setField (setField d' "timeTagAtSource" .null) "TimeTagAtSourceOk" .null

def acknowledgeAlarms (flag : ℕ → Bool) (point : Option Filter) (id : Option Value) : Part :=
  if flag Acknowledge.ackAllAlarms then
    let group := s.rights.groupFilter
    { writes :=
        [.updateRealtimeMany group setAlarmed,
          .updateRealtimeMany
            (Filter.all (group :: digitalEvent ++
              [Filter.field "value" (Filter.number (.fin 1)), supervisedOrCalculated]))
            returnToZero]
      actions := [userAction s "Ack All Alarms" m.now []] }
  else if flag Acknowledge.ackOneAlarm then
    match point with
    | none => { thrown := true }
    | some f =>
        { writes :=
            [.updateRealtime f setAlarmed,
              .updateRealtime (Filter.all (f :: digitalEvent ++ [supervisedOrCalculated]))
                returnToZero]
          actions := [userAction s "Ack Point Alarm" m.now [("pointKey", rawOrNil id)]] }
  else {}

def beepPoint : Filter := Filter.field "_id" (Filter.number beepPointKey)

def silence : Document :=
  [("value", .number (.fin 0)), ("valueString", .string "0"), ("beepType", .number (.fin 0))]

-- A user of some groups takes these from the list of the beep point.
def silenceBeep (flag : ℕ → Bool) : Part :=
  if flag Acknowledge.silenceBeep then
    { writes :=
        if 0 < s.rights.group1List.length then
          [.updateRealtime beepPoint (pullAll "beepGroup1List" s.rights.group1List),
            .updateRealtime
              (Filter.all [beepPoint, Filter.field "beepGroup1List" Filter.emptyList])
              (set silence)]
        else [.updateRealtime beepPoint (set (silence ++ [("beepGroup1List", .array [])]))]
      actions := [userAction s "Silence Beep" m.now []] }
  else {}

-- An acknowledgement answers the request, whatever nodes may follow.
def acknowledge (r : Response) (node : Document) : Outcome :=
  match member (node.lookup "Value") "Body" with
  | none => { flow := .thrown }
  | some body =>
      let flag (mask : ℕ) : Bool := bitAnd env.js body mask ≠ 0
      if !s.rights.ackEvents && [Acknowledge.removeAllEvents, Acknowledge.removeOneEvent,
          Acknowledge.removePointEvents, Acknowledge.ackAllEvents, Acknowledge.ackOneEvent,
          Acknowledge.ackPointEvents].any flag then
        { flow := .answered (r.tell .badUserAccessDenied "User has no right to ack/remove events!") }
      else if !s.rights.ackAlarms && [Acknowledge.ackOneAlarm, Acknowledge.ackAllAlarms,
          Acknowledge.silenceBeep].any flag then
        { flow := .answered
            (r.tell .badUserAccessDenied "User has no right to ack or silence alarms!") }
      else
        match member (node.lookup "NodeId") "IdType" with
        | none => { flow := .thrown }
        | some idType =>
            let id := optionalMember (node.lookup "NodeId") "Id"
            let point := (findPoint env idType id).join.map fun f =>
              Filter.all [f, s.rights.groupFilter]
            let part := (acknowledgeEvents env s m flag node id).andThen
              ((acknowledgeAlarms s m flag point id).andThen (silenceBeep s m flag))
            { writes := part.writes
              actions := part.actions
              flow :=
                if part.thrown then .thrown
                else .answered (r.tell .goodNoData
                  ("Ok, no data returned. Query time: " ++ m.elapsed ++ " ms")) }

end Acknowledge

section Command

def toDouble (v : Option Value) : Value := .number (toNumber env.js v)

-- The address of a command: texts as they are, numbers as doubles.
def addressing (data : Document) : Document :=
  let address := data.lookup "protocolSourceCommonAddress"
  let object := data.lookup "protocolSourceObjectAddress"
  let asdu := data.lookup "protocolSourceASDU"
  let nan (v : Option Value) : Bool := (toNumber env.js v).isNaN
  let stored (v : Option Value) : Value :=
    if (!isEmpty address && nan address) || nan object || nan asdu then rawOrNil v
    else toDouble env v
  [("protocolSourceCommonAddress", stored address), ("protocolSourceObjectAddress", stored object),
    ("protocolSourceASDU", stored asdu)]

def issued (value valueString : Value) : Document :=
  [("timeTag", .dateTime m.now), ("value", toDouble env (some value)),
    ("valueString", valueString), ("originatorUserName", .string s.username),
    ("originatorIpAddress", .string s.address), ("_id", .other (m.newId 0))]

-- A command that need not be found in the database.
def specialCommand (id : String) (value valueString : Value) : Document :=
  [("protocolSourceConnectionNumber", .number (.fin (-1))),
    ("protocolSourceCommonAddress", .number (.fin (-1))),
    ("protocolSourceObjectAddress", .number (.fin (-1))),
    ("protocolSourceASDU", .number (.fin (-1))),
    ("protocolSourceCommandDuration", .number (.fin 0)),
    ("protocolSourceCommandUseSBO", .bool false),
    ("pointKey", .number (.fin 0)), ("tag", .string id)] ++ issued env s m value valueString

def commandDoc (data : Document) (key : Double) (value valueString : Value) : Document :=
  [("protocolSourceConnectionNumber",
      toDouble env (data.lookup "protocolSourceConnectionNumber"))] ++
    addressing env data ++
    [("protocolSourceCommandDuration",
        toDouble env (data.lookup "protocolSourceCommandDuration")),
      ("protocolSourceCommandUseSBO", rawOrNil (data.lookup "protocolSourceCommandUseSBO")),
      ("pointKey", .number key), ("tag", rawOrNil (data.lookup "tag"))] ++
    issued env s m value valueString

-- What every event has that a user causes.
def eventOf (data : Document) (eventText : Value) (newId : List UInt8) : Document :=
  [("tag", rawOrNil (data.lookup "tag")), ("pointKey", rawOrNil (data.lookup "_id")),
    ("group1", rawOrNil (data.lookup "group1")),
    ("description", rawOrNil (data.lookup "description")), ("eventText", eventText),
    ("invalid", .bool false), ("priority", rawOrNil (data.lookup "priority")),
    ("timeTag", .dateTime m.now), ("timeTagAtSource", .dateTime m.now),
    ("timeTagAtSourceOk", .bool true), ("ack", .number (.fin 1)), ("_id", .other newId)]

def commandEvent (data : Document) (value valueString : Value) : Document :=
  let eventText :=
    if Processor.Node.isText "digital" (data.lookup "type") then
      text (data.lookup
        (if Processor.truthyValue (some value) then "eventTextTrue" else "eventTextFalse"))
    else valueText valueString
  eventOf m data (.string (eventText ++ commandSentAsSOESymbol)) (m.newId 1)

-- The value and the text of a command, none where they are malformed.
def commandValue (value : Document) : Option (Value × Value) :=
  match value.lookup "Type", value.lookup "Body" with
  | some (.number type), some body =>
      let plain :=
        match body with
        | .number _ | .string _ => true
        | _ => false
      if !plain then none
      else if Double.eq type (.fin DataType.double) then
        some (body, .string (valueText (.number (parseFloat env.js (some body)))))
      else if Double.eq type (.fin DataType.string) then
        some (.number (.fin 0), body)
      else none
  | _, _ => none

-- The command for a point that has been looked for.
def commandTo (r : Response) (id : Option Value) (value valueString : Value)
    (data : Option Document) : Outcome :=
  match data.bind fun data => (data.num "_id").map (data, ·) with
  | none =>
      { flow := .answered (r.tell .badNodeIdUnknown "Command point not found!") }
  | some (data, key) =>
      if !canSendCommandTo s (data.lookup "group1") then
        { flow := .answered (r.tell .badUserAccessDenied
            "User has no right to issue commands to the group1 destination!") }
      else
        let insert := Write.insertCommand (commandDoc env s m data key value valueString)
        if !env.acknowledged then
          { writes := [insert]
            flow := .answered (r.tell .badUnexpectedError "Could not queue command!") }
        else
          { writes := [insert, .insertSoe (commandEvent m data value valueString)]
            actions :=
              [[("username", .string s.username), ("pointKey", rawOrNil id),
                ("tag", rawOrNil (data.lookup "tag")), ("action", .string "Command"),
                ("properties", .document
                  [("value", toDouble env (some value)), ("valueString", valueString)]),
                ("timeTag", .dateTime m.now)]]
            flow := .next
              { r with
                results := r.results.map (· ++ [StatusCode.good.value])
                commandHandles :=
                  r.commandHandles.map (· ++ [.string (hex (m.newId 0))]) } }

def command (db : Database) (r : Response) (node : Document) : Outcome :=
  if !canSendCommands s then
    { flow := .answered (r.tell .badUserAccessDenied "User has no right to issue commands!") }
  else
    match node.lookup "NodeId" with
    | none => { flow := .next r }
    | some nodeId =>
        match isIn "Id" (some nodeId), node.lookup "Value" with
        | none, _ => { flow := .thrown }
        | some false, _ => { flow := .next r }
        | some true, some .null => { flow := .thrown }
        | some true, value =>
            match (match value with
                | some (.document value) => commandValue env value
                | _ => none) with
            | none =>
                { flow := .answered (r.tell .badNodeAttributesInvalid
                    "Invalid command type, malformed or missing information!") }
            | some (value, valueString) =>
                let id := optionalMember (some nodeId) "Id"
                if !(parseInt env.js id).isNaN then
                  commandTo env s m r id value valueString
                    (db.realtimeData.find? (keyFilter env id))
                else
                  match id with
                  | some (.string tag) =>
                      if Processor.hasPrefix tag "$$" then
                        { writes := [.insertCommand
                            (specialCommand env s m tag value valueString)]
                          flow := .answered
                            (if env.acknowledged then { r with serviceResult := .good }
                              else r.tell .badUnexpectedError "Could not queue command!") }
                      else
                        commandTo env s m r id value valueString
                          (db.realtimeData.find? (Filter.field "tag" (Filter.string tag)))
                  | _ => { flow := .thrown }

end Command

section Properties

-- One property that a request may change.
structure Edit where
  right : Bool
  field : String
  held : Option Value
  submitted : Option Value
  stored : Value

-- A user with the right changes what is submitted as another value.
def Edit.made (e : Edit) : Document :=
  if e.right && !strictEq e.held e.submitted then [(e.field, e.stored)] else []

-- The properties, and the value where a substituted one is submitted.
def editsOf (rights : UserRights) (prevData props : Document) : List Edit :=
  let property (right : Bool) (field : String) (convert : Option Value → Value) : Edit :=
    ⟨right, field, prevData.lookup field, props.lookup field, convert (props.lookup field)⟩
  [property rights.disableAlarms "alarmDisabled" rawOrNil,
    property rights.enterAnnotations "annotation" rawOrNil,
    property rights.enterLimits "loLimit" (toDouble env),
    property rights.enterLimits "hiLimit" (toDouble env),
    property rights.enterLimits "hysteresis" (toDouble env),
    property rights.enterNotes "notes" rawOrNil,
    ⟨rights.substituteValues && props.has "substituted" && props.has "newValue", "value",
      prevData.lookup "value", props.lookup "newValue", toDouble env (props.lookup "newValue")⟩]

def edited (rights : UserRights) (prevData props : Document) : Document :=
  (editsOf env rights prevData props).flatMap Edit.made

-- The fields that make the range be checked again.
def rangeFields : List String := ["alarmDisabled", "hiLimit", "loLimit", "hysteresis"]

-- `{ ...v, rangeCheck: now }`, of a document or null.
def rangeChecked (v : Option Value) (now : ℤ) : Value :=
  let fields := match v with
    | some (.document fields) => fields
    | _ => []
  .document (setField fields "rangeCheck" (.number (.fin now)))

-- The update that makes the processor check the range of an analog point.
def recheck (now : ℤ) (prevData changes : Document) : Document :=
  if Processor.Node.isText "analog" (prevData.lookup "type") &&
      rangeFields.any fun f => changes.has f then
    [("sourceDataUpdate", rangeChecked (prevData.lookup "sourceDataUpdate") now)]
  else []

-- The event of a new annotation, none where it throws.
def annotationEvent (prevData changes : Document) : Option (List Write) :=
  match changes.lookup "annotation" with
  | none => some []
  | some (.string a) =>
      let blank := Processor.trim Processor.Node.isSpace a.toList = []
      some [.insertSoe (eventOf m prevData (.string (if blank then "🏷️🗑️" else "🏷️🔒")) (m.newId 1))]
  | some _ => none

-- The event of a new value.
def valueEvent (prevData changes : Document) : Option (List Write) :=
  match changes.num "value" with
  | none => some []
  | some value =>
      let eventText : Option Value :=
        if Processor.Node.isText "digital" (prevData.lookup "type") then
          some (rawOrNil (prevData.lookup
            (if Double.eq value (.fin 0) then "eventTextFalse" else "eventTextTrue")))
        else (env.toFixed value).map fun t => .string (t ++ " " ++ text (prevData.lookup "unit"))
      eventText.map fun t => [.insertSoe (eventOf m prevData t (m.newId 2))]

def editPoint (r : Response) (id : Option Value) (point : Filter) (found : Option Document)
    (props : Document) : Outcome :=
  let changes := edited env s.rights (found.getD []) props
  let update := Write.updateRealtime point (set changes)
  if !env.acknowledged then
    { writes := [update]
      flow := .next { r with results := r.results.map (· ++ [StatusCode.badNodeIdUnknown.value]) } }
  else
    let actions :=
      [[("username", .string s.username), ("pointKey", rawOrNil id),
        ("action", .string "Update Properties"), ("properties", .document changes),
        ("timeTag", .dateTime m.now)]]
    match found with
    | none => { writes := [update], actions := actions, flow := .thrown }
    | some prevData =>
        let check := recheck m.now prevData changes
        let updates :=
          update :: (if check = [] then [] else [.updateRealtime point (set check)])
        match annotationEvent m prevData changes with
        | none => { writes := updates, actions := actions, flow := .thrown }
        | some annotated =>
            match valueEvent env m prevData changes with
            | none => { writes := updates ++ annotated, actions := actions, flow := .thrown }
            | some substituted =>
                { writes := updates ++ annotated ++ substituted
                  actions := actions
                  flow := .next
                    { r with results := r.results.map (· ++ [StatusCode.good.value]) } }

-- The properties of a node, none where the handler throws.
def propertiesOf (node : Document) : Option Document :=
  match member (node.lookup "Value") "_Properties" with
  | some (some (.document props)) => some props
  | some (some (.array _)) => some []
  | _ => none

def writeProperties (db : Database) (r : Response) (node : Document) : Outcome :=
  match node.lookup "NodeId" with
  | none => { flow := .next r }
  | some nodeId =>
      match isIn "Id" (some nodeId) with
      | none => { flow := .thrown }
      | some false =>
          { flow := .next
              { r with results := r.results.map (· ++ [StatusCode.badNodeIdInvalid.value]) } }
      | some true =>
          let id := optionalMember (some nodeId) "Id"
          match findPoint env (optionalMember (some nodeId) "IdType") id with
          | none => { flow := .answered (r.tell .badNodeIdInvalid "Invalid IdType!") }
          | some none => { flow := .thrown }
          | some (some point) =>
              match propertiesOf node with
              | none => { flow := .thrown }
              | some props =>
                  editPoint env s m r id point (db.realtimeData.find? point) props

end Properties

section Service

def handleNode (db : Database) (r : Response) (node : Value) : Outcome :=
  match node with
  | .document node =>
      if !Document.has node "AttributeId" then { flow := .next r }
      else
        let attributeId := node.lookup "AttributeId"
        if looseEq env.js attributeId AttributeId.extendedAlarmEventsAck then
          acknowledge env s m r node
        else if looseEq env.js attributeId AttributeId.value then command env s m db r node
        else if looseEq env.js attributeId AttributeId.description then
          writeProperties env s m db r node
        else { flow := .next r }
  | .array _ => { flow := .next r }
  | _ => { flow := .thrown }

structure Served where
  database : Database
  -- none when the handler has thrown
  response : Option Response
  actions : List Document

-- The nodes of a request one after the other, each with its moment.
def writeNodes (db : Database) (r : Response) (actions : List Document) :
    List (Moment × Value) → Served
  | [] => ⟨db, some { r with serviceResult := .good }, actions⟩
  | (m, node) :: nodes =>
      let o := handleNode env s m db r node
      let db' := db.writeAll o.writes
      match o.flow with
      | .next r' => writeNodes db' r' (actions ++ o.actions) nodes
      | .answered r' => ⟨db', some r', actions ++ o.actions⟩
      | .thrown => ⟨db', none, actions ++ o.actions⟩

def writeRequest (db : Database) (nodes : List (Moment × Value)) : Served :=
  writeNodes env s db
    { serviceId := ServiceCode.writeResponse, serviceResult := .good, results := some []
      commandHandles := some [] }
    [] nodes

end Service

end JsonScada.WebServer
