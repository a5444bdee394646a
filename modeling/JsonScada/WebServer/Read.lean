import JsonScada.Library.Views
import JsonScada.WebServer.Write

-- The read service: points by node or by filter, and the results of commands.
namespace JsonScada.WebServer

open JsonScada.Library
open JsonScada.Processor (Document Value rawOrNil setField truthyValue)

-- What the handlers that read take from the database and from the platform.
structure Reader extends Driver where
  -- the meaning of a query, none when the database refuses it
  queried : Document → Option Filter
  -- `{ $in: values }` and `{ $lte: v }` of a field
  oneOf : List Value → Option (Option Value → Bool)
  atMost : Option Value → Option (Option Value → Bool)
  -- the order of documents by some fields, each ascending or not
  order : List (String × Bool) → Document → Document → Bool
  -- the order of tags in the historian
  collate : String → String → Bool
  -- `limit(v)`, none when it throws
  limit : Value → Option (Option ℕ)
  -- `new Date(v).getTime()`, none for NaN
  date : Option Value → Option ℤ
  -- an hour earlier by the clock of the place
  hourBefore : ℤ → ℤ

variable (env : Reader) (s : Session) (m : Moment)

-- `sort(fields)`, of which none keeps the order of the collection.
def sorted (fields : List (String × Bool)) (docs : List Document) : List Document :=
  if fields = [] then docs else docs.insertionSort fun d d' => env.order fields d d' = true

-- A field of a request that has to be an array, where it has the field.
def arrayField (body : Document) (key : String) : Option (Option (List Value)) :=
  match body.lookup key with
  | none => some none
  | some (.array items) => some (some items)
  | some _ => none

def queryTime : String := "Query time: " ++ m.elapsed ++ " ms"

-- The user is one of some groups, and the document is of none of them.
def accessDenied (d : Document) : Bool :=
  0 < s.rights.group1List.length && !includesGroup s.rights.group1List (d.lookup "group1")

section Plan

-- What a request asks for: the ids, the handles of commands, and whether all is told.
structure Scan where
  points : List Value := []
  cmdHandles : List Value := []
  info : Bool := false
  ack : Bool := false

def scanNode (sc : Scan) (node : Value) : Option Scan :=
  match isIn "AttributeId" (some node), isIn "NodeId" (some node) with
  | some _, some false | some _, none => some (scanAttribute sc node)
  | some _, some true =>
      let nodeId := optionalMember (some node) "NodeId"
      match isIn "Id" nodeId with
      | none => none
      | some false => some (scanAttribute sc node)
      | some true =>
          let sc := scanAttribute sc node
          some { sc with points := sc.points ++ (optionalMember nodeId "Id").toList }
  | none, _ => none
where
  scanAttribute (sc : Scan) (node : Value) : Scan :=
    let attributeId := optionalMember (some node) "AttributeId"
    let sc :=
      if looseEq env.js attributeId AttributeId.eventNotifier &&
          isIn "ClientHandle" (some node) = some true then
        { sc with
          ack := true
          cmdHandles := sc.cmdHandles ++ (optionalMember (some node) "ClientHandle").toList }
      else sc
    { sc with info := sc.info || looseEq env.js attributeId AttributeId.description }

def scanNodes (nodes : List Value) : Option Scan := nodes.foldlM (scanNode env) {}

structure ContentQuery where
  query : Document := []
  grp1 : Document := []
  grp2 : Document := []
  sort : List (String × Bool) := [("group1", true), ("group2", true)]

-- Points with an alarm, and those that are not in their normal state.
def ContentQuery.persistentAlarms (q : ContentQuery) : ContentQuery :=
  let alarms (type : String) (conditions : Document) : Value :=
    let all : Document :=
      [("type", .string type), ("alarmDisabled", .bool false)] ++ conditions ++
        [("invalid", .bool false)]
    .document [("$and", .array
      (all.map (fun f => .document [f]) ++ [.document q.grp1, .document q.grp2]))]
  let number (n : ℚ) : Value := .number (.fin n)
  { q with
    sort := [("alarmed", false), ("timeTagAlarm", false)]
    query := [("$or", .array
      [alarms "analog" [("alarmed", .bool true)],
        alarms "analog"
          [("alarmRange", .document [("$exists", .bool true), ("$ne", number 0)])],
        alarms "digital" [("alarmState", number 0), ("value", number 0)],
        alarms "digital" [("alarmState", number 1), ("value", number 1)],
        .document q.query])] }

-- A condition is added to the query.
def ContentQuery.equals (q : ContentQuery) (name value : Option Value) : ContentQuery :=
  let q :=
    if looseEqText name "group1" then { q with grp1 := [("group1", rawOrNil value)] } else q
  let q :=
    if looseEqText name "group2" then { q with grp2 := [("group2", rawOrNil value)] } else q
  if looseEqText name "persistentAlarms" then q.persistentAlarms
  else { q with query := setField q.query (text name) (rawOrNil value) }

def isNumber (v : Option Value) (n : ℕ) : Bool := strictEq v (some (.number (.fin n)))

def addFilter (q : ContentQuery) (contentFilter : Value) : Option ContentQuery :=
  match member (some contentFilter) "FilterOperator" with
  | none => none
  | some operator =>
      if !isNumber operator FilterOperator.equals then some q
      else
        let operands := optionalMember (some contentFilter) "FilterOperands"
        match (element operands 0).bind (member · "FilterOperand"),
            (element operands 1).bind (member · "FilterOperand") with
        | none, _ => none
        | some first, second =>
            if !isNumber first Operand.ofAttribute then some q
            else
              match second with
              | none => none
              | some second =>
                  if !isNumber second Operand.literal then some q
                  else
                    let value (i : ℕ) : Option Value :=
                      (element operands i).join.bind fun v => optionalMember (some v) "Value"
                    some (q.equals (value 0) (value 1))

-- What is asked of the points.
structure PointQuery where
  -- none where the database refuses the query
  filter : Option Filter
  sort : List (String × Bool)
  nodes : Option (List Value)
  info : Bool
  -- all fields are read
  whole : Bool

-- The points of the nodes, by key and by tag.
def nodesFilter (points : List Value) : Option Filter :=
  let tags := points.filter fun p => (parseInt env.js (some p)).isNaN
  let npts := points.filter fun p => !(parseInt env.js (some p)).isNaN
  let keys : Filter := Filter.any
    (npts.map fun p => Filter.field "_id" (Filter.number (parseInt env.js (some p))))
  let findTags : Option Filter := (env.oneOf tags).map fun p d => p (d.lookup "tag")
  if npts ≠ [] ∧ tags ≠ [] then findTags.map fun f => Filter.any [keys, f]
  else if npts ≠ [] then some keys
  else findTags

inductive ReadPlan where
  | answered (r : Response)
  | command (handle : String) (id : List UInt8)
  | points (q : PointQuery)

def readStart : Response :=
  { serviceId := ServiceCode.readResponse, serviceResult := .good }

-- What a request comes to before the database is asked, none where it throws.
def readPlan (body : Document) : Option ReadPlan :=
  if !body.has "NodesToRead" && !body.has "ContentFilter" then
    some (.answered (readStart.tell .goodNoData "No NodesToRead nor Content Filter"))
  else
    (arrayField body "NodesToRead").bind fun nodes =>
    (scanNodes env (nodes.getD [])).bind fun sc =>
      if sc.points = [] ∧ !body.has "ContentFilter" then
        some (.answered (readStart.tell .goodNoData "No NodeId.Id found"))
      else if sc.ack then
        let invalid := ReadPlan.answered
          (readStart.tell .badRequestNotAllowed "Missing or invalid ClientHandle.")
        match sc.cmdHandles.head? with
        | some (.string handle) =>
            if utf16Length handle < 24 then some invalid
            else (env.objectId (some (.string handle))).map (.command handle)
        | _ => some invalid
      else
        (arrayField body "ContentFilter").bind fun filters =>
          match filters with
          | none =>
              some (.points
                { filter := nodesFilter env sc.points, sort := [], nodes := nodes
                  info := sc.info, whole := sc.info })
          | some filters =>
              (filters.foldlM addFilter {}).map fun q =>
                .points
                  { filter := env.queried q.query, sort := q.sort, nodes := nodes
                    info := sc.info, whole := true }

end Plan

section Command

-- The result of a command, none where there is no such command.
def commandResult (handle : String) (data : Option Document) : Option Response :=
  data.map fun data =>
    let ended : Bool :=
      (data.boolStrict "ack").isSome ||
        (match data.lookup "cancelReason" with | some (.string _) => true | _ => false)
    let status :=
      if ended then (if data.boolStrict "ack" = some true then StatusCode.good else .bad)
      else .badWaitingForResponse
    let time (key : String) : Option Value :=
      if ended then
        some (if data.truthy key then rawOrNil (data.lookup key) else .dateTime m.now)
      else none
    let item := object
      [("ClientHandle", some (.string handle)),
        ("Value", some (object
          [("Value", data.lookup "value"), ("StatusCode", some status.value),
            ("SourceTimestamp", time "timeTag"), ("ServerTimestamp", time "ackTimeTag")])),
        ("NodeId", some (object
          [("IdType", some (.number (.fin opcIdTypeString))), ("Id", data.lookup "tag"),
            ("Namespace", some (.number (.fin namespaceMongodb)))]))]
    { serviceId := ServiceCode.dataChangeNotification
      serviceResult := .good
      stringTable := match data.lookup "cancelReason" with | some (.string r) => [r] | _ => []
      monitoredItems := some [item] }

end Command

section Points

def projection : List String :=
  ["_id", "tag", "value", "valueString", "invalid", "timeTag", "loLimit", "hiLimit", "hysteresis",
    "alarmed", "alarmRange", "alarmDisabled", "frozen", "type", "annotation", "origin", "group1",
    "beepType", "beepGroup1List"]

def project (q : PointQuery) (d : Document) : Document :=
  if q.whole then d else d.filter fun f => f.1 ∈ projection

def isType (d : Document) (type : String) : Bool :=
  Processor.Node.isText type (d.lookup "type")

-- The fields of a document under their own names.
def fieldsOf (d : Document) (keys : List String) : List (String × Option Value) :=
  keys.map fun key => (key, d.lookup key)

def analogFields (d : Document) : List (String × Option Value) :=
  if isType d "analog" then fieldsOf d ["alarmRange", "frozen"] else []

def quality (d : Document) : Value :=
  (if d.truthy "invalid" then StatusCode.bad else StatusCode.good).value

-- The value of a point, a number as `body` has it.
def pointValue (d : Document) (body : Option Value) : Value :=
  if isType d "string" || isType d "json" then
    object [("Type", some (.number (.fin DataType.string))), ("Body", d.lookup "valueString"),
      ("Quality", some (quality d))]
  else if isType d "digital" then
    object [("Type", some (.number (.fin DataType.boolean))),
      ("Body", some (.bool !strictEq (d.lookup "value") (some (.number (.fin 0))))),
      ("Quality", some (quality d))]
  else
    object [("Type", some (.number (.fin DataType.double))), ("Body", body),
      ("Quality", some (quality d))]

def shortProperties (d : Document) : Value :=
  object (fieldsOf d ["_id", "valueString", "alarmed"] ++ analogFields d ++
    fieldsOf d ["alarmDisabled", "transit", "annotation", "notes", "origin", "type"])

def descriptions : List String :=
  ["group1", "group2", "group3", "description", "ungroupedDescription", "hiLimit", "loLimit",
    "hysteresis", "stateTextTrue", "stateTextFalse", "unit", "annotation", "notes",
    "commandOfSupervised", "supervisedOfCommand", "origin"]

def fullProperties (d : Document) : Value :=
  object (fieldsOf d ["_id", "valueString", "valueDefault", "alarmed"] ++ analogFields d ++
    fieldsOf d (["alarmDisabled", "transit"] ++ descriptions ++
      ["beepType", "beepGroup1List", "type"]))

-- The points -1 and -2 are open to all.
def isPublic (d : Document) : Bool :=
  strictEq (d.lookup "_id") (some (.number (.fin (-1)))) ||
    strictEq (d.lookup "_id") (some (.number (.fin (-2))))

-- One node among the points that were found, none where it throws.
def readNode (info : Bool) (results : List Document) (node : Value) : Option Value :=
  let result (status : StatusCode) (nodeId value properties timestamp : Option Value) : Value :=
    object [("StatusCode", some status.value), ("NodeId", nodeId), ("Value", value),
      ("_Properties", properties), ("SourceTimestamp", timestamp)]
  (member (some node) "NodeId").bind fun nodeId =>
  (member nodeId "Id").map fun id =>
    match results.find? fun d =>
        strictEq id (d.lookup "tag") || strictEq id (d.lookup "_id") with
    | none => result .badNotFound nodeId (some .null) (some .null) none
    | some d =>
        if accessDenied s d && !isPublic d then
          result .badUserAccessDenied nodeId (some .null) (some .null) none
        else
          result .good
            (some (object
              [("IdType", some (.number (.fin opcIdTypeString))), ("Id", d.lookup "tag"),
                ("Namespace", some (.number (.fin namespaceMongodb)))]))
            (some (pointValue d (some (.number (parseFloat env.js (d.lookup "value"))))))
            (some (if info then fullProperties d else shortProperties d)) (d.lookup "timeTag")

-- A point that a filter has found.
def filteredResult (d : Document) : Value :=
  let orNull (key : String) : Option Value := some (rawOrNil (d.lookup key))
  object
    [("StatusCode", some StatusCode.good.value),
      ("NodeId", some (object
        [("IdType", some (.number (.fin opcIdTypeString))), ("Id", d.lookup "tag")])),
      ("Value", some (pointValue d (d.lookup "value"))),
      ("_Properties", some (object
        (fieldsOf d ["_id", "valueString", "valueDefault", "alarmed"] ++ analogFields d ++
          fieldsOf d (["alarmDisabled", "alarmState", "isEvent", "transit"] ++ descriptions ++
            ["timeTagAlarm", "priority"]) ++
          [("timeTagAtSourceOk",
            if d.has "timeTagAtSourceOk" then d.lookup "TimeTagAtSourceOk" else some .null)] ++
          fieldsOf d ["type"]))),
      ("ServerTimestamp", d.lookup "timeTag"), ("SourceTimestamp", orNull "timeTagAtSource")]

def readPoints (db : Database) (q : PointQuery) : Response :=
  let failed := readStart.tell .badInvalidState "Error reading realtimeDatabase"
  let told (results : List Value) : Response :=
    { readStart.tell .good (queryTime m) with results := some results }
  match q.filter with
  | none => failed
  | some f =>
      let results := sorted env q.sort (db.realtimeData.filter f)
      if results = [] then
        readStart.tell .goodNoData "No NodeId.Id requested found on realtimeDatabase"
      else
        match q.nodes with
        | some nodes =>
            match nodes.mapM (readNode env s q.info (results.map (project q))) with
            | some values => told values
            | none => failed
        | none => told ((results.filter fun d => !accessDenied s d).map filteredResult)

end Points

def keyOf (id : List UInt8) : Filter :=
  Filter.field "_id" fun | .other bytes => bytes = id | _ => false

-- The answer to a read request, none where the handler throws.
def readRequest (db : Database) (body : Document) : Option Response :=
  (readPlan env body).bind fun plan =>
    match plan with
    | .answered r => some r
    | .command handle id => commandResult m handle (db.commandsQueue.find? (keyOf id))
    | .points q => some (readPoints env s m db q)

end JsonScada.WebServer
