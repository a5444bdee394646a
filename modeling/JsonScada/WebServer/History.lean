import JsonScada.WebServer.Read

-- The history of events and of values, and the groups that there are.
namespace JsonScada.WebServer

open JsonScada.Library
open JsonScada.Processor (Document Value rawOrNil setField)

def maxHistoryRowsPerNode : ℕ := 10000

variable (env : Reader) (s : Session) (m : Moment)

section Groups

mutual

-- The same value, as `$group` takes it.
def sameValue : Value → Value → Bool
  | .null, .null => true
  | .bool a, .bool b => a = b
  | .number x, .number y => x = y
  | .string s, .string t => s = t
  | .dateTime a, .dateTime b => a = b
  | .other a, .other b => a = b
  | .array a, .array b => sameItems a b
  | .document a, .document b => sameFields a b
  | _, _ => false

def sameItems : List Value → List Value → Bool
  | [], [] => true
  | v :: a, w :: b => sameValue v w && sameItems a b
  | _, _ => false

def sameFields : List (String × Value) → List (String × Value) → Bool
  | [], [] => true
  | (k, v) :: a, (l, w) :: b => k = l && sameValue v w && sameFields a b
  | _, _ => false

end

-- The documents by a field, each group in the order of the collection.
def groupBy (key : String) (docs : List Document) : List (Value × List Document) :=
  let keyOf (d : Document) : Value := rawOrNil (d.lookup key)
  (Views.distinct sameValue (docs.map keyOf)).map fun k =>
    (k, docs.filter fun d => sameValue k (keyOf d))

end Groups

section Plan

inductive HistoryPlan where
  | answered (r : Response)
  | events (filter : Option Filter) (aggregated : Bool) (sort : List (String × Bool))
      (limit : Value)
  | values (tags : List String) (start stop : ℤ) (limit : Value) (server source : Bool)

def historyStart : Response :=
  { serviceId := ServiceCode.historyReadResponse, serviceResult := .good }

def tagOfNode (node : Value) : Option (List String) :=
  match isIn "AttributeId" (some node) with
  | none => none
  | some false => some []
  | some true =>
      if !looseEq env.js (optionalMember (some node) "AttributeId") AttributeId.value then some []
      else
        match isIn "NodeId" (some node) with
        | some true =>
            let nodeId := optionalMember (some node) "NodeId"
            match isIn "IdType" nodeId with
            | none => none
            | some false => some []
            | some true =>
                match optionalMember nodeId "Id" with
                | some (.string t) =>
                    some (if isNumber (optionalMember nodeId "IdType") opcIdTypeString then [t]
                      else [])
                | _ => some []
        | _ => some []

-- The tags of the nodes, none where a node throws.
def tagsOfNodes (nodes : List Value) : Option (List String) :=
  (nodes.mapM (tagOfNode env)).map List.flatten

-- The period and the number of values that are asked for.
structure Period where
  start : Option Value
  stop : Option Value
  limit : Value := .number (.fin 10000)
  modified : Bool := false

def isoTime (ms : ℤ) : Option Value := some (.string (Processor.Node.toISOString ms))

-- The last hour, where the request has no other, none where it throws.
def periodOf (details : Option Value) : Option Period :=
  let default : Period := { start := isoTime (env.hourBefore m.now), stop := isoTime m.now }
  if isIn "ParameterData" details ≠ some true then some default
  else
    let data := optionalMember details "ParameterData"
    (isIn "StartTime" data).map fun _ =>
      let given (key : String) (v : Option Value) : Option Value :=
        if isIn key data = some true then optionalMember data key else v
      { start := given "StartTime" default.start
        stop := given "EndTime" default.stop
        limit := (given "NumValuesPerNode" (some default.limit)).getD .null
        modified := strictEq (optionalMember data "IsReadModified") (some (.bool true)) }

-- Which timestamps are told, of the server and of the source.
def timestampsToReturn (body : Document) : Bool × Bool :=
  let asked := body.lookup "TimestampsToReturn"
  if isNumber asked 0 then (false, true)
  else if isNumber asked 1 then (true, false)
  else if isNumber asked 3 then (false, false)
  else (true, true)

structure EventFilter where
  groups : List String := []
  -- none where the database refuses the condition
  priority : Option Filter := some fun _ => true

def addEventFilter (f : EventFilter) (node : Value) : Option EventFilter :=
  (member (some node) "FilterOperator").bind fun operator =>
    let operands := optionalMember (some node) "FilterOperands"
    if isNumber operator FilterOperator.lessThanOrEqual then
      (element operands 0).map fun operand =>
        { f with priority := (env.atMost operand).map fun p d => p (d.lookup "priority") }
    else if isNumber operator FilterOperator.inList then
      match operands with
      | some (.array operands) =>
          (operands.mapM fun v =>
            (member (some v) "FilterOperand").map fun operand =>
              match optionalMember (some v) "Value" with
              | some (.string g) => if isNumber operand Operand.literal then [g] else []
              | _ => []).map fun names => { f with groups := f.groups ++ names.flatten }
      | _ => none
    else some f

-- The filters of a request for events; a field that is no list has no length.
def eventFilters (body : Document) : Option (List Value) :=
  match body.lookup "ContentFilter" with
  | none => some []
  | some .null => none
  | some (.array filters) => some filters
  | some (.string t) => if t = "" then some [] else none
  | some _ => some []

-- The condition on events, none where the database refuses it.
def eventsFilter (f : EventFilter) (p : Period) (byServer aggregated : Bool) (tags : List String) :
    Option Filter :=
  let time := if byServer then "timeTag" else "timeTagAtSource"
  let isNull (v : Option Value) : Bool := strictEq v (some .null)
  -- an invalid date is sent as 0
  let bound (v : Option Value) : ℤ := (env.date v).getD 0
  let since : Filter :=
    if isNull p.start then fun _ => true
    else Filter.field time (Filter.notBefore (bound p.start))
  let until' : Filter :=
    if isNull p.stop then fun _ => true
    else Filter.field time (Filter.notAfter (bound p.stop))
  let group : Filter :=
    if f.groups = [] then fun _ => true
    else Filter.any [Filter.field "group1" (Filter.oneOf f.groups),
      Filter.field "tag" (Filter.oneOf tags)]
  let ack : ℚ := if aggregated || isNull p.stop then 1 else 2
  f.priority.map fun priority =>
    Filter.all [since, until', group, priority, Filter.field "ack" (Filter.atMost (.fin ack))]

def eventsSort (p : Period) (byServer : Bool) : List (String × Bool) :=
  let isNull (v : Option Value) : Bool := strictEq v (some .null)
  let ascending := !isNull p.start && !isNull p.stop
  let times := if byServer then ["timeTag", "timeTagAtSource"] else ["timeTagAtSource", "timeTag"]
  (times ++ ["tag"]).map fun key => (key, ascending)

def isCount (body : Document) : Option Bool :=
  match body.lookup "AggregateFilter" with
  | none | some .null => some false
  | some v =>
      (isIn "AggregateType" (some v)).map fun present =>
        present && strictEq (optionalMember (some v) "AggregateType") (some (.string "Count"))

-- Events are asked for in the name space of the database.
def eventsPlan (body : Document) (p : Period) (tags : List String) : Option HistoryPlan :=
  (eventFilters body).bind fun filters =>
  (filters.foldlM (addEventFilter env) {}).bind fun f =>
  (isCount body).map fun aggregated =>
    let byServer := (timestampsToReturn body).1
    .events (eventsFilter env f p byServer aggregated tags) aggregated (eventsSort p byServer)
      p.limit

def valuesPlan (body : Document) (p : Period) (tags : List String) : HistoryPlan :=
  let invalid := HistoryPlan.answered
    (historyStart.tell .badHistoryOperationInvalid "Invalid StartTime/EndTime")
  match p.start, p.stop with
  | some (.string _), some (.string _) =>
      match env.date p.start, env.date p.stop with
      | some start, some stop =>
          .values tags start stop p.limit (timestampsToReturn body).1 (timestampsToReturn body).2
      | _, _ => invalid
  | _, _ => invalid

def periodPlan (body : Document) (p : Period) (tags : List String) : Option HistoryPlan :=
  if p.modified then
    some (.answered (historyStart.tell .badHistoryOperationUnsupported
      "Invalid ReadRawModifiedDetails/isReadModified option (must be false)"))
  else if isNumber (body.lookup "Namespace") namespaceMongodb then eventsPlan env body p tags
  else some (valuesPlan env body p tags)

def nodesPlan (body : Document) (details : Option Value) : Option HistoryPlan :=
  if !body.has "NodesToRead" && !body.has "ContentFilter" then
    some (.answered (historyStart.tell .goodNoData "No NodesToRead"))
  else
    (arrayField body "NodesToRead").bind fun nodes =>
    (tagsOfNodes env (nodes.getD [])).bind fun tags =>
      if nodes.isSome && tags = [] then
        some (.answered (historyStart.tell .goodNoData
          "No valid NodeId.Ids/Attribute request found"))
      else (periodOf env m details).bind fun p => periodPlan env body p tags

-- What a request comes to before the database is asked, none where it throws.
def historyPlan (body : Document) : Option HistoryPlan :=
  let invalid := HistoryPlan.answered
    (historyStart.tell .badHistoryOperationInvalid "Invalid HistoryReadDetails option")
  match body.lookup "HistoryReadDetails" with
  | none => some invalid
  | details =>
      (isIn "ParameterTypeId" details).bind fun _ =>
        if isNumber (optionalMember details "ParameterTypeId") ServiceCode.readRawModifiedDetails then
          nodesPlan env m body details
        else some invalid

end Plan

section Events

-- The events of a tag as one, as the last of them, with their number.
def aggregate (docs : List Document) : List Document :=
  (groupBy "tag" docs).map fun g =>
    let last := g.2.getLast?.getD []
    let field (name key : String) : String × Value := (name, rawOrNil (last.lookup key))
    [("_id", g.1), field "tag" "tag", field "pointKey" "pointKey", field "group1" "group1",
      field "description" "description", field "eventText" "eventText",
      field "invalid" "invalid", field "priority" "priority", field "timeTag" "timeTag",
      field "timeTagAtSource" "timeTagAtSource", field "timeTagAtSourceOk" "timeTagAtSourceOk",
      field "ack" "ack", ("count", .number (.fin g.2.length)), field "event_id" "_id"]

def eventResult (node : Document) : Value :=
  let count : Value :=
    match node.lookup "count" with
    | some (.number n) => .number n
    | _ => .number (.fin 1)
  object
    [("StatusCode", some StatusCode.good.value),
      ("HistoryData", some (.array [object
        [("Value", some (object
          [("Type", some (.number (.fin DataType.string))), ("Body", node.lookup "eventText"),
            ("Quality", some (quality node)), ("Count", some count)])),
          ("ServerTimestamp", node.lookup "timeTag"),
          ("SourceTimestamp", node.lookup "timeTagAtSource"),
          ("SourceTimestampOk", node.lookup "timeTagAtSourceOk"),
          ("Acknowledge", node.lookup "ack")]])),
      ("NodeId", some (object
        [("IdType", some (.number (.fin opcIdTypeString))), ("Id", node.lookup "tag"),
          ("Namespace", some (.number (.fin namespaceMongodb)))])),
      ("_Properties", some (object (fieldsOf node ["group1", "description", "priority", "pointKey"] ++
        [("event_id", node.lookup
          (if strictEq (node.lookup "_id") (node.lookup "tag") then "event_id" else "_id"))])))]

-- The events that are found, none of them where the database fails.
def findEvents (db : Database) (filter : Option Filter) (aggregated : Bool)
    (sort : List (String × Bool)) (limit : Value) : List Document :=
  match filter, env.limit limit with
  | some f, some n =>
      let found := db.soeData.filter f
      let docs := sorted env sort (if aggregated then aggregate found else found)
      n.elim docs fun n => docs.take n
  | _, _ => []

def readEvents (db : Database) (filter : Option Filter) (aggregated : Bool)
    (sort : List (String × Bool)) (limit : Value) : Response :=
  let results := findEvents env db filter aggregated sort limit
  if results = [] then
    historyStart.tell .goodNoData "No NodeId.Id requested found on soeData"
  else
    { historyStart.tell .good (queryTime m) with
      results := some ((results.filter fun d => !accessDenied s d).map eventResult) }

end Events

section Values

-- The tags that the user may see.
def allowedTags (db : Database) (tags : List String) : List String :=
  if 0 < s.rights.group1List.length then
    let accessible := db.realtimeData.filter (Filter.all
      [Filter.field "tag" (Filter.oneOf tags), s.rights.groupFilter])
    tags.filter fun t => accessible.any fun d => strictEq (some (.string t)) (d.lookup "tag")
  else tags

def halfDay : ℤ := 43200000

-- The last row of each tag that is not older than half a day.
def lastRows (rows : List HistRow) (tags : List String) (stop : ℤ) : List HistRow :=
  let recent := rows.filter fun r =>
    r.tag ∈ tags && r.timeTag ≤ stop && stop - halfDay < r.timeTag
  (recent.map HistRow.tag).dedup.filterMap fun t =>
    (recent.filter fun r => r.tag = t).foldl
      (fun last r => match last with
        | none => some r
        | some l => some (if l.timeTag < r.timeTag then r else l)) none

-- The rows of a period by tag and time, up to a number of them.
def rowsBetween (rows : List HistRow) (tags : List String) (start stop : ℤ) (limit : ℕ) :
    List HistRow :=
  let found := rows.filter fun r => r.tag ∈ tags && start ≤ r.timeTag && r.timeTag ≤ stop
  (found.insertionSort fun r r' =>
    if r.tag = r'.tag then r.timeTag ≤ r'.timeTag else env.collate r.tag r'.tag = true).take limit

def rowLimit (limit : Value) (tags : List String) : ℕ :=
  let perNode :=
    match parseIntFrom env.js false (some limit) with
    | .fin q => if 1 ≤ q then min q.floor.toNat maxHistoryRowsPerNode else maxHistoryRowsPerNode
    | _ => maxHistoryRowsPerNode
  perNode * tags.length

def charAt (s : String) (i : ℕ) : Option Char := s.toList[i]?

def rowData (server source : Bool) (r : HistRow) : Value :=
  let binary := charAt r.flags 2 = some '0'
  let body : Value :=
    if binary then .bool !strictEq (some r.value) (some (.number (.fin 0))) else r.value
  object
    [("Value", some (object
      [("Type", some (.number (.fin (if binary then DataType.boolean else DataType.double)))),
        ("Body", some body),
        ("Quality", some (if charAt r.flags 0 = some '0' then StatusCode.good else .bad).value)])),
      ("SourceTimestamp",
        if source then some ((r.timeTagAtSource.map Value.dateTime).getD .null) else none),
      ("ServerTimestamp", if server then some (.dateTime r.timeTag) else none)]

-- One node among the rows that were found.
def historyNode (server source : Bool) (rows : List HistRow) (node : Value) : List Value :=
  if isIn "AttributeId" (some node) ≠ some true then []
  else
    let nodeId := optionalMember (some node) "NodeId"
    let asked := looseEq env.js (optionalMember (some node) "AttributeId") AttributeId.value &&
      isNumber (optionalMember nodeId "IdType") opcIdTypeString && isIn "Id" nodeId = some true
    let data := if asked then
        (rows.filter fun r => strictEq (some (.string r.tag)) (optionalMember nodeId "Id")).map
          (rowData server source)
      else []
    [object
      [("StatusCode",
        some (if data = [] then StatusCode.badNotFound else StatusCode.good).value),
        ("HistoryData", some (.array data)), ("ContinuationPoint", some .null),
        ("NodeId", some (if asked then rawOrNil nodeId else .null))]]

def readValues (db : Database) (nodes : List Value) (tags : List String) (start stop : ℤ)
    (limit : Value) (server source : Bool) : Response :=
  let allowed := allowedTags s db tags
  if allowed = [] then historyStart.tell .goodNoData "No accessible NodeId.Ids requested"
  else
    match db.hist with
    | none =>
        Response.tell { serviceId := ServiceCode.serviceFault, serviceResult := .good }
          .badServerNotConnected "Database not connected!"
    | some rows =>
        let rows :=
          if start = stop then lastRows rows allowed start
          else rowsBetween env rows allowed start stop (rowLimit env limit allowed)
        { historyStart.tell .good (queryTime m) with
          results := some (nodes.flatMap (historyNode env server source rows)) }

-- The answer to a request for history, none where the handler throws.
def historyReadRequest (db : Database) (body : Document) : Option Response :=
  (historyPlan env m body).map fun plan =>
    match plan with
    | .answered r => r
    | .events filter aggregated sort limit => readEvents env s m db filter aggregated sort limit
    | .values tags start stop limit server source =>
        readValues env s m db (((arrayField body "NodesToRead").join).getD []) tags start stop limit
          server source

end Values

section Unique

-- The names of the groups, each with the number of its points.
def groupCounts (db : Database) : List Document :=
  (groupBy "group1" db.realtimeData).map fun g =>
    [("_id", g.1), ("group1", g.1), ("count", .number (.fin g.2.length))]

def uniqueAttributeValues (db : Database) (body : Document) : Response :=
  let start : Response :=
    { serviceId := ServiceCode.responseUniqueAttributeValues, serviceResult := .good }
  if !isNumber (body.lookup "AttributeId") AttributeId.extendedGroup1 then
    start.tell .badAttributeIdInvalid "Requested attribute not supported!"
  else
    let results := sorted env [("group1", true)] (groupCounts db)
    { start.tell .good (queryTime m) with
      results := some ((results.filter fun d => !accessDenied s d).map fun d =>
        object [("Value", some (object
          [("Type", some (.number (.fin DataType.string))), ("Body", d.lookup "group1"),
            ("Count", d.lookup "count")]))]) }

end Unique

section Service

inductive Service where
  | read
  | historyRead
  | uniqueAttributeValues

-- The answer of a service to the body of a request.
def answer (service : Service) (db : Database) (body : Document) : Option Response :=
  match service with
  | .read => readRequest env s m db body
  | .historyRead => historyReadRequest env s m db body
  | .uniqueAttributeValues => some (WebServer.uniqueAttributeValues env s m db body)

end Service

end JsonScada.WebServer
