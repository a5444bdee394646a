import JsonScada.Library.Table
import JsonScada.WebServer.Js

-- The codes of the web protocol.
namespace JsonScada.WebServer

open JsonScada.Library
open JsonScada.Processor (Document Value)

structure StatusCode where
  code : ℕ
  name : String
  text : String

namespace StatusCode

def good : StatusCode := ⟨0, "Good", "The operation completed successfully."⟩

def bad : StatusCode := ⟨0x80000000, "Bad", "The operation failed."⟩

def badUnexpectedError : StatusCode :=
  ⟨0x80010000, "BadUnexpectedError", "An unexpected error occurred."⟩

def badServiceUnsupported : StatusCode :=
  ⟨0x800b0000, "BadServiceUnsupported", "The server does not support the requested service."⟩

def badServerNotConnected : StatusCode :=
  ⟨0x800d0000, "BadServerNotConnected",
    "The operation could not complete because the client is not connected to the server."⟩

def badUserAccessDenied : StatusCode :=
  ⟨0x801f0000, "BadUserAccessDenied",
    "User does not have permission to perform the requested operation."⟩

def badIdentityTokenRejected : StatusCode :=
  ⟨0x80210000, "BadIdentityTokenRejected",
    "The user identity token is valid but the server has rejected it."⟩

def badRequestHeaderInvalid : StatusCode :=
  ⟨0x802a0000, "BadRequestHeaderInvalid", "The header for the request is missing or invalid."⟩

def badNodeIdInvalid : StatusCode :=
  ⟨0x80330000, "BadNodeIdInvalid", "The syntax of the node id is not valid."⟩

def badNodeIdUnknown : StatusCode :=
  ⟨0x80340000, "BadNodeIdUnknown",
    "The node id refers to a node that does not exist in the server address space."⟩

def badAttributeIdInvalid : StatusCode :=
  ⟨0x80350000, "BadAttributeIdInvalid", "The attribute is not supported for the specified Node."⟩

def badNotFound : StatusCode :=
  ⟨0x803e0000, "BadNotFound",
    "A requested item was not found or a search operation ended without success."⟩

def badNodeAttributesInvalid : StatusCode :=
  ⟨0x80620000, "BadNodeAttributesInvalid",
    "The node attributes are not valid for the node class."⟩

def badHistoryOperationInvalid : StatusCode :=
  ⟨0x80710000, "BadHistoryOperationInvalid", "The history details parameter is not valid."⟩

def badHistoryOperationUnsupported : StatusCode :=
  ⟨0x80720000, "BadHistoryOperationUnsupported",
    "The server does not support the requested operation."⟩

def goodNoData : StatusCode :=
  ⟨0x00a50000, "GoodNoData", "No data exists for the requested time range or event filter."⟩

def badInvalidState : StatusCode :=
  ⟨0x80af0000, "BadInvalidState",
    "The operation cannot be completed because the object is closed, uninitialized or in some " ++
      "other invalid state."⟩

def badWaitingForResponse : StatusCode :=
  ⟨0x80b20000, "BadWaitingForResponse",
    "The asynchronous operation is waiting for a response."⟩

def badRequestNotAllowed : StatusCode :=
  ⟨0x80e40000, "BadRequestNotAllowed",
    "The request was rejected by the server because it did not meet the criteria set by the " ++
      "server."⟩

-- As it stands in a result.
def value (s : StatusCode) : Value := .number (.fin s.code)

end StatusCode

namespace ServiceCode

def serviceFault : ℕ := 395
def readRequest : ℕ := 629
def readResponse : ℕ := 632
def readRawModifiedDetails : ℕ := 647
def historyReadRequest : ℕ := 662
def historyReadResponse : ℕ := 665
def writeRequest : ℕ := 671
def writeResponse : ℕ := 674
def dataChangeNotification : ℕ := 809
def requestUniqueAttributeValues : ℕ := 100000001
def responseUniqueAttributeValues : ℕ := 100000002

end ServiceCode

namespace AttributeId

def description : ℕ := 5
def eventNotifier : ℕ := 12
def value : ℕ := 13
def extendedGroup1 : ℕ := 100000001
def extendedAlarmEventsAck : ℕ := 100000004

end AttributeId

namespace Acknowledge

def ackOneEvent : ℕ := 0x1
def removeOneEvent : ℕ := 0x2
def ackPointEvents : ℕ := 0x4
def removePointEvents : ℕ := 0x8
def ackAllEvents : ℕ := 0x40
def removeAllEvents : ℕ := 0x80
def ackOneAlarm : ℕ := 0x100
def ackAllAlarms : ℕ := 0x400
def silenceBeep : ℕ := 0x1000

end Acknowledge

namespace Operand

def literal : ℕ := 595
def ofAttribute : ℕ := 598

end Operand

namespace FilterOperator

def equals : ℕ := 0
def lessThanOrEqual : ℕ := 5
def inList : ℕ := 9

end FilterOperator

namespace DataType

def boolean : ℕ := 1
def double : ℕ := 11
def string : ℕ := 12

end DataType

def namespaceMongodb : ℕ := 2

def opcIdTypeNumber : ℕ := 0
def opcIdTypeString : ℕ := 1

-- What is answered to a request.
structure Response where
  serviceId : ℕ
  serviceResult : StatusCode
  stringTable : List String := []
  results : Option (List Value) := none
  commandHandles : Option (List Value) := none
  monitoredItems : Option (List Value) := none

-- A status with its name, its text and a message.
def Response.tell (r : Response) (code : StatusCode) (message : String) : Response :=
  { r with serviceResult := code, stringTable := [code.name, code.text, message] }

open JsonScada.Processor (Document Value applySet setField)

-- The database as the web server asks for it, and the rights of those who ask.
section Filters

abbrev Filter := Document → Bool

namespace Filter

-- A condition on a field is met by its value, or by an item of its array.
def field (key : String) (p : Value → Bool) : Filter := fun d =>
  match d.lookup key with
  | some (.array items) => p (.array items) || items.any p
  | some v => p v
  | none => false

def string (s : String) : Value → Bool
  | .string t => t = s
  | _ => false

def number (x : Double) : Value → Bool
  | .number y => y = x
  | _ => false

def isTrue : Value → Bool
  | .bool b => b
  | _ => false

def emptyList : Value → Bool
  | .array [] => true
  | _ => false

-- `$lte` of a number
def atMost (x : Double) : Value → Bool
  | .number y => Double.le y x
  | _ => false

-- `$lte` and `$gte` of a date
def notAfter (ms : ℤ) : Value → Bool
  | .dateTime t => t ≤ ms
  | _ => false

def notBefore (ms : ℤ) : Value → Bool
  | .dateTime t => ms ≤ t
  | _ => false

-- `$in` of names
def oneOf (names : List String) : Value → Bool
  | .string s => s ∈ names
  | _ => false

def all (fs : List Filter) : Filter := fun d => fs.all (· d)

def any (fs : List Filter) : Filter := fun d => fs.any (· d)

end Filter

end Filters

section Rights

-- The rights in an access token.
structure UserRights where
  group1List : List String
  ackEvents : Bool := false
  ackAlarms : Bool := false
  disableAlarms : Bool := false
  enterAnnotations : Bool := false
  enterLimits : Bool := false
  enterNotes : Bool := false
  substituteValues : Bool := false

-- A role in the database.
structure Role where
  sendCommands : Bool
  group1CommandList : List String

structure Session where
  username : String
  rights : UserRights
  -- the roles that the database has for the user, none when it has no such user
  roles : Option (List Role)
  address : String

-- The condition that a list of groups adds to a query.
def UserRights.groupFilter (r : UserRights) : Filter :=
  if r.group1List.length = 0 then Filter.all [] else
    Filter.field "group1" (Filter.oneOf r.group1List)

def canSendCommands (s : Session) : Bool := (s.roles.getD []).any (·.sendCommands)

def includesGroup (names : List String) : Option Value → Bool
  | some (.string g) => g ∈ names
  | _ => false

-- A role with a list denies the groups that no role has in its list.
def commandsTo (group1 : Option Value) (canCmd : Bool) : List Role → Bool
  | [] => canCmd
  | r :: roles =>
      includesGroup r.group1CommandList group1 ||
        commandsTo group1 (canCmd && r.group1CommandList.isEmpty) roles

def canSendCommandTo (s : Session) (group1 : Option Value) : Bool :=
  match s.roles with
  | none | some [] => false
  | some roles => commandsTo group1 true roles

end Rights

section Writes

-- A row of the historian.
structure HistRow where
  tag : String
  value : Value
  flags : String
  timeTag : ℤ
  timeTagAtSource : Option ℤ

structure Database where
  realtimeData : List Document
  soeData : List Document
  commandsQueue : List Document := []
  -- none where the server has no connection to the historian
  hist : Option (List HistRow) := none

inductive Write where
  | updateRealtime (filter : Filter) (update : Document → Document)
  | updateRealtimeMany (filter : Filter) (update : Document → Document)
  | updateSoeMany (filter : Filter) (update : Document → Document)
  | insertSoe (doc : Document)
  | insertCommand (doc : Document)

def Database.write (db : Database) : Write → Database
  | .updateRealtime filter update =>
      { db with realtimeData := Table.updateFirst filter update db.realtimeData }
  | .updateRealtimeMany filter update =>
      { db with realtimeData := db.realtimeData.map fun d => if filter d then update d else d }
  | .updateSoeMany filter update =>
      { db with soeData := db.soeData.map fun d => if filter d then update d else d }
  | .insertSoe doc => { db with soeData := db.soeData ++ [doc] }
  | .insertCommand doc => { db with commandsQueue := db.commandsQueue ++ [doc] }

def Database.writeAll (db : Database) (writes : List Write) : Database :=
  writes.foldl Database.write db

-- `$set`
def set (fields : Document) (d : Document) : Document := applySet d fields

-- `$pullAll`, of names
def pullAll (key : String) (names : List String) (d : Document) : Document :=
  match d.lookup key with
  | some (.array items) =>
      setField d key (.array (items.filter fun v => !Filter.oneOf names v))
  | _ => d

end Writes

end JsonScada.WebServer
