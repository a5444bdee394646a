import JsonScada.Library.Outcome
import JsonScada.Mqtt.AutoTag

-- What the driver queues of the JSON in a message that is not one of Sparkplug.
namespace JsonScada.Mqtt

open JsonScada.Library
open JsonScada.Processor (Value truthyValue contains)
open JsonScada.Processor.Node (Runtime)
open JsonScada.WebServer (parseFloat strictEq text valueText optionalMember bitAnd hexDigit)

section Json

def typeOf : Option Value → String
  | none => "undefined"
  | some (.bool _) => "boolean"
  | some (.number _) => "number"
  | some (.string _) => "string"
  | some _ => "object"

def escapeChar (c : Char) : List Char :=
  if c = '"' || c = '\\' then ['\\', c]
  else if c = '\x08' then ['\\', 'b']
  else if c = '\t' then ['\\', 't']
  else if c = '\n' then ['\\', 'n']
  else if c = '\x0c' then ['\\', 'f']
  else if c = '\r' then ['\\', 'r']
  else if c.toNat < 0x20 then
    ['\\', 'u', '0', '0', hexDigit (c.toNat / 16), hexDigit (c.toNat % 16)]
  else [c]

def quoted (s : String) : String :=
  String.ofList ('"' :: s.toList.flatMap escapeChar ++ ['"'])

mutual

-- `JSON.stringify`, of what JSON has
def stringify : Value → String
  | .bool b => if b then "true" else "false"
  | .number (.fin q) => Decimal.ecmaString (.fin q)
  | .string s => quoted s
  | .document fields => "\x7b" ++ stringifyFields fields ++ "\x7d"
  | .array items => "[" ++ stringifyItems items ++ "]"
  | _ => "null"

def stringifyItems : List Value → String
  | [] => ""
  | [v] => stringify v
  | v :: items => stringify v ++ "," ++ stringifyItems items

def stringifyFields : List (String × Value) → String
  | [] => ""
  | [(key, v)] => quoted key ++ ":" ++ stringify v
  | (key, v) :: fields => quoted key ++ ":" ++ stringify v ++ "," ++ stringifyFields fields

end

-- `Object.entries(v)`
def entries : Option Value → List (String × Value)
  | some (.document fields) => fields
  | some (.array items) => items.mapIdx fun i v => (toString i, v)
  | _ => []

end Json

-- The fields that are not undefined.
def Data.make (address : String) (fields : List (String × Option Value)) : Data where
  protocolSourceObjectAddress := address
  fields := fields.filterMap fun f => f.2.map (f.1, ·)

section Queueing

variable (rt : Runtime) (now : ℤ)

def enqueueJsonValue (jsonValue : Option Value) (protocolSourceObjectAddress : String) : Data :=
  let (type, value, valueString) : String × Double × Option String :=
    match jsonValue with
    | some (.bool b) => ("digital", .fin (if b then 1 else 0), some (text jsonValue))
    | some (.number x) => ("analog", x, some (text jsonValue))
    | some (.string s) => ("string", parseFloat rt jsonValue, some s)
    | some .null => ("json", .fin 0, some "")
    | v => ("json", .fin 0, v.map stringify)
  let jsonValue := if jsonValue matches some .null then some (.document []) else jsonValue
  let value := if value.isNaN then .fin 0 else value
  .make protocolSourceObjectAddress
    [("value", some (.number value)), ("valueString", valueString.map .string),
      ("valueJson", (jsonValue.map stringify).map .string), ("invalid", some (.bool false)),
      ("transient", some (.bool false)), ("causeOfTransmissionAtSource", some (.string "3")),
      ("timeTagAtSource", some (.dateTime now)), ("timeTagAtSourceOk", some (.bool false)),
      ("asduAtSource", some (.string (typeOf jsonValue))), ("type", some (.string type))]

end Queueing

section OpcUa

-- `new Date(v)` is a parameter.
variable (rt : Runtime) (now : ℤ) (newDate : Value → Value)

def isUaData (v : Value) : Bool :=
  strictEq (optionalMember (some v) "MessageType") (some (.string "ua-data"))

-- `v || 'unknown'`, in a template
def orUnknown (v : Option Value) : String := if truthyValue v then text v else "unknown"

-- Whether the status of a message is a bad one. A Symbol that has no `includes` cannot be read.
def statusInvalid (messageStatus : Option Value) : Option Bool :=
  if truthyValue messageStatus then
    match optionalMember messageStatus "Symbol" with
    | none | some .null => some true
    | some (.string s) => some !(contains s "Good")
    | some (.array items) =>
        some !(items.any fun v => strictEq (some v) (some (.string "Good")))
    | some _ => none
  else some false

-- Whether a StatusCode is bad or uncertain. A null cannot be read.
def codeInvalid : Value → Option Bool
  | .null => none
  | statusCode =>
      let codeValue := if typeOf (some statusCode) = "object" then
        optionalMember (some statusCode) "Code" else some statusCode
      match codeValue with
      | none | some .null => some false
      | some v => some (!strictEq (some v) (some (.number (.fin 0))) &&
          (bitAnd rt (some v) 0x80000000 ≠ 0 || bitAnd rt (some v) 0x40000000 ≠ 0))

-- What an encoded value tells: its value, its time when it has one, and whether it is invalid.
def extracted (fieldValue : Value) : Option (Value × Option Value × Bool) :=
  match fieldValue with
  | .document fields =>
      match fields.lookup "Value" with
      | some v =>
          let extractedValue :=
            match optionalMember (some v) "Body" with
            | none | some .null => v
            | some body => body
          let time := ["SourceTimestamp", "ServerTimestamp"].findSome? fun key =>
            if truthyValue (fields.lookup key) then fields.lookup key else none
          match fields.lookup "StatusCode" with
          | some statusCode => (codeInvalid rt statusCode).map (extractedValue, time, ·)
          | none => some (extractedValue, time, false)
      | none => some ((fields.lookup "Body").getD fieldValue, none, false)
  | v => some (v, none, false)

def opcUaField (objectAddress : String) (messageTimestamp : Option Value)
    (messageInvalid : Bool) (fieldValue : Value) : Outcome Data :=
  match extracted rt fieldValue with
  | none => .failed
  | some (extractedValue, time, bad) =>
      let timestamp := time.or messageTimestamp
      let fieldInvalid := messageInvalid || bad || extractedValue matches .null
      let (valueType, value, valueString) : String × Double × String :=
        match extractedValue with
        | .bool b => ("digital", .fin (if b then 1 else 0), valueText extractedValue)
        | .number x => ("analog", x, valueText extractedValue)
        | .string s =>
            let x := parseFloat rt (some extractedValue)
            ("string", if x.isNaN then .fin 0 else x, s)
        | .null => ("json", .fin 0, "")
        | v => ("json", .fin 0, stringify v)
      .emit (.make objectAddress
        [("value", some (.number value)), ("valueString", some (.string valueString)),
          ("valueJson", some (.string (stringify fieldValue))),
          ("invalid", some (.bool fieldInvalid)), ("transient", some (.bool false)),
          ("causeOfTransmissionAtSource", some (.string "3")),
          ("timeTagAtSource", some ((timestamp.map newDate).getD (.dateTime now))),
          ("timeTagAtSourceOk", some (.bool timestamp.isSome)),
          ("asduAtSource", some (.string "opcua-pubsub")), ("type", some (.string valueType))])

def opcUaDataSet (topic publisherId : String) (dataSetMessage : Value) : Outcome Data :=
  let get := optionalMember (some dataSetMessage)
  let messageTimestamp := if truthyValue (get "Timestamp") then get "Timestamp" else none
  match statusInvalid (get "Status") with
  | none => .failed
  | some messageInvalid =>
      .forEach (fun (fieldName, fieldValue) =>
        opcUaField rt now newDate
          (topic ++ "/" ++ publisherId ++ "/" ++ orUnknown (get "DataSetWriterId") ++ "/" ++ fieldName)
          messageTimestamp messageInvalid fieldValue)
        (entries (get "Payload"))

def processOpcUaPubSubMessage (opcMsgObj : Value) (topic : String) : Outcome Data :=
  if !isUaData opcMsgObj then .nothing
  else
    match optionalMember (some opcMsgObj) "Messages" with
    | some (.array messages) =>
        .forEach (opcUaDataSet rt now newDate topic
          (orUnknown (optionalMember (some opcMsgObj) "PublisherId"))) messages
    | _ => .nothing

end OpcUa

end JsonScada.Mqtt
