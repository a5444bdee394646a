import JsonScada.JsTags
import JsonScada.Processor.Bson
import JsonScada.WebServer.Js

-- The tags that the MQTT driver creates, and what it stores of a value.
namespace JsonScada.Mqtt

open JsonScada.Library
open JsonScada.JsTags (maxFloat64)
open JsonScada.Processor (Document Value truthyValue rawOrNil applySet)
open JsonScada.Processor.Node (Runtime)
open JsonScada.WebServer (parseFloat strictEq text valueText)

def sparkplugNS : String := "spBv1.0"

-- A value that waits to be stored.
structure Data where
  protocolSourceObjectAddress : String
  -- what else the object has
  fields : Document
  deriving DecidableEq

namespace Data

variable (d : Data)

def get (key : String) : Option Value := d.fields.lookup key

-- `d.key || default`
def getOr (key : String) (default : Value) : Value :=
  if truthyValue (d.get key) then rawOrNil (d.get key) else default

def isStrictly (key : String) (v : Value) : Bool := strictEq (d.get key) (some v)

def topicSplit : List String :=
  (d.protocolSourceObjectAddress.toList.splitOn '/').map String.ofList

def isSparkplug : Bool :=
  (sparkplugNS ++ "/").toList.isPrefixOf d.protocolSourceObjectAddress.toList

end Data

section Update

variable (rt : Runtime) (connNumber : ℤ)

def numValue (d : Data) : Double :=
  let x := parseFloat rt (d.get "value")
  if x.isNaN then .fin 0 else x

def connText : String := Decimal.ecmaString (.fin connNumber)

def updTag (now : ℤ) (d : Data) : Document :=
  [("valueAtSource", .number (numValue rt d)),
    ("valueStringAtSource", rawOrNil (d.get "valueString")),
    ("valueJsonAtSource", rawOrNil (d.get "valueJson")),
    ("asduAtSource", rawOrNil (d.get "asduAtSource")),
    ("causeOfTransmissionAtSource", rawOrNil (d.get "causeOfTransmissionAtSource")),
    ("timeTagAtSource", rawOrNil (d.get "timeTagAtSource")),
    ("timeTagAtSourceOk", rawOrNil (d.get "timeTagAtSourceOk")),
    ("timeTag", .dateTime now),
    ("originator", .string ("MQTT-SPARKPLUG-B|" ++ connText connNumber ++
      (if truthyValue (d.get "msgType") then "|" ++ text (d.get "msgType") else ""))),
    ("invalidAtSource", rawOrNil (d.get "invalid")),
    ("transientAtSource", .bool false), ("notTopicalAtSource", .bool false),
    ("overflowAtSource", .bool false), ("blockedAtSource", .bool false),
    ("substitutedAtSource", .bool false)]

def addressFilter (address : String) : Document :=
  [("protocolSourceConnectionNumber", .number (.fin connNumber)),
    ("protocolSourceObjectAddress", .string address)]

end Update

section Creation

-- `s.replace(old, '')`
def replaceFirst (old : List Char) : List Char → List Char
  | [] => []
  | c :: cs =>
      if old.isPrefixOf (c :: cs) then (c :: cs).drop old.length else c :: replaceFirst old cs

def withoutFirst (s old : String) : String := String.ofList (replaceFirst old.toList s.toList)

-- The groups that `processMongoUpdates` takes from the address.
def Data.withGroups (d : Data) : Data :=
  let topicSplit := d.topicSplit
  let group (key : String) (name : Option String) (d : Data) : Data :=
    match name with
    | some name => if truthyValue (d.get key) then d
        else { d with fields := applySet d.fields [(key, .string name)] }
    | none => d
  group "group3" topicSplit[2]? <| group "group2"
    (if 1 < topicSplit.length && topicSplit[0]? = some sparkplugNS then topicSplit[1]?
      else topicSplit[0]?) d

def tagName (connNumber : ℤ) (d : Data) : String :=
  "MQTT:" ++ connText connNumber ++ ":" ++
    if d.isSparkplug then withoutFirst d.protocolSourceObjectAddress (sparkplugNS ++ "/")
    else d.protocolSourceObjectAddress

-- `NewTag`
def newTag (autoKeyId : ℤ) : Document :=
  [("_id", .number (.fin autoKeyId)), ("protocolSourceASDU", .string ""),
    ("protocolSourceCommonAddress", .string ""),
    ("protocolSourceConnectionNumber", .number (.fin 0)),
    ("protocolSourceObjectAddress", .string ""), ("protocolSourceCommandUseSBO", .bool false),
    ("protocolSourceCommandDuration", .number (.fin 0)), ("alarmState", .number (.fin (-1))),
    ("alarmRange", .number (.fin 0)), ("description", .string ""),
    ("ungroupedDescription", .string ""), ("group1", .string ""), ("group2", .string ""),
    ("group3", .string ""), ("stateTextFalse", .string ""), ("stateTextTrue", .string ""),
    ("eventTextFalse", .string ""), ("eventTextTrue", .string ""), ("origin", .string "supervised"),
    ("tag", .string ""), ("type", .string "analog"), ("value", .number (.fin 0)),
    ("valueString", .string ""), ("valueJson", .document []), ("alarmDisabled", .bool false),
    ("alerted", .bool false), ("alarmed", .bool false), ("alertState", .string ""),
    ("annotation", .string ""), ("commandBlocked", .bool false),
    ("commandOfSupervised", .number (.fin 0)), ("commissioningRemarks", .string ""),
    ("formula", .number (.fin 0)), ("frozen", .bool false),
    ("frozenDetectTimeout", .number (.fin 0)), ("hiLimit", .number (.fin maxFloat64)),
    ("hihiLimit", .number (.fin maxFloat64)), ("hihihiLimit", .number (.fin maxFloat64)),
    ("historianDeadBand", .number (.fin 0)), ("historianPeriod", .number (.fin 0)),
    ("hysteresis", .number (.fin 0)), ("invalid", .bool true),
    ("invalidDetectTimeout", .number (.fin 60000)), ("isEvent", .bool false),
    ("kconv1", .number (.fin 1)), ("kconv2", .number (.fin 0)), ("location", .null),
    ("loLimit", .number (.fin (-maxFloat64))), ("loloLimit", .number (.fin (-maxFloat64))),
    ("lololoLimit", .number (.fin (-maxFloat64))), ("notes", .string ""),
    ("overflow", .bool false), ("parcels", .null), ("priority", .number (.fin 0)),
    ("protocolDestinations", .null), ("sourceDataUpdate", .null),
    ("supervisedOfCommand", .number (.fin 0)), ("substituted", .bool false), ("timeTag", .null),
    ("timeTagAlarm", .null), ("timeTagAtSource", .null), ("timeTagAtSourceOk", .bool false),
    ("transient", .bool false), ("unit", .string ""), ("updatesCnt", .number (.fin 0)),
    ("valueDefault", .number (.fin 0)), ("zeroDeadband", .number (.fin 0))]

variable (rt : Runtime) (connNumber : ℤ)

def tagType (d : Data) : Value := (d.get "type").getD (.string "analog")

def typeFields (d : Data) : Document :=
  match tagType d with
  | .string "analog" => [("unit", d.getOr "unit" (.string "units"))]
  | .string "digital" =>
      [("eventTextFalse", .string "false"), ("eventTextTrue", .string "true"),
        ("stateTextFalse", .string "false"), ("stateTextTrue", .string "true")]
  | _ => []

-- The parts of a Sparkplug address, which no other address is split into.
def splitTopic (d : Data) : List String := if d.isSparkplug then d.topicSplit else []

def group1 (d : Data) : Value := d.getOr "group1" (.string ("MQTT:" ++ connText connNumber))

def group2 (d : Data) : Value := d.getOr "group2" (.string ((splitTopic d)[1]?.getD ""))

def group3 (d : Data) : Value :=
  let split := splitTopic d
  d.getOr "group3" (.string
    (match split[2]? with
    | some device => device ++ if 4 < split.length then "/" ++ split[3]?.getD "" else ""
    | none => ""))

def ungroupedDescription (d : Data) : Value :=
  d.getOr "ungroupedDescription" (.string d.protocolSourceObjectAddress)

-- The description and the one without groups. That of a Sparkplug tag is cut as a text:
-- `replace` is called on what it is, and throws where it is none.
def descriptions (d : Data) : Option (Value × Value) :=
  let ungrouped := ungroupedDescription d
  let description := d.getOr "description" (.string (valueText (group1 connNumber d) ++ "~" ++
    valueText (group2 d) ++ "~" ++ valueText ungrouped))
  if d.isSparkplug then
    match description with
    | .string s =>
        some (.string (withoutFirst (withoutFirst s (sparkplugNS ++ "/"))
          (text (d.get "group2") ++ "/")), .string ((splitTopic d).getLastD ""))
    | _ => none
  else some (description, ungrouped)

-- What `AutoCreateTag` sets in a new tag.
def tagFields (d : Data) : Option Document :=
  (descriptions connNumber d).map fun (description, ungrouped) =>
    [("protocolSourceConnectionNumber", .number (.fin connNumber)),
      ("protocolSourceObjectAddress", .string d.protocolSourceObjectAddress),
      ("protocolSourceASDU", d.getOr "metricType" (d.getOr "asduAtSource" (.string ""))),
      ("protocolSourceCommonAddress", .string (if d.isSparkplug then sparkplugNS else "")),
      ("tag", .string (tagName connNumber d)), ("type", tagType d)] ++
    typeFields d ++
    [("ungroupedDescription", ungrouped), ("group1", group1 connNumber d), ("group2", group2 d),
      ("group3", group3 d), ("description", description), ("value", .number (numValue rt d)),
      ("valueString", d.getOr "valueString" (.string "")),
      ("valueJson", d.getOr "valueJson" (.document [])),
      ("transient", .bool (d.isStrictly "transient" (.bool true))),
      ("invalid", .bool !(d.isStrictly "invalid" (.bool false))),
      ("timeTagAtSource", d.getOr "timeTagAtSource" .null),
      ("commissioningRemarks", d.getOr "commissioningRemarks" (.string "")),
      ("priority", .number (.fin 3))]

def createdTag (autoKeyId : ℤ) (d : Data) : Option Document :=
  (tagFields rt connNumber d).map (applySet (newTag autoKeyId))

end Creation

end JsonScada.Mqtt
