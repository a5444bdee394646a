import JsonScada.Dnp3.Client
import JsonScada.JsTags

namespace JsonScada.Dnp3

open JsonScada.Library
open JsonScada.JsMongo
open JsonScada.JsTags
open JsonScada.Processor (Document Value applySet lookup_applySet)

section Groups

def groupCROBCommand : ℤ := 12
def groupAnalogOutputBlock : ℤ := 41

-- The type of the tags of a group.
def typeFromBaseGroup (g : ℤ) : String :=
  if g ∈ [groupBinaryInput, groupDoubleBinaryInput, groupBinaryOutputStatus, groupCROBCommand] then
    "digital"
  else "analog"

def groupDescription (g : ℤ) : String :=
  if g = groupBinaryInput then "Binary Input"
  else if g = groupDoubleBinaryInput then "Double Binary Input"
  else if g = groupBinaryOutputStatus then "Binary Output Status"
  else if g = groupCounter then "Counter"
  else if g = groupFrozenCounterEvent then "Frozen Counter"
  else if g = groupAnalogInput then "Analog Input"
  else if g = groupAnalogOutputStatus then "Analog Output Status"
  else if g = groupCROBCommand then "CROB Command"
  else if g = groupAnalogOutputBlock then "Analog Output Command"
  else "Group " ++ toString g

end Groups

-- What the writer reads and keeps of a connection. The addresses are those that it
-- takes to have a tag.
structure Connection where
  protocolConnectionNumber : ℤ
  name : String
  commandsEnabled : Bool
  autoCreateTags : Bool
  tagKeys : KeyAllocator := {}
  insertedAddresses : List (ℤ × ℤ) := []

-- The document of an address that is seen for the first time.
def newTagDoc (iv : Dnp3Value) (connName : String) (id : Double) (isCommand : Bool)
    (srcCommonAddress : ℤ) (asdu commandDuration : ℚ)
    (commandOfSupervised supervisedOfCommand : Double) : Document :=
  let tagType := typeFromBaseGroup srcCommonAddress
  let grpDesc := groupDescription srcCommonAddress
  let addrStr := toString iv.address
  let desc := connName ++ "~" ++ grpDesc ++ "~" ++ addrStr
  let isDigital := tagType = "digital"
  applySet baseDoc
    [("_id", .number id),
      ("tag", .string (connName ++ ";" ++ toString srcCommonAddress ++ ";" ++ addrStr)),
      ("type", .string tagType),
      ("origin", .string (if isCommand then "command" else "supervised")),
      ("description", .string (if isCommand then desc ++ "-Command" else desc)),
      ("ungroupedDescription", .string (grpDesc ++ " " ++ addrStr)),
      ("group1", .string connName), ("group2", .string grpDesc), ("group3", .string ""),
      ("protocolSourceConnectionNumber", .number (.fin iv.connNumber)),
      ("protocolSourceCommonAddress", .number (.fin srcCommonAddress)),
      ("protocolSourceObjectAddress", .number (.fin iv.address)),
      ("protocolSourceASDU", .number (.fin asdu)),
      ("protocolSourceCommandDuration", .number (.fin commandDuration)),
      ("protocolSourceCommandUseSBO", .bool false),
      ("commandOfSupervised", .number commandOfSupervised),
      ("supervisedOfCommand", .number supervisedOfCommand),
      ("alarmState", .number (.fin (if isDigital then 2 else -1))),
      ("stateTextFalse", .string (if isDigital then "FALSE" else "")),
      ("stateTextTrue", .string (if isDigital then "TRUE" else "")),
      ("eventTextFalse", .string (if isDigital then "FALSE" else "")),
      ("eventTextTrue", .string (if isDigital then "TRUE" else "")),
      ("value", .number (if isCommand then .fin 0 else iv.value)),
      ("valueString", .string (if isCommand then "" else iv.valueString)),
      ("invalid", .bool true), ("invalidDetectTimeout", .number (.fin 60000)),
      ("protocolDestinations", .array [])]

-- The documents to insert for a value whose address has not been seen before. A
-- controllable point has a command twin, whose _id is the lower one.
def autoCreateFor (coll : List Document) (lookupOk : Bool) (conn : Connection) (iv : Dnp3Value) :
    Connection × List Document :=
  if !conn.autoCreateTags then (conn, [])
  else if (iv.baseGroup, iv.address) ∈ conn.insertedAddresses then (conn, [])
  else
    let conn := { conn with
      insertedAddresses := (iv.baseGroup, iv.address) :: conn.insertedAddresses }
    if conn.commandsEnabled && (iv.baseGroup = groupBinaryOutputStatus ||
        iv.baseGroup = groupAnalogOutputStatus) then
      let (keys, commandId) := conn.tagKeys.next coll lookupOk conn.protocolConnectionNumber
      let digital := iv.baseGroup = groupBinaryOutputStatus
      let cmdGroup := if digital then groupCROBCommand else groupAnalogOutputBlock
      -- LATCH 1=ON 0=OFF for the digital one
      let (asdu, duration) : ℚ × ℚ := if digital then (1, 3) else (3, 0)
      let command := newTagDoc iv conn.name commandId true cmdGroup asdu duration (.fin 0)
        (Double.add Double.round commandId (.fin 1))
      let (keys, newId) := keys.next coll lookupOk conn.protocolConnectionNumber
      ({ conn with
          tagKeys := keys
          insertedAddresses := (cmdGroup, iv.address) :: conn.insertedAddresses },
        [command, newTagDoc iv conn.name newId false iv.baseGroup 0 0 commandId (.fin 0)])
    else
      let (keys, newId) := conn.tagKeys.next coll lookupOk conn.protocolConnectionNumber
      ({ conn with tagKeys := keys },
        [newTagDoc iv conn.name newId false iv.baseGroup 0 0 (.fin 0) (.fin 0)])

-- The addresses of a connection that the collection has a tag for.
def preloadAddresses (coll : List Document) (connNumber : ℤ) : List (ℤ × ℤ) :=
  (coll.filter (matchesFilter
      [("protocolSourceConnectionNumber", .number (.fin connNumber))])).map fun d =>
    (JsMongo.getInt d "protocolSourceCommonAddress" (-1),
      JsMongo.getInt d "protocolSourceObjectAddress" (-1))

section Address

-- The query for the tag of a point.
def pointFilter (k : ValueKey) : Document :=
  [("protocolSourceConnectionNumber", .number (.fin k.conn)),
    ("protocolSourceCommonAddress", .number (.fin k.baseGroup)),
    ("protocolSourceObjectAddress", .number (.fin k.address))]

theorem matchesFilter_pointFilter {k : ValueKey} {d : Document} :
    matchesFilter (pointFilter k) d = true ↔
      d.lookup "protocolSourceConnectionNumber" = some (.number (.fin k.conn)) ∧
      d.lookup "protocolSourceCommonAddress" = some (.number (.fin k.baseGroup)) ∧
      d.lookup "protocolSourceObjectAddress" = some (.number (.fin k.address)) := by
  simp only [matchesFilter, pointFilter, List.all_cons, List.all_nil, Bool.and_true,
    Bool.and_eq_true, lookup_number_iff]

theorem matchesFilter_newTagDoc (iv : Dnp3Value) (connName : String) (id : Double)
    (isCommand : Bool) (g : ℤ) (asdu duration : ℚ) (c s : Double) :
    matchesFilter (pointFilter ⟨iv.connNumber, g, iv.address⟩)
      (newTagDoc iv connName id isCommand g asdu duration c s) = true := by
  rw [matchesFilter_pointFilter]
  refine ⟨?_, ?_, ?_⟩ <;>
    simp [newTagDoc, lookup_applySet, List.lookup_cons]

end Address

end JsonScada.Dnp3
