import JsonScada.Library.LastAt
import JsonScada.Library.Decimal
import JsonScada.Processor.HandleChange

-- The ICCP server driver: the points that it makes of the tags of the database, and the way of
-- a command back to its tag.
namespace JsonScada.Iccp.Server

open JsonScada.Library
open JsonScada.Processor (Document Value)

-- What the driver takes from its platform: the rounding of arithmetic and the texts of numbers.
structure Platform where
  round : ℚ → Double
  -- `fmt.Sprintf("%v", v)`, or "%d" of a whole number
  sprint : Value → String
  formatFloat : Double → String

def trimSpace (s : String) : String := String.ofList (Processor.trim Processor.isSpace s.toList)

structure RtData where
  id : Double
  tag : String
  type : String
  value : Double
  invalid : Bool
  group1 : String
  origin : String
  protocolSourceConnectionNumber : Double
  protocolSourceASDU : Value
  protocolSourceObjectAddress : Value
  protocolSourceCommonAddress : Value
  protocolSourceCommandDuration : Double
  protocolSourceCommandUseSBO : Bool
  kconv1 : Value
  kconv2 : Value
  timeTagAtSource : Option ℤ
  timeTagAtSourceOk : Bool
  commandBlocked : Bool

structure Connection where
  name : String
  protocolConnectionNumber : ℤ
  commandsEnabled : Bool
  topics : List String

section Conversions

def contains (a : List String) (s : String) : Bool := a.any fun n => trimSpace s = trimSpace n

-- `protocolSourceASDU`, and an object address, as a text
def asduToString (pl : Platform) : Value → String
  | .null => ""
  | .string s => s
  | v => pl.sprint v

def commonAddrToFloat64 : Value → Double
  | .number x => x
  | .string s => (Strconv.parseFloat s.toList).getD (.fin 0)
  | _ => .fin 0

def kconvToFloat64 (v : Value) (default : Double) : Double :=
  match v with
  | .number x => x
  | .string s => (Strconv.parseFloat s.toList).getD default
  | _ => default

inductive ICCPType where
  | stateQTimeTagExtended | realQTimeTagExtended | discreteQTimeTagExtended
  deriving DecidableEq

-- The ICCP type of a tag, none where it has no standard one.
def getICCPType (pl : Platform) (tag : RtData) : Option ICCPType :=
  if tag.type = "digital" then some .stateQTimeTagExtended
  else if tag.type = "analog" then
    if asduToString pl tag.protocolSourceASDU ∈
        ["int16", "uint16", "int32", "uint32", "int64", "uint64", "integer"] then
      some .discreteQTimeTagExtended
    else some .realQTimeTagExtended
  else none

def isLetter (c : Char) : Bool := ('a' ≤ c && c ≤ 'z') || ('A' ≤ c && c ≤ 'Z')

-- Letters, digits and underscores, with a letter first and 32 of them at most.
def sanitizePointName (name : String) : String :=
  if name = "" then "X_unnamed_"
  else
    let result := name.toList.map fun r => if isLetter r || r.isDigit then r else '_'
    let result :=
      match result with
      | c :: _ => if isLetter c then result else 'X' :: result
      | [] => []
    String.ofList (result.take 32)

end Conversions

section Points

inductive DeviceClass where
  | direct | sbo
  deriving DecidableEq

inductive PointKind where
  | control (deviceClass : DeviceClass)
  | indication (type : ICCPType)
  deriving DecidableEq

-- A point of the data model, with the tag that it is created from.
structure Point where
  domain : String
  name : String
  kind : PointKind
  tag : RtData

def topicsOf (connections : List Connection) : List String :=
  connections.flatMap fun c => (c.topics.map trimSpace).filter (· ≠ "")

-- The query for the tags: no internal data, and of the groups of the topics where there are any.
def queried (connections : List Connection) (tag : RtData) : Bool :=
  Double.lt (.fin 0) tag.id &&
    (topicsOf connections = [] || decide (tag.group1 ∈ topicsOf connections))

def ownTag (connections : List Connection) (tag : RtData) : Bool :=
  connections.any fun c => c.protocolConnectionNumber = tag.protocolSourceConnectionNumber.toInt

def hasCmdEnabled (connections : List Connection) (group1 : String) : Bool :=
  connections.any fun c => c.commandsEnabled && (c.topics = [] || contains c.topics group1)

-- The point of one tag.
def pointOf (pl : Platform) (connections : List Connection) (tag : RtData) : Option Point :=
  let group1 := trimSpace tag.group1
  if group1 = "" || ownTag connections tag then none
  else
    let point (kind : PointKind) : Point := ⟨group1, sanitizePointName tag.tag, kind, tag⟩
    if tag.origin = "command" && !tag.commandBlocked && hasCmdEnabled connections group1 then
      some (point (.control (if tag.protocolSourceCommandUseSBO then .sbo else .direct)))
    else (getICCPType pl tag).map fun type => point (.indication type)

-- The tags of the database in the order in which the query gives them; an index keeps them
-- from having the same name.
structure Collection where
  tags : List RtData
  nodup : (tags.map RtData.tag).Nodup

def allTags (connections : List Connection) (c : Collection) : List RtData :=
  c.tags.filter (queried connections)

def points (pl : Platform) (connections : List Connection) (c : Collection) : List Point :=
  (allTags connections c).filterMap (pointOf pl connections)

def Point.isControl (p : Point) : Bool :=
  match p.kind with
  | .control _ => true
  | .indication _ => false

end Points

section Cache

structure Cache where
  rtDataByTag : String → Option RtData
  -- by "domain/item"
  tagByDomainItem : String → Option String

def populateRtDataCache (tags : List RtData) : Cache where
  rtDataByTag := filled (fun t => some (t.tag, t)) tags
  tagByDomainItem := filled (fun t =>
    let pointName := sanitizePointName t.tag
    if t.group1 ≠ "" && pointName ≠ "" then some (t.group1 ++ "/" ++ pointName, t.tag) else none) tags

def Cache.findTagByDomainItem (c : Cache) (domain item : String) : String :=
  (c.tagByDomainItem (domain ++ "/" ++ item)).getD ""

def Cache.findRtDataForTag (c : Cache) (tag : String) : Option RtData := c.rtDataByTag tag

end Cache

section Commands

variable (pl : Platform)

def applyCommandConversion (value : Double) (rtDoc : RtData) : Double :=
  let kconv1 := kconvToFloat64 rtDoc.kconv1 (.fin 1)
  if rtDoc.type = "digital" then
    let v : ℚ := if Double.eq value (.fin 0) then 0 else 1
    .fin (if Double.eq kconv1 (.fin (-1)) then 1 - v else v)
  else if rtDoc.type = "analog" then
    Double.add pl.round (Double.mul pl.round value kconv1) (kconvToFloat64 rtDoc.kconv2 (.fin 0))
  else value

-- A converted value, as a boolean where it came as one.
def commandValueString (value : Double) (origStr : String) : String :=
  if origStr = "true" || origStr = "false" then
    if Double.eq value (.fin 0) then "false" else "true"
  else
    match value with
    | .fin q =>
        if (Double.toInt (.fin q) : ℚ) = q && |q| < 10 ^ 15 then toString (Double.toInt (.fin q))
        else pl.formatFloat value
    | value => pl.formatFloat value

-- A document of the commands queue.
structure Command where
  protocolSourceConnectionNumber : Double
  protocolSourceCommonAddress : Double
  protocolSourceObjectAddress : String
  protocolSourceASDU : String
  protocolSourceCommandDuration : Double
  protocolSourceCommandUseSBO : Bool
  pointKey : Double
  tag : String
  value : Double
  valueString : String
  originatorUserName : String

def commandOf (conn : Connection) (value : Double) (valueStr : String) (rtDoc : RtData) : Command where
  protocolSourceConnectionNumber := rtDoc.protocolSourceConnectionNumber
  protocolSourceCommonAddress := commonAddrToFloat64 rtDoc.protocolSourceCommonAddress
  protocolSourceObjectAddress := asduToString pl rtDoc.protocolSourceObjectAddress
  protocolSourceASDU := asduToString pl rtDoc.protocolSourceASDU
  protocolSourceCommandDuration := rtDoc.protocolSourceCommandDuration
  protocolSourceCommandUseSBO := rtDoc.protocolSourceCommandUseSBO
  pointKey := rtDoc.id
  tag := rtDoc.tag
  value := value
  valueString := valueStr
  originatorUserName :=
    "Protocol connection: " ++ toString conn.protocolConnectionNumber ++ " " ++ conn.name

-- The command that a write or an operation of a control point queues, with the value and the
-- text that it came with.
def forwardCommand (cache : Cache) (conn : Connection) (domain item : String) (value : Double)
    (valueStr : String) : Option Command :=
  let tag := cache.findTagByDomainItem domain item
  if tag = "" then none
  else
    match cache.findRtDataForTag tag with
    | none => none
    | some rtDoc =>
        if Double.eq rtDoc.id (.fin 0) then none
        else
          let convValue := applyCommandConversion pl value rtDoc
          if Double.eq convValue value then some (commandOf pl conn value valueStr rtDoc)
          else some (commandOf pl conn convValue (commandValueString pl convValue valueStr) rtDoc)

end Commands

end JsonScada.Iccp.Server
