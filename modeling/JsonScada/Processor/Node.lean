import JsonScada.Processor.HandleChange

namespace JsonScada.Processor.Node

open JsonScada.Library

-- The JavaScript handler. Fields are read as JavaScript values, `none` for
-- undefined; what is not written again here reads its fields as the Go handler does.

-- What the handler takes from where it runs: the rounding of arithmetic, and the
-- milliseconds between UTC and the local time.
structure Runtime where
  round : ℚ → Double
  localOffset : Int → Int

section Operators

-- WhiteSpace and LineTerminator of ECMA-262
def isSpace (c : Char) : Bool :=
  c.toNat ∈ [0x09, 0x0a, 0x0b, 0x0c, 0x0d, 0x20, 0xa0, 0x1680, 0x2028, 0x2029, 0x202f, 0x205f,
      0x3000, 0xfeff] ||
    (0x2000 ≤ c.toNat && c.toNat ≤ 0x200a)

variable (rt : Runtime)

-- The digits after 0x, 0o or 0b.
def radixNumber (base : Nat) (ds : List Char) : Double :=
  let digit (c : Char) : Nat :=
    let c := c.toLower
    if c.isDigit then c.toNat - '0'.toNat else if c.isLower then c.toNat - 'a'.toNat + 10 else base
  if ds ≠ [] ∧ ds.all (digit · < base) then
    rt.round (ds.foldl (fun n c => n * base + digit c) 0 : Nat)
  else .nan

def decimalNumber (s : List Char) : Double :=
  match Decimal.parse s with
  | some (negative, d) => rt.round (if negative then -d.value else d.value)
  | none => .nan

def stringToNumber (s : List Char) : Double :=
  let t := trim isSpace s
  if t = [] then .fin 0
  else if t = "Infinity".toList ∨ t = "+Infinity".toList then .inf false
  else if t = "-Infinity".toList then .inf true
  else
    match (t.take 2).map Char.toLower with
    | ['0', 'x'] => radixNumber rt 16 (t.drop 2)
    | ['0', 'o'] => radixNumber rt 8 (t.drop 2)
    | ['0', 'b'] => radixNumber rt 2 (t.drop 2)
    | _ => decimalNumber rt t

def toNumber : Option Value → Double
  | none => .nan
  | some .null => .fin 0
  | some (.bool b) => .fin (if b then 1 else 0)
  | some (.number x) => x
  | some (.string s) => stringToNumber rt s.toList
  | some (.dateTime ms) => .fin ms
  | some _ => .nan

-- A value that is added to a string.
def text : Option Value → String
  | none => "undefined"
  | some .null => "null"
  | some (.bool b) => if b then "true" else "false"
  | some (.number x) => Decimal.ecmaString x
  | some (.string s) => s
  | some _ => "[object Object]"

-- `x == v` for a number
def looseEq (x : Double) : Option Value → Bool
  | none | some .null => false
  | v => Double.eq x (toNumber rt v)

-- `x === v` for a number
def strictEq (x : Double) : Option Value → Bool
  | some (.number y) => Double.eq x y
  | _ => false

-- `v === s` for a text
def isText (s : String) : Option Value → Bool
  | some (.string t) => t = s
  | _ => false

-- `v == ''`
def isEmpty : Option Value → Bool
  | some (.string s) => s = ""
  | some (.number x) => Double.eq x (.fin 0)
  | some (.bool b) => !b
  | _ => false

-- `parseFloat(value.toFixed(digits))`: of two decimals that are equally near,
-- toFixed takes the larger in size.
def parseFloatToFixed (v : Double) (digits : Nat) : Double :=
  match v with
  | .fin q =>
      if 10 ^ 21 ≤ |q| then v
      else
        let n := ⌊|q| * 10 ^ digits + 1 / 2⌋
        rt.round ((if q < 0 then -n else n : ℤ) / 10 ^ digits)
  | v => v

-- `getFullYear`, in the local time
def fullYear (ms : Int) : Int := Calendar.year ((ms + rt.localOffset ms) / Calendar.msPerDay)

-- `toISOString`: years of more than four digits have a sign and six digits.
def toISOString (ms : Int) : String :=
  Calendar.isoDate
    (fun y =>
      if 0 ≤ y ∧ y ≤ 9999 then Calendar.padded 4 y.natAbs
      else (if y < 0 then '-' else '+') :: Calendar.padded 6 y.natAbs)
    ms

end Operators

section Conversion

variable (rt : Runtime) (now : Int) (fd sdu : Document)

def isSOE : Bool :=
  match sdu.timeOf "timeTagAtSource" with
  | some tts =>
      (fd.str "type" = "digital" || (fd.str "type" = "analog" && fd.truthy "isEvent")) &&
        1899 < fullYear rt tts
  | none => false

structure Converted where
  value : Double
  valueString : String
  invalid : Bool
  transient : Bool
  -- undefined as long as neither the point nor the conversion gives it
  alarmed : Option Value
  alarmRange : Double := .fin 0
  soe : List Effect := []

-- `value & 0x01`
def lowBit (value : Double) : Int := value.toInt % 2

def convertDigital (q : Quality) (value : Double) (txtQualif : String) : Converted :=
  let (value, invalid, transient, txtQualif) := doublePoint lowBit sdu value q txtQualif
  let value := invertDigital fd value
  let unit := fd.lookup "unit"
  let unitSuffix := if isEmpty unit then "" else " " ++ text unit
  let state :=
    if truthyValue (some (.number value)) then "stateTextTrue" else "stateTextFalse"
  { value := value
    valueString := text (fd.lookup state) ++ unitSuffix ++ txtQualif
    invalid := invalid
    transient := transient
    alarmed :=
      if !looseEq rt value (fd.lookup "value") && !fd.truthy "alarmDisabled" then some (.bool true)
      else fd.lookup "alarmed" }

-- The conversion factors, and the dead band around zero.
def scaled (valueAtSource : Option Value) : Double :=
  let value := Double.add rt.round
    (Double.mul rt.round (toNumber rt valueAtSource) (toNumber rt (fd.lookup "kconv1")))
    (toNumber rt (fd.lookup "kconv2"))
  if fd.has "zeroDeadband" then
    let zdb := fd.lookup "zeroDeadband"
    if !strictEq (.fin 0) zdb && Double.lt value.abs (toNumber rt zdb) then .fin 0 else value
  else value

def limitRange (value : Double) : Double × Bool :=
  -- parseFloat gives a number back as it is
  let hysteresis :=
    if fd.truthy "hysteresis" then toNumber rt (fd.lookup "hysteresis") else .fin 0
  let hiLimit := toNumber rt (fd.lookup "hiLimit")
  let loLimit := toNumber rt (fd.lookup "loLimit")
  if Double.lt (Double.add rt.round hiLimit hysteresis) value then (.fin 1, false)
  else if Double.lt value (Double.sub rt.round loLimit hysteresis) then (.fin (-1), false)
  else if Double.lt value (Double.sub rt.round hiLimit hysteresis) &&
      Double.lt (Double.add rt.round loLimit hysteresis) value then (.fin 0, true)
  else (if fd.truthy "alarmRange" then toNumber rt (fd.lookup "alarmRange") else .fin 0, false)

def arrow (value : Double) (up down : String) : String :=
  let old := (toNumber rt (fd.lookup "value")).abs
  if Double.lt old value.abs then up
  else if Double.lt value.abs old then down
  else ""

def eventNumber (value : Double) : String :=
  Decimal.ecmaString (parseFloatToFixed rt value 3) ++ " " ++ text (fd.lookup "unit")

def limitSoe (value : Double) (alarmed : Bool) : Effect :=
  let eventText := eventNumber rt fd value ++ arrow rt fd value " ⤉" " ⤈" ++
    if alarmed then " 🚩" else " 🆗"
  soeEntry fd (rawOrNil (fd.lookup "tag")) (.string eventText) false now (.dateTime now)
    (.bool true) (if alarmed then 0 else 1)

def eventSoe (value : Double) : Effect :=
  let source : Value × Value :=
    if isSOE rt fd sdu then
      (rawOrNil (sdu.lookup "timeTagAtSource"), rawOrNil (sdu.lookup "timeTagAtSourceOk"))
    else (.dateTime now, .bool false)
  let eventText := eventNumber rt fd value ++ arrow rt fd value " ↑" " ↓"
  soeEntry fd (rawOrNil (fd.lookup "tag")) (.string eventText) false now source.1 source.2 1

def convertAnalog (q : Quality) (valueAtSource : Option Value) (txtQualif : String) : Converted :=
  let txtQualif := if txtQualif ≠ "" then " " ++ txtQualif else ""
  let value := scaled rt fd valueAtSource
  let number :=
    if sdu.has "asduAtSource" && hasPrefix (sdu.str "asduAtSource") "M_BO_" then
      Decimal.radix2 value
    else Decimal.ecmaString (parseFloatToFixed rt value 4)
  let valueString := number ++ " " ++ text (fd.lookup "unit") ++ txtQualif
  let alarmed := fd.lookup "alarmed"
  let limits :=
    if hasLimits fd then
      let (alarmRange, normal) := limitRange rt fd value
      let alarmed := if normal then some (.bool false) else alarmed
      if !looseEq rt alarmRange (fd.lookup "alarmRange") then
        let alarmed :=
          if looseEq rt alarmRange (some (.number (.fin 0))) then alarmed else some (.bool true)
        (alarmRange, alarmed, [limitSoe rt now fd value (truthyValue alarmed)])
      else (alarmRange, alarmed, [])
    else (.fin 0, alarmed, [])
  let event :=
    if !fd.truthy "alarmDisabled" &&
        ((fd.boolStrict "isEvent" = some true && !q.invalid && valueChanged fd value) ||
          isSOE rt fd sdu) then
      [eventSoe rt now fd sdu value]
    else []
  { value := value
    valueString := valueString
    invalid := q.invalid
    transient := q.transient
    alarmed := limits.2.1
    alarmRange := limits.1
    soe := limits.2.2 ++ event }

def isMissing (valueAtSource : Option Value) : Bool :=
  match valueAtSource with
  | none | some .null => true
  | v => (toNumber rt v).isNaN

def convert : Converted :=
  let q := qualityBits sdu
  let source := sdu.lookup "valueAtSource"
  let missing := isMissing rt source
  let value := if missing then .fin 0 else toNumber rt source
  let q := { q with invalid := q.invalid || missing }
  let txtQualif := qualifier q
  if fd.str "type" = "digital" then convertDigital rt fd sdu q value txtQualif
  else if fd.str "type" = "analog" then convertAnalog rt now fd sdu q source txtQualif
  else
    { value := value
      valueString := sdu.str "valueStringAtSource"
      invalid := q.invalid
      transient := q.transient
      alarmed := fd.lookup "alarmed" }

end Conversion

section Update

variable (rt : Runtime) (now : Int) (fd sdu : Document) (c : Converted)

def changedForUpdate : Bool :=
  isSOE rt fd sdu || sdu.truthy "rangeCheck" ||
    (valueChanged fd c.value &&
      !(!isSOE rt fd sdu && fd.str "type" = "digital" && fd.boolStrict "isEvent" = some true)) ||
    (fd.str "type" = "string" && !isText c.valueString (fd.lookup "valueString")) ||
    (fd.str "type" = "json" && !isText (sdu.str "valueJsonAtSource") (fd.lookup "valueJson")) ||
    sourceTimeTagAtSourceChanged fd sdu || fd.isNull "timeTag" || invalidChanged c.invalid fd

def hasAlarmTime : Bool :=
  !fd.truthy "alarmDisabled" && truthyValue c.alarmed &&
    (!fd.truthy "alarmed" || (fd.str "type" = "digital" && valueChanged fd c.value) ||
      (fd.str "type" = "digital" && isSOE rt fd sdu))

def newBeep : Bool :=
  let alarmed := truthyValue c.alarmed
  (alarmed && isSOE rt fd sdu && fd.boolStrict "isEvent" = some true && fd.str "type" = "digital" &&
      !looseEq rt c.value (some (.number (.fin 0)))) ||
    (alarmed && fd.boolStrict "isEvent" = some false && fd.str "type" = "digital") ||
    (alarmed && fd.boolStrict "alarmed" = some false)

def beepUpdate : List Effect :=
  let active : Document :=
    [("value", .number (.fin 1)), ("valueString", .string "Beep Active"), ("timeTag", .dateTime now)]
  let group : Document := [("beepGroup1List", rawOrNil (fd.lookup "group1"))]
  let priority := fd.lookup "priority"
  if strictEq (.fin 0) priority then
    [.rt { id := .number beepPointKey, set := ("beepType", .number (.fin 2)) :: active,
           addToSet := group }]
  else if Double.le (toNumber rt priority) lowestPriorityThatBeeps then
    [.rt { id := .number beepPointKey, set := active, addToSet := group }]
  else []

def insertIntoHistorian (value : Double) : Bool :=
  if fd.has "historianPeriod" then
    if Double.lt (toNumber rt (fd.lookup "historianPeriod")) (.fin 0) ||
        sdu.truthy "isNotForHistorical" then
      false
    else if fd.str "type" = "analog" && fd.has "historianDeadBand" then
      let band := toNumber rt (fd.lookup "historianDeadBand")
      let last := toNumber rt (fd.lookup "historianLastValue")
      !(fd.has "historianLastValue" && !fd.isNull "historianLastValue" &&
        Double.lt (.fin 0) band && Double.lt (Double.sub rt.round value last).abs band.abs)
    else true
  else true

-- The two source time fields of the update when there is a source time.
def sourceTime : Option (Value × Option Value) :=
  if sdu.has "timeTagAtSource" && !sdu.isNull "timeTagAtSource" then
    some (rawOrNil (sdu.lookup "timeTagAtSource"), sdu.lookup "timeTagAtSourceOk")
  else none

def updatesCnt : Double :=
  Double.add rt.round (toNumber rt (fd.lookup "updatesCnt")) (.fin 1)

-- The driver writes undefined as null.
def ownSet : Document :=
  let source := (sourceTime sdu).getD (.null, some .null)
  [("value", .number c.value), ("valueString", .string c.valueString),
    ("valueJson", .string (sdu.str "valueJsonAtSource"))] ++
  (if fd.str "type" = "analog" && insertIntoHistorian rt fd sdu c.value then
    [("historianLastValue", .number c.value)] else []) ++
  [("timeTag", .dateTime now), ("overflow", .bool (qualityBits sdu).overflow),
    ("invalid", .bool c.invalid), ("transient", .bool c.transient), ("frozen", .bool false),
    ("timeTagAtSource", source.1), ("timeTagAtSourceOk", rawOrNil source.2),
    ("updatesCnt", .number (updatesCnt rt fd)), ("alarmRange", .number c.alarmRange),
    ("alarmed",
      if fd.boolStrict "alarmDisabled" = some true then .bool false else rawOrNil c.alarmed)] ++
  (if hasAlarmTime rt fd sdu c then [("timeTagAlarm", .dateTime now)] else [])

end Update

section Historian

variable (rt : Runtime) (now : Int) (fd sdu : Document) (timeTag : Int) (c : Converted)

def jsonColumn (valueJson : String) : String × String :=
  let vj :=
    if valueJson = "" then "\"\"".toList else replaceQuote (trim isSpace valueJson.toList)
  match vj with
  | [] => ("", "")
  | c :: _ =>
      if c = '\x7b' ∨ c = '[' then ("\"", String.ofList vj)
      else if (stringToNumber rt vj).isNaN && c ≠ '"' then ("", "\"" ++ String.ofList vj ++ "\"")
      else ("", String.ofList vj)

def histFlags : String :=
  (if c.invalid then "1" else "0") ++
    (match sourceTime sdu with
      | some (_, ok) => if truthyValue ok then "0" else "1"
      | none => "1") ++
    (if fd.str "type" = "analog" then "1" else "0") ++
    (if sdu.str "causeOfTransmissionAtSource" = "20" then "1" else "0") ++ "0000"

def histSql (tag : String) : String :=
  let column := jsonColumn rt (sdu.str "valueJsonAtSource")
  let vs := if c.valueString = "" then "" else sqlQuote c.valueString
  let ttas :=
    match sourceTime sdu with
    | some (.dateTime t, _) => "'" ++ toISOString t ++ "'"
    | _ => "null"
  "'" ++ sqlQuote tag ++ "'," ++ "'" ++ toISOString timeTag ++ "'," ++
    Decimal.ecmaString c.value ++ ",('\x7b\"v\":'||trim('" ++ column.1 ++ "' FROM to_json('" ++
    column.2 ++ "'::text)::jsonb #>> '\x7b\x7d')||',\"s\":'||to_json('" ++ vs ++
    "'::text)||'\x7d'::text)::jsonb," ++ ttas ++ ",B'" ++ histFlags fd sdu c ++ "'"

def histObj (tag : String) : Document :=
  let value : Value :=
    if fd.str "type" = "string" then .string c.valueString
    else if fd.str "type" = "json" then .string (sdu.str "valueJsonAtSource")
    else .number c.value
  let cot := sdu.str "causeOfTransmissionAtSource"
  [("tag", .string tag), ("timeTag", .dateTime timeTag), ("value", value),
    ("invalid", .bool c.invalid)] ++
  (match sourceTime sdu with
    | some (t, some .null) => [("timeTagAtSource", t)]
    | some (t, ok) => [("timeTagAtSource", t), ("timeTagAtSourceOk", rawOrNil ok)]
    | none => []) ++
  (if cot ≠ "" then [("cot", .string cot)] else [])

-- The mirror row: `fullDocument` with the new values in place.
def mirrorDocument : Document :=
  let doc := if fd.has "sourceDataUpdate" then fd else setField fd "sourceDataUpdate" (.document sdu)
  applySet doc ([("value", .number c.value), ("valueString", .string c.valueString),
    ("valueJson", .string (sdu.str "valueJsonAtSource")), ("timeTag", .dateTime now),
    ("overflow", .bool (qualityBits sdu).overflow), ("invalid", .bool c.invalid),
    ("transient", .bool c.transient), ("updatesCnt", .number (updatesCnt rt fd))] ++
    c.alarmed.toList.map (("alarmed", ·)))

end Historian

section Handler

variable (rt : Runtime) (now : Int) (count : Nat) (fd sdu : Document) (timeTag : Int)

def digitalSoe (c : Converted) : List Effect :=
  if isSOE rt fd sdu && fd.str "type" ≠ "analog" && !fd.truthy "alarmDisabled" &&
      !sdu.truthy "isNotForHistorical" && !(Double.eq c.value (.fin 0) && fd.truthy "isEvent") then
    let eventText := if Double.eq c.value (.fin 0) then "eventTextFalse" else "eventTextTrue"
    [soeEntry fd (rawOrNil (fd.lookup "tag")) (rawOrNil (fd.lookup eventText)) c.invalid now
      (rawOrNil (sdu.lookup "timeTagAtSource")) (rawOrNil (sdu.lookup "timeTagAtSourceOk")) 0]
  else []

def processUpdate : List Effect × Nat :=
  let c := convert rt now fd sdu
  let enabled := !fd.truthy "alarmDisabled"
  if changedForUpdate rt fd sdu c && !sdu.truthy "isHistorical" then
    let beep := if enabled && newBeep rt fd sdu c then beepUpdate rt now fd else []
    let counts := enabled && fd.str "type" = "digital"
    let own :=
      if suppressed fd sdu c.value then []
      else [.rt { id := rawOrNil (fd.lookup "_id"), set := ownSet rt now fd sdu c }]
    let queued := c.soe ++ beep ++ (if counts then [countUpdate now (count + 1)] else []) ++ own
    let rest :=
      match fd.lookup "tag" with
      | some (.string tag) =>
          (if insertIntoHistorian rt fd sdu c.value then
            [.hist ⟨histSql rt fd sdu timeTag c tag, histObj fd sdu timeTag c tag⟩] else []) ++
          [.sqlRt tag (mirrorDocument rt now fd sdu c)] ++ digitalSoe rt now fd sdu c
      -- without a tag `replaceAll` throws, and the handler ends
      | _ => []
    (queued ++ rest, if counts then count + 1 else count)
  else (c.soe ++ digitalSoe rt now fd sdu c, count)

-- The handler of a change event. What is missing in one throws when it is read.
def handleChange (active : Bool) (ev : ChangeEvent) : List Effect × Nat :=
  if ev.operationType = "delete" then ([], count)
  else
    match ev.fullDocument with
    | none => ([], count)
    | some fd =>
        if ev.operationType = "insert" then
          match fd.lookup "tag" with
          | some (.string tag) => ([.sqlRt tag fd], count)
          | _ => ([], count)
        else if !active then ([], count)
        else
          match ev.updatedFields.bind (·.doc "sourceDataUpdate") with
          | none => ([], count)
          | some sdu =>
              match sdu.timeOf "timeTag" with
              | none => ([], count)
              | some timeTag => processUpdate rt now count fd sdu timeTag

end Handler

end JsonScada.Processor.Node
