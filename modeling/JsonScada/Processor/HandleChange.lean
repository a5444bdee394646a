import JsonScada.Library.Calendar
import JsonScada.Library.Decimal
import JsonScada.Processor.Bson

namespace JsonScada.Processor

open JsonScada.Library

-- What the Go handler takes from its platform: the rounding of arithmetic, and the
-- conversion of a number outside the 32-bit range, which Go leaves open.
structure Platform where
  round : ℚ → Double
  int32OutOfRange : Double → Int

def beepPointKey : Double := .fin (-1)
def cntUpdatesPointKey : Double := .fin (-2)
def lowestPriorityThatBeeps : Double := .fin 1

-- The parts of a change event that are looked at.
structure ChangeEvent where
  operationType : String
  fullDocument : Option Document
  updatedFields : Option Document

structure RtUpdate where
  id : Value
  set : Document
  addToSet : Document := []

-- One historical sample, for PostgreSQL and for MongoDB.
structure HistEntry where
  sql : String
  obj : Document

inductive Effect where
  | rt (u : RtUpdate)
  | soe (entry : Document)
  | hist (entry : HistEntry)
  -- the row of the realtime table: the tag and the document that is written as JSON
  | sqlRt (tag : String) (doc : Document)

section Text

-- `parseFloat(value.toFixed(digits))`, by way of FormatFloat: a tie goes to the
-- even digit.
def jsParseFloatToFixed (pl : Platform) (v : Double) (digits : Nat) : Double :=
  match v with
  | .fin q =>
      if 10 ^ 21 ≤ |q| then v
      else pl.round (Double.roundEven (q * 10 ^ digits) / 10 ^ digits)
  | v => v

def jsFixedString (pl : Platform) (v : Double) (digits : Nat) : String :=
  Decimal.ecmaString (jsParseFloatToFixed pl v digits)

def replaceQuote : List Char → List Char
  | [] => []
  | '\'' :: s => '\'' :: '\'' :: replaceQuote s
  | c :: s => c :: replaceQuote s

def sqlQuote (s : String) : String := String.ofList (replaceQuote s.toList)

-- `t.UTC().Format("2006-01-02T15:04:05.000Z")`
def jsISODate (ms : Int) : String :=
  Calendar.isoDate (fun y => (if y < 0 then ['-'] else []) ++ Calendar.padded 4 y.natAbs) ms

-- unicode.IsSpace
def isSpace (c : Char) : Bool :=
  c.toNat ∈ [0x09, 0x0a, 0x0b, 0x0c, 0x0d, 0x20, 0x85, 0xa0, 0x1680, 0x2028, 0x2029, 0x202f,
      0x205f, 0x3000] ||
    (0x2000 ≤ c.toNat && c.toNat ≤ 0x200a)

-- strings.HasPrefix
def hasPrefix (s p : String) : Bool := p.toList.isPrefixOf s.toList

def contains (s p : String) : Bool := s.toList.tails.any p.toList.isPrefixOf

def trim (space : Char → Bool) (s : List Char) : List Char :=
  ((s.dropWhile space).reverse.dropWhile space).reverse

end Text

section Quality

structure Quality where
  invalid : Bool
  transient : Bool
  overflow : Bool
  nottopical : Bool
  carry : Bool
  substituted : Bool
  blocked : Bool
  deriving DecidableEq, Repr

-- The quality bits set by the protocol driver.
def qualityBits (sdu : Document) : Quality :=
  let invalidAt := (sdu.boolStrict "invalidAtSource").getD false
  let notTopical := (sdu.boolStrict "notTopicalAtSource").getD false
  let overflow := (sdu.boolStrict "overflowAtSource").getD false
  let transient := (sdu.boolStrict "transientAtSource").getD false
  { invalid := invalidAt || notTopical || overflow || transient
    transient := transient
    overflow := overflow
    nottopical := notTopical
    carry := (sdu.boolStrict "carryAtSource").getD false
    substituted := (sdu.boolStrict "substitutedAtSource").getD false
    blocked := (sdu.boolStrict "blockedAtSource").getD false }

-- The qualifier that is appended to valueString.
def qualifier (q : Quality) : String :=
  (if q.invalid then "[IV]" else "") ++ (if q.transient then "[TR]" else "") ++
    (if q.overflow then "[OV]" else "") ++ (if q.nottopical then "[NT]" else "") ++
    (if q.carry then "[CR]" else "") ++ (if q.substituted then "[SB]" else "") ++
    (if q.blocked then "[BK]" else "")

end Quality

-- `t.UTC().Year()`
def utcYear (ms : Int) : Int := Calendar.year (ms / Calendar.msPerDay)

-- A digital with a source timestamp, or an analog marked as isEvent with one.
def isSOE (fd sdu : Document) : Bool :=
  match sdu.timeOf "timeTagAtSource" with
  | some tts =>
      (fd.str "type" = "digital" || (fd.str "type" = "analog" && fd.truthy "isEvent")) &&
        1899 < utcYear tts
  | none => false

-- What the conversion of one update gives: the values that are then stored.
structure Converted where
  value : Double
  valueString : String
  invalid : Bool
  transient : Bool
  alarmed : Bool
  alarmRange : Double := .fin 0
  soe : List Effect := []

-- `!fdValueOk || value != fdValue`
def valueChanged (fd : Document) (value : Double) : Bool :=
  match fd.num "value" with
  | none => true
  | some old => !Double.eq value old

section Digital

-- `int32(value) & 1`
def lowBit (pl : Platform) (value : Double) : Int :=
  let i := value.toInt
  if value.isFinite && -2 ^ 31 ≤ i && i < 2 ^ 31 then i % 2 else pl.int32OutOfRange value % 2

def isDoublePoint (sdu : Document) : Bool :=
  sdu.has "asduAtSource" && hasPrefix (sdu.str "asduAtSource") "M_DP_"

-- The qualifier of a double point in one of its transient states.
def undefinedState (txtQualif : String) : String :=
  let txt := if contains txtQualif "[IV]" then txtQualif else txtQualif ++ "[IV]"
  " " ++ if contains txt "[TR]" then txt else txt ++ "[TR]"

-- A double point: 0 and 3 are the transient states, and the low bit is inverted.
def doublePoint (lowBit : Double → Int) (sdu : Document) (value : Double) (q : Quality)
    (txtQualif : String) : Double × Bool × Bool × String :=
  if isDoublePoint sdu then
    let transient := Double.eq value (.fin 0) || Double.eq value (.fin 3)
    (if lowBit value = 0 then .fin 1 else .fin 0, transient || q.invalid, transient || q.transient,
      if transient then undefinedState txtQualif else txtQualif)
  else (value, q.invalid, q.transient, txtQualif)

-- kconv1 = -1 inverts.
def invertDigital (fd : Document) (value : Double) : Double :=
  match fd.num "kconv1" with
  | some k =>
      if Double.eq k (.fin (-1)) then (if Double.eq value (.fin 0) then .fin 1 else .fin 0)
      else value
  | none => value

def convertDigital (pl : Platform) (fd sdu : Document) (q : Quality) (value : Double)
    (txtQualif : String) : Converted :=
  let (value, invalid, transient, txtQualif) := doublePoint (lowBit pl) sdu value q txtQualif
  let value := invertDigital fd value
  let unit := fd.str "unit"
  let unitSuffix := if unit ≠ "" then " " ++ unit else ""
  let state := if Double.eq value (.fin 0) then "stateTextFalse" else "stateTextTrue"
  { value := value
    valueString := fd.str state ++ unitSuffix ++ txtQualif
    invalid := invalid
    transient := transient
    alarmed := fd.truthy "alarmed" || (valueChanged fd value && !fd.truthy "alarmDisabled") }

end Digital

section Analog

-- The conversion factors, and the dead band around zero.
def scaled (pl : Platform) (fd : Document) (valueAtSource : Double) : Double :=
  let kconv1 := fd.numOr "kconv1" .nan
  let kconv2 := fd.numOr "kconv2" .nan
  let value := Double.add pl.round (Double.mul pl.round valueAtSource kconv1) kconv2
  if fd.has "zeroDeadband" then
    let zdb := fd.numOr "zeroDeadband" (.fin 0)
    if !Double.eq zdb (.fin 0) && Double.lt value.abs zdb then .fin 0 else value
  else value

def hasLimits (fd : Document) : Bool :=
  fd.has "hiLimit" && !fd.isNull "hiLimit" && fd.has "loLimit" && !fd.isNull "loLimit" &&
    !fd.truthy "alarmDisabled"

-- The range of the value among its limits, and whether it is back to normal.
def limitRange (pl : Platform) (fd : Document) (value : Double) : Double × Bool :=
  let hysteresis := if fd.truthy "hysteresis" then fd.numOr "hysteresis" (.fin 0) else .fin 0
  let hiLimit := fd.numOr "hiLimit" .nan
  let loLimit := fd.numOr "loLimit" .nan
  if Double.lt (Double.add pl.round hiLimit hysteresis) value then (.fin 1, false)
  else if Double.lt value (Double.sub pl.round loLimit hysteresis) then (.fin (-1), false)
  else if Double.lt value (Double.sub pl.round hiLimit hysteresis) &&
      Double.lt (Double.add pl.round loLimit hysteresis) value then (.fin 0, true)
  -- in the hysteresis band the old range stays
  else (if fd.truthy "alarmRange" then (fd.num "alarmRange").getD (.fin 0) else .fin 0, false)

-- `!prevRangeOk || prevRange != alarmRange`
def rangeChanged (fd : Document) (alarmRange : Double) : Bool :=
  match fd.num "alarmRange" with
  | none => true
  | some prev => !Double.eq prev alarmRange

-- Whether the value has grown or shrunk in size.
def arrow (fd : Document) (value : Double) (up down : String) : String :=
  match fd.num "value" with
  | none => ""
  | some old =>
      if Double.lt old.abs value.abs then up
      else if Double.lt value.abs old.abs then down
      else ""

-- The fields common to all sequence-of-events entries, in their order.
def soeEntry (fd : Document) (tag eventText : Value) (invalid : Bool) (timeTag : Int)
    (timeTagAtSource timeTagAtSourceOk : Value) (ack : Int) : Effect :=
  .soe [("tag", tag), ("pointKey", rawOrNil (fd.lookup "_id")),
    ("group1", rawOrNil (fd.lookup "group1")),
    ("description", rawOrNil (fd.lookup "description")), ("eventText", eventText),
    ("invalid", .bool invalid), ("priority", rawOrNil (fd.lookup "priority")),
    ("timeTag", .dateTime timeTag), ("timeTagAtSource", timeTagAtSource),
    ("timeTagAtSourceOk", timeTagAtSourceOk), ("ack", .number (.fin ack))]

def eventNumber (pl : Platform) (fd : Document) (value : Double) : String :=
  jsFixedString pl value 3 ++ " " ++ fd.str "unit"

-- The entry for a change of the limits alarm.
def limitSoe (pl : Platform) (now : Int) (fd : Document) (value : Double) (alarmed : Bool) : Effect :=
  let text := eventNumber pl fd value ++ arrow fd value " ⤉" " ⤈" ++
    if alarmed then " 🚩" else " 🆗"
  soeEntry fd (.string (fd.str "tag")) (.string text) false now (.dateTime now) (.bool true)
    (if alarmed then 0 else 1)

-- The entry of an analog event, acknowledged because it is not an alarm.
def eventSoe (pl : Platform) (now : Int) (fd sdu : Document) (value : Double) : Effect :=
  let source : Value × Value :=
    if isSOE fd sdu then
      (.dateTime ((sdu.timeOf "timeTagAtSource").getD now), rawOrNil (sdu.lookup "timeTagAtSourceOk"))
    else (.dateTime now, .bool false)
  let text := eventNumber pl fd value ++ arrow fd value " ↑" " ↓"
  soeEntry fd (.string (fd.str "tag")) (.string text) false now source.1 source.2 1

def convertAnalog (pl : Platform) (now : Int) (fd sdu : Document) (q : Quality)
    (valueAtSource : Double) (txtQualif : String) : Converted :=
  let txtQualif := if txtQualif ≠ "" then " " ++ txtQualif else ""
  let value := scaled pl fd valueAtSource
  let number :=
    if sdu.has "asduAtSource" && hasPrefix (sdu.str "asduAtSource") "M_BO_" then
      Decimal.radix2 value
    else jsFixedString pl value 4
  let valueString := number ++ " " ++ fd.str "unit" ++ txtQualif
  let alarmed := fd.truthy "alarmed"
  let limits :=
    if hasLimits fd then
      let (alarmRange, normal) := limitRange pl fd value
      let alarmed := if normal then false else alarmed
      if rangeChanged fd alarmRange then
        let alarmed := if Double.eq alarmRange (.fin 0) then alarmed else true
        (alarmRange, alarmed, [limitSoe pl now fd value alarmed])
      else (alarmRange, alarmed, [])
    else (.fin 0, alarmed, [])
  let event :=
    if !fd.truthy "alarmDisabled" &&
        ((fd.boolStrict "isEvent" = some true && !q.invalid && valueChanged fd value) ||
          isSOE fd sdu) then
      [eventSoe pl now fd sdu value]
    else []
  { value := value
    valueString := valueString
    invalid := q.invalid
    transient := q.transient
    alarmed := limits.2.1
    alarmRange := limits.1
    soe := limits.2.2 ++ event }

end Analog

-- The conversion for the type of the point.
def convert (pl : Platform) (now : Int) (fd sdu : Document) : Converted :=
  let q := qualityBits sdu
  let source := sdu.num "valueAtSource"
  -- a value that is missing or not a number is zero and invalid; an analog is
  -- nevertheless scaled from what was received
  let valueAtSource := source.getD (.fin 0)
  let missing := source.isNone || valueAtSource.isNaN
  let value := if missing then .fin 0 else valueAtSource
  let q := { q with invalid := q.invalid || missing }
  let txtQualif := qualifier q
  if fd.str "type" = "digital" then convertDigital pl fd sdu q value txtQualif
  else if fd.str "type" = "analog" then convertAnalog pl now fd sdu q valueAtSource txtQualif
  else
    { value := value
      valueString := sdu.str "valueStringAtSource"
      invalid := q.invalid
      transient := q.transient
      alarmed := fd.truthy "alarmed" }

section Update

def sourceTimeTagAtSourceChanged (fd sdu : Document) : Bool :=
  match sdu.timeOf "timeTagAtSource" with
  | none => false
  | some new =>
      match fd.timeOf "timeTagAtSource" with
      | none => true
      | some old => old ≠ new

def invalidChanged (invalid : Bool) (fd : Document) : Bool :=
  fd.boolStrict "invalid" ≠ some invalid

-- Whether realtimeData must be updated.
def changedForUpdate (fd sdu : Document) (c : Converted) : Bool :=
  isSOE fd sdu || sdu.truthy "rangeCheck" ||
    (valueChanged fd c.value &&
      !(!isSOE fd sdu && fd.str "type" = "digital" && fd.boolStrict "isEvent" = some true)) ||
    (fd.str "type" = "string" && c.valueString ≠ fd.str "valueString") ||
    (fd.str "type" = "json" && sdu.str "valueJsonAtSource" ≠ fd.str "valueJson") ||
    sourceTimeTagAtSourceChanged fd sdu || fd.isNull "timeTag" || invalidChanged c.invalid fd

-- A new alarm, a digital change or an event sets the time of the alarm.
def hasAlarmTime (fd sdu : Document) (c : Converted) : Bool :=
  !fd.truthy "alarmDisabled" && c.alarmed &&
    (!fd.truthy "alarmed" || (fd.str "type" = "digital" && valueChanged fd c.value) ||
      (fd.str "type" = "digital" && isSOE fd sdu))

def newBeep (fd sdu : Document) (c : Converted) : Bool :=
  (c.alarmed && isSOE fd sdu && fd.boolStrict "isEvent" = some true && fd.str "type" = "digital" &&
      !Double.eq c.value (.fin 0)) ||
    (c.alarmed && fd.boolStrict "isEvent" = some false && fd.str "type" = "digital") ||
    (c.alarmed && fd.boolStrict "alarmed" = some false)

-- The update of the beep point, for the priorities that beep.
def beepUpdate (now : Int) (fd : Document) : List Effect :=
  let active : Document :=
    [("value", .number (.fin 1)), ("valueString", .string "Beep Active"), ("timeTag", .dateTime now)]
  let group : Document := [("beepGroup1List", rawOrNil (fd.lookup "group1"))]
  match fd.num "priority" with
  | none => []
  | some priority =>
      if Double.eq priority (.fin 0) then
        [.rt { id := .number beepPointKey, set := ("beepType", .number (.fin 2)) :: active,
               addToSet := group }]
      else if Double.le priority lowestPriorityThatBeeps then
        [.rt { id := .number beepPointKey, set := active, addToSet := group }]
      else []

-- The update of the point that counts the digital updates.
def countUpdate (now : Int) (cnt : Nat) : Effect :=
  .rt { id := .number cntUpdatesPointKey
        set := [("value", .number (.fin cnt)),
          ("valueString", .string (Decimal.ecmaString (.fin cnt) ++ " Updates")),
          ("timeTag", .dateTime now)] }

def insertIntoHistorian (pl : Platform) (fd sdu : Document) (value : Double) : Bool :=
  if fd.has "historianPeriod" then
    if Double.lt (fd.numOr "historianPeriod" (.fin 0)) (.fin 0) || sdu.truthy "isNotForHistorical" then
      false
    else if fd.str "type" = "analog" && fd.has "historianDeadBand" then
      match fd.num "historianLastValue" with
      | some last =>
          let band := fd.numOr "historianDeadBand" (.fin 0)
          !(Double.lt (.fin 0) band && Double.lt (Double.sub pl.round value last).abs band.abs)
      | none => true
    else true
  else true

-- The source time that is stored, and whether there is one at all.
def sourceTime (sdu : Document) : Option (Value × Value) :=
  if sdu.has "timeTagAtSource" && !sdu.isNull "timeTagAtSource" then
    some (((sdu.timeOf "timeTagAtSource").map Value.dateTime).getD .null,
      ((sdu.boolStrict "timeTagAtSourceOk").map Value.bool).getD .null)
  else none

def updatesCnt (pl : Platform) (fd : Document) : Double :=
  Double.add pl.round (fd.numOr "updatesCnt" .nan) (.fin 1)

-- The `$set` of the point's own document.
def ownSet (pl : Platform) (now : Int) (fd sdu : Document) (c : Converted) : Document :=
  let source := (sourceTime sdu).getD (.null, .null)
  [("value", .number c.value), ("valueString", .string c.valueString),
    ("valueJson", .string (sdu.str "valueJsonAtSource"))] ++
  (if fd.str "type" = "analog" && insertIntoHistorian pl fd sdu c.value then
    [("historianLastValue", .number c.value)] else []) ++
  [("timeTag", .dateTime now), ("overflow", .bool (qualityBits sdu).overflow),
    ("invalid", .bool c.invalid), ("transient", .bool c.transient), ("frozen", .bool false),
    ("timeTagAtSource", source.1), ("timeTagAtSourceOk", source.2),
    ("updatesCnt", .number (updatesCnt pl fd)), ("alarmRange", .number c.alarmRange),
    ("alarmed", .bool (c.alarmed && !fd.truthy "alarmDisabled"))] ++
  (if hasAlarmTime fd sdu c then [("timeTagAlarm", .dateTime now)] else [])

-- A protection event does not store its OFF state.
def suppressed (fd sdu : Document) (value : Double) : Bool :=
  fd.truthy "isEvent" && fd.str "type" = "digital" && Double.eq value (.fin 0) &&
    !sdu.truthy "isHistorical"

end Update

section Historian

-- The decimal part of strconv.ParseFloat accepts `inf` and `nan` words too.
def parseFloatWord (t : List Char) : Bool :=
  let (_, s) := Decimal.sign t
  let lower := String.ofList (s.map Char.toLower)
  lower = "inf" || lower = "infinity" || (String.ofList (t.map Char.toLower) = "nan")

-- Hexadecimal digits with at most one point, then a binary exponent.
def parseFloatHex (t : List Char) : Bool :=
  let (_, s) := Decimal.sign t
  let isHex (c : Char) : Bool := c.isDigit || ('a' ≤ c && c ≤ 'f')
  match s.map Char.toLower with
  | '0' :: 'x' :: s =>
      let whole := s.takeWhile isHex
      let s := s.dropWhile isHex
      let (fraction, s) := match s with
        | '.' :: s => (s.takeWhile isHex, s.dropWhile isHex)
        | s => ([], s)
      match s with
      | 'p' :: s =>
          let (_, ds) := Decimal.sign s
          (whole ≠ [] || fraction ≠ []) && ds ≠ [] && ds.all Char.isDigit
      | _ => false
  | _ => false

-- strconv.ParseFloat succeeds: the text has the form of a number and is in range.
-- Underscores are accepted with a base prefix only, and then not by this caller.
def parseFloatOk (t : List Char) : Bool :=
  parseFloatWord t || parseFloatHex t ||
    match Decimal.parse t with
    | some (_, d) => (Double.round d.value).isFinite
    | none => false

-- strconv.ParseUint in a given base succeeds.
def parseUintOk (base : Nat) (ds : List Char) : Bool :=
  let digit (c : Char) : Nat :=
    let c := c.toLower
    if c.isDigit then c.toNat - '0'.toNat else if c.isLower then c.toNat - 'a'.toNat + 10 else base
  ds ≠ [] && ds.all (fun c => digit c < base) &&
    ds.foldl (fun n c => n * base + digit c) 0 < 2 ^ 64

def jsIsNaNString (s : List Char) : Bool :=
  let t := trim isSpace s
  if t = [] then false
  else if t = "Infinity".toList ∨ t = "+Infinity".toList ∨ t = "-Infinity".toList then false
  else
    match (t.take 2).map Char.toLower with
    | ['0', 'x'] => if 2 < t.length then !parseUintOk 16 (t.drop 2) else !parseFloatOk t
    | ['0', 'o'] => if 2 < t.length then !parseUintOk 8 (t.drop 2) else !parseFloatOk t
    | ['0', 'b'] => if 2 < t.length then !parseUintOk 2 (t.drop 2) else !parseFloatOk t
    | _ => !parseFloatOk t

-- The JSON column of the sample: what is trimmed off, and the text itself.
def jsonColumn (valueJson : String) : String × String :=
  let vj :=
    if valueJson ≠ "" then replaceQuote (trim isSpace valueJson.toList) else "\"\"".toList
  match vj with
  | [] => ("", "")
  | c :: _ =>
      if c = '\x7b' ∨ c = '[' then ("\"", String.ofList vj)
      else if jsIsNaNString vj && c ≠ '"' then ("", "\"" ++ String.ofList vj ++ "\"")
      else ("", String.ofList vj)

-- The quality flags of the sample, as bits: value invalid, source time invalid,
-- analog, integrity, and four reserved ones.
def histFlags (fd sdu : Document) (invalid : Bool) : String :=
  (if invalid then "1" else "0") ++
    (match sourceTime sdu with
      | some (_, .bool true) => "0"
      | _ => "1") ++
    (if fd.str "type" = "analog" then "1" else "0") ++
    (if sdu.str "causeOfTransmissionAtSource" = "20" then "1" else "0") ++ "0000"

def histSql (fd sdu : Document) (sourceTimeTag : Int) (c : Converted) : String :=
  let column := jsonColumn (sdu.str "valueJsonAtSource")
  let vs := if c.valueString ≠ "" then sqlQuote c.valueString else ""
  let ttas :=
    match sourceTime sdu with
    | some (.dateTime t, _) => "'" ++ jsISODate t ++ "'"
    | _ => "null"
  "'" ++ sqlQuote (fd.str "tag") ++ "'," ++ "'" ++ jsISODate sourceTimeTag ++ "'," ++
    Decimal.ecmaString c.value ++ ",('\x7b\"v\":'||trim('" ++ column.1 ++ "' FROM to_json('" ++
    column.2 ++ "'::text)::jsonb #>> '\x7b\x7d')||',\"s\":'||to_json('" ++ vs ++
    "'::text)||'\x7d'::text)::jsonb," ++ ttas ++ ",B'" ++ histFlags fd sdu c.invalid ++ "'"

def histObj (fd sdu : Document) (sourceTimeTag : Int) (c : Converted) : Document :=
  let value : Value :=
    if fd.str "type" = "string" then .string c.valueString
    else if fd.str "type" = "json" then .string (sdu.str "valueJsonAtSource")
    else .number c.value
  let cot := sdu.str "causeOfTransmissionAtSource"
  [("tag", .string (fd.str "tag")), ("timeTag", .dateTime sourceTimeTag), ("value", value),
    ("invalid", .bool c.invalid)] ++
  (match sourceTime sdu with
    | some (.dateTime t, ok) => [("timeTagAtSource", .dateTime t), ("timeTagAtSourceOk", ok)]
    | some (_, ok) => [("timeTagAtSourceOk", ok)]
    | none => []) ++
  (if cot ≠ "" then [("cot", .string cot)] else [])

-- The mirror row: the document with the new values in place.
def mirrorDocument (pl : Platform) (now : Int) (fd sdu : Document) (c : Converted) : Document :=
  applySet fd [("value", .number c.value), ("valueString", .string c.valueString),
    ("valueJson", .string (sdu.str "valueJsonAtSource")), ("timeTag", .dateTime now),
    ("overflow", .bool (qualityBits sdu).overflow), ("invalid", .bool c.invalid),
    ("transient", .bool c.transient), ("updatesCnt", .number (updatesCnt pl fd)),
    ("alarmed", .bool c.alarmed)]

end Historian

-- 0001-01-01T00:00:00Z, the zero of time.Time.
def zeroTime : Int := -62135596800000

-- The entry of a digital event.
def digitalSoe (now : Int) (fd sdu : Document) (c : Converted) : List Effect :=
  if isSOE fd sdu && fd.str "type" ≠ "analog" && !fd.truthy "alarmDisabled" &&
      !sdu.truthy "isNotForHistorical" && !(Double.eq c.value (.fin 0) && fd.truthy "isEvent") then
    let text := if Double.eq c.value (.fin 0) then "eventTextFalse" else "eventTextTrue"
    [soeEntry fd (.string (fd.str "tag")) (.string (fd.str text)) c.invalid now
      (.dateTime ((sdu.timeOf "timeTagAtSource").getD zeroTime))
      (rawOrNil (sdu.lookup "timeTagAtSourceOk")) 0]
  else []

-- The effects of a source data update on an active node, in their order, and the
-- new count of digital updates.
def processUpdate (pl : Platform) (now : Int) (count : Nat) (fd sdu : Document) :
    List Effect × Nat :=
  let c := convert pl now fd sdu
  let enabled := !fd.truthy "alarmDisabled"
  if changedForUpdate fd sdu c && !sdu.truthy "isHistorical" then
    let beep := if enabled && newBeep fd sdu c then beepUpdate now fd else []
    let counts := enabled && fd.str "type" = "digital"
    let own :=
      if suppressed fd sdu c.value then []
      else [.rt { id := rawOrNil (fd.lookup "_id"), set := ownSet pl now fd sdu c }]
    let hist :=
      if insertIntoHistorian pl fd sdu c.value then
        let sourceTimeTag := (sdu.timeOf "timeTag").getD zeroTime
        [.hist ⟨histSql fd sdu sourceTimeTag c, histObj fd sdu sourceTimeTag c⟩]
      else []
    (c.soe ++ beep ++ (if counts then [countUpdate now (count + 1)] else []) ++ own ++ hist ++
        [.sqlRt (fd.str "tag") (mirrorDocument pl now fd sdu c)] ++ digitalSoe now fd sdu c,
      if counts then count + 1 else count)
  else (c.soe ++ digitalSoe now fd sdu c, count)

-- The handler of a change event.
def handleChange (pl : Platform) (now : Int) (active : Bool) (count : Nat) (ev : ChangeEvent) :
    List Effect × Nat :=
  if ev.operationType = "delete" then ([], count)
  else
    match ev.fullDocument with
    | none => ([], count)
    | some fd =>
        if ev.operationType = "insert" then ([.sqlRt (fd.str "tag") fd], count)
        else if !active then ([], count)
        else
          match ev.updatedFields.bind (·.doc "sourceDataUpdate") with
          | none => ([], count)
          | some sdu => processUpdate pl now count fd sdu

end JsonScada.Processor
