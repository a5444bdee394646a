import JsonScada.Iec60870.Model
import JsonScada.Iec61850.Client
import JsonScada.Library.Calendar
import JsonScada.Library.FloatFormat

-- MMS values: what the client reads of them as numbers and as texts.
namespace JsonScada.Iec61850.Client

open JsonScada.Library

section Values

-- A value that is not made of others. Times are in nanoseconds since 1970.
inductive Leaf where
  | boolean (b : Bool)
  | integer (z : ℤ)
  | unsigned (n : ℕ)
  | float32 (x : Double)
  | float64 (x : Double)
  | visibleString (s : String)
  | mmsString (s : String)
  | bitString (bits : List Bool)
  | octetString (bytes : List UInt8)
  | utcTime (ns : ℤ)
  | binaryTime (ns : ℤ)
  | dataAccessError (code : Option String) (text : String)
  | generalizedTime (text : String)
  -- a type that the client knows nothing of
  | other (text : String)

-- A member may be missing, as a nil pointer is.
inductive Mms where
  | missing
  | leaf (l : Leaf)
  | structure (members : List Mms)
  | array (items : List Mms)

def Mms.typeName : Mms → String
  | .array _ => "MMS_ARRAY"
  | .structure _ => "MMS_STRUCTURE"
  | .leaf (.boolean _) => "MMS_BOOLEAN"
  | .leaf (.bitString _) => "MMS_BIT_STRING"
  | .leaf (.integer _) => "MMS_INTEGER"
  | .leaf (.unsigned _) => "MMS_UNSIGNED"
  | .leaf (.float32 _) | .leaf (.float64 _) => "MMS_FLOAT"
  | .leaf (.octetString _) => "MMS_OCTET_STRING"
  | .leaf (.visibleString _) => "MMS_VISIBLE_STRING"
  | .leaf (.generalizedTime _) => "MMS_GENERALIZED_TIME"
  | .leaf (.binaryTime _) => "MMS_BINARY_TIME"
  | .leaf (.mmsString _) => "MMS_STRING"
  | .leaf (.utcTime _) => "MMS_UTC_TIME"
  | _ => "MMS_DATA_ACCESS_ERROR"

end Values

section Bits

-- The first bit is the most significant.
def bitStringToUint32BE (bits : List Bool) : BitVec 32 :=
  bits.zipIdx.foldl (fun out (bit, i) =>
    if bit then out ||| 1#32 <<< (bits.length - 1 - i) else out) 0#32

def bitStringAsString (bits : List Bool) : String :=
  String.ofList (bits.map fun bit => if bit then '1' else '0')

def mmsTestDoubleStateFailed : Mms → Bool
  | .leaf (.bitString [a, b]) => a = b
  | _ => false

def mmsTestDoubleStateTransient : Mms → Bool
  | .leaf (.bitString [a, b]) => !a && !b
  | _ => false

-- The position of a double point.
def doubleStateValue (bits : List Bool) : Double :=
  if bitStringAsString bits = "10" ∨ bitStringAsString bits = "11" then .fin 1 else .fin 0

-- The bits go out from the least significant one on.
def setBitsFromUint32 : ℕ → BitVec 32 → List Bool
  | 0, _ => []
  | n + 1, v => decide (v &&& 1#32 = 1#32) :: setBitsFromUint32 n (v >>> 1)

end Bits

section Numbers

-- `time.Time{}`, the first of January of the year 1
def zeroTime : ℤ := -62135596800000000000

def utcMillis (ns : ℤ) : ℕ := if ns = zeroTime then 0 else (ns / 1000000).toNat

def bitStringValue (bits : List Bool) : Double × Bool :=
  if bits.length = 2 then (doubleStateValue bits, true)
  else (.fin (bitStringToUint32BE bits).toNat, false)

def boolValue (b : Bool) : Double × Bool := (.fin (if b then 1 else 0), true)

def unsignedValue (n : ℕ) : Double := .fin (n % 2 ^ 32 : ℕ)

-- What tells the state of a structure comes before its numbers.
def stateOf : Mms → Option (Double × Bool)
  | .leaf (.boolean b) => some (boolValue b)
  | .leaf (.bitString bits) =>
      if bits.length = 2 then some (doubleStateValue bits, true) else none
  | _ => none

def numberOf : Mms → Option (Double × Bool)
  | .leaf (.float32 x) | .leaf (.float64 x) => some (x, false)
  | .leaf (.integer z) => some (Double.round z, false)
  | .leaf (.unsigned n) => some (unsignedValue n, false)
  | _ => none

def mmsGetNumericVal : Mms → Double × Bool
  | .structure [] => (.fin 0, false)
  | .structure (m :: ms) =>
      match (m :: ms).findSome? stateOf, (m :: ms).findSome? numberOf with
      | some state, _ => state
      | none, some number => number
      | none, none => mmsGetNumericVal m
  | .leaf (.boolean b) => boolValue b
  | .leaf (.bitString bits) => bitStringValue bits
  | m => (numberOf m).getD (.fin 0, false)

def mmsGetDoubleVal : Mms → Double × Bool
  | .structure ms => mmsGetNumericVal (.structure ms)
  | .leaf (.bitString bits) => bitStringValue bits
  | .leaf (.boolean b) => boolValue b
  | .leaf (.octetString (b :: _)) => (.fin b.toNat, false)
  | .leaf (.utcTime ns) => (Double.round (utcMillis ns), false)
  | .array (m :: _) => mmsGetNumericVal m
  | m => (numberOf m).getD (.fin 0, false)

end Numbers

section Texts

def formatDouble : Double → String
  | .nan => "NaN"
  | .inf false => "Infinity"
  | .inf true => "-Infinity"
  | x => Strconv.formatFloat 'E' x

-- `Format("1/2/2006 3:04:05 PM -07:00")` in UTC
def timeText (ns : ℤ) : String :=
  let second := ns / 1000000000
  let day := second / 86400
  let y := Calendar.year day
  let (month, dayOfMonth) :=
    Calendar.monthDay 1 (Calendar.monthLengths (Calendar.isLeap y)) (day - Calendar.firstDay y).toNat
  let time := (second % 86400).toNat
  let hour := time / 3600
  let hour12 := if hour % 12 = 0 then 12 else hour % 12
  let yearText := (if y < 0 then ['-'] else []) ++ Calendar.padded 4 y.natAbs
  String.ofList (Nat.toDigits 10 month ++ '/' :: Nat.toDigits 10 dayOfMonth ++ '/' :: yearText ++
    ' ' :: Nat.toDigits 10 hour12 ++ ':' :: Calendar.padded 2 (time / 60 % 60) ++
    ':' :: Calendar.padded 2 (time % 60) ++ ' ' :: (if hour < 12 then 'A' else 'P') :: 'M' ::
    " +00:00".toList)

def hexOctet (b : UInt8) : String :=
  String.ofList ([b.toNat / 16, b.toNat % 16].map fun d => (Nat.digitChar d).toUpper)

def mmsToString : Leaf → String
  | .visibleString s | .mmsString s => s
  | .boolean b => if b then "True" else "False"
  | .integer z => toString z
  | .unsigned n => toString (n % 2 ^ 32)
  | .float32 x | .float64 x => formatDouble x
  | .utcTime ns | .binaryTime ns => if ns = zeroTime then "" else timeText ns
  | .octetString bytes => "-".intercalate (bytes.map hexOctet)
  | .bitString bits => bitStringAsString bits
  | .dataAccessError code text => code.getD text
  | .generalizedTime text | .other text => text

-- `\u00` and two digits
def controlEscape (r : Char) : List Char :=
  '\\' :: 'u' :: '0' :: '0' :: [r.toNat / 16, r.toNat % 16].map Nat.digitChar

def quoteChar (r : Char) : List Char :=
  if r = '"' then ['\\', '"']
  else if r = '\\' then ['\\', '\\']
  else if r = '\n' then ['\\', 'n']
  else if r = '\r' then ['\\', 'r']
  else if r = '\t' then ['\\', 't']
  else if r.toNat < 0x20 then controlEscape r
  else [r]

def quoteJSON (s : String) : List Char := '"' :: (s.toList.flatMap quoteChar ++ ['"'])

mutual

-- A container of one member is written as its member.
def mmsGetStringValue : Mms → List Char
  | .missing => quoteJSON ""
  | .leaf l => quoteJSON (mmsToString l)
  | .structure [m] | .array [m] => mmsGetStringValue m
  | .structure ms | .array ms => '[' :: ([','].intercalate (stringValues ms) ++ [']'])

def stringValues : List Mms → List (List Char)
  | [] => []
  | m :: ms => mmsGetStringValue m :: stringValues ms

end

end Texts

section Publishing

-- What is read of a value that is not a structure.
def extractSimple (v : Mms) : Extraction :=
  let (value, isDigital) := mmsGetDoubleVal v
  { isDigital := isDigital
    isTransient := mmsTestDoubleStateTransient v
    value := value
    valueString :=
      if isDigital then if Double.eq value (.fin 0) then "false" else "true" else formatDouble value
    valueJSON := String.ofList (mmsGetStringValue v)
    asdu := v.typeName
    failed := mmsTestDoubleStateFailed v
    isStructure := false
    timestamp := 0 }

end Publishing

end JsonScada.Iec61850.Client
