import JsonScada.Library.FloatFormat
import JsonScada.Library.Json
import JsonScada.Library.Outcome
import JsonScada.Library.Rfc3339
import JsonScada.Processor.HandleChange

-- What the client writes for a command: the command's number or text as a value of the node's type.
namespace JsonScada.OpcUa.Client

open JsonScada.Library

section Values

inductive UaType where
  | boolean
  | int (signed : Bool) (bits : ℕ)
  | float
  | double
  | dateTime
  | text
deriving DecidableEq

inductive UaScalar where
  | boolean (b : Bool)
  | int (signed : Bool) (bits : ℕ) (z : ℤ)
  | float (x : Double)
  | double (x : Double)
  -- in nanoseconds since 1970
  | dateTime (ns : ℤ)
  | text (s : String)
deriving DecidableEq

inductive UaValue where
  | scalar (v : UaScalar)
  | array (type : UaType) (items : List UaScalar)
deriving DecidableEq

-- What is used of other packages: variants, strings.ToLower, and the texts of errors (of a
-- float64 with `%v`, and those of time.Parse).
structure VariantRuntime where
  Variant : Type
  newVariant : UaValue → Except String Variant
  valueOf : Variant → UaValue
  toLower : String → String
  formatV : Double → String
  timeError : String → String

-- A variant, the reason of a cancellation, an error, or none of them.
inductive Conversion (V : Type) where
  | variant (v : V)
  | reason (r : String)
  | error (e : String)
  | unsupported
deriving DecidableEq

end Values

variable (rt : VariantRuntime)

section Scalars

def minUnixMilli : ℤ := -62135596800000

def maxUnixMilli : ℤ := 253402300799999

def roundChecked (v : Double) (lo hiExcl : ℤ) (typ : String) : Except String ℤ :=
  match v with
  | .fin q =>
      let r := Double.roundEven q
      if r < lo ∨ hiExcl ≤ r then .error (rt.formatV v ++ " is out of range for " ++ typ) else .ok r
  | _ => .error (rt.formatV v ++ " cannot be written as " ++ typ)

def toInteger (signed : Bool) (bits : ℕ) (v : Double) (typ : String) (lo hiExcl : ℤ) :
    Except String UaScalar :=
  (roundChecked rt v lo hiExcl typ).map (.int signed bits)

def toFloat32 (v : Double) : Except String UaScalar :=
  let f := FloatFormat.single.convert v
  if f.isInf && !v.isInf then .error (rt.formatV v ++ " is out of range for Float")
  else .ok (.float f)

def toDateTime (v : Double) : Except String UaScalar :=
  (roundChecked rt v (-2 ^ 63) (2 ^ 63) "DateTime").bind fun ms =>
    if ms < minUnixMilli ∨ maxUnixMilli < ms then
      .error (rt.formatV v ++ " is out of range for DateTime")
    else .ok (.dateTime (ms * 1000000))

def converted (x : Except String UaValue) : Conversion rt.Variant :=
  match x.bind rt.newVariant with
  | .ok v => .variant v
  | .error e => .error e

def variantOf (x : Except String UaScalar) : Conversion rt.Variant := converted rt (x.map .scalar)

end Scalars

section Arrays

def maxNestingDepth : ℕ := 10000

-- The items of a JSON array. Neither null nor anything after the array is one.
def decodeJSONArray (valueString : String) : Option (List Json) :=
  match Json.decode (fun depth => depth ≤ maxNestingDepth) valueString.toList with
  | some (.array items) => some items
  | _ => none

-- `%T` of an element
def typeText : Json → String
  | .null => "<nil>"
  | .bool _ => "bool"
  | .number _ => "json.Number"
  | .string _ => "string"
  | .array _ => "[]interface \x7b\x7d"
  | .object _ => "map[string]interface \x7b\x7d"

def element (i : ℕ) : String := "element " ++ toString i ++ " of the array "

def jsonNumber (el : Json) (i : ℕ) : Except String (List Char) :=
  match el with
  | .number text => .ok text
  | _ => .error (element i ++ "is " ++ typeText el ++ ", not a number")

-- `strconv.ParseInt(s, 10, bits)`
def parseInt (bits : ℕ) (s : List Char) : Option ℤ :=
  let (negative, ds) := Decimal.sign s
  let n := Decimal.digitsValue ds
  if ds = [] ∨ ds.all Char.isDigit = false then none
  else if negative then if n ≤ 2 ^ (bits - 1) then some (-n) else none
  else if n < 2 ^ (bits - 1) then some n else none

-- `strconv.ParseUint(s, 10, bits)`
def parseUint (bits : ℕ) (s : List Char) : Option ℤ :=
  let n := Decimal.digitsValue s
  if s = [] ∨ s.all Char.isDigit = false then none else if n < 2 ^ bits then some n else none

-- The number that a JSON literal names.
def literal (s : List Char) : Option ℚ :=
  (Decimal.parse s).map fun (negative, d) => if negative then -d.value else d.value

-- `strconv.ParseFloat` of a JSON literal, which refuses what is out of range.
def parseFloat (round : ℚ → Double) (s : List Char) : Option Double :=
  match (literal s).map round with
  | some (.fin q) => some (.fin q)
  | _ => none

def integerElement (signed : Bool) (bits : ℕ) (typ : String) (i : ℕ) (el : Json) :
    Except String UaScalar :=
  (jsonNumber el i).bind fun s =>
    match if signed then parseInt bits s else parseUint bits s with
    | some n => .ok (.int signed bits n)
    | none => .error (element i ++ "(" ++ String.ofList s ++ ") is not a valid " ++ typ)

def floatElement (round : ℚ → Double) (make : Double → UaScalar) (typ : String) (i : ℕ)
    (el : Json) : Except String UaScalar :=
  (jsonNumber el i).bind fun s =>
    match parseFloat round s with
    | some f => .ok (make f)
    | none => .error (element i ++ "(" ++ String.ofList s ++ ") is out of range for " ++ typ)

def textElement (i : ℕ) (el : Json) (typ : String) : Except String String :=
  match el with
  | .string units => .ok (String.ofList (Utf16.decode units))
  | _ => .error (element i ++ "is " ++ typeText el ++ ", not a " ++ typ)

def booleanElement (i : ℕ) (el : Json) : Except String UaScalar :=
  match el with
  | .bool b => .ok (.boolean b)
  | _ => .error (element i ++ "is " ++ typeText el ++ ", not a boolean")

def dateTimeElement (i : ℕ) (el : Json) : Except String UaScalar :=
  (textElement i el "timestamp").bind fun s =>
    match Rfc3339.parse s.toList with
    | some ns => .ok (.dateTime ns)
    | none => .error (rt.timeError s)

-- The first element that cannot be converted ends the conversion.
def elements (convert : ℕ → Json → Except String UaScalar) (raw : List Json) :
    Except String (List UaScalar) :=
  raw.zipIdx.mapM fun (el, i) => convert i el

def arrayOf (type : UaType) (convert : ℕ → Json → Except String UaScalar) (raw : List Json) :
    Conversion rt.Variant :=
  converted rt ((elements convert raw).map (.array type))

def signedArray (bits : ℕ) (typ : String) (raw : List Json) : Conversion rt.Variant :=
  arrayOf rt (.int true bits) (integerElement true bits typ) raw

def unsignedArray (bits : ℕ) (typ : String) (raw : List Json) : Conversion rt.Variant :=
  arrayOf rt (.int false bits) (integerElement false bits typ) raw

def elemType (asdu : String) : String :=
  rt.toLower (String.ofList (Processor.trim Processor.isSpace (asdu.toList.takeWhile (· ≠ '['))))

def arrayVariant (asdu valueString : String) : Conversion rt.Variant :=
  if valueString = "" then .reason "empty array json error"
  else
    match decodeJSONArray valueString with
    | none => .reason "array invalid json format error"
    | some raw =>
        match elemType rt asdu with
        | "datetime" => arrayOf rt .dateTime (dateTimeElement rt) raw
        | "int16" => signedArray rt 16 "Int16" raw
        | "uint16" => unsignedArray rt 16 "UInt16" raw
        | "int32" | "integer" => signedArray rt 32 "Int32" raw
        | "uint32" => unsignedArray rt 32 "UInt32" raw
        | "int64" => signedArray rt 64 "Int64" raw
        | "uint64" => unsignedArray rt 64 "UInt64" raw
        | "float" => arrayOf rt .float (floatElement FloatFormat.single.round .float "Float") raw
        | "double" => arrayOf rt .double (floatElement Double.round .double "Double") raw
        | "boolean" => arrayOf rt .boolean booleanElement raw
        | "string" | "bytestring" | "localizedtext" | "qualifiedname" | "nodeid" | "guid"
        | "expandednodeid" | "xmlelement" =>
            arrayOf rt .text (fun i el => (textElement i el "string").map .text) raw
        | elemType => .error ("unsupported array type: " ++ elemType)

end Arrays

section Commands

def typeName (asdu : String) : String :=
  rt.toLower (String.ofList (Processor.trim Processor.isSpace asdu.toList))

def commandVariant (asdu : String) (value : Double) (valueString : String) :
    Conversion rt.Variant :=
  if asdu.toList.count '[' = 1 then arrayVariant rt asdu valueString
  else
    match typeName rt asdu with
    | "boolean" => variantOf rt (.ok (.boolean (!Double.eq value (.fin 0))))
    | "sbyte" => variantOf rt (toInteger rt true 8 value "SByte" (-128) 128)
    | "byte" => variantOf rt (toInteger rt false 8 value "Byte" 0 256)
    | "int16" => variantOf rt (toInteger rt true 16 value "Int16" (-32768) 32768)
    | "uint16" => variantOf rt (toInteger rt false 16 value "UInt16" 0 65536)
    | "integer" | "int32" =>
        variantOf rt (toInteger rt true 32 value "Int32" (-2147483648) 2147483648)
    | "uint32" => variantOf rt (toInteger rt false 32 value "UInt32" 0 4294967296)
    | "int64" =>
        variantOf rt
          (toInteger rt true 64 value "Int64" (-9223372036854775808) 9223372036854775808)
    | "uint64" => variantOf rt (toInteger rt false 64 value "UInt64" 0 18446744073709551616)
    | "float" => variantOf rt (toFloat32 rt value)
    | "double" => variantOf rt (.ok (.double value))
    | "datetime" => variantOf rt (toDateTime rt value)
    | "string" | "bytestring" | "localizedtext" | "qualifiedname" | "nodeid" | "guid"
    | "expandednodeid" | "xmlelement" => variantOf rt (.ok (.text valueString))
    | "extensionobject" | "numericrange" | "variant" | "diagnosticinfo" | "datavalue" =>
        .error ("writing complex type '" ++ asdu ++ "' is not supported")
    | _ => .unsupported

end Commands

end JsonScada.OpcUa.Client
