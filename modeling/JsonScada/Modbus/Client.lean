import JsonScada.Modbus.Codec
import JsonScada.Processor.Bson

namespace JsonScada.Modbus

open JsonScada.Library

-- What the Go runtime decides: the rounding of float64 arithmetic, and the
-- text fmt.Sprint gives a BSON value that is no string, boolean or number.
structure Runtime where
  round : ℚ → Double
  sprint : Processor.Value → String

section Values

-- JavaScript's Number(v) of a BSON value.
def jsNumber : Processor.Value → Double
  | .null => .fin 0
  | .string s => (jsNumberFromString s).toDouble
  | .bool b => .fin (if b then 1 else 0)
  | .number x => x
  | _ => .nan

def toNum (v : Option Processor.Value) (default : Double) : Double :=
  match v with
  | none | some .null | some (.string "") => default
  | some v => if (jsNumber v).isFinite then jsNumber v else default

-- drv.JSNumber of a field that may be missing
def jsNumberField (v : Option Processor.Value) : Double := (v.map jsNumber).getD .nan

-- `value != 0`, which a NaN passes
def nonZero (x : Double) : Bool := !Double.eq x (.fin 0)

variable (rt : Runtime)

def anyString : Processor.Value → String
  | .null => "null"
  | .string s => s
  | .bool b => if b then "true" else "false"
  | .number x => jsNumberString x
  | v => rt.sprint v

def anyStr : Processor.Value → String
  | .null => ""
  | v => anyString rt v

end Values

open JsonScada.Processor (Document rawOrNil)

inductive Area where
  | coil | discrete | holding | input
  deriving DecidableEq, Repr

def isBitArea (a : Area) : Bool := a = .coil || a = .discrete

structure Asdu where
  type : ValueType
  byteOrder : String
  perm : Perm
  str : Option StringOptions := none

-- strings.ToLower of a byte order that was parsed, which is ASCII.
def lower (s : String) : String := String.ofList (s.toList.map Char.toLower)

-- The asduAtSource text.
def Asdu.label (a : Asdu) : String :=
  if a.byteOrder = "" then a.type.name else a.type.name ++ "_" ++ lower a.byteOrder

-- One supervised tag bound to the connection.
structure Binding where
  id : Processor.Value
  tag : String
  area : Area
  bit : Option Nat
  asdu : Asdu
  kconv1 : Double
  kconv2 : Double

-- What a tag's document supplies, once its address and ASDU are parsed.
def buildBinding (doc : Document) (area : Area) (bit : Option Nat) (asdu : Asdu) : Binding where
  id := rawOrNil (doc.lookup "_id")
  tag := doc.str "tag"
  area := area
  bit := bit
  asdu := asdu
  kconv1 := toNum (doc.lookup "kconv1") (.fin 1)
  kconv2 := toNum (doc.lookup "kconv2") (.fin 0)

-- `relStart` is in registers for register areas and in bits for bit areas.
structure Slice where
  b : Binding
  relStart : Nat

-- One realtimeData update: a `$set` on the document with this _id.
structure RtOp where
  id : Processor.Value
  set : Document

-- A decoded value. A scaled number is apart, its arithmetic is the platform's.
inductive TagValue where
  | scaled (x : Double)
  | plain (v : Value)

def TagValue.float : TagValue → Double
  | .scaled x => x
  | .plain v => v.float.toDouble

def TagValue.string : TagValue → String
  | .scaled x => jsNumberString x
  | .plain v => v.string

-- What is sent as the value: nothing but zero for a text.
def TagValue.atSource : TagValue → Double
  | .plain (.str _) => .fin 0
  | v => v.float

structure TagUpdate where
  id : Processor.Value
  value : TagValue
  json : Option (List Nat) := none
  asduLabel : String
  invalid : Bool := false
  cot : String

section Updater

variable (now : Int) (connNumber : Double)

def originator : String := "MODBUS|" ++ jsNumberString connNumber

def sourceDataUpdate (t : TagUpdate) : Document :=
  let vjson : Processor.Value :=
    match t.json with
    | some bits => .array (bits.map fun b => .number (.fin b))
    | none => .null
  [("valueAtSource", .number t.value.atSource), ("valueStringAtSource", .string t.value.string),
    ("asduAtSource", .string t.asduLabel), ("causeOfTransmissionAtSource", .string t.cot),
    ("timeTagAtSource", .null), ("timeTagAtSourceOk", .bool false), ("timeTag", .dateTime now),
    ("notTopicalAtSource", .bool false), ("invalidAtSource", .bool t.invalid),
    ("overflowAtSource", .bool false), ("blockedAtSource", .bool false),
    ("substitutedAtSource", .bool false), ("valueJsonAtSource", vjson),
    ("transientAtSource", .bool false), ("originator", .string (originator connNumber))]

def queue (t : TagUpdate) : RtOp :=
  { id := t.id, set := [("sourceDataUpdate", .document (sourceDataUpdate now connNumber t))] }

-- Marks a tag invalid: link down, a failed block read.
def queueInvalid (id : Processor.Value) : RtOp :=
  { id := id
    set := [("sourceDataUpdate.invalidAtSource", .bool true),
      ("sourceDataUpdate.timeTag", .dateTime now),
      ("sourceDataUpdate.originator", .string (originator connNumber))] }

end Updater

section Decode

variable (round : ℚ → Double)

-- Bit `i` of the packed bits of a block.
def bitAt (raw : Bytes) (i : Nat) : Nat := (raw.getD (i / 8) 0).toNat / 2 ^ (i % 8) % 2

-- The value of a tag in the bytes of its block.
def decodeTag (s : Slice) (raw : Bytes) : Except CodecError (TagValue × Bool × Option (List Nat)) :=
  let bd := s.b
  if isBitArea bd.area then
    let bit := bitAt raw s.relStart
    .ok (.plain (.bool (if Double.eq bd.kconv1 (.fin (-1)) then bit = 0 else bit = 1)), false, none)
  else
    match bd.bit with
    | some bit => do
        let dec ← decode .uint16 raw s.relStart bd.asdu.perm none
        let word :=
          match dec.value with
          | .num f => f.toDouble.toInt.toNat
          | _ => 0
        .ok (.plain (.bool (word / 2 ^ bit % 2 = 1)), false, none)
    | none => do
        let dec ← decode bd.asdu.type raw s.relStart bd.asdu.perm bd.asdu.str
        let v :=
          match dec.value with
          | .num f =>
              if bd.asdu.type = .string then .plain dec.value
              else .scaled (Double.add round (Double.mul round f.toDouble bd.kconv1) bd.kconv2)
          | v => .plain v
        .ok (v, dec.invalid, dec.json)

def decodeAndQueue (now : Int) (connNumber : Double) (slices : List Slice) (raw : Bytes)
    (isGi : Bool) : List RtOp :=
  slices.map fun s =>
    match decodeTag round s raw with
    | .error _ => queueInvalid now connNumber s.b.id
    | .ok (v, invalid, json) =>
        queue now connNumber
          { id := s.b.id, value := v, json := json, asduLabel := s.b.asdu.label, invalid := invalid
            cot := if isGi then "20" else "3" }

-- One read request, with its poll state.
structure Block where
  slices : List Slice
  lastRaw : Option Bytes := none
  invalidPublished : Bool := false

-- A read of the block: the bytes, or none when it failed while the client is running.
def readBlock (now : Int) (connNumber : Double) (b : Block) (read : Option Bytes) (isGi : Bool) :
    Block × List RtOp :=
  match read with
  | none =>
      if b.invalidPublished then (b, [])
      else
        ({ b with invalidPublished := true, lastRaw := none },
          b.slices.map fun s => queueInvalid now connNumber s.b.id)
  | some raw =>
      let b := { b with invalidPublished := false }
      if b.lastRaw ≠ some raw || isGi then
        ({ b with lastRaw := some raw }, decodeAndQueue round now connNumber b.slices raw isGi)
      else (b, [])

end Decode

end JsonScada.Modbus
