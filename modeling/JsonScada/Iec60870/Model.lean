import JsonScada.Library.Decimal
import JsonScada.Processor.HandleChange

namespace JsonScada.Iec60870

open JsonScada.Library
open JsonScada.Processor (Document Value)

section Platform

-- The integer types that a float64 is converted to.
inductive IntType where
  | int | int32 | uint32 | int16
deriving DecidableEq

def IntType.min : IntType → ℤ
  | int => -2 ^ 63
  | int32 => -2 ^ 31
  | uint32 => 0
  | int16 => -2 ^ 15

def IntType.max : IntType → ℤ
  | int => 2 ^ 63 - 1
  | int32 => 2 ^ 31 - 1
  | uint32 => 2 ^ 32 - 1
  | int16 => 2 ^ 15 - 1

abbrev IntType.Range (t : IntType) : Type := {z : ℤ // t.min ≤ z ∧ z ≤ t.max}

-- The qualifier of a parameter of measured values.
structure ParamQualifier where
  category : UInt8
  isChange : Bool
  isInOperation : Bool
deriving DecidableEq

-- What is left to the platform and the libraries: the rounding of arithmetic, the
-- conversion of a number outside the range of an integer type, the reading of a BSON
-- value as a time, in milliseconds since 1970, that of an octet as a qualifier, and that
-- of a raw normalized value as a number.
structure Platform where
  round : ℚ → Double
  outOfRange : (t : IntType) → Double → t.Range
  decodeTime : Value → Option ℤ
  parseQualifierOfParamMV : UInt8 → ParamQualifier
  normalFloat : ℤ → Double

-- `int(x)` and its like: towards zero, as long as the result is in range.
def Platform.toInt (pl : Platform) (t : IntType) (x : Double) : t.Range :=
  if h : x.isFinite = true ∧ t.min ≤ x.toInt ∧ x.toInt ≤ t.max then ⟨x.toInt, h.2⟩
  else pl.outOfRange t x

theorem Platform.toInt_of_mem {pl : Platform} {t : IntType} {q : ℚ}
    (h : t.min ≤ Double.toInt (.fin q) ∧ Double.toInt (.fin q) ≤ t.max) :
    (pl.toInt t (.fin q)).1 = Double.toInt (.fin q) := by
  rw [Platform.toInt, dif_pos ⟨rfl, h⟩]

theorem Platform.toInt_intCast {pl : Platform} {t : IntType} {z : ℤ}
    (h : t.min ≤ z ∧ z ≤ t.max) : (pl.toInt t (.fin z)).1 = z := by
  have htoInt : Double.toInt (.fin z) = z := by simp [Double.toInt]
  rw [toInt_of_mem (by rwa [htoInt]), htoInt]

-- A platform that rounds nothing and whose open conversions give zero.
def plainPlatform : Platform where
  round := .fin
  outOfRange := fun t _ => ⟨0, by cases t <;> decide⟩
  decodeTime := fun
    | .dateTime ms => some ms
    | _ => none
  parseQualifierOfParamMV := fun b => { category := b, isChange := false, isInOperation := false }
  normalFloat := fun v => .fin (v / 32768)

end Platform

section U32

def u32FromFloat (f : Double) : UInt32 :=
  if f.isNaN || Double.le f (.fin 0) then 0
  else if Double.le (.fin (2 ^ 32 - 1)) f then 0xffffffff
  else UInt32.ofNat f.toInt.toNat

-- Decimal integers, floating-point texts and surrounding white space are accepted.
def parseU32 (s : String) : UInt32 :=
  let s := Processor.trim Processor.isSpace s.toList
  if s = [] then 0
  else
    match Strconv.parseUint s with
    | some n => u32FromFloat (Double.round n)
    | none =>
        match Strconv.parseFloat s with
        | some f => u32FromFloat f
        | none => 0

-- An address-like field: whatever cannot be read as a number is zero.
def unmarshalU32 : Value → UInt32
  | .string s => parseU32 s
  | .bool b => if b then 1 else 0
  | .number x => u32FromFloat x
  | _ => 0

end U32

section Fields

variable (d : Document) (key : String)

-- How the driver decodes a field of a document: a missing one or null is zero, and none
-- is an error, which fails the decoding of the whole document.

def floatField : Option Double :=
  match d.lookup key with
  | none | some .null => some (.fin 0)
  | some (.number x) => some x
  | some (.bool b) => some (if b then .fin 1 else .fin 0)
  | _ => none

def boolField : Option Bool :=
  match d.lookup key with
  | none | some .null => some false
  | some (.bool b) => some b
  | some (.number x) => some (!Double.eq x (.fin 0))
  | _ => none

def stringField : Option String :=
  match d.lookup key with
  | none | some .null => some ""
  | some (.string s) => some s
  | _ => none

def u32Field : UInt32 :=
  match d.lookup key with
  | none => 0
  | some v => unmarshalU32 v

def timeField (pl : Platform) : Option (Option ℤ) :=
  match d.lookup key with
  | none | some .null => some none
  | some v => (pl.decodeTime v).map some

end Fields

section Documents

-- One entry of realtimeData.protocolDestinations.
structure ProtocolDestination where
  connectionNumber : Double := .fin 0
  commonAddress : UInt32 := 0
  objectAddress : UInt32 := 0
  asdu : UInt32 := 0
  commandDuration : Double := .fin 0
  commandUseSBO : Bool := false
  group : Double := .fin 0
  kconv1 : Double := .fin 0
  kconv2 : Double := .fin 0
  hoursShift : Double := .fin 0
deriving DecidableEq

def decodeDestination : Value → Option ProtocolDestination
  | .null => some {}
  | .document d => do
      some
        { connectionNumber := ← floatField d "protocolDestinationConnectionNumber"
          commonAddress := u32Field d "protocolDestinationCommonAddress"
          objectAddress := u32Field d "protocolDestinationObjectAddress"
          asdu := u32Field d "protocolDestinationASDU"
          commandDuration := ← floatField d "protocolDestinationCommandDuration"
          commandUseSBO := ← boolField d "protocolDestinationCommandUseSBO"
          group := ← floatField d "protocolDestinationGroup"
          kconv1 := ← floatField d "protocolDestinationKConv1"
          kconv2 := ← floatField d "protocolDestinationKConv2"
          hoursShift := ← floatField d "protocolDestinationHoursShift" }
  | _ => none

-- The projection of a realtimeData document that the servers need.
structure RtDataPoint where
  id : Double
  tag : String
  value : Double
  valueString : String
  invalid : Bool
  transient : Bool
  substituted : Bool
  overflow : Bool
  origin : String
  type : String
  timeTagAtSource : Option ℤ
  timeTagAtSourceOk : Bool
  kconv1 : Double
  kconv2 : Double
  protocolSourceConnectionNumber : Double
  protocolSourceCommonAddress : UInt32
  protocolSourceObjectAddress : UInt32
  protocolSourceASDU : UInt32
  protocolSourceCommandDuration : Double
  protocolSourceCommandUseSBO : Bool
  protocolDestinations : List ProtocolDestination
deriving DecidableEq

def decodeDestinations (d : Document) : Option (List ProtocolDestination) :=
  match d.lookup "protocolDestinations" with
  | none | some .null => some []
  | some (.array items) => items.mapM decodeDestination
  | _ => none

def decodePoint (pl : Platform) (d : Document) : Option RtDataPoint := do
  some
    { id := ← floatField d "_id"
      tag := ← stringField d "tag"
      value := ← floatField d "value"
      valueString := ← stringField d "valueString"
      invalid := ← boolField d "invalid"
      transient := ← boolField d "transient"
      substituted := ← boolField d "substituted"
      overflow := ← boolField d "overflow"
      origin := ← stringField d "origin"
      type := ← stringField d "type"
      timeTagAtSource := ← timeField d "timeTagAtSource" pl
      timeTagAtSourceOk := ← boolField d "timeTagAtSourceOk"
      kconv1 := ← floatField d "kconv1"
      kconv2 := ← floatField d "kconv2"
      protocolSourceConnectionNumber := ← floatField d "protocolSourceConnectionNumber"
      protocolSourceCommonAddress := u32Field d "protocolSourceCommonAddress"
      protocolSourceObjectAddress := u32Field d "protocolSourceObjectAddress"
      protocolSourceASDU := u32Field d "protocolSourceASDU"
      protocolSourceCommandDuration := ← floatField d "protocolSourceCommandDuration"
      protocolSourceCommandUseSBO := ← boolField d "protocolSourceCommandUseSBO"
      protocolDestinations := ← decodeDestinations d }

end Documents

section Query

-- A condition on one field, which an array meets by any of its elements.
def fieldMatches (p : Value → Bool) : Option Value → Bool
  | some (.array items) => items.any p
  | some v => p v
  | none => false

-- A condition on `path.field`: where the path leads to an array, any element may meet it,
-- and another condition another element.
def dottedMatches (d : Document) (path field : String) (p : Value → Bool) : Bool :=
  match d.lookup path with
  | some (.document e) => fieldMatches p (e.lookup field)
  | some (.array items) =>
      items.any fun v =>
        match v with
        | .document e => fieldMatches p (e.lookup field)
        | _ => false
  | _ => false

def equals (x : Double) : Value → Bool
  | .number y => Double.eq y x
  | _ => false

-- An address may be stored as a number or as its decimal text.
def addrMatch (v : ℤ) : Value → Bool
  | .number y => Double.eq y (.fin v)
  | .string s => s = toString v
  | _ => false

end Query

end JsonScada.Iec60870
