import Mathlib.Data.BitVec
import JsonScada.Library.Decimal
import JsonScada.Library.Positional
import JsonScada.Modbus.ByteOrder

namespace JsonScada.Modbus

open JsonScada.Library

inductive ValueType where
  | bool | int16 | uint16 | int32 | uint32 | int64 | uint64 | float32 | float64 | bcd16 | bcd32
  | bitstring16 | string
  -- any other text in a tag's configuration
  | other (name : String)
  deriving DecidableEq, Repr

def ValueType.name : ValueType → String
  | bool => "bool"
  | int16 => "int16"
  | uint16 => "uint16"
  | int32 => "int32"
  | uint32 => "uint32"
  | int64 => "int64"
  | uint64 => "uint64"
  | float32 => "float32"
  | float64 => "float64"
  | bcd16 => "bcd16"
  | bcd32 => "bcd32"
  | bitstring16 => "bitstring16"
  | string => "string"
  | other name => name

def typeBytes : ValueType → Option Nat
  | .int16 | .uint16 | .bcd16 | .bitstring16 => some 2
  | .int32 | .uint32 | .bcd32 | .float32 => some 4
  | .int64 | .uint64 | .float64 => some 8
  | _ => none

inductive Encoding where
  | latin1 | utf8 | ascii
  deriving DecidableEq, Repr

inductive RegOrder where
  | AB | BA
  deriving DecidableEq, Repr

structure StringOptions where
  bytes : Nat
  encoding : Encoding
  regOrder : RegOrder
  deriving DecidableEq, Repr

-- The 64-bit integers are exact and are never scaled.
inductive Value where
  | num (f : Binary64)
  | int64 (i : Int64)
  | uint64 (u : UInt64)
  | bool (b : Bool)
  | str (s : String)
  deriving DecidableEq

structure DecodeResult where
  value : Value
  invalid : Bool := false
  -- the bits of a bitstring16, lowest first
  json : Option (List Nat) := none

inductive CodecError where
  | stringOptions
  | decodeType (t : ValueType)
  | boolEncoding
  | encodeType (t : ValueType)
  | orderWidth (width : Nat) (t : ValueType)
  | range (n min max : Double)
  | bigInt (n : Double)
  deriving DecidableEq

section Numbers

def jsNumberString : Double → String
  | .nan => "NaN"
  | .inf false => "Infinity"
  | .inf true => "-Infinity"
  | .fin q =>
      if q = 0 then "0"
      else
        let sign := if q < 0 then ['-'] else []
        let d := Decimal.shortest |q|
        if Double.le (Double.round (1 / 10 ^ 6)) (.fin |q|) &&
            Double.lt (.fin |q|) (.fin (10 ^ 21)) then
          String.ofList (sign ++ d.plain)
        else
          -- the exponent without the zero that Go puts before a single digit
          let (mant, exp) := d.scientific
          String.ofList (sign ++ mant ++ ['e', if exp < 0 then '-' else '+'] ++
            Nat.toDigits 10 exp.natAbs)

-- strconv.ParseUint in a given base, NaN where it fails.
def parseUint (base : Nat) (ds : List Char) : Binary64 :=
  let digit (c : Char) : Nat :=
    if c.isDigit then c.toNat - '0'.toNat else if c.isLower then c.toNat - 'a'.toNat + 10 else base
  let n := Positional.value base (ds.map digit)
  if ds ≠ [] ∧ (ds.all fun c => decide (digit c < base)) ∧ n < 2 ^ 64 then Binary64.ofInt n
  else .ofDouble .nan

-- What is left for the decimal grammar has no letter of "inf", "nan", a base
-- prefix, a binary exponent or an underscore.
def jsNumberFromString (s : String) : Binary64 :=
  let t := trimSpace s.toList
  if t = [] then Binary64.ofInt 0
  else if t = "Infinity".toList ∨ t = "+Infinity".toList then .ofDouble (.inf false)
  else if t = "-Infinity".toList then .ofDouble (.inf true)
  else
    match t.map Char.toLower with
    | '0' :: 'x' :: ds => parseUint 16 ds
    | '0' :: 'b' :: ds => parseUint 2 ds
    | '0' :: 'o' :: ds => parseUint 8 ds
    | lower =>
        if lower.any fun c => c ∈ ['x', 'p', 'n', '_'] then .ofDouble .nan
        else
          match Decimal.parse t with
          | some (negative, d) => d.toBinary64 negative
          | none => .ofDouble .nan

-- Halves go towards positive infinity.
def jsRound : Double → Double
  | .fin q =>
      let f := Double.floor (.fin q)
      if Double.le (.fin (1 / 2)) (Double.sub Double.round (.fin q) f) then
        Double.add Double.round f (.fin 1)
      else f
  | x => x

def Value.float : Value → Binary64
  | .num f => f
  | .int64 i => Binary64.ofInt i.toInt
  | .uint64 u => Binary64.ofInt u.toNat
  | .bool b => Binary64.ofInt (if b then 1 else 0)
  | .str s => jsNumberFromString s

def Value.string : Value → String
  | .num f => jsNumberString f.toDouble
  | .int64 i => toString i.toInt
  | .uint64 u => toString u.toNat
  | .bool b => if b then "true" else "false"
  | .str s => s

end Numbers

def CodecError.message : CodecError → String
  | .stringOptions => "string type requires StringOptions"
  | .decodeType t => "Unsupported decode type: " ++ t.name
  | .boolEncoding => "bool has no register encoding"
  | .encodeType t => "Unsupported encode type: " ++ t.name
  | .orderWidth width t => "byte order width " ++ toString width ++ " does not match " ++ t.name
  | .range n min max =>
      "value " ++ jsNumberString n ++ " out of range [" ++ jsNumberString min ++ ", " ++
        jsNumberString max ++ "]"
  | .bigInt n =>
      "The number " ++ jsNumberString n ++
        " cannot be converted to a BigInt because it is not an integer"

section Integers

-- A big-endian number, and the last `width` bytes of one.
def uint (c : Bytes) : Nat := Positional.value 256 (c.map UInt8.toNat)

def put (width : Nat) (x : ℤ) : Bytes :=
  (Positional.digits 256 width (x % 256 ^ width).toNat).map UInt8.ofNat

-- The signed reading of `bits` bits.
def signed (bits : Nat) (n : Nat) : ℤ :=
  if n < 2 ^ (bits - 1) then n else n - 2 ^ bits

def clampInt (v : Value) (min max : ℤ) : Except CodecError Double :=
  let n := jsRound v.float.toDouble
  if n.isNaN then .ok (.fin 0)
  else if Double.lt n (.fin min) || Double.lt (.fin max) n then
    .error (.range n (.fin min) (.fin max))
  else .ok n

def clampUint (v : Value) (max : ℤ) : Except CodecError Double := clampInt v 0 max

-- The integer wrapped to 64 bits.
def toWrapped64 : Value → Except CodecError UInt64
  | .int64 i => .ok i.toUInt64
  | .uint64 u => .ok u
  | .bool b => .ok (if b then 1 else 0)
  | v =>
      let f := jsRound v.float.toDouble
      if f.isNaN || f.isInf then .error (.bigInt f)
      else .ok (UInt64.ofNat (f.toInt % 2 ^ 64).toNat)

end Integers

section Bcd

-- The bytes before `result` are done; a digit above nine spoils the value.
def decodeBcdFrom (result : Double) : Bytes → Option Double
  | [] => some result
  | b :: rest =>
      let hi := b.toNat / 16
      let lo := b.toNat % 16
      if 9 < hi ∨ 9 < lo then none
      else
        let tens := Double.mul Double.round (.fin hi) (.fin 10)
        let result := Double.add Double.round (Double.mul Double.round result (.fin 100)) tens
        decodeBcdFrom (Double.add Double.round result (.fin lo)) rest

def decodeBcd (c : Bytes) (n : Nat) : DecodeResult :=
  match decodeBcdFrom (.fin 0) (c.take n) with
  | some result => { value := .num (.ofDouble result) }
  | none => { value := .num (.ofInt 0), invalid := true }

-- math.Mod(v, 10) and math.Floor(v / 10), for numbers that are not negative.
def mod10 : Double → Double
  | .fin q => .fin (q - 10 * ⌊q / 10⌋)
  | _ => .nan

def floorDiv10 : Double → Double
  | .fin q => Double.floor (Double.round (q / 10))
  | v => v

-- `n` bytes, the last one first.
def encodeBcdDigits : Nat → Double → Bytes
  | 0, _ => []
  | n + 1, v =>
      if v.isFinite then
        let lo := mod10 v
        let v := floorDiv10 v
        let hi := mod10 v
        let v := floorDiv10 v
        encodeBcdDigits n v ++ [UInt8.ofNat (hi.toInt.toNat * 16 + lo.toInt.toNat)]
      else encodeBcdDigits n v ++ [0]

def encodeBcd (value : Double) (n : Nat) : Bytes :=
  let v := jsRound value
  encodeBcdDigits n (if Double.lt v (.fin 0) then .fin 0 else v)

end Bcd

section Strings

def swapRegisters : Bytes → Bytes
  | a :: b :: rest => b :: a :: swapRegisters rest
  | rest => rest

def RegOrder.apply : RegOrder → Bytes → Bytes
  | .AB, raw => raw
  | .BA, raw => swapRegisters raw

def decodeRune (b : Bytes) : Option Char := ByteArray.utf8DecodeChar? ⟨b.toArray⟩ 0

-- strings.ToValidUTF8: each run of invalid bytes becomes one replacement
-- character. Valid text comes out unchanged.
def toValidUTF8 (invalid : Bool) : Bytes → List Char
  | [] => []
  | b :: rest =>
      match decodeRune (b :: rest) with
      | some c => c :: toValidUTF8 false (rest.drop (c.utf8Size - 1))
      | none =>
          if invalid then toValidUTF8 true rest else '\uFFFD' :: toValidUTF8 true rest
termination_by b => b.length
decreasing_by all_goals simp only [List.length_drop, List.length_cons]; omega

def decodeBytes (b : Bytes) : Encoding → String
  | .utf8 => String.ofList (toValidUTF8 false b)
  | .ascii => String.ofList (b.map fun c => Char.ofNat (c.toNat % 128))
  | .latin1 => String.ofList (b.map fun c => Char.ofNat c.toNat)

-- The low byte of each UTF-16 code unit.
def utf16LowBytes (c : Char) : Bytes :=
  if 0xffff < c.toNat then
    let r := c.toNat - 0x10000
    [UInt8.ofNat (0xd800 + r / 1024), UInt8.ofNat (0xdc00 + r % 1024)]
  else [UInt8.ofNat c.toNat]

def encodeBytes (s : String) : Encoding → Bytes
  | .utf8 => s.toList.flatMap String.utf8EncodeChar
  | _ => s.toList.flatMap utf16LowBytes

-- `copy` into a zeroed buffer.
def padTo (n : Nat) (b : Bytes) : Bytes := b.take n ++ List.replicate (n - b.length) 0

def isTrimmed (c : Char) : Bool := isSpace c || c = '\uFEFF'

def decodeString (regs : Bytes) (off : Nat) (str : StringOptions) : DecodeResult :=
  let numRegs := (str.bytes + 1) / 2
  let raw := str.regOrder.apply (padTo (numRegs * 2) (regs.drop off))
  let text := ((raw.take str.bytes).takeWhile (· ≠ 0))
  let s := decodeBytes text str.encoding
  { value := .str (String.ofList (trimRight isTrimmed s.toList)) }

def encodeString (value : String) (str : StringOptions) : Bytes :=
  let numRegs := (str.bytes + 1) / 2
  let b := (encodeBytes value str.encoding).take str.bytes
  str.regOrder.apply (padTo (numRegs * 2) b)

end Strings

def registerCount (t : ValueType) (str : Option StringOptions) : Nat :=
  match t, str with
  | .string, none => 1
  | .string, some str => (str.bytes + 1) / 2
  | t, _ => (typeBytes t).getD 0 / 2

-- The part of `decode` after the bytes are in canonical order.
def decodeCanonical (t : ValueType) (c : Bytes) : Except CodecError DecodeResult :=
  let u16 := uint (c.take 2)
  let u32 := uint (c.take 4)
  let u64 := uint (c.take 8)
  let number (n : ℤ) : DecodeResult := { value := .num (.ofInt n) }
  let float (f : Binary64) : DecodeResult :=
    { value := .num f, invalid := f.toDouble.isNaN || f.toDouble.isInf }
  if c.length < 2 then .error (.decodeType t)
  else
    match t with
    | .uint16 => .ok (number u16)
    | .int16 => .ok (number (signed 16 u16))
    | .uint32 => if c.length < 4 then .error (.decodeType t) else .ok (number u32)
    | .int32 => if c.length < 4 then .error (.decodeType t) else .ok (number (signed 32 u32))
    | .uint64 =>
        if c.length < 8 then .error (.decodeType t)
        else .ok { value := .uint64 (UInt64.ofNat u64) }
    | .int64 =>
        if c.length < 8 then .error (.decodeType t)
        else .ok { value := .int64 (UInt64.ofNat u64).toInt64 }
    | .float32 =>
        if c.length < 4 then .error (.decodeType t)
        else .ok (float (Binary32.ofBits (UInt32.ofNat u32)).widen)
    | .float64 =>
        if c.length < 8 then .error (.decodeType t)
        else .ok (float (Binary64.ofBits (UInt64.ofNat u64)))
    | .bcd16 => .ok (decodeBcd c 2)
    | .bcd32 => if c.length < 4 then .error (.decodeType t) else .ok (decodeBcd c 4)
    | .bitstring16 =>
        .ok { number u16 with json := some ((List.range 16).map fun b => u16 / 2 ^ b % 2) }
    | _ => .error (.decodeType t)

def decode (t : ValueType) (regs : Bytes) (regIndex : Nat) (perm : Perm)
    (str : Option StringOptions) : Except CodecError DecodeResult :=
  let off := regIndex * 2
  if t = .string then
    match str with
    | none => .error .stringOptions
    | some str => .ok (decodeString regs off str)
  else decodeCanonical t (perm.toCanonical regs off)

-- The part of `encode` before the bytes go into wire order.
def encodeCanonical (t : ValueType) (v : Value) : Except CodecError Bytes :=
  match t with
  | .uint16 | .bitstring16 => (clampUint v 0xffff).map fun n => put 2 n.toInt
  | .int16 => (clampInt v (-0x8000) 0x7fff).map fun n => put 2 n.toInt
  | .uint32 => (clampUint v 0xffffffff).map fun n => put 4 n.toInt
  | .int32 => (clampInt v (-0x80000000) 0x7fffffff).map fun n => put 4 n.toInt
  | .uint64 | .int64 => (toWrapped64 v).map fun x => put 8 x.toNat
  | .float32 => .ok (put 4 (Binary32.narrow v.float).bits.toNat)
  | .float64 => .ok (put 8 v.float.bits.toNat)
  | .bcd16 => .ok (encodeBcd v.float.toDouble 2)
  | .bcd32 => .ok (encodeBcd v.float.toDouble 4)
  | t => .error (.encodeType t)

def encode (t : ValueType) (v : Value) (perm : Perm) (str : Option StringOptions) :
    Except CodecError Bytes :=
  if t = .string then
    match str with
    | none => .error .stringOptions
    | some str => .ok (encodeString v.string str)
  else if t = .bool then .error .boolEncoding
  else
    match typeBytes t with
    | none => .error (.encodeType t)
    | some width =>
        if perm.width ≠ width then .error (.orderWidth perm.width t)
        else (encodeCanonical t v).map perm.fromCanonical

-- The bytes of registers, as they are on the wire.
def wireOf (regs : List (BitVec 16)) : Bytes :=
  regs.flatMap fun r => [UInt8.ofNat (r.toNat / 256), UInt8.ofNat (r.toNat % 256)]

-- The register in two bytes of the wire.
def wireWord (wire : Bytes) (i : Nat) : BitVec 16 :=
  BitVec.ofNat 16 ((wire.getD (2 * i) 0).toNat * 256 + (wire.getD (2 * i + 1) 0).toNat)

end JsonScada.Modbus
