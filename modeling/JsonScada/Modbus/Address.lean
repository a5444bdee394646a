import JsonScada.Modbus.ByteOrder
import JsonScada.Modbus.Client

namespace JsonScada.Modbus

open JsonScada.Library

def Area.name : Area → String
  | .coil => "co"
  | .discrete => "di"
  | .holding => "hr"
  | .input => "ir"

def isWritableArea (a : Area) : Bool := a = .coil || a = .holding

-- A parsed object address, with the bit where it names one of a register.
structure Address where
  area : Area
  offset : Nat
  bit : Option Nat
  offset_le : offset ≤ 0xffff
  bit_le : ∀ b ∈ bit, isBitArea area = false ∧ b ≤ 15
  deriving DecidableEq

def areaAliases : List (String × Area) :=
  [("co", .coil), ("coil", .coil), ("coils", .coil),
    ("di", .discrete), ("discrete-input", .discrete), ("discrete-inputs", .discrete),
    ("discreteinput", .discrete),
    ("hr", .holding), ("holding-register", .holding), ("holding-registers", .holding),
    ("holding", .holding),
    ("ir", .input), ("input-register", .input), ("input-registers", .input), ("input", .input)]

inductive AddressError where
  | invalid (raw : String)
  | unknownArea (area raw : String)
  | offsetRange (raw : String)
  | bitSuffix (raw : String)
  | bitRange (raw : String)
  | modiconRange (s : String)
  deriving DecidableEq, Repr

def AddressError.message : AddressError → String
  | .invalid raw => "Invalid Modbus object address: " ++ raw.quote
  | .unknownArea area raw => "Unknown Modbus area " ++ area.quote ++ " in " ++ raw.quote
  | .offsetRange raw => "Modbus address offset out of range in " ++ raw.quote
  | .bitSuffix raw => "Bit suffix .b not allowed on bit area in " ++ raw.quote
  | .bitRange raw => "Bit index out of range 0..15 in " ++ raw.quote
  | .modiconRange s => "Modicon reference out of range: " ++ s.quote

-- strconv.Atoi of a text of digits. What overflows an int is out of every range below.
def atoi (digits : List Char) : Nat :=
  Positional.value 10 (digits.map fun c => c.toNat - '0'.toNat)

-- The white space of a regular expression.
def isRegexSpace (c : Char) : Bool := c ∈ ['\t', '\n', '\x0c', '\r', ' ']

-- ^([a-zA-Z-]+)\s*:\s*(\d+)(?:\.b(\d+))?$
def matchAddress (s : List Char) : Option (List Char × List Char × List Char) :=
  let isArea (c : Char) : Bool := c.isAlpha || c = '-'
  let area := s.takeWhile isArea
  match (s.dropWhile isArea).dropWhile isRegexSpace with
  | ':' :: rest =>
      let rest := rest.dropWhile isRegexSpace
      let digits := rest.takeWhile Char.isDigit
      if area = [] ∨ digits = [] then none
      else
        match rest.dropWhile Char.isDigit with
        | [] => some (area, digits, [])
        | '.' :: 'b' :: bit =>
            if bit ≠ [] ∧ bit.all Char.isDigit then some (area, digits, bit) else none
        | _ => none
  | _ => none

def parseModicon (s : List Char) : Except AddressError Address :=
  let (area, base) : Area × Nat :=
    match s with
    | '0' :: rest => if 5 ≤ s.length then (.coil, atoi rest) else (.coil, atoi s)
    | '1' :: rest => if 5 ≤ s.length then (.discrete, atoi rest) else (.coil, atoi s)
    | '3' :: rest => if 5 ≤ s.length then (.input, atoi rest) else (.coil, atoi s)
    | '4' :: rest => if 5 ≤ s.length then (.holding, atoi rest) else (.coil, atoi s)
    -- a bare number is a coil reference
    | _ => (.coil, atoi s)
  if h : base = 0 ∨ 0xffff < base - 1 then .error (.modiconRange (String.ofList s))
  else
    .ok { area := area, offset := base - 1, bit := none, offset_le := by omega, bit_le := by simp }

def parseObjectAddress (raw : String) (useModicon : Bool) : Except AddressError Address :=
  let s := trimSpace raw.toList
  if useModicon ∧ s ≠ [] ∧ s.all Char.isDigit then parseModicon s
  else
    match matchAddress s with
    | none => .error (.invalid raw)
    | some (name, digits, bit) =>
        match areaAliases.lookup (String.ofList (name.map Char.toLower)) with
        | none => .error (.unknownArea (String.ofList name) raw)
        | some area =>
            let offset := atoi digits
            if hoff : 0xffff < offset then .error (.offsetRange raw)
            else if bit = [] then
              .ok { area := area, offset := offset, bit := none
                    offset_le := by omega, bit_le := by simp }
            else if harea : isBitArea area then .error (.bitSuffix raw)
            else if hbit : 15 < atoi bit then .error (.bitRange raw)
            else
              .ok { area := area, offset := offset, bit := some (atoi bit)
                    offset_le := by omega
                    bit_le := by
                      rintro b ⟨⟩
                      exact ⟨by simpa using harea, by omega⟩ }

-- The connection's byte orders and string encoding, where an ASDU names none.
structure AsduDefaults where
  byteOrder16 : String
  byteOrder32 : String
  byteOrder64 : String
  byteOrderStr : String
  stringEncoding : String

def typeAliases : List (String × ValueType) :=
  [("bool", .bool), ("boolean", .bool), ("bit", .bool), ("coil", .bool), ("digital", .bool),
    ("int16", .int16), ("short", .int16), ("int", .int16),
    ("uint16", .uint16), ("word", .uint16), ("uint", .uint16),
    ("int32", .int32), ("dint", .int32),
    ("uint32", .uint32), ("udint", .uint32), ("dword", .uint32),
    ("int64", .int64), ("lint", .int64),
    ("uint64", .uint64), ("ulint", .uint64), ("lword", .uint64),
    ("float32", .float32), ("float", .float32), ("real", .float32),
    ("float64", .float64), ("double", .float64), ("lreal", .float64),
    ("bcd16", .bcd16), ("bcd32", .bcd32),
    ("bitstring16", .bitstring16), ("bits", .bitstring16),
    ("string", .string)]

-- strings.ToLower, for the runes that have an ASCII lower case.
def toLowerRune (c : Char) : Char :=
  if c = 'İ' then 'i' else if c.toNat = 0x212a then 'k' else c.toLower

def isByteOrderToken (s : List Char) : Bool :=
  String.ofList s ∈ ["BE", "LE", "SW", "SB", "BIG_ENDIAN", "LITTLE_ENDIAN", "REV_ENDIAN"] ||
    (decide (s ≠ []) && s.all (fun c => 'A' ≤ c && c ≤ 'H') && decide s.Nodup)

def defaultOrderForWidth (width : Nat) (d : AsduDefaults) : String :=
  let pick (v default : String) : String := if v = "" then default else v
  match width with
  | 2 => pick d.byteOrder16 "AB"
  | 4 => pick d.byteOrder32 "ABCD"
  | 8 => pick d.byteOrder64 "ABCDEFGH"
  | _ => "AB"

-- The encodings other than utf8 and ascii are all read as latin1.
def encodingOf (name : String) : Encoding :=
  if name = "utf8" then .utf8 else if name = "ascii" then .ascii else .latin1

inductive AsduError where
  | unknownType (raw : String)
  | byteOrder (e : ByteOrderError)
  deriving DecidableEq, Repr

def AsduError.message : AsduError → String
  | .unknownType raw => "Unknown Modbus ASDU type " ++ raw.quote
  | .byteOrder e => e.message

-- ^string:(\d+)(.*)$, with the digits and the rest
def matchString (s : List Char) : Option (List Char × List Char) :=
  match s with
  | 's' :: 't' :: 'r' :: 'i' :: 'n' :: 'g' :: ':' :: rest =>
      let digits := rest.takeWhile Char.isDigit
      let tail := rest.dropWhile Char.isDigit
      if digits = [] ∨ '\n' ∈ tail then none else some (digits, tail)
  | _ => none

-- The type token and the byte order token, cut at the first underscore.
def asduTokens (s : List Char) (area : Area) : List Char × List Char :=
  let (typeToken, orderToken) :=
    if '_' ∈ s then (s.takeWhile (· ≠ '_'), (s.dropWhile (· ≠ '_')).drop 1) else (s, [])
  let bare := s.map toUpper
  if (typeAliases.lookup (String.ofList typeToken)).isNone ∧ isByteOrderToken bare then
    ((if isBitArea area then "bool" else "uint16").toList, bare)
  else (typeToken, orderToken)

def stringRegOrder (orderToken : List Char) (d : AsduDefaults) : RegOrder :=
  let named := orderToken.map toUpper
  let ro := if named = [] then d.byteOrderStr.toList.map toUpper else named
  if ro = "BA".toList ∨ ro = "LE".toList then .BA else .AB

def parseAsdu (raw : String) (area : Area) (d : AsduDefaults) : Except AsduError Asdu :=
  let s := (trimSpace raw.toList).map toLowerRune
  let s := if s = [] then (if isBitArea area then "bool" else "uint16").toList else s
  let (strBytes, s) : Option Nat × List Char :=
    match matchString s with
    | some (digits, tail) => (some (atoi digits), "string".toList ++ tail)
    | none => (none, s)
  if strBytes.any (2 ^ 63 ≤ ·) then .error (.unknownType raw)
  else
    let (typeToken, orderToken) := asduTokens s area
    match typeAliases.lookup (String.ofList typeToken) with
    | none => .error (.unknownType raw)
    | some t =>
        if t = .bool then
          .ok { type := t, byteOrder := "", perm := newPerm 1 [0] }
        else
          let str : Option StringOptions :=
            if t = .string then
              some { bytes := strBytes.getD 2, encoding := encodingOf d.stringEncoding
                     regOrder := stringRegOrder orderToken d }
            else none
          let width := if t = .string then 2 else registerCount t none * 2
          let order := String.ofList orderToken
          let order := if order = "" then defaultOrderForWidth width d else order
          match parseByteOrder order width with
          | .error e => .error (.byteOrder e)
          | .ok perm => .ok { type := t, byteOrder := order, perm := perm, str := str }

-- The registers a value occupies, none for a bool.
def Asdu.regCount (a : Asdu) : Nat := registerCount a.type a.str

-- Rounds a unit identifier. What is not in 0..255 becomes 1.
def clampUnitDefault1 (f : Double) : Nat :=
  let n := jsRound f
  if n.isNaN || Double.lt n (.fin 0) || Double.lt (.fin 255) n then 1 else n.toInt.toNat

example : (parseObjectAddress "Holding-Register : 12.b3" false).toOption.map
    (fun a => (a.area, a.offset, a.bit)) = some (.holding, 12, some 3) := by decide

example : (parseObjectAddress "40001" true).toOption.map
    (fun a => (a.area, a.offset, a.bit)) = some (.holding, 0, none) := by decide

section Parsed

-- The bytes that the byte order of a type permutes.
def ValueType.orderWidth (t : ValueType) : Nat :=
  if t = .string then 2 else registerCount t none * 2

-- What every parsed ASDU has.
structure Asdu.Parsed (a : Asdu) : Prop where
  listed : a.type ∈ typeAliases.map Prod.snd
  -- a bool has no registers
  bool : a.type = .bool → a.perm = newPerm 1 [0]
  order : a.type ≠ .bool → ∃ spec, parseByteOrder spec a.type.orderWidth = .ok a.perm
  str : a.str.isSome = decide (a.type = .string)

theorem listed_of_lookup {name : String} {t : ValueType} (h : typeAliases.lookup name = some t) :
    t ∈ typeAliases.map Prod.snd := by
  obtain ⟨before, after, hsplit, -⟩ := List.lookup_eq_some_iff.mp h
  rw [hsplit]
  simp

theorem parseAsdu_parsed {raw : String} {area : Area} {d : AsduDefaults} {asdu : Asdu}
    (h : parseAsdu raw area d = .ok asdu) : asdu.Parsed := by
  unfold parseAsdu at h
  extract_lets s s' at h
  split at h
  rename_i strBytes s'' _
  split at h
  · cases h
  split at h
  rename_i typeToken orderToken _
  split at h
  · cases h
  rename_i t hlookup
  have hlisted := listed_of_lookup hlookup
  by_cases hbool : t = .bool
  · rw [if_pos hbool] at h
    obtain rfl := Except.ok.inj h
    exact ⟨hlisted, fun _ => rfl, fun hne => absurd hbool hne, by simp [hbool]⟩
  · rw [if_neg hbool] at h
    extract_lets str width order order' at h
    split at h
    · cases h
    rename_i perm hperm
    obtain rfl := Except.ok.inj h
    refine ⟨hlisted, fun heq => absurd heq hbool, fun _ => ⟨order', hperm⟩, ?_⟩
    by_cases hstring : t = .string <;> simp [str, hstring]

-- The byte order of registers has at least the two bytes of one.
theorem Asdu.Parsed.orderWidth_ge {a : Asdu} (h : a.Parsed) (hbool : a.type ≠ .bool) :
    2 ≤ a.type.orderWidth := by
  have hall : ∀ t ∈ typeAliases.map Prod.snd, t ≠ .bool → 2 ≤ t.orderWidth := by decide
  exact hall _ h.listed hbool

end Parsed

end JsonScada.Modbus
