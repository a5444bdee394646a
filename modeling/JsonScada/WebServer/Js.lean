import JsonScada.Processor.Node

-- What JavaScript does with the values of a request and of a document, `none` for
-- undefined.
namespace JsonScada.WebServer

open JsonScada.Library
open JsonScada.Processor (Document Value)
open JsonScada.Processor.Node (Runtime stringToNumber isSpace)

section Text

def hexDigit (n : ℕ) : Char :=
  if n < 10 then Char.ofNat ('0'.toNat + n) else Char.ofNat ('a'.toNat + (n - 10))

def hex (bytes : List UInt8) : String :=
  String.ofList (bytes.flatMap fun b => [hexDigit (b.toNat / 16), hexDigit (b.toNat % 16)])

mutual

def valueText : Value → String
  | .null => "null"
  | .bool b => if b then "true" else "false"
  | .number x => Decimal.ecmaString x
  | .string s => s
  | .array items => itemsText items
  -- an identifier of the database
  | .other bytes => hex bytes
  | _ => "[object Object]"

-- The items of an array, without a text for null.
def itemsText : List Value → String
  | [] => ""
  | [v] => itemText v
  | v :: items => itemText v ++ "," ++ itemsText items

def itemText : Value → String
  | .null => ""
  | .bool b => if b then "true" else "false"
  | .number x => Decimal.ecmaString x
  | .string s => s
  | .array items => itemsText items
  | .other bytes => hex bytes
  | _ => "[object Object]"

end

def text (v : Option Value) : String := v.elim "undefined" valueText

end Text

section Numbers

variable (rt : Runtime)

def toNumber : Option Value → Double
  | none => .nan
  | some .null => .fin 0
  | some (.bool b) => .fin (if b then 1 else 0)
  | some (.number x) => x
  | some (.dateTime ms) => .fin ms
  | some v => stringToNumber rt (valueText v).toList

-- `v == x` for a number
def looseEq (v : Option Value) (x : ℚ) : Bool :=
  match v with
  | none | some .null => false
  | v => Double.eq (toNumber rt v) (.fin x)

-- `v & mask`, for a mask that is not negative
def bitAnd (v : Option Value) (mask : ℕ) : ℕ :=
  match toNumber rt v with
  | .fin q => ((Double.toInt (.fin q)) % 2 ^ 32).toNat &&& mask
  | _ => 0

-- The value of a digit, 36 and more for what is not one.
def digit (c : Char) : ℕ :=
  let c := c.toLower
  if c.isDigit then c.toNat - '0'.toNat else if c.isLower then c.toNat - 'a'.toNat + 10 else 36

-- `parseInt(v, 10)`, or `parseInt(v)`, which knows hexadecimal numbers by their prefix.
def parseIntFrom (hexadecimal : Bool) (v : Option Value) : Double :=
  let s := (text v).toList.dropWhile isSpace
  let (negative, s) :=
    match s with
    | '-' :: s => (true, s)
    | '+' :: s => (false, s)
    | s => (false, s)
  let (base, s) :=
    match hexadecimal, s with
    | true, '0' :: 'x' :: s | true, '0' :: 'X' :: s => (16, s)
    | _, s => (10, s)
  match s.takeWhile (digit · < base) with
  | [] => .nan
  | ds =>
      let n := ds.foldl (fun n c => n * base + digit c) 0
      rt.round (if negative then -n else n)

def parseInt (v : Option Value) : Double := parseIntFrom rt true v

-- The number that the longest possible part of a text stands for.
def parseFloat (v : Option Value) : Double :=
  let s := (text v).toList.dropWhile isSpace
  let (negative, t) := Decimal.sign s
  if "Infinity".toList.isPrefixOf t then .inf negative
  else
    match (List.range (s.length + 1)).reverse.findSome? fun n => Decimal.parse (s.take n) with
    | some (negative, d) => rt.round (if negative then -d.value else d.value)
    | none => .nan

end Numbers

-- `v === w`: two objects are never the same one.
def strictEq : Option Value → Option Value → Bool
  | none, none => true
  | some .null, some .null => true
  | some (.bool b), some (.bool c) => b = c
  | some (.number x), some (.number y) => Double.eq x y
  | some (.string s), some (.string t) => s = t
  | _, _ => false

-- `v == ''`
def isEmpty : Option Value → Bool
  | some (.string s) => s = ""
  | some (.number x) => Double.eq x (.fin 0)
  | some (.bool b) => !b
  | some (.array items) => itemsText items = ""
  | _ => false

section Objects

-- `v.key`, which fails for undefined and for null.
def member (v : Option Value) (key : String) : Option (Option Value) :=
  match v with
  | none | some .null => none
  | some (.document fields) => some (fields.lookup key)
  | some _ => some none

-- `key in v`, which fails for what is not an object.
def isIn (key : String) (v : Option Value) : Option Bool :=
  match v with
  | some (.document fields) => some (Document.has fields key)
  | some (.array _) => some false
  | _ => none

-- `v?.key`
def optionalMember (v : Option Value) (key : String) : Option Value := (member v key).join

-- `v[i]`
def element (v : Option Value) (i : ℕ) : Option (Option Value) :=
  match v with
  | none | some .null => none
  | some (.array items) => some items[i]?
  | some (.string s) => some (s.toList[i]?.map fun c => .string c.toString)
  | some (.document fields) => some (fields.lookup (toString i))
  | some _ => some none

-- `{ ...fields }`, of which those that are undefined are not sent.
def object (fields : List (String × Option Value)) : Value :=
  .document (fields.filterMap fun f => f.2.map (f.1, ·))

-- `v == s` for a text that is no number
def looseEqText (v : Option Value) (s : String) : Bool :=
  match v with
  | some (.string t) => t = s
  | some (.array items) => itemsText items = s
  | _ => false

-- `s.length`
def utf16Length (s : String) : ℕ :=
  (s.toList.map fun c => if c.toNat < 0x10000 then 1 else 2).sum

end Objects

end JsonScada.WebServer
