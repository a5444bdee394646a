import JsonScada.Processor.HandleChange

-- The JSON texts of documents, as JSON.stringify gives them.
namespace JsonScada.Processor

open JsonScada.Library

section Text

-- The escape of a character, for those that need one.
def jsonEscape (c : Char) : List Char :=
  let hex (n : ℕ) : Char := Nat.digitChar n
  if c = '"' then ['\\', '"']
  else if c = '\\' then ['\\', '\\']
  else if c = '\x08' then ['\\', 'b']
  else if c = '\x0c' then ['\\', 'f']
  else if c = '\n' then ['\\', 'n']
  else if c = '\x0d' then ['\\', 'r']
  else if c = '\t' then ['\\', 't']
  else if c.toNat < 32 then ['\\', 'u', '0', '0', hex (c.toNat / 16), hex (c.toNat % 16)]
  else [c]

def jsJSONString (s : String) : String :=
  String.ofList ('"' :: s.toList.flatMap jsonEscape ++ ['"'])

-- A number that is not finite becomes null.
def jsJSONNumber : Double → String
  | .fin q => Decimal.ecmaString (.fin q)
  | _ => "null"

variable (otherToJSON : List UInt8 → String)

mutual

-- What is not told apart here (identifiers, binary data and so on) has a text of its own.
def bsonValueToJSON : Value → String
  | .null => "null"
  | .bool b => if b then "true" else "false"
  | .number x => jsJSONNumber x
  | .string s => jsJSONString s
  | .dateTime ms => jsJSONString (jsISODate ms)
  | .document fields => "\x7b" ++ fieldsToJSON fields ++ "\x7d"
  | .array items => "[" ++ itemsToJSON items ++ "]"
  | .other bytes => otherToJSON bytes

def fieldsToJSON : List (String × Value) → String
  | [] => ""
  | [(key, v)] => jsJSONString key ++ ":" ++ bsonValueToJSON v
  | (key, v) :: fields =>
      jsJSONString key ++ ":" ++ bsonValueToJSON v ++ "," ++ fieldsToJSON fields

def itemsToJSON : List Value → String
  | [] => ""
  | [v] => bsonValueToJSON v
  | v :: items => bsonValueToJSON v ++ "," ++ itemsToJSON items

end

def bsonDocToJSON (d : Document) : String := "\x7b" ++ fieldsToJSON otherToJSON d ++ "\x7d"

end Text

end JsonScada.Processor
