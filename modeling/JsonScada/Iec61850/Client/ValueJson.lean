import JsonScada.Iec61850.Client.MmsValue
import JsonScada.Library.Json

-- The text that is stored of an MMS value is JSON, and tells the leaves of the value.
namespace JsonScada.Iec61850.Client

open JsonScada.Library
open JsonScada.Library.Json (Spells Reads)

section Quoting

theorem digitChar_hex {n : ℕ} (h : n < 16) : Json.isHex (Nat.digitChar n) = true := by
  revert n
  decide

theorem hexValue_control {n : ℕ} (h : n < 0x20) :
    Json.hexValue ['0', '0', Nat.digitChar (n / 16), Nat.digitChar (n % 16)] = n := by
  revert n
  decide

-- Each character is quoted as one that is read as its units.
theorem spells_quoteChar (r : Char) : Spells (quoteChar r) (Utf16.units r) := by
  unfold quoteChar
  split_ifs with hquote hslash hn hr ht hcontrol
  · rw [hquote]
    exact Json.spells_escape (by decide) rfl
  · rw [hslash]
    exact Json.spells_escape (by decide) rfl
  · rw [hn]
    exact Json.spells_escape (by decide) rfl
  · rw [hr]
    exact Json.spells_escape (by decide) rfl
  · rw [ht]
    exact Json.spells_escape (by decide) rfl
  · have hunits : Utf16.units r = [r.toNat] := if_pos (by omega)
    rw [hunits, ← hexValue_control hcontrol]
    exact Json.spells_unicode (by decide) (by decide) (digitChar_hex (by omega))
      (digitChar_hex (by omega))
  · exact Json.spells_char hquote hslash (Nat.not_lt.mp hcontrol)

theorem reads_quoteJSON (s : String) :
    Reads (quoteJSON s) (.string (s.toList.flatMap Utf16.units)) :=
  (Json.spells_flatMap s.toList fun r _ => spells_quoteChar r).quoted

end Quoting

section Trees

-- The texts of the leaves, in the containers that they stand in.
inductive TextTree where
  | leaf (s : String)
  | node (children : List TextTree)

mutual

def Mms.tree : Mms → TextTree
  | .missing => .leaf ""
  | .leaf l => .leaf (mmsToString l)
  | .structure ms | .array ms => .node (trees ms)

def trees : List Mms → List TextTree
  | [] => []
  | m :: ms => m.tree :: trees ms

end

mutual

-- A container of one member stands for the member.
def TextTree.collapse : TextTree → TextTree
  | .leaf s => .leaf s
  | .node [t] => t.collapse
  | .node ts => .node (collapseAll ts)

def collapseAll : List TextTree → List TextTree
  | [] => []
  | t :: ts => t.collapse :: collapseAll ts

end

mutual

-- What a JSON value of strings and arrays says.
def texts : Json → Option TextTree
  | .string units => some (.leaf (String.ofList (Utf16.decode units)))
  | .array items => (textsAll items).map .node
  | _ => none

def textsAll : List Json → Option (List TextTree)
  | [] => some []
  | v :: vs => (texts v).bind fun t => (textsAll vs).map (t :: ·)

end

mutual

def TextTree.toJson : TextTree → Json
  | .leaf s => .string (s.toList.flatMap Utf16.units)
  | .node ts => .array (toJsonAll ts)

def toJsonAll : List TextTree → List Json
  | [] => []
  | t :: ts => t.toJson :: toJsonAll ts

end

mutual

theorem texts_toJson (t : TextTree) : texts t.toJson = some t := by
  cases t with
  | leaf s => rw [TextTree.toJson, texts, Utf16.decode_units, String.ofList_toList]
  | node ts => rw [TextTree.toJson, texts, textsAll_toJsonAll ts, Option.map_some]

theorem textsAll_toJsonAll (ts : List TextTree) : textsAll (toJsonAll ts) = some ts := by
  cases ts with
  | nil => rfl
  | cons t ts => rw [toJsonAll, textsAll, texts_toJson t, textsAll_toJsonAll ts]; rfl

end

end Trees

section Texts

mutual

theorem reads_mms (m : Mms) : Reads (mmsGetStringValue m) m.tree.collapse.toJson := by
  cases m with
  | missing => exact reads_quoteJSON ""
  | leaf l => exact reads_quoteJSON (mmsToString l)
  | «structure» ms =>
      rcases ms with _ | ⟨m, _ | ⟨m', ms⟩⟩
      · exact Json.reads_array .nil
      · exact reads_mms m
      · exact Json.reads_array (reads_members (m :: m' :: ms))
  | array ms =>
      rcases ms with _ | ⟨m, _ | ⟨m', ms⟩⟩
      · exact Json.reads_array .nil
      · exact reads_mms m
      · exact Json.reads_array (reads_members (m :: m' :: ms))

theorem reads_members (ms : List Mms) :
    List.Forall₂ Reads (stringValues ms) (toJsonAll (collapseAll (trees ms))) := by
  cases ms with
  | nil => exact .nil
  | cons m ms => exact .cons (reads_mms m) (reads_members ms)

end

theorem mmsGetStringValue_texts (v : Mms) :
    ∃ j, Json.parse (mmsGetStringValue v) = some j ∧ texts j = some v.tree.collapse :=
  ⟨_, (reads_mms v).parse, texts_toJson _⟩

end Texts

end JsonScada.Iec61850.Client
