import Mathlib.Data.List.Basic

namespace JsonScada.OpcUa

-- The identifier of a node is a number, a text, a GUID or bytes, within a namespace.
inductive Identifier where
  | numeric (n : ℕ)
  | string (s : String)
  | guid (s : String)
  | bytes (s : String)
deriving DecidableEq

def Identifier.tag : Identifier → Char
  | numeric _ => 'i'
  | string _ => 's'
  | guid _ => 'g'
  | bytes _ => 'b'

def Identifier.body : Identifier → List Char
  | numeric n => Nat.toDigits 10 n
  | string s => s.toList
  | guid s => s.toList
  | bytes s => s.toList

structure NodeId where
  ns : ℕ
  id : Identifier
deriving DecidableEq

-- NodeID.String of the protocol stack: the namespace zero is left out.
def NodeId.chars (n : NodeId) : List Char :=
  let id := n.id.tag :: '=' :: n.id.body
  if n.ns = 0 then id else ['n', 's', '='] ++ Nat.toDigits 10 n.ns ++ ';' :: id

def NodeId.text (n : NodeId) : String := String.ofList n.chars

-- NodeID.IntID: zero for an identifier that is not a number.
def NodeId.intId (n : NodeId) : ℕ :=
  match n.id with
  | .numeric k => k
  | _ => 0

section Parse

def parseNat (cs : List Char) : Option ℕ :=
  if cs ≠ [] ∧ cs.all Char.isDigit then some (Nat.ofDigitChars 10 cs 0) else none

def parseIdentifier : List Char → Option Identifier
  | 'i' :: '=' :: body => (parseNat body).map .numeric
  | 's' :: '=' :: body => some (.string (String.ofList body))
  | 'g' :: '=' :: body => some (.guid (String.ofList body))
  | 'b' :: '=' :: body => some (.bytes (String.ofList body))
  | _ => none

def parseChars : List Char → Option NodeId
  | 'n' :: 's' :: '=' :: cs =>
      match parseNat (cs.takeWhile (· ≠ ';')), cs.dropWhile (· ≠ ';') with
      | some ns, _ :: id => (parseIdentifier id).map fun id => ⟨ns, id⟩
      | _, _ => none
  | cs => (parseIdentifier cs).map fun id => ⟨0, id⟩

-- A reading of texts, in which the namespace zero may be written.
def NodeId.parse (s : String) : Option NodeId := parseChars s.toList

end Parse

theorem toDigits_inj {a b : ℕ} (h : Nat.toDigits 10 a = Nat.toDigits 10 b) : a = b := by
  rw [← Nat.ofDigitChars_toDigits (b := 10) (n := a) (by decide) (by decide), h,
    Nat.ofDigitChars_toDigits (by decide) (by decide)]

theorem semicolon_notMem_toDigits (n : ℕ) : ';' ∉ Nat.toDigits 10 n := by
  intro h
  have hdigit := Nat.isDigit_of_mem_toDigits (by decide) (by decide) h
  exact absurd hdigit (by decide)

theorem takeWhile_digits (n : ℕ) (rest : List Char) :
    (Nat.toDigits 10 n ++ ';' :: rest).takeWhile (· ≠ ';') = Nat.toDigits 10 n := by
  rw [List.takeWhile_append_of_pos]
  · simp
  · intro c hc
    have hne : c ≠ ';' := by
      rintro rfl
      exact semicolon_notMem_toDigits n hc
    simpa using hne

theorem identifier_inj {a b : Identifier}
    (h : a.tag :: '=' :: a.body = b.tag :: '=' :: b.body) : a = b := by
  obtain ⟨htag, hbody⟩ := List.cons.inj h
  have hbody := (List.cons.inj hbody).2
  cases a <;> cases b <;> simp only [Identifier.tag, Identifier.body] at htag hbody
  all_goals first
    | exact absurd htag (by decide)
    | rw [toDigits_inj hbody]
    | rw [String.toList_inj.mp hbody]

theorem tag_ne (i : Identifier) : i.tag ≠ 'n' := by
  cases i <;> simp only [Identifier.tag] <;> decide

-- Two nodes never share a text.
theorem NodeId.text_inj {a b : NodeId} (h : a.text = b.text) : a = b := by
  have h : a.chars = b.chars := by
    have := congrArg String.toList h
    rwa [NodeId.text, NodeId.text, String.toList_ofList, String.toList_ofList] at this
  obtain ⟨ns, id⟩ := a
  obtain ⟨ns', id'⟩ := b
  unfold NodeId.chars at h
  by_cases hns : ns = 0 <;> by_cases hns' : ns' = 0
  · rw [if_pos hns, if_pos hns'] at h
    exact congrArg₂ NodeId.mk (hns.trans hns'.symm) (identifier_inj h)
  · rw [if_pos hns, if_neg hns'] at h
    exact absurd (List.cons.inj h).1 (tag_ne id)
  · rw [if_neg hns, if_pos hns'] at h
    exact absurd (List.cons.inj h).1.symm (tag_ne id')
  · rw [if_neg hns, if_neg hns', List.append_assoc, List.append_assoc] at h
    have h := List.append_cancel_left h
    have hdigits : Nat.toDigits 10 ns = Nat.toDigits 10 ns' := by
      have hcut := congrArg (List.takeWhile (· ≠ ';')) h
      rwa [takeWhile_digits, takeWhile_digits] at hcut
    rw [hdigits] at h
    have hid := (List.cons.inj (List.append_cancel_left h)).2
    exact congrArg₂ NodeId.mk (toDigits_inj hdigits) (identifier_inj hid)

theorem parseNat_toDigits (n : ℕ) : parseNat (Nat.toDigits 10 n) = some n := by
  have hne : Nat.toDigits 10 n ≠ [] := Nat.toDigits_ne_nil
  have hall : (Nat.toDigits 10 n).all Char.isDigit = true :=
    List.all_eq_true.mpr fun c hc => Nat.isDigit_of_mem_toDigits (by decide) (by decide) hc
  rw [parseNat, if_pos ⟨hne, hall⟩, Nat.ofDigitChars_toDigits (by decide) (by decide)]

theorem parseIdentifier_eq (i : Identifier) : parseIdentifier (i.tag :: '=' :: i.body) = some i := by
  cases i with
  | numeric n => simp [parseIdentifier, Identifier.tag, Identifier.body, parseNat_toDigits]
  | string s | guid s | bytes s => simp [parseIdentifier, Identifier.tag, Identifier.body]

theorem dropWhile_digits (n : ℕ) (rest : List Char) :
    (Nat.toDigits 10 n ++ ';' :: rest).dropWhile (· ≠ ';') = ';' :: rest := by
  have h := List.takeWhile_append_dropWhile (p := (· ≠ ';')) (l := Nat.toDigits 10 n ++ ';' :: rest)
  rw [takeWhile_digits] at h
  exact List.append_cancel_left h

-- A node is read back from its text.
theorem NodeId.parse_text (n : NodeId) : NodeId.parse n.text = some n := by
  obtain ⟨ns, id⟩ := n
  rw [NodeId.parse, NodeId.text, String.toList_ofList, NodeId.chars]
  by_cases hns : ns = 0
  · rw [if_pos hns, parseChars]
    · rw [parseIdentifier_eq, Option.map_some, hns]
    · intro cs h
      exact tag_ne id (List.cons.inj h).1
  · rw [if_neg hns]
    simp only [List.cons_append, List.nil_append, parseChars]
    rw [takeWhile_digits, dropWhile_digits, parseNat_toDigits]
    simp only [parseIdentifier_eq, Option.map_some]

end JsonScada.OpcUa
