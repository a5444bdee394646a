import Mathlib.Data.List.Basic
import Mathlib.Tactic.Common

namespace JsonScada.Library

-- Regular expressions over classes of symbols, where only a class is repeated.
inductive Regex (α : Type*) where
  | none
  | empty
  | one (p : α → Bool)
  | many (p : α → Bool)
  | seq (a b : Regex α)
  | alt (a b : Regex α)

namespace Regex

variable {α : Type*}

-- The words of an expression.
def Matches : Regex α → List α → Prop
  | none, _ => False
  | empty, w => w = []
  | one p, w => ∃ c, w = [c] ∧ p c = true
  | many p, w => ∀ c ∈ w, p c = true
  | seq a b, w => ∃ u v, w = u ++ v ∧ a.Matches u ∧ b.Matches v
  | alt a b, w => a.Matches w ∨ b.Matches w

def nullable : Regex α → Bool
  | none | one _ => false
  | empty | many _ => true
  | seq a b => a.nullable && b.nullable
  | alt a b => a.nullable || b.nullable

-- What is left to match after a symbol.
def deriv (c : α) : Regex α → Regex α
  | none | empty => none
  | one p => if p c then empty else none
  | many p => if p c then many p else none
  | seq a b =>
      if a.nullable then alt (seq (a.deriv c) b) (b.deriv c) else seq (a.deriv c) b
  | alt a b => alt (a.deriv c) (b.deriv c)

def test : Regex α → List α → Bool
  | r, [] => r.nullable
  | r, c :: w => (r.deriv c).test w

def text [DecidableEq α] : List α → Regex α
  | [] => empty
  | c :: cs => seq (one (· = c)) (text cs)

-- A class once or more.
def plus (p : α → Bool) : Regex α := seq (one p) (many p)

def opt (r : Regex α) : Regex α := alt r empty

variable {r a b : Regex α} {p : α → Bool} {c : α} {w : List α}

theorem nullable_iff : r.nullable = true ↔ r.Matches [] := by
  induction r with
  | none => simp [nullable, Matches]
  | empty => simp [nullable, Matches]
  | one p => simp [nullable, Matches]
  | many p => simp [nullable, Matches]
  | seq a b iha ihb => simp [nullable, Matches, iha, ihb]
  | alt a b iha ihb => simp [nullable, Matches, iha, ihb]

-- The first symbol of a sequence belongs to its first part, unless that is empty.
theorem matches_seq_cons : (seq a b).Matches (c :: w) ↔
    (∃ u v, w = u ++ v ∧ a.Matches (c :: u) ∧ b.Matches v) ∨ a.Matches [] ∧ b.Matches (c :: w) := by
  constructor
  · rintro ⟨u, v, hw, ha, hb⟩
    rcases List.cons_eq_append_iff.mp hw with ⟨rfl, rfl⟩ | ⟨u, rfl, rfl⟩
    · exact .inr ⟨ha, hb⟩
    · exact .inl ⟨u, v, rfl, ha, hb⟩
  · rintro (⟨u, v, rfl, ha, hb⟩ | ⟨ha, hb⟩)
    · exact ⟨c :: u, v, rfl, ha, hb⟩
    · exact ⟨[], c :: w, rfl, ha, hb⟩

theorem matches_deriv : (r.deriv c).Matches w ↔ r.Matches (c :: w) := by
  induction r generalizing w with
  | none => simp [deriv, Matches]
  | empty => simp [deriv, Matches]
  | one p =>
      cases hp : p c <;> simp [deriv, Matches, hp]
  | many p =>
      cases hp : p c <;> simp [deriv, Matches, hp]
  | seq a b iha ihb =>
      rw [matches_seq_cons, ← nullable_iff, ← ihb]
      simp only [← iha]
      cases hnull : a.nullable <;> simp [deriv, Matches, hnull]
  | alt a b iha ihb => simp [deriv, Matches, iha, ihb]

theorem test_iff : r.test w = true ↔ r.Matches w := by
  induction w generalizing r with
  | nil => exact nullable_iff
  | cons c w ih => rw [test, ih, matches_deriv]

theorem matches_text [DecidableEq α] {cs : List α} : (text cs).Matches w ↔ w = cs := by
  induction cs generalizing w with
  | nil => simp [text, Matches]
  | cons c cs ih => simp [text, Matches, ih]

theorem matches_plus : (plus p).Matches w ↔ w ≠ [] ∧ ∀ c ∈ w, p c = true := by
  cases w with
  | nil => simp [plus, Matches]
  | cons c w =>
      rw [plus, matches_seq_cons]
      simp [Matches]

end Regex

end JsonScada.Library
