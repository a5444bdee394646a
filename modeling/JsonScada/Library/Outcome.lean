import Mathlib.Data.List.Basic
import Mathlib.Tactic.Common

namespace JsonScada.Library

-- What a computation that may throw has done by its end.
structure Outcome (ε : Type*) where
  done : List ε := []
  threw : Bool := false
  deriving DecidableEq

namespace Outcome

variable {ε δ α : Type*}

def nothing : Outcome ε := {}

def failed : Outcome ε := { threw := true }

def emit (e : ε) : Outcome ε := { done := [e] }

def andThen (a b : Outcome ε) : Outcome ε :=
  if a.threw then a else { done := a.done ++ b.done, threw := b.threw }

def forEach (f : α → Outcome ε) : List α → Outcome ε
  | [] => nothing
  | x :: xs => (f x).andThen (forEach f xs)

-- `try { a } catch {}`
def caught (a : Outcome ε) : Outcome ε := { a with threw := false }

def map (f : ε → δ) (a : Outcome ε) : Outcome δ := { done := a.done.map f, threw := a.threw }

variable {a b : Outcome ε} {f : α → Outcome ε} {xs : List α}

@[simp] theorem done_nothing : (nothing : Outcome ε).done = [] := rfl

@[simp] theorem threw_nothing : (nothing : Outcome ε).threw = false := rfl

@[simp] theorem done_failed : (failed : Outcome ε).done = [] := rfl

@[simp] theorem threw_failed : (failed : Outcome ε).threw = true := rfl

@[simp] theorem done_emit (e : ε) : (emit e).done = [e] := rfl

@[simp] theorem threw_emit (e : ε) : (emit e).threw = false := rfl

@[simp] theorem done_caught : a.caught.done = a.done := rfl

@[simp] theorem threw_caught : a.caught.threw = false := rfl

@[simp] theorem done_map (f : ε → δ) : (a.map f).done = a.done.map f := rfl

@[simp] theorem threw_map (f : ε → δ) : (a.map f).threw = a.threw := rfl

@[simp] theorem threw_andThen : (a.andThen b).threw = (a.threw || b.threw) := by
  unfold andThen
  cases h : a.threw <;> simp [h]

-- The second part is reached only when the first does not throw.
theorem done_andThen_ne_nil :
    (a.andThen b).done ≠ [] ↔ a.done ≠ [] ∨ a.threw = false ∧ b.done ≠ [] := by
  unfold andThen
  cases h : a.threw with
  | true => simp
  | false =>
    simp only [Bool.false_eq_true, if_false, ne_eq, List.append_eq_nil_iff, true_and]
    tauto

@[simp] theorem forEach_nil : forEach f [] = nothing := rfl

@[simp] theorem forEach_cons (x : α) : forEach f (x :: xs) = (f x).andThen (forEach f xs) := rfl

theorem threw_forEach : (forEach f xs).threw = false ↔ ∀ x ∈ xs, (f x).threw = false := by
  induction xs with
  | nil => simp
  | cons x xs ih => simp [ih]

-- An item of the list tells something, and the items before it can be read.
def Reached (tells reads : α → Prop) (xs : List α) : Prop :=
  ∃ pre x post, xs = pre ++ x :: post ∧ (∀ y ∈ pre, reads y) ∧ tells x

theorem reached_nil {tells reads : α → Prop} : ¬Reached tells reads [] := by
  rintro ⟨pre, x, post, hnil, -⟩
  simp at hnil

theorem reached_cons {tells reads : α → Prop} {x : α} :
    Reached tells reads (x :: xs) ↔ tells x ∨ reads x ∧ Reached tells reads xs := by
  constructor
  · rintro ⟨pre, y, post, hxs, hpre, hy⟩
    cases pre with
    | nil =>
      obtain ⟨rfl, rfl⟩ : x = y ∧ xs = post := by simpa using hxs
      exact .inl hy
    | cons z pre =>
      obtain ⟨rfl, rfl⟩ : x = z ∧ xs = pre ++ y :: post := by simpa using hxs
      refine .inr ⟨hpre x (by simp), pre, y, post, rfl, ?_, hy⟩
      exact fun w hw => hpre w (by simp [hw])
  · rintro (hx | ⟨hx, pre, y, post, rfl, hpre, hy⟩)
    · exact ⟨[], x, xs, rfl, by simp, hx⟩
    · exact ⟨x :: pre, y, post, rfl, by simpa [hx] using hpre, hy⟩

theorem reached_of_reads {tells reads : α → Prop} (h : ∀ x ∈ xs, reads x) :
    Reached tells reads xs ↔ ∃ x ∈ xs, tells x := by
  induction xs with
  | nil => simp [reached_nil]
  | cons x xs ih =>
    rw [reached_cons, ih fun y hy => h y (List.mem_cons_of_mem _ hy)]
    simp [h x (List.mem_cons_self ..)]

theorem done_forEach_ne_nil :
    (forEach f xs).done ≠ [] ↔
      Reached (fun x => (f x).done ≠ []) (fun y => (f y).threw = false) xs := by
  induction xs with
  | nil => simp [reached_nil]
  | cons x xs ih => rw [forEach_cons, done_andThen_ne_nil, ih, reached_cons]

-- When each turn either does something or throws, the first one decides.
theorem done_forEach_ne_nil_of (h : ∀ x, (f x).done ≠ [] ↔ (f x).threw = false) :
    (forEach f xs).done ≠ [] ↔ ∃ x, xs.head? = some x ∧ (f x).threw = false := by
  cases xs with
  | nil => simp
  | cons x xs =>
    rw [forEach_cons, done_andThen_ne_nil, h x]
    simp only [List.head?_cons, Option.some.injEq, exists_eq_left']
    tauto

end Outcome

end JsonScada.Library

-- Computations that return a value or an error.
namespace JsonScada.Library.Fallible

variable {ε α β σ : Type}

theorem ok_of_bind {x : Except ε α} {f : α → Except ε β} {b : β} (h : x.bind f = .ok b) :
    ∃ a, x = .ok a ∧ f a = .ok b := by
  cases x with
  | error err => cases h
  | ok a => exact ⟨a, rfl, h⟩

theorem ok_of_map {x : Except ε α} {f : α → β} {b : β} (h : x.map f = .ok b) :
    ∃ a, x = .ok a ∧ f a = b := by
  cases x with
  | error err => cases h
  | ok a => exact ⟨a, rfl, Except.ok.inj h⟩

theorem ok_of_isOk {x : Except ε α} (h : x.isOk = true) : ∃ a, x = .ok a := by
  cases x with
  | error err => cases h
  | ok a => exact ⟨a, rfl⟩

section Lists

variable {f : α → Except ε β} {xs : List α} {ys : List β}

theorem ok_of_mapM_cons {x : α} (h : (x :: xs).mapM f = .ok ys) :
    ∃ y rest, f x = .ok y ∧ xs.mapM f = .ok rest ∧ ys = y :: rest := by
  rw [List.mapM_cons] at h
  obtain ⟨y, hy, h⟩ := ok_of_bind h
  obtain ⟨rest, hrest, h⟩ := ok_of_bind h
  exact ⟨y, rest, hy, hrest, (Except.ok.inj h).symm⟩

-- Every result comes from an item, and every item has a result.
theorem exists_item (h : xs.mapM f = .ok ys) : ∀ y ∈ ys, ∃ x ∈ xs, f x = .ok y := by
  induction xs generalizing ys with
  | nil =>
      obtain rfl := Except.ok.inj h
      intro y hy
      cases hy
  | cons x xs ih =>
      obtain ⟨first, rest, hfirst, hrest, rfl⟩ := ok_of_mapM_cons h
      intro y hy
      rcases List.mem_cons.mp hy with rfl | hy
      · exact ⟨x, List.mem_cons_self, hfirst⟩
      · obtain ⟨x', hx', hfx'⟩ := ih hrest y hy
        exact ⟨x', List.mem_cons_of_mem _ hx', hfx'⟩

theorem exists_result (h : xs.mapM f = .ok ys) : ∀ x ∈ xs, ∃ y ∈ ys, f x = .ok y := by
  induction xs generalizing ys with
  | nil =>
      intro x hx
      cases hx
  | cons x xs ih =>
      obtain ⟨first, rest, hfirst, hrest, rfl⟩ := ok_of_mapM_cons h
      intro x' hx'
      rcases List.mem_cons.mp hx' with rfl | hx'
      · exact ⟨first, List.mem_cons_self, hfirst⟩
      · obtain ⟨y, hy, hfx'⟩ := ih hrest x' hx'
        exact ⟨y, List.mem_cons_of_mem _ hy, hfx'⟩

theorem forall₂_of_mapM (h : xs.mapM f = .ok ys) : List.Forall₂ (fun x y => f x = .ok y) xs ys := by
  induction xs generalizing ys with
  | nil =>
      obtain rfl := Except.ok.inj h
      exact .nil
  | cons x xs ih =>
      obtain ⟨y, rest, hy, hrest, rfl⟩ := ok_of_mapM_cons h
      exact .cons hy (ih hrest)

-- What every step keeps, told of the items that are behind, holds at the end.
theorem foldlM_induction {step : σ → α → Except ε σ} (P : List α → σ → Prop)
    (hstep : ∀ done s x s', P done s → step s x = .ok s' → P (done ++ [x]) s') (done : List α)
    {s s' : σ} (hs : P done s) (h : xs.foldlM step s = .ok s') : P (done ++ xs) s' := by
  induction xs generalizing done s with
  | nil =>
      obtain rfl := Except.ok.inj h
      rw [List.append_nil]
      exact hs
  | cons x xs ih =>
      rw [List.foldlM_cons] at h
      obtain ⟨next, hnext, h⟩ := ok_of_bind h
      rw [← List.singleton_append, ← List.append_assoc]
      exact ih (done ++ [x]) (hstep done s x next hs hnext) h

end Lists

end JsonScada.Library.Fallible
