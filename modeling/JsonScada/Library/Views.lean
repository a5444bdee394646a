import Mathlib.Data.List.Forall2
import Mathlib.Data.List.Sort

namespace JsonScada.Library.Views

-- Two tables that differ in the rows that a reader is not to see.
variable {α : Type*} {v : α → α → Prop} {xs ys : List α} {f : α → Bool}

def Alike (v : α → α → Prop) (xs ys : List α) : Prop :=
  List.Forall₂ (fun x y => x = y ∨ v x y) xs ys

theorem Alike.refl (v : α → α → Prop) (xs : List α) : Alike v xs xs := by
  induction xs with
  | nil => exact .nil
  | cons x xs ih => exact .cons (.inl rfl) ih

-- A condition that takes related rows for the same selects related rows.
theorem Alike.filter (hf : ∀ x y, v x y → f x = f y) (h : Alike v xs ys) :
    Alike v (xs.filter f) (ys.filter f) := by
  induction h with
  | nil => exact .nil
  | @cons x y xs ys hxy _ ih =>
      have hsame : f x = f y := by
        rcases hxy with rfl | hxy
        · rfl
        · exact hf x y hxy
      cases hfx : f x with
      | true =>
          rw [List.filter_cons_of_pos hfx, List.filter_cons_of_pos (hsame ▸ hfx)]
          exact .cons hxy ih
      | false =>
          rw [List.filter_cons_of_neg (Bool.not_eq_true _ ▸ hfx),
            List.filter_cons_of_neg (Bool.not_eq_true _ ▸ (hsame ▸ hfx))]
          exact ih

-- A condition that no hidden row meets selects the same rows.
theorem Alike.filter_eq (hf : ∀ x y, v x y → f x = false ∧ f y = false) (h : Alike v xs ys) :
    xs.filter f = ys.filter f := by
  induction h with
  | nil => rfl
  | @cons x y xs ys hxy _ ih =>
      rcases hxy with rfl | hxy
      · rw [List.filter_cons, List.filter_cons, ih]
      · obtain ⟨hx, hy⟩ := hf x y hxy
        rw [List.filter_cons_of_neg (Bool.not_eq_true _ ▸ hx),
          List.filter_cons_of_neg (Bool.not_eq_true _ ▸ hy), ih]

theorem Alike.eq_nil_iff (h : Alike v xs ys) : xs = [] ↔ ys = [] := by
  rw [← List.length_eq_zero_iff, ← List.length_eq_zero_iff, h.length_eq]

-- The first row that a condition selects.
theorem Alike.find? (hf : ∀ x y, v x y → f x = f y) (h : Alike v xs ys) :
    Option.Rel (fun x y => x = y ∨ v x y) (xs.find? f) (ys.find? f) := by
  induction h with
  | nil => exact .none
  | @cons x y xs ys hxy _ ih =>
      have hsame : f x = f y := by
        rcases hxy with rfl | hxy
        · rfl
        · exact hf x y hxy
      cases hfx : f x with
      | true =>
          rw [List.find?_cons_of_pos hfx, List.find?_cons_of_pos (hsame ▸ hfx)]
          exact .some hxy
      | false =>
          rw [List.find?_cons_of_neg (Bool.not_eq_true _ ▸ hfx),
            List.find?_cons_of_neg (Bool.not_eq_true _ ▸ (hsame ▸ hfx))]
          exact ih

section Distinct

variable (same : α → α → Bool)

-- The rows that are like none before them.
def distinct : List α → List α
  | [] => []
  | x :: xs => x :: (distinct xs).filter fun y => !same x y

theorem filter_distinct (hf : ∀ x y, same x y = true → f x = f y) (xs : List α) :
    (distinct same xs).filter f = distinct same (xs.filter f) := by
  induction xs with
  | nil => rfl
  | cons x xs ih =>
      rw [distinct]
      cases hfx : f x with
      | true =>
          rw [List.filter_cons_of_pos hfx, List.filter_cons_of_pos hfx, distinct, ← ih,
            List.filter_filter, List.filter_filter]
          simp only [Bool.and_comm]
      | false =>
          rw [List.filter_cons_of_neg (Bool.not_eq_true _ ▸ hfx),
            List.filter_cons_of_neg (Bool.not_eq_true _ ▸ hfx), ← ih, List.filter_filter]
          refine List.filter_congr fun y _ => ?_
          cases hsame : same x y with
          | true => simp [← hf x y hsame, hfx]
          | false => simp

end Distinct

section Sorting

variable {r : α → α → Prop} [DecidableRel r]

-- A row that is not selected changes nothing in the selected ones.
theorem filter_orderedInsert_neg {a : α} (ha : f a = false) (xs : List α) :
    (xs.orderedInsert r a).filter f = xs.filter f := by
  induction xs with
  | nil => simp [ha]
  | cons x xs ih =>
      rw [List.orderedInsert_cons]
      split_ifs
      · rw [List.filter_cons_of_neg (Bool.not_eq_true _ ▸ ha)]
      · rw [List.filter_cons, List.filter_cons, ih]

theorem filter_orderedInsert_pos (htrans : ∀ a b c, r a b → r b c → r a c) {a : α}
    (ha : f a = true) {xs : List α} (hxs : xs.Pairwise r) :
    (xs.orderedInsert r a).filter f = (xs.filter f).orderedInsert r a := by
  have hfirst {zs : List α} (h : ∀ z ∈ zs, r a z) : zs.orderedInsert r a = a :: zs := by
    cases zs with
    | nil => rfl
    | cons z zs => exact List.orderedInsert_cons_of_le r zs (h z List.mem_cons_self)
  induction xs with
  | nil => simp [ha]
  | cons x xs ih =>
      obtain ⟨hx, hxs⟩ := List.pairwise_cons.mp hxs
      rw [List.orderedInsert_cons]
      split_ifs with hle
      · rw [List.filter_cons_of_pos ha]
        refine (hfirst fun z hz => ?_).symm
        rcases List.mem_cons.mp (List.mem_filter.mp hz).1 with rfl | hz
        · exact hle
        · exact htrans a x z hle (hx z hz)
      · cases hfx : f x with
        | true =>
            rw [List.filter_cons_of_pos hfx, List.filter_cons_of_pos hfx, ih hxs,
              List.orderedInsert_of_not_le r _ hle]
        | false =>
            rw [List.filter_cons_of_neg (Bool.not_eq_true _ ▸ hfx),
              List.filter_cons_of_neg (Bool.not_eq_true _ ▸ hfx), ih hxs]

-- The order of the selected rows is decided among themselves.
theorem filter_insertionSort (htotal : ∀ a b, r a b ∨ r b a)
    (htrans : ∀ a b c, r a b → r b c → r a c) (f : α → Bool) (xs : List α) :
    (xs.insertionSort r).filter f = (xs.filter f).insertionSort r := by
  have : Std.Total r := ⟨htotal⟩
  have : IsTrans α r := ⟨htrans⟩
  induction xs with
  | nil => rfl
  | cons x xs ih =>
      rw [List.insertionSort_cons]
      cases hfx : f x with
      | true =>
          rw [filter_orderedInsert_pos htrans hfx (List.pairwise_insertionSort r xs), ih,
            List.filter_cons_of_pos hfx, List.insertionSort_cons]
      | false =>
          rw [filter_orderedInsert_neg hfx, ih,
            List.filter_cons_of_neg (Bool.not_eq_true _ ▸ hfx)]

end Sorting

section Blocks

-- Rows in the order of a key: those of one key follow each other.
variable {κ : Type*} [DecidableEq κ] {key : α → κ} {le : κ → κ → Bool} {k : κ} {xs : List α}

theorem append_blocks (htrans : ∀ a b c, le a b = true → le b c = true → le a c = true)
    (hantisymm : ∀ a b, le a b = true → le b a = true → a = b)
    (hsorted : xs.Pairwise fun x y => key x = key y ∨ le (key x) (key y) = true) :
    xs.filter (fun x => key x ≠ k && le (key x) k) ++
      (xs.filter (key · = k) ++ xs.filter fun x => key x ≠ k && !le (key x) k) = xs := by
  induction xs with
  | nil => rfl
  | cons x xs ih =>
      obtain ⟨hx, hxs⟩ := List.pairwise_cons.mp hsorted
      have ih := ih hxs
      by_cases hk : key x = k
      · have hbefore : xs.filter (fun y => key y ≠ k && le (key y) k) = [] := by
          rw [List.filter_eq_nil_iff]
          intro y hy hy'
          rw [Bool.and_eq_true, decide_eq_true_eq] at hy'
          rcases hx y hy with heq | hle
          · exact hy'.1 (heq ▸ hk)
          · exact hy'.1 (hantisymm _ _ hy'.2 (hk ▸ hle))
        rw [hbefore, List.nil_append] at ih
        rw [List.filter_cons_of_neg (by simp [hk]), List.filter_cons_of_pos (by simp [hk]),
          List.filter_cons_of_neg (by simp [hk]), hbefore, List.nil_append, List.cons_append, ih]
      · cases hle : le (key x) k with
        | true =>
            rw [List.filter_cons_of_pos (by simp [hk, hle]), List.filter_cons_of_neg (by simp [hk]),
              List.filter_cons_of_neg (by simp [hle]), List.cons_append, ih]
        | false =>
            -- the rows behind are not in front of the key either
            have hbehind : ∀ y ∈ xs, le (key y) k = false ∧ key y ≠ k := by
              intro y hy
              have hnot : le (key y) k = false := by
                rw [Bool.eq_false_iff]
                intro hy'
                rcases hx y hy with heq | hxy
                · exact Bool.false_ne_true (hle.symm.trans (heq ▸ hy'))
                · exact Bool.false_ne_true (hle.symm.trans (htrans _ _ _ hxy hy'))
              refine ⟨hnot, fun hyk => ?_⟩
              rcases hx y hy with heq | hxy
              · exact hk (heq.trans hyk)
              · exact Bool.false_ne_true (hle.symm.trans (hyk ▸ hxy))
            have hbefore : xs.filter (fun y => key y ≠ k && le (key y) k) = [] := by
              rw [List.filter_eq_nil_iff]
              intro y hy
              simp [(hbehind y hy).1]
            have hsame : xs.filter (key · = k) = [] := by
              rw [List.filter_eq_nil_iff]
              intro y hy
              simp [(hbehind y hy).2]
            rw [hbefore, hsame, List.nil_append, List.nil_append] at ih
            rw [List.filter_cons_of_neg (by simp [hle]), List.filter_cons_of_neg (by simp [hk]),
              List.filter_cons_of_pos (by simp [hk, hle]), hbefore, hsame, ih]
            rfl

-- What a number of rows leaves of those of one key.
theorem filter_take_block (htrans : ∀ a b c, le a b = true → le b c = true → le a c = true)
    (hantisymm : ∀ a b, le a b = true → le b a = true → a = b)
    (hsorted : xs.Pairwise fun x y => key x = key y ∨ le (key x) (key y) = true) (n : ℕ) :
    (xs.take n).filter (key · = k) =
      (xs.filter (key · = k)).take (n - (xs.filter fun x => key x ≠ k && le (key x) k).length) := by
  have hnone {p : α → Bool} (hp : ∀ x, p x = true → key x ≠ k) (m : ℕ) :
      ((xs.filter p).take m).filter (key · = k) = [] := by
    rw [List.filter_eq_nil_iff]
    intro x hx
    simpa using hp x (List.mem_filter.mp (List.mem_of_mem_take hx)).2
  have hall (m : ℕ) : ((xs.filter (key · = k)).take m).filter (key · = k) =
      (xs.filter (key · = k)).take m := by
    rw [List.filter_eq_self]
    intro x hx
    exact (List.mem_filter.mp (List.mem_of_mem_take hx)).2
  conv_lhs => rw [← append_blocks (k := k) htrans hantisymm hsorted]
  rw [List.take_append, List.take_append, List.filter_append, List.filter_append,
    hnone (by simp +contextual), hall, hnone (by simp +contextual), List.nil_append,
    List.append_nil]

end Blocks

end JsonScada.Library.Views
