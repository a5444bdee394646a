import Mathlib.Data.List.Basic
import Mathlib.Data.Option.Basic

namespace JsonScada.Library.Table

-- A table is read by the first row that a condition selects, and an update goes to that row.
variable {α : Type*}

def updateFirst (p : α → Bool) (f : α → α) : List α → List α
  | [] => []
  | x :: xs => if p x then f x :: xs else x :: updateFirst p f xs

variable {p q : α → Bool} {f : α → α}

theorem find?_updateFirst (hkeep : ∀ x, p x = true → p (f x) = true) (xs : List α) :
    (updateFirst p f xs).find? p = (xs.find? p).map f := by
  induction xs with
  | nil => rfl
  | cons x xs ih =>
      by_cases hx : p x = true
      · simp [updateFirst, hx, hkeep x hx]
      · simp [updateFirst, hx, ih]

-- The rows that another condition selects stay as they are.
theorem find?_updateFirst_ne {xs : List α}
    (hother : ∀ x ∈ xs, p x = true → q x = false ∧ q (f x) = false) :
    (updateFirst p f xs).find? q = xs.find? q := by
  induction xs with
  | nil => rfl
  | cons x xs ih =>
      by_cases hx : p x = true
      · obtain ⟨hq, hqf⟩ := hother x List.mem_cons_self hx
        simp [updateFirst, hx, hq, hqf]
      · have hrest := ih fun y hy => hother y (List.mem_cons_of_mem _ hy)
        simp only [updateFirst, hx]
        rw [if_neg Bool.false_ne_true, List.find?_cons, List.find?_cons, hrest]

-- Where a key selects one row at most, every row that it selects is updated.
theorem updateFirst_eq_map {κ : Type*} [DecidableEq κ] {key : α → κ} {xs : List α}
    (h : (xs.map key).Nodup) (k : κ) (f : α → α) :
    updateFirst (fun x => decide (key x = k)) f xs =
      xs.map fun x => if key x = k then f x else x := by
  induction xs with
  | nil => rfl
  | cons x xs ih =>
      obtain ⟨hx, hxs⟩ := List.nodup_cons.mp h
      by_cases hk : key x = k
      · have hrest : ∀ y ∈ xs, key y ≠ k := by
          rintro y hy rfl
          exact hx (hk ▸ List.mem_map_of_mem hy)
        have hid : xs.map (fun y => if key y = k then f y else y) = xs := by
          conv_rhs => rw [← List.map_id xs]
          exact List.map_congr_left fun y hy => if_neg (hrest y hy)
        simp [updateFirst, hk, hid]
      · simp [updateFirst, hk, ih hxs]

-- What an update keeps of a row is the same in the whole table.
theorem map_updateFirst {β : Type*} {g : α → β} (hg : ∀ x, g (f x) = g x) (xs : List α) :
    (updateFirst p f xs).map g = xs.map g := by
  induction xs with
  | nil => rfl
  | cons x xs ih =>
      by_cases hx : p x = true
      · simp [updateFirst, hx, hg]
      · simp [updateFirst, hx, ih]

theorem map_find?_updateFirst {β : Type*} {g : α → β} (hq : ∀ x, q (f x) = q x)
    (hg : ∀ x, g (f x) = g x) (xs : List α) :
    ((updateFirst p f xs).find? q).map g = (xs.find? q).map g := by
  induction xs with
  | nil => rfl
  | cons x xs ih =>
      by_cases hx : p x = true
      · cases hqx : q x <;> simp [updateFirst, hx, hq, hqx, hg]
      · cases hqx : q x <;> simp [updateFirst, hx, hqx, ih]

-- A row stays, or is the one that is updated.
theorem mem_updateFirst {xs : List α} {x : α} (hx : x ∈ xs) :
    x ∈ updateFirst p f xs ∨ p x = true ∧ f x ∈ updateFirst p f xs := by
  induction xs with
  | nil => cases hx
  | cons y ys ih =>
      unfold updateFirst
      rcases List.mem_cons.mp hx with rfl | hx
      · by_cases hp : p x = true
        · rw [if_pos hp]
          exact .inr ⟨hp, List.mem_cons_self⟩
        · rw [if_neg hp]
          exact .inl List.mem_cons_self
      · by_cases hp : p y = true
        · rw [if_pos hp]
          exact .inl (List.mem_cons_of_mem _ hx)
        · rw [if_neg hp]
          rcases ih hx with hin | ⟨hpx, hin⟩
          · exact .inl (List.mem_cons_of_mem _ hin)
          · exact .inr ⟨hpx, List.mem_cons_of_mem _ hin⟩

theorem of_mem_updateFirst {xs : List α} {y : α} (hy : y ∈ updateFirst p f xs) :
    y ∈ xs ∨ ∃ x ∈ xs, p x = true ∧ y = f x := by
  induction xs with
  | nil => cases hy
  | cons x xs ih =>
      unfold updateFirst at hy
      split_ifs at hy with hp
      · rcases List.mem_cons.mp hy with rfl | hy
        · exact .inr ⟨x, List.mem_cons_self, hp, rfl⟩
        · exact .inl (List.mem_cons_of_mem _ hy)
      · rcases List.mem_cons.mp hy with rfl | hy
        · exact .inl List.mem_cons_self
        · rcases ih hy with hin | ⟨x', hx', hfx⟩
          · exact .inl (List.mem_cons_of_mem _ hin)
          · exact .inr ⟨x', List.mem_cons_of_mem _ hx', hfx⟩

-- The only row that is selected is updated.
theorem mem_updateFirst_of_unique {xs : List α} {x : α} (hx : x ∈ xs) (hp : p x = true)
    (hunique : ∀ y ∈ xs, p y = true → y = x) : f x ∈ updateFirst p f xs := by
  induction xs with
  | nil => cases hx
  | cons y ys ih =>
      unfold updateFirst
      by_cases hy : p y = true
      · obtain rfl := hunique y List.mem_cons_self hy
        rw [if_pos hy]
        exact List.mem_cons_self
      · rw [if_neg hy]
        rcases List.mem_cons.mp hx with rfl | hx
        · exact absurd hp hy
        · exact List.mem_cons_of_mem _ (ih hx fun z hz => hunique z (List.mem_cons_of_mem _ hz))

-- New rows at the end do not hide one that is already there.
theorem find?_append_of_some {xs : List α} {x : α} (ys : List α) (h : xs.find? p = some x) :
    (xs ++ ys).find? p = some x := by
  rw [List.find?_append, h, Option.some_or]

theorem isSome_find?_append {xs ys : List α} (h : (xs.find? p).isSome ∨ (ys.find? p).isSome) :
    ((xs ++ ys).find? p).isSome := by
  rw [List.find?_append]
  rcases h with h | h
  · obtain ⟨x, hx⟩ := Option.isSome_iff_exists.mp h
    rw [hx, Option.some_or]
    rfl
  · cases hx : xs.find? p with
    | none => rw [Option.none_or]; exact h
    | some x => rfl

-- A row may change in place without a change of what is asked of the table.
theorem any_set {l : List α} {i : ℕ} {x y : α} (hx : l[i]? = some x)
    (hp : p y = p x) : (l.set i y).any p = l.any p := by
  induction l generalizing i with
  | nil => cases hx
  | cons a l ih =>
      cases i with
      | zero =>
          obtain rfl : a = x := by simpa using hx
          simp [hp]
      | succ i => simp [ih (by simpa using hx)]

theorem any_modify (hp : ∀ x, p (f x) = p x)
    (l : List α) (i : ℕ) : (l.modify i f).any p = l.any p := by
  induction l generalizing i with
  | nil => simp
  | cons a l ih => cases i <;> simp [hp, ih]

-- Two updates of the row that a condition selects, where the first keeps the condition.
theorem updateFirst_updateFirst {g : α → α} (hkeep : ∀ x, p x = true → p (f x) = true)
    (xs : List α) : updateFirst p g (updateFirst p f xs) = updateFirst p (fun x => g (f x)) xs := by
  induction xs with
  | nil => rfl
  | cons x xs ih =>
      by_cases hx : p x = true
      · simp [updateFirst, hx, hkeep x hx]
      · simp [updateFirst, hx, ih]

-- An update with one row puts in the place of the row that is selected what it is updated to.
theorem updateFirst_eq_const_iff {xs : List α} {x a : α} (h : xs.find? p = some x) :
    updateFirst p f xs = updateFirst p (fun _ => a) xs ↔ f x = a := by
  induction xs with
  | nil => cases h
  | cons y ys ih =>
      rw [List.find?_cons] at h
      cases hy : p y with
      | true =>
          rw [hy] at h
          obtain rfl := Option.some.inj h
          simp [updateFirst, hy]
      | false =>
          rw [hy] at h
          simp [updateFirst, hy, ih h]

section Keeps

variable {r : α → Prop} {xs ys zs : List α}

-- The rows of a kind stay as they are, each in its place.
def Keeps (r : α → Prop) (xs ys : List α) : Prop :=
  ∀ (i : ℕ) (x : α), xs[i]? = some x → r x → ys[i]? = some x

theorem Keeps.refl (r : α → Prop) (xs : List α) : Keeps r xs xs := fun _ _ hx _ => hx

theorem Keeps.trans (h : Keeps r xs ys) (h' : Keeps r ys zs) : Keeps r xs zs :=
  fun i x hx hr => h' i x (h i x hx hr) hr

theorem keeps_append (r : α → Prop) (xs ys : List α) : Keeps r xs (xs ++ ys) := by
  intro i x hx _
  obtain ⟨hi, -⟩ := List.getElem?_eq_some_iff.mp hx
  rw [List.getElem?_append_left hi, hx]

theorem keeps_map (h : ∀ x, r x → f x = x) (xs : List α) : Keeps r xs (xs.map f) := by
  intro i x hx hr
  rw [List.getElem?_map, hx, Option.map_some, h x hr]

-- An update keeps the rows of a kind where it keeps the one that is selected.
theorem keeps_updateFirst_iff :
    Keeps r xs (updateFirst p f xs) ↔ ∀ x, xs.find? p = some x → r x → f x = x := by
  induction xs with
  | nil => simp [Keeps, updateFirst]
  | cons y ys ih =>
      by_cases hy : p y = true
      · rw [updateFirst, if_pos hy, List.find?_cons_of_pos hy]
        constructor
        · rintro h x hx hr
          obtain rfl := Option.some.inj hx
          exact Option.some.inj (h 0 y rfl hr)
        · rintro h i x hx hr
          cases i with
          | zero =>
              obtain rfl := Option.some.inj hx
              exact congrArg some (h y rfl hr)
          | succ i => exact hx
      · rw [updateFirst, if_neg hy, List.find?_cons_of_neg hy, ← ih]
        constructor
        · exact fun h i x hx hr => h (i + 1) x hx hr
        · rintro h i x hx hr
          cases i with
          | zero => exact hx
          | succ i => exact h i x hx hr

-- Rows that have not changed their kind are the same in both tables or in none.
theorem Keeps.of_trans {γ : Type*} {kind : α → γ} (hkind : ∀ x y, kind x = kind y → (r x ↔ r y))
    (hsame : ys.map kind = xs.map kind) (h : Keeps r xs ys) (h' : Keeps r xs zs) :
    Keeps r ys zs := by
  intro i y hy hr
  have hat : (xs.map kind)[i]? = some (kind y) := by
    rw [← hsame, List.getElem?_map, hy, Option.map_some]
  rw [List.getElem?_map, Option.map_eq_some_iff] at hat
  obtain ⟨x, hx, hxy⟩ := hat
  have hrx : r x := (hkind x y hxy).mpr hr
  have hyx : some y = some x := hy.symm.trans (h i x hx hrx)
  obtain rfl := Option.some.inj hyx
  exact h' i y hx hrx

end Keeps

end JsonScada.Library.Table
