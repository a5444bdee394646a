import Mathlib.Data.List.Basic
import Mathlib.Data.List.Induction
import Mathlib.Data.List.Nodup

namespace JsonScada.Library.Assoc

-- Lists of entries that are found by their key.
variable {κ ν μ : Type*} [BEq κ] [LawfulBEq κ] {l : List (κ × ν)} {k removed : κ}

theorem lookup_of_mem (hnodup : (l.map Prod.fst).Nodup) {e : κ × ν} (he : e ∈ l) :
    l.lookup e.1 = some e.2 := by
  induction l with
  | nil => cases he
  | cons g l ih =>
      obtain ⟨hg, hl⟩ := List.nodup_cons.mp hnodup
      rcases List.mem_cons.mp he with rfl | he
      · rw [List.lookup_cons, beq_self_eq_true]
      · have hne : (e.1 == g.1) = false := by
          rw [beq_eq_false_iff_ne]
          intro heg
          exact hg (heg ▸ List.mem_map_of_mem he)
        rw [List.lookup_cons, hne]
        exact ih hl he

-- What happens to the entries of one key says nothing about another.
theorem lookup_filter_ne [DecidableEq κ] (h : k ≠ removed) (l : List (κ × ν)) :
    (l.filter fun e => e.1 ≠ removed).lookup k = l.lookup k := by
  induction l with
  | nil => rfl
  | cons e l ih =>
      obtain ⟨j, v⟩ := e
      by_cases hj : j = removed
      · have hne : (k == j) = false := by simpa [hj] using h
        rw [List.filter_cons_of_neg (by simp [hj]), ih, List.lookup_cons, hne]
      · rw [List.filter_cons_of_pos (by simpa using hj), List.lookup_cons, List.lookup_cons, ih]

theorem lookup_map (f : κ → ν → μ) (l : List (κ × ν)) (k : κ) :
    (l.map fun e => (e.1, f e.1 e.2)).lookup k = (l.lookup k).map (f k) := by
  induction l with
  | nil => rfl
  | cons e l ih =>
      obtain ⟨j, v⟩ := e
      rw [List.map_cons, List.lookup_cons, List.lookup_cons, ih]
      cases hj : k == j with
      | true =>
        obtain rfl := eq_of_beq hj
        rfl
      | false => rfl

end JsonScada.Library.Assoc

-- Grouping a list by a key, in the order in which the keys are first seen.
namespace JsonScada.Library.Grouping

variable {α κ : Type*}

-- A group has a first member.
structure Members (α : Type*) where
  lead : α
  rest : List α := []

def Members.toList (m : Members α) : List α := m.lead :: m.rest

def membersOf (found : Option (Members α)) : List α := found.elim [] Members.toList

def extend (x : α) : Option (Members α) → Members α
  | none => { lead := x }
  | some m => { m with rest := m.rest ++ [x] }

theorem toList_extend (x : α) (found : Option (Members α)) :
    (extend x found).toList = membersOf found ++ [x] := by
  cases found <;> simp [extend, Members.toList, membersOf]

section Group

variable [DecidableEq κ] (key : α → κ)

def add (x : α) : List (κ × Members α) → List (κ × Members α)
  | [] => [(key x, extend x none)]
  | (k, m) :: groups =>
      if key x = k then (k, extend x (some m)) :: groups else (k, m) :: add x groups

def group (xs : List α) : List (κ × Members α) := xs.foldl (fun groups x => add key x groups) []

-- The groups share the list out: the members of each are those of its key, in their order.
structure SharesOut (xs : List α) (groups : List (κ × Members α)) : Prop where
  nodup : (groups.map Prod.fst).Nodup
  members : ∀ k, membersOf (groups.lookup k) = xs.filter fun x => key x = k

variable {key} {x : α} {xs : List α} {groups : List (κ × Members α)} {g : κ × Members α}

theorem mem_keys_add {k : κ} :
    k ∈ (add key x groups).map Prod.fst ↔ k = key x ∨ k ∈ groups.map Prod.fst := by
  induction groups with
  | nil => simp [add]
  | cons first groups ih =>
      obtain ⟨j, m⟩ := first
      rw [add]
      by_cases hj : key x = j
      · subst hj
        simp
      · rw [if_neg hj, List.map_cons, List.mem_cons, ih, List.map_cons, List.mem_cons, or_left_comm]

theorem nodup_keys_add (h : (groups.map Prod.fst).Nodup) :
    ((add key x groups).map Prod.fst).Nodup := by
  induction groups with
  | nil => exact List.nodup_singleton _
  | cons first groups ih =>
      obtain ⟨j, m⟩ := first
      obtain ⟨hj, hrest⟩ := List.nodup_cons.mp h
      rw [add]
      by_cases hx : key x = j
      · rw [if_pos hx]
        exact h
      · rw [if_neg hx, List.map_cons, List.nodup_cons, mem_keys_add]
        exact ⟨fun hmem => hmem.elim (fun hjx => hx hjx.symm) hj, ih hrest⟩

theorem lookup_add {k : κ} :
    (add key x groups).lookup k =
      if k = key x then some (extend x (groups.lookup k)) else groups.lookup k := by
  induction groups with
  | nil =>
      by_cases hk : k = key x
      · simp [add, hk]
      · have hbeq : (k == key x) = false := beq_eq_false_iff_ne.mpr hk
        rw [if_neg hk, add, List.lookup_cons, hbeq]
  | cons first groups ih =>
      obtain ⟨j, m⟩ := first
      rw [add]
      by_cases hx : key x = j
      · subst hx
        by_cases hk : k = key x
        · simp [hk]
        · have hbeq : (k == key x) = false := beq_eq_false_iff_ne.mpr hk
          rw [if_pos rfl, if_neg hk, List.lookup_cons, List.lookup_cons, hbeq]
      · rw [if_neg hx, List.lookup_cons, List.lookup_cons, ih]
        by_cases hk : k = j
        · have hne : k ≠ key x := fun heq => hx (heq.symm.trans hk)
          simp [hk, Ne.symm hx]
        · have hbeq : (k == j) = false := beq_eq_false_iff_ne.mpr hk
          rw [hbeq]

theorem SharesOut.nil : SharesOut key [] [] := ⟨List.nodup_nil, fun _ => rfl⟩

theorem SharesOut.add (h : SharesOut key xs groups) :
    SharesOut key (xs ++ [x]) (Grouping.add key x groups) where
  nodup := nodup_keys_add h.nodup
  members k := by
    rw [lookup_add, List.filter_append, ← h.members k]
    by_cases hk : k = key x
    · rw [if_pos hk, List.filter_singleton, decide_eq_true hk.symm]
      exact toList_extend x _
    · rw [if_neg hk, List.filter_singleton, decide_eq_false fun hx => hk hx.symm]
      exact (List.append_nil _).symm

theorem sharesOut_group (xs : List α) : SharesOut key xs (group key xs) := by
  induction xs using List.reverseRecOn with
  | nil => exact SharesOut.nil
  | append_singleton xs x ih =>
      rw [group, List.foldl_append]
      exact ih.add

theorem toList_of_mem_group (hg : g ∈ group key xs) :
    g.2.toList = xs.filter fun x => key x = g.1 := by
  rw [← (sharesOut_group xs).members g.1, Assoc.lookup_of_mem (sharesOut_group xs).nodup hg]
  rfl

theorem perm_add (x : α) (groups : List (κ × Members α)) :
    ((add key x groups).flatMap fun g => g.2.toList).Perm
      ((groups.flatMap fun g => g.2.toList) ++ [x]) := by
  induction groups with
  | nil => exact .refl _
  | cons first groups ih =>
      obtain ⟨j, m⟩ := first
      rw [add]
      by_cases hj : key x = j
      · rw [if_pos hj, List.flatMap_cons, List.flatMap_cons, toList_extend, List.append_assoc,
          List.append_assoc]
        exact List.perm_append_comm.append_left _
      · rw [if_neg hj, List.flatMap_cons, List.flatMap_cons, List.append_assoc]
        exact ih.append_left _

-- The members of the groups are the list, in another order.
theorem perm_group (xs : List α) : ((group key xs).flatMap fun g => g.2.toList).Perm xs := by
  induction xs using List.reverseRecOn with
  | nil => exact .refl _
  | append_singleton xs x ih =>
      rw [group, List.foldl_append]
      exact (perm_add x _).trans (ih.append_right _)

theorem mem_toList_of_mem_group (hg : g ∈ group key xs) :
    x ∈ g.2.toList ↔ x ∈ xs ∧ key x = g.1 := by
  rw [toList_of_mem_group hg, List.mem_filter, decide_eq_true_iff]

-- The lead of a group is the first of the list with its key.
theorem find?_key (hg : g ∈ group key xs) :
    xs.find? (fun x => key x = g.1) = some g.2.lead := by
  rw [← List.head?_filter, ← toList_of_mem_group hg]
  rfl

theorem exists_group (hx : x ∈ xs) : ∃ g ∈ group key xs, g.1 = key x := by
  have hmem : x ∈ membersOf ((group key xs).lookup (key x)) := by
    rw [(sharesOut_group xs).members, List.mem_filter]
    exact ⟨hx, decide_eq_true rfl⟩
  cases hfound : (group key xs).lookup (key x) with
  | none =>
      rw [hfound] at hmem
      cases hmem
  | some m =>
      obtain ⟨before, after, hsplit, -⟩ := List.lookup_eq_some_iff.mp hfound
      exact ⟨(key x, m), hsplit ▸ List.mem_append_right _ List.mem_cons_self, rfl⟩

end Group

end JsonScada.Library.Grouping
