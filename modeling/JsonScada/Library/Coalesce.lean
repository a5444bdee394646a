import Mathlib.Data.List.Basic
import Mathlib.Data.List.Perm.Basic

-- Items put into groups by a key, and neighbours of a list put together into runs.
namespace JsonScada.Library

section Groups

variable {α κ : Type*} [DecidableEq κ] (key : α → κ)

-- A key that is new opens a group at the end.
def addToGroup (x : α) : List (κ × List α) → List (κ × List α)
  | [] => [(key x, [x])]
  | g :: gs => if g.1 = key x then (g.1, g.2 ++ [x]) :: gs else g :: addToGroup x gs

def groupsBy (xs : List α) : List (κ × List α) :=
  xs.foldl (fun gs x => addToGroup key x gs) []

theorem addToGroup_perm (x : α) (gs : List (κ × List α)) :
    ((addToGroup key x gs).flatMap Prod.snd).Perm (gs.flatMap Prod.snd ++ [x]) := by
  induction gs with
  | nil => exact List.Perm.refl _
  | cons g gs ih =>
      rw [addToGroup]
      split
      · simp only [List.flatMap_cons, List.append_assoc]
        exact List.perm_append_comm.append_left g.2
      · simp only [List.flatMap_cons, List.append_assoc]
        exact ih.append_left g.2

-- Every item is in one group.
theorem groupsBy_perm (xs : List α) : ((groupsBy key xs).flatMap Prod.snd).Perm xs := by
  suffices h : ∀ gs, ((xs.foldl (fun gs x => addToGroup key x gs) gs).flatMap Prod.snd).Perm
      (gs.flatMap Prod.snd ++ xs) from h []
  induction xs with
  | nil => simp
  | cons x xs ih =>
      intro gs
      have hadd := (addToGroup_perm key x gs).append_right xs
      rw [List.append_assoc] at hadd
      exact (ih _).trans hadd

theorem addToGroup_key {x : α} {gs : List (κ × List α)}
    (h : ∀ g ∈ gs, ∀ y ∈ g.2, key y = g.1) :
    ∀ g ∈ addToGroup key x gs, ∀ y ∈ g.2, key y = g.1 := by
  induction gs with
  | nil => simp [addToGroup]
  | cons g gs ih =>
      obtain ⟨hg, hgs⟩ := List.forall_mem_cons.mp h
      rw [addToGroup]
      split
      · rename_i hkey
        refine List.forall_mem_cons.mpr ⟨?_, hgs⟩
        intro y hy
        rcases List.mem_append.mp hy with hy | hy
        · exact hg y hy
        · rw [List.mem_singleton.mp hy]
          exact hkey.symm
      · exact List.forall_mem_cons.mpr ⟨hg, ih hgs⟩

-- The items of a group have its key.
theorem groupsBy_key (xs : List α) : ∀ g ∈ groupsBy key xs, ∀ y ∈ g.2, key y = g.1 := by
  suffices h : ∀ gs : List (κ × List α), (∀ g ∈ gs, ∀ y ∈ g.2, key y = g.1) →
      ∀ g ∈ xs.foldl (fun gs x => addToGroup key x gs) gs, ∀ y ∈ g.2, key y = g.1 from
    h [] (by simp)
  induction xs with
  | nil => exact fun gs h => h
  | cons x xs ih => exact fun gs h => ih _ (addToGroup_key key h)

end Groups

-- A run starts from one item, and takes the next one or does not.
structure Coalescer (α ρ : Type*) where
  fresh : α → ρ
  extend : ρ → α → Option ρ

namespace Coalescer

variable {α ρ : Type*} (c : Coalescer α ρ)

def coalesceFrom (run : ρ) : List α → List ρ
  | [] => [run]
  | x :: xs =>
      match c.extend run x with
      | some run' => coalesceFrom run' xs
      | none => run :: coalesceFrom (c.fresh x) xs

def coalesce : List α → List ρ
  | [] => []
  | x :: xs => c.coalesceFrom (c.fresh x) xs

section Items

variable (items : ρ → List α) (hfresh : ∀ x, items (c.fresh x) = [x])
  (hextend : ∀ {run x run'}, c.extend run x = some run' → items run' = items run ++ [x])

include hfresh hextend

theorem items_coalesceFrom (run : ρ) (xs : List α) :
    (c.coalesceFrom run xs).flatMap items = items run ++ xs := by
  induction xs generalizing run with
  | nil => simp [coalesceFrom]
  | cons x xs ih =>
      rw [coalesceFrom]
      cases he : c.extend run x with
      | some run' =>
          simp only
          rw [ih, hextend he, List.append_assoc, List.singleton_append]
      | none =>
          simp only [List.flatMap_cons]
          rw [ih, hfresh, List.singleton_append]

-- The runs have the items of the list, in its order.
theorem items_coalesce (xs : List α) : (c.coalesce xs).flatMap items = xs := by
  cases xs with
  | nil => rfl
  | cons x xs =>
      rw [coalesce, items_coalesceFrom c items hfresh hextend, hfresh, List.singleton_append]

end Items

section Invariant

variable {r : α → α → Prop} {Inv : ρ → Prop} (good : α → Prop) (before : ρ → α → Prop)
  (hbefore : ∀ {x y}, r x y → before (c.fresh x) y)
  (hkeep : ∀ {run x run' y}, c.extend run x = some run' → before run y → before run' y)
  (hfresh : ∀ {x}, good x → Inv (c.fresh x))
  (hextend : ∀ {run x run'}, good x → Inv run → before run x → c.extend run x = some run' → Inv run')

include hbefore hkeep hfresh hextend

theorem coalesceFrom_forall {run : ρ} {xs : List α} (hrun : Inv run) (hxs : ∀ x ∈ xs, good x)
    (hsorted : xs.Pairwise r) (hpos : ∀ x ∈ xs, before run x) :
    ∀ run' ∈ c.coalesceFrom run xs, Inv run' := by
  induction xs generalizing run with
  | nil => simpa [coalesceFrom] using hrun
  | cons x xs ih =>
      obtain ⟨hgood, hxs⟩ := List.forall_mem_cons.mp hxs
      obtain ⟨hle, hsorted⟩ := List.pairwise_cons.mp hsorted
      obtain ⟨hx, hpos⟩ := List.forall_mem_cons.mp hpos
      rw [coalesceFrom]
      cases he : c.extend run x with
      | some run' =>
          exact ih (hextend hgood hrun hx he) hxs hsorted fun y hy => hkeep he (hpos y hy)
      | none =>
          refine List.forall_mem_cons.mpr ⟨hrun, ?_⟩
          exact ih (hfresh hgood) hxs hsorted fun y hy => hbefore (hle y hy)

-- What a fresh run has and a step keeps, where the next item comes after the run, every run
-- of a sorted list has.
theorem coalesce_forall {xs : List α} (hxs : ∀ x ∈ xs, good x) (hsorted : xs.Pairwise r) :
    ∀ run ∈ c.coalesce xs, Inv run := by
  cases xs with
  | nil => simp [coalesce]
  | cons x xs =>
      obtain ⟨hgood, hxs⟩ := List.forall_mem_cons.mp hxs
      obtain ⟨hle, hsorted⟩ := List.pairwise_cons.mp hsorted
      exact coalesceFrom_forall c good before hbefore hkeep hfresh hextend (hfresh hgood) hxs hsorted
        fun y hy => hbefore (hle y hy)

end Invariant

end Coalescer

end JsonScada.Library
