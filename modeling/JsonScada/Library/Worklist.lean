import Mathlib.Logic.Relation

namespace JsonScada.Library.Worklist

open Relation (ReflTransGen)

-- A traversal from a start keeps what it has found and what it has still to visit. A visit of
-- `n` finds every `m` with `finds n m`, and those with `follows n m` are visited in turn.
variable {ν : Type*} {finds follows : ν → ν → Prop} {start : ν} {found found' : ν → Prop}
  {pending pending' : List ν}

-- There is nothing more to find at a node.
def Exhausted (finds : ν → ν → Prop) (found : ν → Prop) (n : ν) : Prop := ∀ m, finds n m → found m

theorem Exhausted.mono {n : ν} (h : Exhausted finds found n) (hmono : ∀ m, found m → found' m) :
    Exhausted finds found' n :=
  fun m hm => hmono m (h m hm)

structure Frontier (finds follows : ν → ν → Prop) (start : ν) (found : ν → Prop)
    (pending : List ν) : Prop where
  origin : start ∈ pending ∨ Exhausted finds found start
  followed : ∀ n m, follows n m → found m → m ∈ pending ∨ Exhausted finds found m

-- A round of visits: what was pending stays so or is exhausted, and so is what is new.
theorem Frontier.advance (h : Frontier finds follows start found pending)
    (hmono : ∀ m, found m → found' m)
    (hold : ∀ n ∈ pending, n ∈ pending' ∨ Exhausted finds found' n)
    (hnew : ∀ n m, follows n m → found' m → ¬found m → m ∈ pending' ∨ Exhausted finds found' m) :
    Frontier finds follows start found' pending' := by
  have hkeep : ∀ n, n ∈ pending ∨ Exhausted finds found n →
      n ∈ pending' ∨ Exhausted finds found' n := by
    rintro n (hn | hn)
    · exact hold n hn
    · exact .inr (hn.mono hmono)
  refine ⟨hkeep start h.origin, ?_⟩
  intro n m hfollows hm
  by_cases hbefore : found m
  · exact hkeep m (h.followed n m hfollows hbefore)
  · exact hnew n m hfollows hm hbefore

-- With nothing to find at what is still pending, everything that can be reached is found.
theorem Frontier.complete (h : Frontier finds follows start found pending)
    (hfinds : ∀ n m, follows n m → finds n m) (hend : ∀ n ∈ pending, Exhausted finds found n)
    {n m : ν} (hn : ReflTransGen follows start n) (hm : finds n m) : found m := by
  have hexhausted : Exhausted finds found n := by
    clear hm
    induction hn with
    | refl => exact h.origin.elim (hend start) id
    | tail _ hstep ih =>
        have hfound := ih _ (hfinds _ _ hstep)
        exact (h.followed _ _ hstep hfound).elim (hend _) id
  exact hexhausted m hm

end JsonScada.Library.Worklist
