import JsonScada.Library.LastAt
import JsonScada.Library.LastWrite
import Mathlib.Data.Int.Notation
import Mathlib.Data.List.Basic
import Mathlib.Tactic.Common

-- Items that leave in batches of one kind, each as long as the limit and the next item let it be.
namespace JsonScada.Library.Batches

variable {α κ : Type*} (kind : α → κ) (limit : ℤ)

-- A batch, in front of what has not been taken yet. One item goes whatever the limit is.
structure IsBatch (batch rest : List α) : Prop where
  nonempty : batch ≠ []
  uniform : ∀ a ∈ batch, ∀ b ∈ batch, kind a = kind b
  size : (batch.length : ℤ) ≤ max limit 1
  maximal : (batch.length : ℤ) < limit → ∀ next ∈ rest.head?, ∀ a ∈ batch, kind next ≠ kind a

-- Batches that follow each other.
def Cuts : List (List α) → Prop
  | [] => True
  | batch :: batches => IsBatch kind limit batch batches.flatten ∧ Cuts batches

section Extent

variable [DecidableEq κ]

-- How many items of the kind stand in front, when `count` have been taken before.
def extent (k : κ) : ℤ → List α → ℕ
  | _, [] => 0
  | count, a :: rest => if count < limit ∧ kind a = k then extent k (count + 1) rest + 1 else 0

variable {kind limit} {k : κ}

theorem extent_uniform {count : ℤ} {items : List α} :
    ∀ a ∈ items.take (extent kind limit k count items), kind a = k := by
  induction items generalizing count with
  | nil => simp
  | cons b items ih =>
      rw [extent]
      split_ifs with h
      · rw [List.take_succ_cons]
        exact List.forall_mem_cons.mpr ⟨h.2, ih⟩
      · simp

variable (kind limit k) in
theorem extent_size (count : ℤ) (items : List α) :
    extent kind limit k count items ≤ items.length ∧
      (extent kind limit k count items : ℤ) ≤ max (limit - count) 0 := by
  induction items generalizing count with
  | nil =>
      simp only [extent, List.length_nil]
      omega
  | cons b items ih =>
      obtain ⟨hlength, hlimit⟩ := ih (count + 1)
      rw [extent, List.length_cons]
      split_ifs <;> omega

theorem extent_maximal {count : ℤ} {items : List α}
    (h : count + extent kind limit k count items < limit) :
    ∀ next ∈ (items.drop (extent kind limit k count items)).head?, kind next ≠ k := by
  induction items generalizing count with
  | nil => simp
  | cons b items ih =>
      rw [extent] at h ⊢
      split_ifs at h ⊢ with hb
      · rw [List.drop_succ_cons]
        push_cast at h
        exact ih (by omega)
      · have hroom : count < limit := by simpa using h
        intro next hnext
        obtain rfl : b = next := by simpa using hnext
        exact fun hkind => hb ⟨hroom, hkind⟩

-- The first item and those after it that go with it.
theorem isBatch_extent (a : α) (rest : List α) :
    IsBatch kind limit (a :: rest.take (extent kind limit (kind a) 1 rest))
      (rest.drop (extent kind limit (kind a) 1 rest)) := by
  obtain ⟨hlength, hlimit⟩ := extent_size kind limit (kind a) 1 rest
  have hkind : ∀ b ∈ a :: rest.take (extent kind limit (kind a) 1 rest), kind b = kind a :=
    List.forall_mem_cons.mpr ⟨rfl, extent_uniform⟩
  have hsize : ((a :: rest.take (extent kind limit (kind a) 1 rest)).length : ℤ) =
      1 + extent kind limit (kind a) 1 rest := by
    rw [List.length_cons, List.length_take, Nat.min_eq_left hlength]
    omega
  refine ⟨List.cons_ne_nil _ _, ?_, ?_, ?_⟩
  · intro b hb c hc
    rw [hkind b hb, hkind c hc]
  · rw [hsize]
    omega
  · intro hroom next hnext b hb
    rw [hsize] at hroom
    rw [hkind b hb]
    exact extent_maximal hroom next hnext

end Extent

end JsonScada.Library.Batches

-- Entries that wait to be applied, where the last one of each key is to win.
namespace JsonScada.Library.Backlog

variable {α κ ν : Type*} [DecidableEq κ]

section LastOf

variable (key : α → κ) (k : κ)

def lastOf (l : List α) : Option α := (ofKey key k l).getLast?

@[simp] theorem lastOf_nil : lastOf key k [] = none := rfl

variable {key k} {l m : List α} {v : α}

theorem lastOf_append : lastOf key k (l ++ m) = (lastOf key k m).or (lastOf key k l) := by
  rw [lastOf, ofKey_append, List.getLast?_append]
  rfl

theorem lastOf_concat_self (h : key v = k) : lastOf key k (l ++ [v]) = some v := by
  rw [lastOf, ofKey_append, ofKey_cons_self _ h, ofKey_nil, List.getLast?_concat]

theorem lastOf_concat_ne (h : key v ≠ k) : lastOf key k (l ++ [v]) = lastOf key k l := by
  rw [lastOf, ofKey_append, ofKey_cons_ne _ h, ofKey_nil, List.append_nil]
  rfl

theorem lastOf_eq_none_iff : lastOf key k l = none ↔ ∀ w ∈ l, key w ≠ k := by
  rw [lastOf, List.getLast?_eq_none_iff, ofKey_eq_nil_iff]

theorem mem_of_lastOf (h : lastOf key k l = some v) : v ∈ l ∧ key v = k := by
  obtain ⟨pre, post, rfl, hv, -⟩ := exists_of_getLast?_ofKey h
  exact ⟨by simp, hv⟩

-- What the operations leave of one key is what the last of them writes.
theorem after_eq_lastOf (value : α → ν) (init : Option ν) (ops : List α) :
    LastWrite.after (fun w => if key w = k then some (value w) else none) init ops =
      ((lastOf key k ops).map value).or init := by
  induction ops using List.reverseRecOn with
  | nil => rfl
  | append_singleton ops w ih =>
      rw [LastWrite.after_concat, ih]
      by_cases hw : key w = k
      · rw [if_pos hw, lastOf_concat_self hw, Option.map_some, Option.some_or, Option.some_or]
      · rw [if_neg hw, lastOf_concat_ne hw, Option.none_or]

end LastOf

section Keeps

-- The last entry that came in of each key is the last that waits, or is applied while none of
-- them waits, or is to be followed by another one.
def Keeps (key : α → κ) (applied : κ → α → Prop) (done pending later : List α) : Prop :=
  ∀ k v, lastOf key k done = some v →
    lastOf key k pending = some v ∨ lastOf key k pending = none ∧ applied k v ∨
      ∃ w ∈ later, key w = k

variable {key : α → κ} {applied applied' : κ → α → Prop} {done pending later : List α}

theorem keeps_nil (pending later : List α) : Keeps key applied [] pending later := by
  intro k v hv
  cases hv

theorem Keeps.push {v : α} (h : Keeps key applied done pending (v :: later)) :
    Keeps key applied (done ++ [v]) (pending ++ [v]) later := by
  intro k w hw
  by_cases hk : key v = k
  · rw [lastOf_concat_self hk] at hw ⊢
    exact .inl hw
  · rw [lastOf_concat_ne hk] at hw ⊢
    rcases h k w hw with hlast | happlied | ⟨u, hu, huk⟩
    · exact .inl hlast
    · exact .inr (.inl happlied)
    · rcases List.mem_cons.mp hu with rfl | hu
      · exact absurd huk hk
      · exact .inr (.inr ⟨u, hu, huk⟩)

theorem Keeps.imp (h : Keeps key applied done pending later)
    (himp : ∀ k v, applied k v → applied' k v) : Keeps key applied' done pending later := by
  intro k v hv
  rcases h k v hv with hlast | ⟨hnone, happlied⟩ | hlater
  · exact .inl hlast
  · exact .inr (.inl ⟨hnone, himp k v happlied⟩)
  · exact .inr (.inr hlater)

-- The first entries that wait are taken off together.
theorem Keeps.release {batch : List α} (h : Keeps key applied done (batch ++ pending) later)
    (hbatch : ∀ k v, lastOf key k batch = some v →
      applied' k v ∨ ∃ w ∈ pending ++ later, key w = k)
    (hrest : ∀ k v, lastOf key k batch = none → applied k v → applied' k v) :
    Keeps key applied' done pending later := by
  intro k v hv
  cases hp : lastOf key k pending with
  | some w =>
      rcases h k v hv with hlast | ⟨hnone, -⟩ | hlater
      · rw [lastOf_append, hp, Option.some_or] at hlast
        exact .inl hlast
      · rw [lastOf_append, hp, Option.some_or] at hnone
        cases hnone
      · exact .inr (.inr hlater)
  | none =>
      have hnot : ∀ w ∈ pending, key w ≠ k := lastOf_eq_none_iff.mp hp
      rcases h k v hv with hlast | ⟨hnone, happlied⟩ | hlater
      · rw [lastOf_append, hp, Option.none_or] at hlast
        rcases hbatch k v hlast with happlied | ⟨w, hw, hwk⟩
        · exact .inr (.inl ⟨rfl, happlied⟩)
        · exact .inr (.inr ⟨w, (List.mem_append.mp hw).resolve_left fun hw => hnot w hw hwk, hwk⟩)
      · rw [lastOf_append, hp, Option.none_or] at hnone
        exact .inr (.inl ⟨rfl, hrest k v hnone happlied⟩)
      · exact .inr (.inr hlater)

theorem Keeps.of_empty (h : Keeps key applied done [] []) {k : κ} {v : α}
    (hv : lastOf key k done = some v) : applied k v := by
  rcases h k v hv with hlast | ⟨-, happlied⟩ | ⟨w, hw, -⟩
  · cases hlast
  · exact happlied
  · cases hw

end Keeps

section Bulk

-- What an unordered bulk of `n` operations may execute, and in which order: all of them when it
-- succeeds.
def canExecute (n : ℕ) (ok : Bool) (executed : List ℕ) : Bool :=
  if ok then executed.Perm (List.range n) else executed.Nodup && executed.all (· < n)

-- The entries whose operations are executed.
def executedOf (batch : List α) (executed : List ℕ) : List α :=
  executed.filterMap fun i => batch[i]?

theorem executedOf_map {β : Type*} (f : α → β) (batch : List α) (executed : List ℕ) :
    executedOf (batch.map f) executed = (executedOf batch executed).map f := by
  rw [executedOf, executedOf, List.map_filterMap]
  congr 1
  funext i
  rw [List.getElem?_map]

theorem mem_executedOf {batch : List α} {executed : List ℕ} {w : α}
    (h : w ∈ executedOf batch executed) : w ∈ batch := by
  obtain ⟨i, -, hi⟩ := List.mem_filterMap.mp h
  exact List.mem_of_getElem? hi

end Bulk

end JsonScada.Library.Backlog
