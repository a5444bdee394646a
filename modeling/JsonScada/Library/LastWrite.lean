import Mathlib.Data.List.Forall2
import Mathlib.Data.List.Induction
import Mathlib.Data.List.Perm.Basic

namespace JsonScada.Library.LastWrite

variable {ω α : Type*} (writes : ω → Option α)

-- The content of one cell after the operations, of which some write it.
def after (init : Option α) (ops : List ω) : Option α :=
  ops.foldl (fun v o => (writes o).or v) init

-- The orders in which batches can be executed: one after the other, each in any
-- order of its own operations.
def Executes (execs batches : List (List ω)) : Prop :=
  List.Forall₂ (fun e b => e.Perm b) execs batches

variable {writes}

theorem after_append (init : Option α) (a b : List ω) :
    after writes init (a ++ b) = after writes (after writes init a) b := by
  simp [after]

theorem after_of_none {init : Option α} {ops : List ω} (h : ∀ o ∈ ops, writes o = none) :
    after writes init ops = init := by
  induction ops generalizing init with
  | nil => rfl
  | cons o ops ih =>
      have ho := h o (by simp)
      show after writes ((writes o).or init) ops = init
      rw [ho, Option.none_or]
      exact ih fun o ho => h o (by simp [ho])

-- Operations that write what the cell holds leave it as it is.
theorem after_self {init : Option α} {ops : List ω}
    (h : ∀ o ∈ ops, ∀ v, writes o = some v → init = some v) : after writes init ops = init := by
  induction ops with
  | nil => rfl
  | cons o ops ih =>
      have hsame : (writes o).or init = init := by
        cases hw : writes o with
        | none => exact Option.none_or
        | some v => rw [h o List.mem_cons_self v hw, Option.some_or]
      show after writes ((writes o).or init) ops = init
      rw [hsame]
      exact ih fun o ho => h o (List.mem_cons_of_mem _ ho)

-- Operations that write nothing can be left out.
theorem after_filter {init : Option α} {ops : List ω} {p : ω → Bool}
    (h : ∀ o ∈ ops, p o = false → writes o = none) :
    after writes init (ops.filter p) = after writes init ops := by
  induction ops generalizing init with
  | nil => rfl
  | cons o ops ih =>
      have hrest : ∀ o ∈ ops, p o = false → writes o = none :=
        fun o ho => h o (List.mem_cons_of_mem _ ho)
      cases hp : p o with
      | true =>
          rw [List.filter_cons_of_pos hp]
          exact ih hrest
      | false =>
          rw [List.filter_cons_of_neg (Bool.not_eq_true _ ▸ hp), ih hrest]
          show _ = after writes ((writes o).or init) ops
          rw [h o List.mem_cons_self hp, Option.none_or]

-- Operations that write the same leave the same.
theorem after_congr {writes' : ω → Option α} {init : Option α} {ops : List ω}
    (h : ∀ o ∈ ops, writes o = writes' o) : after writes init ops = after writes' init ops := by
  induction ops generalizing init with
  | nil => rfl
  | cons o ops ih =>
      show after writes ((writes o).or init) ops = after writes' ((writes' o).or init) ops
      rw [h o List.mem_cons_self]
      exact ih fun o ho => h o (List.mem_cons_of_mem _ ho)

theorem after_concat (init : Option α) (ops : List ω) (o : ω) :
    after writes init (ops ++ [o]) = (writes o).or (after writes init ops) := by
  simp [after]

-- What was there before is seen when no operation writes.
theorem after_init (init : Option α) (ops : List ω) :
    after writes init ops = (after writes none ops).or init := by
  induction ops using List.reverseRecOn with
  | nil => rfl
  | append_singleton ops o ih => rw [after_concat, after_concat, ih, Option.or_assoc]

theorem exists_of_after {ops : List ω} {v : α} (h : after writes none ops = some v) :
    ∃ o ∈ ops, writes o = some v := by
  induction ops using List.reverseRecOn with
  | nil => cases h
  | append_singleton ops o ih =>
      rw [after_concat] at h
      cases hw : writes o with
      | none =>
          rw [hw, Option.none_or] at h
          obtain ⟨o', ho', hv⟩ := ih h
          exact ⟨o', List.mem_append_left _ ho', hv⟩
      | some w =>
          rw [hw, Option.some_or] at h
          exact ⟨o, by simp, by rw [hw, h]⟩

-- What was there before is not seen when some operation writes.
theorem after_overwritten (init init' : Option α) {ops : List ω} (h : ∃ o ∈ ops, writes o ≠ none) :
    after writes init ops = after writes init' ops := by
  obtain ⟨o, ho, hw⟩ := h
  obtain ⟨pre, post, rfl⟩ := List.append_of_mem ho
  obtain ⟨v, hv⟩ := Option.ne_none_iff_exists'.mp hw
  have hafter (init : Option α) : after writes init (pre ++ o :: post) =
      after writes (some v) post := by
    rw [after_append]
    show after writes ((writes o).or _) post = _
    rw [hv, Option.some_or]
  rw [hafter, hafter]

-- The cell holds what some operation wrote, or what it held before.
theorem after_mem (init : Option α) {ops : List ω} {v : α}
    (h : ∀ o ∈ ops, ∀ w, writes o = some w → w = v) :
    after writes init ops = init ∨ after writes init ops = some v := by
  induction ops generalizing init with
  | nil => exact .inl rfl
  | cons o ops ih =>
      have hrest : ∀ o ∈ ops, ∀ w, writes o = some w → w = v := fun o ho => h o (by simp [ho])
      show after writes ((writes o).or init) ops = init ∨ after writes ((writes o).or init) ops = some v
      cases hw : writes o with
      | none =>
          rw [Option.none_or]
          exact ih init hrest
      | some w =>
          obtain rfl := h o (by simp) w hw
          rw [Option.some_or]
          rcases ih (some w) hrest with he | he <;> exact .inr he

theorem after_eq_of_all {init : Option α} {ops : List ω} {v : α}
    (h : ∀ o ∈ ops, ∀ w, writes o = some w → w = v) (hex : ∃ o ∈ ops, writes o ≠ none) :
    after writes init ops = some v := by
  obtain ⟨o, ho, hw⟩ := hex
  obtain ⟨pre, post, rfl⟩ := List.append_of_mem ho
  obtain ⟨w, hw⟩ := Option.ne_none_iff_exists'.mp hw
  obtain rfl := h o ho w hw
  have hsplit : pre ++ o :: post = (pre ++ [o]) ++ post := by simp
  rw [hsplit, after_append, after_concat, hw, Option.some_or]
  have hpost : ∀ o ∈ post, ∀ w', writes o = some w' → w' = w := by
    intro o ho
    exact h o (List.mem_append_right _ (List.mem_cons_of_mem _ ho))
  rcases after_mem (some w) hpost with he | he <;> exact he

theorem after_last {init : Option α} {pre post : List ω} {o : ω} {v : α} (ho : writes o = some v)
    (hpost : ∀ o ∈ post, writes o = none) : after writes init (pre ++ o :: post) = some v := by
  have hsplit : pre ++ o :: post = (pre ++ [o]) ++ post := by simp
  rw [hsplit, after_append, after_concat, ho, Option.some_or, after_of_none hpost]

-- A write that no later one of the first `n` operations follows.
theorem after_take {init : Option α} {ops : List ω} {m n : ℕ} {o : ω} {v : α} (hmn : m < n)
    (hm : ops[m]? = some o) (ho : writes o = some v)
    (hquiet : ∀ k o', m < k → k < n → ops[k]? = some o' → writes o' = none) :
    after writes init (ops.take n) = some v := by
  induction n with
  | zero => omega
  | succ n ih =>
      rw [List.take_add_one, after_append]
      by_cases hmn' : m = n
      · subst hmn'
        rw [hm]
        show (writes o).or _ = some v
        rw [ho, Option.some_or]
      · have hlt : m < n := by omega
        rw [ih hlt fun k o' hk hkn => hquiet k o' hk (by omega)]
        apply after_of_none
        intro o' ho'
        exact hquiet n o' hlt (by omega) (Option.mem_toList.mp ho')

-- What is left when only one value is written after some write.
theorem after_split {init : Option α} {pre post : List ω} {o : ω} {v w : α} {wiped : ω → Bool}
    (ho : writes o = some v) (hpost : ∀ o ∈ post, writes o = if wiped o then some w else none) :
    after writes init (pre ++ o :: post) = some (if post.any wiped then w else v) := by
  have hsplit : pre ++ o :: post = (pre ++ [o]) ++ post := by simp
  rw [hsplit, after_append, after_concat, ho, Option.some_or]
  by_cases hex : post.any wiped
  · rw [if_pos hex]
    obtain ⟨o', ho', hw⟩ := List.any_eq_true.mp hex
    apply after_eq_of_all
    · intro o ho u hu
      rw [hpost o ho] at hu
      by_cases hwo : wiped o
      · rw [if_pos hwo] at hu
        exact (Option.some.inj hu).symm
      · rw [if_neg hwo] at hu
        cases hu
    · exact ⟨o', ho', by rw [hpost o' ho', if_pos hw]; exact Option.some_ne_none w⟩
  · rw [if_neg hex]
    apply after_of_none
    intro o ho
    rw [hpost o ho, if_neg]
    exact fun h => hex (List.any_eq_true.mpr ⟨o, ho, h⟩)

-- Every order leaves the same value exactly when all writes are of that value.
theorem after_perm_iff (init : Option α) {ops : List ω} {v : α}
    (hex : ∃ o ∈ ops, writes o ≠ none) :
    (∀ exec : List ω, exec.Perm ops → after writes init exec = some v) ↔
      ∀ o ∈ ops, ∀ w, writes o = some w → w = v := by
  constructor
  · intro h o ho w hw
    -- the order that executes `o` last
    obtain ⟨pre, post, rfl⟩ := List.append_of_mem ho
    have hperm : (pre ++ post ++ [o]).Perm (pre ++ o :: post) := by
      have hmid : (o :: (pre ++ post)).Perm (pre ++ o :: post) := List.perm_middle.symm
      exact (List.perm_append_singleton o (pre ++ post)).trans hmid
    have hlast := h _ hperm
    rw [after_concat, hw, Option.some_or] at hlast
    exact Option.some.inj hlast
  · intro h exec hperm
    apply after_eq_of_all
    · intro o ho
      exact h o (hperm.mem_iff.mp ho)
    · obtain ⟨o, ho, hw⟩ := hex
      exact ⟨o, hperm.mem_iff.mpr ho, hw⟩

theorem executes_self (batches : List (List ω)) : Executes batches batches :=
  List.forall₂_same.mpr fun _ _ => .refl _

-- The executions of the operations around one batch.
theorem executes_split {execs pre post : List (List ω)} {b : List ω}
    (h : Executes execs (pre ++ b :: post)) :
    ∃ before exec behind, execs = before ++ exec :: behind ∧ exec.Perm b ∧
      Executes behind post := by
  induction pre generalizing execs with
  | nil =>
      obtain ⟨exec, behind, hperm, hbehind, rfl⟩ := List.forall₂_cons_right_iff.mp h
      exact ⟨[], exec, behind, rfl, hperm, hbehind⟩
  | cons c pre ih =>
      obtain ⟨first, rest, -, hrest, rfl⟩ := List.forall₂_cons_right_iff.mp h
      obtain ⟨before, exec, behind, rfl, hexec, hbehind⟩ := ih hrest
      exact ⟨first :: before, exec, behind, rfl, hexec, hbehind⟩

-- Each operation is executed in its batch, and no other is.
theorem executes_mem {execs batches : List (List ω)} (h : Executes execs batches) {o : ω}
    (ho : o ∈ execs.flatten) : o ∈ batches.flatten := by
  induction h with
  | nil => exact ho
  | cons hperm _ ih =>
      rw [List.flatten_cons, List.mem_append] at ho ⊢
      rcases ho with ho | ho
      · exact .inl (hperm.mem_iff.mp ho)
      · exact .inr (ih ho)

-- What the batches after the last write do not touch depends on that batch alone.
theorem after_batches_iff {init : Option α} {pre post : List (List ω)} {b : List ω} {v : α}
    (hpost : ∀ o ∈ post.flatten, writes o = none) (hex : ∃ o ∈ b, writes o ≠ none) :
    (∀ execs, Executes execs (pre ++ b :: post) → after writes init execs.flatten = some v) ↔
      ∀ o ∈ b, ∀ w, writes o = some w → w = v := by
  constructor
  · intro h
    rw [← after_perm_iff (after writes init pre.flatten) hex]
    intro exec hperm
    have hexec : Executes (pre ++ exec :: post) (pre ++ b :: post) := by
      apply List.rel_append (executes_self pre)
      exact List.Forall₂.cons hperm (executes_self post)
    have := h _ hexec
    rw [List.flatten_append, List.flatten_cons, after_append, after_append,
      after_of_none hpost] at this
    exact this
  · intro h execs hexec
    obtain ⟨before, exec, behind, rfl, hexec, hbehind⟩ := executes_split hexec
    rw [List.flatten_append, List.flatten_cons, after_append, after_append, after_of_none]
    · exact (after_perm_iff _ hex).mpr h exec hexec
    · intro o ho
      exact hpost o (executes_mem hbehind ho)

-- However the batches are executed, the cell is left with a value.
def Settles (writes : ω → Option α) (batches : List (List ω)) (v : α) : Prop :=
  ∀ execs, Executes execs batches → after writes none execs.flatten = some v

theorem settles_concat {batches : List (List ω)} {b : List ω} {v : α}
    (hall : ∀ o ∈ b, ∀ w, writes o = some w → w = v) (hex : ∃ o ∈ b, writes o ≠ none) :
    Settles writes (batches ++ [b]) v := by
  apply (after_batches_iff _ hex).mpr hall
  simp

theorem Settles.concat_of_none {batches : List (List ω)} {b : List ω} {v : α}
    (h : Settles writes batches v) (hnone : ∀ o ∈ b, writes o = none) :
    Settles writes (batches ++ [b]) v := by
  intro execs hexec
  have hbefore := List.forall₂_take_append _ _ _ hexec
  have hlast := List.forall₂_drop_append _ _ _ hexec
  rw [← List.take_append_drop batches.length execs, List.flatten_append, after_append,
    h _ hbefore, after_of_none]
  intro o ho
  have hmem := executes_mem hlast ho
  rw [List.flatten_singleton] at hmem
  exact hnone o hmem

end JsonScada.Library.LastWrite
