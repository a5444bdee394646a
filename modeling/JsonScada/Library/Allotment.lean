import Mathlib.Data.Int.Notation
import Mathlib.Data.List.Count
import Mathlib.Order.Lattice
import Mathlib.Tactic.Common

-- Numbers that a counter hands out to rows in their order, up to a top. A row that cannot take its
-- number uses it up all the same.
namespace JsonScada.Library.Allotment

variable {ι : Type*} [LinearOrder ι]

-- The rows that are still without a number, and whether they can take one.
abbrev Rows (ι : Type*) := List (ι × Bool)

-- How many rows come first.
def rank (rows : Rows ι) (i : ι) : ℕ := rows.countP fun row => row.1 < i

-- From here on, a counter is at the top before it comes to a row that can take a number.
def Full (top last : ℤ) (rows : Rows ι) : Prop :=
  ∀ i, (i, true) ∈ rows → top ≤ last + rank rows i

-- A row takes its number.
def remove (i : ι) (rows : Rows ι) : Rows ι := rows.filter fun row => row.1 ≠ i

variable {rows : Rows ι} {top last : ℤ} {i j : ι}

theorem Full.mono {last' : ℤ} (hle : last ≤ last') (h : Full top last rows) :
    Full top last' rows := by
  intro i hi
  have hfull := h i hi
  omega

theorem mem_remove {row : ι × Bool} : row ∈ remove i rows ↔ row ∈ rows ∧ row.1 ≠ i := by
  simp [remove]

theorem rank_lt {b : Bool} (hi : (i, b) ∈ rows) (hij : i < j) : rank rows i < rank rows j := by
  induction rows with
  | nil => cases hi
  | cons row rows ih =>
      have hle : rank rows i ≤ rank rows j := by
        refine List.countP_mono_left fun row _ hrow => ?_
        simp only [decide_eq_true_eq] at hrow ⊢
        exact lt_trans hrow hij
      simp only [rank, List.countP_cons, decide_eq_true_eq] at ih hle ⊢
      rcases List.mem_cons.mp hi with rfl | hi
      · simp only [lt_irrefl, if_false, hij, if_true]
        omega
      · have hlt := ih hi
        by_cases hrow : row.1 < i
        · simp only [hrow, lt_trans hrow hij, if_true]
          omega
        · simp only [hrow, if_false]
          split_ifs <;> omega

-- In order, the rows before one are those of lower indices.
theorem rank_eq_length {pre rest : Rows ι} {b : Bool}
    (h : (pre ++ (i, b) :: rest).Pairwise fun row row' => row.1 < row'.1) :
    rank (pre ++ (i, b) :: rest) i = pre.length := by
  obtain ⟨-, hrest, hpre⟩ := List.pairwise_append.mp h
  rw [List.pairwise_cons] at hrest
  have hlow : pre.countP (fun row => decide (row.1 < i)) = pre.length :=
    List.countP_eq_length.mpr fun row hrow => decide_eq_true (hpre row hrow _ List.mem_cons_self)
  have hhigh : rest.countP (fun row => decide (row.1 < i)) = 0 :=
    List.countP_eq_zero.mpr fun row hrow => by
      simpa using le_of_lt (hrest.1 row hrow)
  rw [rank, List.countP_append, List.countP_cons, hlow, hhigh]
  simp

theorem rank_remove (h : (rows.map Prod.fst).Nodup) (i j : ι) :
    rank rows j ≤ rank (remove i rows) j + 1 := by
  induction rows with
  | nil => exact Nat.zero_le _
  | cons row rows ih =>
      obtain ⟨hnot, hnodup⟩ := List.nodup_cons.mp (List.map_cons ▸ h)
      by_cases hrow : row.1 = i
      · have hrest : remove i rows = rows := by
          refine List.filter_eq_self.mpr fun row' hrow' => ?_
          rw [decide_eq_true_eq]
          rintro rfl
          exact hnot (hrow ▸ List.mem_map_of_mem hrow')
        have hsame : remove i (row :: rows) = rows := by
          rw [remove, List.filter_cons_of_neg (by simp [hrow])]
          exact hrest
        rw [hsame, rank, List.countP_cons]
        split_ifs <;> simp only [rank] <;> omega
      · have hsame : remove i (row :: rows) = row :: remove i rows :=
          List.filter_cons_of_pos (by simp [hrow])
        have hle := ih hnodup
        rw [hsame]
        simp only [rank, List.countP_cons] at hle ⊢
        omega

-- A number that is handed out makes up for the row that has it.
theorem Full.remove (hnodup : (rows.map Prod.fst).Nodup) (h : Full top last rows) (i : ι) :
    Full top (last + 1) (remove i rows) := by
  intro j hj
  have hfull := h j (mem_remove.mp hj).1
  have hrank := rank_remove hnodup i j
  omega

end JsonScada.Library.Allotment
