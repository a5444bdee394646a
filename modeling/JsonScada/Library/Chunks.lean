import Mathlib.Data.List.Basic
import Mathlib.Tactic.Common

-- A list cut into runs of one size, of which the last may be shorter.
namespace JsonScada.Library.Chunks

variable {α : Type*} {size : ℕ} {l c : List α}

def count (size n : ℕ) : ℕ := (n + size - 1) / size

def chunks (size : ℕ) (l : List α) : List (List α) :=
  (List.range (count size l.length)).map fun i => (l.drop (i * size)).take size

@[simp] theorem chunks_nil (size : ℕ) : chunks size ([] : List α) = [] := by
  have hcount : count size 0 = 0 := by
    cases size with
    | zero => rfl
    | succ size => exact Nat.div_eq_of_lt (by omega)
  simp [chunks, hcount]

@[simp] theorem length_chunks (size : ℕ) (l : List α) :
    (chunks size l).length = count size l.length := by
  simp [chunks]

theorem length_le_of_mem (h : c ∈ chunks size l) : c.length ≤ size := by
  obtain ⟨i, -, rfl⟩ := List.mem_map.mp h
  exact List.length_take_le _ _

theorem mem_of_mem_chunk (h : c ∈ chunks size l) {x : α} (hx : x ∈ c) : x ∈ l := by
  obtain ⟨i, -, rfl⟩ := List.mem_map.mp h
  exact List.mem_of_mem_drop (List.mem_of_mem_take hx)

theorem flatten_take (size : ℕ) (l : List α) (n : ℕ) :
    ((List.range n).map fun i => (l.drop (i * size)).take size).flatten = l.take (n * size) := by
  induction n with
  | zero => simp
  | succ n ih =>
      rw [List.range_succ, List.map_append, List.flatten_append, ih, Nat.succ_mul, List.take_add]
      simp

-- The runs are the list, in its order.
theorem flatten_chunks (hsize : 0 < size) (l : List α) : (chunks size l).flatten = l := by
  unfold chunks
  rw [flatten_take]
  apply List.take_of_length_le
  have hdiv := Nat.div_add_mod (l.length + size - 1) size
  have hmod := Nat.mod_lt (l.length + size - 1) hsize
  have hcomm := Nat.mul_comm size (count size l.length)
  unfold count at hcomm ⊢
  omega

-- How many runs there are.
theorem count_le_iff (hsize : 0 < size) {n k : ℕ} : count size n ≤ k ↔ n ≤ k * size := by
  unfold count
  rw [Nat.div_le_iff_le_mul_add_pred hsize, Nat.mul_comm]
  omega

theorem count_pos (hsize : 0 < size) {n : ℕ} : 0 < count size n ↔ 0 < n := by
  have h := count_le_iff hsize (n := n) (k := 0)
  omega

-- A list that is not too long is one run.
theorem chunks_of_length_le (hl : l ≠ []) (h : l.length ≤ size) : chunks size l = [l] := by
  have hpos : 0 < l.length := List.length_pos_iff.mpr hl
  have hone : count size l.length = 1 := by
    apply Nat.le_antisymm
    · rw [count_le_iff (by omega)]
      omega
    · exact (count_pos (by omega)).mpr hpos
  simp [chunks, hone, List.take_of_length_le h]

theorem mem_chunks (hsize : 0 < size) :
    c ∈ chunks size l ↔ c ≠ [] ∧ ∃ i, c = (l.drop (i * size)).take size := by
  constructor
  · intro h
    obtain ⟨i, hi, rfl⟩ := List.mem_map.mp h
    refine ⟨?_, i, rfl⟩
    have hlt : ¬count size l.length ≤ i := Nat.not_le.mpr (List.mem_range.mp hi)
    rw [count_le_iff hsize] at hlt
    rw [← List.length_pos_iff, List.length_take, List.length_drop]
    omega
  · rintro ⟨hne, i, rfl⟩
    rw [← List.length_pos_iff, List.length_take, List.length_drop] at hne
    refine List.mem_map.mpr ⟨i, List.mem_range.mpr ?_, rfl⟩
    by_contra hle
    rw [Nat.not_lt, count_le_iff hsize] at hle
    omega

end JsonScada.Library.Chunks
