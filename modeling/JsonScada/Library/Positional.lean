import Mathlib.Data.BitVec
import Mathlib.Data.List.Induction
import Mathlib.Tactic.Common
import Mathlib.Tactic.Linarith
import Mathlib.Tactic.Ring

namespace JsonScada.Library.Bits

variable {n : ℕ}

def setBit (w : BitVec n) (i : ℕ) (on : Bool) : BitVec n :=
  if on then w ||| (1#n <<< i) else w &&& ~~~(1#n <<< i)

-- A masked write: the bits of `andMask` are kept, the others are those of `orMask`.
def maskWrite (w andMask orMask : BitVec n) : BitVec n := (w &&& andMask) ||| (orMask &&& ~~~andMask)

theorem getLsbD_one_shiftLeft {i : ℕ} (hi : i < n) (k : ℕ) :
    (1#n <<< i).getLsbD k = decide (k = i) := by
  simp only [BitVec.getLsbD_shiftLeft, BitVec.getLsbD_one]
  by_cases hk : k = i
  · subst hk
    simp
    omega
  · by_cases hlt : k < i
    · simp [hk, hlt]
    · have : k - i ≠ 0 := by omega
      simp [hk, this]

theorem getLsbD_setBit (w : BitVec n) {i : ℕ} (hi : i < n) (on : Bool) (k : ℕ) :
    (setBit w i on).getLsbD k = if k = i then on else w.getLsbD k := by
  have hmask := getLsbD_one_shiftLeft hi k
  unfold setBit
  cases on
  · simp only [Bool.false_eq_true, if_false, BitVec.getLsbD_and, BitVec.getLsbD_not, hmask]
    by_cases hk : k = i
    · simp [hk]
    · rw [if_neg hk]
      by_cases hn : k < n
      · simp [hk, hn]
      · simp [hk, hn, BitVec.getLsbD_of_ge w k (by omega)]
  · simp only [if_true, BitVec.getLsbD_or, hmask]
    by_cases hk : k = i <;> simp [hk]

-- The masks that write one bit.
theorem maskWrite_setBit (w : BitVec n) (i : ℕ) (on : Bool) :
    maskWrite w (~~~(1#n <<< i)) (if on then 1#n <<< i else 0#n) = setBit w i on := by
  unfold maskWrite setBit
  cases on
  · simp
  · simp only [if_true, BitVec.not_not, BitVec.and_self]
    ext k
    simp only [BitVec.getElem_or, BitVec.getElem_and, BitVec.getElem_not]
    cases (1#n <<< i)[k] <;> simp

end JsonScada.Library.Bits

namespace JsonScada.Library.Positional

-- The last `n` digits of `x` in base `b`, most significant first.
def digits (b : Nat) : Nat → Nat → List Nat
  | 0, _ => []
  | n + 1, x => digits b n (x / b) ++ [x % b]

def value (b : Nat) (ds : List Nat) : Nat :=
  ds.foldl (fun acc d => acc * b + d) 0

@[simp] theorem digits_length (b n x : Nat) : (digits b n x).length = n := by
  induction n generalizing x with
  | zero => rfl
  | succ n ih => simp [digits, ih]

theorem digits_lt {b : Nat} (hb : 0 < b) (n x : Nat) : ∀ d ∈ digits b n x, d < b := by
  induction n generalizing x with
  | zero => simp [digits]
  | succ n ih =>
      intro d hd
      rcases List.mem_append.mp hd with hd | hd
      · exact ih (x / b) d hd
      · obtain rfl := List.mem_singleton.mp hd
        exact Nat.mod_lt x hb

theorem value_append_singleton (b : Nat) (ds : List Nat) (d : Nat) :
    value b (ds ++ [d]) = value b ds * b + d := by
  simp [value]

theorem value_lt {b : Nat} (ds : List Nat) (h : ∀ d ∈ ds, d < b) :
    value b ds < b ^ ds.length := by
  induction ds using List.reverseRecOn with
  | nil => simp [value]
  | append_singleton ds d ih =>
      have hd := h d (by simp)
      have hv := ih fun e he => h e (by simp [he])
      rw [value_append_singleton, List.length_append, List.length_singleton, pow_succ]
      calc value b ds * b + d < value b ds * b + b := by omega
        _ = (value b ds + 1) * b := by ring
        _ ≤ b ^ ds.length * b := Nat.mul_le_mul_right b hv

theorem value_digits (b n x : Nat) : value b (digits b n x) = x % b ^ n := by
  induction n generalizing x with
  | zero => simp [digits, value, Nat.mod_one]
  | succ n ih =>
      rw [digits, value_append_singleton, ih, pow_succ, Nat.mul_comm (b ^ n) b, Nat.mod_mul]
      ring

theorem digits_value {b : Nat} (ds : List Nat) (h : ∀ d ∈ ds, d < b) :
    digits b ds.length (value b ds) = ds := by
  induction ds using List.reverseRecOn with
  | nil => rfl
  | append_singleton ds d ih =>
      have hd := h d (by simp)
      have hdiv : (value b ds * b + d) / b = value b ds := by
        rw [Nat.add_comm, Nat.add_mul_div_right _ _ (by omega), Nat.div_eq_of_lt hd]
        omega
      have hmod : (value b ds * b + d) % b = d := by
        rw [Nat.add_comm, Nat.add_mul_mod_self_right, Nat.mod_eq_of_lt hd]
      rw [List.length_append, List.length_singleton, digits, value_append_singleton, hdiv, hmod,
        ih fun e he => h e (by simp [he])]

end JsonScada.Library.Positional
