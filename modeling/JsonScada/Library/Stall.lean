import Mathlib.Data.List.Basic
import Mathlib.Data.List.Infix
import Mathlib.Data.List.Count
import Mathlib.Tactic.Common

-- Standbys that watch the stamp of another holder, and claim its place when it stalls.
namespace JsonScada.Library.Stall

section Definitions

variable {τ σ : Type*} [DecidableEq τ]

-- Whether each reading found the stamp as the reading before left it.
def unchanged (last : τ) : List τ → List Bool
  | [] => []
  | t :: ts => decide (t = last) :: unchanged t ts

-- The last `limit + 1` readings were all unchanged.
def Stalled (limit : ℕ) (last : τ) (ts : List τ) : Prop :=
  List.replicate (limit + 1) true <:+ unchanged last ts

-- What a standby knows: the stamp it has read last, and how many unchanged readings it counts.
-- It is active when it has claimed the place of the holder.
structure Standby (τ σ : Type*) where
  limit : ℕ
  active : σ → Bool
  last : σ → τ
  count : σ → ℕ
  read : σ → τ → σ

variable (m : Standby τ σ)

-- The state in which the watch begins.
def Standby.Start : Type _ := { s : σ // m.count s = 0 }

def Standby.reads (s : σ) (ts : List τ) : σ := ts.foldl m.read s

-- In every reading that makes the standby claim, the stamp has stalled.
def Standby.ClaimsOnStall (s : σ) (ts : List τ) : Prop :=
  ∀ past, past <+: ts → past ≠ [] → m.active (m.reads s past) = true → Stalled m.limit (m.last s) past

-- Each unchanged reading whose number is a multiple of `limit + 1` ends a stall.
def Grouped (limit : ℕ) (last : τ) (ts : List τ) : Prop :=
  ∀ past, past <+: ts → (unchanged last past).getLast? = some true →
    limit + 1 ∣ (unchanged last past).count true → Stalled limit last past

-- The count starts over whenever the stamp changes, and a claim needs the count at the limit.
structure Standby.Restarts : Prop where
  last : ∀ s t, m.last (m.read s t) = t
  count : ∀ s t, m.count (m.read s t) ≤ if t = m.last s then m.count s + 1 else 0
  claim : ∀ s t, m.active (m.read s t) = true → t = m.last s ∧ m.limit ≤ m.count s

-- The count grows up to the claim, and it starts over with this only.
structure Standby.Accumulates : Prop where
  last : ∀ s t, m.last (m.read s t) = t
  claim : ∀ s t, m.count s ≤ m.limit →
    (m.active (m.read s t) = true ↔ t = m.last s ∧ m.count s = m.limit)
  count : ∀ s t, m.count s ≤ m.limit → m.count (m.read s t) =
    if t = m.last s then (if m.count s = m.limit then 0 else m.count s + 1) else m.count s

end Definitions

section Readings

variable {τ σ : Type*} {m : Standby τ σ} {s : σ} {last t : τ} {ts : List τ}

theorem last_reads (hlast : ∀ s t, m.last (m.read s t) = t) :
    m.last (m.reads s ts) = ts.getLast?.getD (m.last s) := by
  induction ts using List.reverseRecOn with
  | nil => rfl
  | append_singleton ts t ih => simp [Standby.reads, hlast]

theorem reads_append : m.reads s (ts ++ [t]) = m.read (m.reads s ts) t := by
  simp [Standby.reads]

theorem suffix_replicate {k n : ℕ} {flags : List Bool} (h : List.replicate n true <:+ flags)
    (hkn : k ≤ n) : List.replicate k true <:+ flags := by
  refine List.IsSuffix.trans ⟨List.replicate (n - k) true, ?_⟩ h
  rw [List.replicate_append_replicate, Nat.sub_add_cancel hkn]

theorem suffix_replicate_append {n : ℕ} {flags : List Bool} (h : List.replicate n true <:+ flags) :
    List.replicate (n + 1) true <:+ flags ++ [true] := by
  obtain ⟨front, rfl⟩ := h
  refine ⟨front, ?_⟩
  rw [List.replicate_succ', List.append_assoc]

variable [DecidableEq τ]

theorem unchanged_append :
    unchanged last (ts ++ [t]) = unchanged last ts ++ [decide (t = ts.getLast?.getD last)] := by
  induction ts generalizing last with
  | nil => rfl
  | cons u ts ih =>
      have hlast : (u :: ts).getLast?.getD last = ts.getLast?.getD u := by
        cases ts with
        | nil => rfl
        | cons v ts => simp [List.getLast?_cons]
      rw [List.cons_append, unchanged, unchanged, ih, List.cons_append, hlast]

-- The flag of one more reading is what the standby finds.
theorem unchanged_reads (hlast : ∀ s t, m.last (m.read s t) = t) :
    unchanged (m.last s) (ts ++ [t]) =
      unchanged (m.last s) ts ++ [decide (t = m.last (m.reads s ts))] := by
  rw [unchanged_append, last_reads hlast]

end Readings

section Claims

variable {τ σ : Type*} [DecidableEq τ] {m : Standby τ σ} {s : σ} {ts : List τ}

-- The count is of unchanged readings in a row.
theorem counted_of_restarts (hm : m.Restarts) (hs : m.count s = 0) (ts : List τ) :
    List.replicate (m.count (m.reads s ts)) true <:+ unchanged (m.last s) ts := by
  induction ts using List.reverseRecOn with
  | nil =>
      have hzero : m.count (m.reads s []) = 0 := hs
      rw [hzero]
      exact List.nil_suffix
  | append_singleton ts t ih =>
      have hcount := hm.count (m.reads s ts) t
      rw [reads_append, unchanged_reads hm.last]
      by_cases ht : t = m.last (m.reads s ts)
      · rw [if_pos ht] at hcount
        rw [decide_eq_true ht]
        exact suffix_replicate (suffix_replicate_append ih) hcount
      · rw [if_neg ht, Nat.le_zero] at hcount
        rw [hcount]
        exact List.nil_suffix

-- A standby whose count starts over claims on a stall, whatever the readings are.
theorem claimsOnStall_of_restarts (hm : m.Restarts) (hs : m.count s = 0) :
    m.ClaimsOnStall s ts := by
  intro past _ hne hactive
  obtain ⟨front, t, rfl⟩ : ∃ front t, past = front ++ [t] :=
    ⟨_, _, (List.dropLast_append_getLast hne).symm⟩
  rw [reads_append] at hactive
  obtain ⟨ht, hlimit⟩ := hm.claim _ _ hactive
  rw [Stalled, unchanged_reads hm.last, decide_eq_true ht]
  exact suffix_replicate_append (suffix_replicate (counted_of_restarts hm hs front) hlimit)

-- The count is of all unchanged readings since the last claim.
theorem counted_of_accumulates (hm : m.Accumulates) (hs : m.count s = 0) (ts : List τ) :
    m.count (m.reads s ts) ≤ m.limit ∧
      ∃ q, (unchanged (m.last s) ts).count true = (m.limit + 1) * q + m.count (m.reads s ts) := by
  induction ts using List.reverseRecOn with
  | nil =>
      have hzero : m.count (m.reads s []) = 0 := hs
      rw [hzero]
      exact ⟨Nat.zero_le _, 0, rfl⟩
  | append_singleton ts t ih =>
      obtain ⟨hle, q, hq⟩ := ih
      have hcount := hm.count (m.reads s ts) t hle
      rw [reads_append, unchanged_reads hm.last, List.count_append, hcount]
      by_cases ht : t = m.last (m.reads s ts)
      · rw [if_pos ht, decide_eq_true ht, List.count_singleton_self, hq]
        by_cases hlimit : m.count (m.reads s ts) = m.limit
        · rw [if_pos hlimit, hlimit]
          exact ⟨Nat.zero_le _, q + 1, Nat.mul_succ (m.limit + 1) q⟩
        · rw [if_neg hlimit]
          exact ⟨by omega, q, Nat.add_assoc _ _ _⟩
      · have hzero : [decide (t = m.last (m.reads s ts))].count true = 0 := by
          rw [decide_eq_false ht]
          rfl
        rw [if_neg ht, hzero, hq]
        exact ⟨hle, q, rfl⟩

-- The unchanged readings at which it claims.
theorem claims_iff (hm : m.Accumulates) (hs : m.count s = 0) (t : τ) :
    m.active (m.reads s (ts ++ [t])) = true ↔
      (unchanged (m.last s) (ts ++ [t])).getLast? = some true ∧
        m.limit + 1 ∣ (unchanged (m.last s) (ts ++ [t])).count true := by
  obtain ⟨hle, q, hq⟩ := counted_of_accumulates hm hs ts
  rw [reads_append, hm.claim _ _ hle, unchanged_reads hm.last, List.getLast?_append,
    List.getLast?_singleton, Option.some_or, Option.some.injEq, decide_eq_true_eq]
  refine and_congr_right fun ht => ?_
  rw [decide_eq_true ht, List.count_append, List.count_singleton_self, hq, Nat.add_assoc,
    Nat.dvd_add_right (Nat.dvd_mul_right _ _)]
  constructor
  · intro hcount
    exact ⟨1, by rw [hcount, Nat.mul_one]⟩
  · intro hdvd
    have := Nat.le_of_dvd (Nat.succ_pos _) hdvd
    omega

-- A standby whose count only grows claims on a stall exactly when the readings are grouped.
theorem claimsOnStall_iff_grouped (hm : m.Accumulates) (hs : m.count s = 0) :
    m.ClaimsOnStall s ts ↔ Grouped m.limit (m.last s) ts := by
  constructor
  · intro hclaims past hpast hlast hdvd
    have hne : past ≠ [] := by
      rintro rfl
      cases hlast
    obtain ⟨front, t, rfl⟩ : ∃ front t, past = front ++ [t] :=
      ⟨_, _, (List.dropLast_append_getLast hne).symm⟩
    exact hclaims _ hpast hne ((claims_iff hm hs t).mpr ⟨hlast, hdvd⟩)
  · intro hgrouped past hpast hne hactive
    obtain ⟨front, t, rfl⟩ : ∃ front t, past = front ++ [t] :=
      ⟨_, _, (List.dropLast_append_getLast hne).symm⟩
    obtain ⟨hlast, hdvd⟩ := (claims_iff hm hs t).mp hactive
    exact hgrouped _ hpast hlast hdvd

end Claims

end JsonScada.Library.Stall
