import Mathlib.Data.List.Perm.Basic
import Mathlib.Data.List.Count

namespace JsonScada.Library.Selection

-- What is selected from a list of records in two stages: by a condition on the records, and by
-- one on what they are read as.
variable {α β : Type*} [DecidableEq β] {l : List α} {read : α → Option β} {found : α → Bool}
  {y : β}

variable (found read) in
theorem count_found_le (l : List α) (y : β) :
    ((l.filter found).filterMap read).count y ≤ (l.filterMap read).count y :=
  (List.filter_sublist.filterMap read).count_le y

-- Where as many are read as without the condition, every record meets it.
theorem found_of_count (h : ((l.filter found).filterMap read).count y = (l.filterMap read).count y)
    {x : α} (hx : x ∈ l) (hread : read x = some y) : found x = true := by
  induction l with
  | nil => cases hx
  | cons z l ih =>
      have hle := count_found_le read found l y
      cases hz : found z with
      | true =>
          rcases List.mem_cons.mp hx with rfl | hx
          · exact hz
          · refine ih ?_ hx
            rw [List.filter_cons_of_pos hz] at h
            cases hr : read z with
            | none => simpa only [List.filterMap_cons_none hr] using h
            | some w =>
                simp only [List.filterMap_cons_some hr, List.count_cons] at h
                omega
      | false =>
          rw [List.filter_cons_of_neg (by simp [hz])] at h
          rcases List.mem_cons.mp hx with rfl | hx
          · rw [List.filterMap_cons_some hread, List.count_cons_self] at h
            omega
          · refine ih ?_ hx
            cases hr : read z with
            | none => simpa only [List.filterMap_cons_none hr] using h
            | some w =>
                simp only [List.filterMap_cons_some hr, List.count_cons] at h
                omega

theorem count_filter_eq (p : β → Bool) (l : List β) :
    (l.filter p).count y = if p y then l.count y else 0 := by
  cases hp : p y with
  | true => rw [List.count_filter hp, if_pos rfl]
  | false =>
      rw [if_neg Bool.false_ne_true, List.count_eq_zero]
      intro hmem
      rw [(List.mem_filter.mp hmem).2] at hp
      cases hp

-- The selection is the wanted one, in some order, exactly when record by record what is wanted
-- is selected.
theorem perm_iff {kept wanted : β → Bool} :
    (((l.filter found).filterMap read).filter kept).Perm ((l.filterMap read).filter wanted) ↔
      ∀ x ∈ l, ∀ y, read x = some y → (wanted y = true ↔ found x = true ∧ kept y = true) := by
  rw [List.perm_iff_count]
  constructor
  · intro h x hx y hread
    have hy := h y
    rw [count_filter_eq, count_filter_eq] at hy
    have hpos : 0 < (l.filterMap read).count y :=
      List.count_pos_iff.mpr (List.mem_filterMap.mpr ⟨x, hx, hread⟩)
    constructor
    · intro hwanted
      rw [if_pos hwanted] at hy
      cases hkept : kept y with
      | true =>
          rw [hkept, if_pos rfl] at hy
          exact ⟨found_of_count hy hx hread, rfl⟩
      | false =>
          rw [hkept, if_neg Bool.false_ne_true] at hy
          omega
    · rintro ⟨hfound, hkept⟩
      have hsel : 0 < ((l.filter found).filterMap read).count y :=
        List.count_pos_iff.mpr
          (List.mem_filterMap.mpr ⟨x, List.mem_filter.mpr ⟨hx, hfound⟩, hread⟩)
      by_contra hwanted
      rw [if_pos hkept, if_neg hwanted] at hy
      omega
  · intro h y
    suffices heq : ((l.filter found).filterMap read).filter kept = (l.filterMap read).filter wanted by
      rw [heq]
    induction l with
    | nil => rfl
    | cons x l ih =>
        have hrest := ih fun z hz => h z (List.mem_cons_of_mem _ hz)
        have hhead := h x List.mem_cons_self
        cases hr : read x with
        | none =>
            rw [List.filterMap_cons_none hr, ← hrest]
            cases hf : found x with
            | true => rw [List.filter_cons_of_pos hf, List.filterMap_cons_none hr]
            | false => rw [List.filter_cons_of_neg (by simp [hf])]
        | some w =>
            have hw := hhead w hr
            rw [List.filterMap_cons_some hr]
            cases hf : found x with
            | true =>
                rw [List.filter_cons_of_pos hf, List.filterMap_cons_some hr]
                cases hk : kept w with
                | true =>
                    rw [List.filter_cons_of_pos hk, List.filter_cons_of_pos (hw.mpr ⟨hf, hk⟩), hrest]
                | false =>
                    have hnot : ¬wanted w = true := fun h => by simp [(hw.mp h).2] at hk
                    rw [List.filter_cons_of_neg (by simp [hk]), List.filter_cons_of_neg hnot, hrest]
            | false =>
                have hnot : ¬wanted w = true := fun h => by simp [(hw.mp h).1] at hf
                rw [List.filter_cons_of_neg (by simp [hf]), List.filter_cons_of_neg hnot, hrest]

omit [DecidableEq β] in
-- Reading a list whose records can all be read.
theorem mapM_eq_some_iff {r : List β} :
    l.mapM read = some r ↔ (∀ x ∈ l, (read x).isSome = true) ∧ r = l.filterMap read := by
  induction l generalizing r with
  | nil => simp only [List.mapM_nil, Option.pure_def, Option.some.injEq, List.not_mem_nil,
      false_imp_iff, implies_true, true_and, List.filterMap_nil, eq_comm]
  | cons x l ih =>
      cases hx : read x with
      | none => simp [List.mapM_cons, hx]
      | some y =>
          simp only [List.mapM_cons, hx, Option.bind_eq_bind, Option.bind_some,
            Option.bind_eq_some_iff, ih, List.filterMap_cons_some hx, List.forall_mem_cons,
            Option.isSome_some, true_and]
          constructor
          · rintro ⟨r', ⟨hall, rfl⟩, hr⟩
            exact ⟨hall, (Option.some.inj hr).symm⟩
          · rintro ⟨hall, rfl⟩
            exact ⟨_, ⟨hall, rfl⟩, rfl⟩

end JsonScada.Library.Selection
