import Mathlib.Data.List.Basic
import Mathlib.Data.List.Induction

namespace JsonScada.Library

variable {α κ : Type*} {key : α → κ}

-- The entry at position `i` is the last one that bears the key `k`.
def LastAt (key : α → κ) (l : List α) (k : κ) (i : ℕ) : Prop :=
  ∃ pre v post, l = pre ++ v :: post ∧ pre.length = i ∧ key v = k ∧ ∀ w ∈ post, key w ≠ k

theorem lastAt_append_self (l : List α) (v : α) : LastAt key (l ++ [v]) (key v) l.length :=
  ⟨l, v, [], rfl, rfl, rfl, by simp⟩

variable {l : List α} {k k' : κ} {i j : ℕ}

theorem LastAt.append_ne (h : LastAt key l k i) {v : α} (hv : key v ≠ k) :
    LastAt key (l ++ [v]) k i := by
  obtain ⟨pre, w, post, rfl, hi, hw, hpost⟩ := h
  refine ⟨pre, w, post ++ [v], by simp, hi, hw, ?_⟩
  intro u hu
  rcases List.mem_append.mp hu with hu | hu
  · exact hpost u hu
  · obtain rfl := List.mem_singleton.mp hu
    exact hv

theorem set_at {pre post : List α} {w v : α} (hi : pre.length = i) :
    (pre ++ w :: post).set i v = pre ++ v :: post := by
  subst hi
  simp

theorem LastAt.set_self {v : α} (h : LastAt key l (key v) i) : LastAt key (l.set i v) (key v) i := by
  obtain ⟨pre, w, post, rfl, hi, -, hpost⟩ := h
  exact ⟨pre, v, post, set_at hi, hi, rfl, hpost⟩

theorem LastAt.map_set {v : α} (h : LastAt key l (key v) i) : (l.set i v).map key = l.map key := by
  obtain ⟨pre, w, post, rfl, hi, hw, -⟩ := h
  rw [set_at hi]
  simp [hw]

theorem LastAt.lt_length (h : LastAt key l k i) : i < l.length := by
  obtain ⟨pre, w, post, rfl, hi, -, -⟩ := h
  simp
  omega

-- A replacement in place leaves the last entry of another key where it was.
theorem LastAt.set_ne {v : α} (h : LastAt key l (key v) i) (h' : LastAt key l k j)
    (hk : key v ≠ k) : LastAt key (l.set i v) k j := by
  obtain ⟨pre, w, post, rfl, hi, hw, hpost⟩ := h'
  have hmap := h.map_set
  have hij : i ≠ j := by
    rintro rfl
    obtain ⟨pre', w', post', heq, hi', hw', -⟩ := h
    have hpre : pre = pre' := List.append_inj_left heq (by omega)
    subst hpre
    obtain ⟨rfl, rfl⟩ := List.cons.inj (List.append_cancel_left heq)
    exact hk (hw'.symm.trans hw)
  by_cases hlt : i < j
  · refine ⟨pre.set i v, w, post, ?_, by simpa using hi, hw, hpost⟩
    rw [List.set_append_left _ _ (by omega)]
  · refine ⟨pre, w, post.set (i - j - 1) v, ?_, hi, hw, ?_⟩
    · have hsub : i - pre.length = (i - j - 1) + 1 := by omega
      rw [List.set_append_right _ _ (by omega), hsub, List.set_cons_succ]
    · intro u hu
      rcases List.mem_or_eq_of_mem_set hu with hu | rfl
      · exact hpost u hu
      · exact hk

section Marks

variable {x : α} {a b a' b' : List α}

-- A list with one mark behind which there is none: both of its parts are known.
theorem append_mark_inj (hb : x ∉ b) (hb' : x ∉ b') (h : a ++ x :: b = a' ++ x :: b') :
    a = a' ∧ b = b' := by
  rcases List.append_eq_append_iff.mp h with ⟨c, rfl, hc⟩ | ⟨c, rfl, hc⟩
  · cases c with
    | nil => simpa using hc
    | cons y c =>
        obtain ⟨-, rfl⟩ := List.cons.inj hc
        exact absurd (List.mem_append_right _ List.mem_cons_self) hb
  · cases c with
    | nil => simpa using hc.symm
    | cons y c =>
        obtain ⟨-, rfl⟩ := List.cons.inj hc
        exact absurd (List.mem_append_right _ List.mem_cons_self) hb'

-- The same with no mark before it.
theorem mark_append_inj (ha : x ∉ a) (ha' : x ∉ a') (h : a ++ x :: b = a' ++ x :: b') :
    a = a' ∧ b = b' := by
  have hreverse := congrArg List.reverse h
  simp only [List.reverse_append, List.reverse_cons, List.append_assoc, List.singleton_append]
    at hreverse
  obtain ⟨hb, ha⟩ := append_mark_inj (List.mem_reverse.not.mpr ha) (List.mem_reverse.not.mpr ha')
    hreverse
  exact ⟨List.reverse_injective ha, List.reverse_injective hb⟩

end Marks

variable [DecidableEq κ]

-- The entries that bear one key.
def ofKey (key : α → κ) (k : κ) (l : List α) : List α :=
  l.filter fun v => key v = k

@[simp] theorem ofKey_nil (k : κ) : ofKey key k [] = [] := rfl

@[simp] theorem ofKey_append (k : κ) (l m : List α) :
    ofKey key k (l ++ m) = ofKey key k l ++ ofKey key k m :=
  List.filter_append l m

theorem ofKey_cons_self {k : κ} {v : α} (l : List α) (h : key v = k) :
    ofKey key k (v :: l) = v :: ofKey key k l :=
  List.filter_cons_of_pos (by simp [h])

theorem ofKey_cons_ne {k : κ} {v : α} (l : List α) (h : key v ≠ k) :
    ofKey key k (v :: l) = ofKey key k l :=
  List.filter_cons_of_neg (by simp [h])

theorem ofKey_eq_nil_iff {k : κ} {l : List α} : ofKey key k l = [] ↔ ∀ w ∈ l, key w ≠ k := by
  simp [ofKey, List.filter_eq_nil_iff]

theorem ofKey_eq_nil {k : κ} {l : List α} (h : ∀ w ∈ l, key w ≠ k) : ofKey key k l = [] :=
  ofKey_eq_nil_iff.mpr h

theorem exists_of_getLast?_ofKey {k : κ} {v : α} (h : (ofKey key k l).getLast? = some v) :
    ∃ pre post, l = pre ++ v :: post ∧ key v = k ∧ ∀ w ∈ post, key w ≠ k := by
  induction l using List.reverseRecOn with
  | nil => cases h
  | append_singleton l w ih =>
      by_cases hw : key w = k
      · rw [ofKey_append, ofKey_cons_self _ hw, ofKey_nil, List.getLast?_concat] at h
        obtain rfl := Option.some.inj h
        exact ⟨l, [], rfl, hw, by simp⟩
      · rw [ofKey_append, ofKey_cons_ne _ hw, ofKey_nil, List.append_nil] at h
        obtain ⟨pre, post, rfl, hv, hpost⟩ := ih h
        refine ⟨pre, post ++ [w], by simp, hv, ?_⟩
        intro u hu
        rcases List.mem_append.mp hu with hu | hu
        · exact hpost u hu
        · obtain rfl := List.mem_singleton.mp hu
          exact hw

-- The replacement takes the place of the last entry of its own key, and of no other.
theorem LastAt.ofKey_set_self {v : α} (h : LastAt key l (key v) i) :
    ∃ w es, ofKey key (key v) l = es ++ [w] ∧ l[i]? = some w ∧
      ofKey key (key v) (l.set i v) = es ++ [v] := by
  obtain ⟨pre, w, post, rfl, hi, hw, hpost⟩ := h
  refine ⟨w, ofKey key (key v) pre, ?_, ?_, ?_⟩
  · rw [ofKey_append, ofKey_cons_self _ hw, ofKey_eq_nil hpost]
  · simp [← hi]
  · rw [set_at hi, ofKey_append, ofKey_cons_self _ rfl, ofKey_eq_nil hpost]

theorem LastAt.ofKey_set_ne {v : α} (h : LastAt key l (key v) i) (hk : key v ≠ k) :
    ofKey key k (l.set i v) = ofKey key k l := by
  obtain ⟨pre, w, post, rfl, hi, hw, -⟩ := h
  rw [set_at hi, ofKey_append, ofKey_append, ofKey_cons_ne _ hk, ofKey_cons_ne _ (hw.trans_ne hk)]

section Filled

variable {β : Type*}

-- A map that is filled entry by entry: a later entry replaces an earlier one of its key.
def filled (entry : β → Option (κ × α)) (l : List β) : κ → Option α :=
  l.foldl (fun m b =>
    match entry b with
    | some (k, v) => fun x => if x = k then some v else m x
    | none => m) fun _ => none

theorem filled_eq (entry : β → Option (κ × α)) (l : List β) (k : κ) :
    filled entry l k = ((ofKey Prod.fst k (l.filterMap entry)).getLast?).map Prod.snd := by
  induction l using List.reverseRecOn with
  | nil => rfl
  | append_singleton l b ih =>
      rw [filled, List.foldl_append, List.filterMap_append, ofKey_append]
      rw [filled] at ih
      cases he : entry b with
      | none => simp [he, ih]
      | some e =>
          obtain ⟨k', v⟩ := e
          by_cases hk : k = k'
          · simp [he, hk, ofKey]
          · simp [he, hk, Ne.symm hk, ih, ofKey]

theorem filled_concat (entry : β → Option (κ × α)) (l : List β) (b : β) :
    filled entry (l ++ [b]) =
      match entry b with
      | some (k, v) => fun x => if x = k then some v else filled entry l x
      | none => filled entry l := by
  rw [filled, List.foldl_append]
  rfl

theorem isSome_filled {entry : β → Option (κ × α)} {l : List β} {b : β} {k : κ} {v : α} (hb : b ∈ l)
    (h : entry b = some (k, v)) : (filled entry l k).isSome = true := by
  have hmem : (k, v) ∈ ofKey Prod.fst k (l.filterMap entry) := by
    rw [ofKey, List.mem_filter]
    exact ⟨List.mem_filterMap.mpr ⟨b, hb, h⟩, decide_eq_true rfl⟩
  rw [filled_eq, Option.isSome_map, List.getLast?_eq_some_getLast (List.ne_nil_of_mem hmem)]
  rfl

end Filled

section FirstOrder

-- Two lists have the same members, first met in the same order.
def SameFirst (l m : List κ) : Prop :=
  (∀ k, k ∈ l ↔ k ∈ m) ∧
    ∀ k ∈ m, ∀ k' ∈ m, (l.idxOf k < l.idxOf k' ↔ m.idxOf k < m.idxOf k')

variable {l m : List κ} {k : κ}

theorem SameFirst.concat_mem (h : SameFirst l m) (hk : k ∈ m) : SameFirst l (m ++ [k]) := by
  have hmem (a : κ) : a ∈ m ++ [k] ↔ a ∈ m := by
    simp only [List.mem_append, List.mem_singleton, or_iff_left_iff_imp]
    rintro rfl
    exact hk
  refine ⟨fun a => (h.1 a).trans (hmem a).symm, ?_⟩
  intro a ha b hb
  rw [hmem] at ha hb
  rw [List.idxOf_append_of_mem ha, List.idxOf_append_of_mem hb]
  exact h.2 a ha b hb

theorem SameFirst.concat_concat (h : SameFirst l m) : SameFirst (l ++ [k]) (m ++ [k]) := by
  by_cases hk : k ∈ m
  · obtain ⟨hmem, hord⟩ := h.concat_mem hk
    have hl (a : κ) : a ∈ l ++ [k] ↔ a ∈ l := by
      simp only [List.mem_append, List.mem_singleton, or_iff_left_iff_imp]
      rintro rfl
      exact (h.1 a).mpr hk
    refine ⟨fun a => (hl a).trans (hmem a), ?_⟩
    intro a ha b hb
    rw [List.idxOf_append_of_mem ((hmem a).mpr ha), List.idxOf_append_of_mem ((hmem b).mpr hb)]
    exact hord a ha b hb
  · have hkl : k ∉ l := fun hl => hk ((h.1 k).mp hl)
    refine ⟨fun a => by simp [h.1 a], ?_⟩
    -- the new member comes after all others in both
    have hnew (n : List κ) (hn : k ∉ n) : (n ++ [k]).idxOf k = n.length := by
      rw [List.idxOf_append_of_notMem hn, List.idxOf_cons_self, Nat.add_zero]
    have hpos (a : κ) (ha : a ∈ m) : l.idxOf a < l.length ∧ m.idxOf a < m.length :=
      ⟨List.idxOf_lt_length_of_mem ((h.1 a).mpr ha), List.idxOf_lt_length_of_mem ha⟩
    intro a ha b hb
    rw [List.mem_append, List.mem_singleton] at ha hb
    rcases ha with ha | rfl <;> rcases hb with hb | rfl
    · rw [List.idxOf_append_of_mem ha, List.idxOf_append_of_mem hb,
        List.idxOf_append_of_mem ((h.1 a).mpr ha), List.idxOf_append_of_mem ((h.1 b).mpr hb)]
      exact h.2 a ha b hb
    · rw [List.idxOf_append_of_mem ha, List.idxOf_append_of_mem ((h.1 a).mpr ha), hnew l hkl,
        hnew m hk]
      exact iff_of_true (hpos a ha).1 (hpos a ha).2
    · rw [List.idxOf_append_of_mem hb, List.idxOf_append_of_mem ((h.1 b).mpr hb), hnew l hkl,
        hnew m hk]
      have := hpos b hb
      omega
    · simp

end FirstOrder

end JsonScada.Library
