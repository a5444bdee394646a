import Mathlib.Data.List.Basic

namespace JsonScada.Library

-- A log that grows, with the place that a reader has come to.
structure ChangeLog (ε : Type*) where
  events : List ε
  place : ℕ
  place_le : place ≤ events.length

namespace ChangeLog

variable {ε : Type*} (l : ChangeLog ε)

def pending : List ε := l.events.drop l.place

def empty : ChangeLog ε where
  events := []
  place := 0
  place_le := Nat.le_refl 0

def push (e : ε) : ChangeLog ε where
  events := l.events ++ [e]
  place := l.place
  place_le := by
    rw [List.length_append]
    exact Nat.le_add_right_of_le l.place_le

-- The next event, none while there is no new one.
def next : Option (ε × ChangeLog ε) :=
  if h : l.place < l.events.length then
    some (l.events[l.place], { events := l.events, place := l.place + 1, place_le := h })
  else none

-- The reader goes on behind an event that it has read, or at the end of the log.
def openAt (token : Option ℕ) : ChangeLog ε where
  events := l.events
  place := min (token.getD l.events.length) l.events.length
  place_le := Nat.min_le_right ..

-- The place behind the last event that satisfies a condition, the start if there is none.
def behind (p : ε → Bool) : List ε → ℕ
  | [] => 0
  | e :: es => if 0 < behind p es then behind p es + 1 else if p e then 1 else 0

theorem pending_eq_nil_iff : l.pending = [] ↔ l.place = l.events.length := by
  rw [pending, List.drop_eq_nil_iff]
  exact ⟨fun h => Nat.le_antisymm l.place_le h, fun h => Nat.le_of_eq h.symm⟩

@[simp] theorem pending_push (e : ε) : (l.push e).pending = l.pending ++ [e] := by
  rw [pending, push, List.drop_append_of_le_length l.place_le]
  rfl

theorem next_eq_some {e : ε} {l' : ChangeLog ε} (h : l.next = some (e, l')) :
    l.pending = e :: l'.pending ∧ l'.events = l.events ∧ l'.place = l.place + 1 := by
  unfold next at h
  split_ifs at h with hlt
  obtain ⟨rfl, rfl⟩ := Prod.mk.inj (Option.some.inj h)
  exact ⟨List.drop_eq_getElem_cons hlt, rfl, rfl⟩

theorem getElem?_of_next {e : ε} {l' : ChangeLog ε} (h : l.next = some (e, l')) :
    l.events[l.place]? = some e := by
  unfold next at h
  split_ifs at h with hlt
  obtain ⟨rfl, -⟩ := Prod.mk.inj (Option.some.inj h)
  exact List.getElem?_eq_getElem hlt

@[simp] theorem events_foldl_push (es : List ε) : (es.foldl push l).events = l.events ++ es := by
  induction es generalizing l with
  | nil => exact (List.append_nil _).symm
  | cons e es ih => rw [List.foldl_cons, ih, push, List.append_assoc, List.singleton_append]

@[simp] theorem place_foldl_push (es : List ε) : (es.foldl push l).place = l.place := by
  induction es generalizing l with
  | nil => rfl
  | cons e es ih => rw [List.foldl_cons, ih, push]

theorem lt_behind_iff {p : ε → Bool} {es : List ε} {j : ℕ} :
    j < behind p es ↔ ∃ i, j ≤ i ∧ ∃ e, es[i]? = some e ∧ p e = true := by
  induction es generalizing j with
  | nil => simp [behind]
  | cons e es ih =>
      have hrest : 0 < behind p es ↔ ∃ i : ℕ, ∃ e, es[i]? = some e ∧ p e = true := by
        rw [ih]
        simp
      have hcons : (∃ i, j ≤ i ∧ ∃ e', (e :: es)[i]? = some e' ∧ p e' = true) ↔
          (j = 0 ∧ p e = true) ∨ ∃ i, j ≤ i + 1 ∧ ∃ e', es[i]? = some e' ∧ p e' = true := by
        constructor
        · rintro ⟨_ | i, hji, e', he', hp⟩
          · obtain rfl := Option.some.inj he'
            exact .inl ⟨Nat.le_zero.mp hji, hp⟩
          · exact .inr ⟨i, hji, e', he', hp⟩
        · rintro (⟨rfl, hp⟩ | ⟨i, hji, e', he', hp⟩)
          · exact ⟨0, Nat.le_refl 0, e, rfl, hp⟩
          · exact ⟨i + 1, hji, e', he', hp⟩
      rw [hcons, behind]
      by_cases hpos : 0 < behind p es
      · rw [if_pos hpos]
        cases j with
        | zero =>
            obtain ⟨i, he⟩ := hrest.mp hpos
            exact iff_of_true (Nat.succ_pos _) (.inr ⟨i, Nat.zero_le _, he⟩)
        | succ j => simp [ih]
      · have hnone : ¬∃ i : ℕ, ∃ e', es[i]? = some e' ∧ p e' = true := hrest.not.mp hpos
        rw [if_neg hpos]
        constructor
        · intro hj
          split_ifs at hj with hp
          · exact .inl ⟨Nat.lt_one_iff.mp hj, hp⟩
          · omega
        · rintro (⟨rfl, hp⟩ | ⟨i, -, he⟩)
          · rw [if_pos hp]
            exact Nat.one_pos
          · exact absurd ⟨i, he⟩ hnone

theorem behind_append_of_none {p : ε → Bool} {es fs : List ε} (h : ∀ e ∈ fs, p e = false) :
    behind p (es ++ fs) = behind p es := by
  apply Nat.le_antisymm <;> apply Nat.le_of_not_lt <;> intro hlt
  · obtain ⟨i, hi, e, he, hp⟩ := lt_behind_iff.mp hlt
    have hin : i < es.length := by
      by_contra hout
      rw [List.getElem?_append_right (by omega)] at he
      rw [h e (List.mem_of_getElem? he)] at hp
      cases hp
    rw [List.getElem?_append_left hin] at he
    exact absurd (lt_behind_iff.mpr ⟨i, hi, e, he, hp⟩) (Nat.lt_irrefl _)
  · obtain ⟨i, hi, e, he, hp⟩ := lt_behind_iff.mp hlt
    have hin : i < es.length := (List.getElem?_eq_some_iff.mp he).1
    have he : (es ++ fs)[i]? = some e := (List.getElem?_append_left hin).trans he
    exact absurd (lt_behind_iff.mpr ⟨i, hi, e, he, hp⟩) (Nat.lt_irrefl _)

theorem place_openAt_of_le {token : ℕ} (h : token ≤ l.events.length) :
    (l.openAt (some token)).place = token :=
  Nat.min_eq_left h

@[simp] theorem place_openAt_none : (l.openAt none).place = l.events.length :=
  Nat.min_self _

@[simp] theorem events_openAt (token : Option ℕ) : (l.openAt token).events = l.events := rfl

end ChangeLog

end JsonScada.Library
