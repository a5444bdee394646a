import Mathlib.Data.List.Basic
import Mathlib.Tactic.Common

namespace JsonScada.Library

-- A scanner cuts items out of the front of a buffer. One attempt either asks
-- for more input (`none`) or gives up some of the buffer, with or without an
-- item. What it decided on a buffer it decides on every longer one.
structure Scanner (α φ : Type*) where
  attempt : List α → Option (Option φ × List α)
  shrinks : ∀ {buf item rest}, attempt buf = some (item, rest) → rest.length < buf.length
  stable : ∀ {buf item rest} (more : List α),
    attempt buf = some (item, rest) → attempt (buf ++ more) = some (item, rest ++ more)

namespace Scanner

variable {α φ : Type*} (s : Scanner α φ)

-- Cut items until the scanner asks for more input.
def drain (buf : List α) : List φ × List α :=
  match h : s.attempt buf with
  | none => ([], buf)
  | some (item, rest) =>
      have := s.shrinks h
      (item.toList ++ (drain rest).1, (drain rest).2)
termination_by buf.length

theorem drain_none {buf : List α} (h : s.attempt buf = none) : s.drain buf = ([], buf) := by
  rw [drain]
  split
  · rfl
  · rename_i hs
    rw [h] at hs
    cases hs

theorem drain_some {buf : List α} {item : Option φ} {rest : List α}
    (h : s.attempt buf = some (item, rest)) :
    s.drain buf = (item.toList ++ (s.drain rest).1, (s.drain rest).2) := by
  rw [drain]
  split
  · rename_i hn
    rw [h] at hn
    cases hn
  · rename_i hs
    rw [h] at hs
    cases hs
    rfl

-- Induction along the attempts of a drain: the buffer either is stuck or gives
-- way to a shorter one.
theorem buffer_induction {motive : List α → Prop}
    (stuck : ∀ buf, s.attempt buf = none → motive buf)
    (cut : ∀ buf item rest, s.attempt buf = some (item, rest) → motive rest → motive buf)
    (buf : List α) : motive buf := by
  induction hn : buf.length using Nat.strongRecOn generalizing buf with
  | ind n ih =>
      cases ha : s.attempt buf with
      | none => exact stuck buf ha
      | some pair =>
          have hlt := s.shrinks ha
          exact cut buf pair.1 pair.2 ha (ih pair.2.length (by omega) pair.2 rfl)

-- Reaching a buffer from which nothing more can be cut is all `drain` does.
theorem drain_stuck (buf : List α) : s.attempt (s.drain buf).2 = none := by
  induction buf using s.buffer_induction with
  | stuck buf ha => rw [s.drain_none ha]; exact ha
  | cut buf item rest ha ih => rw [s.drain_some ha]; exact ih

-- Draining a longer buffer continues where draining the shorter one stopped.
theorem drain_append (buf more : List α) :
    s.drain (buf ++ more) =
      ((s.drain buf).1 ++ (s.drain ((s.drain buf).2 ++ more)).1,
        (s.drain ((s.drain buf).2 ++ more)).2) := by
  induction buf using s.buffer_induction with
  | stuck buf ha => simp only [s.drain_none ha, List.nil_append]
  | cut buf item rest ha ih =>
      rw [s.drain_some ha, s.drain_some (s.stable more ha), ih]
      simp only [List.append_assoc]

-- Feed one chunk after the other, keeping the undecided bytes in between.
def feed (buf : List α) : List (List α) → List φ × List α
  | [] => ([], buf)
  | chunk :: chunks =>
      let first := s.drain (buf ++ chunk)
      let rest := feed first.2 chunks
      (first.1 ++ rest.1, rest.2)

theorem feed_of_stuck (buf : List α) (chunks : List (List α)) (h : s.attempt buf = none) :
    s.feed buf chunks = s.drain (buf ++ chunks.flatten) := by
  induction chunks generalizing buf with
  | nil => simp [feed, s.drain_none h]
  | cons chunk chunks ih =>
      simp only [feed, List.flatten_cons]
      rw [ih _ (s.drain_stuck _), ← List.append_assoc, s.drain_append (buf ++ chunk)]

-- A property of every item cut by one attempt holds of every drained item.
theorem drain_forall {good : List α → φ → Prop}
    (hitem : ∀ buf item rest, s.attempt buf = some (some item, rest) → good buf item)
    (hmono : ∀ {buf item rest x}, s.attempt buf = some (item, rest) → good rest x → good buf x)
    (buf : List α) : ∀ x ∈ (s.drain buf).1, good buf x := by
  induction buf using s.buffer_induction with
  | stuck buf ha => simp [s.drain_none ha]
  | cut buf item rest ha ih =>
      intro x hx
      rw [s.drain_some ha] at hx
      rcases List.mem_append.mp hx with hi | hr
      · cases item with
        | none => cases hi
        | some y =>
            obtain rfl : x = y := by simpa using hi
            exact hitem buf x rest ha
      · exact hmono ha (ih x hr)

-- Items laid out one after the other are cut one after the other.
theorem drain_flatMap {ι : Type*} (encode : ι → List α) (item : ι → φ)
    (hcut : ∀ x rest, s.attempt (encode x ++ rest) = some (some (item x), rest))
    (xs : List ι) (rest : List α) :
    s.drain (xs.flatMap encode ++ rest) = (xs.map item ++ (s.drain rest).1, (s.drain rest).2) := by
  induction xs with
  | nil => simp
  | cons x xs ih =>
      rw [List.flatMap_cons, List.append_assoc, s.drain_some (hcut x _), ih]
      simp

-- The buffers that a drain comes by.
inductive Reaches : List α → List α → Prop where
  | refl (buf : List α) : Reaches buf buf
  | cut {buf mid rest : List α} {item : Option φ} :
      s.attempt buf = some (item, mid) → Reaches mid rest → Reaches buf rest

-- An item comes out when the drain comes by a buffer that it is cut from.
theorem mem_drain_iff {x : φ} {buf : List α} :
    x ∈ (s.drain buf).1 ↔
      ∃ mid rest, s.Reaches buf mid ∧ s.attempt mid = some (some x, rest) := by
  induction buf using s.buffer_induction with
  | stuck buf ha =>
      simp only [s.drain_none ha, List.not_mem_nil, false_iff, not_exists, not_and]
      intro mid rest hreach hcut
      cases hreach with
      | refl => rw [ha] at hcut; cases hcut
      | cut hfirst _ => rw [ha] at hfirst; cases hfirst
  | cut buf item next ha ih =>
      simp only [s.drain_some ha, List.mem_append, Option.mem_toList, ih]
      constructor
      · rintro (rfl | ⟨mid, rest, hreach, hcut⟩)
        · exact ⟨buf, next, .refl buf, ha⟩
        · exact ⟨mid, rest, .cut ha hreach, hcut⟩
      · rintro ⟨mid, rest, hreach, hcut⟩
        cases hreach with
        | refl =>
            rw [ha] at hcut
            exact .inl (Prod.mk.inj (Option.some.inj hcut)).1
        | cut hfirst hreach =>
            rw [ha] at hfirst
            obtain ⟨-, rfl⟩ := Prod.mk.inj (Option.some.inj hfirst)
            exact .inr ⟨mid, rest, hreach, hcut⟩

-- The drain ends at the one buffer it comes by from which nothing is cut.
theorem drain_rest_iff {buf rest : List α} :
    (s.drain buf).2 = rest ↔ s.Reaches buf rest ∧ s.attempt rest = none := by
  constructor
  · rintro rfl
    refine ⟨?_, s.drain_stuck buf⟩
    induction buf using s.buffer_induction with
    | stuck buf ha => rw [s.drain_none ha]; exact .refl buf
    | cut buf item next ha ih => rw [s.drain_some ha]; exact .cut ha ih
  · rintro ⟨hreach, hstuck⟩
    induction hreach with
    | refl buf => rw [s.drain_none hstuck]
    | cut ha _ ih => rw [s.drain_some ha]; exact ih hstuck

end Scanner

end JsonScada.Library
