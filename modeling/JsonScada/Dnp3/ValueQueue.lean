import JsonScada.Library.Double
import JsonScada.Library.LastAt
import Mathlib.Data.Finset.Card
import Mathlib.Data.List.Dedup
import Mathlib.Data.List.Induction

namespace JsonScada.Dnp3

open JsonScada.Library

-- How many values may wait for the writer before events are folded too.
def dataBufferLimit : ℕ := 50000

structure Quality where
  online : Bool := false
  commLost : Bool := false
  remoteForced : Bool := false
  localForced : Bool := false
  overrange : Bool := false
  rollover : Bool := false
  referenceError : Bool := false
  transient : Bool := false
deriving DecidableEq

-- One measurement on its way to realtimeData.
structure Dnp3Value where
  address : ℤ
  baseGroup : ℤ
  group : ℤ
  variation : ℤ
  value : Double
  valueString : String
  cot : ℤ
  serverTimestamp : ℤ
  hasSourceTimestamp : Bool
  sourceTimestamp : ℤ
  timeTagOk : Bool
  quality : Quality
  connNumber : ℤ
  -- an event, as opposed to a static read
  isEvent : Bool
deriving DecidableEq

-- The point that a value belongs to.
structure ValueKey where
  conn : ℤ
  baseGroup : ℤ
  address : ℤ
deriving DecidableEq

def keyOf (v : Dnp3Value) : ValueKey :=
  { conn := v.connNumber, baseGroup := v.baseGroup, address := v.address }

-- `coalesceAt` holds, for each point, the index of the entry that a newer value may
-- replace, which is always the last entry of that point.
structure ValueQueue where
  values : List Dnp3Value
  coalesceAt : ValueKey → Option ℕ
  squashed : ℕ
  closed : Bool
  coalesceAt_last : ∀ k i, coalesceAt k = some i → LastAt keyOf values k i

namespace ValueQueue

def new : ValueQueue where
  values := []
  coalesceAt := fun _ => none
  squashed := 0
  closed := false
  coalesceAt_last := by
    intro k i h
    cases h

-- The entry at `idx` gives way to the newer value of its point.
def replace (q : ValueQueue) (v : Dnp3Value) (idx : ℕ) (h : q.coalesceAt (keyOf v) = some idx) :
    ValueQueue where
  values := q.values.set idx v
  coalesceAt := q.coalesceAt
  squashed := if v.isEvent then q.squashed + 1 else q.squashed
  closed := q.closed
  coalesceAt_last := by
    intro k i hk
    have hlast := q.coalesceAt_last _ _ h
    by_cases hv : keyOf v = k
    · subst hv
      obtain rfl := Option.some.inj (h.symm.trans hk)
      exact hlast.set_self
    · exact hlast.set_ne (q.coalesceAt_last k i hk) hv

-- A new entry at the end, which the next value may or may not replace.
def append (q : ValueQueue) (v : Dnp3Value) (replaceable : Bool) : ValueQueue where
  values := q.values ++ [v]
  coalesceAt := Function.update q.coalesceAt (keyOf v)
    (if replaceable then some q.values.length else none)
  squashed := q.squashed
  closed := q.closed
  coalesceAt_last := by
    intro k i hk
    by_cases hv : k = keyOf v
    · subst hv
      rw [Function.update_self] at hk
      by_cases hr : replaceable = true
      · rw [if_pos hr] at hk
        obtain rfl := Option.some.inj hk
        exact lastAt_append_self q.values v
      · rw [if_neg hr] at hk
        cases hk
    · rw [Function.update_of_ne hv] at hk
      exact (q.coalesceAt_last k i hk).append_ne fun h => hv h.symm

def push (q : ValueQueue) (v : Dnp3Value) : ValueQueue :=
  let underPressure := dataBufferLimit ≤ q.values.length
  if !v.isEvent || underPressure then
    match h : q.coalesceAt (keyOf v) with
    | some idx => q.replace v idx h
    | none => q.append v true
  -- an event in normal conditions: no later static may be folded into what is behind it
  else q.append v false

def pushAll (q : ValueQueue) (vs : List Dnp3Value) : ValueQueue :=
  vs.foldl push q

-- Everything queued and the number of folded events, none while the call blocks.
def drain (q : ValueQueue) : Option ((List Dnp3Value × ℕ) × ValueQueue) :=
  if q.values.isEmpty && !q.closed then none
  else some ((q.values, q.squashed), { new with closed := q.closed })

def len (q : ValueQueue) : ℕ := q.values.length

def close (q : ValueQueue) : ValueQueue := { q with closed := true }

end ValueQueue

end JsonScada.Dnp3

namespace JsonScada.Dnp3.ValueQueue

open JsonScada.Library

section Push

@[simp] theorem replace_values (q : ValueQueue) (v : Dnp3Value) (i : ℕ)
    (h : q.coalesceAt (keyOf v) = some i) : (q.replace v i h).values = q.values.set i v := rfl

@[simp] theorem replace_coalesceAt (q : ValueQueue) (v : Dnp3Value) (i : ℕ)
    (h : q.coalesceAt (keyOf v) = some i) : (q.replace v i h).coalesceAt = q.coalesceAt := rfl

@[simp] theorem append_values (q : ValueQueue) (v : Dnp3Value) (r : Bool) :
    (q.append v r).values = q.values ++ [v] := rfl

theorem append_coalesceAt_ne (q : ValueQueue) {v : Dnp3Value} {r : Bool} {k : ValueKey}
    (hk : k ≠ keyOf v) : (q.append v r).coalesceAt k = q.coalesceAt k :=
  Function.update_of_ne hk _ _

@[simp] theorem append_coalesceAt_true (q : ValueQueue) (v : Dnp3Value) :
    (q.append v true).coalesceAt (keyOf v) = some q.values.length :=
  Function.update_self _ _ _

@[simp] theorem append_coalesceAt_false (q : ValueQueue) (v : Dnp3Value) :
    (q.append v false).coalesceAt (keyOf v) = none :=
  Function.update_self _ _ _

-- All that one push can do.
theorem push_cases (q : ValueQueue) (v : Dnp3Value) :
    (∃ i, ∃ h : q.coalesceAt (keyOf v) = some i,
      (v.isEvent = false ∨ dataBufferLimit ≤ q.values.length) ∧ q.push v = q.replace v i h) ∨
    (q.coalesceAt (keyOf v) = none ∧ (v.isEvent = false ∨ dataBufferLimit ≤ q.values.length) ∧
      q.push v = q.append v true) ∨
    (v.isEvent = true ∧ q.values.length < dataBufferLimit ∧ q.push v = q.append v false) := by
  by_cases hfold : (!v.isEvent || decide (dataBufferLimit ≤ q.values.length)) = true
  · have hkind : v.isEvent = false ∨ dataBufferLimit ≤ q.values.length := by simpa using hfold
    by_cases hnone : q.coalesceAt (keyOf v) = none
    · refine .inr (.inl ⟨hnone, hkind, ?_⟩)
      unfold push
      rw [if_pos hfold]
      split
      · next i h =>
          rw [hnone] at h
          cases h
      · rfl
    · obtain ⟨i, hi⟩ := Option.ne_none_iff_exists'.mp hnone
      refine .inl ⟨i, hi, hkind, ?_⟩
      unfold push
      rw [if_pos hfold]
      split
      · next j h =>
          obtain rfl := Option.some.inj (hi.symm.trans h)
          rfl
      · next h => exact absurd h hnone
  · have hpush : q.push v = q.append v false := if_neg hfold
    simp only [Bool.or_eq_true, Bool.not_eq_true', decide_eq_true_eq, not_or, Bool.not_eq_false,
      not_le] at hfold
    exact .inr (.inr ⟨hfold.1, hfold.2, hpush⟩)

theorem push_closed (q : ValueQueue) (v : Dnp3Value) : (q.push v).closed = q.closed := by
  rcases push_cases q v with ⟨i, h, -, he⟩ | ⟨-, -, he⟩ | ⟨-, -, he⟩ <;> rw [he] <;> rfl

-- A push leaves the entries as they stand and puts its value last among those of its
-- point, after the others or in the place of the last one.
theorem push_ofKey_self (q : ValueQueue) (v : Dnp3Value) :
    ofKey keyOf (keyOf v) (q.push v).values = ofKey keyOf (keyOf v) q.values ++ [v] ∨
      ∃ i w es, (v.isEvent = false ∨ dataBufferLimit ≤ q.values.length) ∧
        q.coalesceAt (keyOf v) = some i ∧ q.values[i]? = some w ∧
        ofKey keyOf (keyOf v) q.values = es ++ [w] ∧
        ofKey keyOf (keyOf v) (q.push v).values = es ++ [v] := by
  rcases push_cases q v with ⟨i, h, hkind, he⟩ | ⟨-, -, he⟩ | ⟨-, -, he⟩
  · obtain ⟨w, es, hes, hw, hset⟩ := (q.coalesceAt_last _ _ h).ofKey_set_self
    rw [he]
    exact .inr ⟨i, w, es, hkind, h, hw, hes, hset⟩
  all_goals
    rw [he, append_values, ofKey_append, ofKey_cons_self _ rfl, ofKey_nil]
    exact .inl rfl

theorem push_ofKey_ne (q : ValueQueue) {v : Dnp3Value} {k : ValueKey} (hk : keyOf v ≠ k) :
    ofKey keyOf k (q.push v).values = ofKey keyOf k q.values := by
  rcases push_cases q v with ⟨i, h, -, he⟩ | ⟨-, -, he⟩ | ⟨-, -, he⟩
  · rw [he]
    exact (q.coalesceAt_last _ _ h).ofKey_set_ne hk
  all_goals
    rw [he, append_values, ofKey_append, ofKey_cons_ne _ hk, ofKey_nil, List.append_nil]

theorem push_last (q : ValueQueue) (v : Dnp3Value) :
    (ofKey keyOf (keyOf v) (q.push v).values).getLast? = some v := by
  rcases q.push_ofKey_self v with he | ⟨i, w, es, -, -, -, -, he⟩ <;>
    rw [he, List.getLast?_concat]

theorem mem_push {q : ValueQueue} {v w : Dnp3Value} (h : w ∈ (q.push v).values) :
    w ∈ q.values ∨ w = v := by
  rcases push_cases q v with ⟨i, hi, -, he⟩ | ⟨-, -, he⟩ | ⟨-, -, he⟩
  · rw [he] at h
    exact List.mem_or_eq_of_mem_set h
  · rw [he] at h
    simpa [append] using h
  · rw [he] at h
    simpa [append] using h

theorem mem_push_self (q : ValueQueue) (v : Dnp3Value) : v ∈ (q.push v).values := by
  obtain ⟨pre, post, hsplit, -⟩ := exists_of_getLast?_ofKey (q.push_last v)
  rw [hsplit]
  simp

-- The points of the entries, in their order: a push may add one, at the end.
theorem push_keys (q : ValueQueue) (v : Dnp3Value) :
    ((q.push v).values.map keyOf = q.values.map keyOf ∧ keyOf v ∈ q.values.map keyOf) ∨
      (q.push v).values.map keyOf = q.values.map keyOf ++ [keyOf v] := by
  rcases push_cases q v with ⟨i, h, -, he⟩ | ⟨-, -, he⟩ | ⟨-, -, he⟩
  · have hlast := q.coalesceAt_last _ _ h
    refine .inl ⟨?_, ?_⟩
    · rw [he]
      exact hlast.map_set
    · obtain ⟨pre, w, post, hq, -, hw, -⟩ := hlast
      rw [hq]
      simp [hw]
  all_goals
    right
    rw [he, append_values, List.map_append]
    rfl

end Push

section Run

-- An empty queue: a new one, or one just drained.
def empty (closed : Bool) : ValueQueue := { new with closed := closed }

-- How many values wait after the pushes.
def waiting (closed : Bool) (pushes : List Dnp3Value) : ℕ := ((empty closed).pushAll pushes).len

@[simp] theorem pushAll_concat (q : ValueQueue) (vs : List Dnp3Value) (v : Dnp3Value) :
    q.pushAll (vs ++ [v]) = (q.pushAll vs).push v :=
  List.foldl_concat ..

theorem pushAll_closed (q : ValueQueue) (vs : List Dnp3Value) :
    (q.pushAll vs).closed = q.closed := by
  induction vs using List.reverseRecOn with
  | nil => rfl
  | append_singleton vs v ih => rw [pushAll_concat, push_closed, ih]

variable (closed : Bool) (pushes : List Dnp3Value)

-- The last entry of a point is the value last pushed for it.
theorem pushAll_last (k : ValueKey) :
    (ofKey keyOf k ((empty closed).pushAll pushes).values).getLast? =
      (ofKey keyOf k pushes).getLast? := by
  induction pushes using List.reverseRecOn with
  | nil => rfl
  | append_singleton vs v ih =>
      rw [pushAll_concat]
      by_cases hk : keyOf v = k
      · subst hk
        have hpushed : (ofKey keyOf (keyOf v) (vs ++ [v])).getLast? = some v := by
          rw [ofKey_append, ofKey_cons_self _ rfl, ofKey_nil, List.getLast?_concat]
        rw [hpushed]
        rcases push_ofKey_self ((empty closed).pushAll vs) v with h | ⟨i, w, es, -, -, -, -, h⟩ <;>
          rw [h, List.getLast?_concat]
      · rw [push_ofKey_ne _ hk, ofKey_append, ofKey_cons_ne _ hk, ofKey_nil, List.append_nil]
        exact ih

-- The points that a newer value would be folded into.
def foldable (q : ValueQueue) (vs : List Dnp3Value) : Finset ValueKey :=
  (vs.map keyOf).toFinset.filter fun k => (q.coalesceAt k).isSome

theorem mem_foldable {q : ValueQueue} {vs : List Dnp3Value} {k : ValueKey} :
    k ∈ foldable q vs ↔ k ∈ vs.map keyOf ∧ (q.coalesceAt k).isSome := by
  rw [foldable, Finset.mem_filter, List.mem_toFinset]

-- Past the limit an entry is added only for a point that has no replaceable one, and
-- is replaceable itself.
theorem pushAll_length_le_foldable :
    ((empty closed).pushAll pushes).values.length ≤
      dataBufferLimit + (foldable ((empty closed).pushAll pushes) pushes).card := by
  induction pushes using List.reverseRecOn with
  | nil => exact Nat.zero_le _
  | append_singleton vs v ih =>
      rw [pushAll_concat]
      generalize (empty closed).pushAll vs = q at ih
      rcases push_cases q v with ⟨i, h, -, he⟩ | ⟨hnone, -, he⟩ | ⟨-, hlt, he⟩
      · rw [he, replace_values, List.length_set]
        refine ih.trans (Nat.add_le_add_left (Finset.card_le_card ?_) _)
        intro k hk
        rw [mem_foldable] at hk ⊢
        exact ⟨by simp [List.mem_map.mp hk.1], hk.2⟩
      · rw [he, append_values, List.length_append]
        have hnew : keyOf v ∉ foldable q vs := by
          rw [mem_foldable, hnone]
          simp
        have hsub : insert (keyOf v) (foldable q vs) ⊆ foldable (q.append v true) (vs ++ [v]) := by
          intro k hk
          rw [mem_foldable]
          rcases Finset.mem_insert.mp hk with rfl | hk'
          · simp
          · have hne : k ≠ keyOf v := fun h => hnew (h ▸ hk')
            rw [mem_foldable] at hk'
            rw [append_coalesceAt_ne q hne]
            exact ⟨by simp [List.mem_map.mp hk'.1], hk'.2⟩
        have hcard := Finset.card_le_card hsub
        rw [Finset.card_insert_of_notMem hnew] at hcard
        simp only [List.length_singleton]
        omega
      · rw [he, append_values, List.length_append]
        simp only [List.length_singleton]
        omega

theorem pushAll_length_le :
    ((empty closed).pushAll pushes).values.length ≤
      dataBufferLimit + (pushes.map keyOf).dedup.length := by
  rw [← List.card_toFinset]
  refine (pushAll_length_le_foldable closed pushes).trans (Nat.add_le_add_left ?_ _)
  exact Finset.card_filter_le _ _

-- Every entry stands where the push that first inserted it put it.
theorem pushAll_inserted {i : ℕ} {k : ValueKey}
    (h : (((empty closed).pushAll pushes).values.map keyOf)[i]? = some k) :
    ∃ n v, pushes[n]? = some v ∧ keyOf v = k ∧ waiting closed (pushes.take n) = i ∧
      waiting closed (pushes.take (n + 1)) = i + 1 := by
  induction pushes using List.reverseRecOn with
  | nil => cases h
  | append_singleton vs v ih =>
      -- a push before the last one stays what it was
      have hold (h : (((empty closed).pushAll vs).values.map keyOf)[i]? = some k) :
          ∃ n w, (vs ++ [v])[n]? = some w ∧ keyOf w = k ∧
            waiting closed ((vs ++ [v]).take n) = i ∧
            waiting closed ((vs ++ [v]).take (n + 1)) = i + 1 := by
        obtain ⟨n, w, hn, hw, hi, hi'⟩ := ih h
        have hlt : n < vs.length := (List.getElem?_eq_some_iff.mp hn).1
        refine ⟨n, w, ?_, hw, ?_, ?_⟩
        · rw [List.getElem?_append_left hlt, hn]
        · rw [List.take_append_of_le_length (by omega), hi]
        · rw [List.take_append_of_le_length (by omega), hi']
      rw [pushAll_concat] at h
      rcases push_keys ((empty closed).pushAll vs) v with ⟨hkeys, -⟩ | hkeys
      · rw [hkeys] at h
        exact hold h
      · by_cases hi : i < (((empty closed).pushAll vs).values.map keyOf).length
        · rw [hkeys, List.getElem?_append_left hi] at h
          exact hold h
        · have hlen : (((empty closed).pushAll vs).push v).values.length =
              ((empty closed).pushAll vs).values.length + 1 := by
            simpa using congrArg List.length hkeys
          rw [hkeys, List.getElem?_append_right (by omega)] at h
          have hi' : i = ((empty closed).pushAll vs).values.length := by
            have := (List.getElem?_eq_some_iff.mp h).1
            simp only [List.length_map, List.length_singleton] at this hi
            omega
          subst hi'
          refine ⟨vs.length, v, by simp, by simpa using h, by simp [waiting, len], ?_⟩
          rw [List.take_of_length_le (by simp), waiting, pushAll_concat, len, hlen]

-- The points come in the order in which they were first pushed.
theorem pushAll_sameFirst :
    SameFirst (((empty closed).pushAll pushes).values.map keyOf) (pushes.map keyOf) := by
  induction pushes using List.reverseRecOn with
  | nil => exact ⟨fun k => Iff.rfl, by simp⟩
  | append_singleton vs v ih =>
      rw [pushAll_concat, List.map_append, List.map_singleton]
      rcases push_keys ((empty closed).pushAll vs) v with ⟨hkeys, hmem⟩ | hkeys
      · rw [hkeys]
        exact ih.concat_mem ((ih.1 _).mp hmem)
      · rw [hkeys]
        exact ih.concat_concat

end Run

section Relaxed

-- Fewer values than the limit waited at each push.
def Relaxed (closed : Bool) (pushes : List Dnp3Value) : Prop :=
  ∀ n < pushes.length, waiting closed (pushes.take n) < dataBufferLimit

variable {closed : Bool} {vs pushes : List Dnp3Value} {v : Dnp3Value}

theorem Relaxed.init (h : Relaxed closed (vs ++ [v])) : Relaxed closed vs := by
  intro n hn
  have hw := h n (by simp; omega)
  rwa [List.take_append_of_le_length (by omega)] at hw

theorem Relaxed.lt (h : Relaxed closed (vs ++ [v])) :
    ((empty closed).pushAll vs).values.length < dataBufferLimit := by
  have hw := h vs.length (by simp)
  rwa [List.take_left] at hw

-- What a newer value may take the place of is a static reading.
theorem pushAll_replaceable (h : Relaxed closed pushes) {k : ValueKey} {i : ℕ} {w : Dnp3Value}
    (hi : ((empty closed).pushAll pushes).coalesceAt k = some i)
    (hw : ((empty closed).pushAll pushes).values[i]? = some w) : w.isEvent = false := by
  induction pushes using List.reverseRecOn generalizing k i w with
  | nil => cases hi
  | append_singleton vs v ih =>
      have hlt := h.lt
      have hrest := @ih h.init
      rw [pushAll_concat] at hi hw
      generalize (empty closed).pushAll vs = q at hi hw hlt hrest
      rcases push_cases q v with ⟨j, hj, hkind, he⟩ | ⟨-, hkind, he⟩ | ⟨-, -, he⟩
      · have hstatic : v.isEvent = false := hkind.resolve_right (by omega)
        rw [he, replace_coalesceAt] at hi
        rw [he, replace_values] at hw
        rcases List.mem_or_eq_of_mem_set (List.mem_of_getElem? hw) with - | rfl
        · by_cases hij : j = i
          · subst hij
            rw [List.getElem?_set_self (q.coalesceAt_last _ _ hj).lt_length] at hw
            obtain rfl := Option.some.inj hw
            exact hstatic
          · rw [List.getElem?_set_ne hij] at hw
            exact hrest hi hw
        · exact hstatic
      · have hstatic : v.isEvent = false := hkind.resolve_right (by omega)
        by_cases hk : k = keyOf v
        · subst hk
          rw [he, append_coalesceAt_true] at hi
          obtain rfl := Option.some.inj hi
          rw [he, append_values, List.getElem?_concat_length] at hw
          obtain rfl := Option.some.inj hw
          exact hstatic
        · rw [he, append_coalesceAt_ne q hk] at hi
          rw [he, append_values, List.getElem?_append_left (q.coalesceAt_last _ _ hi).lt_length]
            at hw
          exact hrest hi hw
      · by_cases hk : k = keyOf v
        · subst hk
          rw [he, append_coalesceAt_false] at hi
          cases hi
        · rw [he, append_coalesceAt_ne q hk] at hi
          rw [he, append_values, List.getElem?_append_left (q.coalesceAt_last _ _ hi).lt_length]
            at hw
          exact hrest hi hw

-- The entries of a point are pushed ones, in the order of their pushes, and no event
-- of them is missing.
theorem pushAll_ofKey (h : Relaxed closed pushes) (k : ValueKey) :
    (ofKey keyOf k ((empty closed).pushAll pushes).values).Sublist (ofKey keyOf k pushes) ∧
      (ofKey keyOf k ((empty closed).pushAll pushes).values).filter Dnp3Value.isEvent =
        (ofKey keyOf k pushes).filter Dnp3Value.isEvent := by
  induction pushes using List.reverseRecOn with
  | nil => exact ⟨List.Sublist.refl _, rfl⟩
  | append_singleton vs v ih =>
      obtain ⟨hsub, hev⟩ := ih h.init
      have hlt := h.lt
      rw [pushAll_concat, ofKey_append]
      by_cases hk : keyOf v = k
      · subst hk
        rw [ofKey_cons_self _ rfl, ofKey_nil]
        rcases push_ofKey_self ((empty closed).pushAll vs) v with
          he | ⟨i, w, es, hkind, hi, hw, hes, he⟩
        · rw [he, List.filter_append, List.filter_append, hev]
          exact ⟨hsub.append (List.Sublist.refl _), rfl⟩
        · have hold : w.isEvent = false := pushAll_replaceable h.init hi hw
          have hnew : v.isEvent = false := hkind.resolve_right (by omega)
          rw [hes] at hsub hev
          rw [List.filter_append, List.filter_cons_of_neg (by simp [hold])] at hev
          rw [he, List.filter_append, List.filter_append,
            List.filter_cons_of_neg (by simp [hnew]), hev, List.filter_nil, List.append_nil]
          have hinit := (List.sublist_append_left es [w]).trans hsub
          exact ⟨hinit.append (List.Sublist.refl _), rfl⟩
      · rw [push_ofKey_ne _ hk, ofKey_cons_ne _ hk, ofKey_nil, List.append_nil]
        exact ⟨hsub, hev⟩

-- A static reading that stands before an event of the entries was pushed before that
-- same event: the events ahead of it are the same.
def StaticsPushedBefore (entries pushed : List Dnp3Value) : Prop :=
  ∀ pre s mid e post, entries = (pre ++ s :: mid) ++ e :: post →
    s.isEvent = false → e.isEvent = true →
    ∃ pre' mid' post', pushed = (pre' ++ s :: mid') ++ e :: post' ∧
      (pre' ++ s :: mid').filter Dnp3Value.isEvent = (pre ++ s :: mid).filter Dnp3Value.isEvent

theorem staticsPushedBefore {entries pushed : List Dnp3Value} (hsub : entries.Sublist pushed)
    (hev : entries.filter Dnp3Value.isEvent = pushed.filter Dnp3Value.isEvent) :
    StaticsPushedBefore entries pushed := by
  rintro pre s mid e post rfl hstatic he
  obtain ⟨front, back, rfl, hfront, hback⟩ := List.append_sublist_iff.mp hsub
  obtain ⟨near, far, rfl, hmem, hpost⟩ := List.cons_sublist_iff.mp hback
  obtain ⟨x, y, rfl⟩ := List.append_of_mem hmem
  obtain ⟨a, b, rfl, -, hs⟩ := List.append_sublist_iff.mp hfront
  obtain ⟨c, d, rfl, hs, -⟩ := List.cons_sublist_iff.mp hs
  obtain ⟨c₁, c₂, rfl⟩ := List.append_of_mem hs
  refine ⟨a ++ c₁, c₂ ++ d ++ x, y ++ far, by simp, ?_⟩
  -- as many events stand before `e` on both sides
  have hbefore := (hfront.trans (List.sublist_append_left _ x)).filter Dnp3Value.isEvent
  have hafter := (hpost.trans (List.sublist_append_right y _)).filter Dnp3Value.isEvent
  have hcount := congrArg List.length hev
  simp only [List.filter_append, List.filter_cons_of_pos he, List.length_append,
    List.length_cons] at hbefore hafter hcount
  have hle := hbefore.length_le
  have hle' := hafter.length_le
  simp only [List.length_append] at hle hle'
  have heq := hbefore.eq_of_length_le (by simp only [List.length_append]; omega)
  simpa [List.filter_append, List.filter_cons, hstatic] using heq.symm

end Relaxed

-- No point is lost: a drain gives the last value of every point that was pushed; below
-- the limit every event comes, in order, and no static reading is before an event that
-- was pushed earlier; the batch is bounded, and its entries stand as they came in.
theorem drain_keeps_points (closed : Bool) (pushes : List Dnp3Value)
    (h : pushes ≠ [] ∨ closed = true) :
    ∃ batch squashed,
      ((empty closed).pushAll pushes).drain = some ((batch, squashed), empty closed) ∧
      (∀ k, (ofKey keyOf k batch).getLast? = (ofKey keyOf k pushes).getLast?) ∧
      (Relaxed closed pushes → ∀ k,
        (ofKey keyOf k batch).filter Dnp3Value.isEvent =
            (ofKey keyOf k pushes).filter Dnp3Value.isEvent ∧
          StaticsPushedBefore (ofKey keyOf k batch) (ofKey keyOf k pushes)) ∧
      batch.length ≤ dataBufferLimit + (pushes.map keyOf).dedup.length ∧
      SameFirst (batch.map keyOf) (pushes.map keyOf) ∧
      ∀ i k, (batch.map keyOf)[i]? = some k →
        ∃ n v, pushes[n]? = some v ∧ keyOf v = k ∧ waiting closed (pushes.take n) = i ∧
          waiting closed (pushes.take (n + 1)) = i + 1 := by
  have hdrain : ((empty closed).pushAll pushes).drain =
      some ((((empty closed).pushAll pushes).values, ((empty closed).pushAll pushes).squashed),
        empty closed) := by
    have hclosed : ((empty closed).pushAll pushes).closed = closed := pushAll_closed _ _
    unfold drain
    rw [if_neg, hclosed]
    · rfl
    · rw [hclosed, Bool.and_eq_true, List.isEmpty_iff, Bool.not_eq_true']
      rintro ⟨hnil, hopen⟩
      have hpushed : pushes ≠ [] := h.resolve_right (by simp [hopen])
      obtain ⟨v, hv⟩ := List.exists_mem_of_ne_nil pushes hpushed
      have hmem := ((pushAll_sameFirst closed pushes).1 (keyOf v)).mpr (List.mem_map_of_mem hv)
      rw [hnil] at hmem
      cases hmem
  refine ⟨_, _, hdrain, pushAll_last closed pushes, ?_, pushAll_length_le closed pushes,
    pushAll_sameFirst closed pushes, ?_⟩
  · intro hrel k
    obtain ⟨hsub, hev⟩ := pushAll_ofKey hrel k
    exact ⟨hev, staticsPushedBefore hsub hev⟩
  · intro i k hk
    exact pushAll_inserted closed pushes hk

-- A binary input that goes on and off again, both times by an event.
def toggled (value : Double) : Dnp3Value where
  address := 3
  baseGroup := 1
  group := 1
  variation := 0
  value := value
  valueString := if value = .fin 0 then "false" else "true"
  cot := 20
  serverTimestamp := 1700000000000
  hasSourceTimestamp := false
  sourceTimestamp := 0
  timeTagOk := false
  quality := { online := true }
  connNumber := 1
  isEvent := true

theorem toggled_kept : ∃ batch squashed,
    ((empty false).pushAll [toggled (.fin 1), toggled (.fin 0)]).drain =
      some ((batch, squashed), empty false) ∧
    (ofKey keyOf (keyOf (toggled (.fin 0))) batch).getLast? = some (toggled (.fin 0)) := by
  obtain ⟨batch, squashed, hdrain, hlast, -⟩ :=
    drain_keeps_points false [toggled (.fin 1), toggled (.fin 0)] (.inl (by simp))
  refine ⟨batch, squashed, hdrain, ?_⟩
  rw [hlast]
  rfl

end JsonScada.Dnp3.ValueQueue
