import JsonScada.Modbus.PointMap.History

namespace JsonScada.Modbus

open JsonScada.Library

section Layout

-- The bits of registers, or the one bit, that a point's address names.
def Point.names (p : Point) (o k : Nat) : Prop :=
  match p.address.bit with
  | some bit => o = p.offset ∧ k = bit
  | none => p.offset ≤ o ∧ o < p.offset + p.span

def Point.Overlaps (p q : Point) : Prop :=
  p.unit = q.unit ∧ p.area = q.area ∧ ∃ o k, p.names o k ∧ q.names o k

theorem Point.Overlaps.symm {p q : Point} (h : p.Overlaps q) : q.Overlaps p := by
  obtain ⟨hunit, harea, o, k, hp, hq⟩ := h
  exact ⟨hunit.symm, harea.symm, o, k, hq, hp⟩

theorem Point.span_pos (p : Point) : 0 < p.span := by
  unfold Point.span
  by_cases h : (!isBitArea p.area && decide (1 < p.asdu.regCount)) = true
  · rw [if_pos h]
    simp only [Bool.and_eq_true, decide_eq_true_eq] at h
    omega
  · rw [if_neg h]
    omega

def Point.sharesBit (p q : Point) : Bool :=
  match p.address.bit, q.address.bit with
  | some b, some c => p.offset = q.offset && b = c
  | some _, none => q.offset ≤ p.offset && p.offset < q.offset + q.span
  | none, some _ => p.offset ≤ q.offset && q.offset < p.offset + p.span
  | none, none => p.offset < q.offset + q.span && q.offset < p.offset + p.span

theorem Point.overlaps_iff (p q : Point) :
    p.Overlaps q ↔ p.unit = q.unit ∧ p.area = q.area ∧ p.sharesBit q = true := by
  unfold Point.Overlaps Point.sharesBit Point.names
  cases hp : p.address.bit <;> cases hq : q.address.bit <;>
    simp only [Bool.and_eq_true, decide_eq_true_eq]
  case none.none =>
    constructor
    · rintro ⟨hunit, harea, o, k, ho, ho'⟩
      exact ⟨hunit, harea, by omega, by omega⟩
    · rintro ⟨hunit, harea, h, h'⟩
      have hp := p.span_pos
      have hq := q.span_pos
      by_cases hle : p.offset ≤ q.offset
      · exact ⟨hunit, harea, q.offset, 0, ⟨hle, h'⟩, le_refl _, by omega⟩
      · exact ⟨hunit, harea, p.offset, 0, ⟨le_refl _, by omega⟩, by omega, h⟩
  case some.none b =>
    constructor
    · rintro ⟨hunit, harea, o, k, ⟨rfl, -⟩, ho⟩
      exact ⟨hunit, harea, ho⟩
    · rintro ⟨hunit, harea, ho⟩
      exact ⟨hunit, harea, p.offset, b, ⟨rfl, rfl⟩, ho⟩
  case none.some c =>
    constructor
    · rintro ⟨hunit, harea, o, k, ho, rfl, -⟩
      exact ⟨hunit, harea, ho⟩
    · rintro ⟨hunit, harea, ho⟩
      exact ⟨hunit, harea, q.offset, c, ho, rfl, rfl⟩
  case some.some b c =>
    constructor
    · rintro ⟨hunit, harea, o, k, ⟨rfl, rfl⟩, ho, hk⟩
      exact ⟨hunit, harea, ho, hk⟩
    · rintro ⟨hunit, harea, ho, hk⟩
      exact ⟨hunit, harea, p.offset, b, ⟨rfl, rfl⟩, ho, hk⟩

instance (p q : Point) : Decidable (p.Overlaps q) := decidable_of_iff _ (p.overlaps_iff q).symm

variable (rt : Runtime) (cfg : Config)

-- Points with an identifier and an address of their own.
structure Layout (points : List Event) : Prop where
  ids : points.Pairwise fun e e' => e.key rt ≠ e'.key rt
  apart : points.Pairwise fun e e' => ¬ e.point.Overlaps e'.point

variable {rt} {points : List Event}

theorem Layout.eq_of_key (hl : Layout rt points) {e e' : Event} (he : e ∈ points)
    (he' : e' ∈ points) (hkey : e.key rt = e'.key rt) : e = e' := by
  by_contra hne
  have : Std.Symm fun e e' : Event => e.key rt ≠ e'.key rt := ⟨fun _ _ => Ne.symm⟩
  exact hl.ids.forall he he' hne hkey

theorem Layout.filter_key (hl : Layout rt points) {e : Event} (he : e ∈ points) :
    points.filter (fun w => w.key rt = e.key rt) = [e] := by
  obtain ⟨pre, post, rfl⟩ := List.append_of_mem he
  have hids := hl.ids
  rw [List.pairwise_append, List.pairwise_cons] at hids
  rw [List.filter_append, List.filter_cons, if_pos (by simp), List.filter_eq_nil_iff.mpr,
    List.filter_eq_nil_iff.mpr, List.nil_append]
  · intro w hw
    simpa using Ne.symm (hids.2.1.1 w hw)
  · intro w hw
    simpa using hids.2.2 w hw e (by simp)

theorem Layout.not_overlaps (hl : Layout rt points) {e e' : Event} (he : e ∈ points)
    (he' : e' ∈ points) (hkey : e.key rt ≠ e'.key rt) : ¬ e.point.Overlaps e'.point := by
  have : Std.Symm fun e e' : Event => ¬ e.point.Overlaps e'.point := ⟨fun _ _ h h' => h h'.symm⟩
  exact hl.apart.forall he he' fun h => hkey (by rw [h])

theorem Layout.lastPoint (hl : Layout rt points) {e : Event} (he : e ∈ points) :
    lastPoint rt points (e.key rt) = some e.point := by
  apply LastWrite.after_eq_of_all
  · intro e' he' p hp
    by_cases hkey : e'.key rt = e.key rt
    · rw [if_pos hkey] at hp
      rw [← Option.some.inj hp, hl.eq_of_key he' he hkey]
    · rw [if_neg hkey] at hp
      cases hp
  · exact ⟨e, he, by simp⟩

theorem lastPoint_mem {key : String} {p : Point} (h : lastPoint rt points key = some p) :
    ∃ e ∈ points, e.key rt = key ∧ e.point = p := by
  obtain ⟨e, he, hp⟩ := LastWrite.exists_of_after h
  by_cases hkey : e.key rt = key
  · rw [if_pos hkey] at hp
    exact ⟨e, he, hkey, Option.some.inj hp⟩
  · rw [if_neg hkey] at hp
    cases hp

-- After the last reading with a key no other has it.
theorem split_of_getLast {h : List Event} {key : String} {e : Event}
    (hlast : (h.filter (fun w => w.key rt = key)).getLast? = some e) :
    ∃ pre post, h = pre ++ e :: post ∧ ∀ w ∈ post, w.key rt ≠ key := by
  rw [List.getLast?_eq_head?_reverse, ← List.filter_reverse, List.head?_filter,
    List.find?_eq_some_iff_append] at hlast
  obtain ⟨-, post, pre, hrev, hpost⟩ := hlast
  refine ⟨pre.reverse, post.reverse, ?_, ?_⟩
  · have := congrArg List.reverse hrev
    simpa using this
  · intro w hw
    simpa using hpost w (List.mem_reverse.mp hw)

end Layout

section Wipes

variable (rt : Runtime) (cfg : Config)

-- A bit of a register that is served as zero takes its whole register with it,
-- and those after it when its type has several.
def Event.wipes (e : Event) (unit : Nat) (a : Area) (o : Nat) : Bool :=
  e.here unit a && e.zeroed cfg && e.point.hasBit && e.covers o

-- A register is wiped after the last reading of the point with this identifier.
def wipedSince (h : List Event) (key : String) (unit : Nat) (a : Area) (o : Nat) : Bool :=
  (h.reverse.takeWhile fun w => w.key rt ≠ key).any fun w => w.wipes cfg unit a o

def bitAfter (h : List Event) (unit : Nat) (a : Area) (o k : Nat) : Bool :=
  (LastWrite.after (fun e => Event.writes rt cfg e unit a o k) none h).getD false

-- The last value of a point can be encoded, is a bit, or is served as zero.
def Event.Encodable (e : Event) : Prop :=
  e.zeroed cfg ∨ isBitArea e.point.area ∨ e.point.hasBit ∨ ∃ wire, e.encoded rt = .ok wire

variable {rt cfg} {unit : Nat} {a : Area} {o k : Nat}

theorem wipedSince_split {pre post : List Event} {x : Event}
    (hpost : ∀ w ∈ post, w.key rt ≠ x.key rt) :
    wipedSince rt cfg (pre ++ x :: post) (x.key rt) unit a o =
      post.any fun w => w.wipes cfg unit a o := by
  have hsince : (pre ++ x :: post).reverse.takeWhile (fun w => w.key rt ≠ x.key rt) =
      post.reverse := by
    rw [List.reverse_append, List.reverse_cons, List.append_assoc, List.takeWhile_append_of_pos]
    · simp
    · intro w hw
      simpa using hpost w (List.mem_reverse.mp hw)
  rw [wipedSince, hsince, List.any_reverse]

-- A point that does not name a bit can only clear it.
theorem writes_of_not_names {w : Event} (hn : w.here unit a → ¬ w.point.names o k) :
    w.writes rt cfg unit a o k = if w.wipes cfg unit a o then some false else none := by
  unfold Event.writes Event.wipes
  by_cases hh : w.here unit a
  · have hn := hn hh
    simp only [hh, Bool.not_true, Bool.false_eq_true, if_false, Bool.true_and]
    unfold Point.names at hn
    cases hbit : w.point.address.bit with
    | some bit =>
        simp only [hbit] at hn
        simp [Point.hasBit, hbit, hn]
        by_cases hz : w.zeroed cfg <;> simp [hz]
    | none =>
        simp only [hbit] at hn
        have hcov : w.covers o = false := by
          simp only [Event.covers, Bool.and_eq_false_iff, decide_eq_false_iff_not]
          omega
        have hword : w.word rt o = none := by
          unfold Event.word
          split
          · rfl
          · simp [hcov]
        simp [hcov, hword]
  · simp [hh]

-- Only registers are wiped.
theorem wipedSince_bitArea (h : List Event) (key : String) (ha : isBitArea a = true) :
    wipedSince rt cfg h key unit a o = false := by
  unfold wipedSince
  rw [List.any_eq_false]
  intro w hw hwipe
  simp only [Event.wipes, Event.here, Bool.and_eq_true, decide_eq_true_eq, Point.hasBit] at hwipe
  obtain ⟨⟨⟨⟨-, rfl⟩, -⟩, hbit⟩, -⟩ := hwipe
  obtain ⟨bit, hbit⟩ := Option.isSome_iff_exists.mp hbit
  have := (w.point.address.bit_le bit hbit).1
  rw [Point.area, this] at ha
  cases ha

theorem here_iff {e : Event} : e.here unit a = true ↔ e.point.unit = unit ∧ e.point.area = a := by
  simp [Event.here]

theorem names_of_writes {w : Event} (h : w.writes rt cfg unit a o k = some true) :
    w.here unit a ∧ w.point.names o k := by
  by_contra hne
  rw [writes_of_not_names (fun hh hn => hne ⟨hh, hn⟩)] at h
  by_cases hw : w.wipes cfg unit a o
  · rw [if_pos hw] at h
    cases h
  · rw [if_neg hw] at h
    cases h

-- The bit of a point, by its last reading and the wipes after it.
theorem after_named {pre post : List Event} {x : Event} {v : Bool}
    (hx : x.writes rt cfg unit a o k = some v) (hhere : x.here unit a)
    (hnames : x.point.names o k) (hkey : ∀ w ∈ post, w.key rt ≠ x.key rt)
    (hapart : ∀ w ∈ post, ¬ w.point.Overlaps x.point) :
    bitAfter rt cfg (pre ++ x :: post) unit a o k =
      (v && !wipedSince rt cfg (pre ++ x :: post) (x.key rt) unit a o) := by
  have hforeign (w : Event) (hw : w ∈ post) :
      w.writes rt cfg unit a o k = if w.wipes cfg unit a o then some false else none := by
    apply writes_of_not_names
    intro hh hn
    obtain ⟨hunit, harea⟩ := here_iff.mp hh
    obtain ⟨hunit', harea'⟩ := here_iff.mp hhere
    exact hapart w hw ⟨hunit.trans hunit'.symm, harea.trans harea'.symm, o, k, hn, hnames⟩
  have hafter : LastWrite.after (fun e => Event.writes rt cfg e unit a o k) none
      (pre ++ x :: post) = some (if post.any fun w => w.wipes cfg unit a o then false else v) :=
    LastWrite.after_split hx hforeign
  rw [bitAfter, hafter, wipedSince_split hkey, Option.getD_some]
  cases post.any fun w => w.wipes cfg unit a o <;> simp

theorem bitAfter_unset {h : List Event}
    (hunset : ∀ w ∈ h, w.writes rt cfg unit a o k ≠ some true) :
    bitAfter rt cfg h unit a o k = false := by
  unfold bitAfter
  cases hlast : LastWrite.after (fun e => Event.writes rt cfg e unit a o k) none h with
  | none => rfl
  | some v =>
      obtain ⟨w, hw, hv⟩ := LastWrite.exists_of_after hlast
      cases v with
      | false => rfl
      | true => exact absurd hv (hunset w hw)

-- Only a type without registers leaves a bit of its point unwritten.
theorem regCount_of_unwritten {x : Event} (henc : x.Encodable rt cfg) (hhere : x.here unit a)
    (ha : isBitArea a = false) (hnames : x.point.names o k)
    (hnone : x.writes rt cfg unit a o k = none) :
    x.point.address.bit = none ∧ x.point.asdu.regCount = 0 := by
  unfold Event.writes at hnone
  rw [hhere] at hnone
  unfold Point.names at hnames
  simp only [Bool.not_true, Bool.false_eq_true, if_false] at hnone
  cases hbit : x.point.address.bit with
  | some bit =>
      simp only [hbit] at hnames hnone
      have hspan := x.point.span_pos
      have hcov : x.covers o = true := by
        simp only [Event.covers, Bool.and_eq_true, decide_eq_true_eq]
        omega
      by_cases hz : x.zeroed cfg
      · simp [hz, hcov] at hnone
      · simp [hz, hnames] at hnone
  | none =>
      simp only [hbit] at hnames hnone
      have hcov : x.covers o = true := by
        simp only [Event.covers, Bool.and_eq_true, decide_eq_true_eq]
        exact hnames
      by_cases hz : x.zeroed cfg
      · simp [hz, hcov] at hnone
      · refine ⟨rfl, ?_⟩
        have hbits : isBitArea x.point.area = false := by rw [(here_iff.mp hhere).2, ha]
        have hwire : ∃ wire, x.encoded rt = .ok wire := by
          rcases henc with h | h | h | h
          · exact absurd h hz
          · rw [hbits] at h
            cases h
          · rw [Point.hasBit, hbit] at h
            cases h
          · exact h
        obtain ⟨wire, hwire⟩ := hwire
        have hlen : wire.length / 2 = x.point.asdu.regCount := encode_length hwire
        simp only [hz, Bool.false_eq_true, if_false, Option.map_eq_none_iff, Event.word, hwire,
          hcov, Bool.true_and, decide_eq_true_eq] at hnone
        by_contra hpos
        apply absurd hnone
        have hspan : o - x.point.offset < x.point.asdu.regCount := by
          have hle : x.point.span ≤ x.point.asdu.regCount := by
            unfold Point.span
            split <;> omega
          omega
        rw [if_pos (by omega)]
        exact Option.some_ne_none _

theorem writes_of_regCount {w : Event} (hbit : w.point.address.bit = none)
    (hcount : w.point.asdu.regCount = 0) : w.writes rt cfg unit a o k ≠ some true := by
  unfold Event.writes
  by_cases hh : w.here unit a
  · by_cases hz : w.zeroed cfg
    · by_cases hcov : w.covers o <;> simp [hh, hz, hcov]
    · have hword : w.word rt o = none := by
        unfold Event.word
        cases henc : w.encoded rt with
        | error e => rfl
        | ok wire =>
            have hlen : wire.length / 2 = w.point.asdu.regCount := encode_length henc
            simp only [hlen, hcount, Nat.not_lt_zero, decide_false, Bool.and_false,
              Bool.false_eq_true, if_false]
      simp [hh, hz, hbit, hword]
  · simp [hh]

theorem touches_of_writes {w : Event} {v : Bool} (h : w.writes rt cfg unit a o k = some v) :
    w.touches rt cfg unit a o = true := by
  unfold Event.writes at h
  unfold Event.touches
  by_cases hh : w.here unit a
  · simp only [hh, Bool.not_true, Bool.false_eq_true, if_false] at h ⊢
    by_cases hz : w.zeroed cfg
    · rw [if_pos hz] at h ⊢
      by_contra hcov
      rw [if_neg hcov] at h
      cases h
    · rw [if_neg hz] at h ⊢
      cases hbit : w.point.address.bit with
      | some bit =>
          simp only [hbit] at h ⊢
          by_contra ho
          rw [decide_eq_true_eq] at ho
          rw [if_neg fun hok => ho hok.1] at h
          cases h
      | none =>
          simp only [hbit] at h ⊢
          obtain ⟨word, hword, -⟩ := Option.map_eq_some_iff.mp h
          rw [hword, Option.isSome_some]
  · simp [hh] at h

-- A point of a bit area, at its one address.
theorem names_of_bitArea {w : Event} (ha : isBitArea a = true)
    (hw : (w.here unit a && o = w.point.offset) = true) :
    w.point.unit = unit ∧ w.point.area = a ∧ w.point.names o 0 := by
  simp only [Event.here, Bool.and_eq_true, decide_eq_true_eq] at hw
  obtain ⟨⟨hunit, harea⟩, hoff⟩ := hw
  refine ⟨hunit, harea, ?_⟩
  have hspan : w.point.span = 1 := by simp [Point.span, harea, ha]
  unfold Point.names
  cases hbit : w.point.address.bit with
  | some bit =>
      have := (w.point.address.bit_le bit hbit).1
      rw [← Point.area, harea, ha] at this
      cases this
  | none =>
      simp only
      omega

theorem writesBit_of_apart {w x : Event} (ha : isBitArea a = true)
    (hx : (x.here unit a && o = x.point.offset) = true) (hapart : ¬ w.point.Overlaps x.point) :
    w.writesBit cfg unit a o = none := by
  apply if_neg
  intro hw
  obtain ⟨hunit, harea, hnames⟩ := names_of_bitArea ha hw
  obtain ⟨hunit', harea', hnames'⟩ := names_of_bitArea ha hx
  exact hapart ⟨hunit.trans hunit'.symm, harea.trans harea'.symm, o, 0, hnames, hnames'⟩

end Wipes

end JsonScada.Modbus
