import JsonScada.Modbus.PointMap.Theorems

namespace JsonScada.Modbus

open JsonScada.Library

section Frame

variable (rt : Runtime) (cfg : Config) (docs : List TagDoc)
  (updates : List (Processor.Value × Reading)) (u : Processor.Value × Reading)

-- A bit of a register as it is served, none where a read of the register fails.
def servedBit (units : Nat → Option Banks) (unit : Nat) (a : Area) (o k : Nat) : Option Bool :=
  (PointMap.served cfg 0 (registerAt units unit a o)).map fun w => w.getLsbD k

-- The register bits, or the coil, of a point are served alike by two maps.
def ServedAlike (units units' : Nat → Option Banks) (p : Point) : Prop :=
  if isBitArea p.area then
    PointMap.served cfg false (bitAreaAt units p.unit p.area p.offset) =
      PointMap.served cfg false (bitAreaAt units' p.unit p.area p.offset)
  else ∀ o k, p.names o k →
    servedBit cfg units p.unit p.area o k = servedBit cfg units' p.unit p.area o k

-- The map after some updates, from a rebuild on.
def mapAfter : PointMap := (PointMap.rebuild rt cfg docs).updateAll rt cfg updates

-- One more update of a point leaves what the others have as it is served.
def Undisturbed : Prop :=
  ∀ p, (mapAfter rt cfg docs updates).byID (anyString rt u.1) = some p →
    ∀ e ∈ documentEvents rt cfg docs, ¬p.Overlaps e.point →
      ServedAlike cfg (mapAfter rt cfg docs updates).units
        ((mapAfter rt cfg docs updates).update rt cfg u.1 u.2).1.units e.point

-- An invalid bit that is served as zero takes the registers of its type with it: what other points
-- have in them is clear before.
def ClearAround : Prop :=
  ∀ p, (mapAfter rt cfg docs updates).byID (anyString rt u.1) = some p →
    ∀ e ∈ documentEvents rt cfg docs, ¬p.Overlaps e.point → ∀ o k, e.point.names o k →
      Event.wipes cfg { point := p, reading := u.2 } e.point.unit e.point.area o = true →
        servedBit cfg (mapAfter rt cfg docs updates).units e.point.unit e.point.area o k = some false

variable {rt cfg docs updates u}

theorem updateAll_byID (m : PointMap) : (m.updateAll rt cfg updates).byID = m.byID := by
  induction updates generalizing m with
  | nil => rfl
  | cons u updates ih =>
      have hone : (m.update rt cfg u.1 u.2).1.byID = m.byID := by
        unfold PointMap.update
        cases m.byID (anyString rt u.1) <;> rfl
      exact (ih _).trans hone

theorem mapAfter_concat :
    mapAfter rt cfg docs (updates ++ [u]) = ((mapAfter rt cfg docs updates).update rt cfg u.1 u.2).1 :=
  List.foldl_concat ..

-- The readings after one more update of a mapped tag.
theorem history_concat {p : Point}
    (hp : (mapAfter rt cfg docs updates).byID (anyString rt u.1) = some p) :
    history rt cfg docs (updates ++ [u]) =
      history rt cfg docs updates ++ [{ point := p, reading := u.2 }] := by
  rw [mapAfter, updateAll_byID] at hp
  simp only [history, updateEvents, List.filterMap_append, List.filterMap_cons, hp, Option.map_some,
    List.filterMap_nil, List.append_assoc]

variable {p q : Point} {e : Event} {unit : Nat} {a : Area} {o k : Nat} {h : List Event}
  {units units' : Nat → Option Banks}

-- A register that a point writes without wiping it is one that it names, or that of its bit.
theorem touches_of_not_names {w : Event} (hn : w.here unit a → ¬w.point.names o k)
    (htouch : w.touches rt cfg unit a o = true) (hwipe : w.wipes cfg unit a o = false) :
    ∃ bit, w.point.address.bit = some bit ∧ o = w.point.offset ∧ w.here unit a = true := by
  unfold Event.touches at htouch
  unfold Event.wipes at hwipe
  by_cases hh : w.here unit a
  · have hn := hn hh
    unfold Point.names at hn
    simp only [hh, Bool.not_true, Bool.false_eq_true, if_false, Bool.true_and] at htouch hwipe
    cases hbit : w.point.address.bit with
    | some bit =>
        refine ⟨bit, rfl, ?_, hh⟩
        simp only [Point.hasBit, hbit, Option.isSome_some, Bool.and_true, Bool.and_eq_false_iff]
          at hwipe
        by_cases hz : w.zeroed cfg
        · rw [if_pos hz] at htouch
          rcases hwipe with hnot | hnot
          · rw [hz] at hnot
            cases hnot
          · rw [htouch] at hnot
            cases hnot
        · rw [if_neg hz, hbit] at htouch
          exact of_decide_eq_true htouch
    | none =>
        exfalso
        simp only [hbit] at hn htouch
        have hcov : w.covers o = true := by
          by_cases hz : w.zeroed cfg
          · rwa [if_pos hz] at htouch
          · rw [if_neg hz, Event.word] at htouch
            split at htouch
            · cases htouch
            · by_contra hcov
              rw [Bool.not_eq_true] at hcov
              simp [hcov] at htouch
        simp only [Event.covers, Bool.and_eq_true, decide_eq_true_eq] at hcov
        exact hn hcov
  · simp [hh] at htouch

-- The register of a bit is mapped by any reading of it.
theorem touches_of_bit {bit : Nat} (hbit : e.point.address.bit = some bit) :
    e.touches rt cfg e.point.unit e.point.area e.point.offset = true := by
  unfold Event.touches Event.here
  have hspan := e.point.span_pos
  have hcov : e.covers e.point.offset = true := by
    simp only [Event.covers, Bool.and_eq_true, decide_eq_true_eq]
    omega
  by_cases hz : e.zeroed cfg <;> simp [hz, hbit, hcov]

theorem servedBit_of_tracks (ht : Tracks rt cfg units h) (ha : isBitArea a = false) :
    servedBit cfg units unit a o k =
      if cfg.serveUnmappedAsZero || (h.any fun e => e.touches rt cfg unit a o) then
        some (bitAfter rt cfg h unit a o k) else none := by
  have hbit := ht.register unit a o k ha
  have hsome := ht.touched unit a o ha
  unfold servedBit PointMap.served bitAfter
  rw [← hbit, ← hsome]
  cases hcell : registerAt units unit a o with
  | none => cases cfg.serveUnmappedAsZero <;> simp [registerBit]
  | some w => cases cfg.serveUnmappedAsZero <;> simp [registerBit]

-- A bit that a reading does not name is served as before, unless it is wiped.
theorem servedBit_concat (ht : Tracks rt cfg units h) (ht' : Tracks rt cfg units' (h ++ [e]))
    (ha : isBitArea a = false) (hn : e.here unit a → ¬e.point.names o k)
    (hbits : ∀ bit, e.point.address.bit = some bit → e.here unit a = true → o = e.point.offset →
      (h.any fun e => e.touches rt cfg unit a o) = true) :
    servedBit cfg units' unit a o k =
      if e.wipes cfg unit a o then some false else servedBit cfg units unit a o k := by
  rw [servedBit_of_tracks ht ha, servedBit_of_tracks ht' ha, bitAfter, LastWrite.after_concat,
    writes_of_not_names hn, List.any_append, List.any_cons, List.any_nil, Bool.or_false]
  cases hwipe : e.wipes cfg unit a o with
  | true =>
      have hwrites : e.writes rt cfg unit a o k = some false := by
        rw [writes_of_not_names hn, hwipe, if_pos rfl]
      rw [touches_of_writes hwrites]
      simp
  | false =>
      rw [if_neg Bool.false_ne_true, Option.none_or, if_neg Bool.false_ne_true]
      by_cases htouch : e.touches rt cfg unit a o = true
      · obtain ⟨bit, hbit, ho, hh⟩ := touches_of_not_names hn htouch hwipe
        rw [hbits bit hbit hh ho]
        simp [bitAfter]
      · rw [Bool.not_eq_true] at htouch
        rw [htouch, Bool.or_false]
        rfl

-- Where a point has no part in the register of another's bit, it is a bit there itself.
theorem bit_of_not_overlaps {bit : Nat} (hp : p.address.bit = some bit) (hunit : p.unit = q.unit)
    (harea : p.area = q.area) (hq : q.names p.offset k) (hapart : ¬p.Overlaps q) :
    ∃ bit', q.address.bit = some bit' ∧ q.offset = p.offset := by
  cases hbit : q.address.bit with
  | some bit' =>
      refine ⟨bit', rfl, ?_⟩
      unfold Point.names at hq
      rw [hbit] at hq
      exact hq.1.symm
  | none =>
      refine absurd ⟨hunit, harea, p.offset, bit, ?_, ?_⟩ hapart
      · unfold Point.names
        rw [hp]
        exact ⟨rfl, rfl⟩
      · unfold Point.names at hq ⊢
        rw [hbit] at hq ⊢
        exact hq

-- An update leaves the other points as they are served, but for a bit that is served as zero: it
-- clears what others have in its registers.
theorem undisturbed_iff (rt : Runtime) (cfg : Config) (docs : List TagDoc)
    (updates : List (Processor.Value × Reading)) (u : Processor.Value × Reading) :
    Undisturbed rt cfg docs updates u ↔ ClearAround rt cfg docs updates u := by
  unfold Undisturbed ClearAround
  refine forall_congr' fun p => forall_congr' fun hp => forall_congr' fun e =>
    forall_congr' fun he => forall_congr' fun hapart => ?_
  have ht := tracks_history rt cfg docs updates
  have ht' : Tracks rt cfg ((mapAfter rt cfg docs updates).update rt cfg u.1 u.2).1.units
      (history rt cfg docs updates ++ [{ point := p, reading := u.2 }]) := by
    rw [← mapAfter_concat, ← history_concat hp]
    exact tracks_history rt cfg docs (updates ++ [u])
  unfold ServedAlike
  by_cases ha : isBitArea e.point.area = true
  · rw [if_pos ha]
    constructor
    · intro _ o k _ hwipe
      -- only registers are wiped
      simp only [Event.wipes, Event.here, Bool.and_eq_true, decide_eq_true_eq, Point.hasBit] at hwipe
      obtain ⟨bit, hbit⟩ := Option.isSome_iff_exists.mp hwipe.1.2
      have hregs := (p.address.bit_le bit hbit).1
      rw [← Point.area, hwipe.1.1.1.2, ha] at hregs
      cases hregs
    · intro _
      have hown : (e.here e.point.unit e.point.area && e.point.offset = e.point.offset) = true := by
        simp [Event.here]
      have hnone : Event.writesBit cfg { point := p, reading := u.2 } e.point.unit e.point.area
          e.point.offset = none := writesBit_of_apart ha hown hapart
      rw [show bitAreaAt (mapAfter rt cfg docs updates).units _ _ _ = _ from ht.bit _ _ _ ha,
        ht'.bit _ _ _ ha, LastWrite.after_concat, hnone, Option.none_or]
  · rw [if_neg ha]
    have ha : isBitArea e.point.area = false := Bool.not_eq_true _ ▸ ha
    refine forall_congr' fun o => forall_congr' fun k => forall_congr' fun hnames => ?_
    have hn : Event.here { point := p, reading := u.2 } e.point.unit e.point.area →
        ¬p.names o k := by
      intro hh hpo
      obtain ⟨hunit, harea⟩ := here_iff.mp hh
      exact hapart ⟨hunit, harea, o, k, hpo, hnames⟩
    have hbits : ∀ bit, p.address.bit = some bit →
        Event.here { point := p, reading := u.2 } e.point.unit e.point.area = true → o = p.offset →
        ((history rt cfg docs updates).any fun e' =>
          e'.touches rt cfg e.point.unit e.point.area o) = true := by
      rintro bit hbit hh rfl
      obtain ⟨hunit, harea⟩ := here_iff.mp hh
      obtain ⟨bit', hbit', hoff⟩ := bit_of_not_overlaps hbit hunit harea hnames hapart
      refine List.any_eq_true.mpr ⟨e, List.mem_append_left _ he, ?_⟩
      rw [← hoff]
      exact touches_of_bit hbit'
    rw [servedBit_concat ht ht' ha hn hbits]
    cases hwipe : Event.wipes cfg { point := p, reading := u.2 } e.point.unit e.point.area o with
    | true => simp [mapAfter]
    | false => simp [mapAfter]

-- Two bits of a register that are on, of which the first becomes invalid.
def firstBitInvalid : Processor.Value × Reading :=
  (.number (.fin 1), { value := .fin 1, valueString := "", invalid := true })

-- The other bit is no longer served as on.
theorem invalid_bit_disturbs : ¬Undisturbed amd64 zeroPolicy twoBits [] firstBitInvalid := by
  intro h
  have hcleared : (((mapAfter amd64 zeroPolicy twoBits []).byID (anyString amd64 firstBitInvalid.1)).any
      fun p => (documentEvents amd64 zeroPolicy twoBits).any fun e =>
        !decide (p.Overlaps e.point) && decide (e.point.address.bit = some 0) &&
          !decide (servedBit zeroPolicy (mapAfter amd64 zeroPolicy twoBits []).units e.point.unit
              e.point.area e.point.offset 0 =
            servedBit zeroPolicy ((mapAfter amd64 zeroPolicy twoBits []).update amd64 zeroPolicy
              firstBitInvalid.1 firstBitInvalid.2).1.units e.point.unit e.point.area
              e.point.offset 0)) = true := by
    decide +kernel
  obtain ⟨p, hp, hany⟩ := Option.any_eq_true _ _ |>.mp hcleared
  obtain ⟨e, he, hall⟩ := List.any_eq_true.mp hany
  simp only [Bool.and_eq_true, Bool.not_eq_true', decide_eq_false_iff_not, decide_eq_true_eq] at hall
  obtain ⟨⟨hapart, hbit⟩, hne⟩ := hall
  have halike := h p hp e he hapart
  rw [ServedAlike, if_neg (by simp [Point.area, (e.point.address.bit_le 0 hbit).1])] at halike
  refine hne (halike e.point.offset 0 ?_)
  unfold Point.names
  rw [hbit]
  exact ⟨rfl, rfl⟩

end Frame

end JsonScada.Modbus
