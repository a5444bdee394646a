import JsonScada.Modbus.PointMap.Theorems
import JsonScada.Modbus.Watcher

namespace JsonScada.Modbus.Watcher

open JsonScada.Library
open JsonScada.Processor (Document rawOrNil)

section Events

variable (rt : Runtime) (cfg : Config) (connNumber : Double)

-- The readings that a full reload of the documents encodes.
def collEvents (docs : List Document) : List Event :=
  documentEvents rt cfg (docs.filterMap (extractTagDoc rt connNumber))

-- The point and the reading of one document, none when it cannot be mapped.
def docEvent (d : Document) : Option Event :=
  match extractTagDoc rt connNumber d with
  | none => none
  | some t =>
      match buildPoint rt cfg t with
      | .error _ => none
      | .ok p => some { point := p, reading := t.reading rt }

variable {rt cfg connNumber}

theorem collEvents_eq (docs : List Document) :
    collEvents rt cfg connNumber docs = docs.filterMap (docEvent rt cfg connNumber) := by
  unfold collEvents documentEvents
  rw [List.filterMap_filterMap]
  apply List.filterMap_congr
  intro d _
  unfold docEvent
  cases extractTagDoc rt connNumber d <;> rfl

theorem mem_collEvents {docs : List Document} {e : Event} :
    e ∈ collEvents rt cfg connNumber docs ↔ ∃ d ∈ docs, docEvent rt cfg connNumber d = some e := by
  rw [collEvents_eq, List.mem_filterMap]

theorem docEvent_some {d : Document} {e : Event} (h : docEvent rt cfg connNumber d = some e) :
    ∃ t, extractTagDoc rt connNumber d = some t ∧ buildPoint rt cfg t = .ok e.point ∧
      e.reading = t.reading rt := by
  unfold docEvent at h
  cases ht : extractTagDoc rt connNumber d with
  | none =>
      rw [ht] at h
      cases h
  | some t =>
      rw [ht] at h
      simp only at h
      cases hp : buildPoint rt cfg t with
      | error err =>
          rw [hp] at h
          cases h
      | ok p =>
          rw [hp] at h
          obtain rfl := Option.some.inj h
          exact ⟨t, rfl, hp, rfl⟩

theorem extractTagDoc_id {d : Document} {t : TagDoc} (h : extractTagDoc rt connNumber d = some t) :
    t.id = rawOrNil (d.lookup "_id") := by
  obtain ⟨dest, -, rfl⟩ := Option.map_eq_some_iff.mp h
  rfl

theorem docEvent_key {d : Document} {e : Event} (h : docEvent rt cfg connNumber d = some e) :
    e.key rt = idText rt d := by
  obtain ⟨t, ht, hp, -⟩ := docEvent_some h
  rw [Event.key, buildPoint_id hp, extractTagDoc_id ht, idText]

end Events

section Served

variable (rt : Runtime) (cfg : Config) (connNumber : Double)

-- The map serves the value of a document: its bit, or every register bit that
-- its value gives.
def Serves (m : PointMap) (d : Document) : Prop :=
  ∀ e, docEvent rt cfg connNumber d = some e →
    (isBitArea e.point.area = true →
      bitAreaAt m.units e.point.unit e.point.area e.point.offset = some (e.bitServed cfg)) ∧
    (isBitArea e.point.area = false → ∀ o k v, e.point.names o k →
      e.writes rt cfg e.point.unit e.point.area o k = some v →
        ∃ w, registerAt m.units e.point.unit e.point.area o = some w ∧ w.getLsbD k = v)

-- Not a bit of a register that is served as zero.
def Tame (e : Event) : Prop := ¬ (e.zeroed cfg = true ∧ e.point.hasBit = true)

def DocTame (d : Document) : Prop := ∀ e, docEvent rt cfg connNumber d = some e → Tame cfg e

-- A change of value leaves a document's point.
def SamePoint (d d' : Document) : Prop :=
  (docEvent rt cfg connNumber d).map Event.point = (docEvent rt cfg connNumber d').map Event.point

structure WellFormed (docs : List Document) : Prop where
  ids : docs.Pairwise fun d d' => idText rt d ≠ idText rt d'
  layout : Layout rt (collEvents rt cfg connNumber docs)

-- What a change of the collection may be: new values of a document, or a new
-- document whose address is free.
def Valid (s : State) : Action → Prop
  | .write d => ∀ c ∈ s.coll, idText rt c = idText rt d → SamePoint rt cfg connNumber c d
  | .insert position d =>
      Layout rt (collEvents rt cfg connNumber (s.coll.take position ++ d :: s.coll.drop position))
  | _ => True

-- The watch loop takes no change that a reload under way has missed: the
-- document is as it was read, or is new, or changes again.
def NotMissed (s : State) : Action → Prop
  | .apply => ∀ docs d rest, s.reloading = some docs → s.stream = d :: rest →
      d ∈ docs ∨ (∀ b ∈ docs, idText rt b ≠ idText rt d) ∨ ∃ x ∈ rest, idText rt x = idText rt d
  | _ => True

def NoWipe : Action → Prop
  | .write d | .insert _ d => DocTame rt cfg connNumber d
  | _ => True

end Served

section Layout

variable {rt : Runtime} {cfg : Config} {connNumber : Double}

theorem layout_of_points {l l' : List Event} (h : l.map Event.point = l'.map Event.point)
    (hl : Layout rt l) : Layout rt l' := by
  constructor
  · have hids := hl.ids
    have hmap : (l.map Event.point).Pairwise fun p q => anyString rt p.id ≠ anyString rt q.id :=
      List.pairwise_map.mpr hids
    rw [h, List.pairwise_map] at hmap
    exact hmap
  · have hmap : (l.map Event.point).Pairwise fun p q => ¬ p.Overlaps q :=
      List.pairwise_map.mpr hl.apart
    rw [h] at hmap
    exact List.pairwise_map.mp hmap

theorem WellFormed.eq_of_id {docs : List Document} (hw : WellFormed rt cfg connNumber docs)
    {d d' : Document} (hd : d ∈ docs) (hd' : d' ∈ docs) (hid : idText rt d = idText rt d') :
    d = d' := by
  by_contra hne
  have : Std.Symm fun d d' : Document => idText rt d ≠ idText rt d' := ⟨fun _ _ => Ne.symm⟩
  exact hw.ids.forall hd hd' hne hid

-- The readings of one map, and what each says of the points.
theorem serves_of_history {m : PointMap} {h : List Event} {d : Document}
    (ht : Tracks rt cfg m.units h) (htame : ∀ w ∈ h, Tame cfg w)
    (hapart : ∀ w ∈ h, ∀ w' ∈ h, w.key rt ≠ w'.key rt → ¬ w.point.Overlaps w'.point)
    (hheld : ∀ e, docEvent rt cfg connNumber d = some e →
      (h.filter (fun w => w.key rt = e.key rt)).getLast? = some e) :
    Serves rt cfg connNumber m d := by
  intro e he
  obtain ⟨pre, post, rfl, hkey⟩ := split_of_getLast (hheld e he)
  have hpost (w : Event) (hw : w ∈ post) : ¬ w.point.Overlaps e.point :=
    hapart w (by simp [hw]) e (by simp) (hkey w hw)
  have hhere : e.here e.point.unit e.point.area := by simp [Event.here]
  constructor
  · intro ha
    rw [ht.bit _ _ _ ha]
    apply LastWrite.after_last
    · simp [Event.writesBit, hhere]
    · intro w hw
      exact writesBit_of_apart ha (by simp [hhere]) (hpost w hw)
  · intro ha o k v hnames hv
    have hunwiped : wipedSince rt cfg (pre ++ e :: post) (e.key rt) e.point.unit e.point.area o =
        false := by
      rw [wipedSince_split hkey, List.any_eq_false]
      intro w hw hwipe
      simp only [Event.wipes, Bool.and_eq_true] at hwipe
      exact htame w (by simp [hw]) ⟨hwipe.1.1.2, hwipe.1.2⟩
    have hbit := ht.register e.point.unit e.point.area o k ha
    have hafter : bitAfter rt cfg (pre ++ e :: post) e.point.unit e.point.area o k =
        (v && !wipedSince rt cfg (pre ++ e :: post) (e.key rt) e.point.unit e.point.area o) :=
      after_named hv hhere hnames hkey hpost
    rw [bitAfter] at hafter
    rw [hafter, hunwiped, Bool.not_false, Bool.and_true] at hbit
    have hsome := ht.touched e.point.unit e.point.area o ha
    rw [List.any_eq_true.mpr ⟨e, by simp, touches_of_writes hv⟩] at hsome
    obtain ⟨w, hw⟩ := Option.isSome_iff_exists.mp hsome
    refine ⟨w, hw, ?_⟩
    rw [hw] at hbit
    exact hbit

end Layout

section Invariant

variable (rt : Runtime) (cfg : Config) (connNumber : Double)

-- Documents of which the collection has a version, with the same point.
def Older (docs coll : List Document) : Prop :=
  ∀ b ∈ docs, ∃ c ∈ coll, idText rt c = idText rt b ∧ SamePoint rt cfg connNumber b c

-- The changes of a document have all been taken.
def Taken (s : State) (c : Document) : Prop := ∀ x ∈ s.stream, idText rt x ≠ idText rt c

-- The documents have it as it is, or lack it and a reload is asked for.
def Settled (s : State) (docs : List Document) (c : Document) : Prop :=
  c ∈ docs ∨ (s.reload = true ∧ ∀ b ∈ docs, idText rt b ≠ idText rt c)

-- The map: the documents it was rebuilt from and all that was encoded since.
structure MapOf (s : State) (base : List Document) (h : List Event) : Prop where
  tracks : Tracks rt cfg s.pm.units h
  byID : ∀ key, s.pm.byID key = lastPoint rt (collEvents rt cfg connNumber base) key
  mem : ∀ w ∈ h, ∃ e ∈ collEvents rt cfg connNumber base, e.key rt = w.key rt ∧ e.point = w.point
  covers : ∀ e ∈ collEvents rt cfg connNumber base, ∃ w ∈ h, w.point = e.point
  tame : ∀ w ∈ h, Tame cfg w
  wf : WellFormed rt cfg connNumber base
  older : Older rt cfg connNumber base s.coll
  held : s.reloading = none → ∀ c ∈ s.coll, Taken rt s c →
    ∀ e, docEvent rt cfg connNumber c = some e →
      (h.filter (fun w => w.key rt = e.key rt)).getLast? = some e ∨
        (s.reload = true ∧ ∀ b ∈ base, idText rt b ≠ idText rt c)

-- A reload under way.
structure Reloading (s : State) (base docs : List Document) : Prop where
  wf : WellFormed rt cfg connNumber docs
  tame : ∀ d ∈ docs, DocTame rt cfg connNumber d
  older : Older rt cfg connNumber docs s.coll
  covers : ∀ b ∈ base, ∃ d ∈ docs, idText rt d = idText rt b
  settled : ∀ c ∈ s.coll, Taken rt s c → ∀ e, docEvent rt cfg connNumber c = some e →
    Settled rt s docs c

structure Inv (s : State) : Prop where
  wf : WellFormed rt cfg connNumber s.coll
  tame : ∀ d ∈ s.coll, DocTame rt cfg connNumber d
  streamTame : ∀ d ∈ s.stream, DocTame rt cfg connNumber d
  streamOlder : Older rt cfg connNumber s.stream s.coll
  -- the last change of a document is its content
  latest : ∀ c ∈ s.coll, ∀ d,
    (s.stream.filter fun x => idText rt x = idText rt c).getLast? = some d → d = c
  map : ∃ base h, MapOf rt cfg connNumber s base h ∧
    ∀ docs, s.reloading = some docs → Reloading rt cfg connNumber s base docs

end Invariant

section Steps

variable {rt : Runtime} {cfg : Config} {connNumber : Double}

theorem older_refl (docs : List Document) : Older rt cfg connNumber docs docs :=
  fun b hb => ⟨b, hb, rfl, rfl⟩

theorem Older.trans {a b c : List Document} (hab : Older rt cfg connNumber a b)
    (hbc : Older rt cfg connNumber b c) : Older rt cfg connNumber a c := by
  intro x hx
  obtain ⟨y, hy, hid, hpoint⟩ := hab x hx
  obtain ⟨z, hz, hid', hpoint'⟩ := hbc y hy
  exact ⟨z, hz, hid'.trans hid, hpoint.trans hpoint'⟩

-- The point that documents of one identifier have in common.
theorem point_of_older {docs coll : List Document} (hw : WellFormed rt cfg connNumber coll)
    (hold : Older rt cfg connNumber docs coll) {b c : Document} (hb : b ∈ docs) (hc : c ∈ coll)
    (hid : idText rt b = idText rt c) : SamePoint rt cfg connNumber b c := by
  obtain ⟨c', hc', hid', hpoint⟩ := hold b hb
  rwa [hw.eq_of_id hc' hc (hid'.trans hid)] at hpoint

-- A rebuild holds every document as it was read.
theorem rebuilt {coll : List Document} {s : State} (hs : s.pm = fullReload rt cfg connNumber coll)
    (hw : WellFormed rt cfg connNumber coll) (htame : ∀ d ∈ coll, DocTame rt cfg connNumber d)
    (hold : Older rt cfg connNumber coll s.coll)
    (hsettled : ∀ c ∈ s.coll, Taken rt s c → ∀ e, docEvent rt cfg connNumber c = some e →
      Settled rt s coll c) :
    MapOf rt cfg connNumber s coll (collEvents rt cfg connNumber coll) := by
  have hspec : Tracks rt cfg (fullReload rt cfg connNumber coll).units
        (collEvents rt cfg connNumber coll) ∧
      ∀ key, (fullReload rt cfg connNumber coll).byID key =
        lastPoint rt (collEvents rt cfg connNumber coll) key := rebuild_spec _
  obtain ⟨htracks, hid⟩ := hspec
  constructor
  · rw [hs]
    exact htracks
  · rw [hs]
    exact hid
  · exact fun w hw => ⟨w, hw, rfl, rfl⟩
  · exact fun w hw => ⟨w, hw, rfl⟩
  · intro w hw'
    obtain ⟨d, hd, he⟩ := mem_collEvents.mp hw'
    exact htame d hd w he
  · exact hw
  · exact hold
  · intro _ c hc htaken e he
    rcases hsettled c hc htaken e he with hmem | hnew
    · left
      rw [hw.layout.filter_key (mem_collEvents.mpr ⟨c, hmem, he⟩)]
      rfl
    · exact .inr hnew

theorem start_inv {coll : List Document} (hw : WellFormed rt cfg connNumber coll)
    (htame : ∀ d ∈ coll, DocTame rt cfg connNumber d) :
    Inv rt cfg connNumber (start rt cfg connNumber coll) where
  wf := hw
  tame := htame
  streamTame := by simp [start]
  streamOlder := by simp [Older, start]
  latest := by simp [start]
  map := by
    refine ⟨coll, _, rebuilt rfl hw htame (older_refl coll) fun c hc _ _ _ => .inl hc, ?_⟩
    rintro docs ⟨⟩

theorem swap_inv {s : State} {docs : List Document} (hi : Inv rt cfg connNumber s)
    (hr : s.reloading = some docs) :
    Inv rt cfg connNumber { s with reloading := none, pm := fullReload rt cfg connNumber docs } := by
  obtain ⟨base, h, -, hreloading⟩ := hi.map
  have hdocs := hreloading docs hr
  constructor
  · exact hi.wf
  · exact hi.tame
  · exact hi.streamTame
  · exact hi.streamOlder
  · exact hi.latest
  · refine ⟨docs, _, rebuilt rfl hdocs.wf hdocs.tame hdocs.older hdocs.settled, ?_⟩
    rintro docs ⟨⟩

theorem query_inv {s : State} {requested : Bool} (hi : Inv rt cfg connNumber s) :
    Inv rt cfg connNumber
      { s with reloading := some s.coll, reload := s.reload && !requested } := by
  obtain ⟨base, h, hmap, -⟩ := hi.map
  constructor
  · exact hi.wf
  · exact hi.tame
  · exact hi.streamTame
  · exact hi.streamOlder
  · exact hi.latest
  · refine ⟨base, h, ⟨hmap.tracks, hmap.byID, hmap.mem, hmap.covers, hmap.tame, hmap.wf,
      hmap.older, ?_⟩, ?_⟩
    · rintro ⟨⟩
    · rintro docs ⟨⟩
      refine ⟨hi.wf, hi.tame, older_refl _, ?_, fun c hc _ _ _ => .inl hc⟩
      intro b hb
      obtain ⟨c, hc, hid, -⟩ := hmap.older b hb
      exact ⟨c, hc, hid⟩

-- The collection changes in one document, which the stream tells.
theorem change_inv {s : State} {coll : List Document} {d : Document}
    (hi : Inv rt cfg connNumber s) (hw : WellFormed rt cfg connNumber coll)
    (hold : Older rt cfg connNumber s.coll coll) (hd : d ∈ coll)
    (hothers : ∀ c ∈ coll, c = d ∨ (c ∈ s.coll ∧ idText rt c ≠ idText rt d))
    (htame : DocTame rt cfg connNumber d) :
    Inv rt cfg connNumber { s with coll := coll, stream := s.stream ++ [d] } := by
  obtain ⟨base, h, hmap, hreloading⟩ := hi.map
  have htaken {c : Document} (hc : c ∈ coll)
      (ht : Taken rt { s with coll := coll, stream := s.stream ++ [d] } c) :
      c ∈ s.coll ∧ Taken rt s c := by
    rcases hothers c hc with rfl | ⟨hc', -⟩
    · exact absurd rfl (ht c (by simp))
    · exact ⟨hc', fun x hx => ht x (by simp [hx])⟩
  constructor
  · exact hw
  · intro c hc
    rcases hothers c hc with rfl | ⟨hc', -⟩
    · exact htame
    · exact hi.tame c hc'
  · intro x hx
    rcases List.mem_append.mp hx with hx | hx
    · exact hi.streamTame x hx
    · rw [List.mem_singleton.mp hx]
      exact htame
  · intro x hx
    rcases List.mem_append.mp hx with hx | hx
    · exact hi.streamOlder.trans hold x hx
    · rw [List.mem_singleton.mp hx]
      exact ⟨d, hd, rfl, rfl⟩
  · intro c hc x hx
    simp only [List.filter_append] at hx
    by_cases hid : idText rt d = idText rt c
    · rw [List.filter_cons, if_pos (by simpa using hid), List.filter_nil,
        List.getLast?_append, List.getLast?_singleton] at hx
      rw [hw.eq_of_id hc hd hid.symm]
      exact (Option.some.inj hx).symm
    · rw [List.filter_cons, if_neg (by simpa using hid), List.filter_nil, List.append_nil] at hx
      rcases hothers c hc with rfl | ⟨hc', -⟩
      · exact absurd rfl hid
      · exact hi.latest c hc' x hx
  · refine ⟨base, h, ⟨hmap.tracks, hmap.byID, hmap.mem, hmap.covers, hmap.tame, hmap.wf,
      hmap.older.trans hold, ?_⟩, ?_⟩
    · intro hr c hc ht
      obtain ⟨hc', ht'⟩ := htaken hc ht
      exact hmap.held hr c hc' ht'
    · intro docs hr
      have hdocs := hreloading docs hr
      refine ⟨hdocs.wf, hdocs.tame, hdocs.older.trans hold, hdocs.covers, ?_⟩
      intro c hc ht
      obtain ⟨hc', ht'⟩ := htaken hc ht
      exact hdocs.settled c hc' ht'

theorem write_inv {s : State} {d : Document} (hi : Inv rt cfg connNumber s)
    (hsame : ∀ c ∈ s.coll, idText rt c = idText rt d → SamePoint rt cfg connNumber c d)
    (hex : ∃ c ∈ s.coll, idText rt c = idText rt d) (htame : DocTame rt cfg connNumber d) :
    Inv rt cfg connNumber
      { s with
        coll := s.coll.map fun c => if idText rt c = idText rt d then d else c
        stream := s.stream ++ [d] } := by
  have hid (c : Document) : idText rt (if idText rt c = idText rt d then d else c) = idText rt c := by
    by_cases h : idText rt c = idText rt d
    · rw [if_pos h, h]
    · rw [if_neg h]
  have hpoint (c : Document) (hc : c ∈ s.coll) :
      SamePoint rt cfg connNumber c (if idText rt c = idText rt d then d else c) := by
    by_cases h : idText rt c = idText rt d
    · rw [if_pos h]
      exact hsame c hc h
    · rw [if_neg h]
      rfl
  apply change_inv hi
  · constructor
    · rw [List.pairwise_map]
      simp only [hid]
      exact hi.wf.ids
    · apply layout_of_points _ hi.wf.layout
      rw [collEvents_eq, collEvents_eq, List.map_filterMap, List.map_filterMap,
        List.filterMap_map]
      apply List.filterMap_congr
      intro c hc
      exact hpoint c hc
  · intro c hc
    exact ⟨_, List.mem_map_of_mem hc, hid c, hpoint c hc⟩
  · obtain ⟨c, hc, hcd⟩ := hex
    exact List.mem_map.mpr ⟨c, hc, if_pos hcd⟩
  · intro c' hc'
    obtain ⟨c, hc, rfl⟩ := List.mem_map.mp hc'
    by_cases h : idText rt c = idText rt d
    · rw [if_pos h]
      exact .inl rfl
    · rw [if_neg h]
      exact .inr ⟨hc, h⟩
  · exact htame

theorem insert_inv {s : State} {position : Nat} {d : Document} (hi : Inv rt cfg connNumber s)
    (hlayout : Layout rt
      (collEvents rt cfg connNumber (s.coll.take position ++ d :: s.coll.drop position)))
    (hnew : ∀ c ∈ s.coll, idText rt c ≠ idText rt d) (htame : DocTame rt cfg connNumber d) :
    Inv rt cfg connNumber
      { s with
        coll := s.coll.take position ++ d :: s.coll.drop position
        stream := s.stream ++ [d] } := by
  have hperm : (s.coll.take position ++ d :: s.coll.drop position).Perm (d :: s.coll) := by
    have hmid : (s.coll.take position ++ d :: s.coll.drop position).Perm
        (d :: (s.coll.take position ++ s.coll.drop position)) := List.perm_middle
    rwa [List.take_append_drop] at hmid
  apply change_inv hi
  · refine ⟨?_, hlayout⟩
    rw [hperm.pairwise_iff fun {_ _} h => h.symm, List.pairwise_cons]
    exact ⟨fun c hc => (hnew c hc).symm, hi.wf.ids⟩
  · intro c hc
    exact ⟨c, hperm.mem_iff.mpr (List.mem_cons_of_mem _ hc), rfl, rfl⟩
  · exact hperm.mem_iff.mpr (List.mem_cons_self)
  · intro c hc
    rcases List.mem_cons.mp (hperm.mem_iff.mp hc) with rfl | hc
    · exact .inl rfl
    · exact .inr ⟨hc, hnew c hc⟩
  · exact htame

-- What a taken change leaves of the stream, for one document.
theorem latest_of_taken {s : State} {d c : Document} {rest : List Document}
    (hi : Inv rt cfg connNumber s) (hs : s.stream = d :: rest) (hc : c ∈ s.coll)
    (ht : ∀ x ∈ rest, idText rt x ≠ idText rt c) (hid : idText rt d = idText rt c) : c = d := by
  have hrest : rest.filter (fun x => idText rt x = idText rt c) = [] :=
    List.filter_eq_nil_iff.mpr fun x hx => by simpa using ht x hx
  apply Eq.symm
  apply hi.latest c hc d
  rw [hs, List.filter_cons, if_pos (by simpa using hid), hrest]
  rfl

theorem latest_of_rest {s : State} {d : Document} {rest : List Document}
    (hi : Inv rt cfg connNumber s) (hs : s.stream = d :: rest) :
    ∀ c ∈ s.coll, ∀ x,
      (rest.filter fun x => idText rt x = idText rt c).getLast? = some x → x = c := by
  intro c hc x hx
  apply hi.latest c hc x
  rw [hs, List.filter_cons]
  by_cases hid : idText rt d = idText rt c
  · rw [if_pos (by simpa using hid), List.getLast?_cons, hx]
    rfl
  · rwa [if_neg (by simpa using hid)]

-- The reading that the update of a mapped document encodes.
theorem event_of_mapped {s : State} {d : Document} {base : List Document} {h : List Event}
    {t : TagDoc} {p : Point} (hi : Inv rt cfg connNumber s) (hd : d ∈ s.stream)
    (hmap : MapOf rt cfg connNumber s base h) (ht : extractTagDoc rt connNumber d = some t)
    (hp : s.pm.byID (idText rt d) = some p) :
    ∃ ed, docEvent rt cfg connNumber d = some ed ∧ ed.point = p ∧ ed.reading = t.reading rt := by
  obtain ⟨eb, heb, hkey, hpb⟩ := lastPoint_mem ((hmap.byID _).symm.trans hp)
  obtain ⟨b, hb, hbe⟩ := mem_collEvents.mp heb
  obtain ⟨c, hc, hid, hsame⟩ := hi.streamOlder d hd
  have hbc : idText rt b = idText rt c := by rw [← docEvent_key hbe, hkey, hid]
  have hpoint := (point_of_older hi.wf hmap.older hb hc hbc).trans hsame.symm
  rw [hbe] at hpoint
  obtain ⟨ed, hed, hpe⟩ := Option.map_eq_some_iff.mp hpoint.symm
  obtain ⟨t', ht', -, hreading⟩ := docEvent_some hed
  obtain rfl := Option.some.inj (ht.symm.trans ht')
  exact ⟨ed, hed, hpe.trans hpb, hreading⟩

theorem taken_of_rest {s : State} {d c : Document} {rest : List Document}
    (hs : s.stream = d :: rest) (htaken : ∀ x ∈ rest, idText rt x ≠ idText rt c)
    (hid : idText rt d ≠ idText rt c) : Taken rt s c := by
  intro x hx
  rw [hs] at hx
  rcases List.mem_cons.mp hx with rfl | hx
  · exact hid
  · exact htaken x hx

-- A change of a document that the map lacks leaves the others as they are held.
theorem held_of_unmapped {s : State} {d c : Document} {rest base : List Document} {h : List Event}
    {e : Event} (hi : Inv rt cfg connNumber s) (hs : s.stream = d :: rest)
    (hmap : MapOf rt cfg connNumber s base h) (hp : s.pm.byID (idText rt d) = none)
    (hr : s.reloading = none) (hc : c ∈ s.coll) (htaken : ∀ x ∈ rest, idText rt x ≠ idText rt c)
    (he : docEvent rt cfg connNumber c = some e) :
    (h.filter fun w => w.key rt = e.key rt).getLast? = some e ∨
      ∀ b ∈ base, idText rt b ≠ idText rt c := by
  by_cases hid : idText rt d = idText rt c
  · -- the document is new to the map
    right
    intro b hb hbc
    obtain rfl := latest_of_taken hi hs hc htaken hid
    have hsame := point_of_older hi.wf hmap.older hb hc hbc
    rw [SamePoint, he] at hsame
    obtain ⟨eb, heb, -⟩ := Option.map_eq_some_iff.mp hsame
    have hlast := hmap.wf.layout.lastPoint (mem_collEvents.mpr ⟨b, hb, heb⟩)
    rw [docEvent_key heb, hbc, ← hmap.byID, hp] at hlast
    cases hlast
  · rcases hmap.held hr c hc (taken_of_rest hs htaken hid) e he with hheld | hnew
    · exact .inl hheld
    · exact .inr hnew.2

-- A change of a document that the map has is its last reading.
theorem held_of_mapped {s : State} {d c : Document} {rest base : List Document} {h : List Event}
    {ed e : Event} (hi : Inv rt cfg connNumber s) (hs : s.stream = d :: rest)
    (hmap : MapOf rt cfg connNumber s base h) (hed : docEvent rt cfg connNumber d = some ed)
    (hr : s.reloading = none) (hc : c ∈ s.coll) (htaken : ∀ x ∈ rest, idText rt x ≠ idText rt c)
    (he : docEvent rt cfg connNumber c = some e) :
    ((h ++ [ed]).filter fun w => w.key rt = e.key rt).getLast? = some e ∨
      (s.reload = true ∧ ∀ b ∈ base, idText rt b ≠ idText rt c) := by
  rw [List.filter_append, List.filter_cons, List.filter_nil]
  by_cases hid : idText rt d = idText rt c
  · obtain rfl := latest_of_taken hi hs hc htaken hid
    obtain rfl := Option.some.inj (hed.symm.trans he)
    left
    rw [if_pos (by simp), List.getLast?_append, List.getLast?_singleton]
    rfl
  · have hother : ed.key rt ≠ e.key rt := by rwa [docEvent_key hed, docEvent_key he]
    rw [if_neg (by simpa using hother), List.append_nil]
    exact hmap.held hr c hc (taken_of_rest hs htaken hid) e he

-- The map takes the change of a document.
theorem mapOf_update {s : State} {d : Document} {rest base : List Document} {h : List Event}
    {t : TagDoc} (hi : Inv rt cfg connNumber s) (hs : s.stream = d :: rest)
    (hmap : MapOf rt cfg connNumber s base h) (ht : extractTagDoc rt connNumber d = some t) :
    ∃ h', MapOf rt cfg connNumber (applyDoc rt cfg connNumber { s with stream := rest } d) base h' := by
  have hkey : anyString rt t.id = idText rt d := by rw [extractTagDoc_id ht, idText]
  unfold applyDoc
  rw [ht]
  simp only [PointMap.update, hkey]
  cases hp : s.pm.byID (idText rt d) with
  | none =>
      refine ⟨h, hmap.tracks, hmap.byID, hmap.mem, hmap.covers, hmap.tame, hmap.wf, hmap.older, ?_⟩
      intro hr c hc htaken e he
      simp only [Bool.not_false, Bool.or_true, true_and]
      exact held_of_unmapped hi hs hmap hp hr hc htaken he
  | some p =>
      obtain ⟨ed, hed, hpoint, hreading⟩ := event_of_mapped hi (hs ▸ List.mem_cons_self) hmap ht hp
      have hevent : ed = { point := p, reading := t.reading rt } := by rw [← hpoint, ← hreading]
      refine ⟨h ++ [ed], ?_⟩
      have hunit : (s.pm.units p.unit).isSome := by
        obtain ⟨eb, heb, -, hpb⟩ := lastPoint_mem ((hmap.byID _).symm.trans hp)
        obtain ⟨w, hw, hpw⟩ := hmap.covers eb heb
        exact (hmap.tracks.mapped _).mpr ⟨w, hw, by rw [hpw, hpb]⟩
      constructor
      · have hstep := hmap.tracks.snoc ed
        rw [hevent, ensureUnit_of_isSome hunit] at hstep
        rw [hevent]
        exact hstep
      · exact hmap.byID
      · intro w hw
        rcases List.mem_append.mp hw with hw | hw
        · exact hmap.mem w hw
        · rw [List.mem_singleton.mp hw, docEvent_key hed, hpoint]
          exact lastPoint_mem ((hmap.byID _).symm.trans hp)
      · intro e he
        obtain ⟨w, hw, hpw⟩ := hmap.covers e he
        exact ⟨w, List.mem_append_left _ hw, hpw⟩
      · intro w hw
        rcases List.mem_append.mp hw with hw | hw
        · exact hmap.tame w hw
        · rw [List.mem_singleton.mp hw]
          exact hi.streamTame d (hs ▸ List.mem_cons_self) ed hed
      · exact hmap.wf
      · exact hmap.older
      · intro hr c hc htaken e he
        rcases held_of_mapped hi hs hmap hed hr hc htaken he with hheld | hnew
        · exact .inl hheld
        · exact .inr ⟨by simp [hnew.1], hnew.2⟩

section Apply

variable (s : State) (d : Document)

theorem applyDoc_coll : (applyDoc rt cfg connNumber s d).coll = s.coll := by
  unfold applyDoc
  cases extractTagDoc rt connNumber d <;> rfl

theorem applyDoc_stream : (applyDoc rt cfg connNumber s d).stream = s.stream := by
  unfold applyDoc
  cases extractTagDoc rt connNumber d <;> rfl

theorem applyDoc_reloading : (applyDoc rt cfg connNumber s d).reloading = s.reloading := by
  unfold applyDoc
  cases extractTagDoc rt connNumber d <;> rfl

theorem applyDoc_reload (h : s.reload = true) : (applyDoc rt cfg connNumber s d).reload = true := by
  unfold applyDoc
  cases extractTagDoc rt connNumber d with
  | none => exact h
  | some t => simp [h]

theorem applyDoc_unmapped {t : TagDoc} (ht : extractTagDoc rt connNumber d = some t)
    (hnone : s.pm.byID (idText rt d) = none) :
    (applyDoc rt cfg connNumber s d).reload = true := by
  have hkey : anyString rt t.id = idText rt d := by rw [extractTagDoc_id ht, idText]
  simp [applyDoc, ht, PointMap.update, hkey, hnone]

end Apply

theorem reloading_apply {s : State} {d : Document} {rest base docs : List Document}
    {h : List Event} (hi : Inv rt cfg connNumber s) (hs : s.stream = d :: rest)
    (hmap : MapOf rt cfg connNumber s base h) (hr : s.reloading = some docs)
    (hdocs : Reloading rt cfg connNumber s base docs) (hmissed : NotMissed rt s .apply) :
    Reloading rt cfg connNumber (applyDoc rt cfg connNumber { s with stream := rest } d) base docs
      where
  wf := hdocs.wf
  tame := hdocs.tame
  older := by
    rw [applyDoc_coll]
    exact hdocs.older
  covers := hdocs.covers
  settled := by
    intro c hc htaken e he
    rw [applyDoc_coll] at hc
    rw [Taken, applyDoc_stream] at htaken
    by_cases hid : idText rt d = idText rt c
    · obtain rfl := latest_of_taken hi hs hc htaken hid
      rcases hmissed docs c rest hr hs with hmem | hnew | ⟨x, hx, hxc⟩
      · exact .inl hmem
      · refine .inr ⟨?_, hnew⟩
        obtain ⟨t, ht, -, -⟩ := docEvent_some he
        apply applyDoc_unmapped _ _ ht
        cases hp : s.pm.byID (idText rt c) with
        | none => rfl
        | some p =>
            -- what the map knows, the reload has read
            obtain ⟨eb, heb, hkey, -⟩ := lastPoint_mem ((hmap.byID _).symm.trans hp)
            obtain ⟨b, hb, hbe⟩ := mem_collEvents.mp heb
            obtain ⟨b', hb', hbid⟩ := hdocs.covers b hb
            rw [← docEvent_key hbe, hkey] at hbid
            exact absurd hbid (hnew b' hb')
      · exact absurd hxc (htaken x hx)
    · rcases hdocs.settled c hc (taken_of_rest hs htaken hid) e he with hmem | ⟨hreload, hnew⟩
      · exact .inl hmem
      · exact .inr ⟨applyDoc_reload _ _ hreload, hnew⟩

theorem mapOf_apply {s : State} {d : Document} {rest base : List Document} {h : List Event}
    (hi : Inv rt cfg connNumber s) (hs : s.stream = d :: rest)
    (hmap : MapOf rt cfg connNumber s base h) :
    ∃ h', MapOf rt cfg connNumber (applyDoc rt cfg connNumber { s with stream := rest } d)
      base h' := by
  cases ht : extractTagDoc rt connNumber d with
  | some t => exact mapOf_update hi hs hmap ht
  | none =>
      have hnone : docEvent rt cfg connNumber d = none := by simp [docEvent, ht]
      have hstate : applyDoc rt cfg connNumber { s with stream := rest } d =
          { s with stream := rest } := by simp [applyDoc, ht]
      rw [hstate]
      refine ⟨h, hmap.tracks, hmap.byID, hmap.mem, hmap.covers, hmap.tame, hmap.wf, hmap.older, ?_⟩
      intro hr c hc htaken e he
      have hid : idText rt d ≠ idText rt c := by
        intro hid
        obtain rfl := latest_of_taken hi hs hc htaken hid
        rw [hnone] at he
        cases he
      exact hmap.held hr c hc (taken_of_rest hs htaken hid) e he

theorem apply_inv {s : State} {d : Document} {rest : List Document}
    (hi : Inv rt cfg connNumber s) (hs : s.stream = d :: rest) (hmissed : NotMissed rt s .apply) :
    Inv rt cfg connNumber (applyDoc rt cfg connNumber { s with stream := rest } d) := by
  obtain ⟨base, h, hmap, hreloading⟩ := hi.map
  have hsub (x : Document) (hx : x ∈ rest) : x ∈ s.stream := by
    rw [hs]
    exact List.mem_cons_of_mem _ hx
  constructor
  · rw [applyDoc_coll]
    exact hi.wf
  · rw [applyDoc_coll]
    exact hi.tame
  · rw [applyDoc_stream]
    exact fun x hx => hi.streamTame x (hsub x hx)
  · rw [applyDoc_stream, applyDoc_coll]
    exact fun x hx => hi.streamOlder x (hsub x hx)
  · rw [applyDoc_stream, applyDoc_coll]
    have hlatest := latest_of_rest hi hs
    exact hlatest
  · obtain ⟨h', hmap'⟩ := mapOf_apply hi hs hmap
    refine ⟨base, h', hmap', ?_⟩
    intro docs hr
    rw [applyDoc_reloading] at hr
    exact reloading_apply hi hs hmap hr (hreloading docs hr) hmissed

theorem step_inv {s s' : State} {a : Action} (hi : Inv rt cfg connNumber s)
    (hvalid : Valid rt cfg connNumber s a) (hmissed : NotMissed rt s a)
    (hwipe : NoWipe rt cfg connNumber a) (hstep : step rt cfg connNumber s a = some s') :
    Inv rt cfg connNumber s' := by
  cases a with
  | write d =>
      simp only [step] at hstep
      by_cases hex : (s.coll.any fun c => idText rt c = idText rt d) = true
      · rw [if_pos hex] at hstep
        obtain rfl := Option.some.inj hstep
        obtain ⟨c, hc, hid⟩ := List.any_eq_true.mp hex
        exact write_inv hi hvalid ⟨c, hc, by simpa using hid⟩ hwipe
      · rw [if_neg hex] at hstep
        cases hstep
  | insert position d =>
      simp only [step] at hstep
      by_cases hex : (s.coll.any fun c => idText rt c = idText rt d) = true
      · rw [if_pos hex] at hstep
        cases hstep
      · rw [if_neg hex] at hstep
        obtain rfl := Option.some.inj hstep
        apply insert_inv hi hvalid _ hwipe
        intro c hc hid
        exact hex (List.any_eq_true.mpr ⟨c, hc, by simpa using hid⟩)
  | query requested =>
      simp only [step] at hstep
      by_cases hbusy : (s.reloading.isSome || (requested && !s.reload)) = true
      · rw [if_pos hbusy] at hstep
        cases hstep
      · rw [if_neg hbusy] at hstep
        obtain rfl := Option.some.inj hstep
        exact query_inv hi
  | swap =>
      obtain ⟨docs, hr, rfl⟩ := Option.map_eq_some_iff.mp hstep
      exact swap_inv hi hr
  | apply =>
      simp only [step] at hstep
      cases hs : s.stream with
      | nil =>
          rw [hs] at hstep
          cases hstep
      | cons d rest =>
          rw [hs] at hstep
          obtain rfl := Option.some.inj hstep
          exact apply_inv hi hs hmissed

theorem serves_of_idle {s : State} (hi : Inv rt cfg connNumber s) (hidle : s.Idle) :
    ∀ d ∈ s.coll, Serves rt cfg connNumber s.pm d := by
  intro d hd
  obtain ⟨hstream, hr, hreload⟩ := hidle
  obtain ⟨base, h, hmap, -⟩ := hi.map
  apply serves_of_history hmap.tracks hmap.tame
  · intro w hw w' hw' hkey
    obtain ⟨e, he, hk, hp⟩ := hmap.mem w hw
    obtain ⟨e', he', hk', hp'⟩ := hmap.mem w' hw'
    rw [← hp, ← hp']
    apply hmap.wf.layout.not_overlaps he he'
    rwa [hk, hk']
  · intro e he
    have htaken : Taken rt s d := by simp [Taken, hstream]
    rcases hmap.held hr d hd htaken e he with hheld | ⟨hreload', -⟩
    · exact hheld
    · rw [hreload] at hreload'
      cases hreload'

-- A run never rolls a served value back in which no change is taken that a
-- reload under way has missed.
theorem latest_served {coll : List Document} {actions : List Action} {s : State}
    (hw : WellFormed rt cfg connNumber coll) (htame : ∀ d ∈ coll, DocTame rt cfg connNumber d)
    (hallowed : Run.Allowed (step rt cfg connNumber)
      (fun s a => Valid rt cfg connNumber s a ∧ NotMissed rt s a ∧ NoWipe rt cfg connNumber a)
      (start rt cfg connNumber coll) actions)
    (hrun : Run.run (step rt cfg connNumber) (start rt cfg connNumber coll) actions = some s)
    (hidle : s.Idle) : ∀ d ∈ s.coll, Serves rt cfg connNumber s.pm d := by
  have hinv : Inv rt cfg connNumber s := by
    apply Run.invariant _ (start_inv hw htame) hallowed hrun
    intro s a s' hi hok hstep
    exact step_inv hi hok.1 hok.2.1 hok.2.2 hstep
  exact serves_of_idle hinv hidle

end Steps

section Overtaken

def lastPolicy : Config := { zeroPolicy with invalidValuePolicy := "last" }

-- An analog tag in the holding register 10 of unit 1.
def level (value : ℚ) : Document :=
  [("_id", .number (.fin 1)), ("tag", .string "LEVEL"), ("type", .string "analog"),
    ("value", .number (.fin value)),
    ("protocolDestinations", .array [.document
      [("protocolDestinationConnectionNumber", .number (.fin 1)),
        ("protocolDestinationCommonAddress", .number (.fin 1)),
        ("protocolDestinationObjectAddress", .string "hr:10")]])]

theorem level_samePoint (v w : ℚ) : SamePoint amd64 lastPolicy (.fin 1) (level v) (level w) := by
  have hextract (v : ℚ) : extractTagDoc amd64 (.fin 1) (level v) =
      (extractTagDoc amd64 (.fin 1) (level 0)).map fun t =>
        { t with value := some (.number (.fin v)) } := rfl
  unfold SamePoint docEvent
  rw [hextract v, hextract w]
  cases extractTagDoc amd64 (.fin 1) (level 0) with
  | none => rfl
  | some t =>
      simp only [Option.map_some]
      have hbuild (v : ℚ) : buildPoint amd64 lastPolicy { t with value := some (.number (.fin v)) } =
          buildPoint amd64 lastPolicy t := rfl
      rw [hbuild, hbuild]
      cases buildPoint amd64 lastPolicy t <;> rfl

theorem tame_of_lastPolicy (d : Document) : DocTame amd64 lastPolicy (.fin 1) d := by
  intro e _ hzero
  simp [Event.zeroed, lastPolicy, zeroPolicy] at hzero

theorem level_wellFormed (v : ℚ) : WellFormed amd64 lastPolicy (.fin 1) [level v] := by
  constructor
  · exact List.pairwise_singleton _ _
  · rw [collEvents_eq, List.filterMap_cons, List.filterMap_nil]
    cases docEvent amd64 lastPolicy (.fin 1) (level v) with
    | none => exact ⟨List.Pairwise.nil, List.Pairwise.nil⟩
    | some e => exact ⟨List.pairwise_singleton _ _, List.pairwise_singleton _ _⟩

def takenAtOnce : List Action := [.write (level 2), .apply]

-- The query of a reload, a new value that the watch loop takes, and the swap.
def overtaken : List Action := [.query false, .write (level 2), .apply, .swap]

theorem takenAtOnce_served : ∃ s,
    Run.run (step amd64 lastPolicy (.fin 1)) (start amd64 lastPolicy (.fin 1) [level 1]) takenAtOnce =
      some s ∧ ∀ d ∈ s.coll, Serves amd64 lastPolicy (.fin 1) s.pm d := by
  have hidle : ((Run.run (step amd64 lastPolicy (.fin 1)) (start amd64 lastPolicy (.fin 1) [level 1])
      takenAtOnce).any fun s => s.stream.isEmpty && s.reloading.isNone && !s.reload) = true := by
    decide +kernel
  obtain ⟨s, hrun, hidle⟩ := (Option.any_eq_true _ _).mp hidle
  simp only [Bool.and_eq_true, Bool.not_eq_true'] at hidle
  refine ⟨s, hrun, latest_served (level_wellFormed 1) ?_ ?_ hrun ?_⟩
  · exact fun d _ => tame_of_lastPolicy d
  · refine ⟨⟨?_, trivial, tame_of_lastPolicy _⟩, ?_⟩
    · intro c hc _
      rw [List.mem_singleton.mp hc]
      exact level_samePoint 1 2
    · intro s' hs'
      refine ⟨⟨trivial, ?_, trivial⟩, fun _ _ => trivial⟩
      intro docs d rest hr
      simp only [step] at hs'
      split at hs'
      · obtain rfl := Option.some.inj hs'
        cases hr
      · cases hs'
  · exact ⟨List.isEmpty_iff.mp hidle.1.1, Option.isNone_iff_eq_none.mp hidle.1.2, hidle.2⟩

-- The new value is lost with the map that it was put into.
theorem overtaken_rolls_back :
    WellFormed amd64 lastPolicy (.fin 1) [level 1] ∧
    Run.Allowed (step amd64 lastPolicy (.fin 1))
      (fun s a => Valid amd64 lastPolicy (.fin 1) s a ∧ NoWipe amd64 lastPolicy (.fin 1) a)
      (start amd64 lastPolicy (.fin 1) [level 1]) overtaken ∧
    ∃ s, Run.run (step amd64 lastPolicy (.fin 1)) (start amd64 lastPolicy (.fin 1) [level 1])
        overtaken = some s ∧ s.Idle ∧ level 2 ∈ s.coll ∧
      ¬ Serves amd64 lastPolicy (.fin 1) s.pm (level 2) := by
  refine ⟨level_wellFormed 1, ?_, ?_⟩
  · refine ⟨⟨trivial, trivial⟩, ?_⟩
    intro s hs
    obtain rfl := Option.some.inj hs
    refine ⟨⟨?_, tame_of_lastPolicy _⟩, ?_⟩
    · intro c hc _
      rw [List.mem_singleton.mp hc]
      exact level_samePoint 1 2
    · exact fun _ _ => ⟨⟨trivial, trivial⟩, fun _ _ => ⟨⟨trivial, trivial⟩, fun _ _ => trivial⟩⟩
  · have hend : ((Run.run (step amd64 lastPolicy (.fin 1))
        (start amd64 lastPolicy (.fin 1) [level 1]) overtaken).any fun s =>
          s.stream.isEmpty && s.reloading.isNone && !s.reload &&
            decide (registerAt s.pm.units 1 .holding 10 = some 1)) = true := by decide +kernel
    obtain ⟨s, hrun, hend⟩ := (Option.any_eq_true _ _).mp hend
    simp only [Bool.and_eq_true, Bool.not_eq_true', decide_eq_true_eq] at hend
    obtain ⟨⟨⟨hstream, hr⟩, hreload⟩, hregister⟩ := hend
    refine ⟨s, hrun, ⟨List.isEmpty_iff.mp hstream, Option.isNone_iff_eq_none.mp hr, hreload⟩, ?_, ?_⟩
    · have hid : idText amd64 (level 1) = idText amd64 (level 2) := rfl
      simp only [overtaken, Run.run, step, start, List.any_cons, hid, decide_true,
        Bool.true_or, if_true, List.nil_append, Option.bind_some, Option.isSome_none,
        Bool.false_and, Bool.or_false, Bool.false_eq_true, if_false, applyDoc_reloading,
        Option.map_some, Option.some.injEq] at hrun
      rw [← hrun]
      simp only [applyDoc_coll, List.map_cons, hid, if_true]
      exact List.mem_cons_self
    · -- the new value sets the second bit of the register
      have hvalue : ((docEvent amd64 lastPolicy (.fin 1) (level 2)).any fun e =>
          e.here 1 .holding &&
            decide (e.writes amd64 lastPolicy 1 .holding 10 1 = some true)) = true := by
        decide +kernel
      obtain ⟨e, he, hvalue⟩ := (Option.any_eq_true _ _).mp hvalue
      simp only [Bool.and_eq_true, decide_eq_true_eq] at hvalue
      obtain ⟨hhere, hset⟩ := hvalue
      obtain ⟨hunit, harea⟩ := here_iff.mp hhere
      intro hserves
      have hregs := (hserves e he).2 (by rw [harea]; rfl) 10 1 true
      rw [hunit, harea] at hregs
      obtain ⟨w, hw, hbit1⟩ := hregs (names_of_writes hset).2 hset
      obtain rfl := Option.some.inj (hregister.symm.trans hw)
      exact absurd hbit1 (by decide)

end Overtaken

end JsonScada.Modbus.Watcher
