import JsonScada.Modbus.PointMap.Layout

namespace JsonScada.Modbus

open JsonScada.Library

section Final

variable (rt : Runtime) (updates : List (Processor.Value × Reading))

-- The last reading given for an identifier.
def finalReading (key : String) : Option Reading :=
  ((updates.filter fun u => anyString rt u.1 = key).getLast?).map Prod.snd

def TagDoc.withReading (doc : TagDoc) (r : Reading) : TagDoc :=
  { doc with value := some (.number r.value), valueString := .string r.valueString
             invalid := .bool r.invalid }

-- The documents with their final values and qualities.
def finalDocs (docs : List TagDoc) : List TagDoc :=
  docs.map fun doc =>
    match finalReading rt updates (anyString rt doc.id) with
    | none => doc
    | some r => doc.withReading r

def Event.final (e : Event) : Event :=
  { e with reading := (finalReading rt updates (e.key rt)).getD e.reading }

theorem reading_withReading (doc : TagDoc) (r : Reading) : (doc.withReading r).reading rt = r := by
  obtain ⟨value, text, invalid⟩ := r
  cases invalid <;> rfl

theorem documentEvents_finalDocs (cfg : Config) (docs : List TagDoc) :
    documentEvents rt cfg (finalDocs rt updates docs) =
      (documentEvents rt cfg docs).map fun e => e.final rt updates := by
  induction docs with
  | nil => rfl
  | cons doc docs ih =>
      have hhead : documentEvents rt cfg (finalDocs rt updates [doc]) =
          (documentEvents rt cfg [doc]).map fun e => e.final rt updates := by
        have hbuild (r : Reading) :
            buildPoint rt cfg (doc.withReading r) = buildPoint rt cfg doc := rfl
        simp only [finalDocs, documentEvents, List.map_cons, List.map_nil, List.filterMap_cons,
          List.filterMap_nil]
        cases hp : buildPoint rt cfg doc with
        | error e =>
            cases finalReading rt updates (anyString rt doc.id) <;> simp [hp, hbuild]
        | ok p =>
            have hid := buildPoint_id hp
            cases hr : finalReading rt updates (anyString rt doc.id) with
            | none => simp [hp, Event.final, Event.key, hid, hr]
            | some r => simp [hp, hbuild, Event.final, Event.key, hid, hr, reading_withReading]
      have hsplit : finalDocs rt updates (doc :: docs) =
          finalDocs rt updates [doc] ++ finalDocs rt updates docs := rfl
      rw [hsplit, documentEvents_cons doc docs, List.map_append, ← hhead, ← ih]
      simp only [documentEvents, List.filterMap_append]

end Final

section History

variable (rt : Runtime) (cfg : Config) (docs : List TagDoc)
  (updates : List (Processor.Value × Reading))

-- Everything that is encoded by a rebuild and the updates after it.
def history : List Event :=
  documentEvents rt cfg docs ++ updateEvents rt (PointMap.rebuild rt cfg docs) updates

variable {rt cfg docs updates}

theorem byID_rebuild {key : String} {p : Point}
    (h : (PointMap.rebuild rt cfg docs).byID key = some p) :
    ∃ e ∈ documentEvents rt cfg docs, e.key rt = key ∧ e.point = p := by
  rw [(rebuild_spec docs).2] at h
  exact lastPoint_mem h

variable (hl : Layout rt (documentEvents rt cfg docs))

theorem history_mem {w : Event} (hw : w ∈ history rt cfg docs updates) :
    ∃ e ∈ documentEvents rt cfg docs, e.key rt = w.key rt ∧ e.point = w.point := by
  rcases List.mem_append.mp hw with hw | hw
  · exact ⟨w, hw, rfl, rfl⟩
  · obtain ⟨u, -, hu⟩ := List.mem_filterMap.mp hw
    obtain ⟨p, hp, rfl⟩ := Option.map_eq_some_iff.mp hu
    obtain ⟨e, he, -, rfl⟩ := byID_rebuild hp
    exact ⟨e, he, rfl, rfl⟩

include hl

theorem history_apart {w w' : Event} (hw : w ∈ history rt cfg docs updates)
    (hw' : w' ∈ history rt cfg docs updates) (hkey : w.key rt ≠ w'.key rt) :
    ¬ w.point.Overlaps w'.point := by
  obtain ⟨e, he, hk, hp⟩ := history_mem hw
  obtain ⟨e', he', hk', hp'⟩ := history_mem hw'
  rw [← hp, ← hp']
  apply hl.not_overlaps he he'
  rwa [hk, hk']

theorem updateEvents_filter {e : Event} (he : e ∈ documentEvents rt cfg docs) :
    (updateEvents rt (PointMap.rebuild rt cfg docs) updates).filter
        (fun w => w.key rt = e.key rt) =
      (updates.filter fun u => anyString rt u.1 = e.key rt).map
        fun u => { point := e.point, reading := u.2 } := by
  induction updates with
  | nil => rfl
  | cons u updates ih =>
      rw [updateEvents_cons, List.filter_append, ih, List.filter_cons]
      by_cases hu : anyString rt u.1 = e.key rt
      · have hp : (PointMap.rebuild rt cfg docs).byID (anyString rt u.1) = some e.point := by
          rw [(rebuild_spec docs).2, hu, hl.lastPoint he]
        have hone : updateEvents rt (PointMap.rebuild rt cfg docs) [u] =
            [{ point := e.point, reading := u.2 }] := by
          simp only [updateEvents, List.filterMap_cons, hp, Option.map_some, List.filterMap_nil]
        have hkey : Event.key rt { point := e.point, reading := u.2 } = e.key rt := rfl
        rw [hone, List.filter_cons, if_pos (by simpa using hkey), if_pos (by simpa using hu)]
        rfl
      · have hnone : (updateEvents rt (PointMap.rebuild rt cfg docs) [u]).filter
            (fun w => w.key rt = e.key rt) = [] := by
          rw [List.filter_eq_nil_iff]
          intro w hw
          obtain ⟨u', hu', hw'⟩ := List.mem_filterMap.mp hw
          obtain rfl := List.mem_singleton.mp hu'
          obtain ⟨p, hp, rfl⟩ := Option.map_eq_some_iff.mp hw'
          obtain ⟨e', -, hk, rfl⟩ := byID_rebuild hp
          have : Event.key rt { point := e'.point, reading := u'.2 } = anyString rt u'.1 := hk
          simpa [this] using hu
        simp [hnone, hu]

-- The readings of one point: that of its document, then its updates.
theorem history_filter {e : Event} (he : e ∈ documentEvents rt cfg docs) :
    (history rt cfg docs updates).filter (fun w => w.key rt = e.key rt) =
      e :: (updates.filter fun u => anyString rt u.1 = e.key rt).map
        fun u => { point := e.point, reading := u.2 } := by
  rw [history, List.filter_append, hl.filter_key he, updateEvents_filter hl he, List.singleton_append]

variable (updates)

theorem final_eq_getLast {e : Event} (he : e ∈ documentEvents rt cfg docs) :
    ((history rt cfg docs updates).filter (fun w => w.key rt = e.key rt)).getLast? =
      some (e.final rt updates) := by
  rw [history_filter hl he, List.getLast?_cons, List.getLast?_map, Event.final, finalReading]
  cases (updates.filter fun u => anyString rt u.1 = e.key rt).getLast? <;> rfl

-- After the final reading of a point only other points are encoded.
theorem history_split {e : Event} (he : e ∈ documentEvents rt cfg docs) :
    ∃ pre post, history rt cfg docs updates = pre ++ e.final rt updates :: post ∧
      ∀ w ∈ post, w.key rt ≠ e.key rt := by
  exact split_of_getLast (final_eq_getLast updates hl he)

theorem final_mem_history {e : Event} (he : e ∈ documentEvents rt cfg docs) :
    e.final rt updates ∈ history rt cfg docs updates := by
  obtain ⟨pre, post, hsplit, -⟩ := history_split updates hl he
  rw [hsplit]
  simp

-- The finally encoded documents, of which each point has one.
theorem finalEvents_split {e : Event} (he : e ∈ documentEvents rt cfg docs) :
    ∃ pre post,
      documentEvents rt cfg (finalDocs rt updates docs) = pre ++ e.final rt updates :: post ∧
        (∀ w ∈ pre, w.key rt ≠ e.key rt) ∧ ∀ w ∈ post, w.key rt ≠ e.key rt := by
  obtain ⟨pre, post, hsplit⟩ := List.append_of_mem he
  have hids := hl.ids
  rw [hsplit, List.pairwise_append, List.pairwise_cons] at hids
  rw [documentEvents_finalDocs, hsplit, List.map_append, List.map_cons]
  refine ⟨_, _, rfl, ?_, ?_⟩
  · intro w hw
    obtain ⟨w', hw', rfl⟩ := List.mem_map.mp hw
    exact hids.2.2 w' hw' e (by simp)
  · intro w hw
    obtain ⟨w', hw', rfl⟩ := List.mem_map.mp hw
    exact Ne.symm (hids.2.1.1 w' hw')

variable {updates}

theorem finalEvents_mem_history {w : Event}
    (hw : w ∈ documentEvents rt cfg (finalDocs rt updates docs)) :
    w ∈ history rt cfg docs updates := by
  rw [documentEvents_finalDocs] at hw
  obtain ⟨e, he, rfl⟩ := List.mem_map.mp hw
  exact final_mem_history updates hl he

end History

section Registers

variable {rt : Runtime} {cfg : Config} {docs : List TagDoc}
  {updates : List (Processor.Value × Reading)} (hl : Layout rt (documentEvents rt cfg docs))
  {unit : Nat} {a : Area} {o k : Nat}
include hl

theorem bitAfter_history {e : Event} (he : e ∈ documentEvents rt cfg docs) {v : Bool}
    (hv : (e.final rt updates).writes rt cfg unit a o k = some v) (hhere : e.here unit a)
    (hnames : e.point.names o k) :
    bitAfter rt cfg (history rt cfg docs updates) unit a o k =
      (v && !wipedSince rt cfg (history rt cfg docs updates) (e.key rt) unit a o) := by
  obtain ⟨pre, post, hsplit, hkey⟩ := history_split updates hl he
  have hmem := final_mem_history updates hl he
  rw [hsplit]
  apply after_named hv hhere hnames hkey
  intro w hw
  exact history_apart hl (by rw [hsplit]; simp [hw]) hmem (hkey w hw)

theorem bitAfter_finalDocs {e : Event} (he : e ∈ documentEvents rt cfg docs) {v : Bool}
    (hv : (e.final rt updates).writes rt cfg unit a o k = some v) (hhere : e.here unit a)
    (hnames : e.point.names o k) :
    bitAfter rt cfg (documentEvents rt cfg (finalDocs rt updates docs)) unit a o k =
      (v && !wipedSince rt cfg (documentEvents rt cfg (finalDocs rt updates docs)) (e.key rt)
        unit a o) := by
  obtain ⟨pre, post, hsplit, -, hkey⟩ := finalEvents_split updates hl he
  have hmem := final_mem_history updates hl he
  have hsub (w : Event) (hw : w ∈ post) : w ∈ history rt cfg docs updates := by
    apply finalEvents_mem_history hl
    rw [hsplit]
    simp [hw]
  rw [hsplit]
  apply after_named hv hhere hnames hkey
  intro w hw
  exact history_apart hl (hsub w hw) hmem (hkey w hw)

-- A reading of a point sets no bit that its final reading leaves unwritten.
theorem writes_of_final_none
    (henc : ∀ w ∈ updateEvents rt (PointMap.rebuild rt cfg docs) updates, w.Encodable rt cfg)
    (ha : isBitArea a = false) {e w : Event} (he : e ∈ documentEvents rt cfg docs)
    (hw : w ∈ history rt cfg docs updates) (hkey : w.key rt = e.key rt) (hhere : e.here unit a)
    (hnames : e.point.names o k)
    (hnone : (e.final rt updates).writes rt cfg unit a o k = none) :
    w.writes rt cfg unit a o k ≠ some true := by
  have hmem : w ∈ (history rt cfg docs updates).filter (fun w => w.key rt = e.key rt) :=
    List.mem_filter.mpr ⟨hw, by simpa using hkey⟩
  have hlast := final_eq_getLast updates hl he
  rw [history_filter hl he] at hmem hlast
  have hpoint : w.point = e.point := by
    rcases List.mem_cons.mp hmem with rfl | hmem
    · rfl
    · obtain ⟨u, -, rfl⟩ := List.mem_map.mp hmem
      rfl
  by_cases hnil : (updates.filter fun u => anyString rt u.1 = e.key rt) = []
  · rw [hnil, List.map_nil] at hmem hlast
    rw [List.getLast?_singleton] at hlast
    rw [List.mem_singleton.mp hmem, Option.some.inj hlast, hnone]
    exact (Option.some_ne_none true).symm
  · -- the final reading is an update's
    have hup : e.final rt updates ∈ updateEvents rt (PointMap.rebuild rt cfg docs) updates := by
      apply List.mem_of_mem_filter
      rw [updateEvents_filter hl he]
      rw [List.getLast?_cons_of_ne_nil (by simpa using hnil)] at hlast
      exact List.mem_of_getLast? hlast
    obtain ⟨hbit, hcount⟩ := regCount_of_unwritten (henc _ hup) hhere ha hnames hnone
    apply writes_of_regCount
    · rw [hpoint]
      exact hbit
    · rw [hpoint]
      exact hcount

-- A bit that no final reading sets is clear, whatever was encoded before.
theorem bitAfter_history_unset
    (henc : ∀ w ∈ updateEvents rt (PointMap.rebuild rt cfg docs) updates, w.Encodable rt cfg)
    (ha : isBitArea a = false)
    (hunset : ∀ e ∈ documentEvents rt cfg docs,
      (e.final rt updates).writes rt cfg unit a o k ≠ some true) :
    bitAfter rt cfg (history rt cfg docs updates) unit a o k = false := by
  by_cases howner : ∃ e ∈ documentEvents rt cfg docs, e.here unit a ∧ e.point.names o k
  · obtain ⟨e, he, hhere, hnames⟩ := howner
    cases hv : (e.final rt updates).writes rt cfg unit a o k with
    | some v =>
        cases v with
        | true => exact absurd hv (hunset e he)
        | false => rw [bitAfter_history hl he hv hhere hnames, Bool.false_and]
    | none =>
        apply bitAfter_unset
        intro w hw hset
        obtain ⟨hhere', hnames'⟩ := names_of_writes hset
        by_cases hkey : w.key rt = e.key rt
        · exact writes_of_final_none hl henc ha he hw hkey hhere hnames hv hset
        · -- another point does not name the bit
          apply history_apart hl hw (final_mem_history updates hl he) hkey
          obtain ⟨hunit, harea⟩ := here_iff.mp hhere
          obtain ⟨hunit', harea'⟩ := here_iff.mp hhere'
          exact ⟨hunit'.trans hunit.symm, harea'.trans harea.symm, o, k, hnames', hnames⟩
  · apply bitAfter_unset
    intro w hw hset
    obtain ⟨hhere, hnames⟩ := names_of_writes hset
    obtain ⟨e, he, -, hpoint⟩ := history_mem hw
    apply howner
    refine ⟨e, he, ?_, ?_⟩
    · rw [Event.here, hpoint]
      exact hhere
    · rw [hpoint]
      exact hnames

end Registers

section Reads

variable (rt : Runtime) (cfg : Config)

-- Masters read the same from two maps: coils and discrete inputs as bits,
-- holding and input registers as registers.
def SameReads (m m' : PointMap) : Prop :=
  ∀ unit a start qty,
    (isBitArea a = true → m.readBits cfg unit a start qty = m'.readBits cfg unit a start qty) ∧
    (isBitArea a = false →
      m.readRegisters cfg unit a start qty = m'.readRegisters cfg unit a start qty)

variable {cfg} {m m' : PointMap} {unit : Nat} {a : Area}

theorem readRegisters_one (o : Nat) :
    m.readRegisters cfg unit a o 1 =
      (PointMap.served cfg 0 (registerAt m.units unit a o)).map fun v => [v] := by
  unfold PointMap.readRegisters PointMap.readCells registerAt
  cases hu : m.units unit with
  | none => cases hs : cfg.serveUnmappedAsZero <;> simp [PointMap.served, hs, List.range_succ]
  | some b =>
      simp only [Option.isNone_some, Bool.false_and, Bool.false_eq_true, if_false,
        List.range_one, List.mapM_cons, List.mapM_nil, Nat.add_zero, Option.bind_some]
      cases PointMap.served cfg 0 (b.regs a o) <;> rfl

theorem readRegisters_congr (hunits : (m.units unit).isSome = (m'.units unit).isSome)
    (hcells : ∀ o, PointMap.served cfg 0 (registerAt m.units unit a o) =
      PointMap.served cfg 0 (registerAt m'.units unit a o)) (start qty : Nat) :
    m.readRegisters cfg unit a start qty = m'.readRegisters cfg unit a start qty := by
  unfold registerAt at hcells
  unfold PointMap.readRegisters PointMap.readCells
  simp only [hcells]
  rw [← Option.not_isSome, ← Option.not_isSome, hunits]

theorem readBits_congr (hunits : (m.units unit).isSome = (m'.units unit).isSome)
    (hcells : ∀ o, bitAreaAt m.units unit a o = bitAreaAt m'.units unit a o) (start qty : Nat) :
    m.readBits cfg unit a start qty = m'.readBits cfg unit a start qty := by
  unfold bitAreaAt at hcells
  unfold PointMap.readBits PointMap.readCells
  simp only [hcells]
  rw [← Option.not_isSome, ← Option.not_isSome, hunits]

theorem eq_of_registerBit {c c' : Option (BitVec 16)} (hsome : c.isSome = c'.isSome)
    (hbits : ∀ k, registerBit c k = registerBit c' k) : c = c' := by
  have hvalue : c.getD 0 = c'.getD 0 := BitVec.eq_of_getLsbD_eq fun k _ => hbits k
  cases c <;> cases c' <;> simp_all

theorem served_eq_iff {c c' : Option (BitVec 16)} :
    PointMap.served cfg 0 c = PointMap.served cfg 0 c' ↔
      (∀ k, registerBit c k = registerBit c' k) ∧
        (cfg.serveUnmappedAsZero = false → c.isSome = c'.isSome) := by
  unfold PointMap.served
  cases hs : cfg.serveUnmappedAsZero with
  | true =>
      simp only [if_true, Option.some.injEq, Bool.true_eq_false, false_imp_iff, and_true]
      constructor
      · intro h k
        rw [registerBit, h, registerBit]
      · intro h
        exact BitVec.eq_of_getLsbD_eq fun k _ => h k
  | false =>
      simp only [Bool.false_eq_true, if_false, true_imp_iff]
      constructor
      · rintro rfl
        exact ⟨fun _ => rfl, rfl⟩
      · rintro ⟨hbits, hsome⟩
        exact eq_of_registerBit hsome hbits

end Reads

section Rebuild

variable (rt : Runtime) (cfg : Config) (docs : List TagDoc)
  (updates : List (Processor.Value × Reading))

-- No register is left wiped, or mapped, by a value that is not a final one.
structure WipedAlike : Prop where
  -- where a point finally sets a bit, its register was wiped after its last
  -- reading exactly when a later document wipes it
  wiped : ∀ e ∈ documentEvents rt cfg (finalDocs rt updates docs), ∀ o k,
    e.writes rt cfg e.point.unit e.point.area o k = some true →
      wipedSince rt cfg (history rt cfg docs updates) (e.key rt) e.point.unit e.point.area o =
        wipedSince rt cfg (documentEvents rt cfg (finalDocs rt updates docs)) (e.key rt)
          e.point.unit e.point.area o
  mapped : cfg.serveUnmappedAsZero = false → ∀ unit a o, isBitArea a = false →
    ∀ w ∈ history rt cfg docs updates, w.touches rt cfg unit a o →
      ∃ e ∈ documentEvents rt cfg (finalDocs rt updates docs), e.touches rt cfg unit a o

variable {rt cfg docs updates}

variable (rt cfg docs updates) in
theorem tracks_history :
    Tracks rt cfg ((PointMap.rebuild rt cfg docs).updateAll rt cfg updates).units
      (history rt cfg docs updates) := by
  apply updateAll_spec (rebuild_spec docs).1
  intro key p hp
  obtain ⟨e, he, -, hpoint⟩ := byID_rebuild hp
  exact ⟨e, he, hpoint⟩

variable (hl : Layout rt (documentEvents rt cfg docs))
include hl

theorem bitAfter_eq_iff
    (henc : ∀ w ∈ updateEvents rt (PointMap.rebuild rt cfg docs) updates, w.Encodable rt cfg) :
    (∀ unit a o k, isBitArea a = false →
      bitAfter rt cfg (history rt cfg docs updates) unit a o k =
        bitAfter rt cfg (documentEvents rt cfg (finalDocs rt updates docs)) unit a o k) ↔
    ∀ e ∈ documentEvents rt cfg (finalDocs rt updates docs), ∀ o k,
      e.writes rt cfg e.point.unit e.point.area o k = some true →
        wipedSince rt cfg (history rt cfg docs updates) (e.key rt) e.point.unit e.point.area o =
          wipedSince rt cfg (documentEvents rt cfg (finalDocs rt updates docs)) (e.key rt)
            e.point.unit e.point.area o := by
  constructor
  · intro h x hx o k hset
    rw [documentEvents_finalDocs] at hx
    obtain ⟨e, he, rfl⟩ := List.mem_map.mp hx
    obtain ⟨hhere, hnames⟩ := names_of_writes hset
    by_cases ha : isBitArea (e.final rt updates).point.area
    · rw [wipedSince_bitArea _ _ ha, wipedSince_bitArea _ _ ha]
    · have hbit := h (e.final rt updates).point.unit (e.final rt updates).point.area o k
        (by simpa using ha)
      rw [bitAfter_history hl he hset hhere hnames, bitAfter_finalDocs hl he hset hhere hnames,
        Bool.true_and, Bool.true_and] at hbit
      exact Bool.not_inj hbit
  · intro h unit a o k ha
    by_cases hset : ∃ e ∈ documentEvents rt cfg docs,
        (e.final rt updates).writes rt cfg unit a o k = some true
    · obtain ⟨e, he, hset⟩ := hset
      obtain ⟨hhere, hnames⟩ := names_of_writes hset
      obtain ⟨rfl, rfl⟩ := here_iff.mp hhere
      rw [bitAfter_history hl he hset hhere hnames, bitAfter_finalDocs hl he hset hhere hnames]
      have hmem : e.final rt updates ∈ documentEvents rt cfg (finalDocs rt updates docs) := by
        rw [documentEvents_finalDocs]
        exact List.mem_map_of_mem he
      have hsame := h _ hmem o k hset
      exact congrArg (fun b => true && !b) hsame
    · have hunset (e : Event) (he : e ∈ documentEvents rt cfg docs) :
          (e.final rt updates).writes rt cfg unit a o k ≠ some true :=
        fun hw => hset ⟨e, he, hw⟩
      rw [bitAfter_history_unset hl henc ha hunset, bitAfter_unset]
      intro w hw
      rw [documentEvents_finalDocs] at hw
      obtain ⟨e, he, rfl⟩ := List.mem_map.mp hw
      exact hunset e he

-- Coils and discrete inputs have one point each, so the last reading decides.
theorem writesBit_after_eq (unit : Nat) (a : Area) (o : Nat) (ha : isBitArea a = true) :
    LastWrite.after (fun e => Event.writesBit cfg e unit a o) none (history rt cfg docs updates) =
      LastWrite.after (fun e => Event.writesBit cfg e unit a o) none
        (documentEvents rt cfg (finalDocs rt updates docs)) := by
  by_cases howner : ∃ e ∈ documentEvents rt cfg docs, (e.here unit a && o = e.point.offset) = true
  · obtain ⟨e, he, howner⟩ := howner
    have hv : (e.final rt updates).writesBit cfg unit a o =
        some ((e.final rt updates).bitServed cfg) := if_pos howner
    have hforeign (w : Event) (hw : w ∈ history rt cfg docs updates) (hkey : w.key rt ≠ e.key rt) :
        w.writesBit cfg unit a o = none := by
      have hapart : ¬ w.point.Overlaps (e.final rt updates).point :=
        history_apart hl hw (final_mem_history updates hl he) hkey
      exact writesBit_of_apart ha howner hapart
    obtain ⟨pre, post, hsplit, hkey⟩ := history_split updates hl he
    obtain ⟨pre', post', hsplit', -, hkey'⟩ := finalEvents_split updates hl he
    have hpost (w : Event) (hw : w ∈ post) : w ∈ history rt cfg docs updates := by
      rw [hsplit]
      simp [hw]
    have hpost' (w : Event) (hw : w ∈ post') : w ∈ history rt cfg docs updates := by
      apply finalEvents_mem_history hl
      rw [hsplit']
      simp [hw]
    have hleft : LastWrite.after (fun e => Event.writesBit cfg e unit a o) none
        (pre ++ e.final rt updates :: post) = some ((e.final rt updates).bitServed cfg) :=
      LastWrite.after_last hv fun w hw => hforeign w (hpost w hw) (hkey w hw)
    have hright : LastWrite.after (fun e => Event.writesBit cfg e unit a o) none
        (pre' ++ e.final rt updates :: post') = some ((e.final rt updates).bitServed cfg) :=
      LastWrite.after_last hv fun w hw => hforeign w (hpost' w hw) (hkey' w hw)
    rw [hsplit, hsplit', hleft, hright]
  · have hnone (w : Event) (hw : w ∈ history rt cfg docs updates) :
        w.writesBit cfg unit a o = none := by
      obtain ⟨e, he, -, hpoint⟩ := history_mem hw
      apply if_neg
      intro h
      apply howner
      refine ⟨e, he, ?_⟩
      rw [Event.here, hpoint]
      exact h
    rw [LastWrite.after_of_none hnone,
      LastWrite.after_of_none fun w hw => hnone w (finalEvents_mem_history hl hw)]

variable (updates) in
theorem units_isSome_eq (unit : Nat) :
    (((PointMap.rebuild rt cfg docs).updateAll rt cfg updates).units unit).isSome =
      ((PointMap.rebuild rt cfg (finalDocs rt updates docs)).units unit).isSome := by
  rw [Bool.eq_iff_iff, (tracks_history rt cfg docs updates).mapped, (rebuild_spec _).1.mapped]
  constructor
  · rintro ⟨w, hw, rfl⟩
    obtain ⟨e, he, -, hpoint⟩ := history_mem hw
    refine ⟨e.final rt updates, ?_, ?_⟩
    · rw [documentEvents_finalDocs]
      exact List.mem_map_of_mem he
    · rw [← hpoint]
      rfl
  · rintro ⟨w, hw, rfl⟩
    exact ⟨w, finalEvents_mem_history hl hw, rfl⟩

-- Updates leave what one rebuild from the final values leaves, unless a bit of
-- a register that is served as zero wipes more than itself.
theorem updates_same_as_rebuild_iff
    (henc : ∀ w ∈ updateEvents rt (PointMap.rebuild rt cfg docs) updates, w.Encodable rt cfg) :
    SameReads cfg ((PointMap.rebuild rt cfg docs).updateAll rt cfg updates)
        (PointMap.rebuild rt cfg (finalDocs rt updates docs)) ↔
      WipedAlike rt cfg docs updates := by
  have ht := tracks_history rt cfg docs updates
  have ht' : Tracks rt cfg (PointMap.rebuild rt cfg (finalDocs rt updates docs)).units
      (documentEvents rt cfg (finalDocs rt updates docs)) := (rebuild_spec _).1
  have hbits := bitAfter_eq_iff hl henc
  constructor
  · intro hsame
    have hserved (unit : Nat) (a : Area) (o : Nat) (ha : isBitArea a = false) :
        PointMap.served cfg 0
            (registerAt ((PointMap.rebuild rt cfg docs).updateAll rt cfg updates).units unit a o) =
          PointMap.served cfg 0
            (registerAt (PointMap.rebuild rt cfg (finalDocs rt updates docs)).units unit a o) := by
      have hread := (hsame unit a o 1).2 ha
      rw [readRegisters_one, readRegisters_one] at hread
      exact Option.map_injective (fun _ _ h => List.cons.inj h |>.1) hread
    constructor
    · apply hbits.mp
      intro unit a o k ha
      have hbit := (served_eq_iff.mp (hserved unit a o ha)).1 k
      rwa [ht.register _ _ _ _ ha, ht'.register _ _ _ _ ha] at hbit
    · intro hzero unit a o ha w hw htouch
      have hsome := (served_eq_iff.mp (hserved unit a o ha)).2 hzero
      rw [ht.touched _ _ _ ha, ht'.touched _ _ _ ha] at hsome
      exact List.any_eq_true.mp (hsome.symm.trans (List.any_eq_true.mpr ⟨w, hw, htouch⟩))
  · rintro ⟨hwiped, hmapped⟩ unit a start qty
    have hunits := units_isSome_eq updates hl unit
    constructor
    · intro ha
      apply readBits_congr hunits
      intro o
      rw [ht.bit _ _ _ ha, ht'.bit _ _ _ ha, writesBit_after_eq hl unit a o ha]
    · intro ha
      apply readRegisters_congr hunits
      intro o
      rw [served_eq_iff]
      constructor
      · intro k
        rw [ht.register _ _ _ _ ha, ht'.register _ _ _ _ ha]
        exact hbits.mpr hwiped unit a o k ha
      · intro hzero
        rw [ht.touched _ _ _ ha, ht'.touched _ _ _ ha, Bool.eq_iff_iff, List.any_eq_true,
          List.any_eq_true]
        constructor
        · rintro ⟨w, hw, htouch⟩
          exact hmapped hzero unit a o ha w hw htouch
        · rintro ⟨w, hw, htouch⟩
          exact ⟨w, finalEvents_mem_history hl hw, htouch⟩

end Rebuild

section TwoBits

-- The runtime of an amd64 machine.
def amd64 : Runtime where
  round := Double.round
  sprint := fun _ => ""

def plainDefaults : AsduDefaults where
  byteOrder16 := "AB"
  byteOrder32 := "ABCD"
  byteOrder64 := "ABCDEFGH"
  byteOrderStr := "AB"
  stringEncoding := "latin1"

def zeroPolicy : Config where
  defaults := plainDefaults
  useModiconAddresses := false
  serveUnmappedAsZero := false
  invalidValuePolicy := "zero"

-- A digital tag that is on, served in unit 1.
def onTag (id : ℚ) (address : String) : TagDoc where
  id := .number (.fin id)
  tag := "T"
  type := .string "digital"
  value := some (.number (.fin 1))
  valueString := .null
  invalid := .bool false
  origin := .string "supervised"
  kconv1 := none
  kconv2 := none
  protocolSourceConnectionNumber := .null
  protocolSourceCommonAddress := .null
  protocolSourceObjectAddress := .null
  protocolSourceASDU := .null
  dest := [("protocolDestinationObjectAddress", .string address),
    ("protocolDestinationCommonAddress", .number (.fin 1))]

def twoBits : List TagDoc := [onTag 1 "hr:10.b1", onTag 2 "hr:10.b0"]

def firstInvalid : List (Processor.Value × Reading) :=
  [(.number (.fin 1), { value := .fin 1, valueString := "", invalid := true })]

theorem twoBits_layout : Layout amd64 (documentEvents amd64 zeroPolicy twoBits) where
  ids := by decide +kernel
  apart := by decide +kernel

theorem firstInvalid_encodable :
    ∀ w ∈ updateEvents amd64 (PointMap.rebuild amd64 zeroPolicy twoBits) firstInvalid,
      w.Encodable amd64 zeroPolicy := by
  have hzeroed : ∀ w ∈ updateEvents amd64 (PointMap.rebuild amd64 zeroPolicy twoBits) firstInvalid,
      w.zeroed zeroPolicy = true := by decide +kernel
  exact fun w hw => .inl (hzeroed w hw)

theorem twoBits_same_iff :
    SameReads zeroPolicy
        ((PointMap.rebuild amd64 zeroPolicy twoBits).updateAll amd64 zeroPolicy firstInvalid)
        (PointMap.rebuild amd64 zeroPolicy (finalDocs amd64 firstInvalid twoBits)) ↔
      WipedAlike amd64 zeroPolicy twoBits firstInvalid :=
  updates_same_as_rebuild_iff twoBits_layout firstInvalid_encodable

-- The update of the one bit clears the other, which a rebuild sets again.
theorem zeroed_bit_clears_neighbour :
    Layout amd64 (documentEvents amd64 zeroPolicy twoBits) ∧
      (∀ w ∈ updateEvents amd64 (PointMap.rebuild amd64 zeroPolicy twoBits) firstInvalid,
        w.Encodable amd64 zeroPolicy) ∧
      ¬ SameReads zeroPolicy
        ((PointMap.rebuild amd64 zeroPolicy twoBits).updateAll amd64 zeroPolicy firstInvalid)
        (PointMap.rebuild amd64 zeroPolicy (finalDocs amd64 firstInvalid twoBits)) := by
  refine ⟨twoBits_layout, firstInvalid_encodable, ?_⟩
  intro hsame
  have hread := (hsame 1 .holding 10 1).2 (by decide)
  revert hread
  decide +kernel

end TwoBits

end JsonScada.Modbus
