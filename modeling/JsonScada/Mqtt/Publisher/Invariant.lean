import JsonScada.Mqtt.Publisher

-- What holds of a publisher between its steps, when these keep the order of what is under way.
namespace JsonScada.Mqtt.Publisher

open JsonScada.Library
open JsonScada.Processor (Document Value)

section Condition

variable (conn : Connection)

-- The path of the changes sends the tag.
def sends (db : List Row) (id : ℚ) : Bool :=
  ((db.lookup id).bind fun doc => getMetricPayload (id, doc)).isSome

-- The value is that of the database, where there is one.
def Agrees (db : List Row) (id : ℚ) (v : Option Value) : Prop :=
  ∀ w, current db id = some w → v = some w

-- An event whose document is still to be looked up.
def Changing (s : State) (id : ℚ) : Prop := id ∈ s.changes ∧ sends s.db id = true

def UnderWay (fetched : List Row) (id : ℚ) : Prop :=
  id ∈ (fetched.filterMap getMetricPayload).map (·.aliasId)

-- The tag has been announced, or read to be announced.
def Known (s : State) (id : ℚ) : Prop :=
  id ∈ announced s.published ∨ ∃ b ∈ s.births, ∃ ms ∈ b.payload, id ∈ ms.map (·.aliasId)

-- Nothing changes for the tag, or it is no metric any more.
def Keeps (db db' : List Row) (id : ℚ) : Prop :=
  current db' id = none ∨ current db' id = current db id ∧ sends db' id = sends db id

-- No birth in progress has read another value of the tag, unless a later change is under way.
def Passes (s : State) (fetched : List Row) (id : ℚ) : Prop :=
  ∀ b ∈ s.births, ∀ ms ∈ b.payload, id ∈ ms.map (·.aliasId) →
    Agrees s.db id (lastValue id ms) ∨ Changing s id ∨ UnderWay fetched id

def Orderly (s : State) : Action → Prop
  | .change op id doc =>
      Known s id ∨ UnderWay s.fetched id →
        ∀ db ∈ write s.db op id doc,
          Keeps s.db db id ∨ (inStream op id = true ∨ id ∈ s.changes) ∧ sends db id = true
  | .handle =>
      ∀ row ∈ s.fetched.head?, ∀ m ∈ getMetricPayload row,
        if s.sparkplugDeviceBirthed then m.aliasId ∈ announced s.published
        else Passes s s.fetched.tail m.aliasId
  | .publish | .birth =>
      ∀ m ∈ dataMetrics s.sparkplugPublishQueue, Passes s s.fetched m.aliasId
  | .announce i =>
      ∀ b ∈ s.births[i]?, ∀ ms ∈ b.payload,
        ∀ m ∈ dataMetrics s.sparkplugPublishQueue, m.aliasId ∈ ms.map (·.aliasId)
  | .lookup | .rebirth | .read _ => True

instance (db : List Row) (id : ℚ) (v : Option Value) : Decidable (Agrees db id v) :=
  inferInstanceAs (Decidable (∀ w ∈ current db id, v = some w))

instance (s : State) (id : ℚ) : Decidable (Changing s id) := inferInstanceAs (Decidable (_ ∧ _))

instance (fetched : List Row) (id : ℚ) : Decidable (UnderWay fetched id) :=
  inferInstanceAs (Decidable (_ ∈ _))

instance (s : State) (id : ℚ) : Decidable (Known s id) := inferInstanceAs (Decidable (_ ∨ _))

instance (db db' : List Row) (id : ℚ) : Decidable (Keeps db db' id) :=
  inferInstanceAs (Decidable (_ ∨ _))

instance (s : State) (fetched : List Row) (id : ℚ) : Decidable (Passes s fetched id) :=
  inferInstanceAs (Decidable (∀ b ∈ s.births, ∀ ms ∈ b.payload, _ → _))

instance (s : State) (a : Action) : Decidable (Orderly s a) :=
  match a with
  | .change op id doc => inferInstanceAs (Decidable (_ → ∀ db ∈ write s.db op id doc, _))
  | .handle => inferInstanceAs (Decidable (∀ row ∈ s.fetched.head?, ∀ m ∈ getMetricPayload row, _))
  | .publish | .birth => inferInstanceAs (Decidable (∀ m ∈ dataMetrics _, _))
  | .announce i =>
      inferInstanceAs (Decidable (∀ b ∈ s.births[i]?, ∀ ms ∈ b.payload, ∀ m ∈ dataMetrics _, _))
  | .lookup | .rebirth | .read _ => .isTrue trivial

end Condition

-- The metrics that are still to be published, in their order.
def pending (s : State) : List Metric :=
  dataMetrics s.sparkplugPublishQueue ++ s.fetched.filterMap getMetricPayload

def Coming (s : State) (id : ℚ) : Prop := Changing s id ∨ id ∈ (pending s).map (·.aliasId)

structure Inv (s : State) : Prop where
  keys : (s.db.map Prod.fst).Nodup
  early : s.sparkplugDeviceBirthed = false →
    s.published = [] ∧ dataMetrics s.sparkplugPublishQueue = []
  fresh : ∀ id v, lastValue id (pending s) = some v → Agrees s.db id (some v) ∨ Changing s id
  host : ∀ id ∈ announced s.published,
    Agrees s.db id (shown id s.published) ∨ Coming s id ∨ ∃ b ∈ s.births, b.first = true
  reads : ∀ b ∈ s.births, ∀ ms ∈ b.payload, ∀ id ∈ ms.map (·.aliasId),
    Agrees s.db id (lastValue id ms) ∨ Coming s id
  -- what a birth has read are metrics with names
  named : ∀ b ∈ s.births, ∀ ms ∈ b.payload, dataMetrics ms = []
  queued : ∀ m ∈ dataMetrics s.sparkplugPublishQueue, m.aliasId ∈ announced s.published
  aliased : Aliased s.published

section Steps

variable {conn : Connection} {s s' : State} {id : ℚ}

theorem inv_start {db : List Row} (hkeys : (db.map Prod.fst).Nodup) : Inv { db := db } where
  keys := hkeys
  early := fun _ => ⟨rfl, rfl⟩
  fresh := by
    intro id v h
    cases h
  host := by
    intro id hid
    cases hid
  reads := by
    intro b hb
    cases hb
  named := by
    intro b hb
    cases hb
  queued := by
    intro m hm
    cases hm
  aliased := aliased_nil

-- What is to be published is sent from an announced tag, or under way.
theorem Inv.tracked (h : Inv s) (hid : id ∈ (pending s).map (·.aliasId)) :
    Known s id ∨ UnderWay s.fetched id := by
  rw [pending, List.map_append, List.mem_append] at hid
  cases hid with
  | inl hqueue =>
    obtain ⟨m, hm, rfl⟩ := List.mem_map.mp hqueue
    exact .inl (.inl (h.queued m hm))
  | inr hfetched => exact .inr hfetched

-- An orderly change of a tag that matters keeps what is right, or is under way itself.
theorem transfer_change {op : Op} {i : ℚ} {doc : Document} {db : List Row} {v : Option Value}
    (hok : Orderly s (.change op i doc)) (hwrite : write s.db op i doc = some db)
    (htracked : Known s id ∨ UnderWay s.fetched id) (h : Agrees s.db id v ∨ Changing s id) :
    Agrees db id v ∨
      id ∈ (if inStream op i then s.changes ++ [i] else s.changes) ∧ sends db id = true := by
  have hsub : id ∈ s.changes → id ∈ if inStream op i then s.changes ++ [i] else s.changes := by
    intro hid
    split
    · exact List.mem_append_left _ hid
    · exact hid
  have hsame : current db id = current s.db id → sends db id = sends s.db id →
      Agrees db id v ∨
        id ∈ (if inStream op i then s.changes ++ [i] else s.changes) ∧ sends db id = true := by
    intro hcurrent hsends
    refine h.imp (fun hv w hw => hv w (hcurrent ▸ hw)) fun hchanging => ?_
    exact ⟨hsub hchanging.1, hsends.trans hchanging.2⟩
  by_cases hid : id = i
  · subst hid
    rcases hok htracked db hwrite with (hnone | ⟨hcurrent, hsends⟩) | ⟨hstream, hsends⟩
    · refine .inl fun w hw => ?_
      rw [hnone] at hw
      cases hw
    · exact hsame hcurrent hsends
    · refine .inr ⟨?_, hsends⟩
      rcases hstream with hstream | hchanges
      · simp [hstream]
      · exact hsub hchanges
  · have hlookup := lookup_write hwrite hid
    exact hsame (by rw [current, current, hlookup]) (by rw [sends, sends, hlookup])

theorem Inv.change {op : Op} {i : ℚ} {doc : Document} (h : Inv s)
    (hok : Orderly s (.change op i doc)) {db : List Row} (hwrite : write s.db op i doc = some db) :
    Inv { s with db := db, changes := if inStream op i then s.changes ++ [i] else s.changes } where
  keys := write_keys h.keys hwrite
  early := h.early
  fresh := by
    intro id v hv
    have hv : lastValue id (pending s) = some v := hv
    have hid : id ∈ (pending s).map (·.aliasId) := lastValue_isSome.mp (by rw [hv]; rfl)
    exact transfer_change hok hwrite (h.tracked hid) (h.fresh id v hv)
  host := by
    intro id hid
    rcases h.host id hid with hright | (hchanging | hpending) | hfirst
    · exact (transfer_change hok hwrite (.inl (.inl hid)) (.inl hright)).imp_right
        fun hnew => .inl (.inl hnew)
    · exact (transfer_change hok hwrite (.inl (.inl hid)) (.inr hchanging)).imp_right
        fun hnew => .inl (.inl hnew)
    · exact .inr (.inl (.inr hpending))
    · exact .inr (.inr hfirst)
  reads := by
    intro b hb ms hms id hid
    have hknown : Known s id := .inr ⟨b, hb, ms, hms, hid⟩
    rcases h.reads b hb ms hms id hid with hright | hchanging | hpending
    · exact (transfer_change hok hwrite (.inl hknown) (.inl hright)).imp_right .inl
    · exact (transfer_change hok hwrite (.inl hknown) (.inr hchanging)).imp_right .inl
    · exact .inr (.inr hpending)
  named := h.named
  queued := h.queued
  aliased := h.aliased

-- The document that is looked up for the first event is the one of the database.
def looked (s : State) (i : ℚ) (changes : List ℚ) : State :=
  { s with
    changes := changes
    fetched := s.fetched ++ ((s.db.lookup i).map fun doc => (i, doc)).toList }

section Lookup

variable {i : ℚ} {changes : List ℚ}

theorem pending_looked :
    pending (looked s i changes) = pending s ++
      ((s.db.lookup i).bind fun doc => getMetricPayload (i, doc)).toList := by
  rw [pending, pending, List.append_assoc, looked, List.filterMap_append]
  cases s.db.lookup i with
  | none => rfl
  | some doc => cases h : getMetricPayload (i, doc) <;> simp [h]

theorem pending_looked_sent {doc : Document} {m : Metric} (hdoc : s.db.lookup i = some doc)
    (hm : getMetricPayload (i, doc) = some m) :
    pending (looked s i changes) = pending s ++ [m] := by
  rw [pending_looked, hdoc, Option.bind_some, hm, Option.toList_some]

theorem changing_looked (hchanges : s.changes = i :: changes) (h : Changing s id) :
    Changing (looked s i changes) id ∨ id = i := by
  obtain ⟨hid, hsends⟩ := h
  rw [hchanges, List.mem_cons] at hid
  exact hid.symm.imp_left fun hid => ⟨hid, hsends⟩

theorem coming_looked (hchanges : s.changes = i :: changes) (h : Coming s id) :
    Coming (looked s i changes) id := by
  rcases h with hchanging | hpending
  · rcases changing_looked hchanges hchanging with hrest | rfl
    · exact .inl hrest
    · obtain ⟨m, hm⟩ := Option.isSome_iff_exists.mp hchanging.2
      obtain ⟨doc, hdoc, hpayload⟩ := Option.bind_eq_some_iff.mp hm
      refine .inr ?_
      rw [pending_looked_sent hdoc hpayload]
      simp [(getMetricPayload_eq_some hpayload).1]
  · refine .inr ?_
    rw [pending_looked, List.map_append]
    exact List.mem_append_left _ hpending

theorem Inv.lookup (h : Inv s) (hchanges : s.changes = i :: changes) :
    Inv (looked s i changes) where
  keys := h.keys
  early := h.early
  fresh := by
    intro id v hv
    cases hsent : (s.db.lookup i).bind fun doc => getMetricPayload (i, doc) with
    | none =>
      rw [pending_looked, hsent, Option.toList_none, List.append_nil] at hv
      rcases h.fresh id v hv with hright | hchanging
      · exact .inl hright
      · rcases changing_looked hchanges hchanging with hrest | rfl
        · exact .inr hrest
        · have hsends := hchanging.2
          rw [sends, hsent] at hsends
          cases hsends
    | some m =>
      obtain ⟨doc, hdoc, hpayload⟩ := Option.bind_eq_some_iff.mp hsent
      obtain ⟨halias, hvalue, -⟩ := getMetricPayload_eq_some hpayload
      rw [pending_looked_sent hdoc hpayload, lastValue_append] at hv
      by_cases hid : id = i
      · subst hid
        have hm : lastValue id [m] = some m.value := by
          simp [lastValue, LastWrite.after, written, halias]
        rw [hm, Option.some_or] at hv
        refine .inl fun w hw => ?_
        have hcurrent : current s.db id = some m.value := by rw [current, hdoc]; exact hvalue
        exact hv.symm.trans (hcurrent.symm.trans hw)
      · have hm : lastValue id [m] = none := lastValue_eq_none.mpr (by simp [halias, hid])
        rw [hm, Option.none_or] at hv
        rcases h.fresh id v hv with hright | hchanging
        · exact .inl hright
        · exact (changing_looked hchanges hchanging).resolve_right hid |> .inr
  host := by
    intro id hid
    exact (h.host id hid).imp_right (Or.imp_left (coming_looked hchanges))
  reads := by
    intro b hb ms hms id hid
    exact (h.reads b hb ms hms id hid).imp_right (coming_looked hchanges)
  named := h.named
  queued := h.queued
  aliased := h.aliased

end Lookup

-- What is taken from the front of what is pending leaves the last values as they are.
theorem Inv.fresh_behind (h : Inv s) {front behind : List Metric}
    (hpending : pending s = front ++ behind) {v : Value} (hv : lastValue id behind = some v) :
    Agrees s.db id (some v) ∨ Changing s id := by
  apply h.fresh id v
  rw [hpending, lastValue_append, hv, Option.some_or]

-- The event reaches a device that has been born.
theorem Inv.handle_birthed (h : Inv s) {row : Row} {fetched : List Row}
    (hfetched : s.fetched = row :: fetched) (hbirthed : s.sparkplugDeviceBirthed = true)
    (hok : Orderly s .handle) :
    Inv { s with
      fetched := fetched
      sparkplugPublishQueue := s.sparkplugPublishQueue ++ (getMetricPayload row).toList } := by
  have hpending : pending { s with
      fetched := fetched
      sparkplugPublishQueue := s.sparkplugPublishQueue ++ (getMetricPayload row).toList } =
      pending s := by
    simp only [pending, hfetched, dataMetrics_append, dataMetrics_payload, List.append_assoc]
    cases hm : getMetricPayload row <;> simp [hm]
  exact
    { keys := h.keys
      early := fun hearly => absurd (hbirthed.symm.trans hearly) (by simp)
      fresh := fun id v hv => h.fresh id v (hpending ▸ hv)
      host := fun id hid => (h.host id hid).imp_right (Or.imp_left (Or.imp_right (hpending ▸ ·)))
      reads := fun b hb ms hms id hid =>
        (h.reads b hb ms hms id hid).imp_right (Or.imp_right (hpending ▸ ·))
      named := h.named
      queued := by
        intro m hm
        rw [dataMetrics_append, List.mem_append, dataMetrics_payload] at hm
        cases hm with
        | inl hm => exact h.queued m hm
        | inr hm =>
          have hsent := hok row (by rw [hfetched]; rfl) m (Option.mem_toList.mp hm)
          rwa [hbirthed, if_pos rfl] at hsent
      aliased := h.aliased }

-- What a birth has read is right without the metrics that are taken from the front of what is
-- pending.
theorem Inv.reads_consumed (h : Inv s) {front : List Metric} {fetched : List Row}
    (hpending : pending s = front ++ fetched.filterMap getMetricPayload)
    (hpasses : ∀ m ∈ front, Passes s fetched m.aliasId) {b : Birth} (hb : b ∈ s.births)
    {ms : List Metric} (hms : ms ∈ b.payload) (hid : id ∈ ms.map (·.aliasId)) :
    Agrees s.db id (lastValue id ms) ∨ Changing s id ∨ UnderWay fetched id := by
  rcases h.reads b hb ms hms id hid with hright | hchanging | hcoming
  · exact .inl hright
  · exact .inr (.inl hchanging)
  · rw [hpending, List.map_append, List.mem_append] at hcoming
    cases hcoming with
    | inl hfront =>
      obtain ⟨m, hm, rfl⟩ := List.mem_map.mp hfront
      exact hpasses m hm b hb ms hms hid
    | inr hbehind => exact .inr (.inr hbehind)

-- The event is dropped before the first birth.
theorem Inv.handle_unborn (h : Inv s) {row : Row} {fetched : List Row}
    (hfetched : s.fetched = row :: fetched) (hbirthed : s.sparkplugDeviceBirthed = false)
    (hok : Orderly s .handle) : Inv { s with fetched := fetched } := by
  obtain ⟨hpublished, hqueue⟩ := h.early hbirthed
  have hpending : pending s =
      (getMetricPayload row).toList ++ fetched.filterMap getMetricPayload := by
    rw [pending, hqueue, hfetched, List.nil_append]
    cases hm : getMetricPayload row <;> simp [hm]
  have hbehind : pending { s with fetched := fetched } = fetched.filterMap getMetricPayload := by
    rw [pending, hqueue, List.nil_append]
  have hpasses : ∀ m ∈ (getMetricPayload row).toList, Passes s fetched m.aliasId := by
    intro m hm
    have hpass := hok row (by rw [hfetched]; rfl) m (Option.mem_toList.mp hm)
    rwa [hbirthed, if_neg Bool.false_ne_true, hfetched] at hpass
  exact
    { keys := h.keys
      early := h.early
      fresh := fun id v hv => h.fresh_behind hpending (hbehind ▸ hv)
      host := by
        intro id hid
        rw [hpublished] at hid
        cases hid
      reads := by
        intro b hb ms hms id hid
        refine (h.reads_consumed hpending hpasses hb hms hid).imp_right fun hcoming => ?_
        exact hcoming.imp_right fun hunder => by rwa [hbehind]
      named := h.named
      queued := h.queued
      aliased := h.aliased }

section Queue

variable (hpasses : ∀ m ∈ dataMetrics s.sparkplugPublishQueue, Passes s s.fetched m.aliasId)

theorem pending_queue : pending { s with sparkplugPublishQueue := [] } =
    s.fetched.filterMap getMetricPayload := rfl

-- What a host shows after the queue has been published.
theorem shown_publish (published : List Message) (metrics : List Metric) :
    shown id (published ++ if metrics = [] then [] else [.deviceData metrics]) =
      (lastValue id metrics).or (shown id published) := by
  split
  next h => rw [h, List.append_nil]; rfl
  next => exact shown_concat _

theorem announced_publish (published : List Message) (metrics : List Metric) :
    announced (published ++ if metrics = [] then [] else [.deviceData metrics]) =
      announced published := by
  split
  · rw [List.append_nil]
  · exact announced_data

include hpasses in
theorem Inv.publish (h : Inv s) : Inv { s with
    sparkplugPublishQueue := []
    published := s.published ++
      if dataMetrics s.sparkplugPublishQueue = [] then []
      else [.deviceData (dataMetrics s.sparkplugPublishQueue)] } where
  keys := h.keys
  early := by
    intro hearly
    obtain ⟨hpublished, hqueue⟩ := h.early hearly
    exact ⟨by rw [hpublished, hqueue]; rfl, rfl⟩
  fresh := fun id v hv => h.fresh_behind rfl hv
  host := by
    intro id hid
    rw [announced_publish] at hid
    rw [shown_publish]
    by_cases hunder : UnderWay s.fetched id
    · exact .inr (.inl (.inr hunder))
    have hlast : lastValue id (s.fetched.filterMap getMetricPayload) = none :=
      lastValue_eq_none.mpr hunder
    cases hqueue : lastValue id (dataMetrics s.sparkplugPublishQueue) with
    | none =>
      rw [Option.none_or]
      refine (h.host id hid).imp_right (Or.imp_left ?_)
      rintro (hchanging | hpending)
      · exact .inl hchanging
      · rw [pending, List.map_append, List.mem_append] at hpending
        exact absurd hpending (not_or.mpr ⟨lastValue_eq_none.mp hqueue, hunder⟩)
    | some v =>
      rw [Option.some_or]
      have hv : lastValue id (pending s) = some v := by
        rw [pending, lastValue_append, hlast, Option.none_or, hqueue]
      exact (h.fresh id v hv).imp_right fun hchanging => .inl (.inl hchanging)
  reads := fun b hb ms hms id hid => h.reads_consumed rfl hpasses hb hms hid
  named := h.named
  queued := by
    intro m hm
    cases hm
  aliased := by
    split
    · rw [List.append_nil]
      exact h.aliased
    · exact aliased_data h.aliased h.queued

include hpasses in
theorem Inv.birth (h : Inv s) :
    Inv { s with sparkplugPublishQueue := [], births := s.births ++ [⟨true, none⟩] } where
  keys := h.keys
  early := fun hearly => ⟨(h.early hearly).1, rfl⟩
  fresh := fun id v hv => h.fresh_behind rfl hv
  host := fun id _ => .inr (.inr ⟨⟨true, none⟩, by simp, rfl⟩)
  reads := by
    intro b hb ms hms id hid
    rcases List.mem_append.mp hb with hb | hb
    · exact (h.reads_consumed rfl hpasses hb hms hid)
    · obtain rfl := List.mem_singleton.mp hb
      cases hms
  named := by
    intro b hb ms hms
    rcases List.mem_append.mp hb with hb | hb
    · exact h.named b hb ms hms
    · obtain rfl := List.mem_singleton.mp hb
      cases hms
  queued := by
    intro m hm
    cases hm
  aliased := h.aliased

end Queue

theorem Inv.rebirth (h : Inv s) : Inv { s with births := s.births ++ [⟨false, none⟩] } where
  keys := h.keys
  early := h.early
  fresh := h.fresh
  host := fun id hid => (h.host id hid).imp_right
    (Or.imp_right fun ⟨b, hb, hfirst⟩ => ⟨b, List.mem_append_left _ hb, hfirst⟩)
  reads := by
    intro b hb ms hms id hid
    rcases List.mem_append.mp hb with hb | hb
    · exact h.reads b hb ms hms id hid
    · obtain rfl := List.mem_singleton.mp hb
      cases hms
  named := by
    intro b hb ms hms
    rcases List.mem_append.mp hb with hb | hb
    · exact h.named b hb ms hms
    · obtain rfl := List.mem_singleton.mp hb
      cases hms
  queued := h.queued
  aliased := h.aliased

theorem Inv.read (h : Inv s) {i : ℕ} {first : Bool} (hi : s.births[i]? = some ⟨first, none⟩) :
    Inv { s with
      births := s.births.set i ⟨first, some (getDeviceBirthPayload conn s.db)⟩ } where
  keys := h.keys
  early := h.early
  fresh := h.fresh
  host := by
    intro id hid
    refine (h.host id hid).imp_right (Or.imp_right fun ⟨b, hb, hfirst⟩ => ?_)
    obtain ⟨j, hj⟩ := List.mem_iff_getElem?.mp hb
    by_cases hij : i = j
    · subst hij
      obtain rfl := Option.some.inj (hi.symm.trans hj)
      obtain ⟨hlt, -⟩ := List.getElem?_eq_some_iff.mp hi
      exact ⟨_, List.mem_set hlt _, hfirst⟩
    · refine ⟨b, List.mem_iff_getElem?.mpr ⟨j, ?_⟩, hfirst⟩
      rwa [List.getElem?_set_ne hij]
  reads := by
    intro b hb ms hms id hid
    rcases List.mem_or_eq_of_mem_set hb with hb | rfl
    · exact h.reads b hb ms hms id hid
    · obtain rfl := Option.some.inj hms
      refine .inl fun w hw => ?_
      rw [lastValue_snapshot h.keys hid, hw]
  named := by
    intro b hb ms hms
    rcases List.mem_or_eq_of_mem_set hb with hb | rfl
    · exact h.named b hb ms hms
    · obtain rfl := Option.some.inj hms
      exact dataMetrics_snapshot
  queued := h.queued
  aliased := h.aliased

theorem Inv.announce (h : Inv s) {i : ℕ} {first : Bool} {ms : List Metric}
    (hi : s.births[i]? = some ⟨first, some ms⟩) (hok : Orderly s (.announce i)) :
    Inv { s with
      births := s.births.eraseIdx i
      published := s.published ++ [.deviceBirth ms]
      sparkplugDeviceBirthed := true
      sparkplugPublishQueue := s.sparkplugPublishQueue ++ if first then ms else [] } := by
  have hb : ⟨first, some ms⟩ ∈ s.births := List.mem_of_getElem? hi
  have hqueue : dataMetrics (s.sparkplugPublishQueue ++ if first then ms else []) =
      dataMetrics s.sparkplugPublishQueue := by
    rw [dataMetrics_append]
    split
    · rw [h.named _ hb ms rfl, List.append_nil]
    · exact List.append_nil _
  have hpending : pending { s with
      sparkplugPublishQueue := s.sparkplugPublishQueue ++ if first then ms else [] } =
      pending s := by
    rw [pending, hqueue, pending]
  exact
    { keys := h.keys
      early := nofun
      fresh := fun id v hv => h.fresh id v (hpending ▸ hv)
      host := by
        intro id hid
        rw [announced_birth] at hid
        obtain ⟨v, hv⟩ := Option.isSome_iff_exists.mp (lastValue_isSome.mpr hid)
        have hread := h.reads _ hb ms rfl id hid
        rw [shown_concat, Message.metrics, hv, Option.some_or, ← hv]
        exact hread.imp_right fun hcoming => .inl (hcoming.imp_right (hpending ▸ ·))
      reads := fun b hb ms hms id hid =>
        (h.reads b (List.mem_of_mem_eraseIdx hb) ms hms id hid).imp_right
          (Or.imp_right (hpending ▸ ·))
      named := fun b hb => h.named b (List.mem_of_mem_eraseIdx hb)
      queued := by
        intro m hm
        rw [hqueue] at hm
        rw [announced_birth]
        exact hok _ hi ms rfl m hm
      aliased := aliased_birth h.aliased }

end Steps

open JsonScada.Library.Run (run Allowed)

-- What a host shows of the driver's tags.
section Runs

variable {conn : Connection} {s s' : State} {a : Action}

theorem inv_step (h : Inv s) (hok : Orderly s a) (hstep : step conn s a = some s') : Inv s' := by
  cases a with
  | change op id doc =>
    obtain ⟨db, hwrite, rfl⟩ := Option.map_eq_some_iff.mp hstep
    exact h.change hok hwrite
  | lookup =>
    simp only [step] at hstep
    split at hstep
    · cases hstep
    next hchanges =>
      obtain rfl := Option.some.inj hstep
      exact h.lookup hchanges
  | handle =>
    simp only [step] at hstep
    split at hstep
    · cases hstep
    next hfetched =>
      obtain rfl := Option.some.inj hstep
      cases hbirthed : s.sparkplugDeviceBirthed with
      | true => simpa [hbirthed] using h.handle_birthed hfetched hbirthed hok
      | false => simpa [hbirthed] using h.handle_unborn hfetched hbirthed hok
  | publish =>
    obtain rfl := Option.some.inj hstep
    exact Inv.publish hok h
  | birth =>
    obtain rfl := Option.some.inj hstep
    exact Inv.birth hok h
  | rebirth =>
    obtain rfl := Option.some.inj hstep
    exact h.rebirth
  | read i =>
    simp only [step] at hstep
    split at hstep
    next hi =>
      obtain rfl := Option.some.inj hstep
      exact h.read hi
    · cases hstep
  | announce i =>
    simp only [step] at hstep
    split at hstep
    next hi =>
      obtain rfl := Option.some.inj hstep
      exact h.announce hi hok
    · cases hstep

theorem Inv.converged (h : Inv s) (hquiescent : Quiescent s) : Converged s := by
  intro id hid v hv
  have hpending : pending s = [] := by
    rw [pending, hquiescent.queue, hquiescent.fetched]
    rfl
  rcases h.host id hid with hright | (⟨hchanges, -⟩ | hcoming) | ⟨b, hb, -⟩
  · exact hright v hv
  · rw [hquiescent.changes] at hchanges
    cases hchanges
  · rw [hpending] at hcoming
    cases hcoming
  · rw [hquiescent.births] at hb
    cases hb

-- Every metric has an alias of the birth before it, and a host comes to show the values of the
-- database, when nothing overtakes a birth and no change passes the stream by.
theorem host_converges {db : List Row} (hkeys : (db.map Prod.fst).Nodup) {as : List Action}
    (hok : Allowed (step conn) Orderly { db := db } as)
    (hrun : run (step conn) { db := db } as = some s) :
    Aliased s.published ∧ (Quiescent s → Converged s) := by
  have hinv : Inv s := Run.invariant (fun _ _ _ => inv_step) (inv_start hkeys) hok hrun
  exact ⟨hinv.aliased, hinv.converged⟩

end Runs

section Samples

def sampleConn : Connection where
  protocolConnectionNumber := 7
  commandsEnabled := true

def analog (connectionNumber : ℚ) (value : ℚ) : Document :=
  [("tag", .string "T"), ("type", .string "analog"), ("value", .number (.fin value)),
    ("protocolSourceConnectionNumber", .number (.fin connectionNumber))]

-- A tag of another connection, and one of the driver's own.
def sampleDb : List Row := [(1, analog 2 10), (2, analog 7 20)]

def sampleRun (as : List Action) : State := (run (step sampleConn) { db := sampleDb } as).getD {}

def valueUpdate (id : ℚ) (doc : Document) : List Action :=
  [.change (.update ["value"]) id doc, .lookup, .handle]

def birthActions : List Action := [.birth, .read 0, .announce 0]

-- A change that the birth reads, another that follows it, and a rebirth.
def rebirthRun : List Action :=
  .birth :: .change (.update ["value"]) 1 (analog 2 11) :: .read 0 :: .announce 0 ::
    .lookup :: .handle :: valueUpdate 1 (analog 2 12) ++
    [.publish, .rebirth, .read 0, .announce 0]

theorem host_converges_rebirth :
    Aliased (sampleRun rebirthRun).published ∧
      (Quiescent (sampleRun rebirthRun) → Converged (sampleRun rebirthRun)) := by
  have hkeys : (sampleDb.map Prod.fst).Nodup := by decide
  have hok : Allowed (step sampleConn) Orderly { db := sampleDb } rebirthRun := by decide
  have hrun : run (step sampleConn) { db := sampleDb } rebirthRun =
      some (sampleRun rebirthRun) := by decide
  exact host_converges hkeys hok hrun

-- A change of the driver's own tag is published, although the tag has not been announced.
def ownTagRun : List Action := birthActions ++ valueUpdate 2 (analog 7 21) ++ [.publish]

-- A change between the snapshot and its publishing is dropped.
def duringBirthRun : List Action :=
  .birth :: .read 0 :: valueUpdate 1 (analog 2 11) ++ [.announce 0, .publish]

theorem host_misled :
    ¬Aliased (sampleRun ownTagRun).published ∧
      Quiescent (sampleRun duringBirthRun) ∧ ¬Converged (sampleRun duringBirthRun) := by
  refine ⟨fun h => ?_, ⟨by decide, by decide, by decide, by decide⟩,
    fun h => ?_⟩
  · have hsplit : (sampleRun ownTagRun).published =
        [.deviceBirth (getDeviceBirthPayload sampleConn sampleDb)] ++
          .deviceData (getMetricPayload (2, analog 7 21)).toList :: [] := by decide
    exact absurd (h _ _ _ hsplit) (by decide)
  · have hshown : shown 1 (sampleRun duringBirthRun).published = some (.number (.fin 10)) := by
      decide
    have hnew := h 1 (by decide) (.number (.fin 11)) (by decide)
    rw [hshown] at hnew
    exact absurd hnew (by decide)

end Samples

end JsonScada.Mqtt.Publisher
