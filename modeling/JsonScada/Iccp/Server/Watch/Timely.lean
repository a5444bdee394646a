import JsonScada.Iccp.Server.Commands
import JsonScada.Iccp.Server.Watch
import JsonScada.Library.LastWrite

namespace JsonScada.Iccp.Server

open JsonScada.Library

section Statement

-- No change is pending.
def Quiet (s : State) : Prop :=
  s.flushing.isEmpty ∧ s.pendingChanges.isEmpty ∧ ∀ gen ∈ s.generations, ∀ cs ∈ gen.stream,
    cs.events.isEmpty ∧ cs.batch.isEmpty ∧ cs.buffering.isNone

-- What any client reads of a point is the value of its document.
def Serves (s : State) : Prop :=
  ∀ g server tag ip, s.read g server tag = some ip → ∀ doc ∈ s.realtimeData.tags, doc.tag = tag →
    ip.value = convertToICCPValue doc ip.iccpType

-- The updates that are on their way from the buffer to the models.
def underWay (s : State) : List PendingPointUpdate := s.flushing.map Prod.snd ++ s.pendingChanges

-- What an update, one that is being buffered, and a document make of a point.
def sets (g : ℕ) (tag : String) (u : PendingPointUpdate) : Option ICCPValue :=
  if u.model = g ∧ u.tag = tag then some u.value else none

def brings (tag : String) (u : List ℕ × String × ICCPValue) : Option ICCPValue :=
  if u.2.1 = tag then some u.2.2 else none

def tells (points : String → Option IndicationPoint) (tag : String) (doc : RtData) :
    Option ICCPValue :=
  if doc.tag = tag then (points tag).map fun ip => convertToICCPValue doc ip.iccpType else none

-- The value of a point when the buffer has been flushed.
def flushed (us : List PendingPointUpdate) (g : ℕ) (points : String → Option IndicationPoint)
    (tag : String) : Option ICCPValue :=
  LastWrite.after (sets g tag) ((points tag).map IndicationPoint.value) us

-- What the events that a stream holds make of the value of a point.
def delivered (docs : List RtData) (points : String → Option IndicationPoint) (tag : String)
    (cs : ChangeStream) (value : Option ICCPValue) : Option ICCPValue :=
  LastWrite.after (fun e => (fullDocument docs e).bind (tells points tag))
    (LastWrite.after (tells points tag)
      (LastWrite.after (brings tag) value cs.buffering.toList) cs.batch) cs.events

-- The value of a point when nothing is under way to it any more.
def eventual (docs : List RtData) (us : List PendingPointUpdate) (g : ℕ) (gen : Generation)
    (tag : String) : Option ICCPValue :=
  delivered docs gen.ipByTag tag (gen.stream.getD ⟨[], [], none⟩) (flushed us g gen.ipByTag tag)

-- A condition on the models that clients can reach.
def AllServed (s : State) (p : ℕ → Generation → Prop) : Prop :=
  ∀ l ∈ s.listeners, ∀ gen ∈ s.generations[l.1]?, p l.1 gen

-- A document that a model has a point of is the next event of an open stream, or has the value
-- that the point has in the end anyway.
def Noticed (s : State) (doc : RtData) : Prop :=
  AllServed s fun g gen => ∀ ip ∈ gen.ipByTag doc.tag,
    (findDoc s.realtimeData.tags doc.id).isSome ∧ gen.stream.isSome ∨
      eventual (putDoc s.realtimeData.tags doc) (underWay s) g gen doc.tag =
        some (convertToICCPValue doc ip.iccpType)

-- A server of the topic is there to have the value, or a later event of the tag follows, or the
-- value is the one that the buffer leaves.
def Handled (s : State) (g : ℕ) (gen : Generation) (cs : ChangeStream) (doc : RtData) : Prop :=
  ∀ ip ∈ gen.ipByTag doc.tag,
    (gen.handle doc).isSome ∨
      (∃ d ∈ cs.batch.tail ++ cs.events.filterMap (fullDocument s.realtimeData.tags),
        d.tag = doc.tag) ∨
      flushed (underWay s) g gen.ipByTag doc.tag = some (convertToICCPValue doc ip.iccpType)

-- What is lost with the stream has the values that the buffer leaves.
def Spared (s : State) (g : ℕ) (gen : Generation) (e : ChangeEvent) : Prop :=
  ∀ doc ∈ fullDocument s.realtimeData.tags e, ∀ ip ∈ gen.ipByTag doc.tag,
    flushed (underWay s) g gen.ipByTag doc.tag = some (convertToICCPValue doc ip.iccpType)

-- All updates of a point have one value.
def Agree (us : List PendingPointUpdate) : Prop :=
  ∀ u ∈ us, ∀ u' ∈ us, u.model = u'.model → u.tag = u'.tag → u.value = u'.value

-- What the code does not make up for: a change while there is no stream, an event while there is
-- no server for it, events that are lost with the stream, and a flush of differing values.
def Timely (s : State) : Action → Prop
  | .put doc _ => Noticed s doc
  | .next g => AllServed s fun g' gen => g' = g →
      ∀ cs ∈ gen.stream, ∀ doc ∈ cs.batch.head?, Handled s g gen cs doc
  | .fail g => AllServed s fun g' gen => g' = g →
      ∀ cs ∈ gen.stream, ∀ e ∈ cs.events, Spared s g gen e
  | .drain _ => Agree (underWay s)
  | _ => True

instance (s : State) : Decidable (Quiet s) :=
  inferInstanceAs (Decidable (_ ∧ _ ∧ ∀ gen ∈ s.generations, ∀ cs ∈ gen.stream, _))

instance (s : State) (p : ℕ → Generation → Prop) [∀ g gen, Decidable (p g gen)] :
    Decidable (AllServed s p) :=
  inferInstanceAs (Decidable (∀ l ∈ s.listeners, ∀ gen ∈ s.generations[l.1]?, p l.1 gen))

instance (s : State) (doc : RtData) : Decidable (Noticed s doc) :=
  inferInstanceAs (Decidable (AllServed s _))

instance (s : State) (g : ℕ) (gen : Generation) (cs : ChangeStream) (doc : RtData) :
    Decidable (Handled s g gen cs doc) :=
  inferInstanceAs (Decidable (∀ ip ∈ gen.ipByTag doc.tag, _ ∨ _ ∨ _))

instance (s : State) (g : ℕ) (gen : Generation) (e : ChangeEvent) : Decidable (Spared s g gen e) :=
  inferInstanceAs (Decidable (∀ doc ∈ fullDocument s.realtimeData.tags e,
    ∀ ip ∈ gen.ipByTag doc.tag, _ = _))

instance (us : List PendingPointUpdate) : Decidable (Agree us) :=
  inferInstanceAs (Decidable (∀ u ∈ us, ∀ u' ∈ us, _ → _ → _))

instance : ∀ s a, Decidable (Timely s a)
  | s, .put doc _ => inferInstanceAs (Decidable (Noticed s doc))
  | s, .next g => inferInstanceAs (Decidable (AllServed s fun g' gen => g' = g →
      ∀ cs ∈ gen.stream, ∀ doc ∈ cs.batch.head?, Handled s g gen cs doc))
  | s, .fail g => inferInstanceAs (Decidable (AllServed s fun g' gen => g' = g →
      ∀ cs ∈ gen.stream, ∀ e ∈ cs.events, Spared s g gen e))
  | s, .drain _ => inferInstanceAs (Decidable (Agree (underWay s)))
  | _, .delete _ | _, .connect _ | _, .disconnect | _, .watch _ | _, .receive _ | _, .buffer _
  | _, .updateOnlineValue _ | _, .associate _ | _, .release _ _ => .isTrue trivial

end Statement

section Streams

variable {s : State} {g : ℕ} {gen : Generation} {tag : String} {docs : List RtData}
  {us : List PendingPointUpdate}

theorem eventual_quiet (hus : us = []) (hstream : ∀ cs ∈ gen.stream,
    cs.events.isEmpty ∧ cs.batch.isEmpty ∧ cs.buffering.isNone) :
    eventual docs us g gen tag = (gen.ipByTag tag).map IndicationPoint.value := by
  subst hus
  rw [eventual]
  cases hcs : gen.stream with
  | none => rfl
  | some cs =>
      obtain ⟨hevents, hbatch, hbuffering⟩ := hstream cs hcs
      rw [List.isEmpty_iff] at hevents hbatch
      rw [Option.isNone_iff_eq_none] at hbuffering
      simp [hevents, hbatch, hbuffering, delivered, flushed, LastWrite.after]

theorem tells_eq_some {points : String → Option IndicationPoint} {tag : String} {doc : RtData}
    {v : ICCPValue} (h : tells points tag doc = some v) :
    doc.tag = tag ∧ ∃ ip, points doc.tag = some ip ∧ convertToICCPValue doc ip.iccpType = v := by
  rw [tells] at h
  split_ifs at h with htag
  subst htag
  exact ⟨rfl, Option.map_eq_some_iff.mp h⟩

theorem handle_eq_some {doc : RtData} {b : List ℕ × String × ICCPValue}
    (h : gen.handle doc = some b) :
    b.1 ≠ [] ∧ ∃ ip, gen.ipByTag doc.tag = some ip ∧
      b.2 = (doc.tag, convertToICCPValue doc ip.iccpType) := by
  unfold Generation.handle at h
  split at h
  · next ip server servers hpoint hservers =>
      obtain rfl := Option.some.inj h
      refine ⟨List.cons_ne_nil _ _, ip, ?_, rfl⟩
      unfold Generation.pointFor at hpoint
      split_ifs at hpoint
      exact hpoint
  · cases h

theorem brings_handle {doc : RtData} {b : List ℕ × String × ICCPValue}
    (h : gen.handle doc = some b) (tag : String) : brings tag b = tells gen.ipByTag tag doc := by
  obtain ⟨-, ip, hip, hb⟩ := handle_eq_some h
  rw [brings, hb, tells]
  split_ifs with htag
  · rw [← htag, hip]
    rfl
  · rfl

-- A document that is passed over leaves what the stream brings, where it says nothing new or
-- where a later one follows.
theorem delivered_skip {cs : ChangeStream} {doc : RtData} {docs : List RtData}
    (hbatch : cs.batch = doc :: docs) (hhandle : gen.handle doc = none)
    (hhandled : Handled s g gen cs doc) (tag : String) :
    LastWrite.after (fun e => (fullDocument s.realtimeData.tags e).bind (tells gen.ipByTag tag))
        (LastWrite.after (tells gen.ipByTag tag) (flushed (underWay s) g gen.ipByTag tag) docs)
        cs.events =
      LastWrite.after (fun e => (fullDocument s.realtimeData.tags e).bind (tells gen.ipByTag tag))
        (LastWrite.after (tells gen.ipByTag tag) (flushed (underWay s) g gen.ipByTag tag)
          (doc :: docs)) cs.events := by
  have hcons : LastWrite.after (tells gen.ipByTag tag) (flushed (underWay s) g gen.ipByTag tag)
      (doc :: docs) = LastWrite.after (tells gen.ipByTag tag)
        ((tells gen.ipByTag tag doc).or (flushed (underWay s) g gen.ipByTag tag)) docs := rfl
  cases htells : tells gen.ipByTag tag doc with
  | none => rw [hcons, htells, Option.none_or]
  | some v =>
      obtain ⟨rfl, ip, hip, rfl⟩ := tells_eq_some htells
      rcases hhandled ip hip with hsome | ⟨d, hd, htag⟩ | hflushed
      · rw [hhandle] at hsome
        cases hsome
      · have hne : tells gen.ipByTag doc.tag d ≠ none := by
          rw [tells, if_pos htag, hip]
          exact Option.some_ne_none _
        rw [hbatch, List.tail_cons, List.mem_append, List.mem_filterMap] at hd
        rcases hd with hd | ⟨e, he, hdoc⟩
        · rw [hcons, LastWrite.after_overwritten _ _ ⟨d, hd, hne⟩]
        · apply LastWrite.after_overwritten
          exact ⟨e, he, by rw [hdoc]; exact hne⟩
      · rw [hcons, htells, Option.some_or, ← hflushed]

end Streams

section Buffer

variable {g : ℕ}

theorem sets_eq_some {g : ℕ} {tag : String} {u : PendingPointUpdate} {v : ICCPValue}
    (h : sets g tag u = some v) : u.model = g ∧ u.tag = tag ∧ u.value = v := by
  rw [sets] at h
  split_ifs at h with hkey
  exact ⟨hkey.1, hkey.2, Option.some.inj h⟩

-- The updates that are buffered for a point come after all others that are on their way to it.
theorem after_bufferUpdate {servers : List ℕ} (hservers : servers ≠ []) {tag t : String}
    {value : ICCPValue} {g' : ℕ} (init : Option ICCPValue) (us : List PendingPointUpdate) :
    LastWrite.after (sets g' t) init (bufferUpdate g servers tag value us) =
      if g' = g ∧ t = tag then some value else LastWrite.after (sets g' t) init us := by
  rw [bufferUpdate, LastWrite.after_append]
  by_cases hkey : g' = g ∧ t = tag
  · obtain ⟨rfl, rfl⟩ := hkey
    rw [if_pos ⟨rfl, rfl⟩]
    apply LastWrite.after_eq_of_all
    · intro u hu v hv
      obtain ⟨server, -, rfl⟩ := List.mem_map.mp hu
      exact (sets_eq_some hv).2.2.symm
    · obtain ⟨server, rest, rfl⟩ := List.exists_cons_of_ne_nil hservers
      refine ⟨⟨g', server, t, value⟩, List.mem_map.mpr ⟨server, List.mem_cons_self, rfl⟩, ?_⟩
      rw [sets, if_pos ⟨rfl, rfl⟩]
      exact Option.some_ne_none _
  · rw [if_neg hkey, LastWrite.after_of_none, LastWrite.after_filter]
    · intro u _ hu
      rw [Bool.not_eq_false', Bool.and_eq_true, Bool.and_eq_true] at hu
      apply if_neg
      rintro ⟨rfl, rfl⟩
      exact hkey ⟨of_decide_eq_true hu.1.1, of_decide_eq_true hu.1.2⟩
    · intro u hu
      obtain ⟨server, -, rfl⟩ := List.mem_map.mp hu
      exact if_neg fun h => hkey ⟨h.1.symm, h.2.symm⟩

-- What is being buffered counts as buffered.
theorem delivered_buffering {docs : List RtData} {points : String → Option IndicationPoint}
    {cs : ChangeStream} {servers : List ℕ} {tag : String} {value : ICCPValue}
    (hbuffering : cs.buffering = some (servers, tag, value)) (t : String) (init : Option ICCPValue) :
    delivered docs points t cs init =
      delivered docs points t ⟨cs.events, cs.batch, none⟩ (if t = tag then some value else init) := by
  rw [delivered, delivered, hbuffering]
  show LastWrite.after _ (LastWrite.after _ ((brings t _).or init) _) _ = _
  by_cases ht : t = tag
  · subst ht
    rw [brings, if_pos rfl, if_pos rfl, Option.some_or]
    rfl
  · rw [brings, if_neg (Ne.symm ht), if_neg ht, Option.none_or]
    rfl

theorem updateValue_ipByTag (gen : Generation) (tag : String) (value : ICCPValue) (t : String) :
    (gen.updateValue tag value).ipByTag t =
      if t = tag then (gen.ipByTag t).map fun ip => { ip with value := value } else gen.ipByTag t :=
  rfl

theorem tells_updateValue (gen : Generation) (tag : String) (value : ICCPValue) (t : String) :
    tells (gen.updateValue tag value).ipByTag t = tells gen.ipByTag t := by
  funext doc
  rw [tells, tells, updateValue_ipByTag]
  by_cases ht : t = tag
  · rw [if_pos ht, Option.map_map]
    rfl
  · rw [if_neg ht]

theorem flushed_append (us us' : List PendingPointUpdate) (g : ℕ)
    (points : String → Option IndicationPoint) (t : String) :
    flushed (us ++ us') g points t = LastWrite.after (sets g t) (flushed us g points t) us' :=
  LastWrite.after_append ..

theorem flushed_skip {u : PendingPointUpdate} {t : String} {g : ℕ} (hnone : sets g t u = none)
    (pre post : List PendingPointUpdate) (points : String → Option IndicationPoint) :
    flushed (pre ++ post) g points t = flushed (pre ++ u :: post) g points t := by
  rw [flushed, flushed, LastWrite.after_append _ pre post, LastWrite.after_append _ pre (u :: post)]
  show LastWrite.after _ _ post = LastWrite.after _ ((sets g t u).or _) post
  rw [hnone, Option.none_or]

-- An update that is put into its model while those that are left agree with it.
theorem flushed_updateValue {gen : Generation} {u : PendingPointUpdate}
    {pre post : List PendingPointUpdate} (hagree : Agree (pre ++ u :: post)) {t : String}
    (hpoint : (gen.ipByTag t).isSome) :
    flushed (pre ++ post) u.model (gen.updateValue u.tag u.value).ipByTag t =
      flushed (pre ++ u :: post) u.model gen.ipByTag t := by
  obtain ⟨ip, hip⟩ := Option.isSome_iff_exists.mp hpoint
  have hu : u ∈ pre ++ u :: post := List.mem_append_right _ List.mem_cons_self
  rw [flushed, flushed, updateValue_ipByTag, hip]
  by_cases ht : t = u.tag
  · subst ht
    have hall (u') (hu' : u' ∈ pre ++ u :: post) (v : ICCPValue)
        (hv : sets u.model u.tag u' = some v) : v = u.value := by
      obtain ⟨hmodel, htag, rfl⟩ := sets_eq_some hv
      exact hagree u' hu' u hu hmodel htag
    have hwrites : sets u.model u.tag u ≠ none := by
      rw [sets, if_pos ⟨rfl, rfl⟩]
      exact Option.some_ne_none _
    rw [LastWrite.after_eq_of_all hall ⟨u, hu, hwrites⟩, if_pos rfl, Option.map_some,
      Option.map_some]
    apply LastWrite.after_self
    intro u' hu' v hv
    have hmem : u' ∈ pre ++ u :: post :=
      List.mem_append.mpr ((List.mem_append.mp hu').imp_right (List.mem_cons_of_mem u))
    rw [hall u' hmem v hv]
  · have hskip := flushed_skip (if_neg fun hkey => ht hkey.2.symm : sets u.model t u = none) pre post
      gen.ipByTag
    rw [flushed, flushed, hip] at hskip
    rw [if_neg ht]
    exact hskip

end Buffer

section Changes

variable {docs docs' : List RtData} {doc d : RtData} {id : Double} {gen : Generation}
  {us : List PendingPointUpdate} {g : ℕ} {tag : String}

theorem findDoc_eq_some (h : findDoc docs id = some d) : d ∈ docs ∧ d.id = id :=
  ⟨List.mem_of_find?_eq_some h, by simpa using List.find?_some h⟩

theorem findDoc_deleteDoc (docs : List RtData) (id id' : Double) :
    findDoc (deleteDoc docs id) id' = if id' = id then none else findDoc docs id' := by
  rw [findDoc, deleteDoc, List.find?_filter]
  split_ifs with hid
  · subst hid
    exact List.find?_eq_none.mpr fun d _ => by simp
  · rw [findDoc]
    congr 1
    funext d
    by_cases hd : d.id = id'
    · simp [hd, hid]
    · simp [hd]

theorem findDoc_putDoc (docs : List RtData) (doc : RtData) (id : Double) :
    findDoc (putDoc docs doc) id = if id = doc.id then some doc else findDoc docs id := by
  have happend : findDoc (putDoc docs doc) id =
      (findDoc (deleteDoc docs doc.id) id).or (findDoc [doc] id) := List.find?_append
  rw [happend, findDoc_deleteDoc]
  split_ifs with hid
  · simp [findDoc, hid]
  · simp [findDoc, Ne.symm hid]

-- The events of the stream tell the same while the documents of the tag are found as before.
theorem eventual_docs
    (h : ∀ id d, d.tag = tag → (findDoc docs' id = some d ↔ findDoc docs id = some d)) :
    eventual docs' us g gen tag = eventual docs us g gen tag := by
  rw [eventual, eventual, delivered, delivered]
  apply LastWrite.after_congr
  intro e _
  cases e with
  | replace doc => rfl
  | update id =>
      have htells (d : RtData) (hd : d.tag ≠ tag) : tells gen.ipByTag tag d = none := if_neg hd
      show (findDoc docs' id).bind _ = (findDoc docs id).bind _
      cases hfind : findDoc docs id with
      | some d =>
          by_cases hd : d.tag = tag
          · rw [(h id d hd).mpr hfind]
          · rw [Option.bind_some, htells d hd, Option.bind_eq_none_iff]
            intro d' hd'
            apply htells
            intro htag
            rw [(h id d' htag).mp hd'] at hfind
            exact hd (Option.some.inj hfind ▸ htag)
      | none =>
          rw [Option.bind_none, Option.bind_eq_none_iff]
          intro d' hd'
          apply htells
          intro htag
          rw [(h id d' htag).mp hd'] at hfind
          cases hfind

-- What the changed document does to the others.
theorem findDoc_other (c : Collection) (hd : d ∈ c.tags) (hid : d.id ≠ id) (htag : doc.tag = d.tag)
    (hfind : findDoc c.tags id = some doc) : False := by
  obtain ⟨hmem, hdoc⟩ := findDoc_eq_some hfind
  have hsame : doc = d := List.inj_on_of_nodup_map c.nodup hmem hd htag
  exact hid (hsame ▸ hdoc)

-- What a stream brings that has one more event.
theorem eventual_notify (docs : List RtData) (us : List PendingPointUpdate) (g : ℕ)
    (gen : Generation) (e : ChangeEvent) (tag : String) :
    eventual docs us g (gen.notify e) tag =
      if gen.stream.isSome then
        ((fullDocument docs e).bind (tells gen.ipByTag tag)).or (eventual docs us g gen tag)
      else eventual docs us g gen tag := by
  cases hcs : gen.stream with
  | none =>
      rw [eventual, eventual, Generation.notify, hcs]
      rfl
  | some cs =>
      rw [eventual, eventual, Generation.notify, hcs]
      exact LastWrite.after_concat ..

theorem ite_notify (found : Bool) (gen : Generation) (e : ChangeEvent) :
    (if found then gen.notify e else gen).ipByTag = gen.ipByTag := by
  cases found <;> rfl

theorem eventual_ite_notify (docs : List RtData) (us : List PendingPointUpdate) (g : ℕ)
    (gen : Generation) (e : ChangeEvent) (found : Bool) (tag : String) :
    eventual docs us g (if found then gen.notify e else gen) tag =
      if found ∧ gen.stream.isSome then
        ((fullDocument docs e).bind (tells gen.ipByTag tag)).or (eventual docs us g gen tag)
      else eventual docs us g gen tag := by
  cases found with
  | false => rfl
  | true => simpa using eventual_notify docs us g gen e tag

end Changes

section Models

variable {g : ℕ} {pl : Platform}

theorem mem_listen {listeners : List (ℕ × ServerConnection)} {conns : List ServerConnection}
    {l : ℕ × ServerConnection} (h : l ∈ conns.foldl (listen g) listeners) :
    l ∈ listeners ∨ l.1 = g := by
  induction conns generalizing listeners with
  | nil => exact .inl h
  | cons conn conns ih =>
      rcases ih h with hmem | hg
      · rw [listen] at hmem
        split_ifs at hmem with hbound
        · exact .inl hmem
        · rcases List.mem_append.mp hmem with hmem | hmem
          · exact .inl hmem
          · exact .inr (by rw [List.mem_singleton.mp hmem])
      · exact .inr hg

theorem subset_listen (listeners : List (ℕ × ServerConnection)) (conns : List ServerConnection) :
    listeners ⊆ conns.foldl (listen g) listeners := by
  induction conns generalizing listeners with
  | nil => exact List.Subset.refl _
  | cons conn conns ih =>
      refine List.Subset.trans ?_ (ih _)
      rw [listen]
      split_ifs
      · exact List.Subset.refl _
      · exact List.subset_append_left _ _

-- A model that is built has the values of the documents.
theorem build_value {connections : List Connection} {c : Collection} {doc : RtData}
    {ip : IndicationPoint} (hdoc : doc ∈ c.tags)
    (hip : (build pl connections c).ipByTag doc.tag = some ip) :
    ip.value = convertToICCPValue doc ip.iccpType := by
  have hfilled : filled newPoint (points pl connections c) doc.tag = some ip := hip
  rw [filled_eq] at hfilled
  obtain ⟨e, he, rfl⟩ := Option.map_eq_some_iff.mp hfilled
  have hmem := List.mem_of_getLast? he
  rw [ofKey, List.mem_filter, List.mem_filterMap] at hmem
  obtain ⟨⟨p, hp, hpoint⟩, htag⟩ := hmem
  have hkey := of_decide_eq_true htag
  obtain ⟨htags, hof⟩ := mem_points.mp hp
  unfold newPoint at hpoint
  split at hpoint
  · cases hpoint
  · obtain rfl := Option.some.inj hpoint
    have hsame : p.tag = doc :=
      List.inj_on_of_nodup_map c.nodup (List.mem_of_mem_filter htags) hdoc hkey
    rw [hsame]

end Models

end JsonScada.Iccp.Server
