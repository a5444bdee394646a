import JsonScada.WebServer.RangeCheck
import JsonScada.WebServer.Write.Groups

namespace JsonScada.WebServer.RangeCheck

open JsonScada.Library
open JsonScada.Processor

section Source

variable {d sdu other : Document}

@[simp] theorem source_setField :
    source (setField d "sourceDataUpdate" (.document sdu)) = some sdu := by
  simp [source, Document.doc, lookup_setField]

theorem lookup_withoutCheck {k : String} (hk : k ≠ "rangeCheck") :
    (withoutCheck sdu).lookup k = sdu.lookup k := by
  induction sdu with
  | nil => rfl
  | cons f fields ih =>
      obtain ⟨l, v⟩ := f
      unfold withoutCheck at ih ⊢
      by_cases hl : l = "rangeCheck"
      · have hne : (k == l) = false := by simpa [hl] using hk
        simp only [List.filter_cons, hl, ne_eq, not_true_eq_false, decide_false, Bool.false_eq_true,
          if_false, ih, List.lookup_cons]
        rw [hl] at hne
        rw [hne]
      · simp only [List.filter_cons, ne_eq, hl, not_false_eq_true, decide_true, if_true,
          List.lookup_cons, ih]

theorem withoutCheck_setField (v : Value) :
    withoutCheck (setField sdu "rangeCheck" v) = withoutCheck sdu := by
  induction sdu with
  | nil => simp [withoutCheck, setField]
  | cons f fields ih =>
      obtain ⟨l, w⟩ := f
      unfold withoutCheck at ih ⊢
      by_cases hl : l = "rangeCheck"
      · simp [setField, hl]
      · simpa [setField, hl] using ih

-- What is written back says the same as what was read.
theorem withoutCheck_recheck {now : ℤ} {prevData changes : Document}
    (h : (recheck now prevData changes).doc "sourceDataUpdate" = some sdu) :
    withoutCheck sdu = withoutCheck ((source prevData).getD []) := by
  unfold recheck at h
  split at h
  · obtain rfl : setField ((source prevData).getD []) "rangeCheck" (.number (.fin now)) = sdu := by
      unfold source
      unfold rangeChecked at h
      simp only [Document.doc, List.lookup_cons_self, Option.some.injEq] at h ⊢
      rw [← h]
      cases prevData.lookup "sourceDataUpdate" with
      | none => rfl
      | some v => cases v <;> rfl
    exact withoutCheck_setField _
  · simp [Document.doc] at h

-- What does not read the mark does not tell the two apart.
theorem lookup_of_same (h : withoutCheck sdu = withoutCheck other) {k : String}
    (hk : k ≠ "rangeCheck") : sdu.lookup k = other.lookup k := by
  rw [← lookup_withoutCheck hk, h, lookup_withoutCheck hk]

theorem current_of_same (h : withoutCheck sdu = withoutCheck other) :
    current sdu = current other := by
  rw [current, Document.truthy, lookup_of_same h (by decide), current, Document.truthy]

end Source

section Value

variable (pl : Platform) {c d sdu other : Document}

-- The fields that the value of an analog point is scaled by.
def scaleFields : List String := ["type", "kconv1", "kconv2", "zeroDeadband"]

-- The points scale alike.
def Scaled (c d : Document) : Prop := ∀ k ∈ scaleFields, d.lookup k = c.lookup k

-- The value of an update of an analog point.
def valueOf (pl : Platform) (d sdu : Document) : Double :=
  scaled pl d ((sdu.num "valueAtSource").getD (.fin 0))

theorem value_convert_analog (now : ℤ) (h : d.str "type" = "analog") :
    (convert pl now d sdu).value = valueOf pl d sdu := by
  simp only [convert, h, String.reduceEq, if_false, if_true, convertAnalog, valueOf]

theorem valueOf_of_same (h : withoutCheck sdu = withoutCheck other) :
    valueOf pl d sdu = valueOf pl d other := by
  rw [valueOf, Document.num, lookup_of_same h (by decide), valueOf, Document.num]

theorem Scaled.analog (h : Scaled c d) (hc : c.str "type" = "analog") : d.str "type" = "analog" := by
  rw [Document.str, h "type" (by decide)]
  exact hc

theorem Scaled.valueOf (h : Scaled c d) : valueOf pl d sdu = valueOf pl c sdu := by
  have hnum (k : String) (hk : k ∈ scaleFields) (x : Double) : d.numOr k x = c.numOr k x := by
    rw [Document.numOr, Document.num, h k hk, Document.numOr, Document.num]
  have hhas : d.has "zeroDeadband" = c.has "zeroDeadband" := by
    rw [Document.has, h _ (by decide), Document.has]
  unfold RangeCheck.valueOf scaled
  rw [hnum "kconv1" (by decide), hnum "kconv2" (by decide), hnum "zeroDeadband" (by decide), hhas]

theorem Scaled.convert (h : Scaled c d) (hc : c.str "type" = "analog") (now : ℤ) :
    (convert pl now d sdu).value = RangeCheck.valueOf pl c sdu := by
  rw [value_convert_analog pl now (h.analog hc), h.valueOf]

theorem Scaled.applySet (h : Scaled c d) {fields : Document} {names : List String}
    (hfields : ∀ f ∈ fields, f.1 ∈ names) (hnames : ∀ k ∈ scaleFields, k ∉ names) :
    Scaled c (applySet d fields) := by
  intro k hk
  rw [lookup_applySet_of_fields hfields (hnames k hk), h k hk]

theorem Scaled.setField (h : Scaled c d) (v : Value) :
    Scaled c (setField d "sourceDataUpdate" v) := by
  intro k hk
  rw [lookup_setField, if_neg (by rintro rfl; revert hk; decide), h k hk]

end Value

section Edits

-- The fields of a property write that sets no value.
def editFields : List String :=
  ["alarmDisabled", "annotation", "loLimit", "hiLimit", "hysteresis", "notes"]

theorem edited_fields (env : Driver) {rights : UserRights} {prevData props : Document}
    (h : (rights.substituteValues && props.has "substituted" && props.has "newValue") = false) :
    ∀ f ∈ edited env rights prevData props, f.1 ∈ editFields := by
  intro f hf
  obtain ⟨e, he, hmade⟩ := List.mem_flatMap.mp hf
  unfold Edit.made at hmade
  split at hmade
  · next hchanged =>
    rw [List.mem_singleton.mp hmade]
    simp only [editsOf, List.mem_cons, List.not_mem_nil, or_false] at he
    rcases he with rfl | rfl | rfl | rfl | rfl | rfl | rfl
    · simp [editFields]
    · simp [editFields]
    · simp [editFields]
    · simp [editFields]
    · simp [editFields]
    · simp [editFields]
    · simp only [h, Bool.false_and, Bool.false_eq_true] at hchanged
  · cases hmade

end Edits

section Invariant

variable (pl : Platform)

-- The values on their way to the point, in the order in which they are stored.
def coming (c : Document) (s : State) : List (Option Double) :=
  (s.queued.map fun fields => Document.num fields.reverse "value") ++
    (s.lookedUp.filter fun x => writes pl x.1 x.2).map fun x => some (valueOf pl c x.2)

def lastValue (c : Document) (s : State) : Option Double :=
  (coming pl c s).getLastD (s.doc.num "value")

-- The point comes to show an update.
def Coming (c : Document) (s : State) (u : Document) : Prop :=
  match (s.events.filter current).getLast? with
  | some e => withoutCheck e = withoutCheck u
  | none => lastValue pl c s = some (valueOf pl c u)

-- What holds in every state, for the last update of the drivers and the last current one.
structure Inv (c : Document) (last cur : Option Document) (s : State) : Prop where
  value : s.doc.has "value" = true
  scaled : Scaled c s.doc
  web : ∀ w ∈ s.web, ∀ f ∈ w.changes, f.1 ∈ editFields
  lookedUp : ∀ x ∈ s.lookedUp, Scaled c x.1
  queued : ∀ fields ∈ s.queued, ∃ now fd sdu, Scaled c fd ∧
    fields = ownSet pl now fd sdu (convert pl now fd sdu)
  latest : ∀ u, last = some u →
    ∃ held, source s.doc = some held ∧ withoutCheck held = withoutCheck u
  held : ∀ u, cur = some u →
    ∃ held, source s.doc = some held ∧ (current held = true → withoutCheck held = withoutCheck u)
  comes_held : ∀ held, source s.doc = some held → current held = true → Coming pl c s held
  comes : ∀ u, cur = some u → Coming pl c s u

variable {pl} {c : Document} {s : State} {last cur : Option Document} {sdu : Document}

theorem Coming.of_same {u v : Document} (h : withoutCheck u = withoutCheck v)
    (hcoming : Coming pl c s u) : Coming pl c s v := by
  unfold Coming at hcoming ⊢
  split
  · next e he =>
    rw [he] at hcoming
    exact hcoming.trans h
  · next hnone =>
    rw [hnone] at hcoming
    rw [← valueOf_of_same pl h]
    exact hcoming

-- What a point comes to show depends on what is under way and on the value alone.
theorem Coming.congr {t : State} {u : Document} (h : Coming pl c s u) (hevents : t.events = s.events)
    (hlast : lastValue pl c t = lastValue pl c s) : Coming pl c t u := by
  unfold Coming at h ⊢
  rw [hevents, hlast]
  exact h

theorem coming_concat {e u : Document} {t : State} (hevents : t.events = s.events ++ [e])
    (hlast : lastValue pl c t = lastValue pl c s)
    (h : if current e = true then withoutCheck e = withoutCheck u else Coming pl c s u) :
    Coming pl c t u := by
  unfold Coming at h ⊢
  rw [hevents, List.filter_append]
  by_cases he : current e = true
  · rw [if_pos he] at h
    simp only [List.filter_singleton, he, cond_true, List.getLast?_append, List.getLast?_singleton,
      Option.some_or]
    exact h
  · rw [if_neg he] at h
    simp only [List.filter_singleton, he, cond_false, List.append_nil, hlast]
    exact h

theorem lastValue_store : lastValue pl c (s.store sdu) = lastValue pl c s := by
  unfold State.store
  split
  · rfl
  · simp only [lastValue, coming, num_setField _ _ _ (show "value" ≠ "sourceDataUpdate" by decide)]

-- A sourceDataUpdate is written: a new one, or one that says the same as what is held.
theorem Inv.store (h : Inv pl c last cur s) {last' cur' : Option Document}
    (hlast : ∀ u, last' = some u → withoutCheck sdu = withoutCheck u)
    (hcur : ∀ u, cur' = some u →
      if current sdu = true then withoutCheck sdu = withoutCheck u else Coming pl c s u) :
    Inv pl c last' cur' (s.store sdu) := by
  have hvalue : lastValue pl c (s.store sdu) = lastValue pl c s := lastValue_store
  have hheld (u : Document) (hu : cur' = some u) (hsdu : current sdu = true) :
      withoutCheck sdu = withoutCheck u := by
    have := hcur u hu
    rwa [if_pos hsdu] at this
  unfold State.store at hvalue ⊢
  split at hvalue
  · next hsource =>
    rw [if_pos hsource]
    refine ⟨h.value, h.scaled, h.web, h.lookedUp, h.queued, ?_, ?_, h.comes_held, ?_⟩
    · intro u hu
      exact ⟨sdu, hsource, hlast u hu⟩
    · intro u hu
      exact ⟨sdu, hsource, hheld u hu⟩
    · intro u hu
      by_cases hsdu : current sdu = true
      · exact (h.comes_held sdu hsource hsdu).of_same (hheld u hu hsdu)
      · have := hcur u hu
        rwa [if_neg hsdu] at this
  · next hsource =>
    rw [if_neg hsource]
    refine ⟨?_, h.scaled.setField _, h.web, h.lookedUp, h.queued, ?_, ?_, ?_, ?_⟩
    · rw [has_setField _ _ _ (by decide)]
      exact h.value
    · intro u hu
      exact ⟨sdu, source_setField, hlast u hu⟩
    · intro u hu
      exact ⟨sdu, source_setField, hheld u hu⟩
    · intro held hsame hcurrent
      rw [source_setField] at hsame
      obtain rfl := Option.some.inj hsame
      exact coming_concat rfl hvalue (by rw [if_pos hcurrent])
    · intro u hu
      exact coming_concat rfl hvalue (hcur u hu)

theorem Inv.driver (h : Inv pl c last cur s) :
    Inv pl c (some sdu) (if current sdu then some sdu else cur) (s.store sdu) := by
  apply h.store
  · intro u hu
    rw [Option.some.inj hu]
  · intro u hu
    by_cases hsdu : current sdu = true
    · rw [if_pos hsdu] at hu ⊢
      rw [Option.some.inj hu]
    · rw [if_neg hsdu] at hu ⊢
      exact h.comes u hu

-- What was read is written back while it is still held.
theorem Inv.recheck (h : Inv pl c last cur s) {copy : Option Document}
    (hheld : copy.map withoutCheck = (source s.doc).map withoutCheck)
    (hsdu : withoutCheck sdu = withoutCheck (copy.getD [])) :
    Inv pl c last cur (s.store sdu) := by
  have hsame (held : Document) (hsource : source s.doc = some held) :
      withoutCheck sdu = withoutCheck held := by
    rw [hsource, Option.map_some, Option.map_eq_some_iff] at hheld
    obtain ⟨read, rfl, hread⟩ := hheld
    rw [hsdu]
    exact hread
  apply h.store
  · intro u hu
    obtain ⟨held, hsource, hlatest⟩ := h.latest u hu
    exact (hsame held hsource).trans hlatest
  · intro u hu
    split
    · next hcurrent =>
      obtain ⟨held, hsource, hlatest⟩ := h.held u hu
      have hsdu := hsame held hsource
      exact hsdu.trans (hlatest (current_of_same hsdu ▸ hcurrent))
    · exact h.comes u hu

-- A property write that sets no value leaves what the others look at.
theorem Inv.update (h : Inv pl c last cur s) {changes : Document} {web : List PropertyWrite}
    (hchanges : ∀ f ∈ changes, f.1 ∈ editFields) (hweb : ∀ w ∈ web, ∀ f ∈ w.changes, f.1 ∈ editFields) :
    Inv pl c last cur { s with doc := applySet s.doc changes, web := web } := by
  have hlookup {k : String} (hk : k ∉ editFields) :
      (applySet s.doc changes).lookup k = s.doc.lookup k :=
    lookup_applySet_of_fields hchanges hk
  have hsource : source (applySet s.doc changes) = source s.doc := by
    rw [source, Document.doc, hlookup (by decide), source, Document.doc]
  have hvalue : lastValue pl c { s with doc := applySet s.doc changes, web := web } =
      lastValue pl c s := by
    simp only [lastValue, coming, Document.num, hlookup (show "value" ∉ editFields by decide)]
  refine ⟨?_, h.scaled.applySet hchanges (by decide), hweb, h.lookedUp, h.queued, ?_, ?_, ?_, ?_⟩
  · rw [Document.has, hlookup (by decide)]
    exact h.value
  · rw [hsource]
    exact h.latest
  · rw [hsource]
    exact h.held
  · intro held hheld hcurrent
    rw [hsource] at hheld
    exact (h.comes_held held hheld hcurrent).congr rfl hvalue
  · intro u hu
    exact (h.comes u hu).congr rfl hvalue

-- The update that is looked up is stored, or its value is there already.
theorem lastValue_lookup (hc : c.str "type" = "analog") (h : Inv pl c last cur s)
    (hcurrent : current sdu = true)
    (hquiet : writes pl s.doc sdu = false → s.quiet pl = true) {events : List Document} :
    lastValue pl c { s with events := events, lookedUp := s.lookedUp ++ [(s.doc, sdu)] } =
      some (valueOf pl c sdu) := by
  by_cases hwrites : writes pl s.doc sdu = true
  · simp [lastValue, coming, List.filter_append, hwrites, List.getLastD_eq_getLast?]
  · rw [Bool.not_eq_true] at hwrites
    have hq := hquiet hwrites
    simp only [State.quiet, Bool.and_eq_true, List.isEmpty_iff, List.all_eq_true,
      Bool.not_eq_true'] at hq
    have hnone : (s.lookedUp ++ [(s.doc, sdu)]).filter (fun x => writes pl x.1 x.2) = [] := by
      rw [List.filter_eq_nil_iff]
      intro x hx
      rcases List.mem_append.mp hx with hx | hx
      · simp [hq.2 x hx]
      · simp [List.mem_singleton.mp hx, hwrites]
    have hstored := flushed_value_analog pl 0 s.doc sdu (h.scaled.analog hc)
      (by simpa [current] using hcurrent)
    rw [flushed, if_neg (by simp [hwrites]), h.scaled.convert pl hc] at hstored
    simp only [lastValue, coming, hq.1, hnone, List.map_nil, List.append_nil, List.getLastD_nil]
    exact hstored

-- An update for the historian alone is not stored.
theorem writes_of_not_current {d : Document} (h : current sdu = false) :
    writes pl d sdu = false := by
  have hhistorical : sdu.truthy "isHistorical" = true := by simpa [current] using h
  simp [writes, updates, hhistorical]

theorem Coming.lookup (hc : c.str "type" = "analog") (h : Inv pl c last cur s) {events : List Document}
    (hevents : s.events = sdu :: events) (hallowed : Allowed pl s .lookup) {u : Document}
    (hcoming : Coming pl c s u) :
    Coming pl c { s with events := events, lookedUp := s.lookedUp ++ [(s.doc, sdu)] } u := by
  have hquiet := hallowed sdu (by rw [hevents]; rfl)
  unfold Coming at hcoming ⊢
  rw [hevents] at hcoming
  by_cases hsdu : current sdu = true
  · simp only [List.filter_cons, hsdu, if_true, List.getLast?_cons] at hcoming
    cases hrest : (events.filter current).getLast? with
    | some e =>
        rw [hrest, Option.getD_some] at hcoming
        exact hcoming
    | none =>
        rw [hrest, Option.getD_none] at hcoming
        simp only [lastValue_lookup hc h hsdu (hquiet hsdu), valueOf_of_same pl hcoming]
  · rw [Bool.not_eq_true] at hsdu
    have hlast : lastValue pl c { s with events := events, lookedUp := s.lookedUp ++ [(s.doc, sdu)] } =
        lastValue pl c s := by
      simp [lastValue, coming, List.filter_append, writes_of_not_current hsdu]
    simp only [List.filter_cons, hsdu, Bool.false_eq_true, if_false] at hcoming
    rw [hlast]
    exact hcoming

theorem Inv.lookup (hc : c.str "type" = "analog") (h : Inv pl c last cur s) {events : List Document}
    (hevents : s.events = sdu :: events) (hallowed : Allowed pl s .lookup) :
    Inv pl c last cur { s with events := events, lookedUp := s.lookedUp ++ [(s.doc, sdu)] } := by
  refine ⟨h.value, h.scaled, h.web, ?_, h.queued, h.latest, h.held, ?_, ?_⟩
  · intro x hx
    rcases List.mem_append.mp hx with hx | hx
    · exact h.lookedUp x hx
    · rw [List.mem_singleton.mp hx]
      exact h.scaled
  · intro held hheld hcurrent
    exact (h.comes_held held hheld hcurrent).lookup hc h hevents hallowed
  · intro u hu
    exact (h.comes u hu).lookup hc h hevents hallowed

-- The handler queues the value that was coming.
theorem Inv.handle (hc : c.str "type" = "analog") (h : Inv pl c last cur s) (now : ℤ) {fd : Document}
    {lookedUp : List (Document × Document)} (hlookedUp : s.lookedUp = (fd, sdu) :: lookedUp) :
    Inv pl c last cur { s with
      lookedUp := lookedUp
      queued := s.queued ++
        if writes pl fd sdu then [ownSet pl now fd sdu (convert pl now fd sdu)] else [] } := by
  have hfd : Scaled c fd := h.lookedUp (fd, sdu) (by rw [hlookedUp]; exact List.mem_cons_self)
  have hvalue : lastValue pl c { s with
      lookedUp := lookedUp
      queued := s.queued ++
        if writes pl fd sdu then [ownSet pl now fd sdu (convert pl now fd sdu)] else [] } =
      lastValue pl c s := by
    unfold lastValue coming
    rw [hlookedUp]
    by_cases hwrites : writes pl fd sdu = true
    · simp [hwrites, Document.num, lookup_ownSet_value, hfd.convert pl hc]
    · simp [hwrites]
  refine ⟨h.value, h.scaled, h.web, ?_, ?_, h.latest, h.held, ?_, ?_⟩
  · intro x hx
    exact h.lookedUp x (by rw [hlookedUp]; exact List.mem_cons_of_mem _ hx)
  · intro fields hfields
    rcases List.mem_append.mp hfields with hfields | hfields
    · exact h.queued fields hfields
    · split at hfields
      · exact ⟨now, fd, sdu, hfd, List.mem_singleton.mp hfields⟩
      · cases hfields
  · intro held hheld hcurrent
    exact (h.comes_held held hheld hcurrent).congr rfl hvalue
  · intro u hu
    exact (h.comes u hu).congr rfl hvalue

theorem Inv.flush (h : Inv pl c last cur s) {fields : Document} {queued : List Document}
    (hqueued : s.queued = fields :: queued) :
    Inv pl c last cur { s with doc := applySet s.doc fields, queued := queued } := by
  obtain ⟨now, fd, sdu, -, rfl⟩ := h.queued fields (by rw [hqueued]; exact List.mem_cons_self)
  have hfields := ownSet_fields pl now fd sdu (convert pl now fd sdu)
  have hsource : source (applySet s.doc (ownSet pl now fd sdu (convert pl now fd sdu))) =
      source s.doc := by
    rw [source, Document.doc, lookup_applySet_of_fields hfields (by decide), source, Document.doc]
  have hvalue : lastValue pl c { s with
      doc := applySet s.doc (ownSet pl now fd sdu (convert pl now fd sdu)), queued := queued } =
      lastValue pl c s := by
    unfold lastValue coming
    rw [hqueued, List.map_cons, List.cons_append, List.getLastD_cons]
    simp only [Document.num, lookup_applySet, lookup_ownSet_value, Option.some_or]
  refine ⟨?_, h.scaled.applySet hfields (by decide), h.web, h.lookedUp, ?_, ?_, ?_, ?_, ?_⟩
  · simp [Document.has, lookup_applySet, lookup_ownSet_value]
  · intro fields hfields
    exact h.queued fields (by rw [hqueued]; exact List.mem_cons_of_mem _ hfields)
  · rw [hsource]
    exact h.latest
  · rw [hsource]
    exact h.held
  · intro held hheld hcurrent
    rw [hsource] at hheld
    exact (h.comes_held held hheld hcurrent).congr rfl hvalue
  · intro u hu
    exact (h.comes u hu).congr rfl hvalue

end Invariant


section Run

variable {env : Driver} {pl : Platform} {c : Document} {s t : State} {last cur : Option Document}

theorem latest_cons (p : Document → Bool) (u : Option Document) (l : Label) (ls : List Label) :
    latest p u (l :: ls) = latest p (latest p u [l]) ls := by
  cases l <;> rfl

theorem inv_step (hc : c.str "type" = "analog") {l : Label} (h : Inv pl c last cur s)
    (hallowed : Allowed pl s l) (hstep : step env pl s l = some t) :
    Inv pl c (latest (fun _ => true) last [l]) (latest current cur [l]) t := by
  cases l with
  | driver sdu =>
      obtain rfl := Option.some.inj hstep
      exact h.driver
  | findOne rights props =>
      obtain rfl := Option.some.inj hstep
      refine ⟨h.value, h.scaled, ?_, h.lookedUp, h.queued, h.latest, h.held, h.comes_held, h.comes⟩
      intro w hw
      rcases List.mem_append.mp hw with hw | hw
      · exact h.web w hw
      · rw [List.mem_singleton.mp hw]
        exact edited_fields env hallowed
  | update i =>
      simp only [step] at hstep
      split at hstep
      · next prevData changes hw =>
        obtain rfl := Option.some.inj hstep
        have hchanges := h.web _ (List.mem_of_getElem? hw)
        refine h.update hchanges ?_
        intro w hmem
        split at hmem
        · rcases List.mem_or_eq_of_mem_set hmem with hmem | rfl
          · exact h.web w hmem
          · exact hchanges
        · exact h.web w (List.mem_of_mem_eraseIdx hmem)
      · cases hstep
  | recheck i now =>
      simp only [step] at hstep
      split at hstep
      · next prevData changes hw =>
        obtain ⟨sdu, hsdu, rfl⟩ := Option.map_eq_some_iff.mp hstep
        have hheld := hallowed _ hw
        simp only [stillHeld, decide_eq_true_eq] at hheld
        have hweb : Inv pl c last cur { s with web := s.web.eraseIdx i } :=
          ⟨h.value, h.scaled, fun w hmem => h.web w (List.mem_of_mem_eraseIdx hmem), h.lookedUp,
            h.queued, h.latest, h.held, h.comes_held, h.comes⟩
        exact hweb.recheck hheld (withoutCheck_recheck hsdu)
      · cases hstep
  | lookup =>
      simp only [step] at hstep
      split at hstep
      · cases hstep
      · next sdu events hevents =>
        obtain rfl := Option.some.inj hstep
        have hfound : changeStreamPipeline (fun _ => true) (changeOf s.doc sdu) = true := by
          have hfields : Document.has [("sourceDataUpdate", .document sdu)] "sourceDataUpdate" = true :=
            rfl
          simp only [changeStreamPipeline, changeOf, h.value, hfields, Bool.and_self, decide_true,
            Bool.true_or]
        rw [if_pos hfound]
        exact h.lookup hc hevents hallowed
  | handle now active room =>
      obtain ⟨rfl, rfl⟩ := hallowed
      simp only [step] at hstep
      split at hstep
      · cases hstep
      · next fd sdu lookedUp hlookedUp =>
        obtain rfl := Option.some.inj hstep
        exact h.handle hc now hlookedUp
  | flush =>
      simp only [step] at hstep
      split at hstep
      · cases hstep
      · next fields queued hqueued =>
        obtain rfl := Option.some.inj hstep
        exact h.flush hqueued

theorem inv_run (hc : c.str "type" = "analog") {ls : List Label} (h : Inv pl c last cur s)
    (hallowed : Run.Allowed (step env pl) (Allowed pl) s ls)
    (hrun : Run.run (step env pl) s ls = some t) :
    Inv pl c (latest (fun _ => true) last ls) (latest current cur ls) t := by
  induction ls generalizing s last cur with
  | nil =>
      obtain rfl := Option.some.inj hrun
      exact h
  | cons l ls ih =>
      obtain ⟨s', hstep, hrun⟩ := Run.run_cons hrun
      rw [latest_cons, latest_cons current]
      exact ih (inv_step hc h hallowed.1 hstep) (hallowed.2 s' hstep) hrun

theorem inv_start (h : Start pl s) :
    Inv pl s.doc (source s.doc) ((source s.doc).filter current) s := by
  obtain ⟨hevents, hlookedUp, hqueued⟩ := h.done
  have hcomes (u : Document) (hu : source s.doc = some u) (hcurrent : current u = true) :
      Coming pl s.doc s u := by
    have hshows := h.shows_source u hu hcurrent
    rw [Shows, value_convert_analog pl 0 h.analog] at hshows
    simp only [Coming, lastValue, coming, hevents, hlookedUp, hqueued]
    exact hshows
  refine ⟨h.value, fun k _ => rfl, ?_, ?_, ?_, ?_, ?_, hcomes, ?_⟩
  · simp [h.web]
  · simp [hlookedUp]
  · simp [hqueued]
  · intro u hu
    exact ⟨u, hu, rfl⟩
  · intro u hu
    exact ⟨u, (Option.filter_eq_some_iff.mp hu).1, fun _ => rfl⟩
  · intro u hu
    obtain ⟨hsource, hcurrent⟩ := Option.filter_eq_some_iff.mp hu
    exact hcomes u hsource hcurrent

-- Once all is done, the point has the sourceDataUpdate that the drivers have written last, but
-- for the mark of a check, and the value of their last current one.
theorem never_rolled_back (env : Driver) (pl : Platform) {s t : State} {ls : List Label}
    (hstart : Start pl s) (hallowed : Run.Allowed (step env pl) (Allowed pl) s ls)
    (hrun : Run.run (step env pl) s ls = some t) (hdone : t.Done) :
    (∀ u, latest (fun _ => true) (source s.doc) ls = some u →
      ∃ held, source t.doc = some held ∧ withoutCheck held = withoutCheck u) ∧
    ∀ u, latest current ((source s.doc).filter current) ls = some u → Shows pl t.doc u := by
  have h := inv_run hstart.analog (inv_start hstart) hallowed hrun
  obtain ⟨hevents, hlookedUp, hqueued⟩ := hdone
  refine ⟨h.latest, ?_⟩
  intro u hu
  have hcomes := h.comes u hu
  simp only [Coming, lastValue, coming, hevents, hlookedUp, hqueued, List.filter_nil,
    List.map_nil, List.append_nil, List.getLast?_nil, List.getLastD_nil] at hcomes
  rw [Shows, h.scaled.convert pl hstart.analog]
  exact hcomes

end Run

section Uninterrupted

variable (env : Driver) (user : Session) (m : Moment) (d props : Document)

-- The updates of points among the writes of a request.
def realtimeUpdates (ws : List Write) : List (Document → Document) :=
  ws.filterMap fun
    | .updateRealtime _ f => some f
    | _ => none

theorem annotationEvent_updates {changes : Document} {ws : List Write}
    (h : annotationEvent m d changes = some ws) : realtimeUpdates ws = [] := by
  unfold annotationEvent at h
  split at h
  · rw [← Option.some.inj h]
    rfl
  · rw [← Option.some.inj h]
    rfl
  · cases h

theorem valueEvent_updates {changes : Document} {ws : List Write}
    (h : valueEvent env m d changes = some ws) : realtimeUpdates ws = [] := by
  unfold valueEvent at h
  split at h
  · rw [← Option.some.inj h]
    rfl
  · obtain ⟨text, -, rfl⟩ := Option.map_eq_some_iff.mp h
    rfl

theorem editPoint_updates (hacknowledged : env.acknowledged = true) (r : Response)
    (id : Option Value) (point : Filter) :
    realtimeUpdates (editPoint env user m r id point (some d) props).writes =
      set (edited env user.rights d props) ::
        if recheck m.now d (edited env user.rights d props) = [] then []
        else [set (recheck m.now d (edited env user.rights d props))] := by
  have happend (ws ws' : List Write) :
      realtimeUpdates (ws ++ ws') = realtimeUpdates ws ++ realtimeUpdates ws' :=
    List.filterMap_append
  have hupdates (point : Filter) (changes check : Document) :
      realtimeUpdates (.updateRealtime point (set changes) ::
        if check = [] then [] else [.updateRealtime point (set check)]) =
      set changes :: if check = [] then [] else [set check] := by
    split <;> rfl
  simp only [editPoint, hacknowledged, Bool.not_true, Bool.false_eq_true, if_false,
    Option.getD_some]
  cases hannotated : annotationEvent m d (edited env user.rights d props) with
  | none => exact hupdates _ _ _
  | some annotated =>
      cases hvalue : valueEvent env m d (edited env user.rights d props) with
      | none =>
          simp only [happend, annotationEvent_updates m d hannotated, List.append_nil]
          exact hupdates _ _ _
      | some substituted =>
          simp only [happend, annotationEvent_updates m d hannotated,
            valueEvent_updates env m d hvalue, List.append_nil]
          exact hupdates _ _ _

-- The steps of a property write that nothing comes between.
def uninterrupted : List Label :=
  [.findOne user.rights props, .update 0] ++
    if recheck m.now d (edited env user.rights d props) = [] then [] else [.recheck 0 m.now]

theorem recheck_cases (now : ℤ) (changes : Document) :
    (∀ now, recheck now d changes = []) ∨
      ∃ sdu, recheck now d changes = [("sourceDataUpdate", .document sdu)] ∧
        ∀ now, recheck now d changes ≠ [] := by
  unfold recheck
  split
  · exact .inr ⟨_, rfl, fun _ => by simp⟩
  · exact .inl fun _ => rfl

theorem State.store_doc (s : State) (sdu : Document) :
    (s.store sdu).doc = setField s.doc "sourceDataUpdate" (.document sdu) := by
  unfold State.store
  split
  · next hsource =>
    have hlookup : s.doc.lookup "sourceDataUpdate" = some (.document sdu) := by
      unfold source Document.doc at hsource
      split at hsource
      · next fields hfields =>
        rw [hfields, Option.some.inj hsource]
      · cases hsource
    exact (setField_of_lookup hlookup).symm
  · rfl

-- They leave the point as the write service, which takes a request at a time, does.
theorem run_uninterrupted (pl : Platform) (hacknowledged : env.acknowledged = true) (r : Response)
    (id : Option Value) (point : Filter) {s : State} (hweb : s.web = []) :
    ∃ t, Run.run (step env pl) s (uninterrupted env user m s.doc props) = some t ∧ t.web = [] ∧
      t.doc = (realtimeUpdates
        (editPoint env user m r id point (some s.doc) props).writes).foldl (fun d f => f d) s.doc := by
  rw [editPoint_updates env user m s.doc props hacknowledged]
  unfold uninterrupted
  rcases recheck_cases s.doc m.now (edited env user.rights s.doc props) with
    hnone | ⟨sdu, hsdu, hsome⟩
  · refine ⟨{ s with doc := applySet s.doc (edited env user.rights s.doc props), web := [] }, ?_⟩
    simp [hnone, Run.run, step, hweb, set]
  · refine ⟨({ s with doc := applySet s.doc (edited env user.rights s.doc props), web := [] } :
      State).store sdu, ?_, ?_, ?_⟩
    · simp [hsome, hsdu, Run.run, step, hweb, hacknowledged, Document.doc]
    · unfold State.store
      split <;> rfl
    · rw [State.store_doc]
      simp [hsdu, set, applySet]

end Uninterrupted

section Samples

def reading (value : ℚ) : Document := [("valueAtSource", .number (.fin value))]

-- A bus that shows what it holds.
def bus : State where
  doc :=
    [("_id", .number (.fin 1)), ("tag", .string "KV"), ("type", .string "analog"),
      ("value", .number (.fin 69)), ("kconv1", .number (.fin 1)), ("kconv2", .number (.fin 0)),
      ("loLimit", .number (.fin 0)), ("hiLimit", .number (.fin 100)),
      ("hysteresis", .number (.fin 1)), ("updatesCnt", .number (.fin 0)), ("invalid", .bool false),
      ("timeTag", .dateTime 0), ("sourceDataUpdate", .document (reading 69))]

-- A new upper limit is submitted.
def newLimit : Label :=
  .findOne operator.rights
    [("loLimit", .number (.fin 0)), ("hiLimit", .number (.fin 80)), ("hysteresis", .number (.fin 1))]

-- The next change event is handled, and what it queues is stored.
def processed (now : ℤ) : List Label := [.lookup, .handle now true true, .flush]

def undisturbed : List Label :=
  [newLimit, .update 0, .recheck 0 5] ++ processed 6 ++ [.driver (reading 81)] ++ processed 7

-- A driver writes between the read of the point and the write of what was read.
def overtaken : List Label :=
  [newLimit, .driver (reading 81)] ++ processed 4 ++ [.update 0, .recheck 0 5] ++ processed 6

instance (pl : Platform) (d sdu : Document) : Decidable (Shows pl d sdu) :=
  inferInstanceAs (Decidable (_ = _))

theorem bus_start : Start exactPlatform bus := by
  refine ⟨by decide, rfl, by decide, by decide, ?_⟩
  intro sdu hsource _
  obtain rfl : reading 69 = sdu := Option.some.inj hsource
  decide +kernel

theorem undisturbed_shown :
    ∃ t, Run.run (step driver exactPlatform) bus undisturbed = some t ∧
      Shows exactPlatform t.doc (reading 81) := by
  have hrun : (Run.run (step driver exactPlatform) bus undisturbed).any (fun t => decide t.Done) =
      true := by
    decide +kernel
  obtain ⟨t, ht, hdone⟩ := (Option.any_eq_true _ _).mp hrun
  have hallowed : Run.Allowed (step driver exactPlatform) (Allowed exactPlatform) bus undisturbed := by
    decide +kernel
  exact ⟨t, ht, (never_rolled_back driver exactPlatform bus_start hallowed ht
    (of_decide_eq_true hdone)).2 (reading 81) (by decide)⟩

-- The point goes back to what the property write had read, in its sourceDataUpdate and in its
-- value.
theorem overtaken_by_write :
    latest (fun _ => true) (source bus.doc) overtaken = some (reading 81) ∧
      ∃ t ∈ Run.run (step driver exactPlatform) bus overtaken, t.Done ∧
        source t.doc = some (reading 69 ++ [("rangeCheck", .number (.fin 5))]) ∧
        t.doc.num "value" = some (.fin 69) ∧ ¬Shows exactPlatform t.doc (reading 81) := by
  decide +kernel

end Samples

end JsonScada.WebServer.RangeCheck
