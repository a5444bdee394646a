import JsonScada.Iec61850.Client.Buffered

namespace JsonScada.Iec61850.Client.Buffered

open JsonScada.Library

section Invariant

variable {site : Site} {s s' : State} {ref : String} {id : EntryID}

section Statement

variable (site)

-- A value that the client has, or had and let go, or has written.
def Accounted (s : State) (o : Origin) : Prop :=
  o ∈ waiting site s ∨ o ∈ s.lost ∨ o ∈ s.written

-- What is asked of the steps that concern a buffered block: the segments after the first
-- bring no values; without an EntryID the server goes on behind no report that the client
-- does not have; reports of one RptID are told apart by their data set; and the EntryIDs
-- are saved when the values of their blocks do not wait any more and none was lost.
def Safe (s : State) : Action → Prop
  | .occur ref segments => site.buffered ref = true →
      ∀ rep ∈ segments.tail, ∀ el ∈ included rep, carried site el = false
  | .enable ref a own => site.buffered ref = true → resumed site s ref a = none →
      ∀ j < own, ∀ o ∈ originsAt site s.buffers ref j, Accounted site s o
  | .report ref => ∀ st ∈ rcb s.client ref, ∀ next ∈ (s.buffers ref).next,
      st.buffered = true → foreign st next.1 = false
  | .stray ref rep => ∀ st ∈ rcb s.client ref, st.buffered = true → foreign st rep = true
  | .save ok => ok = true →
      (∀ o ∈ waiting site s, s.client.lastReportIds o.rcb = none) ∧
        ∀ o ∈ s.lost, s.client.lastReportIds o.rcb = none ∨ o ∈ s.written
  | _ => True

instance (s : State) (o : Origin) : Decidable (Accounted site s o) :=
  inferInstanceAs (Decidable (o ∈ waiting site s ∨ o ∈ s.lost ∨ o ∈ s.written))

instance : ∀ s a, Decidable (Safe site s a)
  | _, .occur ref segments =>
      inferInstanceAs (Decidable (site.buffered ref = true →
        ∀ rep ∈ segments.tail, ∀ el ∈ included rep, carried site el = false))
  | s, .enable ref a own =>
      inferInstanceAs (Decidable (site.buffered ref = true → resumed site s ref a = none →
        ∀ j < own, ∀ o ∈ originsAt site s.buffers ref j, Accounted site s o))
  | s, .report ref =>
      inferInstanceAs (Decidable (∀ st ∈ rcb s.client ref, ∀ next ∈ (s.buffers ref).next,
        st.buffered = true → foreign st next.1 = false))
  | s, .stray ref rep =>
      inferInstanceAs (Decidable (∀ st ∈ rcb s.client ref, st.buffered = true →
        foreign st rep = true))
  | s, .save ok =>
      inferInstanceAs (Decidable (ok = true →
        (∀ o ∈ waiting site s, s.client.lastReportIds o.rcb = none) ∧
          ∀ o ∈ s.lost, s.client.lastReportIds o.rcb = none ∨ o ∈ s.written))
  | _, .client _ | _, .element .. | _, .other _ | _, .dequeue | _, .bulkWrite _ | _, .trim
  | _, .crash _ => .isTrue trivial

end Statement

section Invariant

variable {buffers : String → ChangeLog Report} {P Q : Origin → Prop}

-- The values before a place of a buffer.
def Before (site : Site) (buffers : String → ChangeLog Report) (P : Origin → Prop) (ref : String)
    (n : ℕ) : Prop :=
  ∀ j < n, ∀ o ∈ originsAt site buffers ref j, P o

-- What is known with the EntryID of a block: the values of that report and of those before.
structure Recorded (site : Site) (buffers : String → ChangeLog Report) (P : Origin → Prop)
    (ref : String) (id : EntryID) : Prop where
  ne : id ≠ []
  buffered : site.buffered ref = true
  there : ∃ rep ∈ (buffers ref).events, rep.entryID = id
  before : Before site buffers P ref (behind id (buffers ref))

theorem Recorded.imp (h : Recorded site buffers P ref id)
    (himp : ∀ o : Origin, o.rcb = ref → P o → Q o) : Recorded site buffers Q ref id where
  ne := h.ne
  buffered := h.buffered
  there := h.there
  before := fun j hj o ho => himp o (rcb_of_mem_originsAt ho) (h.before j hj o ho)

structure Inv (site : Site) (s : State) : Prop where
  sound : Sound site s.client
  empty : s.client.dataQueue = []
  -- a further segment of a report brings nothing
  segments : ∀ ref, site.buffered ref = true → ∀ i j k : ℕ, i < j → j ≤ k → ∀ rep rep',
    (s.buffers ref).events[i]? = some rep → (s.buffers ref).events[k]? = some rep' →
    rep.entryID = rep'.entryID → rep.entryID ≠ [] → originsAt site s.buffers ref j = []
  saved : ∀ ref id, s.saved ref = some id → Recorded site s.buffers (· ∈ s.written) ref id
  last : ∀ ref id, s.client.lastReportIds ref = some id →
    Recorded site s.buffers (Accounted site s) ref id
  delivered : ∀ ref, site.buffered ref = true → subscribed s.client ref = true →
    Before site s.buffers (Accounted site s) ref (s.buffers ref).place

theorem inv_start (site : Site) : Inv site (start site) where
  sound := by
    refine sound_start ⟨site.keys, fun e he => List.mem_map_of_mem he, ?_⟩ _
    exact fun _ e he => List.mem_map_of_mem he
  empty := rfl
  segments := by
    intro ref _ i j k _ _ rep rep' hi
    cases hi
  saved := fun _ _ h => by cases h
  last := fun _ _ h => by cases h
  delivered := by
    intro ref _ hsub
    cases hsub

theorem Accounted.of_waiting {o : Origin} (h : Accounted site s o)
    (hwaiting : o ∈ waiting site s → Accounted site s' o) (hlost : s.lost ⊆ s'.lost)
    (hwritten : s.written ⊆ s'.written) : Accounted site s' o := by
  rcases h with h | h | h
  · exact hwaiting h
  · exact .inr (.inl (hlost h))
  · exact .inr (.inr (hwritten h))

-- A step that takes no part in what the server has sent and what the client remembers of it.
structure Progress (site : Site) (s s' : State) : Prop where
  buffers : s'.buffers = s.buffers
  saved : s'.saved = s.saved
  client : Plain s.client s'.client
  written : s.written ⊆ s'.written
  accounted : ∀ o, Accounted site s o → Accounted site s' o

theorem subscribed_mono {c c' : Client.State} (h : c'.subs ⊆ c.subs)
    (hsub : subscribed c' ref = true) : subscribed c ref = true := by
  obtain ⟨sub, hmem, href⟩ := List.any_eq_true.mp hsub
  exact List.any_eq_true.mpr ⟨sub, h hmem, href⟩

theorem Inv.progress (h : Inv site s) (hp : Progress site s s') (hsound : Sound site s'.client)
    (hempty : s'.client.dataQueue = []) : Inv site s' where
  sound := hsound
  empty := hempty
  segments := by
    rw [hp.buffers]
    exact h.segments
  saved := by
    intro ref id hid
    rw [hp.saved] at hid
    rw [hp.buffers]
    exact (h.saved ref id hid).imp fun o _ ho => hp.written ho
  last := by
    intro ref id hid
    rw [hp.buffers]
    exact (h.last ref id (hp.client.ids ref id hid)).imp fun o _ ho => hp.accounted o ho
  delivered := by
    intro ref hbuffered hsub
    rw [hp.buffers]
    intro j hj o ho
    exact hp.accounted o
      (h.delivered ref hbuffered (subscribed_mono hp.client.subs hsub) j hj o ho)

end Invariant

section Steps

theorem plain_refl (c : Client.State) : Plain c c := ⟨fun _ _ h => h, List.Subset.refl _⟩

theorem waiting_settle {c : Client.State} {origin : Option Origin} {o : Origin}
    (h : o ∈ waiting site s) : o ∈ waiting site (settle s origin c) := by
  rw [mem_waiting] at h ⊢
  rcases h with h | ⟨iv, h⟩ | h
  · exact .inl h
  · exact .inr (.inl ⟨iv, List.mem_append_left _ h⟩)
  · exact .inr (.inr h)

theorem Inv.client (h : Inv site s) {a : Client.Action}
    (hstep : step site s (.client a) = some s') : Inv site s' := by
  have hplain : (∀ now ref rep, a ≠ .report now ref rep) ∧
      (∀ ref buffered answers, a ≠ .enable ref buffered answers) ∧
      ∃ c, Client.step site.conn s.client a = some c ∧ settle s none c = s' := by
    cases a with
    | enable | report => cases hstep
    | connect | browse | discovered | poll | close =>
        refine ⟨?_, ?_, Option.map_eq_some_iff.mp hstep⟩ <;> rintro _ _ _ ⟨⟩
  obtain ⟨hreport, henable, c, hc, rfl⟩ := hplain
  obtain ⟨hsound, hids⟩ := step_client h.sound hreport henable hc
  refine h.progress ⟨rfl, rfl, ⟨hids.ids, hids.subs⟩, List.Subset.refl _, ?_⟩
    (hsound.congr rfl hsound.blocks) rfl
  intro o ho
  exact ho.of_waiting (fun hw => .inl (waiting_settle hw)) (List.Subset.refl _)
    (List.Subset.refl _)

theorem Inv.other (h : Inv site s) (iv : IECValue) :
    Inv site { s with queue := s.queue ++ [(none, iv)] } := by
  refine h.progress ⟨rfl, rfl, plain_refl _, List.Subset.refl _, ?_⟩ h.sound h.empty
  intro o ho
  refine ho.of_waiting (fun hw => .inl ?_) (List.Subset.refl _) (List.Subset.refl _)
  rw [mem_waiting] at hw ⊢
  rcases hw with hw | ⟨iv, hw⟩ | hw
  · exact .inl hw
  · exact .inr (.inl ⟨iv, List.mem_append_left _ hw⟩)
  · exact .inr (.inr hw)

theorem Inv.dequeue (h : Inv site s) {item : Item} {queue : List Item}
    (hqueue : s.queue = item :: queue) :
    Inv site { s with queue := queue, batch := s.batch ++ [item] } := by
  refine h.progress ⟨rfl, rfl, plain_refl _, List.Subset.refl _, ?_⟩ h.sound h.empty
  intro o ho
  refine ho.of_waiting (fun hw => .inl ?_) (List.Subset.refl _) (List.Subset.refl _)
  rw [mem_waiting] at hw ⊢
  rcases hw with hw | ⟨iv, hw⟩ | ⟨iv, hw⟩
  · exact .inl hw
  · rw [hqueue] at hw
    rcases List.mem_cons.mp hw with rfl | hw
    · exact .inr (.inr ⟨iv, by simp⟩)
    · exact .inr (.inl ⟨iv, hw⟩)
  · exact .inr (.inr ⟨iv, List.mem_append_left _ hw⟩)

theorem Inv.bulkWrite (h : Inv site s) (stored : ℕ → Bool) :
    Inv site { s with
      batch := []
      written := s.written ++
        (s.batch.zipIdx.filter fun p => stored p.2).filterMap fun p => p.1.1
      lost := s.lost ++
        (s.batch.zipIdx.filter fun p => !stored p.2).filterMap fun p => p.1.1 } := by
  refine h.progress ⟨rfl, rfl, plain_refl _, List.subset_append_left _ _, ?_⟩ h.sound h.empty
  intro o ho
  refine ho.of_waiting (fun hw => ?_) (List.subset_append_left _ _) (List.subset_append_left _ _)
  rcases mem_waiting.mp hw with hw | hw | ⟨iv, hw⟩
  · exact .inl (mem_waiting.mpr (.inl hw))
  · exact .inl (mem_waiting.mpr (.inr (.inl hw)))
  · obtain ⟨n, hn⟩ := List.getElem?_of_mem hw
    have hmem : ((some o, iv), n) ∈ s.batch.zipIdx := List.mk_mem_zipIdx_iff_getElem?.mpr hn
    cases hstored : stored n with
    | true =>
        refine .inr (.inr (List.mem_append_right _ ?_))
        exact List.mem_filterMap.mpr ⟨_, List.mem_filter.mpr ⟨hmem, hstored⟩, rfl⟩
    | false =>
        refine .inr (.inl (List.mem_append_right _ ?_))
        exact List.mem_filterMap.mpr ⟨_, List.mem_filter.mpr ⟨hmem, by simp [hstored]⟩, rfl⟩

theorem Inv.trim (h : Inv site s) (n : ℕ) :
    Inv site { s with
      queue := s.queue.drop n
      lost := s.lost ++ (s.queue.take n).filterMap Prod.fst } := by
  refine h.progress ⟨rfl, rfl, plain_refl _, List.Subset.refl _, ?_⟩ h.sound h.empty
  intro o ho
  refine ho.of_waiting (fun hw => ?_) (List.subset_append_left _ _) (List.Subset.refl _)
  rcases mem_waiting.mp hw with hw | ⟨iv, hw⟩ | hw
  · exact .inl (mem_waiting.mpr (.inl hw))
  · rw [← List.take_append_drop n s.queue, List.mem_append] at hw
    rcases hw with hw | hw
    · exact .inr (.inl (List.mem_append_right _ (mem_items.mpr ⟨iv, hw⟩)))
    · exact .inl (mem_waiting.mpr (.inr (.inl ⟨iv, hw⟩)))
  · exact .inl (mem_waiting.mpr (.inr (.inr hw)))

theorem Inv.element (h : Inv site s) (now : ℤ) {n : ℕ} {st : RcbState} {report : Option ℕ}
    {el : ReportEntry} {k : ℕ} {rest : List (ReportEntry × ℕ)}
    (hn : s.handlers[n]? = some ⟨st, report, (el, k) :: rest⟩) :
    Inv site (settle { s with handlers := s.handlers.set n ⟨st, report, rest⟩ }
      (report.map fun i => ⟨st.ref, i, k⟩) (handleElement site.conn now st s.client el)) := by
  have hsound := h.sound.handleElement now st el
  obtain ⟨-, -, ivs, hivs, hcarries⟩ :=
    handleElement_queue site.conn now st h.sound.keys el
  rw [h.empty, List.nil_append] at hivs
  obtain ⟨-, -, -, hsubs⟩ := foldl_frame site.conn now st [el] s.client
  rw [List.foldl_cons, List.foldl_nil] at hsubs
  refine h.progress ⟨rfl, rfl, ⟨?_, ?_⟩, List.Subset.refl _, ?_⟩
    (hsound.congr rfl hsound.blocks) rfl
  · intro ref id hid
    have := lastReportIds_handleElement site.conn now st s.client el
    exact this ▸ hid
  · exact hsubs ▸ List.Subset.refl _
  · intro o ho
    refine ho.of_waiting (fun hw => .inl ?_) (List.Subset.refl _) (List.Subset.refl _)
    rw [mem_waiting] at hw ⊢
    have hlt : n < s.handlers.length := (List.getElem?_eq_some_iff.mp hn).1
    rcases hw with ⟨handler, hmem, ho⟩ | ⟨iv, hw⟩ | hw
    · obtain ⟨m, hm⟩ := List.getElem?_of_mem hmem
      by_cases hmn : m = n
      · subst hmn
        obtain rfl := Option.some.inj (hm.symm.trans hn)
        obtain ⟨p, hp, hcarried, i, hi, rfl⟩ := mem_handler.mp ho
        dsimp only at hp hi
        rcases List.mem_cons.mp hp with rfl | hp
        · -- the element that is queued now
          rw [if_pos ((h.sound.mapped el).trans hcarried)] at hcarries
          obtain ⟨iv, tail, -, -, rfl⟩ := List.forall₂_cons_left_iff.mp hcarries
          refine .inr (.inl ⟨iv, List.mem_append_right _ ?_⟩)
          rw [hivs, hi]
          exact List.mem_cons_self
        · refine .inl ⟨⟨st, report, rest⟩, List.mem_set hlt _, ?_⟩
          exact mem_handler.mpr ⟨p, hp, hcarried, i, hi, rfl⟩
      · refine .inl ⟨handler, List.mem_of_getElem? (i := m) ?_, ho⟩
        show (s.handlers.set n _)[m]? = some handler
        rw [List.getElem?_set_ne (Ne.symm hmn), hm]
    · exact .inr (.inl ⟨iv, List.mem_append_left _ hw⟩)
    · exact .inr (.inr hw)

theorem Inv.save (h : Inv site s) {ok : Bool} (hsafe : Safe site s (.save ok)) :
    Inv site { s with saved := if ok then s.client.lastReportIds else s.saved } := by
  refine ⟨h.sound, h.empty, h.segments, ?_, h.last, h.delivered⟩
  intro ref id hid
  cases ok with
  | false => exact h.saved ref id hid
  | true =>
      obtain ⟨hwaiting, hlost⟩ := hsafe rfl
      have hid : s.client.lastReportIds ref = some id := hid
      apply (h.last ref id hid).imp
      rintro o rfl ho
      rcases ho with ho | ho | ho
      · rw [hwaiting o ho] at hid
        cases hid
      · rcases hlost o ho with hnone | ho
        · rw [hnone] at hid
          cases hid
        · exact ho
      · exact ho

theorem Inv.crash (h : Inv site s) {tags : List Entry} (htags : Preloads site tags) :
    Inv site { s with
      client := Client.start tags s.saved
      handlers := []
      queue := []
      batch := []
      lost := [] } where
  sound := sound_start htags s.saved
  empty := rfl
  segments := h.segments
  saved := h.saved
  last := by
    intro ref id hid
    exact (h.saved ref id hid).imp fun o _ ho => .inr (.inr ho)
  delivered := by
    intro ref _ hsub
    cases hsub

-- The reports that were there before are the same.
theorem originsAt_push {buffers : String → ChangeLog Report} {ref : String}
    (segments : List Report) {ref' : String} {j : ℕ}
    (hj : ref' = ref → j < (buffers ref).events.length) :
    originsAt site (Function.update buffers ref (segments.foldl ChangeLog.push (buffers ref)))
      ref' j = originsAt site buffers ref' j := by
  apply originsAt_congr
  by_cases href : ref' = ref
  · subst href
    rw [Function.update_self, ChangeLog.events_foldl_push, List.getElem?_append_left (hj rfl)]
  · rw [Function.update_of_ne href]

theorem behind_le (id : EntryID) (log : ChangeLog Report) : behind id log ≤ log.events.length := by
  apply Nat.le_of_not_lt
  intro hlt
  obtain ⟨i, hi, rep, hrep, -⟩ := ChangeLog.lt_behind_iff.mp hlt
  have := (List.getElem?_eq_some_iff.mp hrep).1
  omega

-- The EntryID of a new report is known of no block yet.
theorem Recorded.occur {buffers : String → ChangeLog Report} {P : Origin → Prop}
    (h : Recorded site buffers P ref id) {ref' : String} {segments : List Report}
    (hfresh : fresh (buffers ref') segments = true) :
    Recorded site
      (Function.update buffers ref' (segments.foldl ChangeLog.push (buffers ref'))) P ref id := by
  by_cases href : ref = ref'
  · subst href
    obtain ⟨hne, hbuffered, ⟨rep, hrep, hid⟩, hbefore⟩ := h
    have hnone : ∀ new ∈ segments, decide (new.entryID = id) = false := by
      intro new hnew
      apply decide_eq_false
      rintro rfl
      have hnew := List.all_eq_true.mp hfresh new hnew
      rw [Bool.and_eq_true, Bool.or_eq_true] at hnew
      rcases hnew.2 with hempty | hall
      · exact hne (of_decide_eq_true hempty)
      · exact of_decide_eq_true (List.all_eq_true.mp hall rep hrep) hid
    have hsame : behind id (segments.foldl ChangeLog.push (buffers ref)) =
        behind id (buffers ref) := by
      rw [behind, ChangeLog.events_foldl_push]
      exact ChangeLog.behind_append_of_none hnone
    refine ⟨hne, hbuffered, ⟨rep, ?_, hid⟩, ?_⟩
    · rw [Function.update_self, ChangeLog.events_foldl_push]
      exact List.mem_append_left _ hrep
    · rw [Function.update_self, hsame]
      intro j hj o ho
      rw [originsAt_push segments fun _ => Nat.lt_of_lt_of_le hj (behind_le id _)] at ho
      exact hbefore j hj o ho
  · obtain ⟨hne, hbuffered, hthere, hbefore⟩ := h
    have hlog : Function.update buffers ref' (segments.foldl ChangeLog.push (buffers ref')) ref =
        buffers ref := Function.update_of_ne href ..
    refine ⟨hne, hbuffered, hlog ▸ hthere, ?_⟩
    rw [hlog]
    intro j hj o ho
    rw [originsAt_push segments fun h => absurd h href] at ho
    exact hbefore j hj o ho

theorem fresh_entryID {log : ChangeLog Report} {segments : List Report}
    (hfresh : fresh log segments = true) {i k : ℕ} {rep rep' : Report}
    (hi : log.events[i]? = some rep) (hk : segments[k]? = some rep') :
    rep.entryID ≠ rep'.entryID ∨ rep'.entryID = [] := by
  have hnew := List.all_eq_true.mp hfresh rep' (List.mem_of_getElem? hk)
  rw [Bool.and_eq_true, Bool.or_eq_true] at hnew
  rcases hnew.2 with hempty | hall
  · exact .inr (of_decide_eq_true hempty)
  · exact .inl (of_decide_eq_true (List.all_eq_true.mp hall rep (List.mem_of_getElem? hi)))

theorem Inv.occur (h : Inv site s) {ref : String} {segments : List Report}
    (hfresh : fresh (s.buffers ref) segments = true)
    (hsafe : Safe site s (.occur ref segments)) :
    Inv site { s with
      buffers := Function.update s.buffers ref
        (segments.foldl ChangeLog.push (s.buffers ref)) } := by
  refine ⟨h.sound, h.empty, ?_, fun ref' id hid => (h.saved ref' id hid).occur hfresh,
    fun ref' id hid => (h.last ref' id hid).occur hfresh, ?_⟩
  · intro ref' hbuffered i j k hij hjk rep rep' hi hk hsame hne
    dsimp only at hi hk ⊢
    by_cases href : ref' = ref
    · subst href
      rw [Function.update_self, ChangeLog.events_foldl_push] at hi hk
      by_cases hold : k < (s.buffers ref').events.length
      · have hj : j < (s.buffers ref').events.length := Nat.lt_of_le_of_lt hjk hold
        have hi' : i < (s.buffers ref').events.length := Nat.lt_trans hij hj
        rw [List.getElem?_append_left hi'] at hi
        rw [List.getElem?_append_left hold] at hk
        rw [originsAt_push segments fun _ => hj]
        exact h.segments ref' hbuffered i j k hij hjk rep rep' hi hk hsame hne
      · rw [List.getElem?_append_right (Nat.le_of_not_lt hold)] at hk
        by_cases hfirst : i < (s.buffers ref').events.length
        · rw [List.getElem?_append_left hfirst] at hi
          rcases fresh_entryID hfresh hi hk with hdiff | hempty
          · exact absurd hsame hdiff
          · exact absurd (hsame.trans hempty) hne
        · -- between two segments of the new report
          apply List.eq_nil_iff_forall_not_mem.mpr
          intro o ho
          obtain ⟨new, hnew, p, hp, hcarried, -⟩ := mem_originsAt.mp ho
          rw [Function.update_self, ChangeLog.events_foldl_push,
            List.getElem?_append_right (by omega)] at hnew
          have hindex : j - (s.buffers ref').events.length =
              (j - (s.buffers ref').events.length - 1) + 1 := by omega
          rw [hindex, ← List.getElem?_tail] at hnew
          have hnothing := hsafe hbuffered new (List.mem_of_getElem? hnew) p.1
            (List.fst_mem_of_mem_zipIdx hp)
          rw [hcarried] at hnothing
          cases hnothing
    · rw [Function.update_of_ne href] at hi hk
      rw [originsAt_push segments fun h => absurd h href]
      exact h.segments ref' hbuffered i j k hij hjk rep rep' hi hk hsame hne
  · intro ref' hbuffered hsub j hj o ho
    have hplace : (Function.update s.buffers ref
        (segments.foldl ChangeLog.push (s.buffers ref)) ref').place = (s.buffers ref').place := by
      by_cases href : ref' = ref
      · rw [href, Function.update_self, ChangeLog.place_foldl_push]
      · rw [Function.update_of_ne href]
    dsimp only at hj ho
    rw [hplace] at hj
    have hold : ref' = ref → j < (s.buffers ref).events.length := by
      rintro rfl
      exact Nat.lt_of_lt_of_le hj (s.buffers ref').place_le
    rw [originsAt_push segments hold] at ho
    exact h.delivered ref' hbuffered hsub j hj o ho

section Places

variable {buffers buffers' : String → ChangeLog Report}

-- A change of the places leaves what is known of the reports.
theorem Recorded.congr {P : Origin → Prop} (h : Recorded site buffers P ref id)
    (hevents : ∀ ref, (buffers' ref).events = (buffers ref).events) :
    Recorded site buffers' P ref id where
  ne := h.ne
  buffered := h.buffered
  there := by
    rw [hevents]
    exact h.there
  before := by
    have hsame : behind id (buffers' ref) = behind id (buffers ref) := by
      rw [behind, behind, hevents]
    rw [hsame]
    intro j hj o ho
    rw [originsAt_events (hevents ref)] at ho
    exact h.before j hj o ho

theorem Inv.segments_congr (h : Inv site s)
    (hevents : ∀ ref, (buffers' ref).events = (s.buffers ref).events) (ref : String)
    (hbuffered : site.buffered ref = true) (i j k : ℕ) (hij : i < j) (hjk : j ≤ k)
    (rep rep' : Report) (hi : (buffers' ref).events[i]? = some rep)
    (hk : (buffers' ref).events[k]? = some rep') (hsame : rep.entryID = rep'.entryID)
    (hne : rep.entryID ≠ []) : originsAt site buffers' ref j = [] := by
  rw [hevents] at hi hk
  rw [originsAt_events (hevents ref)]
  exact h.segments ref hbuffered i j k hij hjk rep rep' hi hk hsame hne

end Places

theorem lastReportIds_of_resumed {a : EnableAnswers} (h : resumed site s ref a = some id) :
    s.client.lastReportIds ref = some id := by
  unfold resumed at h
  split_ifs at h
  obtain ⟨hid, -⟩ := Option.filter_eq_some_iff.mp h
  exact hid

theorem Inv.enable (h : Inv site s) {a : EnableAnswers} {own : ℕ}
    (hsafe : Safe site s (.enable ref a own)) {c : Client.State}
    (hc : Client.step site.conn s.client (.enable ref (site.buffered ref) a) = some c) :
    Inv site { settle s none c with
      buffers := Function.update s.buffers ref
        (if subscribed c ref then (s.buffers ref).openAt (some (resumeAt site s ref a own))
          else s.buffers ref) } := by
  obtain ⟨st, href, hst, hen⟩ := step_enable hc
  have hsound : Sound site c := h.sound.enable hen (by rw [hst, href])
  have haccounted : ∀ o, Accounted site s o → Accounted site { settle s none c with
      buffers := Function.update s.buffers ref
        (if subscribed c ref then (s.buffers ref).openAt (some (resumeAt site s ref a own))
          else s.buffers ref) } o := by
    intro o ho
    have hwaiting : o ∈ waiting site s → o ∈ waiting site (settle s none c) := waiting_settle
    exact ho.of_waiting (fun hw => .inl (hwaiting hw)) (List.Subset.refl _) (List.Subset.refl _)
  have hevents : ∀ ref', (Function.update s.buffers ref
      (if subscribed c ref then (s.buffers ref).openAt (some (resumeAt site s ref a own))
        else s.buffers ref) ref').events = (s.buffers ref').events := by
    intro ref'
    by_cases hsame : ref' = ref
    · rw [hsame, Function.update_self]
      split_ifs <;> rfl
    · rw [Function.update_of_ne hsame]
  refine ⟨hsound.congr rfl hsound.blocks, rfl, h.segments_congr hevents, ?_, ?_, ?_⟩
  · intro ref' id hid
    exact (h.saved ref' id hid).congr hevents
  · intro ref' id hid
    exact ((h.last ref' id (hen.ids ref' id hid)).imp fun o _ ho => haccounted o ho).congr hevents
  · intro ref' hbuffered hsub j hj o ho
    change subscribed c ref' = true at hsub
    apply haccounted
    dsimp only at hj ho
    rw [originsAt_events (hevents ref')] at ho
    by_cases hsame : ref' = ref
    · subst hsame
      rw [Function.update_self, if_pos hsub] at hj
      have hj : j < resumeAt site s ref' a own := Nat.lt_of_lt_of_le hj (Nat.min_le_left _ _)
      unfold resumeAt at hj
      cases hid : resumed site s ref' a with
      | none =>
          rw [hid] at hj
          exact hsafe hbuffered hid j hj o ho
      | some id =>
          rw [hid] at hj
          exact (h.last ref' id (lastReportIds_of_resumed hid)).before j hj o ho
    · rw [Function.update_of_ne hsame] at hj
      have hold : subscribed s.client ref' = true := by
        obtain ⟨sub, hmem, hname⟩ := List.any_eq_true.mp hsub
        rcases hen.subs sub hmem with hmem | hnew
        · exact List.any_eq_true.mpr ⟨sub, hmem, hname⟩
        · exact absurd ((of_decide_eq_true hname).symm.trans (hnew.trans href)) hsame
      exact h.delivered ref' hbuffered hold j hj o ho

theorem waiting_receive {st : RcbState} {report : Option ℕ} {rep : Report} {o : Origin}
    (h : o ∈ waiting site s) : o ∈ waiting site (receive s st report rep) := by
  unfold receive
  split_ifs
  · exact h
  · exact h
  · rw [mem_waiting] at h ⊢
    rcases h with ⟨handler, hmem, ho⟩ | h | h
    · exact .inl ⟨handler, List.mem_append_left _ hmem, ho⟩
    · exact .inr (.inl h)
    · exact .inr (.inr h)

theorem Inv.stray (h : Inv site s) {st : RcbState} (hst : rcb s.client ref = some st)
    {rep : Report} (hsafe : Safe site s (.stray ref rep)) :
    Inv site (receive s st none rep) := by
  have hforeign := hsafe st hst
  unfold receive
  split_ifs with hfor hrep
  · exact h
  · exact h
  · -- not of a buffered block
    have hplain : trackReport s.client st rep = s.client := by
      unfold trackReport tracked
      rw [if_neg]
      intro hboth
      rw [Bool.and_eq_true] at hboth
      exact hfor (hforeign hboth.2)
    rw [hplain]
    refine h.progress ⟨rfl, rfl, plain_refl _, List.Subset.refl _, ?_⟩ h.sound h.empty
    intro o ho
    refine ho.of_waiting (fun hw => .inl ?_) (List.Subset.refl _) (List.Subset.refl _)
    rw [mem_waiting] at hw ⊢
    rcases hw with ⟨handler, hmem, ho⟩ | hw | hw
    · exact .inl ⟨handler, List.mem_append_left _ hmem, ho⟩
    · exact .inr (.inl hw)
    · exact .inr (.inr hw)

theorem receive_frame (s : State) (st : RcbState) (report : Option ℕ) (rep : Report) :
    (receive s st report rep).buffers = s.buffers ∧ (receive s st report rep).saved = s.saved ∧
      (receive s st report rep).lost = s.lost ∧ (receive s st report rep).written = s.written := by
  unfold receive
  split_ifs <;> exact ⟨rfl, rfl, rfl, rfl⟩

-- All that the client may remember of a report is its EntryID.
theorem receive_client (s : State) (st : RcbState) (report : Option ℕ) (rep : Report) :
    (receive s st report rep).client = s.client ∨ tracked st rep = true ∧
      (receive s st report rep).client = setLastReportID s.client st.ref rep.entryID := by
  unfold receive trackReport
  split_ifs with hforeign hrepeated htracked
  · exact .inl rfl
  · exact .inl rfl
  · exact .inr ⟨htracked, rfl⟩
  · exact .inl rfl

-- The values of the report are on their way, unless it is one that the client remembers.
theorem receive_handles {st : RcbState} {rep : Report} {i : ℕ} (hst : st.ref = ref)
    (hrep : (s.buffers ref).events[i]? = some rep) (hforeign : foreign st rep = false)
    (hrepeated : repeated s.client st rep = false) {o : Origin}
    (ho : o ∈ originsAt site s.buffers ref i) : o ∈ waiting site (receive s st (some i) rep) := by
  obtain ⟨rep', hrep', p, hp, hcarried, rfl⟩ := mem_originsAt.mp ho
  obtain rfl := Option.some.inj (hrep.symm.trans hrep')
  unfold receive
  rw [hforeign, hrepeated, if_neg Bool.false_ne_true, if_neg Bool.false_ne_true]
  refine mem_waiting.mpr (.inl ⟨_, List.mem_append_right _ (List.mem_singleton_self _), ?_⟩)
  exact mem_handler.mpr ⟨p, hp, hcarried, i, rfl, by rw [hst]⟩

theorem Inv.report (h : Inv site s) {st : RcbState} (hst : rcb s.client ref = some st)
    {rep : Report} {log : ChangeLog Report} (hnext : (s.buffers ref).next = some (rep, log))
    (hsubscribed : subscribed s.client ref = true) (hsafe : Safe site s (.report ref)) :
    Inv site (receive { s with buffers := Function.update s.buffers ref log } st
      (some (s.buffers ref).place) rep) := by
  obtain ⟨hmem, hname⟩ := rcb_ref hst
  have hblock : st.buffered = site.buffered ref := hname ▸ h.sound.blocks st hmem
  have hrep : (s.buffers ref).events[(s.buffers ref).place]? = some rep :=
    ChangeLog.getElem?_of_next _ hnext
  obtain ⟨-, hsame, hplace⟩ := ChangeLog.next_eq_some _ hnext
  generalize hi : (s.buffers ref).place = i at hrep hplace ⊢
  have hevents : ∀ ref', (Function.update s.buffers ref log ref').events =
      (s.buffers ref').events := by
    intro ref'
    by_cases heq : ref' = ref
    · rw [heq, Function.update_self, hsame]
    · rw [Function.update_of_ne heq]
  let moved : State := { s with buffers := Function.update s.buffers ref log }
  change Inv site (receive moved st (some i) rep)
  obtain ⟨hbuffers, hsaved, hlost, hwritten⟩ := receive_frame moved st (some i) rep
  have haccounted : ∀ o, Accounted site s o → Accounted site (receive moved st (some i) rep) o := by
    intro o ho
    refine ho.of_waiting (fun hw => .inl (waiting_receive (s := moved) hw)) ?_ ?_
    · exact hlost ▸ List.Subset.refl _
    · exact hwritten ▸ List.Subset.refl _
  have hhere : site.buffered ref = true → ∀ o ∈ originsAt site s.buffers ref i,
      Accounted site (receive moved st (some i) rep) o := by
    intro hbuffered o ho
    have hforeign : foreign st rep = false :=
      hsafe st hst (rep, log) hnext (hblock.trans hbuffered)
    cases hrepeated : repeated s.client st rep with
    | true =>
        -- the EntryID is the one of this report, and all before it is accounted for
        have hlast := hrepeated
        rw [repeated, Bool.and_eq_true, hname] at hlast
        have hrecorded := h.last ref rep.entryID (of_decide_eq_true hlast.2)
        refine haccounted o (hrecorded.before i ?_ o ho)
        exact ChangeLog.lt_behind_iff.mpr ⟨i, Nat.le_refl i, rep, hrep, decide_eq_true rfl⟩
    | false =>
        have hrep' : (moved.buffers ref).events[i]? = some rep := (hevents ref).symm ▸ hrep
        rw [← originsAt_events (hevents ref)] at ho
        exact .inl (receive_handles hname hrep' hforeign hrepeated ho)
  have hbefore : site.buffered ref = true → ∀ j ≤ i, ∀ o ∈ originsAt site s.buffers ref j,
      Accounted site (receive moved st (some i) rep) o := by
    intro hbuffered j hj o ho
    rcases Nat.lt_or_eq_of_le hj with hj | rfl
    · exact haccounted o (h.delivered ref hbuffered hsubscribed j (hi.symm ▸ hj) o ho)
    · exact hhere hbuffered o ho
  have hclient := receive_client moved st (some i) rep
  have hfields : (receive moved st (some i) rep).client.entries = s.client.entries ∧
      (receive moved st (some i) rep).client.rcbs = s.client.rcbs ∧
      (receive moved st (some i) rep).client.subs = s.client.subs ∧
      (receive moved st (some i) rep).client.dataQueue = s.client.dataQueue := by
    rcases hclient with heq | ⟨-, heq⟩ <;> rw [heq] <;> exact ⟨rfl, rfl, rfl, rfl⟩
  obtain ⟨hentries, hrcbs, hsubs, hqueue⟩ := hfields
  refine ⟨h.sound.congr hentries (hrcbs ▸ h.sound.blocks), hqueue.trans h.empty, ?_, ?_, ?_, ?_⟩
  · rw [hbuffers]
    exact h.segments_congr hevents
  · intro ref' id hid
    rw [hsaved] at hid
    rw [hbuffers]
    exact ((h.saved ref' id hid).imp fun o _ ho => hwritten.symm ▸ ho).congr hevents
  · intro ref' id hid
    rw [hbuffers]
    have hkept : s.client.lastReportIds ref' = some id →
        Recorded site moved.buffers (Accounted site (receive moved st (some i) rep)) ref' id :=
      fun hold => ((h.last ref' id hold).imp fun o _ ho => haccounted o ho).congr hevents
    rcases hclient with heq | ⟨htracked, heq⟩
    · rw [heq] at hid
      exact hkept hid
    · rw [heq] at hid
      have hid : Function.update s.client.lastReportIds st.ref (some rep.entryID) ref' = some id :=
        hid
      by_cases hthis : ref' = st.ref
      · -- the EntryID of the report that has come now
        rw [hthis, Function.update_self] at hid
        obtain rfl := Option.some.inj hid
        obtain rfl : ref' = ref := hthis.trans hname
        rw [tracked, Bool.and_eq_true] at htracked
        have hne : rep.entryID ≠ [] := of_decide_eq_true htracked.1
        have hbuffered : site.buffered ref' = true := hblock.symm.trans htracked.2
        refine Recorded.congr ⟨hne, hbuffered, ⟨rep, List.mem_of_getElem? hrep, rfl⟩, ?_⟩ hevents
        intro j hj o ho
        obtain ⟨k, hjk, rep', hrep', hsame⟩ := ChangeLog.lt_behind_iff.mp hj
        by_cases hji : j ≤ i
        · exact hbefore hbuffered j hji o ho
        · have hnothing := h.segments ref' hbuffered i j k (Nat.lt_of_not_le hji) hjk rep rep' hrep
            hrep' (of_decide_eq_true hsame).symm hne
          rw [hnothing] at ho
          cases ho
      · rw [Function.update_of_ne hthis] at hid
        exact hkept hid
  · intro ref' hbuffered hsub j hj o ho
    rw [hbuffers] at hj ho
    rw [originsAt_events (hevents ref')] at ho
    have hsub' : subscribed s.client ref' = true := subscribed_mono (hsubs ▸ List.Subset.refl _) hsub
    by_cases hthis : ref' = ref
    · subst hthis
      have hj : j < (Function.update s.buffers ref' log ref').place := hj
      rw [Function.update_self, hplace] at hj
      exact hbefore hbuffered j (Nat.le_of_lt_succ hj) o ho
    · have hj : j < (Function.update s.buffers ref log ref').place := hj
      rw [Function.update_of_ne hthis] at hj
      exact haccounted o (h.delivered ref' hbuffered hsub' j hj o ho)

theorem Inv.step (h : Inv site s) {a : Action} (hsafe : Safe site s a)
    (hstep : step site s a = some s') : Inv site s' := by
  cases a with
  | client a => exact h.client hstep
  | occur ref segments =>
      simp only [Buffered.step] at hstep
      split_ifs at hstep with hfresh
      obtain rfl := Option.some.inj hstep
      exact h.occur hfresh hsafe
  | enable ref a own =>
      obtain ⟨c, hc, rfl⟩ := Option.map_eq_some_iff.mp hstep
      exact h.enable hsafe hc
  | report ref =>
      cases hst : rcb s.client ref with
      | none => simp [Buffered.step, hst] at hstep
      | some st =>
          cases hnext : (s.buffers ref).next with
          | none => simp [Buffered.step, hst, hnext] at hstep
          | some next =>
              obtain ⟨rep, log⟩ := next
              simp only [Buffered.step, hst, hnext] at hstep
              split_ifs at hstep with hsub
              obtain rfl := Option.some.inj hstep
              exact h.report hst hnext hsub hsafe
  | stray ref rep =>
      cases hst : rcb s.client ref with
      | none => simp [Buffered.step, hst] at hstep
      | some st =>
          simp only [Buffered.step, hst] at hstep
          split_ifs at hstep
          obtain rfl := Option.some.inj hstep
          exact h.stray hst hsafe
  | element now n =>
      simp only [Buffered.step] at hstep
      split at hstep
      · rename_i st report el k rest hn
        obtain rfl := Option.some.inj hstep
        exact h.element now hn
      · cases hstep
  | other iv =>
      obtain rfl := Option.some.inj hstep
      exact h.other iv
  | dequeue =>
      cases hqueue : s.queue with
      | nil => simp [Buffered.step, hqueue] at hstep
      | cons item queue =>
          simp only [Buffered.step, hqueue] at hstep
          obtain rfl := Option.some.inj hstep
          exact h.dequeue hqueue
  | bulkWrite stored =>
      simp only [Buffered.step] at hstep
      split_ifs at hstep
      obtain rfl := Option.some.inj hstep
      exact h.bulkWrite stored
  | trim =>
      simp only [Buffered.step] at hstep
      split_ifs at hstep
      obtain rfl := Option.some.inj hstep
      exact h.trim _
  | save ok =>
      simp only [Buffered.step] at hstep
      split at hstep
      · obtain rfl := Option.some.inj hstep
        exact h.save hsafe
      · cases hstep
  | crash tags =>
      simp only [Buffered.step] at hstep
      split_ifs at hstep with htags
      obtain rfl := Option.some.inj hstep
      exact h.crash htags

end Steps

end Invariant

section Resume

variable {site : Site} {s : State}

-- Whatever is resumed behind a saved EntryID is resumed with nothing missed.
def Resumable (site : Site) (s : State) : Prop :=
  ∀ ref id, s.saved ref = some id → ∀ j < behind id (s.buffers ref),
    ∀ o ∈ originsAt site s.buffers ref j, o ∈ s.written

-- When the EntryIDs are saved only with the values of their reports written, nothing is
-- missed behind a saved EntryID, whatever else happens.
theorem safe_resumable {as : List Action}
    (hrun : Run.run (step site) (start site) as = some s)
    (hsafe : Run.Allowed (step site) (Safe site) (start site) as) : Resumable site s := by
  have h := Run.invariant (fun _ _ _ h hok hs => Inv.step h hok hs) (inv_start site) hsafe hrun
  intro ref id hid j hj o ho
  exact (h.saved ref id hid).before j hj o ho

def oneBlock : Site where
  conn := ied
  tags := [position]
  keys := by decide
  buffered := fun ref => ref = "LD/LLN0.BR.brcb01"

def enablingBlock : Action :=
  .enable "LD/LLN0.BR.brcb01"
    { rcb := some ⟨"", "LD/LLN0$Events"⟩, members := [⟨"LD/XCBR1.Pos", .st⟩], first := .ok
      withoutResync := .failed, disabled := false, afterDisable := .failed } 0

-- A report comes in, and its value is queued.
def reportQueued : List Action :=
  [.client .connect, enablingBlock,
    .occur "LD/LLN0.BR.brcb01" [⟨1, 0, [1], "", [positionReported]⟩],
    .report "LD/LLN0.BR.brcb01", .element 0 0]

-- The client ends and goes on behind what was saved.
def restarted : List Action := [.crash [position], .client .connect, enablingBlock]

theorem saved_behind_write : ∃ s,
    Run.run (step oneBlock) (start oneBlock)
      (reportQueued ++ [.dequeue, .bulkWrite fun _ => true, .save true] ++ restarted) = some s ∧
    Resumable oneBlock s := by
  have hrun : (Run.run (step oneBlock) (start oneBlock)
      (reportQueued ++ [.dequeue, .bulkWrite fun _ => true, .save true] ++ restarted)).isSome =
      true := by
    decide
  obtain ⟨s, hs⟩ := Option.isSome_iff_exists.mp hrun
  exact ⟨s, hs, safe_resumable hs (by decide)⟩

-- The EntryID is saved before the value is written, and the client ends.
theorem saved_before_write : ∃ s,
    Run.run (step oneBlock) (start oneBlock) (reportQueued ++ [.save true] ++ restarted) = some s ∧
    s.saved "LD/LLN0.BR.brcb01" = some [1] ∧ s.written = [] ∧
    (s.buffers "LD/LLN0.BR.brcb01").pending = [] ∧ ¬Resumable oneBlock s := by
  have hrun : (Run.run (step oneBlock) (start oneBlock)
      (reportQueued ++ [.save true] ++ restarted)).any
      (fun s => s.saved "LD/LLN0.BR.brcb01" = some [1] ∧ s.written = [] ∧
        (s.buffers "LD/LLN0.BR.brcb01").pending = [] ∧
        behind [1] (s.buffers "LD/LLN0.BR.brcb01") = 1 ∧
        originsAt oneBlock s.buffers "LD/LLN0.BR.brcb01" 0 = [⟨"LD/LLN0.BR.brcb01", 0, 0⟩]) =
      true := by
    decide
  obtain ⟨s, hs, hall⟩ := (Option.any_eq_true _ _).mp hrun
  obtain ⟨hsaved, hwritten, hpending, hbehind, horigins⟩ := of_decide_eq_true hall
  refine ⟨s, hs, hsaved, hwritten, hpending, ?_⟩
  intro h
  have hin := h _ _ hsaved 0 (by omega) ⟨"LD/LLN0.BR.brcb01", 0, 0⟩ (by simp [horigins])
  rw [hwritten] at hin
  cases hin

end Resume

end JsonScada.Iec61850.Client.Buffered
