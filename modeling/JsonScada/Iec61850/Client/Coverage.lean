import JsonScada.Iec61850.Client

namespace JsonScada.Iec61850.Client

open JsonScada.Library

section Polling

variable {conn : Connection} {s : State} {key : String} {e : Entry} {el : ReportEntry}

section Entries

theorem entry_eq_some (hkeys : (s.entries.map Entry.key).Nodup) :
    entry s key = some e ↔ e ∈ s.entries ∧ e.key = key := by
  constructor
  · intro h
    exact ⟨List.mem_of_find?_eq_some h, by simpa using List.find?_some h⟩
  · rintro ⟨he, rfl⟩
    cases hfind : entry s e.key with
    | none =>
        have := List.find?_eq_none.mp hfind e he
        simp at this
    | some e' =>
        have hkey : e'.key = e.key := by simpa using List.find?_some hfind
        exact congrArg some (List.inj_on_of_nodup_map hkeys (List.mem_of_find?_eq_some hfind) he hkey)

theorem entry_isSome : (entry s key).isSome ↔ key ∈ s.entries.map Entry.key := by
  simp [entry]

theorem entries_addEntry (s : State) (e : Entry) :
    (addEntry s e).entries = if (entry s e.key).isSome then s.entries else s.entries ++ [e] := by
  unfold addEntry
  split_ifs <;> rfl

theorem keys_addEntry (hkeys : (s.entries.map Entry.key).Nodup) (e : Entry) :
    ((addEntry s e).entries.map Entry.key).Nodup := by
  rw [entries_addEntry]
  split_ifs with h
  · exact hkeys
  · rw [List.map_append, List.nodup_append]
    refine ⟨hkeys, List.nodup_singleton _, ?_⟩
    rintro k hk k' hk' rfl
    obtain rfl := List.mem_singleton.mp hk'
    exact h (entry_isSome.mpr hk)

theorem mem_keys_addEntry (s : State) (e : Entry) :
    key ∈ (addEntry s e).entries.map Entry.key ↔ key ∈ s.entries.map Entry.key ∨ key = e.key := by
  rw [entries_addEntry]
  split_ifs with h
  · have := entry_isSome.mp h
    constructor
    · exact .inl
    · rintro (hkey | rfl)
      · exact hkey
      · exact this
  · simp

theorem entries_setEntryReport (hkeys : (s.entries.map Entry.key).Nodup) (key rcbName : String) :
    (setEntryReport s key rcbName).entries =
      s.entries.map fun e => if e.key = key then { e with rcbName := rcbName } else e :=
  Table.updateFirst_eq_map hkeys key _

theorem keys_setEntryReport (hkeys : (s.entries.map Entry.key).Nodup) (key rcbName : String) :
    (setEntryReport s key rcbName).entries.map Entry.key = s.entries.map Entry.key := by
  rw [entries_setEntryReport hkeys, List.map_map]
  apply List.map_congr_left
  intro e _
  by_cases h : e.key = key <;> simp [h]

end Entries

section Elements

-- An element that has a reference and a place to go to.
def mapped (conn : Connection) (s : State) (el : ReportEntry) : Bool :=
  el.ref ≠ "" && ((entry s el.key).isSome || conn.autoCreateTags)

theorem handleElement_skip (now : ℤ) (st : RcbState) (h : mapped conn s el = false) :
    handleElement conn now st s el = s := by
  unfold handleElement
  by_cases href : el.ref = ""
  · rw [if_pos href]
  · have hskip : ((entry s el.key).isNone && !conn.autoCreateTags) = true := by
      simpa [mapped, href] using h
    rw [if_neg href, if_pos hskip]

theorem handleElement_mapped (now : ℤ) (st : RcbState) (h : mapped conn s el = true) :
    ∃ e, entry (addEntry s (newEntry conn el.ref el.fc)) el.key = some e ∧
      handleElement conn now st s el =
        { setEntryReport (addEntry s (newEntry conn el.ref el.fc)) el.key st.ref with
          dataQueue := s.dataQueue ++ [reportValue conn now e el] } := by
  have href : el.ref ≠ "" := by
    rintro href
    simp [mapped, href] at h
  have hknown : ¬((entry s el.key).isNone && !conn.autoCreateTags) = true := by
    simp only [mapped, href, ne_eq, not_false_eq_true, decide_true, Bool.true_and, Bool.or_eq_true]
      at h
    rcases h with h | h
    · simp [Option.isNone_eq_false_iff.mpr h]
    · simp [h]
  have hthere : (entry (addEntry s (newEntry conn el.ref el.fc)) el.key).isSome :=
    entry_isSome.mpr ((mem_keys_addEntry ..).mpr (.inr rfl))
  obtain ⟨e, he⟩ := Option.isSome_iff_exists.mp hthere
  have hqueue : (setEntryReport (addEntry s (newEntry conn el.ref el.fc)) el.key st.ref).dataQueue =
      s.dataQueue := by
    unfold addEntry
    split_ifs <;> rfl
  refine ⟨e, he, ?_⟩
  unfold handleElement
  simp only [if_neg href, if_neg hknown, he, hqueue]

-- What a report brings is the same after some of its elements.
theorem mapped_handleElement (now : ℤ) (st : RcbState) (el el' : ReportEntry)
    (hkeys : (s.entries.map Entry.key).Nodup) :
    mapped conn (handleElement conn now st s el) el' = mapped conn s el' := by
  cases h : mapped conn s el with
  | false => rw [handleElement_skip now st h]
  | true =>
      obtain ⟨e, -, heq⟩ := handleElement_mapped now st h
      have hkeys' := keys_addEntry hkeys (newEntry conn el.ref el.fc)
      have hmem : (entry (handleElement conn now st s el) el'.key).isSome ↔
          (entry s el'.key).isSome ∨ el'.key = el.key := by
        rw [entry_isSome, entry_isSome, heq]
        dsimp only
        rw [keys_setEntryReport hkeys', mem_keys_addEntry]
        rfl
      cases hauto : conn.autoCreateTags with
      | true => simp [mapped, hauto]
      | false =>
          have hknown : (entry s el.key).isSome := by
            have := h
            simp only [mapped, hauto, Bool.or_false, Bool.and_eq_true] at this
            exact this.2
          have hsame : (entry (handleElement conn now st s el) el'.key).isSome =
              (entry s el'.key).isSome := by
            rw [Bool.eq_iff_iff, hmem]
            constructor
            · rintro (hsome | hkey)
              · exact hsome
              · rw [hkey]
                exact hknown
            · exact .inl
          simp only [mapped, hsame]

end Elements

end Polling

section Coverage

variable {conn : Connection} {s s' : State}

section Statement

-- An object is a member of a data set with a report enabled in this association.
def Reported (s : State) (key : String) : Prop := ∃ sub ∈ s.subs, ∃ m ∈ sub.members, m.key = key

-- Whatever no report covers is read by a sweep.
def Covered (s : State) : Prop :=
  ∀ e ∈ s.entries, e.fc ≠ .co → ¬Reported s e.key → e ∈ pollSweep s

-- The objects that a report delivers, with the number of the association.
def delivered (conn : Connection) (s : State) : Action → List (ℕ × String)
  | .report _ ref rep =>
      match rcb s ref with
      | some st =>
          if foreign st rep || repeated s st rep then []
          else ((included rep).filter (mapped conn s)).map fun el => (s.associations, el.key)
      | none => []
  | _ => []

instance (s : State) (key : String) : Decidable (Reported s key) :=
  inferInstanceAs (Decidable (∃ sub ∈ s.subs, ∃ m ∈ sub.members, m.key = key))

instance (s : State) : Decidable (Covered s) :=
  inferInstanceAs (Decidable (∀ e ∈ s.entries, e.fc ≠ .co → ¬Reported s e.key → e ∈ pollSweep s))

end Statement

section Marks

variable {h : List (ℕ × String)}

-- The entries that are marked are those that some report has delivered.
structure Marks (h : List (ℕ × String)) (s : State) : Prop where
  keys : (s.entries.map Entry.key).Nodup
  known : ∀ d ∈ h, d.2 ∈ s.entries.map Entry.key
  marked : ∀ e ∈ s.entries, e.rcbName ≠ "" ↔ ∃ d ∈ h, d.2 = e.key

theorem Marks.congr (hm : Marks h s) (hsame : s'.entries = s.entries) : Marks h s' := by
  obtain ⟨hkeys, hknown, hmarked⟩ := hm
  refine ⟨?_, ?_, ?_⟩
  · rw [hsame]
    exact hkeys
  · rw [hsame]
    exact hknown
  · rw [hsame]
    exact hmarked

theorem Marks.addEntry (hm : Marks h s) {e : Entry} (he : e.rcbName = "") :
    Marks h (addEntry s e) := by
  refine ⟨keys_addEntry hm.keys e, ?_, ?_⟩
  · intro d hd
    exact (mem_keys_addEntry ..).mpr (.inl (hm.known d hd))
  · rw [entries_addEntry]
    split_ifs with hthere
    · exact hm.marked
    · intro e' he'
      rcases List.mem_append.mp he' with he' | he'
      · exact hm.marked e' he'
      · obtain rfl := List.mem_singleton.mp he'
        refine iff_of_false (by simp [he]) ?_
        rintro ⟨d, hd, hkey⟩
        exact hthere (entry_isSome.mpr (hkey ▸ hm.known d hd))

theorem Marks.setEntryReport (hm : Marks h s) {key rcbName : String} (hname : rcbName ≠ "")
    (hkey : key ∈ s.entries.map Entry.key) (n : ℕ) :
    Marks (h ++ [(n, key)]) (setEntryReport s key rcbName) := by
  refine ⟨?_, ?_, ?_⟩
  · rw [keys_setEntryReport hm.keys]
    exact hm.keys
  · intro d hd
    rw [keys_setEntryReport hm.keys]
    rcases List.mem_append.mp hd with hd | hd
    · exact hm.known d hd
    · obtain rfl := List.mem_singleton.mp hd
      exact hkey
  · intro e he
    rw [entries_setEntryReport hm.keys] at he
    obtain ⟨e₀, he₀, rfl⟩ := List.mem_map.mp he
    by_cases hk : e₀.key = key
    · rw [if_pos hk]
      exact iff_of_true hname ⟨(n, key), by simp, hk.symm⟩
    · rw [if_neg hk, hm.marked e₀ he₀]
      constructor
      · rintro ⟨d, hd, hd'⟩
        exact ⟨d, List.mem_append_left _ hd, hd'⟩
      · rintro ⟨d, hd, hd'⟩
        rcases List.mem_append.mp hd with hd | hd
        · exact ⟨d, hd, hd'⟩
        · obtain rfl := List.mem_singleton.mp hd
          exact absurd hd'.symm hk

theorem Marks.handleElement (hm : Marks h s) (now : ℤ) {st : RcbState} (hst : st.ref ≠ "")
    (el : ReportEntry) (n : ℕ) :
    Marks (h ++ if mapped conn s el then [(n, el.key)] else [])
      (handleElement conn now st s el) := by
  cases hmapped : mapped conn s el with
  | false =>
      rw [handleElement_skip now st hmapped, if_neg Bool.false_ne_true, List.append_nil]
      exact hm
  | true =>
      obtain ⟨e, -, heq⟩ := handleElement_mapped now st hmapped
      rw [heq, if_pos rfl]
      have hadd := hm.addEntry (e := newEntry conn el.ref el.fc) rfl
      exact (hadd.setEntryReport hst ((mem_keys_addEntry ..).mpr (.inr rfl)) n).congr rfl

theorem Marks.handleElements (hm : Marks h s) (now : ℤ) {st : RcbState} (hst : st.ref ≠ "")
    (els : List ReportEntry) (n : ℕ) :
    Marks (h ++ (els.filter (mapped conn s)).map fun el => (n, el.key))
      (els.foldl (Client.handleElement conn now st) s) := by
  induction els generalizing h s with
  | nil =>
      rw [List.filter_nil, List.map_nil, List.append_nil]
      exact hm
  | cons el els ih =>
      have hone : Marks (h ++ if mapped conn s el then [(n, el.key)] else [])
          (Client.handleElement conn now st s el) := hm.handleElement now hst el n
      have hrest := ih hone
      have hsame : mapped conn (Client.handleElement conn now st s el) = mapped conn s :=
        funext fun el' => mapped_handleElement now st el el' hm.keys
      rw [hsame, List.append_assoc] at hrest
      rw [List.filter_cons]
      cases hmapped : mapped conn s el <;> rw [hmapped] at hrest <;> exact hrest

end Marks

section Invariant

variable {h : List (ℕ × String)}

-- What was delivered in this association is a member of a data set that is reported still.
structure Inv (h : List (ℕ × String)) (s : State) : Prop where
  marks : Marks h s
  named : ∀ r ∈ s.rcbs, r.ref ≠ ""
  past : ∀ d ∈ h, d.1 ≤ s.associations
  current : s.phase ≠ .disconnected → ∀ d ∈ h, d.1 = s.associations → Reported s d.2

theorem Inv.of_same (hi : Inv h s) (hentries : Marks h s') (hrcbs : s'.rcbs = s.rcbs)
    (hassociations : s'.associations = s.associations) (hphase : s'.phase = s.phase)
    (hsubs : s.subs ⊆ s'.subs) : Inv h s' where
  marks := hentries
  named := hrcbs ▸ hi.named
  past := hassociations ▸ hi.past
  current := by
    intro hup d hd hnow
    rw [hphase] at hup
    rw [hassociations] at hnow
    obtain ⟨sub, hsub, m, hm, hkey⟩ := hi.current hup d hd hnow
    exact ⟨sub, hsubs hsub, m, hm, hkey⟩

theorem foldl_frame (conn : Connection) (now : ℤ) (st : RcbState) (els : List ReportEntry)
    (s : State) :
    let s' := els.foldl (handleElement conn now st) s
    s'.rcbs = s.rcbs ∧ s'.associations = s.associations ∧ s'.phase = s.phase ∧ s'.subs = s.subs := by
  induction els generalizing s with
  | nil => exact ⟨rfl, rfl, rfl, rfl⟩
  | cons el els ih =>
      obtain ⟨hrcbs, hassociations, hphase, hsubs⟩ := ih (handleElement conn now st s el)
      have hone : (handleElement conn now st s el).rcbs = s.rcbs ∧
          (handleElement conn now st s el).associations = s.associations ∧
          (handleElement conn now st s el).phase = s.phase ∧
          (handleElement conn now st s el).subs = s.subs := by
        cases hmapped : mapped conn s el with
        | false =>
            rw [handleElement_skip now st hmapped]
            exact ⟨rfl, rfl, rfl, rfl⟩
        | true =>
            obtain ⟨e, -, heq⟩ := handleElement_mapped now st hmapped
            rw [heq]
            unfold addEntry
            split_ifs <;> exact ⟨rfl, rfl, rfl, rfl⟩
      exact ⟨hrcbs.trans hone.1, hassociations.trans hone.2.1, hphase.trans hone.2.2.1,
        hsubs.trans hone.2.2.2⟩

-- What the setup of a block leaves alone.
structure Enables (ref : String) (s s' : State) : Prop where
  entries : s'.entries = s.entries
  associations : s'.associations = s.associations
  phase : s'.phase = s.phase
  subs : s.subs ⊆ s'.subs
  rcbs : ∀ r ∈ s'.rcbs, r.ref = ref ∨ ∃ r₀ ∈ s.rcbs, r₀.ref = r.ref

theorem Enables.refl (ref : String) (s : State) : Enables ref s s :=
  ⟨rfl, rfl, rfl, List.Subset.refl _, fun r hr => .inr ⟨r, hr, rfl⟩⟩

theorem mem_registerRCB {st r : RcbState} (hr : r ∈ (registerRCB s st).rcbs) :
    r.ref = st.ref ∨ ∃ r₀ ∈ s.rcbs, r₀.ref = r.ref := by
  rcases List.mem_append.mp hr with hr | hr
  · obtain ⟨r₀, hr₀, rfl⟩ := List.mem_map.mp hr
    refine .inr ⟨r₀, hr₀, ?_⟩
    split_ifs <;> rfl
  · obtain rfl := List.mem_singleton.mp hr
    exact .inl rfl

theorem activateRCB_enables (s : State) (st : RcbState) (a : EnableAnswers) :
    Enables st.ref s (activateRCB s st a) := by
  have hforget : ∀ t : State,
      (t = registerRCB s st ∨ t = forgetLastReportID (registerRCB s st) st.ref) →
      t.entries = s.entries ∧ t.associations = s.associations ∧ t.phase = s.phase ∧
        t.subs = s.subs ∧ t.rcbs = (registerRCB s st).rcbs := by
    rintro t (rfl | rfl) <;> exact ⟨rfl, rfl, rfl, rfl, rfl⟩
  unfold activateRCB
  dsimp only
  obtain ⟨hentries, hassociations, hphase, hsubs, hrcbs⟩ := hforget
    (if (st.buffered && (resyncEntryID s st.ref).isSome && decide (a.first = .entryIDRefused)) = true
      then forgetLastReportID (registerRCB s st) st.ref else registerRCB s st)
    (by split_ifs <;> simp)
  split_ifs at hentries hassociations hphase hsubs hrcbs ⊢
  all_goals
    refine ⟨hentries, hassociations, hphase, ?_, fun r hr => mem_registerRCB hr⟩
    simp [dropRCB, hsubs]

theorem enableRCB_enables (conn : Connection) (s : State) (ref : String) (buffered : Bool)
    (a : EnableAnswers) : Enables ref s (enableRCB conn s ref buffered a) := by
  unfold enableRCB
  split_ifs
  · exact .refl ref s
  · cases a.rcb with
    | none => exact .refl ref s
    | some rcb =>
        dsimp only
        split_ifs
        · exact .refl ref s
        · exact .refl ref s
        · exact activateRCB_enables s (rcbState ref buffered rcb) a

end Invariant

section Steps

variable {h : List (ℕ × String)}

theorem rcb_ref {ref : String} {st : RcbState} (hst : rcb s ref = some st) :
    st ∈ s.rcbs ∧ st.ref = ref :=
  ⟨List.mem_of_find?_eq_some hst, by simpa using List.find?_some hst⟩

-- An included element is one of the report.
theorem mem_included {rep : Report} {el : ReportEntry} (hel : el ∈ included rep) :
    el ∈ rep.entries := by
  unfold included at hel
  split_ifs at hel
  · exact (List.mem_filter.mp hel).1
  · exact hel

theorem trackReport_frame (s : State) (st : RcbState) (rep : Report) :
    (trackReport s st rep).entries = s.entries ∧ (trackReport s st rep).rcbs = s.rcbs ∧
      (trackReport s st rep).associations = s.associations ∧
      (trackReport s st rep).phase = s.phase ∧ (trackReport s st rep).subs = s.subs := by
  unfold trackReport
  split_ifs <;> exact ⟨rfl, rfl, rfl, rfl, rfl⟩

-- The reference of an element is that of a member.
theorem decodes_reported {sub : ReportSubscription} {rep : Report} {el : ReportEntry}
    (hsub : sub ∈ s.subs) (hdec : decodes sub rep = true) (hel : el ∈ included rep)
    (hmapped : mapped conn s el = true) : Reported s el.key := by
  have hmember := List.all_eq_true.mp hdec el (mem_included hel)
  have href : el.ref ≠ "" := by
    rintro href
    simp [mapped, href] at hmapped
  simp only [href, decide_false, Bool.false_or, List.any_eq_true, Bool.and_eq_true,
    decide_eq_true_eq] at hmember
  obtain ⟨m, hm, hmref, hmfc⟩ := hmember
  refine ⟨sub, hsub, m, hm, ?_⟩
  rw [Member.key, hmref, hmfc]
  rfl

theorem step_report {now : ℤ} {ref : String} {rep : Report}
    (hstep : step conn s (.report now ref rep) = some s') :
    ∃ sub ∈ s.subs, ∃ st, rcb s ref = some st ∧ s.phase ≠ .disconnected ∧
      decodes sub rep = true ∧ s' = reportHandler conn now s st rep := by
  cases hsub : s.subs.find? (fun sub => sub.ref = ref) with
  | none => simp [step, hsub] at hstep
  | some sub =>
      cases hst : rcb s ref with
      | none => simp [step, hsub, hst] at hstep
      | some st =>
          simp only [step, hsub, hst] at hstep
          split_ifs at hstep with hup
          exact ⟨sub, List.mem_of_find?_eq_some hsub, st, rfl, hup.1, hup.2,
            (Option.some.inj hstep).symm⟩

theorem reportHandler_frame (conn : Connection) (now : ℤ) (s : State) (st : RcbState)
    (rep : Report) :
    let s' := reportHandler conn now s st rep
    s'.rcbs = s.rcbs ∧ s'.associations = s.associations ∧ s'.phase = s.phase ∧ s'.subs = s.subs := by
  unfold reportHandler
  split_ifs
  · exact ⟨rfl, rfl, rfl, rfl⟩
  · exact ⟨rfl, rfl, rfl, rfl⟩
  · obtain ⟨-, hrcbs, hassociations, hphase, hsubs⟩ := trackReport_frame s st rep
    obtain ⟨hrcbs', hassociations', hphase', hsubs'⟩ :=
      foldl_frame conn now st (included rep) (trackReport s st rep)
    exact ⟨hrcbs'.trans hrcbs, hassociations'.trans hassociations, hphase'.trans hphase,
      hsubs'.trans hsubs⟩

theorem Marks.report (hm : Marks h s) (now : ℤ) {ref : String} {st : RcbState}
    (hst : rcb s ref = some st) (hname : st.ref ≠ "") (rep : Report) :
    Marks (h ++ delivered conn s (.report now ref rep)) (reportHandler conn now s st rep) := by
  unfold reportHandler
  by_cases hforeign : foreign st rep = true
  · rw [if_pos hforeign, delivered, hst]
    simpa [hforeign] using hm
  · by_cases hrepeated : repeated s st rep = true
    · rw [if_neg hforeign, if_pos hrepeated, delivered, hst]
      simpa [hrepeated] using hm
    · have hdelivered : delivered conn s (.report now ref rep) =
          ((included rep).filter (mapped conn s)).map fun el => (s.associations, el.key) := by
        simp [delivered, hst, hforeign, hrepeated]
      obtain ⟨hentries, -⟩ := trackReport_frame s st rep
      have hmapped : mapped conn (trackReport s st rep) = mapped conn s := by
        funext el
        simp only [mapped, entry, hentries]
      have hmarks : Marks _ ((included rep).foldl (Client.handleElement conn now st)
          (trackReport s st rep)) :=
        (hm.congr hentries).handleElements now hname (included rep) s.associations
      rw [if_neg hforeign, if_neg hrepeated, hdelivered, ← hmapped]
      exact hmarks.congr rfl

-- What a report delivers, it delivers in this association and for a member.
theorem mem_delivered {sub : ReportSubscription} {now : ℤ} {ref : String} {rep : Report}
    (hsub : sub ∈ s.subs) (hdec : decodes sub rep = true) {d : ℕ × String}
    (hd : d ∈ delivered conn s (.report now ref rep)) :
    d.1 = s.associations ∧ Reported s d.2 := by
  unfold delivered at hd
  cases hst : rcb s ref with
  | none => simp [hst] at hd
  | some st =>
      simp only [hst] at hd
      split_ifs at hd
      · cases hd
      · obtain ⟨el, hel, rfl⟩ := List.mem_map.mp hd
        obtain ⟨hel, hmapped⟩ := List.mem_filter.mp hel
        exact ⟨rfl, decodes_reported hsub hdec hel hmapped⟩

theorem Inv.report (hi : Inv h s) {now : ℤ} {ref : String} {rep : Report}
    (hstep : step conn s (.report now ref rep) = some s') :
    Inv (h ++ delivered conn s (.report now ref rep)) s' := by
  obtain ⟨sub, hsub, st, hst, hup, hdec, rfl⟩ := step_report hstep
  obtain ⟨hrcbs, hassociations, hphase, hsubs⟩ := reportHandler_frame conn now s st rep
  refine ⟨hi.marks.report now hst (hi.named st (rcb_ref hst).1) rep, ?_, ?_, ?_⟩
  · rw [hrcbs]
    exact hi.named
  · rw [hassociations]
    intro d hd
    rcases List.mem_append.mp hd with hd | hd
    · exact hi.past d hd
    · exact (mem_delivered hsub hdec hd).1.le
  · rw [hassociations]
    intro _ d hd hnow
    have hreported : Reported s d.2 := by
      rcases List.mem_append.mp hd with hd | hd
      · exact hi.current hup d hd hnow
      · exact (mem_delivered hsub hdec hd).2
    unfold Reported
    rw [hsubs]
    exact hreported

theorem Inv.enable (hi : Inv h s) {ref : String} {buffered : Bool} {a : EnableAnswers}
    (hstep : step conn s (.enable ref buffered a) = some s') : Inv h s' := by
  simp only [step] at hstep
  split_ifs at hstep with hfree
  obtain rfl := Option.some.inj hstep
  obtain ⟨hentries, hassociations, hphase, hsubs, hrcbs⟩ := enableRCB_enables conn s ref buffered a
  refine ⟨hi.marks.congr hentries, ?_, hassociations ▸ hi.past, ?_⟩
  · intro r hr
    rcases hrcbs r hr with href | ⟨r₀, hr₀, href⟩
    · exact href ▸ hfree.2.1
    · exact href ▸ hi.named r₀ hr₀
  · rw [hphase, hassociations]
    intro hup d hd hnow
    obtain ⟨sub, hsub, hmem⟩ := hi.current hup d hd hnow
    exact ⟨sub, hsubs hsub, hmem⟩

theorem Inv.step (hi : Inv h s) {a : Action} (hstep : step conn s a = some s') :
    Inv (h ++ delivered conn s a) s' := by
  cases a with
  | report now ref rep => exact hi.report hstep
  | enable ref buffered a =>
      rw [show delivered conn s (.enable ref buffered a) = [] from rfl, List.append_nil]
      exact hi.enable hstep
  | connect =>
      simp only [Client.step] at hstep
      split_ifs at hstep
      obtain rfl := Option.some.inj hstep
      rw [show delivered conn s .connect = [] from rfl, List.append_nil]
      refine ⟨hi.marks.congr rfl, by simp, fun d hd => (hi.past d hd).trans (Nat.le_succ _), ?_⟩
      -- what is delivered so far is of an earlier association
      intro _ d hd hnow
      have := hi.past d hd
      dsimp only at hnow
      omega
  | browse ref fc =>
      simp only [Client.step] at hstep
      split_ifs at hstep
      obtain rfl := Option.some.inj hstep
      rw [show delivered conn s (.browse ref fc) = [] from rfl, List.append_nil]
      have hmarks := hi.marks.addEntry (e := newEntry conn ref fc) rfl
      obtain ⟨hrcbs, hassociations, hphase, hsubs⟩ :
          (addEntry s (newEntry conn ref fc)).rcbs = s.rcbs ∧
          (addEntry s (newEntry conn ref fc)).associations = s.associations ∧
          (addEntry s (newEntry conn ref fc)).phase = s.phase ∧
          (addEntry s (newEntry conn ref fc)).subs = s.subs := by
        unfold addEntry
        split_ifs <;> exact ⟨rfl, rfl, rfl, rfl⟩
      exact hi.of_same hmarks hrcbs hassociations hphase (by rw [hsubs]; exact List.Subset.refl _)
  | discovered =>
      simp only [Client.step] at hstep
      split_ifs at hstep with hphase
      obtain rfl := Option.some.inj hstep
      rw [show delivered conn s .discovered = [] from rfl, List.append_nil]
      exact ⟨hi.marks.congr rfl, hi.named, hi.past,
        fun _ => hi.current (by rw [hphase]; decide)⟩
  | poll now answers =>
      simp only [Client.step] at hstep
      split_ifs at hstep
      obtain rfl := Option.some.inj hstep
      rw [show delivered conn s (.poll now answers) = [] from rfl, List.append_nil]
      exact hi.of_same (hi.marks.congr rfl) rfl rfl rfl (List.Subset.refl _)
  | close =>
      simp only [Client.step] at hstep
      split_ifs at hstep
      obtain rfl := Option.some.inj hstep
      rw [show delivered conn s .close = [] from rfl, List.append_nil]
      exact ⟨hi.marks.congr rfl, hi.named, hi.past, fun hup => absurd rfl hup⟩

end Steps

section Claim

theorem inv_start {entries : List Entry} (hkeys : (entries.map Entry.key).Nodup)
    (saved : String → Option EntryID) : Inv [] (start entries saved) where
  marks :=
    { keys := by
        rw [start, List.map_map]
        exact hkeys
      known := by simp
      marked := by simp [start] }
  named := by simp [start]
  past := by simp
  current := by simp

-- What a report has marked in an earlier association stays away from the sweep, so it has
-- to be reported again in this one.
theorem covered_iff {entries : List Entry} (hkeys : (entries.map Entry.key).Nodup)
    {saved : String → Option EntryID} {as : List Action}
    (hrun : Run.run (step conn) (start entries saved) as = some s) (hphase : s.phase = .polling) :
    Covered s ↔
      ∀ d ∈ Run.emitted (step conn) (delivered conn) (start entries saved) as,
        d.1 ≠ s.associations → ∀ e ∈ s.entries, e.key = d.2 → e.fc ≠ .co → Reported s e.key := by
  have hinv := Run.emitted_preserved Inv (fun _ _ _ _ hi hstep => hi.step hstep)
    (inv_start hkeys saved) hrun
  rw [List.nil_append] at hinv
  have hup : s.phase ≠ .disconnected := by rw [hphase]; decide
  constructor
  · intro hcovered d hd _ e he hkey hfc
    by_contra hreported
    have hswept := (List.mem_filter.mp (hcovered e he hfc hreported)).2
    have hmark := (hinv.marks.marked e he).mpr ⟨d, hd, hkey.symm⟩
    simp [hmark] at hswept
  · intro hreported e he hfc hnot
    refine List.mem_filter.mpr ⟨he, ?_⟩
    have hunmarked : e.rcbName = "" := by
      by_contra hmark
      obtain ⟨d, hd, hkey⟩ := (hinv.marks.marked e he).mp hmark
      apply hnot
      by_cases hnow : d.1 = s.associations
      · exact hkey ▸ hinv.current hup d hd hnow
      · exact hreported d hd hnow e he hkey.symm hfc
    simp [hunmarked, hfc]

-- A configured position, reported by one block.
def ied : Connection where
  name := "IED1"
  protocolConnectionNumber := 101
  topics := []
  autoCreateTags := false

def position : Entry where
  key := "LD/XCBR1.PosST"
  path := "LD/XCBR1.Pos"
  fc := .st
  jsTag := "Pos"

def enabling (outcome : Attempt) : Action :=
  .enable "LD/LLN0.RP.urcb01" false
    { rcb := some ⟨"", "LD/LLN0$Events"⟩, members := [⟨"LD/XCBR1.Pos", .st⟩], first := outcome
      withoutResync := .failed, disabled := false, afterDisable := .failed }

def closed : Extraction where
  isDigital := true
  isTransient := false
  value := .fin 1
  valueString := "true"
  valueJSON := "true"
  asdu := "STRUCTURE"
  failed := false
  isStructure := true
  timestamp := 0

-- The position is reported in one association, and the block is asked for in the next.
def twoAssociations (outcome : Attempt) : List Action :=
  [.connect, enabling .ok, .discovered,
    .report 0 "LD/LLN0.RP.urcb01"
      ⟨1, 0, [], "", [⟨"LD/XCBR1.Pos", .st, { gi := true }, closed⟩]⟩,
    .close, .connect, enabling outcome, .discovered]

theorem reported_again_covered : ∃ s,
    Run.run (step ied) (start [position] fun _ => none) (twoAssociations .ok) = some s ∧
    s.phase = .polling ∧ Covered s := by
  have hrun : (Run.run (step ied) (start [position] fun _ => none) (twoAssociations .ok)).any
      (fun s => s.phase = .polling ∧ ∀ e ∈ s.entries, Reported s e.key) = true := by
    decide
  obtain ⟨s, hs, hall⟩ := (Option.any_eq_true _ _).mp hrun
  obtain ⟨hphase, hreported⟩ := of_decide_eq_true hall
  exact ⟨s, hs, hphase, (covered_iff (by decide) hs hphase).mpr fun _ _ _ e he _ _ => hreported e he⟩

-- Another client holds the block now: the position is neither reported nor read.
theorem block_held_uncovered : ∃ s,
    Run.run (step ied) (start [position] fun _ => none) (twoAssociations .failed) = some s ∧
    s.phase = .polling ∧ ¬Covered s ∧ s.subs = [] ∧ pollSweep s = [] := by
  have hrun : (Run.run (step ied) (start [position] fun _ => none) (twoAssociations .failed)).any
      (fun s => s.phase = .polling ∧ ¬Covered s ∧ s.subs = [] ∧ pollSweep s = []) = true := by
    decide
  obtain ⟨s, hs, hall⟩ := (Option.any_eq_true _ _).mp hrun
  exact ⟨s, hs, of_decide_eq_true hall⟩

end Claim

end Coverage

end JsonScada.Iec61850.Client
