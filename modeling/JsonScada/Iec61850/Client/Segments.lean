import JsonScada.Iec61850.Client.Coverage

namespace JsonScada.Iec61850.Client

open JsonScada.Library

variable {conn : Connection} {s s' : State} {now : ℤ} {st : RcbState}

section Statement

-- A value that is queued for an element, for the entry that has its key.
def Carries (conn : Connection) (now : ℤ) (s : State) (el : ReportEntry) (iv : IECValue) : Prop :=
  ∃ e ∈ s.entries, e.key = el.key ∧ iv = reportValue conn now e el

-- The handler leaves a value for every included element.
def Queues (conn : Connection) (now : ℤ) (s s' : State) (rep : Report) : Prop :=
  ∃ ivs, s'.dataQueue = s.dataQueue ++ ivs ∧
    List.Forall₂ (Carries conn now s') (included rep) ivs

def seenBefore (s : State) (st : RcbState) (rep : Report) : Bool :=
  rep.entryID ≠ [] && s.processed.contains (st.ref, rep.entryID, rep.subSeqNum)

-- A report of a buffered block is queued, but for a segment that was processed already.
def Whole (conn : Connection) (s : State) : Action → Prop
  | .report now ref rep => ∀ st ∈ rcb s ref, st.buffered = true →
      Queues conn now s (reportHandler conn now s st rep) rep ∨ seenBefore s st rep = true
  | _ => True

-- The report is not taken for a repeat of the last one, nor for one of another block, and
-- its elements have a place to go to.
def Handled (conn : Connection) (s : State) (st : RcbState) (rep : Report) : Prop :=
  foreign st rep = false ∧ repeated s st rep = false ∧
    ∀ el ∈ included rep, mapped conn s el = true

instance (s : State) (st : RcbState) (rep : Report) : Decidable (Handled conn s st rep) :=
  inferInstanceAs (Decidable (_ ∧ _ ∧ ∀ el ∈ included rep, mapped conn s el = true))

def Distinguished (conn : Connection) (s : State) : Action → Prop
  | .report _ ref rep => ∀ st ∈ rcb s ref, st.buffered = true →
      included rep = [] ∨ seenBefore s st rep = true ∨ Handled conn s st rep
  | _ => True

instance : ∀ s a, Decidable (Distinguished conn s a)
  | s, .report _ ref rep =>
      inferInstanceAs (Decidable (∀ st ∈ rcb s ref, st.buffered = true →
        included rep = [] ∨ seenBefore s st rep = true ∨ Handled conn s st rep))
  | _, .connect | _, .browse .. | _, .enable .. | _, .discovered | _, .poll .. | _, .close =>
      .isTrue trivial

end Statement

section Queue

-- The entry of a key keeps its path and its constraint.
def Keeps (s s' : State) : Prop :=
  ∀ e ∈ s.entries, ∃ e' ∈ s'.entries, e'.key = e.key ∧ e'.path = e.path ∧ e'.fc = e.fc

theorem Keeps.trans {t : State} (h : Keeps s t) (h' : Keeps t s') : Keeps s s' := by
  intro e he
  obtain ⟨e₁, he₁, hkey₁, hpath₁, hfc₁⟩ := h e he
  obtain ⟨e₂, he₂, hkey₂, hpath₂, hfc₂⟩ := h' e₁ he₁
  exact ⟨e₂, he₂, hkey₂.trans hkey₁, hpath₂.trans hpath₁, hfc₂.trans hfc₁⟩

theorem keeps_addEntry (s : State) (e : Entry) : Keeps s (addEntry s e) := by
  intro e₀ he₀
  refine ⟨e₀, ?_, rfl, rfl, rfl⟩
  rw [entries_addEntry]
  split_ifs
  · exact he₀
  · exact List.mem_append_left _ he₀

theorem keeps_setEntryReport (hkeys : (s.entries.map Entry.key).Nodup) (key rcbName : String) :
    Keeps s (setEntryReport s key rcbName) := by
  intro e he
  rw [entries_setEntryReport hkeys]
  refine ⟨_, List.mem_map_of_mem he, ?_⟩
  split_ifs <;> exact ⟨rfl, rfl, rfl⟩

theorem reportValue_congr {e e' : Entry} (hpath : e'.path = e.path) (hfc : e'.fc = e.fc)
    (el : ReportEntry) : reportValue conn now e' el = reportValue conn now e el := by
  unfold reportValue buildIECValue
  rw [hpath, hfc]

theorem Carries.keeps {el : ReportEntry} {iv : IECValue} (h : Carries conn now s el iv)
    (hkeeps : Keeps s s') : Carries conn now s' el iv := by
  obtain ⟨e, he, hkey, rfl⟩ := h
  obtain ⟨e', he', hkey', hpath, hfc⟩ := hkeeps e he
  exact ⟨e', he', hkey'.trans hkey, (reportValue_congr hpath hfc el).symm⟩

-- What one element leaves behind.
theorem handleElement_queue (conn : Connection) (now : ℤ) (st : RcbState)
    (hkeys : (s.entries.map Entry.key).Nodup) (el : ReportEntry) :
    Keeps s (handleElement conn now st s el) ∧
      ((handleElement conn now st s el).entries.map Entry.key).Nodup ∧
      ∃ ivs, (handleElement conn now st s el).dataQueue = s.dataQueue ++ ivs ∧
        List.Forall₂ (Carries conn now (handleElement conn now st s el))
          (if mapped conn s el then [el] else []) ivs := by
  cases hmapped : mapped conn s el with
  | false =>
      rw [handleElement_skip now st hmapped]
      exact ⟨fun e he => ⟨e, he, rfl, rfl, rfl⟩, hkeys, [], (List.append_nil _).symm, .nil⟩
  | true =>
      obtain ⟨e, he, heq⟩ := handleElement_mapped now st hmapped
      have hadd := keys_addEntry hkeys (newEntry conn el.ref el.fc)
      have hset : Keeps (addEntry s (newEntry conn el.ref el.fc))
          (handleElement conn now st s el) := by
        rw [heq]
        exact keeps_setEntryReport hadd el.key st.ref
      have hnodup : ((handleElement conn now st s el).entries.map Entry.key).Nodup := by
        rw [heq]
        dsimp only
        rw [keys_setEntryReport hadd]
        exact hadd
      have hcarries : Carries conn now (handleElement conn now st s el) el
          (reportValue conn now e el) := by
        obtain ⟨hmem, hkey⟩ := (entry_eq_some hadd).mp he
        obtain ⟨e', he', hkey', hpath, hfc⟩ := hset e hmem
        exact ⟨e', he', hkey'.trans hkey, (reportValue_congr hpath hfc el).symm⟩
      refine ⟨(keeps_addEntry s _).trans hset, hnodup, [reportValue conn now e el], ?_,
        .cons hcarries .nil⟩
      rw [heq]

theorem handleElements_queue (conn : Connection) (now : ℤ) (st : RcbState)
    (hkeys : (s.entries.map Entry.key).Nodup) (els : List ReportEntry) :
    Keeps s (els.foldl (handleElement conn now st) s) ∧
      ∃ ivs, (els.foldl (handleElement conn now st) s).dataQueue = s.dataQueue ++ ivs ∧
        List.Forall₂ (Carries conn now (els.foldl (handleElement conn now st) s))
          (els.filter (mapped conn s)) ivs := by
  induction els generalizing s with
  | nil =>
      exact ⟨fun e he => ⟨e, he, rfl, rfl, rfl⟩, [], (List.append_nil _).symm, .nil⟩
  | cons el els ih =>
      obtain ⟨hkeeps, hkeys', ivs, hqueue, hivs⟩ :=
        handleElement_queue conn now st hkeys el
      obtain ⟨hrest, ivs', hqueue', hivs'⟩ := ih hkeys'
      have hsame : mapped conn (handleElement conn now st s el) = mapped conn s :=
        funext fun el' => mapped_handleElement now st el el' hkeys
      rw [hsame] at hivs'
      refine ⟨hkeeps.trans hrest, ivs ++ ivs', ?_, ?_⟩
      · rw [List.foldl_cons, hqueue', hqueue, List.append_assoc]
      · have hfirst := hivs.imp fun _ _ h => Carries.keeps h hrest
        rw [List.foldl_cons, List.filter_cons]
        have happend := List.rel_append hfirst hivs'
        cases hmapped : mapped conn s el <;> rw [hmapped] at happend <;> exact happend

-- What a report leaves behind: a value for every element that has a place to go to, or
-- nothing at all.
theorem reportHandler_queue (conn : Connection) (now : ℤ) (st : RcbState)
    (hkeys : (s.entries.map Entry.key).Nodup) (rep : Report) :
    ∃ ivs, (reportHandler conn now s st rep).dataQueue = s.dataQueue ++ ivs ∧
      List.Forall₂ (Carries conn now (reportHandler conn now s st rep))
        (if foreign st rep || repeated s st rep then []
          else (included rep).filter (mapped conn s)) ivs := by
  unfold reportHandler
  by_cases hforeign : foreign st rep = true
  · rw [if_pos hforeign, hforeign]
    exact ⟨[], (List.append_nil _).symm, .nil⟩
  · by_cases hrepeated : repeated s st rep = true
    · rw [if_neg hforeign, if_pos hrepeated, hrepeated, Bool.or_true]
      exact ⟨[], (List.append_nil _).symm, .nil⟩
    · obtain ⟨hentries, -⟩ := trackReport_frame s st rep
      have hqueue : (trackReport s st rep).dataQueue = s.dataQueue := by
        unfold trackReport
        split_ifs <;> rfl
      have hmapped : mapped conn (trackReport s st rep) = mapped conn s := by
        funext el
        simp only [mapped, entry, hentries]
      rw [← hentries] at hkeys
      obtain ⟨-, ivs, hivs, hcarries⟩ :=
        handleElements_queue conn now st hkeys (included rep)
      rw [hmapped] at hcarries
      have hneither : ¬(foreign st rep || repeated s st rep) = true := by
        simp [hforeign, hrepeated]
      rw [if_neg hforeign, if_neg hrepeated, if_neg hneither]
      rw [hqueue] at hivs
      exact ⟨ivs, hivs, hcarries⟩

theorem queues_iff (hkeys : (s.entries.map Entry.key).Nodup) (rep : Report) :
    Queues conn now s (reportHandler conn now s st rep) rep ↔
      included rep = [] ∨ Handled conn s st rep := by
  obtain ⟨ivs, hivs, hcarries⟩ :=
    reportHandler_queue conn now st hkeys rep
  constructor
  · rintro ⟨ivs', hivs', hcarries'⟩
    obtain rfl := List.append_cancel_left (hivs.symm.trans hivs')
    -- as many values as elements, so no element is left out
    have hlength := hcarries.length_eq.trans hcarries'.length_eq.symm
    by_cases hempty : included rep = []
    · exact .inl hempty
    · right
      have hneither : ¬(foreign st rep || repeated s st rep) = true := by
        intro hskip
        rw [if_pos hskip, List.length_nil] at hlength
        exact hempty (List.eq_nil_of_length_eq_zero hlength.symm)
      rw [if_neg hneither, List.length_filter_eq_length_iff] at hlength
      rw [Bool.or_eq_true, not_or] at hneither
      exact ⟨Bool.eq_false_iff.mpr hneither.1, Bool.eq_false_iff.mpr hneither.2, hlength⟩
  · intro h
    refine ⟨ivs, hivs, ?_⟩
    have hall : (if foreign st rep || repeated s st rep then []
        else (included rep).filter (mapped conn s)) = included rep := by
      rcases h with hempty | ⟨hforeign, hrepeated, hmapped⟩
      · rw [hempty, List.filter_nil, ite_self]
      · rw [hforeign, hrepeated, Bool.or_false, if_neg Bool.false_ne_true,
          List.filter_eq_self.mpr hmapped]
    rw [hall] at hcarries
    exact hcarries

end Queue

section Claim

theorem whole_iff_distinguished (hkeys : (s.entries.map Entry.key).Nodup) (a : Action) :
    Whole conn s a ↔ Distinguished conn s a := by
  cases a with
  | report now ref rep =>
      refine forall_congr' fun st => forall_congr' fun _ => forall_congr' fun _ => ?_
      rw [queues_iff hkeys]
      tauto
  | connect | browse | enable | discovered | poll | close => exact Iff.rfl

-- In every run, the reports are queued whole exactly when none is mistaken for a repeat,
-- as a further segment is: it has the EntryID of the segment before.
theorem whole_iff {entries : List Entry} (hentries : (entries.map Entry.key).Nodup)
    (saved : String → Option EntryID) (as : List Action) :
    Run.Allowed (step conn) (Whole conn) (start entries saved) as ↔
      Run.Allowed (step conn) (Distinguished conn) (start entries saved) as := by
  refine Run.allowed_congr (fun s => ∃ h, Inv h s) ?_ ?_ ⟨[], inv_start hentries saved⟩ as
  · rintro s a s' ⟨h, hi⟩ hstep
    exact ⟨_, hi.step hstep⟩
  · rintro s a ⟨h, hi⟩
    exact whole_iff_distinguished hi.marks.keys a

-- A buffered block, with the segments that it sends.
def enablingBuffered : Action :=
  .enable "LD/LLN0.BR.brcb01" true
    { rcb := some ⟨"", "LD/LLN0$Events"⟩, members := [⟨"LD/XCBR1.Pos", .st⟩], first := .ok
      withoutResync := .failed, disabled := false, afterDisable := .failed }

def segment (entryID : EntryID) (subSeqNum : ℕ) (entries : List ReportEntry) : Action :=
  .report 0 "LD/LLN0.BR.brcb01" ⟨1, subSeqNum, entryID, "", entries⟩

def positionReported : ReportEntry := ⟨"LD/XCBR1.Pos", .st, { dataChange := true }, closed⟩

-- Two reports, and the second again.
theorem reports_whole :
    Run.Allowed (step ied) (Whole ied) (start [position] fun _ => none)
      [.connect, enablingBuffered, segment [1] 0 [positionReported],
        segment [2] 0 [positionReported], segment [2] 0 [positionReported]] :=
  (whole_iff (by decide) _ _).mpr (by decide)

-- The second segment of a report.
theorem second_segment_lost : ∃ s s',
    Run.run (step ied) (start [position] fun _ => none)
      [.connect, enablingBuffered, segment [1] 0 [positionReported]] = some s ∧
    step ied s (segment [1] 1 [positionReported]) = some s' ∧
    s'.dataQueue = s.dataQueue ∧ ¬Whole ied s (segment [1] 1 [positionReported]) := by
  have hrun : (Run.run (step ied) (start [position] fun _ => none)
      [.connect, enablingBuffered, segment [1] 0 [positionReported]]).any
      (fun s => (s.entries.map Entry.key).Nodup ∧
        ¬Distinguished ied s (segment [1] 1 [positionReported]) ∧
        (step ied s (segment [1] 1 [positionReported])).any
          (fun s' => s'.dataQueue = s.dataQueue) = true) = true := by
    decide
  obtain ⟨s, hs, hall⟩ := (Option.any_eq_true _ _).mp hrun
  obtain ⟨hkeys, hnot, hstep⟩ := of_decide_eq_true hall
  obtain ⟨s', hs', hqueue⟩ := (Option.any_eq_true _ _).mp hstep
  refine ⟨s, s', hs, hs', of_decide_eq_true hqueue, ?_⟩
  rw [whole_iff_distinguished hkeys]
  exact hnot

end Claim

end JsonScada.Iec61850.Client
