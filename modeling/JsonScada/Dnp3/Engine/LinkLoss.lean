import JsonScada.Dnp3.Engine.Lemmas
import JsonScada.Processor.HandleChange

namespace JsonScada.Dnp3.Engine

open JsonScada.Library
open JsonScada.Processor (Document qualityBits)

section Purpose

-- What an event does to the validity that a point is shown with. The processor takes it
-- from the source update.
def shows (k : ValueKey) : Event → Option Bool
  | .written v => if keyOf v = k then some (!(qualityBits (updateOf v).bson).invalid) else none
  | .invalidated c => if k.conn = c then some false else none
  | _ => none

def ShownValid (k : ValueKey) (trace : List Event) : Prop :=
  LastWrite.after (shows k) none trace = some true

instance (k : ValueKey) (trace : List Event) : Decidable (ShownValid k trace) :=
  inferInstanceAs (Decidable (_ = _))

-- The events since the link of the connection came up, none while it is down.
def sinceUpStep (c : ℤ) (since : Option (List Event)) (e : Event) : Option (List Event) :=
  match e with
  | .linkUp c' => if c' = c then some [] else since.map (· ++ [e])
  | .linkDown c' => if c' = c then none else since.map (· ++ [e])
  | e => since.map (· ++ [e])

def sinceUp (c : ℤ) (trace : List Event) : Option (List Event) :=
  trace.foldl (sinceUpStep c) none

-- A value of the point is received, and written after that.
def WrittenFresh (k : ValueKey) (since : List Event) : Prop :=
  ∃ v pre post, keyOf v = k ∧ since = pre ++ .received v :: post ∧ .written v ∈ post

-- The link of the connection was lost, and the points have been marked invalid since.
def ActedOn (c : ℤ) (trace : List Event) : Prop :=
  ∃ pre post, trace = pre ++ .linkDown c :: post ∧ (∀ e ∈ post, e ≠ .linkDown c) ∧
    .invalidated c ∈ post

end Purpose

section Trace

variable {c : ℤ} {k : ValueKey} {trace : List Event} {pending : List Dnp3Value} {e : Event}

theorem sinceUp_concat (c : ℤ) (trace : List Event) (e : Event) :
    sinceUp c (trace ++ [e]) = sinceUpStep c (sinceUp c trace) e := by
  rw [sinceUp, List.foldl_append]
  rfl

-- The events that do not bear on the link of the connection.
def Passes (c : ℤ) (e : Event) : Prop := e ≠ .linkUp c ∧ e ≠ .linkDown c

theorem sinceUp_passes (h : Passes c e) :
    sinceUp c (trace ++ [e]) = (sinceUp c trace).map (· ++ [e]) := by
  rw [sinceUp_concat]
  cases e with
  | linkUp c' =>
      rw [sinceUpStep, if_neg]
      rintro rfl
      exact h.1 rfl
  | linkDown c' =>
      rw [sinceUpStep, if_neg]
      rintro rfl
      exact h.2 rfl
  | _ => rfl

theorem shownValid_concat :
    ShownValid k (trace ++ [e]) ↔ shows k e = some true ∨ shows k e = none ∧ ShownValid k trace := by
  unfold ShownValid
  rw [LastWrite.after_concat]
  cases shows k e with
  | none => simp
  | some valid => simp

theorem actedOn_concat (h : ActedOn c (trace ++ [e])) :
    (e = .invalidated c ∨ ActedOn c trace) ∧ e ≠ .linkDown c := by
  obtain ⟨pre, post, hsplit, hlast, hinvalid⟩ := h
  rcases List.eq_nil_or_concat post with rfl | ⟨post, e', rfl⟩
  · cases hinvalid
  · rw [List.concat_eq_append] at hsplit hlast hinvalid
    rw [← List.cons_append, ← List.append_assoc] at hsplit
    obtain ⟨htrace, he⟩ := List.append_inj' hsplit rfl
    obtain rfl : e = e' := by simpa using he
    refine ⟨?_, hlast e (by simp)⟩
    rcases List.mem_append.mp hinvalid with hinvalid | hinvalid
    · exact .inr ⟨pre, post, htrace, fun e he => hlast e (by simp [he]), hinvalid⟩
    · exact .inl (List.mem_singleton.mp hinvalid).symm

theorem WrittenFresh.concat {since : List Event} (h : WrittenFresh k since) (e : Event) :
    WrittenFresh k (since ++ [e]) := by
  obtain ⟨v, pre, post, hk, rfl, hwritten⟩ := h
  exact ⟨v, pre, post ++ [e], hk, by simp, List.mem_append_left _ hwritten⟩

-- The value has been received since the link came up.
def Fresh (trace : List Event) (v : Dnp3Value) : Prop :=
  ∃ since, sinceUp v.connNumber trace = some since ∧ .received v ∈ since

instance (trace : List Event) (v : Dnp3Value) : Decidable (Fresh trace v) :=
  decidable_of_iff (((sinceUp v.connNumber trace).any fun since => .received v ∈ since) = true) (by
    rw [Option.any_eq_true]
    simp [Fresh])

theorem Fresh.passes {v : Dnp3Value} (h : Fresh trace v) (he : Passes v.connNumber e) :
    Fresh (trace ++ [e]) v := by
  obtain ⟨since, hsince, hreceived⟩ := h
  refine ⟨since ++ [e], ?_, List.mem_append_left _ hreceived⟩
  rw [sinceUp_passes he, hsince]
  rfl

-- Once a loss has been acted on, nothing older than the link is waiting or shown valid.
structure Kept (c : ℤ) (pending : List Dnp3Value) (trace : List Event) : Prop where
  pending : ∀ v ∈ pending, v.connNumber = c → Fresh trace v
  shown : ∀ k, k.conn = c → ShownValid k trace →
    ∃ since, sinceUp c trace = some since ∧ WrittenFresh k since

theorem Kept.shown_concat (h : Kept c pending trace) (he : Passes c e) (hk : k.conn = c)
    (hvalid : ShownValid k trace) :
    ∃ since, sinceUp c (trace ++ [e]) = some since ∧ WrittenFresh k since := by
  obtain ⟨since, hsince, hfresh⟩ := h.shown k hk hvalid
  exact ⟨since ++ [e], by rw [sinceUp_passes he, hsince]; rfl, hfresh.concat e⟩

theorem Kept.passes (h : Kept c pending trace) (he : Passes c e)
    (hshows : ∀ k, k.conn = c → shows k e ≠ some true) : Kept c pending (trace ++ [e]) := by
  constructor
  · intro v hv hc
    exact (h.pending v hv hc).passes (hc ▸ he)
  · intro k hk hvalid
    rcases shownValid_concat.mp hvalid with hvalid | ⟨-, hvalid⟩
    · exact absurd hvalid (hshows k hk)
    · exact h.shown_concat he hk hvalid

theorem Kept.written (h : Kept c pending trace) {v : Dnp3Value} (hv : v ∈ pending) :
    Kept c pending (trace ++ [.written v]) := by
  have he : Passes c (.written v) := ⟨by simp, by simp⟩
  constructor
  · intro w hw hc
    exact (h.pending w hw hc).passes (hc ▸ he)
  · intro k hk hvalid
    by_cases hkv : keyOf v = k
    · have hc : v.connNumber = c := by rw [← hk, ← hkv]; rfl
      obtain ⟨since, hsince, hreceived⟩ := h.pending v hv hc
      obtain ⟨pre, post, rfl⟩ := List.append_of_mem hreceived
      refine ⟨_, by rw [sinceUp_passes he, ← hc, hsince]; rfl, v, pre, post ++ [.written v], hkv, ?_⟩
      exact ⟨by simp, by simp⟩
    · rcases shownValid_concat.mp hvalid with hvalid | ⟨-, hvalid⟩
      · rw [shows, if_neg hkv] at hvalid
        cases hvalid
      · exact h.shown_concat he hk hvalid

theorem Kept.writtenAll (h : Kept c pending trace) {vs : List Dnp3Value}
    (hvs : ∀ v ∈ vs, v ∈ pending) : Kept c pending (trace ++ vs.map .written) := by
  induction vs using List.reverseRecOn with
  | nil => simpa using h
  | append_singleton vs v ih =>
      rw [List.map_append, ← List.append_assoc]
      exact (ih fun w hw => hvs w (by simp [hw])).written (hvs v (by simp))

theorem Kept.linkUp (h : Kept c pending trace) {c' : ℤ} (hdown : sinceUp c' trace = none) :
    Kept c pending (trace ++ [.linkUp c']) := by
  by_cases hc : c' = c
  · subst hc
    constructor
    · intro v hv hvc
      obtain ⟨since, hsince, -⟩ := h.pending v hv hvc
      rw [hvc, hdown] at hsince
      cases hsince
    · intro k hk hvalid
      rcases shownValid_concat.mp hvalid with hvalid | ⟨-, hvalid⟩
      · cases hvalid
      · obtain ⟨since, hsince, -⟩ := h.shown k hk hvalid
        rw [hdown] at hsince
        cases hsince
  · exact h.passes ⟨by simpa using hc, by simp⟩ (by simp [shows])

-- The invalidation of the connection itself.
theorem kept_invalidated (hpending : ∀ v ∈ pending, v.connNumber = c → Fresh trace v) :
    Kept c pending (trace ++ [.invalidated c]) := by
  have he : Passes c (.invalidated c) := ⟨by simp, by simp⟩
  constructor
  · intro v hv hc
    exact (hpending v hv hc).passes (hc ▸ he)
  · intro k hk hvalid
    have hshows : shows k (.invalidated c) = some false := by rw [shows, if_pos hk]
    rcases shownValid_concat.mp hvalid with hvalid | ⟨hnone, -⟩
    · rw [hshows] at hvalid
      cases hvalid
    · rw [hshows] at hnone
      cases hnone

theorem Kept.mono (h : Kept c pending trace) {pending' : List Dnp3Value}
    (hsub : ∀ v ∈ pending', v ∈ pending) : Kept c pending' trace :=
  ⟨fun v hv => h.pending v (hsub v hv), h.shown⟩

theorem Kept.received (h : Kept c pending trace) {v : Dnp3Value}
    (hup : (sinceUp v.connNumber trace).isSome) :
    Kept c (v :: pending) (trace ++ [.received v]) := by
  have he (c : ℤ) : Passes c (.received v) := ⟨by simp, by simp⟩
  refine ⟨?_, (h.passes (he c) (by simp [shows])).shown⟩
  intro w hw hc
  rcases List.mem_cons.mp hw with rfl | hw
  · obtain ⟨since, hsince⟩ := Option.isSome_iff_exists.mp hup
    exact ⟨since ++ [.received w], by rw [sinceUp_passes (he _), hsince]; rfl, by simp⟩
  · exact (h.pending w hw hc).passes (he _)

end Trace

section Steps

variable {conns : List ℤ} {s s' : State} {sessions sessions' : List Session}
  {pending pending' : List Dnp3Value} {trace : List Event}

structure Watching (sessions : List Session) (pending : List Dnp3Value) (trace : List Event) :
    Prop where
  link : ∀ c, (sinceUp c trace).isSome = linkOf sessions c
  kept : ∀ c, ActedOn c trace → Kept c pending trace

theorem Watching.mono (h : Watching sessions pending trace)
    (hsub : ∀ v ∈ pending', v ∈ pending) : Watching sessions pending' trace :=
  ⟨h.link, fun c hc => (h.kept c hc).mono hsub⟩

theorem Watching.sameLinks (h : Watching sessions pending trace)
    (hsame : ∀ c, linkOf sessions' c = linkOf sessions c) : Watching sessions' pending trace :=
  ⟨fun c => (h.link c).trans (hsame c).symm, h.kept⟩

-- An event that bears on no link and makes no point valid or invalid.
theorem Watching.idle (h : Watching sessions pending trace) {e : Event} (he : ∀ c, Passes c e)
    (hshows : ∀ k, shows k e = none) : Watching sessions pending (trace ++ [e]) := by
  constructor
  · intro c
    rw [sinceUp_passes (he c), Option.isSome_map]
    exact h.link c
  · intro c hacted
    rcases (actedOn_concat hacted).1 with rfl | hacted
    · have hnone := hshows ⟨c, 0, 0⟩
      rw [shows, if_pos rfl] at hnone
      cases hnone
    · exact (h.kept c hacted).passes (he c) fun k _ => by rw [hshows k]; simp

theorem Watching.created (h : Watching sessions pending trace) (docs : List Document) :
    Watching sessions pending (trace ++ docs.map fun _ => .created) := by
  induction docs using List.reverseRecOn with
  | nil => simpa using h
  | append_singleton docs d ih =>
      rw [List.map_append, ← List.append_assoc]
      exact ih.idle (fun _ => ⟨by simp, by simp⟩) fun _ => rfl

theorem Watching.written (h : Watching sessions pending trace) {vs : List Dnp3Value}
    (hvs : ∀ v ∈ vs, v ∈ pending) : Watching sessions pending (trace ++ vs.map .written) := by
  induction vs using List.reverseRecOn with
  | nil => simpa using h
  | append_singleton vs v ih =>
      rw [List.map_append, ← List.append_assoc]
      have hrest := ih fun w hw => hvs w (by simp [hw])
      constructor
      · intro c
        rw [List.map_singleton, sinceUp_passes ⟨by simp, by simp⟩, Option.isSome_map]
        exact hrest.link c
      · intro c hacted
        rcases (actedOn_concat hacted).1 with he | hacted
        · cases he
        · exact (hrest.kept c hacted).written (hvs v (by simp))

theorem Watching.received (h : Watching sessions pending trace) {v : Dnp3Value}
    (hup : linkOf sessions v.connNumber = true) :
    Watching sessions (v :: pending) (trace ++ [.received v]) := by
  constructor
  · intro c
    rw [sinceUp_passes ⟨by simp, by simp⟩, Option.isSome_map]
    exact h.link c
  · intro c hacted
    rcases (actedOn_concat hacted).1 with he | hacted
    · cases he
    · exact (h.kept c hacted).received ((h.link _).trans hup)

theorem Watching.invalidated (h : Watching sessions pending trace) {c : ℤ}
    (hpending : ∀ v ∈ pending, v.connNumber = c → Fresh trace v) :
    Watching sessions pending (trace ++ [.invalidated c]) := by
  constructor
  · intro c'
    rw [sinceUp_passes ⟨by simp, by simp⟩, Option.isSome_map]
    exact h.link c'
  · intro c' hacted
    by_cases hc : c = c'
    · subst hc
      exact kept_invalidated hpending
    · rcases (actedOn_concat hacted).1 with he | hacted
      · exact absurd (by simpa using he) hc
      · apply (h.kept c' hacted).passes ⟨by simp, by simp⟩
        intro k hk
        rw [shows, if_neg (fun hkc => hc (hkc.symm.trans hk))]
        simp

theorem sinceUp_linkUp (c : ℤ) (trace : List Event) :
    sinceUp c (trace ++ [.linkUp c]) = some [] := by
  rw [sinceUp_concat, sinceUpStep, if_pos rfl]

theorem sinceUp_linkDown (c : ℤ) (trace : List Event) :
    sinceUp c (trace ++ [.linkDown c]) = none := by
  rw [sinceUp_concat, sinceUpStep, if_pos rfl]

-- The link of one connection changes.
theorem Watching.linkEvents (h : Watching sessions pending trace) {conn : ℤ}
    (hother : ∀ c, c ≠ conn → linkOf sessions' c = linkOf sessions c) :
    Watching sessions' pending (trace ++ linkEvents sessions sessions' conn) := by
  unfold Engine.linkEvents
  split_ifs with hsame hup
  · rw [List.append_nil]
    apply h.sameLinks
    intro c
    by_cases hc : c = conn
    · rw [hc, hsame]
    · exact hother c hc
  · have hdown : linkOf sessions conn = false := by
      rw [hup] at hsame
      simpa using hsame
    have hnone : sinceUp conn trace = none := by
      have := h.link conn
      rw [hdown] at this
      simpa using this
    constructor
    · intro c
      by_cases hc : c = conn
      · rw [hc, sinceUp_linkUp, hup]
        rfl
      · rw [sinceUp_passes ⟨by simpa using Ne.symm hc, by simp⟩, Option.isSome_map, hother c hc]
        exact h.link c
    · intro c hacted
      rcases (actedOn_concat hacted).1 with he | hacted
      · cases he
      · exact (h.kept c hacted).linkUp hnone
  · rw [Bool.not_eq_true] at hup
    constructor
    · intro c
      by_cases hc : c = conn
      · rw [hc, sinceUp_linkDown, hup]
        rfl
      · rw [sinceUp_passes ⟨by simp, by simpa using Ne.symm hc⟩, Option.isSome_map, hother c hc]
        exact h.link c
    · intro c hacted
      obtain ⟨hacted, hne⟩ := actedOn_concat hacted
      have hc : c ≠ conn := by
        rintro rfl
        exact hne rfl
      rcases hacted with he | hacted
      · cases he
      · exact (h.kept c hacted).passes ⟨by simp, by simpa using Ne.symm hc⟩ (by simp [shows])

theorem linkOf_cancel (sessions : List Session) (i : ℕ) (c : ℤ) :
    linkOf (cancel sessions i) c = linkOf sessions c := by
  unfold linkOf cancel
  apply Table.any_modify
  intro session
  rfl

theorem linkOf_of_connected {i : ℕ} {session : Session} (hi : sessions[i]? = some session)
    (hup : session.connected = true) : linkOf sessions session.conn = true := by
  unfold linkOf
  rw [List.any_eq_true]
  exact ⟨session, List.mem_of_getElem? hi, by simp [hup]⟩

theorem Watching.setConnected {i : ℕ} {session : Session} {now : Bool}
    (h : Watching s.sessions pending s.trace) (hi : s.sessions[i]? = some session) :
    Watching (setConnected s i session now).sessions pending
      (setConnected s i session now).trace := by
  apply h.linkEvents
  intro c hc
  exact Table.any_set hi (by simp [Ne.symm hc])

theorem mem_writtenBy {batch : List Dnp3Value} {executed : List ℕ} {v : Dnp3Value}
    (h : v ∈ writtenBy batch executed) : v ∈ batch :=
  List.mem_of_mem_filter (Writer.mem_executedOf h)

theorem Watching.writer {w w' : Writer.State} {a : Writer.Action}
    (h : Watching sessions (w.phase.values ++ w.queue.values) trace) (hpush : ∀ v, a ≠ .push v)
    (hstep : Writer.step w a = some w') :
    Watching sessions (w'.phase.values ++ w'.queue.values) (trace ++ writerEvents w a) := by
  cases a with
  | push v => exact absurd rfl (hpush v)
  | drain =>
      obtain ⟨hidle, rfl⟩ := Writer.step_drain hstep
      rw [show writerEvents w .drain = [] from rfl, List.append_nil]
      apply h.mono
      intro v hv
      dsimp only at hv
      split_ifs at hv with hempty
      · exact absurd hv (by simp [Writer.Phase.values, ValueQueue.new])
      · exact List.mem_append_right _ (by simpa [Writer.Phase.values, ValueQueue.new] using hv)
  | isLive live lookupOk =>
      obtain ⟨batch, hphase, ⟨-, rfl⟩ | ⟨-, rfl⟩⟩ := Writer.step_isLive hstep
      · rw [show writerEvents w (.isLive live lookupOk) = [] from rfl, List.append_nil]
        exact h.mono fun v hv => List.mem_append_right _ hv
      · rw [show writerEvents w (.isLive live lookupOk) = [] from rfl, List.append_nil]
        rw [hphase] at h
        exact h
  | insertMany reached =>
      obtain ⟨batch, inserts, writes, ordered, hphase, rfl⟩ := Writer.step_insertMany hstep
      simp only [writerEvents, hphase]
      rw [hphase] at h
      exact h.created _
  | bulkWrite executed ok =>
      obtain ⟨batch, writes, ordered, hphase, -, rfl⟩ := Writer.step_bulkWrite hstep
      have hmem : ∀ v ∈ writtenBy w.phase.values executed,
          v ∈ w.phase.values ++ w.queue.values :=
        fun v hv => List.mem_append_left _ (mem_writtenBy hv)
      exact (h.written hmem).mono fun v hv => List.mem_append_right _ hv

-- When an invalidation is carried out, no value from before the link came up is waiting
-- for its write.
def NoneStale (s : State) : Action → Prop
  | .invalidatePoints c true =>
      ∀ v ∈ s.writer.phase.values ++ s.writer.queue.values, v.connNumber = c → Fresh s.trace v
  | _ => True

instance decidableNoneStale (s : State) : ∀ a, Decidable (NoneStale s a)
  | .invalidatePoints _ true => inferInstanceAs (Decidable (∀ v ∈ _, _))
  | .invalidatePoints _ false => .isTrue trivial
  | .setActive _ | .startSession | .stopSession | .connect _ | .disconnect _ | .receive _ _
  | .writer _ | .tick | .look | .act | .executeCommand _ | .getSession | .dispatch _
  | .operate _ => .isTrue trivial

def State.Watching (s : State) : Prop :=
  Engine.Watching s.sessions (s.writer.phase.values ++ s.writer.queue.values) s.trace

theorem watching_step {a : Action} (h : s.Watching) (hfresh : NoneStale s a)
    (hstep : step conns s a = some s') : s'.Watching := by
  unfold State.Watching at h ⊢
  cases a with
  | setActive want =>
      obtain ⟨-, -, rfl⟩ := step_setActive hstep
      exact h
  | startSession =>
      obtain ⟨c, rest, -, rfl | ⟨-, rfl⟩⟩ := step_startSession hstep
      · exact h
      · exact h.sameLinks fun c => by simp [linkOf]
  | stopSession =>
      obtain ⟨c, rest, -, rfl⟩ := step_stopSession hstep
      apply h.sameLinks
      intro c'
      cases hsession : (s.runtime c).session with
      | none => rfl
      | some i => exact linkOf_cancel s.sessions i c'
  | connect i =>
      obtain ⟨session, hi, -, -, rfl⟩ := step_connect hstep
      exact h.setConnected hi
  | disconnect i =>
      obtain ⟨session, hi, -, rfl⟩ := step_disconnect hstep
      exact h.setConnected hi
  | receive i v =>
      obtain ⟨session, hi, hup, hconn, rfl⟩ := step_receive hstep
      have hlink := linkOf_of_connected hi hup
      rw [hconn] at hlink
      apply (h.received hlink).mono
      intro w hw
      rcases List.mem_append.mp hw with hw | hw
      · exact List.mem_cons_of_mem _ (List.mem_append_left _ hw)
      · rcases ValueQueue.mem_push hw with hw | rfl
        · exact List.mem_cons_of_mem _ (List.mem_append_right _ hw)
        · exact List.mem_cons_self
  | writer a =>
      obtain ⟨hpush, w, hw, rfl⟩ := step_writer hstep
      exact h.writer hpush hw
  | tick =>
      obtain ⟨-, rfl⟩ := step_tick hstep
      exact h
  | look =>
      obtain ⟨c, rest, -, rfl⟩ := step_look hstep
      exact h
  | act =>
      obtain ⟨c, now, rest, -, rfl⟩ := step_act hstep
      exact h
  | invalidatePoints c ok =>
      obtain ⟨-, rfl⟩ := step_invalidatePoints hstep
      cases ok with
      | true => exact h.invalidated hfresh
      | false =>
          rw [if_neg Bool.false_ne_true, List.append_nil]
          exact h
  | executeCommand c =>
      obtain rfl | ⟨-, rfl⟩ := step_executeCommand hstep <;> exact h
  | getSession =>
      obtain ⟨e, rfl⟩ := step_getSession hstep
      exact h
  | dispatch accepted =>
      obtain ⟨commands, rfl⟩ := step_dispatch hstep
      exact h
  | operate i =>
      obtain ⟨events, rfl, hevents⟩ := step_operate hstep
      suffices hall : ∀ events : List Event, (∀ e ∈ events, ∃ c, e = .issued c) →
          Engine.Watching s.sessions (s.writer.phase.values ++ s.writer.queue.values)
            (s.trace ++ events) by
        apply hall
        intro e he
        obtain ⟨session, -, -, rfl⟩ := hevents e he
        exact ⟨_, rfl⟩
      intro events hissued
      induction events using List.reverseRecOn with
      | nil => simpa using h
      | append_singleton events e ih =>
          obtain ⟨c, rfl⟩ := hissued e (by simp)
          rw [← List.append_assoc]
          exact (ih fun e he => hissued e (by simp [he])).idle (fun _ => ⟨by simp, by simp⟩)
            fun _ => rfl

theorem watching_start (coll : List Document) (wconns : ℤ → Option Connection) :
    (start (Writer.start coll wconns)).Watching := by
  refine ⟨fun _ => rfl, ?_⟩
  rintro c ⟨pre, post, hsplit, -⟩
  cases pre <;> cases hsplit

end Steps

section Claim

-- A point whose connection has lost its link is valid only by a value of the new link.
def LossShown (s : State) : Prop :=
  ∀ k, .linkDown k.conn ∈ s.trace → ShownValid k s.trace →
    ∃ since, sinceUp k.conn s.trace = some since ∧ WrittenFresh k since

theorem noneStale_lossShown {conns : List ℤ} {coll : List Document}
    {wconns : ℤ → Option Connection} {as : List Action} {s : State}
    (hrun : Run.run (step conns) (start (Writer.start coll wconns)) as = some s)
    (hfresh : Run.Allowed (step conns) NoneStale (start (Writer.start coll wconns)) as)
    (hacted : ∀ c, .linkDown c ∈ s.trace → ActedOn c s.trace) : LossShown s := by
  have h : s.Watching := by
    refine Run.invariant ?_ (watching_start coll wconns) hfresh hrun
    exact fun _ _ _ hinv hok hstep => watching_step hinv hok hstep
  intro k hlost hvalid
  exact (h.kept _ (hacted _ hlost)).shown k rfl hvalid

-- The link comes back after the loss, and a value with it.
def restoredRun : List Action :=
  [.setActive true, .startSession, .connect 0, .tick, .look, .act, .disconnect 0, .tick, .look,
    .act, .invalidatePoints 1 true, .connect 0, .receive 0 (ValueQueue.toggled (.fin 1)),
    .writer .drain, .writer (.isLive true fun _ => true), .writer (.insertMany []),
    .writer (.bulkWrite [0] true)]

theorem restored_lossShown : ∃ s,
    Run.run (step [1]) (start (Writer.start [] fun _ => none)) restoredRun = some s ∧
      ShownValid ⟨1, 1, 3⟩ s.trace ∧ LossShown s := by
  have hrun : (Run.run (step [1]) (start (Writer.start [] fun _ => none)) restoredRun).any
      (fun s => s.trace = [.linkUp 1, .linkDown 1, .invalidated 1, .linkUp 1,
        .received (ValueQueue.toggled (.fin 1)), .written (ValueQueue.toggled (.fin 1))]) =
      true := by decide +kernel
  obtain ⟨s, hrun, htrace⟩ := (Option.any_eq_true _ _).mp hrun
  have htrace := of_decide_eq_true htrace
  refine ⟨s, hrun, ?_, noneStale_lossShown hrun (by decide +kernel) ?_⟩
  · rw [htrace]
    decide
  · rw [htrace]
    intro c hc
    obtain rfl : c = 1 := by simpa using hc
    exact ⟨[.linkUp 1], [.invalidated 1, .linkUp 1, .received (ValueQueue.toggled (.fin 1)),
      .written (ValueQueue.toggled (.fin 1))], rfl, by decide, by decide⟩

-- A value is received and the link is lost before the writer comes to it.
def staleRun : List Action :=
  [.setActive true, .startSession, .connect 0, .tick, .look, .act,
    .receive 0 (ValueQueue.toggled (.fin 1)), .disconnect 0, .tick, .look, .act,
    .invalidatePoints 1 true, .writer .drain, .writer (.isLive true fun _ => true),
    .writer (.insertMany []), .writer (.bulkWrite [0] true)]

theorem stale_shown : ∃ s,
    Run.run (step [1]) (start (Writer.start [] fun _ => none)) staleRun = some s ∧
      ActedOn 1 s.trace ∧ ¬LossShown s := by
  have hrun : (Run.run (step [1]) (start (Writer.start [] fun _ => none)) staleRun).any
      (fun s => s.trace = [.linkUp 1, .received (ValueQueue.toggled (.fin 1)), .linkDown 1,
        .invalidated 1, .written (ValueQueue.toggled (.fin 1))]) = true := by decide +kernel
  obtain ⟨s, hrun, htrace⟩ := (Option.any_eq_true _ _).mp hrun
  have htrace := of_decide_eq_true htrace
  refine ⟨s, hrun, ?_, ?_⟩
  · rw [htrace]
    exact ⟨[.linkUp 1, .received (ValueQueue.toggled (.fin 1))],
      [.invalidated 1, .written (ValueQueue.toggled (.fin 1))], rfl, by decide, by decide⟩
  · intro h
    unfold LossShown at h
    rw [htrace] at h
    obtain ⟨since, hsince, -⟩ := h ⟨1, 1, 3⟩ (by decide) (by decide)
    cases hsince

end Claim

end JsonScada.Dnp3.Engine
