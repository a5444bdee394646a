import JsonScada.Library.Run
import Mathlib.Algebra.GroupWithZero.Nat
import Mathlib.Data.List.Basic

-- The worker pool of the Go processor: the reader of the change stream submits events, a
-- dispatcher routes them by their point, and each worker has an inbox of its own.
namespace JsonScada.Processor.Pool

section Model

structure Config where
  workers : ℕ
  changeQueueSize : ℕ

def Config.inboxSize (cfg : Config) : ℕ := cfg.changeQueueSize / cfg.workers + 1

-- What the dispatcher reads of an event: the bytes of `fullDocument._id`, none when there is
-- no such field.
structure ChangeEvent where
  id : Option (List UInt8)

-- Where the reader stands in `Submit`: the queue was full, and then one event was taken out.
inductive Reader where
  | idle
  | full (m : ℕ)
  | again (m : ℕ)

def Reader.held : Reader → List ℕ
  | .idle => []
  | .full m | .again m => [m]

structure Worker where
  current : Option ℕ := none
  inbox : List ℕ := []

def Worker.held (w : Worker) : List ℕ := w.current.toList ++ w.inbox

-- The events are known by their numbers, in the order in which they are submitted.
structure State where
  submitted : ℕ := 0
  reader : Reader := .idle
  changeCh : List ℕ := []
  dispatcher : Option ℕ := none
  workers : List Worker
  handled : List ℕ := []
  dropped : ℕ := 0

def start (cfg : Config) : State where
  workers := List.replicate cfg.workers {}

inductive Label where
  -- `Submit` is called; the dispatcher may be parked on the channel
  | submit (parked : Bool)
  | drop
  | resubmit (parked : Bool)
  | receive
  | dispatch
  | take (i : ℕ)
  | finish (i : ℕ)

-- A send that does not block: to the dispatcher that waits, or into the buffer.
def State.send (cfg : Config) (s : State) (parked : Bool) (m : ℕ) : Option State :=
  if parked && s.dispatcher.isNone && s.changeCh.isEmpty then some { s with dispatcher := some m }
  else if s.changeCh.length < cfg.changeQueueSize then some { s with changeCh := s.changeCh ++ [m] }
  else none

variable (cfg : Config) (hash : List UInt8 → UInt64) (ev : ℕ → ChangeEvent)

-- The inbox for an event.
def route (m : ℕ) : ℕ :=
  if 1 < cfg.workers then (hash ((ev m).id.getD [])).toNat % cfg.workers else 0

def step (s : State) : Label → Option State
  | .submit parked =>
      match s.reader with
      | .idle =>
          let s' := { s with submitted := s.submitted + 1 }
          some ((s'.send cfg parked s.submitted).getD { s' with reader := .full s.submitted })
      | _ => none
  | .drop =>
      match s.reader, s.changeCh with
      | .full m, [] => some { s with reader := .again m }
      | .full m, _ :: changeCh =>
          some { s with changeCh := changeCh, dropped := s.dropped + 1, reader := .again m }
      | _, _ => none
  | .resubmit parked =>
      match s.reader with
      | .again m =>
          let s' := { s with reader := .idle }
          some ((s'.send cfg parked m).getD { s' with dropped := s.dropped + 1 })
      | _ => none
  | .receive =>
      match s.dispatcher, s.changeCh with
      | none, m :: changeCh => some { s with dispatcher := some m, changeCh := changeCh }
      | _, _ => none
  | .dispatch =>
      s.dispatcher.bind fun m =>
        s.workers[route cfg hash ev m]?.bind fun w =>
          if w.inbox.length < cfg.inboxSize then
            some { s with
              dispatcher := none
              workers := s.workers.set (route cfg hash ev m) { w with inbox := w.inbox ++ [m] } }
          else none
  | .take i =>
      match s.workers[i]? with
      | some ⟨none, m :: inbox⟩ => some { s with workers := s.workers.set i ⟨some m, inbox⟩ }
      | _ => none
  | .finish i =>
      match s.workers[i]? with
      | some ⟨some m, inbox⟩ =>
          some { s with workers := s.workers.set i ⟨none, inbox⟩, handled := s.handled ++ [m] }
      | _ => none

-- The events that the workers are handling.
def State.handling (s : State) : List ℕ := s.workers.filterMap Worker.current

-- The events in the queues and in the hands of the reader, the dispatcher and the workers.
def State.pending (s : State) : ℕ :=
  s.reader.held.length + s.changeCh.length + s.dispatcher.toList.length +
    (s.workers.map fun w => w.held.length).sum

end Model

section Order

open JsonScada.Library

section Workers

variable {workers : List Worker} {i : ℕ} {w w' : Worker}

theorem sum_map_set {α : Type*} (f : α → ℕ) {l : List α} {i : ℕ} {a b : α} (h : l[i]? = some a) :
    ((l.set i b).map f).sum + f a = (l.map f).sum + f b := by
  induction l generalizing i with
  | nil => simp at h
  | cons c l ih =>
      cases i with
      | zero =>
          obtain rfl : c = a := by simpa using h
          simp only [List.set_cons_zero, List.map_cons, List.sum_cons]
          omega
      | succ i =>
          have hrest := ih (i := i) (by simpa using h)
          simp only [List.set_cons_succ, List.map_cons, List.sum_cons]
          omega

-- The values of one worker among those of all, when the others have none that count.
theorem filter_filterMap {α : Type*} (f : α → Option ℕ) (p : ℕ → Bool) {l : List α} {i : ℕ}
    (h : ∀ j a, l[j]? = some a → ∀ m, f a = some m → (p m = true ↔ j = i)) :
    (l.filterMap f).filter p = (l[i]?.bind f).toList := by
  induction l generalizing i with
  | nil => rfl
  | cons a l ih =>
      cases i with
      | zero =>
          have hnone : (l.filterMap f).filter p = [] := by
            rw [List.filter_eq_nil_iff]
            intro m hm
            obtain ⟨b, hb, hfb⟩ := List.mem_filterMap.mp hm
            obtain ⟨j, hj⟩ := List.getElem?_of_mem hb
            simpa using (h (j + 1) b (by simpa using hj) m hfb).mp
          cases hf : f a with
          | none => simp [hf, hnone]
          | some m =>
              have hm := (h 0 a rfl m hf).mpr rfl
              simp [hf, hnone, hm]
      | succ i =>
          have hrest := ih (i := i) fun j b hb m hm => by
            rw [h (j + 1) b (by simpa using hb) m hm]
            omega
          cases hf : f a with
          | none => simpa [hf] using hrest
          | some m =>
              have hm : p m = false := by
                have := h 0 a rfl m hf
                simpa using this
              simpa [hf, hm] using hrest

end Workers

section Path

variable {cfg : Config} {hash : List UInt8 → UInt64} {ev : ℕ → ChangeEvent} {s t : State}

-- The events that are not dispatched yet, in their order.
def State.upcoming (s : State) : List ℕ := s.dispatcher.toList ++ s.changeCh ++ s.reader.held

def State.worker (s : State) (i : ℕ) : Worker := s.workers[i]?.getD {}

-- All events of one inbox, from the first one that was handled to the last one submitted.
def path (r : ℕ → ℕ) (s : State) (i : ℕ) : List ℕ :=
  s.handled.filter (r · = i) ++ (s.worker i).held ++ s.upcoming.filter (r · = i)

-- Everything is in its place: the workers hold events of their own, in each inbox the order
-- is that of the submission, and the counts agree.
structure Inv (r : ℕ → ℕ) (s : State) : Prop where
  routed : ∀ i w, s.workers[i]? = some w → ∀ m ∈ w.held, r m = i
  ordered : ∀ i, (path r s i).Pairwise (· < ·)
  below : ∀ i, ∀ m ∈ path r s i, m < s.submitted
  counted : s.submitted = s.handled.length + s.pending + s.dropped

-- The event that a step submits.
def submits (s t : State) : List ℕ := if t.submitted = s.submitted then [] else [s.submitted]

-- A step keeps the order of the events of an inbox, but for those it drops.
structure Moves (r : ℕ → ℕ) (s t : State) : Prop where
  routed : ∀ i w, t.workers[i]? = some w → ∀ m ∈ w.held, r m = i
  submitted : t.submitted = s.submitted ∨ t.submitted = s.submitted + 1
  path : ∀ i, (path r t i).Sublist (path r s i ++ (submits s t).filter (r · = i))
  counted : t.handled.length + t.pending + t.dropped + s.submitted =
    s.handled.length + s.pending + s.dropped + t.submitted

theorem Inv.moves {r : ℕ → ℕ} (h : Inv r s) (hmoves : Moves r s t) : Inv r t := by
  refine ⟨hmoves.routed, ?_, ?_, ?_⟩
  · intro i
    refine List.Pairwise.sublist (hmoves.path i) ?_
    rw [List.pairwise_append]
    refine ⟨h.ordered i, ?_, ?_⟩
    · refine List.Pairwise.filter _ ?_
      unfold submits
      split
      · exact List.Pairwise.nil
      · exact List.pairwise_singleton _ _
    · intro m hm k hk
      unfold submits at hk
      split at hk
      · simp at hk
      · obtain rfl : k = s.submitted := by simpa using (List.mem_filter.mp hk).1
        exact h.below i m hm
  · intro i m hm
    have hle : s.submitted ≤ t.submitted := by
      rcases hmoves.submitted with hsame | hnew <;> omega
    rcases List.mem_append.mp ((hmoves.path i).subset hm) with hm | hm
    · exact Nat.lt_of_lt_of_le (h.below i m hm) hle
    · unfold submits at hm
      split at hm
      · simp at hm
      · next hne =>
        obtain rfl : m = s.submitted := by simpa using (List.mem_filter.mp hm).1
        omega
  · have hcounted := hmoves.counted
    have hs := h.counted
    omega

end Path

section Step

variable {cfg : Config} {hash : List UInt8 → UInt64} {ev : ℕ → ChangeEvent} {s t : State}
  {r : ℕ → ℕ}

theorem pending_eq (s : State) :
    s.pending = s.upcoming.length + (s.workers.map fun w => w.held.length).sum := by
  simp only [State.pending, State.upcoming, List.length_append]
  omega

theorem submits_of_succ (h : t.submitted = s.submitted + 1) : submits s t = [s.submitted] := by
  have hne : t.submitted ≠ s.submitted := by omega
  rw [submits, if_neg hne]

theorem submits_of_eq (h : t.submitted = s.submitted) : submits s t = [] := by
  rw [submits, if_pos h]

-- A step before the dispatcher: only what is upcoming changes.
theorem Moves.of_upcoming (h : Inv r s) (hworkers : t.workers = s.workers)
    (hhandled : t.handled = s.handled) {new : List ℕ}
    (hnew : t.submitted = s.submitted ∧ new = [] ∨
      t.submitted = s.submitted + 1 ∧ new = [s.submitted])
    (hupcoming : t.upcoming.Sublist (s.upcoming ++ new))
    (hcounted : t.upcoming.length + t.dropped = s.upcoming.length + new.length + s.dropped) :
    Moves r s t := by
  have hsubmits : submits s t = new := by
    rcases hnew with ⟨hsame, rfl⟩ | ⟨hsucc, rfl⟩
    · exact submits_of_eq hsame
    · exact submits_of_succ hsucc
  refine ⟨?_, ?_, ?_, ?_⟩
  · rw [hworkers]
    exact h.routed
  · exact hnew.imp And.left And.left
  · intro i
    have hfilter := hupcoming.filter (r · = i)
    rw [List.filter_append] at hfilter
    unfold Pool.path State.worker
    rw [hsubmits, hworkers, hhandled, List.append_assoc _ (List.filter _ s.upcoming)]
    exact hfilter.append_left _
  · rw [pending_eq, pending_eq, hhandled, hworkers]
    rcases hnew with ⟨hsame, rfl⟩ | ⟨hsucc, rfl⟩
    · rw [List.length_nil] at hcounted
      omega
    · rw [List.length_singleton] at hcounted
      omega

-- What is sent comes behind all that was sent before.
theorem send_eq {parked : Bool} {m : ℕ} (hidle : s.reader = .idle)
    (h : s.send cfg parked m = some t) :
    t.workers = s.workers ∧ t.handled = s.handled ∧ t.submitted = s.submitted ∧
      t.dropped = s.dropped ∧ t.upcoming = s.upcoming ++ [m] := by
  unfold State.send at h
  split at h
  · next hparked =>
    simp only [Bool.and_eq_true, Option.isNone_iff_eq_none, List.isEmpty_iff] at hparked
    obtain rfl := Option.some.inj h
    simp [State.upcoming, hparked.1.2, hparked.2, hidle, Reader.held]
  · split at h
    · obtain rfl := Option.some.inj h
      simp [State.upcoming, hidle, Reader.held]
    · cases h

theorem moves_submit (h : Inv r s) {parked : Bool} (hidle : s.reader = .idle) {u : State}
    (hu : u = { s with submitted := s.submitted + 1 }) :
    Moves r s ((u.send cfg parked s.submitted).getD { u with reader := .full s.submitted }) := by
  have hreader : u.reader = .idle := by rw [hu]; exact hidle
  have hupcoming : u.upcoming = s.upcoming := by rw [hu]; rfl
  cases hsend : u.send cfg parked s.submitted with
  | none =>
      subst hu
      refine .of_upcoming h rfl rfl (.inr ⟨rfl, rfl⟩) ?_ ?_
      · simp [State.upcoming, hidle, Reader.held]
      · simp [State.upcoming, hidle, Reader.held, Nat.add_assoc]
  | some t =>
      obtain ⟨hworkers, hhandled, hsubmitted, hdropped, hsent⟩ := send_eq hreader hsend
      rw [hupcoming] at hsent
      subst hu
      refine .of_upcoming h hworkers hhandled (.inr ⟨hsubmitted, rfl⟩) ?_ ?_
      · rw [Option.getD_some, hsent]
      · rw [Option.getD_some, hsent, hdropped, List.length_append]

theorem moves_resubmit (h : Inv r s) {parked : Bool} {m : ℕ} (hagain : s.reader = .again m)
    {u : State} (hu : u = { s with reader := .idle }) :
    Moves r s ((u.send cfg parked m).getD { u with dropped := u.dropped + 1 }) := by
  have hreader : u.reader = .idle := by rw [hu]
  have hupcoming : s.upcoming = u.upcoming ++ [m] := by
    simp [hu, State.upcoming, hagain, Reader.held]
  cases hsend : u.send cfg parked m with
  | none =>
      have hdrop : ({ u with dropped := u.dropped + 1 } : State).upcoming = u.upcoming := rfl
      rw [Option.getD_none]
      refine .of_upcoming h (by rw [hu]) (by rw [hu]) (.inl ⟨by rw [hu], rfl⟩) ?_ ?_
      · rw [hdrop, hupcoming, List.append_nil]
        exact List.sublist_append_left _ _
      · rw [hdrop, hupcoming, List.length_append, List.length_singleton, List.length_nil]
        have hdropped : u.dropped = s.dropped := by rw [hu]
        dsimp only
        omega
  | some t =>
      obtain ⟨hworkers, hhandled, hsubmitted, hdropped, hsent⟩ := send_eq hreader hsend
      rw [← hupcoming] at hsent
      subst hu
      refine .of_upcoming h hworkers hhandled (.inl ⟨hsubmitted, rfl⟩) ?_ ?_
      · rw [Option.getD_some, hsent, List.append_nil]
      · rw [Option.getD_some, hsent, hdropped, List.length_nil]
        rfl

-- A step of one worker or to one worker: its part of the path is as before.
theorem Moves.of_worker (h : Inv r s) {i : ℕ} {w w' : Worker} (hw : s.workers[i]? = some w)
    (hworkers : t.workers = s.workers.set i w') (hsubmitted : t.submitted = s.submitted)
    (hdropped : t.dropped = s.dropped) (hheld : ∀ m ∈ w'.held, r m = i)
    (hpath : t.handled.filter (r · = i) ++ w'.held ++ t.upcoming.filter (r · = i) =
      s.handled.filter (r · = i) ++ w.held ++ s.upcoming.filter (r · = i))
    (hothers : ∀ j, j ≠ i → t.handled.filter (r · = j) = s.handled.filter (r · = j) ∧
      t.upcoming.filter (r · = j) = s.upcoming.filter (r · = j))
    (hcounted : t.handled.length + t.upcoming.length + w'.held.length =
      s.handled.length + s.upcoming.length + w.held.length) : Moves r s t := by
  have hi : i < s.workers.length := (List.getElem?_eq_some_iff.mp hw).1
  refine ⟨?_, .inl hsubmitted, ?_, ?_⟩
  · intro j v hv
    rw [hworkers] at hv
    by_cases hj : i = j
    · subst hj
      rw [List.getElem?_set_self hi] at hv
      obtain rfl := Option.some.inj hv
      exact hheld
    · rw [List.getElem?_set_ne hj] at hv
      exact h.routed j v hv
  · intro j
    rw [submits_of_eq hsubmitted, List.filter_nil, List.append_nil]
    unfold Pool.path State.worker
    rw [hworkers]
    by_cases hj : i = j
    · subst hj
      rw [List.getElem?_set_self hi, hw, Option.getD_some, Option.getD_some, hpath]
    · obtain ⟨hhandled, hupcoming⟩ := hothers j (Ne.symm hj)
      rw [List.getElem?_set_ne hj, hhandled, hupcoming]
  · have hsum := sum_map_set (fun w : Worker => w.held.length) (b := w') hw
    rw [pending_eq, pending_eq, hworkers, hdropped, hsubmitted]
    omega

theorem moves_step (h : Inv (route cfg hash ev) s) {l : Label}
    (hstep : step cfg hash ev s l = some t) : Moves (route cfg hash ev) s t := by
  cases l with
  | submit parked =>
      simp only [step] at hstep
      split at hstep
      · next hidle => exact Option.some.inj hstep ▸ moves_submit h hidle rfl
      · cases hstep
  | drop =>
      simp only [step] at hstep
      split at hstep
      · next m hreader hempty =>
        obtain rfl := Option.some.inj hstep
        refine .of_upcoming h rfl rfl (.inl ⟨rfl, rfl⟩) ?_ ?_
        · simp [State.upcoming, hreader, Reader.held]
        · simp [State.upcoming, hreader, Reader.held]
      · next m n changeCh hreader hqueue =>
        obtain rfl := Option.some.inj hstep
        refine .of_upcoming h rfl rfl (.inl ⟨rfl, rfl⟩) ?_ ?_
        · simp [State.upcoming, hreader, hqueue, Reader.held]
        · simp only [State.upcoming, hreader, hqueue, Reader.held, List.length_append,
            List.length_cons, List.length_nil]
          omega
      · cases hstep
  | resubmit parked =>
      simp only [step] at hstep
      split at hstep
      · next m hagain => exact Option.some.inj hstep ▸ moves_resubmit h hagain rfl
      · cases hstep
  | receive =>
      simp only [step] at hstep
      split at hstep
      · next m changeCh hdispatcher hqueue =>
        obtain rfl := Option.some.inj hstep
        refine .of_upcoming h rfl rfl (.inl ⟨rfl, rfl⟩) ?_ ?_
        · simp [State.upcoming, hdispatcher, hqueue]
        · simp [State.upcoming, hdispatcher, hqueue]
      · cases hstep
  | dispatch =>
      obtain ⟨m, hm, hstep⟩ := Option.bind_eq_some_iff.mp hstep
      obtain ⟨w, hw, hstep⟩ := Option.bind_eq_some_iff.mp hstep
      split at hstep
      · obtain rfl := Option.some.inj hstep
        refine .of_worker h hw rfl rfl rfl ?_ ?_ ?_ ?_
        · intro n hn
          rcases List.mem_append.mp hn with hn | hn
          · exact h.routed _ w hw n (List.mem_append_left _ hn)
          · rcases List.mem_append.mp hn with hn | hn
            · exact h.routed _ w hw n (List.mem_append_right _ hn)
            · rw [List.mem_singleton.mp hn]
        · simp [Worker.held, State.upcoming, hm]
        · intro j hj
          simp [State.upcoming, hm, Ne.symm hj]
        · simp only [Worker.held, State.upcoming, hm, List.length_append, Option.toList_none,
            Option.toList_some, List.length_nil, List.length_singleton]
          omega
      · cases hstep
  | take i =>
      simp only [step] at hstep
      split at hstep
      · next m inbox hw =>
        obtain rfl := Option.some.inj hstep
        exact .of_worker h hw rfl rfl rfl (fun n hn => h.routed i ⟨none, m :: inbox⟩ hw n hn) rfl
          (fun _ _ => ⟨rfl, rfl⟩) rfl
      · cases hstep
  | finish i =>
      simp only [step] at hstep
      split at hstep
      · next m inbox hw =>
        obtain rfl := Option.some.inj hstep
        have hm : route cfg hash ev m = i := h.routed i _ hw m List.mem_cons_self
        refine .of_worker h hw rfl rfl rfl ?_ ?_ ?_ ?_
        · intro n hn
          exact h.routed i _ hw n (List.mem_cons_of_mem _ hn)
        · simp [Worker.held, hm, State.upcoming]
        · intro j hj
          have hne : route cfg hash ev m ≠ j := hm ▸ Ne.symm hj
          simp [hne, State.upcoming]
        · simp only [Worker.held, State.upcoming, List.length_append, Option.toList_none,
            Option.toList_some, List.length_nil, List.length_singleton]
          omega
      · cases hstep

theorem inv_start (r : ℕ → ℕ) (cfg : Config) : Inv r (start cfg) := by
  have hworker (i : ℕ) (w : Worker) (hw : (start cfg).workers[i]? = some w) : w = {} := by
    exact List.eq_of_mem_replicate (List.mem_of_getElem? hw)
  have hpath (i : ℕ) : path r (start cfg) i = [] := by
    have hempty : (start cfg).worker i = {} := by
      unfold State.worker
      cases hw : (start cfg).workers[i]? with
      | none => rfl
      | some w => exact hworker i w hw
    rw [path, hempty]
    rfl
  refine ⟨?_, ?_, ?_, ?_⟩
  · intro i w hw m hm
    rw [hworker i w hw] at hm
    cases hm
  · intro i
    rw [hpath]
    exact List.Pairwise.nil
  · intro i m hm
    rw [hpath] at hm
    cases hm
  · simp [start, State.pending, Reader.held, Worker.held]

end Step

section Run

variable {cfg : Config} {hash : List UInt8 → UInt64} {ev : ℕ → ChangeEvent} {s : State}
  {ls : List Label}

theorem inv_run (hrun : Run.run (step cfg hash ev) (start cfg) ls = some s) :
    Inv (route cfg hash ev) s :=
  Run.preserved (Inv (route cfg hash ev)) (fun _ _ _ h hstep => h.moves (moves_step h hstep))
    (inv_start _ cfg) hrun

theorem route_congr {m k : ℕ} (h : (ev m).id = (ev k).id) :
    route cfg hash ev m = route cfg hash ev k := by
  rw [route, h, route]

-- The workers that handle events of one inbox are one at most.
theorem handling_filter {r : ℕ → ℕ} (h : Inv r s) (i : ℕ) :
    s.handling.filter (r · = i) = (s.worker i).current.toList := by
  rw [State.handling, filter_filterMap Worker.current (r · = i) (i := i)]
  · unfold State.worker
    cases s.workers[i]? <;> rfl
  · intro j w hw m hm
    have hj := h.routed j w hw m (by simp [Worker.held, hm])
    simp [hj]

-- The events of one inbox that were handled or are being handled, in their order.
theorem handled_ordered {r : ℕ → ℕ} (h : Inv r s) (i : ℕ) :
    ((s.handled ++ s.handling).filter (r · = i)).Pairwise (· < ·) := by
  rw [List.filter_append, handling_filter h]
  refine List.Pairwise.sublist ?_ (h.ordered i)
  unfold path Worker.held
  rw [List.append_assoc, List.append_assoc]
  exact (List.sublist_append_left _ _).append_left _

-- The events of a point are handled one at a time and in the order in which they were
-- submitted, no event is handled twice, and every event is accounted for.
theorem ordered_and_counted (cfg : Config) (hash : List UInt8 → UInt64) (ev : ℕ → ChangeEvent)
    (ls : List Label) (s : State) (hrun : Run.run (step cfg hash ev) (start cfg) ls = some s) :
    (∀ id, (s.handling.filter fun m => (ev m).id = id).length ≤ 1 ∧
      ((s.handled ++ s.handling).filter fun m => (ev m).id = id).Pairwise (· < ·)) ∧
    (s.handled ++ s.handling).Nodup ∧
    s.submitted = s.handled.length + s.pending + s.dropped := by
  have h := inv_run hrun
  -- the events of a point are among those of one inbox
  have hpoint (id : Option (List UInt8)) (l : List ℕ) (k : ℕ) (hk : (ev k).id = id) :
      (l.filter fun m => (ev m).id = id).Sublist
        (l.filter (route cfg hash ev · = route cfg hash ev k)) := by
    refine List.monotone_filter_right l ?_
    intro m hm
    simp only [decide_eq_true_eq] at hm ⊢
    exact route_congr (hm.trans hk.symm)
  refine ⟨?_, ?_, h.counted⟩
  · intro id
    constructor
    · cases hpoints : s.handling.filter fun m => (ev m).id = id with
      | nil => simp
      | cons k l =>
          have hk : (ev k).id = id := by
            have hmem : k ∈ s.handling.filter fun m => (ev m).id = id := by
              rw [hpoints]
              exact List.mem_cons_self
            simpa using (List.mem_filter.mp hmem).2
          rw [← hpoints]
          have hle := (hpoint id s.handling k hk).length_le
          rw [handling_filter h] at hle
          exact Nat.le_trans hle Option.length_toList_le
    · cases hpoints : (s.handled ++ s.handling).filter fun m => (ev m).id = id with
      | nil => exact List.Pairwise.nil
      | cons k l =>
          have hk : (ev k).id = id := by
            have hmem : k ∈ (s.handled ++ s.handling).filter fun m => (ev m).id = id := by
              rw [hpoints]
              exact List.mem_cons_self
            simpa using (List.mem_filter.mp hmem).2
          rw [← hpoints]
          exact (handled_ordered h _).sublist (hpoint id _ k hk)
  · rw [List.nodup_iff_count]
    intro m
    have hcount : (s.handled ++ s.handling).count m =
        ((s.handled ++ s.handling).filter (route cfg hash ev · = route cfg hash ev m)).count m := by
      rw [List.count_filter (by simp)]
    rw [hcount]
    exact List.nodup_iff_count.mp ((handled_ordered h _).imp Nat.ne_of_lt) m

end Run

section Samples

-- A full queue: the oldest event gives way, and is counted.
def overload : List Label :=
  [.submit false, .receive, .submit false, .submit false, .drop, .resubmit false, .dispatch,
    .take 0, .receive, .finish 0, .dispatch, .take 0]

theorem overload_ordered_and_counted :
    ∃ s, Run.run (step ⟨1, 1⟩ (fun _ => 0) fun _ => ⟨none⟩) (start ⟨1, 1⟩) overload = some s ∧
      s.submitted = s.handled.length + s.pending + s.dropped := by
  have hrun : (Run.run (step ⟨1, 1⟩ (fun _ => 0) fun _ => ⟨none⟩) (start ⟨1, 1⟩) overload).isSome =
      true := by
    decide
  obtain ⟨s, hs⟩ := Option.isSome_iff_exists.mp hrun
  exact ⟨s, hs, (ordered_and_counted ⟨1, 1⟩ (fun _ => 0) (fun _ => ⟨none⟩) overload s hs).2.2⟩

end Samples

end Order

end JsonScada.Processor.Pool
