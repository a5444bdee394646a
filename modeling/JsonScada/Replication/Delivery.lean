import JsonScada.Library.Run
import JsonScada.Replication.Written

-- The way of the changes through the queues, the packets and the archive.
namespace JsonScada.Replication

open JsonScada.Library
open JsonScada.Library.Run (run Allowed emitted)
open JsonScada.Processor (Document Value truthyValue)

section Delivery

structure State where
  chgQueue : List Change := []
  cntChg : ℕ := 0
  backfillQueue : List (List Forwarded) := []
  -- the archive
  backfillData : List Forwarded := []
  -- packets on their way, which arrive in order
  sent : List (List Value) := []
  msgQueue : List (List Value) := []
  -- what mongowr has built
  bulkOps : List Write := []
  deriving DecidableEq

inductive Action where
  -- an update reaches the handler of the change stream
  | change (c : Change)
  -- the synchronization reads a document
  | sync (doc : Document)
  | send
  -- `backfillDequeue`
  | archive
  -- the replay reads one of the archived objects
  | replay (i : ℕ)
  | deliver
  -- `procQueue` begins
  | start
  -- it takes a packet from its queue
  | process

variable (js : Js)

def sendPacket (s : State) : State :=
  let batch := dequeueChanges js s.cntChg 0 s.chgQueue
  { s with
    chgQueue := batch.chgQueue
    cntChg := batch.cntChg
    backfillQueue := if batch.bfArr = [] then s.backfillQueue else s.backfillQueue ++ [batch.bfArr]
    sent := s.sent ++ [wireItems js (batch.fwArr.map Forwarded.object)] }

def step (s : State) : Action → Option State
  | .change c =>
      if c.operationType = "update" then some { s with chgQueue := s.chgQueue ++ handleChange c }
      else none
  | .sync doc => some { s with chgQueue := s.chgQueue ++ enqueueDbSync js doc }
  | .send => if s.chgQueue = [] then none else some (sendPacket js s)
  | .archive =>
      some { s with backfillQueue := [], backfillData := s.backfillData ++ s.backfillQueue.flatten }
  | .replay i =>
      s.backfillData[i]?.map fun o => { s with chgQueue := s.chgQueue ++ [o.replayed] }
  | .deliver =>
      match s.sent with
      | [] => none
      | packet :: sent => some { s with sent := sent, msgQueue := s.msgQueue ++ [packet] }
  | .start => some { s with msgQueue := if maxQueue < s.msgQueue.length then [] else s.msgQueue }
  | .process =>
      match s.msgQueue with
      | [] => none
      | packet :: msgQueue =>
          some
            { s with
              msgQueue := msgQueue
              bulkOps := s.bulkOps ++ packet.filterMap (procObject js) }

-- The changes that an action gives to the queue of mongofw.
def handled (s : State) : Action → List Handled
  | .change c =>
      if h : c.operationType = "update" ∧ truthyValue c.source = true then
        [.update { toChange := c, isUpdate := h.1, hasSource := h.2 }]
      else []
  | .sync doc => if enqueueDbSync js doc = [] then [] else [.integrity doc]
  | .replay i => s.backfillData[i]?.toList.map .replay
  | _ => []

-- Nothing is waiting, to be sent or to be written.
def State.Drained (s : State) : Prop := s.chgQueue = [] ∧ s.sent = [] ∧ s.msgQueue = []

instance (s : State) : Decidable s.Drained := inferInstanceAs (Decidable (_ ∧ _ ∧ _))

-- None of the changes is too large, as they are numbered.
def fits : ℕ → List Change → Bool
  | _, [] => true
  | cntChg, c :: chgQueue =>
      jsonLength js (forwarded (cntChg + 1) c).object ≤ maxLengthJSON && fits (cntChg + 1) chgQueue

-- Nothing is discarded for its size, no queue of packets for its length.
def Fits (s : State) : Action → Prop
  | .send => fits js s.cntChg s.chgQueue = true
  | .start => s.msgQueue.length ≤ maxQueue
  | _ => True

instance (s : State) : ∀ a, Decidable (Fits js s a)
  | .send => inferInstanceAs (Decidable (_ = true))
  | .start => inferInstanceAs (Decidable (_ ≤ _))
  | .change _ | .sync _ | .archive | .replay _ | .deliver | .process => .isTrue trivial

-- What has been taken from the queue is built or on its way, as it was handled.
def Inv (changes : List Handled) (s : State) : Prop :=
  ∃ taken waiting, changes = taken ++ waiting ∧ s.chgQueue = waiting.map Handled.queued ∧
    s.bulkOps ++ (s.msgQueue ++ s.sent).flatten.filterMap (procObject js) =
      taken.filterMap fun h => written js h.queued

theorem Inv.init : Inv js [] {} := ⟨[], [], rfl, rfl, rfl⟩

theorem Inv.enqueue {changes : List Handled} {s : State} (h : Inv js changes s)
    (new : List Handled) :
    Inv js (changes ++ new) { s with chgQueue := s.chgQueue ++ new.map Handled.queued } := by
  obtain ⟨taken, waiting, rfl, hqueue, hbuilt⟩ := h
  refine ⟨taken, waiting ++ new, by simp, ?_, hbuilt⟩
  simp only [hqueue, List.map_append]

-- What a packet is made of is what is missing in the queue then.
theorem dequeueChanges_spec {cntChg : ℕ} {chgQueue : List Change} (strSz : ℕ)
    (hfits : fits js cntChg chgQueue = true) :
    ∃ taken, chgQueue = taken ++ (dequeueChanges js cntChg strSz chgQueue).chgQueue ∧
      (wireItems js ((dequeueChanges js cntChg strSz chgQueue).fwArr.map Forwarded.object)).filterMap
        (procObject js) = taken.filterMap (written js) := by
  induction chgQueue generalizing cntChg strSz with
  | nil => exact ⟨[], rfl, rfl⟩
  | cons c chgQueue ih =>
      obtain ⟨hlen, hrest⟩ := Bool.and_eq_true_iff.mp hfits
      have hle : ¬maxLengthJSON < jsonLength js (forwarded (cntChg + 1) c).object :=
        Nat.not_lt.mpr (of_decide_eq_true hlen)
      simp only [dequeueChanges, if_neg hle]
      split
      · refine ⟨[c], rfl, ?_⟩
        simp only [List.map_cons, List.map_nil, wireItems, List.filterMap_cons, List.filterMap_nil,
          procObject_forwarded]
      · obtain ⟨taken, hqueue, hbuilt⟩ :=
          ih (strSz + jsonLength js (forwarded (cntChg + 1) c).object) hrest
        refine ⟨c :: taken, congrArg (c :: ·) hqueue, ?_⟩
        simp only [List.map_cons, wireItems, List.filterMap_cons, procObject_forwarded, hbuilt]

theorem Inv.sendPacket {changes : List Handled} {s : State} (h : Inv js changes s)
    (hfits : fits js s.cntChg s.chgQueue = true) : Inv js changes (sendPacket js s) := by
  obtain ⟨taken, waiting, rfl, hqueue, hbuilt⟩ := h
  obtain ⟨sent, hsplit, hpacket⟩ := dequeueChanges_spec js 0 hfits
  obtain ⟨now, later, rfl, hnow, hlater⟩ := List.map_eq_append_iff.mp (hqueue.symm.trans hsplit)
  refine ⟨taken ++ now, later, by simp, hlater.symm, ?_⟩
  have hbuiltNow : sent.filterMap (written js) = now.filterMap fun h => written js h.queued := by
    rw [← hnow, List.filterMap_map]
    rfl
  simp only [Replication.sendPacket, List.flatten_append, List.flatten_cons, List.flatten_nil,
    List.filterMap_append, List.append_nil, hpacket, hbuiltNow]
  rw [← hbuilt]
  simp

theorem Inv.step {changes : List Handled} {s s' : State} {a : Action} (h : Inv js changes s)
    (hfits : Fits js s a) (hstep : step js s a = some s') :
    Inv js (changes ++ handled js s a) s' := by
  cases a with
  | change c =>
      simp only [Replication.step] at hstep
      split at hstep
      · rename_i hop
        obtain rfl := Option.some.inj hstep
        have hqueue : handleChange c = (handled js s (.change c)).map Handled.queued := by
          cases hsource : truthyValue c.source <;>
            simp [handleChange, handled, hop, hsource, Handled.queued]
        rw [hqueue]
        exact h.enqueue js _
      · cases hstep
  | sync doc =>
      obtain rfl := Option.some.inj hstep
      have hqueue : enqueueDbSync js doc = (handled js s (.sync doc)).map Handled.queued := by
        simp only [handled, enqueueDbSync]
        split <;> simp [Handled.queued]
      rw [hqueue]
      exact h.enqueue js _
  | replay i =>
      simp only [Replication.step, Option.map_eq_some_iff] at hstep
      obtain ⟨o, ho, rfl⟩ := hstep
      have hone : handled js s (.replay i) = [.replay o] := by simp [handled, ho]
      rw [hone]
      exact h.enqueue js [.replay o]
  | send =>
      simp only [Replication.step] at hstep
      split at hstep
      · cases hstep
      · obtain rfl := Option.some.inj hstep
        simpa only [handled, List.append_nil] using h.sendPacket js hfits
  | archive =>
      obtain rfl := Option.some.inj hstep
      change Inv js (changes ++ []) _
      rw [List.append_nil]
      exact h
  | deliver =>
      obtain ⟨taken, waiting, rfl, hqueue, hbuilt⟩ := h
      cases hsent : s.sent with
      | nil => simp [Replication.step, hsent] at hstep
      | cons packet sent =>
          simp only [Replication.step, hsent, Option.some.injEq] at hstep
          subst hstep
          refine ⟨taken, waiting, by simp [handled], hqueue, ?_⟩
          rw [← hbuilt, hsent]
          simp
  | start =>
      obtain rfl := Option.some.inj hstep
      rw [if_neg (Nat.not_lt.mpr hfits)]
      simpa only [handled, List.append_nil] using h
  | process =>
      obtain ⟨taken, waiting, rfl, hqueue, hbuilt⟩ := h
      cases hmsg : s.msgQueue with
      | nil => simp [Replication.step, hmsg] at hstep
      | cons packet msgQueue =>
          simp only [Replication.step, hmsg, Option.some.injEq] at hstep
          subst hstep
          refine ⟨taken, waiting, by simp [handled], hqueue, ?_⟩
          rw [← hbuilt, hmsg]
          simp

-- A run whose changes have all arrived has built what each of them gives.
theorem built_of_drained {as : List Action} {s : State} (hfits : Allowed (step js) (Fits js) {} as)
    (hrun : run (step js) {} as = some s) (hdrained : s.Drained) :
    s.bulkOps = (emitted (step js) (handled js) {} as).filterMap fun h => written js h.queued := by
  have hinv := Run.emitted_invariant (Inv js) (fun _ _ _ _ h hok hs => h.step js hok hs)
    (Inv.init js) hfits hrun
  obtain ⟨taken, waiting, hall, hqueue, hbuilt⟩ := hinv
  obtain ⟨hchg, hsent, hmsg⟩ := hdrained
  obtain rfl : waiting = [] := List.map_eq_nil_iff.mp (hqueue.symm.trans hchg)
  rw [List.nil_append, List.append_nil] at hall
  rw [hsent, hmsg] at hbuilt
  rw [hall, ← hbuilt]
  simp

-- As many writes as there are changes leave none of them without its own.
theorem forall₂_filterMap_iff {α β : Type} {R : α → β → Prop} {f : α → Option β} {l : List α} :
    List.Forall₂ R l (l.filterMap f) ↔ ∀ a ∈ l, ∃ b, f a = some b ∧ R a b := by
  induction l with
  | nil => simp
  | cons a l ih =>
      cases hf : f a with
      | none =>
          rw [List.filterMap_cons_none hf]
          constructor
          · intro h
            have hlen := h.length_eq
            have hle := List.length_filterMap_le f l
            rw [List.length_cons] at hlen
            omega
          · intro h
            obtain ⟨b, hb, -⟩ := h a List.mem_cons_self
            rw [hf] at hb
            cases hb
      | some b =>
          rw [List.filterMap_cons_some hf, List.forall₂_cons, ih]
          simp [hf]

-- Every change has exactly its write, in their order, when each of them comes out as
-- it went in; none that is sent again does.
theorem each_applied_iff (as : List Action) (s : State)
    (hfits : Allowed (step js) (Fits js) {} as) (hrun : run (step js) {} as = some s)
    (hdrained : s.Drained) :
    List.Forall₂ Applied (emitted (step js) (handled js) {} as) s.bulkOps ↔
      ∀ h ∈ emitted (step js) (handled js) {} as, h.Carried := by
  rw [built_of_drained js hfits hrun hdrained, forall₂_filterMap_iff]
  exact forall₂_congr fun h _ => written_iff js h

section Samples

def plainJs : Js where
  runtime := { round := .fin, localOffset := fun _ => 0 }
  toJSON bytes := ⟨.string (WebServer.hex bytes), rfl⟩
  otherDate _ := 0

def breakerOn : Change where
  fullDocument := some [("tag", .string "XCBR5217")]
  operationType := "update"
  documentKey := .document [("_id", .number (.fin 3))]
  updatedFields := [("sourceDataUpdate", .document
    [("valueStringAtSource", .string "on"), ("timeTag", .dateTime 1700000000000),
      ("timeTagAtSource", .null)])]

def point : Document :=
  [("_id", .number (.fin 4)), ("tag", .string "XCBR5238"), ("sourceDataUpdate", .document []),
    ("timeTag", .dateTime 1700000000000)]

-- An update and a point, sent in one packet.
def together : List Action :=
  [.change breakerOn, .sync point, .send, .archive, .deliver, .start, .process]

theorem together_applied : ∃ s, run (step plainJs) {} together = some s ∧ s.bulkOps.length = 2 ∧
    List.Forall₂ Applied (emitted (step plainJs) (handled plainJs) {} together) s.bulkOps := by
  have hrun : (run (step plainJs) {} together).any
      (fun s => s.Drained ∧ s.bulkOps.length = 2) = true := by decide +kernel
  obtain ⟨s, hs, hend⟩ := (Option.any_eq_true _ _).mp hrun
  obtain ⟨hdrained, hlen⟩ := of_decide_eq_true hend
  exact ⟨s, hs, hlen, (each_applied_iff plainJs together s (by decide +kernel) hs hdrained).mpr
    (by decide +kernel)⟩

-- The update is sent, archived and sent again: the second write selects no point.
def again : List Action :=
  [.change breakerOn, .send, .archive, .replay 0, .send, .deliver, .deliver, .start, .process,
    .process]

theorem replay_selects_nothing : ∃ s, run (step plainJs) {} again = some s ∧
    Allowed (step plainJs) (Fits plainJs) {} again ∧ s.Drained ∧
    s.bulkOps.map Write.filter = [some (.string "XCBR5217"), none] ∧
    ¬List.Forall₂ Applied (emitted (step plainJs) (handled plainJs) {} again) s.bulkOps := by
  have hrun : (run (step plainJs) {} again).any (fun s => s.Drained ∧
      s.bulkOps.map Write.filter = [some (.string "XCBR5217"), none] ∧
      ¬List.Forall₂ Applied (emitted (step plainJs) (handled plainJs) {} again) s.bulkOps) =
      true := by decide +kernel
  obtain ⟨s, hs, hend⟩ := (Option.any_eq_true _ _).mp hrun
  exact ⟨s, hs, by decide +kernel, of_decide_eq_true hend⟩

end Samples

end Delivery

end JsonScada.Replication
