import JsonScada.Iec60870.Server.Interrogation
import JsonScada.Library.Backlog

namespace JsonScada.Iec60870.Server

open JsonScada.Library
open JsonScada.Library.Batches (IsBatch Cuts extent isBatch_extent)

section Queue

structure QueuedInfo where
  obj : InfoObject
  ca : ℤ
deriving DecidableEq

-- What the objects of one ASDU have in common.
def QueuedInfo.kind (it : QueuedInfo) : ℕ × ℤ := (it.obj.typeId, it.ca)

-- The oldest item comes first. Without a positive limit nothing is dropped.
structure InfoQueue where
  items : List QueuedInfo := []
  limit : ℤ

namespace InfoQueue

variable (q : InfoQueue)

def isFull : Bool := 0 < q.limit && q.limit ≤ q.items.length

def push (it : QueuedInfo) : InfoQueue :=
  { q with items := (if q.isFull then q.items.tail else q.items) ++ [it] }

def popBatch (max : ℤ) : List QueuedInfo × InfoQueue :=
  match q.items with
  | [] => ([], q)
  | head :: rest =>
      let cnt := extent QueuedInfo.kind max head.kind 1 rest + 1
      (q.items.take cnt, { q with items := q.items.drop cnt })

end InfoQueue

inductive Op where
  | push (it : QueuedInfo)
  | popBatch (max : ℤ)

def Op.pushed : Op → List QueuedInfo
  | push it => [it]
  | popBatch _ => []

-- What leaves the queue.
inductive Taken where
  | dropped (items : List QueuedInfo)
  | popped (batch : List QueuedInfo)

def Taken.items : Taken → List QueuedInfo
  | dropped items => items
  | popped batch => batch

def Taken.sent : Taken → List QueuedInfo
  | dropped _ => []
  | popped batch => batch

def InfoQueue.step (q : InfoQueue) : Op → Taken × InfoQueue
  | .push it => (.dropped (if q.isFull then q.items.take 1 else []), q.push it)
  | .popBatch max => (.popped (q.popBatch max).1, (q.popBatch max).2)

-- What the operations take from the queue, in order, and what they leave.
def InfoQueue.run (q : InfoQueue) : List Op → List Taken × InfoQueue
  | [] => ([], q)
  | op :: ops => ((q.step op).1 :: ((q.step op).2.run ops).1, ((q.step op).2.run ops).2)

def pushes (ops : List Op) : List QueuedInfo := ops.flatMap Op.pushed

-- A push drops the oldest item when the queue is full, and nothing otherwise. What is popped is a
-- batch in front of the rest.
def Right (q : InfoQueue) : Op → Taken → InfoQueue → Prop
  | .push it, .dropped old, q' =>
      old ++ q'.items = q.items ++ [it] ∧ old.length = if q.isFull then 1 else 0
  | .popBatch max, .popped batch, q' =>
      batch ++ q'.items = q.items ∧
        (q.items ≠ [] → IsBatch QueuedInfo.kind max batch q'.items)
  | _, _, _ => False

end Queue

section Steps

variable {q : InfoQueue} {op : Op} {ops : List Op}

theorem push_spec (q : InfoQueue) (it : QueuedInfo) :
    Right q (.push it) (q.step (.push it)).1 (q.push it) := by
  simp only [InfoQueue.step, InfoQueue.push, Right]
  cases hfull : q.isFull with
  | false => simp
  | true =>
      cases hitems : q.items with
      | nil =>
          rw [InfoQueue.isFull, hitems] at hfull
          simp only [Bool.and_eq_true, decide_eq_true_eq, List.length_nil] at hfull
          omega
      | cons first rest => simp

theorem popBatch_cons {first : QueuedInfo} {rest : List QueuedInfo} (h : q.items = first :: rest)
    (max : ℤ) :
    q.popBatch max =
      (first :: rest.take (extent QueuedInfo.kind max first.kind 1 rest),
        { q with items := rest.drop (extent QueuedInfo.kind max first.kind 1 rest) }) := by
  simp only [InfoQueue.popBatch, h, List.take_succ_cons, List.drop_succ_cons]

theorem popBatch_spec (q : InfoQueue) (max : ℤ) :
    Right q (.popBatch max) (q.step (.popBatch max)).1 (q.popBatch max).2 := by
  simp only [InfoQueue.step, Right]
  cases hitems : q.items with
  | nil =>
      have hnone : q.popBatch max = ([], q) := by simp only [InfoQueue.popBatch, hitems]
      rw [hnone]
      exact ⟨hitems, fun h => absurd rfl h⟩
  | cons first rest =>
      rw [popBatch_cons hitems]
      refine ⟨?_, fun _ => isBatch_extent first rest⟩
      rw [List.cons_append, List.take_append_drop]

theorem step_right (q : InfoQueue) (op : Op) : Right q op (q.step op).1 (q.step op).2 := by
  cases op with
  | push it => exact push_spec q it
  | popBatch max => exact popBatch_spec q max

-- Nothing is lost or moved by a step.
theorem Right.items {taken : Taken} {q' : InfoQueue} (h : Right q op taken q') :
    taken.items ++ q'.items = q.items ++ op.pushed := by
  cases op <;> cases taken <;> simp_all [Right, Taken.items, Op.pushed]

theorem Right.sent {taken : Taken} {q' : InfoQueue} (h : Right q op taken q') :
    (taken.sent ++ q'.items).Sublist (q.items ++ op.pushed) := by
  rw [← h.items]
  refine List.Sublist.append ?_ (List.Sublist.refl _)
  cases taken with
  | dropped items => exact List.nil_sublist _
  | popped batch => exact List.Sublist.refl _

theorem step_limit (q : InfoQueue) (op : Op) : (q.step op).2.limit = q.limit := by
  cases op with
  | push it => rfl
  | popBatch max =>
      simp only [InfoQueue.step, InfoQueue.popBatch]
      split <;> rfl

end Steps

section Runs

variable {q : InfoQueue}

-- The run over operations that follow others starts where those ended.
theorem run_append (q : InfoQueue) (pre post : List Op) :
    q.run (pre ++ post) =
      ((q.run pre).1 ++ ((q.run pre).2.run post).1, ((q.run pre).2.run post).2) := by
  induction pre generalizing q with
  | nil => rfl
  | cons op pre ih => simp only [List.cons_append, InfoQueue.run, ih]

theorem run_items (q : InfoQueue) (ops : List Op) :
    (q.run ops).1.flatMap Taken.items ++ (q.run ops).2.items = q.items ++ pushes ops := by
  induction ops generalizing q with
  | nil => simp [InfoQueue.run, pushes]
  | cons op ops ih =>
      have hstep := (step_right q op).items
      simp only [InfoQueue.run, pushes, List.flatMap_cons, List.append_assoc] at ih ⊢
      rw [ih, ← List.append_assoc, hstep, List.append_assoc]

theorem run_sent (q : InfoQueue) (ops : List Op) :
    ((q.run ops).1.flatMap Taken.sent ++ (q.run ops).2.items).Sublist (q.items ++ pushes ops) := by
  induction ops generalizing q with
  | nil => simp [InfoQueue.run, pushes]
  | cons op ops ih =>
      have hrest := (ih (q.step op).2).append_left (q.step op).1.sent
      have hstep := (step_right q op).sent.append_right (pushes ops)
      simp only [InfoQueue.run, pushes, List.flatMap_cons, List.append_assoc] at hrest hstep ⊢
      exact hrest.trans hstep

theorem push_length {it : QueuedInfo} (hlimit : 0 < q.limit) (h : q.items.length ≤ q.limit) :
    ((q.push it).items.length : ℤ) ≤ q.limit := by
  simp only [InfoQueue.push, InfoQueue.isFull, Bool.and_eq_true, decide_eq_true_eq, hlimit,
    true_and, List.length_append, List.length_singleton]
  split_ifs with hfull
  · rw [List.length_tail]
    omega
  · omega

theorem popBatch_length (q : InfoQueue) (max : ℤ) :
    (q.popBatch max).2.items.length ≤ q.items.length := by
  rw [← (popBatch_spec q max).items.trans (List.append_nil _), List.length_append]
  omega

-- A queue with a limit never grows beyond it.
theorem run_length (ops : List Op) (hlimit : 0 < q.limit) (h : q.items.length ≤ q.limit) :
    ((q.run ops).2.items.length : ℤ) ≤ q.limit := by
  induction ops generalizing q with
  | nil => exact h
  | cons op ops ih =>
      have hkept := step_limit q op
      have hnext : ((q.step op).2.items.length : ℤ) ≤ q.limit := by
        cases op with
        | push it => exact push_length hlimit h
        | popBatch max =>
            have hpop := popBatch_length q max
            simp only [InfoQueue.step]
            omega
      rw [← hkept] at hlimit hnext ⊢
      exact ih hlimit hnext

end Runs

section Interrogations

variable (env : Env) (conn : Conn) (q : ℤ)

def Answer.kind (a : Answer) : ℕ × ℤ := (a.obj.typeId, a.ca)

-- The objects of the replies, as they are grouped.
def Reply.groups : Reply → List (List Answer)
  | data _ answers => [answers]
  | _ => []

-- What is to be answered, in the order in which it is sent.
def answersTo : List Answer :=
  match interrogated env conn q with
  | none => []
  | some points => (points.mergeSort (byASDU env conn)).filterMap (answer env conn)

variable {b : Batch} {a : Answer} {answers : List Answer}

-- What a batch that is being filled holds: answers of its kind, 30 at most.
structure Batch.Filling (b : Batch) : Prop where
  uniform : ∀ a ∈ b.answers, a.kind = (b.typeId, b.ca)
  size : b.answers.length ≤ 30

theorem Batch.Filling.taken (hb : b.Filling) (htakes : b.takes a = true) :
    Batch.Filling { typeId := a.obj.typeId, ca := a.ca, answers := b.answers ++ [a] } := by
  rw [Batch.takes, Bool.or_eq_true] at htakes
  rcases htakes with hempty | hsame
  · rw [List.isEmpty_iff.mp hempty, List.nil_append]
    refine ⟨fun a' ha' => ?_, by simp⟩
    rw [List.mem_singleton.mp ha', Answer.kind]
  · simp only [Bool.and_eq_true, decide_eq_true_eq] at hsame
    obtain ⟨⟨htype, hca⟩, hroom⟩ := hsame
    refine ⟨fun a' ha' => ?_, ?_⟩
    · rcases List.mem_append.mp ha' with ha' | ha'
      · rw [hb.uniform a' ha', htype, hca]
      · rw [List.mem_singleton.mp ha', Answer.kind]
    · rw [List.length_append, List.length_singleton]
      exact hroom

theorem filling_singleton (a : Answer) :
    Batch.Filling { typeId := a.obj.typeId, ca := a.ca, answers := [] ++ [a] } :=
  ⟨fun a' ha' => by rw [List.mem_singleton.mp ha', Answer.kind], by simp⟩

-- A batch is closed only by an answer that it cannot hold.
theorem Batch.Filling.isBatch (hb : b.Filling) (hne : b.answers ≠ [])
    (rest : List Answer) (h : ∀ next ∈ rest.head?, b.takes next = false) :
    IsBatch Answer.kind 30 b.answers rest := by
  refine ⟨hne, fun a ha a' ha' => (hb.uniform a ha).trans (hb.uniform a' ha').symm, ?_, ?_⟩
  · have hsize := hb.size
    omega
  · intro hroom next hnext a ha hkind
    have htakes := h next hnext
    rw [hb.uniform a ha, Answer.kind, Prod.mk.injEq] at hkind
    have hroom : b.answers.length < 30 := by omega
    simp [Batch.takes, hkind.1, hkind.2, hroom] at htakes

theorem collect_append (sent : List Batch) (b : Batch) (answers : List Answer) :
    collect sent b answers = sent ++ collect [] b answers := by
  induction answers generalizing sent b with
  | nil =>
      simp only [collect, flush]
      split_ifs <;> simp
  | cons a rest ih =>
      cases htakes : b.takes a with
      | true =>
          simp only [collect, htakes, if_true]
          exact ih sent _
      | false =>
          simp only [collect, htakes, Bool.false_eq_true, if_false]
          rw [ih (flush sent b), ih (flush [] b), ← List.append_assoc]
          congr 1
          simp only [flush]
          split_ifs <;> simp

-- The batches of the answers, the one being filled among them, cut the answers.
theorem collect_cuts (hb : b.Filling) (hne : b.answers ≠ []) (answers : List Answer) :
    Cuts Answer.kind 30 ((collect [] b answers).map Batch.answers) ∧
      ((collect [] b answers).map Batch.answers).flatten = b.answers ++ answers := by
  have hempty : b.answers.isEmpty = false := by
    cases h : b.answers.isEmpty with
    | false => rfl
    | true => exact absurd (List.isEmpty_iff.mp h) hne
  induction answers generalizing b with
  | nil =>
      simp only [collect, flush, hempty, Bool.false_eq_true, if_false, List.nil_append,
        List.map_singleton, List.flatten_singleton, List.append_nil, and_true]
      exact ⟨hb.isBatch hne _ (by simp), trivial⟩
  | cons a rest ih =>
      cases htakes : b.takes a with
      | true =>
          simp only [collect, htakes, if_true]
          obtain ⟨hcuts, hflat⟩ := ih (hb.taken htakes) (by simp) (by simp)
          exact ⟨hcuts, by rw [hflat, List.append_assoc, List.singleton_append]⟩
      | false =>
          obtain ⟨hcuts, hflat⟩ := ih (filling_singleton a) (by simp) (by simp)
          have hflush : flush [] b = [b] := by simp only [flush, hempty]; rfl
          simp only [collect, htakes, Bool.false_eq_true, if_false, hflush]
          rw [collect_append, List.map_append, List.map_singleton, List.singleton_append]
          refine ⟨⟨hb.isBatch hne _ fun next hnext => ?_, hcuts⟩, ?_⟩
          · rw [hflat, List.nil_append, List.singleton_append, List.head?_cons] at hnext
            exact Option.some.inj hnext ▸ htakes
          · rw [List.flatten_cons, hflat, List.nil_append, List.singleton_append]

theorem collect_nil_cuts (typeId : ℕ) (ca : ℤ) (answers : List Answer) :
    let batches := collect [] { typeId := typeId, ca := ca, answers := [] } answers
    Cuts Answer.kind 30 (batches.map Batch.answers) ∧
      (batches.map Batch.answers).flatten = answers := by
  cases answers with
  | nil => exact ⟨trivial, rfl⟩
  | cons a rest => exact collect_cuts (filling_singleton a) (by simp) rest

theorem groups_eq (env : Env) (conn : Conn) (q : ℤ) :
    (interrogation env conn q).flatMap Reply.groups =
      (collect [] { typeId := 0, ca := -1, answers := [] } (answersTo env conn q)).map
        Batch.answers := by
  unfold interrogation answersTo
  cases interrogated env conn q with
  | none => rfl
  | some points =>
      simp only [List.cons_append, List.flatMap_cons, List.flatMap_append, List.flatMap_map,
        Reply.groups, List.nil_append, List.flatMap_nil, List.append_nil]
      exact List.map_eq_flatMap.symm

end Interrogations

section Theorems

-- What is popped and what is still queued is what was pushed, in its order, but for the oldest
-- items, dropped one by one when the queue is full. The queue stays within its limit, and each
-- batch is uniform and as long as it may be, as those of an interrogation are.
theorem info_queue_keeps (limit : ℤ) (ops : List Op) :
    let q₀ : InfoQueue := { limit := limit }
    (q₀.run ops).1.flatMap Taken.items ++ (q₀.run ops).2.items = pushes ops ∧
      ((q₀.run ops).1.flatMap Taken.sent ++ (q₀.run ops).2.items).Sublist (pushes ops) ∧
      (0 < limit → ((q₀.run ops).2.items.length : ℤ) ≤ limit) ∧
      (∀ pre op post, ops = pre ++ op :: post →
        let q := (q₀.run pre).2
        ∃ taken rest, (q₀.run ops).1 = (q₀.run pre).1 ++ taken :: rest ∧
          Right q op taken (q₀.run (pre ++ [op])).2) ∧
      ∀ env conn q,
        let groups := (interrogation env conn q).flatMap Reply.groups
        Cuts Answer.kind 30 groups ∧ groups.flatten = answersTo env conn q := by
  intro q₀
  refine ⟨run_items q₀ ops, run_sent q₀ ops, fun h => run_length ops h (le_of_lt h), ?_, ?_⟩
  · rintro pre op post rfl
    refine ⟨((q₀.run pre).2.step op).1, (((q₀.run pre).2.step op).2.run post).1, ?_, ?_⟩
    · rw [run_append, InfoQueue.run]
    · rw [run_append, InfoQueue.run]
      exact step_right _ op
  · intro env conn q
    rw [groups_eq]
    exact collect_nil_cuts 0 (-1) _

end Theorems

end JsonScada.Iec60870.Server
