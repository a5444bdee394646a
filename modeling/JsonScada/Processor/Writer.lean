import JsonScada.Library.LastWrite
import JsonScada.Processor.HandleChange
import JsonScada.Processor.HandleChange.Lemmas

namespace JsonScada.Processor

open JsonScada.Library

section Bulk

-- The operations of a bulk write.
inductive WriteModel where
  | set (id : Value) (fields : Document)
  | addToSet (id : Value) (fields : Document)

def WriteModel.id : WriteModel → Value
  | .set id _ => id
  | .addToSet id _ => id

def RtUpdate.models (u : RtUpdate) : List WriteModel :=
  .set u.id u.set :: if u.addToSet ≠ [] then [.addToSet u.id u.addToSet] else []

def flushRtBatch (batch : List RtUpdate) : List WriteModel := batch.flatMap RtUpdate.models

variable (same : Value → Value → Bool)

-- `$addToSet` of one field. A field that is no array makes the operation fail.
def addToSetField (d : Document) (key : String) (v : Value) : Document :=
  match d.lookup key with
  | none => setField d key (.array [v])
  | some (.array items) =>
      if items.any (same v) then d else setField d key (.array (items ++ [v]))
  | some _ => d

-- One operation on the document of point `p`.
def execute (p : Value) (d : Document) (m : WriteModel) : Document :=
  if same m.id p then
    match m with
    | .set _ fields => applySet d fields
    | .addToSet _ fields => fields.foldl (fun d f => addToSetField same d f.1 f.2) d
  else d

def executeAll (p : Value) (d : Document) (ms : List WriteModel) : Document :=
  ms.foldl (execute same p) d

end Bulk

namespace RtDataWriter

structure Config where
  rtWriteMaxBatch : Nat
  rtWriteLinger : Int

structure State where
  batch : List RtUpdate := []
  timerArmed : Bool := false
  returned : Bool := false

inductive Event where
  | update (u : RtUpdate)
  | timer
  | done

def flush (w : State) : State × List (List RtUpdate) :=
  ({ w with batch := [], timerArmed := false }, if w.batch = [] then [] else [w.batch])

def step (cfg : Config) (w : State) (e : Event) : State × List (List RtUpdate) :=
  if w.returned then (w, [])
  else
    match e with
    | .done => ({ (flush w).1 with returned := true }, (flush w).2)
    | .timer => flush { w with timerArmed := false }
    | .update u =>
        let w := { w with batch := w.batch ++ [u] }
        if cfg.rtWriteMaxBatch ≤ w.batch.length then flush w
        else if w.timerArmed then (w, [])
        else if cfg.rtWriteLinger ≤ 0 then flush w
        else ({ w with timerArmed := true }, [])

-- The batches that are flushed, and the state of the writer.
def run (cfg : Config) (w : State) : List Event → State × List (List RtUpdate)
  | [] => (w, [])
  | e :: es =>
      let (w, flushed) := step cfg w e
      let (w, rest) := run cfg w es
      (w, flushed ++ rest)

-- The updates that the writer takes from its channel.
def taken : List Event → List RtUpdate
  | [] => []
  | .update u :: es => u :: taken es
  | .timer :: es => taken es
  | .done :: _ => []

end RtDataWriter

-- The writer of the Node.js processor: a flush takes the whole queue, and the next
-- one waits until it is written.
namespace MongoRtDataQueue

structure State where
  queue : List RtUpdate := []
  rtFlushScheduled : Bool := false
  rtFlushRunning : Bool := false

inductive Event where
  | enqueue (u : RtUpdate)
  | interval
  | processRtDataMongoUpdates (connected : Bool)
  | written

def scheduleRtDataFlush (w : State) : State :=
  if w.rtFlushScheduled || w.rtFlushRunning then w else { w with rtFlushScheduled := true }

def step (w : State) : Event → State × List (List RtUpdate)
  | .enqueue u => (scheduleRtDataFlush { w with queue := w.queue ++ [u] }, [])
  | .interval => (scheduleRtDataFlush w, [])
  | .processRtDataMongoUpdates connected =>
      if !w.rtFlushScheduled then (w, [])
      else if !connected || w.queue.isEmpty then ({ w with rtFlushScheduled := false }, [])
      else ({ queue := [], rtFlushScheduled := false, rtFlushRunning := true }, [w.queue])
  | .written =>
      let w := { w with rtFlushRunning := false }
      (if w.queue.isEmpty then w else scheduleRtDataFlush w, [])

def run (w : State) : List Event → State × List (List RtUpdate)
  | [] => (w, [])
  | e :: es =>
      let (w, flushed) := step w e
      let (w, rest) := run w es
      (w, flushed ++ rest)

def enqueued : List Event → List RtUpdate
  | [] => []
  | .enqueue u :: es => u :: enqueued es
  | _ :: es => enqueued es

end MongoRtDataQueue

-- A run of either writer.
inductive WriterRun where
  | go (cfg : RtDataWriter.Config) (es : List RtDataWriter.Event)
  | node (es : List MongoRtDataQueue.Event)

namespace WriterRun

def queued : WriterRun → List RtUpdate
  | .go _ es => RtDataWriter.taken es
  | .node es => MongoRtDataQueue.enqueued es

def batches : WriterRun → List (List RtUpdate)
  | .go cfg es => (RtDataWriter.run cfg {} es).2
  | .node es => (MongoRtDataQueue.run {} es).2

def pending : WriterRun → List RtUpdate
  | .go cfg es => (RtDataWriter.run cfg {} es).1.batch
  | .node es => (MongoRtDataQueue.run {} es).1.queue

end WriterRun

section Conservation

namespace RtDataWriter

-- What is flushed and what is kept is what was there and what was taken.
theorem step_conserves (cfg : Config) (w : State) (u : RtUpdate) (h : w.returned = false) :
    (step cfg w (.update u)).1.returned = false ∧
      (step cfg w (.update u)).2.flatten ++ (step cfg w (.update u)).1.batch = w.batch ++ [u] := by
  simp only [step, flush, h, Bool.false_eq_true, if_false]
  by_cases hmax : cfg.rtWriteMaxBatch ≤ w.batch.length + 1
  · simp [hmax]
  · by_cases harmed : w.timerArmed = true
    · simp [hmax, harmed]
    · by_cases hlinger : cfg.rtWriteLinger ≤ 0 <;> simp [hmax, harmed, hlinger]

theorem flush_conserves (w : State) : (flush w).2.flatten ++ (flush w).1.batch = w.batch := by
  by_cases h : w.batch = [] <;> simp [flush, h]

theorem run_of_returned (cfg : Config) (w : State) (es : List Event) (h : w.returned = true) :
    run cfg w es = (w, []) := by
  induction es with
  | nil => rfl
  | cons e es ih => simp [run, step, h, ih]

theorem run_conserves (cfg : Config) (w : State) (es : List Event) (h : w.returned = false) :
    (run cfg w es).2.flatten ++ (run cfg w es).1.batch = w.batch ++ taken es := by
  induction es generalizing w with
  | nil => simp [run, taken]
  | cons e es ih =>
      simp only [run, List.flatten_append, List.append_assoc]
      cases e with
      | update u =>
          obtain ⟨hreturned, hstep⟩ := step_conserves cfg w u h
          rw [ih _ hreturned, ← List.append_assoc, hstep]
          simp [taken]
      | timer =>
          have hstep : step cfg w .timer = flush { w with timerArmed := false } := by
            simp [step, h]
          have hreturned : (flush { w with timerArmed := false }).1.returned = false := h
          rw [hstep, ih _ hreturned, ← List.append_assoc, flush_conserves]
          rfl
      | done =>
          have hstep : step cfg w .done = ({ (flush w).1 with returned := true }, (flush w).2) := by
            simp [step, h]
          rw [hstep, run_of_returned _ _ _ rfl, taken, List.append_nil]
          exact flush_conserves w

end RtDataWriter

namespace MongoRtDataQueue

theorem scheduleRtDataFlush_queue (w : State) : (scheduleRtDataFlush w).queue = w.queue := by
  by_cases h : (w.rtFlushScheduled || w.rtFlushRunning) = true <;> simp [scheduleRtDataFlush, h]

theorem step_conserves (w : State) (e : Event) :
    (step w e).2.flatten ++ (step w e).1.queue = w.queue ++ enqueued [e] := by
  cases e with
  | enqueue u => simp [step, scheduleRtDataFlush_queue, enqueued]
  | interval => simp [step, scheduleRtDataFlush_queue, enqueued]
  | processRtDataMongoUpdates connected =>
      by_cases hscheduled : w.rtFlushScheduled = true
      · by_cases hempty : (!connected || w.queue.isEmpty) = true <;>
          simp [step, hscheduled, hempty, enqueued]
      · simp [step, hscheduled, enqueued]
  | written =>
      by_cases hempty : w.queue.isEmpty = true <;>
        simp [step, hempty, scheduleRtDataFlush_queue, enqueued]

theorem run_conserves (w : State) (es : List Event) :
    (run w es).2.flatten ++ (run w es).1.queue = w.queue ++ enqueued es := by
  induction es generalizing w with
  | nil => simp [run, enqueued]
  | cons e es ih =>
      have henqueued : enqueued (e :: es) = enqueued [e] ++ enqueued es := by
        cases e <;> rfl
      simp only [run, List.flatten_append, List.append_assoc]
      rw [ih, ← List.append_assoc, step_conserves, henqueued, List.append_assoc]

end MongoRtDataQueue

-- No update is lost, doubled or moved on its way through the writer.
theorem WriterRun.conserves (r : WriterRun) : r.batches.flatten ++ r.pending = r.queued := by
  cases r with
  | go cfg es => exact RtDataWriter.run_conserves cfg {} es rfl
  | node es => exact MongoRtDataQueue.run_conserves {} es

end Conservation

section Stored

variable (same : Value → Value → Bool)

-- What the update leaves in a field that it sets.
def RtUpdate.stored (u : RtUpdate) (field : String) : Option Value := u.set.reverse.lookup field

def RtUpdate.ofPoint (p : Value) (u : RtUpdate) : Bool := same u.id p

-- Only the list of groups that beep is added to.
def RtUpdate.BeepGroups (u : RtUpdate) : Prop := ∀ f ∈ u.addToSet, f.1 = "beepGroup1List"

def storedFields : List String := ["value", "invalid", "alarmed", "updatesCnt"]

def WriteModel.writes (p : Value) (field : String) (m : WriteModel) : Option Value :=
  match m with
  | .set id fields => if same id p then fields.reverse.lookup field else none
  | .addToSet _ _ => none

theorem lookup_addToSetField (d : Document) {key k : String} (v : Value) (h : k ≠ key) :
    (addToSetField same d key v).lookup k = d.lookup k := by
  unfold addToSetField
  split
  · rw [lookup_setField, if_neg h]
  · split
    · rfl
    · rw [lookup_setField, if_neg h]
  · rfl

theorem lookup_addToSetFields (d fields : Document) {key : String}
    (h : ∀ f ∈ fields, f.1 ≠ key) :
    (fields.foldl (fun d f => addToSetField same d f.1 f.2) d).lookup key = d.lookup key := by
  induction fields generalizing d with
  | nil => rfl
  | cons f fields ih =>
      have hf : key ≠ f.1 := fun hf => h f (by simp) hf.symm
      have hfields : ∀ g ∈ fields, g.1 ≠ key := fun g hg => h g (by simp [hg])
      rw [List.foldl_cons, ih _ hfields, lookup_addToSetField same d _ hf]

-- The operations as writes of one field.
theorem lookup_executeAll (p : Value) (d : Document) (ms : List WriteModel) (field : String)
    (h : ∀ id fields, WriteModel.addToSet id fields ∈ ms → ∀ f ∈ fields, f.1 ≠ field) :
    (executeAll same p d ms).lookup field =
      LastWrite.after (WriteModel.writes same p field) (d.lookup field) ms := by
  induction ms generalizing d with
  | nil => rfl
  | cons m ms ih =>
      have hms := ih (execute same p d m) fun id fields hm => h id fields (by simp [hm])
      have hm : (execute same p d m).lookup field =
          (WriteModel.writes same p field m).or (d.lookup field) := by
        cases m with
        | set id fields =>
            by_cases hp : same id p = true
            · simp [execute, WriteModel.id, WriteModel.writes, hp, lookup_applySet]
            · simp [execute, WriteModel.id, WriteModel.writes, hp]
        | addToSet id fields =>
            have hfields := h id fields (by simp)
            by_cases hp : same id p = true
            · simp [execute, WriteModel.id, WriteModel.writes, hp,
                lookup_addToSetFields same d fields hfields]
            · simp [execute, WriteModel.id, WriteModel.writes, hp]
      show (executeAll same p (execute same p d m) ms).lookup field = _
      rw [hms, hm]
      rfl

-- The operation that comes last decides.
theorem lookup_executeAll_concat {p v : Value} {field : String} {u : RtUpdate} (d : Document)
    (ms : List WriteModel) (hp : u.ofPoint same p = true) (hv : u.stored field = some v) :
    (executeAll same p d (ms ++ [.set u.id u.set])).lookup field = some v := by
  simp only [RtUpdate.ofPoint] at hp
  simp only [RtUpdate.stored] at hv
  simp [executeAll, execute, WriteModel.id, hp, lookup_applySet, hv]

theorem mem_flushRtBatch {b : List RtUpdate} {m : WriteModel} :
    m ∈ flushRtBatch b ↔ ∃ u ∈ b, m ∈ u.models := List.mem_flatMap

theorem flushRtBatch_groups {b : List RtUpdate} (h : ∀ u ∈ b, u.BeepGroups) {id : Value}
    {fields : Document} (hm : WriteModel.addToSet id fields ∈ flushRtBatch b) :
    ∀ f ∈ fields, f.1 = "beepGroup1List" := by
  obtain ⟨u, hu, hm⟩ := mem_flushRtBatch.mp hm
  by_cases hempty : u.addToSet = []
  · simp [RtUpdate.models, hempty] at hm
  · simp only [RtUpdate.models, ne_eq, hempty, not_false_eq_true, if_true, List.mem_cons,
      reduceCtorEq, List.not_mem_nil, or_false, false_or, WriteModel.addToSet.injEq] at hm
    rw [hm.2]
    exact h u hu

theorem writes_models {u : RtUpdate} {m : WriteModel} {p v : Value} {field : String}
    (hm : m ∈ u.models) (hw : m.writes same p field = some v) :
    u.ofPoint same p = true ∧ u.stored field = some v := by
  have hm' : m = .set u.id u.set ∨ m = .addToSet u.id u.addToSet := by
    by_cases hempty : u.addToSet = []
    · simp only [RtUpdate.models, hempty, ne_eq, not_true_eq_false, if_false,
        List.mem_singleton] at hm
      exact .inl hm
    · simpa [RtUpdate.models, hempty] using hm
  rcases hm' with rfl | rfl
  · by_cases hp : same u.id p = true
    · simp only [WriteModel.writes, hp, if_true] at hw
      exact ⟨hp, hw⟩
    · simp [WriteModel.writes, hp] at hw
  · simp [WriteModel.writes] at hw

theorem writes_set {u : RtUpdate} {p : Value} (field : String) (hp : u.ofPoint same p = true) :
    (WriteModel.set u.id u.set).writes same p field = u.stored field := by
  simp only [RtUpdate.ofPoint] at hp
  simp [WriteModel.writes, hp, RtUpdate.stored]

-- The operations of a batch that write a field are its updates that set it.
theorem flushRtBatch_writes_iff {b : List RtUpdate} {p v : Value} {field : String} :
    (∀ m ∈ flushRtBatch b, ∀ w, m.writes same p field = some w → w = v) ↔
      ∀ u ∈ b.filter (·.ofPoint same p), ∀ w, u.stored field = some w → w = v := by
  constructor
  · intro h u hu w hw
    obtain ⟨hu, hp⟩ := List.mem_filter.mp hu
    refine h (.set u.id u.set) (mem_flushRtBatch.mpr ⟨u, hu, by simp [RtUpdate.models]⟩) w ?_
    rw [writes_set same field hp, hw]
  · intro h m hm w hw
    obtain ⟨u, hu, hm⟩ := mem_flushRtBatch.mp hm
    obtain ⟨hp, hstored⟩ := writes_models same hm hw
    exact h u (List.mem_filter.mpr ⟨hu, hp⟩) w hstored

-- The updates of the point in the flush that holds its last one.
def lastFlush (p : Value) (batches : List (List RtUpdate)) : List RtUpdate :=
  ((batches.reverse.find? fun b => b.any (·.ofPoint same p)).getD []).filter (·.ofPoint same p)

theorem filter_ofPoint_eq_nil {p : Value} {us : List RtUpdate} :
    us.filter (·.ofPoint same p) = [] ↔ ∀ u ∈ us, u.ofPoint same p = false := by
  simp [List.filter_eq_nil_iff]

theorem lastFlush_split {p : Value} {batches : List (List RtUpdate)} {u : RtUpdate}
    (h : (batches.flatten.filter (·.ofPoint same p)).getLast? = some u) :
    ∃ pre b post, batches = pre ++ b :: post ∧ u ∈ b ∧ u.ofPoint same p = true ∧
      (∀ w ∈ post.flatten, w.ofPoint same p = false) ∧
      lastFlush same p batches = b.filter (·.ofPoint same p) := by
  cases hfind : batches.reverse.find? fun b => b.any (·.ofPoint same p) with
  | none =>
      -- no batch has an update of the point
      exfalso
      rw [List.find?_eq_none] at hfind
      have hnone : batches.flatten.filter (·.ofPoint same p) = [] := by
        rw [filter_ofPoint_eq_nil]
        intro w hw
        obtain ⟨b, hb, hw⟩ := List.mem_flatten.mp hw
        have hb := hfind b (List.mem_reverse.mpr hb)
        simp only [List.any_eq_true, not_exists, not_and, Bool.not_eq_true] at hb
        exact hb w hw
      simp [hnone] at h
  | some b =>
      obtain ⟨hb, post, pre, hsplit, hpost⟩ := List.find?_eq_some_iff_append.mp hfind
      have hbatches : batches = pre.reverse ++ b :: post.reverse := by
        rw [← List.reverse_reverse batches, hsplit]
        simp
      have hafter : ∀ w ∈ post.reverse.flatten, w.ofPoint same p = false := by
        intro w hw
        obtain ⟨c, hc, hw⟩ := List.mem_flatten.mp hw
        have hc := hpost c (List.mem_reverse.mp hc)
        simp only [Bool.not_eq_eq_eq_not, Bool.not_true, List.any_eq_false, Bool.not_eq_true] at hc
        exact hc w hw
      have hne : b.filter (·.ofPoint same p) ≠ [] := by
        obtain ⟨w, hw, hp⟩ := List.any_eq_true.mp hb
        exact List.ne_nil_of_mem (List.mem_filter.mpr ⟨hw, hp⟩)
      rw [hbatches, List.flatten_append, List.flatten_cons, List.filter_append, List.filter_append,
        (filter_ofPoint_eq_nil same).mpr hafter, List.append_nil,
        List.getLast?_append_of_ne_nil _ hne] at h
      obtain ⟨hu, hp⟩ := List.mem_filter.mp (List.mem_of_getLast? h)
      refine ⟨pre.reverse, b, post.reverse, hbatches, hu, hp, hafter, ?_⟩
      simp [lastFlush, hfind]

-- A field of the point after the batches, executed in some order, is the one of an
-- update in the last flush exactly when that flush sets it to nothing else.
theorem field_after_flushes_iff {p v : Value} {field : String} (d : Document)
    {pre post : List (List RtUpdate)} {b : List RtUpdate} {u : RtUpdate} (hu : u ∈ b)
    (hp : u.ofPoint same p = true) (hv : u.stored field = some v)
    (hpost : ∀ w ∈ post.flatten, w.ofPoint same p = false)
    (hgroups : ∀ w ∈ (pre ++ b :: post).flatten, w.BeepGroups) (hfield : field ≠ "beepGroup1List") :
    (∀ execs, LastWrite.Executes execs ((pre ++ b :: post).map flushRtBatch) →
        (executeAll same p d execs.flatten).lookup field = some v) ↔
      ∀ w ∈ b.filter (·.ofPoint same p), ∀ v', w.stored field = some v' → v' = v := by
  have hlookup : ∀ execs, LastWrite.Executes execs ((pre ++ b :: post).map flushRtBatch) →
      (executeAll same p d execs.flatten).lookup field =
        LastWrite.after (WriteModel.writes same p field) (d.lookup field) execs.flatten := by
    intro execs hexec
    apply lookup_executeAll
    intro id fields hm f hf
    obtain ⟨ms, hms, hm⟩ := List.mem_flatten.mp (LastWrite.executes_mem hexec hm)
    obtain ⟨c, hc, rfl⟩ := List.mem_map.mp hms
    have hgroup := flushRtBatch_groups (fun w hw => hgroups w (List.mem_flatten.mpr ⟨c, hc, hw⟩)) hm
    rw [hgroup f hf]
    exact hfield.symm
  have hnone : ∀ m ∈ (post.map flushRtBatch).flatten, m.writes same p field = none := by
    intro m hm
    obtain ⟨ms, hms, hm⟩ := List.mem_flatten.mp hm
    obtain ⟨c, hc, rfl⟩ := List.mem_map.mp hms
    obtain ⟨w, hw, hm⟩ := mem_flushRtBatch.mp hm
    by_contra hwrites
    obtain ⟨_, hwrites⟩ := Option.ne_none_iff_exists'.mp hwrites
    have hother := hpost w (List.mem_flatten.mpr ⟨c, hc, hw⟩)
    rw [(writes_models same hm hwrites).1] at hother
    cases hother
  have hsome : ∃ m ∈ flushRtBatch b, m.writes same p field ≠ none := by
    refine ⟨.set u.id u.set, mem_flushRtBatch.mpr ⟨u, hu, by simp [RtUpdate.models]⟩, ?_⟩
    rw [writes_set same field hp, hv]
    exact Option.some_ne_none v
  rw [← flushRtBatch_writes_iff, ← LastWrite.after_batches_iff hnone hsome, List.map_append,
    List.map_cons]
  constructor
  · intro h execs hexec
    rw [← hlookup execs (by rwa [List.map_append, List.map_cons])]
    exact h execs hexec
  · intro h execs hexec
    rw [hlookup execs (by rwa [List.map_append, List.map_cons])]
    exact h execs hexec

-- Once everything queued for the point is flushed, the last update is what is stored,
-- in every order of execution, exactly when no other update in its flush differs.
theorem last_update_stored_iff (r : WriterRun) (p : Value) (d : Document) (u : RtUpdate)
    (hlast : (r.queued.filter (·.ofPoint same p)).getLast? = some u)
    (hflushed : r.pending.filter (·.ofPoint same p) = [])
    (hgroups : ∀ w ∈ r.queued, w.BeepGroups) :
    (∀ execs, LastWrite.Executes execs (r.batches.map flushRtBatch) →
        ∀ field ∈ storedFields, ∀ v, u.stored field = some v →
          (executeAll same p d execs.flatten).lookup field = some v) ↔
      ∀ w ∈ lastFlush same p r.batches, ∀ field ∈ storedFields, ∀ v v',
        u.stored field = some v → w.stored field = some v' → v' = v := by
  rw [← r.conserves, List.filter_append, hflushed, List.append_nil] at hlast
  obtain ⟨pre, b, post, hbatches, hu, hp, hpost, hflush⟩ := lastFlush_split same hlast
  have hbatch : ∀ w ∈ (pre ++ b :: post).flatten, w.BeepGroups := by
    intro w hw
    apply hgroups
    rw [← r.conserves, hbatches]
    exact List.mem_append_left _ hw
  have hfield (field : String) (hf : field ∈ storedFields) (v : Value)
      (hv : u.stored field = some v) :=
    field_after_flushes_iff same d hu hp hv hpost hbatch
      (fun h => by simp [storedFields, h] at hf)
  rw [hflush, hbatches]
  constructor
  · intro h w hw field hf v v' hv
    exact (hfield field hf v hv).mp (fun execs hexec => h execs hexec field hf v hv) w hw v'
  · intro h execs hexec field hf v hv
    exact (hfield field hf v hv).mpr (fun w hw v' => h w hw field hf v v' hv) execs hexec

end Stored

section Overtaken

-- Keys are compared by value.
def sameKey : Value → Value → Bool
  | .number x, .number y => Double.eq x y
  | .string s, .string t => s = t
  | _, _ => false

-- An analog point that is read, and the update for a reading of it.
def analogPoint : Document :=
  [("_id", .number (.fin 1)), ("tag", .string "A"), ("type", .string "analog"),
    ("kconv1", .number (.fin 1)), ("kconv2", .number (.fin 0)), ("unit", .string "V"),
    ("value", .number (.fin 0)), ("updatesCnt", .number (.fin 0)), ("invalid", .bool false),
    ("alarmed", .bool false), ("timeTag", .dateTime 0)]

def analogReading (n : Nat) : ChangeEvent :=
  { operationType := "update"
    fullDocument := some analogPoint
    updatedFields := some [("sourceDataUpdate", .document [("valueAtSource", .number (.fin n))])] }

def analogUpdate (n : Nat) : RtUpdate :=
  ownUpdate exactPlatform 0 analogPoint [("valueAtSource", .number (.fin n))]
    (convert exactPlatform 0 analogPoint [("valueAtSource", .number (.fin n))])

def twoReadings : WriterRun :=
  .go { rtWriteMaxBatch := 2000, rtWriteLinger := 20 }
    [.update (analogUpdate 1), .update (analogUpdate 2), .timer]

theorem analogUpdate_emitted (n : Nat) (h : n = 1 ∨ n = 2) :
    .rt (analogUpdate n) ∈ (handleChange exactPlatform 0 true 0 (analogReading n)).1 := by
  have hemitted : .rt (analogUpdate n) ∈
      (processUpdate exactPlatform 0 0 analogPoint [("valueAtSource", .number (.fin n))]).1 := by
    rw [rt_mem_processUpdate_iff]
    rcases h with rfl | rfl <;> exact ⟨by decide +kernel, .inr (.inr ⟨by decide, rfl⟩)⟩
  exact hemitted

theorem analogUpdate_ofPoint (n : Nat) :
    (analogUpdate n).ofPoint sameKey (.number (.fin 1)) = true := by
  show decide ((1 : ℚ) = 1) = true
  decide

theorem analogUpdate_value (n : Nat) (h : n = 1 ∨ n = 2) :
    (analogUpdate n).stored "value" = some (.number (.fin n)) := by
  have hvalue : (convert exactPlatform 0 analogPoint [("valueAtSource", .number (.fin n))]).value =
      .fin n := by
    rcases h with rfl | rfl <;> decide +kernel
  rw [← hvalue]
  rfl

-- Two readings in one flush: executed the other way round, the older one is stored.
theorem last_update_overtaken :
    (twoReadings.queued.filter (·.ofPoint sameKey (.number (.fin 1)))).getLast? =
        some (analogUpdate 2) ∧
      twoReadings.pending.length = 0 ∧
      (analogUpdate 2).stored "value" = some (.number (.fin 2)) ∧
      ∃ execs, LastWrite.Executes execs (twoReadings.batches.map flushRtBatch) ∧
        (executeAll sameKey (.number (.fin 1)) analogPoint execs.flatten).lookup "value" =
          some (.number (.fin 1)) := by
  refine ⟨?_, rfl, analogUpdate_value 2 (.inr rfl),
    [(flushRtBatch [analogUpdate 1, analogUpdate 2]).reverse], ?_, ?_⟩
  · simp [WriterRun.queued, twoReadings, RtDataWriter.taken, analogUpdate_ofPoint]
  · exact List.Forall₂.cons (List.reverse_perm _) .nil
  · exact lookup_executeAll_concat sameKey analogPoint
      [.set (analogUpdate 2).id (analogUpdate 2).set] (analogUpdate_ofPoint 1)
      (analogUpdate_value 1 (.inl rfl))

theorem last_update_stored_iff_reading :
    (∀ execs, LastWrite.Executes execs
        ((WriterRun.go ⟨2000, 0⟩ [.update (analogUpdate 1), .update (analogUpdate 2)]).batches.map
          flushRtBatch) →
      ∀ field ∈ storedFields, ∀ v, (analogUpdate 2).stored field = some v →
        (executeAll sameKey (.number (.fin 1)) analogPoint execs.flatten).lookup field = some v) ↔
      ∀ w ∈ lastFlush sameKey (.number (.fin 1))
          (WriterRun.go ⟨2000, 0⟩ [.update (analogUpdate 1), .update (analogUpdate 2)]).batches,
        ∀ field ∈ storedFields, ∀ v v', (analogUpdate 2).stored field = some v →
          w.stored field = some v' → v' = v :=
  last_update_stored_iff sameKey
    (.go ⟨2000, 0⟩ [.update (analogUpdate 1), .update (analogUpdate 2)]) (.number (.fin 1))
    analogPoint (analogUpdate 2)
    (by simp [WriterRun.queued, RtDataWriter.taken, analogUpdate_ofPoint]) rfl (by
      intro w hw
      simp only [WriterRun.queued, RtDataWriter.taken, List.mem_cons, List.not_mem_nil, or_false] at hw
      rcases hw with rfl | rfl <;> simp [RtUpdate.BeepGroups, analogUpdate, ownUpdate])

end Overtaken

end JsonScada.Processor
