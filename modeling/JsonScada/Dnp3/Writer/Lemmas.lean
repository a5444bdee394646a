import JsonScada.Dnp3.ValueQueue
import JsonScada.Dnp3.Writer
import JsonScada.Library.LastWrite

namespace JsonScada.Dnp3.Writer

open JsonScada.Library
open JsonScada.JsMongo
open JsonScada.Processor (Document Value applySet lookup_applySet)

section Stored

-- The stored source update of a point, none without a document.
def sourceOf (coll : List Document) (k : ValueKey) : Option (Option Value) :=
  (findOne coll (pointFilter k)).map fun d => d.lookup "sourceDataUpdate"

def written (iv : Dnp3Value) : Value := .document (updateOf iv).bson

-- What an update leaves at a point, none when it is for another.
def writesTo (k : ValueKey) (iv : Dnp3Value) : Option Value :=
  if keyOf iv = k then some (written iv) else none

-- The update that is sent for a value that is not skipped.
def writeModel (iv : Dnp3Value) : WriteModel where
  filter := pointFilter (keyOf iv)
  sourceDataUpdate := (updateOf iv).bson

theorem writeOf_eq {iv : Dnp3Value} (h : isSkipped iv.value = false) :
    writeOf iv = some (writeModel iv) := by
  unfold writeOf
  rw [h, if_neg Bool.false_ne_true]
  rfl

theorem pointFilter_disjoint {k k' : ValueKey} (hk : k ≠ k') {d : Document}
    (hd : matchesFilter (pointFilter k) d = true) : matchesFilter (pointFilter k') d = false := by
  rw [Bool.eq_false_iff]
  intro hd'
  rw [matchesFilter_pointFilter] at hd hd'
  obtain ⟨h1, h2, h3⟩ := hd
  obtain ⟨h1', h2', h3'⟩ := hd'
  rw [h1] at h1'
  rw [h2] at h2'
  rw [h3] at h3'
  simp only [Option.some.injEq, Value.number.injEq, Double.fin.injEq, Int.cast_inj] at h1' h2' h3'
  apply hk
  cases k
  cases k'
  simp_all

theorem matchesFilter_setSource (k : ValueKey) (d : Document) (v : Value) :
    matchesFilter (pointFilter k) (applySet d [("sourceDataUpdate", v)]) =
      matchesFilter (pointFilter k) d := by
  rw [Bool.eq_iff_iff, matchesFilter_pointFilter, matchesFilter_pointFilter]
  simp [lookup_applySet, List.lookup_cons]

theorem sourceOf_applyWrite (coll : List Document) (k : ValueKey) (iv : Dnp3Value) :
    sourceOf (applyWrite coll (writeModel iv)) k =
      (sourceOf coll k).map fun old => (writesTo k iv).or old := by
  unfold sourceOf applyWrite updateOne findOne writesTo
  by_cases hk : keyOf iv = k
  · rw [if_pos hk, writeModel, hk, Table.find?_updateFirst]
    · rw [Option.map_map, Option.map_map]
      congr 1
      funext d
      simp [lookup_applySet, written]
    · intro d hd
      rw [matchesFilter_setSource]
      exact hd
  · rw [if_neg hk, Table.find?_updateFirst_ne]
    · simp only [Option.none_or, Option.map_map]
      rfl
    · intro d _ hd
      have hother := pointFilter_disjoint hk hd
      exact ⟨hother, by rw [matchesFilter_setSource]; exact hother⟩

theorem sourceOf_applyWrites (coll : List Document) (k : ValueKey) (ivs : List Dnp3Value) :
    sourceOf ((ivs.map writeModel).foldl applyWrite coll) k =
      (sourceOf coll k).map fun old => LastWrite.after (writesTo k) old ivs := by
  induction ivs generalizing coll with
  | nil => simp [LastWrite.after]
  | cons iv ivs ih =>
      rw [List.map_cons, List.foldl_cons, ih, sourceOf_applyWrite, Option.map_map]
      rfl

theorem sourceOf_append_of_isSome {coll docs : List Document} {k : ValueKey}
    (h : (sourceOf coll k).isSome) : sourceOf (coll ++ docs) k = sourceOf coll k := by
  unfold sourceOf findOne at h ⊢
  rw [Option.isSome_map] at h
  obtain ⟨d, hd⟩ := Option.isSome_iff_exists.mp h
  rw [Table.find?_append_of_some docs hd, hd]

theorem sourceOf_append_of_none {coll docs : List Document} {k : ValueKey}
    (h : ∀ d ∈ docs, matchesFilter (pointFilter k) d = false) :
    sourceOf (coll ++ docs) k = sourceOf coll k := by
  unfold sourceOf findOne
  rw [List.find?_append]
  have hnone : docs.find? (matchesFilter (pointFilter k)) = none := by
    rw [List.find?_eq_none]
    intro d hd
    rw [h d hd]
    exact Bool.false_ne_true
  rw [hnone, Option.or_none]

theorem sourceOf_isSome_append {coll docs : List Document} {k : ValueKey} {d : Document}
    (hd : d ∈ docs) (hmatch : matchesFilter (pointFilter k) d = true) :
    (sourceOf (coll ++ docs) k).isSome := by
  unfold sourceOf findOne
  rw [Option.isSome_map]
  apply Table.isSome_find?_append
  right
  rw [List.find?_isSome]
  exact ⟨d, hd, hmatch⟩

-- The operations that a batch does not hold for a point leave it as it is.
theorem after_executed_of_none {batch executed : List Dnp3Value} {k : ValueKey}
    (hnone : ofKey keyOf k batch = []) (hmem : ∀ w ∈ executed, w ∈ batch) (old : Option Value) :
    LastWrite.after (writesTo k) old executed = old := by
  apply LastWrite.after_of_none
  intro w hw
  rw [writesTo, if_neg]
  intro hwk
  unfold ofKey at hnone
  rw [List.filter_eq_nil_iff] at hnone
  exact hnone w (hmem w hw) (by simp [hwk])

end Stored

section Execution

-- The values whose operations are executed.
def executedOf (batch : List Dnp3Value) (executed : List ℕ) : List Dnp3Value :=
  executed.filterMap fun i => batch[i]?

theorem executed_values (batch : List Dnp3Value) (executed : List ℕ) :
    (executed.filterMap fun i => (batch.map writeModel)[i]?) =
      (executedOf batch executed).map writeModel := by
  rw [executedOf, List.map_filterMap]
  congr 1
  funext i
  rw [List.getElem?_map]

theorem executedOf_range (batch : List Dnp3Value) (m : ℕ) :
    executedOf batch (List.range m) = batch.take m := by
  induction m with
  | zero => rfl
  | succ m ih =>
      rw [List.take_add_one, ← ih, List.range_succ, executedOf, List.filterMap_append]
      cases h : batch[m]? <;> simp [executedOf, h]

theorem mem_executedOf {batch : List Dnp3Value} {executed : List ℕ} {w : Dnp3Value}
    (h : w ∈ executedOf batch executed) : w ∈ batch := by
  obtain ⟨i, -, hi⟩ := List.mem_filterMap.mp h
  exact List.mem_of_getElem? hi

variable {n : ℕ} {ordered ok : Bool} {executed : List ℕ}

theorem canExecute_ordered (h : canExecute n true ok executed = true) :
    executed <+: List.range n := by
  cases ok with
  | true =>
      have hexec : executed = List.range n := by simpa [canExecute] using h
      exact hexec ▸ List.prefix_rfl
  | false => exact (by simpa [canExecute] using h : _ ∧ _).2

-- When every operation for a point is executed, its last value of the batch is what they
-- leave.
theorem after_executed {batch : List Dnp3Value} {k : ValueKey} {v : Dnp3Value}
    (hexec : canExecute batch.length ordered ok executed = true)
    (hdistinct : ordered = false → (batch.map keyOf).Nodup)
    (hlast : (ofKey keyOf k batch).getLast? = some v)
    (hall : ∀ (i : ℕ) w, batch[i]? = some w → keyOf w = k → i ∈ executed) (old : Option Value) :
    LastWrite.after (writesTo k) old (executedOf batch executed) = some (written v) := by
  obtain ⟨pre, post, rfl, hv, hpost⟩ := exists_of_getLast?_ofKey hlast
  have hreached : pre.length ∈ executed := hall pre.length v (by simp) hv
  cases ordered with
  | true =>
      have hfirst := List.prefix_iff_eq_take.mp (canExecute_ordered hexec)
      rw [List.take_range] at hfirst
      rw [hfirst] at hreached ⊢
      rw [executedOf_range]
      obtain ⟨m, hm⟩ := Nat.exists_eq_add_of_lt (List.mem_range.mp hreached)
      have htake : (pre ++ v :: post).take (pre.length + m + 1) = pre ++ v :: post.take m := by
        rw [Nat.add_assoc, List.take_length_add_append, List.take_succ_cons]
      rw [hm, htake]
      apply LastWrite.after_last
      · rw [writesTo, if_pos hv]
      · intro w hw
        rw [writesTo, if_neg (hpost w (List.mem_of_mem_take hw))]
  | false =>
      have hone : ∀ w ∈ pre ++ v :: post, keyOf w = k → w = v := by
        intro w hw hwk
        exact List.inj_on_of_nodup_map (hdistinct rfl) hw (by simp) (hwk.trans hv.symm)
      apply LastWrite.after_eq_of_all
      · intro w hw x hx
        unfold writesTo at hx
        split_ifs at hx with hwk
        rw [hone w (mem_executedOf hw) hwk] at hx
        exact (Option.some.inj hx).symm
      · refine ⟨v, List.mem_filterMap.mpr ⟨pre.length, hreached, by simp⟩, ?_⟩
        rw [writesTo, if_pos hv]
        exact Option.some_ne_none _

end Execution

section Inversion

-- What each action needs, and what it leaves.
variable {s s' : State}

theorem step_drain (h : step s .drain = some s') :
    s.phase = .idle ∧ s' = { s with
      queue := { ValueQueue.new with closed := s.queue.closed }
      phase := if s.queue.values.isEmpty then .idle else .drained s.queue.values } := by
  simp only [step] at h
  split at h
  · obtain ⟨r, hr, rfl⟩ := Option.map_eq_some_iff.mp h
    unfold ValueQueue.drain at hr
    split_ifs at hr
    obtain rfl := Option.some.inj hr
    exact ⟨‹_›, rfl⟩
  · cases h

theorem step_isLive {live : Bool} {lookupOk : ℤ → Bool}
    (h : step s (.isLive live lookupOk) = some s') :
    ∃ batch, s.phase = .drained batch ∧
      (live = false ∧ s' = { s with phase := .idle } ∨
        live = true ∧ s' = { s with
          conns := (planBatch s.coll lookupOk s.conns batch).conns
          phase := .planned batch (planBatch s.coll lookupOk s.conns batch).inserts
            (planBatch s.coll lookupOk s.conns batch).writes
            (planBatch s.coll lookupOk s.conns batch).hasDuplicates }) := by
  simp only [step] at h
  split at h
  · cases live with
    | false => exact ⟨_, ‹_›, .inl ⟨rfl, (Option.some.inj h).symm⟩⟩
    | true => exact ⟨_, ‹_›, .inr ⟨rfl, (Option.some.inj h).symm⟩⟩
  · cases h

theorem step_insertMany {reached : List Bool} (h : step s (.insertMany reached) = some s') :
    ∃ batch inserts writes ordered, s.phase = .planned batch inserts writes ordered ∧
      s' = { s with
        coll := insertMany s.coll inserts reached, phase := .inserted batch writes ordered } := by
  simp only [step] at h
  split at h
  · exact ⟨_, _, _, _, ‹_›, (Option.some.inj h).symm⟩
  · cases h

theorem step_bulkWrite {executed : List ℕ} {ok : Bool}
    (h : step s (.bulkWrite executed ok) = some s') :
    ∃ batch writes ordered, s.phase = .inserted batch writes ordered ∧
      canExecute writes.length ordered ok executed = true ∧
      s' = { s with
        coll := (executed.filterMap fun i => writes[i]?).foldl applyWrite s.coll
        phase := .idle } := by
  simp only [step] at h
  split at h
  · split_ifs at h with hexec
    exact ⟨_, _, _, ‹_›, hexec, (Option.some.inj h).symm⟩
  · cases h

end Inversion

-- What the creation of the tags of one value does to a connection: it marks the address,
-- and marks none that it has no document for.
structure Creates (iv : Dnp3Value) (conn conn' : Connection) (docs : List Document) : Prop where
  autoCreate : conn'.autoCreateTags = conn.autoCreateTags
  marked : conn.autoCreateTags = true → (iv.baseGroup, iv.address) ∈ conn'.insertedAddresses
  kept : ∀ a ∈ conn.insertedAddresses, a ∈ conn'.insertedAddresses
  added : ∀ a ∈ conn'.insertedAddresses, a ∈ conn.insertedAddresses ∨
    ∃ d ∈ docs, matchesFilter (pointFilter ⟨iv.connNumber, a.1, a.2⟩) d = true
  docs : ∀ d ∈ docs, conn.autoCreateTags = true ∧
    ∃ g, matchesFilter (pointFilter ⟨iv.connNumber, g, iv.address⟩) d = true

theorem creates_nothing {iv : Dnp3Value} {conn : Connection}
    (h : conn.autoCreateTags = true → (iv.baseGroup, iv.address) ∈ conn.insertedAddresses) :
    Creates iv conn conn [] :=
  ⟨rfl, h, fun _ ha => ha, fun _ ha => .inl ha, by simp⟩

-- The two ways of creating tags, with the documents as the lookups number them.
theorem autoCreateFor_cases (coll : List Document) (lookupOk : Bool) {conn : Connection}
    {iv : Dnp3Value} (hauto : conn.autoCreateTags = true)
    (hnew : (iv.baseGroup, iv.address) ∉ conn.insertedAddresses) :
    (∃ keys id, autoCreateFor coll lookupOk conn iv =
      ({ conn with
          tagKeys := keys
          insertedAddresses := (iv.baseGroup, iv.address) :: conn.insertedAddresses },
        [newTagDoc iv conn.name id false iv.baseGroup 0 0 (.fin 0) (.fin 0)])) ∨
    ∃ keys cmdGroup asdu duration commandId id,
      autoCreateFor coll lookupOk conn iv =
        ({ conn with
            tagKeys := keys
            insertedAddresses :=
              (cmdGroup, iv.address) :: (iv.baseGroup, iv.address) :: conn.insertedAddresses },
          [newTagDoc iv conn.name commandId true cmdGroup asdu duration (.fin 0)
              (Double.add Double.round commandId (.fin 1)),
            newTagDoc iv conn.name id false iv.baseGroup 0 0 commandId (.fin 0)]) := by
  unfold autoCreateFor
  rw [hauto, if_neg (by decide), if_neg hnew]
  by_cases hcmd : (conn.commandsEnabled && (iv.baseGroup = groupBinaryOutputStatus ||
      iv.baseGroup = groupAnalogOutputStatus)) = true
  · right
    rw [if_pos hcmd]
    exact ⟨_, _, _, _, _, _, rfl⟩
  · left
    rw [if_neg hcmd]
    exact ⟨_, _, rfl⟩

theorem autoCreateFor_creates (coll : List Document) (lookupOk : Bool) (conn : Connection)
    (iv : Dnp3Value) :
    Creates iv conn (autoCreateFor coll lookupOk conn iv).1
      (autoCreateFor coll lookupOk conn iv).2 := by
  by_cases hauto : conn.autoCreateTags = true
  · by_cases hseen : (iv.baseGroup, iv.address) ∈ conn.insertedAddresses
    · have hnothing : autoCreateFor coll lookupOk conn iv = (conn, []) := by
        simp [autoCreateFor, hseen]
      rw [hnothing]
      exact creates_nothing fun _ => hseen
    · rcases autoCreateFor_cases coll lookupOk hauto hseen with
        ⟨keys, id, heq⟩ | ⟨keys, cmdGroup, asdu, duration, commandId, id, heq⟩
      · rw [heq]
        have hdoc := matchesFilter_newTagDoc iv conn.name id false iv.baseGroup 0 0 (.fin 0)
          (.fin 0)
        generalize newTagDoc iv conn.name id false iv.baseGroup 0 0 (.fin 0) (.fin 0) = doc
          at hdoc
        refine ⟨rfl, fun _ => List.mem_cons_self, fun a ha => List.mem_cons_of_mem _ ha, ?_, ?_⟩
        · intro a ha
          rcases List.mem_cons.mp ha with rfl | ha
          · exact .inr ⟨doc, List.mem_cons_self, hdoc⟩
          · exact .inl ha
        · intro d hd
          obtain rfl := List.mem_singleton.mp hd
          exact ⟨hauto, _, hdoc⟩
      · rw [heq]
        have hcommand := matchesFilter_newTagDoc iv conn.name commandId true cmdGroup asdu
          duration (.fin 0) (Double.add Double.round commandId (.fin 1))
        have hdoc := matchesFilter_newTagDoc iv conn.name id false iv.baseGroup 0 0 commandId
          (.fin 0)
        generalize newTagDoc iv conn.name commandId true cmdGroup asdu duration (.fin 0)
          (Double.add Double.round commandId (.fin 1)) = command at hcommand
        generalize newTagDoc iv conn.name id false iv.baseGroup 0 0 commandId (.fin 0) = doc
          at hdoc
        refine ⟨rfl, fun _ => by simp, fun a ha => by simp [ha], ?_, ?_⟩
        · intro a ha
          rcases List.mem_cons.mp ha with rfl | ha
          · exact .inr ⟨command, by simp, hcommand⟩
          · rcases List.mem_cons.mp ha with rfl | ha
            · exact .inr ⟨doc, by simp, hdoc⟩
            · exact .inl ha
        · intro d hd
          rcases List.mem_cons.mp hd with rfl | hd
          · exact ⟨hauto, _, hcommand⟩
          · obtain rfl := List.mem_singleton.mp hd
            exact ⟨hauto, _, hdoc⟩
  · have hnothing : autoCreateFor coll lookupOk conn iv = (conn, []) := by
      simp [autoCreateFor, hauto]
    rw [hnothing]
    exact creates_nothing fun h => absurd h hauto

def AutoCreates (conns : ℤ → Option Connection) (n : ℤ) : Prop :=
  ∃ conn, conns n = some conn ∧ conn.autoCreateTags = true

-- What the loop over the batch has done to the connections when it has put `docs` together.
structure Marks (before conns : ℤ → Option Connection) (docs : List Document) : Prop where
  back : ∀ n conn', conns n = some conn' → ∃ conn, before n = some conn ∧
    conn'.autoCreateTags = conn.autoCreateTags ∧
    (∀ a ∈ conn.insertedAddresses, a ∈ conn'.insertedAddresses) ∧
    ∀ a ∈ conn'.insertedAddresses, a ∈ conn.insertedAddresses ∨
      ∃ d ∈ docs, matchesFilter (pointFilter ⟨n, a.1, a.2⟩) d = true
  autoCreates : ∀ n, AutoCreates before n → AutoCreates conns n
  owned : ∀ d ∈ docs, ∃ k, AutoCreates before k.conn ∧ matchesFilter (pointFilter k) d = true

theorem Marks.refl (conns : ℤ → Option Connection) : Marks conns conns [] :=
  ⟨fun _ conn' h => ⟨conn', h, rfl, fun _ ha => ha, fun _ ha => .inl ha⟩, fun _ h => h, by simp⟩

theorem createFor_none {coll : List Document} {lookupOk : ℤ → Bool}
    {conns : ℤ → Option Connection} {iv : Dnp3Value} (h : conns iv.connNumber = none) :
    createFor coll lookupOk conns iv = (conns, []) := by
  unfold createFor
  rw [h]

theorem createFor_some {coll : List Document} {lookupOk : ℤ → Bool}
    {conns : ℤ → Option Connection} {iv : Dnp3Value} {conn : Connection}
    (h : conns iv.connNumber = some conn) :
    createFor coll lookupOk conns iv =
      (Function.update conns iv.connNumber
        (some (autoCreateFor coll (lookupOk iv.connNumber) conn iv).1),
        (autoCreateFor coll (lookupOk iv.connNumber) conn iv).2) := by
  unfold createFor
  rw [h]

theorem Marks.createFor {before conns : ℤ → Option Connection} {docs : List Document}
    (h : Marks before conns docs) (coll : List Document) (lookupOk : ℤ → Bool) (iv : Dnp3Value) :
    Marks before (createFor coll lookupOk conns iv).1
      (docs ++ (createFor coll lookupOk conns iv).2) := by
  cases hconn : conns iv.connNumber with
  | none =>
      rw [createFor_none hconn, List.append_nil]
      exact h
  | some conn =>
      rw [createFor_some hconn]
      have hcreates := autoCreateFor_creates coll (lookupOk iv.connNumber) conn iv
      constructor
      · intro n conn' hn
        dsimp only at hn ⊢
        by_cases heq : n = iv.connNumber
        · subst heq
          rw [Function.update_self] at hn
          obtain rfl := Option.some.inj hn
          obtain ⟨first, hfirst, hauto, hkept, hadded⟩ := h.back _ _ hconn
          refine ⟨first, hfirst, hcreates.autoCreate.trans hauto,
            fun a ha => hcreates.kept a (hkept a ha), ?_⟩
          intro a ha
          rcases hcreates.added a ha with ha | ⟨d, hd, hmatch⟩
          · rcases hadded a ha with ha | ⟨d, hd, hmatch⟩
            · exact .inl ha
            · exact .inr ⟨d, List.mem_append_left _ hd, hmatch⟩
          · exact .inr ⟨d, List.mem_append_right _ hd, hmatch⟩
        · rw [Function.update_of_ne heq] at hn
          obtain ⟨first, hfirst, hauto, hkept, hadded⟩ := h.back n conn' hn
          refine ⟨first, hfirst, hauto, hkept, ?_⟩
          intro a ha
          rcases hadded a ha with ha | ⟨d, hd, hmatch⟩
          · exact .inl ha
          · exact .inr ⟨d, List.mem_append_left _ hd, hmatch⟩
      · intro n hn
        obtain ⟨conn', hconn', hauto'⟩ := h.autoCreates n hn
        dsimp only
        by_cases heq : n = iv.connNumber
        · subst heq
          obtain rfl := Option.some.inj (hconn.symm.trans hconn')
          exact ⟨_, Function.update_self .., hcreates.autoCreate.trans hauto'⟩
        · exact ⟨conn', by rw [Function.update_of_ne heq, hconn'], hauto'⟩
      · intro d hd
        rcases List.mem_append.mp hd with hd | hd
        · exact h.owned d hd
        · obtain ⟨hauto, g, hmatch⟩ := hcreates.docs d hd
          obtain ⟨first, hfirst, hsame, -⟩ := h.back _ _ hconn
          exact ⟨⟨iv.connNumber, g, iv.address⟩, ⟨first, hfirst, hsame ▸ hauto⟩, hmatch⟩

-- The addresses that are marked stay so, and that of the value is marked.
theorem createFor_marked (coll : List Document) (lookupOk : ℤ → Bool)
    (conns : ℤ → Option Connection) (iv : Dnp3Value) {n : ℤ} {conn' : Connection}
    (h : (createFor coll lookupOk conns iv).1 n = some conn') :
    ∃ conn, conns n = some conn ∧ conn'.autoCreateTags = conn.autoCreateTags ∧
      (∀ a ∈ conn.insertedAddresses, a ∈ conn'.insertedAddresses) ∧
      (n = iv.connNumber → conn.autoCreateTags = true →
        (iv.baseGroup, iv.address) ∈ conn'.insertedAddresses) := by
  obtain ⟨conn, hconn, hauto, hkept, -⟩ :=
    ((Marks.refl conns).createFor coll lookupOk iv).back n conn' h
  refine ⟨conn, hconn, hauto, hkept, ?_⟩
  rintro rfl hcreate
  rw [createFor_some hconn] at h
  dsimp only at h
  rw [Function.update_self] at h
  obtain rfl := Option.some.inj h
  exact (autoCreateFor_creates coll _ conn iv).marked hcreate

-- The plan of a batch of which no value is skipped.
structure Planned (before : ℤ → Option Connection) (batch : List Dnp3Value) (p : Plan) : Prop where
  writes : p.writes = batch.map writeModel
  seen : p.seen = (batch.map keyOf).reverse
  distinct : p.hasDuplicates = false → (batch.map keyOf).Nodup
  marks : Marks before p.conns p.inserts
  marked : ∀ iv ∈ batch, ∀ conn, p.conns iv.connNumber = some conn →
    conn.autoCreateTags = true → (iv.baseGroup, iv.address) ∈ conn.insertedAddresses

theorem planBatch_concat (coll : List Document) (lookupOk : ℤ → Bool)
    (conns : ℤ → Option Connection) (batch : List Dnp3Value) (iv : Dnp3Value) :
    planBatch coll lookupOk conns (batch ++ [iv]) =
      planValue coll lookupOk (planBatch coll lookupOk conns batch) iv := by
  simp [planBatch]

theorem planBatch_planned (coll : List Document) (lookupOk : ℤ → Bool)
    (conns : ℤ → Option Connection) {batch : List Dnp3Value}
    (hwritable : ∀ iv ∈ batch, isSkipped iv.value = false) :
    Planned conns batch (planBatch coll lookupOk conns batch) := by
  induction batch using List.reverseRecOn with
  | nil => exact ⟨rfl, rfl, fun _ => List.nodup_nil, Marks.refl conns, by simp⟩
  | append_singleton batch iv ih =>
      have hrest := ih fun w hw => hwritable w (List.mem_append_left _ hw)
      rw [planBatch_concat]
      generalize planBatch coll lookupOk conns batch = p at hrest
      unfold planValue
      rw [writeOf_eq (hwritable iv (by simp))]
      constructor
      · simp [hrest.writes]
      · simp [hrest.seen]
      · intro hdup
        simp only [Bool.or_eq_false_iff, decide_eq_false_iff_not, hrest.seen,
          List.mem_reverse] at hdup
        rw [List.map_append, List.map_singleton]
        exact (hrest.distinct hdup.1).append (List.nodup_singleton _)
          (List.disjoint_singleton.mpr hdup.2)
      · exact hrest.marks.createFor coll lookupOk iv
      · intro w hw conn' hconn' hauto'
        obtain ⟨conn, hconn, hauto, hkept, hnew⟩ := createFor_marked coll lookupOk _ _ hconn'
        rcases List.mem_append.mp hw with hw | hw
        · exact hkept _ (hrest.marked w hw conn hconn (hauto ▸ hauto'))
        · obtain rfl := List.mem_singleton.mp hw
          exact hnew rfl (hauto ▸ hauto')

end JsonScada.Dnp3.Writer
