import JsonScada.Iec60870.Client.AutoTag
import JsonScada.Iec60870.Client.Values
import JsonScada.Library.Backlog
import JsonScada.Library.Run

namespace JsonScada.Iec60870.Client.Writer

open JsonScada.Library
open JsonScada.JsMongo
open JsonScada.Processor (Document Value applySet)

def dataBufferLimit : ℕ := 10000
def writerMaxBatch : ℕ := 5000

section NewTag

def mapAsduToBaseType (t : ℕ) : ℕ :=
  if t ∈ [2, 30] then 1
  else if t ∈ [4, 31] then 3
  else if t ∈ [6, 32] then 5
  else if t ∈ [8, 33] then 7
  else if t ∈ [10, 21, 34] then 9
  else if t ∈ [12, 35] then 11
  else if t ∈ [14, 36] then 13
  else if t ∈ [16, 37] then 15
  else t

def typeDescription (baseType : ℕ) : String :=
  match baseType with
  | 1 => "Single Point"
  | 3 => "Double Point"
  | 5 => "Step Position"
  | 7 => "Bitstring 32"
  | 9 => "Measured Normalized"
  | 11 => "Measured Scaled"
  | 13 => "Measured Float"
  | 15 => "Integrated Totals"
  | 20 => "Packed Single Point"
  | n => "ASDU " ++ toString n

def zero : Value := .number (.fin 0)

-- The document of a tag for a value of an address that is not known yet.
def newRealtimeTagDoc (iv : IecValue) (connName : String) (id : Double) : Document :=
  let baseType := mapAsduToBaseType iv.asdu
  let desc := typeDescription baseType
  let isDigital := iv.isDigital
  let text (s : String) : Value := .string (if isDigital then s else "")
  let maxFloat64 : Value := .number (.fin JsTags.maxFloat64)
  let minFloat64 : Value := .number (.fin (-JsTags.maxFloat64))
  [("_id", .number id),
    ("tag", .string (connName ++ ";" ++ toString iv.commonAddress ++ ";" ++ toString iv.address)),
    ("type", .string (if isDigital then "digital" else "analog")), ("origin", .string "supervised"),
    ("description", .string (connName ++ "~" ++ desc ++ "~" ++ toString iv.address)),
    ("ungroupedDescription", .string (desc ++ " " ++ toString iv.address)),
    ("group1", .string connName), ("group2", .string ("CA " ++ toString iv.commonAddress)),
    ("group3", .string ""),
    ("protocolSourceConnectionNumber", .number (.fin iv.connNumber)),
    ("protocolSourceCommonAddress", .number (.fin iv.commonAddress)),
    ("protocolSourceObjectAddress", .number (.fin iv.address)),
    ("protocolSourceASDU", .number (.fin baseType)), ("protocolSourceCommandDuration", zero),
    ("protocolSourceCommandUseSBO", .bool false), ("protocolSourcePublishingInterval", zero),
    ("protocolSourceSamplingInterval", zero), ("protocolSourceQueueSize", zero),
    ("protocolSourceDiscardOldest", .bool false), ("protocolSourceAccessLevel", zero),
    ("commandOfSupervised", zero), ("supervisedOfCommand", zero),
    ("kconv1", .number (.fin 1)), ("kconv2", zero),
    ("alarmState", .number (.fin (if isDigital then 2 else -1))),
    ("stateTextFalse", text "FALSE"), ("stateTextTrue", text "TRUE"),
    ("eventTextFalse", text "FALSE"), ("eventTextTrue", text "TRUE"),
    ("value", .number iv.value), ("valueString", .string (formatValue iv.value)),
    ("valueJson", .null), ("invalid", .bool true),
    ("invalidDetectTimeout", .number (.fin 60000)), ("isEvent", .bool false),
    ("alarmDisabled", .bool false), ("alarmRange", zero), ("alarmed", .bool false),
    ("alerted", .bool false), ("alertState", .string ""), ("annotation", .string ""),
    ("commandBlocked", .bool false), ("commissioningRemarks", .string ""), ("formula", zero),
    ("frozen", .bool false), ("frozenDetectTimeout", zero), ("hiLimit", maxFloat64),
    ("hihiLimit", maxFloat64), ("hihihiLimit", maxFloat64), ("loLimit", minFloat64),
    ("loloLimit", minFloat64), ("lololoLimit", minFloat64), ("historianDeadBand", zero),
    ("historianPeriod", zero), ("historianLastValue", .null), ("hysteresis", zero),
    ("location", .null), ("notes", .string ""), ("overflow", .bool false), ("parcels", .null),
    ("priority", zero), ("protocolDestinations", .array []), ("sourceDataUpdate", .null),
    ("substituted", .bool false), ("timeTag", .null), ("timeTagAlarm", .null),
    ("timeTagAlertState", .null), ("timeTagAtSource", .null), ("timeTagAtSourceOk", .bool false),
    ("transient", .bool false), ("unit", .string ""), ("updatesCnt", zero),
    ("valueDefault", zero), ("zeroDeadband", zero)]

end NewTag

section Writes

-- What the writer reads and keeps of a connection. The addresses, each with its common one, are
-- those that it takes to have a tag.
structure Connection where
  protocolConnectionNumber : Double
  name : String
  autoCreateTags : Bool
  inserted : List (ℤ × ℤ) := []
  lastNewKey : Double := .fin 0

structure PointKey where
  conn : ℤ
  commonAddress : ℤ
  address : ℤ
deriving DecidableEq

def keyOf (iv : IecValue) : PointKey := ⟨iv.connNumber, iv.commonAddress, iv.address⟩

-- The query for the tag of a point.
def matchesPoint (k : PointKey) (d : Document) : Bool :=
  fieldMatches (equals (.fin k.conn)) (d.lookup "protocolSourceConnectionNumber") &&
    fieldMatches (addrMatch k.commonAddress) (d.lookup "protocolSourceCommonAddress") &&
    fieldMatches (addrMatch k.address) (d.lookup "protocolSourceObjectAddress")

structure WriteModel where
  filter : PointKey
  update : Document

def applyWrite (coll : List Document) (w : WriteModel) : List Document :=
  Table.updateFirst (matchesPoint w.filter) (fun d => applySet d w.update) coll

-- The connections by their numbers, as FindConn finds them.
variable (driver : Driver) (coll : List Document) (lookupOk : ℤ → Bool)

-- The tag of a value whose address is not known on a connection that creates tags. The address is
-- known from then on.
def createFor (conns : ℤ → Option Connection) (iv : IecValue) :
    (ℤ → Option Connection) × List Document :=
  match conns iv.connNumber with
  | none => (conns, [])
  | some srv =>
      if srv.autoCreateTags && !srv.inserted.contains (iv.commonAddress, iv.address) then
        let newID := getNextAutoKey srv.lastNewKey srv.protocolConnectionNumber coll
          (lookupOk iv.connNumber)
        let srv := { srv with
          inserted := (iv.commonAddress, iv.address) :: srv.inserted, lastNewKey := newID }
        (Function.update conns iv.connNumber (some srv), [newRealtimeTagDoc iv srv.name newID])
      else (conns, [])

def writeModel (iv : IecValue) : WriteModel where
  filter := keyOf iv
  update := sourceDataUpdateDoc driver iv

-- What the loop over a batch puts together, with the connections as it leaves them.
structure Built where
  conns : ℤ → Option Connection
  writes : List WriteModel := []
  insertDocs : List Document := []

def buildWrite (b : Built) (iv : IecValue) : Built :=
  let (conns, docs) := createFor coll lookupOk b.conns iv
  { conns := conns
    writes := b.writes ++ [writeModel driver iv]
    insertDocs := b.insertDocs ++ docs }

def buildWrites (conns : ℤ → Option Connection) (vals : List IecValue) : Built :=
  vals.foldl (buildWrite driver coll lookupOk) { conns := conns }

end Writes

section Run

-- Where the writer stands. A value that is pending is in no other place.
inductive Phase where
  | idle
  | collecting (pending : List IecValue)
  | built (pending : List IecValue) (writes : List WriteModel) (insertDocs : List Document)
  | flushed (pending : List IecValue) (writes : List WriteModel)

structure State where
  dataQ : List IecValue
  conns : ℤ → Option Connection
  coll : List Document
  phase : Phase

inductive Action where
  | enqueue (v : IecValue)
  | dequeue
  -- the lookups of the highest _id that are answered
  | buildWrites (lookupOk : ℤ → Bool)
  -- the documents that an InsertMany gets to; its error is only logged
  | insertMany (reached : List Bool)
  -- the operations of a BulkWrite that are executed, in their order, and its success
  | bulkWrite (executed : List ℕ) (ok : Bool)

def hasRoom (s : State) : Bool := s.dataQ.length < dataBufferLimit

def step (driver : Driver) (s : State) : Action → Option State
  | .enqueue v => some (if hasRoom s then { s with dataQ := s.dataQ ++ [v] } else s)
  | .dequeue =>
      match s.dataQ, s.phase with
      | v :: dataQ, .idle => some { s with dataQ := dataQ, phase := .collecting [v] }
      | v :: dataQ, .collecting pending =>
          if pending.length < writerMaxBatch then
            some { s with dataQ := dataQ, phase := .collecting (pending ++ [v]) }
          else none
      | _, _ => none
  | .buildWrites lookupOk =>
      match s.phase with
      | .collecting pending =>
          if s.dataQ.isEmpty || pending.length = writerMaxBatch then
            let b := Writer.buildWrites driver s.coll lookupOk s.conns pending
            some { s with conns := b.conns, phase := .built pending b.writes b.insertDocs }
          else none
      | _ => none
  | .insertMany reached =>
      match s.phase with
      | .built pending writes insertDocs =>
          some { s with
            coll := JsMongo.insertMany s.coll insertDocs reached
            phase := .flushed pending writes }
      | _ => none
  -- after a failed call the pending values are gone as well
  | .bulkWrite executed ok =>
      match s.phase with
      | .flushed _ writes =>
          if Backlog.canExecute writes.length ok executed then
            some { s with
              coll := (Backlog.executedOf writes executed).foldl applyWrite s.coll
              phase := .idle }
          else none
      | _ => none

-- The addresses of the tags of a connection, as far as their documents can be read.
def preloadInsertedAddresses (coll : List Document) (srv : Connection) (count : ℕ) :
    List (ℤ × ℤ) :=
  ((coll.filter fun d => fieldMatches (equals srv.protocolConnectionNumber)
      (d.lookup "protocolSourceConnectionNumber")).take count).map fun d =>
    ((getU32 d "protocolSourceCommonAddress" 0).toNat,
      (getU32 d "protocolSourceObjectAddress" 0).toNat)

-- The writer after the start of the driver, where `count` tags of each connection could be read.
def start (coll : List Document) (conns : ℤ → Option Connection) (count : ℤ → ℕ) : State where
  dataQ := []
  conns := fun n => (conns n).map fun srv =>
    { srv with
      inserted := if srv.autoCreateTags then preloadInsertedAddresses coll srv (count n) else []
      lastNewKey := .fin 0 }
  coll := coll
  phase := .idle

end Run

open JsonScada.Processor (Document Value applySet lookup_applySet)

section Points

-- A document that no two points share.
def OnePoint (d : Document) : Prop :=
  ∀ k k', matchesPoint k d = true → matchesPoint k' d = true → k = k'

theorem equals_iff {a b : ℤ} : equals (.fin b) (.number (.fin a)) = true ↔ b = a := by
  simp [equals, Double.eq, eq_comm]

theorem addrMatch_iff {a b : ℤ} : addrMatch b (.number (.fin a)) = true ↔ b = a := by
  simp [addrMatch, Double.eq, eq_comm]

-- A new tag is that of the point of its value, and of no other.
theorem matchesPoint_newRealtimeTagDoc {iv : IecValue} {connName : String} {id : Double}
    {k : PointKey} :
    matchesPoint k (newRealtimeTagDoc iv connName id) = true ↔ k = keyOf iv := by
  have hconn : (newRealtimeTagDoc iv connName id).lookup "protocolSourceConnectionNumber" =
      some (.number (.fin iv.connNumber)) := rfl
  have hca : (newRealtimeTagDoc iv connName id).lookup "protocolSourceCommonAddress" =
      some (.number (.fin iv.commonAddress)) := rfl
  have haddr : (newRealtimeTagDoc iv connName id).lookup "protocolSourceObjectAddress" =
      some (.number (.fin iv.address)) := rfl
  rw [matchesPoint, hconn, hca, haddr, Bool.and_eq_true, Bool.and_eq_true]
  simp only [fieldMatches, equals_iff, addrMatch_iff]
  cases k
  simp [keyOf, and_assoc]

theorem matchesPoint_update (driver : Driver) (k : PointKey) (d : Document) (iv : IecValue) :
    matchesPoint k (applySet d (sourceDataUpdateDoc driver iv)) = matchesPoint k d := by
  have hother (key : String) (h : key ≠ "sourceDataUpdate") :
      (applySet d (sourceDataUpdateDoc driver iv)).lookup key = d.lookup key := by
    rw [sourceDataUpdateDoc, lookup_setOne, if_neg h]
  rw [matchesPoint, matchesPoint, hother _ (by decide), hother _ (by decide), hother _ (by decide)]

end Points

section Stored

-- The stored source update of a point, none without a document.
def sourceOf (coll : List Document) (k : PointKey) : Option (Option Value) :=
  (coll.find? (matchesPoint k)).map fun d => d.lookup "sourceDataUpdate"

def HasDoc (coll : List Document) (k : PointKey) : Prop := (sourceOf coll k).isSome

def written (driver : Driver) (iv : IecValue) : Value := .document (sourceDataUpdate driver iv)

variable {driver : Driver} {coll docs : List Document} {k : PointKey}

theorem hasDoc_iff : HasDoc coll k ↔ ∃ d ∈ coll, matchesPoint k d = true := by
  rw [HasDoc, sourceOf, Option.isSome_map, List.find?_isSome]

theorem HasDoc.append (h : HasDoc coll k) : HasDoc (coll ++ docs) k := by
  rw [hasDoc_iff] at h ⊢
  obtain ⟨d, hd, hk⟩ := h
  exact ⟨d, List.mem_append_left _ hd, hk⟩

theorem sourceOf_append (h : HasDoc coll k) : sourceOf (coll ++ docs) k = sourceOf coll k := by
  rw [HasDoc, sourceOf, Option.isSome_map] at h
  obtain ⟨d, hd⟩ := Option.isSome_iff_exists.mp h
  rw [sourceOf, sourceOf, Table.find?_append_of_some docs hd, hd]

theorem sourceOf_append_of_none (h : ∀ d ∈ docs, matchesPoint k d = false) :
    sourceOf (coll ++ docs) k = sourceOf coll k := by
  have hnone : docs.find? (matchesPoint k) = none :=
    List.find?_eq_none.mpr fun d hd => Bool.eq_false_iff.mp (h d hd)
  rw [sourceOf, sourceOf, List.find?_append, hnone, Option.or_none]

theorem sourceOf_applyWrite (hone : ∀ d ∈ coll, OnePoint d) (iv : IecValue) :
    sourceOf (applyWrite coll (writeModel driver iv)) k =
      if keyOf iv = k then (sourceOf coll k).map fun _ => some (written driver iv)
      else sourceOf coll k := by
  rw [sourceOf, sourceOf, applyWrite]
  split_ifs with hk
  · subst hk
    rw [writeModel, Table.find?_updateFirst fun d hd => (matchesPoint_update driver _ d iv).trans hd,
      Option.map_map, Option.map_map]
    congr 1
    funext d
    simp [sourceDataUpdateDoc, lookup_setOne, written]
  · rw [Table.find?_updateFirst_ne]
    intro d hd hmatch
    have hother : matchesPoint k d = false :=
      Bool.eq_false_iff.mpr fun hk' => hk (hone d hd _ _ hmatch hk')
    exact ⟨hother, (matchesPoint_update driver k d iv).trans hother⟩

theorem onePoint_applyWrite (hone : ∀ d ∈ coll, OnePoint d) (iv : IecValue) :
    ∀ d ∈ applyWrite coll (writeModel driver iv), OnePoint d := by
  intro d hd
  obtain hd | ⟨x, hx, -, rfl⟩ := Table.of_mem_updateFirst hd
  · exact hone d hd
  · intro k k' hk hk'
    rw [writeModel, matchesPoint_update] at hk hk'
    exact hone x hx k k' hk hk'

-- The executed updates leave what the last of them for the point writes.
theorem sourceOf_applyWrites (hone : ∀ d ∈ coll, OnePoint d) (ivs : List IecValue) :
    sourceOf ((ivs.map (writeModel driver)).foldl applyWrite coll) k =
      (sourceOf coll k).map fun old => ((Backlog.lastOf keyOf k ivs).map (written driver)).or old := by
  have hafter : sourceOf ((ivs.map (writeModel driver)).foldl applyWrite coll) k =
      (sourceOf coll k).map fun old => LastWrite.after
        (fun iv => if keyOf iv = k then some (written driver iv) else none) old ivs := by
    induction ivs generalizing coll with
    | nil => simp [LastWrite.after]
    | cons iv ivs ih =>
        rw [List.map_cons, List.foldl_cons, ih (onePoint_applyWrite hone iv),
          sourceOf_applyWrite hone]
        by_cases hk : keyOf iv = k
        · rw [if_pos hk, Option.map_map]
          congr 1
          funext old
          simp [LastWrite.after, hk]
        · rw [if_neg hk]
          congr 1
          funext old
          simp [LastWrite.after, hk]
  rw [hafter]
  congr 1
  funext old
  exact Backlog.after_eq_lastOf _ _ _

theorem onePoint_applyWrites (hone : ∀ d ∈ coll, OnePoint d) (ivs : List IecValue) :
    ∀ d ∈ (ivs.map (writeModel driver)).foldl applyWrite coll, OnePoint d := by
  induction ivs generalizing coll with
  | nil => exact hone
  | cons iv ivs ih => exact ih (onePoint_applyWrite hone iv)

theorem hasDoc_applyWrites (hone : ∀ d ∈ coll, OnePoint d) (ivs : List IecValue) :
    HasDoc ((ivs.map (writeModel driver)).foldl applyWrite coll) k ↔ HasDoc coll k := by
  rw [HasDoc, HasDoc, sourceOf_applyWrites hone, Option.isSome_map]

end Stored

section Building

def autoCreates (conns : ℤ → Option Connection) (n : ℤ) : Bool :=
  (conns n).any fun srv => srv.autoCreateTags

-- The writer takes the point to have a tag.
def known (conns : ℤ → Option Connection) (k : PointKey) : Bool :=
  (conns k.conn).any fun srv => srv.inserted.contains (k.commonAddress, k.address)

-- The points that get known are those that there is a new document for.
structure Grows (conns conns' : ℤ → Option Connection) (docs : List Document) : Prop where
  auto : ∀ n, autoCreates conns' n = autoCreates conns n
  known : ∀ k, known conns' k = true ↔ known conns k = true ∨ ∃ d ∈ docs, matchesPoint k d = true
  docs : ∀ d ∈ docs, OnePoint d ∧ ∀ k, matchesPoint k d = true → autoCreates conns k.conn = true

theorem Grows.refl (conns : ℤ → Option Connection) : Grows conns conns [] :=
  ⟨fun _ => rfl, by simp, by simp⟩

variable {conns conns' conns'' : ℤ → Option Connection} {docs docs' : List Document}

theorem Grows.trans (h : Grows conns conns' docs) (h' : Grows conns' conns'' docs') :
    Grows conns conns'' (docs ++ docs') := by
  refine ⟨fun n => (h'.auto n).trans (h.auto n), fun k => ?_, fun d hd => ?_⟩
  · rw [h'.known, h.known, or_assoc]
    simp only [List.mem_append, or_and_right, exists_or]
  · rcases List.mem_append.mp hd with hd | hd
    · exact h.docs d hd
    · obtain ⟨hone, hauto⟩ := h'.docs d hd
      exact ⟨hone, fun k hk => (h.auto k.conn).symm.trans (hauto k hk)⟩

theorem Grows.known_mono (h : Grows conns conns' docs) {k : PointKey}
    (hk : Writer.known conns k = true) : Writer.known conns' k = true :=
  (h.known k).mpr (.inl hk)

variable (coll : List Document) (lookupOk : ℤ → Bool)

theorem createFor_grows (conns : ℤ → Option Connection) (iv : IecValue) :
    Grows conns (createFor coll lookupOk conns iv).1 (createFor coll lookupOk conns iv).2 ∧
      (autoCreates conns iv.connNumber = true →
        known (createFor coll lookupOk conns iv).1 (keyOf iv) = true) := by
  unfold createFor
  cases hconn : conns iv.connNumber with
  | none => exact ⟨Grows.refl conns, by simp [autoCreates, hconn]⟩
  | some srv =>
      dsimp only
      split_ifs with hnew
      · rw [Bool.and_eq_true, Bool.not_eq_true'] at hnew
        generalize getNextAutoKey srv.lastNewKey srv.protocolConnectionNumber coll
          (lookupOk iv.connNumber) = newID
        refine ⟨⟨fun n => ?_, fun k => ?_, fun d hd => ?_⟩, fun _ => ?_⟩
        · by_cases hn : n = iv.connNumber
          · simp [autoCreates, hn, hconn]
          · simp [autoCreates, hn]
        · simp only [List.mem_singleton, exists_eq_left, matchesPoint_newRealtimeTagDoc]
          by_cases hn : k.conn = iv.connNumber
          · obtain ⟨n, ca, address⟩ := k
            obtain rfl : n = iv.connNumber := hn
            simp [known, hconn, keyOf, or_comm]
          · have hk : k ≠ keyOf iv := fun h => hn (h ▸ rfl)
            simp [known, hn, hk]
        · obtain rfl := List.mem_singleton.mp hd
          refine ⟨fun k k' hk hk' => ?_, fun k hk => ?_⟩
          · rw [matchesPoint_newRealtimeTagDoc] at hk hk'
            rw [hk, hk']
          · rw [matchesPoint_newRealtimeTagDoc] at hk
            subst hk
            simp [autoCreates, keyOf, hconn, hnew.1]
        · simp [known, keyOf]
      · refine ⟨Grows.refl conns, fun hauto => ?_⟩
        have hcreates : srv.autoCreateTags = true := by simpa [autoCreates, hconn] using hauto
        rw [hcreates, Bool.true_and, Bool.not_eq_true, Bool.not_eq_false'] at hnew
        simp only [known, keyOf, hconn, Option.any_some]
        exact hnew

-- What building the writes of a batch does: an update for each value, and a known tag where tags
-- are created.
structure Builds (driver : Driver) (conns : ℤ → Option Connection) (vals : List IecValue)
    (b : Built) : Prop where
  grows : Grows conns b.conns b.insertDocs
  writes : b.writes = vals.map (writeModel driver)
  known : ∀ iv ∈ vals, autoCreates conns iv.connNumber = true → known b.conns (keyOf iv) = true

theorem buildWrites_builds (driver : Driver) (conns : ℤ → Option Connection)
    (vals : List IecValue) :
    Builds driver conns vals (buildWrites driver coll lookupOk conns vals) := by
  induction vals using List.reverseRecOn with
  | nil => exact ⟨Grows.refl conns, rfl, by simp⟩
  | append_singleton vals iv ih =>
      rw [buildWrites, List.foldl_append, List.foldl_cons, List.foldl_nil]
      rw [buildWrites] at ih
      generalize vals.foldl (buildWrite driver coll lookupOk) { conns := conns } = b at ih ⊢
      obtain ⟨hgrows, hknown⟩ := createFor_grows coll lookupOk b.conns iv
      refine ⟨ih.grows.trans hgrows, ?_, ?_⟩
      · rw [List.map_append, ← ih.writes]
        rfl
      · intro v hv hauto
        rcases List.mem_append.mp hv with hv | hv
        · exact hgrows.known_mono (ih.known v hv hauto)
        · obtain rfl := List.mem_singleton.mp hv
          exact hknown ((ih.grows.auto _).trans hauto)

end Building

section Inversion

-- What each action needs, and what it leaves.
variable {driver : Driver} {s s' : State}

def Phase.pending : Phase → List IecValue
  | idle => []
  | collecting pending => pending
  | built pending _ _ => pending
  | flushed pending _ => pending

def Phase.insertDocs : Phase → List Document
  | built _ _ insertDocs => insertDocs
  | _ => []

theorem step_dequeue (h : step driver s .dequeue = some s') :
    ∃ v dataQ, s.dataQ = v :: dataQ ∧ (s.phase = .idle ∨ ∃ pending, s.phase = .collecting pending) ∧
      s' = { s with dataQ := dataQ, phase := .collecting (s.phase.pending ++ [v]) } := by
  simp only [step] at h
  split at h
  · rename_i v dataQ hq hphase
    refine ⟨v, dataQ, hq, .inl hphase, ?_⟩
    rw [hphase]
    exact (Option.some.inj h).symm
  · rename_i v dataQ pending hq hphase
    split_ifs at h
    refine ⟨v, dataQ, hq, .inr ⟨pending, hphase⟩, ?_⟩
    rw [hphase]
    exact (Option.some.inj h).symm
  · cases h

theorem step_buildWrites {lookupOk : ℤ → Bool}
    (h : step driver s (.buildWrites lookupOk) = some s') :
    ∃ pending b, s.phase = .collecting pending ∧ Builds driver s.conns pending b ∧
      s' = { s with conns := b.conns, phase := .built pending b.writes b.insertDocs } := by
  simp only [step] at h
  split at h
  · split_ifs at h
    exact ⟨_, _, ‹_›, buildWrites_builds s.coll lookupOk driver s.conns _,
      (Option.some.inj h).symm⟩
  · cases h

theorem step_insertMany {reached : List Bool} (h : step driver s (.insertMany reached) = some s') :
    ∃ pending writes insertDocs, s.phase = .built pending writes insertDocs ∧
      s' = { s with
        coll := insertMany s.coll insertDocs reached, phase := .flushed pending writes } := by
  simp only [step] at h
  split at h
  · exact ⟨_, _, _, ‹_›, (Option.some.inj h).symm⟩
  · cases h

theorem step_bulkWrite {executed : List ℕ} {ok : Bool}
    (h : step driver s (.bulkWrite executed ok) = some s') :
    ∃ pending writes, s.phase = .flushed pending writes ∧
      s' = { s with
        coll := (Backlog.executedOf writes executed).foldl applyWrite s.coll, phase := .idle } := by
  simp only [step] at h
  split at h
  · split_ifs at h
    exact ⟨_, _, ‹_›, (Option.some.inj h).symm⟩
  · cases h

end Inversion

end JsonScada.Iec60870.Client.Writer
