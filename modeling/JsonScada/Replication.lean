import JsonScada.Processor.Bson
import JsonScada.WebServer.Js

-- One way replication: mongofw sends the changes of the points, mongowr writes them.
namespace JsonScada.Replication

open JsonScada.Library
open JsonScada.Processor (Document Value truthyValue setField)
open JsonScada.Processor.Node (Runtime toISOString)
open JsonScada.WebServer (toNumber utf16Length)

section JSON

mutual

-- What JSON can say: no dates, no numbers that are not finite, no types of BSON alone.
def isPlain : Value → Bool
  | .null | .bool _ | .string _ => true
  | .number x => x.isFinite
  | .document fields => plainFields fields
  | .array items => plainItems items
  | .dateTime _ | .other _ => false

def plainFields : List (String × Value) → Bool
  | [] => true
  | (_, v) :: fields => isPlain v && plainFields fields

def plainItems : List Value → Bool
  | [] => true
  | v :: items => isPlain v && plainItems items

end

-- What JavaScript makes of what is left to it.
structure Js where
  runtime : Runtime
  -- an object of a type of BSON, by its `toJSON`
  toJSON : List UInt8 → { v : Value // isPlain v = true }
  -- the time of a date that is made of anything but the text of a date
  otherDate : Value → ℤ

variable (js : Js)

def validTime (ms : ℤ) : Bool := ms.natAbs ≤ Calendar.maxTime

mutual

-- `JSON.parse(JSON.stringify(v))`
def wire : Value → Value
  | .number x => if x.isFinite then .number x else .null
  | .dateTime ms => if validTime ms then .string (toISOString ms) else .null
  | .document fields => .document (wireFields fields)
  | .array items => .array (wireItems items)
  | .other bytes => (js.toJSON bytes).1
  | .null => .null
  | .bool b => .bool b
  | .string s => .string s

def wireFields : List (String × Value) → List (String × Value)
  | [] => []
  | (k, v) :: fields => (k, wire v) :: wireFields fields

def wireItems : List Value → List Value
  | [] => []
  | v :: items => wire v :: wireItems items

end

-- The length of a text with its quotes: some characters are escaped with one more, the
-- other control characters by their number.
def quotedLength (s : String) : ℕ :=
  2 + (s.toList.map fun c =>
    if c = '"' ∨ c = '\\' ∨ c.toNat ∈ [8, 9, 10, 12, 13] then 2
    else if c.toNat < 0x20 then 6
    else if c.toNat < 0x10000 then 1 else 2).sum

mutual

-- `JSON.stringify(v).length` of what `wire` gives
def plainLength : Value → ℕ
  | .bool b => if b then 4 else 5
  | .number x => (Decimal.ecmaString x).length
  | .string s => quotedLength s
  -- a comma or the opening bracket before every member
  | .document fields => max 2 (1 + fieldsLength fields)
  | .array items => max 2 (1 + itemsLength items)
  | _ => 4

def fieldsLength : List (String × Value) → ℕ
  | [] => 0
  | (k, v) :: fields => 2 + quotedLength k + plainLength v + fieldsLength fields

def itemsLength : List Value → ℕ
  | [] => 0
  | v :: items => 1 + plainLength v + itemsLength items

end

def jsonLength (v : Value) : ℕ := plainLength (wire js v)

end JSON

def maxLengthJSON : ℕ := 60000
def packetSizeThreshold : ℕ := 7000
def maxQueue : ℕ := 5000

section Mongofw

-- A change of a point, as it waits to be sent.
structure Change where
  -- none when the point is gone, and of what is read back from the archive
  fullDocument : Option Document
  operationType : String
  documentKey : Value
  updatedFields : Document
  deriving DecidableEq

def Change.tag (c : Change) : Option Value := c.fullDocument.bind (·.lookup "tag")

def Change.source (c : Change) : Option Value := c.updatedFields.lookup "sourceDataUpdate"

-- The handler of the change stream, which gives only updates. What a driver writes
-- is a change to forward.
def handleChange (c : Change) : List Change := if truthyValue c.source then [c] else []

-- A document of a point without what is not synchronized.
def cleaned (doc : Document) : Document :=
  doc.filter fun f =>
    !((f.1 = "sourceDataUpdate" || f.1 = "protocolDestinations") && truthyValue (some f.2))

def integrity (doc : Document) : Change where
  fullDocument := some ((doc.lookup "tag").toList.map ("tag", ·))
  operationType := "integrity"
  documentKey := .document ((doc.lookup "_id").toList.map ("_id", ·))
  updatedFields := doc

-- `enqueueDbSync`, for one point: a document that is too large is ignored.
def enqueueDbSync (js : Js) (doc : Document) : List Change :=
  if maxLengthJSON < jsonLength js (.document (cleaned doc)) then [] else [integrity (cleaned doc)]

-- A change of the source update among the fields that a change carries.
def onSource (f : Document → Document) (field : String × Value) : String × Value :=
  match field with
  | (k, .document source) => if k = "sourceDataUpdate" then (k, .document (f source)) else field
  | _ => field

-- `v.length > n`
def longerThan (n : ℕ) : Value → Bool
  | .string s => n < utf16Length s
  | .array items => n < items.length
  | .document fields => (Document.num fields "length").any (Double.lt (.fin n))
  | _ => false

-- The values of a source update that can be too large to send.
def removed (field : String × Value) : Bool :=
  field.1 = "valueJsonAtSource" && longerThan (maxLengthJSON / 2) field.2 ||
    field.1 = "valueBsonAtSource" && truthyValue (some field.2)

def stripped (fields : Document) : Document :=
  fields.map (onSource fun source => source.filter (!removed ·))

-- What is sent of a change, and what the archive keeps of it.
structure Forwarded where
  cnt : ℕ
  tag : Option Value
  operationType : String
  documentKey : Value
  updatedFields : Document
  deriving DecidableEq

def forwarded (cnt : ℕ) (c : Change) : Forwarded where
  cnt := cnt
  tag := c.tag
  operationType := c.operationType
  documentKey := c.documentKey
  updatedFields := stripped c.updatedFields

def Forwarded.object (o : Forwarded) : Value :=
  .document (("cnt", .number (.fin o.cnt)) :: o.tag.toList.map ("tag", ·) ++
    [("operationType", .string o.operationType), ("documentKey", o.documentKey),
      ("updateDescription", .document [("updatedFields", .document o.updatedFields)])])

def isHistorical (fields : Document) : Bool :=
  (Document.doc fields "sourceDataUpdate").any (truthyValue <| ·.lookup "isHistorical")

-- Only the first sending of an update goes to the archive.
def Forwarded.toArchive (o : Forwarded) : Bool :=
  o.operationType = "update" && !isHistorical o.updatedFields

-- What a packet is made of, and what is left then.
structure Batch where
  fwArr : List Forwarded
  bfArr : List Forwarded
  cntChg : ℕ
  chgQueue : List Change

-- `dequeueChangesSend`: changes are taken until the packet is large enough.
def dequeueChanges (js : Js) (cntChg strSz : ℕ) : List Change → Batch
  | [] => ⟨[], [], cntChg, []⟩
  | change :: chgQueue =>
      let obj := forwarded (cntChg + 1) change
      let chgLen := jsonLength js obj.object
      if maxLengthJSON < chgLen then dequeueChanges js cntChg strSz chgQueue
      else
        let rest :=
          if packetSizeThreshold < strSz + chgLen then ⟨[], [], cntChg + 1, chgQueue⟩
          else dequeueChanges js (cntChg + 1) (strSz + chgLen) chgQueue
        { rest with
          fwArr := obj :: rest.fwArr
          bfArr := if obj.toArchive then obj :: rest.bfArr else rest.bfArr }

-- `replayBackfill`: an archived object is sent again as if it was a change.
def Forwarded.replayed (o : Forwarded) : Change where
  fullDocument := none
  operationType := o.operationType
  documentKey := o.documentKey
  updatedFields := o.updatedFields.map (onSource (setField · "isHistorical" (.bool true)))

end Mongofw

section Mongowr

-- `updateOne`
structure Write where
  -- the tag of the filter
  filter : Option Value
  set : Document
  -- the identifier of a point that is new, for a write that may insert it
  setOnInsert : Option Value
  deriving DecidableEq

variable (js : Js)

-- `new Date(v)`
def newDate (v : Value) : Value :=
  match v with
  | .string s => .dateTime ((Calendar.parseISO s.toList).getD (js.otherDate v))
  | v => .dateTime (js.otherDate v)

-- Dates are texts when they are received.
def restored (dates : List String) (field : String × Value) : String × Value :=
  (field.1, if field.1 ∈ dates && truthyValue (some field.2) then newDate js field.2 else field.2)

def sourceDates : List String := ["timeTag", "timeTagAtSource"]

def pointDates : List String := ["timeTag", "timeTagAtSource", "timeTagAlarm"]

def bulkOp (tag operationType : Option Value) (fields : Document) : Option Write :=
  if operationType = some (.string "integrity") && truthyValue (fields.lookup "_id") &&
      truthyValue tag then
    some
      { filter := tag
        set := (fields.map (restored js pointDates)).filter (·.1 ≠ "_id")
        setOnInsert := some (.number (toNumber js.runtime (fields.lookup "_id"))) }
  else if operationType = some (.string "update") &&
      truthyValue (fields.lookup "sourceDataUpdate") then
    some
      { filter := tag
        set := fields.map (onSource (·.map (restored js sourceDates)))
        setOnInsert := none }
  else none

-- One object of a packet.
def procObject (dataObj : Value) : Option Write :=
  match dataObj with
  | .document d =>
      if ["cnt", "operationType", "updateDescription"].all (Document.has d) then
        ((Document.doc d "updateDescription").bind (Document.doc · "updatedFields")).bind
          (bulkOp js (d.lookup "tag") (d.lookup "operationType"))
      else none
  | _ => none

end Mongowr

open JsonScada.Processor (Document Value truthyValue)
open JsonScada.Processor.Node (toISOString)

-- What a value is after it went through JSON, and which values come out as they went in.
section Wire

variable (js : Js)

theorem wireFields_eq_map (fields : Document) :
    wireFields js fields = fields.map fun f => (f.1, wire js f.2) := by
  induction fields with
  | nil => rfl
  | cons f fields ih => rw [wireFields, ih, List.map_cons]

theorem lookup_wireFields (fields : Document) (k : String) :
    (wireFields js fields).lookup k = (fields.lookup k).map (wire js) := by
  induction fields with
  | nil => rfl
  | cons f fields ih =>
      obtain ⟨l, v⟩ := f
      rw [wireFields, List.lookup_cons, List.lookup_cons]
      cases k == l <;> simp [ih]

mutual

theorem isPlain_wire : ∀ v : Value, isPlain (wire js v) = true
  | .null | .bool _ | .string _ => rfl
  | .number x => by
      cases hx : x.isFinite <;> simp [wire, hx, isPlain]
  | .dateTime ms => by
      cases hms : validTime ms <;> simp [wire, hms, isPlain]
  | .document fields => by rw [wire, isPlain, plainFields_wire fields]
  | .array items => by rw [wire, isPlain, plainItems_wire items]
  | .other bytes => by rw [wire]; exact (js.toJSON bytes).2

theorem plainFields_wire : ∀ fields : Document, plainFields (wireFields js fields) = true
  | [] => rfl
  | (_, v) :: fields => by
      rw [wireFields, plainFields, isPlain_wire v, plainFields_wire fields, Bool.and_true]

theorem plainItems_wire : ∀ items : List Value, plainItems (wireItems js items) = true
  | [] => rfl
  | v :: items => by
      rw [wireItems, plainItems, isPlain_wire v, plainItems_wire items, Bool.and_true]

end

mutual

theorem wire_of_isPlain : ∀ v : Value, isPlain v = true → wire js v = v
  | .null, _ | .bool _, _ | .string _, _ => rfl
  | .number x, h => by rw [wire, if_pos (show x.isFinite = true from h)]
  | .document fields, h => by rw [wire, wireFields_of_plain fields h]
  | .array items, h => by rw [wire, wireItems_of_plain items h]

theorem wireFields_of_plain :
    ∀ fields : Document, plainFields fields = true → wireFields js fields = fields
  | [], _ => rfl
  | (_, v) :: fields, h => by
      obtain ⟨hv, hfields⟩ := Bool.and_eq_true_iff.mp h
      rw [wireFields, wire_of_isPlain v hv, wireFields_of_plain fields hfields]

theorem wireItems_of_plain :
    ∀ items : List Value, plainItems items = true → wireItems js items = items
  | [], _ => rfl
  | v :: items, h => by
      obtain ⟨hv, hitems⟩ := Bool.and_eq_true_iff.mp h
      rw [wireItems, wire_of_isPlain v hv, wireItems_of_plain items hitems]

end

-- What JSON can say is what comes out as it went in.
theorem wire_eq_iff {v : Value} : wire js v = v ↔ isPlain v = true := by
  constructor
  · intro h
    rw [← h]
    exact isPlain_wire js v
  · exact wire_of_isPlain js v

end Wire

section Kept

-- A date is kept by its field, anything else by JSON, as long as it is not made a date.
def keptField (dates : List String) (field : String × Value) : Bool :=
  if field.1 ∈ dates then
    match field.2 with
    | .dateTime ms => validTime ms
    | v => isPlain v && !truthyValue (some v)
  else isPlain field.2

def keptSource (field : String × Value) : Bool :=
  match field.2 with
  | .document source =>
      if field.1 = "sourceDataUpdate" then source.all (keptField sourceDates) else isPlain field.2
  | v => isPlain v

variable (js : Js)

theorem newDate_toISOString {ms : ℤ} (h : validTime ms = true) :
    newDate js (.string (toISOString ms)) = .dateTime ms := by
  have hread := Calendar.parseISO_isoDate (of_decide_eq_true h)
  have htext : toISOString ms = Calendar.isoDate Calendar.isoYear ms := rfl
  simp only [newDate, htext, hread, Option.getD_some]

theorem newDate_eq (v : Value) : ∃ ms, newDate js v = .dateTime ms := by
  unfold newDate
  split <;> exact ⟨_, rfl⟩

theorem toISOString_ne_empty (ms : ℤ) : toISOString ms ≠ "" := by
  intro h
  have hlist := congrArg String.toList h
  simp [toISOString, Calendar.isoDate] at hlist

-- A value that is not a date is kept in the field of a date when it is none of those
-- that a date is made of.
theorem restored_plain {dates : List String} {k : String} {v : Value} (hk : k ∈ dates)
    (hv : ∀ ms, v ≠ .dateTime ms) :
    restored js dates (k, wire js v) = (k, v) ↔ (isPlain v && !truthyValue (some v)) = true := by
  have hne : ∀ w : Value, newDate js w ≠ v := by
    intro w hw
    obtain ⟨ms, hms⟩ := newDate_eq js w
    exact hv ms (hw.symm.trans hms)
  by_cases htruthy : truthyValue (some (wire js v)) = true
  · have hout : restored js dates (k, wire js v) = (k, newDate js (wire js v)) := by
      simp [restored, hk, htruthy]
    rw [hout]
    constructor
    · intro h
      exact absurd (Prod.ext_iff.mp h).2 (hne _)
    · intro h
      obtain ⟨hplain, hfalsy⟩ := Bool.and_eq_true_iff.mp h
      rw [wire_of_isPlain js v hplain] at htruthy
      simp [htruthy] at hfalsy
  · have hout : restored js dates (k, wire js v) = (k, wire js v) := by
      simp [restored, htruthy]
    rw [hout, Prod.ext_iff, Bool.and_eq_true_iff]
    simp only [true_and, wire_eq_iff]
    constructor
    · intro hplain
      rw [wire_of_isPlain js v hplain] at htruthy
      exact ⟨hplain, by simpa using htruthy⟩
    · exact And.left

theorem restored_dateTime {dates : List String} {k : String} (hk : k ∈ dates) (ms : ℤ) :
    restored js dates (k, wire js (.dateTime ms)) = (k, .dateTime ms) ↔ validTime ms = true := by
  cases hms : validTime ms with
  | false => simp [restored, wire, hms, truthyValue]
  | true =>
      have htruthy : truthyValue (some (.string (toISOString ms))) = true := by
        simp [truthyValue, toISOString_ne_empty]
      simp [restored, wire, hms, hk, htruthy, newDate_toISOString js hms]

theorem restored_wire_iff {dates : List String} (f : String × Value) :
    restored js dates (f.1, wire js f.2) = f ↔ keptField dates f = true := by
  obtain ⟨k, v⟩ := f
  by_cases hk : k ∈ dates
  · cases v with
    | dateTime ms => simpa [keptField, hk] using restored_dateTime js hk ms
    | _ => simpa [keptField, hk] using restored_plain js hk (by simp)
  · simp [restored, keptField, hk, wire_eq_iff]

theorem map_eq_self_iff {α : Type} {f : α → α} {l : List α} : l.map f = l ↔ ∀ a ∈ l, f a = a := by
  nth_rewrite 2 [← List.map_id l]
  exact List.map_inj_left

theorem onSource_ne_other (g : Document → Document) {f : String × Value}
    (hf : ∀ bytes, f.2 ≠ .other bytes) (bytes : List UInt8) : (onSource g f).2 ≠ .other bytes := by
  unfold onSource
  split
  · split <;> simp
  · exact hf bytes

theorem onSource_of_ne_document (g : Document → Document) {k : String} {v : Value}
    (hv : ∀ source, v ≠ .document source) : onSource g (k, v) = (k, v) := by
  cases v with
  | document source => exact absurd rfl (hv source)
  | _ => rfl

theorem onSource_wire_iff (f : String × Value) :
    onSource (·.map (restored js sourceDates)) (f.1, wire js f.2) = f ↔ keptSource f = true := by
  obtain ⟨k, v⟩ := f
  have hplain := isPlain_wire js v
  have hsame (hv : ∀ source, wire js v ≠ .document source) :
      onSource (·.map (restored js sourceDates)) (k, wire js v) = (k, v) ↔ isPlain v = true := by
    rw [onSource_of_ne_document _ hv, ← wire_eq_iff js]
    simp
  cases v with
  | document source =>
      by_cases hk : k = "sourceDataUpdate"
      · simp only [onSource, wire, hk, if_pos, keptSource, wireFields_eq_map, List.map_map,
          Prod.mk.injEq, Value.document.injEq, true_and, List.all_eq_true, map_eq_self_iff]
        exact forall₂_congr fun f _ => restored_wire_iff js f
      · simpa [onSource, wire, hk, keptSource] using wire_eq_iff js (v := .document source)
  | other bytes =>
      -- what JSON gives is never an object of a type of BSON
      have hwire (bs : List UInt8) : wire js (.other bytes) ≠ .other bs := by
        intro h
        rw [h] at hplain
        cases hplain
      have hne := onSource_ne_other (·.map (restored js sourceDates))
        (f := (k, wire js (.other bytes))) hwire bytes
      constructor
      · intro h
        exact absurd (congrArg Prod.snd h) hne
      · intro h
        cases h
  | number x => exact hsame (by cases hx : x.isFinite <;> simp [wire, hx])
  | dateTime ms => exact hsame (by cases hms : validTime ms <;> simp [wire, hms])
  | _ => exact hsame (by simp [wire])

theorem map_onSource_wire_iff (fields : Document) :
    (wireFields js fields).map (onSource (·.map (restored js sourceDates))) = fields ↔
      fields.all keptSource = true := by
  rw [wireFields_eq_map, List.map_map, map_eq_self_iff, List.all_eq_true]
  exact forall₂_congr fun f _ => onSource_wire_iff js f

theorem filter_restored_wire_iff (dates : List String) (fields : Document) (p : String → Bool) :
    ((wireFields js fields).map (restored js dates)).filter (p ·.1) = fields.filter (p ·.1) ↔
      (fields.filter (p ·.1)).all (keptField dates) = true := by
  rw [wireFields_eq_map, List.map_map, List.filter_map, List.all_eq_true]
  exact map_eq_self_iff.trans (forall₂_congr fun f _ => restored_wire_iff js f)

end Kept

end JsonScada.Replication
