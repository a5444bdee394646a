import JsonScada.Library.Assoc
import JsonScada.Replication

-- The changes that mongofw handles, each with the write that mongowr builds for it.
namespace JsonScada.Replication

open JsonScada.Library
open JsonScada.Processor (Document Value truthyValue)
open JsonScada.WebServer (toNumber)

section Changes

-- What a driver has written.
structure DriverUpdate extends Change where
  isUpdate : operationType = "update"
  hasSource : truthyValue toChange.source = true
  deriving DecidableEq

inductive Handled where
  | update (u : DriverUpdate)
  -- a document of the synchronization
  | integrity (doc : Document)
  -- an earlier update, read from the archive
  | replay (o : Forwarded)
  deriving DecidableEq

namespace Handled

def queued : Handled → Change
  | update u => u.toChange
  | integrity doc => Replication.integrity (cleaned doc)
  | replay o => o.replayed

-- The tag of the original change.
def tag : Handled → Option Value
  | update u => u.tag
  | integrity doc => (cleaned doc).lookup "tag"
  | replay o => o.tag

-- The original fields, without those that are removed. The identifier of a point is
-- not for a point that exists.
def fields : Handled → Document
  | integrity doc => (stripped (cleaned doc)).filter (·.1 ≠ "_id")
  | h => stripped h.queued.updatedFields

def id : Handled → Option Value
  | integrity doc => (cleaned doc).lookup "_id"
  | _ => none

def isReplay : Handled → Bool
  | replay _ => true
  | _ => false

end Handled

-- The write that a change asks for.
def Applied (h : Handled) (w : Write) : Prop :=
  h.tag.isSome ∧ w.filter = h.tag ∧ w.set = h.fields ∧ w.setOnInsert = h.id ∧
    isHistorical w.set = h.isReplay

instance (h : Handled) (w : Write) : Decidable (Applied h w) :=
  inferInstanceAs (Decidable (_ ∧ _ ∧ _ ∧ _ ∧ _))

def isNumber : Value → Bool
  | .number x => x.isFinite
  | _ => false

-- Changes that come out as they went in.
def Handled.Carried (h : Handled) : Prop :=
  match h with
  | .update u =>
      u.tag.any isPlain ∧ (stripped u.updatedFields).all keptSource ∧
        isHistorical (stripped u.updatedFields) = false
  | .integrity doc =>
      ((cleaned doc).lookup "tag").any (fun tag => isPlain tag && truthyValue (some tag)) ∧
        ((cleaned doc).lookup "_id").any (fun id => isNumber id && truthyValue (some id)) ∧
        ((stripped (cleaned doc)).filter (·.1 ≠ "_id")).all (keptField pointDates)
  | .replay _ => False

instance (h : Handled) : Decidable h.Carried :=
  match h with
  | .update _ => inferInstanceAs (Decidable (_ ∧ _ ∧ _))
  | .integrity _ => inferInstanceAs (Decidable (_ ∧ _ ∧ _))
  | .replay _ => .isFalse not_false

end Changes

section Written

variable (js : Js)

-- The write that is built for a change, however it is numbered.
def written (c : Change) : Option Write :=
  bulkOp js (c.tag.map (wire js)) (some (.string c.operationType))
    (wireFields js (stripped c.updatedFields))

theorem procObject_forwarded (cnt : ℕ) (c : Change) :
    procObject js (wire js (forwarded cnt c).object) = written js c := by
  simp only [forwarded, Forwarded.object, written]
  cases c.tag <;>
    simp [wire, wireFields, procObject, Document.has, Document.doc, List.lookup_cons]

theorem onSource_fst (f : Document → Document) (field : String × Value) :
    (onSource f field).1 = field.1 := by
  unfold onSource
  split
  · split <;> rfl
  · rfl

theorem lookup_map_onSource (f : Document → Document) (fields : Document) (k : String) :
    (fields.map (onSource f)).lookup k = (fields.lookup k).map fun v => (onSource f (k, v)).2 := by
  have hpair : onSource f = fun field => (field.1, (onSource f (field.1, field.2)).2) :=
    funext fun field => Prod.ext (onSource_fst f field) rfl
  rw [hpair]
  exact Assoc.lookup_map (fun k v => (onSource f (k, v)).2) fields k

theorem truthyValue_onSource (f : Document → Document) (k : String) (v : Value) :
    truthyValue (some (onSource f (k, v)).2) = truthyValue (some v) := by
  cases v with
  | document source =>
      simp only [onSource]
      split <;> rfl
  | _ => rfl

theorem truthyValue_lookup_stripped (fields : Document) (k : String) :
    truthyValue ((stripped fields).lookup k) = truthyValue (fields.lookup k) := by
  rw [stripped, lookup_map_onSource]
  cases fields.lookup k with
  | none => rfl
  | some v => exact truthyValue_onSource _ k v

theorem lookup_stripped {k : String} (hk : k ≠ "sourceDataUpdate") (fields : Document) :
    (stripped fields).lookup k = fields.lookup k := by
  rw [stripped, lookup_map_onSource]
  cases fields.lookup k with
  | none => rfl
  | some v => cases v <;> simp [onSource, hk]

-- A source update that is kept is one for the receiver too.
theorem truthyValue_wire {k : String} {v : Value} (hkept : keptSource (k, v) = true)
    (h : truthyValue (some v) = true) : truthyValue (some (wire js v)) = true := by
  cases v with
  | document source => rfl
  | _ => rwa [wire_of_isPlain js _ hkept]

theorem written_update (u : DriverUpdate) :
    written js u.toChange =
      if truthyValue ((wireFields js (stripped u.updatedFields)).lookup "sourceDataUpdate") then
        some
          { filter := u.tag.map (wire js)
            set := (wireFields js (stripped u.updatedFields)).map
              (onSource (·.map (restored js sourceDates)))
            setOnInsert := none }
      else none := by
  simp [written, bulkOp, u.isUpdate]

theorem written_of_kept {u : DriverUpdate}
    (h : (stripped u.updatedFields).all keptSource = true) :
    written js u.toChange =
      some { filter := u.tag.map (wire js), set := stripped u.updatedFields, setOnInsert := none } := by
  have htruthy : truthyValue ((stripped u.updatedFields).lookup "sourceDataUpdate") = true :=
    (truthyValue_lookup_stripped _ _).trans u.hasSource
  cases hv : (stripped u.updatedFields).lookup "sourceDataUpdate" with
  | none =>
      rw [hv] at htruthy
      cases htruthy
  | some v =>
      rw [hv] at htruthy
      obtain ⟨front, back, hmem, -⟩ := List.lookup_eq_some_iff.mp hv
      have hkept := List.all_eq_true.mp h ("sourceDataUpdate", v) (by simp [hmem])
      rw [written_update, lookup_wireFields, hv, Option.map_some,
        if_pos (truthyValue_wire js hkept htruthy), (map_onSource_wire_iff js _).mpr h]

theorem written_update_iff (u : DriverUpdate) :
    (∃ w, written js u.toChange = some w ∧ Applied (.update u) w) ↔
      (Handled.update u).Carried := by
  have htag : (u.tag.isSome ∧ u.tag.map (wire js) = u.tag) ↔ u.tag.any isPlain = true := by
    cases u.tag <;> simp [wire_eq_iff]
  constructor
  · rintro ⟨w, hw, hsome, hfilter, hset, -, hhist⟩
    rw [written_update] at hw
    split at hw
    · obtain rfl := Option.some.inj hw
      refine ⟨htag.mp ⟨hsome, hfilter⟩, (map_onSource_wire_iff js _).mp hset, ?_⟩
      rwa [hset] at hhist
    · cases hw
  · rintro ⟨hplain, hkept, hhist⟩
    obtain ⟨hsome, hfilter⟩ := htag.mpr hplain
    exact ⟨_, written_of_kept js hkept, hsome, hfilter, rfl, rfl, hhist⟩

-- What is sent again has no tag where the receiver looks for it.
theorem written_replay (o : Forwarded) (w : Write) (hw : written js o.replayed = some w) :
    w.filter = none := by
  simp only [written, bulkOp] at hw
  split at hw
  · cases hw
    rfl
  · split at hw
    · cases hw
      rfl
    · cases hw

theorem mem_of_doc {fields source : Document} {k : String}
    (h : Document.doc fields k = some source) : (k, .document source) ∈ fields := by
  unfold Document.doc at h
  split at h
  · rename_i hlookup
    obtain rfl := Option.some.inj h
    obtain ⟨front, back, hmem, -⟩ := List.lookup_eq_some_iff.mp hlookup
    simp [hmem]
  · cases h

-- Nothing of a source update is synchronized.
theorem isHistorical_cleaned (doc : Document) (p : String × Value → Bool) :
    isHistorical ((stripped (cleaned doc)).filter p) = false := by
  unfold isHistorical
  cases hsource : Document.doc ((stripped (cleaned doc)).filter p) "sourceDataUpdate" with
  | none => rfl
  | some source =>
      have hmem := List.mem_of_mem_filter (mem_of_doc hsource)
      obtain ⟨⟨k, v⟩, hdoc, hout⟩ := List.mem_map.mp hmem
      have hkey : k = "sourceDataUpdate" :=
        (onSource_fst _ (k, v)).symm.trans (congrArg Prod.fst hout)
      have hkeep := List.of_mem_filter hdoc
      cases v <;> simp [onSource, hkey, truthyValue] at hout hkeep

theorem tag_integrity (doc : Document) : (integrity doc).tag = doc.lookup "tag" := by
  simp only [integrity, Change.tag, Option.bind_some]
  cases doc.lookup "tag" <;> simp

theorem written_integrity (doc : Document) :
    written js (integrity doc) =
      if truthyValue ((doc.lookup "_id").map (wire js)) &&
          truthyValue ((doc.lookup "tag").map (wire js)) then
        some
          { filter := (doc.lookup "tag").map (wire js)
            set := ((wireFields js (stripped doc)).map (restored js pointDates)).filter (·.1 ≠ "_id")
            setOnInsert :=
              some (.number (toNumber js.runtime ((doc.lookup "_id").map (wire js)))) }
      else none := by
  have hid : (wireFields js (stripped doc)).lookup "_id" = (doc.lookup "_id").map (wire js) := by
    rw [lookup_wireFields, lookup_stripped (by decide)]
  rw [written, tag_integrity, bulkOp]
  simp [hid, integrity]

-- The identifier that a new point is given is that of the point.
theorem number_wire_iff (id : Option Value) :
    (truthyValue (id.map (wire js)) = true ∧
        some (.number (toNumber js.runtime (id.map (wire js)))) = id) ↔
      id.any (fun id => isNumber id && truthyValue (some id)) = true := by
  cases id with
  | none => simp [truthyValue]
  | some id =>
      cases id with
      | number x =>
          cases hx : x.isFinite <;> simp [wire, hx, isNumber, toNumber, truthyValue]
      | _ => simp [isNumber]

theorem tag_wire_iff (tag : Option Value) :
    (truthyValue (tag.map (wire js)) = true ∧ tag.isSome ∧ tag.map (wire js) = tag) ↔
      tag.any (fun tag => isPlain tag && truthyValue (some tag)) = true := by
  cases tag with
  | none => simp [truthyValue]
  | some tag =>
      simp only [Option.map_some, Option.isSome_some, Option.some.injEq, wire_eq_iff, true_and,
        Option.any_some, Bool.and_eq_true]
      constructor
      · rintro ⟨htruthy, hplain⟩
        rw [wire_of_isPlain js tag hplain] at htruthy
        exact ⟨hplain, htruthy⟩
      · rintro ⟨hplain, htruthy⟩
        rw [wire_of_isPlain js tag hplain]
        exact ⟨htruthy, hplain⟩

theorem written_integrity_iff (doc : Document) :
    (∃ w, written js (integrity (cleaned doc)) = some w ∧ Applied (.integrity doc) w) ↔
      (Handled.integrity doc).Carried := by
  have htag := tag_wire_iff js ((cleaned doc).lookup "tag")
  have hid := number_wire_iff js ((cleaned doc).lookup "_id")
  have hset := filter_restored_wire_iff js pointDates (stripped (cleaned doc)) (· ≠ "_id")
  have hhist := isHistorical_cleaned doc (·.1 ≠ "_id")
  rw [written_integrity]
  constructor
  · rintro ⟨w, hw, hsome, hfilter, hfields, hinsert, -⟩
    split at hw
    · rename_i htruthy
      obtain ⟨hidtrue, htagtrue⟩ := Bool.and_eq_true_iff.mp htruthy
      obtain rfl := Option.some.inj hw
      exact ⟨htag.mp ⟨htagtrue, hsome, hfilter⟩, hid.mp ⟨hidtrue, hinsert⟩, hset.mp hfields⟩
    · cases hw
  · rintro ⟨htagplain, hnumber, hkept⟩
    obtain ⟨htagtrue, hsome, hfilter⟩ := htag.mpr htagplain
    obtain ⟨hidtrue, hinsert⟩ := hid.mpr hnumber
    rw [if_pos (Bool.and_eq_true_iff.mpr ⟨hidtrue, htagtrue⟩)]
    refine ⟨_, rfl, hsome, hfilter, hset.mpr hkept, hinsert, ?_⟩
    rw [hset.mpr hkept]
    exact hhist

theorem written_iff (h : Handled) :
    (∃ w, written js h.queued = some w ∧ Applied h w) ↔ h.Carried := by
  cases h with
  | update u => exact written_update_iff js u
  | integrity doc => exact written_integrity_iff js doc
  | replay o =>
      constructor
      · rintro ⟨w, hw, hsome, hfilter, -⟩
        rw [← hfilter, written_replay js o w hw] at hsome
        cases hsome
      · exact False.elim

end Written

end JsonScada.Replication
