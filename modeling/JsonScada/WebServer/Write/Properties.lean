import JsonScada.Library.Assoc
import JsonScada.WebServer.Write.Groups

-- A write of properties changes the ones that the request carries and the user may change.
namespace JsonScada.WebServer

open JsonScada.Library
open JsonScada.Processor (Document Value applySet lookup_applySet rawOrNil)

section Wanted

variable (env : Driver) (rights : UserRights)

-- The properties of a point that a write may change.
def propertyKeys : List String :=
  ["alarmDisabled", "annotation", "loLimit", "hiLimit", "hysteresis", "notes", "value"]

-- Those that are doubles.
def numericKeys : List String := ["loLimit", "hiLimit", "hysteresis", "value"]

def permitted (key : String) : Bool :=
  if key = "alarmDisabled" then rights.disableAlarms
  else if key = "annotation" then rights.enterAnnotations
  else if key = "loLimit" ∨ key = "hiLimit" ∨ key = "hysteresis" then rights.enterLimits
  else if key = "notes" then rights.enterNotes
  else if key = "value" then rights.substituteValues
  else false

-- What a request carries of a property, a value where it is substituted.
def carried (props : Document) (key : String) : Option Value :=
  if key = "value" then if props.has "substituted" then props.lookup "newValue" else none
  else props.lookup key

def typed (key : String) (v : Value) : Value :=
  if key ∈ numericKeys then .number (toNumber env.js (some v)) else v

-- A property that is carried, permitted and different takes the value that is given, and any
-- other field stays.
def wanted (prevData props : Document) (key : String) : Option Value :=
  match carried props key with
  | none => prevData.lookup key
  | some v =>
      if permitted rights key && !strictEq (prevData.lookup key) (some v) then some (typed env key v)
      else prevData.lookup key

-- What an absent property would be written as.
def blank (key : String) : Value := if key ∈ numericKeys then .number .nan else .null

-- The properties that the user may change are in the request, as far as the point has them.
def CarriesHeld (prevData props : Document) : Prop :=
  ∀ key ∈ propertyKeys, key ≠ "value" → permitted rights key = true → props.lookup key = none →
    prevData.lookup key = none ∨ prevData.lookup key = some (blank key)

variable (s : Session)

-- The point afterwards, but for the mark by which its range is checked again.
def WrittenAsWanted (m : Moment) (prevData props after : Document) : Prop :=
  (∀ key, key ≠ "sourceDataUpdate" → after.lookup key = wanted env rights prevData props key) ∧
    (after.lookup "sourceDataUpdate" = prevData.lookup "sourceDataUpdate" ∨
      after.lookup "sourceDataUpdate" =
        some (rangeChecked (prevData.lookup "sourceDataUpdate") m.now))

-- A node that edits a point changes this point only, and this one as is wanted.
def PropertiesAsCarried (st : Database × Response) (n : Moment × Value) : Prop :=
  ∀ point props prevData, edits env n.2 = some (point, props) →
    st.1.realtimeData.find? point = some prevData →
      ∃ after, WrittenAsWanted env s.rights n.1 prevData props after ∧
        (st.1.writeAll (handleNode env s n.1 st.1 st.2 n.2).writes).realtimeData =
          Table.updateFirst point (fun _ => after) st.1.realtimeData

def HeldCarried (st : Database × Response) (n : Moment × Value) : Prop :=
  ∀ point props prevData, edits env n.2 = some (point, props) →
    st.1.realtimeData.find? point = some prevData → CarriesHeld s.rights prevData props

end Wanted

section Written

variable (env : Driver) (rights : UserRights) (prevData props : Document)

-- What the code writes: an absent property as a blank one.
def written (key : String) : Option Value :=
  if permitted rights key && (key ≠ "value" || (carried props key).isSome) &&
      !strictEq (prevData.lookup key) (carried props key) then
    some ((carried props key).elim (blank key) (typed env key))
  else prevData.lookup key

variable {env rights prevData props}

theorem double_stored (key : String) (v : Option Value) (h : key ∈ numericKeys) :
    toDouble env v = v.elim (blank key) (typed env key) := by
  cases v <;> simp [toDouble, blank, typed, h, toNumber]

theorem raw_stored (key : String) (v : Option Value) (h : key ∉ numericKeys) :
    rawOrNil v = v.elim (blank key) (typed env key) := by
  cases v <;> simp [rawOrNil, blank, typed, h]

-- The edits, one for each property.
theorem edit_of_mem {e : Edit} (he : e ∈ editsOf env rights prevData props) :
    e.right = (permitted rights e.field && (e.field ≠ "value" || (carried props e.field).isSome)) ∧
      (e.right = true → e.submitted = carried props e.field ∧
        e.stored = (carried props e.field).elim (blank e.field) (typed env e.field)) := by
  simp only [editsOf, List.mem_cons, List.not_mem_nil, or_false] at he
  rcases he with rfl | rfl | rfl | rfl | rfl | rfl | rfl
  · exact ⟨by simp [permitted], fun _ => ⟨rfl, raw_stored "alarmDisabled" _ (by decide)⟩⟩
  · exact ⟨by simp [permitted], fun _ => ⟨rfl, raw_stored "annotation" _ (by decide)⟩⟩
  · exact ⟨by simp [permitted], fun _ => ⟨rfl, double_stored "loLimit" _ (by decide)⟩⟩
  · exact ⟨by simp [permitted], fun _ => ⟨rfl, double_stored "hiLimit" _ (by decide)⟩⟩
  · exact ⟨by simp [permitted], fun _ => ⟨rfl, double_stored "hysteresis" _ (by decide)⟩⟩
  · exact ⟨by simp [permitted], fun _ => ⟨rfl, raw_stored "notes" _ (by decide)⟩⟩
  · dsimp only
    cases hsubstituted : props.has "substituted" with
    | false => simp [carried, hsubstituted]
    | true =>
        have hcarried : carried props "value" = props.lookup "newValue" := by
          simp [carried, hsubstituted]
        rw [hcarried]
        exact ⟨by simp [permitted, Document.has], fun _ => ⟨rfl, double_stored "value" _ (by decide)⟩⟩

variable (env rights prevData props) in
theorem fields_editsOf :
    (editsOf env rights prevData props).map Edit.field = propertyKeys := rfl

theorem notMem_edited {e : Edit} (he : e ∈ editsOf env rights prevData props)
    (h : (e.right && !strictEq e.held e.submitted) = false) :
    e.field ∉ (edited env rights prevData props).map Prod.fst := by
  intro hmem
  obtain ⟨f, hf, hfield⟩ := List.mem_map.mp hmem
  obtain ⟨e', he', hright, hsubmitted, rfl⟩ := (mem_edited env rights prevData props).mp hf
  have hnodup : ((editsOf env rights prevData props).map Edit.field).Nodup := by
    rw [fields_editsOf]
    decide
  obtain rfl := List.inj_on_of_nodup_map hnodup he' he hfield
  simp [hright, hsubmitted] at h

theorem lookup_edit {e : Edit} (he : e ∈ editsOf env rights prevData props) :
    (set (edited env rights prevData props) prevData).lookup e.field =
      if e.right && !strictEq e.held e.submitted then some e.stored else e.held := by
  cases h : e.right && !strictEq e.held e.submitted with
  | false =>
      rw [lookup_set_of_notMem (notMem_edited he h), held_of_mem env rights prevData props he]
      rfl
  | true =>
      rw [Bool.and_eq_true, Bool.not_eq_true'] at h
      have hmem : (e.field, e.stored) ∈ edited env rights prevData props :=
        (mem_edited env rights prevData props).mpr ⟨e, he, h.1, h.2, rfl⟩
      have hnodup : (((edited env rights prevData props).reverse).map Prod.fst).Nodup := by
        rw [List.map_reverse, List.nodup_reverse]
        exact (keys_edited env rights prevData props).nodup (by decide)
      rw [set, lookup_applySet, Assoc.lookup_of_mem hnodup (List.mem_reverse.mpr hmem)]
      rfl

theorem permitted_of_notMem {key : String} (h : key ∉ propertyKeys) :
    permitted rights key = false := by
  simp only [propertyKeys, List.mem_cons, List.not_mem_nil, or_false, not_or] at h
  simp [permitted, h]

theorem lookup_written (key : String) :
    (set (edited env rights prevData props) prevData).lookup key =
      written env rights prevData props key := by
  by_cases hkey : key ∈ propertyKeys
  · rw [← fields_editsOf env rights prevData props] at hkey
    obtain ⟨e, he, rfl⟩ := List.mem_map.mp hkey
    obtain ⟨hright, hgiven⟩ := edit_of_mem he
    rw [lookup_edit he, written, ← hright, held_of_mem env rights prevData props he]
    cases hr : e.right with
    | false => rfl
    | true =>
        obtain ⟨hsubmitted, hstored⟩ := hgiven hr
        rw [hsubmitted, hstored]
  · have hkeys := (keys_edited env rights prevData props).subset
    rw [lookup_set_of_notMem fun h => hkey (hkeys h), written, permitted_of_notMem hkey]
    rfl

theorem strictEq_none {v : Option Value} : strictEq v none = true ↔ v = none := by
  cases v <;> simp [strictEq]

theorem written_eq_wanted_iff {key : String} :
    written env rights prevData props key = wanted env rights prevData props key ↔
      (key ≠ "value" → permitted rights key = true → props.lookup key = none →
        prevData.lookup key = none ∨ prevData.lookup key = some (blank key)) := by
  unfold written wanted
  cases hcarried : carried props key with
  | some v =>
      refine iff_of_true (by simp) fun hvalue _ hnone => ?_
      rw [carried, if_neg hvalue, hnone] at hcarried
      cases hcarried
  | none =>
      by_cases hvalue : key = "value"
      · simp [hvalue]
      · have hlookup : props.lookup key = none := by
          rwa [carried, if_neg hvalue] at hcarried
        cases hright : permitted rights key with
        | false => simp
        | true =>
            cases hheld : prevData.lookup key with
            | none => simp [strictEq]
            | some v => simp [strictEq, hvalue, hlookup, eq_comm]

variable (env rights prevData props) in
theorem carriesHeld_iff :
    (∀ key, written env rights prevData props key = wanted env rights prevData props key) ↔
      CarriesHeld rights prevData props := by
  constructor
  · exact fun h key _ => written_eq_wanted_iff.mp (h key)
  · intro h key
    refine written_eq_wanted_iff.mpr fun hvalue hright => ?_
    by_cases hkey : key ∈ propertyKeys
    · exact h key hkey hvalue hright
    · exact absurd (hright.symm.trans (permitted_of_notMem hkey)) Bool.false_ne_true.symm

end Written

section Node

variable {env : Driver} {s : Session} {m : Moment}

theorem lookup_recheck (prevData changes d : Document) :
    (set (recheck m.now prevData changes) d).lookup "sourceDataUpdate" =
        d.lookup "sourceDataUpdate" ∨
      (set (recheck m.now prevData changes) d).lookup "sourceDataUpdate" =
        some (rangeChecked (prevData.lookup "sourceDataUpdate") m.now) := by
  unfold recheck set
  split_ifs
  · exact .inr (by rw [lookup_applySet]; rfl)
  · exact .inl rfl

variable (env s m)

-- The mark for the range is set beside the properties.
theorem lookup_setBy (prevData props : Document) :
    let after := set (setBy env s m (some prevData) props) prevData
    (∀ key, key ≠ "sourceDataUpdate" →
        after.lookup key = written env s.rights prevData props key) ∧
      (after.lookup "sourceDataUpdate" = prevData.lookup "sourceDataUpdate" ∨
        after.lookup "sourceDataUpdate" =
          some (rangeChecked (prevData.lookup "sourceDataUpdate") m.now)) := by
  have hmark : (set (edited env s.rights prevData props) prevData).lookup "sourceDataUpdate" =
      prevData.lookup "sourceDataUpdate" :=
    lookup_edited (keys_edited env s.rights prevData props) (by decide) prevData
  dsimp only
  unfold setBy
  dsimp only
  rw [Option.getD_some, Option.elim_some, ← set_append]
  split_ifs
  · have hrecheck := lookup_recheck (m := m) prevData (edited env s.rights prevData props)
      (set (edited env s.rights prevData props) prevData)
    rw [hmark] at hrecheck
    refine ⟨fun key hkey => ?_, hrecheck⟩
    rw [lookup_edited (keys_recheck m.now prevData _) (by simpa using hkey), lookup_written]
  · exact ⟨fun key _ => lookup_written key, .inl hmark⟩

theorem writtenAsWanted_iff (prevData props : Document) :
    WrittenAsWanted env s.rights m prevData props
        (set (setBy env s m (some prevData) props) prevData) ↔
      CarriesHeld s.rights prevData props := by
  obtain ⟨hkeys, hmark⟩ := lookup_setBy env s m prevData props
  unfold WrittenAsWanted
  rw [and_iff_left hmark, ← carriesHeld_iff env]
  constructor
  · intro h key
    by_cases hkey : key = "sourceDataUpdate"
    · rw [hkey, written_eq_wanted_iff]
      intro _ hright
      exact absurd hright Bool.false_ne_true
    · rw [← hkeys key hkey, h key hkey]
  · intro h key hkey
    rw [hkeys key hkey, h key]

theorem propertiesAsCarried_iff (st : Database × Response) (n : Moment × Value) :
    PropertiesAsCarried env s st n ↔ HeldCarried env s st n := by
  unfold PropertiesAsCarried HeldCarried
  refine forall_congr' fun point => forall_congr' fun props => forall_congr' fun prevData =>
    forall_congr' fun hedits => forall_congr' fun hfound => ?_
  obtain ⟨id, hpoint, heq⟩ := handleNode_edits env s n.1 hedits st.1 st.2
  obtain ⟨hreal, -⟩ := editPoint_frame env s n.1 st.1 st.2 id hpoint (some prevData) props
  rw [heq, hfound, hreal, ← writtenAsWanted_iff env s n.1]
  simp only [Table.updateFirst_eq_const_iff hfound, exists_eq_right']

end Node

section Request

variable (env : Driver) (s : Session)

-- Every node that edits a point changes exactly the properties that it carries, that the user
-- may change and that differ: exactly when each carries the properties of the point that the
-- user may change.
theorem requestProperties_asCarried_iff (db : Database) (nodes : List (Moment × Value)) :
    Run.Allowed (goOn env s) (PropertiesAsCarried env s) (db, start) nodes ↔
      Run.Allowed (goOn env s) (HeldCarried env s) (db, start) nodes :=
  Run.allowed_congr (fun _ => True) (fun _ _ _ _ _ => trivial)
    (fun st n _ => propertiesAsCarried_iff env s st n) trivial nodes

section Samples

def raise (tag : String) (hiLimit : ℚ) : Value :=
  .document [("AttributeId", .number (.fin 5)),
    ("NodeId", .document [("IdType", .number (.fin 1)), ("Id", .string tag)]),
    ("Value", .document [("_Properties", .document [("hiLimit", .number (.fin hiLimit))])])]

-- A write of the upper limit makes the lower one not a number.
theorem absent_limit_not_a_number :
    ¬Run.Allowed (goOn driver operator) (PropertiesAsCarried driver operator) (stations, start)
      [(moment, raise "NorthKV" 120)] := by
  rintro ⟨hfirst, -⟩
  have hnode : edits driver (raise "NorthKV" 120) =
      some (Filter.field "tag" (Filter.string "NorthKV"), [("hiLimit", .number (.fin 120))]) := rfl
  have hpoint : stations.realtimeData.find? (Filter.field "tag" (Filter.string "NorthKV")) =
      some (voltage 1 "NorthKV" "North") := rfl
  obtain ⟨after, ⟨hwanted, -⟩, hreal⟩ := hfirst _ _ _ hnode hpoint
  have hafter : (Table.updateFirst (Filter.field "tag" (Filter.string "NorthKV")) (fun _ => after)
      stations.realtimeData).head? = some after := rfl
  have hwritten : ((stations.writeAll (handleNode driver operator moment stations start
      (raise "NorthKV" 120)).writes).realtimeData.head?.bind fun d => d.lookup "loLimit") =
        some (.number .nan) := by
    decide
  have hlow : wanted driver operator.rights (voltage 1 "NorthKV" "North")
      [("hiLimit", .number (.fin 120))] "loLimit" = some (.number (.fin 0)) := by
    decide
  rw [hreal, hafter, Option.bind_some, hwanted "loLimit" (by decide), hlow] at hwritten
  exact absurd hwritten (by decide)

end Samples

end Request

end JsonScada.WebServer
