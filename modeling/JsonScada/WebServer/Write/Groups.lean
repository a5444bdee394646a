import JsonScada.WebServer.Write.Confined

-- A write request of a user of some groups changes other points by their properties only.
namespace JsonScada.WebServer

open JsonScada.Library
open JsonScada.Processor (Document Value applySet setField lookup_applySet lookup_setField rawOrNil)

section Conditions

variable (env : Driver) (s : Session) (m : Moment)

-- The point and the properties that a node edits.
def editedPoint (node : Document) : Option (Filter × Document) :=
  match node.lookup "NodeId" with
  | none => none
  | some nodeId =>
      if isIn "Id" (some nodeId) = some true then
        (findPoint env (optionalMember (some nodeId) "IdType")
          (optionalMember (some nodeId) "Id")).join.bind fun point =>
            (propertiesOf node).map fun props => (point, props)
      else none

-- Those of a node whose attribute is the description, and of no other.
def edits (node : Value) : Option (Filter × Document) :=
  match node with
  | .document node =>
      let attributeId := node.lookup "AttributeId"
      if looseEq env.js attributeId AttributeId.extendedAlarmEventsAck ||
          looseEq env.js attributeId AttributeId.value ||
          !looseEq env.js attributeId AttributeId.description then none
      else editedPoint env node
  | _ => none

-- A property stays where the user has no right to it, or submits what the point holds.
def Edit.Kept (e : Edit) : Prop :=
  e.right = true → strictEq e.held e.submitted = true ∨ e.held = some e.stored

-- Nothing makes the range be checked again, other than what was written at this moment.
def RangeKept (prevData : Document) (edits : List Edit) : Prop :=
  Processor.Node.isText "analog" (prevData.lookup "type") = true →
    ∀ e ∈ edits, e.field ∈ rangeFields → e.right = true → strictEq e.held e.submitted = false →
      prevData.lookup "sourceDataUpdate" =
        some (rangeChecked (prevData.lookup "sourceDataUpdate") m.now)

-- The properties that are submitted for a point of another group leave it as it is.
def NodeKept (db : Database) (node : Value) : Prop :=
  ∀ point props prevData, edits env node = some (point, props) →
    db.realtimeData.find? point = some prevData → ForeignPoint s.rights.group1List prevData →
      (∀ e ∈ editsOf env s.rights prevData props, e.Kept) ∧
        (env.acknowledged = true → RangeKept m prevData (editsOf env s.rights prevData props))

end Conditions

section Sets

-- A `$set` of distinct fields that changes nothing.
theorem applySet_eq_self_iff {d fields : Document} (hkeys : (fields.map Prod.fst).Nodup) :
    applySet d fields = d ↔ ∀ f ∈ fields, d.lookup f.1 = some f.2 := by
  have hfield (d : Document) (key : String) (v : Value) (h : d.lookup key = some v) :
      setField d key v = d := by
    induction d with
    | nil => cases h
    | cons f d ih =>
        obtain ⟨k, w⟩ := f
        by_cases hk : k = key
        · simp only [List.lookup_cons, hk, beq_self_eq_true, Option.some.injEq] at h
          simp [setField, hk, h]
        · have hne : (key == k) = false := by simpa using fun heq => hk heq.symm
          simp only [List.lookup_cons, hne] at h
          simp [setField, hk, ih h]
  constructor
  · rintro h ⟨key, v⟩ hf
    obtain ⟨before, rest, rfl⟩ := List.append_of_mem hf
    rw [List.map_append, List.map_cons, List.nodup_append, List.nodup_cons] at hkeys
    have hrest : rest.reverse.lookup key = none := lookup_reverse_eq_none hkeys.2.1.1
    rw [← h, lookup_applySet, List.reverse_append, List.reverse_cons, List.append_assoc,
      List.lookup_append, hrest, Option.none_or, List.singleton_append, List.lookup_cons]
    simp
  · intro h
    induction fields with
    | nil => rfl
    | cons f fields ih =>
        have hf := hfield d f.1 f.2 (h f List.mem_cons_self)
        unfold applySet at ih ⊢
        rw [List.foldl_cons, hf]
        exact ih (List.nodup_cons.mp hkeys).2 fun g hg => h g (List.mem_cons_of_mem _ hg)

end Sets

section Edits

variable (env : Driver) (rights : UserRights) (now : ℤ) (prevData props : Document)

theorem mem_made {e : Edit} {f : String × Value} :
    f ∈ e.made ↔ e.right = true ∧ strictEq e.held e.submitted = false ∧ f = (e.field, e.stored) := by
  unfold Edit.made
  split_ifs with h
  · simp only [Bool.and_eq_true, Bool.not_eq_true'] at h
    simp [h.1, h.2]
  · simp only [Bool.and_eq_true, Bool.not_eq_true', not_and] at h
    simp only [List.not_mem_nil, false_iff]
    rintro ⟨hright, hsubmitted, -⟩
    exact h hright hsubmitted

-- What an edit takes as the value that the point holds.
theorem held_of_mem {e : Edit} (he : e ∈ editsOf env rights prevData props) :
    e.held = prevData.lookup e.field := by
  simp only [editsOf, List.mem_cons, List.not_mem_nil, or_false] at he
  rcases he with rfl | rfl | rfl | rfl | rfl | rfl | rfl <;> rfl

theorem keys_flatMap_made (edits : List Edit) :
    ((edits.flatMap Edit.made).map Prod.fst).Sublist (edits.map Edit.field) := by
  induction edits with
  | nil => exact List.Sublist.refl _
  | cons e edits ih =>
      rw [List.flatMap_cons, List.map_append, List.map_cons]
      unfold Edit.made
      split_ifs
      · exact List.Sublist.cons_cons _ ih
      · exact List.Sublist.cons _ ih

theorem mem_edited {f : String × Value} :
    f ∈ edited env rights prevData props ↔ ∃ e ∈ editsOf env rights prevData props,
      e.right = true ∧ strictEq e.held e.submitted = false ∧ f = (e.field, e.stored) := by
  unfold edited
  rw [List.mem_flatMap]
  exact exists_congr fun e => and_congr_right fun _ => mem_made

theorem keys_edited : ((edited env rights prevData props).map Prod.fst).Sublist
    ["alarmDisabled", "annotation", "loLimit", "hiLimit", "hysteresis", "notes", "value"] :=
  keys_flatMap_made _

theorem keys_recheck (changes : Document) :
    ((recheck now prevData changes).map Prod.fst).Sublist ["sourceDataUpdate"] := by
  unfold recheck
  split_ifs
  · exact List.Sublist.refl _
  · exact List.nil_sublist _

theorem has_iff {d : Document} {key : String} : d.has key = true ↔ ∃ f ∈ d, f.1 = key := by
  unfold Document.has
  rw [← Bool.not_eq_false, Option.isSome_eq_false_iff, Option.isNone_iff_eq_none,
    List.lookup_eq_none_iff]
  simp only [bne_iff_ne, ne_eq, not_forall, not_not]
  exact ⟨fun ⟨f, hf, h⟩ => ⟨f, hf, h.symm⟩, fun ⟨f, hf, h⟩ => ⟨f, hf, h.symm⟩⟩

-- What is set leaves a point as it is.
theorem edits_keep_iff :
    (∀ f ∈ edited env rights prevData props, prevData.lookup f.1 = some f.2) ↔
      ∀ e ∈ editsOf env rights prevData props, e.Kept := by
  constructor
  · intro h e he hright
    cases hsubmitted : strictEq e.held e.submitted with
    | true => exact .inl rfl
    | false =>
        rw [held_of_mem env rights prevData props he]
        exact .inr (h _ ((mem_edited env rights prevData props).mpr
          ⟨e, he, hright, hsubmitted, rfl⟩))
  · intro h f hf
    obtain ⟨e, he, hright, hsubmitted, rfl⟩ := (mem_edited env rights prevData props).mp hf
    rcases h e he hright with heq | hheld
    · exact absurd (heq.symm.trans hsubmitted) Bool.false_ne_true.symm
    · rw [← held_of_mem env rights prevData props he]
      exact hheld

theorem recheck_keeps_iff (m : Moment) :
    (∀ f ∈ recheck m.now prevData (edited env rights prevData props),
      prevData.lookup f.1 = some f.2) ↔
      RangeKept m prevData (editsOf env rights prevData props) := by
  have hrange : (rangeFields.any fun f => (edited env rights prevData props).has f) = true ↔
      ∃ e ∈ editsOf env rights prevData props, e.field ∈ rangeFields ∧ e.right = true ∧
        strictEq e.held e.submitted = false := by
    rw [List.any_eq_true]
    constructor
    · rintro ⟨key, hkey, hhas⟩
      obtain ⟨f, hf, rfl⟩ := has_iff.mp hhas
      obtain ⟨e, he, hright, hsubmitted, rfl⟩ := (mem_edited env rights prevData props).mp hf
      exact ⟨e, he, hkey, hright, hsubmitted⟩
    · rintro ⟨e, he, hkey, hright, hsubmitted⟩
      exact ⟨e.field, hkey, has_iff.mpr ⟨_, (mem_edited env rights prevData props).mpr
        ⟨e, he, hright, hsubmitted, rfl⟩, rfl⟩⟩
  unfold recheck RangeKept
  split_ifs with h
  · rw [Bool.and_eq_true, hrange] at h
    obtain ⟨htype, e, he, hkey, hright, hsubmitted⟩ := h
    simp only [List.mem_singleton, forall_eq]
    exact ⟨fun hkept _ _ _ _ _ _ => hkept, fun hkept => hkept htype e he hkey hright hsubmitted⟩
  · rw [Bool.and_eq_true, hrange] at h
    simp only [List.not_mem_nil, false_implies, implies_true, true_iff]
    exact fun htype e he hkey hright hsubmitted =>
      absurd ⟨htype, e, he, hkey, hright, hsubmitted⟩ h

end Edits

section Node

variable (env : Driver) (s : Session) (m : Moment)

-- A query for a point looks at its key or at its tag.
theorem findPoint_congr {idType id : Option Value} {point : Filter}
    (h : findPoint env idType id = some (some point)) {d d' : Document}
    (hid : d.lookup "_id" = d'.lookup "_id") (htag : d.lookup "tag" = d'.lookup "tag") :
    point d = point d' := by
  unfold findPoint at h
  split_ifs at h
  · obtain rfl := Option.some.inj (Option.some.inj h)
    exact field_congr hid
  · have hpoint := Option.some.inj h
    unfold tagFilter at hpoint
    split at hpoint
    · obtain rfl := Option.some.inj hpoint
      exact field_congr htag
    · obtain ⟨p, -, rfl⟩ := Option.map_eq_some_iff.mp hpoint
      exact congrArg p htag

-- A filter that is decided by the key and the tag of a point.
def ByPoint (point : Filter) : Prop :=
  ∀ d d' : Document, d.lookup "_id" = d'.lookup "_id" → d.lookup "tag" = d'.lookup "tag" →
    point d = point d'

theorem writeProperties_cases (db : Database) (r : Response) (node : Document) :
    (editedPoint env node = none ∧ (writeProperties env s m db r node).writes = []) ∨
      ∃ point props id, editedPoint env node = some (point, props) ∧ ByPoint point ∧
        writeProperties env s m db r node =
          editPoint env s m r id point (db.realtimeData.find? point) props := by
  unfold writeProperties editedPoint
  cases node.lookup "NodeId" with
  | none => exact .inl ⟨rfl, rfl⟩
  | some nodeId =>
      dsimp only
      cases isIn "Id" (some nodeId) with
      | none => exact .inl ⟨rfl, rfl⟩
      | some present =>
          cases present with
          | false => exact .inl ⟨rfl, rfl⟩
          | true =>
              rw [if_pos rfl]
              cases hfind : findPoint env (optionalMember (some nodeId) "IdType")
                  (optionalMember (some nodeId) "Id") with
              | none => exact .inl ⟨rfl, rfl⟩
              | some found =>
                  cases found with
                  | none => exact .inl ⟨rfl, rfl⟩
                  | some point =>
                      cases hprops : propertiesOf node with
                      | none => exact .inl ⟨rfl, rfl⟩
                      | some props =>
                          exact .inr ⟨point, props, _, rfl,
                            fun d d' hid htag => findPoint_congr env hfind hid htag, rfl⟩

-- A node that edits a point is handled as this edit.
theorem handleNode_edits {node : Value} {point : Filter} {props : Document}
    (h : edits env node = some (point, props)) (db : Database) (r : Response) :
    ∃ id, ByPoint point ∧ handleNode env s m db r node =
      editPoint env s m r id point (db.realtimeData.find? point) props := by
  cases node with
  | document node =>
      unfold edits at h
      dsimp only at h
      split_ifs at h with hkind
      simp only [Bool.or_eq_true, Bool.not_eq_true', not_or, Bool.not_eq_true,
        Bool.not_eq_false] at hkind
      obtain ⟨⟨hack, hvalue⟩, hdescription⟩ := hkind
      have hhas : (!Document.has node "AttributeId") = false := by
        unfold Document.has
        cases hlookup : node.lookup "AttributeId" with
        | none =>
            rw [hlookup] at hdescription
            exact absurd hdescription Bool.false_ne_true
        | some v => rfl
      unfold handleNode
      simp only [hack, hvalue, hdescription, hhas, Bool.false_eq_true, if_false, if_true]
      rcases writeProperties_cases env s m db r node with
        ⟨hnone, -⟩ | ⟨point', props', id, hedit, hpoint, heq⟩
      · rw [hnone] at h
        cases h
      · obtain ⟨rfl, rfl⟩ := Prod.mk.inj (Option.some.inj (hedit.symm.trans h))
        exact ⟨id, hpoint, heq⟩
  | null | bool | number | string | dateTime | other | array => cases h

theorem handleNode_cases (hgroups : s.rights.group1List ≠ []) (db : Database) (r : Response)
    (node : Value) :
    (edits env node = none ∧
        ∀ w ∈ (handleNode env s m db r node).writes, Confined s.rights.group1List w) ∨
      ∃ point props id, edits env node = some (point, props) ∧ ByPoint point ∧
        handleNode env s m db r node =
          editPoint env s m r id point (db.realtimeData.find? point) props := by
  cases hedits : edits env node with
  | some edit =>
      obtain ⟨id, hpoint, heq⟩ := handleNode_edits env s m hedits db r
      exact .inr ⟨edit.1, edit.2, id, rfl, hpoint, heq⟩
  | none =>
      refine .inl ⟨rfl, ?_⟩
      cases node with
      | document node =>
          unfold handleNode
          unfold edits at hedits
          dsimp only
          by_cases hack : looseEq env.js (node.lookup "AttributeId") AttributeId.extendedAlarmEventsAck
          · split_ifs
            · simp
            · exact acknowledge_confined env m hgroups r node
          · by_cases hvalue : looseEq env.js (node.lookup "AttributeId") AttributeId.value
            · split_ifs
              · simp
              · exact command_confined env s m _ db r node
            · by_cases hdescription :
                  looseEq env.js (node.lookup "AttributeId") AttributeId.description
              · simp only [hack, hvalue, hdescription, Bool.or_self, Bool.not_true,
                  Bool.false_eq_true, if_false] at hedits
                rcases writeProperties_cases env s m db r node with
                  ⟨-, hwrites⟩ | ⟨point, props, id, hedit, -⟩
                · split_ifs <;> simp [hwrites]
                · rw [hedits] at hedit
                  cases hedit
              · split_ifs <;> simp
      | array => simp [handleNode]
      | null | bool | number | string | dateTime | other => simp [handleNode]

-- The fields of a point that an edit sets, those of a later update included.
def setBy (found : Option Document) (props : Document) : Document :=
  let changes := edited env s.rights (found.getD []) props
  changes ++ if env.acknowledged then found.elim [] fun prevData => recheck m.now prevData changes
    else []

theorem writeAll_append (db : Database) (ws ws' : List Write) :
    db.writeAll (ws ++ ws') = (db.writeAll ws).writeAll ws' := List.foldl_append

theorem insertSoe_frame {ws : List Write} (h : ∀ w ∈ ws, ∃ doc, w = .insertSoe doc)
    (db : Database) : (db.writeAll ws).realtimeData = db.realtimeData ∧
      ∀ r, Table.Keeps r db.soeData (db.writeAll ws).soeData := by
  induction ws generalizing db with
  | nil => exact ⟨rfl, fun r => Table.Keeps.refl r _⟩
  | cons w ws ih =>
      obtain ⟨doc, rfl⟩ := h w List.mem_cons_self
      obtain ⟨hreal, hsoe⟩ := ih (fun w hw => h w (List.mem_cons_of_mem _ hw))
        (db.write (.insertSoe doc))
      exact ⟨hreal, fun r => (Table.keeps_append r _ _).trans (hsoe r)⟩

theorem annotationEvent_inserts {prevData changes : Document} {ws : List Write}
    (h : annotationEvent m prevData changes = some ws) : ∀ w ∈ ws, ∃ doc, w = .insertSoe doc := by
  unfold annotationEvent at h
  split at h
  · obtain rfl := Option.some.inj h
    simp
  · obtain rfl := Option.some.inj h
    simp
  · cases h

theorem valueEvent_inserts {prevData changes : Document} {ws : List Write}
    (h : valueEvent env m prevData changes = some ws) : ∀ w ∈ ws, ∃ doc, w = .insertSoe doc := by
  unfold valueEvent at h
  split at h
  · obtain rfl := Option.some.inj h
    simp
  · obtain ⟨t, -, rfl⟩ := Option.map_eq_some_iff.mp h
    simp

-- The updates of an edit, and the events that it adds.
theorem editPoint_writes (r : Response) (id : Option Value) (point : Filter)
    (found : Option Document) (props : Document) :
    ∃ check events, (editPoint env s m r id point found props).writes =
        [.updateRealtime point (set (edited env s.rights (found.getD []) props))] ++
          (if check = [] then [] else [.updateRealtime point (set check)]) ++ events ∧
      setBy env s m found props = edited env s.rights (found.getD []) props ++ check ∧
      ∀ w ∈ events, ∃ doc, w = .insertSoe doc := by
  unfold editPoint setBy
  cases hack : env.acknowledged with
  | false => exact ⟨[], [], by simp, by simp, by simp⟩
  | true =>
      cases found with
      | none => exact ⟨[], [], by simp, by simp, by simp⟩
      | some prevData =>
          simp only [Bool.not_true, Bool.false_eq_true, if_false, if_true, Option.getD_some,
            Option.elim_some]
          refine ⟨recheck m.now prevData (edited env s.rights prevData props), ?_⟩
          cases hannotation : annotationEvent m prevData (edited env s.rights prevData props) with
          | none => exact ⟨[], by simp, rfl, by simp⟩
          | some annotated =>
              have hinserts := annotationEvent_inserts m hannotation
              cases hvalue : valueEvent env m prevData (edited env s.rights prevData props) with
              | none => exact ⟨annotated, by simp, rfl, hinserts⟩
              | some substituted =>
                  refine ⟨annotated ++ substituted, by simp, rfl, fun w hw => ?_⟩
                  rcases List.mem_append.mp hw with hw | hw
                  · exact hinserts w hw
                  · exact valueEvent_inserts env m hvalue w hw

theorem set_append (changes check : Document) (d : Document) :
    set check (set changes d) = set (changes ++ check) d := by
  unfold set applySet
  rw [List.foldl_append]

-- The keys that an edit sets are distinct, and none of them tells a point.
theorem keys_setBy (found : Option Document) (props : Document) :
    ((setBy env s m found props).map Prod.fst).Sublist
      ["alarmDisabled", "annotation", "loLimit", "hiLimit", "hysteresis", "notes", "value",
        "sourceDataUpdate"] := by
  have hcheck : ((if env.acknowledged then found.elim [] fun prevData =>
      recheck m.now prevData (edited env s.rights (found.getD []) props) else []).map
        Prod.fst).Sublist ["sourceDataUpdate"] := by
    split_ifs
    · cases found with
      | none => exact List.nil_sublist _
      | some prevData => exact keys_recheck m.now prevData _
    · exact List.nil_sublist _
  have hkeys := (keys_edited env s.rights (found.getD []) props).append hcheck
  rw [← List.map_append] at hkeys
  exact hkeys

theorem lookup_edited {changes : Document} {keys : List String}
    (hkeys : (changes.map Prod.fst).Sublist keys) {key : String} (h : key ∉ keys) (d : Document) :
    (set changes d).lookup key = d.lookup key :=
  lookup_set_of_notMem (fun hmem => h (hkeys.subset hmem)) d

theorem editPoint_frame (db : Database) (r : Response) (id : Option Value) {point : Filter}
    (hpoint : ByPoint point) (found : Option Document) (props : Document) :
    let writes := (editPoint env s m r id point found props).writes
    (db.writeAll writes).realtimeData =
        Table.updateFirst point (set (setBy env s m found props)) db.realtimeData ∧
      ∀ r, Table.Keeps r db.soeData (db.writeAll writes).soeData := by
  obtain ⟨check, events, hwrites, hset, hevents⟩ := editPoint_writes env s m r id point found props
  dsimp only
  rw [hwrites, hset, writeAll_append, writeAll_append]
  have hkept (d : Document) (hd : point d = true) :
      point (set (edited env s.rights (found.getD []) props) d) = true := by
    rw [← hd]
    have hkeys := keys_edited env s.rights (found.getD []) props
    exact hpoint _ _ (lookup_edited hkeys (by decide) d) (lookup_edited hkeys (by decide) d)
  have hupdates : (db.writeAll [.updateRealtime point
      (set (edited env s.rights (found.getD []) props))]).writeAll
        (if check = [] then [] else [.updateRealtime point (set check)]) =
      { db with
        realtimeData := Table.updateFirst point
          (set (edited env s.rights (found.getD []) props ++ check)) db.realtimeData } := by
    split_ifs with hcheck
    · rw [hcheck, List.append_nil]
      rfl
    · simp only [Database.writeAll, List.foldl_cons, List.foldl_nil, Database.write,
        Table.updateFirst_updateFirst hkept, set_append]
  obtain ⟨hreal, hsoe⟩ := insertSoe_frame hevents
    ((db.writeAll [.updateRealtime point (set (edited env s.rights (found.getD []) props))]).writeAll
        (if check = [] then [] else [.updateRealtime point (set check)]))
  rw [hupdates] at hreal hsoe ⊢
  exact ⟨hreal, hsoe⟩

-- An edit of a point is seen in no other way than by what it sets.
theorem setBy_keeps_iff (prevData props : Document) :
    set (setBy env s m (some prevData) props) prevData = prevData ↔
      (∀ e ∈ editsOf env s.rights prevData props, e.Kept) ∧
        (env.acknowledged = true → RangeKept m prevData (editsOf env s.rights prevData props)) := by
  have hnodup : ((setBy env s m (some prevData) props).map Prod.fst).Nodup :=
    (keys_setBy env s m _ props).nodup (by decide)
  rw [set, applySet_eq_self_iff hnodup, ← edits_keep_iff, ← recheck_keeps_iff]
  unfold setBy
  dsimp only
  rw [List.forall_mem_append, Option.getD_some, Option.elim_some]
  refine and_congr_right fun _ => ?_
  cases env.acknowledged <;> simp

theorem node_untouched_iff (hgroups : s.rights.group1List ≠ []) (db : Database) (r : Response)
    (node : Value) :
    Untouched s.rights.group1List db (db.writeAll (handleNode env s m db r node).writes) ↔
      NodeKept env s m db node := by
  rcases handleNode_cases env s m hgroups db r node with
    ⟨hnone, hconfined⟩ | ⟨point, props, id, hedit, hpoint, heq⟩
  · refine iff_of_true (untouched_writeAll hconfined db).1 ?_
    intro point props prevData hedit
    rw [hnone] at hedit
    cases hedit
  · obtain ⟨hreal, hsoe⟩ := editPoint_frame env s m db r id hpoint (db.realtimeData.find? point) props
    rw [heq]
    unfold Untouched
    rw [hreal, and_iff_left (hsoe _), Table.keeps_updateFirst_iff]
    constructor
    · intro h point' props' prevData hedit' hfound hforeign
      obtain ⟨rfl, rfl⟩ : point = point' ∧ props = props' := by
        simpa using hedit.symm.trans hedit'
      have hkept := h prevData hfound hforeign
      rw [hfound] at hkept
      exact (setBy_keeps_iff env s m prevData props).mp hkept
    · intro h prevData hfound hforeign
      rw [hfound]
      exact (setBy_keeps_iff env s m prevData props).mpr
        (h point props prevData hedit hfound hforeign)

theorem owners_kept (hgroups : s.rights.group1List ≠ []) (db : Database) (r : Response)
    (node : Value) :
    (db.writeAll (handleNode env s m db r node).writes).realtimeData.map owner =
      db.realtimeData.map owner := by
  rcases handleNode_cases env s m hgroups db r node with
    ⟨-, hconfined⟩ | ⟨point, props, id, -, hpoint, heq⟩
  · exact (untouched_writeAll hconfined db).2
  · obtain ⟨hreal, -⟩ := editPoint_frame env s m db r id hpoint (db.realtimeData.find? point) props
    have hkeys := keys_setBy env s m (db.realtimeData.find? point) props
    rw [heq, hreal]
    exact Table.map_updateFirst (keepsOwner_set (fun h => absurd (hkeys.subset h) (by decide))
      fun h => absurd (hkeys.subset h) (by decide)) _

end Node

section Request

variable (env : Driver) (s : Session)

-- The handler goes on with the next node.
def goOn (st : Database × Response) (n : Moment × Value) : Option (Database × Response) :=
  let o := handleNode env s n.1 st.1 st.2 n.2
  match o.flow with
  | .next r => some (st.1.writeAll o.writes, r)
  | _ => none

def start : Response :=
  { serviceId := ServiceCode.writeResponse, serviceResult := .good, results := some []
    commandHandles := some [] }

variable {env s}

theorem database_cons (db : Database) (r : Response) (actions : List Document)
    (n : Moment × Value) (nodes : List (Moment × Value)) :
    (writeNodes env s db r actions (n :: nodes)).database =
      match goOn env s (db, r) n with
      | some (db', r') =>
          (writeNodes env s db' r' (actions ++ (handleNode env s n.1 db r n.2).actions) nodes).database
      | none => db.writeAll (handleNode env s n.1 db r n.2).writes := by
  obtain ⟨m, node⟩ := n
  rw [writeNodes, goOn]
  dsimp only
  cases (handleNode env s m db r node).flow <;> rfl

theorem goOn_database {st st' : Database × Response} {n : Moment × Value}
    (h : goOn env s st n = some st') :
    st'.1 = st.1.writeAll (handleNode env s n.1 st.1 st.2 n.2).writes := by
  unfold goOn at h
  dsimp only at h
  cases hflow : (handleNode env s n.1 st.1 st.2 n.2).flow with
  | next r =>
      rw [hflow] at h
      obtain rfl := Option.some.inj h
      rfl
  | answered | thrown => rw [hflow] at h; cases h

variable (env s) in
-- Events are acknowledged and removed in the groups of the user only.
theorem soe_kept (hgroups : s.rights.group1List ≠ []) (db : Database) (r : Response)
    (actions : List Document) (nodes : List (Moment × Value)) :
    Table.Keeps (Foreign s.rights.group1List) db.soeData
      (writeNodes env s db r actions nodes).database.soeData := by
  have hnode (db : Database) (r : Response) (n : Moment × Value) :
      Table.Keeps (Foreign s.rights.group1List) db.soeData
        (db.writeAll (handleNode env s n.1 db r n.2).writes).soeData := by
    rcases handleNode_cases env s n.1 hgroups db r n.2 with
      ⟨-, hconfined⟩ | ⟨point, props, id, -, hpoint, heq⟩
    · exact (untouched_writeAll hconfined db).1.2
    · rw [heq]
      exact (editPoint_frame env s n.1 db r id hpoint _ props).2 _
  induction nodes generalizing db r actions with
  | nil => exact Table.Keeps.refl _ _
  | cons n nodes ih =>
      rw [database_cons]
      cases hgo : goOn env s (db, r) n with
      | none => exact hnode db r n
      | some st =>
          have hdb := goOn_database hgo
          dsimp only at hdb ⊢
          refine Table.Keeps.trans ?_ (ih _ _ _)
          rw [hdb]
          exact hnode db r n

theorem untouched_of_step {db db' db'' : Database}
    (howners : db'.realtimeData.map owner = db.realtimeData.map owner)
    (h : Untouched s.rights.group1List db db')
    (hsoe : Table.Keeps (Foreign s.rights.group1List) db'.soeData db''.soeData) :
    Untouched s.rights.group1List db db'' ↔ Untouched s.rights.group1List db' db'' :=
  ⟨fun h' => ⟨h.1.of_trans (fun _ _ => foreignPoint_congr) howners h'.1, hsoe⟩, h.trans⟩

theorem nodes_untouched_iff (hgroups : s.rights.group1List ≠ []) (db : Database) (r : Response)
    (actions : List Document) (nodes : List (Moment × Value)) :
    (∀ k, Untouched s.rights.group1List db
        (writeNodes env s db r actions (nodes.take k)).database) ↔
      Run.Allowed (goOn env s) (fun st n => NodeKept env s n.1 st.1 n.2) (db, r) nodes := by
  induction nodes generalizing db r actions with
  | nil =>
      refine iff_of_true (fun k => ?_) trivial
      rw [List.take_nil]
      exact Untouched.refl _ _
  | cons n nodes ih =>
      -- the first node of the request, and those after it where there are any
      have hfirst := node_untouched_iff env s n.1 hgroups db r n.2
      have howners := owners_kept env s n.1 hgroups db r n.2
      unfold Run.Allowed
      rw [← hfirst]
      cases hgo : goOn env s (db, r) n with
      | none =>
          have hdatabase (k : ℕ) :
              (writeNodes env s db r actions ((n :: nodes).take (k + 1))).database =
                db.writeAll (handleNode env s n.1 db r n.2).writes := by
            rw [List.take_succ_cons, database_cons, hgo]
          refine ⟨fun h => ⟨hdatabase 0 ▸ h 1, fun _ h => by cases h⟩, fun h k => ?_⟩
          cases k with
          | zero => exact Untouched.refl _ _
          | succ k => exact (hdatabase k).symm ▸ h.1
      | some st =>
          have hdatabase (k : ℕ) :
              (writeNodes env s db r actions ((n :: nodes).take (k + 1))).database =
                (writeNodes env s st.1 st.2 (actions ++ (handleNode env s n.1 db r n.2).actions)
                (nodes.take k)).database := by
            rw [List.take_succ_cons, database_cons, hgo]
          have hdb := goOn_database hgo
          dsimp only at hdb
          rw [← hdb] at howners ⊢
          have hrest (hst : Untouched s.rights.group1List db st.1) (k : ℕ) :=
            untouched_of_step howners hst
              (soe_kept env s hgroups st.1 st.2 (actions ++ (handleNode env s n.1 db r n.2).actions)
                (nodes.take k))
          constructor
          · intro h
            have hst : Untouched s.rights.group1List db st.1 := by
              have := h 1
              rwa [hdatabase 0] at this
            refine ⟨hst, fun st' hst' => ?_⟩
            obtain rfl := Option.some.inj hst'
            refine (ih st.1 st.2 _).mp fun k => (hrest hst k).mp ?_
            rw [← hdatabase k]
            exact h (k + 1)
          · rintro ⟨hst, hallowed⟩ k
            cases k with
            | zero => exact Untouched.refl _ _
            | succ k =>
                rw [hdatabase k]
                exact (hrest hst k).mpr ((ih st.1 st.2 _).mpr (hallowed st rfl) k)

-- After every node, and so at the end, the points and the events of other groups are as
-- before: exactly when no node edits a property of a point of another group.
theorem foreign_untouched_iff (env : Driver) (s : Session) (hgroups : s.rights.group1List ≠ [])
    (db : Database) (nodes : List (Moment × Value)) :
    (∀ k, Untouched s.rights.group1List db (writeRequest env s db (nodes.take k)).database) ↔
      Run.Allowed (goOn env s) (fun st n => NodeKept env s n.1 st.1 n.2) (db, start) nodes :=
  nodes_untouched_iff hgroups db start [] nodes

section Samples

def driver : Driver where
  js := ⟨Double.round, fun _ => 0⟩
  asked := fun v => some fun held => strictEq held v
  objectId := fun _ => none
  toFixed := fun _ => none
  acknowledged := true

def moment : Moment := ⟨1000, "1", fun n => [UInt8.ofNat n]⟩

-- An operator of one station.
def operator : Session where
  username := "operator"
  rights := { group1List := ["North"], enterLimits := true }
  roles := some []
  address := "10.0.0.1"

def voltage (key : ℚ) (tag group1 : String) : Document :=
  [("_id", .number (.fin key)), ("tag", .string tag), ("group1", .string group1),
    ("type", .string "analog"), ("loLimit", .number (.fin 0)), ("hiLimit", .number (.fin 100)),
    ("hysteresis", .number (.fin 1)),
    ("sourceDataUpdate", .document [("valueAtSource", .number (.fin 69))])]

def stations : Database where
  realtimeData := [voltage 1 "NorthKV" "North", voltage 2 "SouthKV" "South"]
  soeData := []

def limitTo (tag : String) (hiLimit : ℚ) : Value :=
  .document [("AttributeId", .number (.fin 5)),
    ("NodeId", .document [("IdType", .number (.fin 1)), ("Id", .string tag)]),
    ("Value", .document [("_Properties", .document
      [("loLimit", .number (.fin 0)), ("hiLimit", .number (.fin hiLimit)),
        ("hysteresis", .number (.fin 1))])])]

theorem own_limit_untouched :
    Untouched ["North"] stations
      (writeRequest driver operator stations [(moment, limitTo "NorthKV" 72)]).database := by
  refine (foreign_untouched_iff driver operator (by decide) stations
    [(moment, limitTo "NorthKV" 72)]).mpr ⟨?_, fun _ _ => trivial⟩ 1
  intro point props prevData hedit hfound hforeign
  have hnode : edits driver (limitTo "NorthKV" 72) =
      some (Filter.field "tag" (Filter.string "NorthKV"),
        [("loLimit", .number (.fin 0)), ("hiLimit", .number (.fin 72)),
          ("hysteresis", .number (.fin 1))]) := rfl
  have hpoint : stations.realtimeData.find? (Filter.field "tag" (Filter.string "NorthKV")) =
      some (voltage 1 "NorthKV" "North") := rfl
  obtain ⟨rfl, -⟩ := Prod.mk.inj (Option.some.inj (hnode.symm.trans hedit))
  obtain rfl := Option.some.inj (hpoint.symm.trans hfound)
  exact absurd hforeign.1 (by unfold Foreign; decide)

-- The limit of a point of the other station is changed.
theorem other_limit_written :
    ¬Untouched ["North"] stations
      (writeRequest driver operator stations [(moment, limitTo "SouthKV" 5)]).database := by
  intro h
  have hforeign : ForeignPoint ["North"] (voltage 2 "SouthKV" "South") :=
    ⟨by unfold Foreign; decide, by decide⟩
  have hkept := h.1 1 (voltage 2 "SouthKV" "South") rfl hforeign
  have hwritten : ((writeRequest driver operator stations
      [(moment, limitTo "SouthKV" 5)]).database.realtimeData[1]?.bind fun d =>
        Document.num d "hiLimit") = some (.fin 5) := by
    decide
  rw [hkept] at hwritten
  exact absurd hwritten (by decide)

end Samples

end Request

end JsonScada.WebServer
