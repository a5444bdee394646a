import JsonScada.Library.Assoc
import JsonScada.Library.Run
import JsonScada.WebServer.Write

-- What a write request of a user of some groups leaves alone.
namespace JsonScada.WebServer

open JsonScada.Library
open JsonScada.Processor (Document Value applySet setField lookup_applySet lookup_setField rawOrNil)

section Foreign

-- A document of none of these groups.
def Foreign (groups : List String) (d : Document) : Prop :=
  Filter.field "group1" (Filter.oneOf groups) d = false

def ForeignPoint (groups : List String) (d : Document) : Prop :=
  Foreign groups d ∧ beepPoint d = false

-- The points and the events of other groups are as before, except for the beep point.
def Untouched (groups : List String) (before after : Database) : Prop :=
  Table.Keeps (ForeignPoint groups) before.realtimeData after.realtimeData ∧
    Table.Keeps (Foreign groups) before.soeData after.soeData

variable {groups : List String} {db db' db'' : Database}

theorem Untouched.refl (groups : List String) (db : Database) : Untouched groups db db :=
  ⟨Table.Keeps.refl _ _, Table.Keeps.refl _ _⟩

theorem Untouched.trans (h : Untouched groups db db') (h' : Untouched groups db' db'') :
    Untouched groups db db'' :=
  ⟨h.1.trans h'.1, h.2.trans h'.2⟩

-- What decides whose a document is.
def owner (d : Document) : Option Value × Option Value := (d.lookup "group1", d.lookup "_id")

theorem field_congr {key : String} {p : Value → Bool} {d d' : Document}
    (h : d.lookup key = d'.lookup key) : Filter.field key p d = Filter.field key p d' := by
  unfold Filter.field
  rw [h]

theorem foreignPoint_congr {d d' : Document} (h : owner d = owner d') :
    ForeignPoint groups d ↔ ForeignPoint groups d' := by
  obtain ⟨hgroup, hid⟩ := Prod.mk.inj h
  unfold ForeignPoint Foreign beepPoint
  rw [field_congr hgroup, field_congr hid]

-- A change that keeps the group and the key of every document.
def KeepsOwner (u : Document → Document) : Prop := ∀ d, owner (u d) = owner d

end Foreign

section Confined

-- A write that leaves the documents of other groups alone, whatever the database holds.
def Confined (groups : List String) : Write → Prop
  | .updateRealtime f u | .updateRealtimeMany f u =>
      (∀ d, f d = true → ¬ForeignPoint groups d) ∧ KeepsOwner u
  | .updateSoeMany f _ => ∀ d, f d = true → ¬Foreign groups d
  | .insertSoe _ | .insertCommand _ => True

variable {groups : List String}

theorem untouched_write {w : Write} (h : Confined groups w) (db : Database) :
    Untouched groups db (db.write w) := by
  have hmap {r : Document → Prop} {f : Filter} {u : Document → Document}
      (hf : ∀ d, f d = true → ¬r d) (xs : List Document) :
      Table.Keeps r xs (xs.map fun d => if f d then u d else d) :=
    Table.keeps_map (fun d hr => if_neg fun hfd => hf d hfd hr) xs
  cases w with
  | updateRealtime f u =>
      refine ⟨Table.keeps_updateFirst_iff.mpr fun d hd hr => ?_, Table.Keeps.refl _ _⟩
      exact absurd hr (h.1 d (List.find?_some hd))
  | updateRealtimeMany f u => exact ⟨hmap h.1 _, Table.Keeps.refl _ _⟩
  | updateSoeMany f u => exact ⟨Table.Keeps.refl _ _, hmap h _⟩
  | insertSoe doc => exact ⟨Table.Keeps.refl _ _, Table.keeps_append _ _ _⟩
  | insertCommand doc => exact Untouched.refl groups db

theorem owners_write {w : Write} (h : Confined groups w) (db : Database) :
    (db.write w).realtimeData.map owner = db.realtimeData.map owner := by
  cases w with
  | updateRealtime f u => exact Table.map_updateFirst h.2 _
  | updateRealtimeMany f u =>
      simp only [Database.write, List.map_map]
      refine List.map_congr_left fun d _ => ?_
      simp only [Function.comp_apply]
      split_ifs
      · exact h.2 d
      · rfl
  | updateSoeMany | insertSoe | insertCommand => rfl

theorem untouched_writeAll {writes : List Write} (h : ∀ w ∈ writes, Confined groups w)
    (db : Database) : Untouched groups db (db.writeAll writes) ∧
      (db.writeAll writes).realtimeData.map owner = db.realtimeData.map owner := by
  induction writes generalizing db with
  | nil => exact ⟨Untouched.refl groups db, rfl⟩
  | cons w writes ih =>
      have hw := h w List.mem_cons_self
      obtain ⟨hrest, howners⟩ := ih (fun w hw => h w (List.mem_cons_of_mem _ hw)) (db.write w)
      exact ⟨(untouched_write hw db).trans hrest, howners.trans (owners_write hw db)⟩

end Confined

section Changes

theorem owner_setField {d : Document} {key : String} {v : Value} (hgroup : key ≠ "group1")
    (hid : key ≠ "_id") : owner (setField d key v) = owner d := by
  unfold owner
  rw [lookup_setField, lookup_setField, if_neg hgroup.symm, if_neg hid.symm]

theorem lookup_reverse_eq_none {fields : Document} {key : String}
    (h : key ∉ fields.map Prod.fst) : fields.reverse.lookup key = none := by
  rw [List.lookup_eq_none_iff]
  intro f hf
  have : f.1 ∈ fields.map Prod.fst := List.mem_map_of_mem (List.mem_reverse.mp hf)
  exact bne_iff_ne.mpr fun heq => h (heq ▸ this)

theorem lookup_set_of_notMem {fields : Document} {key : String}
    (h : key ∉ fields.map Prod.fst) (d : Document) : (set fields d).lookup key = d.lookup key := by
  rw [set, lookup_applySet, lookup_reverse_eq_none h, Option.none_or]

theorem keepsOwner_set {fields : Document} (hgroup : "group1" ∉ fields.map Prod.fst)
    (hid : "_id" ∉ fields.map Prod.fst) : KeepsOwner (set fields) := fun d => by
  unfold owner
  rw [lookup_set_of_notMem hgroup, lookup_set_of_notMem hid]

theorem keepsOwner_returnToZero : KeepsOwner returnToZero := fun d => by
  unfold returnToZero
  rw [owner_setField (by decide) (by decide), owner_setField (by decide) (by decide)]
  cases d.lookup "stateTextFalse" with
  | some v => rw [owner_setField (by decide) (by decide), owner_setField (by decide) (by decide)]
  | none =>
      unfold owner
      simp only [Assoc.lookup_filter_ne (show "group1" ≠ "valueString" by decide),
        Assoc.lookup_filter_ne (show "_id" ≠ "valueString" by decide)]
      exact owner_setField (by decide) (by decide)

theorem keepsOwner_pullAll (names : List String) : KeepsOwner (pullAll "beepGroup1List" names) :=
  fun d => by
    unfold pullAll
    split
    · exact owner_setField (by decide) (by decide)
    · rfl

end Changes

section Acknowledge

variable (env : Driver) {s : Session} (m : Moment)

theorem all_mem {fs : List Filter} {f : Filter} {d : Document} (hf : f ∈ fs)
    (h : Filter.all fs d = true) : f d = true :=
  List.all_eq_true.mp h f hf

theorem groupFilter_eq (hgroups : s.rights.group1List ≠ []) :
    s.rights.groupFilter = Filter.field "group1" (Filter.oneOf s.rights.group1List) := by
  unfold UserRights.groupFilter
  exact if_neg (by simpa using hgroups)

theorem not_foreign_of_groupFilter (hgroups : s.rights.group1List ≠ []) {d : Document}
    (h : s.rights.groupFilter d = true) : ¬Foreign s.rights.group1List d := by
  rw [groupFilter_eq hgroups] at h
  exact fun hforeign => Bool.false_ne_true (hforeign.symm.trans h)

-- The events of an acknowledgement are asked for with the groups of the user.
theorem acknowledgeEvents_writes (flag : ℕ → Bool) (node : Document) (id : Option Value) :
    (acknowledgeEvents env s m flag node id).writes = [] ∨ ∃ conditions u,
      (acknowledgeEvents env s m flag node id).writes =
        [.updateSoeMany (soeFilter s conditions) u] := by
  have hpoint (conditions : List Filter) (n : ℚ) (action : String) (time : ℤ) :
      (pointEvents env s id conditions n action time).writes = [] ∨ ∃ conditions' u,
        (pointEvents env s id conditions n action time).writes =
          [.updateSoeMany (soeFilter s conditions') u] := by
    unfold pointEvents
    cases tagFilter env id with
    | none => exact .inl rfl
    | some f => exact .inr ⟨_, _, rfl⟩
  have hone (condition : Filter) (n : ℚ) (action : String) :
      (oneEvent env s m node id condition n action).writes = [] ∨ ∃ conditions u,
        (oneEvent env s m node id condition n action).writes =
          [.updateSoeMany (soeFilter s conditions) u] := by
    unfold oneEvent
    cases (member (node.lookup "_Properties") "event_id").bind env.objectId with
    | none => exact .inl rfl
    | some event => exact .inr ⟨_, _, rfl⟩
  unfold acknowledgeEvents
  dsimp only
  split_ifs
  · exact .inr ⟨_, _, rfl⟩
  · exact .inr ⟨_, _, rfl⟩
  · exact hpoint _ _ _ _
  · exact hpoint _ _ _ _
  · exact hone _ _ _
  · exact hone _ _ _
  · exact .inl rfl

theorem acknowledgeEvents_confined (hgroups : s.rights.group1List ≠ []) (flag : ℕ → Bool)
    (node : Document) (id : Option Value) :
    ∀ w ∈ (acknowledgeEvents env s m flag node id).writes, Confined s.rights.group1List w := by
  intro w hw
  rcases acknowledgeEvents_writes env m flag node id with hnone | ⟨conditions, u, hone⟩
  · rw [hnone] at hw
    cases hw
  · rw [hone, List.mem_singleton] at hw
    subst hw
    intro d hd
    exact not_foreign_of_groupFilter hgroups (all_mem (by simp) hd)

-- A point that is asked for with the groups of the user, and with what else may be.
theorem not_foreignPoint_of_groupFilter (hgroups : s.rights.group1List ≠ []) {f : Filter}
    (hf : ∀ d, f d = true → s.rights.groupFilter d = true) :
    ∀ d, f d = true → ¬ForeignPoint s.rights.group1List d :=
  fun d hd h => not_foreign_of_groupFilter hgroups (hf d hd) h.1

theorem keepsOwner_setAlarmed : KeepsOwner setAlarmed :=
  keepsOwner_set (by decide) (by decide)

theorem acknowledgeAlarms_confined (hgroups : s.rights.group1List ≠ []) (flag : ℕ → Bool)
    {point : Option Filter}
    (hpoint : ∀ f, point = some f → ∀ d, f d = true → s.rights.groupFilter d = true)
    (id : Option Value) :
    ∀ w ∈ (acknowledgeAlarms s m flag point id).writes, Confined s.rights.group1List w := by
  unfold acknowledgeAlarms
  dsimp only
  split_ifs
  · simp only [List.mem_cons, List.not_mem_nil, or_false]
    rintro w (rfl | rfl)
    · exact ⟨not_foreignPoint_of_groupFilter hgroups fun d hd => hd, keepsOwner_setAlarmed⟩
    · exact ⟨not_foreignPoint_of_groupFilter hgroups fun d hd => all_mem (by simp) hd,
        keepsOwner_returnToZero⟩
  · cases hp : point with
    | none => simp
    | some f =>
        simp only [List.mem_cons, List.not_mem_nil, or_false]
        rintro w (rfl | rfl)
        · exact ⟨not_foreignPoint_of_groupFilter hgroups (hpoint f hp), keepsOwner_setAlarmed⟩
        · exact ⟨not_foreignPoint_of_groupFilter hgroups fun d hd =>
            hpoint f hp d (all_mem (by simp) hd), keepsOwner_returnToZero⟩
  · simp

theorem silenceBeep_confined (groups : List String) (flag : ℕ → Bool) :
    ∀ w ∈ (silenceBeep s m flag).writes, Confined groups w := by
  have hbeep {f : Filter} (hf : ∀ d, f d = true → beepPoint d = true) :
      ∀ d, f d = true → ¬ForeignPoint groups d :=
    fun d hd h => Bool.false_ne_true (h.2.symm.trans (hf d hd))
  unfold silenceBeep
  split_ifs
  · simp only [List.mem_cons, List.not_mem_nil, or_false]
    rintro w (rfl | rfl)
    · exact ⟨hbeep fun d hd => hd, keepsOwner_pullAll _⟩
    · exact ⟨hbeep fun d hd => all_mem (by simp) hd, keepsOwner_set (by decide) (by decide)⟩
  · simp only [List.mem_cons, List.not_mem_nil, or_false]
    rintro w rfl
    exact ⟨hbeep fun d hd => hd, keepsOwner_set (by decide) (by decide)⟩
  · simp

theorem mem_andThen {a b : Part} {w : Write} (h : w ∈ (a.andThen b).writes) :
    w ∈ a.writes ∨ w ∈ b.writes := by
  unfold Part.andThen at h
  split_ifs at h
  · exact .inl h
  · exact List.mem_append.mp h

theorem acknowledge_confined (hgroups : s.rights.group1List ≠ []) (r : Response)
    (node : Document) :
    ∀ w ∈ (acknowledge env s m r node).writes, Confined s.rights.group1List w := by
  unfold acknowledge
  cases member (node.lookup "Value") "Body" with
  | none => simp
  | some body =>
      dsimp only
      split_ifs
      · simp
      · simp
      · cases member (node.lookup "NodeId") "IdType" with
        | none => simp
        | some idType =>
            intro w hw
            rcases mem_andThen hw with hw | hw
            · exact acknowledgeEvents_confined env m hgroups _ _ _ w hw
            · rcases mem_andThen hw with hw | hw
              · refine acknowledgeAlarms_confined m hgroups _ (fun f hf d hd => ?_) _ w hw
                obtain ⟨f', -, rfl⟩ := Option.map_eq_some_iff.mp hf
                exact all_mem (by simp) hd
              · exact silenceBeep_confined m _ _ w hw

end Acknowledge

section Command

variable (env : Driver) (s : Session) (m : Moment)

-- A command only adds to what is stored.
theorem commandTo_confined (groups : List String) (r : Response) (id : Option Value)
    (value valueString : Value) (data : Option Document) :
    ∀ w ∈ (commandTo env s m r id value valueString data).writes, Confined groups w := by
  unfold commandTo
  cases data.bind fun data => (data.num "_id").map (data, ·) with
  | none => simp
  | some found =>
      dsimp only
      split_ifs <;> simp [Confined]

theorem command_confined (groups : List String) (db : Database) (r : Response)
    (node : Document) : ∀ w ∈ (command env s m db r node).writes, Confined groups w := by
  unfold command
  split
  · simp
  · cases node.lookup "NodeId" with
    | none => simp
    | some nodeId =>
        dsimp only
        split
        · simp
        · simp
        · simp
        · split
          · simp
          · split
            · exact commandTo_confined env s m groups r _ _ _ _
            · split
              · split
                · simp [Confined]
                · exact commandTo_confined env s m groups r _ _ _ _
              · simp

end Command

end JsonScada.WebServer
