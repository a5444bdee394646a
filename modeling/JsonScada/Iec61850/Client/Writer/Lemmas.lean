import JsonScada.Iec61850.Client.Writer
import JsonScada.Library.LastAt

namespace JsonScada.Iec61850.Client.Writer

open JsonScada.Library
open JsonScada.JsMongo
open JsonScada.JsTags
open JsonScada.Processor (Document Value applySet lookup_applySet)

section Lemmas

variable {rt : Runtime} {coll : List Document}

section Documents

-- What an update is addressed by: the functional constraint is not part of it.
structure Address where
  conn : ℤ
  ref : String
deriving DecidableEq

def addressOf (iv : IECValue) : Address := ⟨iv.connNumber, iv.address⟩

def WriteModel.address (w : WriteModel) : Address := addressOf w.value

def commandAddress (ct : CommandTag) : Address := ⟨ct.connNumber, ct.ref⟩

-- A tag of an address.
structure TagOf (origin : String) (k : Address) (d : Document) : Prop where
  conn : d.lookup "protocolSourceConnectionNumber" = some (.number (.fin k.conn))
  ref : d.lookup "protocolSourceObjectAddress" = some (.string k.ref)
  origin : d.lookup "origin" = some (.string origin)

theorem matchesFilter_supervisedFilter {k : Address} {d : Document} :
    matchesFilter (supervisedFilter k.conn k.ref) d = true ↔ TagOf "supervised" k d := by
  simp only [matchesFilter, supervisedFilter, List.all_cons, List.all_nil, Bool.and_true,
    Bool.and_eq_true, lookup_number_iff, lookup_string_iff]
  exact ⟨fun ⟨h, h', h''⟩ => ⟨h, h', h''⟩, fun h => ⟨h.conn, h.ref, h.origin⟩⟩

theorem TagOf.address_eq {origin : String} {k k' : Address} {d : Document} (h : TagOf origin k d)
    (h' : TagOf origin k' d) : k = k' := by
  have hconn := h.conn.symm.trans h'.conn
  have href := h.ref.symm.trans h'.ref
  simp only [Option.some.injEq, Value.number.injEq, Double.fin.injEq, Int.cast_inj] at hconn
  simp only [Option.some.injEq, Value.string.injEq] at href
  cases k
  cases k'
  simp_all

theorem tagOf_setOne {origin : String} {k : Address} {d : Document} {field : String} (v : Value)
    (hfield : field ∉ ["protocolSourceConnectionNumber", "protocolSourceObjectAddress", "origin"]) :
    TagOf origin k (applySet d [(field, v)]) ↔ TagOf origin k d := by
  simp only [List.mem_cons, List.not_mem_nil, or_false, not_or] at hfield
  obtain ⟨hconn, href, horigin⟩ := hfield
  constructor <;> rintro ⟨h, h', h''⟩
  · rw [lookup_setOne, if_neg (Ne.symm hconn)] at h
    rw [lookup_setOne, if_neg (Ne.symm href)] at h'
    rw [lookup_setOne, if_neg (Ne.symm horigin)] at h''
    exact ⟨h, h', h''⟩
  · refine ⟨?_, ?_, ?_⟩
    · rw [lookup_setOne, if_neg (Ne.symm hconn), h]
    · rw [lookup_setOne, if_neg (Ne.symm href), h']
    · rw [lookup_setOne, if_neg (Ne.symm horigin), h'']

theorem matchesFilter_setOne (k : Address) (d : Document) {field : String} (v : Value)
    (hfield : field ∉ ["protocolSourceConnectionNumber", "protocolSourceObjectAddress", "origin"]) :
    matchesFilter (supervisedFilter k.conn k.ref) (applySet d [(field, v)]) =
      matchesFilter (supervisedFilter k.conn k.ref) d := by
  rw [Bool.eq_iff_iff, matchesFilter_supervisedFilter, matchesFilter_supervisedFilter,
    tagOf_setOne v hfield]

-- What is read of the document of a new point.
theorem lookup_newRealtimeDoc (rt : Runtime) (iv : IECValue) (id : Double) :
    TagOf "supervised" (addressOf iv) (newRealtimeDoc rt iv id) ∧
      (newRealtimeDoc rt iv id).lookup "_id" = some (.number id) ∧
      (newRealtimeDoc rt iv id).lookup "protocolSourceCommonAddress" =
        some (.string (toUpper rt iv.commonAddress)) ∧
      (newRealtimeDoc rt iv id).lookup "sourceDataUpdate" = some .null := by
  have hshape : ∀ key ∈ ["protocolSourceConnectionNumber", "protocolSourceObjectAddress", "origin",
      "_id", "protocolSourceCommonAddress", "sourceDataUpdate"],
      (shapeOf iv).reverse.lookup key = none := by
    intro key hkey
    simp only [List.mem_cons, List.not_mem_nil, or_false] at hkey
    unfold shapeOf
    split_ifs <;> rcases hkey with rfl | rfl | rfl | rfl | rfl | rfl <;> rfl
  unfold newRealtimeDoc
  refine ⟨⟨?_, ?_, ?_⟩, ?_, ?_, ?_⟩
  all_goals
    rw [lookup_applySet, hshape _ (by simp), Option.none_or, lookup_applySet]
    simp [List.lookup_cons, addressOf, baseDoc]

theorem lookup_newCommandDoc (ct : CommandTag) (id supervisedID : Double) :
    TagOf "command" (commandAddress ct) (newCommandDoc ct id supervisedID) ∧
      (newCommandDoc ct id supervisedID).lookup "_id" = some (.number id) ∧
      (newCommandDoc ct id supervisedID).lookup "supervisedOfCommand" =
        some (.number supervisedID) := by
  unfold newCommandDoc
  refine ⟨⟨?_, ?_, ?_⟩, ?_, ?_⟩ <;>
    simp [lookup_applySet, List.lookup_cons, commandAddress]

end Documents

section Stored

-- The tag that the updates of an address go to, and its source update.
def tagAt (coll : List Document) (k : Address) : Option Document :=
  findOne coll (supervisedFilter k.conn k.ref)

def sourceOf (coll : List Document) (k : Address) : Option (Option Value) :=
  (tagAt coll k).map fun d => d.lookup "sourceDataUpdate"

def written (rt : Runtime) (iv : IECValue) : Value := .document (sourceDataUpdate rt iv).bson

theorem tagAt_spec {k : Address} {d : Document} (h : tagAt coll k = some d) :
    d ∈ coll ∧ TagOf "supervised" k d :=
  ⟨List.mem_of_find?_eq_some h, matchesFilter_supervisedFilter.mp (List.find?_some h)⟩

theorem sourceOf_isSome {k : Address} : (sourceOf coll k).isSome = (tagAt coll k).isSome :=
  Option.isSome_map

theorem sourceOf_append {docs : List Document} {k : Address} (h : (sourceOf coll k).isSome) :
    sourceOf (coll ++ docs) k = sourceOf coll k := by
  rw [sourceOf_isSome] at h
  obtain ⟨d, hd⟩ := Option.isSome_iff_exists.mp h
  have hd' : tagAt (coll ++ docs) k = some d := Table.find?_append_of_some docs hd
  rw [sourceOf, sourceOf, hd, hd']

theorem sourceOf_append_of_none {d : Document} {k : Address}
    (h : ¬TagOf "supervised" k d) : sourceOf (coll ++ [d]) k = sourceOf coll k := by
  have hnone : [d].find? (matchesFilter (supervisedFilter k.conn k.ref)) = none := by
    rw [List.find?_singleton, if_neg]
    rwa [matchesFilter_supervisedFilter]
  unfold sourceOf tagAt findOne
  rw [List.find?_append, hnone, Option.or_none]

theorem isSome_sourceOf_append {d : Document} {k : Address} (h : TagOf "supervised" k d) :
    (sourceOf (coll ++ [d]) k).isSome := by
  rw [sourceOf_isSome]
  apply Table.isSome_find?_append
  right
  rw [List.find?_isSome]
  exact ⟨d, List.mem_singleton_self d, matchesFilter_supervisedFilter.mpr h⟩

theorem apply_updateOne (rt : Runtime) (coll : List Document) (iv : IECValue) :
    apply rt coll (.updateOne iv) =
      Table.updateFirst (matchesFilter (supervisedFilter (addressOf iv).conn (addressOf iv).ref))
        (fun d => applySet d [("sourceDataUpdate", written rt iv)]) coll := rfl

theorem sourceOf_updateOne (coll : List Document) (k : Address) (iv : IECValue) :
    sourceOf (apply rt coll (.updateOne iv)) k =
      (sourceOf coll k).map fun old => if addressOf iv = k then some (written rt iv) else old := by
  have hfield : "sourceDataUpdate" ∉
      ["protocolSourceConnectionNumber", "protocolSourceObjectAddress", "origin"] := by decide
  rw [apply_updateOne]
  unfold sourceOf tagAt findOne
  by_cases hk : addressOf iv = k
  · subst hk
    rw [Table.find?_updateFirst fun d hd => (matchesFilter_setOne _ d _ hfield).trans hd,
      Option.map_map, Option.map_map]
    congr 1
    funext d
    simp [lookup_setOne]
  · rw [Table.find?_updateFirst_ne]
    · simp only [if_neg hk, Option.map_map]
      rfl
    · intro d _ hd
      have hother : matchesFilter (supervisedFilter k.conn k.ref) d = false := by
        rw [Bool.eq_false_iff]
        intro hd'
        rw [matchesFilter_supervisedFilter] at hd hd'
        exact hk (hd.address_eq hd')
      exact ⟨hother, (matchesFilter_setOne k d _ hfield).trans hother⟩

theorem insertOne_cases (rt : Runtime) (coll : List Document) (iv : IECValue) (id : Double) :
    (hasId coll (newRealtimeDoc rt iv id) = true ∧ apply rt coll (.insertOne iv id) = coll) ∨
      (hasId coll (newRealtimeDoc rt iv id) = false ∧
        apply rt coll (.insertOne iv id) = coll ++ [newRealtimeDoc rt iv id]) := by
  simp only [apply, JsMongo.insertOne]
  by_cases h : hasId coll (newRealtimeDoc rt iv id) = true
  · exact .inl ⟨h, by rw [if_pos h, Option.getD_none]⟩
  · exact .inr ⟨Bool.eq_false_iff.mpr h, by rw [if_neg h, Option.getD_some]⟩

-- An operation leaves the other addresses alone.
theorem sourceOf_apply_ne {op : WriteModel} {k : Address} (hk : op.address ≠ k) :
    sourceOf (apply rt coll op) k = sourceOf coll k := by
  cases op with
  | updateOne iv =>
      rw [sourceOf_updateOne]
      simp only [if_neg (show addressOf iv ≠ k from hk), Option.map_id']
  | insertOne iv id =>
      rcases insertOne_cases rt coll iv id with ⟨-, heq⟩ | ⟨-, heq⟩
      · rw [heq]
      · rw [heq]
        apply sourceOf_append_of_none
        intro h
        exact hk ((lookup_newRealtimeDoc rt iv id).1.address_eq h)

theorem isSome_sourceOf_apply {op : WriteModel} {k : Address} (h : (sourceOf coll k).isSome) :
    (sourceOf (apply rt coll op) k).isSome := by
  cases op with
  | updateOne iv =>
      rw [sourceOf_updateOne, Option.isSome_map]
      exact h
  | insertOne iv id =>
      rcases insertOne_cases rt coll iv id with ⟨-, heq⟩ | ⟨-, heq⟩
      · rw [heq]
        exact h
      · rw [heq, sourceOf_append h]
        exact h

variable {ops : List WriteModel} {k : Address}

theorem isSome_sourceOf_applyAll (h : (sourceOf coll k).isSome) :
    (sourceOf (ops.foldl (apply rt) coll) k).isSome := by
  induction ops generalizing coll with
  | nil => exact h
  | cons op ops ih => exact ih (isSome_sourceOf_apply h)

theorem sourceOf_applyAll_ne (h : ∀ op ∈ ops, op.address ≠ k) :
    sourceOf (ops.foldl (apply rt) coll) k = sourceOf coll k := by
  induction ops generalizing coll with
  | nil => rfl
  | cons op ops ih =>
      rw [List.foldl_cons, ih fun op hop => h op (List.mem_cons_of_mem _ hop),
        sourceOf_apply_ne (h op List.mem_cons_self)]

-- The tag of a stored document is there in the end.
theorem isSome_sourceOf_of_insert (hall : InsertsAll rt coll ops) {iv : IECValue} {id : Double}
    (hop : WriteModel.insertOne iv id ∈ ops) :
    (sourceOf (ops.foldl (apply rt) coll) (addressOf iv)).isSome := by
  induction ops generalizing coll with
  | nil => cases hop
  | cons op ops ih =>
      have hrest : InsertsAll rt (apply rt coll op) ops := by
        cases op with
        | insertOne => exact hall.2
        | updateOne => exact hall
      rcases List.mem_cons.mp hop with rfl | hop
      · rw [List.foldl_cons]
        apply isSome_sourceOf_applyAll
        rcases insertOne_cases rt coll iv id with ⟨hthere, -⟩ | ⟨-, heq⟩
        · have hfresh := hall.1
          rw [hthere] at hfresh
          cases hfresh
        · rw [heq]
          exact isSome_sourceOf_append (lookup_newRealtimeDoc rt iv id).1
      · exact ih hrest hop

theorem InsertsAll.append {more : List WriteModel} (h : InsertsAll rt coll (ops ++ more)) :
    InsertsAll rt coll ops := by
  induction ops generalizing coll with
  | nil => trivial
  | cons op ops ih =>
      cases op with
      | insertOne iv id => exact ⟨h.1, ih h.2⟩
      | updateOne iv => exact ih (show InsertsAll rt _ (ops ++ more) from h)

-- The last operation of an address decides, when its tag is there before or is inserted.
theorem sourceOf_applyAll {iv : IECValue} (hall : InsertsAll rt coll ops)
    (hlast : (ofKey WriteModel.address (addressOf iv) ops).getLast? = some (.updateOne iv))
    (htag : (sourceOf coll (addressOf iv)).isSome ∨
      ∃ iv' id, WriteModel.insertOne iv' id ∈ ops ∧ addressOf iv' = addressOf iv) :
    sourceOf (ops.foldl (apply rt) coll) (addressOf iv) = some (some (written rt iv)) := by
  obtain ⟨pre, post, rfl, -, hpost⟩ := exists_of_getLast?_ofKey hlast
  have hthere : (sourceOf (pre.foldl (apply rt) coll) (addressOf iv)).isSome := by
    rcases htag with h | ⟨iv', id, hmem, heq⟩
    · exact isSome_sourceOf_applyAll h
    · rcases List.mem_append.mp hmem with hmem | hmem
      · rw [← heq]
        exact isSome_sourceOf_of_insert hall.append hmem
      · rcases List.mem_cons.mp hmem with hsame | hmem
        · cases hsame
        · exact absurd heq (hpost _ hmem)
  obtain ⟨old, hold⟩ := Option.isSome_iff_exists.mp hthere
  rw [List.foldl_append, List.foldl_cons, sourceOf_applyAll_ne hpost, sourceOf_updateOne, hold,
    Option.map_some, if_pos rfl]

end Stored

section Linked

-- A command tag of an address, a supervised tag of it, and each names the other.
structure Pair (k : Address) (d c : Document) (x y : Double) : Prop where
  supervised : TagOf "supervised" k d
  command : TagOf "command" k c
  supervisedId : d.lookup "_id" = some (.number x)
  commandId : c.lookup "_id" = some (.number y)
  supervisedOfCommand : c.lookup "supervisedOfCommand" = some (.number x)
  commandOfSupervised : d.lookup "commandOfSupervised" = some (.number y)

def Linked (coll : List Document) (k : Address) : Prop :=
  ∃ d ∈ coll, ∃ c ∈ coll, ∃ x y, Pair k d c x y

def idsOf (coll : List Document) : List (Option Value) := coll.map fun d => d.lookup "_id"

variable {k : Address} {x y : Double} {d c : Document}

theorem Linked.append (h : Linked coll k) (docs : List Document) : Linked (coll ++ docs) k := by
  obtain ⟨d, hd, c, hc, x, y, hpair⟩ := h
  exact ⟨d, List.mem_append_left _ hd, c, List.mem_append_left _ hc, x, y, hpair⟩

theorem Pair.setSource (h : Pair k d c x y) (v : Value) :
    Pair k (applySet d [("sourceDataUpdate", v)]) c x y ∧
      Pair k d (applySet c [("sourceDataUpdate", v)]) x y := by
  have hfield : "sourceDataUpdate" ∉
      ["protocolSourceConnectionNumber", "protocolSourceObjectAddress", "origin"] := by decide
  obtain ⟨hd, hc, hx, hy, hsup, hcom⟩ := h
  constructor
  · refine ⟨(tagOf_setOne v hfield).mpr hd, hc, ?_, hy, hsup, ?_⟩ <;>
      rw [lookup_setOne, if_neg (by decide)] <;> assumption
  · refine ⟨hd, (tagOf_setOne v hfield).mpr hc, hx, ?_, ?_, hcom⟩ <;>
      rw [lookup_setOne, if_neg (by decide)] <;> assumption

theorem Linked.updateOne (h : Linked coll k) (iv : IECValue) :
    Linked (apply rt coll (.updateOne iv)) k := by
  obtain ⟨d, hd, c, hc, x, y, hpair⟩ := h
  rw [apply_updateOne]
  rcases Table.mem_updateFirst hd with hd | ⟨-, hd⟩ <;>
    rcases Table.mem_updateFirst hc with hc | ⟨-, hc⟩
  · exact ⟨d, hd, c, hc, x, y, hpair⟩
  · exact ⟨d, hd, _, hc, x, y, (hpair.setSource _).2⟩
  · exact ⟨_, hd, c, hc, x, y, (hpair.setSource _).1⟩
  · exact ⟨_, hd, _, hc, x, y, (((hpair.setSource _).1).setSource _).2⟩

theorem Linked.apply (h : Linked coll k) (op : WriteModel) : Linked (apply rt coll op) k := by
  cases op with
  | updateOne iv => exact h.updateOne iv
  | insertOne iv id =>
      rcases insertOne_cases rt coll iv id with ⟨-, heq⟩ | ⟨-, heq⟩
      · rw [heq]
        exact h
      · rw [heq]
        exact h.append _

theorem idsOf_apply_updateOne (iv : IECValue) :
    idsOf (apply rt coll (.updateOne iv)) = idsOf coll := by
  rw [apply_updateOne]
  apply Table.map_updateFirst
  intro d
  rw [lookup_setOne, if_neg (by decide)]

theorem nodup_append_of_fresh (hids : (idsOf coll).Nodup) {id : Double}
    (hid : d.lookup "_id" = some (.number id)) (hfresh : hasId coll d = false) :
    (idsOf (coll ++ [d])).Nodup := by
  unfold idsOf
  rw [List.map_append, List.nodup_append]
  refine ⟨hids, List.nodup_singleton _, ?_⟩
  rintro a ha b hb rfl
  obtain ⟨e, he, heq⟩ := List.mem_map.mp ha
  obtain rfl := List.mem_singleton.mp hb
  have heq : e.lookup "_id" = some (.number id) := heq.trans hid
  have hthere : hasId coll d = true := by
    unfold hasId
    rw [hid]
    refine List.any_eq_true.mpr ⟨e, he, ?_⟩
    rw [heq]
    simp [sameValue]
  rw [hthere] at hfresh
  cases hfresh

theorem eq_of_sameId (hids : (idsOf coll).Nodup) {e : Document} (hd : d ∈ coll) (he : e ∈ coll)
    (h : d.lookup "_id" = e.lookup "_id") : d = e :=
  List.inj_on_of_nodup_map hids hd he h

theorem matchesFilter_id : matchesFilter [("_id", .number x)] d = true ↔
    d.lookup "_id" = some (.number x) := by
  simp only [matchesFilter, List.all_cons, List.all_nil, Bool.and_true, lookup_number_iff]

-- The update of the other end of a pair.
def setLink (coll : List Document) (x y : Double) : List Document :=
  JsMongo.updateOne [("_id", .number x)] [("commandOfSupervised", .number y)] coll

theorem setLink_field : "commandOfSupervised" ∉
    ["protocolSourceConnectionNumber", "protocolSourceObjectAddress", "origin"] := by decide

theorem idsOf_setLink : idsOf (setLink coll x y) = idsOf coll := by
  apply Table.map_updateFirst
  intro d
  rw [lookup_setOne, if_neg (by decide)]

theorem sourceOf_setLink (k : Address) : sourceOf (setLink coll x y) k = sourceOf coll k := by
  apply Table.map_find?_updateFirst
  · exact fun d => matchesFilter_setOne k d _ setLink_field
  · intro d
    rw [lookup_setOne, if_neg (by decide)]

-- A pair stays when the link of another supervised tag is set.
theorem Linked.setLink (h : Linked coll k) (hids : (idsOf coll).Nodup) {k' : Address}
    (hother : k' ≠ k) {e : Document} (he : e ∈ coll) (htag : TagOf "supervised" k' e)
    (hid : e.lookup "_id" = some (.number x)) (y : Double) : Linked (setLink coll x y) k := by
  obtain ⟨d, hd, c, hc, x', y', hpair⟩ := h
  have hne : ¬matchesFilter [("_id", .number x)] d = true := by
    rw [matchesFilter_id]
    intro hsame
    obtain rfl := eq_of_sameId hids hd he (hsame.trans hid.symm)
    exact hother (htag.address_eq hpair.supervised)
  have hd' : d ∈ Writer.setLink coll x y := by
    rcases Table.mem_updateFirst hd with hd | ⟨hp, -⟩
    · exact hd
    · exact absurd hp hne
  rcases Table.mem_updateFirst hc with hc | ⟨-, hc⟩
  · exact ⟨d, hd', c, hc, x', y', hpair⟩
  · refine ⟨d, hd', _, hc, x', y', hpair.supervised,
      (tagOf_setOne _ setLink_field).mpr hpair.command, hpair.supervisedId, ?_, ?_,
      hpair.commandOfSupervised⟩
    · rw [lookup_setOne, if_neg (by decide)]
      exact hpair.commandId
    · rw [lookup_setOne, if_neg (by decide)]
      exact hpair.supervisedOfCommand

-- The pair that a new command tag makes with a supervised tag.
theorem linked_setLink (hids : (idsOf coll).Nodup) (hd : d ∈ coll)
    (htag : TagOf "supervised" k d) (hid : d.lookup "_id" = some (.number x)) (hc : c ∈ coll)
    (hcommand : TagOf "command" k c) (hcid : c.lookup "_id" = some (.number y))
    (hsup : c.lookup "supervisedOfCommand" = some (.number x)) : Linked (setLink coll x y) k := by
  have hd' : applySet d [("commandOfSupervised", .number y)] ∈ setLink coll x y := by
    apply Table.mem_updateFirst_of_unique hd (matchesFilter_id.mpr hid)
    intro e he hmatch
    exact eq_of_sameId hids he hd ((matchesFilter_id.mp hmatch).trans hid.symm)
  have hend (c' : Document) (hc' : c' ∈ setLink coll x y) (hcommand : TagOf "command" k c')
      (hcid : c'.lookup "_id" = some (.number y))
      (hsup : c'.lookup "supervisedOfCommand" = some (.number x)) : Linked (setLink coll x y) k := by
    refine ⟨_, hd', c', hc', x, y, (tagOf_setOne _ setLink_field).mpr htag, hcommand, ?_, hcid,
      hsup, ?_⟩
    · rw [lookup_setOne, if_neg (by decide)]
      exact hid
    · rw [lookup_setOne, if_pos rfl]
  rcases Table.mem_updateFirst hc with hc | ⟨-, hc⟩
  · exact hend c hc hcommand hcid hsup
  · refine hend _ hc ((tagOf_setOne _ setLink_field).mpr hcommand) ?_ ?_
    · rw [lookup_setOne, if_neg (by decide)]
      exact hcid
    · rw [lookup_setOne, if_neg (by decide)]
      exact hsup

end Linked

end Lemmas

section Recovery

open JsonScada.Processor (Document Value applySet)

variable {rt : Runtime}

section Purpose

def Action.value : Action → Option IECValue
  | .enqueueValue iv => some iv
  | _ => none

def Action.control : Action → Option CommandTag
  | .enqueueCommandTag ct => some ct
  | _ => none

def received (as : List Action) : List IECValue := as.filterMap Action.value

def controls (as : List Action) : List CommandTag := as.filterMap Action.control

def isIdle : Phase → Bool
  | .idle => true
  | _ => false

def CaughtUp (s : State) : Prop :=
  isIdle s.phase = true ∧ s.queue = [] ∧ s.commandTagQueue.isEmpty = true

instance (s : State) : Decidable (CaughtUp s) :=
  inferInstanceAs (Decidable (isIdle s.phase = true ∧ s.queue = [] ∧
    s.commandTagQueue.isEmpty = true))

-- An object is an address with a functional constraint.
def objectOf (iv : IECValue) : Address × String := (addressOf iv, iv.commonAddress)

-- The tag of an object shows a value of it.
def Shown (rt : Runtime) (coll : List Document) (iv : IECValue) : Prop :=
  ∃ d ∈ coll, TagOf "supervised" (addressOf iv) d ∧
    d.lookup "protocolSourceCommonAddress" = some (.string iv.commonAddress) ∧
    d.lookup "sourceDataUpdate" = some (written rt iv)

structure NothingLost (rt : Runtime) (as : List Action) (coll : List Document) : Prop where
  shown : ∀ o v, (ofKey objectOf o (received as)).getLast? = some v → Shown rt coll v
  linked : ∀ ct ∈ controls as, Linked coll (commandAddress ct)

end Purpose

section Condition

variable (rt)

def marked (conns : ℤ → Option Connection) (n : ℤ) (key : String) : Bool :=
  (conns n).any fun conn => conn.insertedTags.contains key

def commandKey (ct : CommandTag) : String := pointKey rt ct.ref "CO"

def valueKey (iv : IECValue) : String := pointKey rt iv.address iv.commonAddress

-- A supervised tag is found for the command, and the pair is stored.
def pairs (conns : ℤ → Option Connection) (coll : List Document) (ct : CommandTag)
    (a : CommandAnswers) : Bool :=
  (conns ct.connNumber).all fun conn =>
    let x := supervisedID coll ct a.found
    let id := (conn.tagKeys.next coll a.lookupOk conn.protocolConnectionNumber).2
    conn.insertedTags.contains (commandKey rt ct) || waits x ct ||
      !Double.eq x (.fin 0) && a.insert = .done && !hasId coll (newCommandDoc ct id x) &&
        a.link ≠ .failed

def WriteModel.isInsert : WriteModel → Bool
  | insertOne .. => true
  | updateOne _ => false

-- What is asked of the calls of a step: an unordered bulk write stores every new tag, and
-- the calls for a command tag succeed. What is received has a tag, or the mark that
-- creates it.
def Stores (s : State) : Action → Prop
  | .enqueueValue iv => (s.conns iv.connNumber).any (fun conn =>
      iv.selfPublish || conn.insertedTags.contains (valueKey rt iv)) = true
  | .enqueueCommandTag ct => (s.conns ct.connNumber).any (fun conn =>
      !conn.insertedTags.contains (commandKey rt ct)) = true
  | .bulkWrite executed _ =>
      match s.phase with
      | .draining _ writes =>
          InsertsAll rt s.coll (executedOf writes executed) ∧
            ∀ op ∈ writes, op.isInsert = true → op ∈ executedOf writes executed
      | _ => True
  | .createCommandTag a =>
      match s.phase with
      | .commands (ct :: _) => pairs rt s.conns s.coll ct a = true
      | _ => True
  | _ => True

-- The last operation for an address is the last one in the order of the batch.
def settled (writes ops : List WriteModel) (k : Address) : Bool :=
  (ofKey WriteModel.address k ops).getLast? = (ofKey WriteModel.address k writes).getLast?

-- The values that the step lets go without a write that lasts.
def lostBy (s : State) : Action → List IECValue
  | .bulkWrite executed _ =>
      match s.phase with
      | .draining batch writes =>
          batch.filter fun v => !settled writes (executedOf writes executed) (addressOf v)
      | _ => []
  | .trimQueue => s.queue.take (s.queue.length - dataBufferLimit)
  | _ => []

-- A value that is let go is followed by another one of its address.
def Recovered (s : State) : List Action → Prop
  | [] => True
  | a :: as =>
      Stores rt s a ∧ ∀ s', step rt s a = some s' →
        (∀ v ∈ lostBy s a, ∃ w ∈ s'.queue ++ received as, addressOf w = addressOf v) ∧
          Recovered s' as

instance decidableStores (s : State) : ∀ a, Decidable (Stores rt s a)
  | .enqueueValue _ => inferInstanceAs (Decidable (_ = _))
  | .enqueueCommandTag _ => inferInstanceAs (Decidable (_ = _))
  | .bulkWrite executed _ =>
      match h : s.phase with
      | .draining _ writes =>
          decidable_of_iff (InsertsAll rt s.coll (executedOf writes executed) ∧
              ∀ op ∈ writes, op.isInsert = true → op ∈ executedOf writes executed)
            (by simp [Stores, h])
      | .commands _ | .idle | .failed => .isTrue (by simp [Stores, h])
  | .createCommandTag a =>
      match h : s.phase with
      | .commands (ct :: _) =>
          decidable_of_iff (pairs rt s.conns s.coll ct a = true) (by simp [Stores, h])
      | .commands [] | .idle | .draining .. | .failed => .isTrue (by simp [Stores, h])
  | .ping _ | .dequeueValue _ | .trimQueue => .isTrue trivial

instance decidableRecovered : ∀ s as, Decidable (Recovered rt s as)
  | _, [] => .isTrue trivial
  | s, a :: as =>
      have (s' : State) : Decidable (Recovered rt s' as) := decidableRecovered s' as
      have : Decidable (∀ s', step rt s a = some s' →
          (∀ v ∈ lostBy s a, ∃ w ∈ s'.queue ++ received as, addressOf w = addressOf v) ∧
            Recovered rt s' as) :=
        inferInstanceAs (Decidable (∀ s' ∈ step rt s a,
          (∀ v ∈ lostBy s a, ∃ w ∈ s'.queue ++ received as, addressOf w = addressOf v) ∧
            Recovered rt s' as))
      inferInstanceAs (Decidable (_ ∧ _))

-- The tags are numbered and addressed as the client does it, and no supervised address is
-- shared by objects under different functional constraints.
structure Separate (coll : List Document) (conns : ℤ → Option Connection)
    (values : List IECValue) (controls : List CommandTag) : Prop where
  ids : (idsOf coll).Nodup
  created : ∀ n conn, conns n = some conn → conn.autoCreateTags = true
  tags : ∀ d ∈ coll, ∀ n, (conns n).isSome = true →
    d.lookup "protocolSourceConnectionNumber" = some (.number (.fin n)) →
    ∃ ref, trimSpace ref = ref ∧ d.lookup "protocolSourceObjectAddress" = some (.string ref) ∧
      (∃ x, d.lookup "_id" = some (.number x)) ∧
      ∃ fc : FC, d.lookup "protocolSourceCommonAddress" = some (.string fc.mnemonic) ∧
        d.lookup "origin" = some (.string (if fc = .co then "command" else "supervised"))
  objects : ∀ v ∈ values, trimSpace v.address = v.address ∧
    ∃ fc : FC, fc ≠ .co ∧ v.commonAddress = fc.mnemonic
  controllable : ∀ ct ∈ controls, (conns ct.connNumber).isSome = true ∧ trimSpace ct.ref = ct.ref
  unshared : ∀ v ∈ values, ∀ w ∈ values, addressOf v = addressOf w →
    v.commonAddress = w.commonAddress
  unsharedTags : ∀ d ∈ coll, ∀ v ∈ values, TagOf "supervised" (addressOf v) d →
    d.lookup "protocolSourceCommonAddress" = some (.string v.commonAddress)

end Condition

section Keys

variable {ref ref' : String} {fc fc' : FC}

theorem trimSpace_mnemonic (fc : FC) : trimSpace fc.mnemonic = fc.mnemonic := by
  cases fc <;> decide

theorem toUpper_mnemonic (rt : Runtime) (fc : FC) : toUpper rt fc.mnemonic = fc.mnemonic := by
  have hall : ∀ c ∈ fc.mnemonic.toList, rt.toUpper c = c := by
    intro c hc
    have hascii : c.toNat < 128 ∧ c.toUpper = c := by
      cases fc <;> simp [FC.mnemonic] at hc <;> rcases hc with rfl | rfl <;> decide
    rw [rt.toUpper_ascii c hascii.1, hascii.2]
  rw [toUpper, List.map_congr_left hall, List.map_id', String.ofList_toList]

theorem pointKey_mnemonic (rt : Runtime) (href : trimSpace ref = ref) (fc : FC) :
    pointKey rt ref fc.mnemonic = ref ++ fc.mnemonic := by
  rw [pointKey, href, trimSpace_mnemonic, toUpper_mnemonic]

theorem append_mnemonic_inj (h : ref ++ fc.mnemonic = ref' ++ fc'.mnemonic) :
    ref = ref' ∧ fc = fc' := by
  have hlength : ∀ fc : FC, fc.mnemonic.toList.length = 2 := by intro fc; cases fc <;> rfl
  have hlists := congrArg String.toList h
  rw [String.toList_append, String.toList_append] at hlists
  obtain ⟨hpre, hpost⟩ := List.append_inj' hlists ((hlength fc).trans (hlength fc').symm)
  refine ⟨String.toList_inj.mp hpre, ?_⟩
  have hsame := String.toList_inj.mp hpost
  cases fc <;> cases fc' <;> first | rfl | exact absurd hsame (by decide)

variable {coll : List Document} {conns : ℤ → Option Connection} {values : List IECValue}
  {ctrls : List CommandTag}

theorem Separate.value_inj (hsep : Separate coll conns values ctrls) {v w : IECValue}
    (hv : v ∈ values) (hw : w ∈ values) (hconn : v.connNumber = w.connNumber)
    (h : valueKey rt v = valueKey rt w) : addressOf v = addressOf w := by
  obtain ⟨hvref, fc, -, hvfc⟩ := hsep.objects v hv
  obtain ⟨hwref, fc', -, hwfc⟩ := hsep.objects w hw
  rw [valueKey, valueKey, hvfc, hwfc, pointKey_mnemonic rt hvref, pointKey_mnemonic rt hwref] at h
  rw [addressOf, addressOf, hconn, (append_mnemonic_inj h).1]

theorem Separate.value_ne_command (hsep : Separate coll conns values ctrls) {v : IECValue}
    (hv : v ∈ values) {ct : CommandTag} (hct : ct ∈ ctrls) : valueKey rt v ≠ commandKey rt ct := by
  obtain ⟨hvref, fc, hfc, hvfc⟩ := hsep.objects v hv
  intro h
  rw [valueKey, commandKey, hvfc, show "CO" = FC.mnemonic .co from rfl,
    pointKey_mnemonic rt hvref, pointKey_mnemonic rt (hsep.controllable ct hct).2] at h
  exact hfc (append_mnemonic_inj h).2

theorem Separate.command_inj (hsep : Separate coll conns values ctrls) {ct ct' : CommandTag}
    (hct : ct ∈ ctrls) (hct' : ct' ∈ ctrls) (hconn : ct.connNumber = ct'.connNumber)
    (h : commandKey rt ct = commandKey rt ct') : commandAddress ct = commandAddress ct' := by
  rw [commandKey, commandKey, show "CO" = FC.mnemonic .co from rfl,
    pointKey_mnemonic rt (hsep.controllable ct hct).2,
    pointKey_mnemonic rt (hsep.controllable ct' hct').2] at h
  rw [commandAddress, commandAddress, hconn, (append_mnemonic_inj h).1]

end Keys

section Marks

variable {conns conns' : ℤ → Option Connection} {n : ℤ} {conn : Connection}

theorem marked_update (conn : Connection) (keys : KeyAllocator) (tags : List String)
    (m : ℤ) (key : String) :
    marked (Function.update conns n (some { conn with tagKeys := keys, insertedTags := tags })) m
      key = if m = n then tags.contains key else marked conns m key := by
  unfold marked
  by_cases h : m = n
  · rw [h, Function.update_self, if_pos rfl]
    rfl
  · rw [Function.update_of_ne h, if_neg h]

theorem isSome_update (hconn : conns n = some conn) (conn' : Connection) (m : ℤ) :
    (Function.update conns n (some conn') m).isSome = (conns m).isSome := by
  by_cases h : m = n
  · rw [h, Function.update_self, hconn]
    rfl
  · rw [Function.update_of_ne h]

theorem marked_of_some (hconn : conns n = some conn) (key : String) :
    marked conns n key = conn.insertedTags.contains key := by
  rw [marked, hconn]
  rfl

-- What is done to the connections when a value is taken off the queue.
structure Admits (rt : Runtime) (conns conns' : ℤ → Option Connection) (iv : IECValue)
    (inserts : List WriteModel) : Prop where
  one : inserts = [] ∨ ∃ id, inserts = [.insertOne iv id]
  marks : ∀ m key, marked conns' m key = true → marked conns m key = true ∨
    inserts ≠ [] ∧ m = iv.connNumber ∧ key = valueKey rt iv
  kept : ∀ m key, marked conns m key = true → marked conns' m key = true
  own : marked conns' iv.connNumber (valueKey rt iv) = true
  same : ∀ m, (conns' m).isSome = (conns m).isSome

theorem admits (coll : List Document) (lookupOk : Bool) {iv : IECValue}
    (hconn : conns iv.connNumber = some conn)
    (h : iv.selfPublish = true ∨ marked conns iv.connNumber (valueKey rt iv) = true) :
    Admits rt conns
      (if iv.selfPublish then maybeInsertTag rt coll lookupOk conns iv else (conns, [])).1 iv
      (if iv.selfPublish then maybeInsertTag rt coll lookupOk conns iv else (conns, [])).2 := by
  by_cases hmarked : marked conns iv.connNumber (valueKey rt iv) = true
  · have hnothing :
        (if iv.selfPublish then maybeInsertTag rt coll lookupOk conns iv else (conns, [])) =
          (conns, []) := by
      have hmem : valueKey rt iv ∈ conn.insertedTags := by
        rw [marked_of_some hconn] at hmarked
        exact List.contains_iff_mem.mp hmarked
      split_ifs
      · unfold maybeInsertTag
        rw [hconn]
        exact if_pos hmem
      · rfl
    rw [hnothing]
    exact ⟨.inl rfl, fun _ _ h => .inl h, fun _ _ h => h, hmarked, fun _ => rfl⟩
  · have hpublish : iv.selfPublish = true := h.resolve_right hmarked
    have hnew : valueKey rt iv ∉ conn.insertedTags := by
      rw [marked_of_some hconn] at hmarked
      exact fun hmem => hmarked (List.contains_iff_mem.mpr hmem)
    have hinsert : ∃ keys id, maybeInsertTag rt coll lookupOk conns iv =
        (Function.update conns iv.connNumber (some { conn with
          tagKeys := keys, insertedTags := valueKey rt iv :: conn.insertedTags }),
          [.insertOne iv id]) := by
      unfold maybeInsertTag
      rw [hconn]
      exact ⟨_, _, if_neg hnew⟩
    obtain ⟨keys, id, hinsert⟩ := hinsert
    rw [if_pos hpublish, hinsert]
    refine ⟨.inr ⟨id, rfl⟩, ?_, ?_, ?_, isSome_update hconn _⟩
    · intro m key hm
      rw [marked_update] at hm
      split_ifs at hm with hn
      · subst hn
        rw [List.contains_cons, Bool.or_eq_true] at hm
        rcases hm with hkey | hkey
        · exact .inr ⟨List.cons_ne_nil _ _, rfl, by simpa using hkey⟩
        · exact .inl ((marked_of_some hconn key).trans hkey)
      · exact .inl hm
    · intro m key hm
      rw [marked_update]
      split_ifs with hn
      · subst hn
        rw [marked_of_some hconn] at hm
        rw [List.contains_cons, hm, Bool.or_true]
      · exact hm
    · rw [marked_update, if_pos rfl, List.contains_cons, beq_self_eq_true, Bool.true_or]

end Marks

end Recovery

end JsonScada.Iec61850.Client.Writer
