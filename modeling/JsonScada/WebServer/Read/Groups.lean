import JsonScada.WebServer.History
import JsonScada.WebServer.Write.Groups

-- What a user of some groups learns of the others.
namespace JsonScada.WebServer

open JsonScada.Library
open JsonScada.Processor (Document Value rawOrNil setField lookup_setField)

section Alike

variable (groups : List String)

-- A point that is not open to all, and is of none of these groups.
def Hidden (d : Document) : Prop := Foreign groups d ∧ isPublic d = false

-- A point has a number for its key and a text for its tag.
def IsPoint (d : Document) : Prop :=
  ∃ key tag, d.lookup "_id" = some (.number key) ∧ d.lookup "tag" = some (.string tag)

-- The same point of another group, with other values and properties.
structure Variant (d d' : Document) : Prop where
  point : IsPoint d
  hidden : Hidden groups d
  hidden' : Hidden groups d'
  id : d.lookup "_id" = d'.lookup "_id"
  tag : d.lookup "tag" = d'.lookup "tag"

-- The same event of another group.
structure EventVariant (e e' : Document) : Prop where
  foreign : Foreign groups e
  foreign' : Foreign groups e'
  id : e.lookup "_id" = e'.lookup "_id"
  tag : e.lookup "tag" = e'.lookup "tag"

-- The same command to a point of another group.
structure CommandVariant (db : Database) (c c' : Document) : Prop where
  hidden : ∃ d ∈ db.realtimeData, d.lookup "_id" = c.lookup "pointKey" ∧ Hidden groups d
  id : c.lookup "_id" = c'.lookup "_id"
  point : c.lookup "pointKey" = c'.lookup "pointKey"

-- The tag of a point of the groups.
def ownTag (db : Database) (t : String) : Bool :=
  db.realtimeData.any fun d =>
    Filter.field "group1" (Filter.oneOf groups) d && strictEq (some (.string t)) (d.lookup "tag")

-- Two databases that differ in the values and the properties of other groups.
structure AlikeFor (db db' : Database) : Prop where
  points : Views.Alike (Variant groups) db.realtimeData db'.realtimeData
  events : Views.Alike (EventVariant groups) db.soeData db'.soeData
  commands : Views.Alike (CommandVariant groups db) db.commandsQueue db'.commandsQueue
  hist : Option.Rel (fun rows rows' : List HistRow =>
    rows.filter (fun r => ownTag groups db r.tag) = rows'.filter fun r => ownTag groups db r.tag)
      db.hist db'.hist

-- The points have keys and tags of their own.
structure Keyed (db : Database) : Prop where
  points : ∀ d ∈ db.realtimeData, IsPoint d
  ids : (db.realtimeData.map fun d => d.lookup "_id").Nodup
  tags : (db.realtimeData.map fun d => d.lookup "tag").Nodup

end Alike

section Conditions

-- The comparison of documents is a total order.
structure Reader.Ordered (env : Reader) : Prop where
  total : ∀ fields d d', env.order fields d d' = true ∨ env.order fields d' d = true
  trans : ∀ fields d d' d'', env.order fields d d' = true → env.order fields d' d'' = true →
    env.order fields d d'' = true

variable (env : Reader) (groups : List String) (m : Moment)

-- The points of other groups meet the query by their keys and tags, whatever they hold.
def ByKeys (q : PointQuery) : Prop :=
  ∀ f, q.filter = some f → ∀ d d', Variant groups d d' → f d = f d'

-- What a request asks for does not depend on what other groups have.
def Discreet (service : Service) (body : Document) : Prop :=
  match service with
  | .read =>
      match readPlan env body with
      | some (.command _ _) => False
      | some (.points q) => ByKeys groups q
      | _ => True
  | .historyRead =>
      match historyPlan env m body with
      | some (.events (some f) _ _ limit) =>
          (∀ e, Foreign groups e → f e = false) ∨ env.limit limit = none ∨
            env.limit limit = some (some 0)
      | _ => True
  | .uniqueAttributeValues => True

end Conditions

section Sorted

variable {env : Reader}

theorem filter_sorted (horder : env.Ordered) (fields : List (String × Bool)) (f : Filter)
    (docs : List Document) : (sorted env fields docs).filter f = sorted env fields (docs.filter f) := by
  unfold sorted
  split_ifs
  · rfl
  · exact Views.filter_insertionSort (horder.total fields) (horder.trans fields) f docs

theorem sorted_perm (env : Reader) (fields : List (String × Bool)) (docs : List Document) :
    (sorted env fields docs).Perm docs := by
  unfold sorted
  split_ifs
  · exact List.Perm.refl _
  · exact List.perm_insertionSort _ _

theorem sorted_eq_nil_iff {fields : List (String × Bool)} {docs : List Document} :
    sorted env fields docs = [] ↔ docs = [] :=
  ⟨fun h => List.nil_perm.mp (h ▸ sorted_perm env fields docs),
    fun h => List.perm_nil.mp (h ▸ sorted_perm env fields docs)⟩

-- Where one row at most is selected, the order does not matter.
theorem find?_perm_of_unique {α : Type*} {p : α → Bool} {xs ys : List α} (h : xs.Perm ys)
    (hunique : ∀ x ∈ xs, ∀ y ∈ xs, p x = true → p y = true → x = y) :
    xs.find? p = ys.find? p := by
  cases hx : xs.find? p with
  | none =>
      refine (List.find?_eq_none.mpr fun y hy => ?_).symm
      exact List.find?_eq_none.mp hx y (h.mem_iff.mpr hy)
  | some x =>
      have hxmem := List.mem_of_find?_eq_some hx
      have hpx := List.find?_some hx
      cases hy : ys.find? p with
      | none => exact absurd hpx (List.find?_eq_none.mp hy x (h.mem_iff.mp hxmem))
      | some y =>
          rw [hunique x hxmem y (h.mem_iff.mpr (List.mem_of_find?_eq_some hy)) hpx
            (List.find?_some hy)]

end Sorted

section Nodes

variable {groups : List String}

theorem includesGroup_of_foreign {d : Document} (h : Foreign groups d) :
    includesGroup groups (d.lookup "group1") = false := by
  unfold Foreign Filter.field at h
  cases hd : d.lookup "group1" with
  | none => rfl
  | some v =>
      rw [hd] at h
      cases v with
      | string g => simpa [Filter.oneOf, includesGroup] using h
      | _ => rfl

theorem accessDenied_of_foreign {s : Session} (hgroups : s.rights.group1List ≠ []) {d : Document}
    (h : Foreign s.rights.group1List d) : accessDenied s d = true := by
  unfold accessDenied
  rw [includesGroup_of_foreign h]
  simpa [List.length_pos_iff] using hgroups

theorem Variant.point' {d d' : Document} (h : Variant groups d d') : IsPoint d' := by
  obtain ⟨key, tag, hkey, htag⟩ := h.point
  exact ⟨key, tag, h.id ▸ hkey, h.tag ▸ htag⟩

-- A node names a point by its tag or by its key.
def names (id : Option Value) (d : Document) : Bool :=
  strictEq id (d.lookup "tag") || strictEq id (d.lookup "_id")

theorem strictEq_string_iff {id : Option Value} {t : String} :
    strictEq id (some (.string t)) = true ↔ id = some (.string t) := by
  cases id with
  | none => simp [strictEq]
  | some v => cases v <;> simp [strictEq]

theorem strictEq_number {id : Option Value} {x : Double}
    (h : strictEq id (some (.number x)) = true) : id = some (.number x) := by
  cases id with
  | none => cases h
  | some v =>
      cases v with
      | number y =>
          rw [strictEq, Double.eq_iff] at h
          rw [h.1]
      | _ => cases h

theorem names_cases {id : Option Value} {d : Document} (hd : IsPoint d) (h : names id d = true) :
    (∃ t, id = some (.string t) ∧ d.lookup "tag" = id) ∨
      ∃ x, id = some (.number x) ∧ d.lookup "_id" = id := by
  obtain ⟨key, tag, hkey, htag⟩ := hd
  unfold names at h
  rw [hkey, htag, Bool.or_eq_true] at h
  rcases h with h | h
  · exact .inl ⟨tag, strictEq_string_iff.mp h, htag.trans (strictEq_string_iff.mp h).symm⟩
  · exact .inr ⟨key, strictEq_number h, hkey.trans (strictEq_number h).symm⟩

theorem eq_of_nodup_map {α β : Type*} {g : α → β} {xs : List α} (h : (xs.map g).Nodup) {x y : α}
    (hx : x ∈ xs) (hy : y ∈ xs) (hxy : g x = g y) : x = y :=
  List.inj_on_of_nodup_map h hx hy hxy

-- A node names one point at most.
theorem Keyed.names_unique {db : Database} (h : Keyed db) (id : Option Value) :
    ∀ d ∈ db.realtimeData, ∀ d' ∈ db.realtimeData, names id d = true → names id d' = true →
      d = d' := by
  intro d hd d' hd' hn hn'
  rcases names_cases (h.points d hd) hn with ⟨t, hid, htag⟩ | ⟨x, hid, hkey⟩
  · rcases names_cases (h.points d' hd') hn' with ⟨t', hid', htag'⟩ | ⟨x', hid', hkey'⟩
    · exact eq_of_nodup_map h.tags hd hd' (htag.trans htag'.symm)
    · rw [hid] at hid'
      cases hid'
  · rcases names_cases (h.points d' hd') hn' with ⟨t', hid', htag'⟩ | ⟨x', hid', hkey'⟩
    · rw [hid] at hid'
      cases hid'
    · exact eq_of_nodup_map h.ids hd hd' (hkey.trans hkey'.symm)

theorem lookup_project (q : PointQuery) (d : Document) {key : String} (h : key ∈ projection) :
    (project q d).lookup key = d.lookup key := by
  unfold project
  split_ifs
  · rfl
  · induction d with
    | nil => rfl
    | cons f d ih =>
        obtain ⟨k, v⟩ := f
        by_cases hk : k ∈ projection
        · rw [List.filter_cons_of_pos (by simpa using hk)]
          simp only [List.lookup_cons, ih]
        · have hne : (key == k) = false := by
            rw [beq_eq_false_iff_ne]
            rintro rfl
            exact hk h
          rw [List.filter_cons_of_neg (by simpa using hk)]
          simp only [List.lookup_cons, hne, ih]

theorem names_project (q : PointQuery) (id : Option Value) (d : Document) :
    names id (project q d) = names id d := by
  unfold names
  rw [lookup_project q d (by decide), lookup_project q d (by decide)]

theorem accessDenied_project (s : Session) (q : PointQuery) (d : Document) :
    accessDenied s (project q d) = accessDenied s d := by
  unfold accessDenied
  rw [lookup_project q d (by decide)]

theorem isPublic_project (q : PointQuery) (d : Document) :
    isPublic (project q d) = isPublic d := by
  unfold isPublic
  rw [lookup_project q d (by decide)]

-- A node is told the same of two points that are hidden from the user.
theorem readNode_congr (env : Reader) {s : Session} (hgroups : s.rights.group1List ≠ [])
    (q : PointQuery) {results results' : List Document} (node : Value)
    (h : ∀ id, Option.Rel (fun d d' => d = d' ∨ Variant s.rights.group1List d d')
      (results.find? (names id)) (results'.find? (names id))) :
    readNode env s q.info (results.map (project q)) node =
      readNode env s q.info (results'.map (project q)) node := by
  unfold readNode
  dsimp only
  congr 1
  funext nodeId
  congr 1
  funext id
  have hfind (docs : List Document) : (docs.map (project q)).find? (fun d =>
      strictEq id (d.lookup "tag") || strictEq id (d.lookup "_id")) =
        (docs.find? (names id)).map (project q) := by
    rw [List.find?_map]
    congr 2
    funext d
    exact names_project q id d
  have hid := h id
  rw [hfind, hfind]
  generalize results.find? (names id) = found at hid ⊢
  generalize results'.find? (names id) = found' at hid ⊢
  cases hid with
  | none => rfl
  | some hrel =>
      rcases hrel with rfl | hv
      · rfl
      · simp only [Option.map_some, accessDenied_project, isPublic_project,
          accessDenied_of_foreign hgroups hv.hidden.1,
          accessDenied_of_foreign hgroups hv.hidden'.1, hv.hidden.2, hv.hidden'.2,
          Bool.not_false, Bool.and_self, if_true]

theorem names_congr {d d' : Document} (h : Variant groups d d') (id : Option Value) :
    names id d = names id d' := by
  unfold names
  rw [h.tag, h.id]

theorem Keyed.find?_sorted {db : Database} (h : Keyed db) {env : Reader}
    {fields : List (String × Bool)} {f : Filter} {id : Option Value} :
    (sorted env fields (db.realtimeData.filter f)).find? (names id) =
      (db.realtimeData.filter f).find? (names id) := by
  have hperm := sorted_perm env fields (db.realtimeData.filter f)
  refine find?_perm_of_unique hperm fun d hd d' hd' => ?_
  exact h.names_unique id d (List.mem_of_mem_filter (hperm.mem_iff.mp hd)) d'
    (List.mem_of_mem_filter (hperm.mem_iff.mp hd'))

end Nodes

section Same

variable {env : Reader} {s : Session} {m : Moment} {db db' : Database}

theorem readPoints_same (horder : env.Ordered) (hgroups : s.rights.group1List ≠ [])
    (hkeyed : Keyed db) (hkeyed' : Keyed db')
    (halike : Views.Alike (Variant s.rights.group1List) db.realtimeData db'.realtimeData)
    {q : PointQuery} (hq : ByKeys s.rights.group1List q) :
    readPoints env s m db q = readPoints env s m db' q := by
  unfold readPoints
  dsimp only
  cases hf : q.filter with
  | none => rfl
  | some f =>
      dsimp only
      have hfound := halike.filter (hq f hf)
      have hnil : sorted env q.sort (db.realtimeData.filter f) = [] ↔
          sorted env q.sort (db'.realtimeData.filter f) = [] := by
        rw [sorted_eq_nil_iff, sorted_eq_nil_iff, hfound.eq_nil_iff]
      by_cases hempty : sorted env q.sort (db.realtimeData.filter f) = []
      · rw [if_pos hempty, if_pos (hnil.mp hempty)]
      · rw [if_neg hempty, if_neg (fun h => hempty (hnil.mpr h))]
        cases q.nodes with
        | some nodes =>
            dsimp only
            have hnode (node : Value) :
                readNode env s q.info
                    ((sorted env q.sort (db.realtimeData.filter f)).map (project q)) node =
                  readNode env s q.info
                    ((sorted env q.sort (db'.realtimeData.filter f)).map (project q)) node := by
              refine readNode_congr env hgroups q node fun id => ?_
              rw [hkeyed.find?_sorted, hkeyed'.find?_sorted]
              exact hfound.find? fun d d' hv => names_congr hv id
            rw [funext hnode]
        | none =>
            dsimp only
            rw [filter_sorted horder, filter_sorted horder,
              hfound.filter_eq fun d d' hv => ?_]
            simp [accessDenied_of_foreign hgroups hv.hidden.1,
              accessDenied_of_foreign hgroups hv.hidden'.1]

section Unique

theorem includesGroup_rawOrNil (names : List String) (v : Option Value) :
    includesGroup names (some (rawOrNil v)) = includesGroup names v := by
  cases v <;> rfl

theorem includesGroup_same (names : List String) {v w : Value} (h : sameValue v w = true) :
    includesGroup names (some v) = includesGroup names (some w) := by
  cases v <;> cases w <;> simp_all [sameValue, includesGroup]

theorem groupCounts_filter (hgroups : s.rights.group1List ≠ [])
    (halike : Views.Alike (Variant s.rights.group1List) db.realtimeData db'.realtimeData) :
    (groupCounts db).filter (fun d => !accessDenied s d) =
      (groupCounts db').filter fun d => !accessDenied s d := by
  let names := s.rights.group1List
  let own (v : Value) : Bool := includesGroup names (some v)
  let key (d : Document) : Value := rawOrNil (d.lookup "group1")
  let counted (docs : List Document) (k : Value) : Document :=
    [("_id", k), ("group1", k),
      ("count", .number (.fin (docs.filter fun d => sameValue k (key d)).length))]
  have hfilter (db : Database) : (groupCounts db).filter (fun d => !accessDenied s d) =
      (Views.distinct sameValue ((db.realtimeData.map key).filter own)).map
        (counted db.realtimeData) := by
    have hcounts : groupCounts db =
        (Views.distinct sameValue (db.realtimeData.map key)).map (counted db.realtimeData) := by
      unfold groupCounts groupBy
      rw [List.map_map]
      rfl
    rw [hcounts, List.filter_map, ← Views.filter_distinct sameValue
      (fun v w h => includesGroup_same names h)]
    congr 1
    refine List.filter_congr fun v _ => ?_
    have hlookup : List.lookup "group1" (counted db.realtimeData v) = some v := rfl
    simp only [Function.comp_apply, accessDenied, hlookup]
    simp [List.length_pos_iff, hgroups, names]
  have hhidden (d : Document) (h : Foreign names d) : own (key d) = false := by
    simp only [own, key]
    rw [includesGroup_rawOrNil, includesGroup_of_foreign h]
  have hkeys : (db.realtimeData.map key).filter own = (db'.realtimeData.map key).filter own := by
    rw [List.filter_map, List.filter_map]
    congr 1
    exact halike.filter_eq fun d d' hv => ⟨hhidden d hv.hidden.1, hhidden d' hv.hidden'.1⟩
  rw [hfilter, hfilter, hkeys, ← Views.filter_distinct sameValue
    (fun v w h => includesGroup_same names h)]
  refine List.map_congr_left fun k hk => ?_
  have hown := (List.mem_filter.mp hk).2
  have hnone (d : Document) (h : Foreign names d) : sameValue k (key d) = false := by
    rw [← Bool.not_eq_true]
    intro hsame
    have heq := includesGroup_same names hsame
    exact Bool.false_ne_true ((hhidden d h).symm.trans (heq.symm.trans hown))
  have hcount : db.realtimeData.filter (fun d => sameValue k (key d)) =
      db'.realtimeData.filter fun d => sameValue k (key d) :=
    halike.filter_eq fun d d' hv => ⟨hnone d hv.hidden.1, hnone d' hv.hidden'.1⟩
  simp only [counted, hcount]

theorem unique_same (horder : env.Ordered) (hgroups : s.rights.group1List ≠ [])
    (halike : Views.Alike (Variant s.rights.group1List) db.realtimeData db'.realtimeData)
    (body : Document) :
    uniqueAttributeValues env s m db body = uniqueAttributeValues env s m db' body := by
  unfold uniqueAttributeValues
  dsimp only
  rw [filter_sorted horder, filter_sorted horder, groupCounts_filter hgroups halike]

end Unique

section History

theorem filter_of_imp {α : Type*} {p own : α → Bool} (h : ∀ x, p x = true → own x = true)
    (xs : List α) : xs.filter p = (xs.filter own).filter p := by
  rw [List.filter_filter]
  refine List.filter_congr fun x _ => ?_
  cases hp : p x with
  | false => rfl
  | true => rw [h x hp, Bool.and_self]

theorem allowedTags_same (hgroups : s.rights.group1List ≠ [])
    (halike : Views.Alike (Variant s.rights.group1List) db.realtimeData db'.realtimeData)
    (tags : List String) : allowedTags s db tags = allowedTags s db' tags := by
  have hforeign (d : Document) (h : Foreign s.rights.group1List d) :
      Filter.all [Filter.field "tag" (Filter.oneOf tags), s.rights.groupFilter] d = false := by
    rw [← Bool.not_eq_true]
    exact fun hall => not_foreign_of_groupFilter hgroups (all_mem (by simp) hall) h
  unfold allowedTags
  rw [halike.filter_eq fun d d' hv => ⟨hforeign d hv.hidden.1, hforeign d' hv.hidden'.1⟩]

theorem ownTag_of_allowed (hgroups : s.rights.group1List ≠ []) {tags : List String} {t : String}
    (h : t ∈ allowedTags s db tags) : ownTag s.rights.group1List db t = true := by
  unfold allowedTags at h
  rw [if_pos (List.length_pos_iff.mpr hgroups)] at h
  obtain ⟨d, hd, htag⟩ := List.any_eq_true.mp (List.mem_filter.mp h).2
  obtain ⟨hmem, hall⟩ := List.mem_filter.mp hd
  have hgroup := all_mem (f := s.rights.groupFilter) (by simp) hall
  rw [groupFilter_eq hgroups] at hgroup
  exact List.any_eq_true.mpr ⟨d, hmem, by rw [hgroup, htag, Bool.and_self]⟩

theorem lastRows_same {rows rows' : List HistRow} {own : String → Bool} {tags : List String}
    (hown : ∀ t ∈ tags, own t = true)
    (h : rows.filter (fun r => own r.tag) = rows'.filter fun r => own r.tag) (stop : ℤ) :
    lastRows rows tags stop = lastRows rows' tags stop := by
  have hp (r : HistRow) (hr : (r.tag ∈ tags && r.timeTag ≤ stop && stop - halfDay < r.timeTag) = true) :
      own r.tag = true := by
    simp only [Bool.and_eq_true, decide_eq_true_eq] at hr
    exact hown _ hr.1.1
  unfold lastRows
  rw [filter_of_imp hp rows, filter_of_imp hp rows', h]

theorem rowsBetween_same (env : Reader) {rows rows' : List HistRow} {own : String → Bool}
    {tags : List String} (hown : ∀ t ∈ tags, own t = true)
    (h : rows.filter (fun r => own r.tag) = rows'.filter fun r => own r.tag) (start stop : ℤ)
    (limit : ℕ) :
    rowsBetween env rows tags start stop limit = rowsBetween env rows' tags start stop limit := by
  have hp (r : HistRow) (hr : (r.tag ∈ tags && start ≤ r.timeTag && r.timeTag ≤ stop) = true) :
      own r.tag = true := by
    simp only [Bool.and_eq_true, decide_eq_true_eq] at hr
    exact hown _ hr.1.1
  unfold rowsBetween
  rw [filter_of_imp hp rows, filter_of_imp hp rows', h]

theorem readValues_same (hgroups : s.rights.group1List ≠ [])
    (halike : AlikeFor s.rights.group1List db db') (nodes : List Value) (tags : List String)
    (start stop : ℤ) (limit : Value) (server source : Bool) :
    readValues env s m db nodes tags start stop limit server source =
      readValues env s m db' nodes tags start stop limit server source := by
  have hown : ∀ t ∈ allowedTags s db tags, ownTag s.rights.group1List db t = true :=
    fun t ht => ownTag_of_allowed hgroups ht
  have hhist := halike.hist
  unfold readValues
  dsimp only
  rw [← allowedTags_same hgroups halike.points tags]
  generalize db.hist = found at hhist ⊢
  generalize db'.hist = found' at hhist ⊢
  cases hhist with
  | none => rfl
  | some hrows =>
      dsimp only
      rw [lastRows_same hown hrows, rowsBetween_same env hown hrows]

theorem readEvents_same (halike : AlikeFor s.rights.group1List db db') {filter : Option Filter}
    {aggregated : Bool} {sort : List (String × Bool)} {limit : Value}
    (h : ∀ f, filter = some f → (∀ e, Foreign s.rights.group1List e → f e = false) ∨
      env.limit limit = none ∨ env.limit limit = some (some 0)) :
    readEvents env s m db filter aggregated sort limit =
      readEvents env s m db' filter aggregated sort limit := by
  have hfound : findEvents env db filter aggregated sort limit =
      findEvents env db' filter aggregated sort limit := by
    unfold findEvents
    cases filter with
    | none => rfl
    | some f =>
        rcases h f rfl with hnone | hlimit | hlimit
        · have hsame : db.soeData.filter f = db'.soeData.filter f :=
            halike.events.filter_eq fun e e' hv => ⟨hnone e hv.foreign, hnone e' hv.foreign'⟩
          cases env.limit limit with
          | none => rfl
          | some n => simp only [hsame]
        · rw [hlimit]
        · rw [hlimit]
          simp
  unfold readEvents
  rw [hfound]

end History

-- A discreet request is answered alike.
theorem answer_same (horder : env.Ordered) (hgroups : s.rights.group1List ≠ [])
    (hkeyed : Keyed db) (hkeyed' : Keyed db') (halike : AlikeFor s.rights.group1List db db')
    {service : Service} {body : Document}
    (h : Discreet env s.rights.group1List m service body) :
    answer env s m service db body = answer env s m service db' body := by
  cases service with
  | read =>
      unfold answer readRequest
      dsimp only
      unfold Discreet at h
      cases hplan : readPlan env body with
      | none => rfl
      | some plan =>
          rw [hplan] at h
          cases plan with
          | answered r => rfl
          | command handle id => exact h.elim
          | points q =>
              exact congrArg some (readPoints_same horder hgroups hkeyed hkeyed' halike.points h)
  | historyRead =>
      unfold answer historyReadRequest
      dsimp only
      unfold Discreet at h
      cases hplan : historyPlan env m body with
      | none => rfl
      | some plan =>
          rw [hplan] at h
          cases plan with
          | answered r => rfl
          | events filter aggregated sort limit =>
              refine congrArg some (readEvents_same halike fun f hf => ?_)
              subst hf
              exact h
          | values tags start stop limit server source =>
              exact congrArg some (readValues_same hgroups halike _ _ _ _ _ _ _)
  | uniqueAttributeValues =>
      exact congrArg some (unique_same horder hgroups halike.points body)

end Same

section Told

variable (env : Reader) (s : Session) (m : Moment)

-- The database with one point, and with nothing else.
def withPoint (d : Document) : Database := { realtimeData := [d], soeData := [] }

theorem keyed_withPoint {d : Document} (h : IsPoint d) (commands : List Document) :
    Keyed { withPoint d with commandsQueue := commands } :=
  ⟨by simpa [withPoint] using h, by simp [withPoint], by simp [withPoint]⟩

-- A request that finds the point is not answered as one that finds nothing.
theorem readPoints_code (q : PointQuery) {f : Filter} (hf : q.filter = some f) (d : Document) :
    (readPoints env s m (withPoint d) q).serviceResult.code = StatusCode.goodNoData.code ↔
      f d = false := by
  unfold readPoints
  dsimp only
  rw [hf]
  dsimp only
  cases hd : f d with
  | false =>
      have hnil : sorted env q.sort ((withPoint d).realtimeData.filter f) = [] := by
        rw [sorted_eq_nil_iff]
        simp [withPoint, hd]
      rw [if_pos hnil]
      exact iff_of_true rfl rfl
  | true =>
      have hne : sorted env q.sort ((withPoint d).realtimeData.filter f) ≠ [] := by
        rw [Ne, sorted_eq_nil_iff]
        simp [withPoint, hd]
      rw [if_neg hne]
      refine iff_of_false ?_ Bool.false_ne_true.symm
      cases q.nodes with
      | none => simp [Response.tell, StatusCode.good, StatusCode.goodNoData]
      | some nodes =>
          dsimp only
          split <;>
            simp [Response.tell, StatusCode.good, StatusCode.goodNoData,
              StatusCode.badInvalidState]

def withEvent (e : Document) : Database := { realtimeData := [], soeData := [e] }

theorem aggregate_ne_nil {e : Document} : aggregate [e] ≠ [] := by
  simp [aggregate, groupBy, Views.distinct]

theorem readEvents_code {f : Filter} (aggregated : Bool) (sort : List (String × Bool))
    {limit : Value} {n : Option ℕ} (hlimit : env.limit limit = some n) (hn : n ≠ some 0)
    (e : Document) :
    (readEvents env s m (withEvent e) (some f) aggregated sort limit).serviceResult.code =
      StatusCode.goodNoData.code ↔ f e = false := by
  unfold readEvents findEvents
  rw [hlimit]
  dsimp only
  cases he : f e with
  | false =>
      have hfound : (withEvent e).soeData.filter f = [] := by simp [withEvent, he]
      have hnil : sorted env sort (if aggregated = true then aggregate [] else []) = [] := by
        rw [sorted_eq_nil_iff]
        cases aggregated <;> rfl
      rw [hfound, hnil]
      refine iff_of_true ?_ rfl
      cases n <;> simp [Response.tell]
  | true =>
      have hfound : (withEvent e).soeData.filter f = [e] := by simp [withEvent, he]
      have hne : sorted env sort (if aggregated = true then aggregate [e] else [e]) ≠ [] := by
        rw [Ne, sorted_eq_nil_iff]
        cases aggregated with
        | false => simp
        | true => simpa using aggregate_ne_nil
      rw [hfound]
      refine iff_of_false ?_ Bool.false_ne_true.symm
      rw [if_neg]
      · simp [Response.tell, StatusCode.good, StatusCode.goodNoData]
      · cases n with
        | none => exact hne
        | some n =>
            have hpos : n ≠ 0 := fun h => hn (h ▸ rfl)
            simpa [List.take_eq_nil_iff, hpos] using hne

-- The limit of the priorities and of the acknowledgement is asked of every event.
theorem eventsFilter_ack {ef : EventFilter} {p : Period} {byServer aggregated : Bool}
    {tags : List String} {f : Filter} (h : eventsFilter env ef p byServer aggregated tags = some f)
    (e : Document) : f (setField e "ack" (.number (.fin 3))) = false := by
  unfold eventsFilter at h
  dsimp only at h
  obtain ⟨priority, -, rfl⟩ := Option.map_eq_some_iff.mp h
  rw [← Bool.not_eq_true]
  intro hall
  have hack := List.all_eq_true.mp hall _ (List.mem_cons_of_mem _ (List.mem_cons_of_mem _
    (List.mem_cons_of_mem _ (List.mem_cons_of_mem _ List.mem_cons_self))))
  unfold Filter.field at hack
  rw [lookup_setField, if_pos rfl] at hack
  dsimp only [Filter.atMost] at hack
  split_ifs at hack <;> revert hack <;> decide

theorem periodPlan_events {body : Document} {p : Period} {tags : List String} {f : Filter}
    {aggregated : Bool} {sort : List (String × Bool)} {limit : Value}
    (h : periodPlan env body p tags = some (.events (some f) aggregated sort limit)) :
    ∃ ef p byServer tags, eventsFilter env ef p byServer aggregated tags = some f := by
  unfold periodPlan at h
  split at h
  · cases h
  split at h
  · obtain ⟨filters, -, h⟩ := Option.bind_eq_some_iff.mp h
    obtain ⟨ef, -, h⟩ := Option.bind_eq_some_iff.mp h
    obtain ⟨count, -, h⟩ := Option.map_eq_some_iff.mp h
    obtain ⟨hfilter, rfl, -, -⟩ := HistoryPlan.events.inj h
    exact ⟨_, _, _, _, hfilter⟩
  · unfold valuesPlan at h
    split at h
    · split at h <;> cases h
    · cases h

theorem historyPlan_events {body : Document} {f : Filter} {aggregated : Bool}
    {sort : List (String × Bool)} {limit : Value}
    (h : historyPlan env m body = some (.events (some f) aggregated sort limit)) :
    ∃ ef p byServer tags, eventsFilter env ef p byServer aggregated tags = some f := by
  unfold historyPlan at h
  split at h
  · cases h
  obtain ⟨_, -, h⟩ := Option.bind_eq_some_iff.mp h
  split at h
  · unfold nodesPlan at h
    split at h
    · cases h
    obtain ⟨nodes, -, h⟩ := Option.bind_eq_some_iff.mp h
    obtain ⟨tags, -, h⟩ := Option.bind_eq_some_iff.mp h
    split at h
    · cases h
    obtain ⟨p, -, h⟩ := Option.bind_eq_some_iff.mp h
    exact periodPlan_events env h
  · cases h

end Told

section Exact

variable {env : Reader} {s : Session} {m : Moment}

def SameAnswers (env : Reader) (s : Session) (m : Moment) (service : Service) (body : Document) :
    Prop :=
  ∀ db db', Keyed db → Keyed db' → AlikeFor s.rights.group1List db db' →
    answer env s m service db body = answer env s m service db' body

theorem alikeFor_points {groups : List String} {d d' : Document} (h : Variant groups d d') :
    AlikeFor groups (withPoint d) (withPoint d') :=
  ⟨.cons (.inr h) .nil, .nil, .nil, .none⟩

-- A command to a hidden point, with a value.
def hiddenPoint : Document := [("_id", .number (.fin 1)), ("tag", .string "hidden")]

def commandWith (id : List UInt8) (value : Bool) : Document :=
  [("_id", .other id), ("pointKey", .number (.fin 1)), ("value", .bool value)]

def withCommand (id : List UInt8) (value : Bool) : Database :=
  { withPoint hiddenPoint with commandsQueue := [commandWith id value] }

theorem command_told (handle : String) (id : List UInt8) :
    commandResult m handle ((withCommand id true).commandsQueue.find? (keyOf id)) ≠
      commandResult m handle ((withCommand id false).commandsQueue.find? (keyOf id)) := by
  have hfind (value : Bool) : (withCommand id value).commandsQueue.find? (keyOf id) =
      some (commandWith id value) := by
    refine List.find?_cons_of_pos ?_
    simp [keyOf, Filter.field, commandWith]
  rw [hfind, hfind]
  intro h
  have hitems := congrArg (fun r : Option Response => r.bind Response.monitoredItems) h
  simp [commandResult, object, commandWith, List.lookup_cons] at hitems

theorem alikeFor_commands (groups : List String) (id : List UInt8) (value value' : Bool) :
    AlikeFor groups (withCommand id value) (withCommand id value') :=
  ⟨Views.Alike.refl _ _, .nil,
    .cons (.inr ⟨⟨hiddenPoint, List.mem_singleton_self _, rfl, rfl, by decide⟩, rfl, rfl⟩) .nil,
    .none⟩

theorem discreet_read {body : Document} (h : SameAnswers env s m .read body) :
    Discreet env s.rights.group1List m .read body := by
  unfold SameAnswers answer readRequest at h
  unfold Discreet
  dsimp only at h ⊢
  cases hplan : readPlan env body with
  | none => trivial
  | some plan =>
      rw [hplan] at h
      cases plan with
      | answered r => trivial
      | command handle id =>
          have hkeyed (value : Bool) : Keyed (withCommand id value) :=
            keyed_withPoint ⟨_, _, rfl, rfl⟩ _
          exact command_told handle id (h _ _ (hkeyed true) (hkeyed false)
            (alikeFor_commands _ id true false))
      | points q =>
          intro f hf d d' hv
          have hsame := h (withPoint d) (withPoint d') (keyed_withPoint hv.point [])
            (keyed_withPoint hv.point' []) (alikeFor_points hv)
          have hcode : f d = false ↔ f d' = false := by
            rw [← readPoints_code env s m q hf d, ← readPoints_code env s m q hf d',
              Option.some.inj hsame]
          exact Bool.eq_iff_iff.mpr (by simpa using not_congr hcode)

-- The event once it is acknowledged and removed.
theorem eventVariant_removed {groups : List String} {e : Document} (h : Foreign groups e) :
    EventVariant groups e (setField e "ack" (.number (.fin 3))) := by
  have hlookup {key : String} (hkey : key ≠ "ack") :
      (setField e "ack" (.number (.fin 3))).lookup key = e.lookup key := by
    rw [lookup_setField, if_neg hkey]
  exact ⟨h, (field_congr (hlookup (by decide))).trans h, (hlookup (by decide)).symm,
    (hlookup (by decide)).symm⟩

theorem discreet_history {body : Document} (h : SameAnswers env s m .historyRead body) :
    Discreet env s.rights.group1List m .historyRead body := by
  unfold SameAnswers answer historyReadRequest at h
  unfold Discreet
  dsimp only at h ⊢
  cases hplan : historyPlan env m body with
  | none => trivial
  | some plan =>
      rw [hplan] at h
      cases plan with
      | answered r => trivial
      | values => trivial
      | events filter aggregated sort limit =>
          cases filter with
          | none => trivial
          | some f =>
              dsimp only
              by_contra hnot
              simp only [not_or, not_forall] at hnot
              obtain ⟨⟨e, hforeign, hmatch⟩, hlimit, hzero⟩ := hnot
              obtain ⟨n, hn⟩ := Option.ne_none_iff_exists'.mp hlimit
              have hn0 : n ≠ some 0 := fun hn0 => hzero (hn0 ▸ hn)
              have hkeyed (e : Document) : Keyed (withEvent e) :=
                ⟨fun d hd => (by cases hd), List.nodup_nil, List.nodup_nil⟩
              have hv := eventVariant_removed hforeign
              have hsame := Option.some.inj (h (withEvent e) _ (hkeyed e) (hkeyed _)
                ⟨.nil, .cons (.inr hv) .nil, .nil, .none⟩)
              obtain ⟨ef, p, byServer, tags, hfilter⟩ := historyPlan_events env m hplan
              have hremoved := (readEvents_code env s m aggregated sort hn hn0 _).mpr
                (eventsFilter_ack env hfilter e)
              dsimp only at hsame
              rw [← hsame] at hremoved
              exact hmatch ((readEvents_code env s m aggregated sort hn hn0 e).mp hremoved)

-- What is asked of nodes are keys and tags.
theorem nodesFilter_congr {points : List Value} {f : Filter} (h : nodesFilter env points = some f)
    {groups : List String} {d d' : Document} (hv : Variant groups d d') : f d = f d' := by
  have hkeys (npts : List Value) :
      Filter.any (npts.map fun p => Filter.field "_id" (Filter.number (parseInt env.js (some p)))) d =
        Filter.any
          (npts.map fun p => Filter.field "_id" (Filter.number (parseInt env.js (some p)))) d' := by
    unfold Filter.any
    rw [List.any_map, List.any_map]
    congr 1
    funext p
    exact field_congr hv.id
  unfold nodesFilter at h
  dsimp only at h
  split_ifs at h
  · obtain ⟨g, hg, rfl⟩ := Option.map_eq_some_iff.mp h
    obtain ⟨p, -, rfl⟩ := Option.map_eq_some_iff.mp hg
    unfold Filter.any at hkeys ⊢
    simp only [List.any_cons, List.any_nil, hkeys, hv.tag]
  · obtain rfl := Option.some.inj h
    exact hkeys _
  · obtain ⟨p, -, rfl⟩ := Option.map_eq_some_iff.mp h
    exact congrArg p hv.tag

-- A read of nodes alone depends on no value of another group.
theorem nodes_byKeys {body : Document} {q : PointQuery} (h : readPlan env body = some (.points q))
    (hnodes : body.lookup "ContentFilter" = none) (groups : List String) : ByKeys groups q := by
  unfold readPlan at h
  split at h
  · cases h
  obtain ⟨nodes, -, h⟩ := Option.bind_eq_some_iff.mp h
  obtain ⟨sc, -, h⟩ := Option.bind_eq_some_iff.mp h
  split at h
  · cases h
  split at h
  · dsimp only at h
    split at h
    · split at h
      · cases h
      · obtain ⟨id, -, h⟩ := Option.map_eq_some_iff.mp h
        cases h
    · cases h
  have hfilters : arrayField body "ContentFilter" = some none := by
    unfold arrayField
    rw [hnodes]
  rw [hfilters] at h
  obtain rfl := ReadPlan.points.inj (Option.some.inj h)
  exact fun f hf d d' hv => nodesFilter_congr hf hv

-- Two databases that differ in what other groups have are answered alike: exactly when the
-- request is no read of a command, and what it asks for does not depend on their values.
theorem same_answers_iff (env : Reader) (horder : env.Ordered) (s : Session)
    (hgroups : s.rights.group1List ≠ []) (m : Moment) (service : Service) (body : Document) :
    (∀ db db', Keyed db → Keyed db' → AlikeFor s.rights.group1List db db' →
        answer env s m service db body = answer env s m service db' body) ↔
      Discreet env s.rights.group1List m service body := by
  refine ⟨fun h => ?_, fun h db db' hkeyed hkeyed' halike =>
    answer_same horder hgroups hkeyed hkeyed' halike h⟩
  cases service with
  | read => exact discreet_read h
  | historyRead => exact discreet_history h
  | uniqueAttributeValues => trivial

section Samples

def commandHandle : String := "65a000000000000000000001"

def commandId : List UInt8 := [0x65, 0xa0, 0, 0, 0, 0, 0, 0, 0, 0, 0, 1]

def reader : Reader :=
  { driver with
    objectId := fun v => if strictEq v (some (.string commandHandle)) then some commandId else none
    queried := fun q => some fun d => q.all fun f => Filter.field f.1 (sameValue f.2) d
    oneOf := fun values => some fun held => values.any fun v => strictEq (some v) held
    atMost := fun v => v.map fun v held =>
      match v, held with
      | .number x, some (.number y) => Double.le y x
      | _, _ => false
    order := fun _ _ _ => true
    collate := fun t t' => t ≤ t'
    limit := fun v =>
      match v with
      | .number (.fin q) => some (if q = 0 then none else some q.floor.natAbs)
      | _ => none
    date := fun _ => none
    hourBefore := fun ms => ms - 3600000 }

theorem reader_ordered : reader.Ordered := ⟨fun _ _ _ => .inl rfl, fun _ _ _ _ _ _ => rfl⟩

def readNodes (tags : List String) : Document :=
  [("NodesToRead", .array (tags.map fun t =>
    .document [("AttributeId", .number (.fin 13)), ("NodeId", .document [("Id", .string t)])]))]

-- A point of the operator and one of another station: what the other one has is not told.
theorem nodes_same_answers :
    SameAnswers reader operator moment .read (readNodes ["NorthKV", "SouthKV"]) := by
  refine (same_answers_iff reader reader_ordered operator (by decide) moment .read
    (readNodes ["NorthKV", "SouthKV"])).mpr ?_
  have hplan : readPlan reader (readNodes ["NorthKV", "SouthKV"]) =
      some (.points
        { filter := nodesFilter reader [.string "NorthKV", .string "SouthKV"], sort := []
          nodes := (arrayField (readNodes ["NorthKV", "SouthKV"]) "NodesToRead").join
          info := false, whole := false }) := by
    rfl
  unfold Discreet
  dsimp only
  rw [hplan]
  exact nodes_byKeys hplan rfl _

def readCommand : Document :=
  [("NodesToRead", .array [.document
    [("AttributeId", .number (.fin 12)), ("ClientHandle", .string commandHandle),
      ("NodeId", .document [("Id", .string "SouthBreaker")])]])]

-- The result of a command of the other station, by its handle.
def southCommand (value : ℚ) : Database where
  realtimeData := [voltage 2 "SouthBreaker" "South"]
  soeData := []
  commandsQueue := [[("_id", .other commandId), ("pointKey", .number (.fin 2)),
    ("tag", .string "SouthBreaker"), ("value", .number (.fin value)), ("ack", .bool true)]]

def readByValue (value : ℚ) : Document :=
  [("ContentFilter", .array [.document
    [("FilterOperator", .number (.fin 0)),
      ("FilterOperands", .array
        [.document [("FilterOperand", .number (.fin 598)), ("Value", .string "value")],
          .document [("FilterOperand", .number (.fin 595)),
            ("Value", .number (.fin value))]])]])]

def southPoint (value : ℚ) : Database :=
  withPoint (("value", .number (.fin value)) :: voltage 2 "SouthKV" "South")

-- The value of a command that is told.
def toldValue (r : Option Response) : Option Double :=
  match (r.bind Response.monitoredItems).bind List.head? with
  | some (.document item) => (Document.doc item "Value").bind fun v => Document.num v "Value"
  | _ => none

theorem south_hidden : Hidden ["North"] (voltage 2 "SouthKV" "South") :=
  ⟨by unfold Foreign; decide, by decide⟩

-- The value of a command is told by its handle, and that a value is the one that is asked for
-- by the status of the answer.
theorem other_group_told :
    (Keyed (southCommand 0) ∧ Keyed (southCommand 1) ∧
      AlikeFor ["North"] (southCommand 0) (southCommand 1) ∧
      answer reader operator moment .read (southCommand 0) readCommand ≠
        answer reader operator moment .read (southCommand 1) readCommand) ∧
    Keyed (southPoint 68) ∧ Keyed (southPoint 69) ∧
      AlikeFor ["North"] (southPoint 68) (southPoint 69) ∧
      answer reader operator moment .read (southPoint 68) (readByValue 69) ≠
        answer reader operator moment .read (southPoint 69) (readByValue 69) := by
  have hcommand (value : ℚ) : Keyed (southCommand value) :=
    keyed_withPoint ⟨_, _, rfl, rfl⟩ _
  have hpoint (value : ℚ) : Keyed (southPoint value) := keyed_withPoint ⟨_, _, rfl, rfl⟩ []
  have hbreaker : Hidden ["North"] (voltage 2 "SouthBreaker" "South") :=
    ⟨by unfold Foreign; decide, by decide⟩
  have hvalue (value : ℚ) :
      Hidden ["North"] (("value", .number (.fin value)) :: voltage 2 "SouthKV" "South") :=
    south_hidden
  refine ⟨⟨hcommand 0, hcommand 1, ⟨Views.Alike.refl _ _, .nil,
      .cons (.inr ⟨⟨_, List.mem_singleton_self _, rfl, hbreaker⟩, rfl, rfl⟩) .nil, .none⟩, ?_⟩,
    hpoint 68, hpoint 69, alikeFor_points ⟨⟨_, _, rfl, rfl⟩, hvalue 68, hvalue 69, rfl, rfl⟩, ?_⟩
  · intro h
    have htold := congrArg toldValue h
    have h0 : toldValue (answer reader operator moment .read (southCommand 0) readCommand) =
        some (.fin 0) := by decide
    have h1 : toldValue (answer reader operator moment .read (southCommand 1) readCommand) =
        some (.fin 1) := by decide
    rw [h0, h1] at htold
    exact absurd htold (by decide)
  · intro h
    have htold := congrArg (Option.map fun r => r.serviceResult.code) h
    have h68 : (answer reader operator moment .read (southPoint 68) (readByValue 69)).map
        (fun r => r.serviceResult.code) = some 0x00a50000 := by decide
    have h69 : (answer reader operator moment .read (southPoint 69) (readByValue 69)).map
        (fun r => r.serviceResult.code) = some 0 := by decide
    rw [h68, h69] at htold
    exact absurd htold (by decide)

end Samples

end Exact

end JsonScada.WebServer
