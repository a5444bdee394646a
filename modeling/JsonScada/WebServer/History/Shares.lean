import JsonScada.Library.Selection
import JsonScada.Library.Views
import JsonScada.WebServer.Read.Groups
import JsonScada.WebServer.Write.Commands

-- The rows that every tag of a history request is served.
namespace JsonScada.WebServer

open JsonScada.Library
open JsonScada.Processor (Document Value)

section Property

variable (env : Reader)

-- The order of tags in the historian.
structure Reader.Collates (env : Reader) : Prop where
  total : ∀ t t', env.collate t t' = true ∨ env.collate t' t = true
  trans : ∀ t t' t'', env.collate t t' = true → env.collate t' t'' = true → env.collate t t'' = true
  antisymm : ∀ t t', env.collate t t' = true → env.collate t' t = true → t = t'

-- A node that asks for the values of a tag.
structure AsksFor (node : Value) (t : String) : Prop where
  hasAttribute : isIn "AttributeId" (some node) = some true
  attributeId : looseEq env.js (optionalMember (some node) "AttributeId") AttributeId.value = true
  idType : isNumber (optionalMember (optionalMember (some node) "NodeId") "IdType")
    opcIdTypeString = true
  id : optionalMember (optionalMember (some node) "NodeId") "Id" = some (.string t)

def rowsInRange (rows : List HistRow) (start stop : ℤ) : List HistRow :=
  rows.filter fun r => start ≤ r.timeTag && r.timeTag ≤ stop

-- The first rows of a tag by time, as they are told.
def FirstRows (rows : List HistRow) (t : String) (count : ℕ) (server source : Bool)
    (data : List Value) : Prop :=
  ∃ ordered : List HistRow, ordered.Perm (rows.filter (·.tag = t)) ∧
    (ordered.Pairwise fun r r' => r.timeTag ≤ r'.timeTag) ∧
      data = (ordered.take count).map (rowData server source)

-- Each result holds the first rows of the tag that its node asks for.
def ServesEveryTag (s : Session) (m : Moment) (db : Database) (rows : List HistRow)
    (nodes : List Value) (tags : List String) (start stop : ℤ) (n : ℕ) (server source : Bool) :
    Prop :=
  ∀ results, (readValues env s m db nodes tags start stop (.number (.fin n)) server source).results =
      some results →
    List.Forall₂ (fun node result => ∀ t ∈ allowedTags s db tags, AsksFor env node t →
        ∃ data, optionalMember (some result) "HistoryData" = some (.array data) ∧
          FirstRows (rowsInRange rows start stop) t (min n maxHistoryRowsPerNode) server source data)
      (nodes.filter fun node => isIn "AttributeId" (some node) = some true) results

-- No tag has more rows than its share and all rows fit, or the tag that is sorted last is the
-- only one with more, and the others leave it exactly its share.
def WithinShares (rows : List HistRow) (tags : List String) (share limit : ℕ) : Prop :=
  (rows.length ≤ limit ∧ ∀ t ∈ tags, (rows.filter (·.tag = t)).length ≤ share) ∨
    ∃ last ∈ tags, (∀ r ∈ rows, env.collate r.tag last = true) ∧
      (∀ t ∈ tags, t ≠ last → (rows.filter (·.tag = t)).length ≤ share) ∧
        (rows.filter (·.tag ≠ last)).length + share = limit

end Property

section Blocks

variable {env : Reader}

-- The rows of the other tags that are sorted before those of a tag.
def before (env : Reader) (rows : List HistRow) (t : String) : ℕ :=
  (rows.filter fun r => r.tag ≠ t && env.collate r.tag t).length

-- The order of the query: by tag, and by time for each tag.
def RowOrder (env : Reader) (r r' : HistRow) : Prop :=
  if r.tag = r'.tag then r.timeTag ≤ r'.timeTag else env.collate r.tag r'.tag = true

instance (env : Reader) : DecidableRel (RowOrder env) := fun r r' =>
  inferInstanceAs (Decidable (if r.tag = r'.tag then r.timeTag ≤ r'.timeTag
    else env.collate r.tag r'.tag = true))

theorem rowOrder_total (hcollate : env.Collates) (r r' : HistRow) :
    RowOrder env r r' ∨ RowOrder env r' r := by
  unfold RowOrder
  by_cases htag : r.tag = r'.tag
  · rw [if_pos htag, if_pos htag.symm]
    exact le_total _ _
  · rw [if_neg htag, if_neg (Ne.symm htag)]
    exact hcollate.total _ _

theorem rowOrder_trans (hcollate : env.Collates) (r r' r'' : HistRow) (h : RowOrder env r r')
    (h' : RowOrder env r' r'') : RowOrder env r r'' := by
  unfold RowOrder at *
  by_cases htag : r.tag = r'.tag
  · rw [if_pos htag] at h
    rw [← htag] at h'
    by_cases htag' : r.tag = r''.tag
    · rw [if_pos htag'] at h' ⊢
      exact h.trans h'
    · rwa [if_neg htag'] at h' ⊢
  · rw [if_neg htag] at h
    by_cases htag' : r'.tag = r''.tag
    · rwa [← htag', if_neg htag]
    · rw [if_neg htag'] at h'
      have hne : r.tag ≠ r''.tag := fun heq => htag (hcollate.antisymm _ _ h (heq ▸ h'))
      rw [if_neg hne]
      exact hcollate.trans _ _ _ h h'

theorem rowOrder_tag {r r' : HistRow} (h : RowOrder env r r') :
    r.tag = r'.tag ∨ env.collate r.tag r'.tag = true := by
  unfold RowOrder at h
  by_cases htag : r.tag = r'.tag
  · exact .inl htag
  · rw [if_neg htag] at h
    exact .inr h

-- Of every tag the first rows are found, as many as the rows before them leave of the limit.
theorem served_rows (hcollate : env.Collates) (rows : List HistRow) (t : String) (limit : ℕ) :
    ∃ ordered : List HistRow, ordered.Perm (rows.filter (·.tag = t)) ∧
      (ordered.Pairwise fun r r' => r.timeTag ≤ r'.timeTag) ∧
      ((rows.insertionSort (RowOrder env)).take limit).filter (·.tag = t) =
        ordered.take (limit - before env rows t) := by
  have htotal : Std.Total (RowOrder env) := ⟨rowOrder_total hcollate⟩
  have htrans : IsTrans HistRow (RowOrder env) := ⟨rowOrder_trans hcollate⟩
  have hsorted := List.pairwise_insertionSort (RowOrder env) rows
  have hperm := List.perm_insertionSort (RowOrder env) rows
  refine ⟨(rows.insertionSort (RowOrder env)).filter (·.tag = t), hperm.filter _, ?_, ?_⟩
  · refine (hsorted.filter _).imp_of_mem fun {r r'} hr hr' hrow => ?_
    have hr := (List.mem_filter.mp hr).2
    have hr' := (List.mem_filter.mp hr').2
    rw [decide_eq_true_eq] at hr hr'
    rwa [RowOrder, if_pos (hr.trans hr'.symm)] at hrow
  · have hlength := (hperm.filter fun r => r.tag ≠ t && env.collate r.tag t).length_eq
    rw [before, ← hlength]
    exact Views.filter_take_block hcollate.trans hcollate.antisymm
      (hsorted.imp fun hrow => rowOrder_tag hrow) limit

end Blocks

section Counts

variable {env : Reader} {rows : List HistRow} {tags : List String} {share limit : ℕ}

theorem length_filter_add_le {p q w : HistRow → Bool}
    (hp : ∀ r ∈ rows, p r = true → w r = true ∧ q r = false)
    (hq : ∀ r ∈ rows, q r = true → w r = true) :
    (rows.filter p).length + (rows.filter q).length ≤ (rows.filter w).length := by
  induction rows with
  | nil => simp
  | cons r rows ih =>
      have ih := ih (fun r hr => hp r (List.mem_cons_of_mem _ hr))
        fun r hr => hq r (List.mem_cons_of_mem _ hr)
      have hpr := hp r List.mem_cons_self
      have hqr := hq r List.mem_cons_self
      simp only [List.filter_cons]
      cases hpv : p r <;> cases hqv : q r <;> cases hwv : w r <;> simp_all <;> omega

variable (env rows) in
-- The rows of a tag come behind those before it.
theorem before_add_le (t : String) :
    before env rows t + (rows.filter (·.tag = t)).length ≤ rows.length := by
  have h : before env rows t + (rows.filter (·.tag = t)).length ≤
      (rows.filter fun _ => true).length :=
    length_filter_add_le (by simp +contextual) (by simp)
  rwa [List.filter_true] at h

theorem before_last {last : String} (hlast : ∀ r ∈ rows, env.collate r.tag last = true) :
    before env rows last = (rows.filter (·.tag ≠ last)).length := by
  unfold before
  rw [List.filter_congr fun r hr => by rw [hlast r hr, Bool.and_true]]

-- The rows of another tag, and those before it, come before the last tag.
theorem before_add_le_before (hcollate : env.Collates) {last t : String}
    (hlast : ∀ r ∈ rows, env.collate r.tag last = true) (hne : t ≠ last)
    (hsome : (rows.filter (·.tag = t)).length ≠ 0) :
    before env rows t + (rows.filter (·.tag = t)).length ≤ before env rows last := by
  rw [before_last hlast]
  obtain ⟨row, hrow⟩ := List.exists_mem_of_length_pos (Nat.pos_of_ne_zero hsome)
  obtain ⟨hmem, htag⟩ := List.mem_filter.mp hrow
  have htlast : env.collate t last = true := by
    rw [← of_decide_eq_true htag]
    exact hlast row hmem
  refine length_filter_add_le (fun r hr h => ?_) fun r hr h => ?_
  · rw [Bool.and_eq_true, decide_eq_true_eq] at h
    refine ⟨decide_eq_true fun heq => ?_, decide_eq_false h.1⟩
    exact hne (hcollate.antisymm _ _ htlast (heq ▸ h.2))
  · exact decide_eq_true fun heq => hne ((of_decide_eq_true h).symm.trans heq)

theorem shares_of_within (hcollate : env.Collates)
    (h : WithinShares env rows tags share limit) {t : String} (ht : t ∈ tags) :
    min (rows.filter (·.tag = t)).length (limit - before env rows t) =
      min (rows.filter (·.tag = t)).length share := by
  have hall := before_add_le env rows t
  rcases h with ⟨hfit, hshare⟩ | ⟨last, -, hlast, hshare, hlimit⟩
  · have := hshare t ht
    omega
  · rw [← before_last hlast] at hlimit
    by_cases heq : t = last
    · rw [heq]
      omega
    · by_cases hsome : (rows.filter (·.tag = t)).length = 0
      · omega
      · have := before_add_le_before hcollate hlast heq hsome
        have := hshare t ht heq
        omega

-- There is a row that no row is sorted behind.
theorem exists_greatest (le : String → String → Bool)
    (htotal : ∀ t t', le t t' = true ∨ le t' t = true)
    (htrans : ∀ t t' t'', le t t' = true → le t' t'' = true → le t t'' = true)
    (hrows : rows ≠ []) : ∃ row ∈ rows, ∀ r ∈ rows, le r.tag row.tag = true := by
  have hrefl (t : String) : le t t = true := (htotal t t).elim (fun h => h) fun h => h
  induction rows with
  | nil => exact absurd rfl hrows
  | cons r rows ih =>
      by_cases hnone : rows = []
      · exact ⟨r, List.mem_cons_self, by simp [hnone, hrefl]⟩
      · obtain ⟨row, hmem, hgreatest⟩ := ih hnone
        rcases htotal r.tag row.tag with hle | hle
        · exact ⟨row, List.mem_cons_of_mem _ hmem, List.forall_mem_cons.mpr ⟨hle, hgreatest⟩⟩
        · refine ⟨r, List.mem_cons_self, List.forall_mem_cons.mpr ⟨hrefl _, fun r' hr' => ?_⟩⟩
          exact htrans _ _ _ (hgreatest r' hr') hle

theorem exists_first (hcollate : env.Collates) (hrows : rows ≠ []) :
    ∃ row ∈ rows, before env rows row.tag = 0 := by
  obtain ⟨row, hmem, hleast⟩ := exists_greatest (fun t t' => env.collate t' t)
    (fun t t' => hcollate.total t' t) (fun t t' t'' h h' => hcollate.trans t'' t' t h' h) hrows
  refine ⟨row, hmem, ?_⟩
  rw [before, List.length_eq_zero_iff, List.filter_eq_nil_iff]
  intro r hr h
  rw [Bool.and_eq_true, decide_eq_true_eq] at h
  exact h.1 (hcollate.antisymm _ _ h.2 (hleast r hr))

theorem length_filter_pos {row : HistRow} (h : row ∈ rows) :
    0 < (rows.filter (·.tag = row.tag)).length :=
  List.length_pos_of_mem (List.mem_filter.mpr ⟨h, decide_eq_true rfl⟩)

theorem within_of_shares (hcollate : env.Collates) (htags : ∀ r ∈ rows, r.tag ∈ tags)
    (hlimit : rows ≠ [] → 0 < limit)
    (h : ∀ t ∈ tags, min (rows.filter (·.tag = t)).length (limit - before env rows t) =
      min (rows.filter (·.tag = t)).length share) :
    WithinShares env rows tags share limit := by
  by_cases hfit : rows.length ≤ limit
  · refine .inl ⟨hfit, fun t ht => ?_⟩
    have hall := before_add_le env rows t
    have := h t ht
    omega
  · have hrows : rows ≠ [] := by
      rintro rfl
      exact hfit (Nat.zero_le _)
    -- the first rows are served, so that a share is not empty
    have hshare : 0 < share := by
      obtain ⟨row, hmem, hfirst⟩ := exists_first hcollate hrows
      have hpos := length_filter_pos hmem
      have hserved := h row.tag (htags row hmem)
      have := hlimit hrows
      omega
    obtain ⟨row, hmem, hlast⟩ := exists_greatest env.collate hcollate.total hcollate.trans hrows
    have hbefore := before_last hlast
    have hrest : rows.length = (rows.filter (·.tag = row.tag)).length +
        (rows.filter (·.tag ≠ row.tag)).length := by
      rw [List.length_eq_length_filter_add (·.tag = row.tag)]
      simp
    have hpos := length_filter_pos hmem
    have hserved := h row.tag (htags row hmem)
    refine .inr ⟨row.tag, htags row hmem, hlast, fun t ht hne => ?_, by omega⟩
    by_cases hsome : (rows.filter (·.tag = t)).length = 0
    · omega
    · have := before_add_le_before hcollate hlast hne hsome
      have := h t ht
      omega

end Counts

section Answers

variable {env : Reader} {server source : Bool}

theorem isIn_of_optionalMember {v : Option Value} {key : String} {held : Value}
    (h : optionalMember v key = some held) : isIn key v = some true := by
  unfold optionalMember member at h
  split at h
  · cases h
  · cases h
  · simp only [Option.join_some] at h
    simp [isIn, Document.has, h]
  · cases h

-- A node is answered where it has an attribute.
theorem historyNode_answers (rows : List HistRow) (node : Value) :
    if isIn "AttributeId" (some node) = some true then
      ∃ result, historyNode env server source rows node = [result]
    else historyNode env server source rows node = [] := by
  unfold historyNode
  by_cases h : isIn "AttributeId" (some node) = some true
  · rw [if_pos h, if_neg (not_not.mpr h)]
    exact ⟨_, rfl⟩
  · rw [if_neg h, if_pos h]

-- A node that asks for a tag is told the rows of it that were found.
theorem historyNode_asked {node : Value} {t : String} (h : AsksFor env node t)
    (rows : List HistRow) :
    ∃ result, historyNode env server source rows node = [result] ∧
      optionalMember (some result) "HistoryData" =
        some (.array ((rows.filter (·.tag = t)).map (rowData server source))) := by
  have hid := isIn_of_optionalMember h.id
  have hasked : (looseEq env.js (optionalMember (some node) "AttributeId") AttributeId.value &&
      isNumber (optionalMember (optionalMember (some node) "NodeId") "IdType") opcIdTypeString &&
      isIn "Id" (optionalMember (some node) "NodeId") = some true) = true := by
    simp [h.attributeId, h.idType, hid]
  have hrows : (rows.filter fun r => strictEq (some (.string r.tag))
      (optionalMember (optionalMember (some node) "NodeId") "Id")) = rows.filter (·.tag = t) := by
    rw [h.id]
    rfl
  unfold historyNode
  simp only [h.hasAttribute, hasked, hrows]
  exact ⟨_, rfl, rfl⟩

-- The nodes that are answered, each with its result.
theorem forall₂_answers {f : Value → List Value} {p : Value → Bool} {P : Value → Value → Prop}
    (hf : ∀ node, if p node then ∃ result, f node = [result] else f node = [])
    (nodes : List Value) : List.Forall₂ P (nodes.filter p) (nodes.flatMap f) ↔
      ∀ node ∈ nodes, ∀ result, f node = [result] → P node result := by
  induction nodes with
  | nil => simp
  | cons node nodes ih =>
      rw [List.flatMap_cons, List.forall_mem_cons, ← ih]
      have hnode := hf node
      cases hp : p node with
      | true =>
          rw [hp, if_pos rfl] at hnode
          obtain ⟨result, hresult⟩ := hnode
          rw [List.filter_cons_of_pos hp, hresult, List.singleton_append, List.forall₂_cons]
          simp
      | false =>
          rw [hp, if_neg Bool.false_ne_true] at hnode
          rw [List.filter_cons_of_neg (Bool.not_eq_true _ ▸ hp), hnode, List.nil_append]
          simp

theorem readValues_results {s : Session} {m : Moment} {db : Database} {rows : List HistRow}
    (hrows : db.hist = some rows) {tags : List String} (hallowed : allowedTags s db tags ≠ [])
    {start stop : ℤ} (hdiffer : start ≠ stop) (nodes : List Value) (limit : Value) :
    (readValues env s m db nodes tags start stop limit server source).results =
      some (nodes.flatMap (historyNode env server source
        (rowsBetween env rows (allowedTags s db tags) start stop
          (rowLimit env limit (allowedTags s db tags))))) := by
  unfold readValues
  simp only [if_neg hallowed, hrows, if_neg hdiffer]

theorem asksFor_of_tagOfNode {node : Value} {ts : List String} {t : String}
    (h : tagOfNode env node = some ts) (ht : t ∈ ts) : AsksFor env node t := by
  have hnone {ts : List String} (h : some [] = some ts) : t ∉ ts := by
    rw [← Option.some.inj h]
    exact List.not_mem_nil
  unfold tagOfNode at h
  split at h
  · cases h
  · exact absurd ht (hnone h)
  · rename_i hattribute
    split_ifs at h with hvalue
    · exact absurd ht (hnone h)
    · split at h
      · dsimp only at h
        split at h
        · cases h
        · exact absurd ht (hnone h)
        · split at h
          · rename_i t' hid
            split_ifs at h with htype
            · rw [← Option.some.inj h, List.mem_singleton] at ht
              exact ⟨hattribute, by simpa using hvalue, htype, ht ▸ hid⟩
            · exact absurd ht (hnone h)
          · exact absurd ht (hnone h)
      · exact absurd ht (hnone h)

theorem exists_asksFor {nodes : List Value} {tags : List String}
    (h : tagsOfNodes env nodes = some tags) {t : String} (ht : t ∈ tags) :
    ∃ node ∈ nodes, AsksFor env node t := by
  obtain ⟨lists, hlists, rfl⟩ := Option.map_eq_some_iff.mp h
  obtain ⟨-, rfl⟩ := Selection.mapM_eq_some_iff.mp hlists
  obtain ⟨ts, hts, ht⟩ := List.mem_flatten.mp ht
  obtain ⟨node, hnode, htag⟩ := List.mem_filterMap.mp hts
  exact ⟨node, hnode, asksFor_of_tagOfNode htag ht⟩

theorem rowLimit_pos (limit : Value) {tags : List String} (htags : tags ≠ []) :
    0 < rowLimit env limit tags := by
  have hlength : 0 < tags.length := List.length_pos_of_ne_nil htags
  have hmax : 0 < maxHistoryRowsPerNode := by decide
  unfold rowLimit
  refine Nat.mul_pos ?_ hlength
  split
  · rename_i q _
    split_ifs with hq
    · refine lt_min ?_ hmax
      have hfloor : 0 < q.floor := Int.floor_pos.mpr hq
      omega
    · exact hmax
  · exact hmax

end Answers

section Request

variable {env : Reader} {s : Session} {m : Moment} {db : Database} {rows : List HistRow}
  {nodes : List Value} {tags : List String} {start stop : ℤ}

-- The rows that the query finds before it is limited.
def foundRows (rows : List HistRow) (tags : List String) (start stop : ℤ) : List HistRow :=
  (rowsInRange rows start stop).filter (·.tag ∈ tags)

theorem rowsBetween_eq (rows : List HistRow) (tags : List String) (start stop : ℤ) (limit : ℕ) :
    rowsBetween env rows tags start stop limit =
      ((foundRows rows tags start stop).insertionSort (RowOrder env)).take limit := by
  have hfound : foundRows rows tags start stop = rows.filter fun r =>
      r.tag ∈ tags && start ≤ r.timeTag && r.timeTag ≤ stop := by
    rw [foundRows, rowsInRange, List.filter_filter]
    simp only [Bool.and_assoc]
  rw [hfound]
  rfl

theorem foundRows_filter {t : String} (ht : t ∈ tags) :
    (foundRows rows tags start stop).filter (·.tag = t) =
      (rowsInRange rows start stop).filter (·.tag = t) := by
  rw [foundRows, List.filter_filter]
  refine List.filter_congr fun r _ => ?_
  by_cases htag : r.tag = t <;> simp [htag, ht]

-- A tag is told its first rows where as many of them are left of the limit as it has to have.
theorem firstRows_iff (hcollate : env.Collates) {t : String} (ht : t ∈ tags) (count limit : ℕ)
    (server source : Bool) :
    let found := foundRows rows tags start stop
    FirstRows (rowsInRange rows start stop) t count server source
        (((rowsBetween env rows tags start stop limit).filter (·.tag = t)).map
          (rowData server source)) ↔
      min (found.filter (·.tag = t)).length (limit - before env found t) =
        min (found.filter (·.tag = t)).length count := by
  dsimp only
  obtain ⟨ordered, hperm, htime, hserved⟩ :=
    served_rows hcollate (foundRows rows tags start stop) t limit
  have hlength := hperm.length_eq
  rw [rowsBetween_eq, hserved]
  constructor
  · rintro ⟨ordered', hperm', -, heq⟩
    have hlength' := hperm'.length_eq
    rw [← foundRows_filter ht] at hlength'
    have hdata := congrArg List.length heq
    rw [List.length_map, List.length_map, List.length_take, List.length_take] at hdata
    omega
  · intro h
    rw [foundRows_filter ht] at hperm
    refine ⟨ordered, hperm, htime, ?_⟩
    rw [List.take_eq_take_iff.mpr]
    omega

theorem mem_tags_of_allowed {t : String} (h : t ∈ allowedTags s db tags) : t ∈ tags := by
  unfold allowedTags at h
  split_ifs at h
  · exact (List.mem_filter.mp h).1
  · exact h

-- Every tag is told what it has to be, tag by tag.
theorem servesEveryTag_iff_tags (hcollate : env.Collates)
    (htags : tagsOfNodes env nodes = some tags) (hrows : db.hist = some rows)
    (hallowed : allowedTags s db tags ≠ []) (hdiffer : start ≠ stop) (n : ℕ)
    (server source : Bool) :
    let found := foundRows rows (allowedTags s db tags) start stop
    ServesEveryTag env s m db rows nodes tags start stop n server source ↔
      ∀ t ∈ allowedTags s db tags, min (found.filter (·.tag = t)).length
        (rowLimit env (.number (.fin n)) (allowedTags s db tags) - before env found t) =
          min (found.filter (·.tag = t)).length (min n maxHistoryRowsPerNode) := by
  dsimp only
  unfold ServesEveryTag
  rw [readValues_results hrows hallowed hdiffer]
  simp only [Option.some.injEq, forall_eq']
  rw [forall₂_answers fun node => by simpa using historyNode_answers _ node]
  constructor
  · intro h t ht
    obtain ⟨node, hnode, hasks⟩ := exists_asksFor htags (mem_tags_of_allowed ht)
    obtain ⟨result, hresult, hdata⟩ := historyNode_asked hasks _
    obtain ⟨data, hdata', hfirst⟩ := h node hnode result hresult t ht hasks
    obtain rfl : _ = data := by simpa using hdata.symm.trans hdata'
    exact (firstRows_iff hcollate ht _ _ server source).mp hfirst
  · intro h node _ result hresult t ht hasks
    obtain ⟨result', hresult', hdata⟩ := historyNode_asked hasks _
    obtain rfl : result' = result := by simpa using hresult'.symm.trans hresult
    exact ⟨_, hdata, (firstRows_iff hcollate ht _ _ server source).mpr (h t ht)⟩

-- Every tag that is asked for is told its first rows: exactly when the rows of no tag are in
-- the way of those of another.
theorem servesEveryTag_iff (hcollate : env.Collates) (htags : tagsOfNodes env nodes = some tags)
    (hrows : db.hist = some rows) (hdiffer : start ≠ stop) (n : ℕ) (server source : Bool) :
    ServesEveryTag env s m db rows nodes tags start stop n server source ↔
      WithinShares env (foundRows rows (allowedTags s db tags) start stop) (allowedTags s db tags)
        (min n maxHistoryRowsPerNode)
        (rowLimit env (.number (.fin n)) (allowedTags s db tags)) := by
  by_cases hallowed : allowedTags s db tags = []
  · refine iff_of_true ?_ (.inl ?_)
    · intro results hresults
      unfold readValues at hresults
      dsimp only at hresults
      rw [if_pos hallowed] at hresults
      cases hresults
    · rw [hallowed]
      simp [foundRows]
  · refine (servesEveryTag_iff_tags hcollate htags hrows hallowed hdiffer n server source).trans ?_
    constructor
    · refine within_of_shares hcollate (fun r hr => ?_) fun _ => rowLimit_pos _ hallowed
      exact of_decide_eq_true (List.mem_filter.mp hr).2
    · exact fun h t ht => shares_of_within hcollate h ht

section Samples

theorem reader_collates : reader.Collates where
  total := fun t t' => by simpa [reader] using String.le_total t t'
  trans := fun t t' t'' h h' => by
    simp only [reader, decide_eq_true_eq] at h h' ⊢
    exact String.le_trans h h'
  antisymm := fun t t' h h' => by
    simp only [reader, decide_eq_true_eq] at h h'
    exact String.le_antisymm h h'

def measured (tag : String) (timeTag : ℤ) : HistRow := ⟨tag, .number (.fin 1), "000", timeTag, none⟩

def historian (rows : List HistRow) : Database where
  realtimeData := []
  soeData := []
  hist := some rows

def asking (tags : List String) : List Value :=
  tags.map fun t => .document [("AttributeId", .number (.fin 13)),
    ("NodeId", .document [("IdType", .number (.fin 1)), ("Id", .string t)])]

-- Two values of each tag, the first of them asked for.
theorem quiet_tags_served :
    ServesEveryTag reader commander moment
      (historian [measured "A" 1, measured "B" 2]) [measured "A" 1, measured "B" 2]
      (asking ["A", "B"]) ["A", "B"] 0 10 1 true true :=
  (servesEveryTag_iff reader_collates rfl rfl (by decide) 1 true true).mpr
    (.inl ⟨by decide +kernel, by decide⟩)

-- The values of a busy tag take those of the other one.
theorem busy_tag_in_the_way :
    ¬ServesEveryTag reader commander moment
      (historian [measured "A" 1, measured "A" 2, measured "B" 3])
      [measured "A" 1, measured "A" 2, measured "B" 3]
      (asking ["A", "B"]) ["A", "B"] 0 10 1 true true := by
  intro h
  have hserved := (servesEveryTag_iff_tags reader_collates rfl rfl (by decide) (by decide) 1 true
    true).mp h "B" (by decide)
  exact absurd hserved (by decide +kernel)

end Samples

end Request

end JsonScada.WebServer
