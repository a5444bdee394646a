import JsonScada.Library.Run
import JsonScada.Library.Worklist
import JsonScada.OpcUa.NodeId
import Mathlib.Data.List.DropRight
import Mathlib.Data.List.Nodup

-- Browsing the address space of a server.
namespace JsonScada.OpcUa.Client

section AddressSpace

inductive NodeClass where
  | objectClass
  | variableClass
  | methodClass
  | otherClass
deriving DecidableEq

-- ua.ReferenceDescription, as far as it is read.
structure Reference where
  nodeId : Option NodeId
  browseName : Option String
  nodeClass : NodeClass
  referenceTypeId : Option NodeId
deriving DecidableEq

-- The forward hierarchical references of a node, to objects, variables and methods.
abbrev AddressSpace := NodeId → List Reference

def kMaxSearchDepth : ℕ := 128
def idHasProperty : ℕ := 46

-- The type is told by its number alone.
def Reference.isProperty (ref : Reference) : Bool :=
  ref.referenceTypeId.any fun typ => typ.intId = idHasProperty

end AddressSpace

section Diagnostics

def ephemeralDiagnosticIDs : List ℕ := [2290, 3706, 3707, 3708]

def ephemeralDiagnosticNames : List String :=
  ["SessionsDiagnosticsSummary", "SessionDiagnosticsArray", "SessionSecurityDiagnosticsArray",
    "SubscriptionDiagnosticsArray"]

def segments (path : String) : List String := (path.toList.splitOn '/').map String.ofList

def onDiagnosticPath (path : String) : Bool :=
  (segments path).any fun seg => ephemeralDiagnosticNames.contains seg

def isEphemeralDiagnosticId (n : NodeId) : Bool :=
  match n.id with
  | .numeric k => n.ns = 0 && ephemeralDiagnosticIDs.contains k
  | _ => false

-- The address is the text of a node, from which the node is parsed again.
def isEphemeralDiagnostic (n : NodeId) (path : String) : Bool :=
  isEphemeralDiagnosticId n || onDiagnosticPath path

end Diagnostics

section Answers

inductive StatusCode where
  | good
  | badNoContinuationPoints
deriving DecidableEq

-- The bytes of a continuation point stand for the parts that the server has behind it, and no
-- bytes for none.
abbrev ContinuationPoint := List (List Reference)

structure BrowseResult where
  statusCode : StatusCode := .good
  references : List Reference
  continuationPoint : ContinuationPoint

def continuationPoints (results : List BrowseResult) : List ContinuationPoint :=
  (results.map BrowseResult.continuationPoint).filter (· ≠ [])

def mergeContinued : List BrowseResult → List BrowseResult → List BrowseResult
  | [], _ => []
  | r :: results, continued =>
      if r.continuationPoint = [] then r :: mergeContinued results continued
      else
        match continued with
        | [] => r :: results
        | c :: continued =>
            { r with
              references := r.references ++ c.references
              continuationPoint := c.continuationPoint } :: mergeContinued results continued

-- What a server says of one node: it has no continuation point left, or it gives the
-- references in parts.
inductive NodeAnswer where
  | refused
  | parts (first : List Reference) (rest : List (List Reference))

def NodeAnswer.result : NodeAnswer → BrowseResult
  | refused =>
      { statusCode := .badNoContinuationPoints, references := [], continuationPoint := [] }
  | parts first rest => { references := first, continuationPoint := rest }

def NodeAnswer.tells : NodeAnswer → List Reference → Bool
  | refused, _ => true
  | parts first rest, refs => first ++ rest.flatten = refs

-- The next part, with what is behind it.
def browseNextResult : ContinuationPoint → BrowseResult
  | [] => { references := [], continuationPoint := [] }
  | part :: rest => { references := part, continuationPoint := rest }

inductive BrowseAnswer where
  | results (answers : List NodeAnswer)
  | encodingLimit
  | error

end Answers

section Level

-- `refEntry` under its key, the text of its node. The entries stand in the order of their
-- discovery.
structure Entry where
  key : String
  ref : Reference
  path : String

def trimSlashes (path : String) : String := String.ofList (path.toList.rdropWhile (· = '/'))

structure Found where
  entries : List Entry
  nextNodes : List NodeId := []

def record (parentPath : String) (f : Found) (ref : Reference) : Found :=
  match ref.nodeId, ref.browseName with
  | some n, some name =>
      if f.entries.any fun e => e.key = n.text then f
      else
        let path := trimSlashes parentPath ++ "/" ++ name
        if isEphemeralDiagnostic n path then f
        else
          { entries := f.entries ++ [⟨n.text, ref, path⟩]
            nextNodes := if ref.isProperty then f.nextNodes else f.nextNodes ++ [n] }
  | _, _ => f

def parentPath (rootPath : String) (entries : List Entry) (n : NodeId) : String :=
  match entries.find? fun e => e.key = n.text with
  | some parent => parent.path
  | none => "/" ++ rootPath

def expandNode (rootPath : String) (f : Found) (browsed : NodeId × BrowseResult) : Found :=
  browsed.2.references.foldl (record (parentPath rootPath f.entries browsed.1)) f

def expandBatch (rootPath : String) (entries : List Entry) (batch : List NodeId)
    (results : List BrowseResult) : Found :=
  (batch.zip results).foldl (expandNode rootPath) { entries := entries }

def unprocessed (batch : List NodeId) (results : List BrowseResult) : List NodeId :=
  (batch.zip results).filterMap fun browsed =>
    if browsed.2.statusCode = .badNoContinuationPoints then some browsed.1 else none

end Level

section Run

-- Where browseFullAddressSpace stands: at the head of its loop, waiting for the answer to a
-- Browse or a BrowseNext, or at its end.
inductive Phase where
  | head
  | browsing
  | continuing (batch : List NodeId) (results : List BrowseResult)
      (cps : List ContinuationPoint) (refused : List NodeId)
  | returned
  | failed

structure State where
  maxNodesPerBrowse : ℕ
  searchDepth : ℕ := 0
  pending : List NodeId
  entries : List Entry := []
  phase : Phase := .head

-- A turn of the loop, and the answers of the server.
inductive Action where
  | turn
  | browse (answer : BrowseAnswer)
  | browseNext (ok : Bool)

def State.batch (s : State) : List NodeId :=
  if 0 < s.maxNodesPerBrowse then s.pending.take s.maxNodesPerBrowse else s.pending

variable (space : AddressSpace) (rootPath : String)

def endLevel (s : State) (batch : List NodeId) (results : List BrowseResult)
    (refused : List NodeId) : State :=
  let f := expandBatch rootPath s.entries batch results
  { s with
    entries := f.entries
    pending := s.pending ++ f.nextNodes ++ refused
    searchDepth := s.searchDepth + 1
    phase := .head }

-- The continuation points are drained before the level is built.
def drain (s : State) (batch : List NodeId) (results : List BrowseResult)
    (cps : List ContinuationPoint) (refused : List NodeId) : State :=
  if cps = [] then endLevel rootPath s batch results refused
  else { s with phase := .continuing batch results cps refused }

def step (s : State) : Action → Option State
  | .turn =>
      match s.phase with
      | .head =>
          if s.pending ≠ [] ∧ s.searchDepth < kMaxSearchDepth then some { s with phase := .browsing }
          else some { s with phase := .returned }
      | _ => none
  | .browse answer =>
      match s.phase, answer with
      | .browsing, .results answers =>
          if answers.length = s.batch.length ∧
              (s.batch.zip answers).all (fun a => a.2.tells (space a.1)) then
            let results := answers.map NodeAnswer.result
            some (drain rootPath { s with pending := s.pending.drop results.length } s.batch results
              (continuationPoints results) (unprocessed s.batch results))
          else none
      | .browsing, .encodingLimit =>
          -- half as many nodes, or the error
          let limit := (if s.maxNodesPerBrowse = 0 then s.batch.length else s.maxNodesPerBrowse) / 2
          some { s with
            maxNodesPerBrowse := limit
            phase := if limit < 1 then .failed else .browsing }
      | .browsing, .error => some { s with phase := .failed }
      | _, _ => none
  | .browseNext ok =>
      match s.phase with
      | .continuing batch results cps refused =>
          if ok then
            let continued := cps.map browseNextResult
            some (drain rootPath s batch (mergeContinued results continued)
              (continuationPoints continued) refused)
          else
            -- the error is logged, and what is still behind the points is left out
            some (endLevel rootPath s batch results refused)
      | _ => none

def start (maxNodesPerBrowse : ℕ) (n : NodeId) : State where
  maxNodesPerBrowse := maxNodesPerBrowse
  pending := [n]

end Run

section Paths

theorem segments_append (path name : String) :
    segments (path ++ "/" ++ name) = segments path ++ segments name := by
  have hlist : (path ++ "/" ++ name).toList = path.toList ++ '/' :: name.toList := by
    rw [String.toList_append, String.toList_append, List.append_assoc]
    rfl
  rw [segments, hlist, List.splitOn_append_cons_self, List.map_append]
  rfl

theorem onDiagnosticPath_append (path name : String) :
    onDiagnosticPath (path ++ "/" ++ name) = (onDiagnosticPath path || onDiagnosticPath name) := by
  rw [onDiagnosticPath, segments_append, List.any_append]
  rfl

theorem any_slashes {p : List Char → Bool} (hempty : p [] = false) {cs : List Char}
    (hcs : ∀ c ∈ cs, c = '/') : (cs.splitOn '/').any p = false := by
  induction cs with
  | nil => simp [hempty]
  | cons c cs ih =>
      obtain rfl := hcs c List.mem_cons_self
      have hsplit := List.splitOn_append_cons_self (a := '/') [] cs
      rw [List.nil_append] at hsplit
      rw [hsplit, List.any_append, ih fun d hd => hcs d (List.mem_cons_of_mem _ hd)]
      simp [hempty]

theorem any_append_slashes {p : List Char → Bool} (hempty : p [] = false) (xs : List Char)
    {cs : List Char} (hcs : ∀ c ∈ cs, c = '/') :
    ((xs ++ cs).splitOn '/').any p = (xs.splitOn '/').any p := by
  cases cs with
  | nil => rw [List.append_nil]
  | cons c cs =>
      obtain rfl := hcs c List.mem_cons_self
      rw [List.splitOn_append_cons_self, List.any_append,
        any_slashes hempty fun d hd => hcs d (List.mem_cons_of_mem _ hd), Bool.or_false]

theorem onDiagnosticPath_trimSlashes (path : String) :
    onDiagnosticPath (trimSlashes path) = onDiagnosticPath path := by
  have hslashes : ∀ c ∈ path.toList.rtakeWhile (· = '/'), c = '/' := by
    intro c hc
    exact of_decide_eq_true (List.mem_rtakeWhile_imp (p := fun c => decide (c = '/')) hc)
  have hwhole := @List.rdropWhile_append_rtakeWhile _ (fun c => decide (c = '/')) path.toList
  unfold onDiagnosticPath segments trimSlashes
  rw [String.toList_ofList, List.any_map, List.any_map]
  conv_rhs => rw [← hwhole]
  exact (any_append_slashes (by decide) _ hslashes).symm

end Paths

section Record

variable {parent : String} {f : Found} {ref : Reference}

-- There is nothing to record for a reference.
def known (entries : List Entry) (ref : Reference) : Bool :=
  match ref.nodeId, ref.browseName with
  | some n, some name => entries.any (fun e => e.key = n.text) || isEphemeralDiagnostic n name
  | _, _ => true

theorem known_iff {entries : List Entry} {ref : Reference} {n : NodeId} {name : String}
    (hn : ref.nodeId = some n) (hname : ref.browseName = some name) :
    known entries ref = true ↔
      (∃ e ∈ entries, e.key = n.text) ∨ isEphemeralDiagnostic n name = true := by
  simp only [known, hn, hname, Bool.or_eq_true, List.any_eq_true, decide_eq_true_eq]

theorem known_append {entries : List Entry} {ref : Reference} (h : known entries ref = true)
    (more : List Entry) : known (entries ++ more) ref = true := by
  unfold known at h ⊢
  split at h
  · rw [List.any_append]
    simp only [Bool.or_eq_true] at h ⊢
    exact h.imp_left .inl
  · rfl

-- What is done for a reference: nothing, where it has no node, leads to one that is recorded
-- or to one that is excluded, and else a new entry.
theorem record_cases (parent : String) (f : Found) (ref : Reference) :
    (record parent f ref = f ∧
        (onDiagnosticPath parent = false → known f.entries ref = true)) ∨
      ∃ n name, ref.nodeId = some n ∧ ref.browseName = some name ∧
        (∀ e ∈ f.entries, e.key ≠ n.text) ∧
        onDiagnosticPath (trimSlashes parent ++ "/" ++ name) = false ∧
        record parent f ref =
          { entries := f.entries ++ [⟨n.text, ref, trimSlashes parent ++ "/" ++ name⟩]
            nextNodes := if ref.isProperty then f.nextNodes else f.nextNodes ++ [n] } := by
  cases hn : ref.nodeId with
  | none => exact .inl ⟨by simp only [record, hn], fun _ => by simp only [known, hn]⟩
  | some n =>
      cases hname : ref.browseName with
      | none =>
          exact .inl ⟨by simp only [record, hn, hname], fun _ => by simp only [known, hn, hname]⟩
      | some name =>
          simp only [record, hn, hname, known]
          by_cases hseen : (f.entries.any fun e => e.key = n.text) = true
          · exact .inl ⟨if_pos hseen, fun _ => by rw [hseen, Bool.true_or]⟩
          · have hnew : ∀ e ∈ f.entries, e.key ≠ n.text := by
              intro e he hkey
              exact hseen (List.any_eq_true.mpr ⟨e, he, by simpa using hkey⟩)
            rw [if_neg hseen]
            by_cases hdiag : isEphemeralDiagnostic n (trimSlashes parent ++ "/" ++ name) = true
            · refine .inl ⟨if_pos hdiag, fun hclean => ?_⟩
              rw [isEphemeralDiagnostic, onDiagnosticPath_append, onDiagnosticPath_trimSlashes,
                hclean, Bool.false_or] at hdiag
              rw [isEphemeralDiagnostic, hdiag, Bool.or_true]
            · refine .inr ⟨n, name, rfl, rfl, hnew, ?_, if_neg hdiag⟩
              rw [isEphemeralDiagnostic, Bool.or_eq_true, not_or] at hdiag
              exact Bool.eq_false_iff.mpr hdiag.2

theorem entries_record (parent : String) (f : Found) (ref : Reference) :
    ∃ more, (record parent f ref).entries = f.entries ++ more := by
  rcases record_cases parent f ref with ⟨heq, -⟩ | ⟨n, name, -, -, -, -, heq⟩
  · exact ⟨[], by rw [heq, List.append_nil]⟩
  · exact ⟨_, by rw [heq]⟩

theorem known_record (hclean : onDiagnosticPath parent = false) :
    known (record parent f ref).entries ref = true := by
  rcases record_cases parent f ref with ⟨heq, hknown⟩ | ⟨n, name, hn, hname, -, -, heq⟩
  · rw [heq]
    exact hknown hclean
  · rw [known_iff hn hname, heq]
    exact .inl ⟨_, List.mem_append_right _ (List.mem_singleton_self _), rfl⟩

theorem entries_foldl_record (parent : String) (f : Found) (refs : List Reference) :
    ∃ more, (refs.foldl (record parent) f).entries = f.entries ++ more := by
  induction refs generalizing f with
  | nil => exact ⟨[], (List.append_nil _).symm⟩
  | cons ref refs ih =>
      obtain ⟨more, hmore⟩ := entries_record parent f ref
      obtain ⟨rest, hrest⟩ := ih (record parent f ref)
      exact ⟨more ++ rest, by rw [List.foldl_cons, hrest, hmore, List.append_assoc]⟩

-- Every reference of a node is known behind it.
theorem known_foldl_record (hclean : onDiagnosticPath parent = false) {refs : List Reference}
    (href : ref ∈ refs) : known (refs.foldl (record parent) f).entries ref = true := by
  induction refs generalizing f with
  | nil => cases href
  | cons ref' refs ih =>
      rcases List.mem_cons.mp href with rfl | href
      · obtain ⟨more, hmore⟩ := entries_foldl_record parent (record parent f ref) refs
        rw [List.foldl_cons, hmore]
        exact known_append (known_record hclean) more
      · exact ih href

theorem entries_foldl_expandNode (rootPath : String) (f : Found)
    (browsed : List (NodeId × BrowseResult)) :
    ∃ more, (browsed.foldl (expandNode rootPath) f).entries = f.entries ++ more := by
  induction browsed generalizing f with
  | nil => exact ⟨[], (List.append_nil _).symm⟩
  | cons b browsed ih =>
      obtain ⟨more, hmore⟩ :=
        entries_foldl_record (parentPath rootPath f.entries b.1) f b.2.references
      obtain ⟨rest, hrest⟩ := ih (expandNode rootPath f b)
      refine ⟨more ++ rest, ?_⟩
      rw [List.foldl_cons, hrest, expandNode, hmore, List.append_assoc]

end Record

section Continued

-- What a result has told of the references of its node so far.
def BrowseResult.tells (r : BrowseResult) (refs : List Reference) : Prop :=
  r.statusCode = .badNoContinuationPoints ∧ r.references = [] ∧ r.continuationPoint = [] ∨
    r.statusCode = .good ∧ r.references ++ r.continuationPoint.flatten = refs

theorem tells_result {a : NodeAnswer} {refs : List Reference} (h : a.tells refs = true) :
    a.result.tells refs := by
  cases a with
  | refused => exact .inl ⟨rfl, rfl, rfl⟩
  | parts first rest => exact .inr ⟨rfl, of_decide_eq_true h⟩

theorem statusCode_mergeContinued (results continued : List BrowseResult) :
    (mergeContinued results continued).map BrowseResult.statusCode =
      results.map BrowseResult.statusCode := by
  induction results generalizing continued with
  | nil => rfl
  | cons r results ih =>
      unfold mergeContinued
      split_ifs
      · rw [List.map_cons, List.map_cons, ih]
      · cases continued with
        | nil => rfl
        | cons c continued =>
            simp only [List.map_cons]
            rw [ih]

theorem continuationPoints_cons (r : BrowseResult) (results : List BrowseResult) :
    continuationPoints (r :: results) =
      if r.continuationPoint = [] then continuationPoints results
      else r.continuationPoint :: continuationPoints results := by
  by_cases h : r.continuationPoint = [] <;> simp [continuationPoints, h]

theorem mergeContinued_skip {r : BrowseResult} (h : r.continuationPoint = [])
    (results continued : List BrowseResult) :
    mergeContinued (r :: results) continued = r :: mergeContinued results continued := by
  cases continued <;> simp [mergeContinued, h]

theorem mergeContinued_cons {r : BrowseResult} (h : r.continuationPoint ≠ [])
    (results : List BrowseResult) (c : BrowseResult) (continued : List BrowseResult) :
    mergeContinued (r :: results) (c :: continued) =
      { r with
        references := r.references ++ c.references
        continuationPoint := c.continuationPoint } :: mergeContinued results continued := by
  simp [mergeContinued, h]

-- The answers to BrowseNext come in the order of the results that they continue.
theorem continuationPoints_mergeContinued (results : List BrowseResult) :
    continuationPoints (mergeContinued results ((continuationPoints results).map browseNextResult)) =
      continuationPoints ((continuationPoints results).map browseNextResult) := by
  induction results with
  | nil => rfl
  | cons r results ih =>
      by_cases hcp : r.continuationPoint = []
      · rw [continuationPoints_cons, if_pos hcp, mergeContinued_skip hcp, continuationPoints_cons,
          if_pos hcp, ih]
      · rw [continuationPoints_cons r, if_neg hcp, List.map_cons, mergeContinued_cons hcp,
          continuationPoints_cons, continuationPoints_cons, ih]

theorem tells_browseNext {r : BrowseResult} {refs : List Reference} (h : r.tells refs)
    (hcp : r.continuationPoint ≠ []) :
    BrowseResult.tells { r with
      references := r.references ++ (browseNextResult r.continuationPoint).references
      continuationPoint := (browseNextResult r.continuationPoint).continuationPoint } refs := by
  rcases h with ⟨-, -, hnone⟩ | ⟨hgood, htells⟩
  · exact absurd hnone hcp
  · refine .inr ⟨hgood, ?_⟩
    cases hc : r.continuationPoint with
    | nil => exact absurd hc hcp
    | cons part rest =>
        rw [hc, List.flatten_cons] at htells
        simpa [browseNextResult] using htells

theorem tells_mergeContinued {space : AddressSpace} {batch : List NodeId}
    {results : List BrowseResult}
    (h : List.Forall₂ (fun n r => BrowseResult.tells r (space n)) batch results) :
    List.Forall₂ (fun n r => BrowseResult.tells r (space n)) batch
      (mergeContinued results ((continuationPoints results).map browseNextResult)) := by
  induction h with
  | nil => exact .nil
  | @cons n r batch results hr _ ih =>
      by_cases hcp : r.continuationPoint = []
      · rw [continuationPoints_cons, if_pos hcp, mergeContinued_skip hcp]
        exact .cons hr ih
      · rw [continuationPoints_cons, if_neg hcp, List.map_cons, mergeContinued_cons hcp]
        exact .cons (tells_browseNext hr hcp) ih

end Continued

section Keyed

open JsonScada.Library

-- Each entry is under the text of its node, and under no other key.
structure Keyed (entries : List Entry) : Prop where
  once : (entries.map Entry.key).Nodup
  text : ∀ e ∈ entries, e.ref.nodeId.map NodeId.text = some e.key

theorem Keyed.record {f : Found} (h : Keyed f.entries) (parent : String) (ref : Reference) :
    Keyed (record parent f ref).entries := by
  rcases record_cases parent f ref with ⟨heq, -⟩ | ⟨n, name, hn, -, hnew, -, heq⟩
  · rw [heq]
    exact h
  · rw [heq]
    refine ⟨?_, ?_⟩ <;> dsimp only
    · rw [List.map_append, List.nodup_append]
      refine ⟨h.once, List.nodup_singleton _, ?_⟩
      rintro a ha b hb rfl
      obtain ⟨e, he, rfl⟩ := List.mem_map.mp ha
      exact hnew e he (List.mem_singleton.mp hb)
    · intro e he
      rcases List.mem_append.mp he with he | he
      · exact h.text e he
      · obtain rfl := List.mem_singleton.mp he
        rw [hn, Option.map_some]

theorem Keyed.foldl_record {f : Found} (h : Keyed f.entries) (parent : String)
    (refs : List Reference) : Keyed (refs.foldl (Client.record parent) f).entries := by
  induction refs generalizing f with
  | nil => exact h
  | cons ref refs ih => exact ih (h.record parent ref)

theorem Keyed.foldl_expandNode (rootPath : String) {f : Found} (h : Keyed f.entries)
    (batch : List (NodeId × BrowseResult)) :
    Keyed (batch.foldl (expandNode rootPath) f).entries := by
  induction batch generalizing f with
  | nil => exact h
  | cons x batch ih => exact ih (h.foldl_record _ _)

theorem Keyed.drain {rootPath : String} {s : State} (h : Keyed s.entries) (batch : List NodeId)
    (results : List BrowseResult) (cps : List ContinuationPoint) (refused : List NodeId) :
    Keyed (drain rootPath s batch results cps refused).entries := by
  unfold Client.drain
  split_ifs
  · exact Keyed.foldl_expandNode rootPath (f := { entries := s.entries }) h _
  · exact h

theorem Keyed.step {space : AddressSpace} {rootPath : String} {s s' : State} {a : Action}
    (h : Keyed s.entries) (hstep : step space rootPath s a = some s') : Keyed s'.entries := by
  cases a with
  | turn =>
      simp only [Client.step] at hstep
      split at hstep
      · split_ifs at hstep <;> obtain rfl := Option.some.inj hstep <;> exact h
      · cases hstep
  | browse answer =>
      simp only [Client.step] at hstep
      split at hstep
      · split_ifs at hstep
        obtain rfl := Option.some.inj hstep
        apply Keyed.drain
        exact h
      · obtain rfl := Option.some.inj hstep
        exact h
      · obtain rfl := Option.some.inj hstep
        exact h
      · cases hstep
  | browseNext ok =>
      simp only [Client.step] at hstep
      split at hstep
      · split_ifs at hstep <;> obtain rfl := Option.some.inj hstep
        · exact h.drain _ _ _ _
        · exact Keyed.foldl_expandNode rootPath (f := { entries := s.entries }) h _
      · cases hstep

-- In every run, whatever the server answers.
theorem keyed_of_browse {space : AddressSpace} {rootPath : String} {limit : ℕ} {origin : NodeId}
    {as : List Action} {s : State}
    (hrun : Run.run (step space rootPath) (start limit origin) as = some s) : Keyed s.entries :=
  have hstart : Keyed (start limit origin).entries :=
    ⟨List.nodup_nil, fun _ he => absurd he List.not_mem_nil⟩
  Run.preserved (fun s => Keyed s.entries) (fun _ _ _ h hs => h.step hs) hstart hrun

end Keyed

end JsonScada.OpcUa.Client
