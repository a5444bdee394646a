import JsonScada.Library.Run
import Mathlib.Data.List.Nodup
import JsonScada.OpcUa.Client.Browse

namespace JsonScada.OpcUa.Client

open JsonScada.Library
open JsonScada.Library.Worklist (Exhausted Frontier)
open Relation (ReflTransGen)

section Purpose

variable (space : AddressSpace) (rootPath : String) (origin : NodeId)

def typeHasProperty : NodeId := ⟨0, .numeric idHasProperty⟩

-- The node of a HasProperty reference is a property.
def Property (m : NodeId) : Prop :=
  ∃ n, ∃ ref ∈ space n, ref.nodeId = some m ∧ ref.referenceTypeId = some typeHasProperty

-- A reference leads on to a node that is not excluded.
def Finds (n m : NodeId) : Prop :=
  onDiagnosticPath ("/" ++ rootPath) = false ∧ ∃ ref ∈ space n, ref.nodeId = some m ∧
    ∃ name, ref.browseName = some name ∧ isEphemeralDiagnostic m name = false

def Follows (n m : NodeId) : Prop := Finds space rootPath n m ∧ ¬Property space m

-- A chain of references, with the path that it makes.
inductive Chain : String → NodeId → Prop where
  | origin : Chain ("/" ++ rootPath) origin
  | reference {path : String} {n m : NodeId} {ref : Reference} {name : String}
      (chain : Chain path n) (ref_mem : ref ∈ space n) (node : ref.nodeId = some m)
      (name_eq : ref.browseName = some name) : Chain (trimSlashes path ++ "/" ++ name) m

structure Browsed (entries : List Entry) : Prop where
  visited : ∀ n m, ReflTransGen (Follows space rootPath) origin n → Finds space rootPath n m →
    ∃ e ∈ entries, e.key = m.text
  once : (entries.map Entry.key).Nodup
  chained : ∀ e ∈ entries, ∃ m, e.key = m.text ∧ Chain space rootPath origin e.path m

end Purpose

section Condition

variable (space : AddressSpace)

-- A type that has the number of HasProperty in another namespace leads to a leaf.
def Numbered : Prop :=
  ∀ n, ∀ ref ∈ space n, ref.isProperty = true → ∀ m, ref.nodeId = some m →
    Property space m ∨ space m = []

-- The loop ends early only where nothing new lies behind what is pending, and so does a
-- BrowseNext that fails.
def Safe (s : State) : Action → Prop
  | .turn => s.searchDepth < kMaxSearchDepth ∨
      ∀ n ∈ s.pending, ∀ ref ∈ space n, known s.entries ref = true
  | .browse _ => True
  | .browseNext ok =>
      match s.phase with
      | .continuing _ _ cps _ =>
          ok = true ∨ ∀ cp ∈ cps, ∀ ref ∈ cp.flatten, known s.entries ref = true
      | _ => True

instance decidableSafe (s : State) : ∀ a, Decidable (Safe space s a)
  | .turn => inferInstanceAs (Decidable (_ ∨ _))
  | .browse _ => .isTrue trivial
  | .browseNext ok =>
      match h : s.phase with
      | .continuing _ _ cps _ =>
          decidable_of_iff (ok = true ∨ ∀ cp ∈ cps, ∀ ref ∈ cp.flatten, known s.entries ref = true)
            (by simp [Safe, h])
      | .head | .browsing | .returned | .failed => .isTrue (by simp [Safe, h])

end Condition

variable {space : AddressSpace} {rootPath : String} {origin : NodeId}

section Level

-- What a level keeps while it is built on the entries before it.
structure Grown (space : AddressSpace) (rootPath : String) (origin : NodeId) (base : List Entry)
    (f : Found) : Prop where
  once : (f.entries.map Entry.key).Nodup
  chained : ∀ e ∈ f.entries, ∃ m, e.key = m.text ∧ Chain space rootPath origin e.path m
  clean : ∀ e ∈ f.entries, onDiagnosticPath e.path = false
  fresh : ∀ m : NodeId, (∃ e ∈ f.entries, e.key = m.text) → (∃ e ∈ base, e.key = m.text) ∨
    m ∈ f.nextNodes ∨ ∃ n, ∃ ref ∈ space n, ref.nodeId = some m ∧ ref.isProperty = true
  next : ∀ m ∈ f.nextNodes, ∃ e ∈ f.entries, e.key = m.text

variable {base : List Entry} {f : Found} {path : String} {n : NodeId}

theorem Grown.record (h : Grown space rootPath origin base f)
    (hpath : Chain space rootPath origin path n) {ref : Reference} (href : ref ∈ space n) :
    Grown space rootPath origin base (record path f ref) := by
  rcases record_cases path f ref with ⟨heq, -⟩ | ⟨m, name, hm, hname, hnew, hclean, heq⟩
  · rw [heq]
    exact h
  · rw [heq]
    refine ⟨?_, ?_, ?_, ?_, ?_⟩ <;> dsimp only
    · rw [List.map_append, List.nodup_append]
      refine ⟨h.once, List.nodup_singleton _, ?_⟩
      rintro a ha b hb rfl
      obtain ⟨e, he, rfl⟩ := List.mem_map.mp ha
      exact hnew e he (List.mem_singleton.mp hb)
    · intro e he
      rcases List.mem_append.mp he with he | he
      · exact h.chained e he
      · obtain rfl := List.mem_singleton.mp he
        exact ⟨m, rfl, .reference hpath href hm hname⟩
    · intro e he
      rcases List.mem_append.mp he with he | he
      · exact h.clean e he
      · obtain rfl := List.mem_singleton.mp he
        exact hclean
    · rintro m' ⟨e, he, hkey⟩
      rcases List.mem_append.mp he with he | he
      · rcases h.fresh m' ⟨e, he, hkey⟩ with hbase | hnext | hproperty
        · exact .inl hbase
        · refine .inr (.inl ?_)
          split_ifs
          · exact hnext
          · exact List.mem_append_left _ hnext
        · exact .inr (.inr hproperty)
      · obtain rfl := List.mem_singleton.mp he
        obtain rfl := NodeId.text_inj hkey
        by_cases hproperty : ref.isProperty = true
        · exact .inr (.inr ⟨n, ref, href, hm, hproperty⟩)
        · rw [if_neg hproperty]
          exact .inr (.inl (List.mem_append_right _ (List.mem_singleton_self _)))
    · intro m' hm'
      have hor : m' ∈ f.nextNodes ∨ m' = m := by
        split_ifs at hm'
        · exact .inl hm'
        · exact (List.mem_append.mp hm').imp_right List.mem_singleton.mp
      rcases hor with hold | rfl
      · obtain ⟨e, he, hkey⟩ := h.next m' hold
        exact ⟨e, List.mem_append_left _ he, hkey⟩
      · exact ⟨_, List.mem_append_right _ (List.mem_singleton_self _), rfl⟩

theorem Grown.foldl_record (h : Grown space rootPath origin base f)
    (hpath : Chain space rootPath origin path n) {refs : List Reference}
    (hrefs : ∀ ref ∈ refs, ref ∈ space n) :
    Grown space rootPath origin base (refs.foldl (Client.record path) f) := by
  induction refs generalizing f with
  | nil => exact h
  | cons ref refs ih =>
      exact ih (h.record hpath (hrefs ref List.mem_cons_self))
        fun ref' href' => hrefs ref' (List.mem_cons_of_mem _ href')

-- A node that is browsed is the origin or has an entry, and so a chain to it.
theorem Grown.parentPath (h : Grown space rootPath origin base f)
    (hn : n = origin ∨ ∃ e ∈ f.entries, e.key = n.text) :
    Chain space rootPath origin (parentPath rootPath f.entries n) n ∧
      (onDiagnosticPath ("/" ++ rootPath) = false →
        onDiagnosticPath (Client.parentPath rootPath f.entries n) = false) := by
  unfold Client.parentPath
  cases hfind : f.entries.find? fun e => e.key = n.text with
  | some e =>
      have he := List.mem_of_find?_eq_some hfind
      have hkey : e.key = n.text := 
        of_decide_eq_true (List.find?_some (p := fun e : Entry => decide (e.key = n.text)) hfind)
      obtain ⟨m, hm, hchain⟩ := h.chained e he
      obtain rfl := NodeId.text_inj (hkey.symm.trans hm)
      exact ⟨hchain, fun _ => h.clean e he⟩
  | none =>
      have hnone : ¬∃ e ∈ f.entries, e.key = n.text := by
        rintro ⟨e, he, hkey⟩
        exact List.find?_eq_none.mp hfind e he (by simpa using hkey)
      obtain rfl := hn.resolve_right hnone
      exact ⟨.origin, id⟩

theorem Grown.expandNode (h : Grown space rootPath origin base f)
    (hn : n = origin ∨ ∃ e ∈ f.entries, e.key = n.text) {r : BrowseResult}
    (hr : r.tells (space n)) : Grown space rootPath origin base (expandNode rootPath f (n, r)) := by
  apply h.foldl_record (h.parentPath hn).1
  rcases hr with ⟨-, hnone, -⟩ | ⟨-, htells⟩
  · simp [hnone]
  · intro ref href
    rw [← htells]
    exact List.mem_append_left _ href

theorem Grown.expandBatch (h : Grown space rootPath origin base f) {batch : List NodeId}
    {results : List BrowseResult}
    (hresults : List.Forall₂ (fun n r => BrowseResult.tells r (space n)) batch results)
    (hbatch : ∀ n ∈ batch, n = origin ∨ ∃ e ∈ f.entries, e.key = n.text) :
    Grown space rootPath origin base ((batch.zip results).foldl (Client.expandNode rootPath) f) ∧
      (onDiagnosticPath ("/" ++ rootPath) = false → ∀ b ∈ batch.zip results,
        ∀ ref ∈ b.2.references,
          known ((batch.zip results).foldl (Client.expandNode rootPath) f).entries ref = true) := by
  induction hresults generalizing f with
  | nil => exact ⟨h, fun _ b hb => absurd hb List.not_mem_nil⟩
  | @cons n r batch results hr _ ih =>
      have hn := hbatch n List.mem_cons_self
      obtain ⟨more, hmore⟩ :=
        entries_foldl_record (Client.parentPath rootPath f.entries n) f r.references
      have hbatch' : ∀ n' ∈ batch,
          n' = origin ∨ ∃ e ∈ (Client.expandNode rootPath f (n, r)).entries, e.key = n'.text := by
        intro n' hn'
        refine (hbatch n' (List.mem_cons_of_mem _ hn')).imp_right ?_
        rintro ⟨e, he, hkey⟩
        refine ⟨e, ?_, hkey⟩
        rw [Client.expandNode, hmore]
        exact List.mem_append_left _ he
      obtain ⟨hgrown, hknown⟩ := ih (h.expandNode hn hr) hbatch'
      refine ⟨hgrown, fun hroot b hb => ?_⟩
      rcases List.mem_cons.mp hb with rfl | hb
      · intro ref href
        obtain ⟨rest, hrest⟩ := entries_foldl_expandNode rootPath
          (Client.expandNode rootPath f (n, r)) (batch.zip results)
        rw [List.zip_cons_cons, List.foldl_cons, hrest]
        exact known_append (known_foldl_record ((h.parentPath hn).2 hroot) href) rest
      · exact hknown hroot b hb

end Level

section Invariant

-- What is still to be browsed, and what waits for its continued references.
def State.owed (s : State) : List NodeId :=
  match s.phase with
  | .continuing batch _ _ _ => batch ++ s.pending
  | _ => s.pending

-- A batch has its results, which tell of its nodes in their order.
structure Batched (space : AddressSpace) (batch : List NodeId) (results : List BrowseResult)
    (cps : List ContinuationPoint) (refused : List NodeId) : Prop where
  tells : List.Forall₂ (fun n r => BrowseResult.tells r (space n)) batch results
  cps_eq : cps = continuationPoints results
  refused_eq : refused = unprocessed batch results

def Recorded (entries : List Entry) (m : NodeId) : Prop := ∃ e ∈ entries, e.key = m.text

structure Inv (space : AddressSpace) (rootPath : String) (origin : NodeId) (s : State) : Prop where
  once : (s.entries.map Entry.key).Nodup
  chained : ∀ e ∈ s.entries, ∃ m, e.key = m.text ∧ Chain space rootPath origin e.path m
  clean : ∀ e ∈ s.entries, onDiagnosticPath e.path = false
  named : ∀ n ∈ s.owed, n = origin ∨ Recorded s.entries n
  frontier : Frontier (Finds space rootPath) (Follows space rootPath) origin (Recorded s.entries)
    s.owed
  batched : ∀ batch results cps refused, s.phase = .continuing batch results cps refused →
    Batched space batch results cps refused
  ended : s.phase = .returned →
    ∀ n ∈ s.pending, Exhausted (Finds space rootPath) (Recorded s.entries) n

variable {s s' : State}

theorem exhausted_of_known {entries : List Entry} {n : NodeId}
    (h : onDiagnosticPath ("/" ++ rootPath) = false → ∀ ref ∈ space n, known entries ref = true) :
    Exhausted (Finds space rootPath) (Recorded entries) n := by
  rintro m ⟨hroot, ref, href, hm, name, hname, hclean⟩
  rcases (known_iff hm hname).mp (h hroot ref href) with hrecorded | hdiag
  · exact hrecorded
  · rw [hclean] at hdiag
    cases hdiag

theorem inv_start (limit : ℕ) : Inv space rootPath origin (start limit origin) where
  once := List.nodup_nil
  chained := fun e he => absurd he List.not_mem_nil
  clean := fun e he => absurd he List.not_mem_nil
  named := fun n hn => .inl (List.mem_singleton.mp hn)
  frontier := ⟨.inl (List.mem_singleton_self _), fun _ _ _ ⟨_, he, _⟩ => absurd he List.not_mem_nil⟩
  batched := fun _ _ _ _ h => by cases h
  ended := fun h => by cases h

-- A node of a batch is browsed again, or its references that have come are known.
theorem known_of_batch {batch : List NodeId} {results : List BrowseResult}
    (htells : List.Forall₂ (fun n r => BrowseResult.tells r (space n)) batch results)
    {n : NodeId} (hn : n ∈ batch) :
    n ∈ unprocessed batch results ∨ ∃ r, (n, r) ∈ batch.zip results ∧
      r.references ++ r.continuationPoint.flatten = space n := by
  induction htells with
  | nil => cases hn
  | @cons n' r batch results hr _ ih =>
      unfold unprocessed at ih ⊢
      rw [List.zip_cons_cons, List.filterMap_cons]
      rcases List.mem_cons.mp hn with rfl | hn
      · rcases hr with ⟨hrefused, -, -⟩ | ⟨-, htells⟩
        · simp only [hrefused]
          exact .inl List.mem_cons_self
        · exact .inr ⟨r, List.mem_cons_self, htells⟩
      · rcases ih hn with hagain | ⟨r', hmem, htells⟩
        · left
          split
          · exact hagain
          · exact List.mem_cons_of_mem _ hagain
        · exact .inr ⟨r', List.mem_cons_of_mem _ hmem, htells⟩

theorem unprocessed_subset {batch : List NodeId} {results : List BrowseResult} {n : NodeId}
    (hn : n ∈ unprocessed batch results) : n ∈ batch := by
  obtain ⟨b, hb, hsome⟩ := List.mem_filterMap.mp hn
  split_ifs at hsome
  obtain rfl := Option.some.inj hsome
  exact (List.of_mem_zip hb).1

-- A level is built: what is behind the continuation points that are left is known.
theorem Inv.endLevel {pending batch : List NodeId} {results : List BrowseResult}
    {cps : List ContinuationPoint} {refused : List NodeId} {entries : List Entry}
    (hnumbered : Numbered space) (hbatched : Batched space batch results cps refused)
    (hbehind : ∀ cp ∈ cps, ∀ ref ∈ cp.flatten, known entries ref = true)
    (honce : (entries.map Entry.key).Nodup)
    (hchained : ∀ e ∈ entries, ∃ m, e.key = m.text ∧ Chain space rootPath origin e.path m)
    (hclean : ∀ e ∈ entries, onDiagnosticPath e.path = false)
    (hnamed : ∀ n ∈ batch ++ pending, n = origin ∨ Recorded entries n)
    (hfrontier : Frontier (Finds space rootPath) (Follows space rootPath) origin (Recorded entries)
      (batch ++ pending)) (limit depth : ℕ) (phase : Phase) :
    Inv space rootPath origin (endLevel rootPath
      { maxNodesPerBrowse := limit, searchDepth := depth, pending := pending, entries := entries
        phase := phase } batch results refused) := by
  obtain ⟨htells, rfl, rfl⟩ := hbatched
  have hbase : Grown space rootPath origin entries { entries := entries } :=
    ⟨honce, hchained, hclean, fun m hm => .inl hm, fun m hm => absurd hm List.not_mem_nil⟩
  obtain ⟨hgrown, hknown⟩ := hbase.expandBatch htells
    fun n hn => hnamed n (List.mem_append_left _ hn)
  obtain ⟨more, hmore⟩ := entries_foldl_expandNode rootPath { entries := entries }
    (batch.zip results)
  have hmono : ∀ m, Recorded entries m →
      Recorded (expandBatch rootPath entries batch results).entries m := by
    rintro m ⟨e, he, hkey⟩
    refine ⟨e, ?_, hkey⟩
    rw [expandBatch, hmore]
    exact List.mem_append_left _ he
  refine ⟨hgrown.once, hgrown.chained, hgrown.clean, ?_, ?_, fun _ _ _ _ h => (by cases h),
    fun h => (by cases h)⟩
  · intro n hn
    rcases List.mem_append.mp hn with hn | hn
    · rcases List.mem_append.mp hn with hn | hn
      · exact (hnamed n (List.mem_append_right _ hn)).imp_right (hmono n)
      · exact .inr (hgrown.next n hn)
    · exact (hnamed n (List.mem_append_left _ (unprocessed_subset hn))).imp_right (hmono n)
  · refine hfrontier.advance hmono ?_ ?_
    · intro n hn
      rcases List.mem_append.mp hn with hn | hn
      · rcases known_of_batch htells hn with hagain | ⟨r, hmem, hrefs⟩
        · exact .inl (List.mem_append_right _ hagain)
        · refine .inr (exhausted_of_known fun hroot ref href => ?_)
          rw [← hrefs] at href
          rcases List.mem_append.mp href with href | href
          · exact hknown hroot _ hmem ref href
          · have hcp : r.continuationPoint ∈ continuationPoints results := by
              refine List.mem_filter.mpr ⟨List.mem_map_of_mem (List.of_mem_zip hmem).2, ?_⟩
              have hne : r.continuationPoint ≠ [] := by
                intro hnil
                rw [hnil] at href
                cases href
              simpa using hne
            have hold := known_append (hbehind _ hcp ref href) more
            rw [show (Client.endLevel rootPath _ batch results _).entries =
              (expandBatch rootPath entries batch results).entries from rfl, expandBatch, hmore]
            exact hold
      · exact .inl (List.mem_append_left _ (List.mem_append_left _ hn))
    · rintro n m ⟨-, hproperty⟩ hm hnew
      rcases hgrown.fresh m hm with hbase | hnext | ⟨n', ref, href, hnode, htype⟩
      · exact absurd hbase hnew
      · exact .inl (List.mem_append_left _ (List.mem_append_right _ hnext))
      · have hleaf := (hnumbered n' ref href htype m hnode).resolve_left hproperty
        refine .inr (exhausted_of_known fun _ ref' href' => ?_)
        rw [hleaf] at href'
        cases href'

theorem Inv.drain {batch : List NodeId} {results : List BrowseResult} {refused : List NodeId}
    (hnumbered : Numbered space)
    (hbatched : Batched space batch results (continuationPoints results) refused)
    (honce : (s.entries.map Entry.key).Nodup)
    (hchained : ∀ e ∈ s.entries, ∃ m, e.key = m.text ∧ Chain space rootPath origin e.path m)
    (hclean : ∀ e ∈ s.entries, onDiagnosticPath e.path = false)
    (hnamed : ∀ n ∈ batch ++ s.pending, n = origin ∨ Recorded s.entries n)
    (hfrontier : Frontier (Finds space rootPath) (Follows space rootPath) origin
      (Recorded s.entries) (batch ++ s.pending)) :
    Inv space rootPath origin
      (drain rootPath s batch results (continuationPoints results) refused) := by
  unfold Client.drain
  by_cases hcps : continuationPoints results = []
  · rw [if_pos hcps]
    refine Inv.endLevel hnumbered hbatched ?_ honce hchained hclean hnamed hfrontier _ _ _
    rw [hcps]
    exact fun cp hcp => absurd hcp List.not_mem_nil
  · rw [if_neg hcps]
    refine ⟨honce, hchained, hclean, hnamed, hfrontier, ?_, fun h => by cases h⟩
    rintro _ _ _ _ ⟨rfl, rfl, rfl, rfl⟩
    exact hbatched

theorem batch_append_drop (s : State) : s.batch ++ s.pending.drop s.batch.length = s.pending := by
  unfold State.batch
  split_ifs with hlimit
  · rw [List.length_take]
    rcases Nat.le_total s.maxNodesPerBrowse s.pending.length with hle | hle
    · rw [Nat.min_eq_left hle, List.take_append_drop]
    · rw [Nat.min_eq_right hle, List.take_of_length_le hle, List.drop_length, List.append_nil]
  · rw [List.drop_length, List.append_nil]

theorem batched_results {batch : List NodeId} {answers : List NodeAnswer}
    (hlength : answers.length = batch.length)
    (htells : (batch.zip answers).all (fun a => a.2.tells (space a.1)) = true) :
    Batched space batch (answers.map NodeAnswer.result)
      (continuationPoints (answers.map NodeAnswer.result))
      (unprocessed batch (answers.map NodeAnswer.result)) := by
  refine ⟨?_, rfl, rfl⟩
  rw [List.forall₂_map_right_iff, List.forall₂_iff_zip]
  refine ⟨hlength.symm, fun {n a} hmem => ?_⟩
  exact tells_result (List.all_eq_true.mp htells (n, a) hmem)

theorem unprocessed_congr {batch : List NodeId} {results results' : List BrowseResult}
    (h : results'.map BrowseResult.statusCode = results.map BrowseResult.statusCode) :
    unprocessed batch results' = unprocessed batch results := by
  induction batch generalizing results results' with
  | nil => rfl
  | cons n batch ih =>
      cases results with
      | nil =>
          obtain rfl := List.map_eq_nil_iff.mp h
          rfl
      | cons r results =>
          cases results' with
          | nil => cases h
          | cons r' results' =>
              obtain ⟨hr, hrest⟩ := List.cons.inj h
              have hih := ih hrest
              unfold unprocessed at hih ⊢
              rw [List.zip_cons_cons, List.zip_cons_cons, List.filterMap_cons, List.filterMap_cons,
                hr, hih]

theorem Inv.step {a : Action} (h : Inv space rootPath origin s) (hnumbered : Numbered space)
    (hsafe : Safe space s a) (hstep : step space rootPath s a = some s') :
    Inv space rootPath origin s' := by
  obtain ⟨honce, hchained, hclean, hnamed, hfrontier, hbatched, hended⟩ := h
  cases a with
  | turn =>
      cases hphase : s.phase with
      | head =>
          simp only [State.owed, hphase] at hnamed hfrontier
          simp only [Client.step, hphase] at hstep
          split_ifs at hstep with hgoes <;> obtain rfl := Option.some.inj hstep
          · exact ⟨honce, hchained, hclean, hnamed, hfrontier, fun _ _ _ _ h => (by cases h),
              fun h => (by cases h)⟩
          · refine ⟨honce, hchained, hclean, hnamed, hfrontier, fun _ _ _ _ h => (by cases h), ?_⟩
            intro _ n hn
            have hne : s.pending ≠ [] := List.ne_nil_of_mem hn
            have hknown := hsafe.resolve_left fun hdepth => hgoes ⟨hne, hdepth⟩
            exact exhausted_of_known fun _ => hknown n hn
      | _ => simp [Client.step, hphase] at hstep
  | browse answer =>
      cases hphase : s.phase with
      | browsing =>
          simp only [State.owed, hphase] at hnamed hfrontier
          cases answer with
          | results answers =>
              simp only [Client.step, hphase] at hstep
              split_ifs at hstep with htells
              obtain ⟨hlength, htells⟩ := htells
              obtain rfl := Option.some.inj hstep
              have hpending : s.batch ++ s.pending.drop (answers.map NodeAnswer.result).length =
                  s.pending := by
                rw [List.length_map, hlength, batch_append_drop]
              refine Inv.drain hnumbered (batched_results hlength htells) honce hchained hclean ?_ ?_
              · exact fun n hn => hnamed n (hpending ▸ hn)
              · exact hpending.symm ▸ hfrontier
          | encodingLimit =>
              simp only [Client.step, hphase] at hstep
              obtain rfl := Option.some.inj hstep
              refine ⟨honce, hchained, hclean, ?_, ?_, ?_, ?_⟩
              · unfold State.owed
                split_ifs <;> exact hnamed
              · unfold State.owed
                split_ifs <;> exact hfrontier
              · intro batch results cps refused hcontinuing
                dsimp only at hcontinuing
                split_ifs at hcontinuing
              · intro hreturned
                dsimp only at hreturned
                split_ifs at hreturned
          | error =>
              simp only [Client.step, hphase] at hstep
              obtain rfl := Option.some.inj hstep
              exact ⟨honce, hchained, hclean, hnamed, hfrontier, fun _ _ _ _ h => (by cases h),
                fun h => (by cases h)⟩
      | _ => simp [Client.step, hphase] at hstep
  | browseNext ok =>
      cases hphase : s.phase with
      | continuing batch results cps refused =>
          simp only [State.owed, hphase] at hnamed hfrontier
          have hbatched := hbatched batch results cps refused hphase
          simp only [Client.step, hphase] at hstep
          cases ok with
          | true =>
              obtain rfl := Option.some.inj hstep
              obtain ⟨htells, rfl, rfl⟩ := hbatched
              rw [← continuationPoints_mergeContinued]
              refine Inv.drain hnumbered ⟨tells_mergeContinued htells, rfl, ?_⟩ honce hchained hclean
                hnamed hfrontier
              exact (unprocessed_congr (statusCode_mergeContinued _ _)).symm
          | false =>
              obtain rfl := Option.some.inj hstep
              simp only [Safe, hphase, Bool.false_eq_true, false_or] at hsafe
              exact Inv.endLevel hnumbered hbatched hsafe honce hchained hclean hnamed hfrontier _ _ _
      | _ => simp [Client.step, hphase] at hstep

end Invariant

-- A browse that returns has recorded every node, unless it ended early or left references out.
theorem browsed_of_returned {limit : ℕ} {as : List Action} {s : State}
    (hrun : Run.run (step space rootPath) (start limit origin) as = some s)
    (hnumbered : Numbered space)
    (hsafe : Run.Allowed (step space rootPath) (Safe space) (start limit origin) as)
    (hreturned : s.phase = .returned) : Browsed space rootPath origin s.entries := by
  have hstart : Inv space rootPath origin (start limit origin) := inv_start limit
  have h := Run.invariant (fun _ _ _ h hok hs => Inv.step h hnumbered hok hs) hstart hsafe hrun
  have howed : s.owed = s.pending := by rw [State.owed, hreturned]
  refine ⟨?_, h.once, h.chained⟩
  intro n m hn hm
  exact h.frontier.complete (fun _ _ hfollows => hfollows.1) (howed ▸ h.ended hreturned) hn hm

section Runs

def objectsFolder : NodeId := ⟨0, .numeric 85⟩

def nodeOf (k : ℕ) : NodeId := ⟨1, .numeric k⟩

def leadsTo (typ k : ℕ) (name : String) : Reference where
  nodeId := some (nodeOf k)
  browseName := some name
  nodeClass := .objectClass
  referenceTypeId := some ⟨0, .numeric typ⟩

theorem numbered_of_ns {space : AddressSpace}
    (h : ∀ n, ∀ ref ∈ space n, ∀ typ, ref.referenceTypeId = some typ →
      typ.ns = 0 ∧ ∃ k, typ.id = .numeric k) : Numbered space := by
  intro n ref href hproperty m hm
  obtain ⟨typ, htyp, hid⟩ := (Option.any_eq_true _ _).mp hproperty
  obtain ⟨hns, k, hk⟩ := h n ref href typ htyp
  refine .inl ⟨n, ref, href, hm, htyp.trans (congrArg some ?_)⟩
  obtain ⟨ns, id⟩ := typ
  simp only at hns hk
  subst hns hk
  obtain rfl : k = idHasProperty := of_decide_eq_true hid
  rfl

-- Two boilers share a level, which leads back to one of them and has a property.
def plant : AddressSpace := fun n =>
  if n = objectsFolder then [leadsTo 35 1 "Boiler1", leadsTo 35 2 "Boiler2"]
  else if n = nodeOf 1 then [leadsTo 47 3 "Level"]
  else if n = nodeOf 2 then [leadsTo 47 3 "Level", leadsTo 46 4 "Unit"]
  else if n = nodeOf 3 then [leadsTo 35 1 "Boiler1", leadsTo 46 4 "Unit"]
  else []

def isReturned : Phase → Bool
  | .returned => true
  | _ => false

theorem eq_returned {p : Phase} (h : isReturned p = true) : p = .returned := by
  cases p <;> first | rfl | cases h

-- The references of the first node come in two parts, the second node is refused once, and an
-- answer for both is too large.
def browsing : List Action :=
  [.turn, .browse (.results [.parts [leadsTo 35 1 "Boiler1"] [[leadsTo 35 2 "Boiler2"]]]),
    .browseNext true, .turn, .browse .encodingLimit, .browse (.results [.refused]), .turn,
    .browse (.results [.parts (plant (nodeOf 2)) []]), .turn,
    .browse (.results [.parts (plant (nodeOf 1)) []]), .turn,
    .browse (.results [.parts (plant (nodeOf 3)) []]), .turn]

theorem browsing_browsed : ∃ s,
    Run.run (step plant "Objects") (start 2 objectsFolder) browsing = some s ∧
      s.phase = .returned ∧ Browsed plant "Objects" objectsFolder s.entries := by
  have hrun : (Run.run (step plant "Objects") (start 2 objectsFolder) browsing).any
      (fun s => isReturned s.phase) = true := by
    decide
  obtain ⟨s, hs, hphase⟩ := (Option.any_eq_true _ _).mp hrun
  refine ⟨s, hs, eq_returned hphase,
    browsed_of_returned hs (numbered_of_ns ?_) (by decide) (eq_returned hphase)⟩
  intro n ref href typ htyp
  unfold plant at href
  split_ifs at href <;> simp only [List.mem_cons, List.not_mem_nil, or_false] at href <;>
    rcases href with rfl | rfl <;> cases htyp <;> exact ⟨rfl, _, rfl⟩

-- A folder of 64 objects, the last of which has a level below it.
def crowded : AddressSpace := fun n =>
  if n = objectsFolder then (List.range 64).map fun k => leadsTo 35 k "Object"
  else if n = nodeOf 63 then [leadsTo 47 64 "Level"]
  else []

-- The server takes one node at a time, and has no continuation point left when it is first
-- asked for an object.
def oneByOne : List Action :=
  [.turn, .browse (.results [.parts (crowded objectsFolder) []])] ++
    (List.replicate 64 [.turn, .browse (.results [.refused])]).flatten ++
    (List.replicate 63 [.turn, .browse (.results [.parts [] []])]).flatten ++ [.turn]

-- The objects of the folder are all new.
theorem foldl_record_objects (parent : String)
    (hpath : onDiagnosticPath (trimSlashes parent ++ "/" ++ "Object") = false) (ks : List ℕ)
    (f : Found) (hks : ks.Nodup) (hnew : ∀ e ∈ f.entries, ∀ k ∈ ks, e.key ≠ (nodeOf k).text) :
    (ks.map fun k => leadsTo 35 k "Object").foldl (record parent) f =
      { entries := f.entries ++ ks.map fun k =>
          ⟨(nodeOf k).text, leadsTo 35 k "Object", trimSlashes parent ++ "/" ++ "Object"⟩
        nextNodes := f.nextNodes ++ ks.map nodeOf } := by
  induction ks generalizing f with
  | nil => simp
  | cons k ks ih =>
      have hrecord : record parent f (leadsTo 35 k "Object") =
          { entries := f.entries ++
              [⟨(nodeOf k).text, leadsTo 35 k "Object", trimSlashes parent ++ "/" ++ "Object"⟩]
            nextNodes := f.nextNodes ++ [nodeOf k] } := by
        have hseen : (f.entries.any fun e => e.key = (nodeOf k).text) = false := by
          refine List.any_eq_false.mpr fun e he => ?_
          simpa using hnew e he k List.mem_cons_self
        have hnot : isEphemeralDiagnostic (nodeOf k) (trimSlashes parent ++ "/" ++ "Object") =
            false := by
          rw [isEphemeralDiagnostic, hpath, Bool.or_false]
          rfl
        simp only [record, leadsTo, hseen, hnot, Bool.false_eq_true, if_false]
        rfl
      rw [List.map_cons, List.foldl_cons, hrecord, ih _ (List.nodup_cons.mp hks).2]
      · simp
      · intro e he j hj
        rcases List.mem_append.mp he with hold | hlast
        · exact hnew e hold j (List.mem_cons_of_mem _ hj)
        · obtain rfl := List.mem_singleton.mp hlast
          intro hkey
          have hnode := NodeId.text_inj hkey
          obtain rfl : k = j := by simpa [nodeOf] using hnode
          exact (List.nodup_cons.mp hks).1 hj

section Turns

variable {n : NodeId} (rest : List NodeId) (entries : List Entry) {d : ℕ}

-- A node that is refused comes after the others.
theorem refused_turn (hd : d < kMaxSearchDepth) :
    Run.run (step crowded "Objects") ⟨1, d, n :: rest, entries, .head⟩
        [.turn, .browse (.results [.refused])] =
      some ⟨1, d + 1, rest ++ [n], entries, .head⟩ := by
  simp [Run.run, step, hd, State.batch, NodeAnswer.tells, NodeAnswer.result, continuationPoints,
    unprocessed, drain, endLevel, expandBatch, expandNode]

theorem empty_turn (hd : d < kMaxSearchDepth) (hn : crowded n = []) :
    Run.run (step crowded "Objects") ⟨1, d, n :: rest, entries, .head⟩
        [.turn, .browse (.results [.parts [] []])] =
      some ⟨1, d + 1, rest, entries, .head⟩ := by
  simp [Run.run, step, hd, State.batch, NodeAnswer.tells, NodeAnswer.result, continuationPoints,
    unprocessed, drain, endLevel, expandBatch, expandNode, hn]

theorem refused_turns (front : List NodeId) (hd : d + front.length ≤ kMaxSearchDepth) :
    Run.run (step crowded "Objects") ⟨1, d, front ++ rest, entries, .head⟩
        (List.replicate front.length [.turn, .browse (.results [.refused])]).flatten =
      some ⟨1, d + front.length, rest ++ front, entries, .head⟩ := by
  induction front generalizing d rest with
  | nil => simp [Run.run]
  | cons n front ih =>
      rw [List.length_cons] at hd
      rw [List.length_cons, List.replicate_succ, List.flatten_cons, Run.run_append,
        List.cons_append, refused_turn _ _ (by omega), Option.bind_some, List.append_assoc,
        ih _ (by omega)]
      simp [Nat.add_right_comm, Nat.add_assoc]

theorem empty_turns (front : List NodeId) (hd : d + front.length ≤ kMaxSearchDepth)
    (hfront : ∀ n ∈ front, crowded n = []) :
    Run.run (step crowded "Objects") ⟨1, d, front ++ rest, entries, .head⟩
        (List.replicate front.length [.turn, .browse (.results [.parts [] []])]).flatten =
      some ⟨1, d + front.length, rest, entries, .head⟩ := by
  induction front generalizing d with
  | nil => simp [Run.run]
  | cons n front ih =>
      rw [List.length_cons] at hd
      rw [List.length_cons, List.replicate_succ, List.flatten_cons, Run.run_append,
        List.cons_append, empty_turn _ _ (by omega) (hfront n List.mem_cons_self), Option.bind_some,
        ih (by omega) fun m hm => hfront m (List.mem_cons_of_mem _ hm)]
      simp [Nat.add_right_comm, Nat.add_assoc]

end Turns

def objectEntries : List Entry :=
  (List.range 64).map fun k =>
    ⟨(nodeOf k).text, leadsTo 35 k "Object", trimSlashes ("/" ++ "Objects") ++ "/" ++ "Object"⟩

theorem expandBatch_singleton (rootPath : String) (n : NodeId) (r : BrowseResult) :
    expandBatch rootPath [] [n] [r] =
      r.references.foldl (record ("/" ++ rootPath)) { entries := [] } := rfl

theorem crowded_objectsFolder :
    crowded objectsFolder = (List.range 64).map fun k => leadsTo 35 k "Object" := if_pos rfl

theorem folder_turn : Run.run (step crowded "Objects") (start 1 objectsFolder)
    [.turn, .browse (.results [.parts (crowded objectsFolder) []])] =
      some ⟨1, 1, (List.range 64).map nodeOf, objectEntries, .head⟩ := by
  have hlevel : expandBatch "Objects" [] [objectsFolder] [⟨.good, crowded objectsFolder, []⟩] =
      ⟨objectEntries, (List.range 64).map nodeOf⟩ := by
    rw [expandBatch_singleton, crowded_objectsFolder, foldl_record_objects ("/" ++ "Objects")
      (by decide) (List.range 64) { entries := [] } List.nodup_range (by simp), List.nil_append,
      List.nil_append, objectEntries]
  simp [Run.run, step, start, kMaxSearchDepth, State.batch, NodeAnswer.tells, NodeAnswer.result,
    continuationPoints, unprocessed, drain, endLevel, hlevel]

theorem oneByOne_incomplete : ∃ s,
    Run.run (step crowded "Objects") (start 1 objectsFolder) oneByOne = some s ∧
      s.phase = .returned ∧ ¬Browsed crowded "Objects" objectsFolder s.entries := by
  have hroot : onDiagnosticPath ("/" ++ "Objects") = false := by decide
  have hempty : ∀ n ∈ (List.range 63).map nodeOf, crowded n = [] := by
    intro n hn
    obtain ⟨k, hk, rfl⟩ := List.mem_map.mp hn
    have hk := List.mem_range.mp hk
    simp [crowded, nodeOf, objectsFolder]
    omega
  have hlast : (List.range 64).map nodeOf = (List.range 63).map nodeOf ++ [nodeOf 63] := by
    rw [List.range_succ, List.map_append, List.map_singleton]
  have hrefused := refused_turns [] objectEntries (d := 1) ((List.range 64).map nodeOf)
    (by simp [kMaxSearchDepth])
  have hrest := empty_turns [nodeOf 63] objectEntries (d := 65) ((List.range 63).map nodeOf)
    (by simp [kMaxSearchDepth]) hempty
  rw [List.length_map, List.length_range] at hrefused hrest
  rw [List.append_nil, List.nil_append, hlast] at hrefused
  refine ⟨⟨1, 128, [nodeOf 63], objectEntries, .returned⟩, ?_, rfl, fun hbrowsed => ?_⟩
  · rw [oneByOne, Run.run_append, Run.run_append, Run.run_append, folder_turn, Option.bind_some,
      hlast, hrefused, Option.bind_some, hrest]
    rfl
  have hobject : Follows crowded "Objects" objectsFolder (nodeOf 63) := by
    have hmem : leadsTo 35 63 "Object" ∈ crowded objectsFolder := by
      rw [crowded_objectsFolder]
      exact List.mem_map.mpr ⟨63, List.mem_range.mpr (by decide), rfl⟩
    refine ⟨⟨hroot, leadsTo 35 63 "Object", hmem, rfl, "Object", rfl, by decide⟩, ?_⟩
    rintro ⟨n, ref, href, -, htyp⟩
    have hnone : ∀ ref ∈ crowded n, ref.referenceTypeId ≠ some typeHasProperty := by
      unfold crowded
      split_ifs
      · simp [leadsTo, typeHasProperty, idHasProperty]
      · simp [leadsTo, typeHasProperty, idHasProperty]
      · simp
    exact hnone ref href htyp
  have hlevel : Finds crowded "Objects" (nodeOf 63) (nodeOf 64) :=
    ⟨hroot, leadsTo 47 64 "Level", by decide, rfl, "Level", rfl, by decide⟩
  obtain ⟨e, he, hkey⟩ := hbrowsed.visited (nodeOf 63) (nodeOf 64) (.single hobject) hlevel
  obtain ⟨k, hk, rfl⟩ := List.mem_map.mp he
  have hnode := NodeId.text_inj hkey
  obtain rfl : k = 64 := by simpa [nodeOf] using hnode
  exact absurd (List.mem_range.mp hk) (by decide)

end Runs

end JsonScada.OpcUa.Client
