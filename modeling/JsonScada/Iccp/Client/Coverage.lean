import JsonScada.Iccp.Client
import Mathlib.Data.List.Perm.Subperm
import Mathlib.Data.List.TakeWhile

namespace JsonScada.Iccp.Client

open JsonScada.Library
open JsonScada.Iccp.Server (trimSpace)

section Setups

variable (pl : Platform) (mappings : List TagMapping)

-- What a transfer set is configured with for a domain.
def DomainAnswers.configuration (a : DomainAnswers) : Option (DstsSub × ObjectRef) :=
  if refsByDomain mappings a.domain = [] then none
  else (a.slot pl).bind fun sub => (a.dataSet.filter fun _ => a.configured).map fun ds => (sub, ds)

-- The transfer set that is started for a domain.
def DomainAnswers.subscription (a : DomainAnswers) : Option DstsSub :=
  ((a.configuration pl mappings).filter fun _ => a.started).map Prod.fst

-- The data set of its own that the driver gets in a domain.
def DomainAnswers.ownSet (a : DomainAnswers) : Option ObjectRef :=
  if refsByDomain mappings a.domain ≠ [] ∧ (a.slot pl).isSome = true ∧ a.created = true then
    some ⟨a.domain, jsScadaDataSetName⟩
  else none

variable {pl mappings}

theorem DomainAnswers.slot_domain {a : DomainAnswers} {sub : DstsSub} (h : a.slot pl = some sub) :
    sub.domain = a.domain := by
  obtain ⟨vars, -, hslot⟩ := Option.bind_eq_some_iff.mp h
  split at hslot
  · obtain rfl := Option.some.inj hslot
    rfl
  · cases hslot

theorem DomainAnswers.subscription_eq {a : DomainAnswers} {sub : DstsSub}
    (h : a.subscription pl mappings = some sub) :
    a.started = true ∧ sub.domain = a.domain ∧
      ∃ ds, a.configuration pl mappings = some (sub, ds) := by
  obtain ⟨⟨sub', ds⟩, hconf, rfl⟩ := Option.map_eq_some_iff.mp h
  obtain ⟨hconf, hstarted⟩ := Option.filter_eq_some_iff.mp hconf
  refine ⟨hstarted, ?_, ds, hconf⟩
  unfold configuration at hconf
  split at hconf
  · cases hconf
  · obtain ⟨sub'', hslot, hds⟩ := Option.bind_eq_some_iff.mp hconf
    obtain ⟨_, -, heq⟩ := Option.map_eq_some_iff.mp hds
    cases heq
    exact slot_domain hslot

-- What the setup of one domain does to each of its three parts.
theorem subscribe_eq (s : Setup) (a : DomainAnswers) :
    subscribe pl mappings s a =
      { peer :=
          { dataSets :=
              match a.ownSet pl mappings with
              | some ds => Function.update s.peer.dataSets ds (refsByDomain mappings a.domain)
              | none => s.peer.dataSets
            transferSets :=
              match a.configuration pl mappings with
              | some (sub, ds) => Function.update s.peer.transferSets sub (some ds)
              | none => s.peer.transferSets }
        subs := s.subs ++ (a.subscription pl mappings).toList } := by
  unfold subscribe DomainAnswers.subscription DomainAnswers.configuration DomainAnswers.ownSet
  dsimp only
  by_cases hrefs : refsByDomain mappings a.domain = []
  · simp [hrefs]
  · cases hslot : a.slot pl with
    | none => simp [hrefs]
    | some sub =>
        cases hcreated : a.created with
        | false =>
            cases hds : a.dataSet with
            | none => simp [hrefs]
            | some ds =>
                cases hconf : a.configured <;> cases hstarted : a.started <;>
                  simp [hrefs, Option.filter, Peer.configure]
        | true =>
            have hds : a.dataSet = some ⟨a.domain, jsScadaDataSetName⟩ := by
              rw [DomainAnswers.dataSet, if_pos hcreated]
            cases hconf : a.configured <;> cases hstarted : a.started <;>
              simp [hrefs, hds, Option.filter, Peer.createDataSet, Peer.configure]

theorem DomainAnswers.ownSet_domain {a : DomainAnswers} {ds : ObjectRef}
    (h : a.ownSet pl mappings = some ds) : ds.domain = a.domain := by
  unfold ownSet at h
  split at h
  · obtain rfl := Option.some.inj h
    rfl
  · cases h

section Runs

variable (peer : Peer) (domains : List DomainAnswers)

theorem setup_concat (a : DomainAnswers) :
    setupDSTSSubscriptions pl mappings peer (domains ++ [a]) =
      subscribe pl mappings (setupDSTSSubscriptions pl mappings peer domains) a := by
  rw [setupDSTSSubscriptions, List.foldl_append]
  rfl

theorem setup_subs :
    (setupDSTSSubscriptions pl mappings peer domains).subs =
      domains.filterMap (DomainAnswers.subscription pl mappings) := by
  induction domains using List.reverseRecOn with
  | nil => rfl
  | append_singleton domains a ih =>
      rw [setup_concat, subscribe_eq, ih, List.filterMap_append]
      cases h : a.subscription pl mappings <;> simp [h]

theorem setup_transferSets (sub : DstsSub) :
    (setupDSTSSubscriptions pl mappings peer domains).peer.transferSets sub =
      (filled (DomainAnswers.configuration pl mappings) domains sub).or (peer.transferSets sub) := by
  induction domains using List.reverseRecOn with
  | nil => rfl
  | append_singleton domains a ih =>
      rw [setup_concat, subscribe_eq, filled_concat]
      dsimp only
      cases h : a.configuration pl mappings with
      | none => exact ih
      | some conf =>
          obtain ⟨sub', ds⟩ := conf
          by_cases hsub : sub = sub'
          · simp [hsub]
          · simp [hsub, ih]

theorem setup_dataSets (ds : ObjectRef) :
    (setupDSTSSubscriptions pl mappings peer domains).peer.dataSets ds =
      if some ds ∈ domains.map (DomainAnswers.ownSet pl mappings) then
        refsByDomain mappings ds.domain
      else peer.dataSets ds := by
  induction domains using List.reverseRecOn with
  | nil => rfl
  | append_singleton domains a ih =>
      rw [setup_concat, subscribe_eq, List.map_append, List.map_singleton]
      dsimp only
      cases h : a.ownSet pl mappings with
      | none => simpa using ih
      | some ds' =>
          by_cases hds : ds = ds'
          · subst hds
            simp [DomainAnswers.ownSet_domain h]
          · simp [hds, ih]

end Runs

end Setups

section Coverage

variable (pl : Platform) (mappings : List TagMapping) (peer : Peer) (domains : List DomainAnswers)

-- The object of a tag is a member of the data set of a transfer set that was started.
def Reported (s : Setup) (m : TagMapping) : Prop :=
  ∃ sub ∈ s.subs, ∃ ds ∈ s.peer.transferSets sub, m.ref ∈ s.peer.dataSets ds

-- Every tag is polled at each interval, or reported.
def EveryTagCovered : Prop :=
  ∀ m ∈ mappings,
    m ∈ (pollRequests mappings
      (coveredDomains (setupDSTSSubscriptions pl mappings peer domains).subs)).flatten ∨
    Reported (setupDSTSSubscriptions pl mappings peer domains) m

-- Where a transfer set was started for the domain of a tag, one was started with the driver's own
-- data set of that domain, or with a data set of the peer that has the object.
def SetsComplete : Prop :=
  ∀ m ∈ mappings,
    (∃ a ∈ domains, a.domain = m.ref.domain ∧ (a.subscription pl mappings).isSome = true) →
      ∃ a ∈ domains, ∃ sub ∈ a.subscription pl mappings,
        ∃ ds ∈ filled (DomainAnswers.configuration pl mappings) domains sub,
          if some ds ∈ domains.map (DomainAnswers.ownSet pl mappings) then
            ds.domain = m.ref.domain
          else m.ref ∈ peer.dataSets ds

variable {pl mappings peer domains}

theorem flatten_chunksOf {fuel : ℕ} {l : List TagMapping} (h : l.length ≤ fuel) :
    (chunksOf fuel l).flatten = l := by
  induction fuel generalizing l with
  | zero =>
      obtain rfl := List.length_eq_zero_iff.mp (Nat.le_zero.mp h)
      rfl
  | succ fuel ih =>
      cases l with
      | nil => rfl
      | cons m l =>
          have hrest : ((m :: l).drop pollChunkSize).length ≤ fuel := by
            rw [List.length_drop]
            unfold pollChunkSize
            rw [List.length_cons] at h ⊢
            omega
          change (List.take pollChunkSize (m :: l) :: chunksOf fuel _).flatten = _
          rw [List.flatten_cons, ih hrest, List.take_append_drop]

theorem mem_pollRequests {m : TagMapping} (hm : m ∈ mappings) (skipDomains : List String) :
    m ∈ (pollRequests mappings skipDomains).flatten ↔ m.ref.domain ∉ skipDomains := by
  rw [pollRequests, flatten_chunksOf (Nat.le_refl _), List.mem_filter, decide_eq_true_eq]
  exact and_iff_right hm

theorem mem_refsByDomain {m : TagMapping} (hm : m ∈ mappings) (domain : String) :
    m.ref ∈ refsByDomain mappings domain ↔ domain = m.ref.domain := by
  constructor
  · intro h
    obtain ⟨m', hm', href⟩ := List.mem_map.mp h
    rw [← href]
    exact (of_decide_eq_true (List.mem_filter.mp hm').2).symm
  · rintro rfl
    exact List.mem_map_of_mem (List.mem_filter.mpr ⟨hm, decide_eq_true rfl⟩)

theorem mem_coveredDomains (domain : String) :
    domain ∈ coveredDomains (setupDSTSSubscriptions pl mappings peer domains).subs ↔
      ∃ a ∈ domains, a.domain = domain ∧ (a.subscription pl mappings).isSome = true := by
  rw [coveredDomains, setup_subs]
  constructor
  · intro h
    obtain ⟨sub, hsub, rfl⟩ := List.mem_map.mp h
    obtain ⟨a, ha, hsub⟩ := List.mem_filterMap.mp hsub
    refine ⟨a, ha, (DomainAnswers.subscription_eq hsub).2.1.symm, ?_⟩
    rw [hsub]
    rfl
  · rintro ⟨a, ha, rfl, hsome⟩
    obtain ⟨sub, hsub⟩ := Option.isSome_iff_exists.mp hsome
    exact List.mem_map.mpr ⟨sub, List.mem_filterMap.mpr ⟨a, ha, hsub⟩,
      (DomainAnswers.subscription_eq hsub).2.1⟩

-- What is reported, read off the answers of the peer.
theorem reported_iff {m : TagMapping} (hm : m ∈ mappings) :
    Reported (setupDSTSSubscriptions pl mappings peer domains) m ↔
      ∃ a ∈ domains, ∃ sub ∈ a.subscription pl mappings,
        ∃ ds ∈ filled (DomainAnswers.configuration pl mappings) domains sub,
          if some ds ∈ domains.map (DomainAnswers.ownSet pl mappings) then
            ds.domain = m.ref.domain
          else m.ref ∈ peer.dataSets ds := by
  have hmember (ds : ObjectRef) :
      m.ref ∈ (setupDSTSSubscriptions pl mappings peer domains).peer.dataSets ds ↔
        if some ds ∈ domains.map (DomainAnswers.ownSet pl mappings) then
          ds.domain = m.ref.domain
        else m.ref ∈ peer.dataSets ds := by
    rw [setup_dataSets]
    split
    · exact mem_refsByDomain hm ds.domain
    · rfl
  have hconfigured {a : DomainAnswers} (ha : a ∈ domains) {sub : DstsSub}
      (hsub : a.subscription pl mappings = some sub) :
      (setupDSTSSubscriptions pl mappings peer domains).peer.transferSets sub =
        filled (DomainAnswers.configuration pl mappings) domains sub := by
    obtain ⟨-, -, ds, hconf⟩ := DomainAnswers.subscription_eq hsub
    obtain ⟨ds', hfilled⟩ := Option.isSome_iff_exists.mp (isSome_filled ha hconf)
    rw [setup_transferSets, hfilled]
    rfl
  constructor
  · rintro ⟨sub, hsub, ds, hds, href⟩
    rw [setup_subs] at hsub
    obtain ⟨a, ha, hsub⟩ := List.mem_filterMap.mp hsub
    rw [hconfigured ha hsub] at hds
    exact ⟨a, ha, sub, hsub, ds, hds, (hmember ds).mp href⟩
  · rintro ⟨a, ha, sub, hsub, ds, hds, href⟩
    refine ⟨sub, ?_, ds, ?_, (hmember ds).mpr href⟩
    · rw [setup_subs]
      exact List.mem_filterMap.mpr ⟨a, ha, hsub⟩
    · rw [hconfigured ha hsub]
      exact hds

theorem everyTagCovered_iff :
    EveryTagCovered pl mappings peer domains ↔ SetsComplete pl mappings peer domains := by
  apply forall₂_congr
  intro m hm
  rw [mem_pollRequests hm, mem_coveredDomains, reported_iff hm]
  exact imp_iff_not_or.symm

end Coverage

section Queues

variable (pl : Platform) (conn : Connection)

def sameObject (mappings : List TagMapping) (v : ReportValue) : List TagMapping :=
  mappings.filter fun m => m.ref = ⟨v.domain, v.item⟩

-- A value that is reported gives an update to each tag of its object.
def QueuedForEvery (mappings : List TagMapping) (full : Bool) (v : ReportValue) : Prop :=
  ((sameObject mappings v).map fun m => dataValueToUpdate pl conn v.value m v.now).Subperm
    (reportValue pl conn mappings full v)

-- The object of the value has no tag, or one, and for that one there is room.
def OneTag (mappings : List TagMapping) (full : Bool) (v : ReportValue) : Prop :=
  sameObject mappings v = [] ∨ ((sameObject mappings v).length = 1 ∧ full = false)

-- What a poll reads, each value for the tag that asked for it.
def polledUpdates : List (List TagMapping) → List (Option Answer) → List DataUpdate
  | chunk :: chunks, some a :: answers =>
      chunkUpdates pl conn chunk a ++ polledUpdates chunks answers
  | _, _ => []

-- The channel has room for each value that a poll reads.
def RoomForPoll : List (List TagMapping) → List (Option Answer) → Prop
  | chunk :: chunks, some a :: answers =>
      (∀ i < (chunkUpdates pl conn chunk a).length, a.full i = false) ∧ RoomForPoll chunks answers
  | _, _ => True

variable {pl conn}

theorem splitAddress_domain {addr : String} {ref : ObjectRef} (h : splitAddress addr = some ref) :
    '/' ∉ ref.domain.toList := by
  unfold splitAddress at h
  split at h
  · obtain rfl := Option.some.inj h
    rw [String.toList_ofList]
    intro hmem
    exact absurd (List.mem_takeWhile_imp hmem) (by decide)
  · cases h

theorem domain_of_mem {tags : List RtData} {m : TagMapping} (h : m ∈ buildTagMappings pl tags) :
    '/' ∉ m.ref.domain.toList := by
  obtain ⟨t, -, hm⟩ := List.mem_filterMap.mp h
  dsimp only at hm
  split at hm
  · cases hm
  · obtain ⟨ref, href, rfl⟩ := Option.map_eq_some_iff.mp hm
    exact splitAddress_domain href

theorem key_inj (r r' : ObjectRef) (h : '/' ∉ r.domain.toList) (h' : '/' ∉ r'.domain.toList) :
    r.domain ++ "/" ++ r.item = r'.domain ++ "/" ++ r'.item ↔ r = r' := by
  constructor
  · intro heq
    have hlist := congrArg String.toList heq
    simp only [String.toList_append, List.append_assoc] at hlist
    obtain ⟨hdomain, hitem⟩ := mark_append_inj h h' hlist
    cases r
    cases r'
    congr 1
    · exact String.toList_inj.mp hdomain
    · exact String.toList_inj.mp hitem
  · rintro rfl
    rfl

-- A value whose object has a tag finds the last tag of that object.
theorem mappingByRef_eq {tags : List RtData} {v : ReportValue}
    (h : sameObject (buildTagMappings pl tags) v ≠ []) :
    mappingByRef (buildTagMappings pl tags) (v.domain ++ "/" ++ v.item) =
      (sameObject (buildTagMappings pl tags) v).getLast? := by
  obtain ⟨m, hm⟩ := List.exists_mem_of_ne_nil _ h
  obtain ⟨hm, href⟩ := List.mem_filter.mp hm
  have hdomain : '/' ∉ v.domain.toList := by
    have := domain_of_mem hm
    rwa [of_decide_eq_true href] at this
  have hfilter : (buildTagMappings pl tags).filter
      (fun m => m.ref.domain ++ "/" ++ m.ref.item = v.domain ++ "/" ++ v.item) =
        sameObject (buildTagMappings pl tags) v := by
    apply List.filter_congr
    intro m hm
    have hkey : m.ref.domain ++ "/" ++ m.ref.item = v.domain ++ "/" ++ v.item ↔
        m.ref = ⟨v.domain, v.item⟩ := key_inj m.ref ⟨v.domain, v.item⟩ (domain_of_mem hm) hdomain
    rw [decide_eq_decide]
    exact hkey
  have hmap : (buildTagMappings pl tags).filterMap
      (fun m => some (m.ref.domain ++ "/" ++ m.ref.item, m)) =
        (buildTagMappings pl tags).map fun m => (m.ref.domain ++ "/" ++ m.ref.item, m) :=
    congrFun List.filterMap_eq_map _
  rw [mappingByRef, filled_eq, hmap, ofKey, ← hfilter, List.filter_map, List.getLast?_map,
    Option.map_map]
  exact Option.map_id'

theorem queuedForEvery_iff (tags : List RtData) (full : Bool) (v : ReportValue) :
    QueuedForEvery pl conn (buildTagMappings pl tags) full v ↔
      OneTag (buildTagMappings pl tags) full v := by
  unfold QueuedForEvery OneTag
  cases hsame : sameObject (buildTagMappings pl tags) v with
  | nil => simp
  | cons m ms =>
      have hfound := mappingByRef_eq (hsame ▸ List.cons_ne_nil m ms)
      rw [hsame] at hfound
      cases ms with
      | nil =>
          cases full with
          | true => simp [reportValue]
          | false => simp [reportValue, reportUpdate, hfound]
      | cons m' ms =>
          simp only [reduceCtorEq, List.length_cons, false_or]
          constructor
          · intro h
            have hle := h.length_le
            unfold reportValue at hle
            split at hle
            · simp at hle
            · have := @Option.length_toList_le _ (reportUpdate pl conn (buildTagMappings pl tags) v)
              simp at hle
              omega
          · omega

theorem length_send_le (full : ℕ → Bool) (upds : List DataUpdate) :
    (send full upds).length ≤ upds.length := by
  rw [send, List.length_map]
  exact (List.length_filter_le _ _).trans_eq (List.length_zipIdx)

theorem send_eq_iff (full : ℕ → Bool) (upds : List DataUpdate) :
    send full upds = upds ↔ ∀ i < upds.length, full i = false := by
  have hkept : send full upds = upds ↔ ∀ p ∈ upds.zipIdx, (!full p.2) = true := by
    constructor
    · intro h
      have hlength := congrArg List.length h
      rw [send, List.length_map, ← List.length_zipIdx (l := upds) (i := 0)] at hlength
      exact List.length_filter_eq_length_iff.mp hlength
    · intro h
      rw [send, List.filter_eq_self.mpr h, List.zipIdx_map_fst]
  rw [hkept]
  constructor
  · intro h i hi
    have := h (upds[i], i) (List.mem_zipIdx_iff_getElem?.mpr (List.getElem?_eq_getElem hi))
    simpa using this
  · intro h p hp
    obtain ⟨hi, -⟩ := List.mem_zipIdx' hp
    simpa using h p.2 hi

theorem performPoll_eq_iff (chunks : List (List TagMapping)) (answers : List (Option Answer)) :
    performPoll pl conn chunks answers = polledUpdates pl conn chunks answers ↔
      RoomForPoll pl conn chunks answers := by
  have hle (chunks : List (List TagMapping)) (answers : List (Option Answer)) :
      (performPoll pl conn chunks answers).length ≤ (polledUpdates pl conn chunks answers).length := by
    fun_induction performPoll pl conn chunks answers with
    | case1 chunk chunks a answers ih =>
        rw [polledUpdates, List.length_append, List.length_append]
        have := length_send_le a.full (chunkUpdates pl conn chunk a)
        omega
    | case2 => exact Nat.zero_le _
  fun_induction RoomForPoll pl conn chunks answers with
  | case1 chunk chunks a answers ih =>
      rw [performPoll, polledUpdates]
      refine Iff.trans ?_ (and_congr (send_eq_iff a.full _) ih)
      constructor
      · intro h
        have hlength := congrArg List.length h
        rw [List.length_append, List.length_append] at hlength
        have hsend := length_send_le a.full (chunkUpdates pl conn chunk a)
        have hrest := hle chunks answers
        exact List.append_inj h (by omega)
      · rintro ⟨hsend, hrest⟩
        rw [hsend, hrest]
  | case2 chunks answers hnone =>
      rw [performPoll.eq_2 _ _ _ _ hnone, polledUpdates.eq_2 _ _ _ _ hnone]
      exact iff_of_true rfl trivial

end Queues

-- The requests of the poll after the setup, or of a poll at an interval.
def requestsOf (pl : Platform) (mappings : List TagMapping) (peer : Peer)
    (domains : List DomainAnswers) (initial : Bool) : List (List TagMapping) :=
  pollRequests mappings
    (if initial then [] else coveredDomains (setupDSTSSubscriptions pl mappings peer domains).subs)

-- Every tag is polled or reported and every value is queued for each tag that it is for: exactly
-- when the data sets are complete, a reported object has one tag, and there is room.
theorem reported_or_polled_iff (pl : Platform) (conn : Connection) (tags : List RtData)
    (peer : Peer) (domains : List DomainAnswers) (reports : List (Bool × ReportValue))
    (polls : List (Bool × List (Option Answer))) :
    (EveryTagCovered pl (buildTagMappings pl tags) peer domains ∧
        (∀ r ∈ reports, QueuedForEvery pl conn (buildTagMappings pl tags) r.1 r.2) ∧
        ∀ p ∈ polls,
          performPoll pl conn (requestsOf pl (buildTagMappings pl tags) peer domains p.1) p.2 =
            polledUpdates pl conn (requestsOf pl (buildTagMappings pl tags) peer domains p.1) p.2) ↔
      SetsComplete pl (buildTagMappings pl tags) peer domains ∧
        (∀ r ∈ reports, OneTag (buildTagMappings pl tags) r.1 r.2) ∧
        ∀ p ∈ polls,
          RoomForPoll pl conn (requestsOf pl (buildTagMappings pl tags) peer domains p.1) p.2 := by
  apply and_congr everyTagCovered_iff
  apply and_congr
  · exact forall₂_congr fun r _ => queuedForEvery_iff tags r.1 r.2
  · exact forall₂_congr fun p _ => performPoll_eq_iff _ p.2

section Samples

def plain : Platform where
  decodeICCPNamed := fun _ _ => {}
  stateInvalid := 3
  stateString := fun _ => ""
  valueString := fun _ => ""
  classifyDomainVariables := fun vars => (vars, true)
  float64 := fun n => .fin n
  hours := fun _ => 0
  sprint := fun _ => ""
  formatFloat := fun _ => ""
  quote := fun s => s
  hex := fun _ => ""

def pointTag (tag address : String) : RtData := ⟨tag, .string address, .null⟩

def closedSwitch : Option DataValue := some { boolVal := some true }

def switchUpdate (now : ℤ) : DataUpdate where
  protocolSourceConnectionNumber := 1
  protocolSourceObjectAddress := "Dom/A"
  value := .fin 1
  valueString := "true"
  valueJson := "true"
  timeTag := now

-- The data set of an earlier association, to which a second tag was added.
def earlierSet : Peer where
  dataSets := fun ds => if ds = ⟨"Dom", "JSSCADA_DS"⟩ then [⟨"Dom", "A"⟩] else []
  transferSets := fun _ => none

def setExists : DomainAnswers where
  domain := "Dom"
  vars := some ["DSTrans1"]
  domainDatasets := some ["Dom/JSSCADA_DS"]
  vmdDatasets := some []
  created := false
  configured := true
  started := true

-- The new tag is neither polled nor reported, and of two tags of one object one gets nothing.
theorem left_out :
    ¬EveryTagCovered plain (buildTagMappings plain [pointTag "a" "Dom/A", pointTag "b" "Dom/B"])
        earlierSet [setExists] ∧
      ¬QueuedForEvery plain ⟨1, .fin 0⟩
        (buildTagMappings plain [pointTag "a" "Dom/A", pointTag "a2" "Dom/A"]) false
        ⟨"Dom", "A", none, 0⟩ := by
  constructor
  · rw [everyTagCovered_iff]
    intro h
    have hmem : (⟨pointTag "b" "Dom/B", ⟨"Dom", "B"⟩⟩ : TagMapping) ∈
        buildTagMappings plain [pointTag "a" "Dom/A", pointTag "b" "Dom/B"] :=
      List.mem_cons_of_mem _ (List.mem_singleton.mpr rfl)
    obtain ⟨a, ha, sub, hsub, ds, hds, hset⟩ :=
      h _ hmem ⟨setExists, List.mem_singleton.mpr rfl, rfl, rfl⟩
    obtain rfl := List.mem_singleton.mp ha
    obtain rfl : DstsSub.mk "Dom" "DSTrans1" = sub := Option.some.inj hsub
    obtain rfl : ObjectRef.mk "Dom" "JSSCADA_DS" = ds := Option.some.inj hds
    exact absurd hset (by decide)
  · rw [queuedForEvery_iff]
    rintro (h | h)
    · cases h
    · exact absurd h.1 (by decide)

end Samples

end JsonScada.Iccp.Client
