import JsonScada.Mqtt.Devices
import JsonScada.Mqtt.Updates.Invariant

-- What a death does to the nodes and devices and to their tags.
namespace JsonScada.Mqtt

open JsonScada.Library
open JsonScada.JsMongo
open JsonScada.Processor (Document Value truthyValue rawOrNil applySet lookup_applySet)
open JsonScada.WebServer (strictEq)

section Host

structure Host where
  driver : State
  devices : DevicesList := []
  -- the paths of the updates of `InvalidatePathTags` that are not executed
  invalidations : List String := []
  -- what a message has named, or was known before
  named : List String
  -- the addresses of what has died and is not born again
  dead : String → Bool := fun _ => false

inductive HostAction where
  | message (t : TopicInfo) (metrics : List Metric) (now : ℤ)
  -- a step of the runs or of their database
  | values (a : Action)
  | invalidate (i : ℕ)

-- The tags of a node are not those of its devices.
def own (named : List String) (locator address : String) : Bool :=
  under locator address && !named.any fun key => under locator key && under key address

def namedAfter (named : List String) (t : TopicInfo) : List String :=
  if t.valid then t.nodeLocator :: t.locator :: named else named

def deadAfter (named : List String) (t : TopicInfo) (dead : String → Bool) : String → Bool :=
  if !t.valid then dead
  else
    match t.msgType with
    -- a node takes its devices with it
    | .ndeath => fun a => dead a || under t.locator a
    | .ddeath => fun a => dead a || own named t.locator a
    | .nbirth | .dbirth => fun a => dead a && !own named t.locator a
    | .ndata | .ddata | .other => dead

variable (drv : Driver)

def enqueueAll (s : State) (queued : List Data) : State :=
  queued.foldl (fun s d => (drv.step s (.enqueue d)).getD s) s

-- An update is shown as soon as it is executed: the data processor gives the tag the
-- validity of its source.
def valuesStep (s : State) : Action → Option State
  | .enqueue _ => none
  | .execute i =>
      s.updates[i]?.map fun u =>
        let s := drv.execute s i u
        { s with
          coll := updateOne (drv.filter u.value)
            [("invalid", .bool (truthyValue (u.updTag.lookup "invalidAtSource")))] s.coll }
  | a => drv.step s a

def hostStep (s : Host) : HostAction → Option Host
  | .message t metrics now =>
      let effect := handleMessage s.devices t metrics now
      some
        { driver := enqueueAll drv s.driver effect.queued
          devices := effect.devices
          invalidations := s.invalidations ++ effect.invalidated.toList
          named := namedAfter s.named t
          dead := deadAfter (namedAfter s.named t) t s.dead }
  | .values a => (valuesStep drv s.driver a).map fun driver => { s with driver := driver }
  | .invalidate i =>
      s.invalidations[i]?.map fun path =>
        { s with
          driver := { s.driver with
            coll := invalidatePathTags drv.connNumber path s.driver.coll }
          invalidations := s.invalidations.eraseIdx i }

-- The driver starts with what the database has and what was known before.
def hostStart (coll : List Document) (key : ℤ) (known : List String) : Host :=
  { driver := start coll key, named := known }

end Host

section Properties

variable (drv : Driver)

-- What a death is about: a node and its own devices, or a device.
def TopicInfo.kills (t : TopicInfo) (key : String) : Bool :=
  match t.msgType with
  | .ndeath => key = t.nodeLocator || under t.nodeLocator key
  | .ddeath => key = t.deviceLocator
  | _ => false

def TopicInfo.isDeath (t : TopicInfo) : Bool := t.msgType = .ndeath || t.msgType = .ddeath

-- What has died is not birthed, all others as before; and the tags of the connection that
-- are invalidated are those under the path.
def Exact (s : Host) : HostAction → Prop
  | .message t metrics now =>
      t.valid = true → t.isDeath = true → ∀ key,
        isBirthed (handleMessage s.devices t metrics now).devices key =
          (isBirthed s.devices key && !t.kills key)
  | .invalidate i =>
      ∀ path ∈ s.invalidations[i]?, ∀ d ∈ s.driver.coll, ∀ address,
        matchesFilter (addressFilter drv.connNumber address) d = true →
          selects drv.connNumber path d = under path address
  | .values _ => True

-- No tag is shown valid of what is dead, once it is invalidated.
def NotShown (s : Host) : Prop :=
  ∀ address, s.dead address = true → (∀ path ∈ s.invalidations, under path address = false) →
    ∀ d ∈ s.driver.coll, matchesFilter (addressFilter drv.connNumber address) d = true →
      truthyValue (d.lookup "invalid") = true

def isInvalid (d : Data) : Bool := truthyValue (d.get "invalid")

-- The values that are not yet executed.
def underWay (s : State) : List Queued :=
  s.valuesQueue ++ s.runs.filterMap Phase.value ++ s.updates.map Update.value

-- What begins with the text of a path goes on with a level of its own, no valid value of
-- what is dead is under way when its tags are invalidated, and no message has a valid value
-- for a tag of something else that is dead.
def Distinct (s : Host) : HostAction → Prop
  | .message t metrics now =>
      (t.msgType = .ndeath → ∀ k ∈ s.devices,
        startsWith t.nodeLocator k.1 = true → k.1 = t.nodeLocator ∨ under t.nodeLocator k.1 = true) ∧
      ∀ d ∈ (handleMessage s.devices t metrics now).queued, ∀ key ∈ namedAfter s.named t,
        under t.locator key = true → under key d.protocolSourceObjectAddress = true →
          s.dead d.protocolSourceObjectAddress = true → isInvalid d = true
  | .invalidate i =>
      ∀ path ∈ s.invalidations[i]?,
        (∀ d ∈ s.driver.coll, selects drv.connNumber path d = true →
          (docAddress d).any (under path) = true) ∧
        ∀ v ∈ underWay s.driver, under path v.address = true → s.dead v.address = true →
          isInvalid v.data = true
  | .values _ => True

end Properties

section Paths

variable {path key s : String}

theorem startsWith_iff : startsWith path s = true ↔ path.toList <+: s.toList :=
  List.isPrefixOf_iff_prefix

theorem under_iff : under path s = true ↔ path.toList ++ ['/'] <+: s.toList := by
  rw [under, startsWith_iff, String.toList_append]
  rfl

theorem startsWith_self (path : String) : startsWith path path = true :=
  startsWith_iff.mpr List.prefix_rfl

theorem startsWith_of_under (h : under path s = true) : startsWith path s = true := by
  rw [under_iff] at h
  exact startsWith_iff.mpr ((List.prefix_append _ _).trans h)

theorem under_append (path rest : String) : under path (path ++ "/" ++ rest) = true := by
  have hlist : (path ++ "/" ++ rest).toList = (path ++ "/").toList ++ rest.toList :=
    String.toList_append
  rw [under, startsWith_iff, hlist]
  exact List.prefix_append _ _

-- One of two paths to a text goes on to the other.
theorem under_cases (hpath : under path s = true) (hkey : under key s = true) :
    path = key ∨ under path key = true ∨ under key path = true := by
  rw [under_iff] at hpath hkey
  have hlevel {p q : String} (h : p.toList ++ ['/'] <+: q.toList ++ ['/']) :
      p = q ∨ under p q = true := by
    rcases List.prefix_concat_iff.mp h with heq | hlt
    · exact .inl (String.toList_inj.mp (List.append_cancel_right heq))
    · exact .inr (under_iff.mpr hlt)
  rcases List.prefix_or_prefix_of_prefix hpath hkey with h | h
  · rcases hlevel h with heq | hunder
    · exact .inl heq
    · exact .inr (.inl hunder)
  · rcases hlevel h with heq | hunder
    · exact .inl heq.symm
    · exact .inr (.inr hunder)

end Paths

section Queued

def Within (locator : String) (aliases : Aliases) : Prop :=
  ∀ a ∈ aliases, under locator a.2 = true

theorem objectAddress_under {locator template address : String} {aliases aliases' : Aliases}
    {name aliasName : Option String} (h : Within locator aliases)
    (hout : objectAddress locator template aliases name aliasName = some (address, aliases')) :
    under locator address = true ∧ Within locator aliases' := by
  unfold objectAddress at hout
  split at hout
  · obtain ⟨rfl, rfl⟩ := Prod.mk.inj (Option.some.inj hout)
    have haddr := under_append locator
    refine ⟨haddr _, ?_⟩
    cases aliasName with
    | none => exact h
    | some aliasName =>
        intro a ha
        rcases List.mem_cons.mp ha with rfl | ha
        · exact haddr _
        · exact h a ha
  · obtain ⟨found, hfound, hpair⟩ := Option.map_eq_some_iff.mp hout
    obtain ⟨rfl, rfl⟩ := Prod.mk.inj hpair
    obtain ⟨key, -, hlookup⟩ := Option.bind_eq_some_iff.mp hfound
    obtain ⟨front, back, hmem, -⟩ := List.lookup_eq_some_iff.mp hlookup
    exact ⟨h (key, found) (by simp [hmem]), h⟩

mutual

-- Everything that is queued for a node or device lies under it.
theorem queueMetric_under (locator template : String) (aliases : Aliases)
    (h : Within locator aliases) : ∀ m : Metric,
    (∀ d ∈ (queueMetric locator template aliases m).1,
      under locator d.protocolSourceObjectAddress = true) ∧
      Within locator (queueMetric locator template aliases m).2
  | .mk name aliasName typed members isNull properties fields => by
      cases typed with
      | false =>
          rw [queueMetric, if_neg Bool.false_ne_true]
          exact ⟨by simp, h⟩
      | true =>
          rw [queueMetric, if_pos rfl]
          cases haddr : objectAddress locator template aliases name aliasName with
          | none => exact ⟨by simp, h⟩
          | some pair =>
              obtain ⟨address, aliases'⟩ := pair
              obtain ⟨hunder, hwithin⟩ := objectAddress_under h haddr
              cases members with
              | none => exact ⟨fun d hd => by rw [List.mem_singleton.mp hd]; exact hunder, hwithin⟩
              | some members => exact queueMetrics_under locator (name.getD "") aliases' hwithin members

theorem queueMetrics_under (locator template : String) (aliases : Aliases)
    (h : Within locator aliases) : ∀ metrics : List Metric,
    (∀ d ∈ (queueMetrics locator template aliases metrics).1,
      under locator d.protocolSourceObjectAddress = true) ∧
      Within locator (queueMetrics locator template aliases metrics).2
  | [] => ⟨by simp [queueMetrics], h⟩
  | m :: metrics => by
      obtain ⟨hfirst, hwithin⟩ := queueMetric_under locator template aliases h m
      obtain ⟨hrest, hlast⟩ := queueMetrics_under locator template _ hwithin metrics
      refine ⟨fun d hd => ?_, hlast⟩
      rcases List.mem_append.mp hd with hd | hd
      · exact hfirst d hd
      · exact hrest d hd

end

end Queued

section Values

variable {drv : Driver} {s s' : State} {a : String}

-- The documents and updates that runs make of a value say of it what it says itself.
structure ValuesOk (drv : Driver) (s : State) : Prop where
  news : ∀ v newTag, .inserting v newTag ∈ s.runs →
    matchesFilter (drv.filter v) newTag = true ∧
      (isInvalid v.data = true → truthyValue (newTag.lookup "invalid") = true)
  sent : ∀ u ∈ s.updates,
    truthyValue (u.updTag.lookup "invalidAtSource") = isInvalid u.value.data

-- Every tag of the address is invalid, and every value that comes for it.
structure Settled (drv : Driver) (s : State) (a : String) : Prop where
  docs : ∀ d ∈ s.coll, matchesFilter (addressFilter drv.connNumber a) d = true →
    truthyValue (d.lookup "invalid") = true
  values : ∀ v ∈ underWay s, v.address = a → isInvalid v.data = true

theorem mem_underWay {v : Queued} : v ∈ underWay s ↔
    v ∈ s.valuesQueue ∨ (∃ p ∈ s.runs, p.value = some v) ∨ ∃ u ∈ s.updates, u.value = v := by
  simp only [underWay, List.mem_append, List.mem_filterMap, List.mem_map, or_assoc]

theorem truthyValue_rawOrNil (v : Option Value) :
    truthyValue (some (rawOrNil v)) = truthyValue v := by
  cases v <;> rfl

theorem updTag_invalid (rt : Processor.Node.Runtime) (connNumber now : ℤ) (d : Data) :
    truthyValue ((updTag rt connNumber now d).lookup "invalidAtSource") = isInvalid d := by
  have hlookup : (updTag rt connNumber now d).lookup "invalidAtSource" =
      some (rawOrNil (d.get "invalid")) := by
    simp [updTag, List.lookup_cons]
  rw [hlookup, truthyValue_rawOrNil, isInvalid]

theorem get_withGroups (d : Data) : d.withGroups.get "invalid" = d.get "invalid" := by
  simp only [Data.withGroups]
  repeat' split
  all_goals
    change List.lookup "invalid" _ = List.lookup "invalid" _
    simp [lookup_setOne]

theorem createdTag_invalid {rt : Processor.Node.Runtime} {connNumber key : ℤ} {d : Data}
    {newTag : Document} (h : createdTag rt connNumber key d = some newTag)
    (hinvalid : isInvalid d = true) : truthyValue (newTag.lookup "invalid") = true := by
  obtain ⟨fields, hfields, rfl⟩ := Option.map_eq_some_iff.mp h
  obtain ⟨⟨description, ungrouped⟩, -, rfl⟩ := Option.map_eq_some_iff.mp hfields
  have hstrict : d.isStrictly "invalid" (.bool false) = false := by
    unfold isInvalid at hinvalid
    unfold Data.isStrictly
    cases hv : d.get "invalid" with
    | none => rfl
    | some v =>
        rw [hv] at hinvalid
        cases v with
        | bool b =>
            cases b with
            | false => cases hinvalid
            | true => rfl
        | _ => rfl
  rw [lookup_applySet]
  simp [List.lookup_cons, hstrict, truthyValue]

theorem underWay_subset (hqueue : ∀ v ∈ s'.valuesQueue, v ∈ underWay s)
    (hruns : ∀ p ∈ s'.runs, ∀ v, p.value = some v → v ∈ underWay s)
    (hupdates : ∀ u ∈ s'.updates, u.value ∈ underWay s) : ∀ v ∈ underWay s', v ∈ underWay s := by
  intro v hv
  rcases mem_underWay.mp hv with hv | ⟨p, hp, hv⟩ | ⟨u, hu, rfl⟩
  · exact hqueue v hv
  · exact hruns p hp v hv
  · exact hupdates u hu

theorem queue_underWay (s : State) : ∀ v ∈ s.valuesQueue, v ∈ underWay s :=
  fun _ hv => mem_underWay.mpr (.inl hv)

theorem run_underWay {p : Phase} (hp : p ∈ s.runs) : ∀ v, p.value = some v → v ∈ underWay s :=
  fun _ hv => mem_underWay.mpr (.inr (.inl ⟨p, hp, hv⟩))

theorem update_underWay (s : State) : ∀ u ∈ s.updates, u.value ∈ underWay s :=
  fun u hu => mem_underWay.mpr (.inr (.inr ⟨u, hu, rfl⟩))

theorem runs_underWay {i : ℕ} {q : Phase} (hq : ∀ v, q.value = some v → v ∈ underWay s) :
    ∀ p ∈ s.runs.set i q, ∀ v, p.value = some v → v ∈ underWay s := by
  intro p hp
  rcases List.mem_or_eq_of_mem_set hp with hp | rfl
  · exact run_underWay hp
  · exact hq

theorem ValuesOk.news_set (h : ValuesOk drv s) {i : ℕ} {q : Phase}
    (hq : ∀ v newTag, q ≠ .inserting v newTag) :
    ∀ v newTag, .inserting v newTag ∈ s.runs.set i q →
      matchesFilter (drv.filter v) newTag = true ∧
        (isInvalid v.data = true → truthyValue (newTag.lookup "invalid") = true) := by
  intro v newTag hmem
  rcases List.mem_or_eq_of_mem_set hmem with hmem | heq
  · exact h.news v newTag hmem
  · exact absurd heq.symm (hq v newTag)

-- A turn of a run brings no other value, and keeps what is made of them.
theorem goOn_frame {i : ℕ} {now : ℤ} {p : Phase} (hp : s.runs[i]? = some p)
    (hstep : drv.goOn s i now p = some s') (hok : ValuesOk drv s) :
    s'.coll = s.coll ∧ (∀ v ∈ underWay s', v ∈ underWay s) ∧ ValuesOk drv s' := by
  have hmem := List.mem_of_getElem? hp
  have hnone : ∀ v, Phase.loop.value = some v → v ∈ underWay s := fun v hv => by cases hv
  cases p with
  | loop =>
      cases hqueue : s.valuesQueue with
      | nil =>
          simp only [Driver.goOn, hqueue, Option.some.injEq] at hstep
          subst hstep
          refine ⟨rfl, underWay_subset (by simp) ?_ (update_underWay s), ⟨?_, hok.sent⟩⟩
          · exact fun q hq => run_underWay (List.mem_of_mem_eraseIdx hq)
          · exact fun v newTag hv => hok.news v newTag (List.mem_of_mem_eraseIdx hv)
      | cons v valuesQueue =>
          simp only [Driver.goOn, hqueue, Option.some.injEq] at hstep
          subst hstep
          have hfirst : ∀ w ∈ v :: valuesQueue, w ∈ underWay s := by
            rw [← hqueue]
            exact queue_underWay s
          refine ⟨rfl, underWay_subset ?_ (runs_underWay ?_) (update_underWay s),
            ⟨hok.news_set ?_, hok.sent⟩⟩
          · exact fun w hw => hfirst w (List.mem_cons_of_mem v hw)
          · intro w hw
            have hvalue : w = v := by
              split at hw <;> exact (Option.some.inj hw).symm
            rw [hvalue]
            exact hfirst v List.mem_cons_self
          · intro w newTag
            split <;> simp
  | finding v => cases hstep
  | found v any =>
      have hv : v ∈ underWay s := run_underWay hmem v rfl
      cases any with
      | false =>
          simp only [Driver.goOn, Option.some.injEq] at hstep
          subst hstep
          refine ⟨rfl, underWay_subset (queue_underWay s) (runs_underWay ?_) (update_underWay s),
            ⟨?_, hok.sent⟩⟩
          · intro w hw
            split at hw
            · obtain rfl := Option.some.inj hw
              exact hv
            · cases hw
          · intro w newTag hw
            rcases List.mem_or_eq_of_mem_set hw with hw | heq
            · exact hok.news w newTag hw
            · split at heq
              · rename_i newTag' hnew
                obtain ⟨rfl, rfl⟩ := Phase.inserting.inj heq
                have hmatch := matches_createdTag hnew
                rw [address_withGroups] at hmatch
                refine ⟨hmatch, fun hinvalid => createdTag_invalid hnew ?_⟩
                rw [isInvalid, get_withGroups]
                exact hinvalid
              · cases heq
      | true =>
          obtain rfl := Option.some.inj hstep
          refine ⟨rfl, underWay_subset (queue_underWay s) (runs_underWay ?_) (update_underWay s),
            ⟨hok.news_set (by simp), hok.sent⟩⟩
          intro w hw
          obtain rfl := Option.some.inj hw
          exact hv
  | inserting v newTag => cases hstep
  | inserted v acknowledged =>
      have hv : v ∈ underWay s := run_underWay hmem v rfl
      cases acknowledged with
      | false =>
          obtain rfl := Option.some.inj hstep
          exact ⟨rfl, underWay_subset (queue_underWay s) (runs_underWay hnone) (update_underWay s),
            ⟨hok.news_set (by simp), hok.sent⟩⟩
      | true =>
          obtain rfl := Option.some.inj hstep
          refine ⟨rfl, underWay_subset (queue_underWay s) (runs_underWay ?_) (update_underWay s),
            ⟨hok.news_set (by simp), hok.sent⟩⟩
          intro w hw
          obtain rfl := Option.some.inj hw
          exact hv
  | created v =>
      have hv : v ∈ underWay s := run_underWay hmem v rfl
      obtain rfl := Option.some.inj hstep
      refine ⟨rfl, underWay_subset (queue_underWay s) (runs_underWay hnone) ?_,
        ⟨hok.news_set (by simp), ?_⟩⟩
      · intro u hu
        rcases List.mem_append.mp hu with hu | hu
        · exact update_underWay s u hu
        · obtain rfl := List.mem_singleton.mp hu
          exact hv
      · intro u hu
        rcases List.mem_append.mp hu with hu | hu
        · exact hok.sent u hu
        · obtain rfl := List.mem_singleton.mp hu
          exact updTag_invalid _ _ _ _

theorem address_of_matches {connNumber : ℤ} {b : String} {d : Document}
    (ha : matchesFilter (addressFilter connNumber a) d = true)
    (hb : matchesFilter (addressFilter connNumber b) d = true) : a = b := by
  have heq := (matches_addressFilter.mp ha).2.symm.trans (matches_addressFilter.mp hb).2
  exact Value.string.inj (Option.some.inj heq)

-- Tags stay invalid when an update says nothing else of them.
theorem invalid_updateOne {coll : List Document} {w : Queued} {key : String} {x : Value}
    (hkey : key ∉ ["protocolSourceConnectionNumber", "protocolSourceObjectAddress"])
    (hdocs : ∀ d ∈ coll, matchesFilter (addressFilter drv.connNumber a) d = true →
      truthyValue (d.lookup "invalid") = true)
    (hx : key = "invalid" → w.address = a → truthyValue (some x) = true) :
    ∀ d ∈ updateOne (drv.filter w) [(key, x)] coll,
      matchesFilter (addressFilter drv.connNumber a) d = true →
        truthyValue (d.lookup "invalid") = true := by
  intro d hd hmatch
  rcases Table.of_mem_updateFirst hd with hd | ⟨e, he, hw, rfl⟩
  · exact hdocs d hd hmatch
  · rw [matches_setOne hkey] at hmatch
    rw [lookup_setOne]
    split
    · next hinvalid => exact hx hinvalid.symm (address_of_matches hw hmatch)
    · exact hdocs e he hmatch

theorem Settled.valuesStep (h : Settled drv s a) (hok : ValuesOk drv s) {b : Action}
    (hstep : valuesStep drv s b = some s') : Settled drv s' a := by
  cases b with
  | enqueue d => cases hstep
  | tick =>
      obtain rfl := Option.some.inj hstep
      refine ⟨h.docs, fun v hv => h.values v ?_⟩
      revert v hv
      refine underWay_subset (queue_underWay s) ?_ (update_underWay s)
      intro p hp v hv
      rcases List.mem_append.mp hp with hp | hp
      · exact run_underWay hp v hv
      · obtain rfl := List.mem_singleton.mp hp
        cases hv
  | goOn i now =>
      obtain ⟨p, hp, hgo⟩ := Option.bind_eq_some_iff.mp hstep
      obtain ⟨hcoll, hsub, -⟩ := goOn_frame hp hgo hok
      exact ⟨hcoll ▸ h.docs, fun v hv => h.values v (hsub v hv)⟩
  | answer i =>
      obtain ⟨p, hp, hanswer⟩ := Option.bind_eq_some_iff.mp hstep
      have hmem := List.mem_of_getElem? hp
      cases p with
      | finding v =>
          obtain rfl := Option.some.inj hanswer
          refine ⟨h.docs, fun w hw => h.values w ?_⟩
          revert w hw
          exact underWay_subset (queue_underWay s)
            (runs_underWay fun w hw => run_underWay hmem w hw) (update_underWay s)
      | inserting v newTag =>
          have hsub (coll : List Document) (acknowledged : Bool) :
              ∀ w ∈ underWay { s with coll := coll, runs := s.runs.set i (.inserted v acknowledged) },
                w ∈ underWay s :=
            underWay_subset (queue_underWay s) (runs_underWay fun w hw => run_underWay hmem w hw)
              (update_underWay s)
          cases hinsert : drv.insertTag s.coll newTag with
          | none =>
              simp only [Driver.answer, hinsert, Option.some.injEq] at hanswer
              subst hanswer
              exact ⟨h.docs, fun w hw => h.values w (hsub s.coll false w hw)⟩
          | some coll =>
              simp only [Driver.answer, hinsert, Option.some.injEq] at hanswer
              subst hanswer
              obtain rfl := insertTag_eq hinsert
              refine ⟨?_, fun w hw => h.values w (hsub _ true w hw)⟩
              intro d hd hmatch
              rcases List.mem_append.mp hd with hd | hd
              · exact h.docs d hd hmatch
              · obtain rfl := List.mem_singleton.mp hd
                obtain ⟨hnew, hinvalid⟩ := hok.news v d hmem
                have haddr : v.address = a := address_of_matches hnew hmatch
                exact hinvalid (h.values v (run_underWay hmem v rfl) haddr)
      | loop | found | inserted | created => cases hanswer
  | execute i =>
      obtain ⟨u, hu, rfl⟩ := Option.map_eq_some_iff.mp hstep
      have hmem := List.mem_of_getElem? hu
      constructor
      · refine invalid_updateOne (by decide) (invalid_updateOne (by decide) h.docs (by simp)) ?_
        intro _ haddr
        have hvalue := h.values u.value (update_underWay s u hmem) haddr
        rw [hok.sent u hmem, hvalue]
        rfl
      · intro v hv
        refine h.values v ?_
        revert v hv
        exact underWay_subset (queue_underWay s) (fun p hp => run_underWay hp)
          fun w hw => update_underWay s w (List.mem_of_mem_eraseIdx hw)

theorem ValuesOk.valuesStep (h : ValuesOk drv s) {b : Action}
    (hstep : valuesStep drv s b = some s') : ValuesOk drv s' := by
  cases b with
  | enqueue d => cases hstep
  | tick =>
      obtain rfl := Option.some.inj hstep
      exact ⟨fun v newTag hv => h.news v newTag (by simpa using hv), h.sent⟩
  | goOn i now =>
      obtain ⟨p, hp, hgo⟩ := Option.bind_eq_some_iff.mp hstep
      exact (goOn_frame hp hgo h).2.2
  | answer i =>
      obtain ⟨p, hp, hanswer⟩ := Option.bind_eq_some_iff.mp hstep
      cases p with
      | finding v =>
          obtain rfl := Option.some.inj hanswer
          exact ⟨h.news_set (by simp), h.sent⟩
      | inserting v newTag =>
          simp only [Driver.answer] at hanswer
          split at hanswer
          · obtain rfl := Option.some.inj hanswer
            exact ⟨h.news_set (by simp), h.sent⟩
          · obtain rfl := Option.some.inj hanswer
            exact ⟨h.news_set (by simp), h.sent⟩
      | loop | found | inserted | created => cases hanswer
  | execute i =>
      obtain ⟨u, -, rfl⟩ := Option.map_eq_some_iff.mp hstep
      exact ⟨h.news, fun w hw => h.sent w (List.mem_of_mem_eraseIdx hw)⟩

end Values

end JsonScada.Mqtt
