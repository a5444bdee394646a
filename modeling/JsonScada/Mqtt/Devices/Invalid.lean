import JsonScada.Library.Assoc
import JsonScada.Mqtt.Devices.Deaths
import JsonScada.Mqtt.Updates.Invariant

-- No tag of what is dead is shown valid, as long as the texts of the paths keep the nodes
-- and devices apart and no valid value waits behind its death.
namespace JsonScada.Mqtt

open JsonScada.Library
open JsonScada.JsMongo
open JsonScada.Processor (Document Value truthyValue applySet)

section Lookup

variable {devices : DevicesList} {locator key : String}

theorem lookup_setDevice (d : Device) :
    (setDevice devices locator d).lookup key =
      if key = locator then some d else devices.lookup key := by
  rw [setDevice, List.lookup_cons]
  by_cases hkey : key = locator
  · simp [hkey]
  · have hne : (key == locator) = false := by simpa using hkey
    rw [hne, if_neg hkey]
    exact Assoc.lookup_filter_ne hkey devices

theorem isBirthed_setDevice (d : Device) :
    isBirthed (setDevice devices locator d) key =
      if key = locator then d.birthed else isBirthed devices key := by
  unfold isBirthed
  rw [lookup_setDevice]
  split <;> rfl

theorem mem_of_isBirthed (h : isBirthed devices key = true) : ∃ d, (key, d) ∈ devices := by
  obtain ⟨d, hd, -⟩ := (Option.any_eq_true _ _).mp h
  obtain ⟨front, back, hmem, -⟩ := List.lookup_eq_some_iff.mp hd
  exact ⟨d, by simp [hmem]⟩

-- A death leaves birthed what it does not select.
theorem isBirthed_unborn (devices : DevicesList) (key : String) (selected : String → Bool) :
    isBirthed (devices.map fun (k, d) => (k, if selected k then unborn d else d)) key =
      (isBirthed devices key && !selected key) := by
  unfold isBirthed
  rw [Assoc.lookup_map fun k d => if selected k then unborn d else d]
  cases devices.lookup key with
  | none => rfl
  | some d => cases hsel : selected key <;> simp [unborn]

end Lookup

section Known

variable {devices : DevicesList} {named named' : List String} {dead dead' : String → Bool}
  {locator key a : String}

-- A name between a locator and an address.
def Between (named : List String) (locator address : String) : Prop :=
  ∃ key ∈ named, under locator key = true ∧ under key address = true

-- The aliases of a device are its own, and what is dead under a birthed one belongs to
-- something that is named under it.
structure Known (devices : DevicesList) (named : List String) (dead : String → Bool) : Prop where
  aliases : ∀ k ∈ devices, Within k.1 k.2.mapAliasToObjectAddress
  keys : ∀ k ∈ devices, k.1 ∈ named
  births : ∀ key a, isBirthed devices key = true → under key a = true → dead a = true →
    Between named key a

theorem Between.mono (h : Between named locator a) (hsub : ∀ key ∈ named, key ∈ named') :
    Between named' locator a := by
  obtain ⟨key, hkey, hunder⟩ := h
  exact ⟨key, hsub key hkey, hunder⟩

theorem between_of_not_own (hunder : under locator a = true) (h : own named locator a = false) :
    Between named locator a := by
  simp only [own, hunder, Bool.true_and, Bool.not_eq_false', List.any_eq_true,
    Bool.and_eq_true] at h
  exact h

theorem under_of_own (h : own named locator a = true) : under locator a = true :=
  (Bool.and_eq_true_iff.mp h).1

theorem not_between_of_own (h : own named locator a = true) : ¬Between named locator a := by
  rintro ⟨key, hkey, hunder⟩
  have hnone := (Bool.and_eq_true_iff.mp h).2
  rw [Bool.not_eq_true', List.any_eq_false] at hnone
  exact hnone key hkey (Bool.and_eq_true_iff.mpr hunder)

theorem Known.mono (h : Known devices named dead) (hsub : ∀ key ∈ named, key ∈ named')
    (hdead : ∀ a, dead' a = true → dead a = true) : Known devices named' dead' where
  aliases := h.aliases
  keys k hk := hsub k.1 (h.keys k hk)
  births key a hbirthed hunder ha := (h.births key a hbirthed hunder (hdead a ha)).mono hsub

theorem Known.setDevice (h : Known devices named dead) {d : Device} (hkey : locator ∈ named)
    (haliases : Within locator d.mapAliasToObjectAddress)
    (hbirth : d.birthed = true → ∀ a, under locator a = true → dead a = true →
      Between named locator a) : Known (setDevice devices locator d) named dead where
  aliases k hk := by
    rcases List.mem_cons.mp hk with rfl | hk
    · exact haliases
    · exact h.aliases k (List.mem_of_mem_filter hk)
  keys k hk := by
    rcases List.mem_cons.mp hk with rfl | hk
    · exact hkey
    · exact h.keys k (List.mem_of_mem_filter hk)
  births key a hbirthed hunder ha := by
    rw [isBirthed_setDevice] at hbirthed
    split at hbirthed
    · next heq =>
        subst heq
        exact hbirth hbirthed a hunder ha
    · exact h.births key a hbirthed hunder ha

-- After a death, what was dead before stays with what it belongs to.
theorem Known.unborn (h : Known devices named dead) (selected : String → Bool)
    (hdead : ∀ key ∈ named, selected key = false → ∀ a, under key a = true → dead' a = true →
      dead a = true ∨ Between named key a) :
    Known (devices.map fun (k, d) => (k, if selected k then unborn d else d)) named dead' where
  aliases k hk := by
    obtain ⟨⟨name, d⟩, hmem, rfl⟩ := List.mem_map.mp hk
    have hwithin := h.aliases _ hmem
    dsimp only
    split
    · exact hwithin
    · exact hwithin
  keys k hk := by
    obtain ⟨⟨name, d⟩, hmem, rfl⟩ := List.mem_map.mp hk
    exact h.keys (name, d) hmem
  births key a hbirthed hunder ha := by
    rw [isBirthed_unborn, Bool.and_eq_true_iff, Bool.not_eq_true'] at hbirthed
    obtain ⟨hbirthed, hsel⟩ := hbirthed
    obtain ⟨d, hmem⟩ := mem_of_isBirthed hbirthed
    rcases hdead key (h.keys _ hmem) hsel a hunder ha with ha | hbetween
    · exact h.births key a hbirthed hunder ha
    · exact hbetween

end Known

section Handled

variable {devices : DevicesList} {named : List String} {dead : String → Bool} {t : TopicInfo}
  {metrics : List Metric} {now : ℤ}

-- What the effect of a message leaves true.
structure Handled (named : List String) (dead : String → Bool) (t : TopicInfo) (e : Effect) :
    Prop where
  known : Known e.devices (namedAfter named t) (deadAfter (namedAfter named t) t dead)
  queued : ∀ d ∈ e.queued,
    deadAfter (namedAfter named t) t dead d.protocolSourceObjectAddress = true →
    dead d.protocolSourceObjectAddress = true ∧
      Between (namedAfter named t) t.locator d.protocolSourceObjectAddress
  invalidated : ∀ a, deadAfter (namedAfter named t) t dead a = true →
    dead a = true ∨ ∃ path ∈ e.invalidated, under path a = true

theorem mem_namedAfter (t : TopicInfo) : ∀ key ∈ named, key ∈ namedAfter named t := by
  intro key hkey
  unfold namedAfter
  split
  · exact List.mem_cons_of_mem _ (List.mem_cons_of_mem _ hkey)
  · exact hkey

theorem nodeLocator_mem (h : t.valid = true) : t.nodeLocator ∈ namedAfter named t := by
  simp [namedAfter, h]

theorem locator_mem (h : t.valid = true) : t.locator ∈ namedAfter named t := by
  simp [namedAfter, h]

-- A message that kills nothing and brings nothing back.
theorem handled_of_same (hdead : deadAfter (namedAfter named t) t dead = dead) {e : Effect}
    (hknown : Known e.devices (namedAfter named t) dead)
    (hqueued : ∀ d ∈ e.queued, dead d.protocolSourceObjectAddress = true →
      Between (namedAfter named t) t.locator d.protocolSourceObjectAddress) :
    Handled named dead t e where
  known := by rw [hdead]; exact hknown
  queued d hd ha := by
    rw [hdead] at ha
    exact ⟨ha, hqueued d hd ha⟩
  invalidated a ha := by
    rw [hdead] at ha
    exact .inl ha

theorem Handled.birth (metrics : List Metric) (hvalid : t.valid = true) (h : Known devices named dead)
    (hdead : deadAfter (namedAfter named t) t dead =
      fun a => dead a && !own (namedAfter named t) t.locator a) (invalidated : Option String) :
    Handled named dead t
      { processBirth devices t.locator metrics with invalidated := invalidated } := by
  have hempty : Within t.locator [] := fun a ha => by cases ha
  obtain ⟨hunder, hwithin⟩ := queueMetrics_under t.locator "" [] hempty metrics
  have hbefore (a : String)
      (ha : deadAfter (namedAfter named t) t dead a = true) :
      dead a = true ∧ (under t.locator a = true → Between (namedAfter named t) t.locator a) := by
    rw [hdead, Bool.and_eq_true_iff, Bool.not_eq_true'] at ha
    exact ⟨ha.1, fun hunder => between_of_not_own hunder ha.2⟩
  constructor
  · have hmono := h.mono (mem_namedAfter t) fun a ha => (hbefore a ha).1
    exact hmono.setDevice (locator_mem hvalid) hwithin fun _ a hu ha => (hbefore a ha).2 hu
  · intro d hd ha
    exact ⟨(hbefore _ ha).1, (hbefore _ ha).2 (hunder d hd)⟩
  · exact fun a ha => .inl (hbefore a ha).1

theorem Handled.data (hvalid : t.valid = true) (h : Known devices named dead)
    (hdead : deadAfter (namedAfter named t) t dead = dead) {d : Device}
    (hlookup : devices.lookup t.locator = some d) (hbirthed : d.birthed = true) :
    Handled named dead t (processData devices t.locator d metrics) := by
  have hmem : (t.locator, d) ∈ devices := by
    obtain ⟨front, back, hmem, -⟩ := List.lookup_eq_some_iff.mp hlookup
    simp [hmem]
  have hbirths (a : String) (hunder : under t.locator a = true) (ha : dead a = true) :
      Between (namedAfter named t) t.locator a := by
    have hkey : isBirthed devices t.locator = true := by simp [isBirthed, hlookup, hbirthed]
    exact (h.births _ a hkey hunder ha).mono (mem_namedAfter t)
  obtain ⟨hunder, hwithin⟩ :=
    queueMetrics_under t.locator "" d.mapAliasToObjectAddress (h.aliases _ hmem) metrics
  apply handled_of_same hdead
  · have hmono := h.mono (mem_namedAfter t) fun a ha => ha
    exact hmono.setDevice (locator_mem hvalid) hwithin fun _ => hbirths
  · exact fun d hd => hbirths _ (hunder d hd)

theorem Handled.refused (hvalid : t.valid = true) (h : Known devices named dead)
    (hdead : deadAfter (namedAfter named t) t dead = dead) :
    Handled named dead t (refused devices t.nodeLocator now) := by
  have hmono := h.mono (mem_namedAfter t) fun a ha => ha
  apply handled_of_same hdead
  · unfold Mqtt.refused
    dsimp only
    split
    · exact hmono
    · exact hmono.setDevice (nodeLocator_mem hvalid) (fun a ha => by cases ha) (by simp)
  · intro d hd
    unfold Mqtt.refused at hd
    dsimp only at hd
    split at hd <;> cases hd

theorem Handled.anyData (hvalid : t.valid = true) (htype : t.msgType = .ndata ∨ t.msgType = .ddata)
    (h : Known devices named dead) :
    Handled named dead t (handleMessage devices t metrics now) := by
  have hdead : deadAfter (namedAfter named t) t dead = dead := by
    rcases htype with htype | htype <;> simp [deadAfter, hvalid, htype]
  cases hlookup : devices.lookup t.locator with
  | none =>
      have heffect : handleMessage devices t metrics now = Mqtt.refused devices t.nodeLocator now := by
        rcases htype with htype | htype <;> simp [handleMessage, hvalid, htype, hlookup]
      rw [heffect]
      exact .refused hvalid h hdead
  | some d =>
      have heffect : handleMessage devices t metrics now =
          if d.birthed then processData devices t.locator d metrics
          else Mqtt.refused devices t.nodeLocator now := by
        rcases htype with htype | htype <;> simp [handleMessage, hvalid, htype, hlookup]
      rw [heffect]
      split
      · next hbirthed => exact .data hvalid h hdead hlookup hbirthed
      · exact .refused hvalid h hdead

theorem Handled.ndeath (hvalid : t.valid = true) (htype : t.msgType = .ndeath)
    (h : Known devices named dead) :
    Handled named dead t (handleMessage devices t metrics now) := by
  have hlocator : t.locator = t.nodeLocator := by simp [TopicInfo.locator, htype, MsgType.ofDevice]
  have hdead : deadAfter (namedAfter named t) t dead = fun a => dead a || under t.nodeLocator a := by
    simp [deadAfter, hvalid, htype, hlocator]
  have heffect : handleMessage devices t metrics now =
      { devices := devices.map fun (key, d) =>
          (key, if startsWith t.nodeLocator key then Mqtt.unborn d else d)
        invalidated := some t.nodeLocator } := by
    simp [handleMessage, hvalid, htype]
  rw [heffect]
  constructor
  · rw [hdead]
    refine (h.mono (mem_namedAfter t) fun a ha => ha).unborn (startsWith t.nodeLocator) ?_
    intro key hkey hsel a hunder ha
    rcases Bool.or_eq_true_iff.mp ha with ha | ha
    · exact .inl ha
    -- the address is of the node too, so the key goes on to the node
    · have hout : ¬startsWith t.nodeLocator key = true := by simp [hsel]
      rcases under_cases ha hunder with rfl | hkey | hnode
      · exact absurd (startsWith_self _) hout
      · exact absurd (startsWith_of_under hkey) hout
      · exact .inr ⟨t.nodeLocator, nodeLocator_mem hvalid, hnode, ha⟩
  · intro d hd
    cases hd
  · intro a ha
    rw [hdead] at ha
    rcases Bool.or_eq_true_iff.mp ha with ha | ha
    · exact .inl ha
    · exact .inr ⟨t.nodeLocator, rfl, ha⟩

theorem Handled.ddeath (hvalid : t.valid = true) (htype : t.msgType = .ddeath)
    (h : Known devices named dead) :
    Handled named dead t (handleMessage devices t metrics now) := by
  have hlocator : t.locator = t.deviceLocator := by
    simp [TopicInfo.locator, htype, MsgType.ofDevice]
  have hdead : deadAfter (namedAfter named t) t dead =
      fun a => dead a || own (namedAfter named t) t.deviceLocator a := by
    simp [deadAfter, hvalid, htype, hlocator]
  have heffect : handleMessage devices t metrics now =
      { devices := devices.map fun (key, d) =>
          (key, if (decide (key = t.deviceLocator)) then Mqtt.unborn d else d)
        invalidated := some t.deviceLocator } := by
    simp [handleMessage, hvalid, htype]
  rw [heffect]
  constructor
  · rw [hdead]
    refine (h.mono (mem_namedAfter t) fun a ha => ha).unborn (fun key => key = t.deviceLocator) ?_
    intro key hkey hsel a hunder ha
    rcases Bool.or_eq_true_iff.mp ha with ha | ha
    · exact .inl ha
    · rcases under_cases (under_of_own ha) hunder with heq | hdeeper | hdevice
      · simp [heq] at hsel
      · exact absurd ⟨key, hkey, hdeeper, hunder⟩ (not_between_of_own ha)
      · exact .inr ⟨t.deviceLocator, hlocator ▸ locator_mem hvalid, hdevice, under_of_own ha⟩
  · intro d hd
    cases hd
  · intro a ha
    rw [hdead] at ha
    rcases Bool.or_eq_true_iff.mp ha with ha | ha
    · exact .inl ha
    · exact .inr ⟨t.deviceLocator, rfl, under_of_own ha⟩

theorem handled (h : Known devices named dead) (t : TopicInfo) (metrics : List Metric) (now : ℤ) :
    Handled named dead t (handleMessage devices t metrics now) := by
  cases hvalid : t.valid with
  | false =>
      have hdead : deadAfter (namedAfter named t) t dead = dead := by simp [deadAfter, hvalid]
      have heffect : handleMessage devices t metrics now = { devices := devices } := by
        simp [handleMessage, hvalid]
      rw [heffect]
      exact handled_of_same hdead (h.mono (mem_namedAfter t) fun a ha => ha) (by simp)
  | true =>
      cases htype : t.msgType with
      | ndata => exact .anyData hvalid (.inl htype) h
      | ddata => exact .anyData hvalid (.inr htype) h
      | nbirth =>
          have hbirth := Handled.birth metrics hvalid h
            (by simp [deadAfter, hvalid, htype]) (some t.nodeLocator)
          simpa [handleMessage, hvalid, htype] using hbirth
      | dbirth =>
          have hbirth := Handled.birth metrics hvalid h
            (by simp [deadAfter, hvalid, htype]) none
          simpa [handleMessage, hvalid, htype, processBirth] using hbirth
      | ndeath => exact .ndeath hvalid htype h
      | ddeath => exact .ddeath hvalid htype h
      | other =>
          have hdead : deadAfter (namedAfter named t) t dead = dead := by
            simp [deadAfter, hvalid, htype]
          have heffect : handleMessage devices t metrics now = { devices := devices } := by
            simp [handleMessage, hvalid, htype]
          rw [heffect]
          exact handled_of_same hdead (h.mono (mem_namedAfter t) fun a ha => ha) (by simp)

end Handled

section Runs

variable {drv : Driver} {s s' : Host}

variable (drv) in
theorem enqueueAll_frame (queued : List Data) (s : State) :
    (enqueueAll drv s queued).coll = s.coll ∧ (enqueueAll drv s queued).runs = s.runs ∧
      (enqueueAll drv s queued).updates = s.updates ∧
      ∀ v ∈ (enqueueAll drv s queued).valuesQueue, v ∈ s.valuesQueue ∨ v.data ∈ queued := by
  induction queued generalizing s with
  | nil => exact ⟨rfl, rfl, rfl, fun v hv => .inl hv⟩
  | cons d queued ih =>
      obtain ⟨hcoll, hruns, hupdates, hqueue⟩ := ih ((drv.step s (.enqueue d)).getD s)
      refine ⟨hcoll, hruns, hupdates, fun v hv => ?_⟩
      rcases hqueue v hv with hv | hv
      · rcases List.mem_append.mp hv with hv | hv
        · exact .inl hv
        · right
          rw [List.mem_singleton.mp hv]
          exact List.mem_cons_self
      · exact .inr (List.mem_cons_of_mem d hv)

-- What is dead is to be invalidated, or it is settled.
structure HostInv (drv : Driver) (s : Host) : Prop where
  known : Known s.devices s.named s.dead
  made : ValuesOk drv s.driver
  dead : ∀ a, s.dead a = true →
    (∃ path ∈ s.invalidations, under path a = true) ∨ Settled drv s.driver a

theorem hostInv_start (drv : Driver) (coll : List Document) (key : ℤ) (known : List String) :
    HostInv drv (hostStart coll key known) where
  known := by
    constructor
    · intro k hk
      cases hk
    · intro k hk
      cases hk
    · intro key a h
      cases h
  made := by
    constructor
    · intro v newTag h
      cases h
    · intro u h
      cases h
  dead a h := by cases h

theorem ValuesOk.enqueueAll {s : State} (h : ValuesOk drv s) (queued : List Data) :
    ValuesOk drv (enqueueAll drv s queued) := by
  obtain ⟨-, hruns, hupdates, -⟩ := enqueueAll_frame drv queued s
  constructor
  · rw [hruns]
    exact h.news
  · rw [hupdates]
    exact h.sent

theorem Settled.enqueueAll {s : State} {a : String} (h : Settled drv s a) {queued : List Data}
    (hqueued : ∀ d ∈ queued, d.protocolSourceObjectAddress = a → isInvalid d = true) :
    Settled drv (enqueueAll drv s queued) a := by
  obtain ⟨hcoll, hruns, hupdates, hqueue⟩ := enqueueAll_frame drv queued s
  constructor
  · rw [hcoll]
    exact h.docs
  · intro v hv haddr
    rw [mem_underWay, hruns, hupdates] at hv
    rcases hv with hv | hv
    · rcases hqueue v hv with hv | hv
      · exact h.values v (queue_underWay s v hv) haddr
      · exact hqueued v.data hv haddr
    · exact h.values v (mem_underWay.mpr (.inr hv)) haddr

theorem HostInv.message (h : HostInv drv s) {t : TopicInfo} {metrics : List Metric} {now : ℤ}
    (hok : Distinct drv s (.message t metrics now))
    (hstep : hostStep drv s (.message t metrics now) = some s') : HostInv drv s' := by
  obtain rfl := Option.some.inj hstep
  have heffect := handled h.known t metrics now
  refine ⟨heffect.known, h.made.enqueueAll _, ?_⟩
  intro a ha
  rcases heffect.invalidated a ha with hbefore | ⟨path, hpath, hunder⟩
  · rcases h.dead a hbefore with ⟨path, hpath, hunder⟩ | hsettled
    · exact .inl ⟨path, List.mem_append_left _ hpath, hunder⟩
    · refine .inr (hsettled.enqueueAll fun d hd haddr => ?_)
      subst haddr
      obtain ⟨hdead, key, hkey, hlocator, hunder⟩ := heffect.queued d hd ha
      exact hok.2 d hd key hkey hlocator hunder hdead
  · exact .inl ⟨path, List.mem_append_right _ (Option.mem_toList.mpr hpath), hunder⟩

theorem docAddress_of_matches {a : String} {d : Document}
    (h : matchesFilter (addressFilter drv.connNumber a) d = true) : docAddress d = some a := by
  rw [docAddress, (matches_addressFilter.mp h).2]

-- A tag of the connection is selected by what its address begins with.
theorem selects_of_matches {path a : String} {d : Document}
    (h : matchesFilter (addressFilter drv.connNumber a) d = true) :
    selects drv.connNumber path d = startsWith path a := by
  have hconn : matchesFilter
      [("protocolSourceConnectionNumber", .number (.fin drv.connNumber))] d = true := by
    simp only [matchesFilter, List.all_cons, List.all_nil, Bool.and_true, lookup_number_iff]
    exact (matches_addressFilter.mp h).1
  rw [selects, hconn, docAddress_of_matches h]
  rfl

-- A tag that is invalidated keeps its address.
theorem invalid_invalidatePathTags {path a : String} {coll : List Document} {d : Document}
    (hd : d ∈ invalidatePathTags drv.connNumber path coll)
    (hmatch : matchesFilter (addressFilter drv.connNumber a) d = true) :
    ∃ e ∈ coll, matchesFilter (addressFilter drv.connNumber a) e = true ∧
      (truthyValue (e.lookup "invalid") = true ∨ startsWith path a = true →
        truthyValue (d.lookup "invalid") = true) := by
  obtain ⟨e, he, rfl⟩ := List.mem_map.mp hd
  split at hmatch
  · next hsel =>
      rw [matches_setOne (by decide)] at hmatch
      refine ⟨e, he, hmatch, fun _ => ?_⟩
      rw [if_pos hsel, lookup_setOne, if_pos rfl]
      rfl
  · next hsel =>
      refine ⟨e, he, hmatch, fun hbefore => ?_⟩
      rw [if_neg hsel]
      rw [selects_of_matches hmatch] at hsel
      exact hbefore.resolve_right hsel

theorem HostInv.invalidate (h : HostInv drv s) {i : ℕ} (hok : Distinct drv s (.invalidate i))
    (hstep : hostStep drv s (.invalidate i) = some s') : HostInv drv s' := by
  obtain ⟨path, hpath, rfl⟩ := Option.map_eq_some_iff.mp hstep
  obtain ⟨-, hvalues⟩ := hok path hpath
  refine ⟨h.known, ⟨h.made.news, h.made.sent⟩, ?_⟩
  intro a ha
  by_cases hunder : under path a = true
  · refine .inr ⟨?_, fun v hv haddr => ?_⟩
    · intro d hd hmatch
      obtain ⟨e, -, -, hinvalid⟩ := invalid_invalidatePathTags hd hmatch
      exact hinvalid (.inr (startsWith_of_under hunder))
    · subst haddr
      exact hvalues v hv hunder ha
  · rcases h.dead a ha with ⟨other, hother, hpending⟩ | hsettled
    · refine .inl ⟨other, ?_, hpending⟩
      obtain ⟨j, hj⟩ := List.mem_iff_getElem?.mp hother
      refine List.mem_eraseIdx_iff_getElem?.mpr ⟨j, ?_, hj⟩
      -- another path is taken, since the address is not under it
      rintro rfl
      obtain rfl := Option.some.inj (hpath.symm.trans hj)
      exact hunder hpending
    · refine .inr ⟨fun d hd hmatch => ?_, hsettled.values⟩
      obtain ⟨e, he, hbefore, hinvalid⟩ := invalid_invalidatePathTags hd hmatch
      exact hinvalid (.inl (hsettled.docs e he hbefore))

theorem HostInv.step (h : HostInv drv s) {a : HostAction} (hok : Distinct drv s a)
    (hstep : hostStep drv s a = some s') : HostInv drv s' := by
  cases a with
  | message t metrics now => exact h.message hok hstep
  | values b =>
      obtain ⟨driver, hdriver, rfl⟩ := Option.map_eq_some_iff.mp hstep
      refine ⟨h.known, h.made.valuesStep hdriver, fun a ha => ?_⟩
      rcases h.dead a ha with hpending | hsettled
      · exact .inl hpending
      · exact .inr (hsettled.valuesStep h.made hdriver)
  | invalidate i => exact h.invalidate hok hstep

theorem HostInv.notShown (h : HostInv drv s) : NotShown drv s := by
  intro a ha hnone d hd hmatch
  rcases h.dead a ha with ⟨path, hpath, hunder⟩ | hsettled
  · rw [hnone path hpath] at hunder
    cases hunder
  · exact hsettled.docs d hd hmatch

theorem exact_of_distinct {a : HostAction} (hok : Distinct drv s a) : Exact drv s a := by
  cases a with
  | message t metrics now =>
      intro hvalid hdeath key
      rcases Bool.or_eq_true_iff.mp hdeath with htype | htype
      · have htype : t.msgType = .ndeath := of_decide_eq_true htype
        have hbirthed : isBirthed (handleMessage s.devices t metrics now).devices key =
            (isBirthed s.devices key && !startsWith t.nodeLocator key) := by
          rw [← isBirthed_unborn]
          simp [handleMessage, hvalid, htype]
        rw [hbirthed]
        cases hkey : isBirthed s.devices key with
        | false => rfl
        | true =>
            obtain ⟨d, hmem⟩ := mem_of_isBirthed hkey
            have hsame : startsWith t.nodeLocator key = t.kills key := by
              simp only [TopicInfo.kills, htype]
              rw [Bool.eq_iff_iff, Bool.or_eq_true_iff, decide_eq_true_iff]
              refine ⟨hok.1 htype _ hmem, ?_⟩
              rintro (rfl | hunder)
              · exact startsWith_self _
              · exact startsWith_of_under hunder
            rw [hsame]
      · have htype : t.msgType = .ddeath := of_decide_eq_true htype
        have hkills : t.kills key = decide (key = t.deviceLocator) := by
          simp only [TopicInfo.kills, htype]
        have hbirthed := isBirthed_unborn s.devices key fun key => key = t.deviceLocator
        rw [hkills, ← hbirthed]
        simp [handleMessage, hvalid, htype]
  | values b => trivial
  | invalidate i =>
      intro path hpath d hd address hmatch
      rw [selects_of_matches hmatch, Bool.eq_iff_iff]
      refine ⟨fun hstart => ?_, startsWith_of_under⟩
      have hsel : selects drv.connNumber path d = true := (selects_of_matches hmatch).trans hstart
      have hunder := (hok path hpath).1 d hd hsel
      rwa [docAddress_of_matches hmatch] at hunder

-- Deaths concern what has died, along every run.
theorem deaths_exact (drv : Driver) (coll : List Document) (key : ℤ) (known : List String)
    (as : List HostAction) (s : Host)
    (hok : Run.Allowed (hostStep drv) (Distinct drv) (hostStart coll key known) as)
    (hrun : Run.run (hostStep drv) (hostStart coll key known) as = some s) :
    Run.Allowed (hostStep drv) (Exact drv) (hostStart coll key known) as ∧ NotShown drv s := by
  have hstart := hostInv_start drv coll key known
  constructor
  · exact Run.allowed_imp (fun s a s' h => HostInv.step h) (fun s a _ => exact_of_distinct) hstart hok
  · have hend := Run.invariant (fun s a s' h => HostInv.step h) hstart hok hrun
    exact hend.notShown

instance (drv : Driver) (s : Host) : (a : HostAction) → Decidable (Distinct drv s a)
  | .message _ _ _ => inferInstanceAs (Decidable (_ ∧ _))
  | .invalidate i => inferInstanceAs (Decidable (∀ path ∈ s.invalidations[i]?, _ ∧ _))
  | .values _ => inferInstanceAs (Decidable True)

section Samples

def ofNode (msgType : MsgType) (node : String) (metrics : List Metric) : HostAction :=
  .message { space := "spBv1.0", groupId := "plant", msgType := msgType, edgeNodeId := node }
    metrics 0

def tempMetric : Metric :=
  .mk (some "temp") none true none false [] [("value", .string "20"), ("valueString", .string "20")]

def tempAddress : String := "spBv1.0/plant/node1/temp"

def tempTag : Document :=
  [("_id", .number (.fin 1)), ("protocolSourceConnectionNumber", .number (.fin 3)),
    ("protocolSourceObjectAddress", .string tempAddress), ("invalid", .bool true)]

-- The tag is found, and is updated with the value.
def processValue : List HostAction :=
  [.values .tick, .values (.goOn 0 1), .values (.answer 0), .values (.goOn 0 1),
    .values (.goOn 0 1), .values (.execute 0), .values (.goOn 0 1)]

-- The value of the birth is shown before the node dies.
def bornAndDead : List HostAction :=
  [ofNode .nbirth "node1" [tempMetric], .invalidate 0] ++ processValue ++
    [ofNode .ndeath "node1" [], .invalidate 0]

theorem bornAndDead_invalid : ∃ s,
    Run.run (hostStep plainDriver) (hostStart [tempTag] 3000000 []) bornAndDead = some s ∧
    s.driver.executed ≠ [] ∧ s.dead tempAddress = true ∧
    (∀ d ∈ s.driver.coll, truthyValue (d.lookup "invalid") = true) := by
  have hrun : (Run.run (hostStep plainDriver) (hostStart [tempTag] 3000000 []) bornAndDead).any
      (fun s => s.driver.executed ≠ [] ∧ s.dead tempAddress = true ∧ s.invalidations = [] ∧
        ∀ d ∈ s.driver.coll, matchesFilter (addressFilter 3 tempAddress) d = true) = true := by
    decide
  obtain ⟨s, hs, hend⟩ := (Option.any_eq_true _ _).mp hrun
  obtain ⟨hexecuted, hdead, hnone, hmatch⟩ := of_decide_eq_true hend
  have hok : Run.Allowed (hostStep plainDriver) (Distinct plainDriver)
      (hostStart [tempTag] 3000000 []) bornAndDead := by decide
  obtain ⟨-, hnotShown⟩ := deaths_exact plainDriver [tempTag] 3000000 [] bornAndDead s hok hs
  refine ⟨s, hs, hexecuted, hdead, fun d hd => ?_⟩
  exact hnotShown tempAddress hdead (by simp [hnone]) d hd (hmatch d hd)

-- Two nodes are born, and the first one dies while its value waits.
def twoNodes : List HostAction :=
  [ofNode .nbirth "node1" [tempMetric], ofNode .nbirth "node10" [], .invalidate 0, .invalidate 0]

def lateValue : List HostAction :=
  [ofNode .ndeath "node1" [], .invalidate 0] ++ processValue

theorem neighbour_unborn_value_shown : ∃ s s',
    Run.run (hostStep plainDriver) (hostStart [tempTag] 3000000 []) twoNodes = some s ∧
    ¬Exact plainDriver s (ofNode .ndeath "node1" []) ∧
    Run.run (hostStep plainDriver) s lateValue = some s' ∧ ¬NotShown plainDriver s' := by
  have hrun : (Run.run (hostStep plainDriver) (hostStart [tempTag] 3000000 []) twoNodes).any
      (fun s => isBirthed s.devices "spBv1.0/plant/node10" = true ∧
        (hostStep plainDriver s (ofNode .ndeath "node1" [])).any
          (fun s' => isBirthed s'.devices "spBv1.0/plant/node10" = false) = true ∧
        (Run.run (hostStep plainDriver) s lateValue).any (fun s' => s'.dead tempAddress = true ∧
          s'.invalidations = [] ∧ ∃ d ∈ s'.driver.coll,
            matchesFilter (addressFilter 3 tempAddress) d = true ∧
            truthyValue (d.lookup "invalid") = false) = true) = true := by decide
  obtain ⟨s, hs, hend⟩ := (Option.any_eq_true _ _).mp hrun
  obtain ⟨hbirthed, hafter, hlate⟩ := of_decide_eq_true hend
  obtain ⟨s', hs', hshown⟩ := (Option.any_eq_true _ _).mp hlate
  obtain ⟨hdead, hnone, d, hd, hmatch, hvalid⟩ := of_decide_eq_true hshown
  refine ⟨s, s', hs, fun hexact => ?_, hs', fun hnotShown => ?_⟩
  · have hkey := hexact rfl rfl "spBv1.0/plant/node10"
    have hunborn : isBirthed (handleMessage s.devices _ [] 0).devices "spBv1.0/plant/node10" =
        false := of_decide_eq_true hafter
    rw [hunborn, hbirthed] at hkey
    exact absurd hkey (by decide)
  · have hinvalid := hnotShown tempAddress hdead (by simp [hnone]) d hd hmatch
    rw [hvalid] at hinvalid
    cases hinvalid

end Samples

end Runs

end JsonScada.Mqtt
