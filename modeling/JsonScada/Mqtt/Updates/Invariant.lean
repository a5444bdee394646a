import JsonScada.Mqtt.Updates

-- What the orderly steps of the runs keep.
namespace JsonScada.Mqtt

open JsonScada.Library
open JsonScada.JsMongo
open JsonScada.Processor (Document Value applySet lookup_applySet)

section Invariant

section Tags

variable {rt : Processor.Node.Runtime} {connNumber key : ℤ}

theorem matches_addressFilter {address : String} {d : Document} :
    matchesFilter (addressFilter connNumber address) d = true ↔
      d.lookup "protocolSourceConnectionNumber" = some (.number (.fin connNumber)) ∧
        d.lookup "protocolSourceObjectAddress" = some (.string address) := by
  simp only [matchesFilter, addressFilter, List.all_cons, List.all_nil, Bool.and_true,
    Bool.and_eq_true, lookup_number_iff, lookup_string_iff]

-- An update of another field does not make a tag another one.
theorem matches_setOne {key : String}
    (hkey : key ∉ ["protocolSourceConnectionNumber", "protocolSourceObjectAddress"])
    (address : String) (d : Document) (v : Value) :
    matchesFilter (addressFilter connNumber address) (applySet d [(key, v)]) =
      matchesFilter (addressFilter connNumber address) d := by
  simp only [List.mem_cons, List.not_mem_nil, or_false, not_or] at hkey
  rw [Bool.eq_iff_iff, matches_addressFilter, matches_addressFilter, lookup_setOne,
    lookup_setOne, if_neg (Ne.symm hkey.1), if_neg (Ne.symm hkey.2)]

theorem matches_setSource (address : String) (d : Document) (v : Value) :
    matchesFilter (addressFilter connNumber address) (applySet d [("sourceDataUpdate", v)]) =
      matchesFilter (addressFilter connNumber address) d :=
  matches_setOne (by decide) address d v

theorem address_withGroups (d : Data) :
    d.withGroups.protocolSourceObjectAddress = d.protocolSourceObjectAddress := by
  simp only [Data.withGroups]
  repeat' split
  all_goals rfl

-- A new tag has the address of its value.
theorem matches_createdTag {d : Data} {newTag : Document}
    (h : createdTag rt connNumber key d = some newTag) :
    matchesFilter (addressFilter connNumber d.protocolSourceObjectAddress) newTag = true := by
  obtain ⟨fields, hfields, rfl⟩ := Option.map_eq_some_iff.mp h
  obtain ⟨⟨description, ungrouped⟩, -, rfl⟩ := Option.map_eq_some_iff.mp hfields
  have htype : ∀ k ∈ ["protocolSourceConnectionNumber", "protocolSourceObjectAddress"],
      (typeFields d).reverse.lookup k = none := by
    intro k hk
    simp only [List.mem_cons, List.not_mem_nil, or_false] at hk
    unfold typeFields
    split <;> rcases hk with rfl | rfl <;> rfl
  rw [matches_addressFilter]
  constructor
  · rw [lookup_applySet]
    simp [List.lookup_append, List.lookup_cons, htype]
  · rw [lookup_applySet]
    simp [List.lookup_append, List.lookup_cons, htype]

end Tags

variable (drv : Driver)

section Database

-- No other document has the number of a new tag, or its name.
def Driver.fresh (coll : List Document) (newTag : Document) : Bool :=
  !hasId coll newTag && !(drv.tagIndex && coll.any fun d => d.lookup "tag" = newTag.lookup "tag")

variable {drv} {coll coll' : List Document} {newTag : Document} {v w : Queued}

theorem findOne_updateOne (x : Value) :
    findOne (updateOne (drv.filter w) [("sourceDataUpdate", x)] coll) (drv.filter v) =
      if w.address = v.address then
        (findOne coll (drv.filter v)).map fun d => applySet d [("sourceDataUpdate", x)]
      else findOne coll (drv.filter v) := by
  unfold findOne updateOne
  split
  · next haddr =>
    rw [Driver.filter, Driver.filter, haddr]
    exact Table.find?_updateFirst (fun d hd => (matches_setSource _ d x).trans hd) coll
  · next haddr =>
    apply Table.find?_updateFirst_ne
    intro d _ hd
    have hne : matchesFilter (drv.filter v) d = false := by
      apply Bool.eq_false_iff.mpr
      intro hv
      have hw := (matches_addressFilter.mp hd).2
      rw [(matches_addressFilter.mp hv).2] at hw
      exact haddr (Value.string.inj (Option.some.inj hw)).symm
    exact ⟨hne, (matches_setSource _ d x).trans hne⟩

theorem hasTag_updateOne (x : Value) :
    drv.hasTag (updateOne (drv.filter w) [("sourceDataUpdate", x)] coll) v =
      drv.hasTag coll v := by
  rw [Driver.hasTag, Driver.hasTag, findOne_updateOne]
  split <;> simp

theorem insertTag_eq (h : drv.insertTag coll newTag = some coll') : coll' = coll ++ [newTag] := by
  unfold Driver.insertTag insertOne at h
  split at h
  · cases h
  · split at h
    · cases h
    · exact (Option.some.inj h).symm

theorem insertTag_of_fresh (h : drv.fresh coll newTag = true) :
    drv.insertTag coll newTag = some (coll ++ [newTag]) := by
  obtain ⟨hid, htag⟩ := Bool.and_eq_true_iff.mp h
  rw [Bool.not_eq_true'] at hid htag
  rw [Driver.insertTag, insertOne, htag, hid, if_neg Bool.false_ne_true,
    if_neg Bool.false_ne_true]

theorem hasTag_append (h : drv.hasTag coll v = true) : drv.hasTag (coll ++ [newTag]) v = true :=
  Table.isSome_find?_append (.inl h)

theorem hasTag_inserted (h : matchesFilter (drv.filter v) newTag = true) :
    drv.hasTag (coll ++ [newTag]) v = true :=
  Table.isSome_find?_append (.inr (by simp [h]))

-- The source update of the tag of a value.
def Driver.stored (coll : List Document) (v : Queued) : Option Value :=
  (findOne coll (drv.filter v)).bind (·.lookup "sourceDataUpdate")

theorem stored_append (h : drv.hasTag coll v = true) :
    drv.stored (coll ++ [newTag]) v = drv.stored coll v := by
  obtain ⟨d, hd⟩ := Option.isSome_iff_exists.mp h
  have happ : findOne (coll ++ [newTag]) (drv.filter v) = some d :=
    Table.find?_append_of_some [newTag] hd
  rw [Driver.stored, Driver.stored, happ, hd]

theorem stored_updateOne (x : Value) :
    drv.stored (updateOne (drv.filter w) [("sourceDataUpdate", x)] coll) v =
      if w.address = v.address ∧ drv.hasTag coll v = true then some x
      else drv.stored coll v := by
  rw [Driver.stored, findOne_updateOne, Driver.stored, Driver.hasTag]
  by_cases haddr : w.address = v.address
  · cases findOne coll (drv.filter v) with
    | none => simp
    | some d => simp [haddr, lookup_setOne]
  · simp [haddr]

end Database

section Conditions

def Phase.value : Phase → Option Queued
  | .loop => none
  | .finding v | .found v _ | .inserting v _ | .inserted v _ | .created v => some v

-- A tag that is not looked for is there, and a description that is cut is a text.
def Driver.turnOk (s : State) : Phase → Bool
  | .loop => s.valuesQueue.head?.all fun v => !drv.listed s v || drv.hasTag s.coll v
  | .found v false => (descriptions drv.connNumber v.data.withGroups).isSome
  | _ => true

-- A tag that is inserted is the only one of its address.
def Driver.answerOk (s : State) : Phase → Bool
  | .inserting v newTag => !drv.hasTag s.coll v && drv.fresh s.coll newTag
  | _ => true

-- No value of an address is executed after a newer one.
def executeOk (s : State) (u : Update) : Bool :=
  s.executed.all fun w => w.address ≠ u.value.address || w.number ≤ u.value.number

def Orderly (s : State) : Action → Prop
  | .goOn i _ => s.runs[i]?.all (drv.turnOk s) = true
  | .answer i => s.runs[i]?.all (drv.answerOk s) = true
  | .execute i => s.updates[i]?.all (executeOk s) = true
  | .enqueue _ | .tick => True

instance (s : State) : ∀ a, Decidable (Orderly drv s a)
  | .goOn _ _ | .answer _ | .execute _ => inferInstanceAs (Decidable (_ = true))
  | .enqueue _ | .tick => .isTrue trivial

end Conditions

section Invariant

-- A value that is under way, or executed.
def Held (s : State) (v : Queued) : Prop :=
  v ∈ s.valuesQueue ∨ (∃ p ∈ s.runs, p.value = some v) ∨ (∃ u ∈ s.updates, u.value = v) ∨
    v ∈ s.executed

def PhaseOk (coll : List Document) : Phase → Prop
  | .found v true | .inserted v true | .created v => drv.hasTag coll v = true
  | .inserting v newTag => matchesFilter (drv.filter v) newTag = true
  | .inserted _ false => False
  | .loop | .finding _ | .found _ false => True

def UpdateOf (u : Value) (v : Queued) : Prop :=
  ∃ now, u = .document (updTag drv.runtime drv.connNumber now v.data)

structure Inv (s : State) : Prop where
  numbered : ∀ v, Held s v → s.values[v.number]? = some v.data
  covered : ∀ n < s.values.length, ∃ v, Held s v ∧ v.number = n
  phases : ∀ p ∈ s.runs, PhaseOk drv s.coll p
  sent : ∀ u ∈ s.updates,
    drv.hasTag s.coll u.value = true ∧ UpdateOf drv (.document u.updTag) u.value
  -- the newest of the executed values of an address
  stored : ∀ v ∈ s.executed, (∀ w ∈ s.executed, w.address = v.address → w.number ≤ v.number) →
    drv.hasTag s.coll v = true ∧ ∃ u, drv.stored s.coll v = some u ∧ UpdateOf drv u v

variable {drv} {s s' : State}

theorem inv_start (coll : List Document) (key : ℤ) : Inv drv (start coll key) where
  numbered v h := by simp [Held, start] at h
  covered n h := by simp [start] at h
  phases p h := by simp [start] at h
  sent u h := by simp [start] at h
  stored v h := by simp [start] at h

theorem exists_mem_iff {α : Type} {l : List α} {i : ℕ} {a : α} {P : α → Prop}
    (h : l[i]? = some a) : (∃ x ∈ l, P x) ↔ P a ∨ ∃ j ≠ i, ∃ x, l[j]? = some x ∧ P x := by
  constructor
  · rintro ⟨x, hx, hp⟩
    obtain ⟨j, hj⟩ := List.mem_iff_getElem?.mp hx
    by_cases hij : j = i
    · subst hij
      rw [h] at hj
      obtain rfl := Option.some.inj hj
      exact .inl hp
    · exact .inr ⟨j, hij, x, hj, hp⟩
  · rintro (hp | ⟨j, -, x, hj, hp⟩)
    · exact ⟨a, List.mem_of_getElem? h, hp⟩
    · exact ⟨x, List.mem_of_getElem? hj, hp⟩

theorem exists_mem_set_iff {α : Type} {l : List α} {i : ℕ} {a b : α} {P : α → Prop}
    (h : l[i]? = some a) :
    (∃ x ∈ l.set i b, P x) ↔ P b ∨ ∃ j ≠ i, ∃ x, l[j]? = some x ∧ P x := by
  have hi : i < l.length := (List.getElem?_eq_some_iff.mp h).1
  rw [exists_mem_iff (List.getElem?_set_self hi)]
  apply or_congr_right
  exact exists_congr fun j => and_congr_right fun hij =>
    exists_congr fun x => by rw [List.getElem?_set_ne (Ne.symm hij)]

theorem exists_mem_eraseIdx_iff {α : Type} {l : List α} {i : ℕ} {P : α → Prop} :
    (∃ x ∈ l.eraseIdx i, P x) ↔ ∃ j ≠ i, ∃ x, l[j]? = some x ∧ P x := by
  simp only [List.mem_eraseIdx_iff_getElem?]
  constructor
  · rintro ⟨x, ⟨j, hij, hj⟩, hp⟩
    exact ⟨j, hij, x, hj, hp⟩
  · rintro ⟨j, hij, x, hj, hp⟩
    exact ⟨x, ⟨j, hij, hj⟩, hp⟩

theorem Inv.enqueue (h : Inv drv s) (d : Data) :
    Inv drv
      { s with
        values := s.values ++ [d], valuesQueue := s.valuesQueue ++ [⟨s.values.length, d⟩] } where
  numbered v hv := by
    have hcases : v = ⟨s.values.length, d⟩ ∨ Held s v := by
      rcases hv with hv | hv
      · rcases List.mem_append.mp hv with hv | hv
        · exact .inr (.inl hv)
        · exact .inl (List.mem_singleton.mp hv)
      · exact .inr (.inr hv)
    rcases hcases with rfl | hold
    · simp
    · have hget := h.numbered v hold
      rw [List.getElem?_append_left (List.getElem?_eq_some_iff.mp hget).1, hget]
  covered n hn := by
    rw [List.length_append, List.length_singleton] at hn
    by_cases hlt : n < s.values.length
    · obtain ⟨v, hv, hnum⟩ := h.covered n hlt
      refine ⟨v, ?_, hnum⟩
      rcases hv with hv | hv
      · exact .inl (List.mem_append_left _ hv)
      · exact .inr hv
    · obtain rfl : n = s.values.length := by omega
      exact ⟨⟨s.values.length, d⟩, .inl (by simp), rfl⟩
  phases := h.phases
  sent := h.sent
  stored := h.stored

-- The collection stays, and every value is still on its way.
theorem Inv.moves (h : Inv drv s) (hvalues : s'.values = s.values) (hcoll : s'.coll = s.coll)
    (hexecuted : s'.executed = s.executed) (hheld : ∀ v, Held s' v ↔ Held s v)
    (hphases : ∀ p ∈ s'.runs, PhaseOk drv s.coll p)
    (hsent : ∀ u ∈ s'.updates,
      drv.hasTag s.coll u.value = true ∧ UpdateOf drv (.document u.updTag) u.value) :
    Inv drv s' where
  numbered v hv := by
    rw [hvalues]
    exact h.numbered v ((hheld v).mp hv)
  covered n hn := by
    rw [hvalues] at hn
    obtain ⟨v, hv, hnum⟩ := h.covered n hn
    exact ⟨v, (hheld v).mpr hv, hnum⟩
  phases := by
    rw [hcoll]
    exact hphases
  sent := by
    rw [hcoll]
    exact hsent
  stored := by
    rw [hcoll, hexecuted]
    exact h.stored

-- A run that goes on with the value that it has.
theorem Inv.set (h : Inv drv s) {i : ℕ} {p q : Phase} (hp : s.runs[i]? = some p)
    (hvalue : q.value = p.value) (hq : PhaseOk drv s.coll q) :
    Inv drv { s with runs := s.runs.set i q } := by
  refine h.moves rfl rfl rfl ?_ ?_ h.sent
  · intro v
    simp only [Held, exists_mem_iff hp, exists_mem_set_iff hp, hvalue]
  · intro r hr
    rcases List.mem_or_eq_of_mem_set hr with hr | rfl
    · exact h.phases r hr
    · exact hq

theorem Inv.goOn (h : Inv drv s) {i : ℕ} {now : ℤ} {p : Phase} (hp : s.runs[i]? = some p)
    (hok : drv.turnOk s p = true) (hstep : drv.goOn s i now p = some s') : Inv drv s' := by
  have hphase := h.phases p (List.mem_of_getElem? hp)
  have hloop : Phase.loop.value = none := rfl
  cases p with
  | loop =>
      cases hqueue : s.valuesQueue with
      | nil =>
          simp only [Driver.goOn, hqueue, Option.some.injEq] at hstep
          subst hstep
          refine h.moves rfl rfl rfl ?_ ?_ h.sent
          · intro v
            simp only [Held, hqueue, exists_mem_iff hp, exists_mem_eraseIdx_iff, hloop, reduceCtorEq,
              false_or]
          · exact fun q hq => h.phases q (List.mem_of_mem_eraseIdx hq)
      | cons v valuesQueue =>
          simp only [Driver.goOn, hqueue, Option.some.injEq] at hstep
          subst hstep
          have hvalue : (if drv.listed s v then Phase.created v else .finding v).value = some v := by
            split <;> rfl
          refine h.moves rfl rfl rfl ?_ ?_ h.sent
          · intro w
            have hcomm : w = v ↔ v = w := eq_comm
            simp only [Held, exists_mem_iff hp, exists_mem_set_iff hp, hvalue, hqueue, hloop,
              List.mem_cons, Option.some.injEq, reduceCtorEq, false_or, hcomm, or_assoc]
            exact or_left_comm
          · intro q hq
            rcases List.mem_or_eq_of_mem_set hq with hq | rfl
            · exact h.phases q hq
            · by_cases hlisted : drv.listed s v = true
              · rw [if_pos hlisted]
                have htag : drv.hasTag s.coll v = true := by
                  simpa [Driver.turnOk, hqueue, hlisted] using hok
                exact htag
              · rw [if_neg hlisted]
                trivial
  | finding v => cases hstep
  | found v any =>
      cases any with
      | false =>
          simp only [Driver.goOn, Option.some.injEq] at hstep
          subst hstep
          obtain ⟨descr, hdescr⟩ := Option.isSome_iff_exists.mp hok
          have htag : ∃ newTag, createdTag drv.runtime drv.connNumber (s.autoKeyId + 1)
              v.data.withGroups = some newTag := by
            simp [createdTag, tagFields, hdescr]
          obtain ⟨newTag, hnew⟩ := htag
          have hmatch := matches_createdTag hnew
          rw [address_withGroups] at hmatch
          rw [hnew]
          exact (h.set hp (q := .inserting v newTag) rfl hmatch).moves rfl rfl rfl (fun _ => .rfl)
            (h.set hp (q := .inserting v newTag) rfl hmatch).phases h.sent
      | true =>
          obtain rfl := Option.some.inj hstep
          have hset := h.set hp (q := .created v) rfl hphase
          exact hset.moves rfl rfl rfl (fun _ => .rfl) hset.phases hset.sent
  | inserting v newTag => cases hstep
  | inserted v acknowledged =>
      cases acknowledged with
      | false => exact hphase.elim
      | true =>
          obtain rfl := Option.some.inj hstep
          have hset := h.set hp (q := .created v) rfl hphase
          exact hset.moves rfl rfl rfl (fun _ => .rfl) hset.phases hset.sent
  | created v =>
      obtain rfl := Option.some.inj hstep
      have hcreated : (Phase.created v).value = some v := rfl
      refine h.moves rfl rfl rfl ?_ ?_ ?_
      · intro w
        simp only [Held, exists_mem_iff hp, exists_mem_set_iff hp, hloop, hcreated,
          Option.some.injEq, reduceCtorEq, false_or, List.mem_append, List.mem_singleton,
          or_and_right, exists_or, exists_eq_left, or_assoc]
        exact or_congr_right ((or_congr_right or_left_comm).trans or_left_comm)
      · intro q hq
        rcases List.mem_or_eq_of_mem_set hq with hq | rfl
        · exact h.phases q hq
        · trivial
      · intro u hu
        rcases List.mem_append.mp hu with hu | hu
        · exact h.sent u hu
        · obtain rfl := List.mem_singleton.mp hu
          exact ⟨hphase, now, rfl⟩

theorem PhaseOk.mono {coll coll' : List Document} {p : Phase} (h : PhaseOk drv coll p)
    (hkeep : ∀ v, drv.hasTag coll v = true → drv.hasTag coll' v = true) : PhaseOk drv coll' p := by
  cases p with
  | found v any => cases any <;> [trivial; exact hkeep v h]
  | inserted v acknowledged => cases acknowledged <;> [exact h.elim; exact hkeep v h]
  | created v => exact hkeep v h
  | inserting v newTag => exact h
  | _ => trivial

-- A new document hides none that is there.
theorem Inv.insert (h : Inv drv s) (newTag : Document) :
    Inv drv { s with coll := s.coll ++ [newTag] } where
  numbered := h.numbered
  covered := h.covered
  phases p hp := (h.phases p hp).mono fun _ => hasTag_append
  sent u hu := ⟨hasTag_append (h.sent u hu).1, (h.sent u hu).2⟩
  stored v hv hnewest := by
    obtain ⟨htag, u, hu, hof⟩ := h.stored v hv hnewest
    exact ⟨hasTag_append htag, u, (stored_append htag).trans hu, hof⟩

theorem Inv.answer (h : Inv drv s) {i : ℕ} {p : Phase} (hp : s.runs[i]? = some p)
    (hok : drv.answerOk s p = true) (hstep : drv.answer s i p = some s') : Inv drv s' := by
  have hphase := h.phases p (List.mem_of_getElem? hp)
  cases p with
  | finding v =>
      obtain rfl := Option.some.inj hstep
      refine h.set hp rfl ?_
      cases hany : drv.hasTag s.coll v with
      | false => trivial
      | true => exact hany
  | inserting v newTag =>
      cases hinsert : drv.insertTag s.coll newTag with
      | none =>
          have hfresh := (Bool.and_eq_true_iff.mp hok).2
          rw [insertTag_of_fresh hfresh] at hinsert
          cases hinsert
      | some coll =>
          simp only [Driver.answer, hinsert, Option.some.injEq] at hstep
          subst hstep
          obtain rfl := insertTag_eq hinsert
          exact (h.insert newTag).set hp rfl (hasTag_inserted hphase)
  | loop => cases hstep
  | found v any => cases hstep
  | inserted v acknowledged => cases hstep
  | created v => cases hstep

theorem Inv.execute (h : Inv drv s) {i : ℕ} {u : Update} (hu : s.updates[i]? = some u)
    (hok : executeOk s u = true) : Inv drv (drv.execute s i u) := by
  have hmem := List.mem_of_getElem? hu
  obtain ⟨htag, hof⟩ := h.sent u hmem
  have hheld : ∀ v, Held (drv.execute s i u) v ↔ Held s v := by
    intro v
    have hcomm : v = u.value ↔ u.value = v := eq_comm
    simp only [Held, Driver.execute, exists_mem_iff hu, exists_mem_eraseIdx_iff, List.mem_append,
      List.mem_singleton, hcomm, or_assoc]
    apply or_congr_right
    apply or_congr_right
    exact (or_congr_right or_comm).trans or_left_comm
  have hstored : ∀ v, drv.stored (drv.execute s i u).coll v =
      if u.value.address = v.address ∧ drv.hasTag s.coll v = true then some (.document u.updTag)
      else drv.stored s.coll v := fun v => stored_updateOne _
  constructor
  · exact fun v hv => h.numbered v ((hheld v).mp hv)
  · intro n hn
    obtain ⟨v, hv, hnum⟩ := h.covered n hn
    exact ⟨v, (hheld v).mpr hv, hnum⟩
  · exact fun p hp => (h.phases p hp).mono fun v hv => (hasTag_updateOne _).trans hv
  · intro w hw
    obtain ⟨hwtag, hwof⟩ := h.sent w (List.mem_of_mem_eraseIdx hw)
    exact ⟨(hasTag_updateOne _).trans hwtag, hwof⟩
  · intro v hv hnewest
    by_cases haddr : u.value.address = v.address
    · -- the update is that of the newest value
      have hvtag : drv.hasTag s.coll v = true := by
        rw [Driver.hasTag, Driver.filter, ← haddr]
        exact htag
      have hle : u.value.number ≤ v.number :=
        hnewest u.value (by simp [Driver.execute]) haddr
      have hsame : v.data = u.value.data := by
        have hge : v.number ≤ u.value.number := by
          rcases List.mem_append.mp hv with hold | hnew
          · have hvok := List.all_eq_true.mp hok v hold
            simpa [haddr] using hvok
          · rw [List.mem_singleton.mp hnew]
        have hnum : v.number = u.value.number := by omega
        have hvget := h.numbered v ((hheld v).mp (.inr (.inr (.inr hv))))
        have huget := h.numbered u.value (.inr (.inr (.inl ⟨u, hmem, rfl⟩)))
        rw [hnum, huget] at hvget
        exact (Option.some.inj hvget).symm
      refine ⟨(hasTag_updateOne _).trans hvtag, .document u.updTag, ?_, ?_⟩
      · exact (hstored v).trans (if_pos ⟨haddr, hvtag⟩)
      · obtain ⟨now, hnow⟩ := hof
        exact ⟨now, by rw [hnow, hsame]⟩
    · have hold : v ∈ s.executed := by
        rcases List.mem_append.mp hv with hold | hnew
        · exact hold
        · exact absurd (by rw [List.mem_singleton.mp hnew]) haddr
      obtain ⟨hvtag, x, hx, hxof⟩ :=
        h.stored v hold fun w hw => hnewest w (List.mem_append_left _ hw)
      refine ⟨(hasTag_updateOne _).trans hvtag, x, ?_, hxof⟩
      exact ((hstored v).trans (if_neg fun hboth => haddr hboth.1)).trans hx

theorem Inv.step (h : Inv drv s) {a : Action} (hok : Orderly drv s a)
    (hstep : drv.step s a = some s') : Inv drv s' := by
  cases a with
  | enqueue d =>
      obtain rfl := Option.some.inj hstep
      exact h.enqueue d
  | tick =>
      obtain rfl := Option.some.inj hstep
      refine h.moves rfl rfl rfl ?_ ?_ h.sent
      · intro v
        simp [Held, or_and_right, exists_or, Phase.value]
      · intro p hp
        rcases List.mem_append.mp hp with hp | hp
        · exact h.phases p hp
        · obtain rfl := List.mem_singleton.mp hp
          trivial
  | goOn i now =>
      obtain ⟨p, hp, hgo⟩ := Option.bind_eq_some_iff.mp hstep
      exact h.goOn hp ((Option.all_eq_true _ _).mp hok p hp) hgo
  | answer i =>
      obtain ⟨p, hp, hanswer⟩ := Option.bind_eq_some_iff.mp hstep
      exact h.answer hp ((Option.all_eq_true _ _).mp hok p hp) hanswer
  | execute i =>
      obtain ⟨u, hu, rfl⟩ := Option.map_eq_some_iff.mp hstep
      exact h.execute hu ((Option.all_eq_true _ _).mp hok u hu)

end Invariant

end Invariant

-- When every tag is created once and is left with the last value that was queued for it.
section LastValue

open JsonScada.Processor (Document Value)

variable (drv : Driver)

section Created

def addressOf (d : Document) : Option Value := d.lookup "protocolSourceObjectAddress"

-- The documents behind the first `n`, which the driver has created.
structure Once (n : ℕ) (s : State) : Prop where
  behind : n ≤ s.coll.length
  own : ∀ d ∈ s.coll.drop n,
    d.lookup "protocolSourceConnectionNumber" = some (.number (.fin drv.connNumber))
  once : ((s.coll.drop n).map addressOf).Nodup

variable {drv} {s s' : State} {n : ℕ}

theorem step_coll {a : Action} (hstep : drv.step s a = some s') :
    s'.coll = s.coll ∨
      (∃ i v newTag, a = .answer i ∧ s.runs[i]? = some (.inserting v newTag) ∧
        s'.coll = s.coll ++ [newTag]) ∨
      ∃ w x, s'.coll = updateOne (drv.filter w) [("sourceDataUpdate", x)] s.coll := by
  cases a with
  | enqueue d =>
      obtain rfl := Option.some.inj hstep
      exact .inl rfl
  | tick =>
      obtain rfl := Option.some.inj hstep
      exact .inl rfl
  | goOn i now =>
      obtain ⟨p, -, hgo⟩ := Option.bind_eq_some_iff.mp hstep
      left
      unfold Driver.goOn at hgo
      split at hgo
      · split at hgo <;> cases hgo <;> rfl
      all_goals cases hgo <;> rfl
  | answer i =>
      obtain ⟨p, hp, hanswer⟩ := Option.bind_eq_some_iff.mp hstep
      cases p with
      | finding v =>
          obtain rfl := Option.some.inj hanswer
          exact .inl rfl
      | inserting v newTag =>
          cases hinsert : drv.insertTag s.coll newTag with
          | none =>
              simp only [Driver.answer, hinsert, Option.some.injEq] at hanswer
              exact .inl (by rw [← hanswer])
          | some coll =>
              simp only [Driver.answer, hinsert, Option.some.injEq] at hanswer
              refine .inr (.inl ⟨i, v, newTag, rfl, hp, ?_⟩)
              rw [← hanswer, insertTag_eq hinsert]
      | loop | found | inserted | created => cases hanswer
  | execute i =>
      obtain ⟨u, -, rfl⟩ := Option.map_eq_some_iff.mp hstep
      exact .inr (.inr ⟨u.value, .document u.updTag, rfl⟩)

theorem Once.step (h : Once drv n s) (hinv : Inv drv s) {a : Action} (hok : Orderly drv s a)
    (hstep : drv.step s a = some s') : Once drv n s' := by
  rcases step_coll hstep with hcoll | ⟨i, v, newTag, rfl, hp, hcoll⟩ | ⟨w, x, hcoll⟩
  · exact ⟨hcoll ▸ h.behind, hcoll ▸ h.own, hcoll ▸ h.once⟩
  · have hmatch := matches_addressFilter.mp (hinv.phases _ (List.mem_of_getElem? hp))
    have hnone : drv.hasTag s.coll v = false := by
      have hanswer := (Option.all_eq_true _ _).mp hok _ hp
      simpa using (Bool.and_eq_true_iff.mp hanswer).1
    have hdrop : s'.coll.drop n = s.coll.drop n ++ [newTag] := by
      rw [hcoll, List.drop_append_of_le_length h.behind]
    refine ⟨?_, ?_, ?_⟩
    · rw [hcoll, List.length_append]
      have := h.behind
      omega
    · intro d hd
      rw [hdrop] at hd
      rcases List.mem_append.mp hd with hd | hd
      · exact h.own d hd
      · rw [List.mem_singleton.mp hd]
        exact hmatch.1
    · rw [hdrop, List.map_append, List.nodup_append]
      refine ⟨h.once, List.nodup_singleton _, ?_⟩
      rintro a ha b hb rfl
      obtain ⟨d, hd, rfl⟩ := List.mem_map.mp ha
      -- a document of the same address would have been found
      have haddr : addressOf d = some (.string v.address) :=
        (List.mem_singleton.mp hb).trans hmatch.2
      have hfound : drv.hasTag s.coll v = true :=
        List.find?_isSome.mpr ⟨d, List.mem_of_mem_drop hd,
          matches_addressFilter.mpr ⟨h.own d hd, haddr⟩⟩
      rw [hnone] at hfound
      cases hfound
  · have hkeep (key : String) (hkey : key ≠ "sourceDataUpdate") :
        s'.coll.map (fun d => d.lookup key) = s.coll.map fun d => d.lookup key := by
      rw [hcoll]
      apply Table.map_updateFirst
      intro d
      rw [lookup_setOne, if_neg hkey]
    have hdrop (key : String) (hkey : key ≠ "sourceDataUpdate") :
        (s'.coll.drop n).map (fun d => d.lookup key) = (s.coll.drop n).map fun d => d.lookup key := by
      rw [List.map_drop, hkeep key hkey, List.map_drop]
    refine ⟨?_, ?_, ?_⟩
    · have hlen := congrArg List.length (hkeep "_id" (by decide))
      rw [List.length_map, List.length_map] at hlen
      rw [hlen]
      exact h.behind
    · intro d hd
      have hmem : d.lookup "protocolSourceConnectionNumber" ∈
          (s'.coll.drop n).map fun d => d.lookup "protocolSourceConnectionNumber" :=
        List.mem_map.mpr ⟨d, hd, rfl⟩
      rw [hdrop _ (by decide)] at hmem
      obtain ⟨e, he, heq⟩ := List.mem_map.mp hmem
      rw [← heq]
      exact h.own e he
    · have haddr := hdrop "protocolSourceObjectAddress" (by decide)
      have honce := h.once
      unfold addressOf at honce ⊢
      rw [haddr]
      exact honce

end Created

section Runs

-- Nothing waits, no run is under way and every update is executed.
def State.Quiet (s : State) : Prop := s.valuesQueue = [] ∧ s.runs = [] ∧ s.updates = []

instance (s : State) : Decidable s.Quiet := inferInstanceAs (Decidable (_ ∧ _ ∧ _))

-- The source update of a tag is that of the last value which was queued for it.
def LastStored (s : State) : Prop :=
  ∀ before d after, s.values = before ++ d :: after →
    (∀ e ∈ after, e.protocolSourceObjectAddress ≠ d.protocolSourceObjectAddress) →
    ∃ now, ((findOne s.coll (addressFilter drv.connNumber d.protocolSourceObjectAddress)).bind
      (·.lookup "sourceDataUpdate")) =
        some (.document (updTag drv.runtime drv.connNumber now d))

variable {drv} {s : State}

theorem Inv.lastStored (h : Inv drv s) (hquiet : s.Quiet) : LastStored drv s := by
  intro before d after hvalues hlast
  obtain ⟨hqueue, hruns, hupdates⟩ := hquiet
  have hexecuted : ∀ v, Held s v → v ∈ s.executed := by
    intro v hv
    simpa [Held, hqueue, hruns, hupdates] using hv
  have hlen : before.length < s.values.length := by
    rw [hvalues, List.length_append, List.length_cons]
    omega
  obtain ⟨v, hv, hnum⟩ := h.covered before.length hlen
  have hdata : v.data = d := by
    have hget := h.numbered v hv
    rw [hnum, hvalues, List.getElem?_append_right (Nat.le_refl _), Nat.sub_self] at hget
    exact (Option.some.inj hget).symm
  have hnewest : ∀ w ∈ s.executed, w.address = v.address → w.number ≤ v.number := by
    intro w hw haddr
    by_contra hlt
    have hget := h.numbered w (.inr (.inr (.inr hw)))
    rw [hvalues, List.getElem?_append_right (by omega)] at hget
    obtain ⟨k, hk⟩ := Nat.exists_eq_add_of_lt (show before.length < w.number by omega)
    rw [show w.number - before.length = k + 1 by omega, List.getElem?_cons_succ] at hget
    apply hlast w.data (List.mem_of_getElem? hget)
    rw [← hdata]
    exact haddr
  obtain ⟨-, u, hu, now, rfl⟩ := h.stored v (hexecuted v hv) hnewest
  refine ⟨now, ?_⟩
  rw [← hdata]
  exact hu

theorem created_once_last_stored (drv : Driver) (coll : List Document) (key : ℤ)
    (as : List Action) (s : State) (hok : Run.Allowed drv.step (Orderly drv) (start coll key) as)
    (hrun : Run.run drv.step (start coll key) as = some s) :
    ((s.coll.drop coll.length).map addressOf).Nodup ∧ (s.Quiet → LastStored drv s) := by
  have hstart : Once drv coll.length (start coll key) :=
    ⟨Nat.le_refl _, by simp [start], by simp [start]⟩
  have hboth := Run.invariant (fun s a s' h hok hstep => And.intro (Inv.step h.1 hok hstep)
    (Once.step h.2 h.1 hok hstep)) ⟨inv_start coll key, hstart⟩ hok hrun
  exact ⟨hboth.2.once, hboth.1.lastStored⟩

section Samples

def plainDriver : Driver where
  runtime := { round := .fin, localOffset := fun _ => 0 }
  connNumber := 3
  autoCreateTags := true
  tagIndex := true

def reading (value : String) : Data where
  protocolSourceObjectAddress := "plant/temp"
  fields := [("value", .string value), ("valueString", .string value), ("invalid", .bool false)]

-- A tag is created for the first value, and the second follows in the same run.
def inTurn : List Action :=
  [.enqueue (reading "20"), .tick, .goOn 0 1, .answer 0, .goOn 0 1, .answer 0, .goOn 0 1, .goOn 0 1,
    .enqueue (reading "21"), .goOn 0 2, .goOn 0 2, .goOn 0 2, .execute 0, .execute 0]

theorem inTurn_stored : ∃ s, Run.run plainDriver.step (start [] 3000000) inTurn = some s ∧
    s.coll.length = 1 ∧ LastStored plainDriver s := by
  have hrun : (Run.run plainDriver.step (start [] 3000000) inTurn).any
      (fun s => s.Quiet ∧ s.coll.length = 1) = true := by decide +kernel
  obtain ⟨s, hs, hend⟩ := (Option.any_eq_true _ _).mp hrun
  obtain ⟨hquiet, hlen⟩ := of_decide_eq_true hend
  have hok : Run.Allowed plainDriver.step (Orderly plainDriver) (start [] 3000000) inTurn := by
    decide +kernel
  exact ⟨s, hs, hlen, (created_once_last_stored plainDriver [] 3000000 inTurn s hok hs).2 hquiet⟩

-- A second run looks for the tag before the first one has created it. Its insert is
-- refused, and the value that it took goes with it.
def overlapping : List Action :=
  [.enqueue (reading "20"), .tick, .goOn 0 1, .enqueue (reading "21"), .tick, .goOn 1 2, .answer 0,
    .answer 1, .goOn 0 3, .goOn 1 3, .answer 0, .answer 1, .goOn 0 4, .goOn 0 4, .goOn 1 4,
    .execute 0, .goOn 0 5, .goOn 0 5]

theorem second_value_lost : ∃ s, Run.run plainDriver.step (start [] 3000000) overlapping = some s ∧
    s.Quiet ∧ ¬LastStored plainDriver s := by
  have hrun : (Run.run plainDriver.step (start [] 3000000) overlapping).any (fun s => s.Quiet ∧
      s.values = [reading "20"] ++ reading "21" :: [] ∧
      ((findOne s.coll (addressFilter 3 "plant/temp")).bind (·.lookup "sourceDataUpdate")) =
        some (.document (updTag plainDriver.runtime 3 4 (reading "20")))) = true := by decide +kernel
  obtain ⟨s, hs, hend⟩ := (Option.any_eq_true _ _).mp hrun
  obtain ⟨hquiet, hvalues, hstored⟩ := of_decide_eq_true hend
  refine ⟨s, hs, hquiet, ?_⟩
  intro hlast
  obtain ⟨now, hnow⟩ := hlast _ _ _ hvalues (by simp)
  rw [show (reading "21").protocolSourceObjectAddress = "plant/temp" from rfl] at hnow
  have hfields := Value.document.inj (Option.some.inj (hstored.symm.trans hnow))
  have htext := congrArg (·.lookup "valueStringAtSource") hfields
  simp [updTag, reading, Data.get, Processor.rawOrNil, List.lookup_cons] at htext

end Samples

end Runs

end LastValue

end JsonScada.Mqtt
