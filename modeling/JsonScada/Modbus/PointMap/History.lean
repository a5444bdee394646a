import JsonScada.Modbus.PointMap.Cells

namespace JsonScada.Modbus

open JsonScada.Library

variable (rt : Runtime) (cfg : Config)

def registerAt (units : Nat → Option Banks) (unit : Nat) (a : Area) (o : Nat) : Option (BitVec 16) :=
  (units unit).bind fun b => b.regs a o

def bitAreaAt (units : Nat → Option Banks) (unit : Nat) (a : Area) (o : Nat) : Option Bool :=
  (units unit).bind fun b => b.bits a o

section Update

variable (units : Nat → Option Banks) (b : Banks) (a : Area) (o : Nat)

theorem registerAt_update_self (unit : Nat) :
    registerAt (Function.update units unit (some b)) unit a o = b.regs a o := by
  simp [registerAt]

theorem registerAt_update_of_ne {unit unit' : Nat} (h : unit' ≠ unit) :
    registerAt (Function.update units unit (some b)) unit' a o = registerAt units unit' a o := by
  simp [registerAt, Function.update_of_ne h]

theorem bitAreaAt_update_self (unit : Nat) :
    bitAreaAt (Function.update units unit (some b)) unit a o = b.bits a o := by
  simp [bitAreaAt]

theorem bitAreaAt_update_of_ne {unit unit' : Nat} (h : unit' ≠ unit) :
    bitAreaAt (Function.update units unit (some b)) unit' a o = bitAreaAt units unit' a o := by
  simp [bitAreaAt, Function.update_of_ne h]

end Update

variable {rt cfg} in
theorem buildPoint_id {doc : TagDoc} {p : Point}
    (h : buildPoint rt cfg doc = .ok p) : p.id = doc.id := by
  unfold buildPoint at h
  simp only at h
  cases ha : parseObjectAddress
      (anyStr rt (Processor.rawOrNil (doc.dest.lookup "protocolDestinationObjectAddress")))
      cfg.useModiconAddresses with
  | error e =>
      rw [ha] at h
      cases h
  | ok addr =>
      rw [ha] at h
      simp only at h
      cases hb : parseAsdu (doc.dest.str "protocolDestinationASDU") addr.area cfg.defaults with
      | error e =>
          rw [hb] at h
          cases h
      | ok asdu =>
          rw [hb] at h
          rw [← Except.ok.inj h]

-- The readings a rebuild encodes, one for each document it can map.
def documentEvents (docs : List TagDoc) : List Event :=
  docs.filterMap fun doc =>
    match buildPoint rt cfg doc with
    | .error _ => none
    | .ok p => some { point := p, reading := doc.reading rt }

-- The readings that updates encode. An update of an unmapped tag is none.
def updateEvents (m : PointMap) (updates : List (Processor.Value × Reading)) : List Event :=
  updates.filterMap fun u =>
    (m.byID (anyString rt u.1)).map fun p => { point := p, reading := u.2 }

def PointMap.updateAll (m : PointMap) (updates : List (Processor.Value × Reading)) : PointMap :=
  updates.foldl (fun m u => (m.update rt cfg u.1 u.2).1) m

section Tracks

-- The banks are what a sequence of readings leaves in them: in every bit of a
-- register the last one written to it.
structure Tracks (units : Nat → Option Banks) (h : List Event) : Prop where
  mapped : ∀ unit, (units unit).isSome ↔ ∃ e ∈ h, e.point.unit = unit
  register : ∀ unit a o k, isBitArea a = false →
    registerBit (registerAt units unit a o) k =
      (LastWrite.after (fun e => Event.writes rt cfg e unit a o k) none h).getD false
  touched : ∀ unit a o, isBitArea a = false →
    (registerAt units unit a o).isSome = h.any fun e => e.touches rt cfg unit a o
  bit : ∀ unit a o, isBitArea a = true →
    bitAreaAt units unit a o = LastWrite.after (fun e => Event.writesBit cfg e unit a o) none h

theorem tracks_nil : Tracks rt cfg (fun _ => none) [] where
  mapped := by simp
  register := by simp [registerAt, registerBit, LastWrite.after]
  touched := by simp [registerAt]
  bit := by simp [bitAreaAt, LastWrite.after]

-- The banks of a unit, new ones if it had none.
def ensureUnit (units : Nat → Option Banks) (unit : Nat) : Nat → Option Banks :=
  if (units unit).isNone then Function.update units unit (some newBanks) else units

theorem ensureUnit_of_isSome {units : Nat → Option Banks} {unit : Nat}
    (h : (units unit).isSome) : ensureUnit units unit = units := by
  obtain ⟨b, hb⟩ := Option.isSome_iff_exists.mp h
  simp [ensureUnit, hb]

theorem ensureUnit_spec (units : Nat → Option Banks) (unit : Nat) :
    ∃ b, ensureUnit units unit unit = some b ∧
      (∀ a o, b.regs a o = registerAt units unit a o) ∧
      (∀ a o, b.bits a o = bitAreaAt units unit a o) := by
  unfold ensureUnit registerAt bitAreaAt
  cases hu : units unit with
  | none =>
      refine ⟨newBanks, by simp, ?_, ?_⟩
      · intro a o
        cases a <;> rfl
      · intro a o
        cases a <;> rfl
  | some b => exact ⟨b, by simp [hu], fun _ _ => rfl, fun _ _ => rfl⟩

theorem ensureUnit_of_ne {units : Nat → Option Banks} {unit unit' : Nat} (h : unit' ≠ unit) :
    ensureUnit units unit unit' = units unit' := by
  unfold ensureUnit
  by_cases hn : (units unit).isNone
  · rw [if_pos hn, Function.update_of_ne h]
  · rw [if_neg hn]

theorem registerAt_ensureUnit_of_ne {units : Nat → Option Banks} {unit unit' : Nat}
    (h : unit' ≠ unit) (a : Area) (o : Nat) :
    registerAt (ensureUnit units unit) unit' a o = registerAt units unit' a o := by
  rw [registerAt, ensureUnit_of_ne h, registerAt]

theorem bitAreaAt_ensureUnit_of_ne {units : Nat → Option Banks} {unit unit' : Nat}
    (h : unit' ≠ unit) (a : Area) (o : Nat) :
    bitAreaAt (ensureUnit units unit) unit' a o = bitAreaAt units unit' a o := by
  rw [bitAreaAt, ensureUnit_of_ne h, bitAreaAt]

variable {rt cfg}

theorem Event.here_of_ne {e : Event} {unit : Nat} (a : Area) (h : unit ≠ e.point.unit) :
    e.here unit a = false := by
  simp [Event.here, Ne.symm h]

theorem Tracks.snoc {units : Nat → Option Banks} {h : List Event} (ht : Tracks rt cfg units h)
    (e : Event) :
    Tracks rt cfg
      (PointMap.encodeAt rt cfg (ensureUnit units e.point.unit) e.point e.reading) (h ++ [e]) := by
  obtain ⟨b, hb, hregs, hbits⟩ := ensureUnit_spec units e.point.unit
  have hunits : PointMap.encodeAt rt cfg (ensureUnit units e.point.unit) e.point e.reading =
      Function.update (ensureUnit units e.point.unit) e.point.unit
        (some (encodeInto rt cfg b e.point e.reading)) := by
    simp only [PointMap.encodeAt, hb]
  rw [hunits]
  constructor
  · intro unit
    by_cases hu : unit = e.point.unit
    · simp [hu]
    · rw [Function.update_of_ne hu, ensureUnit_of_ne hu, ht.mapped]
      constructor
      · rintro ⟨e', he', rfl⟩
        exact ⟨e', List.mem_append_left _ he', rfl⟩
      · rintro ⟨e', he', rfl⟩
        rcases List.mem_append.mp he' with he' | he'
        · exact ⟨e', he', rfl⟩
        · rw [List.mem_singleton.mp he'] at hu
          exact absurd rfl hu
  · intro unit a o k ha
    rw [LastWrite.after_concat]
    by_cases hu : unit = e.point.unit
    · subst hu
      rw [registerAt_update_self, registerBit_encodeInto rt cfg b e ha, hregs,
        ht.register _ _ _ _ ha]
      cases e.writes rt cfg e.point.unit a o k <;> simp
    · rw [registerAt_update_of_ne _ _ _ _ hu, registerAt_ensureUnit_of_ne hu,
        ht.register _ _ _ _ ha]
      simp [Event.writes, Event.here_of_ne a hu]
  · intro unit a o ha
    rw [List.any_append, List.any_cons, List.any_nil, Bool.or_false]
    by_cases hu : unit = e.point.unit
    · subst hu
      rw [registerAt_update_self, isSome_encodeInto rt cfg b e ha, hregs, ht.touched _ _ _ ha,
        Bool.or_comm]
    · rw [registerAt_update_of_ne _ _ _ _ hu, registerAt_ensureUnit_of_ne hu, ht.touched _ _ _ ha]
      simp [Event.touches, Event.here_of_ne a hu]
  · intro unit a o ha
    rw [LastWrite.after_concat]
    by_cases hu : unit = e.point.unit
    · subst hu
      rw [bitAreaAt_update_self, bits_encodeInto rt cfg b e ha, hbits, ht.bit _ _ _ ha]
    · rw [bitAreaAt_update_of_ne _ _ _ _ hu, bitAreaAt_ensureUnit_of_ne hu, ht.bit _ _ _ ha]
      simp [Event.writesBit, Event.here_of_ne a hu]

end Tracks

section Runs

variable {rt cfg}

theorem documentEvents_cons (doc : TagDoc) (docs : List TagDoc) :
    documentEvents rt cfg (doc :: docs) =
      documentEvents rt cfg [doc] ++ documentEvents rt cfg docs := by
  rw [documentEvents, documentEvents, documentEvents, ← List.filterMap_append]
  rfl

theorem updateEvents_cons (m : PointMap) (u : Processor.Value × Reading)
    (updates : List (Processor.Value × Reading)) :
    updateEvents rt m (u :: updates) = updateEvents rt m [u] ++ updateEvents rt m updates := by
  rw [updateEvents, updateEvents, updateEvents, ← List.filterMap_append]
  rfl

-- The point of an identifier is the last one built with it.
def lastPoint (rt : Runtime) (h : List Event) (key : String) : Option Point :=
  LastWrite.after (fun e : Event => if e.key rt = key then some e.point else none) none h

theorem rebuildDoc_spec {m : PointMap} {h : List Event} (ht : Tracks rt cfg m.units h)
    (hid : ∀ key, m.byID key = lastPoint rt h key) (doc : TagDoc) :
    Tracks rt cfg (m.rebuildDoc rt cfg doc).units (h ++ documentEvents rt cfg [doc]) ∧
      ∀ key, (m.rebuildDoc rt cfg doc).byID key =
        lastPoint rt (h ++ documentEvents rt cfg [doc]) key := by
  unfold PointMap.rebuildDoc documentEvents
  cases hp : buildPoint rt cfg doc with
  | error e => simpa [hp] using ⟨ht, hid⟩
  | ok p =>
      simp only [List.filterMap_cons, hp, List.filterMap_nil]
      constructor
      · exact ht.snoc { point := p, reading := doc.reading rt }
      · intro key
        rw [lastPoint, LastWrite.after_concat]
        by_cases hk : anyString rt p.id = key
        · subst hk
          rw [Function.update_self, Event.key, if_pos rfl, Option.some_or]
        · rw [Function.update_of_ne (Ne.symm hk), hid, Event.key, if_neg hk, Option.none_or]
          rfl

theorem rebuild_spec (docs : List TagDoc) :
    Tracks rt cfg (PointMap.rebuild rt cfg docs).units (documentEvents rt cfg docs) ∧
      ∀ key, (PointMap.rebuild rt cfg docs).byID key =
        lastPoint rt (documentEvents rt cfg docs) key := by
  have hrun (m : PointMap) (h : List Event) (ht : Tracks rt cfg m.units h)
      (hid : ∀ key, m.byID key = lastPoint rt h key) :
      Tracks rt cfg (docs.foldl (PointMap.rebuildDoc rt cfg) m).units
          (h ++ documentEvents rt cfg docs) ∧
        ∀ key, (docs.foldl (PointMap.rebuildDoc rt cfg) m).byID key =
          lastPoint rt (h ++ documentEvents rt cfg docs) key := by
    induction docs generalizing m h with
    | nil => simpa [documentEvents] using ⟨ht, hid⟩
    | cons doc docs ih =>
        obtain ⟨ht', hid'⟩ := rebuildDoc_spec ht hid doc
        rw [List.foldl_cons, documentEvents_cons, ← List.append_assoc]
        exact ih _ _ ht' hid'
  exact hrun newPointMap [] (tracks_nil rt cfg) (fun _ => rfl)

theorem update_spec {m : PointMap} {h : List Event} (ht : Tracks rt cfg m.units h)
    (hid : ∀ key p, m.byID key = some p → (m.units p.unit).isSome)
    (u : Processor.Value × Reading) :
    Tracks rt cfg (m.update rt cfg u.1 u.2).1.units (h ++ updateEvents rt m [u]) ∧
      (m.update rt cfg u.1 u.2).1.byID = m.byID := by
  unfold PointMap.update updateEvents
  cases hp : m.byID (anyString rt u.1) with
  | none => simpa [hp] using ht
  | some p =>
      have hstep := ht.snoc { point := p, reading := u.2 }
      rw [ensureUnit_of_isSome (hid _ _ hp)] at hstep
      simpa [hp] using hstep

theorem updateAll_spec {m : PointMap} {h : List Event} (ht : Tracks rt cfg m.units h)
    (hid : ∀ key p, m.byID key = some p → ∃ e ∈ h, e.point = p)
    (updates : List (Processor.Value × Reading)) :
    Tracks rt cfg (m.updateAll rt cfg updates).units (h ++ updateEvents rt m updates) := by
  induction updates generalizing m h with
  | nil => simpa [PointMap.updateAll, updateEvents] using ht
  | cons u updates ih =>
      have hunit (key : String) (p : Point) (hp : m.byID key = some p) :
          (m.units p.unit).isSome := by
        obtain ⟨e, he, rfl⟩ := hid key p hp
        exact (ht.mapped _).mpr ⟨e, he, rfl⟩
      obtain ⟨ht', hsame⟩ := update_spec ht hunit u
      have hrest : updateEvents rt (m.update rt cfg u.1 u.2).1 updates =
          updateEvents rt m updates := by
        simp only [updateEvents, hsame]
      rw [updateEvents_cons, ← List.append_assoc, ← hrest]
      apply ih ht'
      intro key p hp
      rw [hsame] at hp
      obtain ⟨e, he, hep⟩ := hid key p hp
      exact ⟨e, List.mem_append_left _ he, hep⟩

end Runs

end JsonScada.Modbus
