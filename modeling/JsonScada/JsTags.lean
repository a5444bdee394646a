import JsonScada.JsMongo

-- What every driver does alike when it creates a tag.
namespace JsonScada.JsTags

open JsonScada.Library
open JsonScada.JsMongo
open JsonScada.Processor (Document Value)

-- math.MaxFloat64
def maxFloat64 : ℚ := (2 ^ 53 - 1) * 2 ^ 971

section Keys

def defaultKeyMultiplier : ℚ := 1000000

-- The last _id that was handed out in the range of a connection, zero before the first.
structure KeyAllocator where
  last : Double := .fin 0

def base (connNumber : ℤ) : Double :=
  Double.mul Double.round (Double.round connNumber) (.fin defaultKeyMultiplier)

def top (connNumber : ℤ) : Double := base (connNumber + 1)

def greater (best : Option Double) (x : Double) : Option Double :=
  match best with
  | none => some x
  | some y => some (if Double.lt y x then x else y)

-- The highest _id strictly between two bounds.
def highestId (coll : List Document) (low high : Double) : Option Double :=
  let ids := coll.filterMap fun d => d.num "_id"
  (ids.filter fun id => Double.lt low id && Double.lt id high).foldl greater none

-- The next _id. The first one is looked up, and a lookup that fails or finds nothing
-- starts the range at its base.
def KeyAllocator.next (k : KeyAllocator) (coll : List Document) (lookupOk : Bool)
    (connNumber : ℤ) : KeyAllocator × Double :=
  let succ (x : Double) := Double.add Double.round x (.fin 1)
  let id :=
    if !Double.eq k.last (.fin 0) then succ k.last
    else
      match if lookupOk then highestId coll (base connNumber) (top connNumber) else none with
      | some id => succ id
      | none => base connNumber
  ({ last := id }, id)

end Keys

-- The fields that are the same in every tag a driver creates.
def baseDoc : Document :=
  [("alarmDisabled", .bool false), ("alerted", .bool false), ("alarmed", .bool false),
    ("alertState", .string ""), ("annotation", .string ""), ("commandBlocked", .bool false),
    ("commissioningRemarks", .string ""), ("formula", .number (.fin 0)), ("frozen", .bool false),
    ("frozenDetectTimeout", .number (.fin 0)), ("hiLimit", .number (.fin maxFloat64)),
    ("hihiLimit", .number (.fin maxFloat64)), ("hihihiLimit", .number (.fin maxFloat64)),
    ("historianDeadBand", .number (.fin 0)), ("historianPeriod", .number (.fin 0)),
    ("hysteresis", .number (.fin 0)), ("isEvent", .bool false), ("kconv1", .number (.fin 1)),
    ("kconv2", .number (.fin 0)), ("loLimit", .number (.fin (-maxFloat64))), ("location", .null),
    ("loloLimit", .number (.fin (-maxFloat64))), ("lololoLimit", .number (.fin (-maxFloat64))),
    ("notes", .string ""), ("overflow", .bool false), ("parcels", .null),
    ("priority", .number (.fin 0)), ("sourceDataUpdate", .null), ("substituted", .bool false),
    ("timeTag", .null), ("timeTagAlarm", .null), ("timeTagAtSource", .null),
    ("timeTagAtSourceOk", .bool false), ("transient", .bool false), ("unit", .string ""),
    ("updatesCnt", .number (.fin 0)), ("valueDefault", .number (.fin 0)),
    ("zeroDeadband", .number (.fin 0))]

-- The keys that an allocator hands out are new.

-- A key that lies strictly between two bounds.
def Between (low high id : Double) : Prop := Double.lt low id = true ∧ Double.lt id high = true

instance (low high id : Double) : Decidable (Between low high id) :=
  inferInstanceAs (Decidable (_ ∧ _))

def succ (id : Double) : Double := Double.add Double.round id (.fin 1)

section Highest

variable {ids : List Double} {h : Double}

-- The greatest of the keys, which are numbers.
theorem foldl_greater {best : Option Double} (hids : ∀ id ∈ ids, id ≠ .nan)
    (hbest : ∀ y, best = some y → y ≠ .nan) (hfold : ids.foldl greater best = some h) :
    (best = some h ∨ h ∈ ids) ∧ (∀ y, best = some y → Double.lt h y = false) ∧
      ∀ id ∈ ids, Double.lt h id = false := by
  induction ids generalizing best with
  | nil =>
      obtain rfl := hfold
      refine ⟨.inl rfl, ?_, fun _ hid => absurd hid List.not_mem_nil⟩
      intro y hy
      obtain rfl := Option.some.inj hy
      exact Double.lt_irrefl h
  | cons x ids ih =>
      have hx : x ≠ .nan := hids x List.mem_cons_self
      have hids' : ∀ id ∈ ids, id ≠ .nan := fun id hid => hids id (List.mem_cons_of_mem _ hid)
      -- the greater of the two takes the place of both
      obtain ⟨m, hm, hmnan, hmor, hle⟩ : ∃ m, greater best x = some m ∧ m ≠ .nan ∧
          (best = some m ∨ m = x) ∧ (Double.lt h m = false → Double.lt h x = false ∧
            ∀ y, best = some y → Double.lt h y = false) := by
        cases best with
        | none => exact ⟨x, rfl, hx, .inr rfl, fun hlt => ⟨hlt, fun y hy => by cases hy⟩⟩
        | some y =>
            by_cases hyx : Double.lt y x = true
            · refine ⟨x, by rw [greater, if_pos hyx], hx, .inr rfl, fun hlt => ⟨hlt, ?_⟩⟩
              rintro z ⟨⟩
              by_contra hhy
              rw [Double.lt_trans (Bool.not_eq_false _ ▸ hhy) hyx] at hlt
              cases hlt
            · refine ⟨y, by rw [greater, if_neg hyx], hbest y rfl, .inl rfl, fun hlt => ⟨?_, ?_⟩⟩
              · by_contra hhx
                rw [Double.lt_of_lt_of_not_lt (hbest y rfl) (Bool.not_eq_false _ ▸ hhx)
                  (Bool.not_eq_true _ ▸ hyx)] at hlt
                cases hlt
              · rintro z ⟨⟩
                exact hlt
      rw [List.foldl_cons, hm] at hfold
      obtain ⟨hmem, hhm, hrest⟩ := ih hids' (fun y hy => Option.some.inj hy ▸ hmnan) hfold
      obtain ⟨hhx, hhy⟩ := hle (hhm m rfl)
      refine ⟨?_, hhy, ?_⟩
      · rcases hmem with hmem | hmem
        · rw [Option.some.inj hmem] at hmor
          rcases hmor with hbest | rfl
          · exact .inl hbest
          · exact .inr List.mem_cons_self
        · exact .inr (List.mem_cons_of_mem _ hmem)
      · intro id hid
        rcases List.mem_cons.mp hid with rfl | hid
        · exact hhx
        · exact hrest id hid

theorem foldl_greater_some (ids : List Double) (y : Double) :
    ∃ h, ids.foldl greater (some y) = some h := by
  induction ids generalizing y with
  | nil => exact ⟨y, rfl⟩
  | cons x ids ih => exact ih _

variable {coll : List Document} {low high : Double}

def idsBetween (coll : List Document) (low high : Double) : List Double :=
  (coll.filterMap fun d => d.num "_id").filter fun id => Double.lt low id && Double.lt id high

theorem mem_idsBetween {id : Double} :
    id ∈ idsBetween coll low high ↔ (∃ d ∈ coll, d.num "_id" = some id) ∧ Between low high id := by
  rw [idsBetween, List.mem_filter, List.mem_filterMap, Bool.and_eq_true, Between]

theorem highestId_some (hfound : highestId coll low high = some h) :
    (∃ d ∈ coll, d.num "_id" = some h) ∧ Between low high h ∧
      ∀ d ∈ coll, ∀ id, d.num "_id" = some id → ¬Between h high id := by
  have hids : ∀ id ∈ idsBetween coll low high, id ≠ .nan :=
    fun id hid => (Double.ne_nan_of_lt (mem_idsBetween.mp hid).2.1).2
  obtain ⟨hmem, -, hrest⟩ := foldl_greater hids (fun y hy => by cases hy) hfound
  obtain ⟨hd, hbetween⟩ := mem_idsBetween.mp (hmem.resolve_left (by simp))
  refine ⟨hd, hbetween, fun d hdc id hid hin => ?_⟩
  have hlow : Between low high id := ⟨Double.lt_trans hbetween.1 hin.1, hin.2⟩
  have := hrest id (mem_idsBetween.mpr ⟨⟨d, hdc, hid⟩, hlow⟩)
  rw [hin.1] at this
  cases this

theorem highestId_none (hnone : highestId coll low high = none) :
    ∀ d ∈ coll, ∀ id, d.num "_id" = some id → ¬Between low high id := by
  intro d hd id hid hin
  have hmem : id ∈ idsBetween coll low high := mem_idsBetween.mpr ⟨⟨d, hd, hid⟩, hin⟩
  have hfold : (idsBetween coll low high).foldl greater none = none := hnone
  cases hids : idsBetween coll low high with
  | nil =>
      rw [hids] at hmem
      cases hmem
  | cons x ids =>
      rw [hids, List.foldl_cons] at hfold
      obtain ⟨y, hy⟩ := foldl_greater_some ids x
      rw [show greater none x = some x from rfl, hy] at hfold
      cases hfold

end Highest

section Next

variable (k : KeyAllocator) (coll : List Document) (lookupOk : Bool) (n : ℤ)

-- What the first lookup is to find: the highest known key of the range is a stored one above its
-- base, or there is none.
def SafeLookup (ids : List Double) : Option Double → Prop
  | some h => lookupOk = true ∧ Between h (top n) (succ h) ∧ ∀ id ∈ ids, ¬Between h (top n) id
  | none => ∀ id ∈ ids, id ≠ base n ∧ ¬Between (base n) (top n) id

instance (ids : List Double) : ∀ found, Decidable (SafeLookup lookupOk n ids found)
  | some h => inferInstanceAs (Decidable (lookupOk = true ∧ Between h (top n) (succ h) ∧
      ∀ id ∈ ids, ¬Between h (top n) id))
  | none => inferInstanceAs (Decidable (∀ id ∈ ids, id ≠ base n ∧ ¬Between (base n) (top n) id))

-- The next key is looked up safely, or counts up within the range of the connection.
def KeyAllocator.Safe (ids : List Double) : Prop :=
  if Double.eq k.last (.fin 0) then
    SafeLookup lookupOk n ids (highestId coll (base n) (top n))
  else Between k.last (top n) (succ k.last)

instance (ids : List Double) : Decidable (k.Safe coll lookupOk n ids) :=
  inferInstanceAs (Decidable (if Double.eq k.last (.fin 0) then
    SafeLookup lookupOk n ids (highestId coll (base n) (top n))
  else Between k.last (top n) (succ k.last)))

-- No known key lies between the last one and the end of the range.
def KeyAllocator.Ahead (ids : List Double) : Prop :=
  Double.eq k.last (.fin 0) = false → ∀ id ∈ ids, ¬Between k.last (top n) id

variable {k coll lookupOk n} {ids : List Double}

-- The next key, where no known one lies above the last.
theorem above_succ {low high : Double} (hnext : Between low high (succ low))
    (hids : ∀ id ∈ ids, ¬Between low high id) :
    succ low ∉ ids ∧ ∀ id ∈ ids, ¬Between (succ low) high id :=
  ⟨fun hmem => hids _ hmem hnext,
    fun id hid hin => hids id hid ⟨Double.lt_trans hnext.1 hin.1, hin.2⟩⟩

theorem KeyAllocator.next_spec (hsafe : k.Safe coll lookupOk n ids) (hahead : k.Ahead n ids) :
    (k.next coll lookupOk n).1.last = (k.next coll lookupOk n).2 ∧
      (k.next coll lookupOk n).2 ∉ ids ∧
      ∀ id ∈ ids, ¬Between (k.next coll lookupOk n).2 (top n) id := by
  refine ⟨rfl, ?_⟩
  unfold KeyAllocator.Safe at hsafe
  cases hlast : Double.eq k.last (.fin 0) with
  | false =>
      rw [hlast, if_neg Bool.false_ne_true] at hsafe
      have hkey : (k.next coll lookupOk n).2 = succ k.last := by
        simp [KeyAllocator.next, hlast, succ]
      rw [hkey]
      exact above_succ hsafe (hahead hlast)
  | true =>
      rw [hlast, if_pos rfl] at hsafe
      cases hfound : highestId coll (base n) (top n) with
      | some h =>
          rw [hfound] at hsafe
          obtain ⟨rfl, hin, hids⟩ := hsafe
          have hkey : (k.next coll true n).2 = succ h := by
            simp [KeyAllocator.next, hlast, hfound, succ]
          rw [hkey]
          exact above_succ hin hids
      | none =>
          rw [hfound] at hsafe
          have hkey : (k.next coll lookupOk n).2 = base n := by
            simp [KeyAllocator.next, hlast, hfound]
          rw [hkey]
          exact ⟨fun hmem => (hsafe _ hmem).1 rfl, fun id hid => (hsafe id hid).2⟩

end Next

-- The keys of the tags that are created over the restarts of a driver.

-- The keys of a connection, from the base up to, but without, the top.
structure KeyRange where
  base : Double
  top : Double

section Range

variable (r : KeyRange)

def KeyRange.Contains (key : Double) : Prop :=
  Double.le r.base key = true ∧ Double.lt key r.top = true

-- Count up from the last key, or look the first one up.
def KeyRange.next (last : Double) (coll : List Document) : Double :=
  if !Double.eq last (.fin 0) then succ last
  else
    match highestId coll r.base r.top with
    | some id => succ id
    | none => r.base

def storedKeys (coll : List Document) : List Double := coll.filterMap fun d => d.num "_id"

-- The key after the highest stored one within the range is below the top, or the base is free
-- where there is none.
def KeyRange.RoomAbove (coll : List Document) : Option Double → Prop
  | some id => Between id r.top (succ id)
  | none => r.base ∉ storedKeys coll ∧ Double.lt r.base r.top = true

instance (coll : List Document) : ∀ found, Decidable (r.RoomAbove coll found)
  | some id => inferInstanceAs (Decidable (Between id r.top (succ id)))
  | none => inferInstanceAs (Decidable (r.base ∉ storedKeys coll ∧ Double.lt r.base r.top = true))

-- There is a place for the next key: below the top, and not at a base that is taken.
def KeyRange.HasRoom (last : Double) (coll : List Document) : Prop :=
  if Double.eq last (.fin 0) then r.RoomAbove coll (highestId coll r.base r.top)
  else Between last r.top (succ last)

instance (last : Double) (coll : List Document) : Decidable (r.HasRoom last coll) :=
  inferInstanceAs (Decidable (if Double.eq last (.fin 0) then
    r.RoomAbove coll (highestId coll r.base r.top) else Between last r.top (succ last)))

end Range

section Runs

-- The last key of the running driver, zero from its start, and the stored documents.
structure Allocation where
  last : Double
  coll : List Document

inductive Event where
  -- a key is taken for a tag, which is stored with it
  | create (tag : Document)
  | restart

-- The next key, from the last one and what is stored.
variable (next : Double → List Document → Double)

def Allocation.key (s : Allocation) : Double := next s.last s.coll

def withKey (key : Double) (tag : Document) : Document := ("_id", .number key) :: tag

def Allocation.step (s : Allocation) : Event → Allocation
  | .create tag =>
      let key := s.key next
      { last := key, coll := (insertOne s.coll (withKey key tag)).getD s.coll }
  | .restart => { s with last := .fin 0 }

-- The keys that are handed out, in order.
def Allocation.keys (s : Allocation) : List Event → List Double
  | [] => []
  | .create tag :: events => s.key next :: (s.step next (.create tag)).keys events
  | .restart :: events => (s.step next .restart).keys events

-- Whenever a key is taken, there is room for it.
def Allocation.AlwaysRoom (r : KeyRange) (s : Allocation) : List Event → Prop
  | [] => True
  | .create tag :: events =>
      r.HasRoom s.last s.coll ∧ (s.step next (.create tag)).AlwaysRoom r events
  | .restart :: events => (s.step next .restart).AlwaysRoom r events

instance decidableAlwaysRoom (r : KeyRange) :
    ∀ (s : Allocation) (events : List Event), Decidable (s.AlwaysRoom next r events)
  | _, [] => .isTrue trivial
  | s, .create tag :: events =>
      have := decidableAlwaysRoom r (s.step next (.create tag)) events
      inferInstanceAs (Decidable (_ ∧ _))
  | s, .restart :: events => decidableAlwaysRoom r (s.step next .restart) events

end Runs

section Stored

variable {coll : List Document} {key : Double}

theorem mem_storedKeys : key ∈ storedKeys coll ↔ ∃ d ∈ coll, d.num "_id" = some key := by
  rw [storedKeys, List.mem_filterMap]

@[simp] theorem storedKeys_concat (tag : Document) :
    storedKeys (coll ++ [withKey key tag]) = storedKeys coll ++ [key] := by
  simp [storedKeys, List.filterMap_append, withKey, Document.num]

theorem num_of_lookup {d : Document} (h : d.lookup "_id" = some (.number key)) :
    d.num "_id" = some key := by
  rw [Document.num, h]

-- What has a new key is stored.
theorem insertOne_withKey (tag : Document) (hnew : key ∉ storedKeys coll) :
    insertOne coll (withKey key tag) = some (coll ++ [withKey key tag]) :=
  insertOne_of_new (by simp [withKey]) fun c hc hkey =>
    hnew (mem_storedKeys.mpr ⟨c, hc, num_of_lookup hkey⟩)

end Stored

section Unique

variable {r : KeyRange} {s : Allocation}

-- Once a key is cached, it is one of the range, and no stored key lies above it there.
def Allocation.Ahead (r : KeyRange) (s : Allocation) : Prop :=
  Double.eq s.last (.fin 0) = false →
    r.Contains s.last ∧ ∀ id ∈ storedKeys s.coll, ¬Between s.last r.top id

-- A key next to one of the range that no stored key lies above.
theorem contains_succ {low : Double} (hlow : Double.le r.base low = true)
    (hnext : Between low r.top (succ low)) : r.Contains (succ low) := by
  refine ⟨?_, hnext.2⟩
  rw [Double.le, Bool.or_eq_true] at hlow ⊢
  rcases hlow with hlt | heq
  · exact .inl (Double.lt_trans hlt hnext.1)
  · obtain ⟨rfl, -⟩ := Double.eq_iff.mp heq
    exact .inl hnext.1

theorem key_spec (hroom : r.HasRoom s.last s.coll) (hahead : s.Ahead r) :
    r.Contains (s.key r.next) ∧ s.key r.next ∉ storedKeys s.coll ∧
      ∀ id ∈ storedKeys s.coll, ¬Between (s.key r.next) r.top id := by
  unfold KeyRange.HasRoom at hroom
  cases hlast : Double.eq s.last (.fin 0) with
  | false =>
      rw [hlast, if_neg Bool.false_ne_true] at hroom
      have hkey : s.key r.next = succ s.last := by simp [Allocation.key, KeyRange.next, hlast]
      obtain ⟨hin, hids⟩ := hahead hlast
      rw [hkey]
      exact ⟨contains_succ hin.1 hroom, above_succ hroom hids⟩
  | true =>
      rw [hlast, if_pos rfl] at hroom
      cases hfound : highestId s.coll r.base r.top with
      | some h =>
          rw [hfound] at hroom
          have hkey : s.key r.next = succ h := by simp [Allocation.key, KeyRange.next, hlast, hfound]
          obtain ⟨-, hbetween, hids⟩ := highestId_some hfound
          have hbase : Double.le r.base h = true := by rw [Double.le, hbetween.1, Bool.true_or]
          rw [hkey]
          refine ⟨contains_succ hbase hroom, above_succ hroom fun id hid => ?_⟩
          obtain ⟨d, hd, hnum⟩ := mem_storedKeys.mp hid
          exact hids d hd id hnum
      | none =>
          rw [hfound] at hroom
          have hkey : s.key r.next = r.base := by simp [Allocation.key, KeyRange.next, hlast, hfound]
          have hbase : Double.le r.base r.base = true := by
            rw [Double.le, Double.eq_self_iff.mpr (Double.ne_nan_of_lt hroom.2).1, Bool.or_true]
          rw [hkey]
          refine ⟨⟨hbase, hroom.2⟩, hroom.1, fun id hid => ?_⟩
          obtain ⟨d, hd, hnum⟩ := mem_storedKeys.mp hid
          exact highestId_none hfound d hd id hnum

-- A tag for which there was room is stored, and its key is the highest one of the range.
theorem step_create (tag : Document) (hroom : r.HasRoom s.last s.coll) (hahead : s.Ahead r) :
    storedKeys (s.step r.next (.create tag)).coll = storedKeys s.coll ++ [s.key r.next] ∧
      (s.step r.next (.create tag)).Ahead r := by
  obtain ⟨hin, hnew, habove⟩ := key_spec hroom hahead
  have hcoll : (s.step r.next (.create tag)).coll = s.coll ++ [withKey (s.key r.next) tag] := by
    simp only [Allocation.step, insertOne_withKey tag hnew, Option.getD_some]
  have hkeys : storedKeys (s.step r.next (.create tag)).coll = storedKeys s.coll ++ [s.key r.next] := by
    rw [hcoll, storedKeys_concat]
  refine ⟨hkeys, fun _ => ⟨hin, ?_⟩⟩
  intro id hid
  rw [hkeys, List.mem_append, List.mem_singleton] at hid
  rcases hid with hid | rfl
  · exact habove id hid
  · exact fun hself => absurd hself.1 (by simp [Allocation.step, Double.lt_irrefl])

theorem step_restart : (s.step r.next .restart).Ahead r := by
  intro hlast
  simp [Allocation.step] at hlast

theorem keys_unique {events : List Event} (hroom : s.AlwaysRoom r.next r events) (hahead : s.Ahead r) :
    (∀ key ∈ s.keys r.next events, r.Contains key ∧ key ∉ storedKeys s.coll) ∧
      (s.keys r.next events).Nodup := by
  induction events generalizing s with
  | nil => exact ⟨fun _ hkey => absurd hkey List.not_mem_nil, List.nodup_nil⟩
  | cons e events ih =>
      cases e with
      | create tag =>
          obtain ⟨hin, hnew, -⟩ := key_spec hroom.1 hahead
          obtain ⟨hkeys, hahead'⟩ := step_create tag hroom.1 hahead
          obtain ⟨hrest, hnodup⟩ := ih hroom.2 hahead'
          have hlater : ∀ key ∈ (s.step r.next (.create tag)).keys r.next events,
              r.Contains key ∧ key ∉ storedKeys s.coll ∧ key ≠ s.key r.next := by
            intro key hkey
            obtain ⟨hcontains, hfresh⟩ := hrest key hkey
            rw [hkeys, List.mem_append, List.mem_singleton, not_or] at hfresh
            exact ⟨hcontains, hfresh⟩
          refine ⟨?_, ?_⟩
          · intro key hkey
            rcases List.mem_cons.mp hkey with rfl | hkey
            · exact ⟨hin, hnew⟩
            · exact ⟨(hlater key hkey).1, (hlater key hkey).2.1⟩
          · exact List.nodup_cons.mpr ⟨fun hmem => (hlater _ hmem).2.2 rfl, hnodup⟩
      | restart => exact ih hroom step_restart

end Unique

end JsonScada.JsTags
