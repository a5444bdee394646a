import JsonScada.Iec60870.Server
import JsonScada.JsMongo

namespace JsonScada.Iec60870.Server.AutoTag

open JsonScada.Library
open JsonScada.JsMongo
open JsonScada.Processor (Document Value contains)

structure AutoTagCfg extends ConnCfg where
  commandsEnabled : Bool := true
  autoCreateTags : Bool
  sizeOfIOA : Double
  localLinkAddress : Double
  topics : List String := []

section Categories

inductive Category where
  | digitalCommand | analogCommand | digitalMonitored | analogMonitored
deriving DecidableEq

namespace Category

def pointType : Category → String
  | digitalCommand | digitalMonitored => "digital"
  | analogCommand | analogMonitored => "analog"

def isCommand : Category → Bool
  | digitalCommand | analogCommand => true
  | digitalMonitored | analogMonitored => false

def asdu : Category → ℤ
  | digitalCommand => 45
  | analogCommand => 50
  | digitalMonitored => 1
  | analogMonitored => 13

-- One address space for a common address, in ranges that do not overlap.
def ioaBase : Category → ℤ
  | digitalMonitored => 1
  | analogMonitored => 20001
  | digitalCommand => 40001
  | analogCommand => 50001

def ioaTop : Category → ℤ
  | digitalMonitored => 20000
  | analogMonitored => 40000
  | digitalCommand => 50000
  | analogCommand => 60000

def Holds (cat : Category) (ioa : ℤ) : Prop := cat.ioaBase ≤ ioa ∧ ioa ≤ cat.ioaTop

instance (cat : Category) (ioa : ℤ) : Decidable (cat.Holds ioa) := inferInstanceAs (Decidable (_ ∧ _))

end Category

-- The categories of a connection, commands first when it has them.
def categories (cfg : AutoTagCfg) : List Category :=
  [.digitalCommand, .analogCommand, .digitalMonitored, .analogMonitored].filter fun cat =>
    !cat.isCommand || cfg.commandsEnabled

end Categories

section Points

-- The destinations of a point, as they are stored.
inductive Destinations where
  | missing
  | entries (docs : List Document)
  -- something that is no array
  | other

-- What the distribution reads of a point. A missing text is empty.
structure Point (ι : Type*) where
  id : ι
  type : String
  origin : String
  group1 : String
  destinations : Destinations

-- The points in the order of their _id.
structure Collection (ι : Type*) [LinearOrder ι] where
  points : List (Point ι)
  sorted : points.Pairwise fun p p' => p.id < p'.id

variable {ι : Type*}

def Point.entries (p : Point ι) : List Document :=
  match p.destinations with
  | .entries docs => docs
  | _ => []

def Point.canHold (p : Point ι) : Bool :=
  match p.destinations with
  | .other => false
  | _ => true

-- A destination is pushed to an array, which is made where there is none.
def Point.push (e : Document) (p : Point ι) : Point ι :=
  { p with
    destinations :=
      match p.destinations with
      | .missing => .entries [e]
      | .entries docs => .entries (docs ++ [e])
      | .other => .other }

-- How the database compares numbers: a NaN equals itself.
def isNumber (x : Double) : Value → Bool
  | .number y => y = x
  | _ => false

-- The query for the points that have an entry of a connection.
def Point.isMapped (x : Double) (p : Point ι) : Bool :=
  p.entries.any fun e =>
    fieldMatches (isNumber x) (e.lookup "protocolDestinationConnectionNumber")

def Point.isOf (cat : Category) (p : Point ι) : Bool :=
  p.type = cat.pointType && (p.origin = "command") = cat.isCommand

def objectAddress (e : Document) : ℤ := (getU32 e "protocolDestinationObjectAddress" 0).toNat

def candidates (x : Double) (cat : Category) (points : List (Point ι)) : List (Point ι) :=
  points.filter fun p => p.isOf cat && !p.isMapped x

variable (pl : Platform)

def isCounted (x : Double) (e : Document) : Bool :=
  (pl.toInt .int (getDouble e "protocolDestinationConnectionNumber" (.fin 0))).1 =
    (pl.toInt .int x).1

-- The addresses that the driver finds in use for a connection.
def usedAddresses (x : Double) (points : List (Point ι)) : List ℤ :=
  (points.filter (Point.isMapped x)).flatMap fun p =>
    (p.entries.filter (isCounted pl x)).map objectAddress

-- The highest one in the range of a category.
def lastIoa (x : Double) (cat : Category) (points : List (Point ι)) : ℤ :=
  (usedAddresses pl x points).foldl
    (fun last ioa => if cat.Holds ioa ∧ last < ioa then ioa else last) (cat.ioaBase - 1)

end Points

section Distribution

variable {ι : Type*} [LinearOrder ι]

-- A destination that is given to a point.
structure Assignment (ι : Type*) where
  id : ι
  connectionNumber : Double
  category : Category
  ioa : ℤ
  entry : Document

-- The collection, and what has been logged.
structure Run (ι : Type*) [LinearOrder ι] where
  coll : Collection ι
  log : List (Assignment ι) := []

variable (cfg : AutoTagCfg) (cat : Category)

def matchesTopic (group1 : String) : Bool :=
  cfg.topics.isEmpty || cfg.topics.any fun topic => contains group1 topic

def autoCA : Double := defaultOne cfg.localLinkAddress

def destDoc (ioa : ℤ) : Document :=
  [("protocolDestinationConnectionNumber", .number cfg.protocolConnectionNumber),
    ("protocolDestinationCommonAddress", .number (autoCA cfg)),
    ("protocolDestinationObjectAddress", .number (.fin ioa)),
    ("protocolDestinationASDU", .number (.fin cat.asdu)),
    ("protocolDestinationCommandDuration", .number (.fin 0)),
    ("protocolDestinationCommandUseSBO", .bool false),
    ("protocolDestinationKConv1", .number (.fin 1)),
    ("protocolDestinationKConv2", .number (.fin 0)),
    ("protocolDestinationGroup", .number (.fin 0)),
    ("protocolDestinationHoursShift", .number (.fin 0))]

def pushTo (id : ι) (e : Document) (p : Point ι) : Point ι := if p.id = id then p.push e else p

theorem pushTo_id (id : ι) (e : Document) (p : Point ι) : (pushTo id e p).id = p.id := by
  unfold pushTo
  split_ifs <;> rfl

def Collection.push (id : ι) (e : Document) (coll : Collection ι) : Collection ι where
  points := coll.points.map (pushTo id e)
  sorted := by
    rw [List.pairwise_map]
    simp only [pushTo_id]
    exact coll.sorted

-- An update that fails leaves the point without a destination.
def Run.assign (id : ι) (ioa : ℤ) (r : Run ι) : Run ι :=
  if r.coll.points.any fun p => p.id = id && p.canHold then
    { coll := r.coll.push id (destDoc cfg cat ioa)
      log := r.log ++ [{ id := id, connectionNumber := cfg.protocolConnectionNumber, category := cat
                         ioa := ioa, entry := destDoc cfg cat ioa }] }
  else r

-- The loop over the points without a destination.
def distribute : List (Point ι) → ℤ → Run ι → Run ι
  | [], _, r => r
  | p :: ps, nextIoa, r =>
      if !matchesTopic cfg p.group1 then distribute ps nextIoa r
      else if cat.ioaTop < nextIoa + 1 then r
      else distribute ps (nextIoa + 1) (r.assign cfg cat p.id (nextIoa + 1))

-- One category, whose counter starts at an address.
def distributeCategory (startIoa : Category → ℤ) (r : Run ι) (cat : Category) : Run ι :=
  distribute cfg cat (candidates cfg.protocolConnectionNumber cat r.coll.points) (startIoa cat) r

variable (pl : Platform)

-- The counters start where the addresses in use end.
def startIoa (r : Run ι) (cat : Category) : ℤ :=
  lastIoa pl cfg.protocolConnectionNumber cat r.coll.points

def isDistributed : Bool := cfg.autoCreateTags && !Double.lt cfg.sizeOfIOA (.fin 2)

def distributeConn (r : Run ι) : Run ι :=
  if isDistributed cfg then
    (categories cfg).foldl (distributeCategory cfg (startIoa cfg pl r)) r
  else r

def distributeAutoTags (cfgs : List AutoTagCfg) (coll : Collection ι) : Run ι :=
  cfgs.foldl (fun r cfg => distributeConn cfg pl r) { coll := coll }

end Distribution

open JsonScada.Processor (Document Value)

section Points

variable {ι : Type*} {p : Point ι} {e : Document} {x : Double}

-- An entry has the number of a connection.
def owns (x : Double) (e : Document) : Prop :=
  e.lookup "protocolDestinationConnectionNumber" = some (.number x)

theorem push_entries (p : Point ι) (e : Document) :
    (p.push e).entries = p.entries ++ if p.canHold then [e] else [] := by
  cases h : p.destinations <;> simp [Point.push, Point.entries, Point.canHold, h]

theorem push_canHold (p : Point ι) (e : Document) : (p.push e).canHold = p.canHold := by
  cases h : p.destinations <;> simp [Point.push, Point.canHold, h]

theorem isMapped_push (h : p.isMapped x = true) : (p.push e).isMapped x = true := by
  rw [Point.isMapped, push_entries, List.any_append, Bool.or_eq_true]
  exact .inl h

theorem isMapped_of_owns (he : e ∈ p.entries) (howns : owns x e) : p.isMapped x = true := by
  refine List.any_eq_true.mpr ⟨e, he, ?_⟩
  rw [howns]
  simp [fieldMatches, isNumber]

end Points

section Entries

variable (cfg : AutoTagCfg) (cat : Category)

theorem owns_destDoc (ioa : ℤ) (x : Double) :
    owns x (destDoc cfg cat ioa) ↔ cfg.protocolConnectionNumber = x := by
  have hlookup : (destDoc cfg cat ioa).lookup "protocolDestinationConnectionNumber" =
      some (.number cfg.protocolConnectionNumber) := rfl
  rw [owns, hlookup, Option.some.injEq, Value.number.injEq]

theorem fieldMatches_destDoc (ioa : ℤ) (x : Double) :
    fieldMatches (isNumber x)
        ((destDoc cfg cat ioa).lookup "protocolDestinationConnectionNumber") =
      decide (cfg.protocolConnectionNumber = x) := rfl

variable {cat}

theorem objectAddress_destDoc {ioa : ℤ} (h : cat.Holds ioa) :
    objectAddress (destDoc cfg cat ioa) = ioa := by
  obtain ⟨hbase, htop⟩ := h
  have hrange : 0 ≤ ioa ∧ ioa < 2 ^ 32 := by
    cases cat <;> simp only [Category.ioaBase, Category.ioaTop] at hbase htop <;> omega
  obtain ⟨n, rfl⟩ := Int.eq_ofNat_of_zero_le hrange.1
  have hlookup : (destDoc cfg cat n).lookup "protocolDestinationObjectAddress" =
      some (.number (.fin n)) := rfl
  rw [objectAddress, getU32_natCast (by omega) hlookup]

-- The ranges of the categories do not overlap.
theorem holds_unique {cat' : Category} {ioa : ℤ} (h : cat.Holds ioa) (h' : cat'.Holds ioa) :
    cat = cat' := by
  cases cat <;> cases cat' <;>
    simp only [Category.Holds, Category.ioaBase, Category.ioaTop] at h h' <;>
    first | rfl | omega

end Entries

section Assign

variable {ι : Type*} [LinearOrder ι] {cfg : AutoTagCfg} {cat : Category} {r : Run ι} {id : ι}
  {ioa : ℤ}

-- What an assignment does: it fails, or pushes the destination to the point.
theorem assign_cases (cfg : AutoTagCfg) (cat : Category) (id : ι) (ioa : ℤ) (r : Run ι) :
    (r.assign cfg cat id ioa = r ∧ ∀ p ∈ r.coll.points, p.id = id → p.canHold = false) ∨
      (∃ p ∈ r.coll.points, p.id = id ∧ p.canHold = true) ∧
        (r.assign cfg cat id ioa).coll.points =
          r.coll.points.map (pushTo id (destDoc cfg cat ioa)) ∧
        (r.assign cfg cat id ioa).log = r.log ++
          [{ id := id, connectionNumber := cfg.protocolConnectionNumber, category := cat
             ioa := ioa, entry := destDoc cfg cat ioa }] := by
  unfold Run.assign
  split_ifs with hany
  · refine .inr ⟨?_, rfl, rfl⟩
    obtain ⟨p, hp, hhold⟩ := List.any_eq_true.mp hany
    rw [Bool.and_eq_true, decide_eq_true_eq] at hhold
    exact ⟨p, hp, hhold⟩
  · refine .inl ⟨rfl, fun p hp hid => ?_⟩
    cases hhold : p.canHold with
    | false => rfl
    | true => exact absurd (List.any_eq_true.mpr ⟨p, hp, by simp [hid, hhold]⟩) hany

-- What every assignment keeps holds after the loop.
theorem distribute_induct (P : ℤ → Run ι → Prop) {ps : List (Point ι)}
    (hstep : ∀ p ∈ ps, ∀ nextIoa r, nextIoa + 1 ≤ cat.ioaTop → P nextIoa r →
      P (nextIoa + 1) (r.assign cfg cat p.id (nextIoa + 1)))
    {nextIoa : ℤ} (h : P nextIoa r) :
    ∃ lastIoa, P lastIoa (distribute cfg cat ps nextIoa r) := by
  induction ps generalizing nextIoa r with
  | nil => exact ⟨nextIoa, h⟩
  | cons p ps ih =>
      have hrest : ∀ p ∈ ps, ∀ nextIoa r, nextIoa + 1 ≤ cat.ioaTop → P nextIoa r →
          P (nextIoa + 1) (r.assign cfg cat p.id (nextIoa + 1)) :=
        fun p' hp' => hstep p' (List.mem_cons_of_mem _ hp')
      rw [distribute]
      split_ifs with htopic htop
      · exact ih hrest h
      · exact ⟨nextIoa, h⟩
      · exact ih hrest (hstep p List.mem_cons_self nextIoa r (not_lt.mp htop) h)

theorem eq_of_id (coll : Collection ι) {p p' : Point ι} (hp : p ∈ coll.points)
    (hp' : p' ∈ coll.points) (hid : p.id = p'.id) : p = p' := by
  have hnodup : (coll.points.map Point.id).Nodup := by
    rw [List.nodup_iff_pairwise_ne, List.pairwise_map]
    exact coll.sorted.imp fun h => ne_of_lt h
  exact List.inj_on_of_nodup_map hnodup hp hp' hid

end Assign

section Given

variable {ι : Type*} [LinearOrder ι]

-- A point with the destinations that the log says it was given.
def given (log : List (Assignment ι)) (p : Point ι) : Point ι :=
  (log.filter fun a => a.id = p.id).foldl (fun p a => p.push a.entry) p

variable (log : List (Assignment ι)) (p : Point ι)

omit [LinearOrder ι] in
theorem foldl_push_spec (as : List (Assignment ι)) (p : Point ι) :
    (as.foldl (fun p a => p.push a.entry) p).id = p.id ∧
      (as.foldl (fun p a => p.push a.entry) p).canHold = p.canHold ∧
      ∀ cat, (as.foldl (fun p a => p.push a.entry) p).isOf cat = p.isOf cat := by
  induction as generalizing p with
  | nil => exact ⟨rfl, rfl, fun _ => rfl⟩
  | cons a as ih =>
      obtain ⟨hid, hhold, hof⟩ := ih (p.push a.entry)
      exact ⟨hid, hhold.trans (push_canHold p a.entry), fun cat => hof cat⟩

theorem given_id : (given log p).id = p.id := (foldl_push_spec _ p).1

theorem given_canHold : (given log p).canHold = p.canHold := (foldl_push_spec _ p).2.1

theorem given_isOf (cat : Category) : (given log p).isOf cat = p.isOf cat :=
  (foldl_push_spec _ p).2.2 cat

theorem given_concat (a : Assignment ι) :
    given (log ++ [a]) p = pushTo a.id a.entry (given log p) := by
  unfold pushTo
  rw [given_id, given, List.filter_append, List.foldl_append]
  by_cases hid : a.id = p.id
  · rw [List.filter_cons_of_pos (by simpa using hid), if_pos hid.symm]
    rfl
  · rw [List.filter_cons_of_neg (by simpa using hid), if_neg (Ne.symm hid)]
    rfl

variable {log p} in
theorem isMapped_given {x : Double} (h : p.isMapped x = true) :
    (given log p).isMapped x = true := by
  unfold given
  generalize log.filter (fun a => a.id = p.id) = as
  induction as generalizing p with
  | nil => exact h
  | cons a as ih => exact ih (isMapped_push h)

end Given

section Unique

variable {ι : Type*} [LinearOrder ι]

-- A destination of a connection for a point that had none, in the range of the point's category.
structure Valid (cfgs : List AutoTagCfg) (coll : Collection ι) (a : Assignment ι) : Prop where
  point : ∃ p ∈ coll.points, p.id = a.id ∧ p.canHold = true ∧ p.isOf a.category = true ∧
    p.isMapped a.connectionNumber = false
  holds : a.category.Holds a.ioa
  entry : ∃ cfg ∈ cfgs, a.connectionNumber = cfg.protocolConnectionNumber ∧
    a.entry = destDoc cfg a.category a.ioa
  address : objectAddress a.entry = a.ioa

-- The collection is the old one with the destinations of the log, whose addresses are neither
-- those of existing entries of their connection nor of each other.
structure Distributed (cfgs : List AutoTagCfg) (coll : Collection ι) (r : Run ι) : Prop where
  points : r.coll.points = coll.points.map (given r.log)
  valid : ∀ a ∈ r.log, Valid cfgs coll a
  fresh : ∀ a ∈ r.log, ∀ p ∈ coll.points, ∀ e ∈ p.entries, owns a.connectionNumber e →
    objectAddress e ≠ a.ioa
  distinct : r.log.Pairwise fun a b =>
    a.connectionNumber = b.connectionNumber → a.ioa ≠ b.ioa

variable {cfgs : List AutoTagCfg} {coll : Collection ι} {r : Run ι} {cfg : AutoTagCfg}
  {cat : Category} {id : ι} {ioa : ℤ}

theorem distributed_start (cfgs : List AutoTagCfg) (coll : Collection ι) :
    Distributed cfgs coll { coll := coll } where
  points := (List.map_id' coll.points).symm
  valid := fun _ ha => absurd ha List.not_mem_nil
  fresh := fun _ ha => absurd ha List.not_mem_nil
  distinct := List.Pairwise.nil

-- What was there is still there, and so is what the log says.
theorem mem_given {log : List (Assignment ι)} {p : Point ι} {e : Document}
    (h : e ∈ p.entries ∨ p.canHold = true ∧ ∃ a ∈ log, a.id = p.id ∧ a.entry = e) :
    e ∈ (given log p).entries := by
  induction log using List.reverseRecOn with
  | nil =>
      rcases h with h | ⟨-, a, ha, -⟩
      · exact h
      · cases ha
  | append_singleton log b ih =>
      rw [given_concat, pushTo]
      split_ifs with hid
      · rw [given_id] at hid
        rw [push_entries, given_canHold]
        rcases h with h | ⟨hhold, a, ha, haid, hae⟩
        · exact List.mem_append_left _ (ih (.inl h))
        · rcases List.mem_append.mp ha with ha | ha
          · exact List.mem_append_left _ (ih (.inr ⟨hhold, a, ha, haid, hae⟩))
          · rw [if_pos hhold, ← hae, List.mem_singleton.mp ha]
            exact List.mem_append_right _ (List.mem_singleton.mpr rfl)
      · rw [given_id] at hid
        rcases h with h | ⟨hhold, a, ha, haid, hae⟩
        · exact ih (.inl h)
        · rcases List.mem_append.mp ha with ha | ha
          · exact ih (.inr ⟨hhold, a, ha, haid, hae⟩)
          · rw [List.mem_singleton.mp ha] at haid
            exact absurd haid.symm hid

theorem Distributed.existing (h : Distributed cfgs coll r) {p : Point ι} (hp : p ∈ coll.points)
    {e : Document} (he : e ∈ p.entries) : ∃ p' ∈ r.coll.points, e ∈ p'.entries := by
  rw [h.points]
  exact ⟨_, List.mem_map_of_mem hp, mem_given (.inl he)⟩

theorem Distributed.logged (h : Distributed cfgs coll r) {a : Assignment ι} (ha : a ∈ r.log) :
    ∃ p' ∈ r.coll.points, a.entry ∈ p'.entries := by
  obtain ⟨p, hp, hid, hhold, -⟩ := (h.valid a ha).point
  rw [h.points]
  exact ⟨_, List.mem_map_of_mem hp, mem_given (.inr ⟨hhold, a, ha, hid.symm, rfl⟩)⟩

-- Candidates are points that had no destination from the beginning.
theorem Distributed.candidate (h : Distributed cfgs coll r) {p : Point ι} {x : Double}
    (hp : p ∈ candidates x cat r.coll.points) :
    ∃ p₀ ∈ coll.points, p₀.id = p.id ∧ p₀.isOf cat = true ∧ p₀.isMapped x = false := by
  obtain ⟨hp, hopen⟩ := List.mem_filter.mp hp
  rw [h.points] at hp
  obtain ⟨p₀, hp₀, rfl⟩ := List.mem_map.mp hp
  rw [Bool.and_eq_true, given_isOf, Bool.not_eq_true'] at hopen
  refine ⟨p₀, hp₀, (given_id _ _).symm, hopen.1, ?_⟩
  cases hmapped : p₀.isMapped x with
  | false => rfl
  | true =>
      have hgiven : (given r.log p₀).isMapped x = true := isMapped_given hmapped
      rw [hopen.2] at hgiven
      cases hgiven

-- One assignment, of an address that no entry of the connection has.
theorem Distributed.assign (h : Distributed cfgs coll r) (hcfg : cfg ∈ cfgs)
    (hholds : cat.Holds ioa)
    (hpoint : ∃ p ∈ coll.points, p.id = id ∧ p.isOf cat = true ∧
      p.isMapped cfg.protocolConnectionNumber = false)
    (hfresh : ∀ p ∈ r.coll.points, ∀ e ∈ p.entries, owns cfg.protocolConnectionNumber e →
      objectAddress e ≠ ioa) :
    Distributed cfgs coll (r.assign cfg cat id ioa) := by
  rcases assign_cases cfg cat id ioa r with ⟨hsame, -⟩ | ⟨⟨p, hp, hid, hhold⟩, hpoints, hlog⟩
  · rw [hsame]
    exact h
  · obtain ⟨p₀, hp₀, hid₀, hof, hopen⟩ := hpoint
    have hhold₀ : p₀.canHold = true := by
      rw [h.points] at hp
      obtain ⟨p₁, hp₁, rfl⟩ := List.mem_map.mp hp
      rw [given_id] at hid
      rw [given_canHold] at hhold
      rw [eq_of_id coll hp₀ hp₁ (hid₀.trans hid.symm)]
      exact hhold
    constructor
    · rw [hpoints, hlog, h.points, List.map_map]
      exact List.map_congr_left fun p _ => by rw [given_concat]; rfl
    · intro a ha
      rw [hlog] at ha
      rcases List.mem_append.mp ha with ha | ha
      · exact h.valid a ha
      · rw [List.mem_singleton.mp ha]
        exact ⟨⟨p₀, hp₀, hid₀, hhold₀, hof, hopen⟩, hholds, ⟨cfg, hcfg, rfl, rfl⟩,
          objectAddress_destDoc cfg hholds⟩
    · intro a ha p hp e he howns
      rw [hlog] at ha
      rcases List.mem_append.mp ha with ha | ha
      · exact h.fresh a ha p hp e he howns
      · rw [List.mem_singleton.mp ha] at howns ⊢
        obtain ⟨p', hp', he'⟩ := h.existing hp he
        exact hfresh p' hp' e he' howns
    · rw [hlog, List.pairwise_append]
      refine ⟨h.distinct, List.pairwise_singleton _ _, fun a ha b hb hnumber hioa => ?_⟩
      rw [List.mem_singleton.mp hb] at hnumber hioa
      obtain ⟨p', hp', he'⟩ := h.logged ha
      obtain ⟨cfg', -, hnumber', hentry⟩ := (h.valid a ha).entry
      refine hfresh p' hp' a.entry he' ?_ ?_
      · rw [hentry, owns_destDoc, ← hnumber', hnumber]
      · rw [(h.valid a ha).address, hioa]

-- The entries of a connection in the range of a category end at an address.
def Below (x : Double) (cat : Category) (last : ℤ) (r : Run ι) : Prop :=
  ∀ p ∈ r.coll.points, ∀ e ∈ p.entries, owns x e → cat.Holds (objectAddress e) →
    objectAddress e ≤ last

-- A new entry counts for its own category.
theorem Below.assign {x : Double} {cat' : Category} {last last' : ℤ} (h : Below x cat' last r)
    (hholds : cat.Holds ioa) (hle : last ≤ last') (hnew : cat = cat' → ioa ≤ last') :
    Below x cat' last' (r.assign cfg cat id ioa) := by
  rcases assign_cases cfg cat id ioa r with ⟨hsame, -⟩ | ⟨-, hpoints, -⟩
  · rw [hsame]
    exact fun p hp e he howns hcat => (h p hp e he howns hcat).trans hle
  · intro p hp e he howns hcat
    rw [hpoints] at hp
    obtain ⟨p₀, hp₀, rfl⟩ := List.mem_map.mp hp
    have hcases : e ∈ p₀.entries ∨ e = destDoc cfg cat ioa := by
      unfold pushTo at he
      split_ifs at he
      · rw [push_entries] at he
        refine (List.mem_append.mp he).imp_right fun hnew => ?_
        split_ifs at hnew
        · exact List.mem_singleton.mp hnew
        · cases hnew
      · exact .inl he
    rcases hcases with he | rfl
    · exact (h p₀ hp₀ e he howns hcat).trans hle
    · rw [objectAddress_destDoc cfg hholds] at hcat ⊢
      exact hnew (holds_unique hholds hcat)

-- The loop hands out addresses above all that are in use.
theorem distribute_unique {ps : List (Point ι)} {nextIoa : ℤ} (h : Distributed cfgs coll r)
    (hcfg : cfg ∈ cfgs) (hbase : cat.ioaBase ≤ nextIoa + 1)
    (hbelow : Below cfg.protocolConnectionNumber cat nextIoa r)
    (hps : ∀ p ∈ ps, ∃ p₀ ∈ coll.points, p₀.id = p.id ∧ p₀.isOf cat = true ∧
      p₀.isMapped cfg.protocolConnectionNumber = false) :
    Distributed cfgs coll (distribute cfg cat ps nextIoa r) ∧
      ∀ x cat' last, cat ≠ cat' → Below x cat' last r →
        Below x cat' last (distribute cfg cat ps nextIoa r) := by
  let P (n : ℤ) (r' : Run ι) : Prop :=
    (cat.ioaBase ≤ n + 1 ∧ Below cfg.protocolConnectionNumber cat n r' ∧ Distributed cfgs coll r') ∧
      ∀ x cat' last, cat ≠ cat' → Below x cat' last r → Below x cat' last r'
  have hstep : ∀ p ∈ ps, ∀ n r', n + 1 ≤ cat.ioaTop → P n r' →
      P (n + 1) (r'.assign cfg cat p.id (n + 1)) := by
    rintro p hp n r' htop ⟨⟨hbase, hbelow, hr'⟩, hothers⟩
    have hholds : cat.Holds (n + 1) := ⟨hbase, htop⟩
    refine ⟨⟨by omega, hbelow.assign hholds (by omega) fun _ => le_rfl, ?_⟩, ?_⟩
    · refine hr'.assign hcfg hholds (hps p hp) fun p' hp' e he howns hioa => ?_
      have hle := hbelow p' hp' e he howns (hioa ▸ hholds)
      omega
    · intro x cat' last hne hr
      exact (hothers x cat' last hne hr).assign hholds le_rfl fun heq => absurd heq hne
  obtain ⟨last, hend, hothers⟩ :=
    distribute_induct P hstep ⟨⟨hbase, hbelow, h⟩, fun _ _ _ _ hr => hr⟩
  exact ⟨hend.2.2, hothers⟩

end Unique

section Used

variable {ι : Type*} {pl : Platform} {x : Double} {cat : Category} {points : List (Point ι)}

theorem foldl_last_spec (cat : Category) (used : List ℤ) (last : ℤ) :
    let f := fun last ioa => if cat.Holds ioa ∧ last < ioa then ioa else last
    last ≤ used.foldl f last ∧ (∀ ioa ∈ used, cat.Holds ioa → ioa ≤ used.foldl f last) ∧
      (used.foldl f last = last ∨ used.foldl f last ∈ used ∧ cat.Holds (used.foldl f last)) := by
  intro f
  induction used generalizing last with
  | nil => exact ⟨le_rfl, fun _ h => absurd h List.not_mem_nil, .inl rfl⟩
  | cons ioa used ih =>
      obtain ⟨hle, hall, hmem⟩ := ih (f last ioa)
      rw [List.foldl_cons]
      have hstep : last ≤ f last ioa ∧ (cat.Holds ioa → ioa ≤ f last ioa) ∧
          (f last ioa = last ∨ f last ioa = ioa ∧ cat.Holds ioa) := by
        by_cases hcond : cat.Holds ioa ∧ last < ioa
        · rw [show f last ioa = ioa from if_pos hcond]
          exact ⟨hcond.2.le, fun _ => le_rfl, .inr ⟨rfl, hcond.1⟩⟩
        · rw [show f last ioa = last from if_neg hcond]
          exact ⟨le_rfl, fun hholds => not_lt.mp fun hlt => hcond ⟨hholds, hlt⟩, .inl rfl⟩
      refine ⟨hstep.1.trans hle,
        List.forall_mem_cons.mpr ⟨fun h => (hstep.2.1 h).trans hle, hall⟩, ?_⟩
      rcases hmem with hmem | ⟨hmem, hholds⟩
      · rcases hstep.2.2 with hsame | ⟨hnew, hholds⟩
        · exact .inl (hmem.trans hsame)
        · rw [hmem, hnew]
          exact .inr ⟨List.mem_cons_self, hholds⟩
      · exact .inr ⟨List.mem_cons_of_mem _ hmem, hholds⟩

theorem base_le_lastIoa : cat.ioaBase ≤ lastIoa pl x cat points + 1 := by
  have h := (foldl_last_spec cat (usedAddresses pl x points) (cat.ioaBase - 1)).1
  rw [lastIoa]
  omega

theorem le_lastIoa {ioa : ℤ} (h : ioa ∈ usedAddresses pl x points) (hholds : cat.Holds ioa) :
    ioa ≤ lastIoa pl x cat points :=
  (foldl_last_spec cat (usedAddresses pl x points) (cat.ioaBase - 1)).2.1 ioa h hholds

-- More addresses in use do not lower the last one.
theorem lastIoa_mono {points' : List (Point ι)}
    (h : usedAddresses pl x points ⊆ usedAddresses pl x points') :
    lastIoa pl x cat points ≤ lastIoa pl x cat points' := by
  rcases (foldl_last_spec cat (usedAddresses pl x points) (cat.ioaBase - 1)).2.2 with hbase | hmem
  · have hle : cat.ioaBase ≤ lastIoa pl x cat points' + 1 := base_le_lastIoa
    rw [lastIoa, hbase]
    omega
  · exact le_lastIoa (h hmem.1) hmem.2

-- The entries of a connection are in use.
theorem mem_usedAddresses {p : Point ι} {e : Document} (hp : p ∈ points) (he : e ∈ p.entries)
    (howns : owns x e) : objectAddress e ∈ usedAddresses pl x points := by
  refine List.mem_flatMap.mpr ⟨p, List.mem_filter.mpr ⟨hp, isMapped_of_owns he howns⟩, ?_⟩
  refine List.mem_map.mpr ⟨e, List.mem_filter.mpr ⟨he, ?_⟩, rfl⟩
  rw [isCounted, getDouble_number howns]
  exact decide_eq_true rfl

end Used

section Connections

variable {ι : Type*} [LinearOrder ι] {pl : Platform} {cfgs : List AutoTagCfg} {coll : Collection ι}
  {r : Run ι} {cfg : AutoTagCfg}

theorem below_start (cfg : AutoTagCfg) (pl : Platform) (r : Run ι) (cat : Category) :
    Below cfg.protocolConnectionNumber cat (startIoa cfg pl r cat) r :=
  fun _ hp _ he howns hcat => le_lastIoa (mem_usedAddresses hp he howns) hcat

theorem categories_nodup (cfg : AutoTagCfg) : (categories cfg).Nodup :=
  List.Nodup.filter _ (by decide)

theorem foldl_distribute_unique {start : Category → ℤ} {cats : List Category} (hnodup : cats.Nodup)
    (hcfg : cfg ∈ cfgs) (hbase : ∀ cat, cat.ioaBase ≤ start cat + 1) (h : Distributed cfgs coll r)
    (hbelow : ∀ cat ∈ cats, Below cfg.protocolConnectionNumber cat (start cat) r) :
    Distributed cfgs coll (cats.foldl (distributeCategory cfg start) r) := by
  induction cats generalizing r with
  | nil => exact h
  | cons cat cats ih =>
      obtain ⟨hnot, hnodup⟩ := List.nodup_cons.mp hnodup
      obtain ⟨hnext, hothers⟩ := distribute_unique h hcfg (hbase cat)
        (hbelow cat List.mem_cons_self) fun p hp => h.candidate hp
      refine ih hnodup hnext fun cat' hcat' => hothers _ _ _ ?_ (hbelow cat' ?_)
      · rintro rfl
        exact hnot hcat'
      · exact List.mem_cons_of_mem _ hcat'

theorem distributeConn_unique (h : Distributed cfgs coll r) (hcfg : cfg ∈ cfgs) :
    Distributed cfgs coll (distributeConn cfg pl r) := by
  unfold distributeConn
  split_ifs
  · exact foldl_distribute_unique (categories_nodup cfg) hcfg (fun _ => base_le_lastIoa) h
      fun cat _ => below_start cfg pl r cat
  · exact h

theorem foldl_distributeConn_unique {cfgs' : List AutoTagCfg} (hsub : cfgs' ⊆ cfgs)
    (h : Distributed cfgs coll r) :
    Distributed cfgs coll (cfgs'.foldl (fun r cfg => distributeConn cfg pl r) r) := by
  induction cfgs' generalizing r with
  | nil => exact h
  | cons cfg cfgs' ih =>
      obtain ⟨hcfg, hsub⟩ := List.cons_subset.mp hsub
      exact ih hsub (distributeConn_unique h hcfg)

end Connections

end JsonScada.Iec60870.Server.AutoTag
