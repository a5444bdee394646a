import JsonScada.Dnp3.AutoCreate
import Mathlib.Data.List.Forall2
import Mathlib.Data.List.Perm.Basic

namespace JsonScada.Dnp3.Server

open JsonScada.Library
open JsonScada.Processor (contains)

-- A point type of the outstation database.
inductive Family where
  | binary | doubleBit | counter | frozenCounter | binaryOutputStatus | analog
  | analogOutputStatus | octetString | timeAndInterval
deriving DecidableEq

-- A static and an event group each, and an analog for any other number.
def familyOf (commonAddress : ℤ) : Family :=
  if commonAddress = 1 ∨ commonAddress = 2 then .binary
  else if commonAddress = 3 ∨ commonAddress = 4 then .doubleBit
  else if commonAddress = 20 ∨ commonAddress = 22 then .counter
  else if commonAddress = 21 ∨ commonAddress = 23 then .frozenCounter
  else if commonAddress = 10 ∨ commonAddress = 11 then .binaryOutputStatus
  else if commonAddress = 40 ∨ commonAddress = 42 then .analogOutputStatus
  else if commonAddress = 110 ∨ commonAddress = 111 then .octetString
  else if commonAddress = 50 ∨ commonAddress = 52 then .timeAndInterval
  else .analog

structure Destination where
  connectionNumber : ℤ
  commonAddress : ℤ
  objectAddress : ℤ
  asdu : ℤ
  commandDuration : ℚ
  commandUseSBO : Bool := false
  kConv1 : ℚ := 1
  kConv2 : ℚ := 0
  group : ℤ := 0
  hoursShift : ℚ := 0
deriving DecidableEq

-- What the distribution reads of a tag.
structure Tag where
  id : ℚ
  type : String
  origin : String
  group1 : String
  supervisedOfCommand : ℚ
  destinations : List Destination
deriving DecidableEq

structure Connection where
  protocolConnectionNumber : ℤ
  commandsEnabled : Bool
  autoCreateTags : Bool
  topics : List String

namespace Connection

variable (conn : Connection)

-- No topics let everything through; otherwise one of them is a part of the group.
def matchesTopic (group1 : String) : Bool :=
  conn.topics.isEmpty || conn.topics.any fun t => t ≠ "" && contains group1 t

def owns (d : Destination) : Bool := d.connectionNumber = conn.protocolConnectionNumber

end Connection

section AutoCreate

def maxObjectAddress : ℤ := 65535

-- One group's worth of automatic distribution, with the group and the ASDU of the output
-- status that mirrors a command.
structure AutoCreatePass where
  tagType : String
  origin : String
  group : ℤ
  asdu : ℤ
  commandDuration : ℚ := 0
  status : Option (ℤ × ℤ) := none

def autoCreatePasses (conn : Connection) : List AutoCreatePass :=
  (if conn.commandsEnabled then
    [{ tagType := "digital", origin := "command", group := groupCROBCommand, asdu := 1
       commandDuration := 11, status := some (groupBinaryOutputStatus, 2) },
      { tagType := "analog", origin := "command", group := groupAnalogOutputBlock, asdu := 3
        status := some (groupAnalogOutputStatus, 3) }]
  else []) ++
  [{ tagType := "digital", origin := "supervised", group := groupBinaryInput, asdu := 2 },
    { tagType := "analog", origin := "supervised", group := groupAnalogInput, asdu := 6 }]

variable (conn : Connection)

def findTag (tags : List Tag) (id : ℚ) : Option Tag := tags.find? fun t => t.id = id

def pushDestination (id : ℚ) (d : Destination) (tags : List Tag) : List Tag :=
  Table.updateFirst (fun t => decide (t.id = id))
    (fun t => { t with destinations := t.destinations ++ [d] }) tags

-- The entry of the connection is at a group.
def atGroup (group : ℤ) (d : Destination) : Bool := conn.owns d && d.commonAddress = group

-- The status that a command gets on its supervised twin: none without a twin, when the
-- twin has one, or when another tag is in its place.
def outputStatus (status : ℤ × ℤ) (cmd : Tag) (address : ℤ) (tags : List Tag) :
    Option Destination :=
  if cmd.supervisedOfCommand = 0 then none
  else
    match findTag tags cmd.supervisedOfCommand with
    | none => none
    | some twin =>
        if twin.destinations.any (atGroup conn status.1) then none
        else if tags.any fun t => t.destinations.any fun d =>
            atGroup conn status.1 d && d.objectAddress = address then none
        else
          some
            { connectionNumber := conn.protocolConnectionNumber, commonAddress := status.1
              objectAddress := address, asdu := status.2, commandDuration := 0 }

def createOutputStatus (p : AutoCreatePass) (cmd : Tag) (address : ℤ) (tags : List Tag) :
    List Tag :=
  match p.status.bind fun status => outputStatus conn status cmd address tags with
  | none => tags
  | some d => pushDestination cmd.supervisedOfCommand d tags

-- The highest address at the group of the pass, and -1 before the first.
def lastAddress (p : AutoCreatePass) (tags : List Tag) : ℤ :=
  let assigned := tags.filter fun t => t.type = p.tagType && t.origin = p.origin &&
    t.destinations.any (atGroup conn p.group)
  ((assigned.flatMap Tag.destinations).filter (atGroup conn p.group)).foldl
    (fun last d => max last d.objectAddress) (-1)

-- The tags of the kind that have no destination on the connection yet.
def candidates (p : AutoCreatePass) (tags : List Tag) : List Tag :=
  (tags.filter fun t => t.type = p.tagType && t.origin = p.origin &&
    !t.destinations.any conn.owns).mergeSort fun t u => t.id ≤ u.id

def newDestination (p : AutoCreatePass) (address : ℤ) : Destination where
  connectionNumber := conn.protocolConnectionNumber
  commonAddress := p.group
  objectAddress := address
  asdu := p.asdu
  commandDuration := p.commandDuration

-- The loop over the candidates.
def distribute (p : AutoCreatePass) : List Tag → ℤ → List Tag → List Tag
  | [], _, tags => tags
  | doc :: docs, lastAddr, tags =>
      if !conn.matchesTopic doc.group1 then distribute p docs lastAddr tags
      else if maxObjectAddress < lastAddr + 1 then tags
      else
        distribute p docs (lastAddr + 1)
          (createOutputStatus conn p doc (lastAddr + 1)
            (pushDestination doc.id (newDestination conn p (lastAddr + 1)) tags))

def autoCreatePass (tags : List Tag) (p : AutoCreatePass) : List Tag :=
  distribute conn p (candidates conn p tags) (lastAddress conn p tags) tags

def autoCreateAll (tags : List Tag) : List Tag :=
  if conn.autoCreateTags then (autoCreatePasses conn).foldl (autoCreatePass conn) tags else tags

end AutoCreate

section Points

-- What a master addresses: a point of the outstation database, or a control.
inductive Point where
  | data (family : Family) (address : ℤ)
  | control (group : ℤ) (address : ℤ)
deriving DecidableEq

-- The outstation is built from the supervised tags, and a control is looked up among the
-- commands of the type that goes with its group.
def pointOf (t : Tag) (d : Destination) : Option Point :=
  if t.origin = "supervised" then some (.data (familyOf d.commonAddress) d.objectAddress)
  else if t.origin = "command" ∧ (t.type = "digital" ∧ d.commonAddress = groupCROBCommand ∨
      t.type = "analog" ∧ d.commonAddress = groupAnalogOutputBlock) then
    some (.control d.commonAddress d.objectAddress)
  else none

variable (conn : Connection)

def pointsOf (t : Tag) : List Point := (t.destinations.filter conn.owns).filterMap (pointOf t)

-- The points of the connection.
def points (tags : List Tag) : List Point := tags.flatMap (pointsOf conn)

variable {conn} {tags : List Tag} {t : Tag} {d : Destination} {p : Point}

theorem mem_points :
    p ∈ points conn tags ↔
      ∃ t ∈ tags, ∃ d ∈ t.destinations, conn.owns d = true ∧ pointOf t d = some p := by
  simp [points, pointsOf, and_assoc]

theorem pointsOf_push (t : Tag) (hd : conn.owns d = true) :
    pointsOf conn { t with destinations := t.destinations ++ [d] } =
      pointsOf conn t ++ (pointOf t d).toList := by
  have hsame : pointOf { t with destinations := t.destinations ++ [d] } = pointOf t := rfl
  unfold pointsOf
  rw [hsame, List.filter_append, List.filterMap_append]
  congr 1
  cases hp : pointOf t d <;> simp [hd, hp]

end Points

section Push

variable {conn : Connection} {tags tags' : List Tag} {t : Tag} {d : Destination} {id : ℚ}

-- A tag without its destinations.
def Tag.bare (t : Tag) : Tag := { t with destinations := [] }

theorem pointOf_bare (t : Tag) (d : Destination) : pointOf t.bare d = pointOf t d := rfl

-- The same tags, with all the destinations that they had.
def Extends (tags tags' : List Tag) : Prop :=
  List.Forall₂ (fun t t' => t.bare = t'.bare ∧ t.destinations ⊆ t'.destinations) tags tags'

theorem Extends.refl (tags : List Tag) : Extends tags tags :=
  List.forall₂_same.mpr fun _ _ => ⟨rfl, List.Subset.refl _⟩

theorem Extends.trans {tags'' : List Tag} (h : Extends tags tags') (h' : Extends tags' tags'') :
    Extends tags tags'' := by
  unfold Extends at *
  induction h generalizing tags'' with
  | nil => exact h'
  | cons hhead _ ih =>
      obtain ⟨t'', rest, hhead', hrest, rfl⟩ := List.forall₂_cons_left_iff.mp h'
      exact .cons ⟨hhead.1.trans hhead'.1, List.Subset.trans hhead.2 hhead'.2⟩ (ih hrest)

theorem Extends.mem (h : Extends tags tags') (ht : t ∈ tags) :
    ∃ t' ∈ tags', t.bare = t'.bare ∧ t.destinations ⊆ t'.destinations := by
  unfold Extends at h
  induction h with
  | nil => cases ht
  | cons hhead _ ih =>
      rcases List.mem_cons.mp ht with rfl | ht
      · exact ⟨_, List.mem_cons_self, hhead⟩
      · obtain ⟨t', ht', hsame⟩ := ih ht
        exact ⟨t', List.mem_cons_of_mem _ ht', hsame⟩

theorem Extends.mem' (h : Extends tags tags') {t' : Tag} (ht : t' ∈ tags') :
    ∃ t ∈ tags, t.bare = t'.bare ∧ t.destinations ⊆ t'.destinations := by
  unfold Extends at h
  induction h with
  | nil => cases ht
  | cons hhead _ ih =>
      rcases List.mem_cons.mp ht with rfl | ht
      · exact ⟨_, List.mem_cons_self, hhead⟩
      · obtain ⟨t, ht, hsame⟩ := ih ht
        exact ⟨t, List.mem_cons_of_mem _ ht, hsame⟩

theorem Extends.ids (h : Extends tags tags') : tags.map Tag.id = tags'.map Tag.id := by
  unfold Extends at h
  induction h with
  | nil => rfl
  | cons hhead _ ih =>
      rw [List.map_cons, List.map_cons, ih]
      have hid := congrArg Tag.id hhead.1
      exact congrArg (· :: _) hid

theorem find?_split {tags : List Tag} {p : Tag → Bool} (h : tags.find? p = some t) (f : Tag → Tag) :
    ∃ pre post, tags = pre ++ t :: post ∧ Table.updateFirst p f tags = pre ++ f t :: post := by
  induction tags with
  | nil => cases h
  | cons u tags ih =>
      by_cases hu : p u = true
      · rw [List.find?_cons_of_pos hu] at h
        obtain rfl := Option.some.inj h
        exact ⟨[], tags, rfl, by simp [Table.updateFirst, hu]⟩
      · rw [List.find?_cons_of_neg hu] at h
        obtain ⟨pre, post, rfl, hupdate⟩ := ih h
        exact ⟨u :: pre, post, rfl, by simp [Table.updateFirst, hu, hupdate]⟩

theorem pushDestination_split (h : findTag tags id = some t) :
    ∃ pre post, tags = pre ++ t :: post ∧
      pushDestination id d tags =
        pre ++ { t with destinations := t.destinations ++ [d] } :: post :=
  find?_split h _

theorem extends_push (h : findTag tags id = some t) (d : Destination) :
    Extends tags (pushDestination id d tags) := by
  obtain ⟨pre, post, rfl, hpush⟩ := pushDestination_split (d := d) h
  rw [hpush]
  apply List.rel_append (Extends.refl pre)
  exact .cons ⟨rfl, by simp⟩ (Extends.refl post)

theorem mem_push {u : Tag} (h : findTag tags id = some t) (hu : u ∈ pushDestination id d tags) :
    u ∈ tags ∨ u = { t with destinations := t.destinations ++ [d] } := by
  obtain ⟨pre, post, rfl, hpush⟩ := pushDestination_split (d := d) h
  rw [hpush] at hu
  rcases List.mem_append.mp hu with hu | hu
  · exact .inl (List.mem_append_left _ hu)
  · rcases List.mem_cons.mp hu with rfl | hu
    · exact .inr rfl
    · exact .inl (List.mem_append_right _ (List.mem_cons_of_mem _ hu))

theorem push_mem (h : findTag tags id = some t) :
    { t with destinations := t.destinations ++ [d] } ∈ pushDestination id d tags := by
  obtain ⟨pre, post, rfl, hpush⟩ := pushDestination_split (d := d) h
  rw [hpush]
  simp

theorem points_push (h : findTag tags id = some t) (hd : conn.owns d = true) :
    (points conn (pushDestination id d tags)).Perm
      ((pointOf t d).toList ++ points conn tags) := by
  obtain ⟨pre, post, rfl, hpush⟩ := pushDestination_split (d := d) h
  rw [hpush, points, points, List.flatMap_append, List.flatMap_append, List.flatMap_cons,
    List.flatMap_cons, pointsOf_push t hd]
  calc
    _ = (pre.flatMap (pointsOf conn) ++ pointsOf conn t) ++
          ((pointOf t d).toList ++ post.flatMap (pointsOf conn)) := by simp
    _ |>.Perm ((pointOf t d).toList ++
          ((pre.flatMap (pointsOf conn) ++ pointsOf conn t) ++ post.flatMap (pointsOf conn))) :=
        List.perm_append_comm_assoc _ _ _
    _ = _ := by simp

-- The points are different after a push when they were before, and the new one is free.
theorem nodup_push (h : findTag tags id = some t) (hd : conn.owns d = true) :
    (points conn (pushDestination id d tags)).Nodup ↔
      (∀ p, pointOf t d = some p → p ∉ points conn tags) ∧ (points conn tags).Nodup := by
  rw [(points_push h hd).nodup_iff]
  cases pointOf t d with
  | none => simp
  | some p => simp

theorem mem_points_push {p : Point} (h : findTag tags id = some t) (hd : conn.owns d = true) :
    p ∈ points conn (pushDestination id d tags) ↔ pointOf t d = some p ∨ p ∈ points conn tags := by
  rw [(points_push h hd).mem_iff, List.mem_append, Option.mem_toList]

end Push

end JsonScada.Dnp3.Server
