import JsonScada.Dnp3.Control
import JsonScada.Dnp3.Outstation

namespace JsonScada.Dnp3.Outstation

open JsonScada.Library
open JsonScada.JsMongo
open JsonScada.Iec60870 (Platform fieldMatches equals)
open JsonScada.Processor (Document Value rawOrNil)

inductive CommandStatus where
  | success | formatError | notSupported | downstreamFail | blocked
deriving DecidableEq

section Lookup

-- The database, which may not answer.
structure Mongo where
  realtimeData : List Document
  findOk : Bool := true
  insertOk : Bool := true

-- What a handler of the connection works with. The database is missing while the driver is between
-- connections.
structure Handler where
  pl : Platform
  now : ℤ
  protocolConnectionNumber : ℤ
  commandDB : Option Mongo

variable (h : Handler)

-- One entry of the destinations has all three numbers.
def isDistributedAt (group : ℤ) (index : UInt16) (doc : Document) : Bool :=
  match doc.lookup "protocolDestinations" with
  | some (.array entries) =>
      (entries.filterMap asDocument).any fun d =>
        fieldMatches (equals (.fin h.protocolConnectionNumber))
            (d.lookup "protocolDestinationConnectionNumber") &&
          fieldMatches (equals (.fin group)) (d.lookup "protocolDestinationCommonAddress") &&
          fieldMatches (equals (.fin index.toNat)) (d.lookup "protocolDestinationObjectAddress")
  | _ => false

def hasText (doc : Document) (key text : String) : Bool :=
  fieldMatches (fun v => sameValue v (.string text)) (doc.lookup key)

def tagType (digital : Bool) : String := if digital then "digital" else "analog"

def commandGroup (digital : Bool) : ℤ :=
  if digital then groupCROBCommand else groupAnalogOutputBlock

def isCommandAt (digital : Bool) (index : UInt16) (doc : Document) : Bool :=
  hasText doc "origin" "command" && hasText doc "type" (tagType digital) &&
    isDistributedAt h (commandGroup digital) index doc

def lookup (digital : Bool) (index : UInt16) : Document × CommandStatus :=
  match h.commandDB with
  | none => ([], .downstreamFail)
  | some db =>
      match if db.findOk then db.realtimeData.find? (isCommandAt h digital index) else none with
      | none => ([], .notSupported)
      | some doc => if getBool doc "enabled" true then (doc, .success) else ([], .blocked)

-- The entry that the command arrived on.
def isDestinationAt (group : ℤ) (index : UInt16) (d : Destination) : Bool :=
  d.connectionNumber = h.protocolConnectionNumber && d.commonAddress = group &&
    d.objectAddress = index.toNat

def destinationOf (tag : Document) (group : ℤ) (index : UInt16) : Option Destination :=
  (destinationsOf h.pl tag).find? (isDestinationAt h group index)

end Lookup

section Operation

variable (h : Handler)

-- The command that is queued for the connection that owns the tag.
def queueDoc (tag : Document) (value : Double) (valueString : String) : Document :=
  let number (key : String) : String × Value := (key, .number (getDouble tag key (.fin 0)))
  [number "protocolSourceConnectionNumber", number "protocolSourceCommonAddress",
    number "protocolSourceObjectAddress", number "protocolSourceASDU",
    number "protocolSourceCommandDuration",
    ("protocolSourceCommandUseSBO", .bool (getBool tag "protocolSourceCommandUseSBO" false)),
    ("pointKey", .number (getDouble tag "_id" (.fin 0))),
    ("tag", .string (getString tag "tag" "")), ("value", .number value),
    ("valueString", .string valueString), ("originatorUserName", .string "DNP3 Server Driver"),
    ("originatorIpAddress", .string ""), ("timeTag", .dateTime h.now)]

-- The answer to a request, with the commands that it puts into the queue.
structure Answer where
  status : CommandStatus
  queued : List Document := []

def queue (tag : Document) (value : Double) (valueString : String) : Answer :=
  if h.commandDB.any (·.insertOk) then
    { status := .success, queued := [queueDoc h tag value valueString] }
  else { status := .downstreamFail }

-- Close is 1 and trip is 0; without a coil the type of the operation decides.
def crobValue (code : ControlCode) : ℚ :=
  if code.isClose then 1
  else if code.isTrip then 0
  else if code.opType = .latchOn ∨ code.opType = .pulseOn then 1
  else 0

def bothCoils : ControlCode := ControlCode.trip ||| ControlCode.close

def selectCROB (index : UInt16) (_ : ControlRelayOutputBlock) : Answer :=
  { status := (lookup h true index).2 }

def operateCROB (index : UInt16) (c : ControlRelayOutputBlock) : Answer :=
  let (tag, status) := lookup h true index
  if status ≠ .success then { status := status }
  else if c.code.opType = .nul then { status := .formatError }
  else if c.code &&& bothCoils = bothCoils then { status := .formatError }
  else
    match destinationOf h tag groupCROBCommand index with
    | none => { status := .notSupported }
    | some dest =>
        let value := crobValue c.code
        let value := if Double.eq dest.kConv1 (.fin (-1)) then 1 - value else value
        queue h tag (.fin value) ""

def selectAnalog (index : UInt16) (_ : Double) : Answer :=
  { status := (lookup h false index).2 }

def operateAnalog (index : UInt16) (v : Double) : Answer :=
  let (tag, status) := lookup h false index
  if status ≠ .success then { status := status }
  else
    match destinationOf h tag groupAnalogOutputBlock index with
    | none => { status := .notSupported }
    | some dest =>
        let value := scaled h.pl dest v
        queue h tag value (Strconv.formatFloat 'e' value)

end Operation

open JsonScada.Iec60870 (Platform)
open JsonScada.Processor (Document Value)

section Purpose

-- What a master selects and operates.
inductive Object where
  | crob (block : ControlRelayOutputBlock)
  | analogOutput (value : Double)

def select (h : Handler) (index : UInt16) : Object → Answer
  | .crob block => selectCROB h index block
  | .analogOutput value => selectAnalog h index value

def operate (h : Handler) (index : UInt16) : Object → Answer
  | .crob block => operateCROB h index block
  | .analogOutput value => operateAnalog h index value

-- A select is answered as the operation would be, and puts nothing into the queue.
structure SelectAgrees (h : Handler) (index : UInt16) (obj : Object) : Prop where
  agrees : (select h index obj).status = .success ↔
    (operate h index obj).status = .success ∧ (operate h index obj).queued ≠ []
  queuesNothing : (select h index obj).queued = []

-- A handler whose database answers.
def reachable (pl : Platform) (now connNumber : ℤ) (coll : List Document) : Handler where
  pl := pl
  now := now
  protocolConnectionNumber := connNumber
  commandDB := some { realtimeData := coll }

end Purpose

section Condition

variable (h : Handler) (index : UInt16)

def Object.digital : Object → Bool
  | crob _ => true
  | analogOutput _ => false

-- The code has an operation, and not both coils.
def Object.hasOperation : Object → Bool
  | crob block => block.code.opType ≠ .nul && block.code &&& bothCoils ≠ bothCoils
  | analogOutput _ => true

-- What the operation asks for beyond an enabled tag: an operation, and a destination of the tag
-- that reads as the place the command arrived on.
def Operable (obj : Object) (tag : Document) : Prop :=
  obj.hasOperation = true ∧
    ∃ d ∈ destinationsOf h.pl tag, isDestinationAt h (commandGroup obj.digital) index d = true

end Condition

section Claim

variable {h : Handler} {index : UInt16} {obj : Object}

theorem status_select : (select h index obj).status = (lookup h obj.digital index).2 := by
  cases obj <;> rfl

theorem isSome_destinationOf {tag : Document} {group : ℤ} :
    (destinationOf h tag group index).isSome = true ↔
      ∃ d ∈ destinationsOf h.pl tag, isDestinationAt h group index d = true := by
  rw [destinationOf, List.find?_isSome]

theorem lookup_eq_success {pl : Platform} {now connNumber : ℤ} {coll : List Document}
    {digital : Bool} :
    (lookup (reachable pl now connNumber coll) digital index).2 = .success ↔
      ∃ tag, coll.find? (isCommandAt (reachable pl now connNumber coll) digital index) = some tag ∧
        getBool tag "enabled" true = true := by
  rw [lookup, reachable]
  dsimp only
  rw [if_pos rfl]
  cases hfind : coll.find? (isCommandAt _ digital index) with
  | none => simp
  | some tag => by_cases henabled : getBool tag "enabled" true = true <;> simp [henabled]

theorem fst_lookup {pl : Platform} {now connNumber : ℤ} {coll : List Document} {digital : Bool}
    {tag : Document}
    (hfind : coll.find? (isCommandAt (reachable pl now connNumber coll) digital index) = some tag)
    (henabled : getBool tag "enabled" true = true) :
    (lookup (reachable pl now connNumber coll) digital index).1 = tag := by
  rw [reachable] at hfind
  rw [lookup, reachable]
  dsimp only
  rw [if_pos rfl, hfind]
  dsimp only
  rw [if_pos henabled]

theorem operate_of_lookup_ne (hl : (lookup h obj.digital index).2 ≠ .success) :
    (operate h index obj).status ≠ .success := by
  cases obj with
  | crob block =>
      have hfail : (lookup h true index).2 ≠ .success := hl
      rw [operate, operateCROB]
      dsimp only
      rw [if_pos hfail]
      exact hfail
  | analogOutput value =>
      have hfail : (lookup h false index).2 ≠ .success := hl
      rw [operate, operateAnalog]
      dsimp only
      rw [if_pos hfail]
      exact hfail

-- With the tag found, the operation goes through when it is one and the tag has its destination.
theorem operate_of_lookup (hdb : h.commandDB.any (·.insertOk) = true)
    (hl : (lookup h obj.digital index).2 = .success) :
    ((operate h index obj).status = .success ∧ (operate h index obj).queued ≠ []) ↔
      Operable h index obj (lookup h obj.digital index).1 := by
  have hqueue (tag : Document) (value : Double) (text : String) :
      (queue h tag value text).status = .success ∧ (queue h tag value text).queued ≠ [] := by
    rw [queue, if_pos hdb]
    exact ⟨rfl, List.cons_ne_nil _ _⟩
  rw [Operable, ← isSome_destinationOf]
  cases obj with
  | crob block =>
      have hfound : (lookup h true index).2 = .success := hl
      rw [operate, operateCROB]
      dsimp only
      rw [if_neg (not_not.mpr hfound)]
      by_cases hnul : block.code.opType = .nul
      · simp [hnul, Object.hasOperation]
      · by_cases hboth : block.code &&& bothCoils = bothCoils
        · simp [hnul, hboth, Object.hasOperation]
        · have hop : (Object.crob block).hasOperation = true := by
            simp [Object.hasOperation, hnul, hboth]
          rw [if_neg hnul, if_neg hboth, Object.digital, commandGroup, if_pos rfl]
          cases hd : destinationOf h (lookup h true index).1 groupCROBCommand index with
          | none => simp
          | some dest => exact iff_of_true (hqueue _ _ _) ⟨hop, rfl⟩
  | analogOutput value =>
      have hfound : (lookup h false index).2 = .success := hl
      rw [operate, operateAnalog]
      dsimp only
      rw [if_neg (not_not.mpr hfound), Object.digital, commandGroup, if_neg Bool.false_ne_true]
      cases hd : destinationOf h (lookup h false index).1 groupAnalogOutputBlock index with
      | none => simp
      | some dest => exact iff_of_true (hqueue _ _ _) ⟨rfl, rfl⟩

-- A select answers as the operation exactly when an enabled tag of the point is operable.
theorem selectAgrees_iff (pl : Platform) (now connNumber : ℤ) (coll : List Document)
    (index : UInt16) (obj : Object) :
    SelectAgrees (reachable pl now connNumber coll) index obj ↔
      ∀ tag,
        coll.find? (isCommandAt (reachable pl now connNumber coll) obj.digital index) = some tag →
        getBool tag "enabled" true = true →
        Operable (reachable pl now connNumber coll) index obj tag := by
  have hnothing : (select (reachable pl now connNumber coll) index obj).queued = [] := by
    cases obj <;> rfl
  have hiff : SelectAgrees (reachable pl now connNumber coll) index obj ↔
      ((select (reachable pl now connNumber coll) index obj).status = .success ↔
        (operate (reachable pl now connNumber coll) index obj).status = .success ∧
          (operate (reachable pl now connNumber coll) index obj).queued ≠ []) :=
    ⟨fun h => h.agrees, fun h => ⟨h, hnothing⟩⟩
  rw [hiff, status_select]
  by_cases hl : (lookup (reachable pl now connNumber coll) obj.digital index).2 = .success
  · obtain ⟨tag, hfind, henabled⟩ := lookup_eq_success.mp hl
    rw [operate_of_lookup rfl hl, fst_lookup hfind henabled, iff_true_left hl]
    refine ⟨fun hop tag' hfind' _ => ?_, fun hop => hop tag hfind henabled⟩
    cases hfind.symm.trans hfind'
    exact hop
  · have hoperate := operate_of_lookup_ne hl
    refine iff_of_true (iff_of_false hl fun hop => hoperate hop.1) fun tag hfind henabled => ?_
    exact absurd (lookup_eq_success.mpr ⟨tag, hfind, henabled⟩) hl

-- A command tag at the CROB 5 of connection 1.
def breakerCommand : Document :=
  [("_id", .number (.fin 1)), ("origin", .string "command"), ("type", .string "digital"),
    ("protocolDestinations", .array [.document
      [("protocolDestinationConnectionNumber", .number (.fin 1)),
        ("protocolDestinationCommonAddress", .number (.fin 12)),
        ("protocolDestinationObjectAddress", .number (.fin 5))]])]

-- A block with both coils is selected, and refused when it is operated.
theorem both_coils_selected :
    (selectCROB (reachable Iec60870.plainPlatform 0 1 [breakerCommand]) 5 { code := 0xc1 }).status =
        .success ∧
      (operateCROB (reachable Iec60870.plainPlatform 0 1 [breakerCommand]) 5
        { code := 0xc1 }).status = .formatError ∧
      ¬SelectAgrees (reachable Iec60870.plainPlatform 0 1 [breakerCommand]) 5
        (.crob { code := 0xc1 }) := by
  have hselect : (selectCROB (reachable Iec60870.plainPlatform 0 1 [breakerCommand]) 5
      { code := 0xc1 }).status = .success := by decide
  have hoperate : (operateCROB (reachable Iec60870.plainPlatform 0 1 [breakerCommand]) 5
      { code := 0xc1 }).status = .formatError := by decide
  refine ⟨hselect, hoperate, fun h => ?_⟩
  have hsuccess := (h.agrees.mp hselect).1
  cases hoperate.symm.trans hsuccess

end Claim

end JsonScada.Dnp3.Outstation
