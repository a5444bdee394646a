import JsonScada.Modbus.PointMap
import JsonScada.Modbus.PointMap.Frame
import JsonScada.Processor.Bson

-- The writes of masters, which become commands.
namespace JsonScada.Modbus

open JsonScada.Library
open JsonScada.Processor (Document)

deriving instance DecidableEq for Asdu
deriving instance DecidableEq for Point

-- The settings of the connection that writes depend on.
structure WriteConfig where
  name : String
  commandsEnabled : Bool
  allowWritesToSupervised : Bool

inductive Exception where
  | illegalFunction | illegalDataAddress | illegalDataValue
  deriving DecidableEq

-- A command that is relayed for a point.
structure Command where
  point : Point
  value : Double
  valueString : String
  deriving DecidableEq

-- What a write leaves: the map, the relayed commands, and the answer, which is a success where
-- it is no exception.
structure Answer where
  map : PointMap
  commands : List Command := []
  exception : Option Exception := none

namespace PointMap

def lookupWrite (m : PointMap) (unit : Nat) (a : Area) (off : Nat) : Option Point :=
  m.writeIndex unit a off

-- `encodeInto` for a written raw value: nothing is scaled.
def storeRaw (b : Banks) (p : Point) (raw : Value) : Banks :=
  let on := nonZero raw.float.toDouble
  if isBitArea p.area then
    let on := if Double.eq p.kconv1 (.fin (-1)) then !on else on
    b.setBits p.area (Function.update (b.bits p.area) p.offset (some on))
  else
    match p.address.bit with
    | some bit => b.setRegs p.area (setBit (b.regs p.area) p.offset bit on)
    | none =>
        if p.asdu.type = .string then putWire b p (.str raw.string)
        else
          match raw with
          | .str _ | .bool _ => putWire b p (.num raw.float)
          | _ => putWire b p raw

def storeWritten (m : PointMap) (p : Point) (raw : Value) : PointMap :=
  match m.units p.unit with
  | none => m
  | some b => { m with units := Function.update m.units p.unit (some (storeRaw b p raw)) }

end PointMap

section Values

-- The raw value that written registers mean. Why there is none is only logged.
def decodeWrittenValue (p : Point) (regs : List (BitVec 16)) : Option Value :=
  match p.address.bit with
  | some bit => regs.head?.map fun r => .num (.ofInt (if r.getLsbD bit then 1 else 0))
  | none => (decode p.asdu.type (wireOf regs) 0 p.asdu.perm p.asdu.str).toOption.map (·.value)

def boolValue (on : Bool) : Value := .num (.ofInt (if on then 1 else 0))

variable (rt : Runtime)

-- The value of the command, with the scaling of the destination and of the tag. A digital one is
-- inverted when exactly one of them inverts.
def routeCommandValue (p : Point) (raw : Value) : Double × String :=
  let x := raw.float.toDouble
  match p.tagType with
  | .digital =>
      let inverted := Double.eq p.kconv1 (.fin (-1)) != Double.eq p.tagKconv1 (.fin (-1))
      let bit : Double := if nonZero x != inverted then .fin 1 else .fin 0
      (bit, jsNumberString bit)
  | .string => (.fin 0, raw.string)
  | .analog =>
      let dest := Double.add rt.round (Double.mul rt.round x p.kconv1) p.kconv2
      let v := Double.add rt.round (Double.mul rt.round dest p.tagKconv1) p.tagKconv2
      (v, jsNumberString v)

def commandFor (p : Point) (raw : Value) : Command where
  point := p
  value := (routeCommandValue rt p raw).1
  valueString := (routeCommandValue rt p raw).2

-- The document that is inserted into the commands queue.
def Command.doc (wcfg : WriteConfig) (c : Command) (remote : String) (now : ℤ) : Document :=
  let number (x : Double) : Processor.Value := .number x
  [("protocolSourceConnectionNumber", number (c.point.cmdConnectionNumber.getD (.fin 0))),
    ("protocolSourceCommonAddress", (c.point.cmdCommonAddress.map number).getD .null),
    ("protocolSourceObjectAddress", c.point.cmdObjectAddress),
    ("protocolSourceASDU", c.point.cmdAsdu), ("protocolSourceCommandDuration", number (.fin 0)),
    ("protocolSourceCommandUseSBO", .bool false), ("pointKey", number c.point.pointKey),
    ("tag", .string c.point.tag), ("timeTag", .dateTime now), ("value", number c.value),
    ("valueString", .string c.valueString),
    ("originatorUserName", .string ("Protocol connection: " ++ wcfg.name)),
    ("originatorIpAddress", .string remote)]

end Values

section Handlers

variable (rt : Runtime) (cfg : Config) (wcfg : WriteConfig)

def relay (m : PointMap) (p : Option Point) (raw : Value) : Answer :=
  match p with
  | none => { map := m, exception := some .illegalDataAddress }
  | some p =>
      if !wcfg.commandsEnabled then { map := m, exception := some .illegalFunction }
      else if !p.isCommand then
        if wcfg.allowWritesToSupervised then { map := m.storeWritten p raw }
        else { map := m, exception := some .illegalFunction }
      else { map := m, commands := [commandFor rt p raw] }

def relayDecoded (m : PointMap) (p : Point) (regs : List (BitVec 16)) : Answer :=
  match decodeWrittenValue p regs with
  | none => { map := m, exception := some .illegalDataValue }
  | some raw => relay rt wcfg m (some p) raw

-- One write after the other, up to the first exception.
def relayEach (m : PointMap) : List (PointMap → Answer) → Answer
  | [] => { map := m }
  | write :: writes =>
      let a := write m
      match a.exception with
      | some _ => a
      | none =>
          let rest := relayEach a.map writes
          { rest with commands := a.commands ++ rest.commands }

def coilWrite (m : PointMap) (unit addr : Nat) (on : Bool) : Answer :=
  relay rt wcfg m (m.lookupWrite unit .coil addr) (boolValue on)

def registerWrite (m : PointMap) (unit addr : Nat) (value : BitVec 16) : Answer :=
  match m.lookupWrite unit .holding addr with
  | none => { map := m, exception := some .illegalDataAddress }
  | some p => relayDecoded rt wcfg m p [value]

-- The coils that start in the span, with what is written to them.
def mappedCoils (m : PointMap) (unit start : Nat) (bits : List Bool) : List (Point × Bool) :=
  bits.zipIdx.filterMap fun (b, i) =>
    match m.lookupWrite unit .coil (start + i) with
    | some p => if p.offset = start + i then some (p, b) else none
    | none => none

def multiCoilWrite (m : PointMap) (unit start : Nat) (bits : List Bool) : Answer :=
  let mapped := mappedCoils m unit start bits
  if mapped.isEmpty then { map := m, exception := some .illegalDataAddress }
  else relayEach m (mapped.map fun c => fun m => relay rt wcfg m (some c.1) (boolValue c.2))

-- The points that are found in a block, each of them once.
def covered (m : PointMap) (unit start n : Nat) : List Point :=
  (List.range n).foldl
    (fun covered i =>
      match m.lookupWrite unit .holding (start + i) with
      | some p => if p ∈ covered then covered else covered ++ [p]
      | none => covered) []

-- A point that the block covers from its first to its last register.
def Point.within (p : Point) (start n : Nat) : Bool :=
  start ≤ p.offset && p.offset + p.span ≤ start + n

-- The registers of a point in the block.
def Point.part (p : Point) (start : Nat) (regs : List (BitVec 16)) : List (BitVec 16) :=
  (regs.drop (p.offset - start)).take p.span

-- A point that is written only partly is skipped.
def multiRegisterWrite (m : PointMap) (unit start : Nat) (regs : List (BitVec 16)) : Answer :=
  let points := covered m unit start regs.length
  if points.isEmpty then { map := m, exception := some .illegalDataAddress }
  else
    relayEach m ((points.filter fun p => p.within start regs.length).map fun p => fun m =>
      relayDecoded rt wcfg m p (p.part start regs))

-- The bit of the register as it is served, under the masks.
def maskWrite (m : PointMap) (unit addr : Nat) (andMask orMask : BitVec 16) : Answer :=
  match m.lookupWrite unit .holding addr with
  | none => { map := m, exception := some .illegalDataAddress }
  | some p =>
      match p.address.bit with
      | none => { map := m, exception := some .illegalDataAddress }
      | some bit =>
          let cur := ((m.readRegisters cfg unit .holding addr 1).bind (·.head?)).getD 0
          let res := (cur &&& andMask) ||| (orMask &&& ~~~andMask)
          relay rt wcfg m (some p) (boolValue (res.getLsbD bit))

end Handlers

section Index

variable (rt : Runtime) (cfg : Config)

-- A command point that takes the writes of an address, unless an earlier one does.
def Point.takes (p : Point) (unit : Nat) (a : Area) (off : Nat) : Bool :=
  p.isCommand && isWritableArea p.area && p.unit = unit && p.area = a && p.offset ≤ off &&
    off < p.offset + p.span

theorem Point.takes_iff {p : Point} {unit : Nat} {a : Area} {off : Nat} :
    p.takes unit a off = true ↔ p.isCommand = true ∧ isWritableArea p.area = true ∧
      p.unit = unit ∧ p.area = a ∧ p.offset ≤ off ∧ off < p.offset + p.span := by
  simp [Point.takes, and_assoc]

-- The index holds the first command point that covers an address.
def PointMap.Indexed (m : PointMap) : Prop :=
  ∀ unit a off, m.writeIndex unit a off = m.points.find? fun p => p.takes unit a off

variable {rt cfg} {m : PointMap}

theorem indexWrites_apply (writeIndex : Nat → Area → Nat → Option Point) (p : Point) (unit : Nat)
    (a : Area) (off : Nat) :
    PointMap.indexWrites writeIndex p unit a off =
      (writeIndex unit a off).or (if p.takes unit a off then some p else none) := by
  unfold PointMap.indexWrites
  cases hcommand : p.isCommand && isWritableArea p.area with
  | false =>
      have htakes : p.takes unit a off = false := by simp [Point.takes, hcommand]
      rw [htakes, if_neg Bool.false_ne_true, if_neg Bool.false_ne_true, Option.or_none]
  | true =>
      rw [if_pos rfl]
      by_cases hat : unit = p.unit ∧ a = p.area ∧ p.offset ≤ off ∧ off < p.offset + p.span
      · have htakes : p.takes unit a off = true := by
          obtain ⟨rfl, rfl, hle, hlt⟩ := hat
          simp [Point.takes, hcommand, hle, hlt]
        rw [if_pos hat, htakes, if_pos rfl]
      · have htakes : p.takes unit a off = false := by
          rw [Bool.eq_false_iff]
          intro h
          obtain ⟨-, -, rfl, rfl, hle, hlt⟩ := Point.takes_iff.mp h
          exact hat ⟨rfl, rfl, hle, hlt⟩
        rw [if_neg hat, htakes, if_neg Bool.false_ne_true, Option.or_none]

theorem rebuildDoc_indexed (h : m.Indexed) (doc : TagDoc) : (m.rebuildDoc rt cfg doc).Indexed := by
  unfold PointMap.rebuildDoc
  cases buildPoint rt cfg doc with
  | error e => exact h
  | ok p =>
      intro unit a off
      simp only [indexWrites_apply, h unit a off, List.find?_append, List.find?_cons, List.find?_nil]
      cases p.takes unit a off <;> rfl

theorem rebuild_indexed (docs : List TagDoc) : (PointMap.rebuild rt cfg docs).Indexed := by
  have hrun (m : PointMap) (h : m.Indexed) : (docs.foldl (PointMap.rebuildDoc rt cfg) m).Indexed := by
    induction docs generalizing m with
    | nil => exact h
    | cons doc docs ih => exact ih _ (rebuildDoc_indexed h doc)
  exact hrun newPointMap fun _ _ _ => rfl

variable (rt cfg) in
-- Updates leave the points and the index.
theorem updateAll_points (m : PointMap) (updates : List (Processor.Value × Reading)) :
    (m.updateAll rt cfg updates).points = m.points ∧
      (m.updateAll rt cfg updates).writeIndex = m.writeIndex := by
  induction updates generalizing m with
  | nil => exact ⟨rfl, rfl⟩
  | cons u updates ih =>
      have hone : (m.update rt cfg u.1 u.2).1.points = m.points ∧
          (m.update rt cfg u.1 u.2).1.writeIndex = m.writeIndex := by
        unfold PointMap.update
        cases m.byID (anyString rt u.1) <;> exact ⟨rfl, rfl⟩
      exact ⟨(ih _).1.trans hone.1, (ih _).2.trans hone.2⟩

variable (rt cfg) in
theorem mapAfter_indexed (docs : List TagDoc) (updates : List (Processor.Value × Reading)) :
    (mapAfter rt cfg docs updates).Indexed := by
  intro unit a off
  obtain ⟨hpoints, hindex⟩ := updateAll_points rt cfg (PointMap.rebuild rt cfg docs) updates
  rw [mapAfter, hpoints, hindex]
  exact rebuild_indexed docs unit a off

variable {p : Point} {unit off : Nat} {a : Area}

theorem PointMap.Indexed.spec (h : m.Indexed) (hp : m.lookupWrite unit a off = some p) :
    p ∈ m.points ∧ p.isCommand = true ∧ p.unit = unit ∧ p.area = a ∧ p.offset ≤ off ∧
      off < p.offset + p.span := by
  rw [PointMap.lookupWrite, h unit a off] at hp
  have htakes := List.find?_some hp
  obtain ⟨hcommand, -, hunit, harea, hle, hlt⟩ := Point.takes_iff.mp htakes
  exact ⟨List.mem_of_find?_eq_some hp, hcommand, hunit, harea, hle, hlt⟩

end Index

section Relay

variable (rt : Runtime) (wcfg : WriteConfig)

-- A write to a command point, with the value that was decoded for it, if any.
def attempt (m : PointMap) (x : Point × Option Value) : Answer :=
  match x.2 with
  | none => { map := m, exception := some .illegalDataValue }
  | some raw => relay rt wcfg m (some x.1) raw

-- The commands up to the first write that cannot be decoded.
def relayed : List (Point × Option Value) → List Command
  | (p, some raw) :: rest => commandFor rt p raw :: relayed rest
  | _ => []

variable {rt wcfg} {m : PointMap} {p : Point}

theorem relayDecoded_eq (regs : List (BitVec 16)) :
    relayDecoded rt wcfg m p regs = attempt rt wcfg m (p, decodeWrittenValue p regs) := rfl

theorem relay_command (hp : p.isCommand = true) (raw : Value) :
    relay rt wcfg m (some p) raw =
      if wcfg.commandsEnabled then { map := m, commands := [commandFor rt p raw] }
      else { map := m, exception := some .illegalFunction } := by
  unfold relay
  cases wcfg.commandsEnabled <;> simp [hp]

theorem attempt_command (hp : p.isCommand = true) (v : Option Value) :
    attempt rt wcfg m (p, v) =
      match v with
      | none => { map := m, exception := some .illegalDataValue }
      | some raw =>
          if wcfg.commandsEnabled then { map := m, commands := [commandFor rt p raw] }
          else { map := m, exception := some .illegalFunction } := by
  cases v with
  | none => rfl
  | some raw => exact relay_command hp raw

theorem relayEach_enabled (hon : wcfg.commandsEnabled = true) {ws : List (Point × Option Value)}
    (hws : ∀ x ∈ ws, x.1.isCommand = true) :
    relayEach m (ws.map fun x m => attempt rt wcfg m x) =
      { map := m, commands := relayed rt ws
        exception := if ws.all fun x => x.2.isSome then none else some .illegalDataValue } := by
  induction ws with
  | nil => rfl
  | cons x ws ih =>
      obtain ⟨p, v⟩ := x
      have hp : p.isCommand = true := hws (p, v) List.mem_cons_self
      have hrest := ih fun y hy => hws y (List.mem_cons_of_mem _ hy)
      cases v with
      | none => rfl
      | some raw =>
          simp only [List.map_cons, relayEach, attempt_command hp, hon, if_true, hrest, relayed,
            List.singleton_append, List.all_cons, Option.isSome_some, Bool.true_and]

variable (rt) in
-- Where commands are disabled, the first write is refused.
theorem relayEach_disabled (hoff : wcfg.commandsEnabled = false) {x : Point × Option Value}
    (hx : x.1.isCommand = true) (ws : List (Point × Option Value)) :
    (relayEach m ((x :: ws).map fun x m => attempt rt wcfg m x)).map = m ∧
      (relayEach m ((x :: ws).map fun x m => attempt rt wcfg m x)).commands = [] ∧
      (relayEach m ((x :: ws).map fun x m => attempt rt wcfg m x)).exception ≠ none := by
  obtain ⟨p, v⟩ := x
  cases v with
  | none => exact ⟨rfl, rfl, Option.some_ne_none _⟩
  | some raw =>
      have heach : relayEach m (((p, some raw) :: ws).map fun x m => attempt rt wcfg m x) =
          { map := m, exception := some .illegalFunction } := by
        simp only [List.map_cons, relayEach, attempt_command hx, hoff, Bool.false_eq_true, if_false]
      rw [heach]
      exact ⟨rfl, rfl, Option.some_ne_none _⟩

variable (rt) in
-- When all can be decoded, each point has its command.
theorem relayed_of_all {ws : List (Point × Option Value)} (h : ∀ x ∈ ws, x.2.isSome = true) :
    (relayed rt ws).map Command.point = ws.map Prod.fst := by
  induction ws with
  | nil => rfl
  | cons x ws ih =>
      obtain ⟨p, v⟩ := x
      obtain ⟨raw, rfl⟩ := Option.isSome_iff_exists.mp (h (p, v) List.mem_cons_self)
      simp only [relayed, List.map_cons, commandFor, ih fun y hy => h y (List.mem_cons_of_mem _ hy)]

end Relay

section Covered

variable {m : PointMap} {unit start n : Nat} {p : Point}

-- The points of a block are those that are looked up in it, and no two are the same.
theorem covered_spec (m : PointMap) (unit start n : Nat) :
    (covered m unit start n).Nodup ∧
      ∀ p, p ∈ covered m unit start n ↔ ∃ i < n, m.lookupWrite unit .holding (start + i) = some p := by
  induction n with
  | zero => exact ⟨List.nodup_nil, fun p => by simp [covered]⟩
  | succ n ih =>
      obtain ⟨hnodup, hmem⟩ := ih
      have hsplit (p : Point) : (∃ i < n + 1, m.lookupWrite unit .holding (start + i) = some p) ↔
          (∃ i < n, m.lookupWrite unit .holding (start + i) = some p) ∨
            m.lookupWrite unit .holding (start + n) = some p := by
        constructor
        · rintro ⟨i, hi, hp⟩
          rcases Nat.lt_succ_iff_lt_or_eq.mp hi with hlt | rfl
          · exact .inl ⟨i, hlt, hp⟩
          · exact .inr hp
        · rintro (⟨i, hi, hp⟩ | hp)
          · exact ⟨i, by omega, hp⟩
          · exact ⟨n, by omega, hp⟩
      cases hlook : m.lookupWrite unit .holding (start + n) with
      | none =>
          have hstep : covered m unit start (n + 1) = covered m unit start n := by
            rw [covered, List.range_succ, List.foldl_append, List.foldl_cons, hlook]
            rfl
          rw [hstep]
          refine ⟨hnodup, fun p => ?_⟩
          rw [hmem, hsplit, hlook]
          simp
      | some q =>
          have hstep : covered m unit start (n + 1) =
              if q ∈ covered m unit start n then covered m unit start n
              else covered m unit start n ++ [q] := by
            rw [covered, List.range_succ, List.foldl_append, List.foldl_cons, hlook]
            rfl
          rw [hstep]
          by_cases hq : q ∈ covered m unit start n
          · rw [if_pos hq]
            refine ⟨hnodup, fun p => ?_⟩
            rw [hsplit, hlook, ← hmem]
            constructor
            · exact .inl
            · rintro (h | h)
              · exact h
              · exact Option.some.inj h ▸ hq
          · rw [if_neg hq]
            refine ⟨?_, fun p => ?_⟩
            · rw [List.nodup_append]
              refine ⟨hnodup, List.nodup_singleton q, ?_⟩
              rintro a ha b hb rfl
              exact hq (List.mem_singleton.mp hb ▸ ha)
            · rw [hsplit, hlook, ← hmem, List.mem_append, List.mem_singleton, Option.some.injEq,
                eq_comm (a := p)]

end Covered

end JsonScada.Modbus
