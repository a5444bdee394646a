import JsonScada.Modbus.WriteHandler

namespace JsonScada.Modbus

open JsonScada.Library

section Multiple

variable (rt : Runtime) (wcfg : WriteConfig) (m : PointMap) (unit start : Nat)
  (regs : List (BitVec 16))

-- The command points that a block of registers covers fully, in the order of the map.
def commandsWithin (n : Nat) : List Point :=
  m.points.filter fun p => p.isCommand && p.area = .holding && p.unit = unit && p.within start n

-- A success relays one command for each of some points, and at least one, an exception none.
def AllOrNothing (a : Answer) (points : List Point) : Prop :=
  (a.exception = none → a.commands ≠ [] ∧ (a.commands.map Command.point).Perm points) ∧
    (a.exception ≠ none → a.commands = [])

def Decodes (p : Point) : Prop := (decodeWrittenValue p (p.part start regs)).isSome = true

instance (p : Point) : Decidable (Decodes start regs p) := inferInstanceAs (Decidable (_ = _))

-- No command point is found in the block, or the first one that it covers fully is refused, or
-- all of these can be decoded, and there are no others.
def Relayable : Prop :=
  let found := covered m unit start regs.length
  let points := commandsWithin m unit start regs.length
  found = [] ∨ ∃ p rest, (found.filter fun p => p.within start regs.length) = p :: rest ∧
    (wcfg.commandsEnabled = false ∨ ¬Decodes start regs p ∨
      (∀ q ∈ p :: rest, Decodes start regs q) ∧ points.Nodup ∧ ∀ q ∈ points, q ∈ found)

variable {rt wcfg m unit start regs}

-- The writes of the fully covered points.
def writesOf (m : PointMap) (unit start : Nat) (regs : List (BitVec 16)) :
    List (Point × Option Value) :=
  ((covered m unit start regs.length).filter fun p => p.within start regs.length).map
    fun p => (p, decodeWrittenValue p (p.part start regs))

theorem multiRegisterWrite_eq :
    multiRegisterWrite rt wcfg m unit start regs =
      if (covered m unit start regs.length).isEmpty then
        { map := m, exception := some .illegalDataAddress }
      else relayEach m ((writesOf m unit start regs).map fun x m => attempt rt wcfg m x) := by
  unfold multiRegisterWrite writesOf
  rw [List.map_map]
  rfl

theorem mem_commandsWithin {n : Nat} {p : Point} :
    p ∈ commandsWithin m unit start n ↔ p ∈ m.points ∧ p.isCommand = true ∧ p.area = .holding ∧
      p.unit = unit ∧ p.within start n = true := by
  simp [commandsWithin, and_assoc]

-- The points that a block finds and covers fully are among the command points it covers.
theorem commandsWithin_of_covered (h : m.Indexed) {n : Nat} {p : Point}
    (hp : p ∈ covered m unit start n) (hin : p.within start n = true) :
    p ∈ commandsWithin m unit start n := by
  obtain ⟨i, -, hlook⟩ := ((covered_spec m unit start n).2 p).mp hp
  obtain ⟨hmem, hcommand, hunit, harea, -, -⟩ := h.spec hlook
  exact mem_commandsWithin.mpr ⟨hmem, hcommand, harea, hunit, hin⟩

theorem writesOf_command (h : m.Indexed) :
    ∀ x ∈ writesOf m unit start regs, x.1.isCommand = true := by
  intro x hx
  obtain ⟨p, hp, rfl⟩ := List.mem_map.mp hx
  obtain ⟨hfound, hin⟩ := List.mem_filter.mp hp
  exact (mem_commandsWithin.mp (commandsWithin_of_covered h hfound hin)).2.1

-- The found points are all the covered ones, each once.
theorem perm_commandsWithin_iff (h : m.Indexed) {n : Nat} :
    ((covered m unit start n).filter fun p => p.within start n).Perm (commandsWithin m unit start n) ↔
      (commandsWithin m unit start n).Nodup ∧
        ∀ q ∈ commandsWithin m unit start n, q ∈ covered m unit start n := by
  have hnodup : ((covered m unit start n).filter fun p => p.within start n).Nodup :=
    (covered_spec m unit start n).1.filter _
  constructor
  · intro hperm
    refine ⟨hperm.nodup_iff.mp hnodup, fun q hq => ?_⟩
    exact (List.mem_filter.mp (hperm.mem_iff.mpr hq)).1
  · rintro ⟨hpoints, hall⟩
    refine (List.perm_ext_iff_of_nodup hnodup hpoints).mpr fun q => ⟨fun hq => ?_, fun hq => ?_⟩
    · obtain ⟨hfound, hin⟩ := List.mem_filter.mp hq
      exact commandsWithin_of_covered h hfound hin
    · exact List.mem_filter.mpr ⟨hall q hq, (mem_commandsWithin.mp hq).2.2.2.2⟩

-- A first write, and others after it: all are relayed, or the first one is refused.
theorem relayEach_allOrNothing {x : Point × Option Value} {ws : List (Point × Option Value)}
    (hcommand : ∀ y ∈ x :: ws, y.1.isCommand = true) (points : List Point) :
    AllOrNothing (relayEach m ((x :: ws).map fun x m => attempt rt wcfg m x)) points ↔
      wcfg.commandsEnabled = false ∨ x.2 = none ∨
        (∀ y ∈ x :: ws, y.2.isSome = true) ∧ ((x :: ws).map Prod.fst).Perm points := by
  cases hon : wcfg.commandsEnabled with
  | false =>
      obtain ⟨-, hnone, hexception⟩ := relayEach_disabled rt (m := m) hon
        (hcommand x List.mem_cons_self) ws
      exact iff_of_true ⟨fun hsuccess => absurd hsuccess hexception, fun _ => hnone⟩ (.inl rfl)
  | true =>
      rw [relayEach_enabled hon hcommand]
      simp only [Bool.true_eq_false, false_or]
      by_cases hall : ∀ y ∈ x :: ws, y.2.isSome = true
      · have hpoints := relayed_of_all rt hall
        have hne : relayed rt (x :: ws) ≠ [] := by
          intro hnil
          rw [hnil] at hpoints
          cases hpoints
        have hx : x.2 ≠ none := Option.isSome_iff_ne_none.mp (hall x List.mem_cons_self)
        rw [if_pos (List.all_eq_true.mpr hall)]
        unfold AllOrNothing
        simp only [ne_eq, not_true_eq_false, false_imp_iff, and_true, true_imp_iff, hne,
          not_false_eq_true, true_and, hpoints, hx, false_or]
        exact ⟨fun hperm => ⟨hall, hperm⟩, fun hok => hok.2⟩
      · rw [if_neg fun hsome => hall (List.all_eq_true.mp hsome)]
        unfold AllOrNothing
        simp only [reduceCtorEq, false_imp_iff, true_and, ne_eq, not_false_eq_true, true_imp_iff,
          hall, false_and, or_false]
        obtain ⟨p, v⟩ := x
        cases v <;> simp [relayed]

theorem allOrNothing_iff (h : m.Indexed) :
    AllOrNothing (multiRegisterWrite rt wcfg m unit start regs)
        (commandsWithin m unit start regs.length) ↔ Relayable wcfg m unit start regs := by
  rw [multiRegisterWrite_eq]
  unfold Relayable
  cases hempty : (covered m unit start regs.length).isEmpty with
  | true =>
      rw [if_pos rfl]
      refine ⟨fun _ => .inl (List.isEmpty_iff.mp hempty), fun _ => ⟨fun hnone => ?_, fun _ => rfl⟩⟩
      cases hnone
  | false =>
      have hfound : ¬covered m unit start regs.length = [] := by
        intro hnil
        rw [hnil] at hempty
        cases hempty
      simp only [hfound, false_or, Bool.false_eq_true, if_false]
      have hcommand : ∀ x ∈ writesOf m unit start regs, x.1.isCommand = true := writesOf_command h
      have hperm : ((covered m unit start regs.length).filter fun p =>
          p.within start regs.length).Perm (commandsWithin m unit start regs.length) ↔ _ :=
        perm_commandsWithin_iff h
      unfold writesOf at hcommand ⊢
      cases hfull : (covered m unit start regs.length).filter fun p => p.within start regs.length with
      | nil =>
          -- a success without a command
          rw [List.map_nil]
          simp [AllOrNothing, relayEach]
      | cons p rest =>
          rw [hfull] at hcommand hperm
          have hpoints : ((p :: rest).map fun p =>
              (p, decodeWrittenValue p (p.part start regs))).map Prod.fst = p :: rest := by
            rw [List.map_map, Function.comp_def, List.map_id']
          have hdecodes : (∀ y ∈ (p :: rest).map fun p =>
              (p, decodeWrittenValue p (p.part start regs)), y.2.isSome = true) ↔
              ∀ q ∈ p :: rest, Decodes start regs q := List.forall_mem_map
          rw [List.map_cons] at hcommand hpoints hdecodes ⊢
          rw [relayEach_allOrNothing hcommand, hpoints, hperm, hdecodes,
            ← Option.not_isSome_iff_eq_none]
          constructor
          · exact fun hok => ⟨p, rest, rfl, hok⟩
          · rintro ⟨p', rest', heq, hok⟩
            obtain ⟨rfl, rfl⟩ := List.cons.inj heq
            exact hok

end Multiple

section Registers

variable (rt : Runtime) (cfg : Config) (wcfg : WriteConfig) (docs : List TagDoc)
  (updates : List (Processor.Value × Reading)) (unit addr : Nat)

-- A block of registers is relayed as a whole or not at all, but for a block that covers none of
-- the points it finds, that hides one, or in which a later point cannot be decoded.
theorem all_or_nothing_iff (start : Nat) (regs : List (BitVec 16)) :
    AllOrNothing (multiRegisterWrite rt wcfg (mapAfter rt cfg docs updates) unit start regs)
        (commandsWithin (mapAfter rt cfg docs updates) unit start regs.length) ↔
      Relayable wcfg (mapAfter rt cfg docs updates) unit start regs :=
  allOrNothing_iff (mapAfter_indexed rt cfg docs updates)

-- The two ways to write one register have the same answer and the same commands, none of them for a
-- point that has other registers too.
def SameAnswer (m : PointMap) (v : BitVec 16) : Prop :=
  let single := registerWrite rt wcfg m unit addr v
  let multiple := multiRegisterWrite rt wcfg m unit addr [v]
  single.exception = multiple.exception ∧ single.commands = multiple.commands ∧
    ∀ c ∈ single.commands ++ multiple.commands, c.point.within addr 1 = true

-- The command point that takes the writes of the register, if any, has no other one.
def OneRegister (m : PointMap) : Prop :=
  ∀ p, m.lookupWrite unit .holding addr = some p → p.span = 1

variable {rt cfg wcfg unit addr} {m : PointMap}

theorem covered_one (m : PointMap) :
    covered m unit addr 1 = (m.lookupWrite unit .holding addr).toList := by
  rw [covered, List.range_one, List.foldl_cons, List.foldl_nil, Nat.add_zero]
  cases m.lookupWrite unit .holding addr <;> rfl

theorem sameAnswer_iff (h : m.Indexed) (v : BitVec 16) :
    SameAnswer rt wcfg unit addr m v ↔ OneRegister unit addr m := by
  unfold SameAnswer OneRegister registerWrite
  rw [multiRegisterWrite_eq]
  unfold writesOf
  rw [List.length_singleton, covered_one]
  cases hlook : m.lookupWrite unit .holding addr with
  | none => simp
  | some p =>
      obtain ⟨-, hcommand, -, -, hle, hlt⟩ := h.spec hlook
      have hspan := p.span_pos
      simp only [Option.toList_some, List.isEmpty_cons, Bool.false_eq_true, if_false,
        Option.some.injEq, forall_eq', relayDecoded_eq]
      by_cases hone : p.span = 1
      · have hoff : p.offset = addr := by omega
        have hin : p.within addr 1 = true := by simp [Point.within, hoff, hone]
        have hfull : [p].filter (fun p => p.within addr 1) = [p] := by simp [hin]
        have hpart : p.part addr [v] = [v] := by simp [Point.part, hoff, hone]
        simp only [hfull, List.map_cons, List.map_nil, hpart, relayEach, hone, iff_true]
        rw [attempt_command hcommand]
        cases decodeWrittenValue p [v] with
        | none => simp
        | some raw => cases wcfg.commandsEnabled <;> simp [commandFor, hin]
      · -- the block skips the point, and the single write does not
        have hout : p.within addr 1 = false := by
          simp only [Point.within, Bool.and_eq_false_iff, decide_eq_false_iff_not]
          omega
        have hfull : [p].filter (fun p => p.within addr 1) = [] := by simp [hout]
        simp only [hfull, List.map_nil, relayEach, hone, iff_false]
        rw [attempt_command hcommand]
        cases decodeWrittenValue p [v] with
        | none => simp
        | some raw => cases wcfg.commandsEnabled <;> simp

variable (rt cfg wcfg unit addr)

-- They differ exactly where the register belongs to a command point of several registers.
theorem single_same_as_multiple_iff (v : BitVec 16) :
    SameAnswer rt wcfg unit addr (mapAfter rt cfg docs updates) v ↔
      OneRegister unit addr (mapAfter rt cfg docs updates) :=
  sameAnswer_iff (mapAfter_indexed rt cfg docs updates) v

end Registers

section Masks

variable (rt : Runtime) (cfg : Config) (wcfg : WriteConfig) (docs : List TagDoc)
  (updates : List (Processor.Value × Reading)) (m : PointMap) (unit addr : Nat)
  (andMask orMask : BitVec 16)

def Point.isForced (p : Point) : Bool :=
  match p.address.bit with
  | some bit => !andMask.getLsbD bit
  | none => false

-- The command points of the bits that the masks force.
def namedBits : List Point :=
  m.points.filter fun p =>
    p.isCommand && p.area = .holding && p.unit = unit && p.offset = addr && p.isForced andMask

-- The state that a bit is forced to.
def forcedState (p : Point) : Value := boolValue (orMask.getLsbD (p.address.bit.getD 0))

-- The commands of a mask write are those of the bits it forces, with their states.
def CommandsNamed : Prop :=
  (maskWrite rt cfg wcfg m unit addr andMask orMask).commands.Perm
    ((namedBits m unit addr andMask).map fun p => commandFor rt p (forcedState orMask p))

-- The one bit that a mask write can reach: that of the command point that takes the writes of the
-- register.
def reachedBit : List Point :=
  if wcfg.commandsEnabled then (m.lookupWrite unit .holding addr).toList.filter Point.hasBit else []

variable {rt cfg wcfg m unit addr andMask orMask}

theorem maskWrite_commands (h : m.Indexed) :
    (maskWrite rt cfg wcfg m unit addr andMask orMask).commands =
      (reachedBit wcfg m unit addr).map fun p =>
        let cur := ((m.readRegisters cfg unit .holding addr 1).bind (·.head?)).getD 0
        let res := (cur &&& andMask) ||| (orMask &&& ~~~andMask)
        commandFor rt p (boolValue (res.getLsbD (p.address.bit.getD 0))) := by
  unfold maskWrite reachedBit
  cases hlook : m.lookupWrite unit .holding addr with
  | none => simp
  | some p =>
      have hcommand := (h.spec hlook).2.1
      cases hbit : p.address.bit with
      | none => simp [Point.hasBit, hbit]
      | some bit =>
          simp only [relay_command hcommand, Option.toList_some]
          cases wcfg.commandsEnabled <;> simp [Point.hasBit, hbit]

-- A forced bit does not depend on the current one.
theorem masked_of_forced (cur : BitVec 16) {p : Point} (hforced : p.isForced andMask = true) :
    ((cur &&& andMask) ||| (orMask &&& ~~~andMask)).getLsbD (p.address.bit.getD 0) =
      orMask.getLsbD (p.address.bit.getD 0) := by
  unfold Point.isForced at hforced
  cases hbit : p.address.bit with
  | none =>
      rw [hbit] at hforced
      cases hforced
  | some bit =>
      rw [hbit] at hforced
      have hclear : andMask.getLsbD bit = false := by simpa using hforced
      have hlt : bit < 16 := Nat.lt_succ_of_le (p.address.bit_le bit hbit).2
      simp only [Option.getD_some, BitVec.getLsbD_or, BitVec.getLsbD_and, BitVec.getLsbD_not, hclear,
        hlt, Bool.and_false, decide_true, Bool.not_false, Bool.and_true, Bool.false_or]

theorem reachedBit_cases (wcfg : WriteConfig) (m : PointMap) (unit addr : Nat) :
    reachedBit wcfg m unit addr = [] ∨ ∃ p, reachedBit wcfg m unit addr = [p] := by
  unfold reachedBit
  cases wcfg.commandsEnabled with
  | false => exact .inl rfl
  | true =>
      cases m.lookupWrite unit .holding addr with
      | none => exact .inl rfl
      | some p =>
          rw [if_pos rfl, Option.toList_some, List.filter_singleton]
          cases p.hasBit with
          | false => exact .inl rfl
          | true => exact .inr ⟨p, rfl⟩

theorem commandsNamed_iff (h : m.Indexed) :
    CommandsNamed rt cfg wcfg m unit addr andMask orMask ↔
      namedBits m unit addr andMask = reachedBit wcfg m unit addr := by
  unfold CommandsNamed
  rw [maskWrite_commands h]
  constructor
  · intro hperm
    have hpoints := hperm.map Command.point
    simp only [List.map_map, Function.comp_def, commandFor, List.map_id'] at hpoints
    rcases reachedBit_cases wcfg m unit addr with hnone | ⟨p, hone⟩
    · rw [hnone] at hpoints ⊢
      exact List.nil_perm.mp hpoints
    · rw [hone] at hpoints ⊢
      exact (List.singleton_perm.mp hpoints).symm
  · intro hnamed
    rw [← hnamed]
    refine List.Perm.of_eq (List.map_congr_left fun p hp => ?_)
    have hforced : p.isForced andMask = true := by
      have hmem := (List.mem_filter.mp hp).2
      rw [Bool.and_eq_true] at hmem
      exact hmem.2
    simp only [forcedState, masked_of_forced _ hforced]

variable (rt cfg wcfg unit addr andMask orMask)

-- A mask write commands the named bits exactly where they are the one it can reach.
theorem mask_commands_named_iff :
    CommandsNamed rt cfg wcfg (mapAfter rt cfg docs updates) unit addr andMask orMask ↔
      namedBits (mapAfter rt cfg docs updates) unit addr andMask =
        reachedBit wcfg (mapAfter rt cfg docs updates) unit addr :=
  commandsNamed_iff (mapAfter_indexed rt cfg docs updates)

end Masks

section Examples

def openWrites : WriteConfig where
  name := "SRV"
  commandsEnabled := true
  allowWritesToSupervised := true

-- A command tag served in unit 1.
def commandTag (id : ℚ) (address asdu : String) : TagDoc :=
  { onTag id address with
    origin := .string "command"
    dest := [("protocolDestinationObjectAddress", .string address),
      ("protocolDestinationASDU", .string asdu),
      ("protocolDestinationCommonAddress", .number (.fin 1))] }

-- A point of two registers, and two bits of another one.
def commandMap : PointMap :=
  mapAfter amd64 zeroPolicy
    [commandTag 1 "hr:0" "float32", commandTag 2 "hr:6.b0" "", commandTag 3 "hr:6.b1" ""] []

-- A write of the second register of the point is accepted, and is no command.
theorem partial_write_accepted :
    ¬AllOrNothing (multiRegisterWrite amd64 openWrites commandMap 1 1 [7#16])
      (commandsWithin commandMap 1 1 1) := by
  rintro ⟨hsuccess, -⟩
  have hnone : (multiRegisterWrite amd64 openWrites commandMap 1 1 [7#16]).exception = none ∧
      (multiRegisterWrite amd64 openWrites commandMap 1 1 [7#16]).commands = [] := by
    decide +kernel
  exact (hsuccess hnone.1).1 hnone.2

-- A single write of the first register commands the whole point.
theorem single_write_differs : ¬SameAnswer amd64 openWrites 1 0 commandMap 0x4020#16 := by
  rintro ⟨-, hcommands, -⟩
  have hone : (registerWrite amd64 openWrites commandMap 1 0 0x4020#16).commands.length = 1 := by
    decide +kernel
  have hnone :
      (multiRegisterWrite amd64 openWrites commandMap 1 0 [0x4020#16]).commands.length = 0 := by
    decide +kernel
  rw [hcommands, hnone] at hone
  cases hone

-- Masks that set the second bit command the first one.
theorem unnamed_bit_commanded :
    ¬CommandsNamed amd64 zeroPolicy openWrites commandMap 1 6 (~~~2#16) 2#16 := by
  intro hperm
  have hrelayed : (maskWrite amd64 zeroPolicy openWrites commandMap 1 6 (~~~2#16) 2#16).commands.map
      (fun c => c.point.address.bit) = [some 0] := by
    decide +kernel
  have hnamed : (namedBits commandMap 1 6 (~~~2#16)).map (fun p => p.address.bit) = [some 1] := by
    decide +kernel
  have hbits := hperm.map fun c => c.point.address.bit
  rw [hrelayed, List.map_map, Function.comp_def] at hbits
  simp only [commandFor, hnamed] at hbits
  exact absurd (List.singleton_perm_singleton.mp hbits) (by decide)

end Examples

-- What becomes of writes to points that are no commands.
section Requests

-- A write of a master: FC5, FC6, FC15, FC16 or FC22.
inductive WriteRequest where
  | coil (addr : Nat) (on : Bool)
  | register (addr : Nat) (value : BitVec 16)
  | coils (start : Nat) (bits : List Bool)
  | registers (start : Nat) (regs : List (BitVec 16))
  | mask (addr : Nat) (andMask orMask : BitVec 16)

def handleWrite (rt : Runtime) (cfg : Config) (wcfg : WriteConfig) (m : PointMap) (unit : Nat) :
    WriteRequest → Answer
  | .coil addr on => coilWrite rt wcfg m unit addr on
  | .register addr value => registerWrite rt wcfg m unit addr value
  | .coils start bits => multiCoilWrite rt wcfg m unit start bits
  | .registers start regs => multiRegisterWrite rt wcfg m unit start regs
  | .mask addr andMask orMask => maskWrite rt cfg wcfg m unit addr andMask orMask

-- What a request writes to a bit of a register, or to a coil.
def WriteRequest.writes (a : Area) (o k : Nat) : WriteRequest → Option Bool
  | .coil addr on => if a = .coil ∧ o = addr then some on else none
  | .coils start bits => if a = .coil ∧ start ≤ o then bits[o - start]? else none
  | .register addr value => if a = .holding ∧ o = addr then some (value.getLsbD k) else none
  | .registers start regs =>
      if a = .holding ∧ start ≤ o then regs[o - start]?.map fun w => w.getLsbD k else none
  | .mask addr andMask orMask =>
      if a = .holding ∧ o = addr ∧ andMask.getLsbD k = false then some (orMask.getLsbD k) else none

def WriteRequest.Covers (req : WriteRequest) (p : Point) : Prop :=
  ∀ o k, p.names o k → (req.writes p.area o k).isSome = true

-- A bit or coil of a point as it is served.
def servedAt (cfg : Config) (units : Nat → Option Banks) (p : Point) (o k : Nat) : Option Bool :=
  if isBitArea p.area then PointMap.served cfg false (bitAreaAt units p.unit p.area o)
  else servedBit cfg units p.unit p.area o k

-- Everything that a request writes to a point is served.
def Serves (cfg : Config) (units : Nat → Option Banks) (p : Point) (req : WriteRequest) : Prop :=
  ∀ o k, p.names o k → ∀ b, req.writes p.area o k = some b → servedAt cfg units p o k = some b

-- A request is accepted, and what it writes to a point can be read afterwards.
def WrittenThrough (rt : Runtime) (cfg : Config) (wcfg : WriteConfig) (m : PointMap) (p : Point)
    (req : WriteRequest) : Prop :=
  let a := handleWrite rt cfg wcfg m p.unit req
  a.exception = none ∧ Serves cfg a.map.units p req

-- All requests that cover a supervised point in a writable area are written through.
def SupervisedWritable (rt : Runtime) (cfg : Config) (wcfg : WriteConfig) (m : PointMap) : Prop :=
  ∀ p ∈ m.points, p.isCommand = false → isWritableArea p.area = true →
    ∀ req : WriteRequest, req.Covers p → WrittenThrough rt cfg wcfg m p req

-- The command points that a request finds accept it.
def AcceptedByCommands (wcfg : WriteConfig) (m : PointMap) (unit : Nat) : WriteRequest → Prop
  | .coil addr _ => wcfg.commandsEnabled = true ∧ (m.lookupWrite unit .coil addr).isSome = true
  | .coils start bits => wcfg.commandsEnabled = true ∧ mappedCoils m unit start bits ≠ []
  | .register addr value =>
      wcfg.commandsEnabled = true ∧ ∃ q, m.lookupWrite unit .holding addr = some q ∧
        (decodeWrittenValue q [value]).isSome = true
  | .registers start regs =>
      covered m unit start regs.length ≠ [] ∧ ∀ q ∈ covered m unit start regs.length,
        q.within start regs.length = true →
          wcfg.commandsEnabled = true ∧ Decodes start regs q
  | .mask addr _ _ =>
      wcfg.commandsEnabled = true ∧ ∃ q, m.lookupWrite unit .holding addr = some q ∧ q.hasBit = true

end Requests

section Answers

variable {rt : Runtime} {cfg : Config} {wcfg : WriteConfig} {m : PointMap} {unit : Nat}

-- The answer of a write leaves the map, and is a success under a condition.
def Answer.LeavesMap (a : Answer) (m : PointMap) (accepted : Prop) : Prop :=
  a.map = m ∧ (a.exception = none ↔ accepted)

theorem attempt_leavesMap {p : Point} (hp : p.isCommand = true) (v : Option Value) :
    (attempt rt wcfg m (p, v)).LeavesMap m (wcfg.commandsEnabled = true ∧ v.isSome = true) := by
  rw [attempt_command hp]
  cases v <;> cases wcfg.commandsEnabled <;> simp [Answer.LeavesMap]

variable (rt wcfg m) in
theorem relayEach_leavesMap {ws : List (Point × Option Value)}
    (hws : ∀ x ∈ ws, x.1.isCommand = true) :
    (relayEach m (ws.map fun x m => attempt rt wcfg m x)).LeavesMap m
      (∀ x ∈ ws, wcfg.commandsEnabled = true ∧ x.2.isSome = true) := by
  cases hon : wcfg.commandsEnabled with
  | true =>
      rw [relayEach_enabled hon hws]
      refine ⟨rfl, ?_⟩
      simp only [true_and]
      rw [← List.all_eq_true (p := fun x : Point × Option Value => x.2.isSome)]
      cases ws.all fun x => x.2.isSome <;> simp
  | false =>
      cases ws with
      | nil => exact ⟨rfl, iff_of_true rfl fun _ hx => absurd hx List.not_mem_nil⟩
      | cons x ws =>
          obtain ⟨hmap, -, hexception⟩ := relayEach_disabled rt (m := m) hon
            (hws x List.mem_cons_self) ws
          refine ⟨hmap, iff_of_false hexception fun hall => ?_⟩
          exact Bool.false_ne_true (hall x List.mem_cons_self).1

theorem mappedCoils_command (h : m.Indexed) {start : Nat} {bits : List Bool} :
    ∀ c ∈ mappedCoils m unit start bits, c.1.isCommand = true := by
  intro c hc
  obtain ⟨⟨b, i⟩, -, hc⟩ := List.mem_filterMap.mp hc
  simp only at hc
  cases hlook : m.lookupWrite unit .coil (start + i) with
  | none =>
      rw [hlook] at hc
      cases hc
  | some p =>
      rw [hlook] at hc
      simp only at hc
      split at hc
      · rw [← Option.some.inj hc]
        exact (h.spec hlook).2.1
      · cases hc

variable (rt cfg wcfg unit) in
-- Writes only reach command points, so no request changes what is served.
theorem handleWrite_leavesMap (h : m.Indexed) (req : WriteRequest) :
    (handleWrite rt cfg wcfg m unit req).LeavesMap m (AcceptedByCommands wcfg m unit req) := by
  cases req with
  | coil addr on =>
      simp only [handleWrite, coilWrite, AcceptedByCommands]
      cases hlook : m.lookupWrite unit .coil addr with
      | none => simp [relay, Answer.LeavesMap]
      | some p => exact attempt_leavesMap (h.spec hlook).2.1 (some (boolValue on))
  | register addr value =>
      simp only [handleWrite, registerWrite, AcceptedByCommands]
      cases hlook : m.lookupWrite unit .holding addr with
      | none => simp [Answer.LeavesMap]
      | some p =>
          simp only [Option.some.injEq, exists_eq_left']
          exact attempt_leavesMap (h.spec hlook).2.1 (decodeWrittenValue p [value])
  | coils start bits =>
      simp only [handleWrite, multiCoilWrite, AcceptedByCommands]
      cases hempty : (mappedCoils m unit start bits).isEmpty with
      | true => simp [Answer.LeavesMap, List.isEmpty_iff.mp hempty]
      | false =>
          have hne : mappedCoils m unit start bits ≠ [] := by
            intro hnil
            rw [hnil] at hempty
            cases hempty
          have hws : ∀ x ∈ (mappedCoils m unit start bits).map fun c => (c.1, some (boolValue c.2)),
              x.1.isCommand = true :=
            List.forall_mem_map.mpr fun c hc => mappedCoils_command h c hc
          obtain ⟨hmap, haccepted⟩ := relayEach_leavesMap rt wcfg m hws
          rw [List.map_map] at hmap haccepted
          rw [if_neg Bool.false_ne_true]
          refine ⟨hmap, haccepted.trans ?_⟩
          rw [List.forall_mem_map]
          obtain ⟨c, hc⟩ := List.exists_mem_of_ne_nil _ hne
          exact ⟨fun hall => ⟨(hall c hc).1, hne⟩, fun hon _ _ => ⟨hon.1, rfl⟩⟩
  | registers start regs =>
      simp only [handleWrite, multiRegisterWrite_eq, AcceptedByCommands]
      cases hempty : (covered m unit start regs.length).isEmpty with
      | true => simp [Answer.LeavesMap, List.isEmpty_iff.mp hempty]
      | false =>
          have hne : covered m unit start regs.length ≠ [] := by
            intro hnil
            rw [hnil] at hempty
            cases hempty
          have hws : ∀ x ∈ writesOf m unit start regs, x.1.isCommand = true := writesOf_command h
          obtain ⟨hmap, haccepted⟩ := relayEach_leavesMap rt wcfg m hws
          rw [if_neg Bool.false_ne_true]
          refine ⟨hmap, haccepted.trans ?_⟩
          unfold writesOf
          rw [List.forall_mem_map]
          simp only [List.mem_filter, and_imp]
          exact ⟨fun hall => ⟨hne, hall⟩, fun hall => hall.2⟩
  | mask addr andMask orMask =>
      simp only [handleWrite, maskWrite, AcceptedByCommands]
      cases hlook : m.lookupWrite unit .holding addr with
      | none => simp [Answer.LeavesMap]
      | some p =>
          simp only [Option.some.injEq, exists_eq_left', Point.hasBit]
          cases hbit : p.address.bit with
          | none => simp [Answer.LeavesMap]
          | some bit => exact attempt_leavesMap (h.spec hlook).2.1 (some _)

end Answers

section Theorems

-- A supervised point is never written: a request for it is accepted for command points that it
-- finds, and can be read back when what it writes to the point is served already.
theorem written_through_iff (rt : Runtime) (cfg : Config) (wcfg : WriteConfig)
    (docs : List TagDoc) (updates : List (Processor.Value × Reading)) (p : Point)
    (req : WriteRequest) :
    WrittenThrough rt cfg wcfg (mapAfter rt cfg docs updates) p req ↔
      AcceptedByCommands wcfg (mapAfter rt cfg docs updates) p.unit req ∧
        Serves cfg (mapAfter rt cfg docs updates).units p req := by
  obtain ⟨hmap, haccepted⟩ :=
    handleWrite_leavesMap rt cfg wcfg p.unit (mapAfter_indexed rt cfg docs updates) req
  unfold WrittenThrough
  simp only [hmap, haccepted]

-- A supervised register of unit 1.
def supervisedMap : PointMap := mapAfter amd64 zeroPolicy [onTag 1 "hr:5"] []

-- A write of the register is refused, although such writes are allowed.
theorem supervised_write_refused :
    ¬SupervisedWritable amd64 zeroPolicy openWrites supervisedMap := by
  intro h
  have hpoint : supervisedMap.points.any (fun p => !p.isCommand && isWritableArea p.area &&
      decide (p.unit = 1 ∧ p.area = .holding ∧ p.offset = 5 ∧ p.span = 1 ∧ p.address.bit = none)) =
        true := by
    decide +kernel
  obtain ⟨p, hp, hshape⟩ := List.any_eq_true.mp hpoint
  simp only [Bool.and_eq_true, Bool.not_eq_true', decide_eq_true_eq] at hshape
  obtain ⟨⟨hsupervised, hwritable⟩, hunit, harea, hoff, hspan, hbit⟩ := hshape
  have hcovers : (WriteRequest.register 5 7#16).Covers p := by
    intro o k hnames
    unfold Point.names at hnames
    rw [hbit, hoff, hspan] at hnames
    obtain rfl : o = 5 := by omega
    simp [WriteRequest.writes, harea]
  have hrefused : (handleWrite amd64 zeroPolicy openWrites supervisedMap 1
      (.register 5 7#16)).exception = some .illegalDataAddress := by
    decide
  have haccepted := (h p hp hsupervised hwritable (.register 5 7#16) hcovers).1
  rw [hunit, hrefused] at haccepted
  cases haccepted

end Theorems

end JsonScada.Modbus
