import JsonScada.Library.Positional
import JsonScada.Modbus.Address
import JsonScada.Modbus.Codec.Strings

namespace JsonScada.Modbus.Commands

open JsonScada.Library
open JsonScada.Processor (Document)

section Requests

-- The requests that a command is made of.
inductive Request where
  | readRegister (unit addr : ℕ)
  | writeCoil (unit addr : ℕ) (on : Bool)
  | maskWriteRegister (unit addr : ℕ) (andMask orMask : BitVec 16)
  | writeRegister (unit addr : ℕ) (word : BitVec 16)
  | writeRegisters (unit addr : ℕ) (regs : List (BitVec 16))
  deriving DecidableEq

-- How one attempt of a request ends.
inductive Answer (α : Type) where
  | answered (a : α)
  | timedOut
  | failed (text : String)

-- A request with as many retries after a timeout.
def exec {α : Type} (req : Request) : ℕ → (ℕ → Answer α) → List Request × Except String α
  | retries, answers =>
      match answers 0, retries with
      | .answered a, _ => ([req], .ok a)
      | .failed text, _ => ([req], .error text)
      | .timedOut, 0 => ([req], .error "response timeout")
      | .timedOut, left + 1 =>
          let r := exec req left fun i => answers (i + 1)
          (req :: r.1, r.2)

-- What the devices answer, attempt after attempt, to the read of a register and to the write.
structure Link where
  read : ℕ → Answer (BitVec 16)
  write : ℕ → Answer Unit

structure Result where
  requests : List Request
  ok : Bool
  desc : String
  deriving DecidableEq

end Requests

section Execute

structure Config where
  defaults : AsduDefaults
  useModiconAddresses : Bool
  useMaskWrite : Bool
  maxRetries : ℕ

-- The supervised bindings by the text of their _id.
variable (rt : Runtime) (cfg : Config) (bindings : String → Option Binding)

def fieldStr (doc : Document) (k : String) : String := (doc.lookup k).elim "" (anyStr rt)

-- The scaling of the supervised binding, then of the command, then the default.
def lookupKconv (doc : Document) (field : String) (kconv : Binding → Double) (default : Double) :
    Double :=
  let own :=
    let f := jsNumberField (doc.lookup field)
    if f.isFinite then f else default
  match doc.lookup "pointKey" with
  | none | some .null => own
  | some pk =>
      match bindings (anyString rt pk) with
      | some b => kconv b
      | none => own

-- What the document of a command names.
structure Target where
  addr : Address
  asdu : Asdu
  unit : ℕ

def target (doc : Document) : Except String Target :=
  match parseObjectAddress (fieldStr rt doc "protocolSourceObjectAddress") cfg.useModiconAddresses with
  | .error e => .error e.message
  | .ok addr =>
      match parseAsdu (doc.str "protocolSourceASDU") addr.area cfg.defaults with
      | .error e => .error e.message
      | .ok asdu =>
          let ca := jsNumberField (doc.lookup "protocolSourceCommonAddress")
          .ok { addr := addr, asdu := asdu, unit := clampUnitDefault1 ca }

def rawValue (doc : Document) : Double :=
  match doc.lookup "value" with
  | none | some .null => .fin 0
  | some v => jsNumber v

-- The value in its registers. The engineering scaling is inverted.
def wire (t : Target) (doc : Document) : Except CodecError Bytes :=
  let kconv1 := lookupKconv rt bindings doc "kconv1" Binding.kconv1 (.fin 1)
  let kconv2 := lookupKconv rt bindings doc "kconv2" Binding.kconv2 (.fin 0)
  let v : Value :=
    if t.asdu.type = .string then .str (doc.str "valueString")
    else if nonZero kconv1 then
      .num (.ofDouble (Double.div rt.round (Double.sub rt.round (rawValue doc) kconv2) kconv1))
    else .num (.ofDouble (rawValue doc))
  encode t.asdu.type v t.asdu.perm t.asdu.str

inductive Dispatch where
  | write (req : Request)
  -- a bit of a register that is read first
  | readModifyWrite (bit : ℕ) (on : Bool)

-- How a command is carried out.
def dispatch (t : Target) (doc : Document) : Except String Dispatch :=
  let on := nonZero (rawValue doc)
  if isBitArea t.addr.area || t.asdu.type = .bool then
    let kconv1 := lookupKconv rt bindings doc "kconv1" Binding.kconv1 (.fin 1)
    let on := if Double.eq kconv1 (.fin (-1)) then !on else on
    .ok (.write (.writeCoil t.unit t.addr.offset on))
  else
    match t.addr.bit with
    | some bit =>
        -- a broadcast cannot be read back
        if cfg.useMaskWrite || t.unit = 0 then
          let andMask := ~~~(1#16 <<< bit)
          let orMask := if on then 1#16 <<< bit else 0#16
          .ok (.write (.maskWriteRegister t.unit t.addr.offset andMask orMask))
        else .ok (.readModifyWrite bit on)
    | none =>
        match wire rt bindings t doc with
        | .error e => .error e.message
        | .ok wire =>
            if t.asdu.regCount = 1 ∧ t.asdu.type ≠ .string then
              .ok (.write (.writeRegister t.unit t.addr.offset (wireWord wire 0)))
            else
              let regs := (List.range (wire.length / 2)).map (wireWord wire)
              .ok (.write (.writeRegisters t.unit t.addr.offset regs))

-- The devices execute a broadcast and do not answer.
def send (link : Link) (unit : ℕ) (req : Request) : Result :=
  if unit = 0 then
    match link.write 0 with
    | .failed text => { requests := [req], ok := false, desc := text }
    | _ => { requests := [req], ok := true, desc := "OK (broadcast, no confirmation)" }
  else
    match exec req cfg.maxRetries link.write with
    | (requests, .error text) => { requests := requests, ok := false, desc := text }
    | (requests, .ok _) => { requests := requests, ok := true, desc := "OK" }

def executeCommand (link : Link) (doc : Document) : Result :=
  match target rt cfg doc with
  | .error text => { requests := [], ok := false, desc := text }
  | .ok t =>
      match dispatch rt cfg bindings t doc with
      | .error text => { requests := [], ok := false, desc := text }
      | .ok (.write req) => send cfg link t.unit req
      | .ok (.readModifyWrite bit on) =>
          match exec (.readRegister t.unit t.addr.offset) cfg.maxRetries link.read with
          | (requests, .error text) => { requests := requests, ok := false, desc := text }
          | (requests, .ok word) =>
              let r := send cfg link t.unit
                (.writeRegister t.unit t.addr.offset (Bits.setBit word bit on))
              { r with requests := requests ++ r.requests }

end Execute

section Requests

-- The coils or registers that a request reads or writes.
structure Touched where
  unit : ℕ
  area : Area
  first : ℕ
  count : ℕ
  deriving DecidableEq

def Request.touched : Request → Touched
  | .readRegister unit addr => { unit := unit, area := .holding, first := addr, count := 1 }
  | .writeCoil unit addr _ => { unit := unit, area := .coil, first := addr, count := 1 }
  | .maskWriteRegister unit addr _ _ => { unit := unit, area := .holding, first := addr, count := 1 }
  | .writeRegister unit addr _ => { unit := unit, area := .holding, first := addr, count := 1 }
  | .writeRegisters unit addr regs =>
      { unit := unit, area := .holding, first := addr, count := regs.length }

-- What a request leaves in the first of its registers.
def Request.wordAfter (w : BitVec 16) : Request → BitVec 16
  | .maskWriteRegister _ _ andMask orMask => Bits.maskWrite w andMask orMask
  | .writeRegister _ _ word => word
  | .writeRegisters _ _ regs => regs.headD w
  | .readRegister .. | .writeCoil .. => w

variable {α : Type} (req : Request) (answers : ℕ → Answer α)

-- A request is only repeated.
theorem exec_requests (retries : ℕ) : ∀ r ∈ (exec req retries answers).1, r = req := by
  induction retries generalizing answers with
  | zero =>
      unfold exec
      cases answers 0 <;> simp
  | succ left ih =>
      unfold exec
      cases answers 0 with
      | timedOut =>
          intro r hr
          rcases List.mem_cons.mp hr with rfl | hr
          · rfl
          · exact ih _ r hr
      | _ => simp

theorem exec_ne_nil (retries : ℕ) : (exec req retries answers).1 ≠ [] := by
  unfold exec
  cases answers 0 <;> cases retries <;> simp

variable {req answers}

-- A result is that of some attempt.
theorem exec_answered {retries : ℕ} {a : α} (h : (exec req retries answers).2 = .ok a) :
    ∃ n, answers n = .answered a := by
  induction retries generalizing answers with
  | zero =>
      unfold exec at h
      cases h0 : answers 0 with
      | answered b =>
          rw [h0] at h
          obtain rfl := Except.ok.inj h
          exact ⟨0, h0⟩
      | _ =>
          rw [h0] at h
          cases h
  | succ left ih =>
      unfold exec at h
      cases h0 : answers 0 with
      | answered b =>
          rw [h0] at h
          obtain rfl := Except.ok.inj h
          exact ⟨0, h0⟩
      | timedOut =>
          rw [h0] at h
          obtain ⟨n, hn⟩ := ih h
          exact ⟨n + 1, hn⟩
      | failed text =>
          rw [h0] at h
          cases h

theorem send_requests (cfg : Config) (link : Link) (unit : ℕ) (req : Request) :
    (∀ r ∈ (send cfg link unit req).requests, r = req) ∧ (send cfg link unit req).requests ≠ [] := by
  unfold send
  by_cases hunit : unit = 0
  · rw [if_pos hunit]
    cases link.write 0 <;> simp
  · rw [if_neg hunit]
    have hall := exec_requests req link.write cfg.maxRetries
    have hne := exec_ne_nil req link.write cfg.maxRetries
    split <;> rename_i heq <;> rw [heq] at hall hne <;> exact ⟨hall, hne⟩

end Requests

section Target

variable (rt : Runtime) (cfg : Config) (bindings : String → Option Binding)

-- The unit, area and offsets of an address: as many registers as the type has.
def Target.touched (t : Target) : Touched where
  unit := t.unit
  area := t.addr.area
  first := t.addr.offset
  count := if isBitArea t.addr.area || t.addr.bit.isSome then 1 else t.asdu.regCount

-- Every request is for what the address says, and one for a bit keeps the others of the
-- register, which the device has as it answers.
structure ActsOn (t : Target) (link : Link) (r : Result) : Prop where
  touched : ∀ req ∈ r.requests, req.touched = t.touched
  otherBits : ∀ b, t.addr.bit = some b →
    ∀ w, (∀ n w', link.read n = .answered w' → w' = w) →
      ∀ req ∈ r.requests, ∀ k, k ≠ b → (req.wordAfter w).getLsbD k = w.getLsbD k

-- A command that cannot be carried out is refused.
def Refused (r : Result) : Prop := r.requests = [] ∧ r.ok = false

-- The command acts on what its address says, if a master can write it.
def ActsOnAddress (link : Link) (doc : Document) : Prop :=
  let r := executeCommand rt cfg bindings link doc
  match target rt cfg doc with
  | .error _ => Refused r
  | .ok t => if isWritableArea t.addr.area then ActsOn t link r else Refused r

-- A coil is named, or a register with a type of registers. An input register is only refused
-- for a value that cannot be encoded.
def Writable (doc : Document) : Prop :=
  match target rt cfg doc with
  | .error _ => True
  | .ok t =>
      match t.addr.area with
      | .coil => True
      | .discrete => False
      | .holding => t.asdu.type ≠ .bool
      | .input =>
          t.asdu.type ≠ .bool ∧ t.addr.bit = none ∧ ∃ e, wire rt bindings t doc = .error e

variable {rt cfg bindings} (link : Link) {doc : Document} {t : Target}

theorem executeCommand_error {text : String} (h : target rt cfg doc = .error text) :
    Refused (executeCommand rt cfg bindings link doc) := by
  unfold executeCommand
  rw [h]
  exact ⟨rfl, rfl⟩

theorem executeCommand_dispatch_error {text : String} (h : target rt cfg doc = .ok t)
    (hdispatch : dispatch rt cfg bindings t doc = .error text) :
    Refused (executeCommand rt cfg bindings link doc) := by
  unfold executeCommand
  rw [h]
  simp only
  rw [hdispatch]
  exact ⟨rfl, rfl⟩

-- One request is all that a write sends.
theorem executeCommand_write {req : Request} (h : target rt cfg doc = .ok t)
    (hdispatch : dispatch rt cfg bindings t doc = .ok (.write req)) :
    (∀ r ∈ (executeCommand rt cfg bindings link doc).requests, r = req) ∧
      (executeCommand rt cfg bindings link doc).requests ≠ [] := by
  unfold executeCommand
  rw [h]
  simp only
  rw [hdispatch]
  exact send_requests cfg link t.unit req

-- A read-modify-write reads the register, and writes it with the bit set to what was read.
theorem executeCommand_readModifyWrite {bit : ℕ} {on : Bool} (h : target rt cfg doc = .ok t)
    (hdispatch : dispatch rt cfg bindings t doc = .ok (.readModifyWrite bit on)) :
    (∀ r ∈ (executeCommand rt cfg bindings link doc).requests,
        r = .readRegister t.unit t.addr.offset ∨
          ∃ n word, link.read n = .answered word ∧
            r = .writeRegister t.unit t.addr.offset (Bits.setBit word bit on)) ∧
      (executeCommand rt cfg bindings link doc).requests ≠ [] := by
  unfold executeCommand
  rw [h]
  simp only
  rw [hdispatch]
  simp only
  have hreads := exec_requests (.readRegister t.unit t.addr.offset) link.read cfg.maxRetries
  have hne := exec_ne_nil (.readRegister t.unit t.addr.offset) link.read cfg.maxRetries
  split
  · rename_i requests text heq
    rw [heq] at hreads hne
    exact ⟨fun r hr => .inl (hreads r hr), hne⟩
  · rename_i requests word heq
    obtain ⟨n, hn⟩ := exec_answered (a := word) (by rw [heq])
    rw [heq] at hreads hne
    refine ⟨?_, by simp [hne]⟩
    intro r hr
    rcases List.mem_append.mp hr with hr | hr
    · exact .inl (hreads r hr)
    · exact .inr ⟨n, word, hn, (send_requests cfg link t.unit _).1 r hr⟩

end Target

section Dispatch

variable (rt : Runtime) (cfg : Config) (bindings : String → Option Binding) (doc : Document)
variable {t : Target}

theorem dispatch_coil (h : isBitArea t.addr.area = true ∨ t.asdu.type = .bool) :
    ∃ on, dispatch rt cfg bindings t doc = .ok (.write (.writeCoil t.unit t.addr.offset on)) := by
  have hcoil : (isBitArea t.addr.area || decide (t.asdu.type = .bool)) = true := by simpa using h
  unfold dispatch
  simp only
  rw [if_pos hcoil]
  exact ⟨_, rfl⟩

-- A bit is written with masks, or read, modified and written.
theorem dispatch_bit {b : ℕ} (hbit : t.addr.bit = some b) (htype : t.asdu.type ≠ .bool) :
    dispatch rt cfg bindings t doc =
        .ok (.write (.maskWriteRegister t.unit t.addr.offset (~~~(1#16 <<< b))
          (if nonZero (rawValue doc) then 1#16 <<< b else 0#16))) ∨
      dispatch rt cfg bindings t doc = .ok (.readModifyWrite b (nonZero (rawValue doc))) := by
  have harea := (t.addr.bit_le b hbit).1
  unfold dispatch
  simp only [harea, htype, decide_false, Bool.or_self, Bool.false_eq_true, if_false, hbit]
  by_cases hmask : (cfg.useMaskWrite || decide (t.unit = 0)) = true
  · rw [if_pos hmask]
    exact .inl rfl
  · rw [if_neg hmask]
    exact .inr rfl

theorem dispatch_value_error (harea : isBitArea t.addr.area = false) (hbit : t.addr.bit = none)
    (htype : t.asdu.type ≠ .bool) {e : CodecError} (hwire : wire rt bindings t doc = .error e) :
    dispatch rt cfg bindings t doc = .error e.message := by
  unfold dispatch
  simp only [harea, htype, decide_false, Bool.or_self, Bool.false_eq_true, if_false, hbit, hwire]

-- The registers that are written are those of the type.
theorem dispatch_registers (harea : isBitArea t.addr.area = false) (hbit : t.addr.bit = none)
    (htype : t.asdu.type ≠ .bool) {bytes : Bytes} (hwire : wire rt bindings t doc = .ok bytes) :
    ∃ req, dispatch rt cfg bindings t doc = .ok (.write req) ∧
      req.touched =
        { unit := t.unit, area := .holding, first := t.addr.offset, count := t.asdu.regCount } := by
  unfold dispatch
  simp only [harea, htype, decide_false, Bool.or_self, Bool.false_eq_true, if_false, hbit, hwire]
  by_cases hone : t.asdu.regCount = 1 ∧ t.asdu.type ≠ .string
  · rw [if_pos hone]
    exact ⟨_, rfl, by rw [Request.touched, hone.1]⟩
  · rw [if_neg hone]
    refine ⟨_, rfl, ?_⟩
    have hlength : bytes.length / 2 = t.asdu.regCount := encode_length hwire
    simp [Request.touched, hlength]

end Dispatch

section Commands

variable {rt : Runtime} {cfg : Config} {bindings : String → Option Binding} {link : Link}
variable {doc : Document} {t : Target}

theorem actsOn_of_refused {r : Result} (h : Refused r) : ActsOn t link r := by
  constructor
  · rw [h.1]
    intro req hreq
    cases hreq
  · rw [h.1]
    intro b hb w hw req hreq
    cases hreq

theorem not_refused {r : Result} (h : r.requests ≠ []) : ¬Refused r := fun hr => h hr.1

theorem actsOn_coil (htarget : target rt cfg doc = .ok t) (harea : t.addr.area = .coil) :
    ActsOn t link (executeCommand rt cfg bindings link doc) := by
  obtain ⟨on, hdispatch⟩ := dispatch_coil rt cfg bindings doc (t := t) (.inl (by rw [harea]; rfl))
  have hall := (executeCommand_write link htarget hdispatch).1
  constructor
  · intro req hreq
    rw [hall req hreq]
    simp [Request.touched, Target.touched, harea, isBitArea]
  · intro b hb
    have hcell := (t.addr.bit_le b hb).1
    rw [harea] at hcell
    cases hcell

theorem actsOn_bit (htarget : target rt cfg doc = .ok t) (harea : t.addr.area = .holding)
    (htype : t.asdu.type ≠ .bool) {b : ℕ} (hbit : t.addr.bit = some b) :
    ActsOn t link (executeCommand rt cfg bindings link doc) := by
  have hb16 : b < 16 := Nat.lt_succ_of_le (t.addr.bit_le b hbit).2
  have htouched : t.touched =
      { unit := t.unit, area := .holding, first := t.addr.offset, count := 1 } := by
    simp [Target.touched, harea, hbit]
  obtain hmask | hmodify := dispatch_bit rt cfg bindings doc hbit htype
  · have hall := (executeCommand_write link htarget hmask).1
    constructor
    · intro req hreq
      rw [hall req hreq, htouched]
      rfl
    · intro b' hb' w hw req hreq k hk
      obtain rfl : b = b' := Option.some.inj (hbit.symm.trans hb')
      rw [hall req hreq, Request.wordAfter, Bits.maskWrite_setBit, Bits.getLsbD_setBit w hb16,
        if_neg hk]
  · have hall := (executeCommand_readModifyWrite link htarget hmodify).1
    constructor
    · intro req hreq
      rw [htouched]
      rcases hall req hreq with rfl | ⟨n, word, -, rfl⟩ <;> rfl
    · intro b' hb' w hw req hreq k hk
      obtain rfl : b = b' := Option.some.inj (hbit.symm.trans hb')
      rcases hall req hreq with rfl | ⟨n, word, hread, rfl⟩
      · rfl
      · obtain rfl := hw n word hread
        rw [Request.wordAfter, Bits.getLsbD_setBit word hb16, if_neg hk]

theorem actsOn_registers (htarget : target rt cfg doc = .ok t) (harea : t.addr.area = .holding)
    (htype : t.asdu.type ≠ .bool) (hbit : t.addr.bit = none) :
    ActsOn t link (executeCommand rt cfg bindings link doc) := by
  have hcell : isBitArea t.addr.area = false := by rw [harea]; rfl
  cases hwire : wire rt bindings t doc with
  | error e =>
      apply actsOn_of_refused
      apply executeCommand_dispatch_error link htarget
      exact dispatch_value_error rt cfg bindings doc hcell hbit htype hwire
  | ok bytes =>
      obtain ⟨req, hdispatch, htouched⟩ := dispatch_registers rt cfg bindings doc hcell hbit htype hwire
      have hall := (executeCommand_write link htarget hdispatch).1
      constructor
      · intro r hr
        rw [hall r hr, htouched]
        simp [Target.touched, harea, hbit, isBitArea]
      · intro b hb
        rw [hbit] at hb
        cases hb

-- With the type bool, a coil is written wherever the address is.
theorem not_actsOn_bool (htarget : target rt cfg doc = .ok t) (harea : t.addr.area ≠ .coil)
    (htype : t.asdu.type = .bool) : ¬ActsOn t link (executeCommand rt cfg bindings link doc) := by
  obtain ⟨on, hdispatch⟩ := dispatch_coil rt cfg bindings doc (t := t) (.inr htype)
  obtain ⟨hall, hne⟩ := executeCommand_write link htarget hdispatch
  intro h
  obtain ⟨req, hreq⟩ := List.exists_mem_of_ne_nil _ hne
  have htouched := h.touched req hreq
  rw [hall req hreq] at htouched
  exact harea (congrArg Touched.area htouched).symm

-- An input register is written as if it were a holding one.
theorem refused_input_iff (htarget : target rt cfg doc = .ok t) (harea : t.addr.area = .input) :
    Refused (executeCommand rt cfg bindings link doc) ↔
      t.asdu.type ≠ .bool ∧ t.addr.bit = none ∧ ∃ e, wire rt bindings t doc = .error e := by
  have hcell : isBitArea t.addr.area = false := by rw [harea]; rfl
  by_cases htype : t.asdu.type = .bool
  · obtain ⟨on, hdispatch⟩ := dispatch_coil rt cfg bindings doc (t := t) (.inr htype)
    have hne := (executeCommand_write link htarget hdispatch).2
    exact ⟨fun h => absurd h (not_refused hne), fun h => absurd htype h.1⟩
  · cases hbit : t.addr.bit with
    | some b =>
        have hne : (executeCommand rt cfg bindings link doc).requests ≠ [] := by
          obtain hmask | hmodify := dispatch_bit rt cfg bindings doc hbit htype
          · exact (executeCommand_write link htarget hmask).2
          · exact (executeCommand_readModifyWrite link htarget hmodify).2
        exact ⟨fun h => absurd h (not_refused hne), fun h => by cases h.2.1⟩
    | none =>
        cases hwire : wire rt bindings t doc with
        | error e =>
            have hrefused : Refused (executeCommand rt cfg bindings link doc) := by
              apply executeCommand_dispatch_error link htarget
              exact dispatch_value_error rt cfg bindings doc hcell hbit htype hwire
            exact ⟨fun _ => ⟨htype, rfl, e, rfl⟩, fun _ => hrefused⟩
        | ok bytes =>
            obtain ⟨req, hdispatch, -⟩ := dispatch_registers rt cfg bindings doc hcell hbit htype hwire
            have hne := (executeCommand_write link htarget hdispatch).2
            exact ⟨fun h => absurd h (not_refused hne), fun h => by obtain ⟨-, -, e, he⟩ := h; cases he⟩

theorem actsOnAddress_iff (rt : Runtime) (cfg : Config) (bindings : String → Option Binding)
    (link : Link) (doc : Document) :
    ActsOnAddress rt cfg bindings link doc ↔ Writable rt cfg bindings doc := by
  unfold ActsOnAddress Writable
  cases htarget : target rt cfg doc with
  | error text =>
      simp only [iff_true]
      exact executeCommand_error link htarget
  | ok t =>
      simp only
      cases harea : t.addr.area with
      | coil =>
          rw [if_pos (by decide), iff_true]
          exact actsOn_coil htarget harea
      | discrete =>
          obtain ⟨on, hdispatch⟩ :=
            dispatch_coil rt cfg bindings doc (t := t) (.inl (by rw [harea]; rfl))
          have hne := (executeCommand_write link htarget hdispatch).2
          rw [if_neg (by decide), iff_false]
          exact not_refused hne
      | holding =>
          rw [if_pos (by decide)]
          constructor
          · intro h htype
            exact not_actsOn_bool htarget (by rw [harea]; decide) htype h
          · intro htype
            cases hbit : t.addr.bit with
            | some b => exact actsOn_bit htarget harea htype hbit
            | none => exact actsOn_registers htarget harea htype hbit
      | input =>
          rw [if_neg (by decide)]
          exact refused_input_iff htarget harea

end Commands

section Example

def exampleRuntime : Runtime := { round := .fin, sprint := fun _ => "" }

def exampleConfig : Config where
  defaults :=
    { byteOrder16 := "", byteOrder32 := "", byteOrder64 := "", byteOrderStr := ""
      stringEncoding := "ascii" }
  useModiconAddresses := false
  useMaskWrite := true
  maxRetries := 2

-- A device that answers at once.
def answering : Link := { read := fun _ => .answered 0, write := fun _ => .answered () }

-- A command of a discrete input, which a master only reads.
def discreteCommand : Document :=
  [("protocolSourceObjectAddress", .string "di:5"), ("protocolSourceASDU", .string "bool"),
    ("protocolSourceCommonAddress", .number (.fin 1)), ("value", .number (.fin 1))]

theorem discrete_input_written :
    ¬ActsOnAddress exampleRuntime exampleConfig (fun _ => none) answering discreteCommand := by
  have hrequests : (executeCommand exampleRuntime exampleConfig (fun _ => none) answering
      discreteCommand).requests = [.writeCoil 1 5 true] := by
    decide +kernel
  have hrefused : ¬Refused (executeCommand exampleRuntime exampleConfig (fun _ => none) answering
      discreteCommand) := by
    rintro ⟨hnil, -⟩
    rw [hrequests] at hnil
    cases hnil
  have harea : (target exampleRuntime exampleConfig discreteCommand).toOption.map
      (·.addr.area) = some .discrete := by
    decide
  intro h
  unfold ActsOnAddress at h
  cases htarget : target exampleRuntime exampleConfig discreteCommand with
  | error text =>
      rw [htarget] at harea
      cases harea
  | ok t =>
      rw [htarget] at h harea
      have hdiscrete : t.addr.area = .discrete := Option.some.inj harea
      simp only [hdiscrete] at h
      rw [if_neg (by decide)] at h
      exact hrefused h

end Example

end JsonScada.Modbus.Commands
