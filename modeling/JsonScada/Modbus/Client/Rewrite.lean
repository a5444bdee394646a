import JsonScada.Modbus.Client.Commands
import JsonScada.Modbus.Client.Registers
import JsonScada.Modbus.Codec.Restored
import JsonScada.Modbus.Codec.Texts

-- Commands that repeat the value that was read of a tag.
namespace JsonScada.Modbus.Commands

open JsonScada.Library
open JsonScada.Processor (Document)

section Requests

def Request.isWrite : Request → Bool
  | .maskWriteRegister .. | .writeRegister .. | .writeRegisters .. => true
  | .readRegister .. | .writeCoil .. => false

-- The registers from the address on, after a request.
def Request.after (w : List (BitVec 16)) : Request → List (BitVec 16)
  | .maskWriteRegister _ _ andMask orMask =>
      (w.take 1).map (fun word => Bits.maskWrite word andMask orMask) ++ w.drop 1
  | .writeRegister _ _ word => word :: w.drop 1
  | .writeRegisters _ _ regs => regs ++ w.drop regs.length
  | .readRegister .. | .writeCoil .. => w

-- The command writes, at this address only, and what is there already.
structure Rewrites (unit addr : ℕ) (w : List (BitVec 16)) (r : Result) : Prop where
  place : ∀ req ∈ r.requests, req.touched.unit = unit ∧ req.touched.first = addr
  written : ∃ req ∈ r.requests, req.isWrite = true
  same : ∀ req ∈ r.requests, req.after w = w

variable {rt : Runtime} {cfg : Config} {bindings : String → Option Binding} {link : Link}
  {doc : Document} {t : Target} {w : List (BitVec 16)}

theorem not_rewrites_refused {unit addr : ℕ} {r : Result} (h : Refused r) :
    ¬Rewrites unit addr w r := by
  intro hr
  obtain ⟨req, hreq, -⟩ := hr.written
  rw [h.1] at hreq
  cases hreq

-- One write, which may be repeated.
theorem rewrites_write_iff {req : Request} (htarget : target rt cfg doc = .ok t)
    (hdispatch : dispatch rt cfg bindings t doc = .ok (.write req))
    (hplace : req.touched.unit = t.unit ∧ req.touched.first = t.addr.offset)
    (hwrite : req.isWrite = true) :
    Rewrites t.unit t.addr.offset w (executeCommand rt cfg bindings link doc) ↔
      req.after w = w := by
  obtain ⟨hall, hne⟩ := executeCommand_write link htarget hdispatch
  obtain ⟨first, hfirst⟩ := List.exists_mem_of_ne_nil _ hne
  have hreq : req ∈ (executeCommand rt cfg bindings link doc).requests := by
    rw [← hall first hfirst]
    exact hfirst
  constructor
  · intro h
    exact h.same req hreq
  · intro h
    refine ⟨?_, ⟨req, hreq, hwrite⟩, ?_⟩
    · intro r hr
      rw [hall r hr]
      exact hplace
    · intro r hr
      rw [hall r hr]
      exact h

theorem exec_first {α : Type} (req : Request) (retries : ℕ) {answers : ℕ → Answer α} {a : α}
    (h : answers 0 = .answered a) : exec req retries answers = ([req], .ok a) := by
  cases retries <;> simp [exec, h]

-- A register that is read, modified and written.
theorem rewrites_modify_iff {bit : ℕ} {on : Bool} {word : BitVec 16}
    (htarget : target rt cfg doc = .ok t)
    (hdispatch : dispatch rt cfg bindings t doc = .ok (.readModifyWrite bit on))
    (hlink : link.read 0 = .answered word) :
    Rewrites t.unit t.addr.offset w (executeCommand rt cfg bindings link doc) ↔
      Bits.setBit word bit on :: w.drop 1 = w := by
  have hexec := exec_first (.readRegister t.unit t.addr.offset) cfg.maxRetries hlink
  have hrequests : (executeCommand rt cfg bindings link doc).requests =
      .readRegister t.unit t.addr.offset ::
        (send cfg link t.unit
          (.writeRegister t.unit t.addr.offset (Bits.setBit word bit on))).requests := by
    unfold executeCommand
    rw [htarget]
    simp only
    rw [hdispatch]
    simp only
    rw [hexec]
    rfl
  obtain ⟨hall, hne⟩ := send_requests cfg link t.unit
    (.writeRegister t.unit t.addr.offset (Bits.setBit word bit on))
  obtain ⟨first, hfirst⟩ := List.exists_mem_of_ne_nil _ hne
  obtain rfl := hall first hfirst
  constructor
  · intro h
    refine h.same (.writeRegister t.unit t.addr.offset (Bits.setBit word bit on)) ?_
    rw [hrequests]
    exact List.mem_cons_of_mem _ hfirst
  · intro h
    have hcases {r : Request} (hr : r ∈ (executeCommand rt cfg bindings link doc).requests) :
        r = .readRegister t.unit t.addr.offset ∨
          r = .writeRegister t.unit t.addr.offset (Bits.setBit word bit on) := by
      rw [hrequests] at hr
      exact (List.mem_cons.mp hr).imp_right (hall r)
    refine ⟨?_, ⟨_, by rw [hrequests]; exact List.mem_cons_of_mem _ hfirst, rfl⟩, ?_⟩
    · intro r hr
      rcases hcases hr with rfl | rfl <;> exact ⟨rfl, rfl⟩
    · intro r hr
      rcases hcases hr with rfl | rfl
      · rfl
      · exact h

-- The registers of a value.
theorem dispatch_words (harea : isBitArea t.addr.area = false) (hbit : t.addr.bit = none)
    (htype : t.asdu.type ≠ .bool) {bytes : Bytes} (hwire : wire rt bindings t doc = .ok bytes) :
    ∃ req, dispatch rt cfg bindings t doc = .ok (.write req) ∧
      (req.touched.unit = t.unit ∧ req.touched.first = t.addr.offset) ∧ req.isWrite = true ∧
      ∀ w, req.after w = words bytes ++ w.drop (words bytes).length := by
  have hlength : bytes.length / 2 = t.asdu.regCount := encode_length hwire
  unfold dispatch
  simp only [harea, htype, decide_false, Bool.or_self, Bool.false_eq_true, if_false, hbit, hwire]
  by_cases hone : t.asdu.regCount = 1 ∧ t.asdu.type ≠ .string
  · rw [if_pos hone]
    refine ⟨_, rfl, ⟨rfl, rfl⟩, rfl, fun w => ?_⟩
    have hwords : words bytes = [wireWord bytes 0] := by
      rw [words, hlength, hone.1]
      rfl
    rw [hwords]
    rfl
  · rw [if_neg hone]
    exact ⟨_, rfl, ⟨rfl, rfl⟩, rfl, fun w => rfl⟩

end Requests

section Repeats

-- The command is for the tag of a binding, with its scaling, and has the value that was published.
structure Repeats (rt : Runtime) (bindings : String → Option Binding) (raw : Planner.RawBinding)
    (b : Planner.Binding) (v : TagValue) (doc : Document) : Prop where
  address : fieldStr rt doc "protocolSourceObjectAddress" = raw.objectAddress
  asdu : doc.str "protocolSourceASDU" = raw.asdu
  unit : clampUnitDefault1 (jsNumberField (doc.lookup "protocolSourceCommonAddress")) = b.unit
  kconv1 : lookupKconv rt bindings doc "kconv1" Binding.kconv1 (.fin 1) = b.kconv1
  kconv2 : lookupKconv rt bindings doc "kconv2" Binding.kconv2 (.fin 0) = b.kconv2
  value : rawValue doc = v.atSource
  text : doc.str "valueString" = v.string

variable {rt : Runtime} {cfg : Config} {bindings : String → Option Binding}
  {raw : Planner.RawBinding} {b : Planner.Binding} {v : TagValue} {doc : Document}

-- The address and the type are parsed in the same way.
theorem target_of_repeats
    (hb : Planner.buildBinding raw cfg.defaults cfg.useModiconAddresses = .ok b)
    (h : Repeats rt bindings raw b v doc) :
    ∃ t, target rt cfg doc = .ok t ∧ t.unit = b.unit ∧ t.addr.area = b.area ∧
      t.addr.offset = b.offset ∧ t.addr.bit = b.bit ∧ t.asdu = b.asdu := by
  unfold Planner.buildBinding at hb
  split at hb
  · cases hb
  rename_i addr haddr
  split at hb
  · cases hb
  rename_i asdu hasdu
  have hunit := h.unit
  unfold target
  rw [h.address, haddr]
  simp only
  rw [h.asdu, hasdu]
  obtain rfl := Except.ok.inj hb
  exact ⟨_, rfl, hunit, rfl, rfl, rfl, rfl⟩

-- Unscaling a scaled number, with exact arithmetic.
theorem unscale_scale {k1 : ℚ} (hk1 : k1 ≠ 0) (k2 : ℚ) (x : Double) :
    Double.div .fin (Double.sub .fin (Double.add .fin (Double.mul .fin x (.fin k1)) (.fin k2))
      (.fin k2)) (.fin k1) = x := by
  cases x with
  | nan => rfl
  | inf s =>
      simp only [Double.mul, hk1, if_false, Double.add, Double.sub, Double.neg, Double.div]
      cases s <;> simp
  | fin q =>
      simp only [Double.mul, Double.add, Double.sub, Double.neg, Double.div, hk1, if_false]
      congr 1
      field_simp
      ring

end Repeats

section Tags

variable {b : Planner.Binding} (hbuilt : b.Built) (harea : isBitArea b.area = false)

include hbuilt

theorem typeBytes_of_listed (hbool : b.asdu.type ≠ .bool) (hstring : b.asdu.type ≠ .string) :
    typeBytes b.asdu.type = some b.asdu.type.orderWidth ∧ 2 ≤ b.asdu.type.orderWidth ∧
      b.asdu.type.orderWidth % 2 = 0 := by
  have hall : ∀ t ∈ typeAliases.map Prod.snd, t ≠ .bool → t ≠ .string →
      typeBytes t = some t.orderWidth ∧ 2 ≤ t.orderWidth ∧ t.orderWidth % 2 = 0 := by
    decide
  exact hall _ hbuilt.asdu.listed hbool hstring

include harea

-- The registers of a number are the bytes that its order permutes.
theorem orderWidth_eq (hbool : b.asdu.type ≠ .bool) (hstring : b.asdu.type ≠ .string) :
    b.asdu.type.orderWidth = 2 * b.span := by
  obtain ⟨-, hge, heven⟩ := typeBytes_of_listed hbuilt hbool hstring
  have hwidth : b.asdu.type.orderWidth = registerCount b.asdu.type none * 2 := by
    rw [ValueType.orderWidth, if_neg hstring]
  have hcount : Planner.regCount b.asdu = (registerCount b.asdu.type none : ℕ) := by
    unfold Planner.regCount Asdu.regCount
    split
    · rename_i htype _
      exact absurd htype hstring
    · congr 1
      cases htype : b.asdu.type <;> first | rfl | exact absurd htype hstring
  rw [hbuilt.span, Planner.spanOf, harea, hcount, hwidth]
  simp only [true_and]
  split <;> omega

theorem orderWidth_le (hbool : b.asdu.type ≠ .bool) : b.asdu.type.orderWidth ≤ 2 * b.span := by
  by_cases hstring : b.asdu.type = .string
  · have hpos := hbuilt.span_pos
    rw [ValueType.orderWidth, if_pos hstring]
    omega
  · exact (orderWidth_eq hbuilt harea hbool hstring).le

end Tags

section Read

variable {mem : ℕ → BitVec 16} {blk : Planner.Block} {s : Planner.Slice} (hplace : blk.Places s)
  (hbuilt : s.b.Built) (harea : isBitArea s.b.area = false)

theorem registers_length (b : Planner.Binding) (mem : ℕ → BitVec 16) :
    (b.registers mem).length = b.span := by simp [Planner.Binding.registers]

include hbuilt

theorem registers_cons (mem : ℕ → BitVec 16) :
    s.b.registers mem = mem s.b.offset :: (s.b.registers mem).drop 1 := by
  obtain ⟨n, hn⟩ := Nat.exists_eq_add_of_lt hbuilt.span_pos
  have hspan : s.b.span = n + 1 := by omega
  simp [Planner.Binding.registers, hspan, List.range_succ_eq_map]

include harea

-- Every byte that the order names is one of the tag's registers.
theorem order_lt (hbool : s.b.asdu.type ≠ .bool) {i : ℕ} (hi : i < s.b.asdu.perm.width) :
    s.b.asdu.perm.p.getD i 0 < 2 * s.b.span := by
  obtain ⟨spec, hspec⟩ := hbuilt.asdu.order hbool
  have hwidth := parsed_width hspec
  obtain ⟨p, hp, hperm⟩ := parseByteOrder_perm hspec
  rw [hwidth] at hi
  have hlen : p.length = s.b.asdu.type.orderWidth := by simpa using hp.length_eq
  have hmem := hp.mem_iff.mp (List.getElem_mem (l := p) (n := i) (by omega))
  have hlt := List.mem_range.mp hmem
  have hle := orderWidth_le hbuilt harea hbool
  rw [hperm]
  show p.getD i 0 < 2 * s.b.span
  rw [List.getD_eq_getElem _ _ (by omega)]
  omega

include hplace

theorem toCanonical_registers (hbool : s.b.asdu.type ≠ .bool) :
    s.b.asdu.perm.toCanonical (blk.bytes mem) (s.polled.relStart * 2) =
      s.b.asdu.perm.toCanonical (wireOf (s.b.registers mem)) 0 := by
  unfold Perm.toCanonical
  apply List.map_congr_left
  intro i hi
  have hlt := order_lt hbuilt harea hbool (List.mem_range.mp hi)
  rw [hplace.bytes_registers mem hlt, Nat.zero_add]

omit hbuilt harea

-- The bytes of the block from the tag's first register on.
theorem take_registers {n : ℕ} (hn : n ≤ 2 * s.b.span) :
    padTo n ((blk.bytes mem).drop (s.polled.relStart * 2)) =
      (wireOf (s.b.registers mem)).take n := by
  have hlen : (wireOf (s.b.registers mem)).length = 2 * s.b.span := by
    rw [wireOf_length, registers_length]
  apply bytes_ext
  · rw [padTo_length, List.length_take, hlen]
    omega
  · intro i hi
    rw [padTo_length] at hi
    have hbyte := hplace.bytes_registers mem (show i < 2 * s.b.span by omega)
    have htake : ((wireOf (s.b.registers mem)).take n).getD i 0 =
        (wireOf (s.b.registers mem)).getD i 0 := by
      simp [List.getD_eq_getElem?_getD, hi]
    rw [htake, ← hbyte]
    by_cases hlong : i < ((blk.bytes mem).drop (s.polled.relStart * 2)).length
    · simp only [padTo, List.getD_eq_getElem?_getD]
      rw [List.getElem?_append_left (by rw [List.length_take]; omega), List.getElem?_take_of_lt hi,
        List.getElem?_drop]
    · rw [List.length_drop] at hlong
      have hzero : (blk.bytes mem).getD (s.polled.relStart * 2 + i) 0 = 0 :=
        List.getD_eq_default _ _ (by omega)
      rw [hzero, padTo, List.getD_eq_getElem?_getD,
        List.getElem?_append_right (by rw [List.length_take, List.length_drop]; omega)]
      simp only [List.getElem?_replicate]
      split <;> rfl

end Read

section Restorable

-- The registers of a tag that come back, when the value that was read of them is commanded. Of a
-- bit, its place in the byte order has to have the same bit. A text, a BCD number and a float have
-- to be in the form that is written, and a 64-bit integer, which is read as it is, has to survive
-- the unscaling of the command.
def Restorable (b : Planner.Binding) (k1 k2 : ℚ) (w : List (BitVec 16)) : Prop :=
  match b.bit with
  | some k =>
      ((wireOf w).getD (b.asdu.perm.p.getD (bytePlace k) 0) 0).toNat.testBit (k % 8) =
        (w.headD 0).getLsbD k
  | none =>
      match b.asdu.str with
      | some str =>
          TextRestored str (str.regOrder.apply ((wireOf w).take ((str.bytes + 1) / 2 * 2)))
      | none => Restored b.asdu.type k1 k2 (b.asdu.perm.toCanonical (wireOf w) 0)

variable {rt : Runtime} {cfg : Config} {bindings : String → Option Binding} {link : Link}
  {raw : Planner.RawBinding} {v : TagValue} {doc : Document} {k1 k2 : ℚ} {mem : ℕ → BitVec 16}
  {blk : Planner.Block} {s : Planner.Slice}

-- A bit that is set to itself.
theorem setBit_self_iff (word : BitVec 16) {k : ℕ} (hk : k < 16) (on : Bool) :
    Bits.setBit word k on = word ↔ on = word.getLsbD k := by
  constructor
  · intro h
    have hbit := Bits.getLsbD_setBit word hk on k
    rw [h, if_pos rfl] at hbit
    exact hbit.symm
  · rintro rfl
    apply BitVec.eq_of_getLsbD_eq
    intro i _
    rw [Bits.getLsbD_setBit word hk]
    split
    · rename_i h
      rw [h]
    · rfl

theorem nonZero_bool (on : Bool) : nonZero (.fin (if on then 1 else 0)) = on := by
  cases on <;> decide

-- What is read of a bit tag is the bit at the place that the byte order names.
theorem published_bit {k : ℕ} {invalid : Bool} {json : Option (List ℕ)} (hplace : blk.Places s)
    (hbuilt : s.b.Built) (harea : isBitArea s.b.area = false) (hbit : s.b.bit = some k) (hk : k < 16)
    (hread : decodeTag rt.round s.polled (blk.bytes mem) = .ok (v, invalid, json)) :
    s.b.asdu.type ≠ .bool ∧
      v = .plain (.bool (((wireOf (s.b.registers mem)).getD
        (s.b.asdu.perm.p.getD (bytePlace k) 0) 0).toNat.testBit (k % 8))) := by
  have harea' : isBitArea s.polled.b.area = false := harea
  have hbit' : s.polled.b.bit = some k := hbit
  have hbool : s.b.asdu.type ≠ .bool := by
    intro hbool
    have hwidth : s.polled.b.asdu.perm.width < 2 := by
      show s.b.asdu.perm.width < 2
      rw [hbuilt.asdu.bool hbool]
      decide
    rw [Planner.decodeTag_narrow rt.round _ harea' hbit' hwidth] at hread
    cases hread
  have hwidth := Planner.width_ge hbuilt hbool
  have hlt := order_lt hbuilt harea hbool ((bytePlace_lt k).trans_le hwidth)
  rw [Planner.decodeTag_bit rt.round _ harea' hbit' hk hwidth] at hread
  rw [← hplace.bytes_registers mem hlt]
  exact ⟨hbool, (congrArg Prod.fst (Except.ok.inj hread)).symm⟩

-- The bit is written by a mask, or with the register that is read back.
theorem rewrites_setBit_iff {k : ℕ} {t : Target} (hbuilt : s.b.Built) (hk : k < 16)
    (htarget : target rt cfg doc = .ok t)
    (hbit : t.addr.bit = some k) (hbool : t.asdu.type ≠ .bool)
    (hlink : ∀ n, link.read n = .answered (mem s.b.offset)) :
    Rewrites t.unit t.addr.offset (s.b.registers mem) (executeCommand rt cfg bindings link doc) ↔
      nonZero (rawValue doc) = (mem s.b.offset).getLsbD k := by
  have hcons := registers_cons hbuilt mem
  have hset (on : Bool) :
      Bits.setBit (mem s.b.offset) k on :: (s.b.registers mem).drop 1 = s.b.registers mem ↔
        on = (mem s.b.offset).getLsbD k := by
    rw [← setBit_self_iff _ hk]
    conv_lhs => rhs; rw [hcons]
    rw [List.cons.injEq, and_iff_left rfl]
  rw [← hset]
  obtain hmask | hmodify := dispatch_bit rt cfg bindings doc hbit hbool
  · rw [rewrites_write_iff htarget hmask ⟨rfl, rfl⟩ rfl]
    have htake : (s.b.registers mem).take 1 = [mem s.b.offset] := by
      rw [hcons]
      rfl
    simp only [Request.after, htake, List.map_cons, List.map_nil, List.cons_append,
      List.nil_append, Bits.maskWrite_setBit]
  · exact rewrites_modify_iff htarget hmodify (hlink 0)

theorem rewrites_bit_iff {k : ℕ} {invalid : Bool} {json : Option (List ℕ)} (hplace : blk.Places s)
    (hb : Planner.buildBinding raw cfg.defaults cfg.useModiconAddresses = .ok s.b)
    (harea : isBitArea s.b.area = false) (hbit : s.b.bit = some k)
    (hread : decodeTag rt.round s.polled (blk.bytes mem) = .ok (v, invalid, json))
    (hdoc : Repeats rt bindings raw s.b v doc)
    (hlink : ∀ n, link.read n = .answered (mem s.b.offset)) :
    Rewrites s.b.unit s.b.offset (s.b.registers mem) (executeCommand rt cfg bindings link doc) ↔
      ((wireOf (s.b.registers mem)).getD (s.b.asdu.perm.p.getD (bytePlace k) 0) 0).toNat.testBit
          (k % 8) = ((s.b.registers mem).headD 0).getLsbD k := by
  have hbuilt := Planner.buildBinding_built hb
  have hk16 : k < 16 := by
    have hk := (hbuilt.bit k hbit).2
    omega
  obtain ⟨hbool, hv⟩ := published_bit hplace hbuilt harea hbit hk16 hread
  obtain ⟨t, htarget, hunit, -, hoffset, htbit, htasdu⟩ := target_of_repeats hb hdoc
  have hhead : (s.b.registers mem).headD 0 = mem s.b.offset := by
    rw [registers_cons hbuilt mem]
    rfl
  rw [← hunit, ← hoffset, hhead, rewrites_setBit_iff hbuilt hk16 htarget (htbit.trans hbit)
    (by rwa [htasdu]) hlink, hdoc.value, hv, atSource_bool, nonZero_bool]

-- The number that the command encodes.
def commanded (k1 k2 : ℚ) (v : TagValue) : Double :=
  Double.div .fin (Double.sub .fin v.atSource (.fin k2)) (.fin k1)

theorem wire_number {t : Target} (hexact : rt.round = .fin) (hk1 : s.b.kconv1 = .fin k1)
    (hk1ne : k1 ≠ 0) (hk2 : s.b.kconv2 = .fin k2) (hdoc : Repeats rt bindings raw s.b v doc)
    (hasdu : t.asdu = s.b.asdu) (hstring : s.b.asdu.type ≠ .string) :
    wire rt bindings t doc =
      encode s.b.asdu.type (.num (.ofDouble (commanded k1 k2 v))) s.b.asdu.perm s.b.asdu.str := by
  have hnonzero : nonZero (.fin k1) = true := by simp [nonZero, Double.eq, hk1ne]
  unfold wire
  simp only [hdoc.kconv1, hdoc.kconv2, hk1, hk2, hasdu, hstring, if_false, hnonzero, if_true,
    hdoc.value, hexact]
  rfl

theorem wire_text {t : Target} (hdoc : Repeats rt bindings raw s.b v doc)
    (hasdu : t.asdu = s.b.asdu) (hstring : s.b.asdu.type = .string) :
    wire rt bindings t doc = encode .string (.str v.string) s.b.asdu.perm s.b.asdu.str := by
  unfold wire
  simp only [hasdu, hstring, if_true, hdoc.text]

-- What is there already is written exactly when the bytes are those of the registers.
theorem rewrites_words_iff {t : Target} {bytes : Bytes} {w : List (BitVec 16)}
    (htarget : target rt cfg doc = .ok t) (harea : isBitArea t.addr.area = false)
    (hbit : t.addr.bit = none) (hbool : t.asdu.type ≠ .bool)
    (hwire : wire rt bindings t doc = .ok bytes) (heven : bytes.length % 2 = 0) :
    Rewrites t.unit t.addr.offset w (executeCommand rt cfg bindings link doc) ↔
      bytes = (wireOf w).take bytes.length := by
  obtain ⟨req, hdispatch, hplace, hwrite, hafter⟩ := dispatch_words harea hbit hbool hwire
  rw [rewrites_write_iff htarget hdispatch hplace hwrite, hafter]
  have hsplit : words bytes ++ w.drop (words bytes).length = w ↔
      words bytes = w.take (words bytes).length := by
    conv_lhs => rhs; rw [← List.take_append_drop (words bytes).length w]
    rw [List.append_cancel_right_eq]
  have hlen : 2 * (words bytes).length = bytes.length := by
    rw [words_length]
    omega
  rw [hsplit, words_eq_iff heven, wireOf_take, hlen]

theorem rewrites_number_iff {y : Binary64} {t : Target} (hbuilt : s.b.Built)
    (harea : isBitArea s.b.area = false) (hbool : s.b.asdu.type ≠ .bool)
    (hstring : s.b.asdu.type ≠ .string) (htarget : target rt cfg doc = .ok t)
    (htarea : t.addr.area = s.b.area) (htbit : t.addr.bit = none) (htasdu : t.asdu = s.b.asdu)
    (hwire : wire rt bindings t doc =
      encode s.b.asdu.type (.num y) s.b.asdu.perm s.b.asdu.str) :
    Rewrites t.unit t.addr.offset (s.b.registers mem) (executeCommand rt cfg bindings link doc) ↔
      encodeCanonical s.b.asdu.type (.num y) =
        .ok (s.b.asdu.perm.toCanonical (wireOf (s.b.registers mem)) 0) := by
  obtain ⟨hbytes, -, heven⟩ := typeBytes_of_listed hbuilt hbool hstring
  have hspan := orderWidth_eq hbuilt harea hbool hstring
  obtain ⟨spec, hspec⟩ := hbuilt.asdu.order hbool
  have hwidth := parsed_width hspec
  obtain ⟨p, hp, hperm⟩ := parseByteOrder_perm hspec
  have hlen : (wireOf (s.b.registers mem)).length = s.b.asdu.type.orderWidth := by
    rw [wireOf_length, registers_length, hspan]
  have harea' : isBitArea t.addr.area = false := by rw [htarea, harea]
  have hbool' : t.asdu.type ≠ .bool := by rwa [htasdu]
  rw [encode_eq (by rw [hwidth]; exact hbytes)] at hwire
  cases henc : encodeCanonical s.b.asdu.type (.num y) with
  | error e =>
      rw [henc] at hwire
      constructor
      · intro h
        exact absurd h (not_rewrites_refused (executeCommand_dispatch_error link htarget
          (dispatch_value_error rt cfg bindings doc harea' htbit hbool' hwire)))
      · intro h
        cases h
  | ok c =>
      rw [henc] at hwire
      have hwire' : wire rt bindings t doc = .ok (s.b.asdu.perm.fromCanonical c) := hwire
      have hclen : c.length = s.b.asdu.type.orderWidth :=
        Option.some.inj ((canonical_of_encodeCanonical henc).1.symm.trans hbytes)
      have hfrom : (s.b.asdu.perm.fromCanonical c).length = s.b.asdu.type.orderWidth := by
        rw [fromCanonical_length, hwidth]
      rw [rewrites_words_iff htarget harea' htbit hbool' hwire' (by rw [hfrom]; exact heven), hfrom,
        ← hlen, List.take_length, Except.ok.injEq, hperm]
      constructor
      · intro h
        rw [← h, toCanonical_fromCanonical hp c hclen]
      · intro h
        rw [h, fromCanonical_toCanonical hp _ hlen]

theorem rewrites_text_iff {t : Target} {str : StringOptions} (hplace : blk.Places s)
    (harea : isBitArea s.b.area = false) (hstring : s.b.asdu.type = .string)
    (hstr : s.b.asdu.str = some str) (htarget : target rt cfg doc = .ok t)
    (htarea : t.addr.area = s.b.area) (htbit : t.addr.bit = none) (htasdu : t.asdu = s.b.asdu)
    (hwire : wire rt bindings t doc =
      encode .string (.str (textOf str (textBytes str
        (str.regOrder.apply (padTo ((str.bytes + 1) / 2 * 2)
          ((blk.bytes mem).drop (s.polled.relStart * 2))))))) s.b.asdu.perm s.b.asdu.str) :
    Rewrites t.unit t.addr.offset (s.b.registers mem) (executeCommand rt cfg bindings link doc) ↔
      TextRestored str
        (str.regOrder.apply ((wireOf (s.b.registers mem)).take ((str.bytes + 1) / 2 * 2))) := by
  have hwlen : (wireOf (s.b.registers mem)).length = 2 * s.b.span := by
    rw [wireOf_length, registers_length]
  have hbool : t.asdu.type ≠ .bool := by
    rw [htasdu, hstring]
    decide
  have hwire' : wire rt bindings t doc = .ok (str.regOrder.apply (padTo ((str.bytes + 1) / 2 * 2)
      (recoded str (textBytes str (str.regOrder.apply (padTo ((str.bytes + 1) / 2 * 2)
        ((blk.bytes mem).drop (s.polled.relStart * 2)))))))) := by
    rw [hwire, hstr]
    rfl
  have hlen := padTo_length ((str.bytes + 1) / 2 * 2)
  rw [rewrites_words_iff htarget (by rw [htarea, harea]) htbit hbool hwire'
    (by rw [apply_length, hlen]; omega), apply_length, hlen]
  have happly (a b : Bytes) : str.regOrder.apply a = b ↔ a = str.regOrder.apply b := by
    constructor
    · rintro rfl
      exact (apply_apply _ _).symm
    · rintro rfl
      exact apply_apply _ _
  rw [happly]
  by_cases hfits : (str.bytes + 1) / 2 * 2 ≤ 2 * s.b.span
  · rw [take_registers hplace hfits, text_restored_iff]
  · -- a length that overflows is read as one register
    constructor
    · intro h
      have hlength := congrArg List.length h
      rw [hlen, apply_length, List.length_take, hwlen] at hlength
      omega
    · intro h
      have hlength := congrArg List.length h.padded
      rw [hlen, apply_length, List.length_take, hwlen] at hlength
      omega

-- A 64-bit integer is published as it is. It is exact if its number is the one of the integer.
def Exactly : TagValue → Prop
  | .plain (.int64 i) => (TagValue.plain (.int64 i)).atSource = .fin i.toInt
  | .plain (.uint64 u) => (TagValue.plain (.uint64 u)).atSource = .fin u.toNat
  | _ => True

-- What is published for a decoded value.
def publishedAs (round : ℚ → Double) (t : ValueType) (k1 k2 : Double) : Value → TagValue
  | .num f =>
      if t = .string then .plain (.num f)
      else .scaled (Double.add round (Double.mul round f.toDouble k1) k2)
  | v => .plain v

theorem published_of_read {round : ℚ → Double} {bytes : Bytes} {invalid : Bool}
    {json : Option (List ℕ)} (harea : isBitArea s.b.area = false) (hbit : s.b.bit = none)
    (hread : decodeTag round s.polled bytes = .ok (v, invalid, json)) :
    ∃ dec, decode s.b.asdu.type bytes s.polled.relStart s.b.asdu.perm s.b.asdu.str = .ok dec ∧
      v = publishedAs round s.b.asdu.type s.b.kconv1 s.b.kconv2 dec.value := by
  have harea' : isBitArea s.polled.b.area = false := harea
  have hbit' : s.polled.b.bit = none := hbit
  simp only [decodeTag, harea', Bool.false_eq_true, if_false, hbit'] at hread
  cases hdec : decode s.b.asdu.type bytes s.polled.relStart s.b.asdu.perm s.b.asdu.str with
  | error e =>
      have hdec' : decode s.polled.b.asdu.type bytes s.polled.relStart s.polled.b.asdu.perm
          s.polled.b.asdu.str = .error e := hdec
      rw [hdec'] at hread
      cases hread
  | ok dec =>
      have hdec' : decode s.polled.b.asdu.type bytes s.polled.relStart s.polled.b.asdu.perm
          s.polled.b.asdu.str = .ok dec := hdec
      rw [hdec'] at hread
      refine ⟨dec, rfl, ?_⟩
      have hv := (congrArg Prod.fst (Except.ok.inj hread)).symm
      obtain ⟨value, invalid', json'⟩ := dec
      cases value <;> exact hv

-- Commanding the number that was published for canonical bytes.
theorem restored_iff {t : ValueType} {c : Bytes} {dec : DecodeResult} (hk1 : k1 ≠ 0)
    (hstring : t ≠ .string) (hlen : typeBytes t = some c.length)
    (hdec : decodeCanonical t c = .ok dec)
    (hexactly : Exactly (publishedAs .fin t (.fin k1) (.fin k2) dec.value)) :
    encodeCanonical t (.num (.ofDouble
        (commanded k1 k2 (publishedAs .fin t (.fin k1) (.fin k2) dec.value)))) = .ok c ↔
      Restored t k1 k2 c := by
  obtain ⟨htype, i, hi⟩ | ⟨htype, u, hu⟩ | ⟨-, -, f, hf⟩ := decodeCanonical_kind hdec
  · have h8 : c.length = 8 := by
      rw [htype] at hlen
      exact (Option.some.inj hlen).symm
    rw [hi] at hexactly ⊢
    have hvalue : commanded k1 k2 (.plain (.int64 i)) = .fin ((int64Of t c - k2) / k1) := by
      rw [commanded, show (TagValue.plain (.int64 i)).atSource = .fin i.toInt from hexactly,
        (int64_read h8 hdec).1 i htype hi]
      simp only [Double.sub, Double.neg, Double.add, Double.div, hk1, if_false, sub_eq_add_neg]
    have hplain : publishedAs .fin t (.fin k1) (.fin k2) (.int64 i) = .plain (.int64 i) := rfl
    rw [hplain, hvalue]
    exact restored_int64_iff k1 k2 (.inl htype) h8
  · have h8 : c.length = 8 := by
      rw [htype] at hlen
      exact (Option.some.inj hlen).symm
    rw [hu] at hexactly ⊢
    have hvalue : commanded k1 k2 (.plain (.uint64 u)) = .fin ((int64Of t c - k2) / k1) := by
      have hnat : ((u.toNat : ℚ)) = ((int64Of t c : ℤ) : ℚ) := by
        rw [← (int64_read h8 hdec).2 u htype hu]
        simp
      rw [commanded, show (TagValue.plain (.uint64 u)).atSource = .fin u.toNat from hexactly, hnat]
      simp only [Double.sub, Double.neg, Double.add, Double.div, hk1, if_false, sub_eq_add_neg]
    have hplain : publishedAs .fin t (.fin k1) (.fin k2) (.uint64 u) = .plain (.uint64 u) := rfl
    rw [hplain, hvalue]
    exact restored_int64_iff k1 k2 (.inr htype) h8
  · have hunscale : commanded k1 k2 (publishedAs .fin t (.fin k1) (.fin k2) (.num f)) =
        f.toDouble := by
      rw [publishedAs, if_neg hstring]
      exact unscale_scale hk1 k2 f.toDouble
    rw [hf, hunscale]
    exact restored_num_iff k1 k2 hlen hdec hf

end Restorable

-- With exact arithmetic, a command that repeats the published value of a tag, for the same address
-- and with the same scaling, writes the registers that were read exactly when they are restorable.
theorem command_rewrites_iff (rt : Runtime) (cfg : Config) (bindings : String → Option Binding)
    (link : Link) (tags : List Planner.Binding) (l : Planner.Limits) (blk : Planner.Block)
    (s : Planner.Slice) (raw : Planner.RawBinding) (mem : ℕ → BitVec 16) (v : TagValue)
    (invalid : Bool) (json : Option (List ℕ)) (doc : Document) (k1 k2 : ℚ)
    (hexact : rt.round = .fin) (hblk : blk ∈ Planner.planReads tags l) (hs : s ∈ blk.slices)
    (hb : Planner.buildBinding raw cfg.defaults cfg.useModiconAddresses = .ok s.b)
    (harea : isBitArea s.b.area = false) (hk1 : s.b.kconv1 = .fin k1) (hk1ne : k1 ≠ 0)
    (hk2 : s.b.kconv2 = .fin k2)
    (hread : decodeTag rt.round s.polled (blk.bytes mem) = .ok (v, invalid, json))
    (hexactly : Exactly v) (hdoc : Repeats rt bindings raw s.b v doc)
    (hlink : ∀ n, link.read n = .answered (mem s.b.offset)) :
    Rewrites s.b.unit s.b.offset (s.b.registers mem) (executeCommand rt cfg bindings link doc) ↔
      Restorable s.b k1 k2 (s.b.registers mem) := by
  have hplace := Planner.planReads_placed hblk s hs
  have hbuilt := Planner.buildBinding_built hb
  unfold Restorable
  cases hbit : s.b.bit with
  | some k => exact rewrites_bit_iff hplace hb harea hbit hread hdoc hlink
  | none =>
      obtain ⟨t, htarget, hunit, htarea, hoffset, htbit, htasdu⟩ := target_of_repeats hb hdoc
      rw [← hunit, ← hoffset]
      obtain ⟨dec, hdec, hv⟩ := published_of_read harea hbit hread
      cases hstr : s.b.asdu.str with
      | some str =>
          have hstring : s.b.asdu.type = .string := by
            have hsome := hbuilt.asdu.str
            rw [hstr] at hsome
            exact of_decide_eq_true hsome.symm
          have hwire := wire_text hdoc htasdu hstring
          simp only [hstring, decode, if_true, hstr] at hdec
          obtain rfl := Except.ok.inj hdec
          rw [hv] at hwire
          exact rewrites_text_iff hplace harea hstring hstr htarget htarea (htbit.trans hbit) htasdu
            hwire
      | none =>
          have hstring : s.b.asdu.type ≠ .string := by
            intro hstring
            have hsome := hbuilt.asdu.str
            rw [hstr, hstring] at hsome
            cases hsome
          have hbool : s.b.asdu.type ≠ .bool := by
            intro hbool
            simp only [hbool, decode, reduceCtorEq, if_false, decodeCanonical, ite_self] at hdec
          have hwire := wire_number hexact hk1 hk1ne hk2 hdoc htasdu hstring
          rw [rewrites_number_iff hbuilt harea hbool hstring htarget htarea (htbit.trans hbit) htasdu
            hwire]
          simp only [decode, if_neg hstring, toCanonical_registers hplace hbuilt harea hbool] at hdec
          rw [hexact, hk1, hk2] at hv
          subst hv
          refine restored_iff hk1ne hstring ?_ hdec hexactly
          obtain ⟨hbytes, -, -⟩ := typeBytes_of_listed hbuilt hbool hstring
          obtain ⟨spec, hspec⟩ := hbuilt.asdu.order hbool
          rw [hbytes, toCanonical_length, parsed_width hspec]

section Tenths

deriving instance DecidableEq for TagValue

-- A tag that is read in tenths, on a connection with exact arithmetic.
def tenths (asdu : String) : Planner.RawBinding where
  __ := Planner.rawAt "hr:0" asdu
  kconv1 := some (.number (.fin (1 / 10)))

def tenthsConfig : Config where
  defaults := Planner.orders
  useModiconAddresses := false
  useMaskWrite := false
  maxRetries := 0

-- The command that gives the published value back.
def tenthsCommand (asdu : String) (v : TagValue) : Document :=
  [("protocolSourceObjectAddress", .string "hr:0"), ("protocolSourceASDU", .string asdu),
    ("protocolSourceCommonAddress", .number (.fin 1)), ("kconv1", .number (.fin (1 / 10))),
    ("value", .number v.atSource), ("valueString", .string v.string)]

def showing (word : BitVec 16) : Link := { answering with read := fun _ => .answered word }

-- What is read of a tag in tenths.
structure ReadAs (asdu : String) (mem : ℕ → BitVec 16) (v : TagValue) (blk : Planner.Block)
    (s : Planner.Slice) : Prop where
  area : isBitArea s.b.area = false
  unit : s.b.unit = 1
  offset : s.b.offset = 0
  kconv1 : s.b.kconv1 = .fin (1 / 10)
  kconv2 : s.b.kconv2 = .fin 0
  read : (decodeTag .fin s.polled (blk.bytes mem)).toOption = some (v, false, none)

instance (asdu : String) (mem : ℕ → BitVec 16) (v : TagValue) (blk : Planner.Block)
    (s : Planner.Slice) : Decidable (ReadAs asdu mem v blk s) :=
  decidable_of_iff
    (isBitArea s.b.area = false ∧ s.b.unit = 1 ∧ s.b.offset = 0 ∧ s.b.kconv1 = .fin (1 / 10) ∧
      s.b.kconv2 = .fin 0 ∧
      (decodeTag .fin s.polled (blk.bytes mem)).toOption = some (v, false, none))
    ⟨fun ⟨h1, h2, h3, h4, h5, h6⟩ => ⟨h1, h2, h3, h4, h5, h6⟩,
      fun h => ⟨h.area, h.unit, h.offset, h.kconv1, h.kconv2, h.read⟩⟩

theorem ReadAs.decoded {asdu : String} {mem : ℕ → BitVec 16} {v : TagValue} {blk : Planner.Block}
    {s : Planner.Slice} (h : ReadAs asdu mem v blk s) :
    decodeTag .fin s.polled (blk.bytes mem) = .ok (v, false, none) := by
  have hread := h.read
  cases hdec : decodeTag .fin s.polled (blk.bytes mem) with
  | error e =>
      rw [hdec] at hread
      cases hread
  | ok r =>
      rw [hdec] at hread
      exact congrArg Except.ok (Option.some.inj hread)

theorem ReadAs.repeats {asdu : String} {mem : ℕ → BitVec 16} {v : TagValue} {blk : Planner.Block}
    {s : Planner.Slice} (h : ReadAs asdu mem v blk s) :
    Repeats exampleRuntime (fun _ => none) (tenths asdu) s.b v (tenthsCommand asdu v) where
  address := rfl
  asdu := rfl
  unit := by
    rw [h.unit]
    show clampUnitDefault1 (.fin 1) = 1
    decide +kernel
  kconv1 := by
    rw [h.kconv1]
    rfl
  kconv2 := by
    rw [h.kconv2]
    rfl
  value := rfl
  text := rfl

-- The plan of such a tag is one block with it.
theorem exists_onlyTag {raw : Planner.RawBinding} {P : Planner.Block → Planner.Slice → Prop}
    (hall : ∀ blk ∈ Planner.onlyTag raw, blk.slices ≠ [] ∧ ∀ s ∈ blk.slices, P blk s)
    (hone : Planner.onlyTag raw ≠ []) :
    ∃ blk ∈ Planner.onlyTag raw, ∃ s ∈ blk.slices, P blk s := by
  obtain ⟨blk, hblk⟩ := List.exists_mem_of_ne_nil _ hone
  obtain ⟨hslices, htag⟩ := hall blk hblk
  obtain ⟨s, hs⟩ := List.exists_mem_of_ne_nil _ hslices
  exact ⟨blk, hblk, s, hs, htag s hs⟩

-- 500 in a register, published as 50.
theorem command_rewrites_word :
    ∃ blk ∈ Planner.onlyTag (tenths "uint16"), ∃ s ∈ blk.slices,
      ReadAs "uint16" (fun _ => 500) (.scaled (.fin 50)) blk s ∧
      Rewrites s.b.unit s.b.offset (s.b.registers fun _ => 500)
        (executeCommand exampleRuntime tenthsConfig (fun _ => none) (showing 500)
          (tenthsCommand "uint16" (.scaled (.fin 50)))) := by
  have hall : ∀ blk ∈ Planner.onlyTag (tenths "uint16"), blk.slices ≠ [] ∧ ∀ s ∈ blk.slices,
      ReadAs "uint16" (fun _ => 500) (.scaled (.fin 50)) blk s ∧ s.b.bit = none ∧
        s.b.asdu.str = none ∧ s.b.asdu.type = .uint16 := by
    decide +kernel
  obtain ⟨blk, hblk, s, hs, hread, hbit, hstr, htype⟩ := exists_onlyTag hall (by decide)
  refine ⟨blk, hblk, s, hs, hread, ?_⟩
  refine (command_rewrites_iff exampleRuntime tenthsConfig (fun _ => none) (showing 500) _ _ blk s
    (tenths "uint16") (fun _ => 500) (.scaled (.fin 50)) false none _ (1 / 10) 0 rfl hblk hs
    (Planner.built_of_onlyTag hblk hs) hread.area hread.kconv1 (by norm_num) hread.kconv2
    hread.decoded trivial hread.repeats fun n => rfl).mpr ?_
  unfold Restorable
  rw [hbit, hstr, htype]
  trivial

-- A command that repeats a published value writes what was read.
def CommandsRewrite : Prop :=
  ∀ (rt : Runtime) (cfg : Config) (bindings : String → Option Binding) (link : Link)
    (tags : List Planner.Binding) (l : Planner.Limits) (blk : Planner.Block) (s : Planner.Slice)
    (raw : Planner.RawBinding) (mem : ℕ → BitVec 16) (v : TagValue) (invalid : Bool)
    (json : Option (List ℕ)) (doc : Document) (k1 k2 : ℚ), rt.round = .fin →
    blk ∈ Planner.planReads tags l → s ∈ blk.slices →
    Planner.buildBinding raw cfg.defaults cfg.useModiconAddresses = .ok s.b →
    isBitArea s.b.area = false → s.b.kconv1 = .fin k1 → k1 ≠ 0 → s.b.kconv2 = .fin k2 →
    decodeTag rt.round s.polled (blk.bytes mem) = .ok (v, invalid, json) → Exactly v →
    Repeats rt bindings raw s.b v doc → (∀ n, link.read n = .answered (mem s.b.offset)) →
    Rewrites s.b.unit s.b.offset (s.b.registers mem) (executeCommand rt cfg bindings link doc)

-- The four registers of 500 as an int64, published as 500 and written as 5000.
def fiveHundred : ℕ → BitVec 16 := fun a => if a = 3 then 500 else 0

theorem int64_not_rewritten : ¬CommandsRewrite := by
  intro h
  have hall : ∀ blk ∈ Planner.onlyTag (tenths "int64"), blk.slices ≠ [] ∧ ∀ s ∈ blk.slices,
      ReadAs "int64" fiveHundred (.plain (.int64 500)) blk s ∧
        s.b.registers fiveHundred = [0, 0, 0, 500] := by
    decide +kernel
  obtain ⟨blk, hblk, s, hs, hread, hregisters⟩ := exists_onlyTag hall (by decide)
  have hexactly : (TagValue.plain (.int64 500)).atSource = .fin (500 : Int64).toInt := by
    decide +kernel
  have hrewrites := h exampleRuntime tenthsConfig (fun _ => none) (showing 0) _ _ blk s
    (tenths "int64") fiveHundred (.plain (.int64 500)) false none
    (tenthsCommand "int64" (.plain (.int64 500))) (1 / 10) 0 rfl hblk hs
    (Planner.built_of_onlyTag hblk hs) hread.area hread.kconv1 (by norm_num) hread.kconv2
    hread.decoded hexactly hread.repeats fun n => by
      rw [hread.offset]
      rfl
  have hwritten : (executeCommand exampleRuntime tenthsConfig (fun _ => none) (showing 0)
      (tenthsCommand "int64" (.plain (.int64 500)))).requests =
        [.writeRegisters 1 0 [0, 0, 0, 5000]] := by
    decide +kernel
  have hsame := hrewrites.same (.writeRegisters 1 0 [0, 0, 0, 5000])
    (hwritten ▸ List.mem_singleton_self _)
  rw [hregisters] at hsame
  exact absurd hsame (by decide)

end Tenths

end JsonScada.Modbus.Commands
