import JsonScada.Library.Positional
import JsonScada.Library.LastWrite
import JsonScada.Modbus.Codec.Strings
import JsonScada.Modbus.PointMap

namespace JsonScada.Modbus

open JsonScada.Library

section Store

variable (regs : Cells (BitVec 16))

theorem store_apply (off n : Nat) (word : Nat → BitVec 16) (o : Nat) :
    store regs off n word o =
      if off ≤ o ∧ o < off + n then some (word (o - off)) else regs o := by
  induction n with
  | zero =>
      have : ¬ (off ≤ o ∧ o < off + 0) := by omega
      rw [if_neg this]
      rfl
  | succ n ih =>
      unfold store at ih ⊢
      rw [List.range_succ, List.foldl_append, List.foldl_cons, List.foldl_nil]
      by_cases ho : o = off + n
      · have hin : off ≤ o ∧ o < off + (n + 1) := by omega
        have hi : o - off = n := by omega
        rw [if_pos hin, hi, ho, Function.update_self]
      · rw [Function.update_of_ne ho, ih]
        have : (off ≤ o ∧ o < off + n) ↔ (off ≤ o ∧ o < off + (n + 1)) := by omega
        simp only [this]

-- Bit `k` of what is served in a register. An unmapped register has no bit set.
def registerBit (c : Option (BitVec 16)) (k : Nat) : Bool := (c.getD 0).getLsbD k

theorem registerBit_setBit {off bit : Nat} (on : Bool) (hbit : bit ≤ 15) (k : Nat) :
    registerBit (setBit regs off bit on off) k =
      if k = bit then on else registerBit (regs off) k := by
  have hcell : setBit regs off bit on off = some (Bits.setBit ((regs off).getD 0) bit on) := by
    simp only [setBit, Function.update_self, Bits.setBit]
  rw [hcell]
  exact Bits.getLsbD_setBit _ (Nat.lt_succ_of_le hbit) on k

end Store

section Banks

variable {a a' : Area}

theorem regs_setRegs (b : Banks) (regs : Cells (BitVec 16)) (ha : isBitArea a = false)
    (ha' : isBitArea a' = false) :
    (b.setRegs a regs).regs a' = if a = a' then regs else b.regs a' := by
  cases a <;> cases a' <;> first | rfl | exact absurd ha (by decide) | exact absurd ha' (by decide)

theorem regs_setBits (b : Banks) (bits : Cells Bool) : (b.setBits a bits).regs a' = b.regs a' := by
  cases a <;> cases a' <;> rfl

theorem bits_setBits (b : Banks) (bits : Cells Bool) (ha : isBitArea a = true)
    (ha' : isBitArea a' = true) :
    (b.setBits a bits).bits a' = if a = a' then bits else b.bits a' := by
  cases a <;> cases a' <;> first | rfl | exact absurd ha (by decide) | exact absurd ha' (by decide)

theorem bits_setRegs (b : Banks) (regs : Cells (BitVec 16)) :
    (b.setRegs a regs).bits a' = b.bits a' := by
  cases a <;> cases a' <;> rfl

end Banks

-- A reading of a point on its way into the banks.
structure Event where
  point : Point
  reading : Reading

namespace Event

variable (rt : Runtime) (cfg : Config) (e : Event)

def key : String := anyString rt e.point.id

def covers (o : Nat) : Bool := e.point.offset ≤ o && o < e.point.offset + e.point.span

-- An invalid value is served as zero.
def zeroed : Bool := e.reading.invalid && cfg.invalidValuePolicy = "zero"

def encoded : Except CodecError Bytes :=
  encode e.point.asdu.type (servedValue rt e.point e.reading) e.point.asdu.perm e.point.asdu.str

-- The word for register `o`, of a point that has no bit and is not zeroed.
def word (o : Nat) : Option (BitVec 16) :=
  match encoded rt e with
  | .error _ => none
  | .ok wire =>
      if e.covers o && o - e.point.offset < wire.length / 2 then
        some (wireWord wire (o - e.point.offset))
      else none

def here (unit : Nat) (a : Area) : Bool := e.point.unit = unit && e.point.area = a

-- What the event does to a bit of a register.
def writes (unit : Nat) (a : Area) (o k : Nat) : Option Bool :=
  if !e.here unit a then none
  else if e.zeroed cfg then (if e.covers o then some false else none)
  else
    match e.point.address.bit with
    | some bit => if o = e.point.offset ∧ k = bit then some (nonZero e.reading.value) else none
    | none => (e.word rt o).map fun w => w.getLsbD k

-- Whether a register is mapped by the event.
def touches (unit : Nat) (a : Area) (o : Nat) : Bool :=
  if !e.here unit a then false
  else if e.zeroed cfg then e.covers o
  else
    match e.point.address.bit with
    | some _ => o = e.point.offset
    | none => (e.word rt o).isSome

-- What the event leaves in the one bit of a bit area.
def bitServed : Bool :=
  if e.zeroed cfg then false
  else
    let on := nonZero e.reading.value
    if Double.eq e.point.kconv1 (.fin (-1)) then !on else on

def writesBit (unit : Nat) (a : Area) (o : Nat) : Option Bool :=
  if e.here unit a && o = e.point.offset then some (e.bitServed cfg) else none

end Event

section EncodeInto

variable (rt : Runtime) (cfg : Config) (b : Banks) (e : Event) {a : Area}

theorem regs_putWire (ha : isBitArea e.point.area = false) (hcell : isBitArea a = false)
    (o : Nat) :
    (putWire b e.point (servedValue rt e.point e.reading)).regs a o =
      if e.point.area = a then (e.word rt o).or (b.regs a o) else b.regs a o := by
  unfold putWire Event.word Event.encoded
  cases encode e.point.asdu.type (servedValue rt e.point e.reading) e.point.asdu.perm
      e.point.asdu.str with
  | error err => simp
  | ok wire =>
      simp only [regs_setRegs _ _ ha hcell]
      by_cases harea : e.point.area = a
      · rw [if_pos harea, if_pos harea, store_apply, harea]
        by_cases hin : e.point.offset ≤ o ∧ o < e.point.offset + min e.point.span (wire.length / 2)
        · have hcov : (e.covers o && decide (o - e.point.offset < wire.length / 2)) = true := by
            simp only [Event.covers, Bool.and_eq_true, decide_eq_true_eq]
            omega
          rw [if_pos hin, if_pos hcov, Option.some_or]
        · have hcov : ¬ (e.covers o && decide (o - e.point.offset < wire.length / 2)) = true := by
            simp only [Event.covers, Bool.and_eq_true, decide_eq_true_eq]
            omega
          rw [if_neg hin, if_neg hcov, Option.none_or]
      · rw [if_neg harea, if_neg harea]

theorem regs_zeroOut (ha : isBitArea e.point.area = false) (hcell : isBitArea a = false)
    (o : Nat) :
    (zeroOut b e.point).regs a o =
      if e.point.area = a ∧ e.covers o then some 0 else b.regs a o := by
  unfold zeroOut
  rw [if_neg (by simp [ha]), regs_setRegs _ _ ha hcell]
  by_cases harea : e.point.area = a
  · rw [if_pos harea, store_apply, harea]
    simp only [Event.covers, Bool.and_eq_true, decide_eq_true_eq, true_and]
  · rw [if_neg harea, if_neg (fun h => harea h.1)]

-- The registers of the other areas stay.
theorem regs_encodeInto_of_ne (hcell : isBitArea a = false) (harea : e.point.area ≠ a) (o : Nat) :
    (encodeInto rt cfg b e.point e.reading).regs a o = b.regs a o := by
  unfold encodeInto
  by_cases hz : e.reading.invalid && cfg.invalidValuePolicy = "zero"
  · rw [if_pos hz]
    by_cases ha : isBitArea e.point.area
    · simp only [zeroOut, ha, if_true, regs_setBits]
    · rw [regs_zeroOut b e (by simpa using ha) hcell, if_neg (fun h => harea h.1)]
  · rw [if_neg hz]
    by_cases ha : isBitArea e.point.area
    · simp only [ha, if_true, regs_setBits]
    · rw [if_neg ha]
      have ha : isBitArea e.point.area = false := by simpa using ha
      cases e.point.address.bit with
      | some bit => simp only [regs_setRegs _ _ ha hcell, if_neg harea]
      | none => simp only [regs_putWire rt b e ha hcell, if_neg harea]

-- A register of the banks after one reading, bit by bit.
theorem registerBit_encodeInto (hcell : isBitArea a = false) (o k : Nat) :
    registerBit ((encodeInto rt cfg b e.point e.reading).regs a o) k =
      (e.writes rt cfg e.point.unit a o k).getD (registerBit (b.regs a o) k) := by
  unfold encodeInto Event.writes Event.here
  change registerBit ((if e.zeroed cfg then _ else _ : Banks).regs a o) k = _
  by_cases harea : e.point.area = a
  · have ha : isBitArea e.point.area = false := by rw [harea, hcell]
    simp only [decide_true, Bool.true_and, harea, Bool.not_true, Bool.false_eq_true, if_false]
    by_cases hz : e.zeroed cfg
    · rw [if_pos hz, if_pos hz, regs_zeroOut b e ha hcell]
      by_cases hcov : e.covers o
      · simp [harea, hcov, registerBit]
      · simp [hcov]
    · rw [if_neg hz, if_neg hz, if_neg (by simp [hcell])]
      cases hbit : e.point.address.bit with
      | some bit =>
          simp only [regs_setRegs _ _ hcell hcell, if_true]
          by_cases ho : o = e.point.offset
          · rw [ho, registerBit_setBit _ _ (e.point.address.bit_le bit hbit).2]
            by_cases hk : k = bit <;> simp [hk]
          · simp only [setBit, Function.update_of_ne ho]
            simp [ho]
      | none =>
          simp only [regs_putWire rt b e ha hcell, harea, if_true]
          cases e.word rt o <;> simp [registerBit]
  · simp only [harea, decide_false, Bool.and_false, Bool.not_false, if_true, Option.getD_none]
    rw [← regs_encodeInto_of_ne rt cfg b e hcell harea]
    rfl

theorem isSome_encodeInto (hcell : isBitArea a = false) (o : Nat) :
    ((encodeInto rt cfg b e.point e.reading).regs a o).isSome =
      (e.touches rt cfg e.point.unit a o || (b.regs a o).isSome) := by
  unfold encodeInto Event.touches Event.here
  change ((if e.zeroed cfg then _ else _ : Banks).regs a o).isSome = _
  by_cases harea : e.point.area = a
  · have ha : isBitArea e.point.area = false := by rw [harea, hcell]
    simp only [decide_true, Bool.true_and, harea, Bool.not_true, Bool.false_eq_true, if_false]
    by_cases hz : e.zeroed cfg
    · rw [if_pos hz, if_pos hz, regs_zeroOut b e ha hcell]
      by_cases hcov : e.covers o
      · simp [harea, hcov]
      · simp [hcov]
    · rw [if_neg hz, if_neg hz, if_neg (by simp [hcell])]
      cases hbit : e.point.address.bit with
      | some bit =>
          simp only [regs_setRegs _ _ hcell hcell, if_true, setBit]
          by_cases ho : o = e.point.offset
          · simp [ho]
          · simp [ho]
      | none =>
          simp only [regs_putWire rt b e ha hcell, harea, if_true, Option.isSome_or]
  · simp only [harea, decide_false, Bool.and_false, Bool.not_false, if_true, Bool.false_or]
    rw [← regs_encodeInto_of_ne rt cfg b e hcell harea]
    rfl

theorem bits_encodeInto (hcell : isBitArea a = true) (o : Nat) :
    (encodeInto rt cfg b e.point e.reading).bits a o =
      (e.writesBit cfg e.point.unit a o).or (b.bits a o) := by
  unfold encodeInto Event.writesBit Event.here
  change (if e.zeroed cfg then _ else _ : Banks).bits a o = _
  by_cases ha : isBitArea e.point.area
  · have hserved (on : Bool) :
        (b.setBits e.point.area (Function.update (b.bits e.point.area) e.point.offset
          (some on))).bits a o =
        (if e.point.area = a ∧ o = e.point.offset then some on else none).or (b.bits a o) := by
      rw [bits_setBits _ _ ha hcell]
      by_cases harea : e.point.area = a
      · by_cases ho : o = e.point.offset
        · simp [harea, ho]
        · simp [harea, ho]
      · simp [harea]
    by_cases hz : e.zeroed cfg
    · simp only [zeroOut, ha, if_true, hz, hserved, Event.bitServed, decide_true, Bool.true_and,
        Bool.and_eq_true, decide_eq_true_eq]
    · simp only [ha, if_true, hz, hserved, Event.bitServed, decide_true, Bool.true_and,
        Bool.and_eq_true, decide_eq_true_eq, Bool.false_eq_true, if_false]
  · have ha : isBitArea e.point.area = false := by simpa using ha
    have harea : e.point.area ≠ a := by
      rintro rfl
      rw [ha] at hcell
      cases hcell
    simp only [harea, decide_false, Bool.and_false, Bool.false_and, Bool.false_eq_true, if_false,
      Option.none_or, ha]
    by_cases hz : e.zeroed cfg
    · simp only [hz, if_true, zeroOut, ha, Bool.false_eq_true, if_false, bits_setRegs]
    · simp only [hz, Bool.false_eq_true, if_false]
      cases e.point.address.bit with
      | some bit => simp only [bits_setRegs]
      | none =>
          simp only [putWire]
          cases encode e.point.asdu.type (servedValue rt e.point e.reading) e.point.asdu.perm
              e.point.asdu.str with
          | error err => rfl
          | ok wire => simp only [bits_setRegs]

end EncodeInto

end JsonScada.Modbus
