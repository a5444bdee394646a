import JsonScada.Library.Positional
import JsonScada.Modbus.Address
import JsonScada.Modbus.Client.Planner
import JsonScada.Modbus.Client.Published
import JsonScada.Modbus.Client.Scaling
import JsonScada.Modbus.Codec.Registers

-- The blocks of a plan, as a device with these registers answers their reads.
namespace JsonScada.Modbus.Planner

open JsonScada.Library

section Read

-- The registers of one area of a device.
variable (mem : ℕ → BitVec 16)

def Block.registers (blk : Block) : List (BitVec 16) :=
  (List.range blk.count.toNat).map fun i : ℕ => mem (blk.start + i).toNat

def Block.bytes (blk : Block) : Bytes := wireOf (blk.registers mem)

-- A read that has a request and an answer.
def Block.Legal (blk : Block) : Prop :=
  blk.count ≤ maxRead blk.area ∧ blk.start + blk.count ≤ 65536

instance (blk : Block) : Decidable blk.Legal :=
  inferInstanceAs (Decidable (blk.count ≤ maxRead blk.area ∧ blk.start + blk.count ≤ 65536))

-- Another read fails.
def Block.answer (blk : Block) : Option Bytes := if blk.Legal then some (blk.bytes mem) else none

def Slice.polled (s : Slice) : Modbus.Slice := { b := s.b.toBinding, relStart := s.relStart.toNat }

-- The block before its first read.
def Block.fresh (blk : Block) : Modbus.Block := { slices := blk.slices.map Slice.polled }

-- The registers of a tag.
def Binding.registers (b : Binding) : List (BitVec 16) :=
  (List.range b.span).map fun i => mem (b.offset + i)

theorem fresh_ops (round : ℚ → Double) (now : Int) (conn : Double) (isGi : Bool) (blk : Block)
    (read : Option Bytes) :
    (readBlock round now conn blk.fresh read isGi).2 =
      blk.slices.map fun s => updateOf round now conn isGi read s.polled := by
  have hpublishes : publishes isGi blk.fresh read = true := by
    cases read <;> simp [publishes, Block.fresh]
  rw [readBlock_ops, if_pos hpublishes, Block.fresh, List.map_map]
  rfl

variable {blk : Block} {s : Slice} (hplace : blk.Places s)

include hplace

omit mem in
theorem Block.Places.relStart_lt {j : ℕ} (hj : j < s.b.span) :
    s.polled.relStart + j < blk.count.toNat := by
  have hrel := hplace.relStart
  have hlow := hplace.low
  have hhigh := hplace.high
  simp only [Slice.polled]
  omega

theorem Block.Places.registers_getD (j : ℕ) :
    (blk.registers mem).getD (s.polled.relStart + j) 0 =
      if s.polled.relStart + j < blk.count.toNat then mem (s.b.offset + j) else 0 := by
  have hrel := hplace.relStart
  have hlow := hplace.low
  unfold Block.registers
  by_cases hj : s.polled.relStart + j < blk.count.toNat
  · have haddr : (blk.start + ((s.polled.relStart : ℤ) + (j : ℤ))).toNat = s.b.offset + j := by
      simp only [Slice.polled]
      omega
    simp [List.getD_eq_getElem?_getD, hj, haddr]
  · simp [List.getD_eq_getElem?_getD, hj]

-- A byte of the block, counted from the tag's first.
theorem Block.Places.bytes_getD (j : ℕ) {i : ℕ} (hi : i < 2) :
    (blk.bytes mem).getD (s.polled.relStart * 2 + (2 * j + i)) 0 =
      (wireOf
        [if s.polled.relStart + j < blk.count.toNat then mem (s.b.offset + j) else 0]).getD i 0 := by
  have hindex : s.polled.relStart * 2 + (2 * j + i) = 2 * (s.polled.relStart + j) + i := by omega
  rw [Block.bytes, hindex, wireOf_getD _ _ hi, hplace.registers_getD mem]

-- The bytes of a tag are those of its registers.
theorem Block.Places.bytes_registers {n : ℕ} (hn : n < 2 * s.b.span) :
    (blk.bytes mem).getD (s.polled.relStart * 2 + n) 0 = (wireOf (s.b.registers mem)).getD n 0 := by
  have hn' : 2 * (n / 2) + n % 2 = n := by omega
  have hspan : n / 2 < s.b.span := by omega
  have hregister : (s.b.registers mem).getD (n / 2) 0 = mem (s.b.offset + n / 2) := by
    simp [Binding.registers, List.getD_eq_getElem?_getD, hspan]
  have hbyte := hplace.bytes_getD mem (n / 2) (Nat.mod_lt n (by decide : 0 < 2))
  rw [hn', if_pos (hplace.relStart_lt hspan)] at hbyte
  rw [hbyte, ← hregister, ← wireOf_getD _ _ (Nat.mod_lt n (by decide : 0 < 2)), hn']

end Read

section Built

-- What a binding has of its document.
structure Binding.Built (b : Binding) : Prop where
  asdu : b.asdu.Parsed
  span : b.span = spanOf b.area b.asdu
  bit : ∀ k ∈ b.bit, isBitArea b.area = false ∧ k ≤ 15

theorem buildBinding_built {raw : RawBinding} {d : AsduDefaults} {useModicon : Bool} {b : Binding}
    (h : buildBinding raw d useModicon = .ok b) : b.Built := by
  unfold buildBinding at h
  split at h
  · cases h
  rename_i addr _
  split at h
  · cases h
  rename_i asdu hasdu
  obtain rfl := Except.ok.inj h
  exact ⟨parseAsdu_parsed hasdu, rfl, addr.bit_le⟩

theorem Binding.Built.span_pos {b : Binding} (h : b.Built) : 0 < b.span := by
  rw [h.span, spanOf]
  split
  · omega
  · decide

end Built

-- The tags that are one bit of a register.
section Decode

variable (round : ℚ → Double) {s : Modbus.Slice} {k : ℕ}

theorem toCanonical_take (perm : Perm) (raw : Bytes) (off : ℕ) (hwidth : 2 ≤ perm.width) :
    (perm.toCanonical raw off).take 2 =
      [raw.getD (off + perm.p.getD 0 0) 0, raw.getD (off + perm.p.getD 1 0) 0] := by
  rw [Perm.toCanonical, ← List.map_take, List.take_range, Nat.min_eq_left hwidth]
  rfl

-- The word is read as a uint16, with the byte order of the tag.
theorem decode_word {perm : Perm} (raw : Bytes) (rel : ℕ) (hwidth : 2 ≤ perm.width) :
    decode .uint16 raw rel perm none = .ok
      { value := .num (.ofInt
          (uint
            [raw.getD (rel * 2 + perm.p.getD 0 0) 0, raw.getD (rel * 2 + perm.p.getD 1 0) 0])) } := by
  have hlen : ¬(perm.toCanonical raw (rel * 2)).length < 2 := by
    rw [toCanonical_length]
    omega
  simp only [decode, reduceCtorEq, if_false, decodeCanonical, if_neg hlen,
    toCanonical_take perm raw _ hwidth]

-- What is decoded is a bit of the byte that the byte order has in its place.
theorem decodeTag_bit (raw : Bytes) (harea : isBitArea s.b.area = false) (hbit : s.b.bit = some k)
    (hk : k < 16) (hwidth : 2 ≤ s.b.asdu.perm.width) :
    decodeTag round s raw = .ok
      (.plain (.bool
        ((raw.getD (s.relStart * 2 + s.b.asdu.perm.p.getD (bytePlace k) 0) 0).toNat.testBit (k % 8))),
        false, none) := by
  have hpair (hi lo : UInt8) :
      decide ((Binary64.ofInt (uint [hi, lo])).toDouble.toInt.toNat / 2 ^ k % 2 = 1) =
        ([hi, lo].getD (bytePlace k) 0).toNat.testBit (k % 8) := by
    have hlt : uint [hi, lo] < 256 ^ 2 := uint_lt [hi, lo]
    rw [Binary64.toDouble_ofInt (by rw [abs_of_nonneg (by omega)]; omega), toInt_intCast,
      Int.toNat_natCast, ← Nat.testBit_eq_decide_div_mod_eq, testBit_uint hi lo hk]
  simp only [decodeTag, harea, Bool.false_eq_true, if_false, hbit, decode_word raw _ hwidth]
  refine (congrArg (fun on => Except.ok (TagValue.plain (.bool on), false, none)) (hpair _ _)).trans ?_
  unfold bytePlace
  split <;> rfl

-- One byte is no word.
theorem decodeTag_narrow (raw : Bytes) (harea : isBitArea s.b.area = false)
    (hbit : s.b.bit = some k) (hwidth : s.b.asdu.perm.width < 2) :
    decodeTag round s raw = .error (.decodeType .uint16) := by
  have hlen : (s.b.asdu.perm.toCanonical raw (s.relStart * 2)).length < 2 := by
    rwa [toCanonical_length]
  simp only [decodeTag, harea, Bool.false_eq_true, if_false, hbit, decode, reduceCtorEq,
    decodeCanonical, if_pos hlen]
  rfl

end Decode

section Published

-- The update says that the tag is good, and has the bit as its value.
def ShowsBit (op : RtOp) (on : Bool) : Prop :=
  op.quality = some false ∧
    op.value = some
      { number := some (.fin (if on then 1 else 0))
        text := if on then "true" else "false"
        json := some .null }

variable (round : ℚ → Double) (now : Int) (conn : Double) (isGi : Bool) {s : Modbus.Slice}
  {raw : Bytes} {on : Bool}

theorem showsBit_iff (hdecode : decodeTag round s raw = .ok (.plain (.bool on), false, none))
    (on' : Bool) : ShowsBit (updateOf round now conn isGi (some raw) s) on' ↔ on = on' := by
  have hnumber := atSource_bool on
  rw [ShowsBit, quality_updateOf, value_updateOf, decodedInvalid, decodedValue, hdecode]
  simp only [hnumber, TagValue.string, Value.string, true_and, Option.some.injEq,
    SourceValue.mk.injEq, Double.fin.injEq, and_true]
  cases on <;> cases on' <;> simp

theorem not_showsBit_none : ¬ShowsBit (updateOf round now conn isGi none s) on :=
  fun h => nomatch h.1

theorem not_showsBit_error {e : CodecError} (hdecode : decodeTag round s raw = .error e) :
    ¬ShowsBit (updateOf round now conn isGi (some raw) s) on := by
  intro h
  have hquality := h.1
  rw [quality_updateOf, decodedInvalid, hdecode] at hquality
  cases hquality

end Published

section Readable

-- The byte order leaves the byte of the bit in its place, and there is one for registers.
def Binding.KeepsBit (b : Binding) (k : ℕ) : Prop :=
  b.asdu.type ≠ .bool ∧ b.asdu.perm.p.getD (bytePlace k) 0 = bytePlace k

theorem width_ge {b : Binding} (hbuilt : b.Built) (hbool : b.asdu.type ≠ .bool) :
    2 ≤ b.asdu.perm.width := by
  obtain ⟨spec, hspec⟩ := hbuilt.asdu.order hbool
  obtain ⟨p, -, hperm⟩ := parseByteOrder_perm hspec
  rw [hperm]
  exact hbuilt.asdu.orderWidth_ge hbool

-- A register with one bit set, among registers that are zero.
def oneBit (addr k : ℕ) : ℕ → BitVec 16 := fun a => if a = addr then 1#16 <<< k else 0

variable {mem : ℕ → BitVec 16} {blk : Block} {s : Slice} {k : ℕ} (hplace : blk.Places s)
  (hk : k < 16)

include hplace hk

theorem kept_bit (hspan : 0 < s.b.span) :
    ((blk.bytes mem).getD (s.polled.relStart * 2 + bytePlace k) 0).toNat.testBit (k % 8) =
      (mem s.b.offset).getLsbD k := by
  have hbyte := hplace.bytes_getD mem 0 (bytePlace_lt k)
  rw [if_pos (hplace.relStart_lt hspan), Nat.mul_zero, Nat.zero_add, Nat.add_zero] at hbyte
  rw [hbyte, testBit_bytePlace _ hk]

-- No other byte of the block has the bit.
theorem oneBit_elsewhere {n : ℕ} (hn : n ≠ bytePlace k) :
    ((blk.bytes (oneBit s.b.offset k)).getD (s.polled.relStart * 2 + n) 0).toNat.testBit (k % 8) =
      false := by
  have hn' : 2 * (n / 2) + n % 2 = n := by omega
  have hbyte := hplace.bytes_getD (oneBit s.b.offset k) (n / 2)
    (Nat.mod_lt n (by decide : 0 < 2))
  rw [hn'] at hbyte
  rw [hbyte, testBit_wireOf _ (Nat.mod_lt n (by decide)) (Nat.mod_lt k (by decide))]
  by_cases hfirst : n / 2 = 0
  · have hplace' : 8 * (1 - n % 2) + k % 8 ≠ k := by
      unfold bytePlace at hn
      split at hn <;> omega
    split
    · simp only [oneBit, hfirst, Nat.add_zero, if_true]
      rw [Bits.getLsbD_one_shiftLeft hk]
      simpa using hplace'
    · simp
  · split
    · have hother : s.b.offset + n / 2 ≠ s.b.offset := by omega
      rw [oneBit, if_neg hother]
      simp
    · simp

end Readable

-- After the first read of a block, the update of the tag at a place in it shows the bit of its
-- register.
def PublishesBit (round : ℚ → Double) (now : Int) (conn : Double) (isGi : Bool) (blk : Block)
    (n : ℕ) (b : Binding) (k : ℕ) (mem : ℕ → BitVec 16) : Prop :=
  ∃ op, (readBlock round now conn blk.fresh (blk.answer mem) isGi).2[n]? = some op ∧
    ShowsBit op ((mem b.offset).getLsbD k)

theorem publishesBit_iff (round : ℚ → Double) (now : Int) (conn : Double) (isGi : Bool) {blk : Block}
    {n : ℕ} {s : Slice} (k : ℕ) (mem : ℕ → BitVec 16) (hs : blk.slices[n]? = some s) :
    PublishesBit round now conn isGi blk n s.b k mem ↔
      ShowsBit (updateOf round now conn isGi (blk.answer mem) s.polled)
        ((mem s.b.offset).getLsbD k) := by
  rw [PublishesBit, fresh_ops, List.getElem?_map, hs]
  simp

-- A tag that is a bit of a register is published with this bit, for every content of the
-- registers, exactly when its block can be read, its type is not the one of coils, and its byte
-- order leaves the byte of the bit where it is. No binding is refused for it.
theorem registerBit_published_iff (round : ℚ → Double) (now : Int) (conn : Double) (isGi : Bool)
    (bindings : List Binding) (l : Limits) (blk : Block) (n : ℕ) (s : Slice) (raw : RawBinding)
    (d : AsduDefaults) (useModicon : Bool) (k : ℕ) (hblk : blk ∈ planReads bindings l)
    (hs : blk.slices[n]? = some s) (hb : buildBinding raw d useModicon = .ok s.b)
    (hk : s.b.bit = some k) :
    (∀ mem, PublishesBit round now conn isGi blk n s.b k mem) ↔ blk.Legal ∧ s.b.KeepsBit k := by
  have hplace := planReads_placed hblk s (List.mem_of_getElem? hs)
  have hbuilt := buildBinding_built hb
  obtain ⟨harea, hk15⟩ := hbuilt.bit k hk
  have hk16 : k < 16 := by omega
  have harea' : isBitArea s.polled.b.area = false := harea
  have hbit : s.polled.b.bit = some k := hk
  simp only [fun mem => publishesBit_iff round now conn isGi k mem hs]
  by_cases hlegal : blk.Legal
  · simp only [Block.answer, hlegal, if_true, true_and]
    by_cases hbool : s.b.asdu.type = .bool
    · -- the canonical form of a bool is one byte
      have hwidth : s.polled.b.asdu.perm.width < 2 := by
        show s.b.asdu.perm.width < 2
        rw [hbuilt.asdu.bool hbool]
        decide
      constructor
      · intro h
        exact absurd (h 0)
          (not_showsBit_error round now conn isGi (decodeTag_narrow round _ harea' hbit hwidth))
      · intro h
        exact absurd hbool h.1
    · have hdecode (mem : ℕ → BitVec 16) :=
        decodeTag_bit round (blk.bytes mem) harea' hbit hk16 (width_ge hbuilt hbool)
      simp only [fun mem => showsBit_iff round now conn isGi (hdecode mem)]
      constructor
      · intro h
        refine ⟨hbool, ?_⟩
        by_contra hne
        have hone := h (oneBit s.b.offset k)
        have hset : (oneBit s.b.offset k s.b.offset).getLsbD k = true := by
          simp only [oneBit, if_true]
          rw [Bits.getLsbD_one_shiftLeft hk16]
          simp
        rw [hset] at hone
        exact absurd (hone.symm.trans (oneBit_elsewhere hplace hk16 hne)) (by decide)
      · rintro ⟨-, hkeeps⟩ mem
        have hkeeps' : s.polled.b.asdu.perm.p.getD (bytePlace k) 0 = bytePlace k := hkeeps
        rw [hkeeps']
        exact kept_bit hplace hk16 hbuilt.span_pos
  · simp only [Block.answer, hlegal, if_false, false_and, iff_false]
    intro h
    exact not_showsBit_none round now conn isGi (h 0)

-- The plan of one tag.
def onlyTag (raw : RawBinding) : List Block :=
  planReads (built [raw]) (normalize (.fin 125) (.fin 2000) (.fin 8))

theorem built_of_onlyTag {raw : RawBinding} {blk : Block} {s : Slice} (hblk : blk ∈ onlyTag raw)
    (hs : s ∈ blk.slices) : buildBinding raw orders false = .ok s.b := by
  have hmem : s.b ∈ built [raw] :=
    (planReads_slices _ _).mem_iff.mp (List.mem_map_of_mem (List.mem_flatMap.mpr ⟨blk, hblk, hs⟩))
  obtain ⟨raw', hraw, hbuild⟩ := List.mem_filterMap.mp hmem
  obtain rfl := List.mem_singleton.mp hraw
  cases h : buildBinding raw' orders false with
  | error e =>
      rw [h] at hbuild
      cases hbuild
  | ok b =>
      rw [h] at hbuild
      exact congrArg Except.ok (Option.some.inj hbuild)

-- The bits of a word in the usual order.
theorem registerBit_published_word :
    ∃ blk s, blk ∈ onlyTag (rawAt "hr:10.b3" "uint16") ∧ blk.slices[0]? = some s ∧
      s.b.bit = some 3 ∧ ∀ mem, PublishesBit .fin 0 (.fin 1) false blk 0 s.b 3 mem := by
  have hall : ∀ blk ∈ onlyTag (rawAt "hr:10.b3" "uint16"), blk.Legal ∧ blk.slices.length = 1 ∧
      ∀ s ∈ blk.slices, s.b.bit = some 3 ∧ s.b.asdu.type ≠ .bool ∧
        s.b.asdu.perm.p.getD (bytePlace 3) 0 = bytePlace 3 := by
    decide
  have hone : (onlyTag (rawAt "hr:10.b3" "uint16")).length = 1 := by decide
  obtain ⟨blk, hblk⟩ := List.length_eq_one_iff.mp hone
  have hmem : blk ∈ onlyTag (rawAt "hr:10.b3" "uint16") := by simp [hblk]
  obtain ⟨hlegal, hslices, htag⟩ := hall blk hmem
  obtain ⟨s, hs⟩ := List.length_eq_one_iff.mp hslices
  have hs0 : blk.slices[0]? = some s := by simp [hs]
  obtain ⟨hbit, hkeeps⟩ := htag s (by simp [hs])
  exact ⟨blk, s, hmem, hs0, hbit,
    (registerBit_published_iff .fin 0 (.fin 1) false _ _ blk 0 s _ orders false 3 hmem hs0
      (built_of_onlyTag hmem (by simp [hs])) hbit).mpr ⟨hlegal, hkeeps⟩⟩

-- Every tag that is a bit of a register shows it.
def BitsPublished : Prop :=
  ∀ (bindings : List Binding) (l : Limits) (blk : Block) (n : ℕ) (s : Slice) (raw : RawBinding)
    (d : AsduDefaults) (useModicon : Bool) (k : ℕ), blk ∈ planReads bindings l →
    blk.slices[n]? = some s → buildBinding raw d useModicon = .ok s.b → s.b.bit = some k →
    ∀ mem, PublishesBit .fin 0 (.fin 1) false blk n s.b k mem

-- Bit 3 of a register, as a bool: the tag is marked invalid, whatever the register has.
theorem bool_bit_unpublished : ¬BitsPublished := by
  intro h
  have hall : ∀ blk ∈ onlyTag (rawAt "hr:10.b3" "bool"), blk.slices.length = 1 ∧
      (∀ s ∈ blk.slices, s.b.bit = some 3) ∧
      ∀ op ∈ (readBlock .fin 0 (.fin 1) blk.fresh (blk.answer fun _ => 8#16) false).2,
        op.quality = some true := by
    decide
  have hone : (onlyTag (rawAt "hr:10.b3" "bool")).length = 1 := by decide
  obtain ⟨blk, hblk⟩ := List.length_eq_one_iff.mp hone
  have hmem : blk ∈ onlyTag (rawAt "hr:10.b3" "bool") := by simp [hblk]
  obtain ⟨hslices, hbit, hops⟩ := hall blk hmem
  obtain ⟨s, hs⟩ := List.length_eq_one_iff.mp hslices
  have hs0 : blk.slices[0]? = some s := by simp [hs]
  obtain ⟨op, hop, hquality, -⟩ := h _ _ blk 0 s _ orders false 3 hmem hs0
    (built_of_onlyTag hmem (by simp [hs])) (hbit s (by simp [hs])) fun _ => 8#16
  have hinvalid := hops op (List.mem_of_getElem? hop)
  rw [hinvalid] at hquality
  cases hquality

end JsonScada.Modbus.Planner
