import JsonScada.Modbus.ByteOrder
import JsonScada.Modbus.Codec.Theorems
import Mathlib.Tactic.IntervalCases

-- Registers and their bytes on the wire.
namespace JsonScada.Modbus

open JsonScada.Library

theorem wireOf_length (regs : List (BitVec 16)) : (wireOf regs).length = 2 * regs.length := by
  induction regs with
  | nil => rfl
  | cons w regs ih =>
      have hcons : (wireOf (w :: regs)).length = (wireOf regs).length + 2 := by simp [wireOf]
      rw [hcons, ih, List.length_cons]
      omega

theorem wireOf_take (regs : List (BitVec 16)) (n : ℕ) :
    wireOf (regs.take n) = (wireOf regs).take (2 * n) := by
  induction regs generalizing n with
  | nil => simp [wireOf]
  | cons w regs ih =>
      cases n with
      | zero => rfl
      | succ n =>
          have hcons (regs : List (BitVec 16)) : wireOf (w :: regs) =
              UInt8.ofNat (w.toNat / 256) :: UInt8.ofNat (w.toNat % 256) :: wireOf regs := rfl
          rw [List.take_succ_cons, hcons, hcons, ih, Nat.mul_succ, List.take_succ_cons,
            List.take_succ_cons]

-- There is a zero past the end.
theorem wireOf_getD (regs : List (BitVec 16)) (j : ℕ) {i : ℕ} (hi : i < 2) :
    (wireOf regs).getD (2 * j + i) 0 = (wireOf [regs.getD j 0]).getD i 0 := by
  induction regs generalizing j with
  | nil => interval_cases i <;> simp [wireOf]
  | cons w regs ih =>
      cases j with
      | zero => interval_cases i <;> simp [wireOf]
      | succ j =>
          have hcons : wireOf (w :: regs) =
              UInt8.ofNat (w.toNat / 256) :: UInt8.ofNat (w.toNat % 256) :: wireOf regs := rfl
          have hindex : 2 * (j + 1) + i = 2 * j + i + 1 + 1 := by omega
          rw [hcons, hindex, List.getD_cons_succ, List.getD_cons_succ, ih j, List.getD_cons_succ]

-- The high byte comes first.
theorem testBit_wireOf (w : BitVec 16) {i j : ℕ} (hi : i < 2) (hj : j < 8) :
    ((wireOf [w]).getD i 0).toNat.testBit j = w.getLsbD (8 * (1 - i) + j) := by
  have hlt := w.isLt
  interval_cases i
  · have hbyte : ((wireOf [w]).getD 0 0).toNat = w.toNat / 2 ^ 8 :=
      Nat.mod_eq_of_lt (by omega)
    rw [hbyte, Nat.testBit_div_two_pow, BitVec.testBit_toNat, Nat.add_comm]
  · have hbyte : ((wireOf [w]).getD 1 0).toNat = w.toNat % 2 ^ 8 :=
      Nat.mod_eq_of_lt (Nat.mod_lt _ (by decide))
    rw [hbyte, Nat.testBit_mod_two_pow, BitVec.testBit_toNat]
    simp [hj]

section Words

-- The registers in bytes of the wire.
def words (wire : Bytes) : List (BitVec 16) := (List.range (wire.length / 2)).map (wireWord wire)

theorem words_length (wire : Bytes) : (words wire).length = wire.length / 2 := by simp [words]

theorem words_wireOf (regs : List (BitVec 16)) : words (wireOf regs) = regs := by
  have hlen : (words (wireOf regs)).length = regs.length := by
    rw [words_length, wireOf_length]
    omega
  apply List.ext_getElem hlen
  intro j hj hj'
  have hreg : regs.getD j 0 = regs[j] := List.getD_eq_getElem _ _ hj'
  have hhi := wireOf_getD regs j (i := 0) (by decide)
  have hlo := wireOf_getD regs j (i := 1) (by decide)
  have hlt := (regs[j]).isLt
  have hword : wireWord (wireOf regs) j = regs[j] := by
    apply BitVec.eq_of_toNat_eq
    rw [Nat.add_zero] at hhi
    rw [wireWord, hhi, hlo, hreg]
    simp [wireOf]
    omega
  simpa [words] using hword

theorem wireOf_wireWord (wire : Bytes) (j : ℕ) {i : ℕ} (hi : i < 2) :
    (wireOf [wireWord wire j]).getD i 0 = wire.getD (2 * j + i) 0 := by
  have hhi := (wire.getD (2 * j) 0).toNat_lt
  have hlo := (wire.getD (2 * j + 1) 0).toNat_lt
  have hword : (wireWord wire j).toNat =
      (wire.getD (2 * j) 0).toNat * 256 + (wire.getD (2 * j + 1) 0).toNat := by
    rw [wireWord, BitVec.toNat_ofNat]
    omega
  apply UInt8.toNat_inj.mp
  interval_cases i
  · show (UInt8.ofNat ((wireWord wire j).toNat / 256)).toNat = (wire.getD (2 * j) 0).toNat
    rw [hword, UInt8.toNat_ofNat']
    omega
  · show (UInt8.ofNat ((wireWord wire j).toNat % 256)).toNat = (wire.getD (2 * j + 1) 0).toNat
    rw [hword, UInt8.toNat_ofNat']
    omega

theorem wireOf_words {wire : Bytes} (heven : wire.length % 2 = 0) : wireOf (words wire) = wire := by
  have hlen : (wireOf (words wire)).length = wire.length := by
    rw [wireOf_length, words_length]
    omega
  apply bytes_ext hlen
  intro n hn
  have hn' : 2 * (n / 2) + n % 2 = n := by omega
  have hindex : n / 2 < wire.length / 2 := by omega
  have hbyte := wireOf_getD (words wire) (n / 2) (Nat.mod_lt n (by decide : 0 < 2))
  have hword : (words wire).getD (n / 2) 0 = wireWord wire (n / 2) := by
    simp [words, List.getD_eq_getElem?_getD, hindex]
  rw [hn', hword, wireOf_wireWord wire (n / 2) (Nat.mod_lt n (by decide)), hn'] at hbyte
  exact hbyte

theorem words_eq_iff {wire : Bytes} (heven : wire.length % 2 = 0) (regs : List (BitVec 16)) :
    words wire = regs ↔ wire = wireOf regs := by
  constructor
  · rintro rfl
    exact (wireOf_words heven).symm
  · rintro rfl
    exact words_wireOf regs

end Words

section Bits

-- The byte of a register that has a bit of it.
def bytePlace (bit : ℕ) : ℕ := if bit < 8 then 1 else 0

theorem bytePlace_lt (bit : ℕ) : bytePlace bit < 2 := by
  unfold bytePlace
  split <;> decide

theorem testBit_bytePlace (w : BitVec 16) {bit : ℕ} (hbit : bit < 16) :
    ((wireOf [w]).getD (bytePlace bit) 0).toNat.testBit (bit % 8) = w.getLsbD bit := by
  rw [testBit_wireOf w (bytePlace_lt bit) (Nat.mod_lt _ (by decide))]
  congr 1
  unfold bytePlace
  split <;> omega

-- A bit of the number in two bytes.
theorem testBit_uint (hi lo : UInt8) {bit : ℕ} (hbit : bit < 16) :
    (uint [hi, lo]).testBit bit = ([hi, lo].getD (bytePlace bit) 0).toNat.testBit (bit % 8) := by
  have huint : uint [hi, lo] = 2 ^ 8 * hi.toNat + lo.toNat := by
    simp [uint, Positional.value]
    omega
  rw [huint, Nat.testBit_two_pow_mul_add _ lo.toNat_lt]
  unfold bytePlace
  by_cases hlow : bit < 8
  · simp [hlow, Nat.mod_eq_of_lt hlow]
  · have hmod : bit % 8 = bit - 8 := by omega
    simp [hlow, hmod]

end Bits

end JsonScada.Modbus
