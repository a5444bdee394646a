import JsonScada.Library.Rfc3339
import JsonScada.Mqtt.AutoTag
import Mathlib.Algebra.Order.Floor.Semifield

-- The number of a command, as a metric that is received and as one that is sent.
namespace JsonScada.Mqtt

open JsonScada.Library
open JsonScada.Processor (Value truthyValue)
open JsonScada.Processor.Node (Runtime isSpace)
open JsonScada.WebServer (parseFloat parseInt digit text valueText)

section Received

-- A Long object.
structure Long where
  isUnsigned : Bool
  bits : BitVec 64

namespace Long

def value (l : Long) : ℤ := if l.isUnsigned then l.bits.toNat else l.bits.toInt

end Long

-- The package behind Long objects, of which this is known: a number whose integer part has 64 bits
-- is cut off there.
structure LongPackage where
  fromValue : Bool → Value → BitVec 64
  fromValue_number : ∀ q : ℚ, InRange true 64 (Double.fin q).toInt →
    fromValue false (.number (.fin q)) = BitVec.ofInt 64 (Double.fin q).toInt

inductive MetricValue where
  | plain (v : Value)
  | long (l : Long)

inductive MetricType where
  | boolean
  | text
  | int (signed : Bool) (bits : ℕ)
  | floating
  | datetime
  | other

variable (rt : Runtime) (pkg : LongPackage)

def MetricValue.toNumber : MetricValue → Double
  | .plain v => JsonScada.WebServer.toNumber rt (some v)
  | .long l => rt.round l.value

-- `parseFloat(v)`, zero for what is no number
def MetricValue.parsed (v : MetricValue) : Double :=
  let x := match v with
    | .plain v => parseFloat rt (some v)
    | .long l => rt.round l.value
  if x.isNaN then .fin 0 else x

def MetricValue.truthy : MetricValue → Bool
  | .plain v => truthyValue (some v)
  | .long _ => true

-- `Long.fromValue(v, unsigned)`
def fromValue (isUnsigned : Bool) : MetricValue → Long
  | .plain v => ⟨isUnsigned, pkg.fromValue isUnsigned v⟩
  | .long l => ⟨isUnsigned, l.bits⟩

-- A Long object takes the other operand as a signed one and keeps its own signedness.
def Long.mul (l : Long) (x : Double) : Long :=
  ⟨l.isUnsigned, l.bits * pkg.fromValue false (.number x)⟩

def Long.add (l : Long) (x : Double) : Long :=
  ⟨l.isUnsigned, l.bits + pkg.fromValue false (.number x)⟩

-- `castSparkplugValue` for the types that are numbers: those of 32 bits and less share a field.
def castNumber (signed : Bool) (v : MetricValue) : Double :=
  let bits := BitVec.ofInt 32 (v.toNumber rt).toInt
  .fin (if signed then bits.toInt else bits.toNat)

def castLong (signed : Bool) (v : MetricValue) : Long := fromValue pkg (!signed) v

-- The value of the command that is queued for a metric.
def commandValue (kconv1 kconv2 : Double) (type : MetricType) (v : MetricValue) : Double :=
  let scale (x : Double) := Double.add rt.round (Double.mul rt.round kconv1 x) kconv2
  match type with
  | .boolean =>
      if Double.eq kconv1 (.fin (-1)) then .fin (if v.truthy then 0 else 1)
      else .fin (if v.truthy then 1 else 0)
  | .int signed bits =>
      if bits ≤ 32 then scale (castNumber rt signed v)
      else rt.round (((castLong pkg signed v).mul pkg kconv1).add pkg kconv2).value
  | .floating => scale (v.toNumber rt)
  | .text => v.parsed rt
  | .datetime => v.parsed rt
  | .other => v.parsed rt

end Received

section Scaling

variable {rt : Runtime} {pkg : LongPackage} {signed : Bool} {v : ℤ} {k1 k2 : ℚ}

-- A number as the payload carries it. The field of 32 bits has no sign.
def carried (isUnsigned : Bool) (bits : ℕ) (v : ℤ) : MetricValue :=
  if bits ≤ 32 then .plain (.number (.fin (v % 2 ^ 32 : ℤ)))
  else .long ⟨isUnsigned, BitVec.ofInt 64 v⟩

-- A factor as a Long object has it.
def factor (pkg : LongPackage) (k : ℚ) : ℤ := (pkg.fromValue false (.number (.fin k))).toInt

-- The result is one of the type, and what the factors lose adds up to nothing.
def Lossless (pkg : LongPackage) (signed : Bool) (k1 k2 : ℚ) (v : ℤ) : Prop :=
  (∃ z : ℤ, k1 * v + k2 = z ∧ InRange signed 64 z) ∧
    ∃ n : ℤ, (k1 - factor pkg k1) * v + (k2 - factor pkg k2) = 2 ^ 64 * n

theorem factor_of_inRange {k : ℚ} (h : InRange true 64 (Double.fin k).toInt) :
    factor pkg k = (Double.fin k).toInt := by
  have hlow : -2 ^ 63 ≤ (Double.fin k).toInt := h.1
  have hhigh : (Double.fin k).toInt < 2 ^ 63 := h.2
  rw [factor, pkg.fromValue_number k h, BitVec.toInt_ofInt, Int.bmod_eq_of_le]
  · omega
  · omega

theorem ofInt_value {w : ℕ} (hw : 0 < w) (h : InRange signed w v) :
    (if signed then (BitVec.ofInt w v).toInt else ((BitVec.ofInt w v).toNat : ℤ)) = v := by
  cases signed with
  | true =>
      have hlow : -2 ^ (w - 1) ≤ v := h.1
      have hhigh : v < 2 ^ (w - 1) := h.2
      simp only [if_true]
      exact BitVec.toInt_ofInt_eq_self hw hlow hhigh
  | false =>
      have hlow : 0 ≤ v := h.1
      have hhigh : v < 2 ^ w := h.2
      simp only [Bool.false_eq_true, if_false, BitVec.toNat_ofInt]
      rw [Int.toNat_of_nonneg (Int.emod_nonneg _ (by positivity))]
      push_cast
      exact Int.emod_eq_of_lt hlow hhigh

theorem value_eq_iff {b : BitVec 64} {z : ℤ} :
    (Long.mk (!signed) b).value = z ↔ InRange signed 64 z ∧ b = BitVec.ofInt 64 z := by
  constructor
  · rintro rfl
    cases signed with
    | true => exact ⟨⟨BitVec.le_toInt b, BitVec.toInt_lt⟩, (BitVec.ofInt_toInt).symm⟩
    | false =>
        have hlt := b.isLt
        have hnat : (b.toNat : ℤ) < 2 ^ 64 := by exact_mod_cast hlt
        exact ⟨⟨Int.natCast_nonneg _, hnat⟩, by simp [Long.value]⟩
  · rintro ⟨hz, rfl⟩
    have hvalue := ofInt_value (by decide) hz
    cases signed with
    | true => exact hvalue
    | false => exact hvalue

theorem ofInt_eq_iff {x y : ℤ} :
    BitVec.ofInt 64 x = BitVec.ofInt 64 y ↔ (2 ^ 64 : ℤ) ∣ y - x := by
  rw [← BitVec.toInt_inj, BitVec.toInt_ofInt, BitVec.toInt_ofInt,
    Int.bmod_eq_bmod_iff_bmod_sub_eq_zero, ← Int.dvd_iff_bmod_eq_zero, ← dvd_neg, neg_sub]
  norm_cast

theorem scaled_bits (pkg : LongPackage) (l : Long) (hl : l.bits = BitVec.ofInt 64 v) (k1 k2 : ℚ) :
    ((l.mul pkg (.fin k1)).add pkg (.fin k2)).bits =
      BitVec.ofInt 64 (v * factor pkg k1 + factor pkg k2) := by
  rw [BitVec.ofInt_add, BitVec.ofInt_mul, factor, factor, BitVec.ofInt_toInt, BitVec.ofInt_toInt, ← hl]
  rfl

theorem long_scaled_iff (l : Long) (hsign : l.isUnsigned = !signed)
    (hl : l.bits = BitVec.ofInt 64 v) :
    (((l.mul pkg (.fin k1)).add pkg (.fin k2)).value : ℚ) = k1 * v + k2 ↔
      Lossless pkg signed k1 k2 v := by
  have hlong : (l.mul pkg (.fin k1)).add pkg (.fin k2) =
      ⟨!signed, BitVec.ofInt 64 (v * factor pkg k1 + factor pkg k2)⟩ := by
    rw [← scaled_bits pkg l hl, ← hsign]
    rfl
  rw [hlong]
  constructor
  · intro h
    obtain ⟨hrange, hbits⟩ := value_eq_iff.mp (Eq.refl (Long.mk (!signed)
      (BitVec.ofInt 64 (v * factor pkg k1 + factor pkg k2))).value)
    refine ⟨⟨_, h.symm, hrange⟩, ?_⟩
    obtain ⟨n, hn⟩ := ofInt_eq_iff.mp hbits
    refine ⟨n, ?_⟩
    have hcast := congrArg (fun z : ℤ => (z : ℚ)) hn
    push_cast at hcast
    linarith
  · rintro ⟨⟨z, hz, hrange⟩, n, hn⟩
    rw [hz, Int.cast_inj, value_eq_iff]
    refine ⟨hrange, ofInt_eq_iff.mpr ⟨n, ?_⟩⟩
    have hcast : ((z - (v * factor pkg k1 + factor pkg k2) : ℤ) : ℚ) = ((2 ^ 64 * n : ℤ) : ℚ) := by
      push_cast
      linarith
    exact_mod_cast hcast

theorem castNumber_carried (rt : Runtime) (isUnsigned : Bool) {bits : ℕ} (hbits : bits ≤ 32)
    (hv : InRange signed 32 v) : castNumber rt signed (carried isUnsigned bits v) = .fin v := by
  have hnumber : ((carried isUnsigned bits v).toNumber rt).toInt = v % 2 ^ 32 := by
    rw [carried, if_pos hbits]
    exact Double.toInt_intCast _
  have hmod : BitVec.ofInt 32 (v % 2 ^ 32) = BitVec.ofInt 32 v := by
    apply BitVec.eq_of_toInt_eq
    rw [BitVec.toInt_ofInt, BitVec.toInt_ofInt]
    exact Int.emod_bmod v (2 ^ 32)
  have hvalue := ofInt_value (w := 32) (by decide) hv
  rw [castNumber, hnumber, hmod]
  cases signed with
  | true => exact congrArg (fun z : ℤ => Double.fin z) hvalue
  | false => exact congrArg (fun z : ℤ => Double.fin z) hvalue

-- Whether the 32-bit types and the 64-bit ones scale alike: the former always as it is meant, the
-- latter exactly when the factors lose nothing and the result is a number of the type.
theorem commandValue_iff (hround : ∀ q, rt.round q = .fin q) (k1 k2 : ℚ) {bits : ℕ}
    (hbits : bits = 32 ∨ bits = 64) (hv : InRange signed bits v) (isUnsigned : Bool) :
    commandValue rt pkg (.fin k1) (.fin k2) (.int signed bits) (carried isUnsigned bits v) =
        .fin (k1 * v + k2) ↔ (bits = 64 → Lossless pkg signed k1 k2 v) := by
  rcases hbits with rfl | rfl
  · simp only [commandValue, castNumber_carried rt isUnsigned le_rfl hv]
    simp [Double.add, Double.mul, hround]
  · have hcast : castLong pkg signed (carried isUnsigned 64 v) =
        ⟨!signed, BitVec.ofInt 64 v⟩ := rfl
    simp only [commandValue, hcast, hround]
    simp [long_scaled_iff]

-- Numbers that are not rounded, and a package that keeps the low bits of larger ones.
def exact : Runtime := ⟨.fin, fun _ => 0⟩

def truncating : LongPackage where
  fromValue := fun _ v =>
    match v with
    | .number x => BitVec.ofInt 64 x.toInt
    | _ => 0
  fromValue_number := fun _ _ => rfl

theorem commandValue_whole :
    commandValue exact truncating (.fin 2) (.fin 1) (.int false 64) (carried true 64 3) =
      .fin (2 * (3 : ℤ) + 1) :=
  (commandValue_iff (fun _ => rfl) 2 1 (.inr rfl) (by decide) true).mpr
    fun _ => ⟨⟨7, by norm_num, by decide⟩, 0, by
      rw [factor_of_inRange (by decide), factor_of_inRange (by decide)]
      norm_num [Double.toInt]⟩

-- Half of ten, and minus one as an unsigned number.
theorem commandValue_differs :
    commandValue exact truncating (.fin (1 / 2)) (.fin 0) (.int true 32) (carried true 32 10) =
        .fin 5 ∧
      commandValue exact truncating (.fin (1 / 2)) (.fin 0) (.int true 64) (carried true 64 10) =
        .fin 0 ∧
      commandValue exact truncating (.fin (-1)) (.fin 0) (.int false 64) (carried true 64 1) =
        .fin 18446744073709551615 := by
  decide +kernel

end Scaling

section Sent

inductive PayloadValue where
  | number (x : Double)
  | boolean (b : Bool)
  | text (s : String)
  deriving DecidableEq

structure CommandMetric where
  name : String
  value : PayloadValue
  type : String
  timestamp : ℤ

-- A command to a device, to a node, or to a topic that is not one of Sparkplug.
inductive CommandPayload where
  | device (groupId edgeNodeId deviceId : String) (metric : CommandMetric)
  | node (groupId edgeNodeId : String) (metric : CommandMetric)
  | message (topic : String) (value : PayloadValue)

def CommandPayload.value : CommandPayload → PayloadValue
  | .device _ _ _ metric => metric.value
  | .node _ _ metric => metric.value
  | .message _ value => value

structure QueuedCommand where
  protocolSourceASDU : Value
  protocolSourceObjectAddress : Value
  value : Double
  valueString : String

def sentTypes : List (String × MetricType) :=
  [("int8", .int true 8), ("int16", .int true 16), ("int32", .int true 32), ("int", .int true 64),
    ("int64", .int true 64), ("uint8", .int false 8), ("uint16", .int false 16),
    ("uint32", .int false 32), ("uint64", .int false 64), ("float", .floating),
    ("double", .floating), ("boolean", .boolean), ("text", .text), ("string", .text),
    ("datetime", .datetime)]

def unaliased (asdu : String) : String :=
  if asdu = "int" then "int64" else if asdu = "text" then "string" else asdu

-- The bounds of an integer type.
def upper (signed : Bool) (bits : ℕ) : ℤ := if signed then 2 ^ (bits - 1) - 1 else 2 ^ bits - 1

def lower (signed : Bool) (bits : ℕ) : ℤ := if signed then -2 ^ (bits - 1) else 0

def clampTo (lo hi : ℤ) (x : Double) : Double :=
  if Double.lt (.fin hi) x then .fin hi else if Double.lt x (.fin lo) then .fin lo else x

variable (rt : Runtime) (toLowerCase : String → String) (now : ℤ)

-- Of the 64-bit types one has no bounds, and the other no upper one.
def integerValue (signed : Bool) (bits : ℕ) (x : Double) : Double :=
  let value := parseInt rt (some (.number x))
  if bits < 64 then clampTo (lower signed bits) (upper signed bits) value
  else if signed then value
  else if Double.lt value (.fin 0) then .fin 0 else value

def payloadValue (cmd : QueuedCommand) : MetricType → Option PayloadValue
  | .int signed bits => some (.number (integerValue rt signed bits cmd.value))
  | .floating => some (.number (parseFloat rt (some (.number cmd.value))))
  | .boolean => some (.boolean (!Double.eq cmd.value (.fin 0)))
  | .text =>
      some (.text (if cmd.valueString = "" then Decimal.ecmaString cmd.value else cmd.valueString))
  | .datetime =>
      let value := parseInt rt (some (.number cmd.value.abs))
      some (.number (if Double.lt value (.fin 0) then .fin 0 else value))
  | .other => none

def getMetricCommandPayload (cmd : QueuedCommand) : Option CommandPayload :=
  match cmd.protocolSourceASDU, cmd.protocolSourceObjectAddress with
  | .string protocolSourceASDU, .string address =>
      if protocolSourceASDU.toList.all isSpace then none
      else
        let asdu := unaliased (toLowerCase protocolSourceASDU)
        match payloadValue rt cmd ((sentTypes.lookup asdu).getD .other) with
        | none => none
        | some value =>
            match (address.toList.splitOn '/').map String.ofList with
            | [] => none
            | ns :: levels =>
                if ns = sparkplugNS then
                  match levels with
                  | [groupId, edgeNodeId, name] =>
                      some (.node groupId edgeNodeId ⟨name, value, asdu, now⟩)
                  | groupId :: edgeNodeId :: deviceId :: level :: more =>
                      -- the name of a metric may contain slashes
                      some (.device groupId edgeNodeId deviceId
                        ⟨"/".intercalate (level :: more), value, asdu, now⟩)
                  | _ => none
                else some (.message address value)
  | _, _ => none

end Sent

section Digits

theorem digitsValue_toDigits (n : ℕ) : Decimal.digitsValue (Nat.toDigits 10 n) = n := by
  have h := Nat.ofDigitChars_ten_toDigits (n := n)
  rw [Nat.ofDigitChars_eq_foldl] at h
  simp only [Nat.mul_comm 10] at h
  exact h

theorem all_isDigit_toDigits (n : ℕ) : (Nat.toDigits 10 n).all Char.isDigit = true :=
  List.all_eq_true.mpr fun _ hc => Nat.isDigit_of_mem_toDigits (by decide) (by decide) hc

theorem digitsValue_take (n j : ℕ) :
    Decimal.digitsValue ((Nat.toDigits 10 n).take j) = n / 10 ^ ((Nat.toDigits 10 n).length - j) := by
  have hsplit := Rfc3339.digitsValue_append ((Nat.toDigits 10 n).take j) ((Nat.toDigits 10 n).drop j)
  have hdrop : Decimal.digitsValue ((Nat.toDigits 10 n).drop j) < 10 ^ ((Nat.toDigits 10 n).length - j) := by
    have hall : ((Nat.toDigits 10 n).drop j).all Char.isDigit = true :=
      List.all_eq_true.mpr fun c hc =>
        List.all_eq_true.mp (all_isDigit_toDigits n) c (List.mem_of_mem_drop hc)
    simpa using Rfc3339.digitsValue_lt hall
  rw [List.take_append_drop, digitsValue_toDigits, List.length_drop] at hsplit
  have hdiv : n / 10 ^ ((Nat.toDigits 10 n).length - j) =
      (Decimal.digitsValue ((Nat.toDigits 10 n).take j) * 10 ^ ((Nat.toDigits 10 n).length - j) +
        Decimal.digitsValue ((Nat.toDigits 10 n).drop j)) / 10 ^ ((Nat.toDigits 10 n).length - j) :=
    congrArg (· / 10 ^ ((Nat.toDigits 10 n).length - j)) hsplit
  rw [hdiv, Nat.mul_comm, Nat.mul_add_div (by positivity), Nat.div_eq_of_lt hdrop, Nat.add_zero]

end Digits

section ParseInt

variable {rt : Runtime}

theorem digit_of_isDigit {c : Char} (h : c.isDigit = true) :
    isSpace c = false ∧ digit c = c.toNat - '0'.toNat ∧ digit c < 10 ∧ c ≠ '-' ∧ c ≠ '+' ∧
      c ≠ 'x' ∧ c ≠ 'X' := by
  simp only [Char.isDigit, Bool.and_eq_true, decide_eq_true_eq] at h
  obtain ⟨hlow, hhigh⟩ : 48 ≤ c.toNat ∧ c.toNat ≤ 57 := h
  have hc : c = Char.ofNat c.toNat := (Char.ofNat_toNat c).symm
  generalize c.toNat = n at *
  subst hc
  revert n
  decide

-- The digits that a text starts with, up to a point or an exponent.
theorem takeWhile_digit {ds rest : List Char} (hds : ds.all Char.isDigit = true)
    (hrest : ∀ c ∈ rest.head?, c = '.' ∨ c = 'e') :
    (ds ++ rest).takeWhile (fun c => digit c < 10) = ds := by
  induction ds with
  | nil =>
      cases rest with
      | nil => rfl
      | cons c rest =>
          have hstop : digit c = 36 ∨ digit c = 14 := by
            rcases hrest c rfl with rfl | rfl <;> decide
          rw [List.nil_append, List.takeWhile_cons, if_neg (by rw [decide_eq_true_eq]; omega)]
  | cons c ds ih =>
      rw [List.all_cons, Bool.and_eq_true] at hds
      rw [List.cons_append, List.takeWhile_cons, if_pos (decide_eq_true (digit_of_isDigit hds.1).2.2.1),
        ih hds.2]

theorem foldl_digit {ds : List Char} (hds : ds.all Char.isDigit = true) :
    ds.foldl (fun n c => n * 10 + digit c) 0 = Decimal.digitsValue ds := by
  unfold Decimal.digitsValue
  apply List.foldl_ext
  intro n c hc
  rw [(digit_of_isDigit (List.all_eq_true.mp hds c hc)).2.1]

-- `0x` before hexadecimal digits
def radix (hexadecimal : Bool) (s : List Char) : ℕ × List Char :=
  match hexadecimal, s with
  | true, '0' :: 'x' :: s | true, '0' :: 'X' :: s => (16, s)
  | _, s => (10, s)

theorem parseInt_eq (v : Option Value) :
    parseInt rt v =
      let (negative, s) := Decimal.sign ((text v).toList.dropWhile isSpace)
      let (base, s) := radix true s
      match s.takeWhile (digit · < base) with
      | [] => .nan
      | ds =>
          let n := ds.foldl (fun n c => n * base + digit c) 0
          rt.round (if negative then -n else n) := rfl

theorem parseInt_digits {v : Option Value} {negative : Bool} {ds rest : List Char}
    (htext : (text v).toList = (if negative then ['-'] else []) ++ ds ++ rest) (hne : ds ≠ [])
    (hds : ds.all Char.isDigit = true) (hrest : ∀ c ∈ rest.head?, c = '.' ∨ c = 'e') :
    parseInt rt v =
      rt.round (if negative then -(Decimal.digitsValue ds : ℚ) else Decimal.digitsValue ds) := by
  have htake := takeWhile_digit hds hrest
  have hfold := foldl_digit hds
  obtain ⟨c, ds', rfl⟩ := List.exists_cons_of_ne_nil hne
  rw [List.all_cons, Bool.and_eq_true] at hds
  obtain ⟨hspace, -, -, hminus, hplus, -, -⟩ := digit_of_isDigit hds.1
  have hsecond : ∀ d ∈ (ds' ++ rest).head?, d ≠ 'x' ∧ d ≠ 'X' := by
    intro d hd
    cases ds' with
    | nil =>
        rcases hrest d hd with rfl | rfl <;> decide
    | cons e ds' =>
        obtain rfl : e = d := by simpa using hd
        have hdigit := hds.2
        rw [List.all_cons, Bool.and_eq_true] at hdigit
        exact (digit_of_isDigit hdigit.1).2.2.2.2.2
  have hdrop (s : List Char) : (c :: s).dropWhile isSpace = c :: s := by
    rw [List.dropWhile_cons, if_neg (by rw [hspace]; exact Bool.false_ne_true)]
  have hradix : radix true (c :: (ds' ++ rest)) = (10, c :: (ds' ++ rest)) := by
    unfold radix
    split
    · rename_i heq
      exact absurd rfl (hsecond _ (by rw [(List.cons.inj heq).2]; rfl)).1
    · rename_i heq
      exact absurd rfl (hsecond _ (by rw [(List.cons.inj heq).2]; rfl)).2
    · rfl
  have hsigned : Decimal.sign ((text v).toList.dropWhile isSpace) = (negative, c :: (ds' ++ rest)) := by
    rw [htext]
    cases negative with
    | false =>
        simp only [Bool.false_eq_true, if_false, List.nil_append, List.cons_append, hdrop]
        unfold Decimal.sign
        split
        · rename_i heq
          exact absurd (List.cons.inj heq).1 hminus
        · rename_i heq
          exact absurd (List.cons.inj heq).1 hplus
        · rfl
    | true => rfl
  rw [parseInt_eq, hsigned]
  simp only [hradix]
  rw [← List.cons_append, htake]
  simp only [hfold]

-- The place of the point of a decimal, counted from its first digit.
def point (d : Decimal) : ℤ := d.digits.length + d.exp

-- The digits before the point, unless there is an exponent: then the first digit.
def leading (d : Decimal) : ℕ :=
  if -6 < point d ∧ point d ≤ 21 then ⌊d.value⌋₊ else d.coeff / 10 ^ (d.digits.length - 1)

theorem floor_value_of_neg {d : Decimal} {m : ℕ} (h : d.exp = -(m : ℤ)) :
    ⌊d.value⌋₊ = d.coeff / 10 ^ m := by
  have hvalue : d.value = (d.coeff : ℚ) / ((10 ^ m : ℕ) : ℚ) := by
    rw [Decimal.value, Decimal.pow10_eq, h, zpow_neg, zpow_natCast, div_eq_mul_inv]
    push_cast
    rfl
  rw [hvalue, Nat.floor_div_eq_div]

theorem floor_value_of_nonneg {d : Decimal} {m : ℕ} (h : d.exp = m) :
    ⌊d.value⌋₊ = d.coeff * 10 ^ m := by
  have hvalue : d.value = ((d.coeff * 10 ^ m : ℕ) : ℚ) := by
    rw [Decimal.value, Decimal.pow10_eq, h, zpow_natCast]
    push_cast
    rfl
  rw [hvalue, Nat.floor_natCast]

theorem digitsValue_zeros (ds : List Char) (m : ℕ) :
    Decimal.digitsValue (ds ++ List.replicate m '0') = Decimal.digitsValue ds * 10 ^ m := by
  have hzeros : Decimal.digitsValue (List.replicate m '0') = 0 := by
    induction m with
    | zero => rfl
    | succ m ih => rw [List.replicate_succ', Rfc3339.digitsValue_append, ih]; rfl
  rw [Rfc3339.digitsValue_append, hzeros, List.length_replicate, Nat.add_zero]

-- The text of a positive number.
def numeral (d : Decimal) : List Char :=
  if (d.digits.length : ℤ) ≤ point d ∧ point d ≤ 21 then
    d.digits ++ List.replicate (point d - d.digits.length).toNat '0'
  else if 0 < point d ∧ point d ≤ 21 then
    d.digits.take (point d).toNat ++ '.' :: d.digits.drop (point d).toNat
  else if -6 < point d ∧ point d ≤ 0 then
    '0' :: '.' :: List.replicate (-point d).toNat '0' ++ d.digits
  else
    (if d.digits.length = 1 then d.digits else d.digits.take 1 ++ '.' :: d.digits.drop 1) ++
      ['e', if point d - 1 < 0 then '-' else '+'] ++ Nat.toDigits 10 (point d - 1).natAbs

theorem toList_ecmaString {q : ℚ} (h0 : q ≠ 0) :
    (Decimal.ecmaString (.fin q)).toList =
      (if q < 0 then ['-'] else []) ++ numeral (Decimal.shortest |q|) := by
  simp only [Decimal.ecmaString, if_neg h0, String.toList_ofList]
  rfl

theorem numeral_digits (d : Decimal) :
    ∃ ds rest, numeral d = ds ++ rest ∧ ds ≠ [] ∧ ds.all Char.isDigit = true ∧
      (∀ c ∈ rest.head?, c = '.' ∨ c = 'e') ∧ Decimal.digitsValue ds = leading d := by
  have hpos : 0 < d.digits.length := Nat.length_toDigits_pos
  have hall : d.digits.all Char.isDigit = true := all_isDigit_toDigits d.coeff
  have hvalue (j : ℕ) : Decimal.digitsValue (d.digits.take j) = d.coeff / 10 ^ (d.digits.length - j) :=
    digitsValue_take d.coeff j
  have htake (j : ℕ) : (d.digits.take j).all Char.isDigit = true :=
    List.all_eq_true.mpr fun c hc => List.all_eq_true.mp hall c (List.mem_of_mem_take hc)
  have hpoint : point d = d.digits.length + d.exp := rfl
  unfold numeral leading
  by_cases hwhole : (d.digits.length : ℤ) ≤ point d ∧ point d ≤ 21
  · rw [if_pos hwhole, if_pos ⟨by omega, hwhole.2⟩]
    refine ⟨_, [], (List.append_nil _).symm,
      List.append_ne_nil_of_left_ne_nil Nat.toDigits_ne_nil _, ?_, by simp, ?_⟩
    · simp [hall]
    · rw [digitsValue_zeros, floor_value_of_nonneg (m := (point d - d.digits.length).toNat) (by omega)]
      exact congrArg (· * _) (digitsValue_toDigits d.coeff)
  · rw [if_neg hwhole]
    by_cases hinside : 0 < point d ∧ point d ≤ 21
    · rw [if_pos hinside, if_pos ⟨by omega, hinside.2⟩]
      refine ⟨_, _, rfl, ?_, htake _, by simp, ?_⟩
      · rw [ne_eq, List.take_eq_nil_iff]
        exact not_or_intro (by omega) Nat.toDigits_ne_nil
      · rw [hvalue, floor_value_of_neg (m := d.digits.length - (point d).toNat) (by omega)]
    · rw [if_neg hinside]
      by_cases hsmall : -6 < point d ∧ point d ≤ 0
      · rw [if_pos hsmall, if_pos ⟨hsmall.1, by omega⟩]
        refine ⟨['0'], _, rfl, by simp, by decide, by simp, ?_⟩
        have hlt : d.coeff < 10 ^ d.digits.length := (Nat.length_toDigits_le_iff (by norm_num) hpos).mp le_rfl
        rw [floor_value_of_neg (m := d.digits.length + (-point d).toNat) (by omega), Nat.div_eq_of_lt]
        · rfl
        · exact hlt.trans_le (Nat.pow_le_pow_right (by norm_num) (by omega))
      · have hbare : ¬(-6 < point d ∧ point d ≤ 21) := by omega
        rw [if_neg hsmall, if_neg hbare]
        by_cases hone : d.digits.length = 1
        · rw [if_pos hone, List.append_assoc]
          refine ⟨_, _, rfl, Nat.toDigits_ne_nil, hall, by simp, ?_⟩
          rw [hone, Nat.sub_self, Nat.pow_zero, Nat.div_one]
          exact digitsValue_toDigits d.coeff
        · rw [if_neg hone, List.append_assoc, List.append_assoc]
          refine ⟨_, _, rfl, ?_, htake 1, by simp, hvalue 1⟩
          rw [ne_eq, List.take_eq_nil_iff]
          exact not_or_intro one_ne_zero Nat.toDigits_ne_nil

theorem parseInt_number {q : ℚ} (h0 : q ≠ 0) :
    parseInt rt (some (.number (.fin q))) =
      rt.round (if q < 0 then -(leading (Decimal.shortest |q|) : ℚ)
        else leading (Decimal.shortest |q|)) := by
  obtain ⟨ds, rest, hsplit, hne, hds, hrest, hvalue⟩ := numeral_digits (Decimal.shortest |q|)
  have htext : (text (some (Value.number (.fin q)))).toList =
      (if decide (q < 0) then ['-'] else []) ++ ds ++ rest := by
    rw [List.append_assoc, ← hsplit]
    simpa [text, valueText] using toList_ecmaString h0
  rw [parseInt_digits htext hne hds hrest, hvalue]
  simp

end ParseInt

end JsonScada.Mqtt
