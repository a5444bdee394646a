import JsonScada.Iccp.Client.Coverage
import JsonScada.Library.FloatFormat

-- The value of a command on its way to the peer: converted by the type that the tag names, then
-- by the type that the peer declares.
namespace JsonScada.Iccp.Client

open JsonScada.Library
open JsonScada.Processor (Value)

section Model

-- What the language leaves open: some value of the type for a number that the type does not have.
structure Conversions where
  toLower : String → String
  toInteger : Bool → ℕ → Double → ℤ
  toInteger_inRange : ∀ signed bits x, InRange signed bits (toInteger signed bits x)
  toFloat32 : Double → Double

structure CommandQueueEntry where
  protocolSourceASDU : Value
  value : Double
  valueString : String

-- A value to write, by the constructor of the protocol's library that makes it.
inductive CommandValue where
  | boolean (b : Bool)
  | integer (z : ℤ)
  | unsigned (z : ℤ)
  | float32 (x : Double)
  | float64 (x : Double)
  | visibleString (s : String)

-- The type that the peer declares for a control point. Integers have a width in bits too, which
-- nothing here reads.
inductive DeclaredType where
  | floatingPoint (formatWidth : ℕ)
  | integer (bits : ℕ)
  | unsigned (bits : ℕ)
  | boolean
  | struct
  | other

inductive NamedType where
  | boolean
  | int (signed : Bool) (bits : ℕ)
  | float
  | double
  | text
  deriving DecidableEq

def typeNames : List (String × NamedType) :=
  [("boolean", .boolean), ("sbyte", .int true 8), ("byte", .int false 8), ("int16", .int true 16),
    ("uint16", .int false 16), ("int32", .int true 32), ("integer", .int true 32),
    ("uint32", .int false 32), ("int64", .int true 64), ("uint64", .int false 64),
    ("float", .float), ("double", .double), ("string", .text), ("bytestring", .text),
    ("localizedtext", .text), ("qualifiedname", .text), ("nodeid", .text), ("guid", .text)]

variable (go : Conversions)

-- A conversion to an integer type, towards zero.
def Conversions.convertInteger (signed : Bool) (bits : ℕ) (x : Double) : ℤ :=
  if x.isFinite ∧ InRange signed bits x.toInt then x.toInt else go.toInteger signed bits x

def Conversions.convertFloat32 (x : Double) : Double :=
  if x.isFinite ∧ ¬(FloatFormat.single.convert x).isFinite then go.toFloat32 x
  else FloatFormat.single.convert x

variable (pl : Platform)

def namedType (asdu : String) : NamedType :=
  if 0 < asdu.toList.count '[' then .text else (typeNames.lookup asdu).getD .double

def CommandQueueEntry.type (cmd : CommandQueueEntry) : NamedType :=
  namedType (go.toLower (asduToString pl cmd.protocolSourceASDU))

def valueOfType (value : Double) (valueString : String) : NamedType → CommandValue
  | .boolean => .boolean (!Double.eq value (.fin 0))
  | .int true bits => .integer (go.convertInteger true bits value)
  | .int false bits => .unsigned (go.convertInteger false bits value)
  | .float => .float32 (go.convertFloat32 value)
  | .double => .float64 value
  | .text => .visibleString valueString

def commandToDataValue (cmd : CommandQueueEntry) : CommandValue :=
  valueOfType go cmd.value cmd.valueString (cmd.type go pl)

def dataValueToFloat : CommandValue → Option Double
  | .float32 x => some x
  | .float64 x => some x
  | .integer z => some (Double.round z)
  | .unsigned z => some (Double.round z)
  | .boolean b => some (.fin (if b then 1 else 0))
  | .visibleString _ => none

def CommandValue.isFloat : CommandValue → Bool
  | .float32 _ => true
  | .float64 _ => true
  | _ => false

def CommandValue.isInteger : CommandValue → Bool
  | .integer _ => true
  | _ => false

def CommandValue.isUnsigned : CommandValue → Bool
  | .unsigned _ => true
  | _ => false

def CommandValue.isBoolean : CommandValue → Bool
  | .boolean _ => true
  | _ => false

-- The value that is sent, given what could be read of the declared type.
def adaptCommandValue (spec : Option DeclaredType) (dv : CommandValue) : CommandValue :=
  match spec, dataValueToFloat dv with
  | some (.floatingPoint formatWidth), some num =>
      if dv.isFloat then dv
      else if 32 < formatWidth then .float64 num
      else .float32 (go.convertFloat32 num)
  | some (.integer _), some num =>
      if dv.isInteger then dv else .integer (go.convertInteger true 64 num)
  | some (.unsigned _), some num =>
      if dv.isUnsigned then dv else .unsigned (go.convertInteger false 64 num)
  | some .boolean, some num => if dv.isBoolean then dv else .boolean (!Double.eq num (.fin 0))
  | _, _ => dv

end Model

section Specification

-- What a value holds, whatever its encoding. A boolean is one or zero.
inductive Held where
  | number (x : Double)
  | text (s : String)
  deriving DecidableEq

def CommandValue.held : CommandValue → Held
  | .boolean b => .number (.fin (if b then 1 else 0))
  | .integer z => .number (.fin z)
  | .unsigned z => .number (.fin z)
  | .float32 x => .number x
  | .float64 x => .number x
  | .visibleString s => .text s

-- A number as a type has it: its truth, its integer part or the nearest number of the format.
-- There is none where the type does not reach that far.
def truthOf (q : ℚ) : Option ℚ := some (if q = 0 then 0 else 1)

def integerOf (signed : Bool) (bits : ℕ) (q : ℚ) : Option ℚ :=
  if InRange signed bits (Double.fin q).toInt then some (Double.fin q).toInt else none

def singleOf (q : ℚ) : Option ℚ :=
  match FloatFormat.single.round q with
  | .fin r => some r
  | _ => none

def asNamed (q : ℚ) : NamedType → Option ℚ
  | .boolean => truthOf q
  | .int signed bits => integerOf signed bits q
  | .float => singleOf q
  | .double => some q
  | .text => none

def asDeclared (q : ℚ) : Option DeclaredType → Option ℚ
  | some (.floatingPoint formatWidth) => if 32 < formatWidth then some q else singleOf q
  | some (.integer bits) => integerOf true bits q
  | some (.unsigned bits) => integerOf false bits q
  | some .boolean => truthOf q
  | _ => some q

-- What has to be written for a number and a text. Nothing where the number is to be refused.
def asked (type : NamedType) (spec : Option DeclaredType) (q : ℚ) (valueString : String) :
    Option Held :=
  match type with
  | .text => some (.text valueString)
  | type => ((asNamed q type).bind fun r => asDeclared r spec).map fun r => .number (.fin r)

-- The number that the named type leaves.
def leftBy (type : NamedType) (q : ℚ) : ℚ :=
  match type with
  | .boolean => if q = 0 then 0 else 1
  | .int _ _ => (Double.fin q).toInt
  | .float => (singleOf q).getD 0
  | _ => q

-- The named type reaches as far as the number.
def Within (type : NamedType) (q : ℚ) : Prop :=
  match type with
  | .int signed bits => InRange signed bits (Double.fin q).toInt
  | .float => (FloatFormat.single.round q).isFinite = true
  | _ => True

-- The declared integer type does so too, and a double for a number of 32 bits is one of those.
def Carried (type : NamedType) (spec : Option DeclaredType) (q : ℚ) : Prop :=
  match spec with
  | some (.floatingPoint formatWidth) =>
      type = .double → formatWidth ≤ 32 → FloatFormat.single.round q = .fin q
  | some (.integer bits) => InRange true (min bits 64) (Double.fin (leftBy type q)).toInt
  | some (.unsigned bits) => InRange false (min bits 64) (Double.fin (leftBy type q)).toInt
  | _ => True

def Fits (type : NamedType) (spec : Option DeclaredType) (q : ℚ) : Prop :=
  type = .text ∨ Within type q ∧ Carried type spec q

end Specification

section Integers

variable {go : Conversions} {signed : Bool} {q : ℚ} {z : ℤ}

theorem convertInteger_inRange {bits : ℕ} (x : Double) :
    InRange signed bits (go.convertInteger signed bits x) := by
  unfold Conversions.convertInteger
  split_ifs with h
  · exact h.2
  · exact go.toInteger_inRange _ _ _

theorem convertInteger_of_inRange {bits : ℕ} (h : InRange signed bits (Double.fin q).toInt) :
    go.convertInteger signed bits (.fin q) = (Double.fin q).toInt := if_pos ⟨rfl, h⟩

-- A conversion to 64 bits has the number that a narrower type asks for.
theorem integerOf_eq_iff {bits : ℕ} :
    integerOf signed bits q = some ((go.convertInteger signed 64 (.fin q) : ℤ) : ℚ) ↔
      InRange signed (min bits 64) (Double.fin q).toInt := by
  rw [inRange_min, integerOf]
  by_cases hbits : InRange signed bits (Double.fin q).toInt
  · rw [if_pos hbits, Option.some.injEq, Int.cast_inj]
    constructor
    · intro h
      refine ⟨hbits, ?_⟩
      rw [h]
      exact convertInteger_inRange _
    · rintro ⟨-, hwide⟩
      exact (convertInteger_of_inRange hwide).symm
  · rw [if_neg hbits]
    simp [hbits]

theorem integerOf_intCast_iff {bits : ℕ} (hz : InRange signed 64 z) :
    integerOf signed bits z = some (z : ℚ) ↔ InRange signed (min bits 64) (Double.fin z).toInt := by
  rw [inRange_min, integerOf, Double.toInt_intCast]
  simp [hz]

end Integers

section Singles

variable {go : Conversions} {q r : ℚ}

theorem singleOf_eq_some : singleOf q = some r ↔ FloatFormat.single.round q = .fin r := by
  unfold singleOf
  cases FloatFormat.single.round q <;> simp

theorem convertFloat32_of_fin (h : FloatFormat.single.round q = .fin r) :
    go.convertFloat32 (.fin q) = .fin r := by
  have hconvert : FloatFormat.single.convert (.fin q) = .fin r := h
  rw [Conversions.convertFloat32, hconvert]
  exact if_neg fun hboth => hboth.2 rfl

-- An integer of 64 bits is within the reach of a number of 32.
theorem single_intCast {signed : Bool} {z : ℤ} (hz : InRange signed 64 z) :
    ∃ r, FloatFormat.single.round z = .fin r := by
  apply FloatFormat.finite_of_lt
  have hsmall : |z| ≤ 2 ^ 64 := by
    cases signed with
    | true =>
        obtain ⟨hlow, hhigh⟩ : -2 ^ 63 ≤ z ∧ z < 2 ^ 63 := hz
        exact abs_le.mpr ⟨by omega, by omega⟩
    | false =>
        obtain ⟨hlow, hhigh⟩ : 0 ≤ z ∧ z < 2 ^ 64 := hz
        exact abs_le.mpr ⟨by omega, by omega⟩
  have hcast : |(z : ℚ)| ≤ 2 ^ 64 := by exact_mod_cast hsmall
  refine hcast.trans_lt ?_
  norm_num [FloatFormat.single]

end Singles

section Sent

variable {go : Conversions} {dv : CommandValue} {r : ℚ}

-- What is known of a value that was made for a number.
structure Holds (dv : CommandValue) (r : ℚ) : Prop where
  num : dataValueToFloat dv = some (.fin r)
  held : dv.held = .number (.fin r)
  integer : dv.isInteger = true → ∃ z : ℤ, r = z ∧ InRange true 64 z
  unsigned : dv.isUnsigned = true → ∃ z : ℤ, r = z ∧ InRange false 64 z
  boolean : dv.isBoolean = true → r = if r = 0 then 0 else 1
  single : dv.isFloat = false → ∃ s, FloatFormat.single.round r = .fin s

theorem map_number {o : Option ℚ} :
    (o.map fun s => Held.number (.fin s)) = some (.number (.fin r)) ↔ o = some r := by
  cases o <;> simp

theorem sent_integer (h : Holds dv r) (bits : ℕ) :
    (integerOf true bits r).map (fun s => Held.number (.fin s)) =
        some (adaptCommandValue go (some (.integer bits)) dv).held ↔
      InRange true (min bits 64) (Double.fin r).toInt := by
  simp only [adaptCommandValue, h.num]
  split_ifs with hkind
  · obtain ⟨z, rfl, hz⟩ := h.integer hkind
    rw [h.held, map_number, integerOf_intCast_iff hz]
  · rw [CommandValue.held, map_number, integerOf_eq_iff]

theorem sent_unsigned (h : Holds dv r) (bits : ℕ) :
    (integerOf false bits r).map (fun s => Held.number (.fin s)) =
        some (adaptCommandValue go (some (.unsigned bits)) dv).held ↔
      InRange false (min bits 64) (Double.fin r).toInt := by
  simp only [adaptCommandValue, h.num]
  split_ifs with hkind
  · obtain ⟨z, rfl, hz⟩ := h.unsigned hkind
    rw [h.held, map_number, integerOf_intCast_iff hz]
  · rw [CommandValue.held, map_number, integerOf_eq_iff]

theorem sent_boolean (h : Holds dv r) :
    (truthOf r).map (fun s => Held.number (.fin s)) =
      some (adaptCommandValue go (some .boolean) dv).held := by
  simp only [adaptCommandValue, h.num]
  split_ifs with hkind
  · rw [h.held, map_number, truthOf, ← h.boolean hkind]
  · rw [CommandValue.held, map_number, truthOf]
    by_cases hr : r = 0 <;> simp [Double.eq, hr]

theorem sent_floatingPoint (h : Holds dv r) (formatWidth : ℕ) :
    (asDeclared r (some (.floatingPoint formatWidth))).map (fun s => Held.number (.fin s)) =
        some (adaptCommandValue go (some (.floatingPoint formatWidth)) dv).held ↔
      (dv.isFloat = true → formatWidth ≤ 32 → FloatFormat.single.round r = .fin r) := by
  simp only [adaptCommandValue, asDeclared, h.num]
  by_cases hwide : 32 < formatWidth
  · have hheld : (if dv.isFloat then dv else CommandValue.float64 (.fin r)).held =
        .number (.fin r) := by
      split_ifs
      · exact h.held
      · rfl
    simp [hwide, hheld]
  · by_cases hfloat : dv.isFloat = true
    · simp [hwide, hfloat, h.held, ← singleOf_eq_some, not_lt.mp hwide]
    · obtain ⟨s, hs⟩ := h.single (Bool.eq_false_of_not_eq_true hfloat)
      simp [hwide, hfloat, CommandValue.held, convertFloat32_of_fin hs, singleOf_eq_some.mpr hs]

end Sent

section Named

variable (go : Conversions) {type : NamedType} {q : ℚ} {valueString : String}

theorem asNamed_of_within (htext : type ≠ .text) (h : Within type q) :
    asNamed q type = some (leftBy type q) := by
  cases type with
  | boolean => rfl
  | int signed bits => exact if_pos h
  | float =>
      obtain ⟨r, hr⟩ : ∃ r, singleOf q = some r := by
        simp only [Within] at h
        cases hround : FloatFormat.single.round q with
        | fin r => exact ⟨r, singleOf_eq_some.mpr hround⟩
        | inf s => simp [hround, Double.isFinite] at h
        | nan => simp [hround, Double.isFinite] at h
      simp [asNamed, leftBy, hr]
  | double => rfl
  | text => exact absurd rfl htext

theorem within_of_asNamed {r : ℚ} (h : asNamed q type = some r) : Within type q := by
  cases type with
  | int signed bits =>
      simp only [asNamed, integerOf] at h
      split_ifs at h with hin
      exact hin
  | float =>
      simp only [Within]
      rw [singleOf_eq_some.mp h]
      rfl
  | _ => trivial

theorem holds_integer {signed : Bool} {bits : ℕ} (hbits : bits ≤ 64) (hq : Double.round q = .fin q)
    (h : Within (.int signed bits) q) :
    Holds (valueOfType go (.fin q) valueString (.int signed bits)) (leftBy (.int signed bits) q) := by
  have hwide : InRange signed 64 (Double.fin q).toInt := by
    rw [← min_eq_left hbits] at h
    exact ((inRange_min bits 64).mp h).2
  have hconvert : go.convertInteger signed bits (.fin q) = (Double.fin q).toInt :=
    convertInteger_of_inRange h
  cases signed with
  | true =>
      exact
        { num := by rw [valueOfType, hconvert, dataValueToFloat, Double.round_toInt hq]; rfl
          held := by rw [valueOfType, hconvert]; rfl
          integer := fun _ => ⟨_, rfl, hwide⟩
          unsigned := fun hkind => absurd hkind Bool.false_ne_true
          boolean := fun hkind => absurd hkind Bool.false_ne_true
          single := fun _ => single_intCast hwide }
  | false =>
      exact
        { num := by rw [valueOfType, hconvert, dataValueToFloat, Double.round_toInt hq]; rfl
          held := by rw [valueOfType, hconvert]; rfl
          integer := fun hkind => absurd hkind Bool.false_ne_true
          unsigned := fun _ => ⟨_, rfl, hwide⟩
          boolean := fun hkind => absurd hkind Bool.false_ne_true
          single := fun _ => single_intCast hwide }

theorem holds_boolean : Holds (valueOfType go (.fin q) valueString .boolean) (leftBy .boolean q) := by
  have hsingle (b : Bool) : InRange true 64 (if b then 1 else 0) := by cases b <;> decide
  refine ⟨?_, ?_, fun hkind => absurd hkind Bool.false_ne_true,
    fun hkind => absurd hkind Bool.false_ne_true, fun _ => ?_, fun _ => ?_⟩
  · by_cases h : q = 0 <;> simp [valueOfType, dataValueToFloat, leftBy, Double.eq, h]
  · by_cases h : q = 0 <;> simp [valueOfType, CommandValue.held, leftBy, Double.eq, h]
  · by_cases h : q = 0 <;> simp [leftBy, h]
  · obtain ⟨s, hs⟩ := single_intCast (hsingle (q ≠ 0))
    refine ⟨s, ?_⟩
    rw [← hs]
    by_cases h : q = 0 <;> simp [leftBy, h]

theorem holds_valueOfType (htext : type ≠ .text) (hq : Double.round q = .fin q)
    (hbits : ∀ signed bits, type = .int signed bits → bits ≤ 64) (h : Within type q) :
    Holds (valueOfType go (.fin q) valueString type) (leftBy type q) := by
  cases type with
  | boolean => exact holds_boolean go
  | int signed bits => exact holds_integer go (hbits _ _ rfl) hq h
  | float =>
      have hround := singleOf_eq_some.mp (asNamed_of_within htext h)
      refine ⟨?_, ?_, fun hkind => absurd hkind Bool.false_ne_true,
        fun hkind => absurd hkind Bool.false_ne_true, fun hkind => absurd hkind Bool.false_ne_true,
        fun hkind => absurd hkind.symm Bool.false_ne_true⟩
      · rw [valueOfType, convertFloat32_of_fin hround, dataValueToFloat]
      · rw [valueOfType, convertFloat32_of_fin hround, CommandValue.held]
  | double =>
      exact ⟨rfl, rfl, fun hkind => absurd hkind Bool.false_ne_true,
        fun hkind => absurd hkind Bool.false_ne_true, fun hkind => absurd hkind Bool.false_ne_true,
        fun hkind => absurd hkind.symm Bool.false_ne_true⟩
  | text => exact absurd rfl htext

-- What is sent is what is asked for exactly when the number fits, whatever a conversion makes of
-- a number that does not.
theorem sent_iff_carried (htext : type ≠ .text) (hq : Double.round q = .fin q)
    (hbits : ∀ signed bits, type = .int signed bits → bits ≤ 64) (h : Within type q)
    (spec : Option DeclaredType) :
    (asDeclared (leftBy type q) spec).map (fun s => Held.number (.fin s)) =
        some (adaptCommandValue go spec (valueOfType go (.fin q) valueString type)).held ↔
      Carried type spec q := by
  have hholds : Holds (valueOfType go (.fin q) valueString type) (leftBy type q) :=
    holds_valueOfType go htext hq hbits h
  match spec with
  | some (.floatingPoint formatWidth) =>
      rw [sent_floatingPoint hholds]
      cases type with
      | float =>
          have hround := singleOf_eq_some.mp (asNamed_of_within htext h)
          simp [Carried, FloatFormat.round_round hround]
      | int signed bits => cases signed <;> simp [Carried, valueOfType, CommandValue.isFloat]
      | boolean => simp [Carried, valueOfType, CommandValue.isFloat]
      | double => simp [Carried, valueOfType, CommandValue.isFloat, leftBy]
      | text => exact absurd rfl htext
  | some (.integer bits) => exact sent_integer hholds bits
  | some (.unsigned bits) => exact sent_unsigned hholds bits
  | some .boolean => exact iff_of_true (sent_boolean hholds) trivial
  | some .struct => simp [adaptCommandValue, asDeclared, hholds.held, Carried]
  | some .other => simp [adaptCommandValue, asDeclared, hholds.held, Carried]
  | none => simp [adaptCommandValue, asDeclared, hholds.held, Carried]

end Named

section Setpoints

variable (go : Conversions) (pl : Platform)

theorem namedType_bits {asdu : String} {signed : Bool} {bits : ℕ}
    (h : namedType asdu = .int signed bits) : bits ≤ 64 := by
  have hnames : ∀ name ∈ typeNames, ∀ signed bits, name.2 = .int signed bits → bits ≤ 64 := by
    simp [typeNames]
  unfold namedType at h
  split_ifs at h
  cases hlookup : typeNames.lookup asdu with
  | none => simp [hlookup] at h
  | some type =>
      rw [hlookup, Option.getD_some] at h
      obtain ⟨before, after, hsplit, -⟩ := List.lookup_eq_some_iff.mp hlookup
      exact hnames (asdu, type) (by simp [hsplit]) signed bits h

-- No number is refused. The one that is sent is the one that is asked for exactly when it fits
-- both types.
theorem setpoint_iff (cmd : CommandQueueEntry) (spec : Option DeclaredType) {q : ℚ}
    (hvalue : cmd.value = .fin q) (hq : Double.round q = .fin q) :
    asked (cmd.type go pl) spec q cmd.valueString =
        some (adaptCommandValue go spec (commandToDataValue go pl cmd)).held ↔
      Fits (cmd.type go pl) spec q := by
  have hbits (signed : Bool) (bits : ℕ) (h : cmd.type go pl = .int signed bits) : bits ≤ 64 :=
    namedType_bits h
  rw [commandToDataValue, hvalue]
  generalize cmd.type go pl = type at *
  by_cases htext : type = .text
  · subst htext
    simp [asked, Fits, valueOfType, adaptCommandValue, dataValueToFloat, CommandValue.held]
  · have hasked : asked type spec q cmd.valueString =
        ((asNamed q type).bind fun r => asDeclared r spec).map fun r => .number (.fin r) := by
      cases type <;> first | rfl | exact absurd rfl htext
    rw [hasked, Fits, or_iff_right htext]
    by_cases hwithin : Within type q
    · rw [asNamed_of_within htext hwithin, Option.bind_some, and_iff_right hwithin]
      exact sent_iff_carried go htext hq hbits hwithin spec
    · have hnone : asNamed q type = none := by
        rw [Option.eq_none_iff_forall_ne_some]
        intro r hr
        exact hwithin (within_of_asNamed hr)
      simp [hnone, hwithin]

-- Conversions that keep the low bits.
def lowBits : Conversions where
  toLower := fun s => s
  toInteger := fun signed bits x =>
    if signed then (BitVec.ofInt bits x.toInt).toInt else (BitVec.ofInt bits x.toInt).toNat
  toInteger_inRange := by
    intro signed bits x
    cases signed with
    | false =>
        have hlt := (BitVec.ofInt bits x.toInt).isLt
        exact ⟨Int.natCast_nonneg _, show ((_ : ℕ) : ℤ) < 2 ^ bits by exact_mod_cast hlt⟩
    | true => exact ⟨BitVec.le_toInt _, BitVec.toInt_lt⟩
  toFloat32 := fun x => x

def int16Setpoint (q : ℚ) : CommandQueueEntry where
  protocolSourceASDU := .string "int16"
  value := .fin q
  valueString := ""

theorem setpoint_kept :
    asked ((int16Setpoint 1000).type lowBits plain) (some (.floatingPoint 32)) 1000 "" =
      some (adaptCommandValue lowBits (some (.floatingPoint 32))
        (commandToDataValue lowBits plain (int16Setpoint 1000))).held :=
  (setpoint_iff lowBits plain (int16Setpoint 1000) (some (.floatingPoint 32)) rfl
    (Double.round_intCast (z := 1000) (by norm_num))).mpr
    (.inr ⟨show InRange true 16 (Double.fin 1000).toInt by decide, fun h => absurd h (by decide)⟩)

-- 70000 is sent as 4464.
theorem setpoint_wrapped :
    asked ((int16Setpoint 70000).type lowBits plain) (some (.integer 16)) 70000 "" = none ∧
      (adaptCommandValue lowBits (some (.integer 16))
        (commandToDataValue lowBits plain (int16Setpoint 70000))).held = .number (.fin 4464) := by
  decide

end Setpoints

end JsonScada.Iccp.Client
