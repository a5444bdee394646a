import JsonScada.Modbus.Client
import JsonScada.Processor.ChangeStream
import Mathlib.Tactic.IntervalCases

namespace JsonScada.Modbus

open JsonScada.Library
open JsonScada.Processor (Document)

section Wire

-- The number on the wire: a bit, a bit of a register, or what the registers decode to.
def wireValue (area : Area) (bit : Option Nat) (asdu : Asdu) (relStart : Nat) (raw : Bytes) :
    Option Double :=
  if isBitArea area then some (.fin (bitAt raw relStart))
  else
    match bit with
    | some bit =>
        match decode .uint16 raw relStart asdu.perm none with
        | .ok { value := .num word, .. } => some (.fin (word.toDouble.toInt.toNat / 2 ^ bit % 2 : ℕ))
        | _ => none
    | none =>
        match decode asdu.type raw relStart asdu.perm asdu.str with
        | .ok { value := .str _, .. } => none
        | .ok { value := v, .. } => some v.float.toDouble
        | .error _ => none

-- The client scales the numbers of registers, except for the 64-bit integers.
def clientScales (bit : Option Nat) (asdu : Asdu) : Bool :=
  bit.isNone && asdu.type ≠ .int64 && asdu.type ≠ .uint64

theorem bitAt_lt (raw : Bytes) (i : Nat) : bitAt raw i < 2 := Nat.mod_lt _ (by decide)

theorem decodeBcd_kind (c : Bytes) (n : Nat) : ∃ f, (decodeBcd c n).value = .num f := by
  unfold decodeBcd
  split <;> exact ⟨_, rfl⟩

-- The 64-bit integers are decoded as such, all other register types as numbers.
theorem decodeCanonical_kind {t : ValueType} {c : Bytes} {dec : DecodeResult}
    (h : decodeCanonical t c = .ok dec) :
    (t = .int64 ∧ ∃ i, dec.value = .int64 i) ∨ (t = .uint64 ∧ ∃ u, dec.value = .uint64 u) ∨
      (t ≠ .int64 ∧ t ≠ .uint64 ∧ ∃ f, dec.value = .num f) := by
  unfold decodeCanonical at h
  by_cases hlen : c.length < 2
  · simp [hlen] at h
  · simp only [hlen, if_false] at h
    cases t with
    | int64 =>
        dsimp only at h
        split at h
        · cases h
        · cases h
          exact .inl ⟨rfl, _, rfl⟩
    | uint64 =>
        dsimp only at h
        split at h
        · cases h
        · cases h
          exact .inr (.inl ⟨rfl, _, rfl⟩)
    | uint16 | int16 | bitstring16 =>
        cases h
        exact .inr (.inr ⟨by decide, by decide, _, rfl⟩)
    | uint32 | int32 | float32 | float64 =>
        dsimp only at h
        split at h
        · cases h
        · cases h
          exact .inr (.inr ⟨by decide, by decide, _, rfl⟩)
    | bcd16 =>
        cases h
        exact .inr (.inr ⟨by decide, by decide, decodeBcd_kind c 2⟩)
    | bcd32 =>
        dsimp only at h
        split at h
        · cases h
        · cases h
          exact .inr (.inr ⟨by decide, by decide, decodeBcd_kind c 4⟩)
    | bool | string | other name => cases h

theorem decode_kind {t : ValueType} {regs : Bytes} {i : Nat} {perm : Perm}
    {str : Option StringOptions} {dec : DecodeResult} (h : decode t regs i perm str = .ok dec) :
    (t = .string ∧ ∃ s, dec.value = .str s) ∨ (t = .int64 ∧ ∃ i, dec.value = .int64 i) ∨
      (t = .uint64 ∧ ∃ u, dec.value = .uint64 u) ∨
      (t ≠ .string ∧ t ≠ .int64 ∧ t ≠ .uint64 ∧ ∃ f, dec.value = .num f) := by
  unfold decode at h
  by_cases hstring : t = .string
  · left
    simp only [hstring, if_true] at h
    cases str with
    | none => cases h
    | some str =>
        cases h
        exact ⟨hstring, _, rfl⟩
  · right
    simp only [hstring, if_false] at h
    rcases decodeCanonical_kind h with h | h | ⟨hint, huint, h⟩
    · exact .inl h
    · exact .inr (.inl h)
    · exact .inr (.inr ⟨hstring, hint, huint, h⟩)

theorem toNum_of_num {doc : Document} {k : String} {q : ℚ} (default : Double)
    (h : doc.num k = some (.fin q)) : toNum (doc.lookup k) default = .fin q := by
  unfold Processor.Document.num at h
  split at h
  · next x hlookup =>
    obtain rfl := Option.some.inj h
    simp [toNum, hlookup, jsNumber, Double.isFinite]
  · cases h

theorem atSource_bool (b : Bool) :
    (TagValue.plain (.bool b)).atSource = .fin (if b then 1 else 0) := by
  cases b <;> decide +kernel

section Sent

variable {fd : Document} {area : Area} {asdu : Asdu} {relStart : Nat} {raw : Bytes} {k1 k2 r : ℚ}
  {v : TagValue} {invalid : Bool} {json : Option (List Nat)}

theorem atSource_bitArea {bit : Option Nat} (hk1 : fd.num "kconv1" = some (.fin k1))
    (harea : isBitArea area = true)
    (hwire : wireValue area bit asdu relStart raw = some (.fin r))
    (hdecode : decodeTag .fin ⟨buildBinding fd area bit asdu, relStart⟩ raw =
      .ok (v, invalid, json)) :
    v.atSource = .fin (if k1 = -1 then 1 - r else r) := by
  have hkconv1 : (buildBinding fd area bit asdu).kconv1 = .fin k1 := toNum_of_num _ hk1
  have hbd : isBitArea (buildBinding fd area bit asdu).area = true := harea
  simp only [decodeTag, hbd, if_true, hkconv1, Except.ok.injEq, Prod.mk.injEq] at hdecode
  unfold wireValue at hwire
  rw [if_pos harea, Option.some.injEq, Double.fin.injEq] at hwire
  rw [← hdecode.1, atSource_bool, ← hwire]
  have hbit := bitAt_lt raw relStart
  by_cases hinvert : k1 = -1
  · interval_cases hvalue : bitAt raw relStart <;> simp [hinvert]
  · have hplain : Double.eq (.fin k1) (.fin (-1)) = false := by simpa [Double.eq] using hinvert
    interval_cases hvalue : bitAt raw relStart <;> simp [hinvert, hplain]

theorem atSource_registerBit {i : Nat} (harea : isBitArea area = false)
    (hwire : wireValue area (some i) asdu relStart raw = some (.fin r))
    (hdecode : decodeTag .fin ⟨buildBinding fd area (some i) asdu, relStart⟩ raw =
      .ok (v, invalid, json)) :
    v.atSource = .fin r ∧ (r = 0 ∨ r = 1) := by
  have hbd : isBitArea (buildBinding fd area (some i) asdu).area = false := harea
  have hbit : (buildBinding fd area (some i) asdu).bit = some i := rfl
  have hasdu : (buildBinding fd area (some i) asdu).asdu = asdu := rfl
  simp only [decodeTag, hbd, Bool.false_eq_true, if_false, hbit, hasdu] at hdecode
  simp only [wireValue, harea, Bool.false_eq_true, if_false] at hwire
  cases hdec : decode .uint16 raw relStart asdu.perm none with
  | error e =>
      rw [hdec] at hdecode
      cases hdecode
  | ok dec =>
      obtain ⟨value, invalid', json'⟩ := dec
      obtain ⟨h, _⟩ | ⟨h, _⟩ | ⟨h, _⟩ | ⟨-, -, -, f, hf⟩ := decode_kind hdec
      · cases h
      · cases h
      · cases h
      · obtain rfl : value = .num f := hf
        rw [hdec] at hdecode hwire
        simp only [Option.some.injEq, Double.fin.injEq] at hwire
        cases hdecode
        have hlt : f.toDouble.toInt.toNat / 2 ^ i % 2 < 2 := Nat.mod_lt _ (by decide)
        rw [atSource_bool, ← hwire]
        interval_cases f.toDouble.toInt.toNat / 2 ^ i % 2 <;> simp

theorem atSource_register (hk1 : fd.num "kconv1" = some (.fin k1))
    (hk2 : fd.num "kconv2" = some (.fin k2)) (harea : isBitArea area = false)
    (hwire : wireValue area none asdu relStart raw = some (.fin r))
    (hdecode : decodeTag .fin ⟨buildBinding fd area none asdu, relStart⟩ raw =
      .ok (v, invalid, json)) :
    v.atSource = .fin (if clientScales none asdu then r * k1 + k2 else r) := by
  have hkconv1 : (buildBinding fd area none asdu).kconv1 = .fin k1 := toNum_of_num _ hk1
  have hkconv2 : (buildBinding fd area none asdu).kconv2 = .fin k2 := toNum_of_num _ hk2
  have hbd : isBitArea (buildBinding fd area none asdu).area = false := harea
  have hbit : (buildBinding fd area none asdu).bit = none := rfl
  have hasdu : (buildBinding fd area none asdu).asdu = asdu := rfl
  simp only [decodeTag, hbd, Bool.false_eq_true, if_false, hbit, hasdu, hkconv1, hkconv2] at hdecode
  simp only [wireValue, harea, Bool.false_eq_true, if_false] at hwire
  cases hdec : decode asdu.type raw relStart asdu.perm asdu.str with
  | error e =>
      rw [hdec] at hdecode
      cases hdecode
  | ok dec =>
      rw [hdec] at hdecode hwire
      obtain ⟨value, invalid', json'⟩ := dec
      obtain ⟨-, s, hs⟩ | ⟨htype, i, hi⟩ | ⟨htype, u, hu⟩ | ⟨hstring, hint, huint, f, hf⟩ :=
        decode_kind hdec
      · obtain rfl : value = .str s := hs
        cases hwire
      · obtain rfl : value = .int64 i := hi
        cases hdecode
        have hplain : clientScales none asdu = false := by simp [clientScales, htype]
        rw [hplain]
        exact Option.some.inj hwire
      · obtain rfl : value = .uint64 u := hu
        cases hdecode
        have hplain : clientScales none asdu = false := by simp [clientScales, htype]
        rw [hplain]
        exact Option.some.inj hwire
      · obtain rfl : value = .num f := hf
        have hscales : clientScales none asdu = true := by simp [clientScales, hint, huint]
        have hraw : f.toDouble = .fin r := Option.some.inj hwire
        simp only [hstring, if_false] at hdecode
        cases hdecode
        show (TagValue.scaled
          (Double.add .fin (Double.mul .fin f.toDouble (.fin k1)) (.fin k2))).atSource = _
        rw [hraw, hscales]
        rfl

end Sent

end Wire

section Handler

open JsonScada.Processor

variable (pl : Platform) (now now' : Int) (conn : Double) {fd : Document} (t : TagUpdate)

-- The dead band around zero hides a value.
def deadbandHit (fd : Document) (value : Double) : Bool :=
  fd.has "zeroDeadband" && !Double.eq (fd.numOr "zeroDeadband" (.fin 0)) (.fin 0) &&
    Double.lt value.abs (fd.numOr "zeroDeadband" (.fin 0))

theorem num_valueAtSource :
    (sourceDataUpdate now' conn t).num "valueAtSource" = some t.value.atSource := rfl

theorem not_historical : (sourceDataUpdate now' conn t).truthy "isHistorical" = false := rfl

theorem scaled_exact {k1 k2 x : ℚ} (hexact : pl.round = .fin) (hk1 : fd.num "kconv1" = some (.fin k1))
    (hk2 : fd.num "kconv2" = some (.fin k2)) (hband : deadbandHit fd (.fin (x * k1 + k2)) = false) :
    scaled pl fd (.fin x) = .fin (x * k1 + k2) := by
  simp only [scaled, Document.numOr, hk1, hk2, Option.getD_some, Double.mul, Double.add, hexact]
  by_cases hhas : fd.has "zeroDeadband" = true
  · simp only [deadbandHit, Document.numOr, hhas, Bool.true_and] at hband
    simp only [hhas, if_true, hband, Bool.false_eq_true, if_false]
  · simp only [hhas, Bool.false_eq_true, if_false]

theorem convert_analog {k1 k2 x : ℚ} (hanalog : fd.str "type" = "analog")
    (hexact : pl.round = .fin) (hk1 : fd.num "kconv1" = some (.fin k1))
    (hk2 : fd.num "kconv2" = some (.fin k2)) (hband : deadbandHit fd (.fin (x * k1 + k2)) = false)
    (hx : t.value.atSource = .fin x) :
    (convert pl now fd (sourceDataUpdate now' conn t)).value = .fin (x * k1 + k2) := by
  simp only [convert, hanalog, String.reduceEq, if_false, if_true, convertAnalog,
    num_valueAtSource, Option.getD_some, hx]
  exact scaled_exact pl hexact hk1 hk2 hband

-- No label of a type looks like the one of a double point.
theorem label_not_doublePoint {asdu : Asdu} (h : ∀ name, asdu.type ≠ .other name) :
    hasPrefix asdu.label "M_DP_" = false := by
  obtain ⟨type, byteOrder, perm, str⟩ := asdu
  unfold Asdu.label
  split
  · cases type with
    | other name => exact absurd rfl (h name)
    | _ => simp [hasPrefix, ValueType.name, List.isPrefixOf]
  · cases type with
    | other name => exact absurd rfl (h name)
    | _ => simp [hasPrefix, ValueType.name, String.toList_append, List.isPrefixOf]

theorem convert_digital {k1 x : ℚ} (hdigital : fd.str "type" = "digital")
    (hk1 : fd.num "kconv1" = some (.fin k1)) (hlabel : hasPrefix t.asduLabel "M_DP_" = false)
    (hx : t.value.atSource = .fin x) (hbit : x = 0 ∨ x = 1) :
    (convert pl now fd (sourceDataUpdate now' conn t)).value =
      .fin (if k1 = -1 then 1 - x else x) := by
  have hpoint : isDoublePoint (sourceDataUpdate now' conn t) = false := by
    have hstr : (sourceDataUpdate now' conn t).str "asduAtSource" = t.asduLabel := rfl
    rw [isDoublePoint, hstr, hlabel, Bool.and_false]
  have hinvert : Double.eq (.fin k1) (.fin (-1)) = decide (k1 = -1) := by simp [Double.eq]
  simp only [convert, hdigital, if_true, convertDigital, num_valueAtSource, Option.getD_some, hx,
    Double.isNaN, doublePoint, hpoint, invertDigital, hk1, hinvert]
  rcases hbit with rfl | rfl <;> by_cases hk : k1 = -1 <;> simp [hk, Double.eq]

theorem deadbandHit_setField (fd : Document) (v : Processor.Value) (x : Double) :
    deadbandHit (setField fd "sourceDataUpdate" v) x = deadbandHit fd x := by
  have hhas := has_setField fd "sourceDataUpdate" v (k := "zeroDeadband") (by decide)
  have hnum := num_setField fd "sourceDataUpdate" v (k := "zeroDeadband") (by decide)
  simp only [deadbandHit, Document.numOr, hhas, hnum]

-- The number that is sent for a register.
def sentNumber (bit : Option Nat) (asdu : Asdu) (k1 k2 r : ℚ) : ℚ :=
  if clientScales bit asdu then r * k1 + k2 else r

theorem atSource_number {area : Area} {bit : Option Nat} {asdu : Asdu} {relStart : Nat}
    {raw : Bytes} {k1 k2 r : ℚ} {v : TagValue} {invalid : Bool} {json : Option (List Nat)}
    (hk1 : fd.num "kconv1" = some (.fin k1)) (hk2 : fd.num "kconv2" = some (.fin k2))
    (harea : isBitArea area = false)
    (hwire : wireValue area bit asdu relStart raw = some (.fin r))
    (hdecode : decodeTag .fin ⟨buildBinding fd area bit asdu, relStart⟩ raw =
      .ok (v, invalid, json)) :
    v.atSource = .fin (sentNumber bit asdu k1 k2 r) := by
  cases bit with
  | some i =>
      have hplain : clientScales (some i) asdu = false := by simp [clientScales]
      rw [sentNumber, hplain]
      exact (atSource_registerBit harea hwire hdecode).1
  | none => exact atSource_register hk1 hk2 harea hwire hdecode

-- A bit is inverted by the client in the bit areas only.
theorem atSource_bit {area : Area} {bit : Option Nat} {asdu : Asdu} {relStart : Nat}
    {raw : Bytes} {k1 r : ℚ} {v : TagValue} {invalid : Bool} {json : Option (List Nat)}
    (hk1 : fd.num "kconv1" = some (.fin k1)) (hbit : isBitArea area = true ∨ bit.isSome = true)
    (hwire : wireValue area bit asdu relStart raw = some (.fin r))
    (hdecode : decodeTag .fin ⟨buildBinding fd area bit asdu, relStart⟩ raw =
      .ok (v, invalid, json)) :
    v.atSource = .fin (if isBitArea area = true ∧ k1 = -1 then 1 - r else r) ∧ (r = 0 ∨ r = 1) := by
  by_cases harea : isBitArea area = true
  · refine ⟨by simpa [harea] using atSource_bitArea hk1 harea hwire hdecode, ?_⟩
    unfold wireValue at hwire
    rw [if_pos harea, Option.some.injEq, Double.fin.injEq] at hwire
    have hlt := bitAt_lt raw relStart
    rw [← hwire]
    interval_cases bitAt raw relStart <;> simp
  · rw [Bool.not_eq_true] at harea
    obtain ⟨i, rfl⟩ := Option.isSome_iff_exists.mp (hbit.resolve_left (by simp [harea]))
    simpa [harea] using atSource_registerBit harea hwire hdecode

theorem decodeTag_ok (round : ℚ → Double) {bd : Binding} {relStart : Nat} {raw : Bytes}
    {r : Double} (hwire : wireValue bd.area bd.bit bd.asdu relStart raw = some r) :
    ∃ v invalid json, decodeTag round ⟨bd, relStart⟩ raw = .ok (v, invalid, json) := by
  unfold wireValue at hwire
  by_cases harea : isBitArea bd.area = true
  · simp only [decodeTag, harea, if_true]
    exact ⟨_, _, _, rfl⟩
  · simp only [harea, Bool.false_eq_true, if_false] at hwire
    simp only [decodeTag, harea, Bool.false_eq_true, if_false]
    cases hbit : bd.bit with
    | some i =>
        cases hdec : decode .uint16 raw relStart bd.asdu.perm none with
        | error e => simp [hbit, hdec] at hwire
        | ok dec => exact ⟨_, _, _, rfl⟩
    | none =>
        cases hdec : decode bd.asdu.type raw relStart bd.asdu.perm bd.asdu.str with
        | error e => simp [hbit, hdec] at hwire
        | ok dec => exact ⟨_, _, _, rfl⟩

-- What the client queues for a number on the wire.
theorem mem_decodeAndQueue (round : ℚ → Double) {bd : Binding} {relStart : Nat} {raw : Bytes}
    {isGi : Bool} {op : RtOp} {r : Double}
    (hwire : wireValue bd.area bd.bit bd.asdu relStart raw = some r)
    (hop : op ∈ decodeAndQueue round now' conn [⟨bd, relStart⟩] raw isGi) :
    ∃ t, op = queue now' conn t ∧ t.asduLabel = bd.asdu.label ∧
      decodeTag round ⟨bd, relStart⟩ raw = .ok (t.value, t.invalid, t.json) := by
  obtain ⟨v, invalid, json, hdecode⟩ := decodeTag_ok round hwire
  exact ⟨_, by simpa [decodeAndQueue, hdecode] using hop, rfl, hdecode⟩

end Handler

theorem scaled_twice_iff (bit : Option Nat) (asdu : Asdu) (k1 k2 r : ℚ) :
    sentNumber bit asdu k1 k2 r * k1 + k2 = r * k1 + k2 ↔
      (clientScales bit asdu = true → k1 = 0 ∨ r * k1 + k2 = r) := by
  by_cases hscales : clientScales bit asdu = true
  · simp only [sentNumber, hscales, if_true, forall_const]
    rw [add_left_inj, mul_eq_mul_right_iff, or_comm]
  · simp [sentNumber, hscales]

-- With exact arithmetic a tag stores its scaled value, or its bit, exactly when the
-- client has not already scaled or inverted what the handler scales and inverts again.
theorem scaled_once_iff (pl : Processor.Platform) (now now' : Int) (conn : Double) (fd : Document)
    (area : Area) (bit : Option Nat) (asdu : Asdu) (relStart : Nat) (raw : Bytes) (isGi : Bool)
    (k1 k2 r : ℚ) (op : RtOp) (hexact : pl.round = .fin)
    (hk1 : fd.num "kconv1" = some (.fin k1)) (hk2 : fd.num "kconv2" = some (.fin k2))
    (hasdu : ∀ name, asdu.type ≠ .other name)
    (hwire : wireValue area bit asdu relStart raw = some (.fin r))
    (hop : op ∈ decodeAndQueue pl.round now' conn [⟨buildBinding fd area bit asdu, relStart⟩] raw
      isGi) :
    (fd.str "type" = "analog" → isBitArea area = false →
      deadbandHit fd (.fin (sentNumber bit asdu k1 k2 r * k1 + k2)) = false →
      ((Processor.process pl now fd op.set).num "value" = some (.fin (r * k1 + k2)) ↔
        (clientScales bit asdu = true → k1 = 0 ∨ r * k1 + k2 = r))) ∧
    (fd.str "type" = "digital" → isBitArea area = true ∨ bit.isSome = true →
      Processor.isWritten pl fd op.set = true →
      ((Processor.process pl now fd op.set).num "value" =
          some (.fin (if k1 = -1 then 1 - r else r)) ↔
        (isBitArea area = true → k1 ≠ -1))) := by
  rw [hexact] at hop
  obtain ⟨t, rfl, hlabel, hdecode⟩ := mem_decodeAndQueue now' conn .fin hwire hop
  have hframe (k : String) (hk : k ≠ "sourceDataUpdate") (w : Processor.Value) :=
    Processor.str_setField fd "sourceDataUpdate" w hk
  have hnum (k : String) (hk : k ≠ "sourceDataUpdate") (w : Processor.Value) :=
    Processor.num_setField fd "sourceDataUpdate" w hk
  rw [queue, Processor.process_whole, Processor.isWritten_whole]
  constructor
  · intro hanalog harea hband
    have hsent := atSource_number hk1 hk2 harea hwire hdecode
    rw [Processor.flushed_value_analog pl now _ _ ((hframe _ (by decide) _).trans hanalog)
        (not_historical now' conn t),
      convert_analog pl now now' conn t ((hframe _ (by decide) _).trans hanalog) hexact
        ((hnum _ (by decide) _).trans hk1) ((hnum _ (by decide) _).trans hk2)
        ((deadbandHit_setField fd _ _).trans hband) hsent,
      Option.some.injEq, Double.fin.injEq]
    exact scaled_twice_iff bit asdu k1 k2 r
  · intro hdigital hbit hwritten
    obtain ⟨hsent, hr⟩ := atSource_bit hk1 hbit hwire hdecode
    have hpoint : Processor.hasPrefix t.asduLabel "M_DP_" = false := by
      rw [hlabel]
      exact label_not_doublePoint hasdu
    have hsentBit : (if isBitArea area = true ∧ k1 = -1 then 1 - r else r) = 0 ∨
        (if isBitArea area = true ∧ k1 = -1 then 1 - r else r) = 1 := by
      split
      · rcases hr with rfl | rfl <;> simp
      · exact hr
    rw [Processor.flushed_value pl now _ _ hwritten,
      convert_digital pl now now' conn t ((hframe _ (by decide) _).trans hdigital)
        ((hnum _ (by decide) _).trans hk1) hpoint hsent hsentBit,
      Option.some.injEq, Double.fin.injEq]
    by_cases hk : k1 = -1
    · by_cases harea : isBitArea area = true
      · rcases hr with rfl | rfl <;> simp [hk, harea]
      · simp [hk, harea]
    · simp [hk]

section Twice

def uint16Asdu : Asdu := { type := .uint16, byteOrder := "AB", perm := newPerm 2 [0, 1] }

-- A register that is read in tenths of a unit, and a coil that is inverted.
def scaledTag : Document :=
  [("_id", .number (.fin 1)), ("type", .string "analog"), ("kconv1", .number (.fin (1 / 10))),
    ("kconv2", .number (.fin 0)), ("value", .number (.fin 0)), ("invalid", .bool false)]

def invertedTag : Document :=
  [("_id", .number (.fin 2)), ("type", .string "digital"), ("kconv1", .number (.fin (-1))),
    ("kconv2", .number (.fin 0)), ("value", .number (.fin 0)), ("invalid", .bool false)]

def scaledOps : List RtOp :=
  decodeAndQueue .fin 0 (.fin 1) [⟨buildBinding scaledTag .holding none uint16Asdu, 0⟩]
    [0x01, 0xf4] false

def invertedOps : List RtOp :=
  decodeAndQueue .fin 0 (.fin 1) [⟨buildBinding invertedTag .coil none uint16Asdu, 0⟩] [0x01] false

-- 500 tenths are stored as 5 units, and the inverted coil is stored as it is.
theorem scaled_twice :
    wireValue .holding none uint16Asdu 0 [0x01, 0xf4] = some (.fin 500) ∧
      (∀ op ∈ scaledOps,
        (Processor.process Processor.exactPlatform 0 scaledTag op.set).num "value" = some (.fin 5)) ∧
      wireValue .coil none uint16Asdu 0 [0x01] = some (.fin 1) ∧
      ∀ op ∈ invertedOps,
        (Processor.process Processor.exactPlatform 0 invertedTag op.set).num "value" =
          some (.fin 1) := by
  refine ⟨by decide +kernel, ?_, by decide, ?_⟩ <;> decide +kernel

-- A 64-bit register and a bit of a register are scaled and inverted once.
def int64Asdu : Asdu := { type := .int64, byteOrder := "ABCDEFGH", perm := newPerm 8 (List.range 8) }

theorem scaled_once_iff_int64 :
    (∀ op ∈ decodeAndQueue .fin 0 (.fin 1) [⟨buildBinding scaledTag .holding none int64Asdu, 0⟩]
        [0, 0, 0, 0, 0, 0, 0x01, 0xf4] false,
      (Processor.process Processor.exactPlatform 0 scaledTag op.set).num "value" =
        some (.fin (500 * (1 / 10) + 0))) ∧
    ∀ op ∈ decodeAndQueue .fin 0 (.fin 1) [⟨buildBinding invertedTag .holding (some 0) uint16Asdu, 0⟩]
        [0x00, 0x00] false,
      (Processor.process Processor.exactPlatform 0 invertedTag op.set).num "value" =
        some (.fin (if (-1 : ℚ) = -1 then 1 - 0 else 0)) := by
  constructor
  · intro op hop
    refine ((scaled_once_iff Processor.exactPlatform 0 0 (.fin 1) scaledTag .holding none int64Asdu 0
      [0, 0, 0, 0, 0, 0, 0x01, 0xf4] false (1 / 10) 0 500 op rfl rfl rfl (by simp [int64Asdu])
      (by decide +kernel) hop).1 rfl rfl (by decide)).mpr ?_
    intro hscales
    cases hscales
  · intro op hop
    have hwritten : Processor.isWritten Processor.exactPlatform invertedTag op.set = true := by
      revert op
      decide +kernel
    refine ((scaled_once_iff Processor.exactPlatform 0 0 (.fin 1) invertedTag .holding (some 0)
      uint16Asdu 0 [0x00, 0x00] false (-1) 0 0 op rfl rfl rfl (by simp [uint16Asdu])
      (by decide +kernel) hop).2 rfl (.inr rfl) hwritten).mpr ?_
    intro harea
    cases harea

end Twice

end JsonScada.Modbus
