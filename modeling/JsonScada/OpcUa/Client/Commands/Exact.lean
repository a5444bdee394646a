import Mathlib.Data.List.TakeWhile
import JsonScada.OpcUa.Client.Commands

-- A variant holds what the command says, or there is none.
namespace JsonScada.OpcUa.Client

open JsonScada.Library

section Types

-- The types that a command may name.
def typeNames : List (String × UaType) :=
  [("boolean", .boolean), ("sbyte", .int true 8), ("byte", .int false 8), ("int16", .int true 16),
    ("uint16", .int false 16), ("integer", .int true 32), ("int32", .int true 32),
    ("uint32", .int false 32), ("int64", .int true 64), ("uint64", .int false 64),
    ("float", .float), ("double", .double), ("datetime", .dateTime), ("string", .text),
    ("bytestring", .text), ("localizedtext", .text), ("qualifiedname", .text), ("nodeid", .text),
    ("guid", .text), ("expandednodeid", .text), ("xmlelement", .text)]

-- The numbers of an integer type.
def InRange (signed : Bool) (bits : ℕ) (z : ℤ) : Prop :=
  if signed then -2 ^ (bits - 1) ≤ z ∧ z < 2 ^ (bits - 1) else 0 ≤ z ∧ z < 2 ^ bits

-- What a variant of a type holds for a number and a text.
def Exact (value : Double) (valueString : String) : UaType → UaScalar → Prop
  | .boolean, x => x = .boolean (!Double.eq value (.fin 0))
  | .int signed bits, x => ∃ q, value = .fin q ∧ x = .int signed bits (Double.roundEven q) ∧
      InRange signed bits (Double.roundEven q)
  | .float, x => x = .float (FloatFormat.single.convert value) ∧
      (value.isInf = false → (FloatFormat.single.convert value).isInf = false)
  | .double, x => x = .double value
  | .dateTime, x => ∃ q, value = .fin q ∧ x = .dateTime (Double.roundEven q * 1000000)
  | .text, x => x = .text valueString

-- What an array of a type holds for an element of a JSON array.
def Lists : UaType → Json → UaScalar → Prop
  | .boolean, el, x => ∃ b, el = .bool b ∧ x = .boolean b
  | .int signed bits, el, x => ∃ text z, el = .number text ∧ literal text = some ((z : ℤ) : ℚ) ∧
      x = .int signed bits z ∧ InRange signed bits z
  | .float, el, x => ∃ text q r, el = .number text ∧ literal text = some q ∧
      FloatFormat.single.round q = .fin r ∧ x = .float (.fin r)
  | .double, el, x => ∃ text q r, el = .number text ∧ literal text = some q ∧
      Double.round q = .fin r ∧ x = .double (.fin r)
  | .dateTime, el, x => ∃ units t, el = .string units ∧
      Rfc3339.read (Utf16.decode units) = some t ∧ x = .dateTime ⌊t.exact⌋
  | .text, el, x => ∃ units, el = .string units ∧ x = .text (String.ofList (Utf16.decode units))

variable (rt : VariantRuntime)

-- What a command of an array may write.
def WritesArray (asdu valueString : String) (x : UaValue) : Prop :=
  ∃ items type xs, Json.parse valueString.toList = some (.array items) ∧
    typeNames.lookup (elemType rt asdu) = some type ∧ x = .array type xs ∧
      List.Forall₂ (Lists type) items xs

-- What a command with some type name, number and text may write.
def Writes (asdu : String) (value : Double) (valueString : String) (x : UaValue) : Prop :=
  if asdu.toList.count '[' = 1 then WritesArray rt asdu valueString x
  else
    ∃ type y, typeNames.lookup (typeName rt asdu) = some type ∧ x = .scalar y ∧
      Exact value valueString type y

end Types

section Numbers

variable {rt : VariantRuntime} {signed : Bool} {bits : ℕ} {typ : String} {s : List Char} {z : ℤ}

theorem roundChecked_ok {v : Double} {lo hiExcl : ℤ} (h : roundChecked rt v lo hiExcl typ = .ok z) :
    ∃ q, v = .fin q ∧ z = Double.roundEven q ∧ lo ≤ z ∧ z < hiExcl := by
  cases v with
  | fin q =>
      simp only [roundChecked] at h
      split_ifs at h with hrange
      obtain rfl := Except.ok.inj h
      exact ⟨q, rfl, rfl, by omega, by omega⟩
  | nan => cases h
  | inf negative => cases h

-- The bounds that are written out have to be those of the type.
theorem toInteger_ok {v : Double} {lo hiExcl : ℤ} {x : UaScalar}
    (hlo : lo = if signed then -2 ^ (bits - 1) else 0)
    (hhi : hiExcl = if signed then 2 ^ (bits - 1) else 2 ^ bits)
    (h : toInteger rt signed bits v typ lo hiExcl = .ok x) (valueString : String) :
    Exact v valueString (.int signed bits) x := by
  obtain ⟨z, hz, rfl⟩ := Fallible.ok_of_map h
  obtain ⟨q, rfl, rfl, hlow, hhigh⟩ := roundChecked_ok hz
  refine ⟨q, rfl, rfl, ?_⟩
  rw [hlo] at hlow
  rw [hhi] at hhigh
  cases signed with
  | true => exact ⟨hlow, hhigh⟩
  | false => exact ⟨hlow, hhigh⟩

theorem toFloat32_ok {v : Double} {x : UaScalar} (h : toFloat32 rt v = .ok x)
    (valueString : String) : Exact v valueString .float x := by
  unfold toFloat32 at h
  dsimp only at h
  split_ifs at h with hrange
  refine ⟨(Except.ok.inj h).symm, fun hfinite => ?_⟩
  simpa [hfinite] using hrange

theorem toDateTime_ok {v : Double} {x : UaScalar} (h : toDateTime rt v = .ok x)
    (valueString : String) : Exact v valueString .dateTime x := by
  obtain ⟨ms, hms, h⟩ := Fallible.ok_of_bind h
  obtain ⟨q, rfl, rfl, -, -⟩ := roundChecked_ok hms
  split_ifs at h
  exact ⟨q, rfl, (Except.ok.inj h).symm⟩

theorem takeWhile_digits (h : s.all Char.isDigit = true) :
    s.takeWhile Char.isDigit = s ∧ s.dropWhile Char.isDigit = [] := by
  rw [List.takeWhile_eq_self_iff, List.dropWhile_eq_nil_iff]
  exact ⟨List.all_eq_true.mp h, List.all_eq_true.mp h⟩

-- Digits behind a sign name an integer.
theorem literal_of_digits (hs : (Decimal.sign s).2 ≠ [])
    (hall : (Decimal.sign s).2.all Char.isDigit = true) :
    literal s = some (if (Decimal.sign s).1 then -(Decimal.digitsValue (Decimal.sign s).2 : ℚ)
      else Decimal.digitsValue (Decimal.sign s).2) := by
  obtain ⟨htake, hdrop⟩ := takeWhile_digits hall
  rw [literal, Decimal.parse]
  generalize Decimal.sign s = signed at *
  obtain ⟨negative, ds⟩ := signed
  dsimp only at *
  rw [htake, hdrop]
  cases negative <;>
    simp [hs, Decimal.exponentPart, Decimal.value, Decimal.pow10]

theorem parseInt_some (h : parseInt bits s = some z) :
    literal s = some (z : ℚ) ∧ InRange true bits z := by
  unfold parseInt at h
  have hliteral := literal_of_digits (s := s)
  generalize Decimal.sign s = signed at *
  obtain ⟨negative, ds⟩ := signed
  dsimp only at *
  split_ifs at h with hds hneg hrange hrange <;> push Not at hds
  · rw [hliteral hds.1 (by simpa using hds.2), if_pos hneg]
    obtain rfl := Option.some.inj h
    refine ⟨by push_cast; rfl, ?_⟩
    show -2 ^ (bits - 1) ≤ _ ∧ _ < _
    have hpos : (0 : ℤ) < 2 ^ (bits - 1) := by positivity
    have hcast : (Decimal.digitsValue ds : ℤ) ≤ 2 ^ (bits - 1) := by exact_mod_cast hrange
    omega
  · rw [hliteral hds.1 (by simpa using hds.2), if_neg hneg]
    obtain rfl := Option.some.inj h
    refine ⟨by push_cast; rfl, ?_⟩
    show -2 ^ (bits - 1) ≤ _ ∧ _ < _
    have hpos : (0 : ℤ) < 2 ^ (bits - 1) := by positivity
    have hcast : (Decimal.digitsValue ds : ℤ) < 2 ^ (bits - 1) := by exact_mod_cast hrange
    omega

theorem sign_of_isDigit {c : Char} (h : c.isDigit = true) :
    Decimal.sign (c :: s) = (false, c :: s) := by
  unfold Decimal.sign
  split
  · simp_all
  · simp_all
  · rfl

theorem parseUint_some (h : parseUint bits s = some z) :
    literal s = some (z : ℚ) ∧ InRange false bits z := by
  unfold parseUint at h
  dsimp only at h
  split_ifs at h with hds hrange
  push Not at hds
  obtain ⟨hne, hall⟩ := hds
  have hall : s.all Char.isDigit = true := by simpa using hall
  have hsign : Decimal.sign s = (false, s) := by
    cases s with
    | nil => exact absurd rfl hne
    | cons c s => exact sign_of_isDigit (List.all_eq_true.mp hall c List.mem_cons_self)
  have hliteral := literal_of_digits (s := s) (by rw [hsign]; exact hne) (by rw [hsign]; exact hall)
  rw [hsign, if_neg Bool.false_ne_true] at hliteral
  obtain rfl := Option.some.inj h
  refine ⟨by rw [hliteral]; push_cast; rfl, ?_⟩
  show 0 ≤ _ ∧ _ < _
  have hcast : (Decimal.digitsValue s : ℤ) < 2 ^ bits := by exact_mod_cast hrange
  omega

theorem parseFloat_some {round : ℚ → Double} {x : Double} (h : parseFloat round s = some x) :
    ∃ q r, literal s = some q ∧ round q = .fin r ∧ x = .fin r := by
  unfold parseFloat at h
  split at h
  · rename_i r heq
    obtain ⟨q, hq, hround⟩ := Option.map_eq_some_iff.mp heq
    exact ⟨q, r, hq, hround, (Option.some.inj h).symm⟩
  · cases h

end Numbers

section Elements

variable {rt : VariantRuntime} {typ : String} {i : ℕ} {el : Json} {x : UaScalar}

theorem jsonNumber_ok {text : List Char} (h : jsonNumber el i = .ok text) : el = .number text := by
  cases el with
  | number s => exact congrArg Json.number (Except.ok.inj h)
  | null => cases h
  | bool b => cases h
  | string units => cases h
  | array items => cases h
  | object members => cases h

theorem lists_integerElement {signed : Bool} {bits : ℕ}
    (h : integerElement signed bits typ i el = .ok x) : Lists (.int signed bits) el x := by
  obtain ⟨text, htext, hok⟩ := Fallible.ok_of_bind h
  obtain rfl := jsonNumber_ok htext
  split at hok
  · rename_i n hn
    obtain rfl := Except.ok.inj hok
    cases signed with
    | true =>
        obtain ⟨hliteral, hrange⟩ := parseInt_some hn
        exact ⟨text, n, rfl, hliteral, rfl, hrange⟩
    | false =>
        obtain ⟨hliteral, hrange⟩ := parseUint_some hn
        exact ⟨text, n, rfl, hliteral, rfl, hrange⟩
  · cases hok

theorem floatElement_ok {round : ℚ → Double} {make : Double → UaScalar}
    (h : floatElement round make typ i el = .ok x) :
    ∃ text q r, el = .number text ∧ literal text = some q ∧ round q = .fin r ∧
      x = make (.fin r) := by
  obtain ⟨text, htext, hok⟩ := Fallible.ok_of_bind h
  obtain rfl := jsonNumber_ok htext
  split at hok
  · rename_i f hf
    obtain ⟨q, r, hliteral, hround, rfl⟩ := parseFloat_some hf
    exact ⟨text, q, r, rfl, hliteral, hround, (Except.ok.inj hok).symm⟩
  · cases hok

theorem textElement_ok {s : String} (h : textElement i el typ = .ok s) :
    ∃ units, el = .string units ∧ s = String.ofList (Utf16.decode units) := by
  cases el with
  | string units => exact ⟨units, rfl, (Except.ok.inj h).symm⟩
  | null => cases h
  | bool b => cases h
  | number text => cases h
  | array items => cases h
  | object members => cases h

theorem lists_booleanElement (h : booleanElement i el = .ok x) : Lists .boolean el x := by
  cases el with
  | bool b => exact ⟨b, rfl, (Except.ok.inj h).symm⟩
  | string units => cases h
  | null => cases h
  | number text => cases h
  | array items => cases h
  | object members => cases h

theorem lists_dateTimeElement (h : dateTimeElement rt i el = .ok x) : Lists .dateTime el x := by
  obtain ⟨s, hs, hok⟩ := Fallible.ok_of_bind h
  obtain ⟨units, rfl, rfl⟩ := textElement_ok hs
  split at hok
  · rename_i ns hns
    rw [String.toList_ofList, Rfc3339.parse_eq_some_iff] at hns
    obtain ⟨t, ht, rfl⟩ := hns
    exact ⟨units, t, rfl, ht, (Except.ok.inj hok).symm⟩
  · cases hok

theorem lists_floatElement
    (h : floatElement FloatFormat.single.round .float typ i el = .ok x) : Lists .float el x :=
  floatElement_ok h

theorem lists_doubleElement (h : floatElement Double.round .double typ i el = .ok x) :
    Lists .double el x := floatElement_ok h

theorem lists_textElement (h : (textElement i el typ).map UaScalar.text = .ok x) :
    Lists .text el x := by
  obtain ⟨s, hs, rfl⟩ := Fallible.ok_of_map h
  obtain ⟨units, rfl, rfl⟩ := textElement_ok hs
  exact ⟨units, rfl, rfl⟩

theorem lists_elements {type : UaType} {convert : ℕ → Json → Except String UaScalar}
    {raw : List Json} {xs : List UaScalar} (h : elements convert raw = .ok xs)
    (hconvert : ∀ i el x, convert i el = .ok x → Lists type el x) :
    List.Forall₂ (Lists type) raw xs := by
  have hitems := Fallible.forall₂_of_mapM h
  rw [← List.zipIdx_map_fst 0 raw, List.forall₂_map_left_iff]
  exact hitems.imp fun el x hx => hconvert el.2 el.1 x hx

end Elements

section Variants

variable {rt : VariantRuntime} {asdu valueString : String} {value : Double} {v : rt.Variant}

-- The library gives a variant of the value that it is given.
def Keeps (rt : VariantRuntime) : Prop := ∀ x v, rt.newVariant x = .ok v → rt.valueOf v = x

theorem converted_variant {x : Except String UaValue} (hkeeps : Keeps rt)
    (h : converted rt x = .variant v) : x = .ok (rt.valueOf v) := by
  unfold converted at h
  split at h
  · rename_i w hw
    obtain rfl := Conversion.variant.inj h
    obtain ⟨y, rfl, hy⟩ := Fallible.ok_of_bind hw
    rw [hkeeps y w hy]
  · cases h

theorem variantOf_variant {x : Except String UaScalar} (hkeeps : Keeps rt)
    (h : variantOf rt x = .variant v) : ∃ y, x = .ok y ∧ rt.valueOf v = .scalar y := by
  obtain ⟨y, hy, hv⟩ := Fallible.ok_of_map (converted_variant hkeeps h)
  exact ⟨y, hy, hv.symm⟩

theorem arrayOf_variant {type : UaType} {convert : ℕ → Json → Except String UaScalar}
    {raw : List Json} (hkeeps : Keeps rt) (h : arrayOf rt type convert raw = .variant v)
    (hconvert : ∀ i el x, convert i el = .ok x → Lists type el x) :
    ∃ xs, rt.valueOf v = .array type xs ∧ List.Forall₂ (Lists type) raw xs := by
  obtain ⟨xs, hxs, hv⟩ := Fallible.ok_of_map (converted_variant hkeeps h)
  exact ⟨xs, hv.symm, lists_elements hxs hconvert⟩

theorem decodeJSONArray_some {raw : List Json} (h : decodeJSONArray valueString = some raw) :
    Json.parse valueString.toList = some (.array raw) := by
  unfold decodeJSONArray at h
  split at h
  · rename_i items hitems
    obtain rfl := Option.some.inj h
    exact Json.parse_of_decode hitems
  · cases h

theorem arrayVariant_lists (hkeeps : Keeps rt) (h : arrayVariant rt asdu valueString = .variant v) :
    WritesArray rt asdu valueString (rt.valueOf v) := by
  unfold arrayVariant at h
  split_ifs at h
  split at h
  · cases h
  · rename_i raw hraw
    have hlists : ∀ {type : UaType} {convert : ℕ → Json → Except String UaScalar},
        typeNames.lookup (elemType rt asdu) = some type →
        arrayOf rt type convert raw = .variant v →
        (∀ i el x, convert i el = .ok x → Lists type el x) →
        WritesArray rt asdu valueString (rt.valueOf v) := by
      intro type convert htype harray hconvert
      obtain ⟨xs, hv, hall⟩ := arrayOf_variant hkeeps harray hconvert
      exact ⟨raw, type, xs, decodeJSONArray_some hraw, htype, hv, hall⟩
    split at h <;> rename_i hname
    · exact hlists (by rw [hname]; rfl) h fun _ _ _ => lists_dateTimeElement
    · exact hlists (by rw [hname]; rfl) h fun _ _ _ => lists_integerElement
    · exact hlists (by rw [hname]; rfl) h fun _ _ _ => lists_integerElement
    · exact hlists (by rw [hname]; rfl) h fun _ _ _ => lists_integerElement
    · exact hlists (by rw [hname]; rfl) h fun _ _ _ => lists_integerElement
    · exact hlists (by rw [hname]; rfl) h fun _ _ _ => lists_integerElement
    · exact hlists (by rw [hname]; rfl) h fun _ _ _ => lists_integerElement
    · exact hlists (by rw [hname]; rfl) h fun _ _ _ => lists_integerElement
    · exact hlists (by rw [hname]; rfl) h fun _ _ _ => lists_floatElement
    · exact hlists (by rw [hname]; rfl) h fun _ _ _ => lists_doubleElement
    · exact hlists (by rw [hname]; rfl) h fun _ _ _ => lists_booleanElement
    all_goals first
      | exact hlists (by rw [hname]; rfl) h fun _ _ _ => lists_textElement
      | cases h

theorem commandVariant_writes (hkeeps : Keeps rt)
    (h : commandVariant rt asdu value valueString = .variant v) :
    Writes rt asdu value valueString (rt.valueOf v) := by
  unfold Writes
  unfold commandVariant at h
  split_ifs at h ⊢ with harray
  · exact arrayVariant_lists hkeeps h
  · have hscalar : ∀ (type : UaType) {x : Except String UaScalar},
        typeNames.lookup (typeName rt asdu) = some type → variantOf rt x = .variant v →
        (∀ y, x = .ok y → Exact value valueString type y) →
        ∃ type y, typeNames.lookup (typeName rt asdu) = some type ∧ rt.valueOf v = .scalar y ∧
          Exact value valueString type y := by
      intro type x htype hvariant hexact
      obtain ⟨y, hy, hv⟩ := variantOf_variant hkeeps hvariant
      exact ⟨type, y, htype, hv, hexact y hy⟩
    have hint : ∀ (signed : Bool) (bits : ℕ) {typ : String} {lo hiExcl : ℤ},
        typeNames.lookup (typeName rt asdu) = some (.int signed bits) →
        variantOf rt (toInteger rt signed bits value typ lo hiExcl) = .variant v →
        (lo = if signed then -2 ^ (bits - 1) else 0) →
        (hiExcl = if signed then 2 ^ (bits - 1) else 2 ^ bits) → _ :=
      fun signed bits _ _ _ htype hvariant hlo hhi =>
        hscalar (.int signed bits) htype hvariant fun y hy => toInteger_ok hlo hhi hy valueString
    split at h <;> rename_i hname
    · exact hscalar .boolean (by rw [hname]; rfl) h fun y hy => (Except.ok.inj hy).symm
    · exact hint true 8 (by rw [hname]; rfl) h (by norm_num) (by norm_num)
    · exact hint false 8 (by rw [hname]; rfl) h (by norm_num) (by norm_num)
    · exact hint true 16 (by rw [hname]; rfl) h (by norm_num) (by norm_num)
    · exact hint false 16 (by rw [hname]; rfl) h (by norm_num) (by norm_num)
    · exact hint true 32 (by rw [hname]; rfl) h (by norm_num) (by norm_num)
    · exact hint true 32 (by rw [hname]; rfl) h (by norm_num) (by norm_num)
    · exact hint false 32 (by rw [hname]; rfl) h (by norm_num) (by norm_num)
    · exact hint true 64 (by rw [hname]; rfl) h (by norm_num) (by norm_num)
    · exact hint false 64 (by rw [hname]; rfl) h (by norm_num) (by norm_num)
    · exact hscalar .float (by rw [hname]; rfl) h fun y hy => toFloat32_ok hy valueString
    · exact hscalar .double (by rw [hname]; rfl) h fun y hy => (Except.ok.inj hy).symm
    · exact hscalar .dateTime (by rw [hname]; rfl) h fun y hy => toDateTime_ok hy valueString
    all_goals first
      | exact hscalar .text (by rw [hname]; rfl) h fun y hy => (Except.ok.inj hy).symm
      | cases h

-- Variants that are the values themselves.
def plainVariants : VariantRuntime where
  Variant := UaValue
  newVariant := .ok
  valueOf := id
  toLower := String.toLower
  formatV := Strconv.formatFloat 'e'
  timeError := id

instance : DecidableEq plainVariants.Variant := inferInstanceAs (DecidableEq UaValue)

theorem plainVariants_keeps : Keeps plainVariants := fun _ _ h => (Except.ok.inj h).symm

-- Half to even, and in range.
theorem commandVariant_writes_int16 :
    Writes plainVariants "Int16" (.fin (5 / 2)) "" (.scalar (.int true 16 2)) :=
  @commandVariant_writes plainVariants "Int16" "" (.fin (5 / 2))
    (UaValue.scalar (.int true 16 2)) plainVariants_keeps (by decide +kernel)

-- A fraction of ten nines is written as one of nine.
theorem dateTime_truncated :
    commandVariant plainVariants "datetime[]" (.fin 0) "[\"1970-01-01T00:00:00.9999999999Z\"]" =
        .variant (UaValue.array .dateTime [.dateTime 999999999]) ∧
      ∀ t, Rfc3339.read "1970-01-01T00:00:00.9999999999Z".toList = some t →
        t.exact ≠ 999999999 := by
  constructor
  · decide +kernel
  · intro t ht
    have hexact : (Rfc3339.read "1970-01-01T00:00:00.9999999999Z".toList).map
        (fun t => decide (t.exact = 999999999)) = some false := by decide +kernel
    rw [ht] at hexact
    simpa using hexact

end Variants

end JsonScada.OpcUa.Client
