import JsonScada.Iec60870.Model
import JsonScada.OpcUa.Client.Commands.Exact

-- The arguments that a method is called with.
namespace JsonScada.OpcUa.Client

open JsonScada.Library
open JsonScada.Iec60870 (Platform)

variable (rt : VariantRuntime) (pl : Platform)

section Arguments

mutual

-- A number that is too large for a float64 fails the whole text.
def numbersFit : Json → Bool
  | .number text => (parseFloat Double.round text).isSome
  | .array items => allFit items
  | .object members => membersFit members
  | _ => true

def allFit : List Json → Bool
  | [] => true
  | v :: vs => numbersFit v && allFit vs

def membersFit : List (List ℕ × Json) → Bool
  | [] => true
  | (_, v) :: ms => numbersFit v && membersFit ms

end

-- `json.Unmarshal` into a slice; null is an empty one.
def unmarshal (valueString : String) : Option (List Json) :=
  match Json.decode (fun depth => depth ≤ maxNestingDepth) valueString.toList with
  | some (.array items) => if allFit items then some items else none
  | some .null => some []
  | _ => none

-- The type of an argument: a boolean, an integer, a number or a text.
def argument (sprint : Json → String) (el : Json) : UaScalar :=
  match el with
  | .bool b => .boolean b
  | .number text =>
      let t := (parseFloat Double.round text).getD (.fin 0)
      let n := (pl.toInt .int t).1
      if Double.eq t (Double.round n) then .int true 64 n else .double t
  | .string units => .text (String.ofList (Utf16.decode units))
  | el => .text (sprint el)

-- A text that is not an array of JSON is no arguments.
def methodArguments (sprint : Json → String) (valueString : String) :
    Except String (List rt.Variant) :=
  if Processor.trim Processor.isSpace valueString.toList = [] then .ok []
  else
    match unmarshal valueString with
    | none => .ok []
    | some raw => raw.mapM fun el => rt.newVariant (.scalar (argument pl sprint el))

end Arguments

section Given

-- What an element of the array gives. Nothing is said of an integer that no float64 is equal to.
def Gives (sprint : Json → String) : Json → UaValue → Prop
  | .bool b, x => x = .scalar (.boolean b)
  | .string units, x => x = .scalar (.text (String.ofList (Utf16.decode units)))
  | .number text, x =>
      (∀ z, parseInt 64 text = some z → Double.round z = .fin z → x = .scalar (.int true 64 z)) ∧
        (parseInt 64 text = none → ∃ q r, literal text = some q ∧ Double.round q = .fin r ∧
          (x = .scalar (.double (.fin r)) ∨
            ∃ z : ℤ, x = .scalar (.int true 64 z) ∧ Double.round z = .fin r))
  | el, x => x = .scalar (.text (sprint el))

variable {rt pl} {sprint : Json → String} {valueString : String} {args : List rt.Variant}

theorem gives_number {text : List Char} (hfit : (parseFloat Double.round text).isSome = true) :
    Gives sprint (.number text) (.scalar (argument pl sprint (.number text))) := by
  obtain ⟨t, ht⟩ := Option.isSome_iff_exists.mp hfit
  obtain ⟨q, r, hliteral, hround, rfl⟩ := parseFloat_some ht
  have hargument : argument pl sprint (.number text) =
      if Double.eq (.fin r) (Double.round (pl.toInt .int (.fin r)).1) then
        .int true 64 (pl.toInt .int (.fin r)).1
      else .double (.fin r) := by
    rw [argument, ht]
    rfl
  rw [hargument]
  constructor
  · intro z hz hexact
    obtain ⟨hvalue, hlow, hhigh⟩ := parseInt_some hz
    obtain rfl : q = z := Option.some.inj (hliteral.symm.trans hvalue)
    obtain rfl : (z : ℚ) = r := Double.fin.inj (hexact.symm.trans hround)
    have hint : (pl.toInt .int (.fin z)).1 = z :=
      Iec60870.Platform.toInt_intCast ⟨hlow, Int.le_sub_one_of_lt hhigh⟩
    rw [hint, hexact, Double.eq_self_fin, if_pos rfl]
  · intro _
    refine ⟨q, r, hliteral, hround, ?_⟩
    split_ifs with heq
    · exact .inr ⟨_, rfl, (Double.eq_iff.mp heq).1.symm⟩
    · exact .inl rfl

theorem gives_argument {el : Json} (hfit : numbersFit el = true) :
    Gives sprint el (.scalar (argument pl sprint el)) := by
  cases el with
  | number text => exact gives_number (by simpa [numbersFit] using hfit)
  | bool b => rfl
  | string units => rfl
  | null => rfl
  | array items => rfl
  | object members => rfl

theorem numbersFit_of_mem {items : List Json} (h : allFit items = true) {el : Json}
    (hel : el ∈ items) : numbersFit el = true := by
  induction items with
  | nil => cases hel
  | cons first items ih =>
      rw [allFit, Bool.and_eq_true] at h
      rcases List.mem_cons.mp hel with rfl | hel
      · exact h.1
      · exact ih h.2 hel

-- What is decoded is the array of the text, or null.
theorem unmarshal_some {items : List Json} (h : unmarshal valueString = some items) :
    (Json.parse valueString.toList = some (.array items) ∨
      Json.parse valueString.toList = some .null ∧ items = []) ∧ allFit items = true := by
  unfold unmarshal at h
  split at h
  · rename_i decoded hdecoded
    split_ifs at h with hfit
    obtain rfl := Option.some.inj h
    exact ⟨.inl (Json.parse_of_decode hdecoded), hfit⟩
  · rename_i hdecoded
    obtain rfl := Option.some.inj h
    exact ⟨.inr ⟨Json.parse_of_decode hdecoded, rfl⟩, rfl⟩
  · cases h

-- A blank text, and one that is no array of JSON.
def NoArray (valueString : String) : Prop :=
  Processor.trim Processor.isSpace valueString.toList = [] ∨ unmarshal valueString = none

-- The arguments that a method is called with, where it is called.
def CalledWith (sprint : Json → String) (valueString : String) (args : List UaValue) : Prop :=
  (NoArray valueString → args = []) ∧
    (¬NoArray valueString →
      ∃ items, (Json.parse valueString.toList = some (.array items) ∨
        Json.parse valueString.toList = some .null ∧ items = []) ∧
          List.Forall₂ (Gives sprint) items args)

theorem methodArguments_noArray (hno : NoArray valueString)
    (h : methodArguments rt pl sprint valueString = .ok args) : args = [] := by
  unfold methodArguments at h
  split_ifs at h with hblank
  · exact (Except.ok.inj h).symm
  · rcases hno with hspace | hnone
    · exact absurd hspace hblank
    · rw [hnone] at h
      exact (Except.ok.inj h).symm

theorem methodArguments_array (hkeeps : Keeps rt) (harray : ¬NoArray valueString)
    (h : methodArguments rt pl sprint valueString = .ok args) :
    ∃ items, (Json.parse valueString.toList = some (.array items) ∨
      Json.parse valueString.toList = some .null ∧ items = []) ∧
        List.Forall₂ (Gives sprint) items (args.map rt.valueOf) := by
  have hblank : ¬Processor.trim Processor.isSpace valueString.toList = [] :=
    fun hspace => harray (.inl hspace)
  obtain ⟨items, hraw⟩ := Option.ne_none_iff_exists'.mp fun hnone => harray (.inr hnone)
  rw [methodArguments, if_neg hblank, hraw] at h
  obtain ⟨hparse, hfit⟩ := unmarshal_some hraw
  refine ⟨items, hparse, ?_⟩
  rw [List.forall₂_map_right_iff]
  have hmem := (List.forall₂_and_left items args).mpr
    ⟨fun el hel => numbersFit_of_mem hfit hel, Fallible.forall₂_of_mapM h⟩
  refine hmem.imp fun el v hv => ?_
  rw [hkeeps _ _ hv.2]
  exact gives_argument hv.1

end Given

end JsonScada.OpcUa.Client
