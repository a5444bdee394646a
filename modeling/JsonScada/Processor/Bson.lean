import JsonScada.Library.Double

namespace JsonScada.Processor

open JsonScada.Library

-- A BSON value as the processor reads it. The integer and double types are one
-- kind of number, by their value as a double.
inductive Value where
  | null
  | bool (b : Bool)
  | number (x : Double)
  | string (s : String)
  -- milliseconds since 1970
  | dateTime (ms : Int)
  | document (fields : List (String × Value))
  | array (items : List Value)
  | other (bytes : List UInt8)

abbrev Document := List (String × Value)

instance : Inhabited Value := ⟨.null⟩

namespace Document

def has (d : Document) (key : String) : Bool := (d.lookup key).isSome

def isNull (d : Document) (key : String) : Bool :=
  match d.lookup key with
  | some .null => true
  | _ => false

-- An embedded document, `none` when the field is absent or of another type.
def doc (d : Document) (key : String) : Option Document :=
  match d.lookup key with
  | some (.document fields) => some fields
  | _ => none

def str (d : Document) (key : String) : String :=
  match d.lookup key with
  | some (.string s) => s
  | _ => ""

def num (d : Document) (key : String) : Option Double :=
  match d.lookup key with
  | some (.number x) => some x
  | _ => none

def numOr (d : Document) (key : String) (default : Double) : Double :=
  (d.num key).getD default

-- `typeof x === 'boolean'`
def boolStrict (d : Document) (key : String) : Option Bool :=
  match d.lookup key with
  | some (.bool b) => some b
  | _ => none

def timeOf (d : Document) (key : String) : Option Int :=
  match d.lookup key with
  | some (.dateTime ms) => some ms
  | _ => none

end Document

-- JavaScript truthiness, `none` for an absent field.
def truthyValue : Option Value → Bool
  | none | some .null => false
  | some (.bool b) => b
  | some (.string s) => s ≠ ""
  | some (.number x) => !x.isNaN && !Double.eq x (.fin 0)
  | some _ => true

def Document.truthy (d : Document) (key : String) : Bool := truthyValue (d.lookup key)

-- An absent field is written as null.
def rawOrNil (v : Option Value) : Value := v.getD .null

section Set

-- `$set` of one field: in place, or at the end when it is new.
def setField (d : Document) (key : String) (v : Value) : Document :=
  match d with
  | [] => [(key, v)]
  | (k, w) :: rest => if k = key then (k, v) :: rest else (k, w) :: setField rest key v

def applySet (d : Document) (set : Document) : Document :=
  set.foldl (fun d f => setField d f.1 f.2) d

theorem lookup_setField (d : Document) (key k : String) (v : Value) :
    (setField d key v).lookup k = if k = key then some v else d.lookup k := by
  induction d with
  | nil =>
      by_cases h : k = key
      · simp [setField, h]
      · have : (k == key) = false := by simpa using h
        simp [setField, List.lookup_cons, this, h]
  | cons f rest ih =>
      obtain ⟨k', w⟩ := f
      by_cases hkey : k' = key
      · by_cases hk : k = key
        · simp [setField, hkey, hk]
        · have : (k == key) = false := by simpa using hk
          simp [setField, hkey, List.lookup_cons, this, hk]
      · by_cases hk : k = k'
        · subst hk
          simp [setField, hkey]
        · have : (k == k') = false := by simpa using hk
          simp [setField, hkey, List.lookup_cons, this, ih]

theorem setField_setField (d : Document) (key : String) (v w : Value) :
    setField (setField d key v) key w = setField d key w := by
  induction d with
  | nil => simp [setField]
  | cons f rest ih =>
      obtain ⟨k, u⟩ := f
      by_cases hkey : k = key
      · simp [setField, hkey]
      · simp [setField, hkey, ih]

theorem setField_of_lookup {d : Document} {key : String} {v : Value} (h : d.lookup key = some v) :
    setField d key v = d := by
  induction d with
  | nil => cases h
  | cons f rest ih =>
      obtain ⟨k, w⟩ := f
      by_cases hkey : k = key
      · subst hkey
        obtain rfl : w = v := by simpa using h
        simp [setField]
      · have hne : (key == k) = false := by simpa using Ne.symm hkey
        rw [List.lookup_cons, hne] at h
        simp only [setField, if_neg hkey, ih h]

@[simp] theorem applySet_nil (d : Document) : applySet d [] = d := rfl

-- What a `$set` leaves in a field: its own value, else the old one.
theorem lookup_applySet (d set : Document) (k : String) :
    (applySet d set).lookup k = (set.reverse.lookup k).or (d.lookup k) := by
  induction set using List.reverseRecOn generalizing d with
  | nil => simp
  | append_singleton set f ih =>
      obtain ⟨key, v⟩ := f
      have happ : applySet d (set ++ [(key, v)]) = setField (applySet d set) key v := by
        simp [applySet]
      rw [happ, lookup_setField, ih, List.reverse_append]
      by_cases hk : k = key
      · simp [hk]
      · have : (k == key) = false := by simpa using hk
        simp [List.lookup_cons, this, hk]

-- A `$set` of some fields leaves the others.
theorem lookup_applySet_of_fields {d set : Document} {fields : List String}
    (h : ∀ f ∈ set, f.1 ∈ fields) {k : String} (hk : k ∉ fields) :
    (applySet d set).lookup k = d.lookup k := by
  have hnone : set.reverse.lookup k = none := by
    rw [List.lookup_eq_none_iff]
    intro f hf
    have hfield := h f (List.mem_reverse.mp hf)
    rw [bne_iff_ne]
    intro hkf
    exact hk (hkf ▸ hfield)
  rw [lookup_applySet, hnone, Option.none_or]

end Set

section Frame

theorem has_setField (d : Document) (key : String) (v : Value) {k : String} (h : k ≠ key) :
    (setField d key v).has k = d.has k := by
  simp only [Document.has, lookup_setField, if_neg h]

theorem boolStrict_setField (d : Document) (key : String) (v : Value) {k : String} (h : k ≠ key) :
    (setField d key v).boolStrict k = d.boolStrict k := by
  simp only [Document.boolStrict, lookup_setField, if_neg h]

theorem str_setField (d : Document) (key : String) (v : Value) {k : String} (h : k ≠ key) :
    (setField d key v).str k = d.str k := by
  simp only [Document.str, lookup_setField, if_neg h]

theorem truthy_setField (d : Document) (key : String) (v : Value) {k : String} (h : k ≠ key) :
    (setField d key v).truthy k = d.truthy k := by
  simp only [Document.truthy, lookup_setField, if_neg h]

theorem num_setField (d : Document) (key : String) (v : Value) {k : String} (h : k ≠ key) :
    (setField d key v).num k = d.num k := by
  simp only [Document.num, lookup_setField, if_neg h]

theorem truthy_applySet_of_none (d : Document) {set : Document} {k : String}
    (h : set.reverse.lookup k = none) : (applySet d set).truthy k = d.truthy k := by
  simp only [Document.truthy, lookup_applySet, h, Option.none_or]

theorem num_applySet_of_none (d : Document) {set : Document} {k : String}
    (h : set.reverse.lookup k = none) : (applySet d set).num k = d.num k := by
  simp only [Document.num, lookup_applySet, h, Option.none_or]

end Frame

-- Equality of BSON values, as the database finds that an update changes nothing.
mutual

def sameValue : Value → Value → Bool
  | .null, .null => true
  | .bool b, .bool c => b = c
  | .number x, .number y => x = y
  | .string s, .string t => s = t
  | .dateTime a, .dateTime b => a = b
  | .document fields, .document others => sameFields fields others
  | .array items, .array others => sameItems items others
  | .other bytes, .other others => bytes = others
  | _, _ => false

def sameFields : List (String × Value) → List (String × Value) → Bool
  | [], [] => true
  | (k, v) :: fields, (l, w) :: others => k = l && sameValue v w && sameFields fields others
  | _, _ => false

def sameItems : List Value → List Value → Bool
  | [], [] => true
  | v :: items, w :: others => sameValue v w && sameItems items others
  | _, _ => false

end

mutual

theorem sameValue_iff : ∀ v w : Value, sameValue v w = true ↔ v = w
  | .null, w => by cases w <;> simp [sameValue]
  | .bool b, w => by cases w <;> simp [sameValue]
  | .number x, w => by cases w <;> simp [sameValue]
  | .string s, w => by cases w <;> simp [sameValue]
  | .dateTime ms, w => by cases w <;> simp [sameValue]
  | .document fields, w => by cases w <;> simp [sameValue, sameFields_iff fields]
  | .array items, w => by cases w <;> simp [sameValue, sameItems_iff items]
  | .other bytes, w => by cases w <;> simp [sameValue]

theorem sameFields_iff : ∀ fields others : List (String × Value),
    sameFields fields others = true ↔ fields = others
  | [], others => by cases others <;> simp [sameFields]
  | (k, v) :: fields, others => by
      cases others <;> simp [sameFields, sameValue_iff v, sameFields_iff fields, Prod.ext_iff]

theorem sameItems_iff : ∀ items others : List Value, sameItems items others = true ↔ items = others
  | [], others => by cases others <;> simp [sameItems]
  | v :: items, others => by
      cases others <;> simp [sameItems, sameValue_iff v, sameItems_iff items]

end

instance : DecidableEq Value := fun v w => decidable_of_iff _ (sameValue_iff v w)

end JsonScada.Processor
