import JsonScada.Library.Decimal
import JsonScada.Library.Table
import JsonScada.Processor.HandleChange

-- The permissive readers of document fields that the Go drivers share.
namespace JsonScada.JsMongo

open JsonScada.Library
open JsonScada.Processor (Document Value applySet lookup_applySet)

section Readers

-- None where the value cannot be read as a number.
def toFloat : Value → Option Double
  | .number x => some x
  | .bool b => some (if b then .fin 1 else .fin 0)
  | .string s => Strconv.parseFloat (Processor.trim Processor.isSpace s.toList)
  | _ => none

variable (doc : Document) (key : String)

-- A field that is missing or null has the default.
def getDouble (default : Double) : Double :=
  match doc.lookup key with
  | none | some .null => default
  | some v => (toFloat v).getD default

def u32OfFloat (f : Double) : UInt32 :=
  if Double.le f (.fin 0) then 0
  else if Double.le (.fin (2 ^ 32 - 1)) f then 0xffffffff
  else UInt32.ofNat f.toInt.toNat

def getU32 (default : UInt32) : UInt32 :=
  match doc.lookup key with
  | none | some .null => default
  | some v =>
      let f := (toFloat v).getD .nan
      if f.isNaN then default else u32OfFloat f

def getBool (default : Bool) : Bool :=
  match doc.lookup key with
  | none | some .null => default
  | some (.bool b) => b
  | some v => !Double.eq ((toFloat v).getD (if default then .fin 1 else .fin 0)) (.fin 0)

end Readers

-- What the readers make of the numbers that the drivers store.
section Numbers

variable {doc : Document} {key : String}

theorem le_fin_iff {a b : ℚ} : Double.le (.fin a) (.fin b) = true ↔ a ≤ b := by
  simp [Double.le, Double.lt, Double.eq, le_iff_lt_or_eq]

theorem u32OfFloat_natCast {n : ℕ} (hn : n < 2 ^ 32) : (u32OfFloat (.fin n)).toNat = n := by
  have hlow : Double.le (.fin n) (.fin 0) = true ↔ n = 0 := by
    rw [le_fin_iff]
    norm_cast
    omega
  have hhigh : Double.le (.fin (2 ^ 32 - 1)) (.fin n) = true ↔ 2 ^ 32 ≤ n + 1 := by
    rw [le_fin_iff, sub_le_iff_le_add]
    norm_cast
  simp only [u32OfFloat, hlow, hhigh]
  split_ifs with hzero hmax
  · rw [hzero]
    rfl
  · change 4294967295 = n
    omega
  · have hnat : (Double.toInt (.fin n)).toNat = n := by simp [Double.toInt]
    rw [hnat, UInt32.toNat_ofNat', Nat.mod_eq_of_lt hn]

theorem getU32_natCast {n : ℕ} {default : UInt32} (hn : n < 2 ^ 32)
    (h : doc.lookup key = some (.number (.fin n))) : (getU32 doc key default).toNat = n := by
  simp only [getU32, h, toFloat, Option.getD_some, Double.isNaN, Bool.false_eq_true, if_false]
  exact u32OfFloat_natCast hn

theorem getU32_number {x default : UInt32} (h : doc.lookup key = some (.number (.fin x.toNat))) :
    getU32 doc key default = x :=
  UInt32.toNat_inj.mp (getU32_natCast x.toNat_lt h)

theorem getDouble_number {x default : Double} (h : doc.lookup key = some (.number x)) :
    getDouble doc key default = x := by
  simp only [getDouble, h, toFloat, Option.getD_some]

end Numbers

-- What the drivers ask of a collection, which is the list of its documents in the order
-- in which they were inserted.
section Collection

def getInt (doc : Document) (key : String) (default : ℤ) : ℤ :=
  (getDouble doc key (.fin default)).toInt

theorem getInt_of_lookup {doc : Document} {key : String} {default n : ℤ}
    (h : doc.lookup key = some (.number (.fin n))) : getInt doc key default = n := by
  unfold getInt getDouble
  rw [h]
  simp [toFloat, Double.toInt]

-- Equality in a query, for the kinds of values that the drivers look for.
def sameValue : Value → Value → Bool
  | .number x, .number y => decide (x = y)
  | .string s, .string t => decide (s = t)
  | _, _ => false

-- A query by the values of some fields.
def matchesFilter (filter d : Document) : Bool :=
  filter.all fun f => (d.lookup f.1).any fun v => sameValue v f.2

def findOne (coll : List Document) (filter : Document) : Option Document :=
  coll.find? (matchesFilter filter)

def updateOne (filter set : Document) (coll : List Document) : List Document :=
  Table.updateFirst (matchesFilter filter) (fun d => applySet d set) coll

-- The _id of the document is taken.
def hasId (coll : List Document) (d : Document) : Bool :=
  match d.lookup "_id" with
  | some id => coll.any fun c => (c.lookup "_id").any (sameValue id)
  | none => false

def insertOne (coll : List Document) (d : Document) : Option (List Document) :=
  if hasId coll d then none else some (coll ++ [d])

-- An unordered InsertMany goes on after an error. `reached` tells which documents the
-- server gets to.
def insertMany (coll : List Document) : List Document → List Bool → List Document
  | d :: docs, true :: reached => insertMany ((insertOne coll d).getD coll) docs reached
  | _ :: docs, false :: reached => insertMany coll docs reached
  | _, _ => coll

-- Every document is stored.
def InsertsAll (coll : List Document) : List Document → List Bool → Prop
  | [], _ => True
  | d :: docs, true :: reached => hasId coll d = false ∧ InsertsAll (coll ++ [d]) docs reached
  | _ :: _, _ => False

instance decidableInsertsAll :
    ∀ (coll docs : List Document) (reached : List Bool), Decidable (InsertsAll coll docs reached)
  | _, [], _ => .isTrue trivial
  | coll, d :: docs, true :: reached =>
      have := decidableInsertsAll (coll ++ [d]) docs reached
      inferInstanceAs (Decidable (_ ∧ _))
  | _, _ :: _, [] => .isFalse id
  | _, _ :: _, false :: _ => .isFalse id

theorem insertMany_of_all {coll docs : List Document} {reached : List Bool}
    (h : InsertsAll coll docs reached) : insertMany coll docs reached = coll ++ docs := by
  induction docs generalizing coll reached with
  | nil => simp [insertMany]
  | cons d docs ih =>
      cases reached with
      | nil => exact h.elim
      | cons r reached =>
          cases r with
          | false => exact h.elim
          | true =>
              obtain ⟨hfresh, hrest⟩ := h
              rw [insertMany, insertOne, hfresh, if_neg Bool.false_ne_true, Option.getD_some,
                ih hrest, List.append_assoc, List.singleton_append]

theorem lookup_number_iff {d : Document} {key : String} {x : Double} :
    ((d.lookup key).any fun v => sameValue v (.number x)) = true ↔
      d.lookup key = some (.number x) := by
  cases d.lookup key with
  | none => simp
  | some v => cases v <;> simp [sameValue]

theorem lookup_string_iff {d : Document} {key s : String} :
    ((d.lookup key).any fun v => sameValue v (.string s)) = true ↔
      d.lookup key = some (.string s) := by
  cases d.lookup key with
  | none => simp
  | some v => cases v <;> simp [sameValue]

-- A document with a new key is stored.
theorem insertOne_of_new {coll : List Document} {d : Document} {x : Double}
    (hd : d.lookup "_id" = some (.number x))
    (hnew : ∀ c ∈ coll, c.lookup "_id" ≠ some (.number x)) :
    insertOne coll d = some (coll ++ [d]) := by
  have hid : hasId coll d = false := by
    rw [hasId, hd]
    refine List.any_eq_false.mpr fun c hc hany => hnew c hc ?_
    cases hv : c.lookup "_id" with
    | none => simp [hv] at hany
    | some v => cases v <;> simp_all [sameValue]
  rw [insertOne, hid, if_neg Bool.false_ne_true]

theorem lookup_setOne (d : Document) (field key : String) (v : Value) :
    (applySet d [(field, v)]).lookup key = if key = field then some v else d.lookup key := by
  rw [lookup_applySet]
  by_cases h : key = field
  · simp [h]
  · have : (key == field) = false := by simpa using h
    simp [List.lookup_cons, this, h]

end Collection

end JsonScada.JsMongo
