import JsonScada.Dnp3.Client
import JsonScada.Iec60870.Model
import JsonScada.JsMongo

-- The fields of a document, and the numbers in them, as both DNP3 drivers read them.
namespace JsonScada.Dnp3

open JsonScada.Library
open JsonScada.JsMongo
open JsonScada.Iec60870 (Platform IntType)
open JsonScada.Processor (Document Value)

section Fields

variable (pl : Platform) (doc : Document) (key : String)

-- `GetInt`
def getInt (default : ℤ) : ℤ := (pl.toInt .int (getDouble doc key (.fin default))).1

-- `GetDateMs`
def getDateMs (default : ℤ) : ℤ :=
  match doc.lookup key with
  | some (.dateTime ms) => ms
  | some (.number x) => (pl.toInt .int x).1
  | _ => default

def getString (default : String) : String :=
  match doc.lookup key with
  | some (.string s) => s
  | _ => default

end Fields

section Conversions

-- The number, without its fraction, is one of the integer type.
def FitsInt (t : IntType) (v : Double) : Prop :=
  v.isFinite = true ∧ t.min ≤ v.toInt ∧ v.toInt ≤ t.max

theorem toInt_of_fits {pl : Platform} {t : IntType} {v : Double} (h : FitsInt t v) :
    (pl.toInt t v).1 = v.toInt := by
  rw [Platform.toInt, dif_pos]
  exact h

-- `uint16(address)`
def toUInt16 (address : ℤ) : UInt16 := UInt16.ofNat (address % 2 ^ 16).toNat

theorem toNat_toUInt16 {address : ℤ} (h : 0 ≤ address ∧ address ≤ 65535) :
    ((toUInt16 address).toNat : ℤ) = address := by
  have hlt : (address % 2 ^ 16).toNat < 2 ^ 16 := by omega
  rw [toUInt16, UInt16.toNat_ofNat', Nat.mod_eq_of_lt hlt]
  omega

end Conversions

end JsonScada.Dnp3
