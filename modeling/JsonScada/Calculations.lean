import JsonScada.Library.Double
import Mathlib.Data.Nat.Sqrt
import Mathlib.Algebra.Order.Floor.Semiring

-- The calculation of points from the values of others.
namespace JsonScada.Calculations

open JsonScada.Library

section Arithmetic

-- The right side of an assignment, with what was read of the parcels in it.
inductive Expr where
  | val (d : Double)
  | neg (a : Expr)
  | add (a b : Expr)
  | sub (a b : Expr)
  | mul (a b : Expr)
  | div (a b : Expr)
  | sqrt (a : Expr)

namespace Expr

instance : Neg Expr := ⟨neg⟩
instance : Add Expr := ⟨add⟩
instance : Sub Expr := ⟨sub⟩
instance : Mul Expr := ⟨mul⟩
instance : Div Expr := ⟨div⟩

def const (q : ℚ) : Expr := val (Double.round q)

-- math.Sqrt. The root of a double that is not exact lies between two neighbouring multiples of
-- 2^-600, and so does no middle of two doubles of its size.
def root : Double → Double
  | .nan => .nan
  | .inf negative => if negative then .nan else .inf false
  | .fin q =>
      if q < 0 then .nan
      else
        let n := Nat.sqrt ⌊q * 4 ^ 600⌋₊
        if (n : ℚ) * n = q * 4 ^ 600 then Double.round (n / 2 ^ 600)
        else Double.round ((n + 1 / 2) / 2 ^ 600)

def eval : Expr → Double
  | val d => d
  | neg a => a.eval.neg
  | add a b => Double.add Double.round a.eval b.eval
  | sub a b => Double.sub Double.round a.eval b.eval
  | mul a b => Double.mul Double.round a.eval b.eval
  | div a b => Double.div Double.round a.eval b.eval
  | sqrt a => root a.eval

end Expr

end Arithmetic

section Formulas

-- What is known of a parcel.
structure Parcel where
  val : Double
  invalid : Bool
deriving DecidableEq

structure Result where
  val : Expr := .val (.fin 0)
  invalid : Bool := true
  transient : Bool := false
  ok : Bool := false

-- A branch of the switch. It has no result where it takes a parcel that is not in the list.
abbrev Formula := List Parcel → Option Result

-- The branches that take a number of parcels and are invalid where one of them is. `v` are the
-- values, and `x` stands for them in the formula.
def fixed (n : ℕ) (f : (ℕ → Double) → (ℕ → Expr) → Expr) : Formula := fun ps =>
  let v := fun i => (ps.map Parcel.val).getD i (.fin 0)
  if ps.length = n then
    some { val := f v fun i => .val (v i), invalid := ps.any Parcel.invalid, ok := true }
  else some {}

-- The branches that go over all parcels.
def loop (f : List Double → Expr) : Formula := fun ps =>
  some { val := f (ps.map Parcel.val), invalid := ps.any Parcel.invalid, ok := true }

-- `case 50, 51`: each parcel that is not invalid takes the place of what was chosen before.
def choice : Formula
  | [] => none
  | p :: ps =>
      let chosen := (p :: ps).foldl (fun c q => if q.invalid then c else q) p
      some { val := .val chosen.val, invalid := chosen.invalid, ok := true }

-- `case 52`
def anyOk : Formula := fun ps =>
  some { val := .const (if ps.any fun p => !p.invalid then 1 else 0), invalid := false, ok := true }

def maxFloat64 : ℚ := (2 ^ 53 - 1) * 2 ^ 971

-- `case 53`
def maxSpan (vs : List Double) : Expr :=
  let max := vs.foldl (fun m v => if Double.lt m v then v else m) (.fin (-maxFloat64))
  let min := vs.foldl (fun m v => if Double.lt v m then v else m) (.fin maxFloat64)
  .val max - .val min

-- `case 54`
def doublePoint : Formula
  | [] => none
  | [p, q] =>
      let off := Double.eq p.val (.fin 0) && !Double.eq q.val (.fin 0)
      let on := !Double.eq p.val (.fin 0) && Double.eq q.val (.fin 0)
      let same := Double.eq p.val q.val
      some
        { val := if on then .const 1 else if off then .const 0 else .val p.val
          invalid := same || p.invalid || q.invalid
          transient := same
          ok := true }
  | p :: _ => some { val := .val p.val, invalid := false }

-- `case 203`
def chooseMeasure : Formula
  | [p, q, r] =>
      let chosen := if !Double.eq p.val (.fin 0) then r else q
      some { val := .val chosen.val, invalid := chosen.invalid, ok := true }
  | _ => some {}

-- `case 216`, `case 218` and `case 219`, which have a comparison of their own at each limit.
def within (low high : Double → Double → Bool) : Formula
  | [p, q, r] =>
      some
        { val := .const (if low q.val p.val && high p.val r.val then 1 else 0)
          invalid := p.invalid
          ok := true }
  | _ => some {}

-- `case 225`
def vbd : Formula := fun ps =>
  if ps.length ≤ 1 then some { val := .const 1, invalid := false, ok := true } else some {}

-- The sums and differences of a number of parcels.
def sums : List (ℤ × ℕ × ((ℕ → Expr) → Expr)) := [
  (15, 2, fun x => x 0 - x 1),
  (16, 3, fun x => x 0 - x 1 - x 2),
  (17, 4, fun x => x 0 - x 1 - x 2 - x 3),
  (18, 6, fun x => x 0 - x 1 - x 2 - x 3 - x 4 - x 5),
  (19, 3, fun x => x 0 + x 1 - x 2),
  (20, 6, fun x => x 0 + x 1 + x 2 - x 3 - x 4 - x 5),
  (21, 9, fun x => x 0 + x 1 + x 2 + x 3 - x 4 - x 5 - x 6 - x 7 - x 8),
  (22, 9, fun x => x 0 + x 1 + x 2 + x 3 + x 4 + x 5 - x 6 - x 7 - x 8),
  (23, 11, fun x => x 0 + x 1 + x 2 + x 3 + x 4 + x 5 + x 6 + x 7 + x 8 + x 9 - x 10),
  (24, 9, fun x => x 0 + x 1 + x 2 - x 3 - x 4 - x 5 - x 6 - x 7 - x 8),
  (200, 8, fun x => x 0 - x 1 - x 2 - x 3 - x 4 - x 5 - x 6 - x 7),
  (201, 11, fun x => x 0 + x 1 + x 2 + x 3 + x 4 + x 5 + x 6 + x 7 - x 8 - x 9 - x 10),
  (205, 5, fun x => x 0 + x 1 - x 2 - x 3 - x 4),
  (206, 9, fun x => x 0 - x 1 - x 2 - x 3 - x 4 - x 5 - x 6 - x 7 - x 8),
  (207, 6, fun x => x 0 + x 1 - x 2 - x 3 - x 4 - x 5),
  (208, 5, fun x => x 0 - x 1 - x 2 - x 3 - x 4),
  (209, 9, fun x => x 0 + x 1 - x 2 - x 3 - x 4 - x 5 - x 6 - x 7 - x 8),
  (210, 7, fun x => x 0 - x 1 - x 2 - x 3 - x 4 - x 5 - x 6),
  (211, 9, fun x => x 0 + x 1 + x 2 + x 3 + x 4 - x 5 - x 6 - x 7 - x 8),
  (213, 4, fun x => x 0 + x 1 + x 2 - x 3),
  (214, 5, fun x => x 0 + x 1 + x 2 + x 3 - x 4),
  (215, 4, fun x => x 0 + x 1 - x 2 - x 3),
  (217, 6, fun x => x 0 + x 1 + x 2 + x 3 + x 4 - x 5),
  (222, 7, fun x => x 0 + x 1 + x 2 - x 3 - x 4 - x 5 - x 6),
  (223, 8, fun x => x 0 + x 1 + x 2 - x 3 - x 4 - x 5 - x 6 - x 7),
  (224, 7, fun x => x 0 + x 1 + x 2 + x 3 + x 4 + x 5 - x 6),
  (226, 8, fun x => x 0 + x 1 - x 2 - x 3 - x 4 - x 5 - x 6 - x 7),
  (227, 5, fun x => x 0 + x 1 + x 2 - x 3 - x 4),
  (228, 12, fun x =>
    x 0 + x 1 + x 2 - x 3 - x 4 - x 5 - x 6 - x 7 - x 8 - x 9 - x 10 - x 11),
  (229, 12, fun x =>
    x 0 + x 1 + x 2 + x 3 + x 4 + x 5 + x 6 + x 7 + x 8 - x 9 - x 10 - x 11),
  (230, 10, fun x => x 0 + x 1 + x 2 + x 3 + x 4 + x 5 + x 6 + x 7 + x 8 - x 9),
  (232, 8, fun x => x 0 + x 1 + x 2 + x 3 + x 4 - x 5 - x 6 - x 7),
  (233, 11, fun x => x 0 + x 1 + x 2 + x 3 + x 4 + x 5 + x 6 - x 7 - x 8 - x 9 - x 10),
  (680, 5, fun x => x 0 + x 1 + x 2 - x 3 - x 4),
  -- the second parcel is not scaled
  (5022, 2, fun x => x 0 + x 1),
  (5041, 5, fun x => x 0 + x 1 - x 2 + x 3 - x 4),
  (5043, 9, fun x => x 0 + x 1 + x 2 + x 3 - x 4 - x 5 + x 6 - x 7 - x 8),
  (5406, 11, fun x => -x 0 + x 1 + x 2 + x 3 + x 4 + x 5 - x 6 - x 7 + x 8 + x 9 + x 10),
  (5711, 4, fun x => -x 0 - x 1 - x 2 - x 3),
  (7374, 12, fun x =>
    x 0 - x 1 - x 2 - x 3 - x 4 - x 5 - x 6 - x 7 - x 8 - x 9 - x 10 - x 11),
  (8055, 8, fun x => x 0 + x 1 - x 2 - x 3 - x 4 - x 5 - x 6 - x 7),
  (25673, 2, fun x => x 0 - x 1)]

-- The sums with factors.
def weighted : List (ℤ × ℕ × ((ℕ → Expr) → Expr)) := [
  (11, 24, fun x =>
    x 0 + x 1 + x 2 + x 3 + x 4 + x 5 + x 6 + x 7 + x 8 + x 9 + x 10 + x 11 + x 12 + x 13 + x 14 +
      x 15 + x 16 + x 17 + x 18 + x 19 + x 20 + x 21 + x 22 + x 23 * .const (72 / 100)),
  -- two parcels are taken off and added again
  (13, 34, fun x =>
    x 0 + x 1 + x 2 + x 3 + x 4 + x 5 + x 6 + x 7 - x 8 + x 9 + x 10 + x 11 +
      x 12 * .const (52 / 100) + x 13 + x 14 - (x 15 + x 16) + x 17 + x 18 + x 19 + x 20 + x 21 -
      (x 22 + x 23) + x 22 + x 23 + x 24 + x 25 + x 26 + x 27 + x 28 + x 29 + x 30 + x 31 + x 32 +
      x 33 * .const (2 / 10) - .const 1),
  (202, 2, fun x => x 0 * .const 60 + x 1),
  (5000, 6, fun x => x 0 + x 1 + x 2 - x 3 - .const (6 / 10) * x 4 + x 5),
  (5172, 1, fun x => .const (-72 / 100) * x 0),
  (5173, 1, fun x => .const (38 / 100) * x 0),
  (5174, 1, fun x => .const (14 / 100) * x 0)]

def sumOfSquares (x : ℕ → Expr) : Expr := x 0 * x 0 + x 1 * x 1

-- The formulas that choose by a value, divide or take a root.
def measures : List (ℤ × ℕ × ((ℕ → Double) → (ℕ → Expr) → Expr)) := [
  (1, 3, fun v x =>
    if Double.lt (.fin 0) (v 2) then .const (57735027 / 100000) * .sqrt (sumOfSquares x) / x 2
    else .val (.fin 0)),
  (2, 2, fun _ x => x 0 / .sqrt (sumOfSquares x)),
  (3, 2, fun _ x => .sqrt (sumOfSquares x)),
  (5, 1, fun _ x => .sqrt (x 0)),
  (9, 2, fun _ x => x 0 * x 1 * .sqrt (.const 3) / .const 1000),
  (14, 1, fun _ x => x 0 * .const 10 / .const 6),
  (26, 2, fun v x =>
    if Double.le (v 0).abs (Double.round (5 / 10)) then .const 1
    else if Double.lt (Double.round (14 / 10)) (v 0).abs then .const 0
    else x 1),
  (55, 2, fun v x =>
    if Double.eq (v 1) (.fin 0) then
      if Double.eq (v 0) (.fin 0) then .const 0
      else if Double.lt (.fin 0) (v 0) then .val (.fin maxFloat64)
      else .val (.fin (-maxFloat64))
    else x 0 / x 1),
  (204, 1, fun _ x => x 0 / .const 2),
  (220, 2, fun v x => if Double.lt (v 1) (v 0) then x 1 else x 0),
  (221, 2, fun v x => if Double.lt (v 0) (v 1) then x 1 else x 0),
  (231, 1, fun v x => if Double.lt (.fin 0) (v 0) then .const 0 else x 0)]

-- The formulas that go over all parcels.
def loops : List (ℤ × (List Double → Expr)) := [
  (4, fun vs => vs.foldl (fun val v => val + .val v) (.val (.fin 0))),
  (6, fun vs => .const (if vs.any fun v => Double.eq v (.fin 0) then 0 else 1)),
  (7, fun vs => .const (if vs.any fun v => !Double.eq v (.fin 0) then 1 else 0)),
  (10, fun vs => vs.foldl (fun val v => val - .val v) (.val (.fin 0))),
  (53, maxSpan),
  (500, fun vs => .const (if vs.any fun v => !Double.eq v (.fin 0) then 1 else 0))]

-- The others. The timer takes the seconds of the clock.
def others (now : Int64) : List (ℤ × Formula) := [
  (8, fun _ => some { val := .const now.toInt, invalid := false, ok := true }),
  (50, choice),
  (51, choice),
  (52, anyOk),
  (54, doublePoint),
  (203, chooseMeasure),
  (216, within Double.le Double.le),
  (218, within Double.lt Double.le),
  (219, within Double.le Double.lt),
  (225, vbd)]

-- The switch.
def formulas (now : Int64) : List (ℤ × Formula) :=
  (sums ++ weighted).map (fun e => (e.1, fixed e.2.1 fun _ => e.2.2)) ++
    measures.map (fun e => (e.1, fixed e.2.1 e.2.2)) ++
    loops.map (fun e => (e.1, loop e.2)) ++ others now

def compute (now : Int64) (formula : ℤ) : Formula :=
  match (formulas now).lookup formula with
  | some f => f
  | none => fun _ => some {}

end Formulas

section Readings

-- realtimeData
structure RealtimeData where
  id : ℤ
  value : Double
  invalid : Bool
deriving DecidableEq

-- The maps of the values and of the flags, which give zero and false for a key that they do not
-- have.
structure Readings where
  vals : ℤ → Double := fun _ => .fin 0
  invalids : ℤ → Bool := fun _ => false

def Readings.read (s : Readings) (elem : RealtimeData) : Readings where
  vals := Function.update s.vals elem.id elem.value
  invalids := Function.update s.invalids elem.id elem.invalid

-- The documents of all cycles so far, in the order in which they were read.
def readAll (docs : List RealtimeData) : Readings := docs.foldl Readings.read {}

def Readings.parcel (s : Readings) (id : ℤ) : Parcel := ⟨s.vals id, s.invalids id⟩

def calculate (now : Int64) (s : Readings) (formula : ℤ) (idParcels : List ℤ) : Option Result :=
  compute now formula (idParcels.map s.parcel)

end Readings

end JsonScada.Calculations
