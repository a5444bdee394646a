import JsonScada.Library.Coalesce
import JsonScada.Library.Rounding
import JsonScada.Modbus.Address
import JsonScada.Modbus.Client.Poll
import JsonScada.Modbus.Rtu
import Mathlib.Data.List.Sort

-- The read plan of a connection: the bindings of its tags, and the blocks that they are read in.
namespace JsonScada.Modbus.Planner

open JsonScada.Library

section Binding

-- What a document supplies.
structure RawBinding where
  id : Processor.Value
  tag : String
  objectAddress : String
  asdu : String
  commonAddress : Option Processor.Value
  kconv1 : Option Processor.Value
  kconv2 : Option Processor.Value

-- A binding with its place: the unit, the offset, and the registers or bits it occupies.
structure Binding extends Modbus.Binding where
  unit : Nat
  offset : Nat
  span : Nat

inductive BindingError where
  | address (e : AddressError)
  | asdu (e : AsduError)
  deriving DecidableEq, Repr

def BindingError.message : BindingError → String
  | .address e => e.message
  | .asdu e => e.message

-- The registers of an ASDU as an int, which one byte more than the longest text overflows.
def regCount (a : Asdu) : ℤ :=
  match a.type, a.str with
  | .string, some str => (Int.bmod (str.bytes + 1) (2 ^ 64)).tdiv 2
  | _, _ => a.regCount

def spanOf (area : Area) (asdu : Asdu) : Nat :=
  if isBitArea area = false ∧ 1 < regCount asdu then (regCount asdu).toNat else 1

def buildBinding (r : RawBinding) (d : AsduDefaults) (useModicon : Bool) :
    Except BindingError Binding :=
  match parseObjectAddress r.objectAddress useModicon with
  | .error e => .error (.address e)
  | .ok addr =>
      match parseAsdu r.asdu addr.area d with
      | .error e => .error (.asdu e)
      | .ok asdu =>
          .ok
            { id := r.id
              tag := r.tag
              unit := clampUnitDefault1 (toNum r.commonAddress (.fin 1))
              area := addr.area
              offset := addr.offset
              bit := addr.bit
              asdu := asdu
              kconv1 := toNum r.kconv1 (.fin 1)
              kconv2 := toNum r.kconv2 (.fin 0)
              span := spanOf addr.area asdu }

end Binding

section Plan

-- `relStart` is in registers for register areas and in bits for bit areas.
structure Slice where
  b : Binding
  relStart : ℤ

-- One read request.
structure Block where
  unit : Nat
  area : Area
  fc : UInt8
  start : ℤ
  count : ℤ
  slices : List Slice

structure Limits where
  maxReadRegisters : Double
  maxReadCoils : Double
  maxAddressGap : Double

-- math.Min
def mathMin (x y : Double) : Double :=
  if x = .inf true ∨ y = .inf true then .inf true
  else if x.isNaN || y.isNaN then .nan
  else if Double.lt x y then x
  else y

-- The limits of a connection from its options.
def normalize (maxReadRegisters maxReadCoils maxAddressGap : Double) : Limits where
  maxReadRegisters := mathMin (.fin 125) maxReadRegisters
  maxReadCoils := mathMin (.fin 2000) maxReadCoils
  maxAddressGap := maxAddressGap

def fcForArea : Area → UInt8
  | .coil => fcReadCoils
  | .discrete => fcReadDiscreteInputs
  | .input => fcReadInputRegisters
  | .holding => fcReadHoldingRegisters

-- The span that is under way in the loop.
structure Run where
  start : ℤ
  stop : ℤ
  slices : List Slice

def Run.fresh (b : Binding) : Run where
  start := b.offset
  stop := b.offset + b.span
  slices := [{ b := b, relStart := 0 }]

def Run.extend (maxCount maxGap : Double) (run : Run) (b : Binding) : Option Run :=
  let tentativeEnd := max run.stop (b.offset + b.span)
  let gap := b.offset - run.stop
  if Double.le (Double.round (tentativeEnd - run.start : ℤ)) maxCount &&
      Double.le (Double.round (gap : ℤ)) maxGap then
    some
      { run with
        stop := tentativeEnd
        slices := run.slices ++ [{ b := b, relStart := b.offset - run.start }] }
  else none

def runs (maxCount maxGap : Double) : Coalescer Binding Run where
  fresh := Run.fresh
  extend := Run.extend maxCount maxGap

def Run.flush (first : Binding) (run : Run) : Block where
  unit := first.unit
  area := first.area
  fc := fcForArea first.area
  start := run.start
  count := run.stop - run.start
  slices := run.slices

def Limits.maxCount (l : Limits) (area : Area) : Double :=
  if isBitArea area then l.maxReadCoils else l.maxReadRegisters

-- The blocks of one unit and area. The sort is stable.
def planGroup (l : Limits) (list : List Binding) : List Block :=
  match list.insertionSort fun a b => a.offset ≤ b.offset with
  | [] => []
  | first :: rest =>
      ((runs (l.maxCount first.area) l.maxAddressGap).coalesce (first :: rest)).map (Run.flush first)

def planReads (bindings : List Binding) (l : Limits) : List Block :=
  (groupsBy (fun b => (b.unit, b.area)) bindings).flatMap fun g => planGroup l g.2

end Plan

section Cover

-- A slice has its place in the block.
structure Block.Places (blk : Block) (s : Slice) : Prop where
  unit : s.b.unit = blk.unit
  area : s.b.area = blk.area
  relStart : s.relStart = s.b.offset - blk.start
  low : blk.start ≤ s.b.offset
  high : (s.b.offset : ℤ) + s.b.span ≤ blk.start + blk.count

-- The registers or bits that one read may carry.
def maxRead (area : Area) : ℤ := if isBitArea area then 2000 else 125

-- The read plan that a connection needs.
structure Covers (bindings : List Binding) (blocks : List Block) : Prop where
  once : ((blocks.flatMap Block.slices).map Slice.b).Perm bindings
  placed : ∀ blk ∈ blocks, ∀ s ∈ blk.slices, blk.Places s
  size : ∀ blk ∈ blocks, blk.count ≤ maxRead blk.area
  inRange : ∀ blk ∈ blocks, blk.start + blk.count ≤ 65536

-- A binding that one read can carry.
def Binding.Readable (b : Binding) : Prop :=
  (b.span : ℤ) ≤ maxRead b.area ∧ b.offset + b.span ≤ 65536

theorem not_le_nan (a : Double) : Double.le a .nan = false := by
  cases a with
  | nan => rfl
  | inf s => cases s <;> rfl
  | fin q => rfl

theorem le_inf_true {a b : Double} (h : Double.le a (.inf true) = true) (hb : b ≠ .nan) :
    Double.le a b = true := by
  cases a with
  | nan => cases h
  | fin q => cases h
  | inf s =>
      cases s with
      | false => cases h
      | true =>
          cases b with
          | nan => exact absurd rfl hb
          | inf s => cases s <;> rfl
          | fin q => rfl

theorem le_fin_trans {a : Double} {b c : ℚ} (hab : Double.le a (.fin b) = true) (hbc : b ≤ c) :
    Double.le a (.fin c) = true := by
  cases a with
  | nan => cases hab
  | inf s =>
      cases s with
      | false => cases hab
      | true => rfl
  | fin q =>
      simp only [Double.le, Double.lt, Double.eq, Bool.or_eq_true, decide_eq_true_eq,
        Double.fin.injEq] at hab ⊢
      exact le_iff_lt_or_eq.mp (le_trans (le_iff_lt_or_eq.mpr hab) hbc)

-- An option never raises a limit.
theorem le_of_le_mathMin {a y : Double} {n : ℚ} (h : Double.le a (mathMin (.fin n) y) = true) :
    Double.le a (.fin n) = true := by
  cases y with
  | nan =>
      have hmin : mathMin (.fin n) .nan = .nan := by simp [mathMin, Double.isNaN]
      rw [hmin, not_le_nan] at h
      cases h
  | inf s =>
      cases s with
      | false =>
          have hmin : mathMin (.fin n) (.inf false) = .fin n := by
            simp [mathMin, Double.isNaN, Double.lt]
          rwa [hmin] at h
      | true =>
          have hmin : mathMin (.fin n) (.inf true) = .inf true := by simp [mathMin]
          rw [hmin] at h
          exact le_inf_true h (by simp)
  | fin q =>
      have hmin : mathMin (.fin n) (.fin q) = .fin (min n q) := by
        by_cases hlt : n < q
        · rw [min_eq_left hlt.le]
          simp [mathMin, Double.isNaN, Double.lt, hlt]
        · rw [min_eq_right (not_lt.mp hlt)]
          simp [mathMin, Double.isNaN, Double.lt, hlt]
      rw [hmin] at h
      exact le_fin_trans h (min_le_left n q)

-- What one turn of the loop does with the next binding.
theorem Run.extend_eq {maxCount maxGap : Double} {run run' : Run} {b : Binding}
    (h : Run.extend maxCount maxGap run b = some run') :
    run' =
        { start := run.start
          stop := max run.stop (b.offset + b.span)
          slices := run.slices ++ [{ b := b, relStart := b.offset - run.start }] } ∧
      Double.le (Double.round ((run'.stop - run.start : ℤ) : ℚ)) maxCount = true := by
  simp only [Run.extend] at h
  split at h
  · rename_i htest
    obtain rfl := Option.some.inj h
    exact ⟨rfl, (Bool.and_eq_true_iff.mp htest).1⟩
  · cases h

theorem runs_items (maxCount maxGap : Double) (list : List Binding) :
    ((runs maxCount maxGap).coalesce list).flatMap (fun run => run.slices.map Slice.b) = list := by
  apply (runs maxCount maxGap).items_coalesce fun run => run.slices.map Slice.b
  · intro b
    rfl
  · intro run b run' h
    rw [(Run.extend_eq h).1]
    simp

-- The slices of a run have their place in it.
def Run.Placed (run : Run) : Prop :=
  ∀ s ∈ run.slices, s.relStart = s.b.offset - run.start ∧ run.start ≤ s.b.offset ∧
    (s.b.offset : ℤ) + s.b.span ≤ run.stop

theorem Run.placed_fresh (b : Binding) : (Run.fresh b).Placed := by
  intro s hs
  obtain rfl := List.mem_singleton.mp hs
  simp [Run.fresh]

theorem Run.Placed.extend {maxCount maxGap : Double} {run run' : Run} {b : Binding}
    (h : run.Placed) (hb : run.start ≤ b.offset) (he : Run.extend maxCount maxGap run b = some run') :
    run'.Placed := by
  obtain ⟨rfl, -⟩ := Run.extend_eq he
  intro s hs
  rcases List.mem_append.mp hs with hs | hs
  · obtain ⟨hrel, hlow, hhigh⟩ := h s hs
    exact ⟨hrel, hlow, hhigh.trans (le_max_left _ _)⟩
  · obtain rfl := List.mem_singleton.mp hs
    exact ⟨rfl, hb, le_max_right _ _⟩

-- A run that one read can carry.
def Run.Readable (limit : ℤ) (run : Run) : Prop :=
  run.stop - run.start ≤ limit ∧ run.stop ≤ 65536

theorem Run.Readable.extend {limit : ℤ} {option maxGap : Double} {run run' : Run} {b : Binding}
    (hlimit : |limit| < 2 ^ 53) (h : run.Readable limit) (hb : b.offset + b.span ≤ 65536)
    (he : Run.extend (mathMin (.fin limit) option) maxGap run b = some run') :
    run'.Readable limit := by
  obtain ⟨hrun, htest⟩ := Run.extend_eq he
  have hcount := Double.le_of_round_le hlimit (le_of_le_mathMin htest)
  obtain ⟨-, hstop⟩ := h
  subst hrun
  refine ⟨hcount, ?_⟩
  simp only
  omega

section Group

variable {maxCount maxGap : Double} {list : List Binding}
  (hsorted : list.Pairwise fun a b => a.offset ≤ b.offset)

include hsorted

theorem runs_placed : ∀ run ∈ (runs maxCount maxGap).coalesce list, run.Placed := by
  refine (runs maxCount maxGap).coalesce_forall (fun _ => True) (fun run b => run.start ≤ b.offset)
    ?_ ?_ ?_ ?_ (fun _ _ => trivial) hsorted
  · intro a b hab
    show (a.offset : ℤ) ≤ b.offset
    exact_mod_cast hab
  · intro run a run' b he hb
    rw [(Run.extend_eq he).1]
    exact hb
  · intro b _
    exact Run.placed_fresh b
  · intro run b run' _ hrun hb he
    exact hrun.extend hb he

theorem runs_readable {limit : ℤ} {option : Double} (hlimit : |limit| < 2 ^ 53)
    (hmax : maxCount = mathMin (.fin limit) option)
    (hlist : ∀ b ∈ list, (b.span : ℤ) ≤ limit ∧ b.offset + b.span ≤ 65536) :
    ∀ run ∈ (runs maxCount maxGap).coalesce list, run.Readable limit := by
  subst hmax
  refine (runs _ maxGap).coalesce_forall
    (fun b => (b.span : ℤ) ≤ limit ∧ b.offset + b.span ≤ 65536) (fun _ _ => True)
    (fun _ => trivial) (fun _ _ => trivial) ?_ ?_ hlist hsorted
  · intro b hb
    simp only [runs, Run.fresh, Run.Readable]
    omega
  · intro run b run' hb hrun _ he
    exact hrun.extend hlimit hb.2 he

end Group

section Blocks

variable {l : Limits} {list : List Binding}

theorem pairwise_sorted (list : List Binding) :
    (list.insertionSort fun a b => a.offset ≤ b.offset).Pairwise fun a b => a.offset ≤ b.offset := by
  have htotal : Std.Total fun a b : Binding => a.offset ≤ b.offset :=
    ⟨fun a b => le_total a.offset b.offset⟩
  have htrans : IsTrans Binding fun a b => a.offset ≤ b.offset := ⟨fun _ _ _ => le_trans⟩
  exact List.pairwise_insertionSort _ list

theorem planGroup_slices (l : Limits) (list : List Binding) :
    (((planGroup l list).flatMap Block.slices).map Slice.b).Perm list := by
  have hperm := List.perm_insertionSort (fun a b : Binding => a.offset ≤ b.offset) list
  unfold planGroup
  cases hsort : list.insertionSort fun a b => a.offset ≤ b.offset with
  | nil =>
      rw [hsort] at hperm
      rw [List.nil_perm.mp hperm]
      exact List.Perm.refl _
  | cons first rest =>
      rw [hsort] at hperm
      refine (List.Perm.of_eq ?_).trans hperm
      simp only [List.flatMap_map, List.map_flatMap]
      exact runs_items _ _ _

-- A block comes from a run, and has the unit and the area of the first binding.
theorem planGroup_cases {blk : Block} (h : blk ∈ planGroup l list) :
    ∃ first ∈ list, ∃ run, blk = run.flush first ∧
      run ∈ (runs (l.maxCount first.area) l.maxAddressGap).coalesce
        (list.insertionSort fun a b => a.offset ≤ b.offset) := by
  have hperm := List.perm_insertionSort (fun a b : Binding => a.offset ≤ b.offset) list
  unfold planGroup at h
  cases hsort : list.insertionSort fun a b => a.offset ≤ b.offset with
  | nil =>
      rw [hsort] at h
      cases h
  | cons first rest =>
      rw [hsort] at h hperm
      obtain ⟨run, hrun, rfl⟩ := List.mem_map.mp h
      exact ⟨first, hperm.mem_iff.mp (by simp), run, rfl, hrun⟩

theorem planGroup_placed {unit : Nat} {area : Area}
    (hkey : ∀ b ∈ list, b.unit = unit ∧ b.area = area) {blk : Block} (h : blk ∈ planGroup l list) :
    ∀ s ∈ blk.slices, blk.Places s := by
  obtain ⟨first, hfirst, run, rfl, hrun⟩ := planGroup_cases h
  intro s hs
  have hmem : s.b ∈ list :=
    (planGroup_slices l list).mem_iff.mp
      (List.mem_map_of_mem (List.mem_flatMap.mpr ⟨_, h, hs⟩))
  obtain ⟨hrel, hlow, hhigh⟩ := runs_placed (pairwise_sorted list) run hrun s hs
  exact
    { unit := (hkey _ hmem).1.trans (hkey _ hfirst).1.symm
      area := (hkey _ hmem).2.trans (hkey _ hfirst).2.symm
      relStart := hrel
      low := hlow
      high := by
        simp only [Run.flush]
        omega }

theorem planGroup_readable {regs coils gap : Double} {area : Area}
    (hkey : ∀ b ∈ list, b.area = area) (hlist : ∀ b ∈ list, b.Readable) {blk : Block}
    (h : blk ∈ planGroup (normalize regs coils gap) list) :
    blk.count ≤ maxRead blk.area ∧ blk.start + blk.count ≤ 65536 := by
  obtain ⟨first, hfirst, run, rfl, hrun⟩ := planGroup_cases h
  have hsort : ∀ b ∈ list.insertionSort fun a b => a.offset ≤ b.offset,
      (b.span : ℤ) ≤ maxRead first.area ∧ b.offset + b.span ≤ 65536 := by
    intro b hb
    rw [List.mem_insertionSort] at hb
    rw [hkey first hfirst, ← hkey b hb]
    exact hlist b hb
  have hoption : ∃ option, (normalize regs coils gap).maxCount first.area =
      mathMin (.fin (maxRead first.area : ℤ)) option := by
    unfold Limits.maxCount maxRead
    split
    · exact ⟨coils, rfl⟩
    · exact ⟨regs, rfl⟩
  have hlimit : |maxRead first.area| < 2 ^ 53 := by
    unfold maxRead
    split <;> norm_num
  obtain ⟨option, hmax⟩ := hoption
  obtain ⟨hcount, hstop⟩ := runs_readable (pairwise_sorted list) hlimit hmax hsort run hrun
  refine ⟨hcount, ?_⟩
  simp only [Run.flush]
  omega

end Blocks

section Covering

variable {bindings : List Binding} {l : Limits}

theorem planReads_slices (bindings : List Binding) (l : Limits) :
    (((planReads bindings l).flatMap Block.slices).map Slice.b).Perm bindings := by
  refine List.Perm.trans ?_ (groupsBy_perm (fun b : Binding => (b.unit, b.area)) bindings)
  simp only [planReads, List.flatMap_assoc, List.map_flatMap]
  refine List.Perm.flatMap_left _ ?_
  intro g _
  rw [← List.map_flatMap]
  exact planGroup_slices l g.2

-- A block comes from the bindings of one unit and area.
theorem planReads_cases {blk : Block} (h : blk ∈ planReads bindings l) :
    ∃ list unit area, blk ∈ planGroup l list ∧
      ∀ b ∈ list, b ∈ bindings ∧ b.unit = unit ∧ b.area = area := by
  obtain ⟨g, hg, hblk⟩ := List.mem_flatMap.mp h
  refine ⟨g.2, g.1.1, g.1.2, hblk, ?_⟩
  intro b hb
  have hkey := groupsBy_key _ bindings g hg b hb
  refine ⟨(groupsBy_perm _ bindings).mem_iff.mp (List.mem_flatMap.mpr ⟨g, hg, hb⟩), ?_⟩
  exact ⟨congrArg Prod.fst hkey, congrArg Prod.snd hkey⟩

theorem planReads_placed {blk : Block} (h : blk ∈ planReads bindings l) :
    ∀ s ∈ blk.slices, blk.Places s := by
  obtain ⟨list, unit, area, hblk, hlist⟩ := planReads_cases h
  exact planGroup_placed (fun b hb => (hlist b hb).2) hblk

-- What a document gives in a bit area is one bit.
theorem readable_of_bitArea {raw : RawBinding} {d : AsduDefaults} {useModicon : Bool} {b : Binding}
    (h : buildBinding raw d useModicon = .ok b) (harea : isBitArea b.area = true) : b.Readable := by
  simp only [buildBinding] at h
  split at h
  · cases h
  · rename_i addr _
    split at h
    · cases h
    · obtain rfl := Except.ok.inj h
      have hoffset := addr.offset_le
      have hspan (asdu : Asdu) : spanOf addr.area asdu = 1 := by
        rw [spanOf, if_neg]
        rw [harea]
        simp
      simp only [Binding.Readable, maxRead, harea, if_true, hspan]
      omega

-- The plan is right for the bindings that one read can carry. Nothing checks the registers of a
-- binding, neither their number nor that they end within the area.
theorem plan_covers_iff (maxReadRegisters maxReadCoils maxAddressGap : Double)
    (hbuilt : ∀ b ∈ bindings, ∃ raw d useModicon, buildBinding raw d useModicon = .ok b) :
    Covers bindings (planReads bindings (normalize maxReadRegisters maxReadCoils maxAddressGap)) ↔
      ∀ b ∈ bindings, isBitArea b.area = false → b.span ≤ 125 ∧ b.offset + b.span ≤ 65536 := by
  constructor
  · intro h b hb harea
    obtain ⟨s, hs, rfl⟩ := List.mem_map.mp (h.once.mem_iff.mpr hb)
    obtain ⟨blk, hblk, hs⟩ := List.mem_flatMap.mp hs
    have hplace := h.placed blk hblk s hs
    have hsize := h.size blk hblk
    have hrange := h.inRange blk hblk
    have hlow := hplace.low
    have hhigh := hplace.high
    rw [maxRead, ← hplace.area, harea] at hsize
    simp only [Bool.false_eq_true, if_false] at hsize
    omega
  · intro h
    have hreadable : ∀ b ∈ bindings, b.Readable := by
      intro b hb
      cases harea : isBitArea b.area with
      | true =>
          obtain ⟨raw, d, useModicon, hbuild⟩ := hbuilt b hb
          exact readable_of_bitArea hbuild harea
      | false =>
          obtain ⟨hspan, hstop⟩ := h b hb harea
          simp only [Binding.Readable, maxRead, harea, Bool.false_eq_true, if_false]
          omega
    have hblocks : ∀ blk ∈ planReads bindings
        (normalize maxReadRegisters maxReadCoils maxAddressGap),
        blk.count ≤ maxRead blk.area ∧ blk.start + blk.count ≤ 65536 := by
      intro blk hblk
      obtain ⟨list, unit, area, hgroup, hlist⟩ := planReads_cases hblk
      exact planGroup_readable (fun b hb => (hlist b hb).2.2)
        (fun b hb => hreadable b (hlist b hb).1) hgroup
    exact
      { once := planReads_slices bindings _
        placed := fun blk hblk => planReads_placed hblk
        size := fun blk hblk => (hblocks blk hblk).1
        inRange := fun blk hblk => (hblocks blk hblk).2 }

def orders : AsduDefaults where
  byteOrder16 := "AB"
  byteOrder32 := "ABCD"
  byteOrder64 := "ABCDEFGH"
  byteOrderStr := "AB"
  stringEncoding := "latin1"

def rawAt (objectAddress asdu : String) : RawBinding where
  id := .string objectAddress
  tag := objectAddress
  objectAddress := objectAddress
  asdu := asdu
  commonAddress := none
  kconv1 := none
  kconv2 := none

-- The bindings of the documents that are accepted.
def built (raws : List RawBinding) : List Binding :=
  raws.filterMap fun raw => (buildBinding raw orders false).toOption

theorem exists_of_built {raws : List RawBinding} {b : Binding} (hb : b ∈ built raws) :
    ∃ raw d useModicon, buildBinding raw d useModicon = .ok b := by
  obtain ⟨raw, -, hraw⟩ := List.mem_filterMap.mp hb
  refine ⟨raw, orders, false, ?_⟩
  cases h : buildBinding raw orders false with
  | error e => rw [h] at hraw; cases hraw
  | ok b' =>
      rw [h] at hraw
      exact congrArg Except.ok (Option.some.inj hraw)

def overlapping : List RawBinding :=
  [rawAt "hr:5" "uint16", rawAt "co:3" "", rawAt "hr:65535" "", rawAt "hr:4" "float32"]

-- Two spans that overlap, the last register, and a coil.
theorem plan_covers_overlapping :
    (built overlapping).length = 4 ∧
      Covers (built overlapping)
        (planReads (built overlapping) (normalize (.fin 200) .nan (.fin 8))) := by
  refine ⟨by decide, ?_⟩
  refine (plan_covers_iff (.fin 200) .nan (.fin 8) fun b hb => exists_of_built hb).mpr ?_
  decide

-- A text of 300 bytes is read as 150 registers, and a float in the last register as one more than
-- there are.
theorem wide_binding_unreadable :
    (built [rawAt "hr:0" "string:300"]).map Binding.span = [150] ∧
      ¬Covers (built [rawAt "hr:0" "string:300"])
        (planReads (built [rawAt "hr:0" "string:300"]) (normalize (.fin 125) (.fin 2000) (.fin 8))) ∧
      (built [rawAt "hr:65535" "float32"]).map Binding.span = [2] ∧
      ¬Covers (built [rawAt "hr:65535" "float32"])
        (planReads (built [rawAt "hr:65535" "float32"])
          (normalize (.fin 125) (.fin 2000) (.fin 8))) := by
  refine ⟨by decide, ?_, by decide, ?_⟩
  · intro h
    have hsize := h.size
    revert hsize
    decide
  · intro h
    have hrange := h.inRange
    revert hrange
    decide

-- The plan that is polled, where every tag has its own _id.
def pollPlan (bindings : List Binding) (l : Limits) (hids : (bindings.map fun b => b.id).Nodup) :
    Poll.Plan where
  blocks := (planReads bindings l).map fun blk =>
    blk.slices.map fun s => { b := s.b.toBinding, relStart := s.relStart.toNat }
  nodup := by
    have hslices := (planReads_slices bindings l).map fun b => b.id
    have hids' : (((planReads bindings l).map fun blk =>
        blk.slices.map fun s : Slice =>
          ({ b := s.b.toBinding, relStart := s.relStart.toNat } : Modbus.Slice)).flatten.map
        fun s => s.b.id) = ((((planReads bindings l).flatMap Block.slices).map Slice.b).map
          fun b => b.id) := by
      simp [List.flatMap, List.map_flatten, Function.comp_def]
    rw [hids']
    exact hslices.nodup_iff.mpr hids

end Covering

end Cover

end JsonScada.Modbus.Planner
