import Mathlib.Data.BitVec
import JsonScada.Modbus.Address

namespace JsonScada.Modbus

open JsonScada.Library
open JsonScada.Processor (Document rawOrNil truthyValue)

structure Config where
  defaults : AsduDefaults
  useModiconAddresses : Bool
  serveUnmappedAsZero : Bool
  invalidValuePolicy : String

inductive TagType where
  | analog | digital | string
  deriving DecidableEq, Repr

-- One tag served on the connection.
structure Point where
  id : Processor.Value
  pointKey : Double
  tag : String
  unit : Nat
  address : Address
  asdu : Asdu
  -- the destination's scaling, applied when a value is encoded
  kconv1 : Double
  kconv2 : Double
  isCommand : Bool
  tagType : TagType
  tagKconv1 : Double
  tagKconv2 : Double
  -- where a write of the point is sent as a command
  cmdConnectionNumber : Option Double
  cmdCommonAddress : Option Double
  cmdObjectAddress : Processor.Value
  cmdAsdu : Processor.Value

namespace Point

variable (p : Point)

def area : Area := p.address.area

def offset : Nat := p.address.offset

def hasBit : Bool := p.address.bit.isSome

-- The registers, or the one bit, that the point takes.
def span : Nat := if !isBitArea p.area && 1 < p.asdu.regCount then p.asdu.regCount else 1

end Point

-- The part of a realtimeData document the map needs. A missing field is null.
structure TagDoc where
  id : Processor.Value
  tag : String
  type : Processor.Value
  value : Option Processor.Value
  valueString : Processor.Value
  invalid : Processor.Value
  origin : Processor.Value
  kconv1 : Option Processor.Value
  kconv2 : Option Processor.Value
  protocolSourceConnectionNumber : Processor.Value
  protocolSourceCommonAddress : Processor.Value
  protocolSourceObjectAddress : Processor.Value
  protocolSourceASDU : Processor.Value
  dest : Document

-- The arguments of an update: what is served for a tag.
structure Reading where
  value : Double
  valueString : String
  invalid : Bool

inductive PointError where
  | address (e : AddressError)
  | asdu (e : AsduError)

section Build

variable (rt : Runtime)

def clampUnit (v : Processor.Value) : Nat := clampUnitDefault1 (jsNumber v)

def numOrNil : Processor.Value → Option Double
  | .null | .string "" => none
  | v => if (jsNumber v).isFinite then some (jsNumber v) else none

def normalizeType (v : Processor.Value) : TagType :=
  let s := String.ofList ((anyStr rt v).toList.map toLowerRune)
  if s = "digital" then .digital else if s = "string" then .string else .analog

def isCommandDoc (doc : TagDoc) : Bool :=
  let isText (s : String) : Processor.Value → Bool
    | .string t => t = s
    | _ => false
  let isNil : Processor.Value → Bool
    | .null => true
    | _ => false
  isText "command" doc.origin || !isNil doc.protocolSourceConnectionNumber

def buildPoint (cfg : Config) (doc : TagDoc) : Except PointError Point :=
  let objAddr := anyStr rt (rawOrNil (doc.dest.lookup "protocolDestinationObjectAddress"))
  match parseObjectAddress objAddr cfg.useModiconAddresses with
  | .error e => .error (.address e)
  | .ok addr =>
      match parseAsdu (doc.dest.str "protocolDestinationASDU") addr.area cfg.defaults with
      | .error e => .error (.asdu e)
      | .ok asdu =>
          let isCommand := isCommandDoc doc
          .ok
            { id := doc.id
              pointKey := jsNumber doc.id
              tag := doc.tag
              unit := clampUnit (rawOrNil (doc.dest.lookup "protocolDestinationCommonAddress"))
              address := addr
              asdu := asdu
              kconv1 := toNum (doc.dest.lookup "protocolDestinationKConv1") (.fin 1)
              kconv2 := toNum (doc.dest.lookup "protocolDestinationKConv2") (.fin 0)
              isCommand := isCommand
              tagType := normalizeType rt doc.type
              tagKconv1 := toNum doc.kconv1 (.fin 1)
              tagKconv2 := toNum doc.kconv2 (.fin 0)
              cmdConnectionNumber :=
                if isCommand then numOrNil doc.protocolSourceConnectionNumber else none
              cmdCommonAddress :=
                if isCommand then numOrNil doc.protocolSourceCommonAddress else none
              cmdObjectAddress :=
                if isCommand then
                  match doc.protocolSourceObjectAddress with
                  | .null => .string ""
                  | v => v
                else .null
              cmdAsdu := if isCommand then doc.protocolSourceASDU else .null }

def TagDoc.reading (doc : TagDoc) : Reading where
  value := jsNumberField doc.value
  valueString := anyStr rt doc.valueString
  invalid := truthyValue (some doc.invalid)

end Build

section Banks

-- A map from addresses to what is served there.
abbrev Cells (α : Type) := Nat → Option α

structure Banks where
  hr : Cells (BitVec 16)
  ir : Cells (BitVec 16)
  co : Cells Bool
  di : Cells Bool

def newBanks : Banks where
  hr := fun _ => none
  ir := fun _ => none
  co := fun _ => none
  di := fun _ => none

def Banks.regs (b : Banks) : Area → Cells (BitVec 16)
  | .holding => b.hr
  | _ => b.ir

def Banks.bits (b : Banks) : Area → Cells Bool
  | .coil => b.co
  | _ => b.di

def Banks.setRegs (b : Banks) (a : Area) (regs : Cells (BitVec 16)) : Banks :=
  match a with
  | .holding => { b with hr := regs }
  | _ => { b with ir := regs }

def Banks.setBits (b : Banks) (a : Area) (bits : Cells Bool) : Banks :=
  match a with
  | .coil => { b with co := bits }
  | _ => { b with di := bits }

-- `n` registers written one after the other, from `off` on.
def store (regs : Cells (BitVec 16)) (off n : Nat) (word : Nat → BitVec 16) : Cells (BitVec 16) :=
  (List.range n).foldl (fun regs i => Function.update regs (off + i) (some (word i))) regs

def setBit (regs : Cells (BitVec 16)) (off bit : Nat) (on : Bool) : Cells (BitVec 16) :=
  let cur := (regs off).getD 0
  let mask := 1#16 <<< bit
  Function.update regs off (some (if on then cur ||| mask else cur &&& ~~~mask))

def zeroOut (b : Banks) (p : Point) : Banks :=
  if isBitArea p.area then
    b.setBits p.area (Function.update (b.bits p.area) p.offset (some false))
  else b.setRegs p.area (store (b.regs p.area) p.offset p.span fun _ => 0)

-- A value that cannot be encoded leaves what is served.
def putWire (b : Banks) (p : Point) (v : Value) : Banks :=
  match encode p.asdu.type v p.asdu.perm p.asdu.str with
  | .error _ => b
  | .ok wire =>
      b.setRegs p.area
        (store (b.regs p.area) p.offset (min p.span (wire.length / 2)) (wireWord wire))

variable (rt : Runtime) (cfg : Config)

-- What a reading of a point is encoded from.
def servedValue (p : Point) (r : Reading) : Value :=
  if p.asdu.type = .string then .str r.valueString
  else
    .num (.ofDouble (Double.add rt.round (Double.mul rt.round r.value p.kconv1) p.kconv2))

def encodeInto (b : Banks) (p : Point) (r : Reading) : Banks :=
  if r.invalid && cfg.invalidValuePolicy = "zero" then zeroOut b p
  else if isBitArea p.area then
    let on := nonZero r.value
    let on := if Double.eq p.kconv1 (.fin (-1)) then !on else on
    b.setBits p.area (Function.update (b.bits p.area) p.offset (some on))
  else
    match p.address.bit with
    | some bit => b.setRegs p.area (setBit (b.regs p.area) p.offset bit (nonZero r.value))
    | none => putWire b p (servedValue rt p r)

end Banks

structure PointMap where
  units : Nat → Option Banks
  -- the command point that receives the writes of an address
  writeIndex : Nat → Area → Nat → Option Point
  byID : String → Option Point
  points : List Point

def newPointMap : PointMap where
  units := fun _ => none
  writeIndex := fun _ _ _ => none
  byID := fun _ => none
  points := []

namespace PointMap

variable (rt : Runtime) (cfg : Config)

-- A reading goes to the banks of the point's unit, if there are any.
def encodeAt (units : Nat → Option Banks) (p : Point) (r : Reading) : Nat → Option Banks :=
  match units p.unit with
  | none => units
  | some b => Function.update units p.unit (some (encodeInto rt cfg b p r))

-- The first command point covering an address keeps it.
def indexWrites (writeIndex : Nat → Area → Nat → Option Point) (p : Point) :
    Nat → Area → Nat → Option Point :=
  if p.isCommand && isWritableArea p.area then
    fun unit a off =>
      if unit = p.unit ∧ a = p.area ∧ p.offset ≤ off ∧ off < p.offset + p.span then
        (writeIndex unit a off).or (some p)
      else writeIndex unit a off
  else writeIndex

def rebuildDoc (m : PointMap) (doc : TagDoc) : PointMap :=
  match buildPoint rt cfg doc with
  | .error _ => m
  | .ok p =>
      let units :=
        if (m.units p.unit).isNone then Function.update m.units p.unit (some newBanks) else m.units
      { units := encodeAt rt cfg units p (doc.reading rt)
        writeIndex := indexWrites m.writeIndex p
        byID := Function.update m.byID (anyString rt p.id) (some p)
        points := m.points ++ [p] }

def rebuild (docs : List TagDoc) : PointMap := docs.foldl (rebuildDoc rt cfg) newPointMap

-- False when the tag is not mapped.
def update (m : PointMap) (id : Processor.Value) (r : Reading) : PointMap × Bool :=
  match m.byID (anyString rt id) with
  | none => (m, false)
  | some p => ({ m with units := encodeAt rt cfg m.units p r }, true)

-- What a request finds at one address: nothing fails it.
def served {α : Type} (zero : α) (c : Option α) : Option α :=
  if cfg.serveUnmappedAsZero then some (c.getD zero) else c

def readCells {α : Type} (cell : Option Banks → Nat → Option α) (zero : α) (m : PointMap)
    (unit start qty : Nat) : Option (List α) :=
  let b := m.units unit
  if b.isNone && !cfg.serveUnmappedAsZero then none
  else (List.range qty).mapM fun i => served cfg zero (cell b (start + i))

def readBits (m : PointMap) (unit : Nat) (a : Area) (start qty : Nat) : Option (List Bool) :=
  readCells cfg (fun b off => b.bind fun b => b.bits a off) false m unit start qty

def readRegisters (m : PointMap) (unit : Nat) (a : Area) (start qty : Nat) :
    Option (List (BitVec 16)) :=
  readCells cfg (fun b off => b.bind fun b => b.regs a off) 0 m unit start qty

end PointMap

end JsonScada.Modbus
