import JsonScada.Iec60870.Model
import JsonScada.Library.Binary64

namespace JsonScada.Iec60870

open JsonScada.Library

structure Quality where
  invalid : Bool := false
  nonTopical : Bool := false
  substituted : Bool := false
  blocked : Bool := false
  overflow : Bool := false
deriving DecidableEq

section Information

inductive DoublePoint where
  | indeterminateOrIntermediate | determinedOff | determinedOn | indeterminate
deriving DecidableEq

inductive DoubleCommand where
  | notAllow0 | off | on | notAllow3
deriving DecidableEq

inductive StepCommand where
  | notAllow0 | stepDown | stepUp | notAllow3
deriving DecidableEq

-- The qualifier of a command or of a setpoint.
structure Qualifier where
  qual : UInt8
  inSelect : Bool
deriving DecidableEq

-- What a control-direction object says, whether sent or received. The normalized values
-- are the raw 16-bit ones.
inductive CommandInfo where
  | single (value : Bool) (qoc : Qualifier)
  | double (value : DoubleCommand) (qoc : Qualifier)
  | step (value : StepCommand) (qoc : Qualifier)
  | setpointNormal (value : ℤ) (qos : Qualifier)
  | setpointScaled (value : ℤ) (qos : Qualifier)
  | setpointFloat (value : Binary32) (qos : Qualifier)
  | bitsString32 (value : UInt32)
  | parameterNormal (value : ℤ) (qpm : ParamQualifier)
  | parameterScaled (value : ℤ) (qpm : ParamQualifier)
  | parameterFloat (value : Binary32) (qpm : ParamQualifier)
  | parameterActivation (qpa : UInt8)
deriving DecidableEq

-- The type identification, without and with a time tag.
def CommandInfo.typeId (timed : Bool) : CommandInfo → ℕ
  | single .. => if timed then 58 else 45
  | double .. => if timed then 59 else 46
  | step .. => if timed then 60 else 47
  | setpointNormal .. => if timed then 61 else 48
  | setpointScaled .. => if timed then 62 else 49
  | setpointFloat .. => if timed then 63 else 50
  | bitsString32 .. => if timed then 64 else 51
  | parameterNormal .. => 110
  | parameterScaled .. => 111
  | parameterFloat .. => 112
  | parameterActivation .. => 113

-- What an object built for sending says. A value without quality is that of type 21.
inductive Info where
  | singlePoint (value : Bool) (qds : Quality)
  | doublePoint (value : DoublePoint) (qds : Quality)
  | stepPosition (val : ℤ) (hasTransient : Bool) (qds : Quality)
  | bitString32 (value : UInt32) (qds : Quality)
  | measuredNormal (value : ℤ) (qds : Option Quality)
  | measuredScaled (value : ℤ) (qds : Quality)
  | measuredFloat (value : Binary32) (qds : Quality)
  | command (info : CommandInfo)
  -- a system command has no information of its own
  | system
deriving DecidableEq

-- The information carries the object's address and its time too. Times are in
-- nanoseconds since 1970.
structure InfoObject where
  typeId : ℕ
  ioa : ℤ
  qualifier : ℤ
  info : Info
  time : ℤ
deriving DecidableEq

end Information

section Build

variable (pl : Platform)

-- `byte(x)`
def byte (x : ℤ) : UInt8 := UInt8.ofNat (x % 256).toNat

def mapToWithCP56Time : ℤ → Option ℤ
  | 1 => some 30
  | 3 => some 31
  | 5 => some 32
  | 7 => some 33
  | 9 => some 34
  | 11 => some 35
  | 13 => some 36
  | 15 => some 37
  | _ => none

-- The value within its bounds, and whether it was not.
def clamp (v lo hi : Double) : Double × Bool :=
  if Double.lt hi v then (hi, true)
  else if Double.lt v lo then (lo, true)
  else (v, false)

def scaled (value kconv1 kconv2 : Double) : Double :=
  Double.add pl.round (Double.mul pl.round value kconv1) kconv2

def isInverted (kconv1 : Double) : Bool := Double.eq kconv1 (.fin (-1))

def boolVal (value kconv1 : Double) : Bool :=
  let b := !Double.eq value (.fin 0)
  if isInverted kconv1 then !b else b

def bitsVal (value kconv1 : Double) : UInt32 :=
  let uv := UInt32.ofNat (pl.toInt .uint32 value).1.toNat
  if isInverted kconv1 then ~~~uv else uv

-- `int16` of the clamped value, and whether it overflowed.
def clamped (value kconv1 kconv2 : Double) (lo hi : ℚ) : ℤ × Bool :=
  let (v, overflow) := clamp (scaled pl value kconv1 kconv2) (.fin lo) (.fin hi)
  ((pl.toInt .int16 v).1, overflow)

def Quality.extend (q : Quality) (overflow : Bool) : Quality :=
  if overflow then { q with overflow := true } else q

def toFloat32 (v : Double) : Binary32 := Binary32.narrow (Binary64.ofDouble v)

-- What the object of a type says, none for a type that is not implemented.
def buildInfo (asduNum : ℤ) (value : Double) (sbo : Bool) (cmdQualif : ℤ) (quality : Quality)
    (kconv1 kconv2 : Double) (transient : Bool) : Option Info :=
  let qoc : Qualifier := { qual := byte cmdQualif, inSelect := sbo }
  let qos : Qualifier := { qual := 0, inSelect := sbo }
  let qpm := pl.parseQualifierOfParamMV (byte cmdQualif)
  let on := boolVal value kconv1
  let word := clamped pl value kconv1 kconv2 (-32768) 32767
  let float := toFloat32 (scaled pl value kconv1 kconv2)
  match asduNum with
  | 1 | 30 => some (.singlePoint on quality)
  | 3 | 31 =>
      let dp : DoublePoint :=
        if transient then .indeterminateOrIntermediate
        else if on then .determinedOn else .determinedOff
      some (.doublePoint dp quality)
  | 5 | 32 =>
      let (v, overflow) := clamped pl value kconv1 kconv2 (-64) 63
      some (.stepPosition v transient (quality.extend overflow))
  | 7 | 33 => some (.bitString32 (bitsVal pl value kconv1) quality)
  | 9 | 34 => some (.measuredNormal word.1 (some (quality.extend word.2)))
  | 21 => some (.measuredNormal word.1 none)
  | 11 | 35 => some (.measuredScaled word.1 (quality.extend word.2))
  | 13 | 36 => some (.measuredFloat float quality)
  | 45 | 58 => some (.command (.single on qoc))
  | 46 | 59 => some (.command (.double (if on then .on else .off) qoc))
  | 47 | 60 =>
      let up := Double.le (.fin 1) value
      let up := if isInverted kconv1 then !up else up
      some (.command (.step (if up then .stepUp else .stepDown) qoc))
  | 48 | 61 => some (.command (.setpointNormal word.1 qos))
  | 49 | 62 => some (.command (.setpointScaled word.1 qos))
  | 50 | 63 => some (.command (.setpointFloat float qos))
  | 51 | 64 => some (.command (.bitsString32 (bitsVal pl value kconv1)))
  | 100 | 101 | 102 | 103 | 105 | 107 => some .system
  | 110 => some (.command (.parameterNormal word.1 qpm))
  | 111 => some (.command (.parameterScaled word.1 qpm))
  | 112 => some (.command (.parameterFloat float qpm))
  | 113 => some (.command (.parameterActivation (byte cmdQualif)))
  | _ => none

-- A time tag changes the type to the one that embeds it.
def timedType (asduNum : ℤ) (timeTag : Option ℤ) : ℤ :=
  match timeTag with
  | some _ => (mapToWithCP56Time asduNum).getD asduNum
  | none => asduNum

def buildInfoObj (now : ℤ) (asduNum addr : ℤ) (value : Double) (sbo : Bool) (cmdQualif : ℤ)
    (quality : Quality) (timeTag : Option ℤ) (kconv1 kconv2 : Double) (transient : Bool) :
    Option InfoObject :=
  let asduNum := timedType asduNum timeTag
  (buildInfo pl asduNum value sbo cmdQualif quality kconv1 kconv2 transient).map fun info =>
    { typeId := asduNum.toNat
      -- interrogations have the object address zero
      ioa := if asduNum = 100 ∨ asduNum = 101 then 0 else addr
      qualifier := cmdQualif
      info := info
      time := timeTag.getD now }

end Build

section Received

-- The causes of transmission that are told apart.
inductive Cause where
  | activation | activationCon | deactivation | deactivationCon | activationTerm | request
  | spontaneous | other (cause : UInt8)
deriving DecidableEq

-- A control-direction ASDU as it is parsed: one object, with its time where the type
-- has one.
structure CommandAsdu where
  commonAddr : UInt16
  cause : Cause
  isNegative : Bool
  ioa : UInt32
  info : CommandInfo
  time : Option ℤ

def CommandAsdu.typeId (a : CommandAsdu) : ℕ := a.info.typeId a.time.isSome

-- A positive select confirmation.
structure SelectConfirm where
  ca : ℤ
  ioa : ℤ
deriving DecidableEq

-- The selects of Decode: those of single, double and step commands.
def CommandAsdu.selects (a : CommandAsdu) : List SelectConfirm :=
  let selChase (inSelect : Bool) : List SelectConfirm :=
    if inSelect && a.cause = .activationCon && !a.isNegative then
      [{ ca := a.commonAddr.toNat, ioa := a.ioa.toNat }]
    else []
  match a.info with
  | .single _ qoc | .double _ qoc | .step _ qoc => selChase qoc.inSelect
  | _ => []

-- A command confirmation to be written back to commandsQueue.
structure IecCmdAck where
  ack : Bool
  connNumber : ℤ
  objectAddress : ℤ
  ackTimeTag : ℤ
deriving DecidableEq

def CommandAsdu.acks (a : CommandAsdu) (connNumber now : ℤ) : List IecCmdAck :=
  [{ ack := !a.isNegative, connNumber := connNumber, objectAddress := a.ioa.toNat, ackTimeTag := now }]

end Received

end JsonScada.Iec60870
