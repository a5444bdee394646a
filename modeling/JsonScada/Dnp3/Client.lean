import JsonScada.Dnp3.ValueQueue
import JsonScada.Library.Decimal
import JsonScada.Processor.Bson

namespace JsonScada.Dnp3

open JsonScada.Library
open JsonScada.Processor (Document Value applySet)

section Measurements

-- The bits of a DNP3 flags octet that are looked at.
inductive FlagBit where
  | online | commLost | remoteForced | localForced | overRange | referenceErr | rollover
deriving DecidableEq

-- `Flags.Has`
abbrev Flags := FlagBit → Bool

-- What is asked of the time of a measurement: `IsValid`, whether its quality is
-- TimestampSynchronized, and its milliseconds since 1970.
structure Timestamp where
  isValid : Bool
  synchronized : Bool
  unixMilli : ℤ

inductive DoubleBit where
  | intermediate | determinedOff | determinedOn | indeterminate
deriving DecidableEq

def DoubleBit.toInt : DoubleBit → ℤ
  | intermediate => 0
  | determinedOff => 1
  | determinedOn => 2
  | indeterminate => 3

-- The value of a measurement, by the handler that receives it.
inductive Measured where
  | binary (value : Bool)
  | doubleBit (value : DoubleBit)
  | analog (value : Double)
  | counter (value : UInt32)
  | frozenCounter (value : UInt32)
  | binaryOutputStatus (value : Bool)
  | analogOutputStatus (value : Double)

structure Measurement where
  index : UInt32
  value : Measured
  flags : Flags
  time : Timestamp

def groupBinaryInput : ℤ := 1
def groupDoubleBinaryInput : ℤ := 3
def groupBinaryOutputStatus : ℤ := 10
def groupCounter : ℤ := 20
def groupFrozenCounterEvent : ℤ := 23
def groupAnalogInput : ℤ := 30
def groupAnalogOutputStatus : ℤ := 40

end Measurements

section Quality

def commonQuality (f : Flags) : Quality where
  online := f .online
  commLost := f .commLost
  remoteForced := f .remoteForced
  localForced := f .localForced

def analogQuality (f : Flags) : Quality :=
  { commonQuality f with overrange := f .overRange, referenceError := f .referenceErr }

def counterQuality (f : Flags) : Quality :=
  { commonQuality f with rollover := f .rollover }

namespace Quality

variable (q : Quality)

def notTopical : Bool := q.commLost
def invalid : Bool := q.commLost || q.referenceError || !q.online
def overflow : Bool := q.overrange
def blocked : Bool := !q.online
def substituted : Bool := q.remoteForced || q.localForced
def carry : Bool := q.rollover

end Quality

end Quality

section Handler

def formatFloat (v : Double) : String := Strconv.formatFloat 'e' v

-- One fragment of a session: its connection, the clock, and whether its header is
-- that of an event object.
structure Fragment where
  connNumber : ℤ
  now : ℤ
  isEvent : Bool

namespace SoeHandler

variable (info : Fragment)

-- The queue entry of a reading.
def push (baseGroup : ℤ) (index : UInt32) (value : Double) (valueString : String)
    (ts : Timestamp) (q : Quality) : Dnp3Value where
  address := index.toNat
  baseGroup := baseGroup
  group := baseGroup
  variation := 0
  value := value
  valueString := valueString
  cot := 20
  serverTimestamp := info.now
  hasSourceTimestamp := ts.isValid
  sourceTimestamp := if ts.isValid then ts.unixMilli else 0
  timeTagOk := ts.synchronized
  quality := q
  connNumber := info.connNumber
  isEvent := info.isEvent

def boolValue (b : Bool) : Double := if b then .fin 1 else .fin 0
def boolText (b : Bool) : String := if b then "true" else "false"

def handle (m : Measurement) : Dnp3Value :=
  match m.value with
  | .binary b =>
      push info groupBinaryInput m.index (boolValue b) (boolText b) m.time (commonQuality m.flags)
  | .doubleBit b =>
      push info groupDoubleBinaryInput m.index
        (boolValue (b = .determinedOn || b = .indeterminate)) (toString b.toInt) m.time
        { commonQuality m.flags with transient := b = .intermediate || b = .indeterminate }
  | .analog x =>
      push info groupAnalogInput m.index x (formatFloat x) m.time (analogQuality m.flags)
  | .counter n =>
      push info groupCounter m.index (.fin n.toNat) (toString n.toNat) m.time
        (counterQuality m.flags)
  -- filed under the event group
  | .frozenCounter n =>
      push info groupFrozenCounterEvent m.index (.fin n.toNat) (toString n.toNat) m.time
        (counterQuality m.flags)
  | .binaryOutputStatus b =>
      push info groupBinaryOutputStatus m.index (boolValue b) (boolText b) m.time
        (commonQuality m.flags)
  | .analogOutputStatus x =>
      push info groupAnalogOutputStatus m.index x (formatFloat x) m.time (analogQuality m.flags)

end SoeHandler

end Handler

section Update

-- The sourceDataUpdate sub-document: what every driver writes, and what only some do.
structure SourceDataUpdate where
  valueAtSource : Double
  valueStringAtSource : String
  asduAtSource : String
  causeOfTransmissionAtSource : String
  timeTagAtSource : Value
  timeTagAtSourceOk : Bool
  timeTag : Value
  notTopicalAtSource : Bool
  invalidAtSource : Bool
  overflowAtSource : Bool
  blockedAtSource : Bool
  substitutedAtSource : Bool
  extra : Document

def SourceDataUpdate.bson (u : SourceDataUpdate) : Document :=
  applySet
    [("valueAtSource", .number u.valueAtSource),
      ("valueStringAtSource", .string u.valueStringAtSource),
      ("asduAtSource", .string u.asduAtSource),
      ("causeOfTransmissionAtSource", .string u.causeOfTransmissionAtSource),
      ("timeTagAtSource", u.timeTagAtSource), ("timeTagAtSourceOk", .bool u.timeTagAtSourceOk),
      ("timeTag", u.timeTag), ("notTopicalAtSource", .bool u.notTopicalAtSource),
      ("invalidAtSource", .bool u.invalidAtSource), ("overflowAtSource", .bool u.overflowAtSource),
      ("blockedAtSource", .bool u.blockedAtSource),
      ("substitutedAtSource", .bool u.substitutedAtSource)]
    u.extra

-- The window outside which a timestamp is discarded, in milliseconds since 1970.
def minSaneTimeMs : ℤ := 1000000000000
def maxSaneTimeMs : ℤ := 2000000000000

def sanitizeTime (ms : ℤ) : ℤ :=
  if ms < minSaneTimeMs ∨ maxSaneTimeMs < ms then 0 else ms

-- A value that is not written: not finite, or beyond 1e100.
def isSkipped (x : Double) : Bool :=
  let limit := Double.round (10 ^ 100)
  x.isNaN || x.isInf || Double.lt limit x || Double.lt x limit.neg

-- One update of the bulk write: the point it is for, and its sourceDataUpdate.
structure WriteModel where
  filter : Document
  sourceDataUpdate : Document

def driverName : String := "DNP3"

def updateOf (iv : Dnp3Value) : SourceDataUpdate where
  valueAtSource := iv.value
  valueStringAtSource := iv.valueString
  asduAtSource := toString iv.group ++ " " ++ toString iv.variation
  causeOfTransmissionAtSource := toString iv.cot
  timeTagAtSource :=
    .dateTime (if iv.hasSourceTimestamp then sanitizeTime iv.sourceTimestamp else 0)
  timeTagAtSourceOk := iv.timeTagOk
  timeTag := .dateTime (sanitizeTime iv.serverTimestamp)
  notTopicalAtSource := iv.quality.notTopical
  invalidAtSource := iv.quality.invalid
  overflowAtSource := iv.quality.overflow
  blockedAtSource := iv.quality.blocked
  substitutedAtSource := iv.quality.substituted
  extra :=
    [("carryAtSource", .bool iv.quality.carry), ("transientAtSource", .bool iv.quality.transient),
      ("originator", .string (driverName ++ "|" ++ toString iv.connNumber))]

-- The update that a batch carries for one value.
def writeOf (iv : Dnp3Value) : Option WriteModel :=
  if isSkipped iv.value then none
  else
    some
      { filter := [("protocolSourceConnectionNumber", .number (.fin iv.connNumber)),
          ("protocolSourceCommonAddress", .number (.fin iv.baseGroup)),
          ("protocolSourceObjectAddress", .number (.fin iv.address))]
        sourceDataUpdate := (updateOf iv).bson }

end Update

end JsonScada.Dnp3
