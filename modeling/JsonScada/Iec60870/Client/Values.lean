import JsonScada.Iec60870.Client

namespace JsonScada.Iec60870.Client

open JsonScada.Library
open JsonScada.Processor (Document Value)

section Decode

inductive TimeClass where
  | none | cp24 | cp56
deriving DecidableEq

def timeClassOf (typeId : ℕ) : TimeClass :=
  if typeId ∈ [2, 4, 6, 8, 10, 12, 14, 16, 17, 18, 19] then .cp24
  else if typeId ∈ [30, 31, 32, 33, 34, 35, 36, 37, 38, 39, 40] then .cp56
  else .none

def doublePointCode : DoublePoint → ℚ
  | .indeterminateOrIntermediate => 0
  | .determinedOff => 1
  | .determinedOn => 2
  | .indeterminate => 3

-- What a monitor-direction object says, as it is parsed.
inductive MonitorInfo where
  | singlePoint (value : Bool) (qds : Quality)
  | doublePoint (value : DoublePoint) (qds : Quality)
  | stepPosition (val : ℤ) (hasTransient : Bool) (qds : Quality)
  | bitString32 (value : UInt32) (qds : Quality)
  -- without quality in type 21
  | measuredNormal (value : ℤ) (qds : Option Quality)
  | measuredScaled (value : ℤ) (qds : Quality)
  | measuredFloat (value : Binary32) (qds : Quality)
  | integratedTotals (counterReading : ℤ)
  | protectionEvent (isOn : Bool) (qdp : Quality)
  | packedProtection (qdp : Quality)
  | packedSinglePoints (scd : UInt32)
deriving DecidableEq

-- Its time is none where it has none or an invalid one.
structure MonitorObject where
  ioa : UInt32
  info : MonitorInfo
  time : Option ℤ := none

structure MonitorAsdu where
  typeId : ℕ
  commonAddr : UInt16
  cause : UInt8
  objects : List MonitorObject

-- One acquired value. The text of the type, when there is one, is that of the IEC 103 client.
structure IecValue where
  address : ℤ
  asdu : ℕ
  asduStr : String := ""
  isDigital : Bool
  value : Double
  cot : ℤ
  serverTimestamp : ℤ
  sourceTimestamp : Option ℤ
  timestampOk : Bool
  quality : Quality
  connNumber : ℤ
  commonAddress : ℤ

-- Whether the value is digital, the value, and its quality. Bitstrings, totals and packed points
-- are taken as good.
def MonitorInfo.content (pl : Platform) : MonitorInfo → Bool × Double × Quality
  | singlePoint v qds => (true, if v then .fin 1 else .fin 0, qds)
  | doublePoint v qds => (true, .fin (doublePointCode v), qds)
  | stepPosition val hasTransient qds =>
      (false, .fin val, { qds with invalid := qds.invalid || hasTransient })
  | bitString32 v _ => (false, .fin v.toNat, {})
  | measuredNormal v qds => (false, pl.normalFloat v, qds.getD {})
  | measuredScaled v qds => (false, .fin v, qds)
  | measuredFloat v qds => (false, v.widen.toDouble, qds)
  | integratedTotals c => (false, .fin c, {})
  | protectionEvent isOn qdp =>
      (true, if isOn then .fin 1 else .fin 0, { qdp with overflow := false })
  | packedProtection qdp => (true, .fin 1, { qdp with overflow := false })
  | packedSinglePoints scd => (false, .fin scd.toNat, {})

-- The values of `Decode`. A time of three octets is never one that is right.
def decode (pl : Platform) (now : ℤ) (pack : MonitorAsdu) (connNumber : ℤ) : List IecValue :=
  pack.objects.map fun o =>
    let (isDigital, value, q) := o.info.content pl
    let tc := timeClassOf pack.typeId
    { address := o.ioa.toNat
      asdu := pack.typeId
      isDigital := isDigital
      value := value
      cot := pack.cause.toNat
      serverTimestamp := now
      sourceTimestamp := if tc = .none then none else o.time
      timestampOk := tc = .cp56 && o.time.isSome
      quality := q
      connNumber := connNumber
      commonAddress := pack.commonAddr.toNat }

end Decode

section Update

-- The driver, with how the library names a type.
structure Driver where
  driverName : String
  typeString : ℕ → String

variable (driver : Driver)

def formatValue (v : Double) : String := Strconv.formatFloat 'E' v

def asduText (iv : IecValue) : String :=
  if iv.asduStr = "" then driver.typeString iv.asdu else iv.asduStr

def sourceDataUpdate (iv : IecValue) : Document :=
  [("valueAtSource", .number iv.value),
    ("valueStringAtSource", .string (formatValue iv.value)),
    ("asduAtSource", .string (asduText driver iv)),
    ("causeOfTransmissionAtSource", .string (toString iv.cot)),
    ("timeTagAtSource",
      match iv.sourceTimestamp with
      | some t => .dateTime (t / 1000000)
      | none => .null),
    ("timeTagAtSourceOk", .bool iv.timestampOk),
    ("timeTag", .dateTime (iv.serverTimestamp / 1000000)),
    ("notTopicalAtSource", .bool iv.quality.nonTopical),
    ("invalidAtSource", .bool iv.quality.invalid),
    ("overflowAtSource", .bool iv.quality.overflow),
    ("blockedAtSource", .bool iv.quality.blocked),
    ("substitutedAtSource", .bool iv.quality.substituted),
    ("originator", .string (driver.driverName ++ "|" ++ toString iv.connNumber))]

-- The fields that the update sets.
def sourceDataUpdateDoc (iv : IecValue) : Document :=
  [("sourceDataUpdate", .document (sourceDataUpdate driver iv))]

end Update

end JsonScada.Iec60870.Client
