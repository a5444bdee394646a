import JsonScada.Dnp3.AutoCreate

namespace JsonScada.Dnp3

open JsonScada.Library

section Codes

-- The octet of a control: the type of the operation in its low nibble, and the coil in its two
-- highest bits.
abbrev ControlCode := UInt8

namespace ControlCode

def nul : ControlCode := 0
def pulseOn : ControlCode := 1
def pulseOff : ControlCode := 2
def latchOn : ControlCode := 3
def latchOff : ControlCode := 4
def close : ControlCode := 0x40
def trip : ControlCode := 0x80

def opType (code : ControlCode) : ControlCode := code &&& 0x0f
def isClose (code : ControlCode) : Bool := code &&& 0xc0 = close
def isTrip (code : ControlCode) : Bool := code &&& 0xc0 = trip

end ControlCode

structure ControlRelayOutputBlock where
  code : ControlCode
  count : ℕ := 1
  onTime : ℕ := 0
  offTime : ℕ := 0
deriving DecidableEq

end Codes

section Blocks

def crobPulseOnTime : ℕ := 100
def crobPulseOffTime : ℕ := 100

-- The block for the duration code of a command. The codes that are not listed operate nothing.
def crobFor (duration : ℤ) (value : Double) : ControlRelayOutputBlock :=
  let on := !Double.eq value (.fin 0)
  let pulse (onCode offCode : ControlCode) : ControlRelayOutputBlock :=
    { code := if on then onCode else offCode, onTime := crobPulseOnTime, offTime := crobPulseOffTime }
  let latch (onCode offCode : ControlCode) : ControlRelayOutputBlock :=
    { code := if on then onCode else offCode }
  if duration = 1 then pulse .pulseOn .pulseOff
  else if duration = 2 then pulse .pulseOff .pulseOn
  else if duration = 3 then latch .latchOn .latchOff
  else if duration = 4 then latch .latchOff .latchOn
  else if duration = 11 then
    pulse (ControlCode.pulseOn ||| ControlCode.close) (ControlCode.pulseOff ||| ControlCode.trip)
  else if duration = 13 then
    latch (ControlCode.latchOn ||| ControlCode.close) (ControlCode.latchOff ||| ControlCode.trip)
  else if duration = 21 then
    pulse (ControlCode.pulseOn ||| ControlCode.trip) (ControlCode.pulseOff ||| ControlCode.close)
  else if duration = 23 then
    latch (ControlCode.latchOn ||| ControlCode.trip) (ControlCode.latchOff ||| ControlCode.close)
  else { code := .nul }

-- The octets that a device acts on.
example : ([1, 2, 3, 4, 11, 13, 21, 23, 0].map fun d => (crobFor d (.fin 1)).code) =
    [0x01, 0x02, 0x03, 0x04, 0x41, 0x43, 0x81, 0x83, 0x00] := by decide

end Blocks

end JsonScada.Dnp3
