import Mathlib.Data.List.Basic
import Mathlib.Logic.Function.Iterate
import Mathlib.Tactic.Common

namespace JsonScada.Modbus

abbrev Bytes := List UInt8

-- Function codes with a request length known from the request itself.
def fcReadCoils : UInt8 := 1
def fcReadDiscreteInputs : UInt8 := 2
def fcReadHoldingRegisters : UInt8 := 3
def fcReadInputRegisters : UInt8 := 4
def fcWriteSingleCoil : UInt8 := 5
def fcWriteSingleRegister : UInt8 := 6
def fcWriteMultipleCoils : UInt8 := 15
def fcWriteMultipleRegisters : UInt8 := 16
def fcMaskWriteRegister : UInt8 := 22

-- Entry `i` of the table: eight shifts with the polynomial 0xA001.
def crcTable (i : UInt16) : UInt16 :=
  (fun crc : UInt16 => if crc &&& 1 ≠ 0 then crc >>> 1 ^^^ 0xa001 else crc >>> 1)^[8] i

def crc16 (b : Bytes) : UInt16 :=
  b.foldl (fun crc c => crc >>> 8 ^^^ crcTable ((crc ^^^ c.toUInt16) &&& 0xff)) 0xffff

-- The low byte goes first.
def appendCRC (b : Bytes) : Bytes :=
  b ++ [(crc16 b).toUInt8, (crc16 b >>> 8).toUInt8]

def checkCRC (frame : Bytes) : Bool :=
  if frame.length < 3 then false
  else
    let n := frame.length - 2
    crc16 (frame.take n) == (frame[n]!.toUInt16 ||| frame[n + 1]!.toUInt16 <<< 8)

def encodeRTU (unit : UInt8) (pdu : Bytes) : Bytes :=
  appendCRC (unit :: pdu)

structure RTUFrame where
  unit : UInt8
  pdu : Bytes
  deriving DecidableEq, Repr

-- `frame[0]` and `frame[1 : n - 2]` of a frame of `n` bytes.
def RTUFrame.ofBytes (frame : Bytes) : RTUFrame where
  unit := frame.headD 0
  pdu := (frame.take (frame.length - 2)).drop 1

-- The total request length (unit + PDU + CRC), or `none` (-1 in the source)
-- when it cannot be known yet.
def predictRequestLength (b : Bytes) : Option Nat :=
  if b.length < 2 then none
  else
    let fc := b[1]!
    if fc = fcReadCoils ∨ fc = fcReadDiscreteInputs ∨ fc = fcReadHoldingRegisters ∨
        fc = fcReadInputRegisters ∨ fc = fcWriteSingleCoil ∨ fc = fcWriteSingleRegister then
      some (1 + 5 + 2)
    else if fc = fcMaskWriteRegister then some (1 + 7 + 2)
    else if fc = fcWriteMultipleCoils ∨ fc = fcWriteMultipleRegisters then
      if b.length < 7 then none else some (1 + 6 + b[6]!.toNat + 2)
    else none

theorem predictRequestLength_ge {b : Bytes} {n : Nat} (h : predictRequestLength b = some n) :
    8 ≤ n := by
  simp only [predictRequestLength] at h
  split_ifs at h <;> have hn := Option.some.inj h <;> omega

structure RTURequestDecoder where
  buf : Bytes := []
  deriving DecidableEq, Repr

namespace RTURequestDecoder

def reset (_ : RTURequestDecoder) : RTURequestDecoder := { buf := [] }

-- One turn of the loop in `Push`. The flag says whether to try again.
def tryOne (d : RTURequestDecoder) (out : List RTUFrame) :
    Bool × RTURequestDecoder × List RTUFrame :=
  match predictRequestLength d.buf with
  | none => (false, d, out)
  | some n =>
      if d.buf.length < n then (false, d, out)
      else
        let frame := d.buf.take n
        if checkCRC frame then (true, { buf := d.buf.drop n }, out ++ [RTUFrame.ofBytes frame])
        else
          -- CRC failure: shift one byte and retry to resynchronize.
          let buf := d.buf.tail
          (decide (4 ≤ buf.length), { buf := buf }, out)

-- `for d.tryOne(&out) {}` cut off after `fuel` turns.
def tryLoop : Nat → RTURequestDecoder → List RTUFrame → Option (RTURequestDecoder × List RTUFrame)
  | 0, _, _ => none
  | fuel + 1, d, out =>
      match tryOne d out with
      | (true, d', out') => tryLoop fuel d' out'
      | (false, d', out') => some (d', out')

-- A turn that asks for another one has taken at least one byte.
theorem tryOne_shrinks {d d' : RTURequestDecoder} {out out' : List RTUFrame}
    (h : tryOne d out = (true, d', out')) : d'.buf.length < d.buf.length := by
  unfold tryOne at h
  cases hp : predictRequestLength d.buf with
  | none => simp [hp] at h
  | some n =>
      have hn := predictRequestLength_ge hp
      simp only [hp] at h
      split_ifs at h with hlen hcrc
      · cases h
      · cases h
        simp only [List.length_drop]
        omega
      · obtain ⟨hmore, hrest⟩ := Prod.mk.inj h
        cases hrest
        have hm : 4 ≤ d.buf.tail.length := of_decide_eq_true hmore
        simp only [List.length_tail] at hm ⊢
        omega

-- The loop itself, which needs no bound: every turn takes a byte.
def tryAll (d : RTURequestDecoder) (out : List RTUFrame) : RTURequestDecoder × List RTUFrame :=
  match h : tryOne d out with
  | (true, d', out') =>
      have := tryOne_shrinks h
      tryAll d' out'
  | (false, d', out') => (d', out')
termination_by d.buf.length

def push (d : RTURequestDecoder) (chunk : Bytes) : RTURequestDecoder × List RTUFrame :=
  tryAll { buf := d.buf ++ chunk } []

-- Whatever is buffered is one frame when its CRC checks out, and dropped otherwise.
def onIdle (d : RTURequestDecoder) : RTURequestDecoder × List RTUFrame :=
  if 4 ≤ d.buf.length ∧ checkCRC d.buf = true then
    ({ buf := [] }, [RTUFrame.ofBytes d.buf])
  else ({ buf := [] }, [])

-- Chunks pushed one after the other with no idle gap between them.
def pushAll (d : RTURequestDecoder) : List Bytes → RTURequestDecoder × List RTUFrame
  | [] => (d, [])
  | chunk :: chunks =>
      let first := d.push chunk
      let rest := pushAll first.1 chunks
      (rest.1, first.2 ++ rest.2)

inductive Input where
  | chunk (bytes : Bytes)
  | idle
  | reset

def feed (d : RTURequestDecoder) : Input → RTURequestDecoder
  | .chunk bytes => (d.push bytes).1
  | .idle => d.onIdle.1
  | .reset => d.reset

-- The states a decoder can be in: everything fed to a new one.
def after (inputs : List Input) : RTURequestDecoder :=
  inputs.foldl feed {}

end RTURequestDecoder

end JsonScada.Modbus
