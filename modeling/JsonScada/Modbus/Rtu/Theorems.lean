import JsonScada.Library.Scanner
import JsonScada.Modbus.Rtu
import Mathlib.Data.List.Induction
import Mathlib.Data.Nat.Bitwise

namespace JsonScada.Modbus

open JsonScada.Library

section Crc

-- The two bytes sent for a 16-bit word put the word together again.
private theorem word_of_bytes (n : Nat) (h : n < 2 ^ 16) :
    n % 2 ^ 8 ||| (n >>> 8 % 2 ^ 8) <<< 8 % 2 ^ 16 = n := by
  have hhigh : n >>> 8 % 2 ^ 8 = n / 256 := by
    rw [Nat.shiftRight_eq_div_pow]
    omega
  have hword : (n / 256) <<< 8 % 2 ^ 16 = (n / 256) <<< 8 := by
    rw [Nat.shiftLeft_eq]
    omega
  rw [hhigh, hword, Nat.or_comm, ← Nat.shiftLeft_add_eq_or_of_lt (by omega), Nat.shiftLeft_eq]
  omega

theorem crc_bytes (crc : UInt16) :
    crc.toUInt8.toUInt16 ||| (crc >>> 8).toUInt8.toUInt16 <<< 8 = crc := by
  apply UInt16.toNat_inj.mp
  simp only [UInt16.toNat_or, UInt16.toNat_shiftLeft, UInt8.toNat_toUInt16, UInt16.toNat_toUInt8,
    UInt16.toNat_shiftRight]
  exact word_of_bytes crc.toNat crc.toNat_lt

theorem checkCRC_appendCRC (b : Bytes) (h : b ≠ []) : checkCRC (appendCRC b) = true := by
  have hpos := List.length_pos_of_ne_nil h
  have hlen : (appendCRC b).length - 2 = b.length := by simp [appendCRC]
  have hlow : (appendCRC b)[b.length]! = (crc16 b).toUInt8 := by simp [appendCRC]
  have hhigh : (appendCRC b)[b.length + 1]! = (crc16 b >>> 8).toUInt8 := by simp [appendCRC]
  simp only [checkCRC, hlen, hlow, hhigh, crc_bytes]
  rw [if_neg (by simp only [appendCRC, List.length_append, List.length_cons]; omega)]
  simp [appendCRC]

end Crc

section Prediction

-- Every prediction comes from bytes that further input does not change.
theorem predictRequestLength_append {b : Bytes} {n : Nat} (more : Bytes)
    (h : predictRequestLength b = some n) : predictRequestLength (b ++ more) = some n := by
  have hlen : 2 ≤ b.length := by
    by_contra hlt
    simp [predictRequestLength, show b.length < 2 by omega] at h
  have hfc : (b ++ more)[1]! = b[1]! := by
    rw [List.getElem!_eq_getElem?_getD, List.getElem!_eq_getElem?_getD,
      List.getElem?_append_left (by omega)]
  simp only [predictRequestLength, hfc] at h ⊢
  rw [if_neg (by omega)] at h
  rw [if_neg (by simp only [List.length_append]; omega)]
  split_ifs at h with hfixed hmask hcounted hcount
  · rw [if_pos hfixed]; exact h
  · rw [if_neg hfixed, if_pos hmask]; exact h
  · have hbyte : (b ++ more)[6]! = b[6]! := by
      rw [List.getElem!_eq_getElem?_getD, List.getElem!_eq_getElem?_getD,
        List.getElem?_append_left (by omega)]
    rw [if_neg hfixed, if_neg hmask, if_pos hcounted,
      if_neg (by simp only [List.length_append]; omega), hbyte]
    exact h

end Prediction

section Scanning

-- One turn of the decoder as an attempt on the buffer: a frame, a byte given
-- up, or a wait for more bytes.
def cutRequest (buf : Bytes) : Option (Option RTUFrame × Bytes) :=
  match predictRequestLength buf with
  | none => none
  | some n =>
      if buf.length < n then none
      else if checkCRC (buf.take n) then some (some (RTUFrame.ofBytes (buf.take n)), buf.drop n)
      else some (none, buf.tail)

-- The bytes a cut looks at are all there, so a cut is one of two.
theorem cutRequest_cases {buf rest : Bytes} {item : Option RTUFrame}
    (h : cutRequest buf = some (item, rest)) :
    ∃ n, predictRequestLength buf = some n ∧ n ≤ buf.length ∧
      (checkCRC (buf.take n) = true ∧ item = some (RTUFrame.ofBytes (buf.take n)) ∧
          rest = buf.drop n ∨
        checkCRC (buf.take n) = false ∧ item = none ∧ rest = buf.tail) := by
  unfold cutRequest at h
  cases hp : predictRequestLength buf with
  | none => simp [hp] at h
  | some n =>
      simp only [hp] at h
      split_ifs at h with hlen hcrc
      · obtain ⟨rfl, rfl⟩ := Prod.mk.inj (Option.some.inj h)
        exact ⟨n, rfl, by omega, .inl ⟨hcrc, rfl, rfl⟩⟩
      · obtain ⟨rfl, rfl⟩ := Prod.mk.inj (Option.some.inj h)
        exact ⟨n, rfl, by omega, .inr ⟨by simpa using hcrc, rfl, rfl⟩⟩

theorem cutRequest_of_length {buf : Bytes} {n : Nat} (hp : predictRequestLength buf = some n)
    (hlen : n ≤ buf.length) :
    cutRequest buf =
      if checkCRC (buf.take n) then some (some (RTUFrame.ofBytes (buf.take n)), buf.drop n)
      else some (none, buf.tail) := by
  simp [cutRequest, hp, show ¬buf.length < n by omega]

-- Too few bytes for any request.
theorem cutRequest_short {buf : Bytes} (h : buf.length < 4) : cutRequest buf = none := by
  unfold cutRequest
  cases hp : predictRequestLength buf with
  | none => rfl
  | some n =>
      have hn := predictRequestLength_ge hp
      simp [show buf.length < n by omega]

def requestScanner : Scanner UInt8 RTUFrame where
  attempt := cutRequest
  shrinks := by
    intro buf item rest h
    obtain ⟨n, hp, hlen, hcut⟩ := cutRequest_cases h
    have hn := predictRequestLength_ge hp
    rcases hcut with ⟨_, _, rfl⟩ | ⟨_, _, rfl⟩
    · simp only [List.length_drop]
      omega
    · simp only [List.length_tail]
      omega
  stable := by
    intro buf item rest more h
    obtain ⟨n, hp, hlen, hcut⟩ := cutRequest_cases h
    have hn := predictRequestLength_ge hp
    have htake : (buf ++ more).take n = buf.take n := List.take_append_of_le_length hlen
    rw [cutRequest_of_length (predictRequestLength_append more hp)
      (by simp only [List.length_append]; omega), htake]
    rcases hcut with ⟨hcrc, rfl, rfl⟩ | ⟨hcrc, rfl, rfl⟩
    · rw [if_pos hcrc, List.drop_append_of_le_length hlen]
    · have hne : buf ≠ [] := List.ne_nil_of_length_pos (by omega)
      rw [if_neg (by simp [hcrc]), List.tail_append_of_ne_nil hne]

namespace RTURequestDecoder

-- The early stop after a shift (fewer than four bytes left) is no different
-- from going on: so few bytes are never cut.
theorem tryOne_eq (d : RTURequestDecoder) (out : List RTUFrame) :
    tryOne d out =
      match cutRequest d.buf with
      | none => (false, d, out)
      | some (some frame, rest) => (true, { buf := rest }, out ++ [frame])
      | some (none, rest) => (decide (4 ≤ rest.length), { buf := rest }, out) := by
  unfold tryOne cutRequest
  cases predictRequestLength d.buf with
  | none => rfl
  | some n => simp only; split_ifs <;> rfl

theorem tryAll_again {d d' : RTURequestDecoder} {out out' : List RTUFrame}
    (h : tryOne d out = (true, d', out')) : tryAll d out = tryAll d' out' := by
  rw [tryAll]
  split <;> rename_i hs <;> rw [h] at hs <;> cases hs
  rfl

theorem tryAll_stop {d d' : RTURequestDecoder} {out out' : List RTUFrame}
    (h : tryOne d out = (false, d', out')) : tryAll d out = (d', out') := by
  rw [tryAll]
  split <;> rename_i hs <;> rw [h] at hs <;> cases hs
  rfl

theorem tryAll_eq_drain (d : RTURequestDecoder) (out : List RTUFrame) :
    tryAll d out =
      ({ buf := (requestScanner.drain d.buf).2 }, out ++ (requestScanner.drain d.buf).1) := by
  obtain ⟨buf⟩ := d
  induction buf using requestScanner.buffer_induction generalizing out with
  | stuck buf ha =>
      have hcut : cutRequest buf = none := ha
      rw [tryAll_stop (by rw [tryOne_eq, hcut]), requestScanner.drain_none ha]
      simp
  | cut buf item rest ha ih =>
      have hcut : cutRequest buf = some (item, rest) := ha
      rw [requestScanner.drain_some ha]
      cases item with
      | some frame =>
          rw [tryAll_again (by rw [tryOne_eq, hcut]), ih]
          simp
      | none =>
          have hstep : tryOne ⟨buf⟩ out = (decide (4 ≤ rest.length), ⟨rest⟩, out) := by
            rw [tryOne_eq, hcut]
          by_cases hmore : 4 ≤ rest.length
          · rw [decide_eq_true hmore] at hstep
            rw [tryAll_again hstep, ih]
            simp
          · -- fewer than four bytes are left: stopping and draining agree
            have hn : requestScanner.attempt rest = none := cutRequest_short (by omega)
            rw [decide_eq_false hmore] at hstep
            rw [tryAll_stop hstep, requestScanner.drain_none hn]
            simp

theorem push_eq_drain (d : RTURequestDecoder) (chunk : Bytes) :
    d.push chunk =
      ({ buf := (requestScanner.drain (d.buf ++ chunk)).2 },
        (requestScanner.drain (d.buf ++ chunk)).1) := by
  simp [push, tryAll_eq_drain]

theorem pushAll_eq_feed (d : RTURequestDecoder) (chunks : List Bytes) :
    d.pushAll chunks =
      ({ buf := (requestScanner.feed d.buf chunks).2 },
        (requestScanner.feed d.buf chunks).1) := by
  induction chunks generalizing d with
  | nil => rfl
  | cons chunk chunks ih =>
      simp only [pushAll, ih, push_eq_drain, Scanner.feed]

-- A decoder never keeps bytes from which a request could still be cut.
theorem after_stuck (inputs : List Input) : cutRequest (after inputs).buf = none := by
  induction inputs using List.reverseRecOn with
  | nil => exact cutRequest_short (by decide)
  | append_singleton inputs input ih =>
      simp only [after, List.foldl_append, List.foldl_cons, List.foldl_nil]
      cases input with
      | chunk bytes =>
          simp only [feed, push_eq_drain]
          exact requestScanner.drain_stuck _
      | idle =>
          simp only [feed, onIdle]
          split <;> exact cutRequest_short (by simp)
      | reset => exact cutRequest_short (by simp [feed, reset])

-- However the bytes are cut into chunks, a decoder in any state it can be in
-- returns the same frames and keeps the same bytes.
theorem pushAll_eq_push_flatten (inputs : List Input) (chunks : List Bytes) :
    (after inputs).pushAll chunks = (after inputs).push chunks.flatten := by
  rw [pushAll_eq_feed, push_eq_drain, requestScanner.feed_of_stuck _ _ (after_stuck inputs)]

-- The loop ends: with more turns than buffered bytes it is `tryAll`.
theorem tryLoop_eq_tryAll (fuel : Nat) (d : RTURequestDecoder) (out : List RTUFrame)
    (hfuel : d.buf.length < fuel) : tryLoop fuel d out = some (tryAll d out) := by
  induction fuel generalizing d out with
  | zero => omega
  | succ fuel ih =>
      rcases ht : tryOne d out with ⟨more, d', out'⟩
      simp only [tryLoop, ht]
      cases more with
      | true =>
          have hlt := tryOne_shrinks ht
          rw [tryAll_again ht]
          exact ih d' out' (by omega)
      | false => rw [tryAll_stop ht]

end RTURequestDecoder

end Scanning

section Frames

-- The PDU of a request with a function code the decoder knows: the counted
-- ones carry as many bytes as their count byte says.
def WellFormedPDU (pdu : Bytes) : Prop :=
  match pdu with
  | [] => False
  | fc :: fields =>
      fc ∈ [fcReadCoils, fcReadDiscreteInputs, fcReadHoldingRegisters, fcReadInputRegisters,
          fcWriteSingleCoil, fcWriteSingleRegister] ∧ fields.length = 4 ∨
        fc = fcMaskWriteRegister ∧ fields.length = 6 ∨
        fc ∈ [fcWriteMultipleCoils, fcWriteMultipleRegisters] ∧
          ∃ header count data, fields = header ++ count :: data ∧ header.length = 4 ∧
            data.length = count.toNat

structure Request where
  unit : UInt8
  pdu : Bytes
  wellFormed : WellFormedPDU pdu

def Request.encode (r : Request) : Bytes := encodeRTU r.unit r.pdu

def Request.frame (r : Request) : RTUFrame := { unit := r.unit, pdu := r.pdu }

theorem encodeRTU_length (unit : UInt8) (pdu : Bytes) :
    (encodeRTU unit pdu).length = pdu.length + 3 := by
  simp [encodeRTU, appendCRC]

theorem ofBytes_encodeRTU (unit : UInt8) (pdu : Bytes) :
    RTUFrame.ofBytes (encodeRTU unit pdu) = { unit := unit, pdu := pdu } := by
  simp [RTUFrame.ofBytes, encodeRTU, appendCRC]

-- The length predicted from the start of a request is its length.
theorem Request.predict_encode (r : Request) :
    predictRequestLength r.encode = some r.encode.length := by
  obtain ⟨unit, pdu, hwf⟩ := r
  have hlen := encodeRTU_length unit pdu
  cases pdu with
  | nil => exact hwf.elim
  | cons fc fields =>
      have hfc : (encodeRTU unit (fc :: fields))[1]! = fc := by simp [encodeRTU, appendCRC]
      simp only [Request.encode, predictRequestLength, hfc, hlen, List.length_cons]
      rw [if_neg (by omega)]
      rcases hwf with ⟨hm, hl⟩ | ⟨rfl, hl⟩ | ⟨hm, header, count, data, rfl, hh, hd⟩
      · simp only [List.mem_cons, List.not_mem_nil, or_false] at hm
        rw [if_pos hm, hl]
      · simp [hl, fcMaskWriteRegister, fcReadCoils, fcReadDiscreteInputs, fcReadHoldingRegisters,
          fcReadInputRegisters, fcWriteSingleCoil, fcWriteSingleRegister]
      · have hcount : (encodeRTU unit (fc :: (header ++ count :: data)))[6]! = count := by
          simp [encodeRTU, appendCRC, hh]
        simp only [hcount, List.length_append, List.length_cons, hh, hd]
        simp only [List.mem_cons, List.not_mem_nil, or_false] at hm
        rcases hm with rfl | rfl <;>
          simp [fcMaskWriteRegister, fcReadCoils, fcReadDiscreteInputs, fcReadHoldingRegisters,
            fcReadInputRegisters, fcWriteSingleCoil, fcWriteSingleRegister, fcWriteMultipleCoils,
            fcWriteMultipleRegisters] <;> omega

theorem Request.cut_encode (r : Request) (rest : Bytes) :
    requestScanner.attempt (r.encode ++ rest) = some (some r.frame, rest) := by
  have hp := predictRequestLength_append rest r.predict_encode
  have hcrc : checkCRC r.encode = true := checkCRC_appendCRC _ (by simp)
  change cutRequest _ = _
  rw [cutRequest_of_length hp (by simp)]
  simp only [List.take_left, List.drop_left, hcrc, if_true]
  rw [Request.encode, ofBytes_encodeRTU]
  rfl

-- The bytes a frame was cut from: they carry the frame's unit and PDU, and
-- their CRC checks out.
def CutFrom (bytes : Bytes) (frame : RTUFrame) : Prop :=
  ∃ raw, raw <:+: bytes ∧ checkCRC raw = true ∧ ∃ low high,
    raw = frame.unit :: (frame.pdu ++ [low, high])

-- A frame of at least four bytes is its unit, its PDU and two CRC bytes.
theorem bytes_of_ofBytes (raw : Bytes) (hlen : 4 ≤ raw.length) :
    ∃ low high, raw = (RTUFrame.ofBytes raw).unit :: ((RTUFrame.ofBytes raw).pdu ++ [low, high]) := by
  cases raw with
  | nil => simp at hlen
  | cons unit rest =>
      simp only [List.length_cons] at hlen
      have htail : (rest.drop (rest.length - 2)).length = 2 := by
        simp only [List.length_drop]
        omega
      obtain ⟨low, high, hl⟩ := List.length_eq_two.mp htail
      refine ⟨low, high, ?_⟩
      have hpdu : (RTUFrame.ofBytes (unit :: rest)).pdu = rest.take (rest.length - 2) := by
        simp only [RTUFrame.ofBytes, List.length_cons]
        rw [show rest.length + 1 - 2 = (rest.length - 2) + 1 by omega]
        simp
      rw [hpdu, ← hl, List.take_append_drop]
      rfl

theorem cutFrom_of_infix {bytes raw : Bytes} (hin : raw <:+: bytes) (hlen : 4 ≤ raw.length)
    (hcrc : checkCRC raw = true) : CutFrom bytes (RTUFrame.ofBytes raw) :=
  ⟨raw, hin, hcrc, bytes_of_ofBytes raw hlen⟩

theorem CutFrom.mono {bytes more : Bytes} {frame : RTUFrame} (h : CutFrom bytes frame)
    (hin : bytes <:+: more) : CutFrom more frame := by
  obtain ⟨raw, hraw, hrest⟩ := h
  exact ⟨raw, hraw.trans hin, hrest⟩

namespace RTURequestDecoder

theorem push_cutFrom (d : RTURequestDecoder) (chunk : Bytes) :
    ∀ frame ∈ (d.push chunk).2, CutFrom (d.buf ++ chunk) frame := by
  rw [push_eq_drain]
  refine @Scanner.drain_forall _ _ requestScanner CutFrom ?_ ?_ _
  · intro buf frame rest hcut
    obtain ⟨n, hp, hlen, hitem⟩ := cutRequest_cases hcut
    have hn := predictRequestLength_ge hp
    rcases hitem with ⟨hcrc, hframe, _⟩ | ⟨_, hframe, _⟩
    · rw [Option.some.inj hframe]
      refine cutFrom_of_infix (List.take_prefix n buf).isInfix ?_ hcrc
      rw [List.length_take]
      omega
    · cases hframe
  · intro buf item rest frame hcut hframe
    obtain ⟨n, _, _, hitem⟩ := cutRequest_cases hcut
    rcases hitem with ⟨_, _, rfl⟩ | ⟨_, _, rfl⟩
    · exact hframe.mono (List.drop_suffix n buf).isInfix
    · exact hframe.mono (List.tail_suffix buf).isInfix

theorem onIdle_cutFrom (d : RTURequestDecoder) :
    ∀ frame ∈ d.onIdle.2, CutFrom d.buf frame := by
  intro frame hframe
  unfold onIdle at hframe
  split at hframe
  · rename_i hd
    obtain rfl := List.mem_singleton.mp hframe
    exact cutFrom_of_infix (List.infix_refl _) hd.1 hd.2
  · cases hframe

theorem push_requests (requests : List Request) :
    push {} (requests.flatMap Request.encode) = ({}, requests.map Request.frame) := by
  have h := requestScanner.drain_flatMap Request.encode Request.frame Request.cut_encode requests []
  have hn : requestScanner.attempt [] = none :=
    show cutRequest [] = none from cutRequest_short (by simp)
  rw [requestScanner.drain_none hn] at h
  simp only [List.append_nil] at h
  simp [push_eq_drain, h]

-- Request framing does not depend on how the serial line delivers bytes.
theorem framing_of_stream :
    (∀ inputs chunks, (after inputs).pushAll chunks = (after inputs).push chunks.flatten) ∧
      (∀ requests : List Request,
        push {} (requests.flatMap Request.encode) = ({}, requests.map Request.frame)) ∧
      (∀ d chunk, ∀ frame ∈ (push d chunk).2, CutFrom (d.buf ++ chunk) frame) ∧
      (∀ d, ∀ frame ∈ (onIdle d).2, CutFrom d.buf frame) ∧
      ∀ d chunk fuel, (d.buf ++ chunk).length < fuel →
        tryLoop fuel { buf := d.buf ++ chunk } [] = some (push d chunk) :=
  ⟨pushAll_eq_push_flatten, push_requests, push_cutFrom, onIdle_cutFrom,
    fun _ _ fuel hfuel => tryLoop_eq_tryAll fuel _ [] hfuel⟩

-- Read two holding registers of unit 1.
theorem framing_of_stream_read :
    tryLoop 9 { buf := [1, 3, 0, 0, 0, 2, 0xc4, 0x0b] } [] =
        some (push {} [1, 3, 0, 0, 0, 2, 0xc4, 0x0b]) ∧
      tryLoop 9 { buf := [1, 3, 0, 0, 0, 2, 0xc4, 0x0b] } [] =
        some ({}, [{ unit := 1, pdu := [3, 0, 0, 0, 2] }]) :=
  ⟨framing_of_stream.2.2.2.2 {} [1, 3, 0, 0, 0, 2, 0xc4, 0x0b] 9 (by decide), by decide⟩

end RTURequestDecoder

end Frames

-- What becomes of a request that comes after line noise.
section Crc

-- The word put together from two bytes has these bytes.
private theorem bytes_of_word {low high : Nat} (hl : low < 2 ^ 8) (hh : high < 2 ^ 8) :
    (low ||| high <<< 8 % 2 ^ 16) % 2 ^ 8 = low ∧
      (low ||| high <<< 8 % 2 ^ 16) >>> 8 % 2 ^ 8 = high := by
  have hword : high <<< 8 % 2 ^ 16 = high <<< 8 := by
    rw [Nat.shiftLeft_eq]
    omega
  rw [hword, Nat.or_comm, ← Nat.shiftLeft_add_eq_or_of_lt hl, Nat.shiftLeft_eq,
    Nat.shiftRight_eq_div_pow]
  omega

theorem crc_word (low high : UInt8) :
    (low.toUInt16 ||| high.toUInt16 <<< 8).toUInt8 = low ∧
      ((low.toUInt16 ||| high.toUInt16 <<< 8) >>> 8).toUInt8 = high := by
  have h := bytes_of_word low.toNat_lt high.toNat_lt
  constructor
  · apply UInt8.toNat_inj.mp
    simp only [UInt16.toNat_toUInt8, UInt16.toNat_or, UInt16.toNat_shiftLeft, UInt8.toNat_toUInt16]
    exact h.1
  · apply UInt8.toNat_inj.mp
    simp only [UInt16.toNat_toUInt8, UInt16.toNat_shiftRight, UInt16.toNat_or,
      UInt16.toNat_shiftLeft, UInt8.toNat_toUInt16]
    exact h.2

-- The CRC bytes follow from the rest of a frame.
theorem eq_encodeRTU {raw : Bytes} (hlen : 4 ≤ raw.length) (hcrc : checkCRC raw = true) :
    raw = encodeRTU (RTUFrame.ofBytes raw).unit (RTUFrame.ofBytes raw).pdu := by
  obtain ⟨low, high, hraw⟩ := bytes_of_ofBytes raw hlen
  generalize (RTUFrame.ofBytes raw).unit = unit at hraw ⊢
  generalize (RTUFrame.ofBytes raw).pdu = pdu at hraw ⊢
  subst hraw
  have hn : (unit :: (pdu ++ [low, high])).length - 2 = (unit :: pdu).length := by simp
  have htake : (unit :: (pdu ++ [low, high])).take (unit :: pdu).length = unit :: pdu := by simp
  have hlow : (unit :: (pdu ++ [low, high]))[(unit :: pdu).length]! = low := by simp
  have hhigh : (unit :: (pdu ++ [low, high]))[(unit :: pdu).length + 1]! = high := by simp
  rw [checkCRC, if_neg (by omega)] at hcrc
  simp only [hn, htake, hlow, hhigh, beq_iff_eq] at hcrc
  obtain ⟨h1, h2⟩ := crc_word low high
  rw [encodeRTU, appendCRC, hcrc, h1, h2]
  rfl

end Crc

section Prediction

-- A request that is all there is predicted from its own bytes.
theorem predictRequestLength_take {buf : Bytes} {n : Nat} (h : predictRequestLength buf = some n)
    (hn : n ≤ buf.length) : predictRequestLength (buf.take n) = some n := by
  have hge := predictRequestLength_ge h
  have hlen : (buf.take n).length = n := by
    rw [List.length_take]
    omega
  cases hp : predictRequestLength (buf.take n) with
  | some m =>
      have hmore := predictRequestLength_append (buf.drop n) hp
      rw [List.take_append_drop, h] at hmore
      exact hmore.symm
  | none =>
      -- all the bytes that are looked at are there
      have hfc : (buf.take n)[1]! = buf[1]! := by
        rw [List.getElem!_eq_getElem?_getD, List.getElem!_eq_getElem?_getD,
          List.getElem?_take_of_lt (by omega)]
      have hcount : (buf.take n)[6]! = buf[6]! := by
        rw [List.getElem!_eq_getElem?_getD, List.getElem!_eq_getElem?_getD,
          List.getElem?_take_of_lt (by omega)]
      simp only [predictRequestLength, hlen, hfc, hcount] at h hp
      rw [if_neg (by omega)] at h hp
      split_ifs at h hp
      omega

end Prediction

section Resync

-- The function codes whose requests have a length known from the request.
def countedFunctions : List UInt8 :=
  [fcReadCoils, fcReadDiscreteInputs, fcReadHoldingRegisters, fcReadInputRegisters,
    fcWriteSingleCoil, fcWriteSingleRegister, fcMaskWriteRegister, fcWriteMultipleCoils,
    fcWriteMultipleRegisters]

-- The PDU of a request with any other function code ends where the line goes idle.
def IdlePDU (pdu : Bytes) : Prop :=
  match pdu with
  | [] => False
  | fc :: _ => fc ∉ countedFunctions

-- The bytes before `rest` that the decoder gets past: complete requests, and single bytes from
-- which a request is predicted that is all there but fails its CRC.
inductive Passable (rest : Bytes) : Bytes → Prop where
  | nil : Passable rest []
  | request {raw bytes : Bytes} :
      predictRequestLength raw = some raw.length → checkCRC raw = true → Passable rest bytes →
      Passable rest (raw ++ bytes)
  | shift {b : UInt8} {bytes : Bytes} {n : Nat} :
      predictRequestLength (b :: bytes ++ rest) = some n → n ≤ (b :: bytes ++ rest).length →
      checkCRC ((b :: bytes ++ rest).take n) = false → Passable rest bytes →
      Passable rest (b :: bytes)

theorem reaches_of_passable {rest bytes : Bytes} (h : Passable rest bytes) :
    requestScanner.Reaches (bytes ++ rest) rest := by
  induction h with
  | nil => exact .refl rest
  | @request raw bytes hp hcrc _ ih =>
      have hcut : requestScanner.attempt (raw ++ (bytes ++ rest)) =
          some (some (RTUFrame.ofBytes raw), bytes ++ rest) := by
        change cutRequest _ = _
        rw [cutRequest_of_length (predictRequestLength_append _ hp) (by simp)]
        simp only [List.take_left, List.drop_left, hcrc, if_true]
      rw [List.append_assoc]
      exact .cut hcut ih
  | @shift b bytes n hp hn hcrc _ ih =>
      have hcut : requestScanner.attempt (b :: bytes ++ rest) = some (none, bytes ++ rest) := by
        change cutRequest _ = _
        rw [cutRequest_of_length hp hn, hcrc]
        rfl
      exact .cut hcut ih

theorem passable_of_reaches {buf rest : Bytes} (h : requestScanner.Reaches buf rest) :
    ∃ bytes, buf = bytes ++ rest ∧ Passable rest bytes := by
  induction h with
  | refl rest => exact ⟨[], rfl, .nil⟩
  | @cut buf mid rest item hcut _ ih =>
      obtain ⟨bytes, rfl, hpass⟩ := ih
      obtain ⟨n, hp, hn, hitem⟩ := cutRequest_cases hcut
      have hge := predictRequestLength_ge hp
      rcases hitem with ⟨hcrc, -, hrest⟩ | ⟨hcrc, -, hrest⟩
      · have hlen : (buf.take n).length = n := by
          rw [List.length_take]
          omega
        refine ⟨buf.take n ++ bytes, ?_, .request ?_ hcrc hpass⟩
        · rw [List.append_assoc, hrest, List.take_append_drop]
        · rw [hlen]
          exact predictRequestLength_take hp hn
      · cases buf with
        | nil => simp [predictRequestLength] at hp
        | cons b buf =>
            obtain rfl : bytes ++ rest = buf := hrest
            exact ⟨b :: bytes, rfl, .shift hp hn hcrc hpass⟩

-- No length is predicted for any other function code.
theorem predictRequestLength_none {b : Bytes} (h : b[1]! ∉ countedFunctions) :
    predictRequestLength b = none := by
  simp only [countedFunctions, List.mem_cons, List.not_mem_nil, or_false, not_or] at h
  simp only [predictRequestLength, h, or_self, if_false, ite_self]

theorem idle_encode {pdu : Bytes} (h : IdlePDU pdu) (unit : UInt8) (rest : Bytes) :
    predictRequestLength (encodeRTU unit pdu ++ rest) = none := by
  cases pdu with
  | nil => exact h.elim
  | cons fc fields =>
      apply predictRequestLength_none
      have hfc : (encodeRTU unit (fc :: fields) ++ rest)[1]! = fc := by simp [encodeRTU, appendCRC]
      rw [hfc]
      exact h

namespace RTURequestDecoder

-- The frames returned for bytes that come in chunks and the idle signal after them.
def pushIdle (d : RTURequestDecoder) (chunks : List Bytes) : List RTUFrame :=
  (d.pushAll chunks).2 ++ (d.pushAll chunks).1.onIdle.2

theorem mem_onIdle_iff {d : RTURequestDecoder} {unit : UInt8} {pdu : Bytes} (hpdu : pdu ≠ []) :
    { unit := unit, pdu := pdu } ∈ d.onIdle.2 ↔ d.buf = encodeRTU unit pdu := by
  have hpos := List.length_pos_of_ne_nil hpdu
  constructor
  · intro h
    unfold onIdle at h
    split at h
    · rename_i hd
      have hframe : RTUFrame.ofBytes d.buf = { unit := unit, pdu := pdu } :=
        (List.mem_singleton.mp h).symm
      rw [eq_encodeRTU hd.1 hd.2, hframe]
    · cases h
  · intro h
    have hlen : 4 ≤ d.buf.length := by
      rw [h, encodeRTU_length]
      omega
    have hcrc : checkCRC d.buf = true := by
      rw [h]
      exact checkCRC_appendCRC _ (by simp)
    rw [onIdle, if_pos ⟨hlen, hcrc⟩, h, ofBytes_encodeRTU]
    simp

-- A frame is cut only from its own bytes.
theorem eq_of_cut {buf rest : Bytes} {unit : UInt8} {pdu : Bytes}
    (h : requestScanner.attempt buf = some (some { unit := unit, pdu := pdu }, rest)) :
    buf = encodeRTU unit pdu ++ rest := by
  obtain ⟨n, hp, hn, hitem⟩ := cutRequest_cases h
  have hge := predictRequestLength_ge hp
  rcases hitem with ⟨hcrc, hframe, rfl⟩ | ⟨-, hframe, -⟩
  · have hlen : 4 ≤ (buf.take n).length := by
      rw [List.length_take]
      omega
    have hraw := eq_encodeRTU hlen hcrc
    rw [← Option.some.inj hframe] at hraw
    rw [← hraw, List.take_append_drop]
  · cases hframe

-- A frame is returned where the decoder gets past everything before it. One with no predicted
-- length has to be the last besides.
theorem resync_iff (inputs : List Input) (noise : Bytes) (unit : UInt8) (pdu : Bytes)
    (hpdu : WellFormedPDU pdu ∨ IdlePDU pdu) (chunks : List Bytes)
    (hchunks : chunks.flatten = noise ++ encodeRTU unit pdu) :
    { unit := unit, pdu := pdu } ∈ (after inputs).pushIdle chunks ↔
      ∃ bytes rest, (after inputs).buf ++ noise ++ encodeRTU unit pdu =
          bytes ++ (encodeRTU unit pdu ++ rest) ∧
        Passable (encodeRTU unit pdu ++ rest) bytes ∧ (IdlePDU pdu → rest = []) := by
  have hne : pdu ≠ [] := by
    rintro rfl
    exact hpdu.elim id id
  have hstuck : IdlePDU pdu → ∀ rest, requestScanner.attempt (encodeRTU unit pdu ++ rest) = none := by
    intro hidle rest
    change cutRequest _ = _
    rw [cutRequest, idle_encode hidle]
  rw [pushIdle, pushAll_eq_push_flatten, hchunks, push_eq_drain, ← List.append_assoc,
    List.mem_append, requestScanner.mem_drain_iff, mem_onIdle_iff hne]
  constructor
  · rintro (⟨mid, rest, hreach, hcut⟩ | hrest)
    · obtain rfl := eq_of_cut hcut
      obtain ⟨bytes, hbytes, hpass⟩ := passable_of_reaches hreach
      refine ⟨bytes, rest, hbytes, hpass, ?_⟩
      intro hidle
      rw [hstuck hidle] at hcut
      cases hcut
    · obtain ⟨bytes, hbytes, hpass⟩ :=
        passable_of_reaches (requestScanner.drain_rest_iff.mp hrest).1
      exact ⟨bytes, [], by rw [hbytes, List.append_nil], by rwa [List.append_nil], fun _ => rfl⟩
  · rintro ⟨bytes, rest, hbytes, hpass, hlast⟩
    have hreach := reaches_of_passable hpass
    rw [hbytes]
    rcases hpdu with hwf | hidle
    · exact .inl ⟨_, rest, hreach, Request.cut_encode ⟨unit, pdu, hwf⟩ rest⟩
    · obtain rfl := hlast hidle
      right
      have hnone := hstuck hidle []
      rw [List.append_nil] at hreach hnone ⊢
      exact requestScanner.drain_rest_iff.mpr ⟨hreach, hnone⟩

-- A byte of noise, then a read of unit 1, which as a function code has a length of its own.
theorem resync_noise_byte :
    { unit := 1, pdu := [3, 0, 0, 0, 2] } ∈
      (after []).pushIdle [[0x55, 1, 3, 0], [0, 0, 2, 0xc4, 0x0b]] := by
  have hframe : encodeRTU 1 [3, 0, 0, 0, 2] = [1, 3, 0, 0, 0, 2, 0xc4, 0x0b] := by decide
  refine (resync_iff [] [0x55] 1 [3, 0, 0, 0, 2] ?_ _ ?_).mpr ⟨[0x55], [], ?_, ?_, fun _ => rfl⟩
  · exact .inl (.inl ⟨by decide, rfl⟩)
  · rw [hframe]
    rfl
  · rw [List.append_nil]
    rfl
  · rw [hframe]
    exact .shift (n := 8) (by decide) (by decide) (by decide) .nil

-- One byte of noise shadows the unit: a unit that is no counted function code is waited for until
-- the line is idle, and lost.
theorem lost_behind_byte (b unit : UInt8) {pdu : Bytes} (hpdu : pdu ≠ [])
    (hunit : unit ∉ countedFunctions) :
    { unit := unit, pdu := pdu } ∉ ({} : RTURequestDecoder).pushIdle [b :: encodeRTU unit pdu] := by
  have hnone : requestScanner.attempt (b :: encodeRTU unit pdu) = none := by
    have hfc : (b :: encodeRTU unit pdu)[1]! = unit := by simp [encodeRTU, appendCRC]
    change cutRequest _ = _
    rw [cutRequest, predictRequestLength_none (by rw [hfc]; exact hunit)]
  have hdrain : requestScanner.drain (b :: encodeRTU unit pdu) = ([], b :: encodeRTU unit pdu) :=
    requestScanner.drain_none hnone
  simp only [pushIdle, pushAll, push_eq_drain, List.nil_append, hdrain, List.append_nil]
  rw [mem_onIdle_iff hpdu]
  intro h
  have hlen := congrArg List.length h
  simp at hlen

-- A read of unit 7 behind the same byte.
theorem unit_seven_lost :
    WellFormedPDU [3, 0, 0, 0, 2] ∧
      { unit := 7, pdu := [3, 0, 0, 0, 2] } ∉
        (after []).pushIdle [[0x55], encodeRTU 7 [3, 0, 0, 0, 2]] := by
  constructor
  · exact .inl ⟨by decide, rfl⟩
  · decide +kernel

end RTURequestDecoder

end Resync

end JsonScada.Modbus
