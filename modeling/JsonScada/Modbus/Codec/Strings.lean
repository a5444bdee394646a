import JsonScada.Modbus.Codec.Theorems

namespace JsonScada.Modbus

open JsonScada.Library

section Registers

@[simp] theorem swapRegisters_length (raw : Bytes) :
    (swapRegisters raw).length = raw.length := by
  induction raw using swapRegisters.induct with
  | case1 a b rest ih => simp [swapRegisters, ih]
  | case2 rest h => rw [swapRegisters]; exact h

@[simp] theorem swapRegisters_swapRegisters (raw : Bytes) :
    swapRegisters (swapRegisters raw) = raw := by
  induction raw using swapRegisters.induct with
  | case1 a b rest ih => simp [swapRegisters, ih]
  | case2 rest h =>
      have hsame : swapRegisters rest = rest := by
        rw [swapRegisters]
        exact h
      rw [hsame, hsame]

@[simp] theorem apply_apply (order : RegOrder) (raw : Bytes) :
    order.apply (order.apply raw) = raw := by
  cases order <;> simp [RegOrder.apply]

@[simp] theorem apply_length (order : RegOrder) (raw : Bytes) :
    (order.apply raw).length = raw.length := by
  cases order <;> simp [RegOrder.apply]

theorem padTo_of_le {n : Nat} {b : Bytes} (h : b.length ≤ n) :
    padTo n b = b ++ List.replicate (n - b.length) 0 := by
  rw [padTo, List.take_of_length_le h]

theorem padTo_length (n : Nat) (b : Bytes) : (padTo n b).length = n := by
  simp only [padTo, List.length_append, List.length_take, List.length_replicate]
  omega

end Registers

section Charsets

theorem decodeRune_encode (c : Char) (rest : Bytes) :
    decodeRune (String.utf8EncodeChar c ++ rest) = some c := by
  have h := ByteArray.utf8DecodeChar?_utf8EncodeChar_append (b := rest.toByteArray) (c := c)
  have : (⟨(String.utf8EncodeChar c ++ rest).toArray⟩ : ByteArray) =
      (String.utf8EncodeChar c).toByteArray ++ rest.toByteArray := by
    apply ByteArray.ext
    simp
  rw [decodeRune, this]
  exact h

theorem toValidUTF8_append (s : List Char) (rest : Bytes) :
    toValidUTF8 false (s.flatMap String.utf8EncodeChar ++ rest) = s ++ toValidUTF8 false rest := by
  induction s with
  | nil => rfl
  | cons c s ih =>
      have hdec := decodeRune_encode c (s.flatMap String.utf8EncodeChar ++ rest)
      have hlen := String.length_utf8EncodeChar c
      rw [List.flatMap_cons, List.append_assoc]
      cases henc : String.utf8EncodeChar c with
      | nil => exact absurd henc String.utf8EncodeChar_ne_nil
      | cons b bs =>
          rw [henc] at hdec hlen
          have hdrop : (bs ++ (s.flatMap String.utf8EncodeChar ++ rest)).drop (c.utf8Size - 1) =
              s.flatMap String.utf8EncodeChar ++ rest := by
            rw [← hlen, List.length_cons, Nat.add_sub_cancel, List.drop_left]
          rw [List.cons_append] at hdec ⊢
          simp only [toValidUTF8, hdec, hdrop, ih, List.cons_append]

theorem toValidUTF8_encode (s : List Char) :
    toValidUTF8 false (s.flatMap String.utf8EncodeChar) = s := by
  simpa [toValidUTF8] using toValidUTF8_append s []

-- Only the NUL character has a zero byte.
private theorem utf8_ne_zero {c : Char} (hc : c ≠ '\x00') : ∀ b ∈ String.utf8EncodeChar c, b ≠ 0 := by
  have hv : c.val.toNat ≠ 0 := by
    intro h
    apply hc
    apply Char.ext
    exact UInt32.toNat_inj.mp h
  have ofNat_ne {n : Nat} (h0 : n % 256 ≠ 0) : UInt8.ofNat n ≠ 0 := by
    intro h
    apply h0
    exact congrArg UInt8.toNat h
  intro b hb
  simp only [String.utf8EncodeChar] at hb
  split_ifs at hb with h1 h2 h3 <;>
    simp only [List.mem_cons, List.not_mem_nil, or_false] at hb <;>
    rcases hb with rfl | rfl | rfl | rfl <;>
    exact ofNat_ne (by omega)

private theorem utf16Low_of_lt {c : Char} (h : c.toNat < 256) :
    utf16LowBytes c = [UInt8.ofNat c.toNat] := by
  rw [utf16LowBytes, if_neg (by omega)]

-- The characters that the encoding can write.
def Encoding.Holds : Encoding → Char → Prop
  | .utf8, _ => True
  | .latin1, c => c.toNat < 256
  | .ascii, c => c.toNat < 128

theorem flatMap_utf16Low {s : List Char} (h : ∀ c ∈ s, c.toNat < 256) :
    s.flatMap utf16LowBytes = s.map fun c => UInt8.ofNat c.toNat := by
  induction s with
  | nil => rfl
  | cons c s ih =>
      rw [List.flatMap_cons, utf16Low_of_lt (h c (by simp)), ih fun c hc => h c (by simp [hc])]
      rfl

theorem decodeBytes_encodeBytes {s : String} {enc : Encoding}
    (h : ∀ c ∈ s.toList, enc.Holds c) : decodeBytes (encodeBytes s enc) enc = s := by
  cases enc with
  | utf8 => simp [decodeBytes, encodeBytes, toValidUTF8_encode]
  | latin1 =>
      have hback : (s.toList.map fun c => Char.ofNat (UInt8.ofNat c.toNat).toNat) = s.toList := by
        conv_rhs => rw [← List.map_id s.toList]
        apply List.map_congr_left
        intro c hc
        have := h c hc
        simp only [Encoding.Holds] at this
        rw [UInt8.toNat_ofNat', Nat.mod_eq_of_lt this, Char.ofNat_toNat]
        rfl
      simp only [decodeBytes, encodeBytes, flatMap_utf16Low h, List.map_map, Function.comp_def]
      rw [hback, String.ofList_toList]
  | ascii =>
      have hlt : ∀ c ∈ s.toList, c.toNat < 256 := by
        intro c hc
        have := h c hc
        simp only [Encoding.Holds] at this
        omega
      have hback : (s.toList.map fun c => Char.ofNat ((UInt8.ofNat c.toNat).toNat % 128)) =
          s.toList := by
        conv_rhs => rw [← List.map_id s.toList]
        apply List.map_congr_left
        intro c hc
        have := h c hc
        simp only [Encoding.Holds] at this
        rw [UInt8.toNat_ofNat', Nat.mod_eq_of_lt (by omega : c.toNat < 2 ^ 8),
          Nat.mod_eq_of_lt this, Char.ofNat_toNat]
        rfl
      simp only [decodeBytes, encodeBytes, flatMap_utf16Low hlt, List.map_map, Function.comp_def]
      rw [hback, String.ofList_toList]

theorem encodeBytes_ne_zero {s : String} {enc : Encoding} (h : ∀ c ∈ s.toList, enc.Holds c)
    (hnul : '\x00' ∉ s.toList) : ∀ b ∈ encodeBytes s enc, b ≠ 0 := by
  have hne : ∀ c ∈ s.toList, c ≠ '\x00' := by
    intro c hc he
    exact hnul (he ▸ hc)
  have low (hlt : ∀ c ∈ s.toList, c.toNat < 256) : ∀ b ∈ s.toList.flatMap utf16LowBytes, b ≠ 0 := by
    intro b hb
    rw [flatMap_utf16Low hlt] at hb
    obtain ⟨c, hc, rfl⟩ := List.mem_map.mp hb
    intro h0
    apply hne c hc
    have h0' := congrArg UInt8.toNat h0
    rw [UInt8.toNat_ofNat', Nat.mod_eq_of_lt (hlt c hc)] at h0'
    exact Char.toNat_inj.mp h0'
  cases enc with
  | utf8 =>
      intro b hb
      obtain ⟨c, hc, hb⟩ := List.mem_flatMap.mp hb
      exact utf8_ne_zero (hne c hc) b hb
  | latin1 => exact low h
  | ascii =>
      refine low fun c hc => ?_
      have := h c hc
      simp only [Encoding.Holds] at this
      omega

end Charsets

-- A text that its registers can hold: long enough, written in the characters of
-- its encoding, and without what reading takes for padding.
structure Representable (str : StringOptions) (s : String) : Prop where
  fits : (encodeBytes s str.encoding).length ≤ str.bytes
  holds : ∀ c ∈ s.toList, str.encoding.Holds c
  noNul : '\x00' ∉ s.toList
  trimmed : ∀ c ∈ s.toList.getLast?, isTrimmed c = false

theorem trimRight_of_last {space : Char → Bool} {s : List Char}
    (h : ∀ c ∈ s.getLast?, space c = false) : trimRight space s = s := by
  cases hs : s.reverse with
  | nil => simp [trimRight, List.reverse_eq_nil_iff.mp hs]
  | cons c rest =>
      have hlast : s.getLast? = some c := by
        rw [List.getLast?_eq_head?_reverse, hs]
        rfl
      have hc := h c (by simp [hlast])
      rw [trimRight, hs, List.dropWhile_cons_of_neg (by simp [hc]), ← hs, List.reverse_reverse]

theorem decodeString_encodeString {str : StringOptions} {s : String} (h : Representable str s) :
    decodeString (encodeString s str) 0 str = { value := .str s } := by
  have hfits := h.fits
  have hnz := encodeBytes_ne_zero h.holds h.noNul
  have hraw : str.regOrder.apply (padTo ((str.bytes + 1) / 2 * 2)
      ((encodeString s str).drop 0)) =
      encodeBytes s str.encoding ++
        List.replicate ((str.bytes + 1) / 2 * 2 - (encodeBytes s str.encoding).length) 0 := by
    have hlen : (encodeString s str).length = (str.bytes + 1) / 2 * 2 := by
      simp [encodeString, padTo_length]
    rw [List.drop_zero, padTo_of_le hlen.le, hlen, Nat.sub_self, List.replicate_zero,
      List.append_nil, encodeString, apply_apply, List.take_of_length_le hfits,
      padTo_of_le (by omega)]
  have htext : ((encodeBytes s str.encoding ++ List.replicate
      ((str.bytes + 1) / 2 * 2 - (encodeBytes s str.encoding).length) (0 : UInt8)).take
      str.bytes).takeWhile (· ≠ 0) = encodeBytes s str.encoding := by
    rw [List.take_append, List.take_of_length_le hfits, List.takeWhile_append_of_pos
      (by simpa using hnz), List.take_replicate]
    generalize min (str.bytes - (encodeBytes s str.encoding).length) _ = k
    cases k with
    | zero => simp
    | succ k => simp [List.replicate_succ]
  simp only [decodeString, hraw, htext, decodeBytes_encodeBytes h.holds]
  rw [trimRight_of_last h.trimmed, String.ofList_toList]

section Inverse

-- An accepted byte order is undone by its inverse.
private theorem parsed_inverse {spec : String} {width : Nat} {perm : Perm}
    (h : parseByteOrder spec width = .ok perm) (c : Bytes) (hc : c.length = width) :
    perm.toCanonical (perm.fromCanonical c) 0 = c ∧
      perm.fromCanonical (perm.toCanonical c 0) = c := by
  obtain ⟨p, hp, rfl⟩ := parseByteOrder_perm h
  exact ⟨toCanonical_fromCanonical hp c hc, fromCanonical_toCanonical hp c hc⟩

theorem parsed_width {spec : String} {width : Nat} {perm : Perm}
    (h : parseByteOrder spec width = .ok perm) : perm.width = width := by
  obtain ⟨p, _, rfl⟩ := parseByteOrder_perm h
  rfl

-- For a register type, `encode` and `decode` wrap the canonical steps.
theorem encode_eq {t : ValueType} {v : Value} {perm : Perm} {str : Option StringOptions}
    (ht : typeBytes t = some perm.width) :
    encode t v perm str = (encodeCanonical t v).map perm.fromCanonical := by
  cases t <;> first | cases ht | simp [encode, ht]

theorem decode_eq {t : ValueType} {perm : Perm} {str : Option StringOptions}
    (ht : typeBytes t = some perm.width) (w : Bytes) :
    decode t w 0 perm str = decodeCanonical t (perm.toCanonical w 0) := by
  cases t <;> first | cases ht | simp [decode]

-- What holds of the canonical bytes holds of the registers.
theorem registers_of_canonical {t : ValueType} {spec : String} {perm : Perm} {width : Nat}
    (ht : typeBytes t = some width) (hperm : parseByteOrder spec width = .ok perm)
    {v : Value} {c : Bytes} {r : DecodeResult} (henc : encodeCanonical t v = .ok c)
    (hdec : decodeCanonical t c = .ok r) :
    encode t v perm none = .ok (perm.fromCanonical c) ∧
      decode t (perm.fromCanonical c) 0 perm none = .ok r := by
  have hw := parsed_width hperm
  have hlen : c.length = width :=
    Option.some.inj ((canonical_of_encodeCanonical henc).1.symm.trans ht)
  constructor
  · rw [encode_eq (by rw [hw]; exact ht), henc]
    rfl
  · rw [decode_eq (by rw [hw]; exact ht), (parsed_inverse hperm c hlen).1]
    exact hdec

theorem decode_encode_number {t : ValueType} {spec : String} {perm : Perm} {width : Nat}
    (ht : typeBytes t = some width) (hperm : parseByteOrder spec width = .ok perm)
    {v : Value} {n lo hi : ℤ} (hrange : t.range = some (lo, hi)) (hv : v.exact = some (n : ℚ))
    (hlo : lo ≤ n) (hhi : n ≤ hi) :
    ∃ w r, encode t v perm none = .ok w ∧ decode t w 0 perm none = .ok r ∧ r.invalid = false ∧
      r.value.exact = some (n : ℚ) := by
  obtain ⟨c, r, henc, hdec, hvalid, hexact⟩ :=
    decodeCanonical_encodeCanonical hrange hv hlo hhi
  obtain ⟨hencode, hdecode⟩ := registers_of_canonical ht hperm henc hdec
  exact ⟨perm.fromCanonical c, r, hencode, hdecode, hvalid, hexact⟩

theorem decode_encode_float64 {spec : String} {perm : Perm}
    (hperm : parseByteOrder spec 8 = .ok perm) (f : Binary64) :
    ∃ w r, encode .float64 (.num f) perm none = .ok w ∧
      decode .float64 w 0 perm none = .ok r ∧ r.value = .num f := by
  obtain ⟨c, r, henc, hdec, hvalue⟩ := decodeCanonical_float64 f
  obtain ⟨hencode, hdecode⟩ := registers_of_canonical rfl hperm henc hdec
  exact ⟨perm.fromCanonical c, r, hencode, hdecode, hvalue⟩

theorem decode_encode_float32 {spec : String} {perm : Perm}
    (hperm : parseByteOrder spec 4 = .ok perm) {x : Binary32} (hx : x.Quiet) :
    ∃ w r, encode .float32 (.num x.widen) perm none = .ok w ∧
      decode .float32 w 0 perm none = .ok r ∧ r.value = .num x.widen := by
  obtain ⟨c, r, henc, hdec, hvalue⟩ := decodeCanonical_float32 hx
  obtain ⟨hencode, hdecode⟩ := registers_of_canonical rfl hperm henc hdec
  exact ⟨perm.fromCanonical c, r, hencode, hdecode, hvalue⟩

theorem encode_decode_register {t : ValueType} {spec : String} {perm : Perm} {width : Nat}
    (ht : typeBytes t = some width) (hperm : parseByteOrder spec width = .ok perm)
    {v : Value} {w : Bytes} (henc : encode t v perm none = .ok w) :
    ∃ r, decode t w 0 perm none = .ok r ∧ encode t r.value perm none = .ok w := by
  have hw := parsed_width hperm
  have ht' : typeBytes t = some perm.width := by rw [hw]; exact ht
  rw [encode_eq ht'] at henc
  cases hc : encodeCanonical t v with
  | error e => rw [hc] at henc; cases henc
  | ok c =>
      rw [hc] at henc
      obtain rfl := Except.ok.inj henc
      have hcanon := canonical_of_encodeCanonical hc
      have hlen : c.length = width := Option.some.inj (hcanon.1.symm.trans ht)
      obtain ⟨r, hdec, hback⟩ := encodeCanonical_decodeCanonical hcanon
      refine ⟨r, ?_, ?_⟩
      · rw [decode_eq ht', (parsed_inverse hperm c hlen).1]
        exact hdec
      · rw [encode_eq ht', hback]
        rfl

-- Encoding and decoding are inverse to each other: for every byte order, for the
-- numbers of the integer and BCD types, for the bit patterns of the float types,
-- for every encoding of a value of these, and for the texts their registers can hold.
theorem codec_inverse :
    (∀ spec width perm, parseByteOrder spec width = .ok perm →
      perm.width = width ∧ perm.p.Perm (List.range width) ∧
      ∀ c : Bytes, c.length = width →
        perm.fromCanonical (perm.toCanonical c 0) = c ∧
        perm.toCanonical (perm.fromCanonical c) 0 = c) ∧
    (∀ t spec width perm (v : Value) (n lo hi : ℤ), typeBytes t = some width →
      parseByteOrder spec width = .ok perm → t.range = some (lo, hi) →
      v.exact = some (n : ℚ) → lo ≤ n → n ≤ hi →
      ∃ w r, encode t v perm none = .ok w ∧ decode t w 0 perm none = .ok r ∧
        r.invalid = false ∧ r.value.exact = some (n : ℚ)) ∧
    (∀ spec perm f, parseByteOrder spec 8 = .ok perm →
      ∃ w r, encode .float64 (.num f) perm none = .ok w ∧
        decode .float64 w 0 perm none = .ok r ∧ r.value = .num f) ∧
    (∀ spec perm (x : Binary32), parseByteOrder spec 4 = .ok perm → x.Quiet →
      ∃ w r, encode .float32 (.num x.widen) perm none = .ok w ∧
        decode .float32 w 0 perm none = .ok r ∧ r.value = .num x.widen) ∧
    (∀ t spec width perm v w, typeBytes t = some width →
      parseByteOrder spec width = .ok perm → encode t v perm none = .ok w →
      ∃ r, decode t w 0 perm none = .ok r ∧ encode t r.value perm none = .ok w) ∧
    (∀ str s perm, Representable str s →
      ∃ w, encode .string (.str s) perm (some str) = .ok w ∧
        decode .string w 0 perm (some str) = .ok { value := .str s }) := by
  refine ⟨?_, ?_, ?_, ?_, ?_, ?_⟩
  · intro spec width perm h
    refine ⟨parsed_width h, ?_, fun c hc => (parsed_inverse h c hc).symm⟩
    obtain ⟨p, hp, rfl⟩ := parseByteOrder_perm h
    exact hp
  · intro t spec width perm v n lo hi ht hperm hrange hv hlo hhi
    exact decode_encode_number ht hperm hrange hv hlo hhi
  · intro spec perm f hperm
    exact decode_encode_float64 hperm f
  · intro spec perm x hperm hx
    exact decode_encode_float32 hperm hx
  · intro t spec width perm v w ht hperm henc
    exact encode_decode_register ht hperm henc
  · intro str s perm h
    refine ⟨encodeString s str, by simp [encode, Value.string], ?_⟩
    simp only [decode, if_true, Nat.zero_mul, decodeString_encodeString h]

-- A negative number in the middle of a word-swapped order, and a text.
theorem codec_inverse_words :
    (∃ w r, encode .int32 (.num (.ofInt (-2))) (newPerm 4 [2, 3, 0, 1]) none = .ok w ∧
      decode .int32 w 0 (newPerm 4 [2, 3, 0, 1]) none = .ok r ∧ r.invalid = false ∧
      r.value.exact = some ((-2 : ℤ) : ℚ)) ∧
    (∃ w, encode .string (.str "ab") (newPerm 1 [0]) (some ⟨4, .latin1, .BA⟩) = .ok w ∧
      decode .string w 0 (newPerm 1 [0]) (some ⟨4, .latin1, .BA⟩) =
        .ok { value := .str "ab" }) := by
  constructor
  · exact codec_inverse.2.1 .int32 " sw " 4 _ _ (-2) _ _ rfl (by decide) rfl
      (by decide +kernel) (by norm_num) (by norm_num)
  · apply codec_inverse.2.2.2.2.2
    have hab : "ab".toList = ['a', 'b'] := rfl
    refine ⟨by decide, ?_, ?_, ?_⟩
    · intro c hc
      rw [hab, List.mem_cons, List.mem_singleton] at hc
      rcases hc with rfl | rfl
      · show 'a'.toNat < 256
        decide
      · show 'b'.toNat < 256
        decide
    · simp [hab]
    · simp [hab, isTrimmed]
      decide

-- Blanks at the end of a text are taken for padding: two registers that hold
-- them are not written back.
theorem encode_decode_blank :
    ∃ w r, encode .string (.str "ab ") (newPerm 1 [0]) (some ⟨4, .latin1, .AB⟩) = .ok w ∧
      decode .string w 0 (newPerm 1 [0]) (some ⟨4, .latin1, .AB⟩) = .ok r ∧
      encode .string r.value (newPerm 1 [0]) (some ⟨4, .latin1, .AB⟩) ≠ .ok w := by
  refine ⟨_, _, rfl, rfl, ?_⟩
  decide

end Inverse

section Encode

theorem encodeString_length (s : String) (str : StringOptions) :
    (encodeString s str).length = 2 * ((str.bytes + 1) / 2) := by
  unfold encodeString
  rw [apply_length, padTo_length, Nat.mul_comm]

-- An encoded value fills its registers.
theorem encode_length {t : ValueType} {v : Value} {perm : Perm} {str : Option StringOptions}
    {wire : Bytes} (h : encode t v perm str = .ok wire) :
    wire.length / 2 = registerCount t str := by
  unfold encode at h
  by_cases hs : t = .string
  · rw [if_pos hs] at h
    cases str with
    | none => cases h
    | some str =>
        obtain rfl := Except.ok.inj h
        rw [encodeString_length, hs, registerCount]
        omega
  · rw [if_neg hs] at h
    by_cases hb : t = .bool
    · rw [if_pos hb] at h
      cases h
    · rw [if_neg hb] at h
      have hcount : registerCount t str = (typeBytes t).getD 0 / 2 := by
        cases t <;> first | rfl | exact absurd rfl hs
      cases hw : typeBytes t with
      | none =>
          rw [hw] at h
          cases h
      | some width =>
          rw [hw] at h
          simp only at h
          by_cases hne : perm.width ≠ width
          · rw [if_pos hne] at h
            cases h
          · rw [if_neg hne] at h
            rw [hcount, hw, Option.getD_some]
            cases hc : encodeCanonical t v with
            | error e =>
                rw [hc] at h
                cases h
            | ok c =>
                rw [hc] at h
                obtain rfl := Except.ok.inj h
                rw [fromCanonical_length, not_not.mp hne]

end Encode

end JsonScada.Modbus
