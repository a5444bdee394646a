import JsonScada.Modbus.Codec.Strings
import Mathlib.Data.List.TakeWhile

-- Which contents of registers come back when the text that was read of them is encoded again.
namespace JsonScada.Modbus

open JsonScada.Library

section Trim

theorem trimRight_isPrefix (space : Char → Bool) (s : List Char) : trimRight space s <+: s := by
  have hsuffix := List.dropWhile_suffix (l := s.reverse) space
  rw [trimRight, ← List.reverse_suffix, List.reverse_reverse]
  exact hsuffix

theorem trimRight_eq_iff (space : Char → Bool) (s : List Char) :
    trimRight space s = s ↔ ∀ c ∈ s.getLast?, space c = false := by
  constructor
  · intro h c hc
    by_contra hspace
    rw [Bool.not_eq_false] at hspace
    obtain ⟨rest, rfl⟩ := List.getLast?_eq_some_iff.mp hc
    have hlen := congrArg List.length h
    have hshort := (List.dropWhile_suffix (l := rest.reverse) space).length_le
    simp only [trimRight, List.reverse_append, List.reverse_cons, List.reverse_nil, List.nil_append,
      List.cons_append, List.dropWhile_cons, hspace, if_true, List.length_reverse,
      List.length_append, List.length_singleton] at hlen hshort
    omega
  · exact trimRight_of_last

-- Nothing before a character that stays is trimmed.
theorem trimRight_append (space : Char → Bool) {c : Char} (hc : space c = false)
    (s more : List Char) : ∃ more', trimRight space (s ++ c :: more) = s ++ c :: more' := by
  obtain ⟨more', hmore⟩ : ∃ more', (more.reverse ++ c :: s.reverse).dropWhile space =
      more' ++ c :: s.reverse := by
    induction more.reverse with
    | nil => exact ⟨[], by simp [hc]⟩
    | cons d rest ih =>
        by_cases hd : space d = true
        · obtain ⟨more', hmore⟩ := ih
          exact ⟨more', by simpa [hd] using hmore⟩
        · exact ⟨d :: rest, by simp [hd]⟩
  refine ⟨more'.reverse, ?_⟩
  have hreverse : (s ++ c :: more).reverse = more.reverse ++ c :: s.reverse := by simp
  rw [trimRight, hreverse, hmore]
  simp

end Trim

section Utf8

abbrev utf8 (s : List Char) : Bytes := s.flatMap String.utf8EncodeChar

theorem eq_of_decodeRune {b : Bytes} {c : Char} (h : decodeRune b = some c) :
    ∃ rest, b = String.utf8EncodeChar c ++ rest := by
  obtain ⟨rest, hrest⟩ := ByteArray.exists_of_utf8DecodeChar?_eq_some h
  refine ⟨rest.data.toList, ?_⟩
  have hlist := congrArg (fun a : ByteArray => a.data.toList) hrest
  simpa using hlist

-- Bytes are a valid text, and what no rune begins.
theorem valid_split (b : Bytes) :
    ∃ s rest, b = utf8 s ++ rest ∧ (rest = [] ∨ decodeRune rest = none) := by
  induction hn : b.length using Nat.strongRecOn generalizing b with
  | ind n ih =>
      cases b with
      | nil => exact ⟨[], [], rfl, .inl rfl⟩
      | cons x b =>
          cases hdec : decodeRune (x :: b) with
          | none => exact ⟨[], x :: b, rfl, .inr hdec⟩
          | some c =>
              obtain ⟨rest, hrest⟩ := eq_of_decodeRune hdec
              have hpos := c.utf8Size_pos
              have hlen : rest.length < n := by
                rw [← hn, hrest, List.length_append, String.length_utf8EncodeChar]
                omega
              obtain ⟨s, rest', rfl, hrest'⟩ := ih _ hlen rest rfl
              exact ⟨c :: s, rest', by simp [hrest, utf8], hrest'⟩

theorem toValidUTF8_utf8_append (s : List Char) (rest : Bytes) :
    toValidUTF8 false (utf8 s ++ rest) = s ++ toValidUTF8 false rest :=
  toValidUTF8_append s rest

theorem toValidUTF8_invalid {rest : Bytes} (hne : rest ≠ []) (hdec : decodeRune rest = none) :
    ∃ more, toValidUTF8 false rest = '\uFFFD' :: more := by
  cases rest with
  | nil => exact absurd rfl hne
  | cons b rest => exact ⟨toValidUTF8 true rest, by simp [toValidUTF8, hdec]⟩

end Utf8

section Kept

-- The bytes of a field that are its text, and the text.
def textBytes (str : StringOptions) (raw : Bytes) : Bytes :=
  (raw.take str.bytes).takeWhile (· ≠ 0)

def textOf (str : StringOptions) (text : Bytes) : String :=
  String.ofList (trimRight isTrimmed (decodeBytes text str.encoding).toList)

-- Decoding drops blanks at the end, and what its encoding does not have. A rune that is cut off
-- at the end of the field is the replacement character, whose bytes are cut off there again.
def Kept (str : StringOptions) (text : Bytes) : Prop :=
  match str.encoding with
  | .latin1 => ∀ b ∈ text.getLast?, isTrimmed (Char.ofNat b.toNat) = false
  | .ascii =>
      (∀ b ∈ text, b.toNat < 128) ∧ ∀ b ∈ text.getLast?, isTrimmed (Char.ofNat b.toNat) = false
  | .utf8 =>
      (∃ s, text = utf8 s ∧ ∀ c ∈ s.getLast?, isTrimmed c = false) ∨
        text.length = str.bytes ∧
          ∃ s, text = utf8 s ++ [0xef] ∨ text = utf8 s ++ [0xef, 0xbf]

-- The contents of the registers of a text that come back: nothing is behind the text.
structure TextRestored (str : StringOptions) (raw : Bytes) : Prop where
  padded : raw = padTo ((str.bytes + 1) / 2 * 2) (textBytes str raw)
  kept : Kept str (textBytes str raw)

-- The text, encoded again for its field.
def recoded (str : StringOptions) (text : Bytes) : Bytes :=
  (encodeBytes (textOf str text) str.encoding).take str.bytes

section OneByte

-- An encoding with one byte for a character.
variable {text : Bytes} {g : UInt8 → Char} (hg : ∀ b, (g b).toNat < 256)

include hg

theorem encode_trimmed (text : Bytes) :
    (trimRight isTrimmed (text.map g)).flatMap utf16LowBytes =
      (trimRight isTrimmed (text.map g)).map fun c => UInt8.ofNat c.toNat := by
  apply flatMap_utf16Low
  intro c hc
  obtain ⟨b, -, rfl⟩ := List.mem_map.mp ((trimRight_isPrefix _ _).subset hc)
  exact hg b

-- The text comes back when nothing is trimmed and every byte comes back.
theorem oneByte_iff :
    ((trimRight isTrimmed (text.map g)).flatMap utf16LowBytes) = text ↔
      (∀ b ∈ text, UInt8.ofNat (g b).toNat = b) ∧
        ∀ b ∈ text.getLast?, isTrimmed (g b) = false := by
  have hlast : (∀ c ∈ (text.map g).getLast?, isTrimmed c = false) ↔
      ∀ b ∈ text.getLast?, isTrimmed (g b) = false := by
    simp [List.getLast?_map]
  rw [encode_trimmed hg, ← hlast, ← trimRight_eq_iff]
  constructor
  · intro h
    have hlen := congrArg List.length h
    rw [List.length_map] at hlen
    have htrim := (trimRight_isPrefix isTrimmed (text.map g)).eq_of_length
      (by rw [hlen, List.length_map])
    rw [htrim, List.map_map] at h
    refine ⟨fun b hb => ?_, htrim⟩
    have hid : text.map (fun b => UInt8.ofNat (g b).toNat) = text.map id := by
      rw [List.map_id]
      exact h
    exact List.map_inj_left.mp hid b hb
  · rintro ⟨hback, htrim⟩
    rw [htrim, List.map_map]
    have hid : text.map (fun b => UInt8.ofNat (g b).toNat) = text.map id :=
      List.map_inj_left.mpr hback
    rw [List.map_id] at hid
    exact hid

theorem oneByte_length (text : Bytes) :
    ((trimRight isTrimmed (text.map g)).flatMap utf16LowBytes).length ≤ text.length := by
  rw [encode_trimmed hg, List.length_map]
  have hle := (trimRight_isPrefix isTrimmed (text.map g)).length_le
  rwa [List.length_map] at hle

end OneByte

theorem toNat_ofNat_byte {n : ℕ} (hn : n < 256) : (Char.ofNat n).toNat = n := by
  have hvalid : n.isValidChar := .inl (by omega)
  unfold Char.ofNat
  rw [dif_pos hvalid]
  rfl

theorem encode_latin1 (text : Bytes) :
    encodeBytes (String.ofList (trimRight isTrimmed (decodeBytes text .latin1).toList)) .latin1 =
      (trimRight isTrimmed (text.map fun b => Char.ofNat b.toNat)).flatMap utf16LowBytes := by
  simp [encodeBytes, decodeBytes]

theorem encode_ascii (text : Bytes) :
    encodeBytes (String.ofList (trimRight isTrimmed (decodeBytes text .ascii).toList)) .ascii =
      (trimRight isTrimmed (text.map fun b => Char.ofNat (b.toNat % 128))).flatMap utf16LowBytes := by
  simp [encodeBytes, decodeBytes]

theorem encode_utf8 (text : Bytes) :
    encodeBytes (String.ofList (trimRight isTrimmed (decodeBytes text .utf8).toList)) .utf8 =
      utf8 (trimRight isTrimmed (toValidUTF8 false text)) := by
  simp [encodeBytes, decodeBytes]

theorem takeWhile_padding (a : Bytes) (k : ℕ) :
    (a ++ List.replicate k 0).takeWhile (· ≠ 0) = a.takeWhile (· ≠ 0) := by
  induction a with
  | nil => cases k <;> simp [List.replicate_succ]
  | cons b a ih => simp only [List.cons_append, List.takeWhile_cons, ih]

theorem eq_of_takeWhile {text b : Bytes} (h : text = b.takeWhile (· ≠ 0))
    (hlen : b.length ≤ text.length) : b = text := by
  have hinit := List.takeWhile_prefix (l := b) (· ≠ (0 : UInt8))
  rw [← h] at hinit
  exact (hinit.eq_of_length_le hlen).symm

variable {str : StringOptions} {text : Bytes} (hnonzero : ∀ b ∈ text, b ≠ 0)
  (hlen : text.length ≤ str.bytes)

-- A text with something that no rune begins: what is written for it is cut off.
theorem cut_kept {s : List Char} {rest u : Bytes} {n : ℕ} (hlen : (utf8 s ++ rest).length ≤ n)
    (hnonzero : ∀ b ∈ utf8 s, b ≠ 0) (hrest : decodeRune rest = none) (hne : rest ≠ [])
    (h : utf8 s ++ rest = ((utf8 s ++ 0xef :: 0xbf :: 0xbd :: u).take n).takeWhile (· ≠ 0)) :
    (utf8 s ++ 0xef :: 0xbf :: 0xbd :: u).take n = utf8 s ++ rest ∧
      (utf8 s ++ rest).length = n ∧ (rest = [0xef] ∨ rest = [0xef, 0xbf]) := by
  rw [List.length_append] at hlen
  have hpos : ∀ b ∈ utf8 s, decide (b ≠ 0) = true := fun b hb => decide_eq_true (hnonzero b hb)
  obtain ⟨j, hj⟩ := Nat.exists_eq_add_of_le (show (utf8 s).length ≤ n by omega)
  have htake : (utf8 s ++ 0xef :: 0xbf :: 0xbd :: u).take n =
      utf8 s ++ (0xef :: 0xbf :: 0xbd :: u).take j := by
    rw [hj, List.take_length_add_append]
  rw [htake, List.takeWhile_append_of_pos hpos, List.append_cancel_left_eq] at h
  rw [htake, List.append_cancel_left_eq, List.length_append, hj]
  match j with
  | 0 => exact absurd h hne
  | 1 =>
      obtain rfl : rest = [0xef] := h
      exact ⟨rfl, rfl, .inl rfl⟩
  | 2 =>
      obtain rfl : rest = [0xef, 0xbf] := h
      exact ⟨rfl, rfl, .inr rfl⟩
  | j + 3 =>
      -- the replacement character itself
      have hrune : rest = String.utf8EncodeChar '\uFFFD' ++ (u.take j).takeWhile (· ≠ 0) := by
        rw [h]
        rfl
      rw [hrune, decodeRune_encode] at hrest
      cases hrest

include hlen

theorem recoded_of_kept (h : Kept str text) : recoded str text = text := by
  unfold recoded textOf
  unfold Kept at h
  cases henc : str.encoding with
  | latin1 =>
      rw [henc] at h
      have hg (b : UInt8) : (Char.ofNat b.toNat).toNat = b.toNat := toNat_ofNat_byte b.toNat_lt
      rw [encode_latin1, (oneByte_iff fun b => (hg b).trans_lt b.toNat_lt).mpr
        ⟨fun b _ => by rw [hg, UInt8.ofNat_toNat], h⟩, List.take_of_length_le hlen]
  | ascii =>
      rw [henc] at h
      obtain ⟨hascii, hlast⟩ := h
      have hg (b : UInt8) : (Char.ofNat (b.toNat % 128)).toNat = b.toNat % 128 :=
        toNat_ofNat_byte (by omega)
      rw [encode_ascii, (oneByte_iff fun b => (hg b).trans_lt (by omega)).mpr ⟨?_, ?_⟩,
        List.take_of_length_le hlen]
      · intro b hb
        rw [hg, Nat.mod_eq_of_lt (hascii b hb), UInt8.ofNat_toNat]
      · intro b hb
        rw [Nat.mod_eq_of_lt (hascii b (List.mem_of_getLast? hb))]
        exact hlast b hb
  | utf8 =>
      rw [henc] at h
      rw [encode_utf8]
      obtain ⟨s, rfl, hlast⟩ | ⟨hfull, s, hs⟩ := h
      · rw [toValidUTF8_encode, trimRight_of_last hlast, List.take_of_length_le hlen]
      · have hcut (tail : Bytes) (htail : toValidUTF8 false tail = ['\uFFFD'])
            (hinit : tail <+: String.utf8EncodeChar '\uFFFD') (htext : text = utf8 s ++ tail) :
            (utf8 (trimRight isTrimmed (toValidUTF8 false text))).take str.bytes = text := by
          have hlast : ∀ c ∈ (s ++ ['\uFFFD']).getLast?, isTrimmed c = false := by
            simp only [List.getLast?_concat, Option.mem_some_iff, forall_eq']
            decide
          have hutf8 : utf8 (s ++ ['\uFFFD']) = utf8 s ++ String.utf8EncodeChar '\uFFFD' := by
            simp [utf8]
          obtain ⟨more, hmore⟩ := hinit
          rw [htext, toValidUTF8_utf8_append, htail, trimRight_of_last hlast, hutf8, ← hfull, htext,
            ← hmore, ← List.append_assoc, List.take_left]
        rcases hs with hs | hs
        · exact hcut [0xef] (by decide +kernel) (by decide) hs
        · exact hcut [0xef, 0xbf] (by decide +kernel) (by decide) hs

omit hlen in
theorem recoded_length_le : (recoded str text).length ≤
    (encodeBytes (textOf str text) str.encoding).length := by
  rw [recoded, List.length_take]
  omega

-- With one byte for a character nothing gets longer.
theorem kept_oneByte {g : UInt8 → Char} (hg : ∀ b, (g b).toNat < 256)
    (hencode : encodeBytes (textOf str text) str.encoding =
      (trimRight isTrimmed (text.map g)).flatMap utf16LowBytes)
    (h : text = (recoded str text).takeWhile (· ≠ 0)) :
    recoded str text = text ∧ (∀ b ∈ text, UInt8.ofNat (g b).toNat = b) ∧
      ∀ b ∈ text.getLast?, isTrimmed (g b) = false := by
  have hshort := oneByte_length hg text
  have heq : recoded str text = text := by
    apply eq_of_takeWhile h
    have hle := @recoded_length_le str text
    rw [hencode] at hle
    omega
  refine ⟨heq, (oneByte_iff hg).mp ?_⟩
  rwa [recoded, hencode, List.take_of_length_le (hshort.trans hlen)] at heq

-- A valid text is only trimmed.
theorem kept_valid {s : List Char} (htext : text = utf8 s)
    (hrecoded : recoded str text = (utf8 (trimRight isTrimmed s)).take str.bytes)
    (h : text = (recoded str text).takeWhile (· ≠ 0)) :
    recoded str text = text ∧ ∀ c ∈ s.getLast?, isTrimmed c = false := by
  obtain ⟨dropped, hdropped⟩ := trimRight_isPrefix isTrimmed s
  have hsplit : utf8 (trimRight isTrimmed s) ++ utf8 dropped = text := by
    rw [htext]
    conv_rhs => rw [← hdropped]
    simp [utf8]
  have hle : (utf8 (trimRight isTrimmed s)).length ≤ text.length := by
    rw [← hsplit, List.length_append]
    omega
  rw [List.take_of_length_le (hle.trans hlen)] at hrecoded
  have heq : recoded str text = text := by
    apply eq_of_takeWhile h
    rwa [hrecoded]
  refine ⟨heq, ?_⟩
  rw [hrecoded] at heq
  have hnil : utf8 dropped = [] := by
    have hlength := congrArg List.length hsplit
    rw [List.length_append, heq] at hlength
    exact List.length_eq_zero_iff.mp (by omega)
  have hdropped' : dropped = [] := by
    cases dropped with
    | nil => rfl
    | cons c dropped =>
        rw [utf8, List.flatMap_cons, List.append_eq_nil_iff] at hnil
        exact absurd hnil.1 String.utf8EncodeChar_ne_nil
  rw [← trimRight_eq_iff]
  rw [hdropped', List.append_nil] at hdropped
  exact hdropped

include hnonzero

theorem kept_utf8 (henc : str.encoding = .utf8)
    (h : text = (recoded str text).takeWhile (· ≠ 0)) :
    recoded str text = text ∧ Kept str text := by
  have hrecoded : recoded str text =
      (utf8 (trimRight isTrimmed (toValidUTF8 false text))).take str.bytes := by
    rw [recoded, textOf, henc, encode_utf8]
  rw [Kept, henc]
  obtain ⟨s, rest, htext, hrest⟩ := valid_split text
  by_cases hne : rest = []
  · rw [hne, List.append_nil] at htext
    have hvalid : toValidUTF8 false text = s := by rw [htext, toValidUTF8_encode]
    rw [hvalid] at hrecoded
    obtain ⟨heq, hlast⟩ := kept_valid hlen htext hrecoded h
    exact ⟨heq, .inl ⟨s, htext, hlast⟩⟩
  · have hinvalid := hrest.resolve_left hne
    obtain ⟨more, hmore⟩ := toValidUTF8_invalid hne hinvalid
    have hstays : isTrimmed '\uFFFD' = false := by decide
    obtain ⟨more', hmore'⟩ := trimRight_append isTrimmed hstays s more
    have hutf8 : utf8 (s ++ '\uFFFD' :: more') = utf8 s ++ 0xef :: 0xbf :: 0xbd :: utf8 more' := by
      have hrune : String.utf8EncodeChar '\uFFFD' = [0xef, 0xbf, 0xbd] := by decide
      simp [utf8, hrune]
    have hvalid : toValidUTF8 false text = s ++ '\uFFFD' :: more := by
      rw [htext, toValidUTF8_utf8_append, hmore]
    rw [hvalid, hmore', hutf8] at hrecoded
    rw [hrecoded, htext] at h
    rw [htext] at hlen hnonzero
    obtain ⟨heq, hfull, hcut⟩ := cut_kept hlen
      (fun b hb => hnonzero b (List.mem_append_left _ hb)) hinvalid hne h
    rw [hrecoded, htext]
    refine ⟨heq, .inr ⟨hfull, s, ?_⟩⟩
    rcases hcut with rfl | rfl
    · exact .inl rfl
    · exact .inr rfl

-- What is written has the text before its first zero only if it is the text.
theorem kept_of_takeWhile (h : text = (recoded str text).takeWhile (· ≠ 0)) :
    recoded str text = text ∧ Kept str text := by
  cases henc : str.encoding with
  | latin1 =>
      have hg (b : UInt8) : (Char.ofNat b.toNat).toNat < 256 := by
        rw [toNat_ofNat_byte b.toNat_lt]
        exact b.toNat_lt
      obtain ⟨heq, -, hlast⟩ := kept_oneByte hlen hg (by rw [textOf, henc, encode_latin1]) h
      rw [Kept, henc]
      exact ⟨heq, hlast⟩
  | ascii =>
      have hg (b : UInt8) : (Char.ofNat (b.toNat % 128)).toNat = b.toNat % 128 :=
        toNat_ofNat_byte (by omega)
      obtain ⟨heq, hback, hlast⟩ := kept_oneByte hlen (fun b => (hg b).trans_lt (by omega))
        (by rw [textOf, henc, encode_ascii]) h
      have hascii : ∀ b ∈ text, b.toNat < 128 := by
        intro b hb
        have hb' := congrArg UInt8.toNat (hback b hb)
        rw [hg, UInt8.toNat_ofNat'] at hb'
        omega
      rw [Kept, henc]
      refine ⟨heq, hascii, fun b hb => ?_⟩
      have hb' := hlast b hb
      rwa [Nat.mod_eq_of_lt (hascii b (List.mem_of_getLast? hb))] at hb'
  | utf8 => exact kept_utf8 hnonzero hlen henc h

omit hlen hnonzero in
theorem textBytes_spec (str : StringOptions) (raw : Bytes) :
    (∀ b ∈ textBytes str raw, b ≠ 0) ∧ (textBytes str raw).length ≤ str.bytes := by
  constructor
  · intro b hb
    simpa using List.mem_takeWhile_imp hb
  · have hle := (List.takeWhile_prefix (l := raw.take str.bytes) (· ≠ (0 : UInt8))).length_le
    rw [List.length_take] at hle
    unfold textBytes
    omega

omit hlen hnonzero in
-- The registers of a text that is read and written back.
theorem text_restored_iff (str : StringOptions) (raw : Bytes) :
    padTo ((str.bytes + 1) / 2 * 2) (recoded str (textBytes str raw)) = raw ↔
      TextRestored str raw := by
  obtain ⟨hnonzero, hlen⟩ := textBytes_spec str raw
  constructor
  · intro h
    have hshort : (recoded str (textBytes str raw)).length ≤ str.bytes := by
      rw [recoded, List.length_take]
      omega
    have hfield : textBytes str raw = (recoded str (textBytes str raw)).takeWhile (· ≠ 0) := by
      conv_lhs => rw [textBytes, ← h, padTo_of_le (by omega), List.take_append,
        List.take_of_length_le hshort, List.take_replicate, takeWhile_padding]
    obtain ⟨heq, hkept⟩ := kept_of_takeWhile hnonzero hlen hfield
    rw [heq] at h
    exact ⟨h.symm, hkept⟩
  · intro h
    rw [recoded_of_kept hlen h.kept]
    exact h.padded.symm

end Kept

end JsonScada.Modbus
