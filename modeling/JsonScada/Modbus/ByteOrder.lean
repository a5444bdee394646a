import JsonScada.Modbus.Rtu
import Mathlib.Data.List.GetD
import Mathlib.Data.List.Nodup
import Mathlib.Data.List.Perm.Subperm
import Mathlib.Data.List.Range
import Mathlib.Data.String.Basic

namespace JsonScada.Modbus

-- `p[i]` is the wire byte that belongs at canonical position `i`; `inv` undoes it.
structure Perm where
  width : Nat
  p : List Nat
  inv : List Nat
  deriving DecidableEq, Repr

def newPerm (width : Nat) (p : List Nat) : Perm where
  width := width
  p := p
  inv := (List.range width).foldl (fun inv i => inv.set (p.getD i 0) i) (List.replicate width 0)

-- Bytes past the end of the wire read as zero.
def Perm.toCanonical (perm : Perm) (wire : Bytes) (off : Nat) : Bytes :=
  (List.range perm.width).map fun i => wire.getD (off + perm.p.getD i 0) 0

def Perm.fromCanonical (perm : Perm) (canonical : Bytes) : Bytes :=
  (List.range perm.width).map fun i => canonical.getD (perm.inv.getD i 0) 0

-- unicode.IsSpace
def isSpace (c : Char) : Bool :=
  c.toNat ∈ [0x09, 0x0a, 0x0b, 0x0c, 0x0d, 0x20, 0x85, 0xa0, 0x1680, 0x2028, 0x2029, 0x202f,
      0x205f, 0x3000] ||
    (0x2000 ≤ c.toNat && c.toNat ≤ 0x200a)

-- strings.TrimRightFunc and strings.TrimSpace
def trimRight (space : Char → Bool) (s : List Char) : List Char :=
  (s.reverse.dropWhile space).reverse

def trimSpace (s : List Char) : List Char :=
  trimRight isSpace (s.dropWhile isSpace)

-- unicode.ToUpper, for the runes that have an ASCII upper case. No other rune
-- can become one of the letters A to P.
def toUpper (c : Char) : Char :=
  if c = 'ı' then 'I' else if c = 'ſ' then 'S' else c.toUpper

def synonyms : List (String × String) :=
  [("BIG_ENDIAN", "BE"), ("LITTLE_ENDIAN", "LE"), ("REV_ENDIAN", "LE"), ("", "BE")]

def aliases : Nat → List (String × String)
  | 2 => [("BE", "AB"), ("LE", "BA"), ("SW", "AB"), ("SB", "BA")]
  | 4 => [("BE", "ABCD"), ("LE", "DCBA"), ("SW", "CDAB"), ("SB", "BADC")]
  | 8 => [("BE", "ABCDEFGH"), ("LE", "HGFEDCBA"), ("SW", "GHEFCDAB"), ("SB", "BADCFEHG")]
  | _ => []

def letters : String := "ABCDEFGHIJKLMNOP"

inductive ByteOrderError where
  | length (spec : String) (width : Nat)
  | permutation (spec : String) (expected : String)
  -- `letters[:width]` of a width over sixteen
  | sliceBounds (width : Nat)
  deriving DecidableEq, Repr

def ByteOrderError.message : ByteOrderError → String
  | .length spec width =>
      "Invalid byte order " ++ spec.quote ++ " for " ++ toString width ++
        "-byte value: expected a " ++ toString width ++ "-letter permutation or a named alias"
  | .permutation spec expected =>
      "Invalid byte order " ++ spec.quote ++ ": must be a permutation of " ++ expected.quote
  | .sliceBounds width => "slice bounds out of range [:" ++ toString width ++ "]"

-- The loop over the letters of the specification: each one's place among the
-- expected letters, none of them twice. `perm` holds the places already seen.
def letterPlaces (expected : List Char) : List Char → List Nat → Option (List Nat)
  | [], perm => some perm
  | ch :: rest, perm =>
      match expected.idxOf? ch with
      | none => none
      | some idx => if idx ∈ perm then none else letterPlaces expected rest (perm ++ [idx])

def parseByteOrder (spec : String) (width : Nat) : Except ByteOrderError Perm :=
  if width = 1 then .ok (newPerm 1 [0])
  else
    let s := String.ofList ((trimSpace spec.toList).map toUpper)
    let s := (synonyms.lookup s).getD s
    let s := ((aliases width).lookup s).getD s
    if s.utf8ByteSize ≠ width then .error (.length spec width)
    else if letters.length < width then .error (.sliceBounds width)
    else
      let expected := letters.toList.take width
      match letterPlaces expected s.toList [] with
      | none => .error (.permutation spec (String.ofList expected))
      | some perm => .ok (newPerm width perm)

section Inverse

variable {width : Nat} {p : List Nat}

-- What the loop of `newPerm` has filled in after `k` turns.
private theorem inv_filled (hp : p.Perm (List.range width)) (k : Nat) (hk : k ≤ width) :
    ∃ inv, (List.range k).foldl (fun inv i => inv.set (p.getD i 0) i) (List.replicate width 0) = inv ∧
      inv.length = width ∧ ∀ i, i < k → inv.getD (p.getD i 0) 0 = i := by
  have hlen : p.length = width := by simpa using hp.length_eq
  have hnodup : p.Nodup := hp.nodup_iff.mpr List.nodup_range
  induction k with
  | zero => exact ⟨_, rfl, by simp, by simp⟩
  | succ k ih =>
      obtain ⟨inv, hfold, hl, hinv⟩ := ih (by omega)
      refine ⟨inv.set (p.getD k 0) k, ?_, by simpa using hl, ?_⟩
      · rw [List.range_succ, List.foldl_append, hfold]
        rfl
      · have hpk : p.getD k 0 = p[k] := List.getD_eq_getElem _ _ (by omega)
        have hlt : p[k] < inv.length := by
          have := hp.mem_iff.mp (List.getElem_mem (l := p) (n := k) (by omega))
          simpa [hl] using this
        intro i hi
        by_cases hik : i = k
        · subst hik
          rw [hpk, List.getD_eq_getElem _ _ (by simpa using hlt), List.getElem_set_self]
        · have hpi : p.getD i 0 = p[i] := List.getD_eq_getElem _ _ (by omega)
          have hne : p[k] ≠ p[i] := by
            intro he
            exact hik ((hnodup.getElem_inj_iff).mp he).symm
          have hold := hinv i (by omega)
          rw [hpi] at hold
          rw [hpk, hpi, List.getD_eq_getElem?_getD, List.getElem?_set_ne hne,
            ← List.getD_eq_getElem?_getD]
          exact hold

theorem newPerm_inv (hp : p.Perm (List.range width)) (i : Nat) (hi : i < width) :
    (newPerm width p).inv.getD (p.getD i 0) 0 = i := by
  obtain ⟨inv, hfold, _, hinv⟩ := inv_filled hp width (Nat.le_refl _)
  simp only [newPerm, hfold]
  exact hinv i hi

theorem toCanonical_length (perm : Perm) (wire : Bytes) (off : Nat) :
    (perm.toCanonical wire off).length = perm.width := by
  simp [Perm.toCanonical]

theorem fromCanonical_length (perm : Perm) (canonical : Bytes) :
    (perm.fromCanonical canonical).length = perm.width := by
  simp [Perm.fromCanonical]

theorem fromCanonical_getD (perm : Perm) (canonical : Bytes) (i : Nat) (hi : i < perm.width) :
    (perm.fromCanonical canonical).getD i 0 = canonical.getD (perm.inv.getD i 0) 0 := by
  simp [Perm.fromCanonical, List.getD_eq_getElem?_getD, hi]

theorem toCanonical_getD (perm : Perm) (wire : Bytes) (off i : Nat) (hi : i < perm.width) :
    (perm.toCanonical wire off).getD i 0 = wire.getD (off + perm.p.getD i 0) 0 := by
  simp [Perm.toCanonical, List.getD_eq_getElem?_getD, hi]

-- Two byte lists of one length agree when they agree at every place.
theorem bytes_ext {a b : Bytes} (hlen : a.length = b.length)
    (h : ∀ i, i < a.length → a.getD i 0 = b.getD i 0) : a = b := by
  apply List.ext_getElem hlen
  intro i ha hb
  have := h i ha
  rwa [List.getD_eq_getElem _ _ ha, List.getD_eq_getElem _ _ hb] at this

theorem toCanonical_fromCanonical (hp : p.Perm (List.range width)) (canonical : Bytes)
    (hlen : canonical.length = width) :
    (newPerm width p).toCanonical ((newPerm width p).fromCanonical canonical) 0 = canonical := by
  apply bytes_ext (by rw [toCanonical_length]; exact hlen.symm)
  intro i hi
  rw [toCanonical_length] at hi
  have hpi : p.getD i 0 < width := by
    have hl : p.length = width := by simpa using hp.length_eq
    have hi' : i < p.length := by rw [hl]; exact hi
    rw [List.getD_eq_getElem _ _ hi']
    simpa using hp.mem_iff.mp (List.getElem_mem hi')
  rw [toCanonical_getD _ _ _ _ hi, Nat.zero_add, fromCanonical_getD _ _ _ hpi]
  exact congrArg (canonical.getD · 0) (newPerm_inv hp i hi)

theorem fromCanonical_toCanonical (hp : p.Perm (List.range width)) (wire : Bytes)
    (hlen : wire.length = width) :
    (newPerm width p).fromCanonical ((newPerm width p).toCanonical wire 0) = wire := by
  apply bytes_ext (by rw [fromCanonical_length]; exact hlen.symm)
  intro i hi
  rw [fromCanonical_length] at hi
  have hmem : i ∈ p := hp.mem_iff.mpr (List.mem_range.mpr hi)
  obtain ⟨k, hk, hpk⟩ := List.getElem_of_mem hmem
  have hkw : k < width := by
    have hl : p.length = width := by simpa using hp.length_eq
    omega
  have hval : p.getD k 0 = i := by rw [List.getD_eq_getElem _ _ hk, hpk]
  have hinv := newPerm_inv hp k hkw
  rw [hval] at hinv
  rw [fromCanonical_getD _ _ _ hi, hinv, toCanonical_getD _ _ _ _ hkw, Nat.zero_add]
  exact congrArg (wire.getD · 0) hval

end Inverse

section Parsing

-- Places found so far are distinct, and each letter adds one.
theorem letterPlaces_spec {expected s : List Char} {seen perm : List Nat}
    (h : letterPlaces expected s seen = some perm) (hnodup : seen.Nodup)
    (hlt : ∀ i ∈ seen, i < expected.length) :
    perm.Nodup ∧ (∀ i ∈ perm, i < expected.length) ∧ perm.length = seen.length + s.length ∧
      ∀ c ∈ s, c ∈ expected := by
  induction s generalizing seen with
  | nil =>
      obtain rfl := Option.some.inj h
      exact ⟨hnodup, hlt, by simp, by simp⟩
  | cons ch rest ih =>
      simp only [letterPlaces] at h
      cases hi : expected.idxOf? ch with
      | none => simp [hi] at h
      | some idx =>
          simp only [hi] at h
          split_ifs at h with hseen
          obtain ⟨hidx, hget, _⟩ := List.idxOf?_eq_some_iff.mp hi
          have hnodup' : (seen ++ [idx]).Nodup := by
            simp only [List.nodup_append, hnodup, true_and]
            refine ⟨by simp, ?_⟩
            intro i hm j hj he
            obtain rfl := List.mem_singleton.mp hj
            exact hseen (he ▸ hm)
          have hlt' : ∀ i ∈ seen ++ [idx], i < expected.length := by
            intro i hm
            rcases List.mem_append.mp hm with hm | hm
            · exact hlt i hm
            · obtain rfl := List.mem_singleton.mp hm
              exact hidx
          obtain ⟨h1, h2, h3, h4⟩ := ih h hnodup' hlt'
          refine ⟨h1, h2, by simp at h3 ⊢; omega, ?_⟩
          intro c hc
          rcases List.mem_cons.mp hc with rfl | hc
          · exact List.mem_of_getElem (by simpa using hget)
          · exact h4 c hc

-- ASCII letters take one byte each.
private theorem utf8ByteSize_letters {s : List Char} (h : ∀ c ∈ s, c ∈ letters.toList) :
    (String.ofList s).utf8ByteSize = s.length := by
  induction s with
  | nil => rfl
  | cons c s ih =>
      have hc : c.utf8Size = 1 := by
        have hmem := h c (by simp)
        have hall : letters.toList.all (fun c => c.utf8Size == 1) = true := by decide
        exact eq_of_beq (List.all_eq_true.mp hall c hmem)
      have hrest := ih fun c hc => h c (by simp [hc])
      rw [String.utf8ByteSize_ofList] at hrest ⊢
      simp [hrest, hc]

theorem parseByteOrder_perm {spec : String} {width : Nat} {perm : Perm}
    (h : parseByteOrder spec width = .ok perm) :
    ∃ p, p.Perm (List.range width) ∧ perm = newPerm width p := by
  simp only [parseByteOrder] at h
  split_ifs at h with h1 hsize hletters
  · obtain rfl := Except.ok.inj h
    subst h1
    exact ⟨[0], by decide, rfl⟩
  · generalize ((aliases width).lookup _).getD _ = s at h hsize
    split at h
    · cases h
    · rename_i p hp
      obtain rfl := Except.ok.inj h
      refine ⟨p, ?_, rfl⟩
      obtain ⟨hnodup, hlt, hlen, hmem⟩ := letterPlaces_spec hp List.nodup_nil (by simp)
      have hexp : (letters.toList.take width).length = width := by
        have : letters.length = letters.toList.length := by decide
        simp only [List.length_take]
        omega
      have hsl : s.toList.length = width := by
        have := utf8ByteSize_letters (fun c hc => List.mem_of_mem_take (hmem c hc))
        rw [String.ofList_toList] at this
        omega
      have hsub : p ⊆ List.range width := by
        intro i hi
        have := hlt i hi
        rw [hexp] at this
        exact List.mem_range.mpr this
      have hle : (List.range width).length ≤ p.length := by
        simp only [List.length_nil] at hlen
        rw [List.length_range]
        omega
      exact (List.subperm_of_subset hnodup hsub).perm_of_length_le hle

end Parsing

end JsonScada.Modbus
