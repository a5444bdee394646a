import JsonScada.Iec61850.Server.ModelBuilder

-- The names of the logical devices and of the objects in them.
namespace JsonScada.Iec61850.Server.ModelBuilder

section Identifiers

-- Letters, digits and underscores, and no digit at the start.
def isWordChar (c : Char) : Bool := c.isAlphanum || c = '_'

def IsIdentifier (s : String) : Prop :=
  s.toList.head?.any (fun c => !c.isDigit) = true ∧ s.toList.all isWordChar = true

instance (s : String) : Decidable (IsIdentifier s) := inferInstanceAs (Decidable (_ ∧ _))

theorem toList_toString (n : ℕ) : (toString n).toList = Nat.toDigits 10 n := by
  simp only [Nat.toString_eq_repr, Nat.toList_repr]

theorem toDigits_inj {m n : ℕ} (h : Nat.toDigits 10 m = Nat.toDigits 10 n) : m = n := by
  have hvalue := congrArg (fun digits => Nat.ofDigitChars 10 digits 0) h
  simpa using hvalue

theorem isDigit_of_mem_toString {n : ℕ} {c : Char} (h : c ∈ (toString n).toList) :
    c.isDigit = true := by
  rw [toList_toString] at h
  exact Nat.isDigit_of_mem_toDigits (by decide) (by decide) h

theorem isWordChar_of_isDigit {c : Char} (h : c.isDigit = true) : isWordChar c = true := by
  simp [isWordChar, Char.isAlphanum, h]

theorem all_isWordChar_toString (n : ℕ) : (toString n).toList.all isWordChar = true :=
  List.all_eq_true.mpr fun _ hc => isWordChar_of_isDigit (isDigit_of_mem_toString hc)

-- What is put behind an identifier needs only to be of its characters.
theorem IsIdentifier.append {s t : String} (hs : IsIdentifier s)
    (ht : t.toList.all isWordChar = true) : IsIdentifier (s ++ t) := by
  obtain ⟨hhead, hall⟩ := hs
  rw [IsIdentifier, String.toList_append, List.all_append, hall, ht]
  cases hlist : s.toList with
  | nil =>
      rw [hlist] at hhead
      cases hhead
  | cons c cs =>
      rw [hlist] at hhead
      exact ⟨hhead, rfl⟩

theorem IsIdentifier.all {s : String} (hs : IsIdentifier s) : s.toList.all isWordChar = true := hs.2

theorem isWordChar_hexDigit {n : ℕ} (hn : n < 16) : isWordChar (hexDigit n) = true := by
  revert n
  decide

theorem all_isWordChar_hex4 (hash : UInt32) : (hex4 hash).all isWordChar = true := by
  have hmod : hash.toNat % 0x10000 < 0x10000 := Nat.mod_lt _ (by decide)
  have hfirst := isWordChar_hexDigit (n := hash.toNat % 0x10000 / 4096) (by omega)
  have hsecond := isWordChar_hexDigit (n := hash.toNat % 0x10000 / 256 % 16) (by omega)
  have hthird := isWordChar_hexDigit (n := hash.toNat % 0x10000 / 16 % 16) (by omega)
  have hfourth := isWordChar_hexDigit (n := hash.toNat % 0x10000 % 16) (by omega)
  simp only [hex4, List.all_cons, List.all_nil, hfirst, hsecond, hthird, hfourth, Bool.and_self]

theorem isIdentifier_ofList {cs : List Char} (hhead : cs.head?.any (fun c => !c.isDigit) = true)
    (hall : cs.all isWordChar = true) : IsIdentifier (String.ofList cs) := by
  rw [IsIdentifier, String.toList_ofList]
  exact ⟨hhead, hall⟩

theorem all_isWordChar_mapped (cs : List Char) :
    (cs.map fun c => if c.isAlphanum then c else '_').all isWordChar = true := by
  rw [List.all_eq_true]
  intro c hc
  obtain ⟨d, -, rfl⟩ := List.mem_map.mp hc
  split_ifs with hd
  · simp [isWordChar, hd]
  · rfl

-- Every name is turned into an identifier.
theorem isIdentifier_sanitizeMms (s : String) (maxLen : ℕ) :
    IsIdentifier (String.ofList (sanitizeMms s maxLen)) := by
  unfold sanitizeMms
  have hmapped := all_isWordChar_mapped s.toList
  generalize (s.toList.map fun c => if c.isAlphanum then c else '_') = mapped at hmapped
  dsimp only
  have htrim : ((mapped.dropWhile isUnderscore).reverse.dropWhile isUnderscore).reverse.all
      isWordChar = true := by
    rw [List.all_eq_true] at hmapped ⊢
    intro c hc
    rw [List.mem_reverse] at hc
    have hc := (List.dropWhile_sublist _).subset hc
    exact hmapped c ((List.dropWhile_sublist _).subset (List.mem_reverse.mp hc))
  generalize ((mapped.dropWhile isUnderscore).reverse.dropWhile isUnderscore).reverse = r at htrim
  -- a name of its own characters, then one that does not start with a digit
  have hfilled : (if r = [] then ['P'] else r).all isWordChar = true ∧
      (if r = [] then ['P'] else r) ≠ [] := by
    split_ifs with h
    · exact ⟨rfl, List.cons_ne_nil _ _⟩
    · exact ⟨htrim, h⟩
  generalize (if r = [] then ['P'] else r) = t at hfilled
  obtain ⟨hall, hne⟩ := hfilled
  have hstart : (if t.head?.any Char.isDigit then 'P' :: t else t).all isWordChar = true ∧
      (if t.head?.any Char.isDigit then 'P' :: t else t).head?.any (fun c => !c.isDigit) = true := by
    cases t with
    | nil => exact absurd rfl hne
    | cons c cs =>
        cases hc : c.isDigit with
        | true =>
            simp only [List.head?_cons, Option.any_some, hc, if_true]
            exact ⟨by rw [List.all_cons, hall]; rfl, rfl⟩
        | false =>
            simp only [List.head?_cons, Option.any_some, hc, Bool.false_eq_true, if_false]
            exact ⟨hall, rfl⟩
  generalize (if t.head?.any Char.isDigit then 'P' :: t else t) = u at hstart
  split_ifs with hlong
  · refine isIdentifier_ofList ?_ ?_
    · obtain ⟨k, hk⟩ : ∃ k, max 1 (maxLen - 5) = k + 1 := ⟨max 1 (maxLen - 5) - 1, by omega⟩
      rw [hk]
      cases u with
      | nil => cases hstart.2
      | cons c cs => exact hstart.2
    · rw [List.all_append, List.all_cons, all_isWordChar_hex4]
      simp only [Bool.and_true, Bool.and_eq_true]
      refine ⟨?_, rfl⟩
      rw [List.all_eq_true] at *
      exact fun c hc => hstart.1 c (List.mem_of_mem_take hc)
  · exact isIdentifier_ofList hstart.2 hstart.1

theorem isIdentifier_iedName (conn : ServerConnection) : IsIdentifier (iedName conn) := by
  unfold iedName
  dsimp only
  split_ifs
  · decide
  · exact isIdentifier_sanitizeMms _ _

end Identifiers

section Unique

variable {base : String} {used : List String}

theorem candidate_append (base : String) (i : ℕ) :
    ∃ rest, candidate base i = base ++ rest ∧ rest.toList.all isWordChar = true := by
  unfold candidate numbered
  split_ifs
  · exact ⟨"", by simp, rfl⟩
  · refine ⟨"_" ++ toString (i + 1), by rw [String.append_assoc], ?_⟩
    rw [String.toList_append, List.all_append, all_isWordChar_toString]
    rfl

theorem candidate_injective (base : String) : Function.Injective (candidate base) := by
  have hnumbered : ∀ i j, candidate base (i + 1) = candidate base (j + 1) → i = j := by
    intro i j h
    have hlist := congrArg String.toList h
    simp only [candidate, numbered, Nat.succ_ne_zero, if_false, String.toList_append,
      List.append_assoc, List.append_cancel_left_eq, toList_toString] at hlist
    have := toDigits_inj hlist
    omega
  have hzero : ∀ i, candidate base 0 ≠ candidate base (i + 1) := by
    intro i h
    have hlength := congrArg (fun s => s.toList.length) h
    simp [candidate, numbered] at hlength
  intro i j h
  cases i with
  | zero =>
      cases j with
      | zero => rfl
      | succ j => exact absurd h (hzero j)
  | succ i =>
      cases j with
      | zero => exact absurd h.symm (hzero i)
      | succ j => rw [hnumbered i j h]

-- There are more candidates than names in use.
theorem uniqueName_spec (base : String) (used : List String) :
    uniqueName base used ∉ used ∧ ∃ i, uniqueName base used = candidate base i := by
  have hfree : ∃ s, ((List.range (used.length + 1)).map (candidate base)).find? (· ∉ used) =
      some s := by
    by_contra hnone
    have hall := List.find?_eq_none.mp (Option.eq_none_iff_forall_ne_some.mpr
      fun s hs => hnone ⟨s, hs⟩)
    simp only [decide_eq_true_eq, not_not] at hall
    have hnodup : ((List.range (used.length + 1)).map (candidate base)).Nodup :=
      List.nodup_range.map (candidate_injective base)
    have hlength := (hnodup.subperm hall).length_le
    simp at hlength
  obtain ⟨s, hs⟩ := hfree
  have hunique : uniqueName base used = s := by rw [uniqueName, hs, Option.getD_some]
  have hnot := List.find?_some hs
  obtain ⟨i, -, hi⟩ := List.mem_map.mp (List.mem_of_find?_eq_some hs)
  rw [hunique]
  exact ⟨of_decide_eq_true hnot, i, hi.symm⟩

theorem isIdentifier_uniqueName (hbase : IsIdentifier base) :
    IsIdentifier (uniqueName base used) := by
  obtain ⟨-, i, hi⟩ := uniqueName_spec base used
  obtain ⟨rest, hrest, hall⟩ := candidate_append base i
  rw [hi, hrest]
  exact hbase.append hall

end Unique

section References

-- The device, the node and the object that a reference names.
structure Reference where
  device : String
  node : String
  object : String
deriving DecidableEq

def Reference.text (r : Reference) : String := r.device ++ "/" ++ r.node ++ "." ++ r.object

structure Reference.Valid (r : Reference) : Prop where
  device : IsIdentifier r.device
  node : IsIdentifier r.node
  object : IsIdentifier r.object

theorem notMem_of_all {s : String} (h : s.toList.all isWordChar = true) {c : Char}
    (hc : isWordChar c = false) : c ∉ s.toList := fun hmem =>
  Bool.false_ne_true (hc.symm.trans (List.all_eq_true.mp h c hmem))

theorem append_cons_inj {c : Char} {a a' b b' : List Char} (ha : c ∉ a) (ha' : c ∉ a')
    (h : a ++ c :: b = a' ++ c :: b') : a = a' ∧ b = b' := by
  induction a generalizing a' with
  | nil =>
      cases a' with
      | nil => exact ⟨rfl, List.tail_eq_of_cons_eq h⟩
      | cons d a' =>
          have hd := List.head_eq_of_cons_eq h
          exact absurd (hd ▸ List.mem_cons_self) ha'
  | cons d a ih =>
      cases a' with
      | nil =>
          have hd := List.head_eq_of_cons_eq h
          exact absurd (hd ▸ List.mem_cons_self) ha
      | cons e a' =>
          obtain ⟨rfl, htail⟩ := List.cons.inj h
          obtain ⟨rfl, rfl⟩ := ih (fun hc => ha (List.mem_cons_of_mem _ hc))
            (fun hc => ha' (List.mem_cons_of_mem _ hc)) htail
          exact ⟨rfl, rfl⟩

-- A valid reference can be read in one way only.
theorem Reference.text_inj {r r' : Reference} (hr : r.Valid) (hr' : r'.Valid)
    (h : r.text = r'.text) : r = r' := by
  have hlist := congrArg String.toList h
  simp only [Reference.text, String.toList_append, List.append_assoc] at hlist
  obtain ⟨hdevice, hrest⟩ := append_cons_inj (notMem_of_all hr.device.all (by decide))
    (notMem_of_all hr'.device.all (by decide)) hlist
  obtain ⟨hnode, hobject⟩ := append_cons_inj (notMem_of_all hr.node.all (by decide))
    (notMem_of_all hr'.node.all (by decide)) hrest
  obtain ⟨device, node, object⟩ := r
  obtain ⟨device', node', object'⟩ := r'
  obtain rfl := String.toList_inj.mp hdevice
  obtain rfl := String.toList_inj.mp hnode
  obtain rfl := String.toList_inj.mp hobject
  rfl

end References

section Places

-- The stems of the names of the objects.
def stems : List String := ["AnOut", "SPCSO", "AnIn", "Str", "Ind"]

theorem stem_mem (isCommand : Bool) (typ : String) : (kindOf isCommand typ).2 ∈ stems := by
  unfold kindOf
  split_ifs <;> decide

def place (ldName : String) (idx : ℕ) (stem : String) (number : ℕ) : Reference :=
  ⟨ldName, ggioName idx, stem ++ toString number⟩

theorem objectRef_eq (ldName : String) (idx : ℕ) (stem : String) (number : ℕ) :
    objectRef ldName idx (stem ++ toString number) = (place ldName idx stem number).text := rfl

theorem isIdentifier_stem {stem : String} (h : stem ∈ stems) : IsIdentifier stem := by
  revert stem
  decide

theorem place_valid {ldName stem : String} (hld : IsIdentifier ldName) (hstem : stem ∈ stems)
    (idx number : ℕ) : (place ldName idx stem number).Valid where
  device := hld
  node := IsIdentifier.append (by decide) (all_isWordChar_toString idx)
  object := (isIdentifier_stem hstem).append (all_isWordChar_toString number)

-- Digits behind a word that has none tell both.
theorem stem_append_inj {s t : String} (hs : s ∈ stems) (ht : t ∈ stems) {m n : ℕ}
    (h : s ++ toString m = t ++ toString n) : s = t ∧ m = n := by
  have hword : ∀ s ∈ stems, ∀ n : ℕ,
      (s ++ toString n).toList.takeWhile (fun c => !c.isDigit) = s.toList := by
    intro s hs n
    have hletters : ∀ s ∈ stems, (s.toList.all fun c => !c.isDigit) = true := by decide
    rw [String.toList_append, List.takeWhile_append_of_pos (List.all_eq_true.mp (hletters s hs)),
      toList_toString]
    have hstart : (Nat.toDigits 10 n).takeWhile (fun c => !c.isDigit) = [] := by
      cases hdigits : Nat.toDigits 10 n with
      | nil => rfl
      | cons c cs =>
          have hdigit : c.isDigit = true :=
            Nat.isDigit_of_mem_toDigits (b := 10) (n := n) (by decide) (by decide) (by simp [hdigits])
          simp [hdigit]
    rw [hstart, List.append_nil]
  have hst : s = t := by
    rw [← String.toList_inj, ← hword s hs m, h, hword t ht n]
  subst hst
  have hdigits := congrArg String.toList h
  rw [String.toList_append, String.toList_append, List.append_cancel_left_eq, toList_toString,
    toList_toString] at hdigits
  exact ⟨rfl, toDigits_inj hdigits⟩

theorem ggioName_inj {i j : ℕ} (h : ggioName i = ggioName j) : i = j := by
  have hlist := congrArg String.toList h
  rw [ggioName, ggioName, String.toList_append, String.toList_append,
    List.append_cancel_left_eq, toList_toString, toList_toString] at hlist
  exact toDigits_inj hlist

theorem place_inj {ldName ldName' s t : String} {i j m n : ℕ} (hs : s ∈ stems) (ht : t ∈ stems)
    (h : place ldName i s m = place ldName' j t n) : ldName = ldName' ∧ i = j ∧ s = t ∧ m = n := by
  obtain ⟨hld, hggio, hobject⟩ := Reference.mk.inj h
  obtain ⟨hst, hmn⟩ := stem_append_inj hs ht hobject
  exact ⟨hld, ggioName_inj hggio, hst, hmn⟩

end Places

end JsonScada.Iec61850.Server.ModelBuilder
