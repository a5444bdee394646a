import Mathlib.Data.List.Forall2
import JsonScada.Library.Decimal
import JsonScada.Library.Regex

namespace JsonScada.Library

-- Texts in units of UTF-16, where a half of a pair may stand alone.
namespace Utf16

def units (c : Char) : List ℕ :=
  if c.toNat < 0x10000 then [c.toNat]
  else [0xD800 + (c.toNat - 0x10000) / 0x400, 0xDC00 + (c.toNat - 0x10000) % 0x400]

def isHigh (u : ℕ) : Bool := 0xD800 ≤ u && u < 0xDC00

def isLow (u : ℕ) : Bool := 0xDC00 ≤ u && u < 0xE000

-- Half of a pair becomes the replacement character.
def decode : List ℕ → List Char
  | [] => []
  | [u] => [if isHigh u || isLow u then '\uFFFD' else Char.ofNat u]
  | u :: w :: us =>
      if isHigh u && isLow w then
        Char.ofNat (0x10000 + (u - 0xD800) * 0x400 + (w - 0xDC00)) :: decode us
      else (if isHigh u || isLow u then '\uFFFD' else Char.ofNat u) :: decode (w :: us)

theorem toNat_lt (c : Char) : c.toNat < 0x110000 := by
  have h := c.valid
  rcases h with h | ⟨-, h⟩
  · exact Nat.lt_trans h (by decide)
  · exact h

theorem not_surrogate (c : Char) : ¬(0xD800 ≤ c.toNat ∧ c.toNat < 0xE000) := by
  have h : c.toNat < 0xD800 ∨ 0xDFFF < c.toNat ∧ c.toNat < 0x110000 := c.valid
  omega

theorem decode_single (c : Char) (hc : c.toNat < 0x10000) (us : List ℕ) :
    decode (c.toNat :: us) = c :: decode us := by
  have hnot := not_surrogate c
  have hhigh : isHigh c.toNat = false := by simp [isHigh]; omega
  have hlow : isLow c.toNat = false := by simp [isLow]; omega
  cases us with
  | nil => simp [decode, hhigh, hlow]
  | cons w us => simp [decode, hhigh, hlow]

-- A text is told by its units.
theorem decode_units (s : List Char) : decode (s.flatMap units) = s := by
  induction s with
  | nil => rfl
  | cons c s ih =>
      rw [List.flatMap_cons, units]
      split_ifs with hc
      · rw [List.singleton_append, decode_single c hc, ih]
      · have hlt := toNat_lt c
        have hhigh : isHigh (0xD800 + (c.toNat - 0x10000) / 0x400) = true := by
          simp [isHigh]
          omega
        have hlow : isLow (0xDC00 + (c.toNat - 0x10000) % 0x400) = true := by
          simp [isLow]
          omega
        have hsum : 0x10000 + (0xD800 + (c.toNat - 0x10000) / 0x400 - 0xD800) * 0x400 +
            (0xDC00 + (c.toNat - 0x10000) % 0x400 - 0xDC00) = c.toNat := by omega
        rw [List.cons_append, List.singleton_append, decode, hhigh, hlow, Bool.and_self, if_pos rfl,
          hsum, Char.ofNat_toNat, ih]

end Utf16

-- A JSON value as its text has it: numbers as they are written, strings in units of UTF-16.
inductive Json where
  | null
  | bool (b : Bool)
  | number (text : List Char)
  | string (units : List ℕ)
  | array (items : List Json)
  | object (members : List (List ℕ × Json))

namespace Json

def isArray : Json → Bool
  | array _ => true
  | _ => false

section Tokens

def isDigit19 (c : Char) : Bool := c.isDigit && c ≠ '0'

def numberSyntax : Regex Char :=
  .seq (.opt (.one (· = '-')))
    (.seq (.alt (.one (· = '0')) (.seq (.one isDigit19) (.many Char.isDigit)))
      (.seq (.opt (.seq (.one (· = '.')) (.plus Char.isDigit)))
        (.opt (.seq (.one fun c => c = 'e' || c = 'E')
          (.seq (.opt (.one fun c => c = '+' || c = '-')) (.plus Char.isDigit))))))

inductive Token where
  | mark (c : Char)
  | scalar (v : Json)

def word (cs : List Char) : Option Json :=
  if cs = ['n', 'u', 'l', 'l'] then some .null
  else if cs = ['t', 'r', 'u', 'e'] then some (.bool true)
  else if cs = ['f', 'a', 'l', 's', 'e'] then some (.bool false)
  else none

def numeral (cs : List Char) : Option Json :=
  if numberSyntax.test cs then some (.number cs) else none

def isSpace (c : Char) : Bool := c = ' ' || c = '\t' || c = '\n' || c = '\r'

def isMark (c : Char) : Bool := c = '[' || c = ']' || c = '{' || c = '}' || c = ',' || c = ':'

def isNumberChar (c : Char) : Bool :=
  c.isDigit || c = '-' || c = '+' || c = '.' || c = 'e' || c = 'E'

def isHex (c : Char) : Bool := Strconv.isHex c.toLower

def hexValue (ds : List Char) : ℕ := Strconv.hexValue (ds.map Char.toLower)

-- The character of an escape of one letter.
def escaped (c : Char) : Option Char :=
  if c = '"' || c = '\\' || c = '/' then some c
  else if c = 'b' then some '\x08'
  else if c = 'f' then some '\x0C'
  else if c = 'n' then some '\n'
  else if c = 'r' then some '\r'
  else if c = 't' then some '\t'
  else none

end Tokens

section Machine

-- A container that is open, with its items so far.
inductive Frame where
  | array (items : List Json)
  | object (members : List (List ℕ × Json))
  | member (members : List (List ℕ × Json)) (key : List ℕ)

-- What may come next; the container may only be closed before its first item or after one.
inductive Phase where
  | value (first : Bool)
  | name (first : Bool)
  | colon (key : List ℕ)
  | after (v : Json)

-- Where a text stands among its tokens.
inductive Mode where
  | between
  | word (cs : List Char)
  | number (cs : List Char)
  | string (units : List ℕ)
  | escape (units : List ℕ)
  | unicode (units : List ℕ) (digits : List Char)

structure Machine where
  frames : List Frame
  phase : Phase
  mode : Mode

-- Readers may limit how deep a text nests.
variable (fits : ℕ → Bool)

def openFrame (frames : List Frame) (f : Frame) (phase : Phase) : Option Machine :=
  if fits (frames.length + 1) then some ⟨f :: frames, phase, .between⟩ else none

def feed (frames : List Frame) : Phase → Token → Option Machine
  | .value _, .scalar v => some ⟨frames, .after v, .between⟩
  | .value _, .mark '[' => openFrame fits frames (.array []) (.value true)
  | .value _, .mark '{' => openFrame fits frames (.object []) (.name true)
  | .value true, .mark ']' =>
      match frames with
      | .array items :: frames => some ⟨frames, .after (.array items), .between⟩
      | _ => none
  | .name _, .scalar (.string key) => some ⟨frames, .colon key, .between⟩
  | .name true, .mark '}' =>
      match frames with
      | .object members :: frames => some ⟨frames, .after (.object members), .between⟩
      | _ => none
  | .colon key, .mark ':' =>
      match frames with
      | .object members :: frames => some ⟨.member members key :: frames, .value false, .between⟩
      | _ => none
  | .after v, .mark ',' =>
      match frames with
      | .array items :: frames => some ⟨.array (items ++ [v]) :: frames, .value false, .between⟩
      | .member members key :: frames =>
          some ⟨.object (members ++ [(key, v)]) :: frames, .name false, .between⟩
      | _ => none
  | .after v, .mark ']' =>
      match frames with
      | .array items :: frames => some ⟨frames, .after (.array (items ++ [v])), .between⟩
      | _ => none
  | .after v, .mark '}' =>
      match frames with
      | .member members key :: frames =>
          some ⟨frames, .after (.object (members ++ [(key, v)])), .between⟩
      | _ => none
  | _, _ => none

def begins (m : Machine) (c : Char) : Option Machine :=
  if isSpace c then some m
  else if isMark c then feed fits m.frames m.phase (.mark c)
  else if c = '"' then some { m with mode := .string [] }
  else if c.isDigit || c = '-' then some { m with mode := .number [c] }
  else if c.isLower then some { m with mode := .word [c] }
  else none

def feedAll (m : Machine) (v : Option Json) : Option Machine :=
  v.bind fun v => feed fits m.frames m.phase (.scalar v)

def step (m : Machine) (c : Char) : Option Machine :=
  match m.mode with
  | .between => begins fits m c
  | .word cs =>
      if c.isLower then some { m with mode := .word (cs ++ [c]) }
      else (feedAll fits m (word cs)).bind fun m => begins fits m c
  | .number cs =>
      if isNumberChar c then some { m with mode := .number (cs ++ [c]) }
      else (feedAll fits m (numeral cs)).bind fun m => begins fits m c
  | .string units =>
      if c = '"' then feedAll fits m (some (.string units))
      else if c = '\\' then some { m with mode := .escape units }
      else if c.toNat < 0x20 then none
      else some { m with mode := .string (units ++ Utf16.units c) }
  | .escape units =>
      if c = 'u' then some { m with mode := .unicode units [] }
      else (escaped c).map fun c => { m with mode := .string (units ++ [c.toNat]) }
  | .unicode units digits =>
      if isHex c then
        let digits := digits ++ [c]
        some { m with mode :=
          if digits.length = 4 then .string (units ++ [hexValue digits]) else .unicode units digits }
      else none

def finish (m : Machine) : Option Json :=
  let ended := match m.mode with
    | .between => some m
    | .word cs => feedAll fits m (word cs)
    | .number cs => feedAll fits m (numeral cs)
    | _ => none
  ended.bind fun m =>
    match m.frames, m.phase with
    | [], .after v => some v
    | _, _ => none

def run (m : Machine) : List Char → Option Machine
  | [] => some m
  | c :: cs => (step fits m c).bind fun m => run m cs

def decode (cs : List Char) : Option Json :=
  (run fits ⟨[], .value false, .between⟩ cs).bind (finish fits)

end Machine

-- The grammar knows no limit.
def parse (cs : List Char) : Option Json := decode (fun _ => true) cs

section Limit

variable {fits : ℕ → Bool} {m m' : Machine}

theorem feed_of_limit {frames : List Frame} {phase : Phase} {t : Token}
    (h : feed fits frames phase t = some m) : feed (fun _ => true) frames phase t = some m := by
  have hopen : ∀ {f : Frame} {phase : Phase}, openFrame fits frames f phase = some m →
      openFrame (fun _ => true) frames f phase = some m := by
    intro f phase hopen
    unfold openFrame at hopen ⊢
    split_ifs at hopen
    exact hopen
  unfold feed at h ⊢
  split at h <;> first | exact hopen h | exact h

theorem begins_of_limit {c : Char} (h : begins fits m c = some m') :
    begins (fun _ => true) m c = some m' := by
  unfold begins at h ⊢
  split_ifs at h ⊢ <;> first | exact feed_of_limit h | exact h

theorem feedAll_of_limit {v : Option Json} (h : feedAll fits m v = some m') :
    feedAll (fun _ => true) m v = some m' := by
  obtain ⟨w, rfl, hw⟩ := Option.bind_eq_some_iff.mp h
  exact feed_of_limit hw

theorem step_of_limit {c : Char} (h : step fits m c = some m') :
    step (fun _ => true) m c = some m' := by
  have hbind : ∀ {v : Option Json}, ((feedAll fits m v).bind fun m => begins fits m c) = some m' →
      ((feedAll (fun _ => true) m v).bind fun m => begins (fun _ => true) m c) = some m' := by
    intro v hv
    obtain ⟨m₁, hfeed, hbegins⟩ := Option.bind_eq_some_iff.mp hv
    exact Option.bind_eq_some_iff.mpr ⟨m₁, feedAll_of_limit hfeed, begins_of_limit hbegins⟩
  unfold step at h ⊢
  split at h
  · exact begins_of_limit h
  · split_ifs at h ⊢
    · exact h
    · exact hbind h
  · split_ifs at h ⊢
    · exact h
    · exact hbind h
  · split_ifs at h ⊢
    · exact feedAll_of_limit h
    · exact h
    · exact h
  · exact h
  · exact h

theorem run_of_limit {cs : List Char} (h : run fits m cs = some m') :
    run (fun _ => true) m cs = some m' := by
  induction cs generalizing m with
  | nil => exact h
  | cons c cs ih =>
      obtain ⟨m₁, hstep, hrest⟩ := Option.bind_eq_some_iff.mp h
      exact Option.bind_eq_some_iff.mpr ⟨m₁, step_of_limit hstep, ih hrest⟩

-- What a reader with a limit takes is a text of the grammar, and it reads it so.
theorem parse_of_decode {cs : List Char} {v : Json} (h : decode fits cs = some v) :
    parse cs = some v := by
  obtain ⟨last, hrun, hfinish⟩ := Option.bind_eq_some_iff.mp h
  obtain ⟨m, hended, hv⟩ := Option.bind_eq_some_iff.mp hfinish
  refine Option.bind_eq_some_iff.mpr ⟨last, run_of_limit hrun, ?_⟩
  refine Option.bind_eq_some_iff.mpr ⟨m, ?_, hv⟩
  split at hended <;> first | exact feedAll_of_limit hended | exact hended

end Limit

section Writing

abbrev read : Machine → List Char → Option Machine := run fun _ => true

-- A run of characters in a string that stands for some units.
def Spells (cs : List Char) (units : List ℕ) : Prop :=
  ∀ frames phase before, read ⟨frames, phase, .string before⟩ cs =
    some ⟨frames, phase, .string (before ++ units)⟩

-- A text that stands for a value wherever one may come.
def Reads (cs : List Char) (v : Json) : Prop :=
  ∀ frames first, read ⟨frames, .value first, .between⟩ cs = some ⟨frames, .after v, .between⟩

variable {cs cs' : List Char} {units units' : List ℕ} {v : Json} {m m' : Machine}

theorem read_append (m : Machine) (cs cs' : List Char) :
    read m (cs ++ cs') = (read m cs).bind fun m => read m cs' := by
  induction cs generalizing m with
  | nil => rfl
  | cons c cs ih =>
      simp only [read, List.cons_append, run, Option.bind_assoc] at ih ⊢
      exact congrArg _ (funext ih)

theorem read_append_of_eq (h : read m cs = some m') (cs' : List Char) :
    read m (cs ++ cs') = read m' cs' := by
  rw [read_append, h, Option.bind_some]

theorem spells_nil : Spells [] [] := by
  intro frames phase before
  rw [List.append_nil]
  rfl

theorem Spells.append (h : Spells cs units) (h' : Spells cs' units') :
    Spells (cs ++ cs') (units ++ units') := by
  intro frames phase before
  rw [read_append_of_eq (h frames phase before), ← List.append_assoc]
  exact h' frames phase (before ++ units)

theorem spells_flatMap {α : Type*} {f : α → List Char} {g : α → List ℕ} (s : List α)
    (h : ∀ x ∈ s, Spells (f x) (g x)) : Spells (s.flatMap f) (s.flatMap g) := by
  induction s with
  | nil => exact spells_nil
  | cons x s ih =>
      rw [List.flatMap_cons, List.flatMap_cons]
      exact (h x List.mem_cons_self).append (ih fun y hy => h y (List.mem_cons_of_mem x hy))

-- A character that needs no escape.
theorem spells_char {c : Char} (hquote : c ≠ '"') (hslash : c ≠ '\\') (hc : 0x20 ≤ c.toNat) :
    Spells [c] (Utf16.units c) := by
  intro frames phase before
  simp [run, step, hquote, hslash, Nat.not_lt.mpr hc]

theorem spells_escape {letter c : Char} (hletter : letter ≠ 'u') (hc : escaped letter = some c) :
    Spells ['\\', letter] [c.toNat] := by
  intro frames phase before
  simp [run, step, hletter, hc]

theorem spells_unicode {a b c d : Char} (ha : isHex a = true) (hb : isHex b = true)
    (hc : isHex c = true) (hd : isHex d = true) :
    Spells ['\\', 'u', a, b, c, d] [hexValue [a, b, c, d]] := by
  intro frames phase before
  simp [run, step, ha, hb, hc, hd]

theorem Spells.quoted (h : Spells cs units) : Reads ('"' :: (cs ++ ['"'])) (.string units) := by
  intro frames first
  show read ⟨frames, .value first, .string []⟩ (cs ++ ['"']) = _
  rw [read_append_of_eq (h frames (.value first) []), List.nil_append]
  rfl

-- The items after the first one, each behind a comma.
theorem read_items {parts : List (List Char)} {items : List Json}
    (h : List.Forall₂ Reads parts items) (frames : List Frame) (done : List Json) (v : Json) :
    read ⟨.array done :: frames, .after v, .between⟩
        ((parts.flatMap fun part => ',' :: part) ++ [']']) =
      some ⟨frames, .after (.array (done ++ v :: items)), .between⟩ := by
  induction h generalizing done v with
  | nil => rfl
  | @cons part item parts items hpart hparts ih =>
      rw [List.flatMap_cons, List.append_assoc]
      show read ⟨.array (done ++ [v]) :: frames, .value false, .between⟩ (part ++ _) = _
      rw [read_append_of_eq (hpart _ false), ih (done ++ [v]) item, List.append_assoc]
      rfl

theorem intercalate_cons (c : Char) (part : List Char) (parts : List (List Char)) :
    [c].intercalate (part :: parts) = part ++ parts.flatMap fun part => c :: part := by
  induction parts generalizing part with
  | nil => simp [List.intercalate]
  | cons next parts ih =>
      have hnext := ih next
      rw [List.flatMap_cons, List.cons_append, ← hnext]
      rfl

theorem reads_array {parts : List (List Char)} {items : List Json}
    (h : List.Forall₂ Reads parts items) :
    Reads ('[' :: ([','].intercalate parts ++ [']'])) (.array items) := by
  intro frames first
  show read ⟨.array [] :: frames, .value true, .between⟩ _ = _
  cases h with
  | nil => rfl
  | @cons part item parts items hpart hparts =>
      rw [intercalate_cons, List.append_assoc, read_append_of_eq (hpart _ true)]
      exact read_items hparts frames [] item

theorem Reads.parse (h : Reads cs v) : Json.parse cs = some v := by
  unfold Json.parse decode
  rw [show run _ _ cs = _ from h [] false]
  rfl

end Writing

end Json

end JsonScada.Library
