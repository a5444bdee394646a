import Mathlib.Data.List.Basic
import Mathlib.Data.Option.Basic
import Mathlib.Tactic.Common

-- The lexical rules of PostgreSQL with standard_conforming_strings, as far as the rows of a
-- VALUES list need them.
namespace JsonScada.Library.Sql

inductive Token where
  | text (s : List Char)
  | bits (s : List Char)
  | openParen
  | closeParen
  | comma
  -- a character of anything else
  | char (c : Char)
  deriving DecidableEq

-- Where a character stands outside of the literals: where a token may start, inside of a
-- word, or behind a literal.
inductive Gap where
  | between
  | word
  | behind
  deriving DecidableEq

inductive Mode where
  | plain (w : Gap)
  -- before the quote of a bit string
  | opening
  | quoted (bits : Bool) (read : List Char)
  -- behind a quote that ends a literal, unless another one follows
  | closing (bits : Bool) (read : List Char)

def literal (bits : Bool) (s : List Char) : Token := if bits then .bits s else .text s

def isSpace (c : Char) : Bool := c ∈ [' ', '\t', '\n', '\r', '\x0b', '\x0c']

def isWord (c : Char) : Bool := c.isAlphanum || c = '_' || c = '$' || 128 ≤ c.toNat

-- Literals of other kinds, quoted names, comments, dollar quotes and a literal that goes on
-- behind another one are not read.
def unread (w : Gap) (c : Char) (next : Option Char) : Bool :=
  c = '\x00' || c = '"' || (c = '\'' && w = .behind) || (c = '$' && w ≠ .word) ||
    (w ≠ .word && next = some '\'' && c ∈ ['e', 'E', 'n', 'N', 'x', 'X']) ||
    (w ≠ .word && next = some '&' && c ∈ ['u', 'U']) ||
    (c = '-' && next = some '-') || (c = '/' && next = some '*')

def Gap.after (w : Gap) (c : Char) : Gap :=
  if isSpace c then if w = .behind then .behind else .between
  else if isWord c then .word
  else .between

def step (w : Gap) (c : Char) (next : Option Char) : Option (List Token × Mode) :=
  if unread w c next then none
  else if c = '\'' then some ([], .quoted false [])
  else if w ≠ .word && next = some '\'' && c ∈ ['b', 'B'] then some ([], .opening)
  else if c = '(' then some ([.openParen], .plain .between)
  else if c = ')' then some ([.closeParen], .plain .between)
  else if c = ',' then some ([.comma], .plain .between)
  else some ([.char c], .plain (w.after c))

-- The tokens of a text. There is no zero character in a literal, nor anywhere else.
def scan : Mode → List Char → Option (List Token)
  | .plain _, [] => some []
  | .closing bits read, [] => some [literal bits read]
  | .opening, [] | .quoted _ _, [] => none
  | .plain w, c :: cs =>
      (step w c cs.head?).bind fun (ts, m) => (scan m cs).map (ts ++ ·)
  | .opening, c :: cs => if c = '\'' then scan (.quoted true []) cs else none
  | .quoted bits read, c :: cs =>
      if c = '\x00' then none
      else if c = '\'' then scan (.closing bits read) cs
      else scan (.quoted bits (read ++ [c])) cs
  | .closing bits read, c :: cs =>
      if c = '\'' then scan (.quoted bits (read ++ ['\''])) cs
      else
        (step .behind c cs.head?).bind fun (ts, m) =>
          (scan m cs).map (literal bits read :: ts ++ ·)

def consHead (t : Token) : List (List Token) → List (List Token)
  | [] => [[t]]
  | f :: fields => (t :: f) :: fields

-- The fields between the commas that stand in no parentheses.
def splitFields : ℕ → List Token → Option (List (List Token))
  | 0, [] => some [[]]
  | _ + 1, [] => none
  | d, .openParen :: ts => (splitFields (d + 1) ts).map (consHead .openParen)
  | 0, .closeParen :: _ => none
  | d + 1, .closeParen :: ts => (splitFields d ts).map (consHead .closeParen)
  | 0, .comma :: ts => (splitFields 0 ts).map ([] :: ·)
  | d, t :: ts => (splitFields d ts).map (consHead t)

-- The fields of a tuple without its parentheses.
def readTuple (s : List Char) : Option (List (List Token)) :=
  (scan (.plain .between) s).bind (splitFields 0)

def doubleQuotes : List Char → List Char
  | [] => []
  | c :: cs => if c = '\'' then '\'' :: '\'' :: doubleQuotes cs else c :: doubleQuotes cs

section Literals

variable {bits : Bool} {read s rest : List Char} {w : Gap}

-- A quoted text is read up to its end.
theorem scan_quoted (hnul : '\x00' ∉ s) (hrest : rest.head? ≠ some '\'') :
    scan (.quoted bits read) (doubleQuotes s ++ '\'' :: rest) =
      (scan (.plain .behind) rest).map (literal bits (read ++ s) :: ·) := by
  induction s generalizing read with
  | nil =>
      cases rest with
      | nil => simp [doubleQuotes, scan]
      | cons c rest =>
          have hc : c ≠ '\'' := fun h => hrest (by rw [h]; rfl)
          simp only [doubleQuotes, List.nil_append, scan, Char.reduceEq, if_false, if_true, if_neg hc,
            List.append_nil]
          cases step .behind c rest.head? with
          | none => rfl
          | some out => simp [Option.map_map, Function.comp_def]
  | cons c s ih =>
      have hc : c ≠ '\x00' := fun h => hnul (by simp [h])
      have hs : '\x00' ∉ s := fun h => hnul (List.mem_cons_of_mem c h)
      by_cases hquote : c = '\''
      · subst hquote
        simp only [doubleQuotes, if_true, List.cons_append, scan, Char.reduceEq, if_false]
        rw [ih hs, List.append_assoc]
        rfl
      · simp only [doubleQuotes, if_neg hquote, List.cons_append, scan, if_neg hc]
        rw [ih hs, List.append_assoc]
        rfl

theorem scan_literal (hw : w ≠ .behind) (hnul : '\x00' ∉ s) (hrest : rest.head? ≠ some '\'') :
    scan (.plain w) ('\'' :: (doubleQuotes s ++ '\'' :: rest)) =
      (scan (.plain .behind) rest).map (.text s :: ·) := by
  have hstep (next : Option Char) : step w '\'' next = some ([], .quoted false []) := by
    simp [step, unread, hw]
  rw [scan, hstep, Option.bind_some]
  dsimp only
  rw [scan_quoted hnul hrest]
  simp [literal, Function.comp_def]

theorem doubleQuotes_append (s t : List Char) :
    doubleQuotes (s ++ t) = doubleQuotes s ++ doubleQuotes t := by
  induction s with
  | nil => rfl
  | cons c s ih =>
      rw [List.cons_append, doubleQuotes, doubleQuotes, ih]
      split <;> rfl

-- Quotes in a text without quotes need no doubling.
theorem doubleQuotes_eq (h : '\'' ∉ s) : doubleQuotes s = s := by
  induction s with
  | nil => rfl
  | cons c s ih =>
      have hc : c ≠ '\'' := fun hc => h (by simp [hc])
      rw [doubleQuotes, if_neg hc, ih fun hs => h (List.mem_cons_of_mem c hs)]

theorem scan_verbatim (hw : w ≠ .behind) (hquote : '\'' ∉ s) (hnul : '\x00' ∉ s)
    (hrest : rest.head? ≠ some '\'') :
    scan (.plain w) ('\'' :: (s ++ '\'' :: rest)) =
      (scan (.plain .behind) rest).map (.text s :: ·) := by
  have hread := scan_literal hw hnul hrest
  rwa [doubleQuotes_eq hquote] at hread

theorem scan_bits (hw : w ≠ .word) (hquote : '\'' ∉ s) (hnul : '\x00' ∉ s)
    (hrest : rest.head? ≠ some '\'') :
    scan (.plain w) ('B' :: '\'' :: (s ++ '\'' :: rest)) =
      (scan (.plain .behind) rest).map (.bits s :: ·) := by
  have hstep : step w 'B' (some '\'') = some ([], .opening) := by
    simp [step, unread, hw]
  rw [scan, List.head?_cons, hstep, Option.bind_some]
  dsimp only
  rw [scan, if_pos rfl]
  have hread : scan (.quoted true []) (doubleQuotes s ++ '\'' :: rest) = _ :=
    scan_quoted hnul hrest
  rw [doubleQuotes_eq hquote] at hread
  rw [hread]
  simp [literal, Function.comp_def]

-- No quote follows a literal when a word does.
theorem head_append_ne (h : s ≠ [] ∧ s.head? ≠ some '\'') : (s ++ rest).head? ≠ some '\'' := by
  obtain ⟨hne, hhead⟩ := h
  cases s with
  | nil => exact absurd rfl hne
  | cons c s => exact hhead

-- A zero character stands nowhere.
theorem scan_of_nul {m : Mode} {cs : List Char} (h : '\x00' ∈ cs) : scan m cs = none := by
  induction cs generalizing m with
  | nil => cases h
  | cons c cs ih =>
      have hstep (w : Gap) (next : Option Char) (hc : '\x00' = c) : step w c next = none := by
        subst hc
        simp [step, unread]
      have hrest : ('\x00' = c) ∨ ∀ m, scan m cs = none :=
        (List.mem_cons.mp h).imp_right fun h m => ih h
      cases m with
      | plain w =>
          rcases hrest with hc | hrest
          · rw [scan, hstep w _ hc, Option.bind_none]
          · simp [scan, hrest]
      | opening =>
          rcases hrest with rfl | hrest
          · simp [scan]
          · simp [scan, hrest]
      | quoted bits read =>
          rcases hrest with rfl | hrest
          · simp [scan]
          · simp [scan, hrest]
      | closing bits read =>
          rcases hrest with rfl | hrest
          · rw [scan, if_neg (by decide), hstep _ _ rfl, Option.bind_none]
          · simp [scan, hrest]

end Literals

section Words

variable {w : Gap} {c : Char} {s rest : List Char} {ts : List Token}

-- A character that is read as itself before the next one.
def quiet (c : Char) (next : Option Char) : Bool :=
  c ∉ ['\x00', '\'', '"', '$', '(', ')', ','] &&
    !(next = some '\'' && c ∈ ['b', 'B', 'e', 'E', 'n', 'N', 'x', 'X']) &&
    !(next = some '&' && c ∈ ['u', 'U']) && !(c = '-' && next = some '-') &&
    !(c = '/' && next = some '*')

def quietRun : List Char → Option Char → Bool
  | [], _ => true
  | [c], next => quiet c next
  | c :: d :: s, next => quiet c (some d) && quietRun (d :: s) next

theorem quietRun_append (s t : List Char) (next : Option Char) :
    quietRun (s ++ t) next = (quietRun s (t ++ next.toList).head? && quietRun t next) := by
  induction s with
  | nil => rfl
  | cons c s ih =>
      cases s with
      | nil =>
          cases t with
          | nil => cases next <;> simp [quietRun]
          | cons d t => rfl
      | cons d s =>
          have htail : quietRun (c :: d :: s ++ t) next =
              (quiet c (some d) && quietRun (d :: s ++ t) next) := rfl
          rw [htail, ih, ← Bool.and_assoc]
          rfl

theorem nul_notMem_of_quietRun {next : Option Char} (h : quietRun s next = true) : '\x00' ∉ s := by
  have hquiet (c : Char) (d : Option Char) (hc : quiet c d = true) : '\x00' ≠ c := by
    rintro rfl
    cases hc
  induction s with
  | nil => exact List.not_mem_nil
  | cons c s ih =>
      cases s with
      | nil => exact fun hmem => hquiet c next h (List.mem_singleton.mp hmem)
      | cons d s =>
          obtain ⟨hc, hs⟩ := Bool.and_eq_true_iff.mp h
          intro hmem
          rcases List.mem_cons.mp hmem with hmem | hmem
          · exact hquiet c (some d) hc hmem
          · exact ih hs hmem

-- Digits and points need no care.
theorem quietRun_number {s : List Char} (h : ∀ c ∈ s, c.isDigit = true ∨ c = '.')
    (next : Option Char) : quietRun s next = true := by
  have hquiet : ∀ c ∈ s, ∀ next, quiet c next = true := by
    intro c hc next
    rcases h c hc with hdigit | rfl
    · have hne (d : Char) (hd : d.isDigit = false) : c ≠ d := by
        rintro rfl
        rw [hdigit] at hd
        cases hd
      simp [quiet, hne]
    · cases next <;> simp [quiet]
  clear h
  induction s with
  | nil => rfl
  | cons c s ih =>
      have hs := ih fun d hd => hquiet d (List.mem_cons_of_mem c hd)
      cases s with
      | nil => exact hquiet c List.mem_cons_self next
      | cons d s => exact Bool.and_eq_true_iff.mpr ⟨hquiet c List.mem_cons_self _, hs⟩

theorem step_quiet {next : Option Char} (h : quiet c next = true) (w : Gap) :
    step w c next = some ([.char c], .plain (w.after c)) := by
  simp only [quiet, Bool.and_eq_true, Bool.not_eq_true', decide_eq_true_eq, List.mem_cons,
    List.not_mem_nil, or_false, not_or, Bool.and_eq_false_iff, decide_eq_false_iff_not] at h
  obtain ⟨⟨⟨⟨⟨hnul, hquote, hname, hdollar, hopen, hclose, hcomma⟩, hprefix⟩, hamp⟩, hdash⟩,
    hslash⟩ := h
  have hread : unread w c next = false := by
    simp only [unread, hnul, hquote, hname, hdollar, decide_false, Bool.false_and, Bool.false_or,
      Bool.or_eq_false_iff, Bool.and_eq_false_iff, decide_eq_false_iff_not, List.mem_cons,
      List.not_mem_nil, or_false, not_or]
    grind
  have hbits : (w ≠ .word && next = some '\'' && c ∈ ['b', 'B']) = false := by
    simp only [Bool.and_eq_false_iff, decide_eq_false_iff_not, List.mem_cons, List.not_mem_nil,
      or_false, not_or]
    grind
  simp only [step, hread, hquote, hbits, hopen, hclose, hcomma, Bool.false_eq_true, if_false]

theorem scan_run (h : quietRun s rest.head? = true) (w : Gap) :
    scan (.plain w) (s ++ rest) =
      (scan (.plain (s.foldl Gap.after w)) rest).map (s.map .char ++ ·) := by
  induction s generalizing w with
  | nil => simp
  | cons c s ih =>
      have hboth : quiet c (s ++ rest).head? = true ∧ quietRun s rest.head? = true := by
        cases s with
        | nil => exact ⟨h, rfl⟩
        | cons d s => exact Bool.and_eq_true_iff.mp h
      rw [List.cons_append, scan, step_quiet hboth.1, Option.bind_some]
      dsimp only
      rw [ih hboth.2, Option.map_map]
      rfl

theorem scan_run_cons {next : Char} (h : quietRun s (some next) = true) (w : Gap) :
    scan (.plain w) (s ++ next :: rest) =
      (scan (.plain (s.foldl Gap.after w)) (next :: rest)).map (s.map .char ++ ·) :=
  scan_run h w

theorem scan_openParen : scan (.plain w) ('(' :: rest) =
    (scan (.plain .between) rest).map (.openParen :: ·) := by
  cases w <;> simp [scan, step, unread]

theorem scan_closeParen : scan (.plain w) (')' :: rest) =
    (scan (.plain .between) rest).map (.closeParen :: ·) := by
  cases w <;> simp [scan, step, unread]

theorem scan_comma : scan (.plain w) (',' :: rest) =
    (scan (.plain .between) rest).map (.comma :: ·) := by
  cases w <;> simp [scan, step, unread]

end Words

section Fields

variable {f ts : List Token}

-- The depth of the parentheses behind some tokens that have no comma outside of them.
def depth : ℕ → List Token → Option ℕ
  | d, [] => some d
  | d, .openParen :: ts => depth (d + 1) ts
  | 0, .closeParen :: _ => none
  | d + 1, .closeParen :: ts => depth d ts
  | 0, .comma :: _ => none
  | d, _ :: ts => depth d ts

theorem depth_word (d : ℕ) (s : List Char) : depth d (s.map .char) = some d := by
  induction s with
  | nil => rfl
  | cons c s ih =>
      rw [List.map_cons, depth, ih]
      all_goals simp

theorem foldr_consHead (s f : List Token) (fields : List (List Token)) :
    s.foldr consHead (f :: fields) = (s ++ f) :: fields := by
  induction s with
  | nil => rfl
  | cons t s ih => rw [List.foldr_cons, ih]; rfl

-- Such tokens go to the field that they stand in.
theorem splitFields_append {d d' : ℕ} (h : depth d f = some d') :
    splitFields d (f ++ ts) = (splitFields d' ts).map fun fields => f.foldr consHead fields := by
  fun_induction depth d f with
  | case1 d =>
      obtain rfl : d = d' := Option.some.inj h
      simp
  | case2 d f ih =>
      rw [List.cons_append, splitFields, ih h, Option.map_map]
      rfl
  | case3 f => cases h
  | case4 d f ih =>
      rw [List.cons_append, splitFields, ih h, Option.map_map]
      rfl
  | case5 f => cases h
  | case6 d t f hopen hclose hclose' hcomma ih =>
      rw [List.cons_append, splitFields, ih h, Option.map_map]
      · rfl
      · exact hopen
      · exact hclose
      · exact hclose'
      · exact hcomma

theorem splitFields_field (h : depth 0 f = some 0) :
    splitFields 0 (f ++ .comma :: ts) = (splitFields 0 ts).map (f :: ·) := by
  rw [splitFields_append h, splitFields, Option.map_map]
  congr 1
  funext fields
  exact (foldr_consHead f [] fields).trans (by rw [List.append_nil])

theorem splitFields_last (h : depth 0 f = some 0) : splitFields 0 f = some [f] := by
  have hsplit : splitFields 0 (f ++ []) =
      (splitFields 0 []).map fun fields => f.foldr consHead fields :=
    splitFields_append h
  rw [List.append_nil, splitFields, Option.map_some, foldr_consHead, List.append_nil] at hsplit
  exact hsplit

end Fields

end JsonScada.Library.Sql
