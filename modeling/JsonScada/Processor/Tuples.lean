import JsonScada.Library.Sql
import JsonScada.Processor.HandleChange.Lemmas
import JsonScada.Processor.Json

-- The rows for PostgreSQL, and what the server reads of them.
namespace JsonScada.Processor

open JsonScada.Library
open JsonScada.Library.Sql

section Rows

variable (otherToJSON : List UInt8 → String) (now : Int)

-- The row of the realtime table for an update, and for a new point.
def rowSql (tag : String) (doc : Document) : String :=
  "'" ++ sqlQuote tag ++ "'," ++ "'" ++ jsISODate now ++ "'," ++ "'" ++
    sqlQuote (bsonDocToJSON otherToJSON doc) ++ "'"

def insertRowSql (tag : String) (doc : Document) : String :=
  "'" ++ sqlQuote tag ++ "'," ++ "'" ++ jsISODate now ++ "'," ++ "to_json('" ++
    sqlQuote (bsonDocToJSON otherToJSON doc) ++ "'::text)"

end Rows

section Fields

def word (s : String) : List Token := s.toList.map .char

variable (otherToJSON : List UInt8 → String) (now : Int)

def rowFields (tag : String) (doc : Document) : List (List Token) :=
  [[.text tag.toList], [.text (jsISODate now).toList],
    [.text (bsonDocToJSON otherToJSON doc).toList]]

def insertRowFields (tag : String) (doc : Document) : List (List Token) :=
  [[.text tag.toList], [.text (jsISODate now).toList],
    word "to_json" ++ [.openParen, .text (bsonDocToJSON otherToJSON doc).toList] ++ word "::text" ++
      [.closeParen]]

-- The JSON text of a sample: trimmed, and in quotes when it is neither JSON nor a number.
def jsonText (valueJson : String) : List Char :=
  if valueJson = "" then ['"', '"']
  else
    match trim isSpace valueJson.toList with
    | [] => []
    | c :: t =>
        if c = '\x7b' ∨ c = '[' then c :: t
        else if jsIsNaNString (replaceQuote (c :: t)) && c ≠ '"' then '"' :: c :: t ++ ['"']
        else c :: t

-- The expression that builds the JSON column: the value as text, the path that unquotes it,
-- and the string of the value.
def trimmedTokens (trimmed json : List Char) : List Token :=
  word "||trim" ++ [.openParen, .text trimmed] ++ word " FROM to_json" ++ [.openParen, .text json] ++
    word "::text" ++ [.closeParen]

def pathTokens : List Token :=
  word "::jsonb #>> " ++ [.text "\x7b\x7d".toList, .closeParen] ++ word "||" ++
    [.text ",\"s\":".toList]

def valueTokens (value : List Char) : List Token :=
  word "||to_json" ++ [.openParen, .text value] ++ word "::text" ++ [.closeParen] ++ word "||" ++
    [.text "\x7d".toList] ++ word "::text" ++ [.closeParen] ++ word "::jsonb"

def jsonField (trimmed json value : List Char) : List Token :=
  [.openParen, .text "\x7b\"v\":".toList] ++ trimmedTokens trimmed json ++ pathTokens ++
    valueTokens value

def sourceTimeField (sdu : Document) : List Token :=
  match sourceTime sdu with
  | some (.dateTime t, _) => [.text (jsISODate t).toList]
  | _ => word "null"

def histFields (fd sdu : Document) (sourceTimeTag : Int) (c : Converted) : List (List Token) :=
  [[.text (fd.str "tag").toList], [.text (jsISODate sourceTimeTag).toList],
    word (Decimal.ecmaString c.value),
    jsonField (jsonColumn (sdu.str "valueJsonAtSource")).1.toList
      (jsonText (sdu.str "valueJsonAtSource")) c.valueString.toList,
    sourceTimeField sdu, [.bits (histFlags fd sdu c.invalid).toList]]

end Fields

section Parts

-- The text of the JSON column, from its parenthesis on.
def jsonSql (trimmed json value : List Char) : List Char :=
  '(' :: '\'' :: ("\x7b\"v\":".toList ++ '\'' :: ("||trim".toList ++ '(' :: '\'' ::
    (trimmed ++ '\'' :: (" FROM to_json".toList ++ '(' :: '\'' :: (doubleQuotes json ++ '\'' ::
    ("::text".toList ++ ')' :: ("::jsonb #>> ".toList ++ '\'' :: ("\x7b\x7d".toList ++ '\'' :: ')' ::
    ("||".toList ++ '\'' :: (",\"s\":".toList ++ '\'' :: ("||to_json".toList ++ '(' :: '\'' ::
    (doubleQuotes value ++ '\'' :: ("::text".toList ++ ')' :: ("||".toList ++ '\'' ::
    ("\x7d".toList ++ '\'' :: ("::text".toList ++ ')' :: "::jsonb".toList))))))))))))))))

-- The text of the source time, quoted or null.
def sourceTimeSql (sdu : Document) : String :=
  match sourceTime sdu with
  | some (.dateTime t, _) => "'" ++ jsISODate t ++ "'"
  | _ => "null"

-- The texts of the row between the commas.
def rowText (tag time number trimmed json value source flags : String) : String :=
  "'" ++ tag ++ "'," ++ "'" ++ time ++ "'," ++ number ++ ",('\x7b\"v\":'||trim('" ++ trimmed ++
    "' FROM to_json('" ++ json ++ "'::text)::jsonb #>> '\x7b\x7d')||',\"s\":'||to_json('" ++ value ++
    "'::text)||'\x7d'::text)::jsonb," ++ source ++ ",B'" ++ flags ++ "'"

end Parts

section Texts

theorem replaceQuote_eq (s : List Char) : replaceQuote s = doubleQuotes s := by
  induction s with
  | nil => rfl
  | cons c s ih =>
      by_cases h : c = '\''
      · subst h
        rw [replaceQuote, doubleQuotes, if_pos rfl, ih]
      · rw [replaceQuote, doubleQuotes, if_neg h, ih]
        exact fun hc => h hc

theorem nul_mem_doubleQuotes_iff {s : List Char} : '\x00' ∈ doubleQuotes s ↔ '\x00' ∈ s := by
  induction s with
  | nil => rfl
  | cons c s ih =>
      rw [doubleQuotes, List.mem_cons, ← ih]
      split
      · next hc => simp [hc]
      · exact List.mem_cons

theorem toList_sqlQuote (s : String) : (sqlQuote s).toList = doubleQuotes s.toList := by
  rw [sqlQuote, String.toList_ofList, replaceQuote_eq]

theorem mem_dropWhile_iff {α : Type} {p : α → Bool} {a : α} (h : p a = false) {s : List α} :
    a ∈ s.dropWhile p ↔ a ∈ s := by
  induction s with
  | nil => rfl
  | cons b s ih =>
      by_cases hb : p b = true
      · have hne : a ≠ b := by
          rintro rfl
          rw [h] at hb
          cases hb
        rw [List.dropWhile_cons_of_pos hb, ih, List.mem_cons]
        exact (or_iff_right hne).symm
      · rw [List.dropWhile_cons_of_neg hb]

theorem mem_trim_iff {space : Char → Bool} {c : Char} (h : space c = false) {s : List Char} :
    c ∈ trim space s ↔ c ∈ s := by
  rw [trim, List.mem_reverse, mem_dropWhile_iff h, List.mem_reverse, mem_dropWhile_iff h]

theorem nul_mem_jsonText_iff (valueJson : String) :
    '\x00' ∈ jsonText valueJson ↔ '\x00' ∈ valueJson.toList := by
  have htrim : '\x00' ∈ trim isSpace valueJson.toList ↔ '\x00' ∈ valueJson.toList :=
    mem_trim_iff (by decide)
  unfold jsonText
  by_cases hempty : valueJson = ""
  · subst hempty
    decide
  · rw [if_neg hempty, ← htrim]
    cases trim isSpace valueJson.toList with
    | nil => rfl
    | cons c t =>
        dsimp only
        split
        · rfl
        · split
          · simp
          · rfl

theorem toList_jsonColumn (valueJson : String) :
    (jsonColumn valueJson).2.toList = doubleQuotes (jsonText valueJson) := by
  by_cases hempty : valueJson = ""
  · subst hempty
    simp [jsonColumn, jsonText, doubleQuotes]
  · simp only [jsonColumn, jsonText, ne_eq, hempty, not_false_eq_true, if_true, if_false]
    cases trim isSpace valueJson.toList with
    | nil => rfl
    | cons c t =>
        -- the first character is not changed by the quoting
        obtain ⟨rest, hrest⟩ : ∃ rest, replaceQuote (c :: t) = c :: rest := by
          rw [replaceQuote_eq, doubleQuotes]
          split
          · next hc => exact ⟨_, by rw [hc]⟩
          · exact ⟨_, rfl⟩
        have hvj : doubleQuotes (c :: t) = c :: rest := (replaceQuote_eq _).symm.trans hrest
        dsimp only
        rw [hrest]
        dsimp only
        split
        · rw [hvj, String.toList_ofList]
        · split
          · have hquotes : doubleQuotes ('"' :: c :: t ++ ['"']) =
                '"' :: (doubleQuotes (c :: t) ++ ['"']) := by
              rw [doubleQuotes_append, doubleQuotes, if_neg (by decide)]
              rfl
            rw [hquotes, hvj]
            simp
          · rw [hvj, String.toList_ofList]

-- The characters of a time need no care.
theorem jsISODate_free (ms : Int) {c : Char} (h : c ∈ (jsISODate ms).toList) :
    c ≠ '\'' ∧ c ≠ '\x00' := by
  have hdigit {width n : ℕ} (hc : c ∈ Calendar.padded width n) : c ≠ '\'' ∧ c ≠ '\x00' := by
    have hd := Calendar.isDigit_padded hc
    constructor
    · rintro rfl
      cases hd
    · rintro rfl
      cases hd
  simp only [jsISODate, Calendar.isoDate, String.toList_ofList, List.append_assoc, List.mem_append,
    List.mem_cons, List.cons_append, List.not_mem_nil, or_false] at h
  rcases h with h | h | rfl | h | rfl | h | rfl | h | rfl | h | rfl | h | rfl | h | rfl
  · split at h
    · rw [List.mem_singleton] at h
      subst h
      decide
    · cases h
  all_goals first | exact hdigit h | decide

section Numbers

-- A digit of a number, or its point.
def isPart (c : Char) : Prop := c.isDigit = true ∨ c = '.'

theorem isPart_digits {n : ℕ} {c : Char} (h : c ∈ Nat.toDigits 10 n) : isPart c :=
  .inl (Nat.isDigit_of_mem_toDigits (by decide) (by decide) h)

theorem isPart_zeros {n : ℕ} {c : Char} (h : c ∈ List.replicate n '0') : isPart c := by
  rw [List.eq_of_mem_replicate h]
  exact .inl rfl

theorem head_ne_minus {s rest : List Char} (h : ∀ c ∈ s, isPart c) (hrest : rest.head? ≠ some '-') :
    (s ++ rest).head? ≠ some '-' := by
  cases s with
  | nil => exact hrest
  | cons c s =>
      intro heq
      obtain rfl : c = '-' := Option.some.inj heq
      rcases h '-' List.mem_cons_self with hdigit | hpoint
      · cases hdigit
      · cases hpoint

-- The text of a number without its sign, before a comma.
def Unsigned (text : List Char) : Prop :=
  quietRun text (some ',') = true ∧ (text ++ [',']).head? ≠ some '-'

theorem unsigned_of_parts {text : List Char} (h : ∀ c ∈ text, isPart c) : Unsigned text :=
  ⟨quietRun_number h _, head_ne_minus h (by decide)⟩

-- A mantissa, and an exponent with its sign.
theorem unsigned_scientific {mant : List Char} (h : ∀ c ∈ mant, isPart c) (s : Char) (n : ℕ)
    (hs : s = '-' ∨ s = '+') : Unsigned (mant ++ ['e', s] ++ Nat.toDigits 10 n) := by
  obtain ⟨hexp, hhead⟩ := unsigned_of_parts (fun c (hc : c ∈ Nat.toDigits 10 n) => isPart_digits hc)
  constructor
  · rw [List.append_assoc, quietRun_append, quietRun_append, hexp, quietRun_number h]
    have hsign : quietRun ['e', s] (Nat.toDigits 10 n ++ [',']).head? = true := by
      rcases hs with rfl | rfl
      · simpa [quietRun, quiet] using hhead
      · simp [quietRun, quiet]
    simpa using hsign
  · rw [List.append_assoc, List.append_assoc]
    exact head_ne_minus h (by simp)

theorem isPart_point {s : List Char} (h : ∀ c ∈ s, isPart c) (n : ℕ) :
    ∀ c ∈ s.take n ++ '.' :: s.drop n, isPart c := by
  intro c hc
  rcases List.mem_append.mp hc with hc | hc
  · exact h c (List.mem_of_mem_take hc)
  · rcases List.mem_cons.mp hc with rfl | hc
    · exact .inr rfl
    · exact h c (List.mem_of_mem_drop hc)

theorem quietRun_ecmaString (x : Double) :
    quietRun (Decimal.ecmaString x).toList (some ',') = true := by
  rcases x with _ | (_ | _) | q
  · decide
  · decide
  · decide
  · by_cases hzero : q = 0
    · subst hzero
      decide
    · have hsign (text : List Char) (h : Unsigned text) :
          quietRun ((if q < 0 then ['-'] else []) ++ text) (some ',') = true := by
        rw [quietRun_append, h.1]
        split
        · simpa [quietRun, quiet] using h.2
        · rfl
      simp only [Decimal.ecmaString, if_neg hzero, String.toList_ofList]
      apply hsign
      have hdigits : ∀ c ∈ (Decimal.shortest |q|).digits, isPart c := fun c hc => isPart_digits hc
      split
      · apply unsigned_of_parts
        intro c hc
        rcases List.mem_append.mp hc with hc | hc
        · exact hdigits c hc
        · exact isPart_zeros hc
      · split
        · exact unsigned_of_parts (isPart_point hdigits _)
        · split
          · apply unsigned_of_parts
            intro c hc
            simp only [List.cons_append, List.mem_cons, List.mem_append] at hc
            rcases hc with rfl | rfl | hc | hc
            · exact .inl rfl
            · exact .inr rfl
            · exact isPart_zeros hc
            · exact hdigits c hc
          · apply unsigned_scientific
            · split
              · exact hdigits
              · exact isPart_point hdigits 1
            · split
              · exact .inl rfl
              · exact .inr rfl

end Numbers

end Texts

end JsonScada.Processor
