import JsonScada.Processor.Tuples

-- The rows read as the texts that they were built from, unless a zero character is among these.
namespace JsonScada.Processor

open JsonScada.Library
open JsonScada.Library.Sql

section Reading

variable {otherToJSON : List UInt8 → String} {now : Int} {tag : String} {doc : Document}
  {w : Gap} {rest : List Char}

theorem scan_time (hw : w ≠ .behind) (ms : Int) (hrest : rest.head? ≠ some '\'') :
    scan (.plain w) ('\'' :: ((jsISODate ms).toList ++ '\'' :: rest)) =
      (scan (.plain .behind) rest).map (.text (jsISODate ms).toList :: ·) := by
  have hquote : '\'' ∉ (jsISODate ms).toList := fun h => (jsISODate_free ms h).1 rfl
  have hnul : '\x00' ∉ (jsISODate ms).toList := fun h => (jsISODate_free ms h).2 rfl
  exact scan_verbatim hw hquote hnul hrest

-- The beginning that all rows have.
theorem scan_row (htag : '\x00' ∉ tag.toList) (ms : Int) :
    scan (.plain .between) ('\'' :: (doubleQuotes tag.toList ++ '\'' :: ',' :: '\'' ::
      ((jsISODate ms).toList ++ '\'' :: ',' :: rest))) =
      (scan (.plain .between) rest).map
        ([.text tag.toList, .comma, .text (jsISODate ms).toList, .comma] ++ ·) := by
  rw [scan_literal (by decide) htag (by simp), scan_comma, scan_time (by decide) ms (by simp),
    scan_comma]
  simp only [Option.map_map]
  rfl

theorem readTuple_rowSql (htag : '\x00' ∉ tag.toList)
    (hjson : '\x00' ∉ (bsonDocToJSON otherToJSON doc).toList) :
    readTuple (rowSql otherToJSON now tag doc).toList = some (rowFields otherToJSON now tag doc) := by
  have hlist : (rowSql otherToJSON now tag doc).toList =
      '\'' :: (doubleQuotes tag.toList ++ '\'' :: ',' :: '\'' :: ((jsISODate now).toList ++
        '\'' :: ',' :: '\'' ::
          (doubleQuotes (bsonDocToJSON otherToJSON doc).toList ++ '\'' :: []))) := by
    simp [rowSql, toList_sqlQuote]
  rw [readTuple, hlist, scan_row htag, scan_literal (by decide) hjson (by simp)]
  rfl

theorem readTuple_insertRowSql (htag : '\x00' ∉ tag.toList)
    (hjson : '\x00' ∉ (bsonDocToJSON otherToJSON doc).toList) :
    readTuple (insertRowSql otherToJSON now tag doc).toList =
      some (insertRowFields otherToJSON now tag doc) := by
  have hlist : (insertRowSql otherToJSON now tag doc).toList =
      '\'' :: (doubleQuotes tag.toList ++ '\'' :: ',' :: '\'' :: ((jsISODate now).toList ++
        '\'' :: ',' :: ("to_json".toList ++ '(' :: '\'' ::
          (doubleQuotes (bsonDocToJSON otherToJSON doc).toList ++ '\'' ::
            ("::text".toList ++ ')' :: []))))) := by
    simp [insertRowSql, toList_sqlQuote]
  rw [readTuple, hlist, scan_row htag, scan_run_cons (by decide), scan_openParen,
    scan_literal (by decide) hjson (by simp), scan_run_cons (by decide), scan_closeParen]
  rfl

-- The parts of the JSON column, from left to right.
theorem scan_trimmed {trimmed json : List Char} (htrimmed : '\x00' ∉ trimmed)
    (hquote : '\'' ∉ trimmed) (hjson : '\x00' ∉ json) :
    scan (.plain .behind) ("||trim".toList ++ '(' :: '\'' :: (trimmed ++ '\'' ::
      (" FROM to_json".toList ++ '(' :: '\'' :: (doubleQuotes json ++ '\'' ::
        ("::text".toList ++ ')' :: rest))))) =
      (scan (.plain .between) rest).map (trimmedTokens trimmed json ++ ·) := by
  rw [scan_run_cons (by decide), scan_openParen,
    scan_verbatim (by decide) hquote htrimmed (head_append_ne (by decide)),
    scan_run_cons (by decide), scan_openParen,
    scan_literal (by decide) hjson (head_append_ne (by decide)), scan_run_cons (by decide),
    scan_closeParen]
  simp only [Option.map_map, Function.comp_def, trimmedTokens, word, List.append_assoc,
    List.cons_append, List.nil_append]

theorem scan_path (hrest : rest.head? ≠ some '\'') :
    scan (.plain .between) ("::jsonb #>> ".toList ++ '\'' :: ("\x7b\x7d".toList ++ '\'' :: ')' ::
      ("||".toList ++ '\'' :: (",\"s\":".toList ++ '\'' :: rest)))) =
      (scan (.plain .behind) rest).map (pathTokens ++ ·) := by
  have hclose (s : List Char) : (')' :: s).head? ≠ some '\'' := by
    rw [List.head?_cons]
    decide
  rw [scan_run_cons (by decide), scan_verbatim (by decide) (by decide) (by decide) (hclose _),
    scan_closeParen, scan_run_cons (by decide),
    scan_verbatim (by decide) (by decide) (by decide) hrest]
  simp only [Option.map_map, Function.comp_def, pathTokens, word, List.append_assoc,
    List.cons_append, List.nil_append]

theorem scan_value {value : List Char} (hvalue : '\x00' ∉ value) :
    scan (.plain .behind) ("||to_json".toList ++ '(' :: '\'' :: (doubleQuotes value ++ '\'' ::
      ("::text".toList ++ ')' :: ("||".toList ++ '\'' :: ("\x7d".toList ++ '\'' ::
        ("::text".toList ++ ')' :: ("::jsonb".toList ++ ',' :: rest))))))) =
      (scan (.plain .between) rest).map (valueTokens value ++ .comma :: ·) := by
  rw [scan_run_cons (by decide), scan_openParen,
    scan_literal (by decide) hvalue (head_append_ne (by decide)), scan_run_cons (by decide),
    scan_closeParen, scan_run_cons (by decide),
    scan_verbatim (by decide) (by decide) (by decide) (head_append_ne (by decide)),
    scan_run_cons (by decide), scan_closeParen, scan_run_cons (by decide), scan_comma]
  simp only [Option.map_map, Function.comp_def, valueTokens, word, List.append_assoc,
    List.cons_append, List.nil_append]

theorem scan_jsonField {trimmed json value : List Char} (htrimmed : '\x00' ∉ trimmed)
    (hquote : '\'' ∉ trimmed) (hjson : '\x00' ∉ json) (hvalue : '\x00' ∉ value) :
    scan (.plain w) (jsonSql trimmed json value ++ ',' :: rest) =
      (scan (.plain .between) rest).map (jsonField trimmed json value ++ .comma :: ·) := by
  simp only [jsonSql, List.cons_append, List.append_assoc]
  rw [scan_openParen, scan_verbatim (by decide) (by decide) (by decide) (head_append_ne (by decide)),
    scan_trimmed htrimmed hquote hjson, scan_path (head_append_ne (by decide)), scan_value hvalue]
  simp only [Option.map_map, Function.comp_def, jsonField, List.append_assoc, List.cons_append,
    List.nil_append]

theorem scan_number (x : Double) :
    scan (.plain .between) ((Decimal.ecmaString x).toList ++ ',' :: rest) =
      (scan (.plain .between) rest).map (word (Decimal.ecmaString x) ++ .comma :: ·) := by
  rw [scan_run_cons (quietRun_ecmaString x), scan_comma, Option.map_map]
  rfl

theorem scan_sourceTime (sdu : Document) :
    scan (.plain .between) ((sourceTimeSql sdu).toList ++ ',' :: rest) =
      (scan (.plain .between) rest).map (sourceTimeField sdu ++ .comma :: ·) := by
  have hnull : scan (.plain .between) ("null".toList ++ ',' :: rest) =
      (scan (.plain .between) rest).map (word "null" ++ .comma :: ·) := by
    rw [scan_run_cons (by decide), scan_comma, Option.map_map]
    rfl
  have htime (t : Int) : scan (.plain .between) (("'" ++ jsISODate t ++ "'").toList ++ ',' :: rest) =
      (scan (.plain .between) rest).map ([.text (jsISODate t).toList] ++ .comma :: ·) := by
    have hlist : ("'" ++ jsISODate t ++ "'").toList ++ ',' :: rest =
        '\'' :: ((jsISODate t).toList ++ '\'' :: ',' :: rest) := by
      simp
    rw [hlist, scan_time (by decide) t (by rw [List.head?_cons]; decide), scan_comma, Option.map_map]
    rfl
  unfold sourceTimeSql sourceTimeField
  split
  · exact htime _
  · exact hnull

theorem scan_flags (fd sdu : Document) (invalid : Bool) :
    scan (.plain .between) ('B' :: '\'' :: ((histFlags fd sdu invalid).toList ++ ['\''])) =
      some [.bits (histFlags fd sdu invalid).toList] := by
  have hflags : ∀ c ∈ (histFlags fd sdu invalid).toList, c = '0' ∨ c = '1' := by
    have hbit (s : String) (hs : s = "0" ∨ s = "1" ∨ s = "0000") :
        ∀ c ∈ s.toList, c = '0' ∨ c = '1' := by
      rcases hs with rfl | rfl | rfl <;> simp
    have hite (p : Prop) [Decidable p] : (if p then "1" else "0") = "0" ∨
        (if p then "1" else "0") = "1" ∨ (if p then "1" else "0") = "0000" := by
      by_cases hp : p
      · exact .inr (.inl (if_pos hp))
      · exact .inl (if_neg hp)
    simp only [histFlags, String.toList_append, List.mem_append]
    rintro c ((((h | h) | h) | h) | h)
    · exact hbit _ (hite _) c h
    · refine hbit _ ?_ c h
      split
      · exact .inl rfl
      · exact .inr (.inl rfl)
    · exact hbit _ (hite _) c h
    · exact hbit _ (hite _) c h
    · exact hbit _ (.inr (.inr rfl)) c h
  have hne (d : Char) (h0 : d ≠ '0') (h1 : d ≠ '1') : d ∉ (histFlags fd sdu invalid).toList :=
    fun hd => (hflags d hd).elim h0 h1
  exact scan_bits (by decide) (hne _ (by decide) (by decide))
    (hne _ (by decide) (by decide)) (by decide)

theorem histSql_eq (fd sdu : Document) (t : Int) (c : Converted) :
    histSql fd sdu t c = rowText (sqlQuote (fd.str "tag")) (jsISODate t) (Decimal.ecmaString c.value)
      (jsonColumn (sdu.str "valueJsonAtSource")).1 (jsonColumn (sdu.str "valueJsonAtSource")).2
      (if c.valueString ≠ "" then sqlQuote c.valueString else "") (sourceTimeSql sdu)
      (histFlags fd sdu c.invalid) :=
  rfl

theorem toList_valueSql (s : String) :
    (if s ≠ "" then sqlQuote s else "").toList = doubleQuotes s.toList := by
  split
  · exact toList_sqlQuote s
  · next h => simp [not_not.mp h, doubleQuotes]

theorem toList_rowText (tag time number trimmed source flags : String) {json value : String}
    {json' value' : List Char} (hjson : json.toList = doubleQuotes json')
    (hvalue : value.toList = doubleQuotes value') :
    (rowText tag time number trimmed json value source flags).toList =
      '\'' :: (tag.toList ++ '\'' :: ',' :: '\'' :: (time.toList ++ '\'' :: ',' :: (number.toList ++
        ',' :: (jsonSql trimmed.toList json' value' ++ ',' :: (source.toList ++
          ',' :: 'B' :: '\'' :: (flags.toList ++ ['\''])))))) := by
  unfold rowText jsonSql
  simp only [String.toList_append, hjson, hvalue, List.append_assoc, List.cons_append]
  rfl

theorem depth_jsonField (trimmed json value : List Char) :
    depth 0 (jsonField trimmed json value) = some 0 :=
  rfl

theorem depth_sourceTimeField (sdu : Document) : depth 0 (sourceTimeField sdu) = some 0 := by
  unfold sourceTimeField
  split <;> rfl

-- What is trimmed off is a double quote, or nothing.
theorem jsonColumn_trimmed (valueJson : String) :
    (jsonColumn valueJson).1 = "" ∨ (jsonColumn valueJson).1 = "\"" := by
  unfold jsonColumn
  generalize (if valueJson ≠ "" then replaceQuote (trim isSpace valueJson.toList)
    else "\"\"".toList) = text
  cases text with
  | nil => exact .inl rfl
  | cons c text =>
      dsimp only
      split
      · exact .inr rfl
      · split <;> exact .inl rfl

theorem readTuple_histSql {fd sdu : Document} {t : Int} {c : Converted}
    (htag : '\x00' ∉ (fd.str "tag").toList)
    (hjson : '\x00' ∉ (sdu.str "valueJsonAtSource").toList)
    (hvalue : '\x00' ∉ c.valueString.toList) :
    readTuple (histSql fd sdu t c).toList = some (histFields fd sdu t c) := by
  have hlist := toList_rowText (sqlQuote (fd.str "tag")) (jsISODate t) (Decimal.ecmaString c.value)
    (jsonColumn (sdu.str "valueJsonAtSource")).1 (sourceTimeSql sdu) (histFlags fd sdu c.invalid)
    (toList_jsonColumn (sdu.str "valueJsonAtSource"))
    (toList_valueSql c.valueString)
  have htrimmed : '\x00' ∉ (jsonColumn (sdu.str "valueJsonAtSource")).1.toList ∧
      '\'' ∉ (jsonColumn (sdu.str "valueJsonAtSource")).1.toList := by
    rcases jsonColumn_trimmed (sdu.str "valueJsonAtSource") with h | h
    · rw [h]
      decide
    · rw [h]
      decide
  have htext : '\x00' ∉ jsonText (sdu.str "valueJsonAtSource") :=
    fun h => hjson ((nul_mem_jsonText_iff _).mp h)
  have hscan : scan (.plain .between) (histSql fd sdu t c).toList =
      some ([.text (fd.str "tag").toList] ++ .comma :: ([.text (jsISODate t).toList] ++ .comma ::
        (word (Decimal.ecmaString c.value) ++ .comma ::
          (jsonField (jsonColumn (sdu.str "valueJsonAtSource")).1.toList
            (jsonText (sdu.str "valueJsonAtSource")) c.valueString.toList ++ .comma ::
          (sourceTimeField sdu ++ .comma :: [.bits (histFlags fd sdu c.invalid).toList]))))) := by
    rw [histSql_eq, hlist, toList_sqlQuote, scan_row htag, scan_number,
      scan_jsonField htrimmed.1 htrimmed.2 htext hvalue, scan_sourceTime, scan_flags]
    rfl
  have hnumber : depth 0 (word (Decimal.ecmaString c.value)) = some 0 := depth_word 0 _
  rw [readTuple, hscan, Option.bind_some, splitFields_field rfl, splitFields_field rfl,
    splitFields_field hnumber, splitFields_field (depth_jsonField _ _ _),
    splitFields_field (depth_sourceTimeField sdu), splitFields_last rfl]
  rfl

end Reading

section Rows

variable (otherToJSON : List UInt8 → String) (pl : Platform) (now : Int) (active : Bool) (count : Nat)
  (ev : ChangeEvent)

-- A text without a zero character.
def Free (s : String) : Prop := '\x00' ∉ s.toList

-- The row of the realtime table: the document of a new point is wrapped.
def rtSql (tag : String) (doc : Document) : String :=
  if ev.operationType = "insert" then insertRowSql otherToJSON now tag doc
  else rowSql otherToJSON now tag doc

def rtFields (tag : String) (doc : Document) : List (List Token) :=
  if ev.operationType = "insert" then insertRowFields otherToJSON now tag doc
  else rowFields otherToJSON now tag doc

-- The row of an effect reads as the fields that it was built from.
def RowReads : Effect → Prop
  | .sqlRt tag doc =>
      readTuple (rtSql otherToJSON now ev tag doc).toList = some (rtFields otherToJSON now ev tag doc)
  | .hist entry =>
      ∃ fd sdu, sourceUpdate ev = some (fd, sdu) ∧
        readTuple entry.sql.toList =
          some (histFields fd sdu ((sdu.timeOf "timeTag").getD zeroTime) (convert pl now fd sdu))
  | _ => True

-- The texts of the row have no zero character.
def RowFree : Effect → Prop
  | .sqlRt tag doc => Free tag ∧ Free (bsonDocToJSON otherToJSON doc)
  | .hist _ =>
      ∃ fd sdu, sourceUpdate ev = some (fd, sdu) ∧ Free (fd.str "tag") ∧
        Free (sdu.str "valueJsonAtSource") ∧ Free (convert pl now fd sdu).valueString
  | _ => True

variable {otherToJSON now}

theorem free_of_ne_none {s : String} (h : readTuple s.toList = none → False) : Free s := by
  intro hnul
  refine h ?_
  rw [readTuple, scan_of_nul hnul, Option.bind_none]

-- A row that is read has no zero character in the texts that it quotes.
theorem free_of_readTuple {sql tag json : String} {row} (hread : readTuple sql.toList = some row)
    (hquotes : '\x00' ∈ tag.toList ∨ '\x00' ∈ json.toList → '\x00' ∈ sql.toList) :
    Free tag ∧ Free json := by
  have hfree : Free sql := free_of_ne_none fun hnone => by rw [hnone] at hread; cases hread
  exact ⟨fun h => hfree (hquotes (.inl h)), fun h => hfree (hquotes (.inr h))⟩

theorem readTuple_rowSql_iff {tag : String} {doc : Document} :
    readTuple (rowSql otherToJSON now tag doc).toList = some (rowFields otherToJSON now tag doc) ↔
      Free tag ∧ Free (bsonDocToJSON otherToJSON doc) := by
  constructor
  · intro hread
    apply free_of_readTuple hread
    rintro (h | h) <;> simp only [rowSql, String.toList_append, List.mem_append, toList_sqlQuote,
      nul_mem_doubleQuotes_iff, h, true_or, or_true]
  · exact fun hfree => readTuple_rowSql hfree.1 hfree.2

theorem readTuple_insertRowSql_iff {tag : String} {doc : Document} :
    readTuple (insertRowSql otherToJSON now tag doc).toList =
        some (insertRowFields otherToJSON now tag doc) ↔
      Free tag ∧ Free (bsonDocToJSON otherToJSON doc) := by
  constructor
  · intro hread
    apply free_of_readTuple hread
    rintro (h | h) <;> simp only [insertRowSql, String.toList_append, List.mem_append,
      toList_sqlQuote, nul_mem_doubleQuotes_iff, h, true_or, or_true]
  · exact fun hfree => readTuple_insertRowSql hfree.1 hfree.2

theorem free_of_free_histSql {fd sdu : Document} {t : Int} {c : Converted}
    (hfree : Free (histSql fd sdu t c)) :
    Free (fd.str "tag") ∧ Free (sdu.str "valueJsonAtSource") ∧ Free c.valueString := by
  have hmem (hs : '\x00' ∈ (sqlQuote (fd.str "tag")).toList ∨
      '\x00' ∈ (jsonColumn (sdu.str "valueJsonAtSource")).2.toList ∨
      '\x00' ∈ (if c.valueString ≠ "" then sqlQuote c.valueString else "").toList) :
      '\x00' ∈ (histSql fd sdu t c).toList := by
    rw [histSql_eq]
    unfold rowText
    rcases hs with hs | hs | hs <;>
      simp only [String.toList_append, List.mem_append, hs, true_or, or_true]
  simp only [toList_sqlQuote, toList_jsonColumn, toList_valueSql, nul_mem_doubleQuotes_iff,
    nul_mem_jsonText_iff] at hmem
  exact ⟨fun h => hfree (hmem (.inl h)), fun h => hfree (hmem (.inr (.inl h))),
    fun h => hfree (hmem (.inr (.inr h)))⟩

theorem readTuple_histSql_iff {fd sdu : Document} {t : Int} {c : Converted} :
    readTuple (histSql fd sdu t c).toList = some (histFields fd sdu t c) ↔
      Free (fd.str "tag") ∧ Free (sdu.str "valueJsonAtSource") ∧ Free c.valueString := by
  constructor
  · intro hread
    have hfree : Free (histSql fd sdu t c) :=
      free_of_ne_none fun hnone => by rw [hnone] at hread; cases hread
    exact free_of_free_histSql hfree
  · exact fun hfree => readTuple_histSql hfree.1 hfree.2.1 hfree.2.2

theorem rowReads_iff {e : Effect} (h : e ∈ (handleChange pl now active count ev).1) :
    RowReads otherToJSON pl now ev e ↔ RowFree otherToJSON pl now ev e := by
  cases e with
  | rt u => exact Iff.rfl
  | soe entry => exact Iff.rfl
  | sqlRt tag doc =>
      simp only [RowReads, RowFree, rtSql, rtFields]
      split
      · exact readTuple_insertRowSql_iff
      · exact readTuple_rowSql_iff
  | hist entry =>
      rcases mem_handleChange pl now count h with ⟨_, _, hrow⟩ | ⟨fd, sdu, hev, hmem⟩
      · cases hrow
      · obtain ⟨-, -, rfl⟩ := (hist_mem_processUpdate_iff pl now count fd sdu).mp hmem
        simp only [RowReads, RowFree, hev, Option.some.injEq, Prod.mk.injEq]
        constructor
        · rintro ⟨_, _, ⟨rfl, rfl⟩, hread⟩
          exact ⟨fd, sdu, ⟨rfl, rfl⟩, readTuple_histSql_iff.mp hread⟩
        · rintro ⟨_, _, ⟨rfl, rfl⟩, hfree⟩
          exact ⟨fd, sdu, ⟨rfl, rfl⟩, readTuple_histSql_iff.mpr hfree⟩

theorem rows_read_iff (otherToJSON : List UInt8 → String) (pl : Platform) (now : Int) (active : Bool)
    (count : Nat) (ev : ChangeEvent) :
    (∀ e ∈ (handleChange pl now active count ev).1, RowReads otherToJSON pl now ev e) ↔
      ∀ e ∈ (handleChange pl now active count ev).1, RowFree otherToJSON pl now ev e :=
  forall₂_congr fun _ => rowReads_iff pl active count ev

end Rows

section Json

variable {otherToJSON : List UInt8 → String}

theorem free_append {s t : String} : Free (s ++ t) ↔ Free s ∧ Free t := by
  rw [Free, String.toList_append, List.mem_append, not_or]
  exact Iff.rfl

theorem nul_notMem_jsonEscape (c : Char) : '\x00' ∉ jsonEscape c := by
  have hdigit (n : ℕ) : '\x00' ≠ Nat.digitChar n := (Nat.digitChar_ne '\x00' rfl).symm
  by_cases hnul : '\x00' = c
  · subst hnul
    decide
  · unfold jsonEscape
    dsimp only
    iterate 7 split <;> [decide; skip]
    split
    · simp only [List.mem_cons, hdigit, Char.reduceEq, or_false, List.not_mem_nil, not_false_eq_true]
    · exact fun h => hnul (List.mem_singleton.mp h)

theorem free_jsJSONString (s : String) : Free (jsJSONString s) := by
  intro h
  rw [jsJSONString, String.toList_ofList] at h
  simp [nul_notMem_jsonEscape] at h

theorem free_jsJSONNumber (x : Double) : Free (jsJSONNumber x) := by
  cases x with
  | fin q => exact nul_notMem_of_quietRun (quietRun_ecmaString (.fin q))
  | nan => exact (by decide : '\x00' ∉ "null".toList)
  | inf negative => exact (by decide : '\x00' ∉ "null".toList)

mutual

theorem free_bsonValueToJSON (hother : ∀ bytes, Free (otherToJSON bytes)) :
    ∀ v, Free (bsonValueToJSON otherToJSON v)
  | .null => (by decide : '\x00' ∉ "null".toList)
  | .bool true => (by decide : '\x00' ∉ "true".toList)
  | .bool false => (by decide : '\x00' ∉ "false".toList)
  | .number x => free_jsJSONNumber x
  | .string s => free_jsJSONString s
  | .dateTime ms => free_jsJSONString (jsISODate ms)
  | .document fields => by
      rw [bsonValueToJSON, free_append, free_append]
      exact ⟨⟨(by decide : '\x00' ∉ "\x7b".toList), free_fieldsToJSON hother fields⟩,
        (by decide : '\x00' ∉ "\x7d".toList)⟩
  | .array items => by
      rw [bsonValueToJSON, free_append, free_append]
      exact ⟨⟨(by decide : '\x00' ∉ "[".toList), free_itemsToJSON hother items⟩,
        (by decide : '\x00' ∉ "]".toList)⟩
  | .other bytes => hother bytes

theorem free_fieldsToJSON (hother : ∀ bytes, Free (otherToJSON bytes)) :
    ∀ fields, Free (fieldsToJSON otherToJSON fields)
  | [] => (by decide : '\x00' ∉ "".toList)
  | [(key, v)] => by
      rw [fieldsToJSON, free_append, free_append]
      exact ⟨⟨free_jsJSONString key, (by decide : '\x00' ∉ ":".toList)⟩,
        free_bsonValueToJSON hother v⟩
  | (key, v) :: f :: fields => by
      rw [fieldsToJSON, free_append, free_append, free_append, free_append]
      · exact ⟨⟨⟨⟨free_jsJSONString key, (by decide : '\x00' ∉ ":".toList)⟩,
          free_bsonValueToJSON hother v⟩, (by decide : '\x00' ∉ ",".toList)⟩,
          free_fieldsToJSON hother (f :: fields)⟩
      · simp

theorem free_itemsToJSON (hother : ∀ bytes, Free (otherToJSON bytes)) :
    ∀ items, Free (itemsToJSON otherToJSON items)
  | [] => (by decide : '\x00' ∉ "".toList)
  | [v] => free_bsonValueToJSON hother v
  | v :: w :: items => by
      rw [itemsToJSON, free_append, free_append]
      · exact ⟨⟨free_bsonValueToJSON hother v, (by decide : '\x00' ∉ ",".toList)⟩,
          free_itemsToJSON hother (w :: items)⟩
      · simp

end

-- The texts of documents have no zero character.
theorem free_bsonDocToJSON (hother : ∀ bytes, Free (otherToJSON bytes)) (doc : Document) :
    Free (bsonDocToJSON otherToJSON doc) := by
  rw [bsonDocToJSON, free_append, free_append]
  exact ⟨⟨(by decide : '\x00' ∉ "\x7b".toList), free_fieldsToJSON hother doc⟩,
    (by decide : '\x00' ∉ "\x7d".toList)⟩

end Json

section Samples

-- A device that ends its text with a zero character.
def textPoint : Document :=
  [("_id", .number (.fin 9)), ("tag", .string "PLC1.STATUS"), ("type", .string "string"),
    ("value", .number (.fin 0)), ("valueString", .string "IDLE"), ("invalid", .bool false),
    ("timeTag", .dateTime 0), ("alarmDisabled", .bool false)]

def terminatedUpdate : Document :=
  [("valueAtSource", .number (.fin 0)), ("valueStringAtSource", .string "READY\x00"),
    ("timeTag", .dateTime 0)]

def terminatedText : ChangeEvent :=
  { operationType := "update"
    fullDocument := some textPoint
    updatedFields := some [("sourceDataUpdate", .document terminatedUpdate)] }

theorem terminatedText_not_read :
    ¬∀ e ∈ (handleChange exactPlatform 0 true 0 terminatedText).1,
      RowReads (fun _ => "null") exactPlatform 0 terminatedText e := by
  intro hread
  have hmem : .hist (histEntry textPoint terminatedUpdate
      (convert exactPlatform 0 textPoint terminatedUpdate)) ∈
        (handleChange exactPlatform 0 true 0 terminatedText).1 :=
    (hist_mem_processUpdate_iff exactPlatform 0 0 textPoint terminatedUpdate).mpr
      ⟨by decide, by decide, rfl⟩
  obtain ⟨_, _, hev, htuple⟩ := hread _ hmem
  cases hev
  exact absurd (readTuple_histSql_iff.mp htuple).2.2 (by unfold Free; decide)

end Samples

end JsonScada.Processor
