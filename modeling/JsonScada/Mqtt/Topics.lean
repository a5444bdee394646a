import JsonScada.Library.Regex
import JsonScada.Mqtt.Values
import JsonScada.Processor.HandleChange

-- Plain MQTT messages: what the driver subscribes to, and what it does with a message that
-- arrives.
namespace JsonScada.Mqtt.Topics

open JsonScada.Library
open JsonScada.Processor (Value truthyValue trim)
open JsonScada.Processor.Node (Runtime isSpace)
open JsonScada.WebServer (strictEq text valueText member optionalMember isIn)

section Model

abbrev Text := List Char

section Subscriptions

-- What is before the first occurrence of a text, and the rest.
def cut (searched : Text) : Text → Option (Text × Text)
  | [] => none
  | c :: cs =>
      if searched.isPrefixOf (c :: cs) then some ([], c :: cs)
      else (cut searched cs).map fun (before, rest) => (c :: before, rest)

structure JsonPathTopic where
  topic : Text
  jsonPath : Text
  deriving DecidableEq

def jsonPathTopic (jpTopic : Text) : JsonPathTopic :=
  let topic := trim isSpace jpTopic
  match cut "/$.".toList topic with
  | some (topic, rest) => { topic := topic, jsonPath := rest.drop 1 }
  | none => { topic := topic, jsonPath := [] }

-- An absent topic or script is as an empty one.
structure ScriptedTopic where
  topic : Text
  script : Text

-- The lists of a connection, an absent one is empty.
structure Connection where
  topics : List Text := []
  topicsAsFiles : List Text := []
  topicsScripted : List ScriptedTopic := []

def subscriptions (jscadaConnection : Connection) : List Text :=
  let topics := jscadaConnection.topics ++ jscadaConnection.topicsAsFiles ++
    (jscadaConnection.topicsScripted.map (·.topic)).filter (· ≠ [])
  (topics.filter fun elem => trim isSpace elem ≠ []).map fun elem => (jsonPathTopic elem).topic

end Subscriptions

section Matching

def isLineTerminator (c : Char) : Bool := c.toNat ∈ [0x0a, 0x0d, 0x2028, 0x2029]

-- `[^/]+` for a +, and otherwise the text of the level.
def levelPattern (level : Text) : Regex Char :=
  if level = ['+'] then .plus (· ≠ '/') else .text level

def joinPatterns : List (Regex Char) → Regex Char
  | [] => .empty
  | [r] => r
  | r :: rs => .seq r (.seq (.text ['/']) (joinPatterns rs))

-- A # is `.*`, with the / before it `(?:/.*)?`, and elsewhere it stands for itself.
def pattern (s : Text) : Regex Char :=
  let levels := s.splitOn '/'
  let anything : Regex Char := .many fun c => !isLineTerminator c
  if levels = [['#']] then anything
  else if levels.getLast? = some ['#'] then
    .seq (joinPatterns (levels.dropLast.map levelPattern)) (.opt (.seq (.text ['/']) anything))
  else joinPatterns (levels.map levelPattern)

def topicMatchSub (t s : Text) : Bool := t = s || (pattern s).test t

end Matching

-- What the handler finds when a message arrives.
structure Env (Payload : Type*) where
  runtime : Runtime
  now : ℤ
  newDate : Value → Value
  -- `mongoClient` is set and `HintMongoIsConnected`
  connected : Bool
  toString : Payload → String
  -- `JSON.parse` and `RJSON.parse` of that text, and `JSON.parse` of the unzipped payload
  jsonParse : String → Option Value
  rjsonParse : String → Option Value
  gunzipParse : Payload → Option Value
  -- `JSONPath` without `wrap`, which may fail, and may find nothing
  jsonPath : Text → Value → Option (Option Value)
  -- `shared.dataArray` after the script of the entry with this number, unless that fails
  vmRun : ℕ → Text → Option (Option Value)

inductive Effect (Payload : Type*) where
  | saveFile (filename : Text) (payload : Payload)
  | runScript (script : Text)
  | enqueue (data : Data)
  deriving DecidableEq

variable {Payload : Type*} (env : Env Payload) (jscadaConnection : Connection) (topic : Text)
  (payload : Payload)

def tryPayloadAsRJson : Value :=
  let payloadStr := env.toString payload
  ((env.jsonParse payloadStr).or ((env.rjsonParse payloadStr).or (env.gunzipParse payload))).getD
    (.string payloadStr)

section Scripts

def scriptValue (element : Value) : Outcome Data :=
  let get := optionalMember (some element)
  let getOr (key : String) (v : Value) := if truthyValue (get key) then get key else some v
  match member (some element) "id" with
  | none => .failed
  | some id =>
      if !truthyValue id then .nothing
      else
        match isIn "value" (some element), get "value" with
        | none, _ => .failed
        | some true, some value =>
            if (value matches .null) && !truthyValue (get "valueString") then .failed
            else .emit (.make (String.ofList topic ++ "/" ++ text id)
              [("value", some value),
                ("valueString", getOr "valueString" (.string (valueText value))),
                ("valueJson", getOr "valueJson" value),
                ("invalid", some (.bool (strictEq (get "qualityOk") (some (.bool false))))),
                ("transient", some (.bool (strictEq (get "transient") (some (.bool true))))),
                ("causeOfTransmissionAtSource",
                  some ((get "causeOfTransmissionAtSource").getD (.string "3"))),
                ("timeTagAtSource", some (if truthyValue (get "timestamp")
                  then ((get "timestamp").map env.newDate).getD .null else .dateTime env.now)),
                ("timeTagAtSourceOk", some (.bool (truthyValue (get "timestamp")))),
                ("asduAtSource", some (.string "scripted")),
                ("type", getOr "type" (.string "analog"))])
        | _, _ => .nothing

def scripted (elem : ScriptedTopic) : Bool :=
  elem.topic ≠ [] && topicMatchSub topic elem.topic

-- What fails in a script or on its values is logged.
def scriptedStep (entry : ScriptedTopic × ℕ) : Outcome (Effect Payload) :=
  let (elem, number) := entry
  if scripted topic elem && elem.script ≠ [] then
    (Outcome.emit (.runScript elem.script)).andThen
      (match env.vmRun number elem.script with
        | some (some (.array dataArray)) =>
            ((Outcome.forEach (scriptValue env topic) dataArray).map .enqueue).caught
        | _ => .nothing)
  else .nothing

end Scripts

section Plain

-- `s.replace(old, replacement)`, where a $ has a meaning in the replacement
def expand (before old after : Text) : Text → Text
  | '$' :: '$' :: rest => '$' :: expand before old after rest
  | '$' :: '&' :: rest => old ++ expand before old after rest
  | '$' :: '\x60' :: rest => before ++ expand before old after rest
  | '$' :: '\x27' :: rest => after ++ expand before old after rest
  | c :: rest => c :: expand before old after rest
  | [] => []

def replace (s old replacement : Text) : Text :=
  match cut old s with
  | none => s
  | some (before, rest) =>
      let after := rest.drop old.length
      before ++ expand before old after replacement ++ after

def enqueue (jsonValue : Option Value) (address : Text) : Outcome (Effect Payload) :=
  .emit (.enqueue (enqueueJsonValue env.runtime env.now jsonValue (String.ofList address)))

def uaData (jsonValue : Value) : Outcome (Effect Payload) :=
  (processOpcUaPubSubMessage env.runtime env.now env.newDate jsonValue
    (String.ofList topic)).map .enqueue

def newTopic (elem : Text) (propName : Value) : Text :=
  replace elem "*~".toList (valueText propName).toList

def explodeStep (jsonValue : Value) (elem : Text) (propName : Value) : Outcome (Effect Payload) :=
  let newTopic := newTopic elem propName
  match env.jsonPath (jsonPathTopic newTopic).jsonPath jsonValue with
  | none => .failed
  | some jpRes => enqueue env jpRes (replaceFirst "$.".toList newTopic)

def pathStep (elem : Text) : Outcome (Effect Payload) :=
  let jsonValue := tryPayloadAsRJson env payload
  let jpt := jsonPathTopic elem
  if (cut "$.".toList elem).isNone then .nothing
  else if jpt.jsonPath ≠ [] && topicMatchSub topic jpt.topic then
    match "*~".toList.isSuffixOf elem, env.jsonPath jpt.jsonPath jsonValue with
    | true, some (some (.array jpPropNames)) =>
        .forEach (explodeStep env jsonValue elem) jpPropNames
    -- what is not an array has no `forEach`
    | true, _ => .failed
    | false, none => .failed
    | false, some jpRes => enqueue env jpRes elem
  else .nothing

-- The topic begins with what is before the # at the end of the entry.
def below (elem : Text) : Bool :=
  ['#'].isSuffixOf elem && elem.dropLast.isPrefixOf topic

def topicsStep (elem : Text) : Outcome (Effect Payload) :=
  let jsonValue := tryPayloadAsRJson env payload
  let whole := enqueue env (some jsonValue) topic
  if elem = [] then .nothing
  else if topic = elem && isUaData jsonValue then uaData env topic jsonValue
  else
    (if topic = elem then whole else .nothing).andThen
      (if below topic elem then
        if isUaData jsonValue then uaData env topic jsonValue
        else whole.andThen (pathStep env topic payload elem)
      else pathStep env topic payload elem)

end Plain

-- The handler of `nonSparkplugMessage`.
def nonSparkplugMessage : Outcome (Effect Payload) :=
  if !env.connected then .nothing
  else
    let files := jscadaConnection.topicsAsFiles.filter (topicMatchSub topic)
    Outcome.andThen { done := files.map fun _ => .saveFile topic payload } <|
      if !files.isEmpty then .nothing
      else
        (Outcome.forEach (scriptedStep env topic) jscadaConnection.topicsScripted.zipIdx).andThen <|
          if jscadaConnection.topicsScripted.any (scripted topic) then .nothing
          else .forEach (topicsStep env topic payload) jscadaConnection.topics

end Model

-- What a filter matches by the rules of MQTT, and what the driver's test of it accepts.
section Matching

-- Levels against those of a filter: a + stands for a level that `one` accepts, a # at the end
-- for levels that `rest` accepts, also for none.
def matchLevels (one rest : Text → Bool) : List Text → List Text → Bool
  | [], ls => ls.isEmpty
  | f :: fs, ls =>
      if f = ['#'] ∧ fs = [] then ls.all rest
      else
        match ls with
        | [] => false
        | l :: ls => (if f = ['+'] then one l else l = f) && matchLevels one rest fs ls

-- The rules of MQTT. A wildcard at the start of a filter matches no topic that begins with $.
def mqttMatches (filter topic : Text) : Bool :=
  !(['$'].isPrefixOf topic && (['+'].isPrefixOf filter || ['#'].isPrefixOf filter)) &&
    matchLevels (fun _ => true) (fun _ => true) (filter.splitOn '/') (topic.splitOn '/')

-- What the driver wants of a level under a + and under a #.
def notEmpty (l : Text) : Bool := l ≠ []

def oneLine (l : Text) : Bool := l.all fun c => !isLineTerminator c

-- The driver's test of an entry.
def accepts (entry topic : Text) : Bool :=
  topic = entry || matchLevels notEmpty oneLine (entry.splitOn '/') (topic.splitOn '/')

section Levels

variable {w f l : Text} {fs ls : List Text} {one rest : Text → Bool}

-- A text is one level, or a level and the text behind a slash.
theorem level_cases (w : Text) : '/' ∉ w ∨ ∃ u v, w = u ++ '/' :: v ∧ '/' ∉ u := by
  by_cases hw : '/' ∈ w
  · obtain ⟨u, v, hw, hu⟩ := List.eq_append_cons_of_mem hw
    exact .inr ⟨u, v, hw, hu⟩
  · exact .inl hw

theorem slash_notMem_of_level (hl : l ∈ w.splitOn '/') : '/' ∉ l := by
  induction hn : w.length using Nat.strong_induction_on generalizing w with
  | _ n ih =>
    rcases level_cases w with hw | ⟨u, v, rfl, hu⟩
    · rw [List.splitOn_eq_singleton hw, List.mem_singleton] at hl
      exact hl ▸ hw
    · rw [List.splitOn_append_cons_self_of_not_mem hu, List.mem_cons] at hl
      cases hl with
      | inl hl => exact hl ▸ hu
      | inr hl => exact ih v.length (by simp at hn; omega) hl rfl

theorem matchLevels_cons (h : ¬(f = ['#'] ∧ fs = [])) :
    matchLevels one rest (f :: fs) ls = true ↔
      ∃ l ls', ls = l :: ls' ∧ (if f = ['+'] then one l else l = f) = true ∧
        matchLevels one rest fs ls' = true := by
  cases ls with
  | nil => simp [matchLevels, h]
  | cons l ls => simp [matchLevels, h]

theorem matchLevels_hash : matchLevels one rest [['#']] ls = ls.all rest := by
  simp [matchLevels]

theorem matchLevels_right_nil (hfs : fs ≠ []) (hhash : fs ≠ [['#']]) :
    matchLevels one rest fs [] = false := by
  cases fs with
  | nil => exact absurd rfl hfs
  | cons f fs =>
    have h : ¬(f = ['#'] ∧ fs = []) := fun h => hhash (by rw [h.1, h.2])
    simp [matchLevels, h]

theorem matchLevels_imp {one' rest' : Text → Bool}
    (hone : ∀ l ∈ ls, one l = true → one' l = true)
    (hrest : ∀ l ∈ ls, rest l = true → rest' l = true)
    (h : matchLevels one rest fs ls = true) : matchLevels one' rest' fs ls = true := by
  induction fs generalizing ls with
  | nil => exact h
  | cons f fs ih =>
    by_cases hlast : f = ['#'] ∧ fs = []
    · obtain ⟨rfl, rfl⟩ := hlast
      rw [matchLevels_hash, List.all_eq_true] at h ⊢
      exact fun l hl => hrest l hl (h l hl)
    · rw [matchLevels_cons hlast] at h ⊢
      obtain ⟨l, ls, rfl, hl, hls⟩ := h
      refine ⟨l, ls, rfl, ?_, ih (fun l hl => hone l (List.mem_cons_of_mem _ hl))
        (fun l hl => hrest l (List.mem_cons_of_mem _ hl)) hls⟩
      split at hl
      next hplus => simpa [hplus] using hone l (List.mem_cons_self ..) hl
      next hplus => simpa [hplus] using hl

theorem matchLevels_self (hone : ∀ l, one l = true) (hrest : ∀ l, rest l = true) :
    matchLevels one rest fs fs = true := by
  induction fs with
  | nil => rfl
  | cons f fs ih => simp [matchLevels, hone, hrest, ih]

-- What has no line terminator, level by level.
theorem all_oneLine : (w.splitOn '/').all oneLine = true ↔ oneLine w = true := by
  induction hn : w.length using Nat.strong_induction_on generalizing w with
  | _ n ih =>
    rcases level_cases w with hw | ⟨u, v, rfl, hu⟩
    · simp [List.splitOn_eq_singleton hw]
    · have hv := ih v.length (by simp at hn; omega) (w := v) rfl
      have hslash : isLineTerminator '/' = false := by decide
      rw [List.splitOn_append_cons_self_of_not_mem hu, List.all_cons, Bool.and_eq_true, hv]
      simp [oneLine, hslash]

end Levels

section Patterns

variable {w f : Text} {fs : List Text} {q : Regex Char}

theorem matches_levelPattern (hf : '/' ∉ f) :
    (levelPattern f).Matches w ↔
      '/' ∉ w ∧ (if f = ['+'] then notEmpty w else w = f) = true := by
  unfold levelPattern
  split
  · rw [Regex.matches_plus]
    simp only [notEmpty, decide_eq_true_eq, and_comm (a := '/' ∉ w)]
    refine and_congr_right fun _ => ⟨fun h hw => h '/' hw rfl, fun h c hc hslash => h (hslash ▸ hc)⟩
  · rw [Regex.matches_text, decide_eq_true_eq]
    constructor
    · rintro rfl
      exact ⟨hf, rfl⟩
    · exact And.right

-- A level, a slash and what `K` says of the text behind it.
theorem level_slash (hf : '/' ∉ f) {K : Text → Prop} {L : List Text → Prop}
    (hKL : ∀ v, K v ↔ L (v.splitOn '/')) :
    (∃ u v, w = u ++ '/' :: v ∧ (levelPattern f).Matches u ∧ K v) ↔
      ∃ l ls, w.splitOn '/' = l :: ls ∧ (if f = ['+'] then notEmpty l else l = f) = true ∧
        ls ≠ [] ∧ L ls := by
  constructor
  · rintro ⟨u, v, rfl, hu, hv⟩
    obtain ⟨hu, hlevel⟩ := (matches_levelPattern hf).mp hu
    exact ⟨u, v.splitOn '/', List.splitOn_append_cons_self_of_not_mem hu v, hlevel,
      List.splitOn_ne_nil _ _, (hKL v).mp hv⟩
  · rintro ⟨l, ls, hsplit, hlevel, hls, hL⟩
    rcases level_cases w with hw | ⟨u, v, rfl, hu⟩
    · rw [List.splitOn_eq_singleton hw] at hsplit
      exact absurd (List.cons.inj hsplit).2.symm hls
    · rw [List.splitOn_append_cons_self_of_not_mem hu] at hsplit
      obtain ⟨rfl, rfl⟩ := List.cons.inj hsplit
      exact ⟨u, v, rfl, (matches_levelPattern hf).mpr ⟨hu, hlevel⟩, (hKL v).mpr hL⟩

theorem matches_join_cons {r r' : Regex Char} {rs : List (Regex Char)} :
    (joinPatterns (r :: r' :: rs)).Matches w ↔
      ∃ u v, w = u ++ '/' :: v ∧ r.Matches u ∧ (joinPatterns (r' :: rs)).Matches v := by
  simp only [joinPatterns, Regex.Matches, Regex.matches_text]
  constructor
  · rintro ⟨u, -, rfl, hu, -, v, rfl, rfl, hv⟩
    exact ⟨u, v, rfl, hu, hv⟩
  · rintro ⟨u, v, rfl, hu, hv⟩
    exact ⟨u, '/' :: v, rfl, hu, ['/'], v, rfl, rfl, hv⟩

theorem matches_join_cons_seq {r r' : Regex Char} {rs : List (Regex Char)} :
    (Regex.seq (joinPatterns (r :: r' :: rs)) q).Matches w ↔
      ∃ u v, w = u ++ '/' :: v ∧ r.Matches u ∧
        (Regex.seq (joinPatterns (r' :: rs)) q).Matches v := by
  simp only [Regex.Matches, matches_join_cons]
  constructor
  · rintro ⟨-, y, rfl, ⟨u, v, rfl, hu, hv⟩, hy⟩
    exact ⟨u, v ++ y, by simp, hu, v, y, rfl, hv, hy⟩
  · rintro ⟨u, -, rfl, hu, v, y, rfl, hv, hy⟩
    exact ⟨u ++ '/' :: v, y, by simp, ⟨u, v, rfl, hu, hv⟩, hy⟩

-- Of a filter that does not end in a #.
theorem matches_join (hfs : fs ≠ []) (hslash : ∀ f ∈ fs, '/' ∉ f)
    (hlast : fs.getLast? ≠ some ['#']) :
    (joinPatterns (fs.map levelPattern)).Matches w ↔
      matchLevels notEmpty oneLine fs (w.splitOn '/') = true := by
  induction fs generalizing w with
  | nil => exact absurd rfl hfs
  | cons f fs ih =>
    cases fs with
    | nil =>
      have hf : ¬(f = ['#'] ∧ ([] : List Text) = []) := by simpa using hlast
      rw [matchLevels_cons hf, List.map_singleton, joinPatterns,
        matches_levelPattern (hslash f (by simp))]
      rcases level_cases w with hw | ⟨u, v, rfl, hu⟩
      · simp [List.splitOn_eq_singleton hw, hw, matchLevels]
      · simp [List.splitOn_append_cons_self_of_not_mem hu, matchLevels]
    | cons g fs =>
      have htail : (g :: fs).getLast? ≠ some ['#'] := by simpa using hlast
      have hnil : matchLevels notEmpty oneLine (g :: fs) [] = false := by
        refine matchLevels_right_nil (by simp) ?_
        intro h
        exact htail (by rw [h]; rfl)
      rw [matchLevels_cons (by simp)]
      refine matches_join_cons.trans ((level_slash (hslash f (by simp))
        (L := fun ls => matchLevels notEmpty oneLine (g :: fs) ls)
        fun v => ih (by simp) (fun f hf => hslash f (List.mem_cons_of_mem _ hf)) htail).trans ?_)
      refine exists_congr fun l => exists_congr fun ls => ?_
      refine and_congr_right fun _ => and_congr_right fun _ => and_iff_right_of_imp ?_
      rintro h rfl
      exact Bool.false_ne_true (hnil.symm.trans h)

-- A level, and a slash with one line of text or nothing.
theorem matches_level_hash (hf : '/' ∉ f) :
    (Regex.seq (levelPattern f)
        (.opt (.seq (.text ['/']) (.many fun c => !isLineTerminator c)))).Matches w ↔
      ∃ l ls, w.splitOn '/' = l :: ls ∧ (if f = ['+'] then notEmpty l else l = f) = true ∧
        ls.all oneLine = true := by
  constructor
  · rintro ⟨u, y, rfl, hu, hy⟩
    obtain ⟨hu, hlevel⟩ := (matches_levelPattern hf).mp hu
    rcases hy with ⟨a, v, rfl, ha, hv⟩ | rfl
    · rw [Regex.matches_text] at ha
      subst ha
      have hline : oneLine v = true := List.all_eq_true.mpr hv
      exact ⟨u, v.splitOn '/', List.splitOn_append_cons_self_of_not_mem hu v, hlevel,
        all_oneLine.mpr hline⟩
    · exact ⟨u, [], by simp [List.splitOn_eq_singleton hu], hlevel, rfl⟩
  · rintro ⟨l, ls, hsplit, hlevel, hls⟩
    rcases level_cases w with hw | ⟨u, v, rfl, hu⟩
    · rw [List.splitOn_eq_singleton hw] at hsplit
      obtain ⟨rfl, rfl⟩ := List.cons.inj hsplit
      exact ⟨w, [], by simp, (matches_levelPattern hf).mpr ⟨hw, hlevel⟩, .inr rfl⟩
    · rw [List.splitOn_append_cons_self_of_not_mem hu] at hsplit
      obtain ⟨rfl, rfl⟩ := List.cons.inj hsplit
      have hline := List.all_eq_true.mp (all_oneLine.mp hls)
      exact ⟨u, '/' :: v, rfl, (matches_levelPattern hf).mpr ⟨hu, hlevel⟩,
        .inl ⟨['/'], v, rfl, Regex.matches_text.mpr rfl, hline⟩⟩

-- Of a filter that ends in a /#.
theorem matches_join_hash (hfs : fs ≠ []) (hslash : ∀ f ∈ fs, '/' ∉ f) :
    (Regex.seq (joinPatterns (fs.map levelPattern))
        (.opt (.seq (.text ['/']) (.many fun c => !isLineTerminator c)))).Matches w ↔
      matchLevels notEmpty oneLine (fs ++ [['#']]) (w.splitOn '/') = true := by
  induction fs generalizing w with
  | nil => exact absurd rfl hfs
  | cons f fs ih =>
    rw [List.cons_append, matchLevels_cons (by simp)]
    have hf := hslash f (by simp)
    cases fs with
    | nil =>
      simp only [List.nil_append, matchLevels_hash]
      exact matches_level_hash hf
    | cons g fs =>
      have hnil : matchLevels notEmpty oneLine (g :: fs ++ [['#']]) [] = false :=
        matchLevels_right_nil (by simp) (by simp)
      refine matches_join_cons_seq.trans ((level_slash hf
        (L := fun ls => matchLevels notEmpty oneLine (g :: fs ++ [['#']]) ls)
        fun v => ih (by simp) fun f hf => hslash f (List.mem_cons_of_mem _ hf)).trans ?_)
      refine exists_congr fun l => exists_congr fun ls => ?_
      refine and_congr_right fun _ => and_congr_right fun _ => and_iff_right_of_imp ?_
      rintro h rfl
      exact Bool.false_ne_true (hnil.symm.trans h)

end Patterns

-- The generated expression tests the levels.
theorem topicMatchSub_eq (t s : Text) : topicMatchSub t s = accepts s t := by
  rw [Bool.eq_iff_iff, topicMatchSub, accepts, Bool.or_eq_true, Bool.or_eq_true, Regex.test_iff]
  refine or_congr_right ?_
  have hslash : ∀ f ∈ s.splitOn '/', '/' ∉ f := fun f hf => slash_notMem_of_level hf
  have hne := List.splitOn_ne_nil '/' s
  simp only [pattern]
  generalize s.splitOn '/' = fs at hslash hne
  split
  next h => rw [h, matchLevels_hash, all_oneLine]; simp [Regex.Matches, oneLine]
  next h =>
    split
    next hlast =>
      have hfs : fs.dropLast ++ [['#']] = fs := List.dropLast_append_getLast? _ hlast
      have hnil : fs.dropLast ≠ [] := by
        intro hnil
        exact h (by rw [← hfs, hnil]; rfl)
      rw [matches_join_hash hnil fun f hf => hslash f (List.dropLast_subset _ hf), hfs]
    next hlast => exact matches_join hne hslash hlast

-- A topic that no rule treats on its own.
theorem accepts_eq_mqttMatches {entry topic : Text} (hdollar : ['$'].isPrefixOf topic = false)
    (hlevels : ∀ l ∈ topic.splitOn '/', notEmpty l = true ∧ oneLine l = true) :
    accepts entry topic = mqttMatches entry topic := by
  rw [Bool.eq_iff_iff, accepts, mqttMatches, hdollar]
  simp only [Bool.false_and, Bool.not_false, Bool.true_and, Bool.or_eq_true, decide_eq_true_eq]
  constructor
  · rintro (rfl | h)
    · exact matchLevels_self (fun _ => rfl) fun _ => rfl
    · exact matchLevels_imp (fun _ _ _ => rfl) (fun _ _ _ => rfl) h
  · intro h
    exact .inr (matchLevels_imp (fun l hl _ => (hlevels l hl).1) (fun l hl _ => (hlevels l hl).2) h)

end Matching

end JsonScada.Mqtt.Topics
