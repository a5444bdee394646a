import JsonScada.Mqtt.Topics

-- Which messages the driver processes, against those that it has subscribed to.
namespace JsonScada.Mqtt.Topics

open JsonScada.Library
open JsonScada.Library.Outcome
open JsonScada.Processor (Value)
open JsonScada.WebServer (optionalMember)

variable {Payload : Type*} (env : Env Payload) (jscadaConnection : Connection) (topic : Text)
  (payload : Payload)

def Subscribed : Prop :=
  ∃ filter ∈ subscriptions jscadaConnection, mqttMatches filter topic = true

section OpcUa

def messages (jsonValue : Value) : List Value :=
  match optionalMember (some jsonValue) "Messages" with
  | some (.array messages) => messages
  | _ => []

def payloadFields (dataSetMessage : Value) : List (String × Value) :=
  entries (optionalMember (some dataSetMessage) "Payload")

def statusReads (dataSetMessage : Value) : Prop :=
  (statusInvalid (optionalMember (some dataSetMessage) "Status")).isSome = true

def fieldReads (field : String × Value) : Prop := (extracted env.runtime field.2).isSome = true

def dataSetReads (dataSetMessage : Value) : Prop :=
  statusReads dataSetMessage ∧ ∀ field ∈ payloadFields dataSetMessage, fieldReads env field

def dataSetTells (dataSetMessage : Value) : Prop :=
  statusReads dataSetMessage ∧
    ∃ field, (payloadFields dataSetMessage).head? = some field ∧ fieldReads env field

def uaReads (jsonValue : Value) : Prop := ∀ m ∈ messages jsonValue, dataSetReads env m

def uaTells (jsonValue : Value) : Prop :=
  Reached (dataSetTells env) (dataSetReads env) (messages jsonValue)

variable {env topic} {jsonValue : Value}

theorem opcUaField_threw {address : String} {time : Option Value} {bad : Bool} {v : Value} :
    (opcUaField env.runtime env.now env.newDate address time bad v).threw = false ↔
      (extracted env.runtime v).isSome = true := by
  unfold opcUaField
  cases extracted env.runtime v with
  | none => simp
  | some x => simp

theorem opcUaField_done {address : String} {time : Option Value} {bad : Bool} {v : Value} :
    (opcUaField env.runtime env.now env.newDate address time bad v).done ≠ [] ↔
      (extracted env.runtime v).isSome = true := by
  unfold opcUaField
  cases extracted env.runtime v with
  | none => simp
  | some x => simp

theorem opcUaDataSet_spec {topic publisherId : String} {m : Value} :
    ((opcUaDataSet env.runtime env.now env.newDate topic publisherId m).threw = false ↔
      dataSetReads env m) ∧
    ((opcUaDataSet env.runtime env.now env.newDate topic publisherId m).done ≠ [] ↔
      dataSetTells env m) := by
  simp only [opcUaDataSet, dataSetReads, dataSetTells, statusReads]
  cases statusInvalid (optionalMember (some m) "Status") with
  | none => simp
  | some bad =>
    simp only [Option.isSome_some, true_and]
    refine ⟨threw_forEach.trans ?_, (done_forEach_ne_nil_of ?_).trans ?_⟩
    · exact forall₂_congr fun field _ => opcUaField_threw
    · exact fun field => opcUaField_done.trans opcUaField_threw.symm
    · exact exists_congr fun field => and_congr_right fun _ => opcUaField_threw

theorem processOpcUa_eq (hua : isUaData jsonValue = true) {topic : String} :
    processOpcUaPubSubMessage env.runtime env.now env.newDate jsonValue topic =
      .forEach (opcUaDataSet env.runtime env.now env.newDate topic
        (orUnknown (optionalMember (some jsonValue) "PublisherId"))) (messages jsonValue) := by
  unfold processOpcUaPubSubMessage messages
  rw [hua]
  simp only [Bool.not_true, Bool.false_eq_true, if_false]
  generalize optionalMember (some jsonValue) "Messages" = v
  cases v with
  | none => rfl
  | some v => cases v <;> rfl

theorem uaData_spec (hua : isUaData jsonValue = true) :
    ((uaData env topic jsonValue).threw = false ↔ uaReads env jsonValue) ∧
    ((uaData env topic jsonValue).done ≠ [] ↔ uaTells env jsonValue) := by
  simp only [uaData, threw_map, done_map, ne_eq, List.map_eq_nil_iff, processOpcUa_eq hua]
  constructor
  · exact threw_forEach.trans (forall₂_congr fun m _ => opcUaDataSet_spec.1)
  · refine done_forEach_ne_nil.trans ?_
    simp only [opcUaDataSet_spec, uaTells]

end OpcUa

section Entries

-- Whether the JSON path of an entry is evaluated for the topic.
def onPath (elem : Text) : Prop :=
  (cut "$.".toList elem).isSome = true ∧ (jsonPathTopic elem).jsonPath ≠ [] ∧
    accepts (jsonPathTopic elem).topic topic = true

def evaluates (elem : Text) (jsonValue : Value) : Prop :=
  (env.jsonPath (jsonPathTopic elem).jsonPath jsonValue).isSome = true

-- The names that a path with *~ at its end gives.
def propNames (elem : Text) (jsonValue : Value) : Option (List Value) :=
  match env.jsonPath (jsonPathTopic elem).jsonPath jsonValue with
  | some (some (.array names)) => some names
  | _ => none

def pathReads (elem : Text) (jsonValue : Value) : Prop :=
  if "*~".toList.isSuffixOf elem then
    ∃ names, propNames env elem jsonValue = some names ∧
      ∀ name ∈ names, evaluates env (newTopic elem name) jsonValue
  else evaluates env elem jsonValue

def pathTells (elem : Text) (jsonValue : Value) : Prop :=
  if "*~".toList.isSuffixOf elem then
    ∃ name names, propNames env elem jsonValue = some (name :: names) ∧
      evaluates env (newTopic elem name) jsonValue
  else evaluates env elem jsonValue

-- The entry takes the topic without its JSON path.
def direct (elem : Text) : Prop := topic = elem ∨ below topic elem = true

def topicsReads (elem : Text) : Prop :=
  elem ≠ [] →
    (direct topic elem → isUaData (tryPayloadAsRJson env payload) = true →
      uaReads env (tryPayloadAsRJson env payload)) ∧
    (¬(direct topic elem ∧ isUaData (tryPayloadAsRJson env payload) = true) →
      onPath topic elem → pathReads env elem (tryPayloadAsRJson env payload))

def topicsTells (elem : Text) : Prop :=
  elem ≠ [] ∧
    (direct topic elem → isUaData (tryPayloadAsRJson env payload) = true →
      uaTells env (tryPayloadAsRJson env payload)) ∧
    (¬direct topic elem →
      onPath topic elem ∧ pathTells env elem (tryPayloadAsRJson env payload))

variable {env topic payload} {elem : Text} {jsonValue : Value}

theorem explodeStep_threw {name : Value} :
    (explodeStep env jsonValue elem name).threw = false ↔
      evaluates env (newTopic elem name) jsonValue := by
  simp only [explodeStep, evaluates]
  cases env.jsonPath (jsonPathTopic (newTopic elem name)).jsonPath jsonValue with
  | none => simp
  | some v => simp [enqueue]

theorem explodeStep_done {name : Value} :
    (explodeStep env jsonValue elem name).done ≠ [] ↔
      evaluates env (newTopic elem name) jsonValue := by
  simp only [explodeStep, evaluates]
  cases env.jsonPath (jsonPathTopic (newTopic elem name)).jsonPath jsonValue with
  | none => simp
  | some v => simp [enqueue]

theorem pathStep_of_not (h : ¬onPath topic elem) : pathStep env topic payload elem = .nothing := by
  simp only [pathStep, topicMatchSub_eq]
  split
  · rfl
  next hcut =>
    rw [if_neg]
    intro hpath
    have hcut : (cut "$.".toList elem).isSome = true := by
      simpa [← Option.isSome_iff_ne_none] using hcut
    exact h ⟨hcut, by simpa using hpath⟩

-- With the path of an entry that is evaluated.
theorem pathStep_on (h : onPath topic elem) :
    pathStep env topic payload elem =
      if "*~".toList.isSuffixOf elem then
        match propNames env elem (tryPayloadAsRJson env payload) with
        | none => .failed
        | some names =>
            .forEach (explodeStep env (tryPayloadAsRJson env payload) elem) names
      else
        match env.jsonPath (jsonPathTopic elem).jsonPath (tryPayloadAsRJson env payload) with
        | none => .failed
        | some jpRes => enqueue env jpRes elem := by
  obtain ⟨hcut, hpath, haccepts⟩ := h
  have hcut : (cut "$.".toList elem).isNone = false := by simpa using hcut
  simp only [pathStep, topicMatchSub_eq, propNames, hcut, ne_eq, hpath, haccepts,
    not_false_eq_true, decide_true, Bool.and_self, Bool.false_eq_true, if_true, if_false]
  cases "*~".toList.isSuffixOf elem with
  | true =>
    rcases env.jsonPath (jsonPathTopic elem).jsonPath (tryPayloadAsRJson env payload) with
      _ | _ | v
    · rfl
    · rfl
    · cases v <;> rfl
  | false =>
    rcases env.jsonPath (jsonPathTopic elem).jsonPath (tryPayloadAsRJson env payload) with _ | v
    · rfl
    · rfl

theorem pathStep_spec (h : onPath topic elem) :
    ((pathStep env topic payload elem).threw = false ↔
      pathReads env elem (tryPayloadAsRJson env payload)) ∧
    ((pathStep env topic payload elem).done ≠ [] ↔
      pathTells env elem (tryPayloadAsRJson env payload)) := by
  rw [pathStep_on h, pathReads, pathTells]
  cases "*~".toList.isSuffixOf elem with
  | true =>
    simp only [if_true]
    cases propNames env elem (tryPayloadAsRJson env payload) with
    | none => simp
    | some names =>
      simp only [Option.some.injEq, exists_eq_left']
      constructor
      · exact threw_forEach.trans (forall₂_congr fun name _ => explodeStep_threw)
      · refine (done_forEach_ne_nil_of fun name => ?_).trans ?_
        · exact explodeStep_done.trans explodeStep_threw.symm
        · simp only [explodeStep_threw, List.head?_eq_some_iff, exists_and_right]
  | false =>
    simp only [Bool.false_eq_true, if_false, evaluates]
    cases env.jsonPath (jsonPathTopic elem).jsonPath (tryPayloadAsRJson env payload) with
    | none => simp
    | some v => simp [enqueue]

theorem topicsStep_spec :
    ((topicsStep env topic payload elem).threw = false ↔ topicsReads env topic payload elem) ∧
    ((topicsStep env topic payload elem).done ≠ [] ↔ topicsTells env topic payload elem) := by
  by_cases helem : elem = []
  · simp [topicsStep, topicsReads, topicsTells, helem]
  have hpathStep : ((pathStep env topic payload elem).threw = false ↔
      (onPath topic elem → pathReads env elem (tryPayloadAsRJson env payload))) ∧
      ((pathStep env topic payload elem).done ≠ [] ↔
        onPath topic elem ∧ pathTells env elem (tryPayloadAsRJson env payload)) := by
    by_cases h : onPath topic elem
    · simpa [h] using pathStep_spec h
    · simp [pathStep_of_not h, h]
  cases hua : isUaData (tryPayloadAsRJson env payload) with
  | true =>
    have hspec := @uaData_spec Payload env topic _ hua
    by_cases htopic : topic = elem
    · simpa [topicsStep, topicsReads, topicsTells, direct, helem, htopic, hua] using hspec
    · cases hbelow : below topic elem with
      | true => simpa [topicsStep, topicsReads, topicsTells, direct, helem, htopic, hua, hbelow,
          andThen] using hspec
      | false => simpa [topicsStep, topicsReads, topicsTells, direct, helem, htopic, hua, hbelow,
          andThen] using hpathStep
  | false =>
    have hthrew : (topicsStep env topic payload elem).threw =
        (pathStep env topic payload elem).threw := by
      simp only [topicsStep, if_neg helem, hua, Bool.and_false, Bool.false_eq_true, if_false,
        threw_andThen]
      split <;> split <;> simp [enqueue]
    have hdone : (topicsStep env topic payload elem).done ≠ [] ↔
        direct topic elem ∨ (pathStep env topic payload elem).done ≠ [] := by
      simp only [topicsStep, if_neg helem, hua, Bool.and_false, Bool.false_eq_true, if_false,
        done_andThen_ne_nil, direct]
      split <;> split <;> simp [enqueue, done_andThen_ne_nil, *]
    rw [hthrew, hdone, hpathStep.1, hpathStep.2]
    simp only [topicsReads, topicsTells, hua]
    simp [helem, imp_iff_not_or]

end Entries

section Handler

-- What the handler takes of a message, with the entries as they are written.
def Taken : Prop :=
  env.connected = true ∧
    ((∃ entry ∈ jscadaConnection.topicsAsFiles, accepts entry topic = true) ∨
      (∃ entry ∈ jscadaConnection.topicsScripted,
        entry.topic ≠ [] ∧ accepts entry.topic topic = true ∧ entry.script ≠ []) ∨
      (∀ entry ∈ jscadaConnection.topicsScripted,
        entry.topic ≠ [] → accepts entry.topic topic = false) ∧
      Reached (topicsTells env topic payload) (topicsReads env topic payload)
        jscadaConnection.topics)

variable {env jscadaConnection topic payload}

theorem scriptedStep_spec (entry : ScriptedTopic × ℕ) :
    ((scriptedStep env topic entry).threw = false) ∧
    ((scriptedStep env topic entry).done ≠ [] ↔
      scripted topic entry.1 = true ∧ entry.1.script ≠ []) := by
  simp only [scriptedStep]
  split
  next h =>
    have hscripted : scripted topic entry.1 = true ∧ entry.1.script ≠ [] := by simpa using h
    rw [threw_andThen, done_andThen_ne_nil]
    refine ⟨?_, by simpa using hscripted⟩
    split <;> simp
  next h => simpa using h

theorem scripted_iff {entry : ScriptedTopic} :
    scripted topic entry = true ↔ entry.topic ≠ [] ∧ accepts entry.topic topic = true := by
  simp [scripted, topicMatchSub_eq]

variable (env topic) in
theorem scripts_spec (entries : List (ScriptedTopic × ℕ)) :
    (forEach (scriptedStep env topic) entries).threw = false ∧
    ((forEach (scriptedStep env topic) entries).done ≠ [] ↔
      ∃ entry ∈ entries, scripted topic entry.1 = true ∧ entry.1.script ≠ []) := by
  refine ⟨threw_forEach.mpr fun entry _ => (scriptedStep_spec entry).1, ?_⟩
  rw [done_forEach_ne_nil, reached_of_reads fun entry _ => (scriptedStep_spec entry).1]
  exact exists_congr fun entry => and_congr_right fun _ => (scriptedStep_spec entry).2

theorem exists_zipIdx {α : Type*} {p : α → Prop} (xs : List α) :
    (∃ x ∈ xs.zipIdx, p x.1) ↔ ∃ x ∈ xs, p x := by
  conv_rhs => rw [← List.zipIdx_map_fst 0 xs]
  simp only [List.mem_map, exists_exists_and_eq_and]

theorem topics_done_iff {topics : List Text} :
    (forEach (topicsStep env topic payload) topics).done ≠ [] ↔
      Reached (topicsTells env topic payload) (topicsReads env topic payload) topics := by
  rw [done_forEach_ne_nil]
  simp only [topicsStep_spec]

theorem handler_done_iff :
    (nonSparkplugMessage env jscadaConnection topic payload).done ≠ [] ↔
      Taken env jscadaConnection topic payload := by
  have hfiles : jscadaConnection.topicsAsFiles.filter (topicMatchSub topic) = [] ↔
      ¬∃ entry ∈ jscadaConnection.topicsAsFiles, accepts entry topic = true := by
    simp [List.filter_eq_nil_iff, topicMatchSub_eq]
  have hsaved : ((jscadaConnection.topicsAsFiles.filter (topicMatchSub topic)).map
      fun _ => Effect.saveFile topic payload) ≠ [] ↔
      ∃ entry ∈ jscadaConnection.topicsAsFiles, accepts entry topic = true := by
    rw [ne_eq, List.map_eq_nil_iff, hfiles, not_not]
  have hscripts := scripts_spec env topic jscadaConnection.topicsScripted.zipIdx
  have hran := hscripts.2.trans (exists_zipIdx
    (p := fun entry => scripted topic entry = true ∧ entry.script ≠ []) _)
  simp only [nonSparkplugMessage, Taken]
  cases env.connected with
  | false => simp
  | true =>
    simp only [Bool.not_true, Bool.false_eq_true, if_false, true_and]
    rw [done_andThen_ne_nil]
    refine (or_congr_left hsaved).trans (or_congr_right' fun hnone => ?_)
    have hempty := hfiles.mpr hnone
    simp only [hempty, List.isEmpty_nil, Bool.not_true, Bool.false_eq_true, if_false, true_and]
    rw [done_andThen_ne_nil, hran, hscripts.1]
    simp only [scripted_iff, and_assoc, true_and]
    refine or_congr_right ?_
    split
    next hany =>
      obtain ⟨entry, hentry, hs⟩ := List.any_eq_true.mp hany
      obtain ⟨htopic, haccepts⟩ := scripted_iff.mp hs
      simp only [done_nothing, ne_eq, not_true, false_iff, not_and]
      intro h
      exact absurd haccepts (by simp [h entry hentry htopic])
    next hany =>
      rw [topics_done_iff]
      refine (and_iff_right fun entry hentry htopic => ?_).symm
      cases haccepts : accepts entry.topic topic with
      | false => rfl
      | true =>
        exact absurd (List.any_eq_true.mpr ⟨entry, hentry, scripted_iff.mpr ⟨htopic, haccepts⟩⟩) hany

end Handler

section Sample

-- A driver that is connected, and reads every payload as the number 1.
def sampleEnv : Env Unit where
  runtime := { round := fun x => .fin x, localOffset := fun _ => 0 }
  now := 0
  newDate := id
  connected := true
  toString := fun _ => "1"
  jsonParse := fun _ => some (.number (.fin 1))
  rjsonParse := fun _ => none
  gunzipParse := fun _ => none
  jsonPath := fun _ _ => some none
  vmRun := fun _ _ => none

end Sample

section Tidy

variable {env jscadaConnection topic payload}

-- Filters as they are subscribed to, with a script where there must be one, for files and
-- scripts only.
structure Tidy (jscadaConnection : Connection) : Prop where
  topics : jscadaConnection.topics = []
  files : ∀ entry ∈ jscadaConnection.topicsAsFiles,
    entry ≠ [] ∧ (jsonPathTopic entry).topic = entry
  scripts : ∀ entry ∈ jscadaConnection.topicsScripted,
    entry.topic ≠ [] ∧ (jsonPathTopic entry.topic).topic = entry.topic ∧ entry.script ≠ []

theorem trim_ne_nil {entry : Text} (hne : entry ≠ []) (h : (jsonPathTopic entry).topic = entry) :
    Processor.trim Processor.Node.isSpace entry ≠ [] := by
  intro htrim
  simp only [jsonPathTopic, htrim, cut] at h
  exact hne h.symm

theorem Tidy.mem_subscriptions (h : Tidy jscadaConnection) {filter : Text} :
    filter ∈ subscriptions jscadaConnection ↔
      filter ∈ jscadaConnection.topicsAsFiles ∨
        ∃ entry ∈ jscadaConnection.topicsScripted, entry.topic = filter := by
  simp only [subscriptions, h.topics, List.nil_append, List.mem_map, List.mem_filter,
    List.mem_append, decide_eq_true_eq]
  constructor
  · rintro ⟨elem, ⟨hfile | ⟨⟨entry, hentry, rfl⟩, -⟩, -⟩, rfl⟩
    · rw [(h.files elem hfile).2]
      exact .inl hfile
    · exact .inr ⟨entry, hentry, (h.scripts entry hentry).2.1.symm⟩
  · rintro (hfile | ⟨entry, hentry, rfl⟩)
    · obtain ⟨hne, htopic⟩ := h.files filter hfile
      exact ⟨filter, ⟨.inl hfile, trim_ne_nil hne htopic⟩, htopic⟩
    · obtain ⟨hne, htopic, -⟩ := h.scripts entry hentry
      exact ⟨entry.topic, ⟨.inr ⟨⟨entry, hentry, rfl⟩, hne⟩, trim_ne_nil hne htopic⟩, htopic⟩

-- There a message that its topic does not spoil is processed just when it was subscribed to.
theorem Tidy.processed_iff (h : Tidy jscadaConnection) (hconnected : env.connected = true)
    (hdollar : ['$'].isPrefixOf topic = false)
    (hlevels : ∀ l ∈ topic.splitOn '/', notEmpty l = true ∧ oneLine l = true) :
    (nonSparkplugMessage env jscadaConnection topic payload).done ≠ [] ↔
      Subscribed jscadaConnection topic := by
  rw [handler_done_iff]
  simp only [Taken, hconnected, true_and, h.topics, reached_nil, and_false, or_false, Subscribed,
    h.mem_subscriptions, accepts_eq_mqttMatches hdollar hlevels]
  constructor
  · rintro (⟨entry, hentry, hmatch⟩ | ⟨entry, hentry, -, hmatch, -⟩)
    · exact ⟨entry, .inl hentry, hmatch⟩
    · exact ⟨entry.topic, .inr ⟨entry, hentry, rfl⟩, hmatch⟩
  · rintro ⟨filter, hfile | ⟨entry, hentry, rfl⟩, hmatch⟩
    · exact .inl ⟨filter, hfile, hmatch⟩
    · obtain ⟨hne, -, hscript⟩ := h.scripts entry hentry
      exact .inr ⟨entry, hentry, hne, hmatch, hscript⟩

end Tidy

end JsonScada.Mqtt.Topics
