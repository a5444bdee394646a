import JsonScada.WebServer.Write.Groups

-- The point that a command is for, and the number that it carries.
namespace JsonScada.WebServer

open JsonScada.Library
open JsonScada.Processor (Document Value rawOrNil)

section Named

variable (env : Driver) (s : Session)

-- A number or a text.
def isPlain : Value → Bool
  | .number _ | .string _ => true
  | _ => false

-- A node that writes a value of type Double or String.
def WritesValue (node id : Value) (type : ℕ) (body : Value) : Prop :=
  ∃ fields nodeId value, node = .document fields ∧
    looseEq env.js (fields.lookup "AttributeId") AttributeId.value = true ∧
      fields.lookup "NodeId" = some (.document nodeId) ∧ nodeId.lookup "Id" = some id ∧
        fields.lookup "Value" = some (.document value) ∧
          value.lookup "Type" = some (.number (.fin type)) ∧ value.lookup "Body" = some body ∧
            isPlain id = true ∧ isPlain body = true ∧
              (type = DataType.double ∨ type = DataType.string)

-- The number that a text spells, none for a blank one.
def spells (t : String) : Option ℚ :=
  if Processor.trim Processor.Node.isSpace t.toList = [] then none
  else
    match toNumber env.js (some (.string t)) with
    | .fin q => some q
    | _ => none

-- The key that a text stands for, none where `parseInt` reads another number than it spells.
def numericKey (t : String) : Option ℚ :=
  (spells env t).filter fun q => parseInt env.js (some (.string t)) = .fin q

-- The number that a command is given.
def given (type : ℕ) (body : Value) : Option ℚ :=
  if type = DataType.string then some 0
  else
    match body with
    | .number (.fin q) => some q
    | .string t => spells env t
    | _ => none

-- A command for the point with that key, or with that tag.
def ForPoint (id : Value) (doc : Document) : Prop :=
  match id with
  | .number x => doc.lookup "pointKey" = some (.number x)
  | .string t =>
      doc.lookup "tag" = some (.string t) ∨
        ∃ q, numericKey env t = some q ∧ doc.lookup "pointKey" = some (.number (.fin q))
  | _ => False

def Carries (type : ℕ) (body : Value) (doc : Document) : Prop :=
  ∃ q, given env type body = some q ∧ doc.lookup "value" = some (.number (.fin q))

-- What a node does that is refused: it is answered by an error, or the handler throws.
def Refused (r : Response) (o : Outcome) : Prop :=
  o.flow = .thrown ∨ ∃ (code : StatusCode) (message : String),
    o.flow = .answered (r.tell code message) ∧ StatusCode.bad.code ≤ code.code

-- Every command that a node queues is as the node has it, and without one it is refused.
def CommandsAsGiven (st : Database × Response) (n : Moment × Value) : Prop :=
  let o := handleNode env s n.1 st.1 st.2 n.2
  ∀ id type body, WritesValue env n.2 id type body →
    (∀ doc, .insertCommand doc ∈ o.writes → ForPoint env id doc ∧ Carries env type body doc) ∧
      ((∀ doc, .insertCommand doc ∉ o.writes) → Refused st.2 o)

end Named

section Conditions

variable (env : Driver) (s : Session)

-- A command that no point is looked up for.
def isSpecial : Value → Bool
  | .string t => Processor.hasPrefix t "$$"
  | _ => false

-- The point that is looked up: by the number that the identifier begins with, or as a tag.
def commandPoint (db : Database) (id : Value) : Option Document :=
  if !(parseInt env.js (some id)).isNaN then db.realtimeData.find? (keyFilter env (some id))
  else
    match id with
    | .string tag => db.realtimeData.find? (Filter.field "tag" (Filter.string tag))
    | _ => none

-- A number that `parseInt` leaves as it is, a text that is all a number, or the tag of the point.
def Names (id : Value) (data : Document) : Prop :=
  match id with
  | .number x => parseInt env.js (some id) = x
  | .string t =>
      data.lookup "tag" = some (.string t) ∨ (numericKey env t).isSome = true
  | _ => False

-- What the point that is reached has to be, and the number that is given.
def WellAimed (st : Database × Response) (n : Moment × Value) : Prop :=
  ∀ id type body, WritesValue env n.2 id type body → canSendCommands s = true →
    (isSpecial id = true → (given env type body).isSome = true) ∧
      (isSpecial id = false → ∀ data, commandPoint env st.1 id = some data →
        (data.num "_id").isSome = true → canSendCommandTo s (data.lookup "group1") = true →
          Names env id data ∧ (given env type body).isSome = true)

end Conditions

section Inserted

variable {env : Driver} {s : Session} {m : Moment} {r : Response} {id : Option Value}
  {value valueString : Value}

variable (env s m r id value valueString) in
-- What becomes of a command, once its point has been looked for.
theorem commandTo_cases (found : Option Document) :
    (∃ code message, commandTo env s m r id value valueString found =
        { flow := .answered (r.tell code message) } ∧ StatusCode.bad.code ≤ code.code ∧
        ∀ data, found = some data → (data.num "_id").isSome = true →
          canSendCommandTo s (data.lookup "group1") = false) ∨
      ∃ data key, found = some data ∧ data.num "_id" = some key ∧
        canSendCommandTo s (data.lookup "group1") = true ∧
        ∀ doc, .insertCommand doc ∈ (commandTo env s m r id value valueString found).writes ↔
          doc = commandDoc env s m data key value valueString := by
  unfold commandTo
  cases found with
  | none => exact .inl ⟨_, _, rfl, by decide, by simp⟩
  | some data =>
      cases hkey : data.num "_id" with
      | none =>
          refine .inl ⟨.badNodeIdUnknown, "Command point not found!", by simp [hkey], by decide, ?_⟩
          rintro _ ⟨⟩ hsome
          rw [hkey] at hsome
          cases hsome
      | some key =>
          simp only [Option.bind_some, hkey, Option.map_some]
          cases hgroup : canSendCommandTo s (data.lookup "group1") with
          | false =>
              refine .inl ⟨_, _, rfl, by decide, ?_⟩
              rintro _ ⟨⟩ _
              exact hgroup
          | true =>
              refine .inr ⟨data, key, rfl, hkey, hgroup, fun doc => ?_⟩
              cases env.acknowledged <;> simp

variable (env) in
-- The value that is sent is the number that is given.
theorem commandValue_given {fields : Document} {type : ℕ} {body : Value}
    (htype : fields.lookup "Type" = some (.number (.fin type)))
    (hbody : fields.lookup "Body" = some body) (hplain : isPlain body = true)
    (hknown : type = DataType.double ∨ type = DataType.string) :
    ∃ v shown, commandValue env fields = some (v, shown) ∧
      ∀ q, given env type body = some q → toNumber env.js (some v) = .fin q := by
  have hspelled (t : String) (q : ℚ) (h : spells env t = some q) :
      toNumber env.js (some (.string t)) = .fin q := by
    unfold spells at h
    split_ifs at h
    split at h
    · rename_i hfin
      rw [hfin, Option.some.inj h]
    · cases h
  unfold commandValue given
  rw [htype, hbody]
  rcases hknown with rfl | rfl
  · cases body with
    | number x =>
        refine ⟨_, _, rfl, fun q h => ?_⟩
        cases x with
        | fin p =>
            obtain rfl := Option.some.inj h
            rfl
        | nan | inf => cases h
    | string t => exact ⟨_, _, rfl, hspelled t⟩
    | null | bool | document | array | dateTime | other => cases hplain
  · cases body with
    | number x =>
        refine ⟨_, _, rfl, fun q h => ?_⟩
        rw [← Option.some.inj h]
        rfl
    | string t =>
        refine ⟨_, _, rfl, fun q h => ?_⟩
        rw [← Option.some.inj h]
        rfl
    | null | bool | document | array | dateTime | other => cases hplain

theorem carries_iff {v : Value} {type : ℕ} {body : Value} (doc : Document)
    (hvalue : doc.lookup "value" = some (toDouble env (some v)))
    (hgiven : ∀ q, given env type body = some q → toNumber env.js (some v) = .fin q) :
    Carries env type body doc ↔ (given env type body).isSome = true := by
  unfold Carries
  rw [hvalue]
  constructor
  · rintro ⟨q, hq, -⟩
    rw [hq]
    rfl
  · intro hsome
    obtain ⟨q, hq⟩ := Option.isSome_iff_exists.mp hsome
    refine ⟨q, hq, ?_⟩
    rw [toDouble, hgiven q hq]

-- A text that starts with a dollar sign is no number.
theorem parseInt_special {id : Value} (h : isSpecial id = true) :
    (parseInt env.js (some id)).isNaN = true := by
  cases id with
  | string t =>
      obtain ⟨rest, hrest⟩ : ∃ rest, t.toList = '$' :: '$' :: rest := by
        obtain ⟨rest, hrest⟩ := List.isPrefixOf_iff_prefix.mp h
        exact ⟨rest, hrest.symm⟩
      have htext : (text (some (.string t))).toList = '$' :: '$' :: rest := hrest
      unfold parseInt parseIntFrom
      rw [htext]
      rfl
  | null | bool | number | document | array | dateTime | other => cases h

theorem looseEq_some {v : Option Value} {x : ℚ} (h : looseEq env.js v x = true) :
    v.isSome = true ∧ toNumber env.js v = .fin x := by
  unfold looseEq at h
  split at h
  · cases h
  · cases h
  · rename_i hnone _
    constructor
    · cases v with
      | none => exact absurd rfl hnone
      | some v => rfl
    · exact (Double.eq_iff.mp h).1

theorem handleNode_command {db : Database} {fields : Document}
    (h : looseEq env.js (fields.lookup "AttributeId") AttributeId.value = true) :
    handleNode env s m db r (.document fields) = command env s m db r fields := by
  obtain ⟨hsome, hnumber⟩ := looseEq_some h
  have hhas : Document.has fields "AttributeId" = true := hsome
  have hack : looseEq env.js (fields.lookup "AttributeId")
      AttributeId.extendedAlarmEventsAck = false := by
    rw [Bool.eq_false_iff]
    intro hack
    have := hnumber.symm.trans (looseEq_some hack).2
    exact absurd (Double.fin.inj this) (by decide)
  unfold handleNode
  simp [hhas, hack, h]

variable (m r) in
-- What becomes of a command that may be sent and has a value.
theorem command_pointed (db : Database) {fields value : Document} {nodeId id v shown : Value}
    (hright : canSendCommands s = true) (hnodeId : fields.lookup "NodeId" = some nodeId)
    (hin : isIn "Id" (some nodeId) = some true)
    (hid : optionalMember (some nodeId) "Id" = some id)
    (hvalue : fields.lookup "Value" = some (.document value))
    (hcommand : commandValue env value = some (v, shown)) :
    (∃ t, id = .string t ∧ isSpecial id = true ∧ command env s m db r fields =
      { writes := [.insertCommand (specialCommand env s m t v shown)]
        flow := .answered (if env.acknowledged then { r with serviceResult := .good }
          else r.tell .badUnexpectedError "Could not queue command!") }) ∨
    (isSpecial id = false ∧ commandPoint env db id = none ∧
      command env s m db r fields = { flow := .thrown }) ∨
    (isSpecial id = false ∧ command env s m db r fields =
      commandTo env s m r (some id) v shown (commandPoint env db id)) := by
  unfold command
  simp only [hright, hnodeId, hin, hvalue, hcommand, hid, Bool.not_true, Bool.false_eq_true,
    if_false]
  unfold commandPoint
  cases hnan : (parseInt env.js (some id)).isNaN with
  | false =>
      have hspecial : isSpecial id = false := by
        rw [Bool.eq_false_iff]
        intro hspecial
        exact Bool.false_ne_true (hnan.symm.trans (parseInt_special hspecial))
      exact .inr (.inr ⟨hspecial, rfl⟩)
  | true =>
      cases id with
      | string t =>
          cases hspecial : Processor.hasPrefix t "$$" with
          | true => exact .inl ⟨t, rfl, hspecial, by simp [hspecial]⟩
          | false => exact .inr (.inr ⟨hspecial, by simp [hspecial]⟩)
      | null | bool | number | document | array | dateTime | other =>
          exact .inr (.inl ⟨rfl, rfl, rfl⟩)

variable (s m r) in
-- The handling of a node that writes a value.
theorem handleNode_value (db : Database) {node id body : Value} {type : ℕ}
    (h : WritesValue env node id type body) :
    (canSendCommands s = false ∧ ∃ message, handleNode env s m db r node =
      { flow := .answered (r.tell .badUserAccessDenied message) }) ∨
    canSendCommands s = true ∧ ∃ v shown,
      (∀ q, given env type body = some q → toNumber env.js (some v) = .fin q) ∧
      ((∃ t, id = .string t ∧ isSpecial id = true ∧
          (handleNode env s m db r node).writes =
            [.insertCommand (specialCommand env s m t v shown)]) ∨
        (isSpecial id = false ∧ commandPoint env db id = none ∧
          handleNode env s m db r node = { flow := .thrown }) ∨
        (isSpecial id = false ∧ handleNode env s m db r node =
          commandTo env s m r (some id) v shown (commandPoint env db id))) := by
  obtain ⟨fields, nodeId, value, rfl, hvalue, hnodeId, hid, hbody, htype, hcontent, hplain, hplain',
    hknown⟩ := h
  obtain ⟨v, shown, hcommand, hgiven⟩ :=
    commandValue_given env htype hcontent hplain' hknown
  rw [handleNode_command hvalue]
  cases hright : canSendCommands s with
  | false =>
      refine .inl ⟨rfl, "User has no right to issue commands!", ?_⟩
      unfold command
      rw [hright]
      rfl
  | true =>
      have hin : isIn "Id" (some (.document nodeId)) = some true := by
        simp [isIn, Document.has, hid]
      have hmember : optionalMember (some (.document nodeId)) "Id" = some id := by
        simp [optionalMember, member, hid]
      refine .inr ⟨rfl, v, shown, hgiven, ?_⟩
      rcases command_pointed m r db hright hnodeId hin hmember hbody hcommand with
        ⟨t, ht, hspecial, heq⟩ | hthrown | hto
      · exact .inl ⟨t, ht, hspecial, by rw [heq]⟩
      · exact .inr (.inl hthrown)
      · exact .inr (.inr hto)

-- A point that is looked up by its key has that key.
theorem commandPoint_key {db : Database} {id : Value} {data : Document} {key : Double}
    (hfound : commandPoint env db id = some data) (hkey : data.num "_id" = some key)
    (hnan : (parseInt env.js (some id)).isNaN = false) : key = parseInt env.js (some id) := by
  unfold commandPoint at hfound
  rw [hnan] at hfound
  have hfilter := List.find?_some hfound
  have hlookup : data.lookup "_id" = some (.number key) := by
    unfold Document.num at hkey
    split at hkey
    · rename_i x hx
      rw [hx, Option.some.inj hkey]
    · cases hkey
  unfold keyFilter Filter.field at hfilter
  rw [hlookup] at hfilter
  simpa [Filter.number] using hfilter

theorem rawOrNil_eq_string {v : Option Value} {t : String} :
    rawOrNil v = .string t ↔ v = some (.string t) := by
  cases v with
  | none => simp [rawOrNil]
  | some v => simp [rawOrNil]

variable (s m) in
theorem forPoint_iff (v shown : Value) {db : Database} {id : Value} {data : Document}
    {key : Double}
    (hplain : isPlain id = true) (hfound : commandPoint env db id = some data)
    (hkey : data.num "_id" = some key) :
    ForPoint env id (commandDoc env s m data key v shown) ↔ Names env id data := by
  have hpointKey : (commandDoc env s m data key v shown).lookup "pointKey" =
      some (.number key) := rfl
  have htag : (commandDoc env s m data key v shown).lookup "tag" =
      some (rawOrNil (data.lookup "tag")) := rfl
  unfold ForPoint Names
  cases id with
  | number x =>
      have hnan : (parseInt env.js (some (.number x))).isNaN = false := by
        unfold commandPoint at hfound
        split_ifs at hfound with hnan
        simpa using hnan
      rw [hpointKey, commandPoint_key hfound hkey hnan]
      simp only [Option.some.injEq, Value.number.injEq]
  | string t =>
      simp only [hpointKey, htag, Option.some.injEq, rawOrNil_eq_string, Value.number.injEq]
      refine or_congr_right ?_
      rw [Option.isSome_iff_exists]
      refine exists_congr fun q => and_iff_left_of_imp fun hq => ?_
      have hparse : parseInt env.js (some (.string t)) = .fin q := by
        simpa using (Option.filter_eq_some_iff.mp hq).2
      rw [commandPoint_key hfound hkey (by rw [hparse]; rfl), hparse]
  | null | bool | document | array | dateTime | other => cases hplain

end Inserted

section Request

variable {env : Driver} {s : Session}

theorem commandsAsGiven_iff (st : Database × Response) (n : Moment × Value) :
    CommandsAsGiven env s st n ↔ WellAimed env s st n := by
  unfold CommandsAsGiven WellAimed
  refine forall_congr' fun id => forall_congr' fun type => forall_congr' fun body =>
    forall_congr' fun h => ?_
  have hplain : isPlain id = true := by
    obtain ⟨_, _, _, _, _, _, _, _, _, _, hplain, -⟩ := h
    exact hplain
  rcases handleNode_value s n.1 st.2 st.1 h with
    ⟨hright, message, heq⟩ | ⟨hright, v, shown, hgiven, hcases⟩
  · rw [heq, hright]
    refine iff_of_true ⟨by simp, fun _ => .inr ⟨_, _, rfl, by decide⟩⟩ (by simp)
  rw [forall_prop_of_true hright]
  rcases hcases with ⟨t, rfl, hspecial, hwrites⟩ | ⟨hspecial, hnone, heq⟩ | ⟨hspecial, heq⟩
  · have htag : ForPoint env (.string t) (specialCommand env s n.1 t v shown) := .inl rfl
    have hcarries := carries_iff (specialCommand env s n.1 t v shown) rfl hgiven
    simp [hwrites, hspecial, htag, hcarries]
  · rw [heq, hspecial, hnone]
    refine iff_of_true ⟨by simp, fun _ => .inl rfl⟩ (by simp)
  · rw [heq, hspecial]
    rcases commandTo_cases env s n.1 st.2 (some id) v shown (commandPoint env st.1 id) with
      ⟨code, message, hto, hbad, hdenied⟩ | ⟨data, key, hfound, hkey, hgroup, hdocs⟩
    · rw [hto]
      refine iff_of_true ⟨by simp, fun _ => .inr ⟨_, _, rfl, hbad⟩⟩ ⟨by simp, ?_⟩
      intro _ data hfound hnum hgroup
      exact absurd (hgroup.symm.trans (hdenied data hfound hnum)) Bool.false_ne_true.symm
    · have hpoint := forPoint_iff s n.1 v shown hplain hfound hkey
      have hcarries := carries_iff (commandDoc env s n.1 data key v shown) rfl hgiven
      rw [hfound] at hdocs ⊢
      simp only [hdocs, forall_eq, hpoint, hcarries, Option.some.injEq, forall_eq', hkey,
        Option.isSome_some, hgroup, forall_const, Bool.false_eq_true, false_implies, true_and,
        and_true]

-- Every command of a request is for the point that it names, with the number that it gives:
-- exactly when each node that is reached names the point that is looked up for it.
theorem requestCommands_asGiven_iff (env : Driver) (s : Session) (db : Database)
    (nodes : List (Moment × Value)) :
    Run.Allowed (goOn env s) (CommandsAsGiven env s) (db, start) nodes ↔
      Run.Allowed (goOn env s) (WellAimed env s) (db, start) nodes :=
  Run.allowed_congr (fun _ => True) (fun _ _ _ _ _ => trivial)
    (fun st n _ => commandsAsGiven_iff st n) trivial nodes

section Samples

-- A user who may command every point.
def commander : Session where
  username := "commander"
  rights := { group1List := [] }
  roles := some [⟨true, []⟩]
  address := "10.0.0.2"

def breaker (key : ℚ) (tag : String) : Document :=
  [("_id", .number (.fin key)), ("tag", .string tag), ("type", .string "digital")]

def breakers : Database where
  realtimeData := [breaker 12 "FeederA", breaker 30 "12KV_FeederB"]
  soeData := []

def close (id : String) : Value :=
  .document [("AttributeId", .number (.fin 13)), ("NodeId", .document [("Id", .string id)]),
    ("Value", .document [("Type", .number (.fin 11)), ("Body", .number (.fin 1))])]

-- A command for the tag 12KV_FeederB goes to the point with the key 12.
theorem tag_with_digits_misdirected :
    ¬Run.Allowed (goOn driver commander) (CommandsAsGiven driver commander) (breakers, start)
      [(moment, close "12KV_FeederB")] := by
  rintro ⟨hfirst, -⟩
  have hwrites : WritesValue driver (close "12KV_FeederB") (.string "12KV_FeederB") 11
      (.number (.fin 1)) :=
    ⟨_, _, _, rfl, by decide, rfl, rfl, rfl, rfl, rfl, rfl, rfl, .inl rfl⟩
  have hfound : commandPoint driver breakers (.string "12KV_FeederB") =
      some (breaker 12 "FeederA") := by
    have hnumber : parseInt driver.js (some (.string "12KV_FeederB")) = .fin 12 := by
      decide +kernel
    rw [commandPoint, keyFilter, hnumber]
    rfl
  obtain ⟨hnames, -⟩ := ((commandsAsGiven_iff (breakers, start) _).mp hfirst _ _ _ hwrites rfl).2 rfl
    _ hfound rfl rfl
  rcases hnames with htag | hkey
  · have htag : some (Value.string "FeederA") = some (Value.string "12KV_FeederB") := htag
    exact absurd htag (by decide)
  · exact absurd hkey (by decide)

end Samples

end Request

end JsonScada.WebServer
