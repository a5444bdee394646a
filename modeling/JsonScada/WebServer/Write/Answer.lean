import JsonScada.WebServer.Write.Commands

-- What the answer to a write request says of its nodes.
namespace JsonScada.WebServer

open JsonScada.Library
open JsonScada.Processor (Document Value rawOrNil)

section Property

variable (env : Driver) (s : Session)

-- Every node was executed and has its own entry. One of Good comes with what was written.
def Executed : Database × Response → List (Moment × Value) → List Value → Prop
  | _, [], [] => True
  | st, n :: nodes, entry :: entries =>
      let o := handleNode env s n.1 st.1 st.2 n.2
      ∃ r, o.flow = .next r ∧ r.results = st.2.results.map (· ++ [entry]) ∧
        (entry = StatusCode.good.value → o.writes ≠ []) ∧
          Executed (st.1.writeAll o.writes, r) nodes entries
  | _, _, _ => False

-- An error or a denial is reported, or the handler has thrown.
def Served.Failed (v : Served) : Prop :=
  v.response = none ∨ ∃ r, v.response = some r ∧ StatusCode.bad.code ≤ r.serviceResult.code

def AnswersWhatWasDone (db : Database) (nodes : List (Moment × Value)) : Prop :=
  let served := writeRequest env s db nodes
  (∀ r, served.response = some r → r.serviceResult = .good →
      ∃ entries, r.results = some entries ∧ Executed env s (db, start) nodes entries) ∧
    (served.Failed → served.database.commandsQueue = db.commandsQueue)

end Property

section Fates

variable (env : Driver) (s : Session) (m : Moment)

-- What becomes of a node that is reached.
inductive Fate where
  -- it has an entry, with or without a command that is queued
  | queued
  | entered
  -- it has none
  | silent
  -- it ends the request
  | acknowledged
  | special
  | unconfirmed
  | refused
  deriving DecidableEq

-- A special command, and one that the database does not acknowledge, end the request.
def commandFate (db : Database) (id : Value) : Fate :=
  if isSpecial id then if env.acknowledged then .special else .unconfirmed
  else
    match (commandPoint env db id).filter fun data => (data.num "_id").isSome with
    | none => .refused
    | some data =>
        if !canSendCommandTo s (data.lookup "group1") then .refused
        else if env.acknowledged then .queued
        else .unconfirmed

def sentFate (db : Database) (id : Value) : Value → Fate
  | .document value =>
      if (commandValue env value).isNone then .refused else commandFate env s db id
  | _ => .refused

def valueFate (db : Database) (node : Document) : Fate :=
  if !canSendCommands s then .refused
  else
    match node.lookup "NodeId" with
    | none => .silent
    | some nodeId =>
        match isIn "Id" (some nodeId) with
        | none => .refused
        | some false => .silent
        | some true =>
            match node.lookup "Value", optionalMember (some nodeId) "Id" with
            | some value, some id => sentFate env s db id value
            | _, _ => .refused

-- The update of a point that is not there, or whose event has no text, throws.
def updateFate (found : Option Document) (props : Document) : Fate :=
  if !env.acknowledged then .entered
  else
    match found with
    | none => .refused
    | some prevData =>
        let changes := edited env s.rights prevData props
        if (annotationEvent m prevData changes).isSome && (valueEvent env m prevData changes).isSome
        then .entered
        else .refused

def propertiesFate (db : Database) (node : Document) : Fate :=
  match node.lookup "NodeId" with
  | none => .silent
  | some nodeId =>
      match isIn "Id" (some nodeId) with
      | none => .refused
      | some false => .entered
      | some true =>
          let idType := optionalMember (some nodeId) "IdType"
          match (findPoint env idType (optionalMember (some nodeId) "Id")).join,
            propertiesOf node with
          | some point, some props =>
              updateFate env s m (db.realtimeData.find? point) props
          | _, _ => .refused

-- Flags of an acknowledgement that the user has no right to.
def eventsDenied (body : Option Value) : Bool :=
  !s.rights.ackEvents && [Acknowledge.removeAllEvents, Acknowledge.removeOneEvent,
    Acknowledge.removePointEvents, Acknowledge.ackAllEvents, Acknowledge.ackOneEvent,
    Acknowledge.ackPointEvents].any fun mask => bitAnd env.js body mask ≠ 0

def alarmsDenied (body : Option Value) : Bool :=
  !s.rights.ackAlarms && [Acknowledge.ackOneAlarm, Acknowledge.ackAllAlarms,
    Acknowledge.silenceBeep].any fun mask => bitAnd env.js body mask ≠ 0

-- The parts of an acknowledgement, of which the first two may throw.
def acknowledgement (node : Document) (body idType : Option Value) : Part :=
  let flag (mask : ℕ) : Bool := bitAnd env.js body mask ≠ 0
  let id := optionalMember (node.lookup "NodeId") "Id"
  let point := (findPoint env idType id).join.map fun f => Filter.all [f, s.rights.groupFilter]
  (acknowledgeEvents env s m flag node id).andThen
    ((acknowledgeAlarms s m flag point id).andThen (silenceBeep s m flag))

def acknowledgeFate (node : Document) : Fate :=
  match member (node.lookup "Value") "Body" with
  | none => .refused
  | some body =>
      if eventsDenied env s body || alarmsDenied env s body then .refused
      else
        match member (node.lookup "NodeId") "IdType" with
        | none => .refused
        | some idType =>
            if (acknowledgement env s m node body idType).thrown then .refused else .acknowledged

def fate (db : Database) (node : Value) : Fate :=
  match node with
  | .document node =>
      if !Document.has node "AttributeId" then .silent
      else
        let attributeId := node.lookup "AttributeId"
        if looseEq env.js attributeId AttributeId.extendedAlarmEventsAck then
          acknowledgeFate env s m node
        else if looseEq env.js attributeId AttributeId.value then valueFate env s db node
        else if looseEq env.js attributeId AttributeId.description then
          propertiesFate env s m db node
        else .silent
  | .array _ => .silent
  | _ => .refused

-- The nodes that are reached, each in the state of its turn.
def fates : Database × Response → List (Moment × Value) → List Fate
  | _, [] => []
  | st, n :: nodes =>
      fate env s n.1 st.1 n.2 ::
        match goOn env s st n with
        | some st' => fates st' nodes
        | none => []

-- Nothing special or unconfirmed, no command before a node that is refused, and no node
-- without an entry unless one ends the request.
structure Answerable (fs : List Fate) : Prop where
  special : .special ∉ fs
  unconfirmed : .unconfirmed ∉ fs
  refused : .refused ∈ fs → .queued ∉ fs
  silent : .silent ∈ fs → .acknowledged ∈ fs ∨ .refused ∈ fs

end Fates

section Effects

variable {env : Driver} {s : Session} {m : Moment}

-- What a node of some fate does.
def Does (db : Database) (r : Response) (o : Outcome) : Fate → Prop
  | .queued =>
      (∃ r', o.flow = .next r' ∧ r'.results = r.results.map (· ++ [StatusCode.good.value])) ∧
        ∃ doc, (db.writeAll o.writes).commandsQueue = db.commandsQueue ++ [doc]
  | .entered =>
      (∃ r' entry, o.flow = .next r' ∧ r'.results = r.results.map (· ++ [entry]) ∧
        (entry = StatusCode.good.value → o.writes ≠ [])) ∧
          (db.writeAll o.writes).commandsQueue = db.commandsQueue
  | .silent => o.flow = .next r ∧ o.writes = []
  | .acknowledged =>
      (∃ r', o.flow = .answered r' ∧ r'.serviceResult = .goodNoData) ∧
        (db.writeAll o.writes).commandsQueue = db.commandsQueue
  | .special =>
      (∃ r', o.flow = .answered r' ∧ r'.serviceResult = .good) ∧
        ∃ doc, (db.writeAll o.writes).commandsQueue = db.commandsQueue ++ [doc]
  | .unconfirmed =>
      (∃ r', o.flow = .answered r' ∧ StatusCode.bad.code ≤ r'.serviceResult.code) ∧
        ∃ doc, (db.writeAll o.writes).commandsQueue = db.commandsQueue ++ [doc]
  | .refused =>
      (o.flow = .thrown ∨ ∃ r', o.flow = .answered r' ∧
        StatusCode.bad.code ≤ r'.serviceResult.code) ∧
          (db.writeAll o.writes).commandsQueue = db.commandsQueue

theorem isIn_true {key : String} {v : Value} (h : isIn key (some v) = some true) :
    ∃ held, optionalMember (some v) key = some held := by
  unfold isIn at h
  split at h
  · rename_i fields hfields
    obtain rfl := Option.some.inj hfields
    exact Option.isSome_iff_exists.mp (Option.some.inj h)
  · cases h
  · cases h

section Command

variable (db : Database) (r : Response)

theorem refused_tell (code : StatusCode) (message : String)
    (hbad : StatusCode.bad.code ≤ code.code) :
    Does db r { flow := .answered (r.tell code message) } .refused :=
  ⟨.inr ⟨_, rfl, hbad⟩, rfl⟩

theorem refused_thrown : Does db r { flow := .thrown } .refused := ⟨.inl rfl, rfl⟩

theorem silent_next : Does db r { flow := .next r } .silent := ⟨rfl, rfl⟩

-- A command for a point that has been looked for.
theorem commandTo_does {id : Value} (hspecial : isSpecial id = false) (value shown : Value) :
    Does db r (commandTo env s m r (some id) value shown (commandPoint env db id))
      (commandFate env s db id) := by
  rw [commandFate, if_neg (Bool.not_eq_true _ ▸ hspecial)]
  unfold commandTo
  cases hfound : commandPoint env db id with
  | none => exact refused_tell db r _ _ (by decide)
  | some data =>
      cases hkey : data.num "_id" with
      | none =>
          have hfilter : (some data).filter (fun data => (data.num "_id").isSome) = none := by
            simp [hkey]
          rw [hfilter]
          simp only [Option.bind_some, hkey, Option.map_none]
          exact refused_tell db r _ _ (by decide)
      | some key =>
          have hfilter : (some data).filter (fun data => (data.num "_id").isSome) = some data := by
            simp [hkey]
          rw [hfilter]
          simp only [Option.bind_some, hkey, Option.map_some]
          cases canSendCommandTo s (data.lookup "group1") with
          | false => exact refused_tell db r _ _ (by decide)
          | true =>
              cases env.acknowledged with
              | false =>
                  have hbad : StatusCode.bad.code ≤ StatusCode.badUnexpectedError.code := by decide
                  exact ⟨⟨_, rfl, hbad⟩, _, rfl⟩
              | true => exact ⟨⟨_, rfl, rfl⟩, _, rfl⟩

-- A command that may be sent, with a point and a value.
theorem pointed_does {node : Document} {nodeId id value : Value}
    (hright : canSendCommands s = true) (hnodeId : node.lookup "NodeId" = some nodeId)
    (hin : isIn "Id" (some nodeId) = some true)
    (hid : optionalMember (some nodeId) "Id" = some id)
    (hvalue : node.lookup "Value" = some value) :
    Does db r (command env s m db r node) (sentFate env s db id value) := by
  have hmalformed : Does db r
      { flow := .answered (r.tell .badNodeAttributesInvalid
          "Invalid command type, malformed or missing information!") } .refused :=
    refused_tell db r _ _ (by decide)
  cases value with
  | document fields =>
      cases hcommand : commandValue env fields with
      | none =>
          have hfate : sentFate env s db id (.document fields) = .refused := by
            rw [sentFate, hcommand]
            rfl
          rw [hfate, command]
          simp only [hright, hnodeId, hin, hvalue, hcommand, Bool.not_true, Bool.false_eq_true,
            if_false]
          exact hmalformed
      | some sent =>
          obtain ⟨v, shown⟩ := sent
          have hfate : sentFate env s db id (.document fields) = commandFate env s db id := by
            rw [sentFate, hcommand]
            rfl
          rw [hfate]
          rcases command_pointed m r db hright hnodeId hin hid hvalue hcommand with
            ⟨t, rfl, hspecial, heq⟩ | ⟨hspecial, hnone, heq⟩ | ⟨hspecial, heq⟩
          · rw [heq, commandFate, hspecial]
            cases env.acknowledged with
            | true => exact ⟨⟨_, rfl, rfl⟩, _, rfl⟩
            | false =>
                have hbad : StatusCode.bad.code ≤ StatusCode.badUnexpectedError.code := by decide
                exact ⟨⟨_, rfl, hbad⟩, _, rfl⟩
          · rw [heq, commandFate, hspecial, hnone]
            exact refused_thrown db r
          · rw [heq]
            exact commandTo_does db r hspecial v shown
  | null =>
      unfold command
      simp only [hright, hnodeId, hin, hvalue, Bool.not_true, Bool.false_eq_true, if_false]
      exact refused_thrown db r
  | bool | number | string | array | dateTime | other =>
      unfold command
      simp only [hright, hnodeId, hin, hvalue, Bool.not_true, Bool.false_eq_true, if_false]
      exact hmalformed

theorem command_does (node : Document) :
    Does db r (command env s m db r node) (valueFate env s db node) := by
  unfold valueFate
  cases hright : canSendCommands s with
  | false =>
      unfold command
      rw [hright]
      exact refused_tell db r _ _ (by decide)
  | true =>
      rw [Bool.not_true, if_neg Bool.false_ne_true]
      cases hnodeId : node.lookup "NodeId" with
      | none =>
          unfold command
          simp only [hright, hnodeId, Bool.not_true, Bool.false_eq_true, if_false]
          exact silent_next db r
      | some nodeId =>
          cases hin : isIn "Id" (some nodeId) with
          | none =>
              unfold command
              simp only [hright, hnodeId, hin, Bool.not_true, Bool.false_eq_true, if_false]
              exact refused_thrown db r
          | some present =>
              cases present with
              | false =>
                  unfold command
                  simp only [hright, hnodeId, hin, Bool.not_true, Bool.false_eq_true, if_false]
                  exact silent_next db r
              | true =>
                  obtain ⟨id, hid⟩ := isIn_true hin
                  cases hvalue : node.lookup "Value" with
                  | none =>
                      unfold command
                      simp only [hright, hnodeId, hin, hvalue, Bool.not_true, Bool.false_eq_true,
                        if_false]
                      exact refused_tell db r _ _ (by decide)
                  | some value =>
                      simp only [hin, hid]
                      exact pointed_does db r hright hnodeId hin hid hvalue

end Command

section Others

variable (db : Database) (r : Response)

-- Only the insertion of a command changes the queue.
theorem queue_writeAll {ws : List Write} (h : ∀ w ∈ ws, ∀ doc, w ≠ .insertCommand doc) :
    (db.writeAll ws).commandsQueue = db.commandsQueue := by
  induction ws generalizing db with
  | nil => rfl
  | cons w ws ih =>
      have hw : (db.write w).commandsQueue = db.commandsQueue := by
        cases w with
        | insertCommand doc => exact absurd rfl (h _ List.mem_cons_self doc)
        | updateRealtime | updateRealtimeMany | updateSoeMany | insertSoe => rfl
      exact (ih (db.write w) fun w hw => h w (List.mem_cons_of_mem _ hw)).trans hw

variable (env s m) in
theorem editPoint_queue (id : Option Value) (point : Filter) (found : Option Document)
    (props : Document) :
    (db.writeAll (editPoint env s m r id point found props).writes).commandsQueue =
      db.commandsQueue := by
  obtain ⟨check, events, hwrites, -, hevents⟩ := editPoint_writes env s m r id point found props
  refine queue_writeAll db fun w hw doc => ?_
  rw [hwrites, List.append_assoc, List.mem_append, List.mem_append] at hw
  rcases hw with hw | hw | hw
  · rw [List.mem_singleton.mp hw]
    exact Write.noConfusion
  · split_ifs at hw
    · cases hw
    · rw [List.mem_singleton.mp hw]
      exact Write.noConfusion
  · obtain ⟨event, rfl⟩ := hevents w hw
    exact Write.noConfusion

theorem editPoint_does (id : Option Value) (point : Filter) (found : Option Document)
    (props : Document) :
    Does db r (editPoint env s m r id point found props) (updateFate env s m found props) := by
  have hqueue := editPoint_queue env s m db r id point found props
  unfold updateFate
  cases hack : env.acknowledged with
  | false =>
      have hflow : (editPoint env s m r id point found props).flow = .next
          { r with results := r.results.map (· ++ [StatusCode.badNodeIdUnknown.value]) } := by
        unfold editPoint
        simp [hack]
      exact ⟨⟨_, _, hflow, rfl, fun h => absurd h (by decide)⟩, hqueue⟩
  | true =>
      cases found with
      | none =>
          have hflow : (editPoint env s m r id point none props).flow = .thrown := by
            unfold editPoint
            simp [hack]
          exact ⟨.inl hflow, hqueue⟩
      | some prevData =>
          have hnone (h : annotationEvent m prevData (edited env s.rights prevData props) = none ∨
              valueEvent env m prevData (edited env s.rights prevData props) = none) :
              (editPoint env s m r id point (some prevData) props).flow = .thrown := by
            unfold editPoint
            rcases h with h | h
            · simp [hack, h]
            · simp only [hack, Option.getD_some, h]
              cases annotationEvent m prevData (edited env s.rights prevData props) <;> simp
          cases hannotation : annotationEvent m prevData (edited env s.rights prevData props) with
          | none =>
              simp only [Bool.not_true, Bool.false_eq_true, if_false, hannotation,
                Option.isSome_none, Bool.false_and]
              exact ⟨.inl (hnone (.inl hannotation)), hqueue⟩
          | some annotated =>
              cases hvalue : valueEvent env m prevData (edited env s.rights prevData props) with
              | none =>
                  simp only [Bool.not_true, Bool.false_eq_true, if_false, hannotation, hvalue,
                    Option.isSome_none, Bool.and_false]
                  exact ⟨.inl (hnone (.inr hvalue)), hqueue⟩
              | some substituted =>
                  simp only [Bool.not_true, Bool.false_eq_true, if_false, hannotation, hvalue,
                    Option.isSome_some, Bool.and_self, if_true]
                  have hflow : (editPoint env s m r id point (some prevData) props).flow = .next
                      { r with results := r.results.map (· ++ [StatusCode.good.value]) } := by
                    unfold editPoint
                    simp [hack, hannotation, hvalue]
                  have hwrites : (editPoint env s m r id point (some prevData) props).writes ≠ [] := by
                    obtain ⟨check, events, hwrites, -⟩ :=
                      editPoint_writes env s m r id point (some prevData) props
                    rw [hwrites]
                    exact List.cons_ne_nil _ _
                  exact ⟨⟨_, _, hflow, rfl, fun _ => hwrites⟩, hqueue⟩

theorem writeProperties_does (node : Document) :
    Does db r (writeProperties env s m db r node) (propertiesFate env s m db node) := by
  unfold writeProperties propertiesFate
  cases node.lookup "NodeId" with
  | none => exact silent_next db r
  | some nodeId =>
      dsimp only
      cases isIn "Id" (some nodeId) with
      | none => exact refused_thrown db r
      | some present =>
          cases present with
          | false => exact ⟨⟨_, _, rfl, rfl, fun h => absurd h (by decide)⟩, rfl⟩
          | true =>
              cases findPoint env (optionalMember (some nodeId) "IdType")
                  (optionalMember (some nodeId) "Id") with
              | none => exact refused_tell db r _ _ (by decide)
              | some found =>
                  cases found with
                  | none => exact refused_thrown db r
                  | some point =>
                      cases propertiesOf node with
                      | none => exact refused_thrown db r
                      | some props => exact editPoint_does db r _ point _ props

theorem acknowledgeAlarms_queue (flag : ℕ → Bool) (point : Option Filter) (id : Option Value) :
    ∀ w ∈ (acknowledgeAlarms s m flag point id).writes, ∀ doc, w ≠ .insertCommand doc := by
  unfold acknowledgeAlarms
  dsimp only
  split_ifs
  · simp
  · cases point <;> simp
  · simp

theorem silenceBeep_queue (flag : ℕ → Bool) :
    ∀ w ∈ (silenceBeep s m flag).writes, ∀ doc, w ≠ .insertCommand doc := by
  unfold silenceBeep
  split_ifs <;> simp

variable (env s m) in
theorem acknowledgement_queue (node : Document) (body idType : Option Value) :
    (db.writeAll (acknowledgement env s m node body idType).writes).commandsQueue =
      db.commandsQueue := by
  refine queue_writeAll db fun w hw => ?_
  rcases mem_andThen hw with hw | hw
  · rcases acknowledgeEvents_writes env m _ node _ with hnone | ⟨conditions, u, hone⟩
    · rw [hnone] at hw
      cases hw
    · rw [hone, List.mem_singleton] at hw
      rw [hw]
      exact fun _ => Write.noConfusion
  · rcases mem_andThen hw with hw | hw
    · exact acknowledgeAlarms_queue _ _ _ w hw
    · exact silenceBeep_queue _ w hw

theorem acknowledge_does (node : Document) :
    Does db r (acknowledge env s m r node) (acknowledgeFate env s m node) := by
  unfold acknowledge acknowledgeFate
  cases member (node.lookup "Value") "Body" with
  | none => exact refused_thrown db r
  | some body =>
      have hbad : StatusCode.bad.code ≤ StatusCode.badUserAccessDenied.code := by decide
      change Does db r
        (if eventsDenied env s body then _ else if alarmsDenied env s body then _ else _)
        (if eventsDenied env s body || alarmsDenied env s body then .refused else _)
      cases eventsDenied env s body with
      | true => exact refused_tell db r _ _ hbad
      | false =>
          cases alarmsDenied env s body with
          | true => exact refused_tell db r _ _ hbad
          | false =>
              simp only [Bool.or_self, Bool.false_eq_true, if_false]
              cases member (node.lookup "NodeId") "IdType" with
              | none => exact refused_thrown db r
              | some idType =>
                  have hqueue := acknowledgement_queue env s m db node body idType
                  change Does db r
                    { writes := (acknowledgement env s m node body idType).writes
                      actions := (acknowledgement env s m node body idType).actions
                      flow := if (acknowledgement env s m node body idType).thrown then .thrown
                        else .answered (r.tell .goodNoData
                          ("Ok, no data returned. Query time: " ++ m.elapsed ++ " ms")) }
                    (if (acknowledgement env s m node body idType).thrown then .refused
                      else .acknowledged)
                  cases (acknowledgement env s m node body idType).thrown with
                  | true => exact ⟨.inl rfl, hqueue⟩
                  | false => exact ⟨⟨_, rfl, rfl⟩, hqueue⟩

variable (env s m) in
theorem handleNode_does (node : Value) :
    Does db r (handleNode env s m db r node) (fate env s m db node) := by
  cases node with
  | document node =>
      unfold handleNode fate
      dsimp only
      split_ifs
      · exact silent_next db r
      · exact acknowledge_does db r node
      · exact command_does db r node
      · exact writeProperties_does db r node
      · exact silent_next db r
  | array => exact silent_next db r
  | null | bool | number | string | dateTime | other => exact refused_thrown db r

end Others

end Effects

section Request

variable {env : Driver} {s : Session}

-- The node has an entry of its own.
def Fate.enters : Fate → Bool
  | .queued | .entered => true
  | _ => false

def Fate.queues : Fate → Bool
  | .queued | .special | .unconfirmed => true
  | _ => false

variable (env s) in
theorem queue_node (db : Database) (r : Response) (n : Moment × Value) :
    ∃ docs, (db.writeAll (handleNode env s n.1 db r n.2).writes).commandsQueue =
        db.commandsQueue ++ docs ∧ (docs = [] ↔ (fate env s n.1 db n.2).queues = false) := by
  have hdoes := handleNode_does env s n.1 db r n.2
  generalize fate env s n.1 db n.2 = f at hdoes ⊢
  cases f with
  | queued | special | unconfirmed =>
      obtain ⟨-, doc, hqueue⟩ := hdoes
      exact ⟨[doc], hqueue, by simp [Fate.queues]⟩
  | silent => exact ⟨[], by rw [hdoes.2, List.append_nil]; rfl, by simp [Fate.queues]⟩
  | entered | acknowledged | refused =>
      exact ⟨[], by rw [hdoes.2, List.append_nil], by simp [Fate.queues]⟩

-- Whether a node passes, with an entry or without.
theorem node_passes {db : Database} {r r' : Response} {n : Moment × Value}
    (h : (handleNode env s n.1 db r n.2).flow = .next r') :
    (fate env s n.1 db n.2 = .silent ∧ r' = r) ∨
      (fate env s n.1 db n.2).enters = true ∧ ∃ entry,
        r'.results = r.results.map (· ++ [entry]) ∧
          (entry = StatusCode.good.value → (handleNode env s n.1 db r n.2).writes ≠ []) := by
  have hdoes := handleNode_does env s n.1 db r n.2
  generalize fate env s n.1 db n.2 = f at hdoes ⊢
  cases f with
  | queued =>
      obtain ⟨⟨r₁, hflow, hresults⟩, doc, hqueue⟩ := hdoes
      obtain rfl := Flow.next.inj (hflow.symm.trans h)
      refine .inr ⟨rfl, _, hresults, fun _ hnone => ?_⟩
      rw [hnone] at hqueue
      simp [Database.writeAll] at hqueue
  | entered =>
      obtain ⟨⟨r₁, entry, hflow, hresults, hwrites⟩, -⟩ := hdoes
      obtain rfl := Flow.next.inj (hflow.symm.trans h)
      exact .inr ⟨rfl, entry, hresults, hwrites⟩
  | silent => exact .inl ⟨rfl, (Flow.next.inj (hdoes.1.symm.trans h)).symm⟩
  | acknowledged | special | unconfirmed =>
      obtain ⟨⟨r₁, hflow, -⟩, -⟩ := hdoes
      cases hflow.symm.trans h
  | refused => rcases hdoes.1 with hflow | ⟨r₁, hflow, -⟩ <;> cases hflow.symm.trans h

-- What the answer is where a node ends the request.
theorem node_ends {db : Database} {r : Response} {n : Moment × Value}
    (h : ∀ r', (handleNode env s n.1 db r n.2).flow ≠ .next r') :
    (fate env s n.1 db n.2 = .special ∧ ∃ r', (handleNode env s n.1 db r n.2).flow = .answered r' ∧
      r'.serviceResult = .good) ∨
    (fate env s n.1 db n.2 = .acknowledged ∧ ∃ r',
      (handleNode env s n.1 db r n.2).flow = .answered r' ∧ r'.serviceResult = .goodNoData) ∨
    (fate env s n.1 db n.2 = .unconfirmed ∨ fate env s n.1 db n.2 = .refused) ∧
      ((handleNode env s n.1 db r n.2).flow = .thrown ∨ ∃ r',
        (handleNode env s n.1 db r n.2).flow = .answered r' ∧
          StatusCode.bad.code ≤ r'.serviceResult.code) := by
  have hdoes := handleNode_does env s n.1 db r n.2
  generalize fate env s n.1 db n.2 = f at hdoes ⊢
  cases f with
  | queued =>
      obtain ⟨⟨r', hflow, -⟩, -⟩ := hdoes
      exact absurd hflow (h r')
  | entered =>
      obtain ⟨⟨r', entry, hflow, -⟩, -⟩ := hdoes
      exact absurd hflow (h r')
  | silent => exact absurd hdoes.1 (h r)
  | acknowledged => exact .inr (.inl ⟨rfl, hdoes.1⟩)
  | special => exact .inl ⟨rfl, hdoes.1⟩
  | unconfirmed => exact .inr (.inr ⟨.inl rfl, .inr hdoes.1⟩)
  | refused => exact .inr (.inr ⟨.inr rfl, hdoes.1⟩)

theorem writeNodes_next {db : Database} {r r' : Response} {n : Moment × Value}
    (h : (handleNode env s n.1 db r n.2).flow = .next r') (actions : List Document)
    (nodes : List (Moment × Value)) :
    writeNodes env s db r actions (n :: nodes) =
        writeNodes env s (db.writeAll (handleNode env s n.1 db r n.2).writes) r'
          (actions ++ (handleNode env s n.1 db r n.2).actions) nodes ∧
      fates env s (db, r) (n :: nodes) = fate env s n.1 db n.2 ::
        fates env s (db.writeAll (handleNode env s n.1 db r n.2).writes, r') nodes := by
  obtain ⟨m, node⟩ := n
  constructor
  · rw [writeNodes]
    dsimp only at h ⊢
    rw [h]
  · have hgo : goOn env s (db, r) (m, node) =
        some (db.writeAll (handleNode env s m db r node).writes, r') := by
      unfold goOn
      dsimp only at h ⊢
      rw [h]
    rw [fates, hgo]

theorem writeNodes_ends {db : Database} {r : Response} {n : Moment × Value}
    (h : ∀ r', (handleNode env s n.1 db r n.2).flow ≠ .next r') (actions : List Document)
    (nodes : List (Moment × Value)) :
    (writeNodes env s db r actions (n :: nodes)).database =
        db.writeAll (handleNode env s n.1 db r n.2).writes ∧
      (∀ r', (handleNode env s n.1 db r n.2).flow = .answered r' →
        (writeNodes env s db r actions (n :: nodes)).response = some r') ∧
      ((handleNode env s n.1 db r n.2).flow = .thrown →
        (writeNodes env s db r actions (n :: nodes)).response = none) ∧
      fates env s (db, r) (n :: nodes) = [fate env s n.1 db n.2] := by
  obtain ⟨m, node⟩ := n
  rw [writeNodes, fates]
  unfold goOn
  dsimp only at h ⊢
  cases hflow : (handleNode env s m db r node).flow with
  | next r' => exact absurd hflow (h r')
  | answered r' =>
      refine ⟨rfl, fun r₁ heq => ?_, fun heq => (by cases heq), rfl⟩
      rw [Flow.answered.inj heq]
  | thrown => exact ⟨rfl, fun r₁ heq => (by cases heq), fun _ => rfl, rfl⟩

-- The request ends at a special command, or goes through.
def EndsGood (fs : List Fate) : Prop :=
  .special ∈ fs ∨ .acknowledged ∉ fs ∧ .unconfirmed ∉ fs ∧ .refused ∉ fs

def EndsFailed (fs : List Fate) : Prop := .unconfirmed ∈ fs ∨ .refused ∈ fs

-- A node that passes does not tell how the request ends.
theorem ends_cons {f : Fate} (h : f = .silent ∨ f.enters = true) (fs : List Fate) :
    (EndsGood (f :: fs) ↔ EndsGood fs) ∧ (EndsFailed (f :: fs) ↔ EndsFailed fs) := by
  cases f with
  | queued | entered | silent => simp [EndsGood, EndsFailed]
  | acknowledged | special | unconfirmed | refused => simp [Fate.enters] at h

-- The answer, by the end of the request.
theorem writeNodes_answer (db : Database) (r : Response) (actions : List Document)
    (nodes : List (Moment × Value)) :
    let fs := fates env s (db, r) nodes
    let served := writeNodes env s db r actions nodes
    (EndsGood fs ∧ ¬EndsFailed fs ∧
        ∃ r', served.response = some r' ∧ r'.serviceResult = .good) ∨
      (¬EndsGood fs ∧ ¬EndsFailed fs ∧
        ∃ r', served.response = some r' ∧ r'.serviceResult = .goodNoData) ∨
      ¬EndsGood fs ∧ EndsFailed fs ∧ served.Failed := by
  dsimp only
  induction nodes generalizing db r actions with
  | nil => exact .inl ⟨by simp [EndsGood, fates], by simp [EndsFailed, fates], _, rfl, rfl⟩
  | cons n nodes ih =>
      by_cases hnext : ∃ r', (handleNode env s n.1 db r n.2).flow = .next r'
      · obtain ⟨r', hflow⟩ := hnext
        obtain ⟨hrun, hfates⟩ := writeNodes_next hflow actions nodes
        have hpasses : fate env s n.1 db n.2 = .silent ∨ (fate env s n.1 db n.2).enters = true :=
          (node_passes hflow).imp And.left And.left
        obtain ⟨hgood, hfailed⟩ := ends_cons hpasses
          (fates env s (db.writeAll (handleNode env s n.1 db r n.2).writes, r') nodes)
        rw [hrun, hfates, hgood, hfailed]
        exact ih _ _ _
      · rw [not_exists] at hnext
        obtain ⟨-, hanswered, hthrown, hfates⟩ := writeNodes_ends hnext actions nodes
        rw [hfates]
        rcases node_ends hnext with ⟨hfate, r', hflow, hgood⟩ | ⟨hfate, r', hflow, hno⟩ |
          ⟨hfate, hfails⟩
        · exact .inl ⟨by simp [EndsGood, hfate], by simp [EndsFailed, hfate], r',
            hanswered r' hflow, hgood⟩
        · exact .inr (.inl ⟨by simp [EndsGood, hfate], by simp [EndsFailed, hfate], r',
            hanswered r' hflow, hno⟩)
        · have hfailed : (writeNodes env s db r actions (n :: nodes)).Failed :=
            hfails.imp hthrown fun ⟨r', hflow, hbad⟩ => ⟨r', hanswered r' hflow, hbad⟩
          rcases hfate with hfate | hfate
          · exact .inr (.inr ⟨by simp [EndsGood, hfate], by simp [EndsFailed, hfate], hfailed⟩)
          · exact .inr (.inr ⟨by simp [EndsGood, hfate], by simp [EndsFailed, hfate], hfailed⟩)

theorem not_failed {v : Served} {r : Response} (h : v.response = some r)
    (hgood : r.serviceResult.code < StatusCode.bad.code) : ¬v.Failed := by
  rintro (hnone | ⟨r', hr', hbad⟩)
  · cases h.symm.trans hnone
  · obtain rfl := Option.some.inj (h.symm.trans hr')
    exact absurd hgood (not_lt.mpr hbad)

theorem good_iff (db : Database) (r : Response) (actions : List Document)
    (nodes : List (Moment × Value)) :
    (∃ r', (writeNodes env s db r actions nodes).response = some r' ∧ r'.serviceResult = .good) ↔
      EndsGood (fates env s (db, r) nodes) := by
  rcases writeNodes_answer db r actions nodes with
    ⟨hgood, -, hanswer⟩ | ⟨hends, -, r', hr', hno⟩ | ⟨hends, -, hfailed⟩
  · exact iff_of_true hanswer hgood
  · refine iff_of_false ?_ hends
    rintro ⟨r₁, hr₁, hgood⟩
    obtain rfl := Option.some.inj (hr'.symm.trans hr₁)
    exact absurd (congrArg StatusCode.code (hno.symm.trans hgood)) (by decide)
  · refine iff_of_false ?_ hends
    rintro ⟨r₁, hr₁, hgood⟩
    have hcode : r₁.serviceResult.code < StatusCode.bad.code := by rw [hgood]; decide
    exact not_failed hr₁ hcode hfailed

-- An error is reported for the node that ends the request.
theorem failed_iff (db : Database) (r : Response) (actions : List Document)
    (nodes : List (Moment × Value)) :
    (writeNodes env s db r actions nodes).Failed ↔ EndsFailed (fates env s (db, r) nodes) := by
  rcases writeNodes_answer db r actions nodes with
    ⟨-, hends, r', hr', hgood⟩ | ⟨-, hends, r', hr', hno⟩ | ⟨-, hends, hfailed⟩
  · have hcode : r'.serviceResult.code < StatusCode.bad.code := by rw [hgood]; decide
    exact iff_of_false (not_failed hr' hcode) hends
  · have hcode : r'.serviceResult.code < StatusCode.bad.code := by rw [hno]; decide
    exact iff_of_false (not_failed hr' hcode) hends
  · exact iff_of_true hfailed hends

variable (env s) in
-- Commands are only ever added to the queue.
theorem queue_nodes (db : Database) (r : Response) (actions : List Document)
    (nodes : List (Moment × Value)) :
    ∃ docs, (writeNodes env s db r actions nodes).database.commandsQueue =
        db.commandsQueue ++ docs ∧
      (docs = [] ↔ ∀ f ∈ fates env s (db, r) nodes, f.queues = false) := by
  induction nodes generalizing db r actions with
  | nil => exact ⟨[], (List.append_nil _).symm, by simp [fates]⟩
  | cons n nodes ih =>
      obtain ⟨docs, hqueue, hdocs⟩ := queue_node env s db r n
      by_cases hnext : ∃ r', (handleNode env s n.1 db r n.2).flow = .next r'
      · obtain ⟨r', hflow⟩ := hnext
        obtain ⟨hrun, hfates⟩ := writeNodes_next hflow actions nodes
        obtain ⟨docs', hqueue', hdocs'⟩ := ih (db.writeAll (handleNode env s n.1 db r n.2).writes)
          r' (actions ++ (handleNode env s n.1 db r n.2).actions)
        refine ⟨docs ++ docs', ?_, ?_⟩
        · rw [hrun, hqueue', hqueue, List.append_assoc]
        · rw [hfates, List.forall_mem_cons, ← hdocs, ← hdocs', List.append_eq_nil_iff]
      · rw [not_exists] at hnext
        obtain ⟨hdatabase, -, -, hfates⟩ := writeNodes_ends hnext actions nodes
        exact ⟨docs, by rw [hdatabase, hqueue], by simpa [hfates] using hdocs⟩

variable (env s) in
-- Every node is executed exactly when every one that is reached has an entry.
theorem executed_iff (db : Database) (r : Response) (nodes : List (Moment × Value))
    {held : List Value} (hheld : r.results = some held) :
    (∃ entries, Executed env s (db, r) nodes entries) ↔
      ∀ f ∈ fates env s (db, r) nodes, f.enters = true := by
  induction nodes generalizing db r held with
  | nil => exact iff_of_true ⟨[], trivial⟩ (by simp [fates])
  | cons n nodes ih =>
      by_cases hnext : ∃ r', (handleNode env s n.1 db r n.2).flow = .next r'
      · obtain ⟨r', hflow⟩ := hnext
        rw [(writeNodes_next hflow [] nodes).2, List.forall_mem_cons]
        rcases node_passes hflow with ⟨hfate, rfl⟩ | ⟨henters, entry, hresults, hwrites⟩
        · -- an entry that the node does not add
          refine iff_of_false ?_ (by simp [hfate, Fate.enters])
          rintro ⟨entries, hexecuted⟩
          cases entries with
          | nil => exact absurd hexecuted (by simp [Executed])
          | cons entry entries =>
              obtain ⟨r₁, hflow', hresults, -⟩ := hexecuted
              obtain rfl := Flow.next.inj (hflow.symm.trans hflow')
              simp [hheld] at hresults
        · have hheld' : r'.results = some (held ++ [entry]) := by rw [hresults, hheld]; rfl
          rw [← ih _ r' hheld', and_iff_right henters]
          constructor
          · rintro ⟨entries, hexecuted⟩
            cases entries with
            | nil => exact absurd hexecuted (by simp [Executed])
            | cons entry entries =>
                obtain ⟨r₁, hflow', -, -, hrest⟩ := hexecuted
                obtain rfl := Flow.next.inj (hflow.symm.trans hflow')
                exact ⟨entries, hrest⟩
          · rintro ⟨entries, hrest⟩
            exact ⟨entry :: entries, r', hflow, hresults, hwrites, hrest⟩
      · rw [not_exists] at hnext
        rw [(writeNodes_ends hnext [] nodes).2.2.2]
        refine iff_of_false ?_ ?_
        · rintro ⟨entries, hexecuted⟩
          cases entries with
          | nil => exact absurd hexecuted (by simp [Executed])
          | cons entry entries =>
              obtain ⟨r', hflow, -⟩ := hexecuted
              exact hnext r' hflow
        · rcases node_ends hnext with ⟨hfate, -⟩ | ⟨hfate, -⟩ | ⟨hfate | hfate, -⟩ <;>
            simp [hfate, Fate.enters]

theorem executed_results {db : Database} {r : Response} {nodes : List (Moment × Value)}
    {entries : List Value} (h : Executed env s (db, r) nodes entries) (actions : List Document) :
    ∃ r', (writeNodes env s db r actions nodes).response = some r' ∧
      r'.results = r.results.map (· ++ entries) := by
  induction nodes generalizing db r actions entries with
  | nil =>
      cases entries with
      | nil => exact ⟨_, rfl, by simp⟩
      | cons entry entries => exact absurd h (by simp [Executed])
  | cons n nodes ih =>
      cases entries with
      | nil => exact absurd h (by simp [Executed])
      | cons entry entries =>
          obtain ⟨r', hflow, hresults, -, hrest⟩ := h
          obtain ⟨r₁, hr₁, heq⟩ := ih hrest (actions ++ (handleNode env s n.1 db r n.2).actions)
          refine ⟨r₁, (congrArg Served.response (writeNodes_next hflow actions nodes).1).trans hr₁, ?_⟩
          rw [heq, hresults, Option.map_map]
          simp [Function.comp_def]

theorem answerable_iff (fs : List Fate) :
    ((EndsGood fs → ∀ f ∈ fs, f.enters = true) ∧
      (EndsFailed fs → ∀ f ∈ fs, f.queues = false)) ↔ Answerable fs := by
  constructor
  · rintro ⟨hgood, hfailed⟩
    have hunconfirmed : .unconfirmed ∉ fs := fun h =>
      absurd (hfailed (.inl h) _ h) (by simp [Fate.queues])
    refine ⟨fun h => ?_, hunconfirmed, fun hrefused h => ?_, fun hsilent => ?_⟩
    · exact absurd (hgood (.inl h) _ h) (by simp [Fate.enters])
    · exact absurd (hfailed (.inr hrefused) _ h) (by simp [Fate.queues])
    · by_contra hends
      rw [not_or] at hends
      exact absurd (hgood (.inr ⟨hends.1, hunconfirmed, hends.2⟩) _ hsilent) (by simp [Fate.enters])
  · intro h
    constructor
    · rintro (hspecial | ⟨hacknowledged, -, hrefused⟩) f hf
      · exact absurd hspecial h.special
      · cases f with
        | queued | entered => rfl
        | silent => exact absurd (h.silent hf) (not_or.mpr ⟨hacknowledged, hrefused⟩)
        | acknowledged => exact absurd hf hacknowledged
        | special => exact absurd hf h.special
        | unconfirmed => exact absurd hf h.unconfirmed
        | refused => exact absurd hf hrefused
    · rintro (hunconfirmed | hrefused) f hf
      · exact absurd hunconfirmed h.unconfirmed
      · cases f with
        | queued => exact absurd hf (h.refused hrefused)
        | special => exact absurd hf h.special
        | unconfirmed => exact absurd hf h.unconfirmed
        | entered | silent | acknowledged | refused => rfl

-- An answer of Good tells that every node was executed, and an error that nothing was queued:
-- exactly when nothing special or unconfirmed is reached, no command comes before a node that
-- is refused, and a node without an entry comes only before one that ends the request.
theorem answersWhatWasDone_iff (env : Driver) (s : Session) (db : Database)
    (nodes : List (Moment × Value)) :
    AnswersWhatWasDone env s db nodes ↔ Answerable (fates env s (db, start) nodes) := by
  have hexecuted := executed_iff env s db start nodes rfl
  rw [← answerable_iff, ← good_iff db start [] nodes, ← failed_iff db start [] nodes, ← hexecuted]
  refine and_congr ?_ (imp_congr_right fun _ => ?_)
  · constructor
    · rintro h ⟨r, hr, hgood⟩
      obtain ⟨entries, -, hentries⟩ := h r hr hgood
      exact ⟨entries, hentries⟩
    · intro h r hr hgood
      obtain ⟨entries, hentries⟩ := h ⟨r, hr, hgood⟩
      obtain ⟨r', hr', hresults⟩ := executed_results hentries []
      obtain rfl := Option.some.inj (hr.symm.trans hr')
      exact ⟨entries, hresults, hentries⟩
  · obtain ⟨docs, hqueue, hdocs⟩ := queue_nodes env s db start [] nodes
    rw [← hdocs]
    change (writeNodes env s db start [] nodes).database.commandsQueue = _ ↔ _
    rw [hqueue, List.append_right_eq_self]

section Samples

def special : Value :=
  .document [("AttributeId", .number (.fin 13)), ("NodeId", .document [("Id", .string "$$Restart")]),
    ("Value", .document [("Type", .number (.fin 11)), ("Body", .number (.fin 1))])]

-- A special command before a command: the answer is Good, without results.
theorem special_skips_command :
    ¬AnswersWhatWasDone driver commander breakers [(moment, special), (moment, close "FeederA")] := by
  rintro ⟨hgood, -⟩
  obtain ⟨entries, hresults, hexecuted⟩ := hgood { start with serviceResult := .good } rfl rfl
  obtain rfl : [] = entries := Option.some.inj hresults
  exact hexecuted

end Samples

end Request

end JsonScada.WebServer
