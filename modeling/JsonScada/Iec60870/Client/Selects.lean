import JsonScada.Iec60870.Client
import JsonScada.Library.LastWrite

namespace JsonScada.Iec60870

open JsonScada.Library
open JsonScada.JsMongo (getBool getDouble)

section Twin

def Qualifier.withoutSelect (q : Qualifier) : Qualifier := { q with inSelect := false }

-- A command as it is executed, without its select bit.
def CommandInfo.withoutSelect : CommandInfo → CommandInfo
  | single v q => single v q.withoutSelect
  | double v q => double v q.withoutSelect
  | step v q => step v q.withoutSelect
  | setpointNormal v q => setpointNormal v q.withoutSelect
  | setpointScaled v q => setpointScaled v q.withoutSelect
  | setpointFloat v q => setpointFloat v q.withoutSelect
  | info => info

def Info.withoutSelect : Info → Info
  | command info => command info.withoutSelect
  | info => info

def InfoObject.withoutSelect (o : InfoObject) : InfoObject := { o with info := o.info.withoutSelect }

theorem buildInfo_withoutSelect (pl : Platform) (asduNum : ℤ) (value : Double) (cmdQualif : ℤ)
    (q : Quality) (kconv1 kconv2 : Double) (transient : Bool) :
    (buildInfo pl asduNum value true cmdQualif q kconv1 kconv2 transient).map Info.withoutSelect =
      buildInfo pl asduNum value false cmdQualif q kconv1 kconv2 transient := by
  unfold buildInfo
  simp only
  split <;> rfl

-- The execute twin of a select: the same object but for the select bit.
theorem buildInfoObj_withoutSelect (pl : Platform) (now asduNum addr : ℤ) (value : Double)
    (cmdQualif : ℤ) (q : Quality) (timeTag : Option ℤ) (kconv1 kconv2 : Double) (transient : Bool) :
    buildInfoObj pl now asduNum addr value false cmdQualif q timeTag kconv1 kconv2 transient =
      (buildInfoObj pl now asduNum addr value true cmdQualif q timeTag kconv1 kconv2 transient).map
        InfoObject.withoutSelect := by
  unfold buildInfoObj
  simp only [← buildInfo_withoutSelect, Option.map_map]
  rfl

end Twin

namespace Client

section History

variable (conns : List Conn)

structure Event where
  env : Env
  action : Action

def issueOf (e : Event) : Option Issue :=
  match e.action with
  | .command doc =>
      match commandOutcome e.env conns doc with
      | .issued issue => some issue
      | _ => none
  | .confirmation _ _ => none

-- The twin that an event stores for a connection.
def storedIn (i : ℕ) (e : Event) : Option LastSelected :=
  (issueOf conns e).bind fun issue =>
    if issue.conn = i then issue.exec.map fun exec => { obj := exec, ca := issue.ca } else none

def selectionsAfter (history : List Event) : Selections :=
  history.foldl (fun s e => (step e.env conns s e.action).1) fun _ => none

-- What is sent at an event of a history: the connection, the common address, the object.
def sends (effects : List Effect) : List (ℕ × UInt16 × InfoObject) :=
  effects.filterMap fun
    | .send conn ca obj => some (conn, ca, obj)
    | _ => none

def sentAt (history : List Event) (n : ℕ) : List (ℕ × UInt16 × InfoObject) :=
  match history[n]? with
  | some e => sends (step e.env conns (selectionsAfter conns (history.take n)) e.action).2
  | none => []

-- The last select-before-operate command that was issued to a connection.
def lastIssued (i : ℕ) (history : List Event) : Option LastSelected :=
  LastWrite.after (storedIn conns i) none history

theorem step_selections (s : Selections) (e : Event) (i : ℕ) :
    (step e.env conns s e.action).1 i = (storedIn conns i e).or (s i) := by
  unfold storedIn issueOf
  cases e.action with
  | confirmation conn pack => rfl
  | command doc =>
      simp only [step, processCommand]
      cases commandOutcome e.env conns doc with
      | issued issue =>
          simp only
          cases hexec : issue.exec with
          | none => simp [hexec]
          | some exec =>
              by_cases hi : issue.conn = i
              · subst hi
                simp [hexec, setLastSelected]
              · simp [hi, setLastSelected, Function.update_of_ne (Ne.symm hi)]
      | _ => rfl

theorem selectionsAfter_eq (history : List Event) (i : ℕ) :
    selectionsAfter conns history i = lastIssued conns i history := by
  induction history using List.reverseRecOn with
  | nil => rfl
  | append_singleton history e ih =>
      rw [lastIssued, LastWrite.after_concat, ← lastIssued, ← ih, ← step_selections]
      unfold selectionsAfter
      rw [List.foldl_concat]

end History

section Confirmations

variable {conns : List Conn}

-- The select bit of a single, double or step command.
def chasedSelect : CommandInfo → Bool
  | .single _ qoc | .double _ qoc | .step _ qoc => qoc.inSelect
  | _ => false

-- A positive confirmation of a single, double or step command that selects.
def ConfirmsSelect (pack : CommandAsdu) : Prop :=
  chasedSelect pack.info = true ∧ pack.cause = .activationCon ∧ pack.isNegative = false

instance (pack : CommandAsdu) : Decidable (ConfirmsSelect pack) :=
  inferInstanceAs (Decidable (_ ∧ _ ∧ _))

theorem selects_eq (pack : CommandAsdu) :
    pack.selects =
      if ConfirmsSelect pack then [{ ca := pack.commonAddr.toNat, ioa := pack.ioa.toNat }] else [] := by
  obtain ⟨commonAddr, cause, isNegative, ioa, info, time⟩ := pack
  cases info <;>
    simp only [CommandAsdu.selects, ConfirmsSelect, chasedSelect, Bool.and_eq_true, decide_eq_true_eq,
      Bool.not_eq_true', and_assoc, Bool.false_eq_true, false_and, if_false]
  all_goals congr

-- The execute that a confirmed select brings about: that of the last command issued, if it
-- has the same object address.
def executeOf (i : ℕ) (last : Option LastSelected) (pack : CommandAsdu) :
    List (ℕ × UInt16 × InfoObject) :=
  match last with
  | some last =>
      if last.obj.ioa = pack.ioa.toNat ∧ isControlType last.obj.typeId = true then
        [(i, pack.commonAddr, last.obj)]
      else []
  | none => []

theorem toCommonAddr_toNat (ca : UInt16) : toCommonAddr ca.toNat = ca := by
  have hlt := ca.toNat_lt
  unfold toCommonAddr
  have hmod : ((ca.toNat : ℤ) % 2 ^ 16).toNat = ca.toNat := by omega
  rw [hmod, UInt16.ofNat_toNat]

theorem sends_acks (acks : List IecCmdAck) (rest : List Effect) :
    sends (acks.map .ack ++ rest) = sends rest := by
  unfold sends
  rw [List.filterMap_append, List.filterMap_map]
  have hnone : acks.filterMap ((fun e : Effect => match e with
      | .send conn ca obj => some (conn, ca, obj)
      | _ => none) ∘ Effect.ack) = [] := by
    rw [List.filterMap_eq_nil_iff]
    intro a _
    rfl
  rw [hnone, List.nil_append]

theorem sentAt_confirmation (conns : List Conn) {history : List Event} {n i : ℕ} {env : Env}
    {pack : CommandAsdu}
    (hn : history[n]? = some ⟨env, .confirmation i pack⟩) :
    sentAt conns history n =
      if ConfirmsSelect pack then executeOf i (lastIssued conns i (history.take n)) pack else [] := by
  unfold sentAt
  rw [hn]
  simp only [step, asduHandler, sends_acks]
  rw [selects_eq]
  by_cases hselect : ConfirmsSelect pack
  · rw [if_pos hselect, if_pos hselect]
    simp only [List.flatMap_cons, List.flatMap_nil, List.append_nil, selectedFor, selectionsAfter_eq]
    unfold executeOf
    cases lastIssued conns i (history.take n) with
    | none => rfl
    | some last =>
        by_cases hioa : last.obj.ioa = pack.ioa.toNat
        · by_cases hcontrol : isControlType last.obj.typeId = true
          · simp [hioa, hcontrol, sendCommand, sends, toCommonAddr_toNat]
          · simp [hioa, hcontrol, sendCommand, sends]
        · simp [hioa, sends]
  · rw [if_neg hselect, if_neg hselect]
    rfl

end Confirmations

section Issue

variable {conns : List Conn} {env : Env} {doc : Processor.Document} {issue : Issue}

-- The commands whose confirmed select is followed by the execute.
def isSwitching : CommandInfo → Bool
  | .single .. | .double .. | .step .. => true
  | _ => false

theorem buildInfo_selects {pl : Platform} {asduNum cmdQualif : ℤ} {value kconv1 kconv2 : Double}
    {q : Quality} {transient : Bool} {info : CommandInfo}
    (h : buildInfo pl asduNum value true cmdQualif q kconv1 kconv2 transient = some (.command info))
    (hswitching : isSwitching info = true) :
    chasedSelect info = true ∧ isControlType asduNum.toNat = true := by
  unfold buildInfo at h
  simp only at h
  split at h <;> cases h <;> first | exact ⟨rfl, rfl⟩ | cases hswitching

-- What is issued for a select-before-operate command: the select and its execute twin.
theorem issued_sbo (h : commandOutcome env conns doc = .issued issue)
    (hsbo : getBool doc "protocolSourceCommandUseSBO" false = true) :
    commandObj env doc true = some issue.obj ∧ issue.exec = some issue.obj.withoutSelect := by
  unfold commandOutcome at h
  simp only [hsbo, if_true] at h
  cases hfind : findConn env conns
      (env.pl.toInt .int (getDouble doc "protocolSourceConnectionNumber" (.fin 0))).1 with
  | none =>
      rw [hfind] at h
      cases h
  | some i =>
      rw [hfind] at h
      cases hobj : commandObj env doc true with
      | none =>
          rw [hobj] at h
          simp only at h
          split_ifs at h
      | some obj =>
          rw [hobj] at h
          simp only at h
          split_ifs at h
          obtain rfl := Outcome.issued.inj h
          refine ⟨rfl, ?_⟩
          unfold commandObj at hobj ⊢
          simp only at hobj ⊢
          rw [buildInfoObj_withoutSelect, hobj, Option.map_some]

theorem issued_selects (hobj : commandObj env doc true = some issue.obj) {info : CommandInfo}
    (hinfo : issue.obj.info = .command info) (hswitching : isSwitching info = true) :
    chasedSelect info = true ∧ isControlType issue.obj.typeId = true := by
  unfold commandObj buildInfoObj at hobj
  simp only [Option.map_eq_some_iff] at hobj
  obtain ⟨built, hbuilt, hobj⟩ := hobj
  rw [← hobj] at hinfo ⊢
  simp only at hinfo
  subst hinfo
  exact buildInfo_selects hbuilt hswitching

end Issue

section Chase

variable {conns : List Conn} {history : List Event}

-- A select-before-operate command is issued at an event.
def IssuesSelect (conns : List Conn) (history : List Event) (m : ℕ) (issue : Issue) : Prop :=
  ∃ env doc, history[m]? = some ⟨env, .command doc⟩ ∧
    getBool doc "protocolSourceCommandUseSBO" false = true ∧
    commandOutcome env conns doc = .issued issue

-- The positive confirmation of a select.
structure Confirms (pack : CommandAsdu) (issue : Issue) : Prop where
  commonAddr : pack.commonAddr = toCommonAddr issue.ca
  ioa : issue.obj.ioa = pack.ioa.toNat
  info : issue.obj.info = .command pack.info
  cause : pack.cause = .activationCon
  positive : pack.isNegative = false

theorem storedIn_select {m : ℕ} {issue : Issue} (h : IssuesSelect conns history m issue) :
    ∃ e, history[m]? = some e ∧
      storedIn conns issue.conn e = some { obj := issue.obj.withoutSelect, ca := issue.ca } := by
  obtain ⟨env, doc, he, hsbo, hissue⟩ := h
  refine ⟨_, he, ?_⟩
  obtain ⟨-, hexec⟩ := issued_sbo hissue hsbo
  simp [storedIn, issueOf, hissue, hexec]

theorem sentAt_select {m : ℕ} {issue : Issue} (h : IssuesSelect conns history m issue)
    (hcontrol : isControlType issue.obj.typeId = true) :
    sentAt conns history m = [(issue.conn, toCommonAddr issue.ca, issue.obj)] := by
  obtain ⟨env, doc, he, hsbo, hissue⟩ := h
  unfold sentAt
  rw [he]
  simp only [step, processCommand, hissue, sendCommand, hcontrol, if_true, sendResult]
  split_ifs <;> rfl

-- Every confirmed select is executed at its confirmation, and no other confirmation brings
-- about an execute.
def ConfirmedSelectsExecuted (conns : List Conn) (history : List Event) : Prop :=
  ∀ n i env pack, history[n]? = some ⟨env, .confirmation i pack⟩ →
    (∀ m issue, m < n → IssuesSelect conns history m issue → issue.conn = i →
      Confirms pack issue → sentAt conns history n = [(i, pack.commonAddr, issue.obj.withoutSelect)]) ∧
    ((¬∃ m issue, m < n ∧ IssuesSelect conns history m issue ∧ issue.conn = i ∧
      Confirms pack issue) → sentAt conns history n = [])

end Chase

section Example

def environment : Env where
  pl := plainPlatform
  now := 0
  isConnected := fun _ => true
  sendOk := true

def breakerConns : List Conn := [{ protocolConnectionNumber := .fin 1 }]

-- A select-before-operate command of a breaker.
def breakerCommand (ioa : ℕ) : Processor.Document :=
  [("_id", .number (.fin ioa)), ("protocolSourceConnectionNumber", .number (.fin 1)),
    ("protocolSourceCommonAddress", .number (.fin 1)),
    ("protocolSourceObjectAddress", .number (.fin ioa)), ("protocolSourceASDU", .number (.fin 45)),
    ("protocolSourceCommandUseSBO", .bool true), ("value", .number (.fin 1)),
    ("timeTag", .dateTime 0)]

def breakerObj (ioa : ℕ) (inSelect : Bool) : InfoObject where
  typeId := 45
  ioa := ioa
  qualifier := 0
  info := .command (.single true { qual := 0, inSelect := inSelect })
  time := 0

def selectConfirmed (ca : UInt16) (ioa : UInt32) : CommandAsdu where
  commonAddr := ca
  cause := .activationCon
  isNegative := false
  ioa := ioa
  info := .single true { qual := 0, inSelect := true }
  time := none

def selecting (ioa : ℕ) : Event := ⟨environment, .command (breakerCommand ioa)⟩

def confirming (ca : UInt16) (ioa : UInt32) : Event :=
  ⟨environment, .confirmation 0 (selectConfirmed ca ioa)⟩

theorem breakerCommand_issued (ioa : ℕ) (h : ioa = 1 ∨ ioa = 2) :
    commandOutcome environment breakerConns (breakerCommand ioa) =
      .issued
        { conn := 0, obj := breakerObj ioa true, exec := some (breakerObj ioa false), ca := 1 } := by
  rcases h with rfl | rfl <;> decide +kernel

end Example

end Client

end JsonScada.Iec60870
