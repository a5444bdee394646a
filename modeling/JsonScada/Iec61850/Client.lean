import JsonScada.Library.Double
import JsonScada.Library.Run
import JsonScada.Library.Table

namespace JsonScada.Iec61850.Client

open JsonScada.Library

section Values

-- The functional constraints that a data object can expose values under.
inductive FC where
  | st | mx | sp | sv | cf | dc | sg | se | or | bl | ex | co
deriving DecidableEq

def FC.mnemonic : FC → String
  | st => "ST"
  | mx => "MX"
  | sp => "SP"
  | sv => "SV"
  | cf => "CF"
  | dc => "DC"
  | sg => "SG"
  | se => "SE"
  | or => "OR"
  | bl => "BL"
  | ex => "EX"
  | co => "CO"

-- What is read of an MMS value, with the names of its attributes as far as they are known.
structure Extraction where
  isDigital : Bool
  isTransient : Bool
  value : Double
  valueString : String
  valueJSON : String
  asdu : String
  failed : Bool
  isStructure : Bool
  -- milliseconds, zero for none
  timestamp : ℕ
deriving DecidableEq

structure IECValue where
  valueJSON : String
  selfPublish : Bool
  address : String
  asdu : String
  isDigital : Bool
  isTransient : Bool
  value : Double
  valueString : String
  cot : ℕ := 20
  serverTimestamp : ℤ
  sourceTimestamp : Option ℕ := none
  quality : Bool
  connNumber : ℤ
  connName : String
  commonAddress : String
  displayName : String
deriving DecidableEq

structure ReasonCode where
  dataChange : Bool := false
  qualityChange : Bool := false
  dataUpdate : Bool := false
  integrity : Bool := false
  gi : Bool := false
  applTrigger : Bool := false
deriving DecidableEq

structure ReportEntry where
  ref : String
  fc : FC
  reason : ReasonCode
  value : Extraction
deriving DecidableEq

abbrev EntryID := List UInt8

structure Report where
  seqNum : ℕ
  subSeqNum : ℕ
  entryID : EntryID
  dataSet : String
  entries : List ReportEntry
deriving DecidableEq

end Values

section Connection

structure Entry where
  -- where the entry is found, from the address and the constraint of its tag
  key : String
  path : String
  fc : FC
  jsTag : String
  -- the block that reports the object, if any
  rcbName : String := ""
  autoPublish : Bool := false
deriving DecidableEq

structure RcbState where
  ref : String
  rptID : String
  dataSetRef : String
  dataSetDot : String
  buffered : Bool
  collision : Bool := false
deriving DecidableEq

structure Member where
  ref : String
  fc : FC
deriving DecidableEq

-- A report that is enabled, with the members of its data set.
structure ReportSubscription where
  ref : String
  members : List Member
deriving DecidableEq

structure Connection where
  name : String
  protocolConnectionNumber : ℤ
  topics : List String
  autoCreateTags : Bool

inductive Phase where
  | disconnected | discovering | polling
deriving DecidableEq

structure State where
  phase : Phase
  -- how many associations were made
  associations : ℕ
  entries : List Entry
  lastReportIds : String → Option EntryID
  subs : List ReportSubscription
  rcbs : List RcbState
  rcbByRptID : String → Option String
  rcbByDataSet : String → Option String
  dataQueue : List IECValue
  -- the segments that went through the report handler
  processed : List (String × EntryID × ℕ)

variable (conn : Connection)

def entryKey (path : String) (fc : FC) : String := path ++ fc.mnemonic

def Member.key (m : Member) : String := entryKey m.ref m.fc

def ReportEntry.key (e : ReportEntry) : String := entryKey e.ref e.fc

def entry (s : State) (key : String) : Option Entry := s.entries.find? fun e => e.key = key

-- An entry that is there already stays.
def addEntry (s : State) (e : Entry) : State :=
  if (entry s e.key).isSome then s else { s with entries := s.entries ++ [e] }

def setEntryReport (s : State) (key rcbName : String) : State :=
  { s with
    entries := Table.updateFirst (fun e => decide (e.key = key))
      (fun e => { e with rcbName := rcbName }) s.entries }

def newEntry (ref : String) (fc : FC) : Entry where
  key := entryKey ref fc
  path := ref
  fc := fc
  jsTag := conn.name ++ ":" ++ ref
  autoPublish := true

end Connection

section Reports

variable (conn : Connection)

def buildIECValue (now : ℤ) (e : Entry) (x : Extraction) (selfPublish : Bool) : IECValue where
  valueJSON := x.valueJSON
  selfPublish := selfPublish
  address := e.path
  asdu := x.asdu
  isDigital := x.isDigital
  isTransient := x.isTransient
  value := x.value
  valueString := x.valueString
  serverTimestamp := now
  quality := !x.failed
  connNumber := conn.protocolConnectionNumber
  connName := conn.name
  commonAddress := e.fc.mnemonic
  displayName := e.path

-- A server that sends no reason codes at all has included every element.
def included (rep : Report) : List ReportEntry :=
  if rep.entries.any fun e => e.reason ≠ {} then rep.entries.filter fun e => e.reason ≠ {}
  else rep.entries

-- A report of another block that has the same RptID.
def foreign (st : RcbState) (rep : Report) : Bool :=
  st.collision && rep.dataSet ≠ "" && rep.dataSet ≠ st.dataSetRef && rep.dataSet ≠ st.dataSetDot

def tracked (st : RcbState) (rep : Report) : Bool := rep.entryID ≠ [] && st.buffered

def repeated (s : State) (st : RcbState) (rep : Report) : Bool :=
  tracked st rep && s.lastReportIds st.ref = some rep.entryID

def setLastReportID (s : State) (rcbRef : String) (entryID : EntryID) : State :=
  { s with lastReportIds := Function.update s.lastReportIds rcbRef (some entryID) }

def trackReport (s : State) (st : RcbState) (rep : Report) : State :=
  if tracked st rep then setLastReportID s st.ref rep.entryID else s

-- The value of an element: only a data change has a usable source timestamp.
def reportValue (now : ℤ) (e : Entry) (el : ReportEntry) : IECValue :=
  let iv := buildIECValue conn now e el.value conn.autoCreateTags
  if el.reason.dataChange && el.value.isStructure && el.value.timestamp ≠ 0 then
    { iv with sourceTimestamp := some el.value.timestamp }
  else iv

def handleElement (now : ℤ) (st : RcbState) (s : State) (el : ReportEntry) : State :=
  if el.ref = "" then s
  else if (entry s el.key).isNone && !conn.autoCreateTags then s
  else
    let s := addEntry s (newEntry conn el.ref el.fc)
    match entry s el.key with
    | none => s
    | some e =>
        let s := setEntryReport s el.key st.ref
        { s with dataQueue := s.dataQueue ++ [reportValue conn now e el] }

def reportHandler (now : ℤ) (s : State) (st : RcbState) (rep : Report) : State :=
  if foreign st rep then s
  else if repeated s st rep then s
  else
    let s := (included rep).foldl (handleElement conn now st) (trackReport s st rep)
    { s with processed := s.processed ++ [(st.ref, rep.entryID, rep.subSeqNum)] }

end Reports

section Enable

variable (conn : Connection)

-- What the server says of a control block.
structure RCB where
  rptID : String
  dataSet : String
deriving DecidableEq

-- How an attempt to enable a block ends.
inductive Attempt where
  | ok | entryIDRefused | failed
deriving DecidableEq

structure EnableAnswers where
  rcb : Option RCB
  -- the members of the data set, empty when they cannot be read
  members : List Member
  first : Attempt
  withoutResync : Attempt
  disabled : Bool
  afterDisable : Attempt

-- One character for another behind the logical device.
def replaceBehindSlash (c d : Char) (ref : String) : String :=
  match ref.toList.dropWhile (· ≠ '/') with
  | [] => ref
  | slash :: rest =>
      String.ofList (ref.toList.takeWhile (· ≠ '/') ++
        slash :: rest.map fun x => if x = c then d else x)

-- "LD/LLN0.RP.urcb01" is the item "LLN0$RP$urcb01" of the domain "LD".
def rcbReference (ref : String) : String := replaceBehindSlash '.' '$' ref

def dottedDataSet (ds : String) : String := replaceBehindSlash '$' '.' ds

def resyncEntryID (s : State) (rcbRef : String) : Option EntryID :=
  (s.lastReportIds rcbRef).filter fun id => id.any (· ≠ 0)

-- The attempts: again without the EntryID that is refused, and again after a disable.
def enabled (resync : Bool) (a : EnableAnswers) : Bool :=
  let again := resync && a.first = .entryIDRefused
  let outcome := if again then a.withoutResync else a.first
  outcome = .ok || a.disabled && a.afterDisable = .ok

def registerRCB (s : State) (st : RcbState) : State :=
  let dup := s.rcbByRptID st.rptID
  { s with
    rcbs := (s.rcbs.map fun r => if dup = some r.ref then { r with collision := true } else r) ++
      [{ st with collision := dup.isSome }]
    rcbByRptID := Function.update s.rcbByRptID st.rptID (some st.ref)
    rcbByDataSet := Function.update s.rcbByDataSet st.dataSetRef (some st.ref) }

def dropRCB (s : State) (st : RcbState) : State :=
  { s with
    rcbByRptID := Function.update s.rcbByRptID st.rptID none
    rcbByDataSet := Function.update s.rcbByDataSet st.dataSetRef none }

def forgetLastReportID (s : State) (rcbRef : String) : State :=
  { s with lastReportIds := Function.update s.lastReportIds rcbRef none }

def rcbState (ref : String) (buffered : Bool) (rcb : RCB) : RcbState where
  ref := ref
  rptID := if rcb.rptID = "" then rcbReference ref else rcb.rptID
  dataSetRef := rcb.dataSet
  dataSetDot := dottedDataSet rcb.dataSet
  buffered := buffered

def activateRCB (s : State) (st : RcbState) (a : EnableAnswers) : State :=
  let resync := st.buffered && (resyncEntryID s st.ref).isSome
  let s := registerRCB s st
  let s := if resync && a.first = .entryIDRefused then forgetLastReportID s st.ref else s
  if enabled resync a then { s with subs := s.subs ++ [⟨st.ref, a.members⟩] } else dropRCB s st

def enableRCB (s : State) (ref : String) (buffered : Bool) (a : EnableAnswers) : State :=
  if !conn.topics.isEmpty && !conn.topics.contains ref then s
  else
    match a.rcb with
    | none => s
    | some rcb =>
        if rcb.dataSet = "" || rcb.dataSet.toList.contains '/' && a.members.isEmpty then s
        -- one report stream for a data set
        else if (s.rcbByDataSet rcb.dataSet).isSome then s
        else activateRCB s (rcbState ref buffered rcb) a

end Enable

section Polling

variable (conn : Connection)

-- Control objects are outputs, and the rest is read unless a report covers it.
def pollSweep (s : State) : List Entry :=
  s.entries.filter fun e => e.rcbName = "" && e.fc ≠ .co

-- The reads of a sweep with their answers, up to a loss of the association.
def collect (now : ℤ) : List Entry → List (Option Extraction) → List IECValue
  | e :: es, some x :: answers =>
      buildIECValue conn now e x (conn.autoCreateTags && e.autoPublish) :: collect now es answers
  | _ :: es, none :: answers => collect now es answers
  | _, _ => []

end Polling

section Run

inductive Action where
  | connect
  -- an object found while browsing
  | browse (ref : String) (fc : FC)
  | enable (ref : String) (buffered : Bool) (answers : EnableAnswers)
  | report (now : ℤ) (ref : String) (rep : Report)
  | discovered
  | poll (now : ℤ) (answers : List (Option Extraction))
  | close

variable (conn : Connection)

def rcb (s : State) (ref : String) : Option RcbState := s.rcbs.find? fun r => r.ref = ref

-- The elements of a report are named by the members of its data set.
def decodes (sub : ReportSubscription) (rep : Report) : Bool :=
  rep.entries.all fun e => e.ref = "" || sub.members.any fun m => m.ref = e.ref && m.fc = e.fc

def step (s : State) : Action → Option State
  | .connect =>
      if s.phase = .disconnected then
        some { s with
          phase := .discovering
          associations := s.associations + 1
          subs := []
          rcbs := []
          rcbByRptID := fun _ => none
          rcbByDataSet := fun _ => none }
      else none
  | .browse ref fc =>
      if s.phase = .discovering ∧ conn.autoCreateTags = true then
        some (addEntry s (newEntry conn ref fc))
      else none
  | .enable ref buffered a =>
      -- a block has a name, and is offered once
      if s.phase = .discovering ∧ ref ≠ "" ∧ (rcb s ref).isNone then
        some (enableRCB conn s ref buffered a)
      else none
  | .report now ref rep =>
      match s.subs.find? (fun sub => sub.ref = ref), rcb s ref with
      | some sub, some st =>
          if s.phase ≠ .disconnected ∧ decodes sub rep then some (reportHandler conn now s st rep)
          else none
      | _, _ => none
  | .discovered =>
      if s.phase = .discovering then some { s with phase := .polling } else none
  | .poll now answers =>
      if s.phase = .polling then
        some { s with dataQueue := s.dataQueue ++ collect conn now (pollSweep s) answers }
      else none
  | .close =>
      if s.phase ≠ .disconnected then some { s with phase := .disconnected, subs := [] } else none

-- The client after the start, with the entries of its tags and the EntryIDs saved before.
def start (entries : List Entry) (saved : String → Option EntryID) : State where
  phase := .disconnected
  associations := 0
  entries := entries.map fun e => { e with rcbName := "" }
  lastReportIds := saved
  subs := []
  rcbs := []
  rcbByRptID := fun _ => none
  rcbByDataSet := fun _ => none
  dataQueue := []
  processed := []

end Run

end JsonScada.Iec61850.Client
