import JsonScada.Iccp.Server
import Mathlib.Logic.Function.Basic

-- The ICCP client driver: what it asks the peer for, and the updates that it queues of what it
-- receives.
namespace JsonScada.Iccp.Client

open JsonScada.Library
open JsonScada.Processor (Value)
open JsonScada.Iccp.Server (trimSpace)

structure ObjectRef where
  domain : String
  item : String
  deriving DecidableEq

-- A value of the protocol. The decoder of typed points reads `content` as well.
structure DataValue where
  boolVal : Option Bool := none
  unsignedVal : Option ℕ := none
  visibleStringVal : String := ""
  bitStringVal : Option (List UInt8) := none
  octetStringVal : Option (List UInt8) := none
  content : List UInt8 := []

inductive Validity where
  | valid | held | suspect | invalid
  deriving DecidableEq

inductive CurrentSource where
  | telemetered | entered | calculated | estimated
  deriving DecidableEq

-- A typed point, with the parts that it has.
structure PointData where
  real : Option Double := none
  discrete : Option ℤ := none
  state : Option ℤ := none
  quality : Option (Validity × CurrentSource) := none
  -- nanoseconds since 1970
  time : Option ℤ := none

-- What the driver takes from its platform and from the protocol's library.
structure Platform where
  decodeICCPNamed : String → DataValue → PointData
  stateInvalid : ℤ
  stateString : ℤ → String
  valueString : DataValue → String
  classifyDomainVariables : List String → List String × Bool
  float64 : ℤ → Double
  -- `time.Duration(hoursShift * float64(time.Hour))`
  hours : Double → ℤ
  -- `fmt.Sprintf` with "%v" or "%d" of a whole number, "%f", "%q" and "%x"
  sprint : Value → String
  formatFloat : Double → String
  quote : String → String
  hex : List UInt8 → String

def objAddrToString (pl : Platform) : Value → String
  | .null => ""
  | .string s => s
  | v => pl.sprint v

-- `protocolSourceASDU` as a text, in the same way
def asduToString (pl : Platform) (v : Value) : String := objAddrToString pl v

structure RtData where
  tag : String
  protocolSourceObjectAddress : Value
  protocolSourceASDU : Value

structure TagMapping where
  tag : RtData
  ref : ObjectRef

structure DataUpdate where
  protocolSourceConnectionNumber : ℤ
  protocolSourceObjectAddress : String
  value : Double := .fin 0
  valueString : String := ""
  valueJson : String := ""
  asdu : String := ""
  invalid : Bool := false
  notTopical : Bool := false
  substituted : Bool := false
  timeTag : ℤ := 0
  timeTagAtSource : Option ℤ := none
  deriving DecidableEq

structure Connection where
  protocolConnectionNumber : ℤ
  hoursShift : Double

section Mappings

-- `SplitN(addr, "/", 2)`, none without a slash
def splitAddress (addr : String) : Option ObjectRef :=
  if '/' ∈ addr.toList then
    some {
      domain := String.ofList (addr.toList.takeWhile (· ≠ '/'))
      item := String.ofList ((addr.toList.dropWhile (· ≠ '/')).drop 1) }
  else none

def buildTagMappings (pl : Platform) (tags : List RtData) : List TagMapping :=
  tags.filterMap fun t =>
    let addr := trimSpace (objAddrToString pl t.protocolSourceObjectAddress)
    if addr = "" then none else (splitAddress addr).map fun ref => ⟨t, ref⟩

end Mappings

section Values

-- The value of a typed point, or of a plain scalar of the protocol.
def withValue (pl : Platform) (dv : DataValue) (dp : PointData) (upd : DataUpdate) : DataUpdate :=
  match dp.real, dp.discrete, dp.state with
  | some x, _, _ => { upd with value := x, valueString := pl.formatFloat x }
  | none, some n, _ => { upd with value := pl.float64 n, valueString := toString n }
  | none, none, some n =>
      let upd := { upd with value := pl.float64 n, valueString := pl.stateString n }
      if n = pl.stateInvalid then { upd with invalid := true } else upd
  | none, none, none =>
      match dv.boolVal, dv.unsignedVal with
      | some b, _ =>
          let text := if b then "true" else "false"
          { upd with value := if b then .fin 1 else .fin 0, valueString := text, valueJson := text }
      | none, some n => { upd with value := pl.float64 n, valueString := toString n }
      | none, none =>
          if dv.visibleStringVal ≠ "" then
            { upd with
              valueString := dv.visibleStringVal
              value := (Strconv.parseFloat dv.visibleStringVal.toList).getD upd.value
              valueJson := pl.quote dv.visibleStringVal }
          else
            match dv.bitStringVal, dv.octetStringVal with
            | some bytes, _ => { upd with valueString := pl.hex bytes }
            | none, some bytes => { upd with valueString := pl.hex bytes }
            | none, none => { upd with valueString := pl.valueString dv }

def withQuality (quality : Option (Validity × CurrentSource)) (upd : DataUpdate) : DataUpdate :=
  match quality with
  | none => upd
  | some (validity, source) =>
      let upd :=
        match validity with
        | .invalid => { upd with invalid := true }
        | .held | .suspect => { upd with notTopical := true }
        | .valid => upd
      match source with
      | .entered | .calculated | .estimated => { upd with substituted := true }
      | .telemetered => upd

-- The update of a tag, for a value that is read or reported at a time.
def dataValueToUpdate (pl : Platform) (conn : Connection) (dv : Option DataValue) (m : TagMapping)
    (now : ℤ) : DataUpdate :=
  let upd : DataUpdate :=
    { protocolSourceConnectionNumber := conn.protocolConnectionNumber
      protocolSourceObjectAddress := objAddrToString pl m.tag.protocolSourceObjectAddress
      asdu := asduToString pl m.tag.protocolSourceASDU
      timeTag := now }
  match dv with
  | none => { upd with invalid := true }
  | some dv =>
      let dp := pl.decodeICCPNamed m.ref.item dv
      let upd := withQuality dp.quality (withValue pl dv dp upd)
      { upd with timeTagAtSource := dp.time.map fun t => t + pl.hours conn.hoursShift }

end Values

section Polls

-- The answer to a `ReadMultiple`, with the time at which it came and whether the channel of the
-- updates is full at each of its values.
structure Answer where
  vals : List (Option DataValue)
  now : ℤ
  full : ℕ → Bool

def pollChunkSize : ℕ := 100

def chunksOf : ℕ → List TagMapping → List (List TagMapping)
  | 0, _ => []
  | _ + 1, [] => []
  | fuel + 1, l => l.take pollChunkSize :: chunksOf fuel (l.drop pollChunkSize)

-- The requests of a poll that leaves out some domains.
def pollRequests (mappings : List TagMapping) (skipDomains : List String) :
    List (List TagMapping) :=
  let polled := mappings.filter fun m => m.ref.domain ∉ skipDomains
  chunksOf polled.length polled

-- The values that are there, each for the tag that asked for it.
def chunkUpdates (pl : Platform) (conn : Connection) (chunk : List TagMapping) (a : Answer) :
    List DataUpdate :=
  (chunk.zip a.vals).filterMap fun (m, v) => v.map fun dv => dataValueToUpdate pl conn (some dv) m a.now

-- An update for which the channel has no room is discarded.
def send (full : ℕ → Bool) (upds : List DataUpdate) : List DataUpdate :=
  (upds.zipIdx.filter fun p => !full p.2).map Prod.fst

-- The updates that a poll queues. An error, none, ends it.
def performPoll (pl : Platform) (conn : Connection) :
    List (List TagMapping) → List (Option Answer) → List DataUpdate
  | chunk :: chunks, some a :: answers =>
      send a.full (chunkUpdates pl conn chunk a) ++ performPoll pl conn chunks answers
  | _, _ => []

end Polls

section Reports

-- A value of a finished report, with the time at which it is handled.
structure ReportValue where
  domain : String
  item : String
  value : Option DataValue
  now : ℤ

def mappingByRef (mappings : List TagMapping) : String → Option TagMapping :=
  filled (fun m => some (m.ref.domain ++ "/" ++ m.ref.item, m)) mappings

-- The update of one value of a report.
def reportUpdate (pl : Platform) (conn : Connection) (mappings : List TagMapping)
    (v : ReportValue) : Option DataUpdate :=
  (mappingByRef mappings (v.domain ++ "/" ++ v.item)).map fun m =>
    dataValueToUpdate pl conn v.value m v.now

-- What the callback queues of it.
def reportValue (pl : Platform) (conn : Connection) (mappings : List TagMapping) (full : Bool)
    (v : ReportValue) : List DataUpdate :=
  if full then [] else (reportUpdate pl conn mappings v).toList

end Reports

section Subscriptions

structure DstsSub where
  domain : String
  slot : String
  deriving DecidableEq

def jsScadaDataSetName : String := "JSSCADA_DS"

-- How the peer answers the calls that are made for one of its domains.
structure DomainAnswers where
  domain : String
  -- `ListDomainVariables`, `ListDomainDatasets` and `ListVMDDatasets`: none for an error
  vars : Option (List String)
  domainDatasets : Option (List String)
  vmdDatasets : Option (List String)
  created : Bool
  configured : Bool
  started : Bool

-- The data sets that the peer has, and what its transfer sets are configured with.
structure Peer where
  dataSets : ObjectRef → List ObjectRef
  transferSets : DstsSub → Option ObjectRef

def Peer.createDataSet (p : Peer) (ds : ObjectRef) (refs : List ObjectRef) : Peer :=
  { p with dataSets := Function.update p.dataSets ds refs }

def Peer.configure (p : Peer) (sub : DstsSub) (ds : ObjectRef) : Peer :=
  { p with transferSets := Function.update p.transferSets sub (some ds) }

def refsByDomain (mappings : List TagMapping) (domain : String) : List ObjectRef :=
  (mappings.filter fun m => m.ref.domain = domain).map TagMapping.ref

-- `TrimPrefix(name, domain+"/")`
def trimDomain (domain name : String) : String :=
  let front := (domain ++ "/").toList
  if front.isPrefixOf name.toList then String.ofList (name.toList.drop front.length) else name

-- The transfer set of a domain that is taken: the first one, where there is a next one.
def DomainAnswers.slot (pl : Platform) (a : DomainAnswers) : Option DstsSub :=
  a.vars.bind fun vars =>
    match pl.classifyDomainVariables vars with
    | (slot :: _, true) => some ⟨a.domain, slot⟩
    | _ => none

-- The data set of a domain: the driver's own, else the first that the domain has, else the first
-- that the whole peer has.
def DomainAnswers.dataSet (a : DomainAnswers) : Option ObjectRef :=
  if a.created then some ⟨a.domain, jsScadaDataSetName⟩
  else
    let dsRef : ObjectRef :=
      match a.domainDatasets, a.vmdDatasets with
      | some (name :: _), _ => ⟨a.domain, trimDomain a.domain name⟩
      | _, some (name :: _) => ⟨"", name⟩
      | _, _ => ⟨"", ""⟩
    if dsRef.item = "" then none else some dsRef

structure Setup where
  peer : Peer
  subs : List DstsSub := []

-- What is done for one domain.
def subscribe (pl : Platform) (mappings : List TagMapping) (s : Setup) (a : DomainAnswers) : Setup :=
  let refs := refsByDomain mappings a.domain
  if refs = [] then s
  else
    match a.slot pl with
    | none => s
    | some sub =>
        let own : ObjectRef := ⟨a.domain, jsScadaDataSetName⟩
        let s := if a.created then { s with peer := s.peer.createDataSet own refs } else s
        match a.dataSet with
        | none => s
        | some ds =>
            if a.configured then
              let s := { s with peer := s.peer.configure sub ds }
              if a.started then { s with subs := s.subs ++ [sub] } else s
            else s

def setupDSTSSubscriptions (pl : Platform) (mappings : List TagMapping) (peer : Peer)
    (domains : List DomainAnswers) : Setup :=
  domains.foldl (subscribe pl mappings) { peer := peer }

def coveredDomains (subs : List DstsSub) : List String := subs.map DstsSub.domain

end Subscriptions

end JsonScada.Iccp.Client
