import JsonScada.Iec60870.Model
import JsonScada.Iec61850.Server
import JsonScada.Library.Assoc
import JsonScada.Library.Chunks

-- The data model of the server: a logical device for each topic, the points as data objects of its
-- GGIO nodes, the data sets over them and the report control blocks over these.
namespace JsonScada.Iec61850.Server.ModelBuilder

open JsonScada.Library
open JsonScada.Iec60870 (Platform)
open JsonScada.Processor (Value)

section Bounds

def maxDataObjectsPerLN : ℕ := 30
def maxDescriptionLength : ℕ := 32
def entriesPerDataSet : ℕ := 40
def maxRcbPerLLN0 : ℕ := 7
def maxRcbCopiesPerDataSet : ℕ := 4

-- A string may be far larger than a status or a measurand.
def doCost : PointKind → ℕ
  | .vss => 8
  | _ => 1

structure ServerConnection where
  name : String
  maxClientConnections : Double
  maxQueueSize : Double

structure ModelBounds where
  rcbCopies : ℕ
  maxPointsPerLD : ℕ

variable (pl : Platform)

def maxClients (conn : ServerConnection) : ℕ :=
  max 1 (pl.toInt .int conn.maxClientConnections).1.toNat

def computeModelBounds (conn : ServerConnection) : ModelBounds :=
  let rcbCopies := min (maxClients pl conn) maxRcbCopiesPerDataSet
  let dataSetBudget := max 1 (maxRcbPerLLN0 / rcbCopies)
  let span := max 1 (dataSetBudget - 1)
  { rcbCopies := rcbCopies, maxPointsPerLD := entriesPerDataSet * span }

end Bounds

section Names

def fnv32 (s : String) : UInt32 :=
  let hash := s.toList.foldl (fun hash c => (hash ^^^ UInt32.ofNat c.toNat) * 16777619) 2166136261
  if hash = 0 then 1 else hash

def hexDigit (n : ℕ) : Char := if n < 10 then Char.ofNat (48 + n) else Char.ofNat (55 + n)

-- `%04X` of the low half
def hex4 (hash : UInt32) : List Char :=
  let n := hash.toNat % 0x10000
  [hexDigit (n / 4096), hexDigit (n / 256 % 16), hexDigit (n / 16 % 16), hexDigit (n % 16)]

def isUnderscore (c : Char) : Bool := c = '_'

def sanitizeMms (s : String) (maxLen : ℕ) : List Char :=
  let mapped := s.toList.map fun c => if c.isAlphanum then c else '_'
  let r := (mapped.dropWhile isUnderscore).reverse.dropWhile isUnderscore |>.reverse
  let r := if r = [] then ['P'] else r
  let r := if r.head?.any Char.isDigit then 'P' :: r else r
  if maxLen < r.length then r.take (max 1 (maxLen - 5)) ++ '_' :: hex4 (fnv32 s) else r

def numbered (base : String) (i : ℕ) : String := base ++ "_" ++ toString i

-- `base`, `base_2`, `base_3` and so on
def candidate (base : String) (i : ℕ) : String := if i = 0 then base else numbered base (i + 1)

-- The first candidate that is not used. One of one more than there are names in use is not.
def uniqueName (base : String) (used : List String) : String :=
  (((List.range (used.length + 1)).map (candidate base)).find? (· ∉ used)).getD base

end Names

section Objects

-- The functional constraints of the values.
inductive Fc where
  | st | mx
deriving DecidableEq

-- The common data classes of the objects.
inductive Cdc where
  | ens | ins | lpl | dpl | sps | mv | vss | spc | apc
deriving DecidableEq

inductive CtlModel where
  | directNormal | sboNormal
deriving DecidableEq

-- A data object. The one that tells of a rejected control is of no class.
structure DataObject where
  name : String
  cdc : Option Cdc
  ctlModel : Option CtlModel := none
  stVal : Option Bool := none
  d : Option (List UInt8) := none
deriving DecidableEq

structure Fcda where
  ref : String
  fc : Fc
deriving DecidableEq

structure DataSet where
  name : String
  entries : List Fcda

inductive TrgOp where
  | dataChange | qualityChange | integrity | gi

inductive OptFld where
  | seqNum | timeOfEntry | reasonCode | dataSetName | confRev | entryID | bufOvfl

structure ReportControl where
  name : String
  dataSet : String
  confRev : UInt32
  buffered : Bool
  bufTime : ℕ := 500
  trgOps : List TrgOp := [.dataChange, .qualityChange, .integrity, .gi]
  optFlds : List OptFld
  -- the number of its instances
  rptEnabled : ℕ
  maxQueueSize : ℤ := 0

structure LogicalNode where
  name : String
  cls : String
  objects : List DataObject
  dataSets : List DataSet := []
  reportControls : List ReportControl := []

structure LogicalDevice where
  name : String
  inst : String
  nodes : List LogicalNode

structure Model where
  name : String
  devices : List LogicalDevice

def newMonitorObject (name : String) (kind : PointKind) : DataObject where
  name := name
  cdc := some (match kind with
    | .mv => .mv
    | .vss => .vss
    | _ => .sps)

def newCommandObject (name : String) (kind : PointKind) (useSBO : Bool) : DataObject where
  name := name
  cdc := some (match kind with
    | .apc => .apc
    | _ => .spc)
  ctlModel := some (if useSBO then .sboNormal else .directNormal)

def newLastApplError : DataObject where
  name := "LastApplError"
  cdc := none

-- The path of the value in its object, and the constraint under which the object is served.
def valueAttrPath : PointKind → List String × Fc
  | .mv => (["mag", "f"], .mx)
  | .apc => (["mxVal", "f"], .mx)
  | _ => (["stVal"], .st)

def child (ref segment : String) : String := ref ++ "." ++ segment

end Objects

section Points

-- A point with what is needed of it to route a command.
structure Point extends Server.Point where
  description : String
  kconv1 : Double
  kconv2 : Double
  srcConnectionNumber : Double
  srcCommonAddress : Value
  srcObjectAddress : Value
  srcASDU : Value
  srcCommandDuration : Double
  srcCommandUseSBO : Bool

-- A tag with its place in the model.
structure MappedPoint where
  tag : String
  type : String
  kind : PointKind
  isCommand : Bool
  pointKey : Double
  objRef : String
  fc : Fc
  valueRef : String
  qRef : String
  tRef : String
  kconv1 : Double
  kconv2 : Double
  srcConnectionNumber : Double
  srcCommonAddress : Value
  srcObjectAddress : Value
  srcASDU : Value
  srcCommandDuration : Double
  srcCommandUseSBO : Bool

-- The class of a point, and the stem of the names of its objects.
def kindOf (isCommand : Bool) (typ : String) : PointKind × String :=
  if isCommand && typ = "analog" then (.apc, "AnOut")
  else if isCommand then (.spc, "SPCSO")
  else if typ = "analog" then (.mv, "AnIn")
  else if typ = "string" || typ = "json" then (.vss, "Str")
  else (.sps, "Ind")

-- What laying out the points of a logical device goes on with.
structure LdContext where
  ldName : String
  ggios : ℕ → Option LogicalNode := fun _ => none
  ggioIdx : ℕ := 0
  -- full, so that the first point opens GGIO1
  ggioCost : ℕ := maxDataObjectsPerLN
  counters : String → ℕ := fun _ => 0
  statusEntries : List Fcda := []
  mxEntries : List Fcda := []
  memberRefs : List String := []

def ggioName (idx : ℕ) : String := "GGIO" ++ toString idx

def getOrCreateGgio (ctx : LdContext) (idx : ℕ) : LogicalNode :=
  (ctx.ggios idx).getD
    { name := ggioName idx, cls := "GGIO", objects := [{ name := "Beh", cdc := some .ens }] }

-- The context in which a point of some cost has its place.
def LdContext.withRoom (ctx : LdContext) (cost : ℕ) : LdContext :=
  if maxDataObjectsPerLN < ctx.ggioCost + cost then
    { ctx with ggioIdx := ctx.ggioIdx + 1, ggioCost := 0, counters := fun _ => 0 }
  else ctx

def objectRef (ldName : String) (idx : ℕ) (doName : String) : String :=
  ldName ++ "/" ++ ggioName idx ++ "." ++ doName

-- The next object of a stem goes to the open GGIO.
def LdContext.add (ctx : LdContext) (stem : String) (cost : ℕ) (o : DataObject) : LdContext :=
  let ggio := getOrCreateGgio ctx ctx.ggioIdx
  { ctx with
    counters := Function.update ctx.counters stem (ctx.counters stem + 1)
    ggioCost := ctx.ggioCost + cost
    ggios := Function.update ctx.ggios ctx.ggioIdx
      (some { ggio with objects := ggio.objects ++ [o] }) }

-- Commands are in no data set.
def LdContext.enter (ctx : LdContext) (mp : MappedPoint) : LdContext :=
  let entry : Fcda := { ref := mp.objRef, fc := mp.fc }
  if mp.isCommand then ctx
  else if entry.fc = .mx then
    { ctx with mxEntries := ctx.mxEntries ++ [entry], memberRefs := ctx.memberRefs ++ [mp.objRef] }
  else
    { ctx with
      statusEntries := ctx.statusEntries ++ [entry], memberRefs := ctx.memberRefs ++ [mp.objRef] }

-- `strings.ToLower`
variable (toLower : String → String)

def dataObject (p : Point) (kind : PointKind) (doName : String) : DataObject :=
  let object := if p.isCommand then newCommandObject doName kind p.srcCommandUseSBO
    else newMonitorObject doName kind
  let desc := if p.description = "" then p.tag else p.description
  { object with d := some (desc.toUTF8.toList.take maxDescriptionLength) }

def mapped (p : Point) (kind : PointKind) (objRef : String) : MappedPoint where
  tag := p.tag
  type := toLower p.type
  kind := kind
  isCommand := p.isCommand
  pointKey := p.id
  objRef := objRef
  fc := (valueAttrPath kind).2
  valueRef := (valueAttrPath kind).1.foldl child objRef
  qRef := child objRef "q"
  tRef := child objRef "t"
  kconv1 := p.kconv1
  kconv2 := p.kconv2
  srcConnectionNumber := p.srcConnectionNumber
  srcCommonAddress := p.srcCommonAddress
  srcObjectAddress := p.srcObjectAddress
  srcASDU := p.srcASDU
  srcCommandDuration := p.srcCommandDuration
  srcCommandUseSBO := p.srcCommandUseSBO

-- A point gets its object in the open GGIO, and its entry for a data set where it is monitored.
def mapPoint (ctx : LdContext) (p : Point) : LdContext × MappedPoint :=
  let (kind, stem) := kindOf p.isCommand (toLower p.type)
  let ctx := ctx.withRoom (doCost kind)
  let doName := stem ++ toString (ctx.counters stem + 1)
  let mp := mapped toLower p kind (objectRef ctx.ldName ctx.ggioIdx doName)
  ((ctx.add stem (doCost kind) (dataObject p kind doName)).enter mp, mp)

end Points

section Reports

-- `%02d`
def twoDigits (n : ℕ) : String := if n < 10 then "0" ++ toString n else toString n

-- A buffered and an unbuffered block over a data set.
def addReportControls (dsName cat : String) (dsIdx : ℕ) (confRev : UInt32) (copies : ℕ)
    (maxQueueSize : ℤ) : List ReportControl :=
  let opt : List OptFld := [.seqNum, .timeOfEntry, .reasonCode, .dataSetName, .confRev]
  [{ name := "brcb" ++ cat ++ twoDigits dsIdx, dataSet := dsName, confRev := confRev
     buffered := true, optFlds := opt ++ [.entryID, .bufOvfl], rptEnabled := copies
     maxQueueSize := maxQueueSize },
   { name := "urcb" ++ cat ++ twoDigits dsIdx, dataSet := dsName, confRev := confRev
     buffered := false, optFlds := opt, rptEnabled := copies }]

-- The data sets of one category with their report control blocks.
def categorySets (cat : String) (entries : List Fcda) (confRev : UInt32) (copies : ℕ)
    (maxQueueSize : ℤ) : List (DataSet × List ReportControl) :=
  (Chunks.chunks entriesPerDataSet entries).mapIdx fun i chunk =>
    let dsName := "DS_" ++ cat ++ "_" ++ toString (i + 1)
    (⟨dsName, chunk⟩, addReportControls dsName cat (i + 1) confRev copies maxQueueSize)

def buildDataSetsAndReports (ctx : LdContext) (bounds : ModelBounds) (maxQueueSize : ℤ) :
    List (DataSet × List ReportControl) :=
  let confRev := fnv32 ("|".intercalate ctx.memberRefs)
  categorySets "ST" ctx.statusEntries confRev bounds.rcbCopies maxQueueSize ++
    categorySets "MX" ctx.mxEntries confRev bounds.rcbCopies maxQueueSize

end Reports

section Build

variable (pl : Platform) (toLower : String → String) (conn : ServerConnection)

def groupOf (p : Point) : String := if p.group1 = "" then "GEN" else p.group1

-- The points of a logical device, with the name of their topic.
structure Batch where
  name : String
  points : List Point

-- A topic that is too large goes to several logical devices.
def split (maxPoints : ℕ) (g1 : String) (pts : List Point) : List Batch :=
  if pts.length ≤ maxPoints then [⟨g1, pts⟩]
  else (Chunks.chunks maxPoints pts).mapIdx fun i chunk => ⟨candidate g1 i, chunk⟩

def batches (points : List Point) : List Batch :=
  (Grouping.group groupOf points).flatMap fun g =>
    split (computeModelBounds pl conn).maxPointsPerLD g.1 g.2.toList

def iedName : String :=
  let name := sanitizeMms conn.name 20
  if name = [] then "JSONSCADA" else String.ofList name

structure BuiltModel where
  model : Model
  -- an entry that was made later comes first
  byTag : List (String × MappedPoint) := []
  byCtlObjRef : List (String × MappedPoint) := []
  order : List MappedPoint := []
  logicalNodes : ℕ := 0

def BuiltModel.addPoint (built : BuiltModel) (mp : MappedPoint) : BuiltModel :=
  { built with
    byTag := (mp.tag, mp) :: built.byTag
    order := built.order ++ [mp]
    byCtlObjRef :=
      if mp.isCommand then (mp.objRef, mp) :: built.byCtlObjRef else built.byCtlObjRef }

-- The points of a batch in their order.
def mapPoints (ctx : LdContext) : List Point → LdContext × List MappedPoint
  | [] => (ctx, [])
  | p :: ps =>
      let (ctx, mp) := mapPoint toLower ctx p
      let (ctx, mps) := mapPoints ctx ps
      (ctx, mp :: mps)

def lln0 (ctx : LdContext) : LogicalNode :=
  let sets := buildDataSetsAndReports ctx (computeModelBounds pl conn)
    (pl.toInt .int conn.maxQueueSize).1
  { name := "LLN0", cls := "LLN0"
    objects := [{ name := "Beh", cdc := some .ens }, { name := "Health", cdc := some .ens },
      { name := "NamPlt", cdc := some .lpl }, newLastApplError]
    dataSets := sets.map Prod.fst
    reportControls := sets.flatMap Prod.snd }

-- The mark of a gateway.
def lphd1 : LogicalNode :=
  { name := "LPHD1", cls := "LPHD"
    objects := [{ name := "PhyNam", cdc := some .dpl }, { name := "PhyHealth", cdc := some .ins },
      { name := "Proxy", cdc := some .sps, stVal := some true }] }

def deviceNodes (ctx : LdContext) : List LogicalNode :=
  lln0 pl conn ctx :: lphd1 :: (List.range ctx.ggioIdx).filterMap fun i => ctx.ggios (i + 1)

def ldNameBudget : ℕ := max 8 (62 - (iedName conn).length)

-- The logical device of a batch, with the names of those before it.
def buildDevice (used : List String) (b : Batch) : LogicalDevice × List MappedPoint :=
  let ldInst := uniqueName (String.ofList (sanitizeMms b.name (ldNameBudget conn))) used
  let ldName := iedName conn ++ ldInst
  let (ctx, mps) := mapPoints toLower { ldName := ldName } b.points
  ({ name := ldName, inst := ldInst, nodes := deviceNodes pl conn ctx }, mps)

-- The logical devices one after the other.
def buildDevices (used : List String) : List Batch → List (LogicalDevice × List MappedPoint)
  | [] => []
  | b :: bs =>
      let built := buildDevice pl toLower conn used b
      built :: buildDevices (used ++ [built.1.inst]) bs

def buildModel (points : List Point) : BuiltModel :=
  let built := buildDevices pl toLower conn [] (batches pl conn points)
  let start : BuiltModel := { model := ⟨iedName conn, built.map Prod.fst⟩ }
  { (built.flatMap Prod.snd).foldl BuiltModel.addPoint start with
    logicalNodes := (built.map fun d => d.1.nodes.length).sum }

end Build

end JsonScada.Iec61850.Server.ModelBuilder
