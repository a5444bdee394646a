import JsonScada.Iec60870.Convert

namespace JsonScada.Iec60870.Server

open JsonScada.Library
open JsonScada.Processor (Document Value)

structure ConnCfg where
  name : String
  protocolConnectionNumber : Double

-- A served connection, with the remote endpoint for its command records.
structure Conn where
  cfg : ConnCfg
  originatorIP : String := ""

-- What a handler finds at its time: the clock, whether MongoDB is alive, and the documents
-- of realtimeData, none when the query for one fails.
structure Env where
  pl : Platform
  now : ℤ
  isMongoLive : Bool
  realtimeData : Option (List Document)

section Mapping

variable (pl : Platform)

-- The conditions of the query, each of which any destination of the point may meet.
-- Type 0 stands for any type.
def mappedFilter (cfg : ConnCfg) (ca ioa asduType : ℤ) (d : Document) : Bool :=
  let path := "protocolDestinations"
  dottedMatches d path "protocolDestinationConnectionNumber" (equals cfg.protocolConnectionNumber) &&
    dottedMatches d path "protocolDestinationCommonAddress" (addrMatch ca) &&
    dottedMatches d path "protocolDestinationObjectAddress" (addrMatch ioa) &&
    (asduType = 0 || dottedMatches d path "protocolDestinationASDU" (addrMatch asduType))

def isFor (cfg : ConnCfg) (dst : ProtocolDestination) : Bool :=
  (pl.toInt .int dst.connectionNumber).1 = (pl.toInt .int cfg.protocolConnectionNumber).1

-- The first destination of the connection, whatever its addresses.
def destinationFor (cfg : ConnCfg) (point : RtDataPoint) : Option ProtocolDestination :=
  point.protocolDestinations.find? (isFor pl cfg)

-- The first document that the query finds, decoded.
def findPoint (realtimeData : Option (List Document)) (cfg : ConnCfg) (ca ioa asduType : ℤ) :
    Option RtDataPoint := do
  let docs ← realtimeData
  let d ← docs.find? (mappedFilter cfg ca ioa asduType)
  decodePoint pl d

def findMappedPoint (realtimeData : Option (List Document)) (cfg : ConnCfg)
    (ca ioa asduType : ℤ) : Option (RtDataPoint × ProtocolDestination) := do
  let point ← findPoint pl realtimeData cfg ca ioa asduType
  let dst ← destinationFor pl cfg point
  some (point, dst)

end Mapping

section Conversion

variable (pl : Platform)

-- A factor that is zero is missing.
def defaultOne (k : Double) : Double := if Double.eq k (.fin 0) then .fin 1 else k

def invert (val : Double) : Double := if Double.eq val (.fin 0) then .fin 1 else .fin 0

def isDigitalCommand (type : ℕ) : Bool := type ∈ [45, 58, 46, 59, 47, 60]

def isScaledCommand (type : ℕ) : Bool := type ∈ [48, 61, 49, 62, 50, 63, 110, 111, 112, 113, 105]

def isBitstringCommand (type : ℕ) : Bool := type ∈ [51, 64]

-- From the received value to the engineering value.
def destinationValue (type : ℕ) (kconv1 kconv2 val : Double) : Double :=
  if isDigitalCommand type then if isInverted kconv1 then invert val else val
  else if isScaledCommand type then scaled pl val kconv1 kconv2
  else if isBitstringCommand type then
    -- truncated only
    if isInverted kconv1 then .fin (pl.toInt .int32 val).1 else val
  else val

-- From the engineering value to that of the source protocol.
def sourceValue (srcasdu : ℕ) (srctype : String) (kconv1 kconv2 val : Double) : Double :=
  if isDigitalCommand srcasdu then if isInverted kconv1 then invert val else val
  else if isScaledCommand srcasdu then scaled pl val kconv1 kconv2
  else if isBitstringCommand srcasdu then
    let bits := (pl.toInt .int32 val).1
    if isInverted kconv1 then .fin (-bits - 1) else .fin bits
  else if srctype = "digital" then if isInverted kconv1 then invert val else val
  else if srctype = "analog" then scaled pl val kconv1 kconv2
  else val

def formatValue (v : Double) : String := Strconv.formatFloat 'E' v

-- The document of the commands queue for a value in engineering units.
def commandDoc (now : ℤ) (conn : Conn) (point : RtDataPoint) (val : Double) : Document :=
  let number (x : Double) : Value := .number (.fin (pl.toInt .int x).1)
  let address (x : UInt32) : Value := .number (.fin x.toNat)
  -- the type identification is one octet
  let srcval := sourceValue pl (point.protocolSourceASDU.toNat % 256) point.type
    (defaultOne point.kconv1) point.kconv2 val
  [("protocolSourceConnectionNumber", number point.protocolSourceConnectionNumber),
    ("protocolSourceCommonAddress", address point.protocolSourceCommonAddress),
    ("protocolSourceObjectAddress", address point.protocolSourceObjectAddress),
    ("protocolSourceASDU", address point.protocolSourceASDU),
    ("protocolSourceCommandDuration", number point.protocolSourceCommandDuration),
    ("protocolSourceCommandUseSBO", .bool point.protocolSourceCommandUseSBO),
    ("pointKey", number point.id), ("tag", .string point.tag), ("value", .number srcval),
    ("valueString", .string (formatValue srcval)),
    ("originatorUserName", .string ("Protocol connection: " ++ conn.cfg.name)),
    ("originatorIpAddress", .string conn.originatorIP), ("timeTag", .dateTime (now / 1000000))]

end Conversion

section Reports

variable (pl : Platform) (now : ℤ)

-- The quality of spontaneous objects and of read replies.
def pointQuality (point : RtDataPoint) : Quality where
  invalid := point.invalid || point.overflow || point.transient
  substituted := point.substituted

-- The source time with the shift of the destination, in nanoseconds.
def sourceTime (point : RtDataPoint) (dst : ProtocolDestination) : Option ℤ :=
  point.timeTagAtSource.map fun t =>
    t * 1000000 + (pl.toInt .int (Double.mul pl.round dst.hoursShift (.fin 3600000000000))).1

-- Spontaneous distribution does not apply the factors of the destination.
def spontaneousObj (point : RtDataPoint) (dst : ProtocolDestination) : Option InfoObject :=
  buildInfoObj pl now dst.asdu.toNat dst.objectAddress.toNat point.value false 0
    (pointQuality point) (sourceTime pl point dst) (.fin 1) (.fin 0) false

-- The objects that an update of a point queues, for the connections of its destinations.
def processPointUpdate (conns : List Conn) (point : RtDataPoint) :
    List (Conn × InfoObject × ℤ) :=
  point.protocolDestinations.flatMap fun dst =>
    (conns.filter fun srv => isFor pl srv.cfg dst).filterMap fun srv =>
      (spontaneousObj pl now point dst).map fun io => (srv, io, (dst.commonAddress.toNat : ℤ))

-- Nor do the replies to a read.
def readObj (point : RtDataPoint) (dst : ProtocolDestination) : Option InfoObject :=
  buildInfoObj pl now dst.asdu.toNat dst.objectAddress.toNat point.value false 0
    (pointQuality point) none (.fin 1) (.fin 0) false

-- The untagged type sent in interrogation responses, none for one that is left out.
def destASDUToBase : ℕ → Option ℤ
  | 1 | 30 => some 1
  | 3 | 31 => some 3
  | 5 | 32 => some 5
  | 9 | 34 => some 9
  | 11 | 35 => some 11
  | 13 | 36 => some 13
  | _ => none

def interrogationObj (point : RtDataPoint) (dst : ProtocolDestination) : Option InfoObject := do
  let base ← destASDUToBase dst.asdu.toNat
  let quality : Quality :=
    { invalid := point.invalid, substituted := point.substituted, overflow := point.overflow }
  buildInfoObj pl now base dst.objectAddress.toNat point.value false 0 quality none
    (defaultOne dst.kconv1) dst.kconv2 point.transient

end Reports

section Commands

-- The fields of a received command.
structure CmdRequest where
  val : Double
  objAddr : ℤ
  dur : ℤ
  isSelect : Bool := false
  cmdTime : Option ℤ := none
deriving DecidableEq

-- None for a double or step value that is neither of the two states.
def cmdRequest (pl : Platform) (a : CommandAsdu) : Option CmdRequest :=
  let objAddr : ℤ := a.ioa.toNat
  let command (val : Double) (q : Qualifier) : Option CmdRequest :=
    some { val := val, objAddr := objAddr, dur := q.qual.toNat, isSelect := q.inSelect
           cmdTime := a.time }
  match a.info with
  | .single v qoc => command (if v then .fin 1 else .fin 0) qoc
  | .double .on qoc => command (.fin 1) qoc
  | .double .off qoc => command (.fin 0) qoc
  | .double _ _ => none
  | .step .stepUp qoc => command (.fin 1) qoc
  | .step .stepDown qoc => command (.fin 0) qoc
  | .step _ _ => none
  | .setpointNormal v qos => command (pl.normalFloat v) qos
  | .setpointScaled v qos => command (.fin v) qos
  | .setpointFloat v qos => command v.widen.toDouble qos
  | .bitsString32 v => some { val := .fin v.toNat, objAddr := objAddr, dur := 0, cmdTime := a.time }
  | .parameterNormal v qpm =>
      some { val := pl.normalFloat v, objAddr := objAddr, dur := qpm.category.toNat }
  | .parameterScaled v qpm => some { val := .fin v, objAddr := objAddr, dur := qpm.category.toNat }
  | .parameterFloat v qpm =>
      some { val := v.widen.toDouble, objAddr := objAddr, dur := qpm.category.toNat }
  | .parameterActivation qpa => some { val := .fin 0, objAddr := objAddr, dur := qpa.toNat }

-- A received ASDU, by the handler that it is routed to.
inductive Received where
  | command (a : CommandAsdu)
  | resetProcess (ca : UInt16) (qrp : UInt8)
  | counterInterrogation (ca : UInt16) (request freeze : UInt8)
  | clockSync (ca : UInt16)
  | read (ca : UInt16) (ioa : UInt32)
  -- one that the server does not recognize
  | unsupported

-- What is sent to the master, or queued.
inductive Effect where
  | activationCon (isNegative : Bool)
  | insertCommand (doc : Document)
  | requested (ca : ℤ) (obj : InfoObject)

-- What becomes of a command: it is answered negatively, selects a point, is refused for
-- want of a selection after all, or goes to the queue with the factors that convert it.
inductive Verdict where
  | ignored
  | rejected
  | selected (key : ℤ)
  | unselected
  | forwarded (point : RtDataPoint) (kconv1 kconv2 : Double)
deriving DecidableEq

def timeToExpireCommandsWithTime : ℤ := 20000000000

def pointKey (pl : Platform) (point : RtDataPoint) : ℤ := (pl.toInt .int point.id).1

variable (env : Env) (conn : Conn)

def isExpired (req : CmdRequest) : Bool :=
  match req.cmdTime with
  | some t => timeToExpireCommandsWithTime < env.now - t
  | none => false

-- The checks of a command against the destination that it was found by.
def verdictFor (slot : ℤ) (point : RtDataPoint) (dst : ProtocolDestination) (req : CmdRequest) :
    Verdict :=
  if req.isSelect && !dst.commandUseSBO then .rejected
  else if req.dur ≠ (env.pl.toInt .int dst.commandDuration).1 then .rejected
  else if isExpired env req then .rejected
  else if req.isSelect then .selected (pointKey env.pl point)
  else if dst.commandUseSBO && slot ≠ pointKey env.pl point then .unselected
  else .forwarded point (defaultOne dst.kconv1) dst.kconv2

def forwardVerdict (slot : ℤ) (ca : UInt16) (type : ℕ) (req : CmdRequest) : Verdict :=
  if !env.isMongoLive then .ignored
  else
    match findMappedPoint env.pl env.realtimeData conn.cfg ca.toNat req.objAddr type with
    | none => .rejected
    | some (point, dst) => verdictFor env slot point dst req

-- The selected point and the replies after a verdict.
def carryOut (slot : ℤ) (type : ℕ) (req : CmdRequest) : Verdict → ℤ × List Effect
  | .ignored => (slot, [])
  | .rejected => (0, [.activationCon true])
  | .selected key => (key, [.activationCon false])
  | .unselected => (0, [.activationCon false, .activationCon true])
  | .forwarded point kconv1 kconv2 =>
      let val := destinationValue env.pl type kconv1 kconv2 req.val
      (0, [.activationCon false, .insertCommand (commandDoc env.pl env.now conn point val)])

def forwardCommand (slot : ℤ) (ca : UInt16) (type : ℕ) (req : CmdRequest) : ℤ × List Effect :=
  carryOut env conn slot type req (forwardVerdict env conn slot ca type req)

def handleCommandASDU (slot : ℤ) (a : CommandAsdu) : ℤ × List Effect :=
  match cmdRequest env.pl a with
  | none => (0, [.activationCon true])
  | some req => forwardCommand env conn slot a.commonAddr a.typeId req

def handleRead (slot : ℤ) (ca : UInt16) (ioa : UInt32) : ℤ × List Effect :=
  if !env.isMongoLive then (slot, [])
  else
    match findMappedPoint env.pl env.realtimeData conn.cfg ca.toNat ioa.toNat 0 with
    | none => (0, [.activationCon true])
    | some (point, dst) =>
        (slot, .activationCon false ::
          match readObj env.pl env.now point dst with
          | some obj => [.requested dst.commonAddress.toNat obj]
          | none => [])

-- The handler of a received ASDU: the selected point is one for the whole process.
def handle (slot : ℤ) : Received → ℤ × List Effect
  | .command a => handleCommandASDU env conn slot a
  | .resetProcess ca qrp =>
      forwardCommand env conn slot ca 105 { val := .fin 0, objAddr := 0, dur := qrp.toNat }
  | .counterInterrogation ca request freeze =>
      forwardCommand env conn slot ca 101
        { val := .fin 0, objAddr := 0, dur := request.toNat ||| freeze.toNat <<< 6 }
  | .clockSync _ => (0, [.activationCon false])
  | .read ca ioa => handleRead env conn slot ca ioa
  | .unsupported => (slot, [.activationCon true])

end Commands

end JsonScada.Iec60870.Server
