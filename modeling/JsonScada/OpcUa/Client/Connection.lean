import JsonScada.JsTags

-- What the OPC UA client keeps of a connection while it runs.
namespace JsonScada.OpcUa.Client

open JsonScada.Library
open JsonScada.JsTags

section Items

-- A monitored item, with the pointer that it is known by.
structure MonItem where
  ptr : ℕ
  nodeID : String
  displayName : String
  samplingMs : Double
  queueSize : ℕ

structure NodeDetails where
  displayName : String
  browseName : String
  parentName : String
  path : String

-- The values of one item within a second, in nanoseconds.
structure FloodWindow where
  windowStart : ℤ := 0
  windowCount : ℕ := 0

def maxItemEventsPerSecond : ℕ := 200

def FloodWindow.allow (w : FloodWindow) (now : ℤ) : FloodWindow × Bool :=
  let w := if now - w.windowStart ≥ 1000000000 then { windowStart := now, windowCount := 0 } else w
  let w := { w with windowCount := w.windowCount + 1 }
  (w, w.windowCount ≤ maxItemEventsPerSecond)

end Items

structure Connection where
  protocolConnectionNumber : ℤ
  name : String
  autoCreateTags : Bool
  commandsEnabled : Bool
  autoCreateTagPublishingInterval : Double
  autoCreateTagSamplingInterval : Double
  autoCreateTagQueueSize : Double
  -- as a duration, in nanoseconds
  hoursShift : ℤ
  insertedAddresses : List String := []
  nodeIdsDetails : String → Option NodeDetails := fun _ => none
  tagKeys : KeyAllocator := {}
  handles : ℕ → Option MonItem := fun _ => none
  nextHandle : ℕ := 0
  hasClient : Bool := false
  listMon : List MonItem := []
  -- `OpcSubscriptions`, in the order of `SubscriptionOrder`
  opcSubscriptions : List (Double × List MonItem) := []
  windows : ℕ → FloodWindow := fun _ => {}

namespace Connection

variable (c : Connection)

-- Whether the address was new.
def addInsertedAddress (addr : String) : Connection × Bool :=
  if addr ∈ c.insertedAddresses then (c, false)
  else ({ c with insertedAddresses := addr :: c.insertedAddresses }, true)

def hasInsertedAddress (addr : String) : Bool := c.insertedAddresses.contains addr

def setNodeDetails (nodeID : String) (d : NodeDetails) : Connection :=
  { c with nodeIdsDetails := Function.update c.nodeIdsDetails nodeID (some d) }

-- A uint32 is counted up.
def handleAfter : ℕ := (c.nextHandle + 1) % 2 ^ 32

def newHandle (it : MonItem) : Connection :=
  { c with
    nextHandle := c.handleAfter
    handles := Function.update c.handles c.handleAfter (some it) }

def itemForHandle (h : ℕ) : Option MonItem := c.handles h

def resetDiscovery : Connection :=
  { c with
    listMon := []
    opcSubscriptions := []
    insertedAddresses := []
    nodeIdsDetails := fun _ => none
    handles := fun _ => none
    nextHandle := 0
    tagKeys := {} }

def commitPreloadedTags (listMon : List MonItem) (subs : List (Double × List MonItem))
    (addrs : List String) : Connection :=
  { c with listMon := listMon, opcSubscriptions := subs, insertedAddresses := addrs }

-- The handles go with the session.
def setClient (up : Bool) : Connection :=
  if up then { c with hasClient := true }
  else { c with hasClient := false, handles := fun _ => none, nextHandle := 0 }

end Connection

-- A value on its way to the database.
structure OPCValue where
  createCommandForMethod : Bool := false
  createCommandForSupervised : Bool := false
  accessLevels : ℕ := 0
  valueJSON : String := ""
  selfPublish : Bool
  address : String
  asdu : String
  isArray : Bool := false
  value : Double := .fin 0
  valueString : String := ""
  cot : ℕ
  serverTimestamp : ℤ
  sourceTimestamp : Option ℤ := none
  quality : Bool
  connNumber : ℤ
  connName : String
  commonAddress : String
  displayName : String
  parentName : String
  path : String
deriving DecidableEq

def dataBufferLimit : ℕ := 50000

-- A data value that is not null, as convertOPCValue renders it.
structure DataValue where
  asdu : String
  value : Double
  valueString : String
  valueJSON : String
  isArray : Bool
  sourceTimestamp : Option ℤ
  good : Bool

end JsonScada.OpcUa.Client
