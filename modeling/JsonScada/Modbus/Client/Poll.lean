import JsonScada.Modbus.Client

namespace JsonScada.Modbus.Poll

open JsonScada.Library

section Cycle

-- How the read of a block ends. The context may end before the read, or during it.
inductive Read where
  | answered (raw : Bytes)
  | exception
  | timedOut
  | linkError (msg : String)
  | stopped
  | cancelled

def Read.raw : Read → Option Bytes
  | .answered raw => some raw
  | _ => none

-- What a cycle leaves: the blocks, the updates that it queued, and its counts.
structure Cycle where
  blocks : List Block
  ops : List RtOp := []
  answered : Nat
  linkErrs : Nat := 0
  lastLinkErr : String := ""
  -- the context ended, and the cycle returned before its flush
  ended : Bool := false
  returned : Bool := false

def Cycle.after (rest : Cycle) (read : Block × List RtOp) : Cycle :=
  { rest with blocks := read.1 :: rest.blocks, ops := read.2 ++ rest.ops }

def Cycle.afterLinkError (rest : Cycle) (msg : String) : Cycle :=
  { rest with
    linkErrs := rest.linkErrs + 1
    lastLinkErr := if rest.linkErrs = 0 then msg else rest.lastLinkErr }

variable (round : ℚ → Double) (now : Int) (connNumber : Double) (isGi : Bool)

-- The reads of a cycle, after as many that were answered.
def pollBlocks (answered : Nat) : List (Block × Read) → Cycle
  | [] => { blocks := [], answered := answered }
  | (b, read) :: rest =>
      let unread := rest.map Prod.fst
      let r := readBlock round now connNumber b read.raw isGi
      match read with
      | .stopped => { blocks := b :: unread, answered := answered, ended := true, returned := true }
      | .cancelled =>
          { blocks := b :: unread, answered := answered, ended := true, returned := !rest.isEmpty }
      | .answered _ | .exception => (pollBlocks (answered + 1) rest).after r
      | .timedOut => (pollBlocks answered rest).after r
      | .linkError msg =>
          -- nothing answered yet: the other blocks would fail the same way
          if answered = 0 then
            { blocks := r.1 :: unread, ops := r.2, answered := 0, linkErrs := 1, lastLinkErr := msg }
          else ((pollBlocks answered rest).after r).afterLinkError msg

end Cycle

section Connection

-- How a bulk write of updates ends. One that fails may have been done for some documents.
inductive Outcome where
  | applied
  | failed (through : Processor.Value → Bool)

structure Flush where
  ops : List RtOp
  outcome : Outcome

def Flush.through (f : Flush) (id : Processor.Value) : Bool :=
  match f.outcome with
  | .applied => true
  | .failed through => through id

def Flush.written (f : Flush) : List RtOp := f.ops.filter fun op => f.through op.id

-- Nothing is sent where nothing is pending.
def Flush.Succeeded (f : Flush) : Prop := f.ops = [] ∨ f.outcome = .applied

-- A read plan has each tag once.
structure Plan where
  blocks : List (List Slice)
  nodup : (blocks.flatten.map fun s => s.b.id).Nodup

-- The change cache of every block restarts.
def Plan.fresh (p : Plan) : List Block := p.blocks.map fun slices => { slices := slices }

structure Connection where
  blocks : List Block
  lastGi : Option Int := none
  connected : Bool := false
  invalidated : Bool := false
  -- the flushes so far
  flushes : List Flush := []

-- The interval of the integrity cycles is in nanoseconds, as the time is.
structure Config where
  round : ℚ → Double
  protocolConnectionNumber : Double
  giInterval : Int

variable (cfg : Config)

-- The time of an update, in milliseconds.
def millis (now : Int) : Int := now / 1000000

def isGiDue (c : Connection) (now : Int) : Bool :=
  match c.lastGi with
  | none => true
  | some lastGi => cfg.giInterval ≤ now - lastGi

def polled (c : Connection) (reads : Nat → Read) : List (Block × Read) :=
  c.blocks.mapIdx fun i b => (b, reads i)

def cycleOf (c : Connection) (now : Int) (reads : Nat → Read) : Cycle :=
  pollBlocks cfg.round (millis now) cfg.protocolConnectionNumber (isGiDue cfg c now) 0
    (polled c reads)

-- A failed flush is only logged. The loop ends with the context, or when nothing answered
-- and the link failed.
def pollCycle (c : Connection) (now : Int) (reads : Nat → Read) (outcome : Outcome) : Connection :=
  let cycle := cycleOf cfg c now reads
  { c with
    blocks := cycle.blocks
    lastGi := if isGiDue cfg c now then some now else c.lastGi
    connected := !(cycle.ended || (cycle.answered = 0 && 0 < cycle.linkErrs))
    flushes :=
      if cycle.returned then c.flushes
      else c.flushes ++ [{ ops := cycle.ops, outcome := outcome }] }

def publishAllInvalid (c : Connection) (now : Int) (outcome : Outcome) : Connection :=
  let ids := c.blocks.flatMap fun b => b.slices.map fun s => s.b.id
  let ops := ids.map (queueInvalid (millis now) cfg.protocolConnectionNumber)
  { c with flushes := c.flushes ++ [{ ops := ops, outcome := outcome }] }

inductive Action where
  -- a connect succeeds or fails, or the link is lost and found again
  | connect
  | linkDown (now : Int) (outcome : Outcome)
  | cycle (now : Int) (reads : Nat → Read) (outcome : Outcome)
  | stop
  -- the periodic reload of the bindings
  | setBindings (plan : Plan)

def step (c : Connection) : Action → Option Connection
  | .connect =>
      if c.connected then none
      else some { c with connected := true, invalidated := false, lastGi := none }
  | .linkDown now outcome =>
      if c.connected then none
      else if c.invalidated then some c
      else some { publishAllInvalid cfg c now outcome with invalidated := true }
  | .cycle now reads outcome => if c.connected then some (pollCycle cfg c now reads outcome) else none
  | .stop => some { c with connected := false, invalidated := false }
  | .setBindings plan => some { c with blocks := plan.fresh }

def start (plan : Plan) : Connection := { blocks := plan.fresh }

end Connection

end JsonScada.Modbus.Poll
