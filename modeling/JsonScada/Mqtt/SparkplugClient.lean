import JsonScada.Processor.Bson

-- The client of the MQTT Sparkplug B driver, which numbers what it publishes.
namespace JsonScada.Mqtt.SparkplugClient

open JsonScada.Processor (Value)

section Model

structure Config where
  groupId : String
  edgeNode : String
  version : String := "spBv1.0"
  bdSeq : ℕ := 0
  seq : ℕ := 0

inductive MsgType where
  | nbirth | ndata | ncmd | dbirth | ddata | dcmd | ddeath
  deriving DecidableEq

def MsgType.text : MsgType → String
  | .nbirth => "NBIRTH"
  | .ndata => "NDATA"
  | .ncmd => "NCMD"
  | .dbirth => "DBIRTH"
  | .ddata => "DDATA"
  | .dcmd => "DCMD"
  | .ddeath => "DDEATH"

-- The node speaks of itself and its devices in all but the commands.
def MsgType.own : MsgType → Bool
  | .ncmd | .dcmd => false
  | _ => true

structure Metric where
  name : String
  type : String
  value : Value

structure Payload where
  timestamp : ℤ
  metrics : Option (List Metric)

-- The algorithms that `compressPayload` knows. It throws for another one, and nothing is
-- published.
inductive Algorithm where
  | deflate | gzip

structure Options where
  compress : Bool := false
  algorithm : Option Algorithm := none

structure PubOptions where
  qos : ℕ
  retain : Bool := false

-- A payload with its number, in an envelope where it is compressed.
structure Message where
  topic : String
  msgType : MsgType
  payload : Payload
  seq : ℕ
  envelope : Option Algorithm
  pubOptions : Option PubOptions := none

-- The number to use, and the counter behind it.
def incrementSeqNum (seq : ℕ) : ℕ × ℕ :=
  let seq := if seq = 256 then 0 else seq
  (seq, seq + 1)

def maybeCompressPayload (options : Options) : Option Algorithm :=
  if options.compress then some (options.algorithm.getD .deflate) else none

variable (cfg : Config)

-- Adds the number and publishes, and gives the counter behind the number.
def send (seq : ℕ) (msgType : MsgType) (group address : String) (payload : Payload)
    (options : Options) (pubOptions : Option PubOptions) : Message × ℕ :=
  let next := incrementSeqNum seq
  ({ topic := cfg.version ++ "/" ++ group ++ "/" ++ msgType.text ++ "/" ++ address
     msgType := msgType
     payload := payload
     seq := next.1
     envelope := maybeCompressPayload options
     pubOptions := pubOptions }, next.2)

-- The birth of the node starts the numbers again.
def publishNodeBirth (_seq : ℕ) (payload : Payload) (options : Options) : Message × ℕ :=
  let bdSeq : Metric := ⟨"bdSeq", "uint64", .number (.fin cfg.bdSeq)⟩
  send cfg 0 .nbirth cfg.groupId cfg.edgeNode
    { payload with metrics := payload.metrics.map (· ++ [bdSeq]) } options none

def publishNodeData (seq : ℕ) (payload : Payload) (options : Options) : Message × ℕ :=
  send cfg seq .ndata cfg.groupId cfg.edgeNode payload options none

def publishNodeCmd (seq : ℕ) (group edge : String) (payload : Payload) (options : Options) :
    Message × ℕ :=
  send cfg seq .ncmd group edge payload options (some { qos := 0 })

def publishDeviceData (seq : ℕ) (deviceId : String) (payload : Payload) (options : Options)
    (pubOptions : Option PubOptions) : Message × ℕ :=
  send cfg seq .ddata cfg.groupId (cfg.edgeNode ++ "/" ++ deviceId) payload options pubOptions

def publishDeviceCmd (seq : ℕ) (group edge device : String) (payload : Payload)
    (options : Options) : Message × ℕ :=
  send cfg seq .dcmd group (edge ++ "/" ++ device) payload options (some { qos := 0 })

def publishDeviceBirth (seq : ℕ) (deviceId : String) (payload : Payload) (options : Options) :
    Message × ℕ :=
  send cfg seq .dbirth cfg.groupId (cfg.edgeNode ++ "/" ++ deviceId) payload options none

def publishDeviceDeath (seq : ℕ) (deviceId : String) (payload : Payload) : Message × ℕ :=
  send cfg seq .ddeath cfg.groupId (cfg.edgeNode ++ "/" ++ deviceId) payload {} none

inductive Publication where
  | nodeBirth (payload : Payload) (options : Options)
  | nodeData (payload : Payload) (options : Options)
  | nodeCmd (group edge : String) (payload : Payload) (options : Options)
  | deviceData (deviceId : String) (payload : Payload) (options : Options)
      (pubOptions : Option PubOptions)
  | deviceCmd (group edge device : String) (payload : Payload) (options : Options)
  | deviceBirth (deviceId : String) (payload : Payload) (options : Options)
  | deviceDeath (deviceId : String) (payload : Payload)

def Publication.msgType : Publication → MsgType
  | .nodeBirth .. => .nbirth
  | .nodeData .. => .ndata
  | .nodeCmd .. => .ncmd
  | .deviceData .. => .ddata
  | .deviceCmd .. => .dcmd
  | .deviceBirth .. => .dbirth
  | .deviceDeath .. => .ddeath

def publish (seq : ℕ) : Publication → Message × ℕ
  | .nodeBirth payload options => publishNodeBirth cfg seq payload options
  | .nodeData payload options => publishNodeData cfg seq payload options
  | .nodeCmd group edge payload options => publishNodeCmd cfg seq group edge payload options
  | .deviceData deviceId payload options pubOptions =>
      publishDeviceData cfg seq deviceId payload options pubOptions
  | .deviceCmd group edge device payload options =>
      publishDeviceCmd cfg seq group edge device payload options
  | .deviceBirth deviceId payload options => publishDeviceBirth cfg seq deviceId payload options
  | .deviceDeath deviceId payload => publishDeviceDeath cfg seq deviceId payload

-- What a client publishes from a value of its counter on.
def messagesFrom (seq : ℕ) : List Publication → List Message
  | [] => []
  | p :: ps => (publish cfg seq p).1 :: messagesFrom (publish cfg seq p).2 ps

def messages (ps : List Publication) : List Message := messagesFrom cfg cfg.seq ps

-- The messages of the node itself.
def ownMessages (ms : List Message) : List Message := ms.filter fun m => m.msgType.own

end Model

section Sequence

section Spec

-- The numbers of a node, after the last one: in 0..255, from 0 at each birth of the node, and
-- else the next one modulo 256.
def NoGap (last : Option ℕ) : List Message → Prop
  | [] => True
  | m :: ms =>
      m.seq ≤ 255 ∧
        (if m.msgType = .nbirth then m.seq = 0 else ∀ l ∈ last, m.seq = (l + 1) % 256) ∧
        NoGap (some m.seq) ms

-- The commands between a message of the node and the next one, unless that is its birth,
-- are a multiple of 256; `commands` counts those since the last message of the node.
def Unnoticed (commands : Option ℕ) : List Publication → Prop
  | [] => True
  | p :: ps =>
      if p.msgType.own then
        (p.msgType = .nbirth ∨ ∀ k ∈ commands, k % 256 = 0) ∧ Unnoticed (some 0) ps
      else Unnoticed (commands.map (· + 1)) ps

-- The first message of the node has a number in the range.
def StartsInRange (cfg : Config) (ps : List Publication) : Prop :=
  cfg.seq ≤ 256 ∨ ∀ p ∈ ps.find? fun p => p.msgType.own, p.msgType = .nbirth

end Spec

section Counter

theorem incrementSeqNum_of_le {seq : ℕ} (h : seq ≤ 256) :
    (incrementSeqNum seq).1 = seq % 256 ∧ (incrementSeqNum seq).2 = seq % 256 + 1 := by
  unfold incrementSeqNum
  split <;> dsimp only <;> omega

variable (cfg : Config) (seq : ℕ) (p : Publication)

@[simp] theorem msgType_publish : (publish cfg seq p).1.msgType = p.msgType := by
  cases p <;> rfl

-- The one thing that the kind of a publication decides: whether the numbers start again.
theorem publish_seq : (publish cfg seq p).1.seq =
      (incrementSeqNum (if p.msgType = .nbirth then 0 else seq)).1 ∧
    (publish cfg seq p).2 = (incrementSeqNum (if p.msgType = .nbirth then 0 else seq)).2 := by
  cases p <;> exact ⟨rfl, rfl⟩

variable {p}

theorem publish_nodeBirth (h : p.msgType = .nbirth) :
    (publish cfg seq p).1.seq = 0 ∧ (publish cfg seq p).2 = 1 := by
  have hseq := publish_seq cfg seq p
  rw [if_pos h] at hseq
  exact hseq

variable {seq}

theorem publish_of_le (h : p.msgType ≠ .nbirth) (hseq : seq ≤ 256) :
    (publish cfg seq p).1.seq = seq % 256 ∧ (publish cfg seq p).2 = seq % 256 + 1 := by
  obtain ⟨hnumber, hnext⟩ := publish_seq cfg seq p
  rw [if_neg h] at hnumber hnext
  rw [hnumber, hnext]
  exact incrementSeqNum_of_le hseq

theorem publish_of_lt (h : p.msgType ≠ .nbirth) (hseq : 256 < seq) :
    (publish cfg seq p).1.seq = seq ∧ (publish cfg seq p).2 = seq + 1 := by
  have hne : seq ≠ 256 := by omega
  obtain ⟨hnumber, hnext⟩ := publish_seq cfg seq p
  rw [if_neg h] at hnumber hnext
  rw [hnumber, hnext, incrementSeqNum, if_neg hne]
  exact ⟨rfl, rfl⟩

end Counter

section Runs

variable (cfg : Config) {seq : ℕ} {ps : List Publication}

theorem ownMessages_cons (p : Publication) :
    ownMessages (messagesFrom cfg seq (p :: ps)) =
      if p.msgType.own then
        (publish cfg seq p).1 :: ownMessages (messagesFrom cfg (publish cfg seq p).2 ps)
      else ownMessages (messagesFrom cfg (publish cfg seq p).2 ps) := by
  simp only [ownMessages, messagesFrom, List.filter_cons, msgType_publish]

-- How the counter stands: ahead of the last number of the node by the commands since.
def Ahead (seq : ℕ) (last commands : Option ℕ) : Prop :=
  match last, commands with
  | none, none => True
  | some l, some k => l ≤ 255 ∧ seq % 256 = (l + 1 + k) % 256
  | _, _ => False

-- A message other than a birth: its number is the next one exactly when the commands have
-- turned the counter round.
theorem next_iff {last commands : Option ℕ} (h : Ahead seq last commands) :
    (∀ l ∈ last, seq % 256 = (l + 1) % 256) ↔ ∀ k ∈ commands, k % 256 = 0 := by
  cases last with
  | none =>
      cases commands with
      | none => simp
      | some k => exact h.elim
  | some l =>
      cases commands with
      | none => exact h.elim
      | some k =>
          obtain ⟨-, hseq⟩ := h
          simp only [Option.mem_some_iff, forall_eq']
          omega

theorem noGap_iff_of_le (ps : List Publication) {last commands : Option ℕ} (hseq : seq ≤ 256)
    (h : Ahead seq last commands) :
    NoGap last (ownMessages (messagesFrom cfg seq ps)) ↔ Unnoticed commands ps := by
  induction ps generalizing seq last commands with
  | nil => simp [messagesFrom, ownMessages, NoGap, Unnoticed]
  | cons p ps ih =>
      rw [ownMessages_cons]
      by_cases hbirth : p.msgType = .nbirth
      · obtain ⟨hnumber, hnext⟩ := publish_nodeBirth cfg seq hbirth
        have hahead : Ahead 1 (some 0) (some 0) := ⟨by omega, rfl⟩
        have hrest := ih (by omega) hahead
        simp [hbirth, MsgType.own, NoGap, Unnoticed, hnumber, hnext, hrest]
      · obtain ⟨hnumber, hnext⟩ := publish_of_le cfg hbirth hseq
        by_cases hown : p.msgType.own = true
        · have hahead : Ahead (seq % 256 + 1) (some (seq % 256)) (some 0) := ⟨by omega, by omega⟩
          have hrest := ih (by omega) hahead
          have hrange : seq % 256 ≤ 255 := by omega
          simp only [hown, if_true, NoGap, msgType_publish, hbirth, if_false, hnumber, hnext,
            hrest, Unnoticed, false_or, next_iff h, hrange, true_and]
        · have hahead : Ahead (seq % 256 + 1) last (commands.map (· + 1)) := by
            cases last with
            | none =>
                cases commands with
                | none => trivial
                | some k => exact h
            | some l =>
                cases commands with
                | none => exact h
                | some k =>
                    obtain ⟨hl, hk⟩ := h
                    refine ⟨hl, ?_⟩
                    change (seq % 256 + 1) % 256 = (l + 1 + (k + 1)) % 256
                    omega
          have hrest := ih (by omega) hahead
          simp only [hown, Bool.false_eq_true, if_false, Unnoticed, hnext, hrest]

-- A counter that starts behind the range leaves it at a birth only.
theorem noGap_iff_of_lt (hseq : 256 < seq) :
    NoGap none (ownMessages (messagesFrom cfg seq ps)) ↔
      (∀ p ∈ ps.find? fun p => p.msgType.own, p.msgType = .nbirth) ∧ Unnoticed none ps := by
  induction ps generalizing seq with
  | nil => simp [messagesFrom, ownMessages, NoGap, Unnoticed]
  | cons p ps ih =>
      rw [ownMessages_cons]
      by_cases hbirth : p.msgType = .nbirth
      · obtain ⟨hnumber, hnext⟩ := publish_nodeBirth cfg seq hbirth
        have hahead : Ahead 1 (some 0) (some 0) := ⟨by omega, rfl⟩
        have hrest := noGap_iff_of_le cfg ps (by omega) hahead
        simp [hbirth, MsgType.own, NoGap, Unnoticed, hnumber, hnext, hrest]
      · obtain ⟨hnumber, hnext⟩ := publish_of_lt cfg hbirth hseq
        by_cases hown : p.msgType.own = true
        · have hrange : ¬seq ≤ 255 := by omega
          simp [hown, NoGap, hnumber, hrange, hbirth]
        · have hbehind : 256 < seq + 1 := by omega
          have hrest := ih hbehind
          simp [hown, Unnoticed, hnext, hrest]

-- The numbers of the node have no gap exactly when no command takes one that is missed.
theorem noGap_iff (cfg : Config) (ps : List Publication) :
    NoGap none (ownMessages (messages cfg ps)) ↔ StartsInRange cfg ps ∧ Unnoticed none ps := by
  unfold messages StartsInRange
  by_cases hseq : cfg.seq ≤ 256
  · have hahead : Ahead cfg.seq none none := trivial
    have h := noGap_iff_of_le cfg ps hseq hahead
    simp only [h, hseq, true_or, true_and]
  · simp only [noGap_iff_of_lt cfg (show 256 < cfg.seq by omega), hseq, false_or]

end Runs

section Samples

def node : Config := { groupId := "Sub", edgeNode := "Gateway" }

def noMetrics : Payload := ⟨0, some []⟩

-- A rebirth that is asked of another node takes a number.
theorem command_leaves_gap :
    ¬NoGap none (ownMessages (messages node
      [.nodeBirth noMetrics {}, .nodeCmd "Sub" "Other" noMetrics {},
        .deviceData "Bay" noMetrics {} none])) := by
  simp [messages, messagesFrom, publish, publishNodeBirth, publishNodeCmd, publishDeviceData, send,
    incrementSeqNum, ownMessages, MsgType.own, NoGap]

end Samples

end Sequence

end JsonScada.Mqtt.SparkplugClient
