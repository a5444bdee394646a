import JsonScada.Library.Run
import JsonScada.OpcUa.Client.Connection

-- Sessions that come and go, and the pumps of their subscriptions.
namespace JsonScada.OpcUa.Client.Subscribe

open JsonScada.Library

structure Notification where
  clientHandle : ℕ
  -- none for a null value
  value : Option DataValue

-- A subscription: the items that the server monitors for it, each by its handle and its node,
-- and the notifications that wait in its channel, each with the node that it is about.
structure Pump where
  session : ℕ
  items : List (ℕ × String) := []
  channel : List (String × Notification) := []

-- Where the loop of the connection stands. A subscription is created for one group of items
-- after another.
inductive Phase where
  | down
  | discovering
  | subscribing (items : List MonItem) (groups : List (List MonItem))
  | running
  | closing (discovered : Bool)

structure State where
  conn : Connection
  phase : Phase := .down
  session : ℕ := 0
  pumps : List Pump := []
  queue : List OPCValue := []
  -- every value that was queued, with the node that it was received for
  delivered : List (String × OPCValue) := []

-- How the tags are read back: not at all, up to the reset, or to the end.
inductive Reload where
  | unreachable
  | unread
  | tags (listMon : List MonItem) (subs : List (Double × List MonItem)) (addrs : List String)

inductive Action where
  | connect
  | discover (found : List MonItem)
  | discovered
  | discoveryFailed
  | createSubscription (ok : Bool)
  -- whether the address is the text of a node
  | newHandle (parsed : Bool)
  | subscribed
  | lose
  | close (reload : Reload)
  -- the server reports a value of an item
  | publish (pump item : ℕ) (value : Option DataValue)
  | handleNotification (pump : ℕ) (now : ℤ)
  | dequeueValue

section Notifications

-- The value of a notification.
def opcValue (c : Connection) (it : MonItem) (v : DataValue) (now : ℤ) : OPCValue where
  selfPublish := true
  address := it.nodeID
  asdu := v.asdu
  isArray := v.isArray
  value := v.value
  valueString := v.valueString
  valueJSON := v.valueJSON
  cot := 3
  sourceTimestamp := v.sourceTimestamp.map (· + c.hoursShift)
  serverTimestamp := now
  quality := v.good
  connNumber := c.protocolConnectionNumber
  connName := c.name
  commonAddress := ""
  displayName := it.displayName
  parentName := ""
  path := ""

-- A notification is discarded, or its value goes to the queue.
def handleNotification (c : Connection) (queued : ℕ) (n : Notification) (now : ℤ) :
    Connection × Option OPCValue :=
  match c.itemForHandle n.clientHandle, n.value with
  | some it, some v =>
      let (window, ok) := (c.windows it.ptr).allow now
      let c := { c with windows := Function.update c.windows it.ptr window }
      if ok && queued < dataBufferLimit then (c, some (opcValue c it v now)) else (c, none)
  | _, _ => (c, none)

end Notifications

section Run

def Connection.groups (c : Connection) : List (List MonItem) :=
  if c.autoCreateTags then [c.listMon] else c.opcSubscriptions.map Prod.snd

def reloadConnectionTags (c : Connection) : Reload → Connection
  | .unreachable => c
  | .unread => c.resetDiscovery
  | .tags listMon subs addrs => c.resetDiscovery.commitPreloadedTags listMon subs addrs

-- The last subscription gets an item.
def addItem (h : ℕ) (node : String) : List Pump → List Pump
  | [] => []
  | [p] => [{ p with items := p.items ++ [(h, node)] }]
  | p :: pumps => p :: addItem h node pumps

def isLive (s : State) (p : Pump) : Bool :=
  p.session = s.session &&
    match s.phase with
    | .subscribing .. | .running | .closing _ => true
    | _ => false

def step (s : State) : Action → Option State
  | .connect =>
      match s.phase with
      | .down =>
          let conn := s.conn.setClient true
          some { s with
            conn := conn
            session := s.session + 1
            phase := if conn.autoCreateTags then .discovering
              else .subscribing [] (Connection.groups conn) }
      | _ => none
  | .discover found =>
      match s.phase with
      | .discovering => some { s with conn := { s.conn with listMon := s.conn.listMon ++ found } }
      | _ => none
  | .discovered =>
      match s.phase with
      | .discovering => some { s with phase := .subscribing [] (Connection.groups s.conn) }
      | _ => none
  | .discoveryFailed =>
      match s.phase with
      | .discovering => some { s with conn := s.conn.setClient false, phase := .closing false }
      | _ => none
  | .createSubscription ok =>
      match s.phase with
      | .subscribing [] (group :: groups) =>
          if ok && !group.isEmpty then
            some { s with
              pumps := s.pumps ++ [{ session := s.session }]
              phase := .subscribing group groups }
          else some { s with phase := .subscribing [] groups }
      | _ => none
  | .newHandle parsed =>
      match s.phase with
      | .subscribing (it :: items) groups =>
          if parsed then
            some { s with
              conn := s.conn.newHandle it
              pumps := addItem s.conn.handleAfter it.nodeID s.pumps
              phase := .subscribing items groups }
          else some { s with phase := .subscribing items groups }
      | _ => none
  | .subscribed =>
      match s.phase with
      | .subscribing [] [] => some { s with phase := .running }
      | _ => none
  | .lose =>
      match s.phase with
      | .running => some { s with conn := s.conn.setClient false, phase := .closing true }
      | _ => none
  | .close reload =>
      match s.phase with
      | .closing true => some { s with phase := .down }
      | .closing false => some { s with conn := reloadConnectionTags s.conn reload, phase := .down }
      | _ => none
  | .publish i j value =>
      match s.pumps[i]? with
      | none => none
      | some p =>
          match p.items[j]? with
          | none => none
          | some (handle, node) =>
              if isLive s p then
                some { s with
                  pumps := s.pumps.set i
                    { p with channel := p.channel ++ [(node, ⟨handle, value⟩)] } }
              else none
  | .handleNotification i now =>
      match s.pumps[i]? with
      | none => none
      | some p =>
          match p.channel with
          | [] => none
          | (node, n) :: channel =>
              let (conn, ov) := handleNotification s.conn s.queue.length n now
              some { s with
                conn := conn
                pumps := s.pumps.set i { p with channel := channel }
                queue := s.queue ++ ov.toList
                delivered := s.delivered ++ ov.toList.map fun ov => (node, ov) }
  | .dequeueValue => some { s with queue := s.queue.tail }

end Run

-- A handle is given out while nothing that bears it, a notification that still waits or an item
-- of the session, is about another node.
def Safe (s : State) : Action → Prop
  | .newHandle _ =>
      match s.phase with
      | .subscribing (it :: _) _ =>
          (∀ p ∈ s.pumps, ∀ e ∈ p.channel, e.2.clientHandle = s.conn.handleAfter →
            e.1 = it.nodeID) ∧
          ∀ p ∈ s.pumps, p.session = s.session → ∀ e ∈ p.items, e.1 = s.conn.handleAfter →
            e.2 = it.nodeID
      | _ => True
  | _ => True

instance decidableSafe (s : State) : ∀ a, Decidable (Safe s a)
  | .newHandle _ =>
      match h : s.phase with
      | .subscribing (it :: _) _ =>
          decidable_of_iff
            ((∀ p ∈ s.pumps, ∀ e ∈ p.channel, e.2.clientHandle = s.conn.handleAfter →
                e.1 = it.nodeID) ∧
              ∀ p ∈ s.pumps, p.session = s.session → ∀ e ∈ p.items, e.1 = s.conn.handleAfter →
                e.2 = it.nodeID)
            (by simp [Safe, h])
      | .subscribing [] _ | .down | .discovering | .running | .closing _ =>
          .isTrue (by simp [Safe, h])
  | .connect | .discover _ | .discovered | .discoveryFailed | .createSubscription _ | .subscribed
  | .lose | .close _ | .publish .. | .handleNotification .. | .dequeueValue => .isTrue trivial

section Invariant

variable {c : Connection} {s s' : State}

-- A handle of the table belongs to the node that it was given out for, wherever it stands.
structure Inv (s : State) : Prop where
  past : ∀ p ∈ s.pumps, p.session ≤ s.session
  monitored : ∀ p ∈ s.pumps, p.session = s.session → ∀ e ∈ p.items, ∀ it,
    s.conn.handles e.1 = some it → it.nodeID = e.2
  waiting : ∀ p ∈ s.pumps, ∀ e ∈ p.channel, ∀ it,
    s.conn.handles e.2.clientHandle = some it → it.nodeID = e.1
  own : ∀ d ∈ s.delivered, d.2.address = d.1

theorem mem_addItem {h : ℕ} {node : String} {pumps : List Pump} {p : Pump}
    (hp : p ∈ addItem h node pumps) :
    p ∈ pumps ∨ ∃ q ∈ pumps, p = { q with items := q.items ++ [(h, node)] } := by
  induction pumps with
  | nil => cases hp
  | cons q pumps ih =>
      cases pumps with
      | nil => exact .inr ⟨q, List.mem_cons_self, List.mem_singleton.mp hp⟩
      | cons r pumps =>
          rcases List.mem_cons.mp hp with rfl | hp
          · exact .inl List.mem_cons_self
          · rcases ih hp with hp | ⟨q', hq', rfl⟩
            · exact .inl (List.mem_cons_of_mem _ hp)
            · exact .inr ⟨q', List.mem_cons_of_mem _ hq', rfl⟩

-- A value goes to the queue under the node of the item that its handle is given to.
theorem handleNotification_spec (c : Connection) (queued : ℕ) (n : Notification) (now : ℤ) :
    (handleNotification c queued n now).1.handles = c.handles ∧
      ∀ ov, (handleNotification c queued n now).2 = some ov →
        ∃ it, c.handles n.clientHandle = some it ∧ ov.address = it.nodeID := by
  unfold handleNotification Connection.itemForHandle
  cases hit : c.handles n.clientHandle with
  | none => exact ⟨rfl, fun ov hov => by cases hov⟩
  | some it =>
      cases hv : n.value with
      | none => exact ⟨rfl, fun ov hov => by cases hov⟩
      | some v =>
          refine ⟨?_, fun ov hov => ⟨it, rfl, ?_⟩⟩
          · dsimp only
            split_ifs <;> rfl
          · dsimp only at hov
            split_ifs at hov
            obtain rfl := Option.some.inj hov
            rfl

-- With the table the same or empty, the pumps and what was delivered the same.
theorem Inv.frame (h : Inv s) (htable : ∀ k it, s'.conn.handles k = some it →
      s.conn.handles k = some it) (hsession : s'.session = s.session) (hpumps : s'.pumps = s.pumps)
    (hdelivered : s'.delivered = s.delivered) : Inv s' := by
  obtain ⟨hpast, hmonitored, hwaiting, hown⟩ := h
  refine ⟨?_, ?_, ?_, ?_⟩ <;> (try rw [hpumps]) <;> (try rw [hsession]) <;> (try rw [hdelivered])
  · exact hpast
  · exact fun p hp hs e he it hit => hmonitored p hp hs e he it (htable _ _ hit)
  · exact fun p hp e he it hit => hwaiting p hp e he it (htable _ _ hit)
  · exact hown

theorem handles_setClient (c : Connection) (up : Bool) (k : ℕ) (it : MonItem)
    (h : (c.setClient up).handles k = some it) : c.handles k = some it := by
  cases up
  · cases h
  · exact h

theorem handles_reload (c : Connection) (r : Reload) (k : ℕ) (it : MonItem)
    (h : (reloadConnectionTags c r).handles k = some it) : c.handles k = some it := by
  cases r with
  | unreachable => exact h
  | _ => cases h

theorem Inv.connect (h : Inv s) (phase : Phase) :
    Inv { s with conn := s.conn.setClient true, session := s.session + 1, phase := phase } := by
  refine ⟨?_, ?_, h.waiting, h.own⟩
  · exact fun p hp => Nat.le_succ_of_le (h.past p hp)
  · intro p hp hsession
    have := h.past p hp
    simp only at hsession
    omega

theorem Inv.createSubscription (h : Inv s) (phase : Phase) :
    Inv { s with pumps := s.pumps ++ [{ session := s.session }], phase := phase } := by
  refine ⟨?_, ?_, ?_, h.own⟩
  · intro p hp
    rcases List.mem_append.mp hp with hp | hp
    · exact h.past p hp
    · obtain rfl := List.mem_singleton.mp hp
      exact le_rfl
  · intro p hp hsession e he
    rcases List.mem_append.mp hp with hp | hp
    · exact h.monitored p hp hsession e he
    · obtain rfl := List.mem_singleton.mp hp
      cases he
  · intro p hp e he
    rcases List.mem_append.mp hp with hp | hp
    · exact h.waiting p hp e he
    · obtain rfl := List.mem_singleton.mp hp
      cases he

theorem Inv.newHandle (h : Inv s) {it : MonItem}
    (hwaiting : ∀ p ∈ s.pumps, ∀ e ∈ p.channel, e.2.clientHandle = s.conn.handleAfter →
      e.1 = it.nodeID)
    (hitems : ∀ p ∈ s.pumps, p.session = s.session → ∀ e ∈ p.items, e.1 = s.conn.handleAfter →
      e.2 = it.nodeID) (phase : Phase) :
    Inv { s with
      conn := s.conn.newHandle it
      pumps := addItem s.conn.handleAfter it.nodeID s.pumps
      phase := phase } := by
  have htable : ∀ k it', (s.conn.newHandle it).handles k = some it' →
      (k = s.conn.handleAfter ∧ it' = it) ∨ s.conn.handles k = some it' := by
    intro k it' hit
    simp only [Connection.newHandle, Function.update_apply] at hit
    split_ifs at hit with hk
    · exact .inl ⟨hk, (Option.some.inj hit).symm⟩
    · exact .inr hit
  refine ⟨?_, ?_, ?_, h.own⟩
  · intro p hp
    rcases mem_addItem hp with hp | ⟨q, hq, rfl⟩
    · exact h.past p hp
    · exact h.past q hq
  · intro p hp hsession e he it' hit
    have hold : ∀ q ∈ s.pumps, q.session = s.session → e ∈ q.items → it'.nodeID = e.2 := by
      intro q hq hs heq
      rcases htable _ _ hit with ⟨hk, rfl⟩ | hit
      · exact (hitems q hq hs e heq hk).symm
      · exact h.monitored q hq hs e heq it' hit
    rcases mem_addItem hp with hp | ⟨q, hq, rfl⟩
    · exact hold p hp hsession he
    · rcases List.mem_append.mp he with he | he
      · exact hold q hq hsession he
      · obtain rfl := List.mem_singleton.mp he
        simp only [Connection.newHandle, Function.update_self, Option.some.injEq] at hit
        rw [← hit]
  · intro p hp e he it' hit
    have hold : ∀ q ∈ s.pumps, e ∈ q.channel → it'.nodeID = e.1 := by
      intro q hq heq
      rcases htable _ _ hit with ⟨hk, rfl⟩ | hit
      · exact (hwaiting q hq e heq hk).symm
      · exact h.waiting q hq e heq it' hit
    rcases mem_addItem hp with hp | ⟨q, hq, rfl⟩
    · exact hold p hp he
    · exact hold q hq he

theorem Inv.publish (h : Inv s) {i j handle : ℕ} {p : Pump} {node : String}
    (hp : s.pumps[i]? = some p) (hj : p.items[j]? = some (handle, node))
    (hsession : p.session = s.session) (value : Option DataValue) :
    Inv { s with
      pumps := s.pumps.set i { p with channel := p.channel ++ [(node, ⟨handle, value⟩)] } } := by
  have hmem : p ∈ s.pumps := List.mem_of_getElem? hp
  refine ⟨?_, ?_, ?_, h.own⟩
  · intro q hq
    rcases List.mem_or_eq_of_mem_set hq with hq | rfl
    · exact h.past q hq
    · exact h.past p hmem
  · intro q hq
    rcases List.mem_or_eq_of_mem_set hq with hq | rfl
    · exact h.monitored q hq
    · exact h.monitored p hmem
  · intro q hq e he it hit
    rcases List.mem_or_eq_of_mem_set hq with hq | rfl
    · exact h.waiting q hq e he it hit
    · rcases List.mem_append.mp he with he | he
      · exact h.waiting p hmem e he it hit
      · obtain rfl := List.mem_singleton.mp he
        exact h.monitored p hmem hsession (handle, node) (List.mem_of_getElem? hj) it hit

theorem Inv.handleNotification (h : Inv s) {i : ℕ} {p : Pump} {node : String} {n : Notification}
    {channel : List (String × Notification)} (hp : s.pumps[i]? = some p)
    (hchannel : p.channel = (node, n) :: channel) (now : ℤ) :
    Inv { s with
      conn := (handleNotification s.conn s.queue.length n now).1
      pumps := s.pumps.set i { p with channel := channel }
      queue := s.queue ++ (Subscribe.handleNotification s.conn s.queue.length n now).2.toList
      delivered := s.delivered ++
        (Subscribe.handleNotification s.conn s.queue.length n now).2.toList.map
          fun ov => (node, ov) } := by
  have hmem : p ∈ s.pumps := List.mem_of_getElem? hp
  obtain ⟨htable, hov⟩ := handleNotification_spec s.conn s.queue.length n now
  refine ⟨?_, ?_, ?_, ?_⟩ <;> dsimp only <;> (try rw [htable])
  · intro q hq
    rcases List.mem_or_eq_of_mem_set hq with hq | rfl
    · exact h.past q hq
    · exact h.past p hmem
  · intro q hq
    rcases List.mem_or_eq_of_mem_set hq with hq | rfl
    · exact h.monitored q hq
    · exact h.monitored p hmem
  · intro q hq e he
    rcases List.mem_or_eq_of_mem_set hq with hq | rfl
    · exact h.waiting q hq e he
    · exact h.waiting p hmem e (hchannel ▸ List.mem_cons_of_mem _ he)
  · intro d hd
    rcases List.mem_append.mp hd with hd | hd
    · exact h.own d hd
    · obtain ⟨ov, hmem', rfl⟩ := List.mem_map.mp hd
      obtain ⟨it, hit, haddress⟩ := hov ov (Option.mem_toList.mp hmem')
      have hnode := h.waiting p hmem (node, n) (hchannel ▸ List.mem_cons_self) it hit
      exact haddress.trans hnode

theorem Inv.step {a : Action} (h : Inv s) (hsafe : Safe s a) (hstep : step s a = some s') :
    Inv s' := by
  cases a with
  | connect =>
      simp only [Subscribe.step] at hstep
      split at hstep
      · obtain rfl := Option.some.inj hstep
        exact h.connect _
      · cases hstep
  | createSubscription ok =>
      simp only [Subscribe.step] at hstep
      split at hstep
      · split_ifs at hstep <;> obtain rfl := Option.some.inj hstep
        · exact h.createSubscription _
        · exact h.frame (fun _ _ hit => hit) rfl rfl rfl
      · cases hstep
  | newHandle parsed =>
      simp only [Subscribe.step] at hstep
      split at hstep
      · rename_i it items groups hphase
        simp only [Safe, hphase] at hsafe
        split_ifs at hstep <;> obtain rfl := Option.some.inj hstep
        · exact h.newHandle hsafe.1 hsafe.2 _
        · exact h.frame (fun _ _ hit => hit) rfl rfl rfl
      · cases hstep
  | publish i j value =>
      simp only [Subscribe.step] at hstep
      split at hstep
      · cases hstep
      · rename_i p hp
        split at hstep
        · cases hstep
        · rename_i handle node hj
          split_ifs at hstep with hlive
          obtain rfl := Option.some.inj hstep
          have hsession : p.session = s.session :=
            of_decide_eq_true (Bool.and_eq_true _ _ ▸ hlive).1
          exact h.publish hp hj hsession value
  | handleNotification i now =>
      simp only [Subscribe.step] at hstep
      split at hstep
      · cases hstep
      · rename_i p hp
        split at hstep
        · cases hstep
        · rename_i node n channel hchannel
          obtain rfl := Option.some.inj hstep
          exact h.handleNotification hp hchannel now
  | dequeueValue =>
      obtain rfl := Option.some.inj hstep
      exact h.frame (fun _ _ hit => hit) rfl rfl rfl
  | lose =>
      simp only [Subscribe.step] at hstep
      split at hstep
      · obtain rfl := Option.some.inj hstep
        exact h.frame (handles_setClient s.conn false) rfl rfl rfl
      · cases hstep
  | discoveryFailed =>
      simp only [Subscribe.step] at hstep
      split at hstep
      · obtain rfl := Option.some.inj hstep
        exact h.frame (handles_setClient s.conn false) rfl rfl rfl
      · cases hstep
  | close reload =>
      simp only [Subscribe.step] at hstep
      split at hstep
      · obtain rfl := Option.some.inj hstep
        exact h.frame (fun _ _ hit => hit) rfl rfl rfl
      · obtain rfl := Option.some.inj hstep
        exact h.frame (handles_reload s.conn reload) rfl rfl rfl
      · cases hstep
  | discover found | discovered | subscribed =>
      simp only [Subscribe.step] at hstep
      split at hstep
      · obtain rfl := Option.some.inj hstep
        exact h.frame (fun _ _ hit => hit) rfl rfl rfl
      · cases hstep

end Invariant

-- Where handles are given out safely, a value is queued under the node that it was received for.
theorem delivered_own {c : Connection} {as : List Action} {s : State}
    (hrun : Run.run step { conn := c } as = some s)
    (hsafe : Run.Allowed step Safe { conn := c } as) : ∀ d ∈ s.delivered, d.2.address = d.1 := by
  have hstart : Inv { conn := c } :=
    ⟨fun _ h => absurd h List.not_mem_nil, fun _ h => absurd h List.not_mem_nil,
      fun _ h => absurd h List.not_mem_nil, fun _ h => absurd h List.not_mem_nil⟩
  exact (Run.invariant (fun _ _ _ h hok hs => h.step hok hs) hstart hsafe hrun).own

section Runs

def itemOf (ptr : ℕ) (nodeID : String) : MonItem where
  ptr := ptr
  nodeID := nodeID
  displayName := nodeID
  samplingMs := .fin 1000
  queueSize := 10

-- Two items, each with a publishing interval of its own.
def twoGroups : Connection where
  protocolConnectionNumber := 1
  name := "PLC"
  autoCreateTags := false
  commandsEnabled := true
  autoCreateTagPublishingInterval := .fin 5
  autoCreateTagSamplingInterval := .fin 5
  autoCreateTagQueueSize := .fin 5
  hoursShift := 0
  opcSubscriptions :=
    [(.fin 1, [itemOf 0 "ns=2;s=Level"]), (.fin 5, [itemOf 1 "ns=2;s=Pressure"])]

def reading (v : ℤ) : DataValue where
  asdu := "double"
  value := .fin v
  valueString := ""
  valueJSON := ""
  isArray := false
  sourceTimestamp := none
  good := true

-- A session, in which the subscription of the first group is created or refused.
def session (created : Bool) : List Action :=
  [.connect, .createSubscription created] ++ (if created then [.newHandle true] else []) ++
    [.createSubscription true, .newHandle true, .subscribed]

-- The notification of a lost session is handled in the next one.
def lateNotification (created : Bool) (pump : ℕ) : List Action :=
  session created ++ [.publish pump 0 (some (reading 7)), .lose, .close .unreachable] ++
    session true ++ [.handleNotification pump 2000000000]

theorem late_own : ∃ s, Run.run step { conn := twoGroups } (lateNotification true 1) = some s ∧
    s.delivered ≠ [] ∧ ∀ d ∈ s.delivered, d.2.address = d.1 := by
  have hrun : (Run.run step { conn := twoGroups } (lateNotification true 1)).any
      (fun s => s.delivered ≠ []) = true := by
    decide
  obtain ⟨s, hs, hne⟩ := (Option.any_eq_true _ _).mp hrun
  exact ⟨s, hs, of_decide_eq_true hne, delivered_own hs (by decide)⟩

-- The first group had no subscription in the lost session, and gets its handle in the next.
theorem late_foreign : ∃ s,
    Run.run step { conn := twoGroups } (lateNotification false 0) = some s ∧
      ∃ d ∈ s.delivered, d.1 = "ns=2;s=Pressure" ∧ d.2.address = "ns=2;s=Level" := by
  have hrun : (Run.run step { conn := twoGroups } (lateNotification false 0)).any (fun s =>
      s.delivered.any fun d => d.1 = "ns=2;s=Pressure" && d.2.address = "ns=2;s=Level") =
      true := by
    decide
  obtain ⟨s, hs, hany⟩ := (Option.any_eq_true _ _).mp hrun
  obtain ⟨d, hd, hboth⟩ := List.any_eq_true.mp hany
  rw [Bool.and_eq_true] at hboth
  exact ⟨s, hs, d, hd, of_decide_eq_true hboth.1, of_decide_eq_true hboth.2⟩

end Runs

end JsonScada.OpcUa.Client.Subscribe
