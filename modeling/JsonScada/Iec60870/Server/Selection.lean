import JsonScada.Iec60870.Server.Destinations
import Mathlib.Data.List.Induction

namespace JsonScada.Iec60870.Server

open JsonScada.Library

section History

-- One received ASDU: the connection it came by and what the server finds at that time.
structure Event where
  env : Env
  conn : Conn
  received : Received

-- The address, the type and the fields of a command, none where its value is invalid.
structure Command where
  ca : UInt16
  type : ℕ
  req : Option CmdRequest

def Event.command (e : Event) : Option Command :=
  match e.received with
  | .command a => some ⟨a.commonAddr, a.typeId, cmdRequest e.env.pl a⟩
  | .resetProcess ca qrp => some ⟨ca, 105, some { val := .fin 0, objAddr := 0, dur := qrp.toNat }⟩
  | .counterInterrogation ca request freeze =>
      some ⟨ca, 101,
        some { val := .fin 0, objAddr := 0, dur := request.toNat ||| freeze.toNat <<< 6 }⟩
  | _ => none

def Event.verdict (slot : ℤ) (e : Event) : Option Verdict :=
  e.command.map fun c =>
    match c.req with
    | none => .rejected
    | some req => forwardVerdict e.env e.conn slot c.ca c.type req

-- The command is mapped to a destination that wants a select before the execute.
def Event.WantsSelect (e : Event) : Prop :=
  ∃ c req point dst, e.command = some c ∧ c.req = some req ∧
    findMappedPoint e.env.pl e.env.realtimeData e.conn.cfg c.ca.toNat req.objAddr c.type =
      some (point, dst) ∧ dst.commandUseSBO = true

-- The selected point after a history, from the start of the process.
def slotAfter (history : List Event) : ℤ :=
  history.foldl (fun slot e => (handle e.env e.conn slot e.received).1) 0

def verdictAt (history : List Event) (n : ℕ) : Option Verdict :=
  history[n]?.bind fun e => e.verdict (slotAfter (history.take n))

-- The event is the accepted select of a point with this key.
def SelectsAt (history : List Event) (n : ℕ) (key : ℤ) : Prop :=
  verdictAt history n = some (.selected key)

-- The event is an execute that is forwarded to a point with this key, by a destination
-- that wants a select.
def ExecutesAt (history : List Event) (n : ℕ) (key : ℤ) : Prop :=
  ∃ e point kconv1 kconv2, history[n]? = some e ∧ e.WantsSelect ∧
    verdictAt history n = some (.forwarded point kconv1 kconv2) ∧ pointKey e.env.pl point = key

-- The event is no command, or one that the server does not answer.
def QuietAt (history : List Event) (n : ℕ) : Prop :=
  verdictAt history n = none ∨ verdictAt history n = some .ignored

end History

section Step

-- The selected point after a verdict.
def armed (slot : ℤ) : Verdict → ℤ
  | .ignored => slot
  | .selected key => key
  | _ => 0

theorem handle_slot (slot : ℤ) (e : Event) :
    (handle e.env e.conn slot e.received).1 = match e.verdict slot with
      | some v => armed slot v
      | none => (handle e.env e.conn slot e.received).1 := by
  unfold Event.verdict Event.command
  cases hreceived : e.received with
  | command a =>
      simp only [handle, handleCommandASDU, Option.map_some]
      cases cmdRequest e.env.pl a with
      | none => rfl
      | some req =>
          simp only [forwardCommand]
          cases forwardVerdict e.env e.conn slot a.commonAddr a.typeId req <;> rfl
  | resetProcess ca qrp =>
      simp only [handle, forwardCommand, Option.map_some]
      cases forwardVerdict e.env e.conn slot ca 105 _ <;> rfl
  | counterInterrogation ca request freeze =>
      simp only [handle, forwardCommand, Option.map_some]
      cases forwardVerdict e.env e.conn slot ca 101 _ <;> rfl
  | _ => rfl

-- What is no command leaves the selection, or takes it back.
theorem handle_slot_of_none {slot : ℤ} {e : Event} (h : e.verdict slot = none) :
    (handle e.env e.conn slot e.received).1 = slot ∨
      (handle e.env e.conn slot e.received).1 = 0 := by
  unfold Event.verdict Event.command at h
  cases hreceived : e.received with
  | command a => simp [hreceived] at h
  | resetProcess ca qrp => simp [hreceived] at h
  | counterInterrogation ca request freeze => simp [hreceived] at h
  | clockSync ca => exact .inr rfl
  | unsupported => exact .inl rfl
  | read ca ioa =>
      unfold handle handleRead
      simp only
      split
      · exact .inl rfl
      · split
        · exact .inr rfl
        · exact .inl rfl

-- A point is selected after an event only when the event selected it, or left it so.
theorem selected_after {slot key : ℤ} {e : Event} (hkey : key ≠ 0)
    (h : (handle e.env e.conn slot e.received).1 = key) :
    e.verdict slot = some (.selected key) ∨
      slot = key ∧ (e.verdict slot = none ∨ e.verdict slot = some .ignored) := by
  cases hv : e.verdict slot with
  | none =>
      rcases handle_slot_of_none hv with hslot | hslot
      · exact .inr ⟨hslot.symm.trans h, .inl rfl⟩
      · exact absurd (h.symm.trans hslot) hkey
  | some v =>
      rw [handle_slot, hv] at h
      simp only at h
      cases v with
      | ignored => exact .inr ⟨h, .inr rfl⟩
      | selected k =>
          obtain rfl : k = key := h
          exact .inl rfl
      | rejected => exact absurd h.symm hkey
      | unselected => exact absurd h.symm hkey
      | forwarded point k₁ k₂ => exact absurd h.symm hkey

end Step

section Run

variable {history : List Event} {e : Event}

theorem slotAfter_concat :
    slotAfter (history ++ [e]) = (handle e.env e.conn (slotAfter history) e.received).1 :=
  List.foldl_concat ..

theorem verdictAt_append_left {n : ℕ} (hn : n < history.length) :
    verdictAt (history ++ [e]) n = verdictAt history n := by
  unfold verdictAt
  rw [List.getElem?_append_left hn, List.take_append_of_le_length hn.le]

theorem verdictAt_concat :
    verdictAt (history ++ [e]) history.length = e.verdict (slotAfter history) := by
  unfold verdictAt
  rw [List.getElem?_concat_length, List.take_left]
  rfl

-- The selected point comes from an accepted select, after which nothing was answered.
theorem select_of_slot {key : ℤ} (hkey : key ≠ 0) (h : slotAfter history = key) :
    ∃ m < history.length, SelectsAt history m key ∧
      ∀ j, m < j → j < history.length → QuietAt history j := by
  induction history using List.reverseRecOn with
  | nil => exact absurd h.symm hkey
  | append_singleton history e ih =>
      rw [slotAfter_concat] at h
      rcases selected_after hkey h with hselect | ⟨hslot, hquiet⟩
      · refine ⟨history.length, by simp, ?_, ?_⟩
        · rw [SelectsAt, verdictAt_concat]
          exact hselect
        · intro j hj hlt
          simp only [List.length_append, List.length_singleton] at hlt
          omega
      · obtain ⟨m, hm, hselect, hbetween⟩ := ih hslot
        refine ⟨m, by simp; omega, ?_, ?_⟩
        · rw [SelectsAt, verdictAt_append_left hm]
          exact hselect
        · intro j hj hlt
          simp only [List.length_append, List.length_singleton] at hlt
          by_cases hlast : j = history.length
          · subst hlast
            rw [QuietAt, verdictAt_concat]
            exact hquiet
          · rw [QuietAt, verdictAt_append_left (by omega)]
            exact hbetween j hj (by omega)

theorem slot_of_executesAt {n : ℕ} {key : ℤ} (h : ExecutesAt history n key) :
    n < history.length ∧ slotAfter (history.take n) = key := by
  obtain ⟨e, point, k₁, k₂, he, ⟨c, req, p, dst, hc, hreq, hfind, hsbo⟩, hverdict, rfl⟩ := h
  refine ⟨(List.getElem?_eq_some_iff.mp he).1, ?_⟩
  simp only [verdictAt, he, Option.bind_some, Event.verdict, hc, Option.map_some, hreq,
    Option.some.injEq] at hverdict
  obtain ⟨-, dst', hfind', ⟨-, -, -, hslot⟩, -⟩ := forwardVerdict_forwarded.mp hverdict
  rw [hfind] at hfind'
  obtain ⟨rfl, rfl⟩ := Prod.mk.inj (Option.some.inj hfind')
  exact hslot hsbo

theorem verdictAt_take {n j : ℕ} (hj : j < n) :
    verdictAt (history.take n) j = verdictAt history j := by
  unfold verdictAt
  rw [List.getElem?_take_of_lt hj, List.take_take, Nat.min_eq_left hj.le]

theorem select_before {n : ℕ} {key : ℤ} (h : ExecutesAt history n key) (hkey : key ≠ 0) :
    ∃ m < n, SelectsAt history m key ∧ ∀ j, m < j → j < n → QuietAt history j := by
  obtain ⟨hn, hslot⟩ := slot_of_executesAt h
  obtain ⟨m, hm, hselect, hbetween⟩ := select_of_slot hkey hslot
  rw [List.length_take_of_le hn.le] at hm hbetween
  refine ⟨m, hm, ?_, ?_⟩
  · rw [SelectsAt, ← verdictAt_take hm]
    exact hselect
  · intro j hj hlt
    rw [QuietAt, ← verdictAt_take hlt]
    exact hbetween j hj hlt

-- The process has one selection, for all connections. An execute is forwarded only after
-- an accepted select of a point with its key, with nothing answered in between, and two
-- executes need two selects.
theorem execute_after_select (history : List Event) {n : ℕ} {key : ℤ}
    (h : ExecutesAt history n key) (hkey : key ≠ 0) :
    (∃ m < n, SelectsAt history m key ∧ ∀ j, m < j → j < n → QuietAt history j) ∧
      ∀ n' < n, ∀ key', ExecutesAt history n' key' →
        ∃ m, n' < m ∧ m < n ∧ SelectsAt history m key := by
  obtain ⟨m, hm, hselect, hbetween⟩ := select_before h hkey
  refine ⟨⟨m, hm, hselect, hbetween⟩, ?_⟩
  rintro n' hn' key' ⟨e, point, k₁, k₂, -, -, hverdict, -⟩
  refine ⟨m, ?_, hm, hselect⟩
  by_contra hle
  rcases Nat.lt_or_eq_of_le (Nat.le_of_not_lt hle) with hlt | rfl
  · rcases hbetween n' hlt hn' with hquiet | hquiet <;> rw [hverdict] at hquiet <;> cases hquiet
  · rw [SelectsAt, hverdict] at hselect
    cases hselect

end Run

section Example

-- A single command for the breaker, by one of the two connections.
def breakerCommand (number ioa : ℕ) (inSelect : Bool) : Event where
  env := environment true
  conn := connection number
  received := .command
    { commonAddr := 1, cause := .activation, isNegative := false, ioa := UInt32.ofNat ioa
      info := .single true { qual := 0, inSelect := inSelect }, time := none }

theorem breakerCommand_executes {history : List Event} {n number ioa : ℕ}
    (he : history[n]? = some (breakerCommand number ioa false))
    (hfind : ∃ dst, findMappedPoint plainPlatform (some [breaker true]) (connection number).cfg 1
      (UInt32.ofNat ioa).toNat 45 = some (breakerPoint true, dst) ∧ dst.commandUseSBO = true)
    (hverdict : verdictAt history n = some (.forwarded (breakerPoint true) (.fin 1) (.fin 0))) :
    ExecutesAt history n 5001 := by
  obtain ⟨dst, hfind, hsbo⟩ := hfind
  have hkey : pointKey plainPlatform (breakerPoint true) = 5001 := by decide
  refine ⟨_, breakerPoint true, .fin 1, .fin 0, he, ?_, hverdict, hkey⟩
  exact ⟨⟨1, 45, some (closeCommand (UInt32.ofNat ioa).toNat)⟩, closeCommand (UInt32.ofNat ioa).toNat,
    breakerPoint true, dst, rfl, rfl, hfind, hsbo⟩

def ownDestination (number ioa : ℕ) : ProtocolDestination where
  connectionNumber := .fin number
  commonAddress := 1
  objectAddress := UInt32.ofNat ioa
  asdu := 45
  commandUseSBO := true
  kconv1 := .fin 1

def selectThenExecute : List Event := [breakerCommand 1 1000 true, breakerCommand 1 1000 false]

theorem selectThenExecute_selected :
    (∃ m < 1, SelectsAt selectThenExecute m 5001 ∧
        ∀ j, m < j → j < 1 → QuietAt selectThenExecute j) ∧
      ∀ n' < 1, ∀ key', ExecutesAt selectThenExecute n' key' →
        ∃ m, n' < m ∧ m < 1 ∧ SelectsAt selectThenExecute m 5001 :=
  execute_after_select selectThenExecute
    (breakerCommand_executes rfl ⟨ownDestination 1 1000, by decide +kernel, rfl⟩
      (by decide +kernel))
    (by decide)

-- Every execute comes after a select of its point by the same connection.
def SelectedByConnection (history : List Event) : Prop :=
  ∀ n key e, history[n]? = some e → ExecutesAt history n key →
    ∃ m < n, ∃ e', history[m]? = some e' ∧
      e'.conn.cfg.protocolConnectionNumber = e.conn.cfg.protocolConnectionNumber ∧
      SelectsAt history m key

-- One connection selects the breaker, and another operates it.
theorem select_of_another_connection :
    ¬SelectedByConnection [breakerCommand 1 1000 true, breakerCommand 2 2000 false] := by
  intro h
  have hexecutes : ExecutesAt [breakerCommand 1 1000 true, breakerCommand 2 2000 false] 1 5001 := by
    refine breakerCommand_executes rfl ⟨ownDestination 2 2000, ?_, rfl⟩ ?_
    · decide +kernel
    · decide +kernel
  obtain ⟨m, hm, e', he', hsame, -⟩ := h 1 5001 _ rfl hexecutes
  obtain rfl : m = 0 := by omega
  obtain rfl := Option.some.inj he'
  exact absurd hsame (by decide)

end Example

section Confirmations

-- Whether an activation confirmation is negative, none for another effect.
def Effect.confirmation : Effect → Option Bool
  | .activationCon isNegative => some isNegative
  | _ => none

def confirmations (effects : List Effect) : List Bool := effects.filterMap Effect.confirmation

-- A command is in the queue once its insertion is done.
def Forwarded (inserted : Bool) (effects : List Effect) : Prop :=
  inserted = true ∧ ∃ doc, .insertCommand doc ∈ effects

def Event.effects (slot : ℤ) (e : Event) : List Effect := (handle e.env e.conn slot e.received).2

-- One confirmation, which is positive exactly when the select was accepted or the command
-- forwarded.
def ConfirmedOnce (slot : ℤ) (inserted : Bool) (e : Event) : Prop :=
  ∀ c, e.command = some c → ∃ isNegative, confirmations (e.effects slot) = [isNegative] ∧
    (isNegative = false ↔
      (∃ key, e.verdict slot = some (.selected key)) ∨ Forwarded inserted (e.effects slot))

-- An execute with the right qualifier, in time.
def IsExecute (env : Env) (dst : ProtocolDestination) (req : CmdRequest) : Prop :=
  req.isSelect = false ∧ req.dur = (env.pl.toInt .int dst.commandDuration).1 ∧
    isExpired env req = false

-- MongoDB is there, the execute of a point that wants a select has one, and can be stored.
def Confirmable (slot : ℤ) (inserted : Bool) (e : Event) : Prop :=
  ∀ c req, e.command = some c → c.req = some req → e.env.isMongoLive = true ∧
    ∀ point dst, findMappedPoint e.env.pl e.env.realtimeData e.conn.cfg c.ca.toNat req.objAddr
        c.type = some (point, dst) → IsExecute e.env dst req →
      (dst.commandUseSBO = true → slot = pointKey e.env.pl point) ∧ inserted = true

end Confirmations

section Verdicts

variable {slot : ℤ} {inserted : Bool} {e : Event} {c : Command} {req : CmdRequest}

variable (slot) in
theorem effects_invalid (hc : e.command = some c) (hreq : c.req = none) :
    e.effects slot = [.activationCon true] ∧ e.verdict slot = some .rejected := by
  refine ⟨?_, by rw [Event.verdict, hc, Option.map_some, hreq]⟩
  unfold Event.effects
  unfold Event.command at hc
  cases hreceived : e.received with
  | command a =>
      rw [hreceived] at hc
      obtain rfl := Option.some.inj hc
      simp only [handle, handleCommandASDU]
      rw [show cmdRequest e.env.pl a = none from hreq]
  | resetProcess ca qrp =>
      rw [hreceived] at hc
      obtain rfl := Option.some.inj hc
      cases hreq
  | counterInterrogation ca request freeze =>
      rw [hreceived] at hc
      obtain rfl := Option.some.inj hc
      cases hreq
  | _ =>
      rw [hreceived] at hc
      cases hc

variable (slot) in
theorem effects_valid (hc : e.command = some c) (hreq : c.req = some req) :
    e.effects slot = (forwardCommand e.env e.conn slot c.ca c.type req).2 ∧
      e.verdict slot = some (forwardVerdict e.env e.conn slot c.ca c.type req) := by
  refine ⟨?_, by rw [Event.verdict, hc, Option.map_some, hreq]⟩
  unfold Event.effects
  unfold Event.command at hc
  cases hreceived : e.received with
  | command a =>
      rw [hreceived] at hc
      obtain rfl := Option.some.inj hc
      simp only [handle, handleCommandASDU]
      rw [show cmdRequest e.env.pl a = some req from hreq]
  | resetProcess ca qrp =>
      rw [hreceived] at hc
      obtain rfl := Option.some.inj hc
      obtain rfl := Option.some.inj hreq
      rfl
  | counterInterrogation ca request freeze =>
      rw [hreceived] at hc
      obtain rfl := Option.some.inj hc
      obtain rfl := Option.some.inj hreq
      rfl
  | _ =>
      rw [hreceived] at hc
      cases hc

-- The verdicts that are answered once, and rightly.
def Verdict.AnsweredOnce (inserted : Bool) : Verdict → Prop
  | .ignored | .unselected => False
  | .rejected | .selected _ => True
  | .forwarded .. => inserted = true

theorem carryOut_answered (env : Env) (conn : Conn) (type : ℕ) (v : Verdict) :
    (∃ isNegative, confirmations (carryOut env conn slot type req v).2 = [isNegative] ∧
      (isNegative = false ↔ (∃ key, some v = some (.selected key)) ∨
        Forwarded inserted (carryOut env conn slot type req v).2)) ↔ v.AnsweredOnce inserted := by
  cases v with
  | ignored => simp [carryOut, confirmations, Verdict.AnsweredOnce]
  | rejected => simp [carryOut, confirmations, Effect.confirmation, Forwarded, Verdict.AnsweredOnce]
  | selected key => simp [carryOut, confirmations, Effect.confirmation, Verdict.AnsweredOnce]
  | unselected => simp [carryOut, confirmations, Effect.confirmation, Verdict.AnsweredOnce]
  | forwarded point k₁ k₂ =>
      simp [carryOut, confirmations, Effect.confirmation, Forwarded, Verdict.AnsweredOnce]

theorem verdictFor_answered {env : Env} {point : RtDataPoint} {dst : ProtocolDestination} :
    (verdictFor env slot point dst req).AnsweredOnce inserted ↔
      (IsExecute env dst req →
        (dst.commandUseSBO = true → slot = pointKey env.pl point) ∧ inserted = true) := by
  unfold verdictFor IsExecute
  by_cases hselect : req.isSelect = true
  · simp only [hselect, Bool.true_and, if_true]
    split_ifs <;> simp [Verdict.AnsweredOnce]
  · simp only [Bool.not_eq_true] at hselect
    by_cases hdur : req.dur = (env.pl.toInt .int dst.commandDuration).1
    · cases hexpired : isExpired env req with
      | true => simp [hselect, hdur, Verdict.AnsweredOnce]
      | false =>
          by_cases hsbo : dst.commandUseSBO = true
          · by_cases hslot : slot = pointKey env.pl point
            · simp [hselect, hdur, hsbo, hslot, Verdict.AnsweredOnce]
            · simp [hselect, hdur, hsbo, hslot, Verdict.AnsweredOnce]
          · simp [hselect, hdur, hsbo, Verdict.AnsweredOnce]
    · simp [hselect, hdur, Verdict.AnsweredOnce]

theorem forwardVerdict_answered {env : Env} {conn : Conn} {ca : UInt16} {type : ℕ} :
    (forwardVerdict env conn slot ca type req).AnsweredOnce inserted ↔
      env.isMongoLive = true ∧ ∀ point dst,
        findMappedPoint env.pl env.realtimeData conn.cfg ca.toNat req.objAddr type =
          some (point, dst) → IsExecute env dst req →
        (dst.commandUseSBO = true → slot = pointKey env.pl point) ∧ inserted = true := by
  unfold forwardVerdict
  cases hlive : env.isMongoLive with
  | false => simp [Verdict.AnsweredOnce]
  | true =>
      simp only [Bool.not_true, Bool.false_eq_true, if_false, true_and]
      cases hfind : findMappedPoint env.pl env.realtimeData conn.cfg ca.toNat req.objAddr type with
      | none => simp [Verdict.AnsweredOnce]
      | some found =>
          obtain ⟨p, d⟩ := found
          simp only [verdictFor_answered, Option.some.injEq, Prod.mk.injEq]
          constructor
          · rintro h _ _ ⟨rfl, rfl⟩
            exact h
          · exact fun h => h p d ⟨rfl, rfl⟩

end Verdicts

section Theorems

-- A command that is ignored is not confirmed, one that is refused for want of a selection is
-- confirmed twice, and one that cannot be stored wrongly.
theorem confirmed_once_iff (slot : ℤ) (inserted : Bool) (e : Event) :
    ConfirmedOnce slot inserted e ↔ Confirmable slot inserted e := by
  unfold ConfirmedOnce Confirmable
  constructor
  · intro h c req hc hreq
    obtain ⟨heffects, hverdict⟩ := effects_valid slot hc hreq
    have honce := h c hc
    rw [heffects, hverdict] at honce
    exact forwardVerdict_answered.mp ((carryOut_answered e.env e.conn c.type _).mp honce)
  · intro h c hc
    cases hreq : c.req with
    | none =>
        obtain ⟨heffects, hverdict⟩ := effects_invalid slot hc hreq
        rw [heffects, hverdict]
        exact ⟨true, rfl, by simp [Forwarded]⟩
    | some req =>
        obtain ⟨heffects, hverdict⟩ := effects_valid slot hc hreq
        rw [heffects, hverdict]
        exact (carryOut_answered e.env e.conn c.type _).mpr
          (forwardVerdict_answered.mpr (h c req hc hreq))

-- An execute without a select is confirmed positively, and then negatively.
theorem execute_confirmed_twice : ¬ConfirmedOnce 0 true (breakerCommand 1 1000 false) := by
  intro h
  obtain ⟨isNegative, hone, -⟩ := h _ rfl
  have htwo : confirmations ((breakerCommand 1 1000 false).effects 0) = [false, true] := by
    decide
  rw [htwo] at hone
  cases hone

end Theorems

end JsonScada.Iec60870.Server
