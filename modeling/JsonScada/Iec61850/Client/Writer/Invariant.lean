import JsonScada.Iec61850.Client.Writer.Lemmas

namespace JsonScada.Iec61850.Client.Writer

open JsonScada.Library
open JsonScada.JsMongo
open JsonScada.JsTags
open JsonScada.Processor (Document Value applySet)

variable {rt : Runtime}

section Invariant

def Phase.batch : Phase → List IECValue
  | draining batch _ => batch
  | _ => []

def Phase.writes : Phase → List WriteModel
  | draining _ writes => writes
  | _ => []

def Phase.pending : Phase → List CommandTag
  | commands pending => pending
  | _ => []

-- What waits for its write, in the order of the writes, and what waits for its tag.
def State.values (s : State) : List IECValue := s.phase.batch ++ s.queue

def State.waiting (s : State) : List CommandTag := s.phase.pending ++ s.commandTagQueue

-- `done` are the values received so far and `later` those that are still to come, `asked`
-- the controllable objects found so far.
structure Inv (rt : Runtime) (values : List IECValue) (ctrls : List CommandTag)
    (done later : List IECValue) (asked : List CommandTag) (s : State) : Prop where
  ids : (idsOf s.coll).Nodup
  numbered : ∀ d ∈ s.coll, ∀ ct ∈ ctrls, TagOf "supervised" (commandAddress ct) d →
    ∃ x, d.lookup "_id" = some (.number x)
  constraints : ∀ d ∈ s.coll, ∀ v ∈ values, TagOf "supervised" (addressOf v) d →
    d.lookup "protocolSourceCommonAddress" = some (.string v.commonAddress)
  known : ∀ v ∈ s.values, v ∈ values
  admitted : ∀ v ∈ s.queue, (s.conns v.connNumber).isSome = true ∧
    (v.selfPublish = true ∨ marked s.conns v.connNumber (valueKey rt v) = true)
  planned : ∀ k, (ofKey WriteModel.address k s.phase.writes).getLast? =
    (ofKey addressOf k s.phase.batch).getLast?.map .updateOne
  own : ∀ op ∈ s.phase.writes, op.value ∈ values
  tagged : ∀ v ∈ values, marked s.conns v.connNumber (valueKey rt v) = true →
    (sourceOf s.coll (addressOf v)).isSome ∨
      ∃ iv id, WriteModel.insertOne iv id ∈ s.phase.writes ∧ addressOf iv = addressOf v
  batched : ∀ v ∈ s.phase.batch, marked s.conns v.connNumber (valueKey rt v) = true
  keeps : ∀ k v, (ofKey addressOf k done).getLast? = some v →
    (ofKey addressOf k s.values).getLast? = some v ∨
      (ofKey addressOf k s.values = [] ∧ sourceOf s.coll k = some (some (written rt v))) ∨
      ∃ w ∈ later, addressOf w = k
  found : ∀ ct ∈ s.waiting, (∃ ct' ∈ ctrls, commandAddress ct' = commandAddress ct) ∧
    (s.conns ct.connNumber).isSome = true
  wanted : ∀ ct ∈ asked, ct ∈ ctrls
  linked : ∀ ct ∈ asked, (∃ ct' ∈ s.waiting, commandAddress ct' = commandAddress ct) ∨
    Linked s.coll (commandAddress ct)
  commanded : ∀ ct ∈ asked, marked s.conns ct.connNumber (commandKey rt ct) = true →
    Linked s.coll (commandAddress ct)

variable {values done later : List IECValue} {ctrls asked : List CommandTag} {s s' : State}
  {coll₀ : List Document} {conns₀ : ℤ → Option Connection}

theorem ofKey_append_singleton_of_ne {α κ : Type} [DecidableEq κ] {key : α → κ} {k : κ} {v : α}
    (l : List α) (h : key v ≠ k) : ofKey key k (l ++ [v]) = ofKey key k l := by
  rw [ofKey_append, ofKey_cons_ne _ h, ofKey_nil, List.append_nil]

theorem Inv.enqueueValue {iv : IECValue} (h : Inv rt values ctrls done (iv :: later) asked s)
    (hin : iv ∈ values) (hstores : Stores rt s (.enqueueValue iv)) :
    Inv rt values ctrls (done ++ [iv]) later asked { s with queue := s.queue ++ [iv] } := by
  have hconn : (s.conns iv.connNumber).isSome = true ∧ (iv.selfPublish = true ∨
      marked s.conns iv.connNumber (valueKey rt iv) = true) := by
    obtain ⟨conn, hconn, hor⟩ := (Option.any_eq_true _ _).mp hstores
    rw [marked_of_some hconn, hconn]
    exact ⟨rfl, by simpa [Bool.or_eq_true] using hor⟩
  refine ⟨h.ids, h.numbered, h.constraints, ?_, ?_, h.planned, h.own, h.tagged, h.batched, ?_,
    h.found, h.wanted, h.linked, h.commanded⟩
  · intro v hv
    rw [State.values, ← List.append_assoc] at hv
    rcases List.mem_append.mp hv with hv | hv
    · exact h.known v hv
    · obtain rfl := List.mem_singleton.mp hv
      exact hin
  · intro v hv
    rcases List.mem_append.mp hv with hv | hv
    · exact h.admitted v hv
    · obtain rfl := List.mem_singleton.mp hv
      exact hconn
  · intro k v hv
    rw [State.values, ← List.append_assoc]
    by_cases hk : addressOf iv = k
    · left
      rw [ofKey_append, ofKey_cons_self _ hk, ofKey_nil, List.getLast?_concat] at hv
      rw [ofKey_append, ofKey_cons_self _ hk, ofKey_nil, List.getLast?_concat, hv]
    · rw [ofKey_append_singleton_of_ne _ hk] at hv ⊢
      rcases h.keeps k v hv with hlast | hstored | ⟨w, hw, hwk⟩
      · exact .inl hlast
      · exact .inr (.inl hstored)
      · rcases List.mem_cons.mp hw with rfl | hw
        · exact absurd hwk hk
        · exact .inr (.inr ⟨w, hw, hwk⟩)

theorem Inv.enqueueCommandTag {ct : CommandTag} (h : Inv rt values ctrls done later asked s)
    (hin : ct ∈ ctrls) (hstores : Stores rt s (.enqueueCommandTag ct)) :
    Inv rt values ctrls done later (asked ++ [ct])
      { s with commandTagQueue := s.commandTagQueue ++ [ct] } := by
  have hconn : (s.conns ct.connNumber).isSome = true ∧
      marked s.conns ct.connNumber (commandKey rt ct) = false := by
    obtain ⟨conn, hconn, hnew⟩ := (Option.any_eq_true _ _).mp hstores
    rw [marked_of_some hconn, hconn]
    exact ⟨rfl, Bool.not_eq_true' _ ▸ hnew⟩
  have hwaiting (ct' : CommandTag) : ct' ∈ State.waiting { s with
      commandTagQueue := s.commandTagQueue ++ [ct] } ↔ ct' ∈ s.waiting ∨ ct' = ct := by
    simp only [State.waiting, List.mem_append, List.mem_singleton, or_assoc]
  refine ⟨h.ids, h.numbered, h.constraints, h.known, h.admitted, h.planned, h.own, h.tagged,
    h.batched, h.keeps, ?_, ?_, ?_, ?_⟩
  · intro ct' hct'
    rcases (hwaiting ct').mp hct' with hct' | rfl
    · exact h.found ct' hct'
    · exact ⟨⟨ct', hin, rfl⟩, hconn.1⟩
  · intro ct' hct'
    rcases List.mem_append.mp hct' with hct' | hct'
    · exact h.wanted ct' hct'
    · obtain rfl := List.mem_singleton.mp hct'
      exact hin
  · intro ct' hct'
    rcases List.mem_append.mp hct' with hct' | hct'
    · rcases h.linked ct' hct' with ⟨w, hw, heq⟩ | hlinked
      · exact .inl ⟨w, (hwaiting w).mpr (.inl hw), heq⟩
      · exact .inr hlinked
    · obtain rfl := List.mem_singleton.mp hct'
      exact .inl ⟨ct', (hwaiting ct').mpr (.inr rfl), rfl⟩
  · intro ct' hct' hmark
    rcases List.mem_append.mp hct' with hct' | hct'
    · exact h.commanded ct' hct' hmark
    · obtain rfl := List.mem_singleton.mp hct'
      have hmark : marked s.conns ct'.connNumber (commandKey rt ct') = true := hmark
      rw [hconn.2] at hmark
      cases hmark

-- A new cycle, or none.
theorem Inv.ping (h : Inv rt values ctrls done later asked s) (hidle : s.phase = .idle)
    {phase : Phase} (hphase : phase = .draining [] [] ∨ phase = .failed) :
    Inv rt values ctrls done later asked { s with phase := phase } := by
  have hbatch : phase.batch = s.phase.batch ∧ phase.writes = s.phase.writes ∧
      phase.pending = s.phase.pending := by
    rw [hidle]
    rcases hphase with rfl | rfl <;> exact ⟨rfl, rfl, rfl⟩
  obtain ⟨hbatch, hwrites, hpending⟩ := hbatch
  have hvalues : State.values { s with phase := phase } = s.values := by
    rw [State.values, State.values, hbatch]
  have hwaiting : State.waiting { s with phase := phase } = s.waiting := by
    rw [State.waiting, State.waiting, hpending]
  refine ⟨h.ids, h.numbered, h.constraints, hvalues ▸ h.known, h.admitted, ?_, ?_, ?_, ?_, ?_, ?_,
    h.wanted, ?_, h.commanded⟩ <;> dsimp only <;> (try rw [hvalues]) <;> (try rw [hwaiting]) <;>
    (try rw [hwrites]) <;> (try rw [hbatch])
  exacts [h.planned, h.own, h.tagged, h.batched, h.keeps, h.found, h.linked]

theorem Inv.dequeueValue (h : Inv rt values ctrls done later asked s)
    (hsep : Separate coll₀ conns₀ values ctrls) {batch : List IECValue}
    {writes inserts : List WriteModel} (hphase : s.phase = .draining batch writes)
    {iv : IECValue} {queue : List IECValue}
    (hqueue : s.queue = iv :: queue) {conns : ℤ → Option Connection}
    (hadmits : Admits rt s.conns conns iv inserts) :
    Inv rt values ctrls done later asked { s with
      queue := queue
      conns := conns
      phase := .draining (batch ++ [iv]) (writes ++ inserts ++ [.updateOne iv]) } := by
  have hplanned := h.planned
  have hown := h.own
  have htagged := h.tagged
  have hbatched := h.batched
  have hknown := h.known
  have hkeeps := h.keeps
  have hvalues : s.values = (batch ++ [iv]) ++ queue := by
    rw [State.values, hphase, hqueue, List.append_assoc]
    rfl
  rw [hphase] at hplanned hown htagged hbatched
  rw [hvalues] at hknown hkeeps
  have hiv : iv ∈ values := hknown iv (by simp)
  have hinserts : ∀ op ∈ inserts, ∃ id, op = .insertOne iv id := by
    rcases hadmits.one with hnil | ⟨id, hone⟩
    · simp [hnil]
    · intro op hop
      rw [hone] at hop
      exact ⟨id, List.mem_singleton.mp hop⟩
  refine ⟨h.ids, h.numbered, h.constraints, hknown, ?_, ?_, ?_, ?_, ?_, hkeeps, ?_, h.wanted, ?_, ?_⟩
  · intro v hv
    obtain ⟨hconn, hor⟩ := h.admitted v (by rw [hqueue]; exact List.mem_cons_of_mem _ hv)
    exact ⟨(hadmits.same _).trans hconn, hor.imp_right fun hm => hadmits.kept _ _ hm⟩
  · intro k
    show (ofKey WriteModel.address k (writes ++ inserts ++ [.updateOne iv])).getLast? =
      (ofKey addressOf k (batch ++ [iv])).getLast?.map .updateOne
    by_cases hk : addressOf iv = k
    · rw [ofKey_append, ofKey_append (l := batch), ofKey_cons_self _ hk, ofKey_nil,
        List.getLast?_concat, ofKey_cons_self _ (show WriteModel.address (.updateOne iv) = k from hk),
        ofKey_nil, List.getLast?_concat]
      rfl
    · have hnone : ofKey WriteModel.address k inserts = [] := by
        apply ofKey_eq_nil
        intro op hop
        obtain ⟨id, rfl⟩ := hinserts op hop
        exact hk
      rw [ofKey_append_singleton_of_ne _ hk,
        ofKey_append_singleton_of_ne _ (show WriteModel.address (.updateOne iv) ≠ k from hk),
        ofKey_append, hnone, List.append_nil]
      exact hplanned k
  · intro op hop
    rcases List.mem_append.mp hop with hop | hop
    · rcases List.mem_append.mp hop with hop | hop
      · exact hown op hop
      · obtain ⟨id, rfl⟩ := hinserts op hop
        exact hiv
    · obtain rfl := List.mem_singleton.mp hop
      exact hiv
  · intro v hv hm
    rcases hadmits.marks _ _ hm with hm | ⟨hne, hconn, hkey⟩
    · rcases htagged v hv hm with hdoc | ⟨iv', id, hmem, heq⟩
      · exact .inl hdoc
      · refine .inr ⟨iv', id, ?_, heq⟩
        exact List.mem_append_left _ (List.mem_append_left _ hmem)
    · obtain ⟨id, hone⟩ := hadmits.one.resolve_left hne
      refine .inr ⟨iv, id, ?_, hsep.value_inj hiv hv hconn.symm hkey.symm⟩
      rw [hone]
      exact List.mem_append_left _ (List.mem_append_right _ (List.mem_singleton_self _))
  · intro v hv
    rcases List.mem_append.mp hv with hv | hv
    · exact hadmits.kept _ _ (hbatched v hv)
    · obtain rfl := List.mem_singleton.mp hv
      exact hadmits.own
  · intro ct hct
    have hwaiting : ct ∈ s.waiting := by
      rw [State.waiting, hphase]
      exact hct
    obtain ⟨hfound, hconn⟩ := h.found ct hwaiting
    exact ⟨hfound, (hadmits.same _).trans hconn⟩
  · intro ct hct
    have hlinked := h.linked ct hct
    rw [State.waiting, hphase] at hlinked
    exact hlinked
  · intro ct hct hm
    rcases hadmits.marks _ _ hm with hm | ⟨-, -, hkey⟩
    · exact h.commanded ct hct hm
    · exact absurd hkey.symm (hsep.value_ne_command hiv (h.wanted ct hct))

theorem mem_executedOf {writes : List WriteModel} {executed : List ℕ} {op : WriteModel}
    (h : op ∈ executedOf writes executed) : op ∈ writes := by
  obtain ⟨i, -, hi⟩ := List.mem_filterMap.mp h
  exact List.mem_of_getElem? hi

-- What the operations of a bulk write keep of the collection.
structure Applied (rt : Runtime) (values : List IECValue) (ctrls : List CommandTag)
    (coll : List Document) : Prop where
  ids : (idsOf coll).Nodup
  numbered : ∀ d ∈ coll, ∀ ct ∈ ctrls, TagOf "supervised" (commandAddress ct) d →
    ∃ x, d.lookup "_id" = some (.number x)
  constraints : ∀ d ∈ coll, ∀ v ∈ values, TagOf "supervised" (addressOf v) d →
    d.lookup "protocolSourceCommonAddress" = some (.string v.commonAddress)

theorem toUpper_commonAddress (hsep : Separate coll₀ conns₀ values ctrls) {v : IECValue}
    (hv : v ∈ values) : toUpper rt v.commonAddress = v.commonAddress := by
  obtain ⟨-, fc, -, hfc⟩ := hsep.objects v hv
  rw [hfc, toUpper_mnemonic]

theorem Applied.apply {coll : List Document} (h : Applied rt values ctrls coll)
    (hsep : Separate coll₀ conns₀ values ctrls) {op : WriteModel} (hop : op.value ∈ values) :
    Applied rt values ctrls (apply rt coll op) := by
  have hfield : "sourceDataUpdate" ∉
      ["protocolSourceConnectionNumber", "protocolSourceObjectAddress", "origin"] := by decide
  cases op with
  | updateOne iv =>
      refine ⟨(idsOf_apply_updateOne iv).symm ▸ h.ids, ?_, ?_⟩
      · intro d hd ct hct htag
        rw [apply_updateOne] at hd
        rcases Table.of_mem_updateFirst hd with hd | ⟨e, he, -, rfl⟩
        · exact h.numbered d hd ct hct htag
        · rw [lookup_setOne, if_neg (by decide)]
          exact h.numbered e he ct hct ((tagOf_setOne _ hfield).mp htag)
      · intro d hd v hv htag
        rw [apply_updateOne] at hd
        rcases Table.of_mem_updateFirst hd with hd | ⟨e, he, -, rfl⟩
        · exact h.constraints d hd v hv htag
        · rw [lookup_setOne, if_neg (by decide)]
          exact h.constraints e he v hv ((tagOf_setOne _ hfield).mp htag)
  | insertOne iv id =>
      rcases insertOne_cases rt coll iv id with ⟨-, heq⟩ | ⟨hfresh, heq⟩
      · rw [heq]
        exact h
      · obtain ⟨htag', hid, hconstraint, -⟩ := lookup_newRealtimeDoc rt iv id
        rw [heq]
        refine ⟨nodup_append_of_fresh h.ids hid hfresh, ?_, ?_⟩
        · intro d hd ct hct htag
          rcases List.mem_append.mp hd with hd | hd
          · exact h.numbered d hd ct hct htag
          · obtain rfl := List.mem_singleton.mp hd
            exact ⟨id, hid⟩
        · intro d hd v hv htag
          rcases List.mem_append.mp hd with hd | hd
          · exact h.constraints d hd v hv htag
          · obtain rfl := List.mem_singleton.mp hd
            have hin : iv ∈ values := hop
            rw [hconstraint, toUpper_commonAddress hsep hin,
              hsep.unshared iv hin v hv (htag'.address_eq htag)]

theorem Applied.applyAll {coll : List Document} (h : Applied rt values ctrls coll)
    (hsep : Separate coll₀ conns₀ values ctrls) {ops : List WriteModel}
    (hops : ∀ op ∈ ops, op.value ∈ values) :
    Applied rt values ctrls (ops.foldl (Writer.apply rt) coll) := by
  induction ops generalizing coll with
  | nil => exact h
  | cons op ops ih =>
      exact ih (h.apply hsep (hops op List.mem_cons_self))
        fun op hop => hops op (List.mem_cons_of_mem _ hop)

theorem Linked.applyAll {coll : List Document} {k : Address} (h : Linked coll k)
    (ops : List WriteModel) : Linked (ops.foldl (Writer.apply rt) coll) k := by
  induction ops generalizing coll with
  | nil => exact h
  | cons op ops ih => exact ih (h.apply op)

-- The bulk write: the tags are stored, and the last update of an address lasts or is
-- followed by another one.
theorem Inv.bulkWrite (h : Inv rt values ctrls done later asked s)
    (hsep : Separate coll₀ conns₀ values ctrls) {batch : List IECValue} {writes : List WriteModel}
    (hphase : s.phase = .draining batch writes) {executed : List ℕ}
    (hall : InsertsAll rt s.coll (executedOf writes executed))
    (hreached : ∀ op ∈ writes, op.isInsert = true → op ∈ executedOf writes executed)
    (hback : ∀ v ∈ batch, settled writes (executedOf writes executed) (addressOf v) = false →
      ∃ w ∈ s.queue ++ later, addressOf w = addressOf v)
    {phase : Phase} {commandTagQueue : List CommandTag}
    (hphase' : phase.batch = [] ∧ phase.writes = [])
    (hwaiting : phase.pending ++ commandTagQueue = s.commandTagQueue) :
    Inv rt values ctrls done later asked { s with
      coll := (executedOf writes executed).foldl (apply rt) s.coll
      phase := phase
      commandTagQueue := commandTagQueue } := by
  have hplanned := h.planned
  have hown := h.own
  have htagged := h.tagged
  have hbatched := h.batched
  have hfound := h.found
  have hlinked := h.linked
  rw [hphase] at hplanned hown htagged hbatched
  rw [State.waiting, hphase] at hfound hlinked
  have hops : ∀ op ∈ executedOf writes executed, op.value ∈ values :=
    fun op hop => hown op (mem_executedOf hop)
  obtain ⟨hids, hnumbered, hconstraints⟩ :=
    Applied.applyAll ⟨h.ids, h.numbered, h.constraints⟩ hsep hops
  have hvalues : State.values { s with
      coll := (executedOf writes executed).foldl (apply rt) s.coll
      phase := phase
      commandTagQueue := commandTagQueue } = s.queue := by
    rw [State.values, hphase'.1]
    rfl
  have hdoc : ∀ v ∈ values, marked s.conns v.connNumber (valueKey rt v) = true →
      (sourceOf s.coll (addressOf v)).isSome ∨ ∃ iv id,
        WriteModel.insertOne iv id ∈ executedOf writes executed ∧ addressOf iv = addressOf v := by
    intro v hv hm
    rcases htagged v hv hm with hdoc | ⟨iv, id, hmem, heq⟩
    · exact .inl hdoc
    · exact .inr ⟨iv, id, hreached _ hmem rfl, heq⟩
  refine ⟨hids, hnumbered, hconstraints, ?_, h.admitted, ?_, ?_, ?_, ?_, ?_, ?_, h.wanted, ?_, ?_⟩
  · rw [hvalues]
    exact fun v hv => h.known v (List.mem_append_right _ hv)
  · rw [hphase'.1, hphase'.2]
    exact fun k => rfl
  · rw [hphase'.2]
    simp
  · intro v hv hm
    rcases hdoc v hv hm with hthere | ⟨iv, id, hmem, heq⟩
    · exact .inl (isSome_sourceOf_applyAll hthere)
    · exact .inl (heq ▸ isSome_sourceOf_of_insert hall hmem)
  · rw [hphase'.1]
    simp
  · intro k v hv
    rw [hvalues]
    have hcases := h.keeps k v hv
    rw [State.values, hphase, ofKey_append, List.getLast?_append] at hcases
    cases hq : (ofKey addressOf k s.queue).getLast? with
    | some w =>
        rw [hq, Option.some_or] at hcases
        rcases hcases with hlast | ⟨hnone, -⟩ | hlater
        · exact .inl hlast
        · rw [List.append_eq_nil_iff] at hnone
          rw [hnone.2] at hq
          cases hq
        · exact .inr (.inr hlater)
    | none =>
        have hempty : ofKey addressOf k s.queue = [] := List.getLast?_eq_none_iff.mp hq
        rw [hq, Option.none_or] at hcases
        rcases hcases with hlast | ⟨hnone, hstored⟩ | hlater
        · have hlast : (ofKey addressOf k batch).getLast? = some v := hlast
          obtain ⟨pre, post, hbatch, hk, -⟩ := exists_of_getLast?_ofKey hlast
          have hv' : v ∈ batch := by
            rw [hbatch]
            simp
          subst hk
          by_cases hsettled : settled writes (executedOf writes executed) (addressOf v) = true
          · refine .inr (.inl ⟨hempty, ?_⟩)
            apply sourceOf_applyAll hall
            · rw [of_decide_eq_true hsettled]
              have := hplanned (addressOf v)
              rw [show (Phase.draining batch writes).batch = batch from rfl, hlast] at this
              exact this
            · apply hdoc v _ (hbatched v hv')
              apply h.known
              rw [State.values, hphase]
              exact List.mem_append_left _ hv'
          · obtain ⟨w, hw, heq⟩ := hback v hv' (Bool.eq_false_iff.mpr hsettled)
            rcases List.mem_append.mp hw with hw | hw
            · exact absurd heq (ofKey_eq_nil_iff.mp hempty w hw)
            · exact .inr (.inr ⟨w, hw, heq⟩)
        · refine .inr (.inl ⟨hempty, ?_⟩)
          rw [List.append_eq_nil_iff] at hnone
          have hnowrite : ofKey WriteModel.address k writes = [] := by
            have := hplanned k
            rw [hnone.1] at this
            exact List.getLast?_eq_none_iff.mp this
          rw [sourceOf_applyAll_ne]
          · exact hstored
          · exact fun op hop => ofKey_eq_nil_iff.mp hnowrite op (mem_executedOf hop)
        · exact .inr (.inr hlater)
  · intro ct hct
    rw [State.waiting] at hct
    exact hfound ct (by rw [← hwaiting]; exact hct)
  · intro ct hct
    rcases hlinked ct hct with ⟨ct', hct', heq⟩ | hl
    · refine .inl ⟨ct', ?_, heq⟩
      rw [State.waiting, hwaiting]
      exact hct'
    · exact .inr (hl.applyAll _)
  · exact fun ct hct hm => (h.commanded ct hct hm).applyAll _

-- The oldest values go, and each of their addresses comes again.
theorem Inv.trimQueue (h : Inv rt values ctrls done later asked s) (hphase : s.phase = .failed)
    (n : ℕ) (hback : ∀ v ∈ s.queue.take n, ∃ w ∈ s.queue.drop n ++ later,
      addressOf w = addressOf v) :
    Inv rt values ctrls done later asked { s with queue := s.queue.drop n, phase := .idle } := by
  have hplanned := h.planned
  have htagged := h.tagged
  have hfound := h.found
  have hlinked := h.linked
  rw [hphase] at hplanned htagged
  rw [State.waiting, hphase] at hfound hlinked
  have hvalues : s.values = s.queue := by
    rw [State.values, hphase]
    rfl
  refine ⟨h.ids, h.numbered, h.constraints, ?_, ?_, hplanned, ?_, htagged, ?_, ?_, hfound, h.wanted,
    hlinked, h.commanded⟩
  · intro v hv
    exact h.known v (hvalues.symm ▸ List.mem_of_mem_drop hv)
  · exact fun v hv => h.admitted v (List.mem_of_mem_drop hv)
  · exact fun op hop => (List.not_mem_nil hop).elim
  · exact fun v hv => (List.not_mem_nil hv).elim
  · intro k v hv
    have hcases := h.keeps k v hv
    rw [hvalues, ← List.take_append_drop n s.queue, ofKey_append] at hcases
    show (ofKey addressOf k (s.queue.drop n)).getLast? = some v ∨
      (ofKey addressOf k (s.queue.drop n) = [] ∧ _) ∨ _
    rw [List.getLast?_append] at hcases
    rcases hcases with hlast | ⟨hnone, hstored⟩ | hlater
    · cases hdrop : (ofKey addressOf k (s.queue.drop n)).getLast? with
      | some w =>
          rw [hdrop, Option.some_or] at hlast
          exact .inl hlast
      | none =>
          rw [hdrop, Option.none_or] at hlast
          obtain ⟨pre, post, htake, hk, -⟩ := exists_of_getLast?_ofKey hlast
          obtain ⟨w, hw, heq⟩ := hback v (by rw [htake]; simp)
          rcases List.mem_append.mp hw with hw | hw
          · exact absurd (heq.trans hk)
              (ofKey_eq_nil_iff.mp (List.getLast?_eq_none_iff.mp hdrop) w hw)
          · exact .inr (.inr ⟨w, hw, heq.trans hk⟩)
    · rw [List.append_eq_nil_iff] at hnone
      exact .inr (.inl ⟨hnone.2, hstored⟩)
    · exact .inr (.inr hlater)

-- What is done to the collection and to the connections for a command tag.
theorem createCommandTag_cases {conns : ℤ → Option Connection} {coll : List Document}
    {ct : CommandTag} {a : CommandAnswers} {conn : Connection}
    (hconn : conns ct.connNumber = some conn) (hpairs : pairs rt conns coll ct a = true) :
    (marked conns ct.connNumber (commandKey rt ct) = true ∧
        createCommandTag rt conns coll ct a = { conns := conns, coll := coll }) ∨
      createCommandTag rt conns coll ct a =
        { conns := conns, coll := coll, requeued := [{ ct with attempts := ct.attempts + 1 }] } ∨
      ∃ sup keys id, tagAt coll (commandAddress ct) = some sup ∧
        hasId coll (newCommandDoc ct id (getDouble sup "_id" (.fin 0))) = false ∧
        createCommandTag rt conns coll ct a =
          { conns := Function.update conns ct.connNumber (some { conn with
              tagKeys := keys, insertedTags := commandKey rt ct :: conn.insertedTags })
            coll := setLink (coll ++ [newCommandDoc ct id (getDouble sup "_id" (.fin 0))])
              (getDouble sup "_id" (.fin 0)) id } := by
  unfold pairs at hpairs
  unfold createCommandTag
  rw [hconn] at hpairs ⊢
  simp only [Option.all_some] at hpairs
  by_cases hmarked : commandKey rt ct ∈ conn.insertedTags
  · refine .inl ⟨?_, if_pos hmarked⟩
    rw [marked_of_some hconn]
    exact List.contains_iff_mem.mpr hmarked
  · right
    have hnew : conn.insertedTags.contains (commandKey rt ct) = false := by
      rwa [Bool.eq_false_iff, ne_eq, List.contains_iff_mem]
    rw [hnew, Bool.false_or] at hpairs
    cases hwaits : waits (supervisedID coll ct a.found) ct with
    | true =>
        left
        exact (if_neg hmarked).trans (if_pos hwaits)
    | false =>
        right
        rw [hwaits, Bool.false_or] at hpairs
        simp only [Bool.and_eq_true, Bool.not_eq_true', decide_eq_true_eq] at hpairs
        obtain ⟨⟨⟨hnonzero, hinsert⟩, hfresh⟩, hlink⟩ := hpairs
        have hsup : ∃ sup, tagAt coll (commandAddress ct) = some sup ∧
            supervisedID coll ct a.found = getDouble sup "_id" (.fin 0) := by
          unfold supervisedID at hnonzero ⊢
          split_ifs at hnonzero ⊢
          · cases htag : findOne coll (supervisedFilter ct.connNumber ct.ref) with
            | none =>
                rw [htag] at hnonzero
                cases hnonzero
            | some sup => exact ⟨sup, htag, rfl⟩
          · cases hnonzero
        obtain ⟨sup, htag, hx⟩ := hsup
        have hgoes : ¬waits (supervisedID coll ct a.found) ct = true := by
          rw [hwaits]
          exact Bool.false_ne_true
        rw [hx] at hnonzero hfresh
        refine ⟨sup, (conn.tagKeys.next coll a.lookupOk conn.protocolConnectionNumber).1, _, htag,
          hfresh, (if_neg hmarked).trans ((if_neg hgoes).trans ?_)⟩
        simp only [hx, hinsert, JsMongo.insertOne, hfresh, linkSupervised, hnonzero,
          decide_eq_false hlink, Bool.false_eq_true, if_false, Bool.or_self]
        rfl

-- A command tag is taken off the list, with what is done for it.
theorem Inv.commandStep (h : Inv rt values ctrls done later asked s) {ct : CommandTag}
    {pending requeued : List CommandTag} (hphase : s.phase = .commands (ct :: pending))
    {conns : ℤ → Option Connection} {coll : List Document} (happlied : Applied rt values ctrls coll)
    (hsource : ∀ k, sourceOf coll k = sourceOf s.coll k)
    (hmarks : ∀ v ∈ values, marked conns v.connNumber (valueKey rt v) =
      marked s.conns v.connNumber (valueKey rt v))
    (hsame : ∀ m, (conns m).isSome = (s.conns m).isSome)
    (hrequeued : ∀ ct' ∈ requeued, commandAddress ct' = commandAddress ct)
    (hlinked : ∀ ct' ∈ asked, Linked s.coll (commandAddress ct') → Linked coll (commandAddress ct'))
    (hct : requeued ≠ [] ∨ ∀ ct' ∈ asked, commandAddress ct' = commandAddress ct →
      Linked coll (commandAddress ct'))
    (hcommanded : ∀ ct' ∈ asked, marked conns ct'.connNumber (commandKey rt ct') = true →
      Linked coll (commandAddress ct')) :
    Inv rt values ctrls done later asked { s with
      conns := conns
      coll := coll
      commandTagQueue := s.commandTagQueue ++ requeued
      phase := commandsPhase pending } := by
  obtain ⟨hbatch, hwrites, hpending⟩ : (commandsPhase pending).batch = [] ∧
      (commandsPhase pending).writes = [] ∧ (commandsPhase pending).pending = pending := by
    cases pending <;> exact ⟨rfl, rfl, rfl⟩
  have hfound := h.found
  have hknown := h.known
  have hkeeps := h.keeps
  have htagged := h.tagged
  have hwaits := h.linked
  rw [State.waiting, hphase] at hfound hwaits
  rw [State.values, hphase] at hknown hkeeps
  rw [hphase] at htagged
  have hvalues : State.values { s with
      conns := conns
      coll := coll
      commandTagQueue := s.commandTagQueue ++ requeued
      phase := commandsPhase pending } = s.queue := by
    rw [State.values, hbatch, List.nil_append]
  have hwaiting (ct' : CommandTag) : ct' ∈ State.waiting { s with
      conns := conns
      coll := coll
      commandTagQueue := s.commandTagQueue ++ requeued
      phase := commandsPhase pending } ↔ ct' ∈ pending ++ s.commandTagQueue ∨ ct' ∈ requeued := by
    rw [State.waiting, hpending, ← List.append_assoc, List.mem_append]
  have hctfound := hfound ct List.mem_cons_self
  refine ⟨happlied.ids, happlied.numbered, happlied.constraints, ?_, ?_, ?_, ?_, ?_, ?_, ?_, ?_,
    h.wanted, ?_, hcommanded⟩
  · rw [hvalues]
    exact hknown
  · intro v hv
    obtain ⟨hconn, hor⟩ := h.admitted v hv
    have hin : v ∈ values := hknown v hv
    exact ⟨(hsame _).trans hconn, hor.imp_right fun hm => (hmarks v hin).trans hm⟩
  · rw [hbatch, hwrites]
    exact fun k => rfl
  · rw [hwrites]
    simp
  · intro v hv hm
    rw [hmarks v hv] at hm
    rcases htagged v hv hm with hdoc | ⟨iv, id, hmem, -⟩
    · exact .inl ((hsource _).symm ▸ hdoc)
    · cases hmem
  · rw [hbatch]
    simp
  · intro k v hv
    rw [hvalues, hsource]
    exact hkeeps k v hv
  · intro ct' hct'
    rcases (hwaiting ct').mp hct' with hct' | hct'
    · obtain ⟨hin, hconn⟩ := hfound ct' (List.mem_cons_of_mem _ hct')
      exact ⟨hin, (hsame _).trans hconn⟩
    · have heq := hrequeued ct' hct'
      obtain ⟨⟨ct'', hin, heq'⟩, hconn⟩ := hctfound
      refine ⟨⟨ct'', hin, heq'.trans heq.symm⟩, (hsame _).trans ?_⟩
      rw [show ct'.connNumber = ct.connNumber from congrArg Address.conn heq]
      exact hconn
  · intro ct' hct'
    rcases hwaits ct' hct' with ⟨w, hw, heq⟩ | hl
    · rcases List.mem_cons.mp hw with rfl | hw
      · rcases hct with hne | hct
        · obtain ⟨w', hw'⟩ := List.exists_mem_of_ne_nil _ hne
          exact .inl ⟨w', (hwaiting w').mpr (.inr hw'), (hrequeued w' hw').trans heq⟩
        · exact .inr (hct ct' hct' heq.symm)
      · exact .inl ⟨w, (hwaiting w).mpr (.inl hw), heq⟩
    · exact .inr (hlinked ct' hct' hl)

theorem commandKey_eq {ct ct' : CommandTag} (h : commandAddress ct = commandAddress ct') :
    commandKey rt ct = commandKey rt ct' := by
  unfold commandKey
  rw [show ct.ref = ct'.ref from congrArg Address.ref h]

theorem not_supervised {k k' : Address} {d : Document} (h : TagOf "command" k d) :
    ¬TagOf "supervised" k' d := by
  intro h'
  have hsame := h.origin.symm.trans h'.origin
  simp at hsame

-- The new command tag and its link, beside what is there.
theorem Applied.link {coll : List Document} (h : Applied rt values ctrls coll) {k : Address}
    {c : Document} {x id : Double} (hcommand : TagOf "command" k c)
    (hid : c.lookup "_id" = some (.number id)) (hfresh : hasId coll c = false) :
    Applied rt values ctrls (setLink (coll ++ [c]) x id) := by
  have hold : ∀ k d, TagOf "supervised" k d → d ∈ setLink (coll ++ [c]) x id →
      d ∈ coll ∨ ∃ e ∈ coll, TagOf "supervised" k e ∧
        d = applySet e [("commandOfSupervised", .number id)] := by
    intro k d htag hd
    have hsupervised : ∀ e, TagOf "supervised" k e → e ∈ coll ++ [c] → e ∈ coll := by
      intro e he hmem
      rcases List.mem_append.mp hmem with hmem | hmem
      · exact hmem
      · obtain rfl := List.mem_singleton.mp hmem
        exact absurd he (not_supervised hcommand)
    rcases Table.of_mem_updateFirst hd with hd | ⟨e, he, -, rfl⟩
    · exact .inl (hsupervised d htag hd)
    · have htag' := (tagOf_setOne _ setLink_field).mp htag
      exact .inr ⟨e, hsupervised e htag' he, htag', rfl⟩
  refine ⟨?_, ?_, ?_⟩
  · rw [idsOf_setLink]
    exact nodup_append_of_fresh h.ids hid hfresh
  · intro d hd ct' hct' htag
    rcases hold _ d htag hd with hd | ⟨e, he, htag', rfl⟩
    · exact h.numbered d hd ct' hct' htag
    · rw [lookup_setOne, if_neg (by decide)]
      exact h.numbered e he ct' hct' htag'
  · intro d hd v hv htag
    rcases hold _ d htag hd with hd | ⟨e, he, htag', rfl⟩
    · exact h.constraints d hd v hv htag
    · rw [lookup_setOne, if_neg (by decide)]
      exact h.constraints e he v hv htag'

theorem Inv.createCommandTag (h : Inv rt values ctrls done later asked s)
    (hsep : Separate coll₀ conns₀ values ctrls) {ct : CommandTag} {pending : List CommandTag}
    (hphase : s.phase = .commands (ct :: pending)) {a : CommandAnswers}
    (hpairs : pairs rt s.conns s.coll ct a = true) :
    Inv rt values ctrls done later asked { s with
      conns := (createCommandTag rt s.conns s.coll ct a).conns
      coll := (createCommandTag rt s.conns s.coll ct a).coll
      commandTagQueue :=
        s.commandTagQueue ++ (createCommandTag rt s.conns s.coll ct a).requeued
      phase := commandsPhase pending } := by
  have happlied : Applied rt values ctrls s.coll := ⟨h.ids, h.numbered, h.constraints⟩
  obtain ⟨⟨ct₀, hct₀, haddress⟩, hsome⟩ := h.found ct (by
    rw [State.waiting, hphase]
    exact List.mem_cons_self)
  have hkey : commandKey rt ct₀ = commandKey rt ct := commandKey_eq haddress
  obtain ⟨conn, hconn⟩ := Option.isSome_iff_exists.mp hsome
  rcases createCommandTag_cases hconn hpairs with ⟨hmarked, heq⟩ | heq |
    ⟨sup, keys, id, htag, hfresh, heq⟩
  · rw [heq]
    refine h.commandStep hphase happlied (fun _ => rfl) (fun _ _ => rfl) (fun _ => rfl)
      (fun _ hmem => absurd hmem List.not_mem_nil) (fun _ _ hl => hl) (.inr ?_) h.commanded
    intro ct' hct' hsame
    apply h.commanded ct' hct'
    rw [commandKey_eq hsame, show ct'.connNumber = ct.connNumber from congrArg Address.conn hsame]
    exact hmarked
  · rw [heq]
    refine h.commandStep hphase happlied (fun _ => rfl) (fun _ _ => rfl) (fun _ => rfl) ?_
      (fun _ _ hl => hl) (.inl (List.cons_ne_nil _ _)) h.commanded
    intro ct' hct'
    obtain rfl := List.mem_singleton.mp hct'
    rfl
  · obtain ⟨hmem, hsup⟩ := tagAt_spec htag
    obtain ⟨x, hx⟩ := h.numbered sup hmem ct₀ hct₀ (haddress ▸ hsup)
    have hget : getDouble sup "_id" (.fin 0) = x := by
      unfold getDouble
      rw [hx]
      rfl
    rw [hget] at hfresh heq
    obtain ⟨hcommand, hcid, hcsup⟩ := lookup_newCommandDoc ct id x
    have hids : (idsOf (s.coll ++ [newCommandDoc ct id x])).Nodup :=
      nodup_append_of_fresh h.ids hcid hfresh
    have hlast : newCommandDoc ct id x ∈ s.coll ++ [newCommandDoc ct id x] := by simp
    have hnew : Linked (setLink (s.coll ++ [newCommandDoc ct id x]) x id) (commandAddress ct) :=
      linked_setLink hids (List.mem_append_left _ hmem) hsup hx hlast hcommand hcid hcsup
    have hkept : ∀ k, Linked s.coll k →
        Linked (setLink (s.coll ++ [newCommandDoc ct id x]) x id) k := by
      intro k hl
      by_cases hk : commandAddress ct = k
      · exact hk ▸ hnew
      · exact (hl.append _).setLink hids hk (List.mem_append_left _ hmem) hsup hx id
    rw [heq]
    refine h.commandStep hphase (happlied.link hcommand hcid hfresh) ?_ ?_ (isSome_update hconn _)
      (fun _ hmem => absurd hmem List.not_mem_nil) (fun ct' _ => hkept _)
      (.inr fun ct' _ hsame => hsame ▸ hnew) ?_
    · intro k
      rw [sourceOf_setLink, sourceOf_append_of_none (not_supervised hcommand)]
    · intro v hv
      rw [marked_update]
      split_ifs with hn
      · rw [List.contains_cons, ← hkey, beq_eq_false_iff_ne.mpr (hsep.value_ne_command hv hct₀),
          Bool.false_or, hn, marked_of_some hconn]
      · rfl
    · intro ct' hct' hm
      rw [marked_update] at hm
      split_ifs at hm with hn
      · rw [List.contains_cons, Bool.or_eq_true] at hm
        rcases hm with hm | hm
        · have hkeys : commandKey rt ct' = commandKey rt ct₀ := (beq_iff_eq.mp hm).trans hkey.symm
          have hsame : commandAddress ct' = commandAddress ct₀ :=
            hsep.command_inj (h.wanted ct' hct') hct₀
              (hn.trans (congrArg Address.conn haddress).symm) hkeys
          rw [hsame, haddress]
          exact hnew
        · apply hkept
          apply h.commanded ct' hct'
          rw [hn, marked_of_some hconn]
          exact hm
      · exact hkept _ (h.commanded ct' hct' hm)

theorem Inv.step {a : Action} {as : List Action}
    (h : Inv rt values ctrls done (received (a :: as)) asked s)
    (hsep : Separate coll₀ conns₀ values ctrls) (hvalues : ∀ v ∈ received (a :: as), v ∈ values)
    (hctrls : ∀ ct ∈ controls (a :: as), ct ∈ ctrls) (hstores : Stores rt s a)
    (hstep : step rt s a = some s')
    (hback : ∀ v ∈ lostBy s a, ∃ w ∈ s'.queue ++ received as, addressOf w = addressOf v) :
    Inv rt values ctrls (done ++ received [a]) (received as) (asked ++ controls [a]) s' := by
  cases a with
  | enqueueValue iv =>
      obtain rfl := Option.some.inj hstep
      rw [show controls [.enqueueValue iv] = [] from rfl, List.append_nil]
      exact Inv.enqueueValue h (hvalues iv List.mem_cons_self) hstores
  | enqueueCommandTag ct =>
      obtain rfl := Option.some.inj hstep
      rw [show received [.enqueueCommandTag ct] = [] from rfl, List.append_nil]
      exact Inv.enqueueCommandTag h (hctrls ct List.mem_cons_self) hstores
  | ping ok =>
      rw [show received [.ping ok] = [] from rfl, show controls [.ping ok] = [] from rfl,
        List.append_nil, List.append_nil]
      cases hphase : s.phase with
      | idle =>
          simp only [Writer.step, hphase, Option.some.injEq] at hstep
          subst hstep
          exact Inv.ping h hphase (by cases ok <;> simp)
      | _ => simp [Writer.step, hphase] at hstep
  | dequeueValue lookupOk =>
      rw [show received [.dequeueValue lookupOk] = [] from rfl,
        show controls [.dequeueValue lookupOk] = [] from rfl, List.append_nil, List.append_nil]
      cases hphase : s.phase with
      | draining batch writes =>
          cases hqueue : s.queue with
          | nil => simp [Writer.step, hphase, hqueue] at hstep
          | cons iv queue =>
              simp only [Writer.step, hphase, hqueue] at hstep
              by_cases hlimit : writes.length < bulkWriteLimit
              case neg => simp [hlimit] at hstep
              rw [if_pos hlimit] at hstep
              obtain rfl := Option.some.inj hstep
              obtain ⟨hsome, hor⟩ := h.admitted iv (by rw [hqueue]; exact List.mem_cons_self)
              obtain ⟨conn, hconn⟩ := Option.isSome_iff_exists.mp hsome
              exact Inv.dequeueValue h hsep hphase hqueue (admits s.coll lookupOk hconn hor)
      | _ => simp [Writer.step, hphase] at hstep
  | bulkWrite executed ok =>
      rw [show received [.bulkWrite executed ok] = [] from rfl,
        show controls [.bulkWrite executed ok] = [] from rfl, List.append_nil, List.append_nil]
      cases hphase : s.phase with
      | draining batch writes =>
          simp only [Stores, hphase] at hstores
          simp only [lostBy, hphase] at hback
          simp only [Writer.step, hphase] at hstep
          split_ifs at hstep with hexec hok <;> obtain rfl := Option.some.inj hstep
          · refine Inv.bulkWrite h hsep hphase hstores.1 hstores.2 ?_ ?_ ?_
            · exact fun v hv hfalse => hback v (List.mem_filter.mpr ⟨hv, by simp [hfalse]⟩)
            · cases s.commandTagQueue <;> exact ⟨rfl, rfl⟩
            · cases s.commandTagQueue <;> simp [commandsPhase, Phase.pending]
          · refine Inv.bulkWrite h hsep hphase hstores.1 hstores.2 ?_ ⟨rfl, rfl⟩ rfl
            exact fun v hv hfalse => hback v (List.mem_filter.mpr ⟨hv, by simp [hfalse]⟩)
      | _ => simp [Writer.step, hphase] at hstep
  | createCommandTag a =>
      rw [show received [.createCommandTag a] = [] from rfl,
        show controls [.createCommandTag a] = [] from rfl, List.append_nil, List.append_nil]
      cases hphase : s.phase with
      | commands pending =>
          cases pending with
          | nil => simp [Writer.step, hphase] at hstep
          | cons ct pending =>
              simp only [Stores, hphase] at hstores
              simp only [Writer.step, hphase] at hstep
              obtain rfl := Option.some.inj hstep
              exact Inv.createCommandTag h hsep hphase hstores
      | _ => simp [Writer.step, hphase] at hstep
  | trimQueue =>
      rw [show received [.trimQueue] = [] from rfl, show controls [.trimQueue] = [] from rfl,
        List.append_nil, List.append_nil]
      cases hphase : s.phase with
      | failed =>
          simp only [Writer.step, hphase] at hstep
          obtain rfl := Option.some.inj hstep
          simp only [lostBy] at hback
          exact Inv.trimQueue h hphase (s.queue.length - dataBufferLimit) hback
      | _ => simp [Writer.step, hphase] at hstep

theorem Inv.run {as : List Action} (h : Inv rt values ctrls done (received as) asked s)
    (hsep : Separate coll₀ conns₀ values ctrls) (hvalues : ∀ v ∈ received as, v ∈ values)
    (hctrls : ∀ ct ∈ controls as, ct ∈ ctrls) (hrun : Run.run (Writer.step rt) s as = some s')
    (hrecovered : Recovered rt s as) :
    Inv rt values ctrls (done ++ received as) [] (asked ++ controls as) s' := by
  induction as generalizing s done asked with
  | nil =>
      obtain rfl := Option.some.inj hrun
      simpa [received, controls] using h
  | cons a as ih =>
      obtain ⟨t, ht, hrun⟩ := Run.run_cons hrun
      obtain ⟨hstores, hrest⟩ := hrecovered
      obtain ⟨hback, hrecovered⟩ := hrest t ht
      have hreceived : received (a :: as) = received [a] ++ received as :=
        List.filterMap_append (l := [a])
      have hcontrols : controls (a :: as) = controls [a] ++ controls as :=
        List.filterMap_append (l := [a])
      have hnext := ih (h.step hsep hvalues hctrls hstores ht hback)
        (fun v hv => hvalues v (hreceived ▸ List.mem_append_right _ hv))
        (fun ct hct => hctrls ct (hcontrols ▸ List.mem_append_right _ hct)) hrun hrecovered
      rwa [hreceived, hcontrols, ← List.append_assoc, ← List.append_assoc]

-- A tag that is there at the start is found by the key that it was marked with.
theorem Separate.preloaded (hsep : Separate coll₀ conns₀ values ctrls) {v : IECValue}
    (hv : v ∈ values) (hconn : (conns₀ v.connNumber).isSome = true)
    (hkey : valueKey rt v ∈ preloadKeys rt coll₀ v.connNumber) :
    (sourceOf coll₀ (addressOf v)).isSome := by
  obtain ⟨d, hd, hsome⟩ := List.mem_filterMap.mp hkey
  obtain ⟨hd, hmatch⟩ := List.mem_filter.mp hd
  simp only [matchesFilter, List.all_cons, List.all_nil, Bool.and_true, lookup_number_iff] at hmatch
  obtain ⟨ref, htrim, href, -, fc, hfc, horigin⟩ := hsep.tags d hd _ hconn hmatch
  obtain ⟨hvtrim, fc', hne, hvfc⟩ := hsep.objects v hv
  have hrefStr : d.str "protocolSourceObjectAddress" = ref := by rw [Document.str, href]
  have hfcStr : d.str "protocolSourceCommonAddress" = fc.mnemonic := by rw [Document.str, hfc]
  rw [hrefStr, hfcStr, htrim, trimSpace_mnemonic, toUpper_mnemonic] at hsome
  dsimp only at hsome
  split_ifs at hsome
  rw [Option.some.injEq, pointKey_mnemonic rt htrim, valueKey, hvfc, pointKey_mnemonic rt hvtrim]
    at hsome
  obtain ⟨rfl, rfl⟩ := append_mnemonic_inj hsome
  rw [if_neg hne] at horigin
  rw [sourceOf_isSome]
  exact List.find?_isSome.mpr ⟨d, hd, matchesFilter_supervisedFilter.mpr ⟨hmatch, href, horigin⟩⟩

theorem marked_start {n : ℤ} {key : String} (hcreated : ∀ conn, conns₀ n = some conn →
    conn.autoCreateTags = true) (h : marked (start rt coll₀ conns₀).conns n key = true) :
    (conns₀ n).isSome = true ∧ key ∈ preloadKeys rt coll₀ n := by
  unfold marked start at h
  cases hconn : conns₀ n with
  | none => simp [hconn] at h
  | some conn =>
      simp only [hconn, Option.map_some, Option.any_some, hcreated conn hconn, if_true] at h
      exact ⟨rfl, List.contains_iff_mem.mp h⟩

theorem inv_start (hsep : Separate coll₀ conns₀ values ctrls) (later : List IECValue) :
    Inv rt values ctrls [] later [] (start rt coll₀ conns₀) where
  ids := hsep.ids
  numbered := by
    intro d hd ct hct htag
    obtain ⟨ref, -, -, hid, -⟩ := hsep.tags d hd _ (hsep.controllable ct hct).1 htag.conn
    exact hid
  constraints := hsep.unsharedTags
  known := fun v hv => absurd hv List.not_mem_nil
  admitted := fun v hv => absurd hv List.not_mem_nil
  planned := fun k => rfl
  own := fun op hop => absurd hop List.not_mem_nil
  tagged := by
    intro v hv hm
    obtain ⟨hconn, hkey⟩ := marked_start (hsep.created _) hm
    exact .inl (hsep.preloaded hv hconn hkey)
  batched := fun v hv => absurd hv List.not_mem_nil
  keeps := fun k v hv => by cases hv
  found := fun ct hct => absurd hct List.not_mem_nil
  wanted := fun ct hct => absurd hct List.not_mem_nil
  linked := fun ct hct => absurd hct List.not_mem_nil
  commanded := fun ct hct => absurd hct List.not_mem_nil

end Invariant

end JsonScada.Iec61850.Client.Writer
