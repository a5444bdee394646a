import JsonScada.OpcUa.Client.Discovery.Linked

namespace JsonScada.OpcUa.Client.Discovery

open JsonScada.Library
open JsonScada.Processor (Document Value)

section Condition

variable (rt : Runtime)

-- The nodes that a list of items names.
def nodes (items : List MonItem) : List NodeId := items.filterMap fun it => rt.parseNodeID it.nodeID

variable (topics : List String) (s : State)

def SafeItems : Action → Prop
  -- a node that becomes an item is not among those that the session began with
  | .examine _ =>
      match s.phase with
      | .examining (((e, info), rv) :: _) _ =>
          isAdded topics s.conn e info rv = true →
            ∀ it ∈ s.listed, rt.parseNodeID it.nodeID ≠ rt.parseNodeID e.key
      | _ => True
  -- the tags that were read name each node once
  | .commit =>
      match s.phase with
      | .preloading docs => (nodes rt (preload rt s.nextPtr docs).listMon).Nodup
      | _ => True
  | _ => True

instance decidableSafeItems : ∀ a, Decidable (SafeItems rt topics s a)
  | .examine _ =>
      match h : s.phase with
      | .examining (((e, info), rv) :: _) _ =>
          decidable_of_iff (isAdded topics s.conn e info rv = true →
            ∀ it ∈ s.listed, rt.parseNodeID it.nodeID ≠ rt.parseNodeID e.key)
            (by simp [SafeItems, h])
      | .examining [] _ | .down | .browsing | .reading _ | .subscribed | .failed | .cleared
      | .emptied | .preloading _ => .isTrue (by simp [SafeItems, h])
  | .commit =>
      match h : s.phase with
      | .preloading docs =>
          decidable_of_iff (nodes rt (preload rt s.nextPtr docs).listMon).Nodup
            (by simp [SafeItems, h])
      | .examining _ _ | .down | .browsing | .reading _ | .subscribed | .failed | .cleared
      | .emptied => .isTrue (by simp [SafeItems, h])
  | .connect | .browsed _ | .discoveryFailed | .readBatch _ _ | .skipBatch | .discovered | .lose
  | .reload _ | .resetKeys | .find _ | .receive _ _ _ | .dequeueValue | .nextKey _ | .bulkWrite
  | .execute _ _ => .isTrue trivial

end Condition

section Items

variable {rt : Runtime}

theorem nodes_append (items items' : List MonItem) :
    nodes rt (items ++ items') = nodes rt items ++ nodes rt items' :=
  List.filterMap_append

theorem flatten_addToGroup (pub : Double) (it : MonItem) (subs : List (Double × List MonItem)) :
    (((addToGroup pub it subs).map Prod.snd).flatten).Perm
      ((subs.map Prod.snd).flatten ++ [it]) := by
  induction subs with
  | nil => exact List.Perm.refl _
  | cons group subs ih =>
      obtain ⟨p, items⟩ := group
      rw [addToGroup]
      split_ifs
      · simp only [List.map_cons, List.flatten_cons, List.append_assoc]
        exact List.perm_append_comm.append_left items
      · simp only [List.map_cons, List.flatten_cons, List.append_assoc]
        exact ih.append_left items

-- The groups hold the items of the list.
theorem flatten_preload (ptr : ℕ) (docs : List Document) :
    (((preload rt ptr docs).subs.map Prod.snd).flatten).Perm (preload rt ptr docs).listMon := by
  have hfold : ∀ (docs : List (Document × ℕ)) (p : Preloaded),
      ((p.subs.map Prod.snd).flatten).Perm p.listMon →
        (((docs.foldl (fun p d => preloadTag rt p d.2 d.1) p).subs.map Prod.snd).flatten).Perm
          (docs.foldl (fun p d => preloadTag rt p d.2 d.1) p).listMon := by
    intro docs
    induction docs with
    | nil => exact fun _ h => h
    | cons d docs ih =>
        intro p h
        refine ih _ ?_
        unfold preloadTag
        dsimp only
        split_ifs
        · exact (flatten_addToGroup _ _ _).trans (h.append_right _)
        · exact h
  exact hfold _ {} (List.Perm.refl _)

theorem autotagNode_items (topics : List String) (c : Connection) (ptr : ℕ) (e : Entry)
    (info : NodeInfo) (rv : ReadValue) (now : ℤ) :
    (autotagNode topics c ptr e info rv now).1.opcSubscriptions = c.opcSubscriptions ∧
      (autotagNode topics c ptr e info rv now).1.listMon = c.listMon ++
        if isAdded topics c e info rv then [itemOfNode c ptr e info] else [] := by
  cases hadded : isAdded topics c e info rv with
  | false =>
      rw [autotagNode, hadded]
      simp only [Bool.false_eq_true, ↓reduceIte, List.append_nil]
      split_ifs <;> exact ⟨rfl, rfl⟩
  | true =>
      have hall := hadded
      simp only [isAdded, Bool.and_eq_true, Bool.not_eq_true'] at hall
      obtain ⟨⟨⟨⟨hnew, hok⟩, hmethod⟩, -⟩, -⟩ := hall
      have hread : (c.hasInsertedAddress e.key || !info.ok) = false := by rw [hnew, hok]; rfl
      rw [if_pos rfl, autotagNode, hread, if_neg Bool.false_ne_true, hmethod,
        if_neg Bool.false_ne_true, hadded, if_pos rfl]
      cases rv <;> exact ⟨rfl, rfl⟩

end Items

section Invariant

variable {rt : Runtime} {topics : List String} {s s' : State}

-- The nodes that a pass has still to examine.
def Phase.remaining : Phase → Option (List Entry)
  | reading entries => some entries
  | examining batch entries => some (batch.map (fun x => x.1.1) ++ entries)
  | _ => none

-- The items of a pass come after those that the session began with, and are none of the nodes
-- that remain.
structure Pass (c : Connection) (listed : List MonItem) (remaining : List Entry) : Prop where
  once : (remaining.map Entry.key).Nodup
  text : ∀ e ∈ remaining, ∃ n : NodeId, e.key = n.text
  items : ∃ added, c.listMon = listed ++ added ∧ ∀ it ∈ added, (∃ n : NodeId, it.nodeID = n.text) ∧
    ∀ e ∈ remaining, it.nodeID ≠ e.key

structure ItemsInv (rt : Runtime) (s : State) : Prop where
  once : (nodes rt s.conn.listMon).Nodup
  groups : (nodes rt (s.conn.opcSubscriptions.map Prod.snd).flatten).Nodup
  browsing : s.phase = .browsing → s.conn.listMon = s.listed
  pass : ∀ remaining, s.phase.remaining = some remaining → Pass s.conn s.listed remaining

theorem Pass.sublist {c : Connection} {listed : List MonItem} {remaining remaining' : List Entry}
    (h : Pass c listed remaining) (hsub : remaining'.Sublist remaining) :
    Pass c listed remaining' := by
  obtain ⟨added, hadded, hitems⟩ := h.items
  exact ⟨h.once.sublist (hsub.map _), fun e he => h.text e (hsub.subset he), added, hadded,
    fun it hit => ⟨(hitems it hit).1, fun e he => (hitems it hit).2 e (hsub.subset he)⟩⟩

-- The items stay, and so does what a pass is about.
theorem ItemsInv.frame (h : ItemsInv rt s) (hmon : s'.conn.listMon = s.conn.listMon)
    (hsubs : s'.conn.opcSubscriptions = s.conn.opcSubscriptions)
    (hlisted : s'.listed = s.listed)
    (hbrowsing : s'.phase = .browsing → s.phase = .browsing)
    (hphase : s'.phase.remaining = none ∨ s'.phase.remaining = s.phase.remaining) :
    ItemsInv rt s' := by
  refine ⟨hmon ▸ h.once, hsubs ▸ h.groups, fun hb => ?_, fun remaining hr => ?_⟩
  · rw [hmon, hlisted, h.browsing (hbrowsing hb)]
  rcases hphase with hnone | hsame
  · rw [hnone] at hr
    cases hr
  · obtain ⟨honce, htext, hitems⟩ := h.pass remaining (hsame ▸ hr)
    exact ⟨honce, htext, by rwa [hmon, hlisted]⟩

theorem setClient_items (c : Connection) (up : Bool) :
    (c.setClient up).listMon = c.listMon ∧
      (c.setClient up).opcSubscriptions = c.opcSubscriptions := by
  cases up <;> exact ⟨rfl, rfl⟩

theorem valuesOf_length (n : ℕ) (values : Option (List ReadValue)) :
    (valuesOf n values).length = n := by
  unfold valuesOf
  split
  · split_ifs with h
    · exact h
    · exact List.length_replicate
  · exact List.length_replicate

theorem map_zip_zip {batch : List Entry} {infos : List NodeInfo} {values : List ReadValue}
    (hinfos : infos.length = batch.length) (hvalues : values.length = batch.length) :
    ((batch.zip infos).zip values).map (fun x => x.1.1) = batch := by
  have hfst : ((batch.zip infos).zip values).map Prod.fst = batch.zip infos :=
    List.map_fst_zip (by rw [List.length_zip, hinfos, hvalues, Nat.min_self])
  calc ((batch.zip infos).zip values).map (fun x => x.1.1)
      = (((batch.zip infos).zip values).map Prod.fst).map Prod.fst := by rw [List.map_map]; rfl
    _ = batch := by rw [hfst, List.map_fst_zip (by rw [hinfos])]

-- One node is examined.
theorem ItemsInv.examine (hparse : ∀ n : NodeId, rt.parseNodeID n.text = some n)
    (h : ItemsInv rt s) {e : Entry} {info : NodeInfo} {rv : ReadValue}
    {batch : List ((Entry × NodeInfo) × ReadValue)} {entries : List Entry}
    (hphase : s.phase = .examining (((e, info), rv) :: batch) entries) {now : ℤ}
    (hsafe : SafeItems rt topics s (.examine now)) {c : Connection}
    (hsubs : c.opcSubscriptions = s.conn.opcSubscriptions)
    (hmon : c.listMon = s.conn.listMon ++
      if isAdded topics s.conn e info rv then [itemOfNode s.conn s.nextPtr e info] else [])
    (queue : List OPCValue) (ptr : ℕ) :
    ItemsInv rt { s with
      conn := c
      queue := queue
      nextPtr := ptr
      phase := .examining batch entries } := by
  simp only [SafeItems, hphase] at hsafe
  obtain ⟨honce, htext, added, hadded, hitems⟩ :=
    h.pass (e :: (batch.map (fun x => x.1.1) ++ entries)) (by rw [hphase]; rfl)
  obtain ⟨n, hn⟩ := htext e List.mem_cons_self
  obtain ⟨hfresh, honce⟩ := List.nodup_cons.mp honce
  have hpass : ∀ e' ∈ batch.map (fun x => x.1.1) ++ entries, e.key ≠ e'.key := fun e' he' heq =>
    hfresh (heq ▸ List.mem_map_of_mem he')
  cases hnew : isAdded topics s.conn e info rv with
  | false =>
      rw [hnew, if_neg Bool.false_ne_true, List.append_nil] at hmon
      refine ⟨hmon ▸ h.once, hsubs ▸ h.groups, fun hb => (by cases hb), fun remaining hr => ?_⟩
      obtain rfl := Option.some.inj hr
      exact ⟨honce, fun e' he' => htext e' (List.mem_cons_of_mem _ he'), added,
        hmon.trans hadded, fun it hit => ⟨(hitems it hit).1, fun e' he' =>
          (hitems it hit).2 e' (List.mem_cons_of_mem _ he')⟩⟩
  | true =>
      rw [hnew, if_pos rfl] at hmon
      have hkey : rt.parseNodeID e.key = some n := hn ▸ hparse n
      refine ⟨?_, hsubs ▸ h.groups, fun hb => (by cases hb), fun remaining hr => ?_⟩
      · have hone : nodes rt [itemOfNode s.conn s.nextPtr e info] = [n] := by
          simp [nodes, itemOfNode, hkey]
        rw [hmon, nodes_append, hone, List.nodup_append]
        refine ⟨h.once, List.nodup_singleton n, ?_⟩
        rintro m hm _ hm' rfl
        obtain rfl := List.mem_singleton.mp hm'
        obtain ⟨it, hit, hnode⟩ := List.mem_filterMap.mp hm
        rw [hadded, List.mem_append] at hit
        rcases hit with hit | hit
        · exact hsafe hnew it hit (hnode.trans hkey.symm)
        · obtain ⟨⟨k, hk⟩, hne⟩ := hitems it hit
          rw [hk, hparse] at hnode
          refine hne e List.mem_cons_self ?_
          rw [hk, hn, Option.some.inj hnode]
      · obtain rfl := Option.some.inj hr
        refine ⟨honce, fun e' he' => htext e' (List.mem_cons_of_mem _ he'),
          added ++ [itemOfNode s.conn s.nextPtr e info], ?_, ?_⟩
        · rw [hmon, hadded, List.append_assoc]
        · intro it hit
          rcases List.mem_append.mp hit with hit | hit
          · exact ⟨(hitems it hit).1, fun e' he' =>
              (hitems it hit).2 e' (List.mem_cons_of_mem _ he')⟩
          · obtain rfl := List.mem_singleton.mp hit
            exact ⟨⟨n, hn⟩, hpass⟩

-- What the writer does to a connection.
theorem writerStep_frame {a : Action} (hstep : writerStep rt s a = some s') :
    s'.conn.listMon = s.conn.listMon ∧ s'.conn.opcSubscriptions = s.conn.opcSubscriptions ∧
      s'.phase = s.phase ∧ s'.listed = s.listed := by
  have hmark : ∀ addr, (s.conn.addInsertedAddress addr).1.listMon = s.conn.listMon ∧
      (s.conn.addInsertedAddress addr).1.opcSubscriptions = s.conn.opcSubscriptions := by
    intro addr
    unfold Connection.addInsertedAddress
    split_ifs <;> exact ⟨rfl, rfl⟩
  cases a with
  | dequeueValue =>
      simp only [writerStep] at hstep
      split at hstep
      · split_ifs at hstep <;> obtain rfl := Option.some.inj hstep
        · exact ⟨(hmark _).1, (hmark _).2, rfl, rfl⟩
        · exact ⟨(hmark _).1, (hmark _).2, rfl, rfl⟩
        · exact ⟨rfl, rfl, rfl, rfl⟩
      · cases hstep
  | nextKey lookupOk =>
      simp only [writerStep] at hstep
      split at hstep
      · cases hstep
      · split_ifs at hstep <;> obtain rfl := Option.some.inj hstep <;> exact ⟨rfl, rfl, rfl, rfl⟩
      · obtain rfl := Option.some.inj hstep
        exact ⟨rfl, rfl, rfl, rfl⟩
  | bulkWrite | execute _ _ =>
      simp only [writerStep] at hstep
      split at hstep
      · obtain rfl := Option.some.inj hstep
        exact ⟨rfl, rfl, rfl, rfl⟩
      · cases hstep
  | receive it v now =>
      obtain rfl := Option.some.inj hstep
      exact ⟨rfl, rfl, rfl, rfl⟩
  | connect | browsed _ | discoveryFailed | readBatch _ _ | skipBatch | examine _ | discovered
  | lose | reload _ | resetKeys | find _ | commit => cases hstep

theorem ItemsInv.loopStep (hparse : ∀ n : NodeId, rt.parseNodeID n.text = some n)
    (h : ItemsInv rt s) {a : Action} (hsafe : SafeItems rt topics s a)
    (hstep : loopStep rt topics s a = some s') : ItemsInv rt s' := by
  cases a with
  | connect =>
      simp only [Discovery.loopStep] at hstep
      split at hstep
      · obtain rfl := Option.some.inj hstep
        obtain ⟨hmon, hsubs⟩ := setClient_items s.conn true
        refine ⟨hmon ▸ h.once, hsubs ▸ h.groups, fun _ => rfl, fun remaining hr => ?_⟩
        dsimp only at hr
        split_ifs at hr <;> cases hr
      · cases hstep
  | browsed entries =>
      simp only [Discovery.loopStep] at hstep
      split at hstep
      · rename_i hphase
        split_ifs at hstep with hentries
        obtain rfl := Option.some.inj hstep
        refine ⟨h.once, h.groups, fun hb => (by cases hb), fun remaining hr => ?_⟩
        obtain rfl := Option.some.inj hr
        have hsub : (toRead topics s.conn.commandsEnabled entries).Sublist entries :=
          List.filter_sublist.trans List.filter_sublist
        refine ⟨hentries.1.sublist (hsub.map _), fun e he => ?_, [], ?_,
          fun _ hit => absurd hit List.not_mem_nil⟩
        · obtain ⟨n, -, hn⟩ := Option.map_eq_some_iff.mp (hentries.2 e (hsub.subset he))
          exact ⟨n, hn.symm⟩
        · rw [List.append_nil]
          exact h.browsing hphase
      · cases hstep
  | readBatch infos values =>
      simp only [Discovery.loopStep] at hstep
      split at hstep
      · rename_i e entries hphase
        split_ifs at hstep with hlength
        obtain rfl := Option.some.inj hstep
        refine h.frame rfl rfl rfl (fun hb => by cases hb) (.inr ?_)
        rw [hphase]
        dsimp only [Phase.remaining]
        rw [map_zip_zip hlength (valuesOf_length _ _), List.take_append_drop]
      · cases hstep
  | skipBatch =>
      simp only [Discovery.loopStep] at hstep
      split at hstep
      · rename_i e entries hphase
        obtain rfl := Option.some.inj hstep
        refine ⟨h.once, h.groups, fun hb => (by cases hb), fun remaining hr => ?_⟩
        obtain rfl := Option.some.inj hr
        exact (h.pass (e :: entries) (by rw [hphase]; rfl)).sublist (List.drop_sublist _ _)
      · cases hstep
  | examine now =>
      simp only [Discovery.loopStep] at hstep
      split at hstep
      · rename_i e info rv batch entries hphase
        obtain rfl := Option.some.inj hstep
        obtain ⟨hsubs, hmon⟩ := autotagNode_items topics s.conn s.nextPtr e info rv now
        exact h.examine hparse hphase hsafe hsubs hmon _ _
      · rename_i entries hphase
        obtain rfl := Option.some.inj hstep
        exact h.frame rfl rfl rfl (fun hb => by cases hb) (.inr (by rw [hphase]; rfl))
      · cases hstep
  | discoveryFailed =>
      simp only [Discovery.loopStep] at hstep
      obtain ⟨hmon, hsubs⟩ := setClient_items s.conn false
      split at hstep
      · obtain rfl := Option.some.inj hstep
        exact h.frame hmon hsubs rfl (fun hb => by cases hb) (.inl rfl)
      · obtain rfl := Option.some.inj hstep
        exact h.frame hmon hsubs rfl (fun hb => by cases hb) (.inl rfl)
      · cases hstep
  | lose =>
      simp only [Discovery.loopStep] at hstep
      split at hstep
      · obtain rfl := Option.some.inj hstep
        obtain ⟨hmon, hsubs⟩ := setClient_items s.conn false
        exact h.frame hmon hsubs rfl (fun hb => by cases hb) (.inl rfl)
      · cases hstep
  | reload reached =>
      simp only [Discovery.loopStep] at hstep
      split at hstep
      · split_ifs at hstep <;> obtain rfl := Option.some.inj hstep
        · exact ⟨List.nodup_nil, List.nodup_nil, fun hb => (by cases hb), fun _ hr => by cases hr⟩
        · exact h.frame rfl rfl rfl (fun hb => by cases hb) (.inl rfl)
      · cases hstep
  | find ok =>
      simp only [Discovery.loopStep] at hstep
      split at hstep
      · split_ifs at hstep <;> obtain rfl := Option.some.inj hstep <;>
          exact h.frame rfl rfl rfl (fun hb => by cases hb) (.inl rfl)
      · cases hstep
  | commit =>
      simp only [Discovery.loopStep] at hstep
      split at hstep
      · rename_i docs hphase
        simp only [SafeItems, hphase] at hsafe
        obtain rfl := Option.some.inj hstep
        refine ⟨hsafe, ?_, fun hb => (by cases hb), fun _ hr => by cases hr⟩
        exact ((flatten_preload s.nextPtr docs).filterMap _).nodup_iff.mpr hsafe
      · cases hstep
  | resetKeys | discovered =>
      simp only [Discovery.loopStep] at hstep
      split at hstep
      · obtain rfl := Option.some.inj hstep
        exact h.frame rfl rfl rfl (fun hb => by cases hb) (.inl rfl)
      · cases hstep
  | receive _ _ _ | dequeueValue | nextKey _ | bulkWrite | execute _ _ => cases hstep

theorem ItemsInv.step (hparse : ∀ n : NodeId, rt.parseNodeID n.text = some n) (h : ItemsInv rt s)
    {a : Action} (hsafe : SafeItems rt topics s a) (hstep : step rt topics s a = some s') :
    ItemsInv rt s' := by
  rcases Option.or_eq_some_iff.mp hstep with hloop | ⟨-, hwriter⟩
  · exact h.loopStep hparse hsafe hloop
  · obtain ⟨hmon, hsubs, hphase, hlisted⟩ := writerStep_frame hwriter
    exact h.frame hmon hsubs hlisted (fun hb => hphase ▸ hb) (.inr (by rw [hphase]))

end Invariant

-- Where the tags that are read name each node once, and a node that becomes an item is not among
-- those that the session began with, the list names each node once in every state: a parser that
-- reads the text of a node gives the node back.
theorem monitored_once {rt : Runtime} {topics : List String} {coll : List Document} {c : Connection}
    (hparse : ∀ n : NodeId, rt.parseNodeID n.text = some n)
    (hcoll : (nodes rt
      (preload rt 0 (tagsOf coll c.protocolConnectionNumber)).listMon).Nodup)
    {as : List Action} {s : State}
    (hrun : Run.run (step rt topics) (start rt coll c) as = some s)
    (hsafe : Run.Allowed (step rt topics) (SafeItems rt topics) (start rt coll c) as) :
    (nodes rt (Subscribe.Connection.groups s.conn).flatten).Nodup := by
  have hstart : ItemsInv rt (start rt coll c) := by
    refine ⟨hcoll, ?_, fun hb => (by cases hb), fun _ hr => by cases hr⟩
    exact ((flatten_preload 0 _).filterMap _).nodup_iff.mpr hcoll
  have h := Run.invariant (fun _ _ _ h hok hs => h.step hparse hok hs) hstart hsafe hrun
  unfold Subscribe.Connection.groups
  split_ifs
  · rw [List.flatten_singleton]
    exact h.once
  · exact h.groups

section Runs

-- Both nodes have their tags when Level is found again.
theorem orderly_once : ∃ s,
    Run.run (step runtime []) (start runtime [] plc) (orderly ++ [.lose] ++ level) = some s ∧
      (nodes runtime (Subscribe.Connection.groups s.conn).flatten).length = 2 ∧
      (nodes runtime (Subscribe.Connection.groups s.conn).flatten).Nodup := by
  have hrun : (Run.run (step runtime []) (start runtime [] plc) (orderly ++ [.lose] ++ level)).any
      (fun s => (nodes runtime (Subscribe.Connection.groups s.conn).flatten).length = 2) = true := by
    decide +kernel
  obtain ⟨s, hs, hlength⟩ := (Option.any_eq_true _ _).mp hrun
  refine ⟨s, hs, of_decide_eq_true hlength, monitored_once NodeId.parse_text ?_ hs ?_⟩
  · exact List.nodup_nil
  · decide +kernel

-- A node whose value is null becomes an item in each session.
theorem null_twice : ∃ s,
    Run.run (step runtime []) (start runtime [] plc) (session "Level" .variableClass .null ++
      [.lose] ++ session "Level" .variableClass .null) = some s ∧
      s.phase = .subscribed ∧
      ¬(nodes runtime (Subscribe.Connection.groups s.conn).flatten).Nodup := by
  have hrun : (Run.run (step runtime []) (start runtime [] plc) (session "Level" .variableClass .null ++
      [.lose] ++ session "Level" .variableClass .null)).any (fun s =>
        s.isSubscribed &&
          !decide (nodes runtime (Subscribe.Connection.groups s.conn).flatten).Nodup) = true := by
    decide
  obtain ⟨s, hs, hboth⟩ := (Option.any_eq_true _ _).mp hrun
  rw [Bool.and_eq_true, Bool.not_eq_true', decide_eq_false_iff_not] at hboth
  refine ⟨s, hs, ?_, hboth.2⟩
  have hsubscribed := hboth.1
  unfold State.isSubscribed at hsubscribed
  cases hphase : s.phase <;> simp [hphase] at hsubscribed ⊢

-- The node that is monitored twice.
example : NodeId.parse "ns=2;s=Level" = some ⟨2, .string "Level"⟩ := by decide +kernel

end Runs

end JsonScada.OpcUa.Client.Discovery
