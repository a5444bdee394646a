import JsonScada.OpcUa.Client.Discovery

namespace JsonScada.OpcUa.Client.Discovery

open JsonScada.Library
open JsonScada.JsTags
open JsonScada.Processor (Document Value)

section Purpose

variable (rt : Runtime)

-- Two addresses of one node.
def SameNode (a b : String) : Prop :=
  a = b ∨ (rt.parseNodeID a).isSome ∧ rt.parseNodeID a = rt.parseNodeID b

instance (a b : String) : Decidable (SameNode rt a b) := inferInstanceAs (Decidable (_ ∨ _))

-- A supervised tag of the connection.
def Supervises (n : ℤ) (t : Tag) : Prop := t.conn = some (.fin n) ∧ t.origin = "supervised"

instance (n : ℤ) (t : Tag) : Decidable (Supervises n t) := inferInstanceAs (Decidable (_ ∧ _))

-- The supervised tag of the same node, under the key that the command refers to.
def HasTwin (tags : List Tag) (t : Tag) : Prop :=
  ∃ u ∈ tags, u.origin = "supervised" ∧ u.address = t.address ∧ u.key = t.supervisedOfCommand

-- The tags that the writer inserts, beside those that were there.
structure Linked (n : ℤ) (old new : List Tag) : Prop where
  own : ∀ t ∈ new, t.conn = some (.fin n)
  numbered : ∀ t ∈ new, t.key.isSome
  keys : (new.map Tag.key).Nodup
  keys_old : ∀ t ∈ new, ∀ o ∈ old, o.key ≠ t.key
  supervised : new.Pairwise fun t u => t.origin = "supervised" → u.origin = "supervised" →
    ¬SameNode rt t.address u.address
  supervised_old : ∀ t ∈ new, t.origin = "supervised" → ∀ o ∈ old, Supervises n o →
    ¬SameNode rt o.address t.address
  -- a method has no supervised tag
  commands : ∀ t ∈ new, t.origin = "command" → HasTwin new t ∨
    t.asdu = "method" ∧ t.supervisedOfCommand = some (.fin 0)

end Purpose

section Condition

def Writing.writes : Writing → List WriteModel
  | draining writes | tagging _ _ writes | pairing _ _ _ writes => writes

-- The value whose tags are not made yet.
def Writing.hand : Writing → Option OPCValue
  | draining _ => none
  | tagging ov _ _ | pairing ov _ _ _ => some ov

-- The update that follows them.
def Writing.update : Writing → List WriteModel
  | draining _ => []
  | tagging _ update _ | pairing _ update _ _ => update.toList

def State.waiting (s : State) : List WriteModel := s.inFlight ++ s.writing.writes

-- Every document, stored or waiting.
def State.tags (s : State) : List Tag := (s.coll ++ inserts s.waiting).map tagOf

-- The documents behind the first ones, which the writer found.
def State.inserted (found : ℕ) (s : State) : List Document :=
  s.coll.drop found ++ inserts s.waiting

def State.ids (s : State) : List Double := s.tags.filterMap Tag.key

variable (rt : Runtime) (s : State)

def Safe : Action → Prop
  -- a new value of a node that has a tag: not while the marks are cleared, and not under another
  -- address
  | .dequeueValue =>
      match s.writing, s.queue with
      | .draining _, ov :: _ =>
          isNew s.conn ov = true → ov.createCommandForMethod = false →
            ∀ t ∈ s.tags, Supervises s.conn.protocolConnectionNumber t →
              SameNode rt t.address ov.address → s.loaded = true ∧ t.address = ov.address
      | _, _ => True
  -- the second key of a pair is counted up from the first
  | .nextKey lookupOk =>
      match s.writing with
      | .draining _ => True
      | .tagging ov _ _ => s.conn.tagKeys.Safe s.coll lookupOk ov.connNumber s.ids
      | .pairing ov _ _ _ =>
          Double.eq s.conn.tagKeys.last (.fin 0) = false ∧
            s.conn.tagKeys.Safe s.coll lookupOk ov.connNumber s.ids
  -- every tag, stored or waiting or about to be made, is among those that were read
  | .commit =>
      match s.phase with
      | .preloading docs =>
          (∀ t ∈ s.tags, Supervises s.conn.protocolConnectionNumber t →
            t.address ∈ (preload rt s.nextPtr docs).addrs) ∧
          ∀ ov ∈ s.writing.hand, ov.createCommandForMethod = false →
            ov.address ∈ (preload rt s.nextPtr docs).addrs
      | _ => True
  -- a tag is not lost where a command refers to it
  | .execute i ok =>
      match s.inFlight[i]? with
      | some (.insertOne d) =>
          ok = true ∨ ((tagOf d).origin = "supervised" →
            ∀ t ∈ s.tags, t.origin = "command" → t.supervisedOfCommand ≠ (tagOf d).key)
      | _ => True
  | _ => True

instance decidableSafe : ∀ a, Decidable (Safe rt s a)
  | .dequeueValue =>
      match h : s.writing, h' : s.queue with
      | .draining _, ov :: _ =>
          decidable_of_iff (isNew s.conn ov = true → ov.createCommandForMethod = false →
            ∀ t ∈ s.tags, Supervises s.conn.protocolConnectionNumber t →
              SameNode rt t.address ov.address → s.loaded = true ∧ t.address = ov.address)
            (by simp [Safe, h, h'])
      | .draining _, [] => .isTrue (by simp [Safe, h, h'])
      | .tagging _ _ _, _ | .pairing _ _ _ _, _ => .isTrue (by simp [Safe, h])
  | .nextKey lookupOk =>
      match h : s.writing with
      | .draining _ => .isTrue (by simp [Safe, h])
      | .tagging ov _ _ =>
          decidable_of_iff (s.conn.tagKeys.Safe s.coll lookupOk ov.connNumber s.ids)
            (by simp [Safe, h])
      | .pairing ov _ _ _ =>
          decidable_of_iff (Double.eq s.conn.tagKeys.last (.fin 0) = false ∧
              s.conn.tagKeys.Safe s.coll lookupOk ov.connNumber s.ids)
            (by simp [Safe, h])
  | .commit =>
      match h : s.phase with
      | .preloading docs =>
          decidable_of_iff ((∀ t ∈ s.tags, Supervises s.conn.protocolConnectionNumber t →
              t.address ∈ (preload rt s.nextPtr docs).addrs) ∧
            ∀ ov ∈ s.writing.hand, ov.createCommandForMethod = false →
              ov.address ∈ (preload rt s.nextPtr docs).addrs)
            (by simp [Safe, h])
      | .down | .browsing | .reading _ | .examining _ _ | .subscribed | .failed | .cleared
      | .emptied => .isTrue (by simp [Safe, h])
  | .execute i ok =>
      match h : s.inFlight[i]? with
      | some (.insertOne d) =>
          decidable_of_iff (ok = true ∨ ((tagOf d).origin = "supervised" →
              ∀ t ∈ s.tags, t.origin = "command" → t.supervisedOfCommand ≠ (tagOf d).key))
            (by simp [Safe, h])
      | some (.updateOne _ _) | none => .isTrue (by simp [Safe, h])
  | .connect | .browsed _ | .discoveryFailed | .readBatch _ _ | .skipBatch | .examine _
  | .discovered | .lose | .reload _ | .resetKeys | .find _ | .receive _ _ _ | .bulkWrite =>
      .isTrue trivial

end Condition

section Linked

variable {rt : Runtime} {n : ℤ} {old new new' : List Tag}

theorem SameNode.symm {a b : String} (h : SameNode rt a b) : SameNode rt b a := by
  rcases h with rfl | ⟨hsome, heq⟩
  · exact .inl rfl
  · exact .inr ⟨heq ▸ hsome, heq.symm⟩

theorem Linked.nil : Linked rt n old [] := by
  refine ⟨?_, ?_, List.nodup_nil, ?_, .nil, ?_, ?_⟩ <;> exact fun _ h => absurd h List.not_mem_nil

theorem Linked.perm (h : Linked rt n old new) (hperm : new.Perm new') : Linked rt n old new' := by
  have hmem : ∀ {t : Tag}, t ∈ new' → t ∈ new := fun ht => hperm.mem_iff.mpr ht
  refine ⟨fun t ht => h.own t (hmem ht), fun t ht => h.numbered t (hmem ht),
    (hperm.map _).nodup_iff.mp h.keys, fun t ht => h.keys_old t (hmem ht), ?_,
    fun t ht => h.supervised_old t (hmem ht), ?_⟩
  · refine (hperm.pairwise_iff ?_).mp h.supervised
    exact fun hne hu ht hsame => hne ht hu hsame.symm
  · intro t ht hcommand
    refine (h.commands t (hmem ht) hcommand).imp_left ?_
    rintro ⟨u, hu, htwin⟩
    exact ⟨u, hperm.mem_iff.mp hu, htwin⟩

-- What is asked of a tag that joins.
structure Joins (rt : Runtime) (n : ℤ) (tags : List Tag) (t : Tag) : Prop where
  own : t.conn = some (.fin n)
  numbered : t.key.isSome
  key : ∀ u ∈ tags, u.key ≠ t.key
  supervised : t.origin = "supervised" → ∀ u ∈ tags, Supervises n u →
    ¬SameNode rt u.address t.address

theorem Linked.append (h : Linked rt n old new) {t : Tag} (ht : Joins rt n (old ++ new) t)
    (htwin : t.origin = "command" → HasTwin new t ∨
      t.asdu = "method" ∧ t.supervisedOfCommand = some (.fin 0)) :
    Linked rt n old (new ++ [t]) := by
  have hmem : ∀ {u : Tag}, u ∈ new ++ [t] → u ∈ new ∨ u = t := fun hu =>
    (List.mem_append.mp hu).imp_right List.mem_singleton.mp
  refine ⟨?_, ?_, ?_, ?_, ?_, ?_, ?_⟩
  · intro u hu
    rcases hmem hu with hu | rfl
    · exact h.own u hu
    · exact ht.own
  · intro u hu
    rcases hmem hu with hu | rfl
    · exact h.numbered u hu
    · exact ht.numbered
  · rw [List.map_append, List.nodup_append]
    refine ⟨h.keys, List.nodup_singleton _, ?_⟩
    rintro k hk k' hk' rfl
    obtain ⟨u, hu, rfl⟩ := List.mem_map.mp hk
    exact ht.key u (List.mem_append_right _ hu) (List.mem_singleton.mp hk')
  · intro u hu o ho
    rcases hmem hu with hu | rfl
    · exact h.keys_old u hu o ho
    · exact ht.key o (List.mem_append_left _ ho)
  · refine List.pairwise_append.mpr ⟨h.supervised, List.pairwise_singleton _ _, ?_⟩
    intro u hu t' ht' hsup hsup'
    obtain rfl := List.mem_singleton.mp ht'
    exact ht.supervised hsup' u (List.mem_append_right _ hu) ⟨h.own u hu, hsup⟩
  · intro u hu hsup o ho
    rcases hmem hu with hu | rfl
    · exact h.supervised_old u hu hsup o ho
    · exact ht.supervised hsup o (List.mem_append_left _ ho)
  · intro u hu hcommand
    have hcommands : HasTwin new u ∨ u.asdu = "method" ∧ u.supervisedOfCommand = some (.fin 0) := by
      rcases hmem hu with hu | rfl
      · exact h.commands u hu hcommand
      · exact htwin hcommand
    refine hcommands.imp_left ?_
    rintro ⟨v, hv, hlinked⟩
    exact ⟨v, List.mem_append_left _ hv, hlinked⟩

theorem Linked.erase {t : Tag} (h : Linked rt n old (t :: new))
    (hunlinked : t.origin = "supervised" → ∀ u ∈ new, u.origin = "command" →
      u.supervisedOfCommand ≠ t.key) : Linked rt n old new := by
  have hmem : ∀ {u : Tag}, u ∈ new → u ∈ t :: new := fun hu => List.mem_cons_of_mem _ hu
  refine ⟨fun u hu => h.own u (hmem hu), fun u hu => h.numbered u (hmem hu),
    (List.nodup_cons.mp h.keys).2, fun u hu => h.keys_old u (hmem hu),
    (List.pairwise_cons.mp h.supervised).2, fun u hu => h.supervised_old u (hmem hu), ?_⟩
  intro u hu hcommand
  refine (h.commands u (hmem hu) hcommand).imp_left ?_
  rintro ⟨v, hv, hsup, haddress, hkey⟩
  rcases List.mem_cons.mp hv with rfl | hv
  · exact absurd hkey.symm (hunlinked hsup u hu hcommand)
  · exact ⟨v, hv, hsup, haddress, hkey⟩

end Linked

section Invariant

variable {rt : Runtime} {topics : List String} {n : ℤ} {old : List Tag} {s s' : State}

-- A value of the connection's own making: a method has no supervised twin.
def Plain (ov : OPCValue) : Prop :=
  ov.createCommandForMethod = true → ov.asdu = "method" ∧ ov.createCommandForSupervised = false

def newTags (old : List Tag) (s : State) : List Tag :=
  (s.coll.map tagOf).drop old.length ++ (inserts s.waiting).map tagOf

-- A value in hand has its mark and no tag yet.
structure Held (rt : Runtime) (n : ℤ) (s : State) (ov : OPCValue) : Prop where
  plain : Plain ov
  own : ov.connNumber = n
  marked : s.loaded = true → ov.createCommandForMethod = false →
    ov.address ∈ s.conn.insertedAddresses
  new : ov.createCommandForMethod = false → ∀ t ∈ s.tags, Supervises n t →
    ¬SameNode rt t.address ov.address

structure Inv (rt : Runtime) (n : ℤ) (old : List Tag) (s : State) : Prop where
  number : s.conn.protocolConnectionNumber = n
  stored : old <+: s.coll.map tagOf
  linked : Linked rt n old (newTags old s)
  ahead : s.conn.tagKeys.Ahead n s.ids
  marked : s.loaded = true → ∀ t ∈ s.tags, Supervises n t → t.address ∈ s.conn.insertedAddresses
  plain : ∀ ov ∈ s.queue, Plain ov
  held : ∀ ov ∈ s.writing.hand, Held rt n s ov
  update : inserts s.writing.update = []
  pair : ∀ ov u key ws, s.writing = .pairing ov u key ws →
    ov.createCommandForSupervised = true ∧ key ∉ s.ids ∧
      (Double.eq s.conn.tagKeys.last (.fin 0) = false → s.conn.tagKeys.last = key)

theorem Inv.tags_eq (h : Inv rt n old s) : s.tags = old ++ newTags old s := by
  obtain ⟨rest, hrest⟩ := h.stored
  rw [State.tags, newTags, List.map_append, ← hrest, List.drop_left, List.append_assoc]

theorem mem_ids {key : Double} : key ∈ s.ids ↔ ∃ t ∈ s.tags, t.key = some key :=
  List.mem_filterMap

-- What the loop of the connection leaves to the writer.
structure Beside (s s' : State) : Prop where
  coll : s'.coll = s.coll
  inFlight : s'.inFlight = s.inFlight
  writing : s'.writing = s.writing
  number : s'.conn.protocolConnectionNumber = s.conn.protocolConnectionNumber
  keys : s'.conn.tagKeys = s.conn.tagKeys ∨ s'.conn.tagKeys = {}

theorem Inv.beside (h : Inv rt n old s) (hb : Beside s s')
    (hmarked : s'.loaded = true → (∀ t ∈ s.tags, Supervises n t →
        t.address ∈ s'.conn.insertedAddresses) ∧
      ∀ ov ∈ s.writing.hand, ov.createCommandForMethod = false →
        ov.address ∈ s'.conn.insertedAddresses)
    (hplain : ∀ ov ∈ s'.queue, Plain ov) : Inv rt n old s' := by
  have hwaiting : s'.waiting = s.waiting := by
    rw [State.waiting, State.waiting, hb.inFlight, hb.writing]
  have htags : s'.tags = s.tags := by rw [State.tags, State.tags, hb.coll, hwaiting]
  have hids : s'.ids = s.ids := by rw [State.ids, State.ids, htags]
  have hnew : newTags old s' = newTags old s := by rw [newTags, newTags, hb.coll, hwaiting]
  have hzero : ∀ {k : KeyAllocator}, k = {} → Double.eq k.last (.fin 0) = true := by
    rintro _ rfl
    rfl
  refine ⟨hb.number.trans h.number, hb.coll ▸ h.stored, hnew ▸ h.linked, ?_, ?_, hplain, ?_,
    hb.writing ▸ h.update, ?_⟩
  · intro hlast
    rcases hb.keys with hkeys | hkeys
    · rw [hkeys] at hlast ⊢
      exact hids ▸ h.ahead hlast
    · rw [hzero hkeys] at hlast
      cases hlast
  · exact htags ▸ fun hl => (hmarked hl).1
  · rw [hb.writing]
    intro ov hov
    obtain ⟨hp, hown, -, hnone⟩ := h.held ov hov
    exact ⟨hp, hown, fun hl hm => (hmarked hl).2 ov hov hm, htags ▸ hnone⟩
  · intro ov u key ws hw
    obtain ⟨htwin, hfresh, hlast⟩ := h.pair ov u key ws (hb.writing ▸ hw)
    refine ⟨htwin, hids ▸ hfresh, fun hl => ?_⟩
    rcases hb.keys with hkeys | hkeys
    · rw [hkeys] at hl ⊢
      exact hlast hl
    · rw [hzero hkeys] at hl
      cases hl

-- Where the marks stay.
theorem Inv.beside_marks (h : Inv rt n old s) (hb : Beside s s')
    (hloaded : s'.loaded = true → s.loaded = true)
    (hmarks : s'.conn.insertedAddresses = s.conn.insertedAddresses)
    (hplain : ∀ ov ∈ s'.queue, Plain ov) : Inv rt n old s' := by
  refine h.beside hb (fun hl => ?_) hplain
  rw [hmarks]
  exact ⟨h.marked (hloaded hl), fun ov hov hm => (h.held ov hov).marked (hloaded hl) hm⟩

section Loop

theorem setClient_frame (c : Connection) (up : Bool) :
    (c.setClient up).protocolConnectionNumber = c.protocolConnectionNumber ∧
      (c.setClient up).tagKeys = c.tagKeys ∧
      (c.setClient up).insertedAddresses = c.insertedAddresses := by
  cases up <;> exact ⟨rfl, rfl, rfl⟩

theorem autotagNode_frame (topics : List String) (c : Connection) (ptr : ℕ) (e : Entry)
    (info : NodeInfo) (rv : ReadValue) (now : ℤ) :
    (autotagNode topics c ptr e info rv now).1.protocolConnectionNumber =
        c.protocolConnectionNumber ∧
      (autotagNode topics c ptr e info rv now).1.tagKeys = c.tagKeys ∧
      (autotagNode topics c ptr e info rv now).1.insertedAddresses = c.insertedAddresses ∧
      ∀ ov ∈ (autotagNode topics c ptr e info rv now).2, Plain ov := by
  have hnone : ∀ ov ∈ ([] : List OPCValue), Plain ov := fun _ h => absurd h List.not_mem_nil
  unfold autotagNode
  split_ifs
  · exact ⟨rfl, rfl, rfl, hnone⟩
  · refine ⟨rfl, rfl, rfl, fun ov hov _ => ?_⟩
    obtain rfl := List.mem_singleton.mp hov
    exact ⟨rfl, rfl⟩
  · exact ⟨rfl, rfl, rfl, hnone⟩
  · cases rv with
    | value v =>
        refine ⟨rfl, rfl, rfl, fun ov hov hmethod => ?_⟩
        obtain rfl := List.mem_singleton.mp hov
        cases hmethod
    | unread | missing | null => exact ⟨rfl, rfl, rfl, hnone⟩
  · exact ⟨rfl, rfl, rfl, hnone⟩

theorem Inv.loopStep {a : Action} (h : Inv rt n old s) (hsafe : Safe rt s a)
    (hstep : loopStep rt topics s a = some s') : Inv rt n old s' := by
  cases a with
  | connect =>
      simp only [Discovery.loopStep] at hstep
      split at hstep
      · obtain rfl := Option.some.inj hstep
        obtain ⟨hnumber, hkeys, hmarks⟩ := setClient_frame s.conn true
        exact h.beside_marks ⟨rfl, rfl, rfl, hnumber, .inl hkeys⟩ id hmarks h.plain
      · cases hstep
  | browsed entries =>
      simp only [Discovery.loopStep] at hstep
      split at hstep
      · split_ifs at hstep
        obtain rfl := Option.some.inj hstep
        exact h.beside_marks ⟨rfl, rfl, rfl, rfl, .inl rfl⟩ id rfl h.plain
      · cases hstep
  | discoveryFailed =>
      simp only [Discovery.loopStep] at hstep
      obtain ⟨hnumber, hkeys, hmarks⟩ := setClient_frame s.conn false
      split at hstep
      · obtain rfl := Option.some.inj hstep
        exact h.beside_marks ⟨rfl, rfl, rfl, hnumber, .inl hkeys⟩ id hmarks h.plain
      · obtain rfl := Option.some.inj hstep
        exact h.beside_marks ⟨rfl, rfl, rfl, hnumber, .inl hkeys⟩ id hmarks h.plain
      · cases hstep
  | readBatch infos values =>
      simp only [Discovery.loopStep] at hstep
      split at hstep
      · split_ifs at hstep
        obtain rfl := Option.some.inj hstep
        exact h.beside_marks ⟨rfl, rfl, rfl, rfl, .inl rfl⟩ id rfl h.plain
      · cases hstep
  | examine now =>
      simp only [Discovery.loopStep] at hstep
      split at hstep
      · rename_i e info rv batch nodes hphase
        obtain rfl := Option.some.inj hstep
        obtain ⟨hnumber, hkeys, hmarks, hqueued⟩ :=
          autotagNode_frame topics s.conn s.nextPtr e info rv now
        refine h.beside_marks ⟨rfl, rfl, rfl, hnumber, .inl hkeys⟩ id hmarks fun ov hov => ?_
        exact (List.mem_append.mp hov).elim (h.plain ov) (hqueued ov)
      · obtain rfl := Option.some.inj hstep
        exact h.beside_marks ⟨rfl, rfl, rfl, rfl, .inl rfl⟩ id rfl h.plain
      · cases hstep
  | lose =>
      simp only [Discovery.loopStep] at hstep
      split at hstep
      · obtain rfl := Option.some.inj hstep
        obtain ⟨hnumber, hkeys, hmarks⟩ := setClient_frame s.conn false
        exact h.beside_marks ⟨rfl, rfl, rfl, hnumber, .inl hkeys⟩ id hmarks h.plain
      · cases hstep
  | reload reached =>
      simp only [Discovery.loopStep] at hstep
      split at hstep
      · split_ifs at hstep <;> obtain rfl := Option.some.inj hstep
        · exact h.beside ⟨rfl, rfl, rfl, rfl, .inl rfl⟩ (fun hl => by cases hl) h.plain
        · exact h.beside_marks ⟨rfl, rfl, rfl, rfl, .inl rfl⟩ id rfl h.plain
      · cases hstep
  | resetKeys =>
      simp only [Discovery.loopStep] at hstep
      split at hstep
      · obtain rfl := Option.some.inj hstep
        exact h.beside_marks ⟨rfl, rfl, rfl, rfl, .inr rfl⟩ id rfl h.plain
      · cases hstep
  | find ok =>
      simp only [Discovery.loopStep] at hstep
      split at hstep
      · split_ifs at hstep <;> obtain rfl := Option.some.inj hstep <;>
          exact h.beside_marks ⟨rfl, rfl, rfl, rfl, .inl rfl⟩ id rfl h.plain
      · cases hstep
  | commit =>
      simp only [Discovery.loopStep] at hstep
      split at hstep
      · rename_i docs hphase
        simp only [Safe, hphase, h.number] at hsafe
        obtain rfl := Option.some.inj hstep
        exact h.beside ⟨rfl, rfl, rfl, rfl, .inl rfl⟩ (fun _ => hsafe) h.plain
      · cases hstep
  | skipBatch | discovered =>
      simp only [Discovery.loopStep] at hstep
      split at hstep
      · obtain rfl := Option.some.inj hstep
        exact h.beside_marks ⟨rfl, rfl, rfl, rfl, .inl rfl⟩ id rfl h.plain
      · cases hstep
  | receive it v now => cases hstep
  | dequeueValue => cases hstep
  | nextKey lookupOk => cases hstep
  | bulkWrite => cases hstep
  | execute i ok => cases hstep

end Loop

section Writer

-- The tags may be moved, or fewer, while the value in hand stays or there is none.
theorem Inv.fewer (h : Inv rt n old s) (hconn : s'.conn = s.conn) (hloaded : s'.loaded = s.loaded)
    (hqueue : ∀ ov ∈ s'.queue, ov ∈ s.queue)
    (hwriting : s'.writing = s.writing ∨ s'.writing.hand = none)
    (hstored : old <+: s'.coll.map tagOf) (hlinked : Linked rt n old (newTags old s'))
    (htags : ∀ t ∈ s'.tags, t ∈ s.tags) : Inv rt n old s' := by
  have hids : ∀ id ∈ s'.ids, id ∈ s.ids := by
    intro id hid
    obtain ⟨t, ht, hkey⟩ := mem_ids.mp hid
    exact mem_ids.mpr ⟨t, htags t ht, hkey⟩
  refine ⟨hconn ▸ h.number, hstored, hlinked, ?_, ?_, fun ov hov => h.plain ov (hqueue ov hov),
    ?_, ?_, ?_⟩
  · rw [hconn]
    exact fun hlast id hid => h.ahead hlast id (hids id hid)
  · rw [hloaded, hconn]
    exact fun hl t ht => h.marked hl t (htags t ht)
  · intro ov hov
    rcases hwriting with hsame | hnone
    · obtain ⟨hp, hown, hmarked, hnew⟩ := h.held ov (hsame ▸ hov)
      exact ⟨hp, hown, hconn ▸ hloaded ▸ hmarked, fun hm t ht => hnew hm t (htags t ht)⟩
    · rw [hnone] at hov
      cases hov
  · rcases hwriting with hsame | hnone
    · exact hsame ▸ h.update
    · cases hw : s'.writing with
      | draining writes => rfl
      | tagging ov u ws | pairing ov u key ws =>
          rw [hw] at hnone
          cases hnone
  · intro ov u key ws hw
    rcases hwriting with hsame | hnone
    · obtain ⟨htwin, hfresh, hlast⟩ := h.pair ov u key ws (hsame ▸ hw)
      exact ⟨htwin, fun hmem => hfresh (hids key hmem), hconn ▸ hlast⟩
    · rw [hw] at hnone
      cases hnone

theorem tags_of_stored (hstored : old <+: s.coll.map tagOf) : s.tags = old ++ newTags old s := by
  obtain ⟨rest, hrest⟩ := hstored
  rw [State.tags, newTags, List.map_append, ← hrest, List.drop_left, List.append_assoc]

theorem Inv.tags_subset (h : Inv rt n old s) (hstored : old <+: s'.coll.map tagOf)
    (hsub : ∀ t ∈ newTags old s', t ∈ newTags old s) : ∀ t ∈ s'.tags, t ∈ s.tags := by
  intro t ht
  rw [tags_of_stored hstored, List.mem_append] at ht
  rw [h.tags_eq, List.mem_append]
  exact ht.imp_right (hsub t)

-- The operation in flight beside what waits with it.
theorem waiting_perm {i : ℕ} {w : WriteModel} (hw : s.inFlight[i]? = some w) :
    ((inserts s.waiting).map tagOf).Perm (w.inserted.toList.map tagOf ++
      (inserts (s.inFlight.eraseIdx i ++ s.writing.writes)).map tagOf) := by
  rw [State.waiting, inserts_append, inserts_append, ← List.map_append, ← List.append_assoc]
  exact ((inserts_eraseIdx hw).symm.append_right _).map _

theorem Inv.execute_update (h : Inv rt n old s) {i : ℕ} {filter sdu : Document}
    (hw : s.inFlight[i]? = some (.updateOne filter sdu)) {coll : List Document}
    (hcoll : coll.map tagOf = s.coll.map tagOf) :
    Inv rt n old { s with coll := coll, inFlight := s.inFlight.eraseIdx i } := by
  have hstored : old <+: coll.map tagOf := hcoll ▸ h.stored
  have hperm : (newTags old s).Perm
      (newTags old { s with coll := coll, inFlight := s.inFlight.eraseIdx i }) := by
    rw [newTags, newTags, hcoll]
    exact (waiting_perm hw).append_left _
  exact h.fewer rfl rfl (fun _ => id) (.inl rfl) hstored (h.linked.perm hperm)
    (h.tags_subset hstored fun t => hperm.mem_iff.mpr)

theorem Inv.execute_insert (h : Inv rt n old s) {i : ℕ} {d : Document}
    (hw : s.inFlight[i]? = some (.insertOne d)) :
    Inv rt n old { s with
      coll := (WriteModel.insertOne d).apply s.coll
      inFlight := s.inFlight.eraseIdx i } := by
  have hperm := (waiting_perm hw).append_left ((s.coll.map tagOf).drop old.length)
  have hlinked := h.linked.perm hperm
  have hd : tagOf d ∈ newTags old s :=
    hperm.mem_iff.mpr (List.mem_append_right _ (List.mem_append_left _ List.mem_cons_self))
  -- the key of the document is in no other place
  obtain ⟨key, hkey⟩ := Option.isSome_iff_exists.mp (h.linked.numbered _ hd)
  have hnew : ∀ t ∈ s.coll.map tagOf, t.key ≠ some key := by
    obtain ⟨rest, hrest⟩ := h.stored
    intro t ht hsame
    rw [← hrest, List.mem_append] at ht
    rcases ht with ht | ht
    · exact h.linked.keys_old _ hd t ht (hsame.trans hkey.symm)
    · have hkeys := hlinked.keys
      rw [← hrest, List.drop_left, List.map_append, List.nodup_append] at hkeys
      refine hkeys.2.2 _ (List.mem_map_of_mem ht) _ ?_ (hsame.trans hkey.symm)
      exact List.mem_cons_self
  have happly : (WriteModel.insertOne d).apply s.coll = s.coll ++ [d] := apply_insert hkey hnew
  rw [happly]
  have hlength : old.length ≤ (s.coll.map tagOf).length := h.stored.length_le
  have hstored : old <+: (s.coll ++ [d]).map tagOf := by
    rw [List.map_append]
    exact h.stored.trans (List.prefix_append _ _)
  have hperm' : (newTags old s).Perm
      (newTags old { s with coll := s.coll ++ [d], inFlight := s.inFlight.eraseIdx i }) := by
    refine hperm.trans (List.Perm.of_eq ?_)
    rw [newTags, List.map_append, List.drop_append_of_le_length hlength, List.append_assoc]
    rfl
  exact h.fewer rfl rfl (fun _ => id) (.inl rfl) hstored (h.linked.perm hperm')
    (h.tags_subset hstored fun t => hperm'.mem_iff.mpr)

theorem Inv.execute_lost (h : Inv rt n old s) {i : ℕ} {d : Document}
    (hw : s.inFlight[i]? = some (.insertOne d))
    (hunlinked : (tagOf d).origin = "supervised" →
      ∀ t ∈ s.tags, t.origin = "command" → t.supervisedOfCommand ≠ (tagOf d).key) :
    Inv rt n old { s with inFlight := s.inFlight.eraseIdx i } := by
  have hperm : (newTags old s).Perm
      (tagOf d :: newTags old { s with inFlight := s.inFlight.eraseIdx i }) :=
    ((waiting_perm hw).append_left _).trans List.perm_middle
  have hsub : ∀ t ∈ newTags old { s with inFlight := s.inFlight.eraseIdx i }, t ∈ newTags old s :=
    fun t ht => hperm.mem_iff.mpr (List.mem_cons_of_mem _ ht)
  refine h.fewer rfl rfl (fun _ => id) (.inl rfl) h.stored ?_ (h.tags_subset h.stored hsub)
  refine (h.linked.perm hperm).erase fun hsup u hu hcommand => ?_
  refine hunlinked hsup u ?_ hcommand
  rw [h.tags_eq]
  exact List.mem_append_right _ (hsub u hu)

theorem Inv.execute (h : Inv rt n old s) {i : ℕ} {ok : Bool} {w : WriteModel}
    (hw : s.inFlight[i]? = some w) (hsafe : Safe rt s (.execute i ok)) :
    Inv rt n old { s with
      coll := if ok then w.apply s.coll else s.coll
      inFlight := s.inFlight.eraseIdx i } := by
  cases w with
  | updateOne filter sdu =>
      refine h.execute_update hw ?_
      split_ifs
      · exact map_tagOf_update filter sdu
      · rfl
  | insertOne d =>
      simp only [Safe, hw] at hsafe
      cases ok with
      | true => exact h.execute_insert hw
      | false => exact h.execute_lost hw (hsafe.resolve_left Bool.false_ne_true)

-- The same documents wait in other places.
theorem Inv.rest (h : Inv rt n old s) {queue : List OPCValue} {inFlight writes : List WriteModel}
    (hqueue : ∀ ov ∈ queue, ov ∈ s.queue)
    (hwaiting : inserts (inFlight ++ writes) = inserts s.waiting) :
    Inv rt n old { s with queue := queue, inFlight := inFlight, writing := .draining writes } := by
  have hnew : newTags old
      { s with queue := queue, inFlight := inFlight, writing := .draining writes } =
      newTags old s := by
    rw [newTags, newTags, ← hwaiting]
    rfl
  refine h.fewer rfl rfl hqueue (.inr rfl) h.stored ?_ (h.tags_subset h.stored fun t ht => ?_)
  · rw [hnew]
    exact h.linked
  · rwa [hnew] at ht

-- What the path leaves of a value.
structure SameValue (ov ov' : OPCValue) : Prop where
  connNumber : ov'.connNumber = ov.connNumber
  address : ov'.address = ov.address
  asdu : ov'.asdu = ov.asdu
  method : ov'.createCommandForMethod = ov.createCommandForMethod
  supervised : ov'.createCommandForSupervised = ov.createCommandForSupervised

theorem withDetails_same (c : Connection) (ov : OPCValue) : SameValue ov (withDetails c ov) := by
  unfold withDetails
  split <;> exact ⟨rfl, rfl, rfl, rfl, rfl⟩

theorem SameValue.plain {ov ov' : OPCValue} (h : SameValue ov ov') (hplain : Plain ov) :
    Plain ov' := by
  rw [Plain, h.method, h.asdu, h.supervised]
  exact hplain

-- A value is taken up: its address is marked, and was not before.
theorem Inv.tagging (h : Inv rt n old s) {ov ov' : OPCValue} {queue : List OPCValue}
    {writes : List WriteModel} (hwriting : s.writing = .draining writes)
    (hqueue : s.queue = ov :: queue) (hnew : isNew s.conn ov = true)
    (hsafe : Safe rt s .dequeueValue) (hsame : SameValue ov ov') {update : Option WriteModel}
    (hupdate : inserts update.toList = [])
    (hs' : s' = { s with
      conn := (s.conn.addInsertedAddress ov.address).1
      queue := queue
      writing := .tagging ov' update writes }) : Inv rt n old s' := by
  simp only [Safe, hwriting, hqueue] at hsafe
  have hown : ov.connNumber = s.conn.protocolConnectionNumber ∧
      ov.address ∉ s.conn.insertedAddresses := by
    simp only [isNew, Bool.and_eq_true, decide_eq_true_eq, Bool.not_eq_true',
      Connection.hasInsertedAddress, List.contains_eq_mem, decide_eq_false_iff_not] at hnew
    exact ⟨hnew.1.2, hnew.2⟩
  obtain ⟨hown, hunmarked⟩ := hown
  have hconn : (s.conn.addInsertedAddress ov.address).1 =
      { s.conn with insertedAddresses := ov.address :: s.conn.insertedAddresses } := by
    rw [Connection.addInsertedAddress, if_neg hunmarked]
  have hwaiting : s'.waiting = s.waiting := by
    rw [hs', State.waiting, State.waiting, hwriting]
    rfl
  have htags : s'.tags = s.tags := by
    rw [State.tags, State.tags, hwaiting, hs']
  have hnewTags : newTags old s' = newTags old s := by
    rw [newTags, newTags, hwaiting, hs']
  subst hs'
  refine ⟨?_, h.stored, ?_, ?_, ?_, ?_, ?_, hupdate, fun _ _ _ _ hw => by cases hw⟩
  · rw [hconn]
    exact h.number
  · rw [hnewTags]
    exact h.linked
  · rw [State.ids, htags, hconn]
    exact h.ahead
  · rw [htags, hconn]
    exact fun hl t ht hsup => List.mem_cons_of_mem _ (h.marked hl t ht hsup)
  · exact fun ov' hov => h.plain ov' (hqueue ▸ List.mem_cons_of_mem _ hov)
  · intro ov'' hov
    obtain rfl := Option.some.inj hov
    refine ⟨hsame.plain (h.plain ov (hqueue ▸ List.mem_cons_self)), ?_, ?_, ?_⟩
    · rw [hsame.connNumber, hown, h.number]
    · rw [hconn, hsame.address]
      exact fun _ _ => List.mem_cons_self
    · rw [htags, hsame.address, hsame.method]
      intro hm t ht hsup heq
      obtain ⟨hl, heq⟩ := hsafe hnew hm t ht (h.number ▸ hsup) heq
      exact hunmarked (heq ▸ h.marked hl t ht hsup)

theorem Held.same {ov ov' : OPCValue} (h : Held rt n s ov) (hsame : SameValue ov ov') :
    Held rt n s ov' := by
  refine ⟨hsame.plain h.plain, hsame.connNumber ▸ h.own, ?_, ?_⟩
  · rw [hsame.method, hsame.address]
    exact h.marked
  · rw [hsame.method, hsame.address]
    exact h.new

theorem method_of_origin {c : Connection} {ov : OPCValue} {key command : Double} :
    ((tagOf (tagDoc c ov key command)).origin = "supervised" ↔ ov.createCommandForMethod = false) ∧
      ((tagOf (tagDoc c ov key command)).origin = "command" ↔ ov.createCommandForMethod = true) := by
  rw [tagOf_tagDoc]
  cases ov.createCommandForMethod <;> simp

-- The tag of the value in hand, under a key that is new.
theorem Held.joins {ov : OPCValue} (h : Held rt n s ov) {key : Double} (hkey : key ∉ s.ids)
    (c : Connection) (command : Double) :
    Joins rt n s.tags (tagOf (tagDoc c ov key command)) := by
  have htag := tagOf_tagDoc c ov key command
  refine ⟨?_, ?_, ?_, ?_⟩
  · rw [htag, h.own]
  · rw [htag]
    rfl
  · intro u hu hsame
    rw [htag] at hsame
    exact hkey (mem_ids.mpr ⟨u, hu, hsame⟩)
  · intro horigin u hu hsup
    have hnew := h.new (method_of_origin.1.mp horigin) u hu hsup
    rwa [htag]

-- New documents join, and the writer has nothing in hand.
theorem Inv.join (h : Inv rt n old s) {keys : KeyAllocator} {writes : List WriteModel}
    {ov : OPCValue} (hhand : s.writing.hand = some ov)
    (hnewTags : Linked rt n old (newTags old s ++ (inserts writes).map tagOf))
    (hkeys : Double.eq keys.last (.fin 0) = false → ∀ id ∈ s.ids ++
      ((inserts writes).map tagOf).filterMap Tag.key, ¬Between keys.last (top n) id)
    (hown : ∀ t ∈ (inserts writes).map tagOf, t.address = ov.address ∧
      (t.origin = "supervised" → ov.createCommandForMethod = false)) :
    Inv rt n old { s with
      conn := { s.conn with tagKeys := keys }
      writing := .draining (s.writing.writes ++ writes) } := by
  have htags : ({ s with
      conn := { s.conn with tagKeys := keys }
      writing := .draining (s.writing.writes ++ writes) } : State).tags =
      s.tags ++ (inserts writes).map tagOf := by
    rw [State.tags, State.tags, State.waiting, State.waiting, Writing.writes, ← List.append_assoc,
      inserts_append, ← List.append_assoc, List.map_append]
  refine ⟨h.number, h.stored, ?_, ?_, ?_, h.plain, ?_, rfl, fun _ _ _ _ hw => by cases hw⟩
  · have heq : newTags old { s with
        conn := { s.conn with tagKeys := keys }
        writing := .draining (s.writing.writes ++ writes) } =
        newTags old s ++ (inserts writes).map tagOf := by
      rw [newTags, newTags, State.waiting, State.waiting, Writing.writes, ← List.append_assoc,
        inserts_append, List.map_append, List.append_assoc]
    rw [heq]
    exact hnewTags
  · intro hlast id hid
    rw [State.ids, htags, List.filterMap_append] at hid
    exact hkeys hlast id hid
  · intro hl t ht hsup
    rw [htags, List.mem_append] at ht
    rcases ht with ht | ht
    · exact h.marked hl t ht hsup
    · obtain ⟨haddress, hmethod⟩ := hown t ht
      rw [haddress]
      exact (h.held ov hhand).marked hl (hmethod hsup.2)
  · exact fun _ hov => by cases hov

-- A tag by itself.
theorem Inv.single (h : Inv rt n old s) {ov : OPCValue} {update : Option WriteModel}
    {writes : List WriteModel} (hwriting : s.writing = .tagging ov update writes) {lookupOk : Bool}
    (hsafe : Safe rt s (.nextKey lookupOk)) {k : KeyAllocator} {key : Double}
    (hnext : s.conn.tagKeys.next s.coll lookupOk ov.connNumber = (k, key)) (c : Connection) :
    Inv rt n old { s with
      conn := { s.conn with tagKeys := k }
      writing := .draining
        (writes ++ .insertOne (tagDoc c (withDetails c ov) key (.fin 0)) :: update.toList) } := by
  have hhand : s.writing.hand = some ov := by rw [hwriting]; rfl
  have hheld := h.held ov hhand
  simp only [Safe, hwriting, hheld.own] at hsafe
  obtain ⟨hlast, hfresh, habove⟩ := KeyAllocator.next_spec hsafe h.ahead
  rw [hheld.own] at hnext
  rw [hnext] at hlast hfresh habove
  have hsame := withDetails_same c ov
  have hjoins := (hheld.same hsame).joins hfresh c (.fin 0)
  have hinserts : inserts (.insertOne (tagDoc c (withDetails c ov) key (.fin 0)) :: update.toList) =
      [tagDoc c (withDetails c ov) key (.fin 0)] := by
    rw [inserts, List.filterMap_cons]
    have hupdate := h.update
    rw [hwriting] at hupdate
    exact congrArg _ hupdate
  have hjoin : Inv rt n old { s with
      conn := { s.conn with tagKeys := k }
      writing := .draining (s.writing.writes ++
        .insertOne (tagDoc c (withDetails c ov) key (.fin 0)) :: update.toList) } := by
    refine h.join hhand ?_ ?_ ?_ <;> rw [hinserts]
    · refine h.linked.append (h.tags_eq ▸ hjoins) fun hcommand => .inr ?_
      have hmethod := method_of_origin.2.mp hcommand
      have hplain := (hheld.plain (hsame.method ▸ hmethod)).1
      rw [tagOf_tagDoc]
      exact ⟨hsame.asdu.trans hplain, rfl⟩
    · intro _ id hid
      rw [hlast]
      rcases List.mem_append.mp hid with hid | hid
      · exact habove id hid
      · rw [List.map_singleton, tagOf_tagDoc] at hid
        obtain rfl := List.mem_singleton.mp hid
        exact fun hin => absurd hin.1 (by rw [Double.lt_irrefl]; exact Bool.false_ne_true)
    · intro t ht
      obtain rfl := List.mem_singleton.mp ht
      refine ⟨?_, fun horigin => hsame.method ▸ method_of_origin.1.mp horigin⟩
      rw [tagOf_tagDoc]
      exact hsame.address
  rw [hwriting] at hjoin
  exact hjoin

-- A pair: the key of the tag is the one after that of its command.
theorem Inv.pairing (h : Inv rt n old s) {ov : OPCValue} {update : Option WriteModel} {key : Double}
    {writes : List WriteModel} (hwriting : s.writing = .pairing ov update key writes)
    {lookupOk : Bool} (hsafe : Safe rt s (.nextKey lookupOk)) {k : KeyAllocator} {next : Double}
    (hnext : s.conn.tagKeys.next s.coll lookupOk ov.connNumber = (k, next)) (c : Connection) :
    Inv rt n old { s with
      conn := { s.conn with tagKeys := k }
      writing := .draining (writes ++ (pairOf c ov key next ++ update.toList)) } := by
  have hhand : s.writing.hand = some ov := by rw [hwriting]; rfl
  have hheld := h.held ov hhand
  obtain ⟨htwin, hkeyNew, hlastKey⟩ := h.pair ov update key writes hwriting
  simp only [Safe, hwriting, hheld.own] at hsafe
  obtain ⟨hcounting, hsafe⟩ := hsafe
  obtain ⟨hlast, hfresh, habove⟩ := KeyAllocator.next_spec hsafe h.ahead
  rw [hheld.own] at hnext
  have hsucc : next = succ key := by
    have hcounted : (s.conn.tagKeys.next s.coll lookupOk n).2 = succ s.conn.tagKeys.last := by
      simp [KeyAllocator.next, hcounting, succ]
    rw [hnext, hlastKey hcounting] at hcounted
    exact hcounted
  have hbetween : Between key (top n) next := by
    rw [KeyAllocator.Safe, hcounting, if_neg Bool.false_ne_true, hlastKey hcounting] at hsafe
    exact hsucc ▸ hsafe
  rw [hnext] at hlast hfresh habove
  have hmethod : ov.createCommandForMethod = false := by
    by_contra hm
    rw [(hheld.plain (Bool.not_eq_false _ ▸ hm)).2] at htwin
    cases htwin
  have hsup := tagOf_tagDoc c ov next key
  have hcmd := tagOf_commandDoc htwin key
  have hne : next ≠ key := by
    rintro rfl
    rw [Between, Double.lt_irrefl] at hbetween
    exact absurd hbetween.1 Bool.false_ne_true
  -- the tag joins first, and its command finds it
  have htag : Linked rt n old (newTags old s ++ [tagOf (tagDoc c ov next key)]) :=
    h.linked.append (h.tags_eq ▸ hheld.joins hfresh c key) fun horigin =>
      absurd (method_of_origin.2.mp horigin) (by rw [hmethod]; exact Bool.false_ne_true)
  have hboth : Linked rt n old
      (newTags old s ++ [tagOf (tagDoc c ov next key)] ++ [tagOf (commandDoc ov key)]) := by
    refine htag.append ⟨?_, ?_, ?_, ?_⟩ fun _ => .inl ?_
    · rw [hcmd, hheld.own]
    · rw [hcmd]
      rfl
    · intro u hu
      rw [← List.append_assoc, ← h.tags_eq, List.mem_append] at hu
      rw [hcmd]
      rcases hu with hu | hu
      · exact fun hkey => hkeyNew (mem_ids.mpr ⟨u, hu, hkey⟩)
      · obtain rfl := List.mem_singleton.mp hu
        rw [hsup]
        exact fun hkey => hne (Option.some.inj hkey)
    · rw [hcmd]
      exact fun horigin => absurd horigin (by simp)
    · refine ⟨tagOf (tagDoc c ov next key), List.mem_append_right _ List.mem_cons_self,
        method_of_origin.1.mpr hmethod, ?_, ?_⟩
      · rw [hcmd, hsup]
      · rw [hcmd, hsup, hsucc]
  have hinserts : inserts (pairOf c ov key next ++ update.toList) =
      [commandDoc ov key, tagDoc c ov next key] := by
    have hupdate := h.update
    rw [hwriting] at hupdate
    rw [inserts_append, show inserts update.toList = [] from hupdate]
    rfl
  have hjoin : Inv rt n old { s with
      conn := { s.conn with tagKeys := k }
      writing := .draining (s.writing.writes ++ (pairOf c ov key next ++ update.toList)) } := by
    refine h.join hhand ?_ ?_ ?_ <;> rw [hinserts]
    · refine hboth.perm ?_
      rw [List.append_assoc]
      exact (List.Perm.swap _ _ _).append_left _
    · intro _ id hid
      rw [hlast]
      rcases List.mem_append.mp hid with hid | hid
      · exact habove id hid
      · rw [List.map_cons, List.map_singleton, hcmd, hsup] at hid
        simp only [List.filterMap_cons, List.filterMap_nil, List.mem_cons, List.not_mem_nil,
          or_false] at hid
        rcases hid with rfl | rfl
        · intro hin
          have hself := Double.lt_trans hbetween.1 hin.1
          rw [Double.lt_irrefl] at hself
          cases hself
        · intro hin
          rw [Between, Double.lt_irrefl] at hin
          exact absurd hin.1 Bool.false_ne_true
    · intro t ht
      refine ⟨?_, fun _ => hmethod⟩
      simp only [List.map_cons, List.map_nil, List.mem_cons, List.not_mem_nil, or_false] at ht
      rcases ht with rfl | rfl
      · rw [hcmd]
      · rw [hsup]
  rw [hwriting] at hjoin
  exact hjoin

-- The command of a pair has its key, and waits for the second one.
theorem Inv.firstKey (h : Inv rt n old s) {ov : OPCValue} {update : Option WriteModel}
    {writes : List WriteModel} (hwriting : s.writing = .tagging ov update writes) {lookupOk : Bool}
    (hsafe : Safe rt s (.nextKey lookupOk)) {k : KeyAllocator} {key : Double}
    (hnext : s.conn.tagKeys.next s.coll lookupOk ov.connNumber = (k, key)) (c : Connection)
    (htwin : ov.createCommandForSupervised = true) :
    Inv rt n old { s with
      conn := { s.conn with tagKeys := k }
      writing := .pairing (withDetails c ov) update key writes } := by
  have hheld := h.held ov (by rw [hwriting]; rfl)
  simp only [Safe, hwriting, hheld.own] at hsafe
  obtain ⟨hlast, hfresh, habove⟩ := KeyAllocator.next_spec hsafe h.ahead
  rw [hheld.own] at hnext
  rw [hnext] at hlast hfresh habove
  have hwaiting : ({ s with
      conn := { s.conn with tagKeys := k }
      writing := .pairing (withDetails c ov) update key writes } : State).waiting = s.waiting := by
    rw [State.waiting, State.waiting, hwriting]
    rfl
  have hsame := withDetails_same c ov
  have htags : ({ s with
      conn := { s.conn with tagKeys := k }
      writing := .pairing (withDetails c ov) update key writes } : State).tags = s.tags := by
    rw [State.tags, State.tags, hwaiting]
  have hupdate := h.update
  rw [hwriting] at hupdate
  refine ⟨h.number, h.stored, ?_, ?_, ?_, h.plain, ?_, hupdate, ?_⟩
  · rw [newTags, hwaiting]
    exact h.linked
  · rw [State.ids, htags, KeyAllocator.Ahead, hlast]
    exact fun _ => habove
  · rw [htags]
    exact h.marked
  · intro ov' hov'
    obtain rfl := Option.some.inj hov'
    obtain ⟨hplain, hown, hmarked, hnew⟩ := hheld.same hsame
    refine ⟨hplain, hown, hmarked, ?_⟩
    rw [htags]
    exact hnew
  · intro ov' u key' ws hw
    injection hw with hov _ hkey _
    subst hov hkey
    refine ⟨hsame.supervised.trans htwin, ?_, fun _ => hlast⟩
    rw [State.ids, htags]
    exact hfresh

theorem Inv.writerStep {a : Action} (h : Inv rt n old s) (hsafe : Safe rt s a)
    (hstep : writerStep rt s a = some s') : Inv rt n old s' := by
  cases a with
  | dequeueValue =>
      simp only [Discovery.writerStep] at hstep
      split at hstep
      · rename_i writes ov queue hwriting hqueue
        split_ifs at hstep with hlimit hnew hlarge
        · refine h.tagging hwriting hqueue hnew hsafe ?_ inserts_update (Option.some.inj hstep).symm
          exact ⟨rfl, rfl, rfl, rfl, rfl⟩
        · refine h.tagging hwriting hqueue hnew hsafe ?_ inserts_update (Option.some.inj hstep).symm
          exact ⟨rfl, rfl, rfl, rfl, rfl⟩
        · obtain rfl := Option.some.inj hstep
          refine h.rest (fun ov' hov => hqueue ▸ List.mem_cons_of_mem _ hov) ?_
          rw [State.waiting, hwriting, Writing.writes, inserts_append, inserts_append,
            inserts_append, inserts_update, List.append_nil]
      · cases hstep
  | nextKey lookupOk =>
      simp only [Discovery.writerStep] at hstep
      split at hstep
      · cases hstep
      · rename_i ov update writes hwriting
        split_ifs at hstep with htwin <;> obtain rfl := Option.some.inj hstep
        · refine h.firstKey hwriting hsafe rfl _ ?_
          rw [hasTwin, Bool.and_eq_true] at htwin
          exact (withDetails_same _ ov).supervised ▸ htwin.2
        · exact h.single hwriting hsafe rfl _
      · rename_i ov update key writes hwriting
        obtain rfl := Option.some.inj hstep
        rw [List.append_assoc]
        exact h.pairing hwriting hsafe rfl _
  | bulkWrite =>
      simp only [Discovery.writerStep] at hstep
      split at hstep
      · rename_i w writes hwriting
        obtain rfl := Option.some.inj hstep
        refine h.rest (fun _ => id) ?_
        rw [State.waiting, hwriting, Writing.writes, List.append_nil]
      · cases hstep
  | execute i ok =>
      simp only [Discovery.writerStep] at hstep
      split at hstep
      · rename_i w hw
        obtain rfl := Option.some.inj hstep
        exact h.execute hw hsafe
      · cases hstep
  | receive it v now =>
      obtain rfl := Option.some.inj hstep
      refine h.beside_marks ⟨rfl, rfl, rfl, rfl, .inl rfl⟩ id rfl fun ov hov => ?_
      rcases List.mem_append.mp hov with hov | hov
      · exact h.plain ov hov
      · obtain rfl := List.mem_singleton.mp hov
        exact fun hmethod => by cases hmethod
  | connect | browsed _ | discoveryFailed | readBatch _ _ | skipBatch | examine _ | discovered
  | lose | reload _ | resetKeys | find _ | commit => cases hstep

theorem Inv.step {a : Action} (h : Inv rt n old s) (hsafe : Safe rt s a)
    (hstep : step rt topics s a = some s') : Inv rt n old s' := by
  rcases Option.or_eq_some_iff.mp hstep with hloop | ⟨-, hwriter⟩
  · exact h.loopStep hsafe hloop
  · exact h.writerStep hsafe hwriter

end Writer

-- At the start every tag of the connection is marked.
theorem inv_start (rt : Runtime) (coll : List Document) (c : Connection) :
    Inv rt c.protocolConnectionNumber (coll.map tagOf) (start rt coll c) := by
  have htags : (start rt coll c).tags = coll.map tagOf :=
    congrArg (List.map tagOf) (List.append_nil coll)
  have hnew : newTags (coll.map tagOf) (start rt coll c) = [] := by
    rw [newTags, show (start rt coll c).coll = coll from rfl, List.drop_length]
    rfl
  refine ⟨rfl, List.prefix_rfl, hnew ▸ .nil, fun hlast => (by cases hlast), ?_,
    fun _ hov => absurd hov List.not_mem_nil, fun _ hov => (by cases hov), rfl,
    fun _ _ _ _ hw => (by cases hw)⟩
  rw [htags]
  intro _ t ht hsup
  obtain ⟨d, hd, rfl⟩ := List.mem_map.mp ht
  exact mem_preload_addrs.mpr ⟨d, mem_tagsOf.mpr ⟨hd, hsup.1⟩, rfl⟩

end Invariant

-- Where the marks and the keys are safe to go by, the tags that the writer inserts have keys and
-- nodes of their own, and their commands refer to them.
theorem linked_of_run {rt : Runtime} {topics : List String} {coll : List Document} {c : Connection}
    {as : List Action} {s : State}
    (hrun : Run.run (step rt topics) (start rt coll c) as = some s)
    (hsafe : Run.Allowed (step rt topics) (Safe rt) (start rt coll c) as) :
    Linked rt c.protocolConnectionNumber (coll.map tagOf)
      ((s.inserted coll.length).map tagOf) := by
  have h := Run.invariant (fun _ _ _ h hok hs => h.step hok hs) (inv_start rt coll c) hsafe hrun
  have hnew : newTags (coll.map tagOf) s = (s.inserted coll.length).map tagOf := by
    rw [newTags, State.inserted, List.map_append, List.map_drop, List.length_map]
  exact hnew ▸ h.linked

section Runs

def runtime : Runtime where
  parseNodeID := NodeId.parse
  unmarshal := fun text => (Strconv.parseFloat text.toList).map Value.number
  marshalSize := fun _ => none

def plc : Connection where
  protocolConnectionNumber := 1
  name := "PLC"
  autoCreateTags := true
  commandsEnabled := true
  autoCreateTagPublishingInterval := .fin 5
  autoCreateTagSamplingInterval := .fin 5
  autoCreateTagQueueSize := .fin 5
  hoursShift := 0

def entryOf (name : String) (nodeClass : NodeClass) : Entry where
  key := (NodeId.mk 2 (.string name)).text
  ref := ⟨some ⟨2, .string name⟩, some name, nodeClass, some ⟨0, .numeric 47⟩⟩
  path := "/Objects/Boiler/" ++ name

def infoOf (name : String) (nodeClass : NodeClass) : NodeInfo where
  ok := true
  nodeClass := nodeClass
  browseName := name
  displayName := name
  accessLevel := 3
  executable := true
  userExecutable := true

def seven : DataValue where
  asdu := "double"
  value := .fin 7
  valueString := ""
  valueJSON := "7"
  isArray := false
  sourceTimestamp := none
  good := true

-- A session that finds one node.
def session (name : String) (nodeClass : NodeClass) (value : ReadValue) : List Action :=
  [.connect, .browsed [entryOf name nodeClass], .readBatch [infoOf name nodeClass] (some [value]),
    .examine 0, .examine 0, .discovered]

-- The writer makes a pair of tags, and has it stored.
def makePair : List Action := [.dequeueValue, .nextKey true, .nextKey true]
def store : List Action := [.bulkWrite, .execute 0 true, .execute 0 true, .execute 0 true]

-- A session in which the discovery fails, up to the tags that are read back.
def reloaded : List Action := [.lose, .connect, .discoveryFailed, .reload true, .resetKeys, .find true]

def level : List Action := session "Level" .variableClass (.value seven)

-- Level has its tags, which are read back, and Flow gets its own.
def orderly : List Action :=
  level ++ makePair ++ store ++ reloaded ++ [.commit] ++
    session "Flow" .variableClass (.value seven) ++ makePair ++ store

theorem orderly_linked : ∃ s, Run.run (step runtime []) (start runtime [] plc) orderly = some s ∧
    (s.inserted 0).length = 4 ∧ Linked runtime 1 [] ((s.inserted 0).map tagOf) := by
  have hrun : (Run.run (step runtime []) (start runtime [] plc) orderly).any
      (fun s => (s.inserted 0).length = 4) = true := by
    decide +kernel
  obtain ⟨s, hs, hlength⟩ := (Option.any_eq_true _ _).mp hrun
  exact ⟨s, hs, of_decide_eq_true hlength, linked_of_run hs (by decide +kernel)⟩

-- The tags of Level are made between the reading and the commit.
def between : List Action :=
  level ++ reloaded ++ makePair ++ [.commit] ++ store ++ level ++ makePair

-- A method has a command without a supervised tag, and Level gets two supervised tags.
theorem unlinked_twice :
    (∃ s, Run.run (step runtime []) (start runtime [] plc)
        (session "Reset" .methodClass .missing ++ [.dequeueValue, .nextKey true]) = some s ∧
      (∃ t ∈ (s.inserted 0).map tagOf, t.origin = "command") ∧
      ∀ t ∈ (s.inserted 0).map tagOf, t.origin ≠ "supervised") ∧
    ∃ s, Run.run (step runtime []) (start runtime [] plc) between = some s ∧
      ((s.inserted 0).map tagOf).countP
        (fun t => t.origin = "supervised" && t.address = "ns=2;s=Level") = 2 := by
  have hmethod : (Run.run (step runtime []) (start runtime [] plc)
      (session "Reset" .methodClass .missing ++ [.dequeueValue, .nextKey true])).any (fun s =>
        ((s.inserted 0).map tagOf).any (fun t => t.origin = "command") &&
          ((s.inserted 0).map tagOf).all (fun t => t.origin ≠ "supervised")) = true := by
    decide +kernel
  have htwice : (Run.run (step runtime []) (start runtime [] plc) between).any (fun s =>
      ((s.inserted 0).map tagOf).countP
        (fun t => t.origin = "supervised" && t.address = "ns=2;s=Level") = 2) = true := by
    decide +kernel
  obtain ⟨s, hs, hboth⟩ := (Option.any_eq_true _ _).mp hmethod
  obtain ⟨s', hs', hcount⟩ := (Option.any_eq_true _ _).mp htwice
  rw [Bool.and_eq_true] at hboth
  obtain ⟨t, ht, hcommand⟩ := List.any_eq_true.mp hboth.1
  refine ⟨⟨s, hs, ⟨t, ht, of_decide_eq_true hcommand⟩, fun t ht => ?_⟩, s', hs',
    of_decide_eq_true hcount⟩
  exact of_decide_eq_true (List.all_eq_true.mp hboth.2 t ht)

-- The key under which both sessions find the level.
example : (entryOf "Level" .variableClass).key = "ns=2;s=Level" := by decide +kernel

end Runs

end JsonScada.OpcUa.Client.Discovery
