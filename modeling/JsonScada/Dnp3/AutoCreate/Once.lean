import JsonScada.Dnp3.AutoCreate
import JsonScada.JsTags
import JsonScada.Library.Run

-- The tags of the values that a connection receives, over the batches of the writer.
namespace JsonScada.Dnp3.AutoCreate

open JsonScada.Library
open JsonScada.JsMongo
open JsonScada.JsTags
open JsonScada.Processor (Document Value lookup_applySet)

section Model

-- What waits for the InsertMany of its batch is not yet seen by a lookup.
structure State where
  conn : Connection
  coll : List Document
  pending : List Document := []
  -- the documents created so far, value by value
  created : List (List Document) := []

inductive Action where
  | value (iv : Dnp3Value) (lookupOk : Bool)
  | insertMany

def step (s : State) : Action → Option State
  | .value iv lookupOk =>
      let (conn, docs) := autoCreateFor s.coll lookupOk s.conn iv
      some { s with
        conn := conn
        pending := s.pending ++ docs
        created := s.created ++ [docs] }
  | .insertMany => some { s with coll := s.coll ++ s.pending, pending := [] }

-- The connection after the start of the driver.
def start (coll : List Document) (conn : Connection) : State where
  conn := { conn with
    tagKeys := {}
    insertedAddresses :=
      if conn.autoCreateTags then preloadAddresses coll conn.protocolConnectionNumber else [] }
  coll := coll

end Model

section Purpose

def addressOf (d : Document) : ℤ × ℤ :=
  (JsMongo.getInt d "protocolSourceCommonAddress" (-1),
    JsMongo.getInt d "protocolSourceObjectAddress" (-1))

def IsOrigin (origin : String) (d : Document) : Prop := d.lookup "origin" = some (.string origin)

-- A command among the documents of a value and the supervised one name each other.
def Linked (docs : List Document) : Prop :=
  ∀ c ∈ docs, IsOrigin "command" c → ∃ d ∈ docs, IsOrigin "supervised" d ∧
    c.num "supervisedOfCommand" = d.num "_id" ∧ d.num "commandOfSupervised" = c.num "_id"

-- The documents that are created are new, beside those of the start and among themselves.
structure CreatedOnce (coll : List Document) (n : ℤ) (created : List (List Document)) : Prop where
  newKeys : ∀ d ∈ created.flatten, ∀ e ∈ coll, d.num "_id" ≠ e.num "_id"
  keys : (created.flatten.map fun d => d.num "_id").Nodup
  newAddresses : ∀ d ∈ created.flatten, addressOf d ∉ preloadAddresses coll n
  addresses : (created.flatten.map addressOf).Nodup
  linked : ∀ docs ∈ created, Linked docs

end Purpose

section Condition

def hasTwin (conn : Connection) (iv : Dnp3Value) : Bool :=
  conn.commandsEnabled &&
    (iv.baseGroup = groupBinaryOutputStatus || iv.baseGroup = groupAnalogOutputStatus)

def twinGroup (iv : Dnp3Value) : ℤ :=
  if iv.baseGroup = groupBinaryOutputStatus then groupCROBCommand else groupAnalogOutputBlock

-- The key that comes after the last one, or after the highest one that is found.
def firstKey (n : ℤ) : Option Double → Double
  | some highest => succ highest
  | none => base n

def upcoming (keys : KeyAllocator) (coll : List Document) (n : ℤ) : Double :=
  if Double.eq keys.last (.fin 0) then firstKey n (highestId coll (base n) (top n))
  else succ keys.last

-- A key that is not zero, with the next one in the range as well.
def StartsPair (n : ℤ) (key : Double) : Prop :=
  Double.eq key (.fin 0) = false ∧ Between key (top n) (succ key)

instance (n : ℤ) (key : Double) : Decidable (StartsPair n key) :=
  inferInstanceAs (Decidable (_ ∧ _))

def State.documents (s : State) : List Document := s.coll ++ s.pending

def State.ids (s : State) : List Double := s.documents.filterMap fun d => d.num "_id"

-- What is asked of the keys of a value that has no tag yet, and for a command twin of its address.
def Fit (s : State) : Action → Prop
  | .value iv lookupOk =>
      s.conn.autoCreateTags = true → (iv.baseGroup, iv.address) ∉ s.conn.insertedAddresses →
        s.conn.tagKeys.Safe s.coll lookupOk s.conn.protocolConnectionNumber s.ids ∧
          (hasTwin s.conn iv = true → (twinGroup iv, iv.address) ∉ s.conn.insertedAddresses ∧
            StartsPair s.conn.protocolConnectionNumber
              (upcoming s.conn.tagKeys s.coll s.conn.protocolConnectionNumber))
  | .insertMany => True

instance decidableFit : ∀ s a, Decidable (Fit s a)
  | s, .value iv lookupOk => inferInstanceAs (Decidable
      (s.conn.autoCreateTags = true → (iv.baseGroup, iv.address) ∉ s.conn.insertedAddresses →
        s.conn.tagKeys.Safe s.coll lookupOk s.conn.protocolConnectionNumber s.ids ∧
          (hasTwin s.conn iv = true → (twinGroup iv, iv.address) ∉ s.conn.insertedAddresses ∧
            StartsPair s.conn.protocolConnectionNumber
              (upcoming s.conn.tagKeys s.coll s.conn.protocolConnectionNumber))))
  | _, .insertMany => inferInstanceAs (Decidable True)

end Condition

section Documents

variable (iv : Dnp3Value) (connName : String) (id : Double) (isCommand : Bool) (g : ℤ)
variable (asdu duration : ℚ) (c s : Double)

@[simp] theorem num_id_newTagDoc :
    (newTagDoc iv connName id isCommand g asdu duration c s).num "_id" = some id := by
  simp [newTagDoc, Document.num, lookup_applySet, List.lookup_cons]

@[simp] theorem addressOf_newTagDoc :
    addressOf (newTagDoc iv connName id isCommand g asdu duration c s) = (g, iv.address) := by
  have hg : (newTagDoc iv connName id isCommand g asdu duration c s).lookup
      "protocolSourceCommonAddress" = some (.number (.fin g)) := by
    simp [newTagDoc, lookup_applySet, List.lookup_cons]
  have haddress : (newTagDoc iv connName id isCommand g asdu duration c s).lookup
      "protocolSourceObjectAddress" = some (.number (.fin iv.address)) := by
    simp [newTagDoc, lookup_applySet, List.lookup_cons]
  rw [addressOf, getInt_of_lookup hg, getInt_of_lookup haddress]

theorem isOrigin_newTagDoc {origin : String} :
    IsOrigin origin (newTagDoc iv connName id isCommand g asdu duration c s) ↔
      (if isCommand then "command" else "supervised") = origin := by
  simp [IsOrigin, newTagDoc, lookup_applySet, List.lookup_cons]

theorem num_supervisedOfCommand :
    (newTagDoc iv connName id isCommand g asdu duration c s).num "supervisedOfCommand" = some s := by
  simp [newTagDoc, Document.num, lookup_applySet, List.lookup_cons]

theorem num_commandOfSupervised :
    (newTagDoc iv connName id isCommand g asdu duration c s).num "commandOfSupervised" = some c := by
  simp [newTagDoc, Document.num, lookup_applySet, List.lookup_cons]

end Documents

section Keys

variable {k : KeyAllocator} {coll : List Document} {lookupOk : Bool} {n : ℤ} {ids : List Double}

theorem next_eq_upcoming (hsafe : k.Safe coll lookupOk n ids) :
    (k.next coll lookupOk n).2 = upcoming k coll n := by
  unfold KeyAllocator.Safe at hsafe
  cases hlast : Double.eq k.last (.fin 0) with
  | false => simp [KeyAllocator.next, upcoming, hlast, succ]
  | true =>
      rw [hlast, if_pos rfl] at hsafe
      cases hfound : highestId coll (base n) (top n) with
      | none => simp [KeyAllocator.next, upcoming, hlast, hfound, firstKey]
      | some highest =>
          rw [hfound] at hsafe
          simp [KeyAllocator.next, upcoming, hlast, hfound, firstKey, hsafe.1, succ]

-- After the first key of a pair the second one counts up from it.
theorem next_after {key : Double} (hkey : Double.eq key (.fin 0) = false) :
    (KeyAllocator.next { last := key } coll lookupOk n).2 = succ key := by
  simp [KeyAllocator.next, hkey, succ]

-- No known key, the new one among them, lies above the new one.
theorem ahead_concat {key : Double} (habove : ∀ id ∈ ids, ¬Between key (top n) id) :
    ({ last := key } : KeyAllocator).Ahead n (ids ++ [key]) := by
  intro _ id hid
  rcases List.mem_append.mp hid with hid | hid
  · exact habove id hid
  · obtain rfl := List.mem_singleton.mp hid
    exact fun hself => absurd hself.1 (by simp [Double.lt_irrefl])

end Keys

section Join

variable {coll : List Document} {n : ℤ} {created : List (List Document)} {docs : List Document}

-- Documents that may be created next.
structure Joins (coll : List Document) (n : ℤ) (created : List (List Document))
    (docs : List Document) : Prop where
  newKeys : ∀ d ∈ docs, ∀ e ∈ coll ++ created.flatten, d.num "_id" ≠ e.num "_id"
  keys : (docs.map fun d => d.num "_id").Nodup
  newAddresses : ∀ d ∈ docs, addressOf d ∉ preloadAddresses coll n
  otherAddresses : ∀ d ∈ docs, ∀ e ∈ created.flatten, addressOf d ≠ addressOf e
  addresses : (docs.map addressOf).Nodup
  linked : Linked docs

theorem CreatedOnce.nil : CreatedOnce coll n [] where
  newKeys := by simp
  keys := List.nodup_nil
  newAddresses := by simp
  addresses := List.nodup_nil
  linked := by simp

theorem CreatedOnce.concat (h : CreatedOnce coll n created) (hdocs : Joins coll n created docs) :
    CreatedOnce coll n (created ++ [docs]) := by
  have hflatten : (created ++ [docs]).flatten = created.flatten ++ docs := by simp
  constructor
  · intro d hd e he
    rw [hflatten] at hd
    rcases List.mem_append.mp hd with hd | hd
    · exact h.newKeys d hd e he
    · exact hdocs.newKeys d hd e (List.mem_append_left _ he)
  · rw [hflatten, List.map_append]
    refine h.keys.append hdocs.keys fun key hkey hnew => ?_
    obtain ⟨e, he, rfl⟩ := List.mem_map.mp hkey
    obtain ⟨d, hd, heq⟩ := List.mem_map.mp hnew
    exact hdocs.newKeys d hd e (List.mem_append_right _ he) heq
  · intro d hd
    rw [hflatten] at hd
    rcases List.mem_append.mp hd with hd | hd
    · exact h.newAddresses d hd
    · exact hdocs.newAddresses d hd
  · rw [hflatten, List.map_append]
    refine h.addresses.append hdocs.addresses fun address haddress hnew => ?_
    obtain ⟨e, he, rfl⟩ := List.mem_map.mp haddress
    obtain ⟨d, hd, heq⟩ := List.mem_map.mp hnew
    exact hdocs.otherAddresses d hd e he heq
  · intro docs' hdocs'
    rcases List.mem_append.mp hdocs' with hdocs' | hdocs'
    · exact h.linked docs' hdocs'
    · obtain rfl := List.mem_singleton.mp hdocs'
      exact hdocs.linked

theorem joins_nil : Joins coll n created [] where
  newKeys := by simp
  keys := List.nodup_nil
  newAddresses := by simp
  otherAddresses := by simp
  addresses := List.nodup_nil
  linked := by simp [Linked]

end Join

section Created

variable {coll : List Document} {lookupOk : Bool} {conn : Connection} {iv : Dnp3Value}

theorem autoCreateFor_known
    (h : conn.autoCreateTags = true → (iv.baseGroup, iv.address) ∈ conn.insertedAddresses) :
    autoCreateFor coll lookupOk conn iv = (conn, []) := by
  cases hauto : conn.autoCreateTags with
  | false => simp [autoCreateFor, hauto]
  | true => simp [autoCreateFor, hauto, h hauto]

theorem autoCreateFor_single (hauto : conn.autoCreateTags = true)
    (hnew : (iv.baseGroup, iv.address) ∉ conn.insertedAddresses) (htwin : hasTwin conn iv = false)
    {keys : KeyAllocator} {id : Double}
    (hnext : conn.tagKeys.next coll lookupOk conn.protocolConnectionNumber = (keys, id)) :
    autoCreateFor coll lookupOk conn iv =
      ({ conn with
          tagKeys := keys
          insertedAddresses := (iv.baseGroup, iv.address) :: conn.insertedAddresses },
        [newTagDoc iv conn.name id false iv.baseGroup 0 0 (.fin 0) (.fin 0)]) := by
  unfold autoCreateFor
  unfold hasTwin at htwin
  rw [hauto, if_neg (by decide), if_neg hnew]
  dsimp only
  rw [if_neg (Bool.eq_false_iff.mp htwin), hnext]

theorem autoCreateFor_pair (hauto : conn.autoCreateTags = true)
    (hnew : (iv.baseGroup, iv.address) ∉ conn.insertedAddresses) (htwin : hasTwin conn iv = true)
    {keys keys' : KeyAllocator} {commandId id : Double}
    (hfirst : conn.tagKeys.next coll lookupOk conn.protocolConnectionNumber = (keys, commandId))
    (hsecond : keys.next coll lookupOk conn.protocolConnectionNumber = (keys', id)) :
    ∃ asdu duration, autoCreateFor coll lookupOk conn iv =
      ({ conn with
          tagKeys := keys'
          insertedAddresses := (twinGroup iv, iv.address) :: (iv.baseGroup, iv.address) ::
            conn.insertedAddresses },
        [newTagDoc iv conn.name commandId true (twinGroup iv) asdu duration (.fin 0) (succ commandId),
          newTagDoc iv conn.name id false iv.baseGroup 0 0 commandId (.fin 0)]) := by
  unfold autoCreateFor
  unfold hasTwin at htwin
  rw [hauto, if_neg (by decide), if_neg hnew]
  dsimp only
  rw [if_pos htwin, hfirst]
  dsimp only
  rw [hsecond]
  by_cases hdigital : iv.baseGroup = groupBinaryOutputStatus
  · exact ⟨1, 3, by simp [hdigital, twinGroup, succ]⟩
  · exact ⟨3, 0, by simp [hdigital, twinGroup, succ]⟩

end Created

section Invariant

variable {coll : List Document} {n : ℤ} {s s' : State}

-- What is created is new so far, and the connection knows its addresses and keys.
structure Inv (coll : List Document) (n : ℤ) (s : State) : Prop where
  number : s.conn.protocolConnectionNumber = n
  documents : s.documents = coll ++ s.created.flatten
  ahead : s.conn.tagKeys.Ahead n s.ids
  preloaded : s.conn.autoCreateTags = true →
    ∀ a ∈ preloadAddresses coll n, a ∈ s.conn.insertedAddresses
  marked : ∀ d ∈ s.created.flatten, addressOf d ∈ s.conn.insertedAddresses
  once : CreatedOnce coll n s.created

theorem inv_start (coll : List Document) (conn : Connection) :
    Inv coll conn.protocolConnectionNumber (start coll conn) where
  number := rfl
  documents := by simp [State.documents, start]
  ahead := by
    intro hlast
    simp [start] at hlast
  preloaded := by
    intro hauto a ha
    have hconn : conn.autoCreateTags = true := hauto
    simpa [start, hconn] using ha
  marked := by simp [start]
  once := CreatedOnce.nil

-- The state after the creation of documents.
def State.create (s : State) (conn : Connection) (docs : List Document) : State :=
  { s with conn := conn, pending := s.pending ++ docs, created := s.created ++ [docs] }

theorem ids_create (conn : Connection) (docs : List Document) :
    (s.create conn docs).ids = s.ids ++ docs.filterMap fun d => d.num "_id" := by
  simp [State.ids, State.documents, State.create]

theorem Inv.create (h : Inv coll n s) {conn : Connection} {docs : List Document}
    (hnumber : conn.protocolConnectionNumber = s.conn.protocolConnectionNumber)
    (hauto : conn.autoCreateTags = s.conn.autoCreateTags)
    (hkept : ∀ a ∈ s.conn.insertedAddresses, a ∈ conn.insertedAddresses)
    (hmarked : ∀ d ∈ docs, addressOf d ∈ conn.insertedAddresses)
    (hahead : conn.tagKeys.Ahead n (s.ids ++ docs.filterMap fun d => d.num "_id"))
    (hjoins : Joins coll n s.created docs) : Inv coll n (s.create conn docs) where
  number := hnumber.trans h.number
  documents := by
    have hdocuments := h.documents
    rw [State.documents] at hdocuments
    simp [State.documents, State.create, ← List.append_assoc, hdocuments]
  ahead := by
    rw [ids_create]
    exact hahead
  preloaded := fun hcreate a ha => hkept a (h.preloaded (hauto ▸ hcreate) a ha)
  marked := by
    intro d hd
    rw [State.create, List.flatten_append, List.flatten_singleton] at hd
    rcases List.mem_append.mp hd with hd | hd
    · exact hkept _ (h.marked d hd)
    · exact hmarked d hd
  once := h.once.concat hjoins

theorem Inv.newKey (h : Inv coll n s) {key : Double} (hkey : key ∉ s.ids) {d : Document}
    (hd : d.num "_id" = some key) : ∀ e ∈ coll ++ s.created.flatten, d.num "_id" ≠ e.num "_id" := by
  intro e he heq
  rw [← h.documents] at he
  exact hkey (List.mem_filterMap.mpr ⟨e, he, heq.symm.trans hd⟩)

theorem Inv.newAddress (h : Inv coll n s) (hauto : s.conn.autoCreateTags = true) {a : ℤ × ℤ}
    (ha : a ∉ s.conn.insertedAddresses) :
    a ∉ preloadAddresses coll n ∧ ∀ e ∈ s.created.flatten, a ≠ addressOf e :=
  ⟨fun hmem => ha (h.preloaded hauto a hmem), fun e he heq => ha (heq ▸ h.marked e he)⟩

section Joining

variable {c d : Document} {key key' : Double} {a b : ℤ × ℤ}

theorem not_command_of_supervised (h : IsOrigin "supervised" d) : ¬IsOrigin "command" d := by
  intro hcommand
  have heq : some (Value.string "supervised") = some (Value.string "command") :=
    h.symm.trans hcommand
  simp at heq

theorem forall_pair {p : Document → Prop} (hc : p c) (hd : p d) : ∀ x ∈ [c, d], p x :=
  List.forall_mem_cons.mpr ⟨hc, List.forall_mem_singleton.mpr hd⟩

theorem Inv.joins_single (h : Inv coll n s) (hauto : s.conn.autoCreateTags = true)
    (hd : d.num "_id" = some key) (ha : addressOf d = a) (horigin : IsOrigin "supervised" d)
    (hkey : key ∉ s.ids) (hnew : a ∉ s.conn.insertedAddresses) : Joins coll n s.created [d] := by
  obtain ⟨hnotPreloaded, hnotCreated⟩ := h.newAddress hauto hnew
  refine ⟨?_, List.nodup_singleton _, ?_, ?_, List.nodup_singleton _, ?_⟩
  · exact List.forall_mem_singleton.mpr (h.newKey hkey hd)
  · exact List.forall_mem_singleton.mpr (ha ▸ hnotPreloaded)
  · exact List.forall_mem_singleton.mpr (ha ▸ hnotCreated)
  · exact List.forall_mem_singleton.mpr fun hcommand =>
      absurd hcommand (not_command_of_supervised horigin)

theorem Inv.joins_pair (h : Inv coll n s) (hauto : s.conn.autoCreateTags = true)
    (hc : c.num "_id" = some key) (hd : d.num "_id" = some key') (ha : addressOf c = a)
    (hb : addressOf d = b) (horigin : IsOrigin "supervised" d)
    (hlink : c.num "supervisedOfCommand" = some key')
    (hback : d.num "commandOfSupervised" = some key) (hkey : key ∉ s.ids) (hkey' : key' ∉ s.ids)
    (hne : key ≠ key') (hnew : a ∉ s.conn.insertedAddresses) (hnew' : b ∉ s.conn.insertedAddresses)
    (hab : a ≠ b) : Joins coll n s.created [c, d] := by
  obtain ⟨hnotPreloaded, hnotCreated⟩ := h.newAddress hauto hnew
  obtain ⟨hnotPreloaded', hnotCreated'⟩ := h.newAddress hauto hnew'
  refine ⟨?_, ?_, ?_, ?_, ?_, ?_⟩
  · exact forall_pair (h.newKey hkey hc) (h.newKey hkey' hd)
  · simpa [hc, hd] using hne
  · exact forall_pair (ha ▸ hnotPreloaded) (hb ▸ hnotPreloaded')
  · exact forall_pair (ha ▸ hnotCreated) (hb ▸ hnotCreated')
  · simpa [ha, hb] using hab
  · exact forall_pair (fun _ => ⟨d, by simp, horigin, hlink.trans hd.symm, hback.trans hc.symm⟩)
      fun hcommand => absurd hcommand (not_command_of_supervised horigin)

end Joining

theorem twinAddress_ne {iv : Dnp3Value} (htwin : hasTwin s.conn iv = true) :
    (twinGroup iv, iv.address) ≠ (iv.baseGroup, iv.address) := by
  rw [hasTwin, Bool.and_eq_true, Bool.or_eq_true, decide_eq_true_iff, decide_eq_true_iff] at htwin
  have hne : twinGroup iv ≠ iv.baseGroup := by
    rcases htwin.2 with hgroup | hgroup <;> rw [twinGroup, hgroup] <;> decide
  exact fun heq => hne (Prod.ext_iff.mp heq).1

theorem Inv.single (h : Inv coll n s) {iv : Dnp3Value} {lookupOk : Bool}
    (hauto : s.conn.autoCreateTags = true)
    (hnew : (iv.baseGroup, iv.address) ∉ s.conn.insertedAddresses)
    (htwin : hasTwin s.conn iv = false) (hsafe : s.conn.tagKeys.Safe s.coll lookupOk n s.ids) :
    Inv coll n (s.create (autoCreateFor s.coll lookupOk s.conn iv).1
      (autoCreateFor s.coll lookupOk s.conn iv).2) := by
  obtain ⟨-, hkey, habove⟩ := KeyAllocator.next_spec hsafe h.ahead
  generalize hid : (s.conn.tagKeys.next s.coll lookupOk n).2 = id at hkey habove
  have hnext : s.conn.tagKeys.next s.coll lookupOk s.conn.protocolConnectionNumber =
      ({ last := id }, id) := by
    rw [h.number, ← hid]
    rfl
  rw [autoCreateFor_single hauto hnew htwin hnext]
  have hkeyOf := num_id_newTagDoc iv s.conn.name id false iv.baseGroup 0 0 (.fin 0) (.fin 0)
  have haddress := addressOf_newTagDoc iv s.conn.name id false iv.baseGroup 0 0 (.fin 0) (.fin 0)
  have horigin := (isOrigin_newTagDoc iv s.conn.name id false iv.baseGroup 0 0 (.fin 0) (.fin 0)).mpr
    (rfl : _ = "supervised")
  generalize newTagDoc iv s.conn.name id false iv.baseGroup 0 0 (.fin 0) (.fin 0) = d
    at hkeyOf haddress horigin
  have hjoins := h.joins_single hauto hkeyOf haddress horigin hkey hnew
  refine h.create rfl rfl (fun a ha => List.mem_cons_of_mem _ ha) ?_ ?_ hjoins
  · exact List.forall_mem_singleton.mpr (haddress ▸ List.mem_cons_self)
  · simpa [hkeyOf] using ahead_concat habove

-- The command takes the first key and the supervised document the next one.
theorem Inv.pair (h : Inv coll n s) {iv : Dnp3Value} {lookupOk : Bool}
    (hauto : s.conn.autoCreateTags = true)
    (hnew : (iv.baseGroup, iv.address) ∉ s.conn.insertedAddresses)
    (htwin : hasTwin s.conn iv = true) (hsafe : s.conn.tagKeys.Safe s.coll lookupOk n s.ids)
    (htwinNew : (twinGroup iv, iv.address) ∉ s.conn.insertedAddresses)
    (hpair : StartsPair n (upcoming s.conn.tagKeys s.coll n)) :
    Inv coll n (s.create (autoCreateFor s.coll lookupOk s.conn iv).1
      (autoCreateFor s.coll lookupOk s.conn iv).2) := by
  obtain ⟨-, hkey, habove⟩ := KeyAllocator.next_spec hsafe h.ahead
  have hupcoming := next_eq_upcoming hsafe
  generalize upcoming s.conn.tagKeys s.coll n = key at hpair hupcoming
  rw [hupcoming] at hkey habove
  obtain ⟨hkey', habove'⟩ := above_succ hpair.2 (ahead_concat habove hpair.1)
  obtain ⟨hsecondNew, hne⟩ := not_or.mp (List.mem_append.not.mp hkey')
  have hfirst : s.conn.tagKeys.next s.coll lookupOk s.conn.protocolConnectionNumber =
      ({ last := key }, key) := by
    rw [h.number, ← hupcoming]
    rfl
  have hsecond : KeyAllocator.next { last := key } s.coll lookupOk
      s.conn.protocolConnectionNumber = ({ last := succ key }, succ key) := by
    rw [h.number, ← next_after (n := n) hpair.1]
    rfl
  obtain ⟨asdu, duration, hcreate⟩ := autoCreateFor_pair hauto hnew htwin hfirst hsecond
  rw [hcreate]
  have hidCommand := num_id_newTagDoc iv s.conn.name key true (twinGroup iv) asdu duration (.fin 0)
    (succ key)
  have haddressCommand := addressOf_newTagDoc iv s.conn.name key true (twinGroup iv) asdu duration
    (.fin 0) (succ key)
  have hlink := num_supervisedOfCommand iv s.conn.name key true (twinGroup iv) asdu duration (.fin 0)
    (succ key)
  generalize newTagDoc iv s.conn.name key true (twinGroup iv) asdu duration (.fin 0) (succ key) = c
    at hidCommand haddressCommand hlink
  have hid := num_id_newTagDoc iv s.conn.name (succ key) false iv.baseGroup 0 0 key (.fin 0)
  have haddress := addressOf_newTagDoc iv s.conn.name (succ key) false iv.baseGroup 0 0 key (.fin 0)
  have hback := num_commandOfSupervised iv s.conn.name (succ key) false iv.baseGroup 0 0 key (.fin 0)
  have horigin := (isOrigin_newTagDoc iv s.conn.name (succ key) false iv.baseGroup 0 0 key
    (.fin 0)).mpr (rfl : _ = "supervised")
  generalize newTagDoc iv s.conn.name (succ key) false iv.baseGroup 0 0 key (.fin 0) = d
    at hid haddress hback horigin
  have hjoins := h.joins_pair hauto hidCommand hid haddressCommand haddress horigin hlink hback hkey
    hsecondNew (fun heq => hne (by simp [← heq])) htwinNew hnew (twinAddress_ne htwin)
  refine h.create rfl rfl (fun a ha => by simp [ha]) ?_ ?_ hjoins
  · exact forall_pair (by simp [haddressCommand]) (by simp [haddress])
  · simpa [hidCommand, hid] using ahead_concat habove'

theorem Inv.step {a : Action} (h : Inv coll n s) (hfit : Fit s a) (hs : step s a = some s') :
    Inv coll n s' := by
  cases a with
  | value iv lookupOk =>
      obtain rfl := Option.some.inj hs
      change Inv coll n (s.create (autoCreateFor s.coll lookupOk s.conn iv).1
        (autoCreateFor s.coll lookupOk s.conn iv).2)
      by_cases hknown : s.conn.autoCreateTags = true →
          (iv.baseGroup, iv.address) ∈ s.conn.insertedAddresses
      · rw [autoCreateFor_known hknown]
        refine h.create rfl rfl (fun _ ha => ha) (by simp) ?_ joins_nil
        simpa using h.ahead
      · obtain ⟨hauto, hnew⟩ := Classical.not_imp.mp hknown
        obtain ⟨hsafe, htwinFit⟩ := hfit hauto hnew
        rw [h.number] at hsafe htwinFit
        cases htwin : hasTwin s.conn iv with
        | false => exact h.single hauto hnew htwin hsafe
        | true =>
            obtain ⟨htwinNew, hpair⟩ := htwinFit htwin
            exact h.pair hauto hnew htwin hsafe htwinNew hpair
  | insertMany =>
      obtain rfl := Option.some.inj hs
      have hids : State.ids { s with coll := s.coll ++ s.pending, pending := [] } = s.ids := by
        simp [State.ids, State.documents]
      refine ⟨h.number, ?_, ?_, h.preloaded, h.marked, h.once⟩
      · simpa [State.documents] using h.documents
      · rw [hids]
        exact h.ahead

end Invariant

section Claim

-- In every run whose values all fit, no document is created twice and the twins are linked.
theorem created_once (coll : List Document) (conn : Connection) (actions : List Action) (s : State)
    (hfit : Run.Allowed step Fit (start coll conn) actions)
    (hrun : Run.run step (start coll conn) actions = some s) :
    CreatedOnce coll conn.protocolConnectionNumber s.created := by
  have hinv : Inv coll conn.protocolConnectionNumber s :=
    Run.invariant (fun _ _ _ h hfit hs => h.step hfit hs) (inv_start coll conn) hfit hrun
  exact hinv.once

def feeder : Connection where
  protocolConnectionNumber := 1
  name := "FEEDER"
  commandsEnabled := true
  autoCreateTags := true

-- The connection 1 receives the status of an output.
def outputStatus (index : UInt32) : Dnp3Value :=
  SoeHandler.handle ⟨1, 1500000000000, false⟩
    { index := index, value := .binaryOutputStatus true, flags := fun bit => bit = .online
      time := { isValid := false, synchronized := false, unixMilli := 0 } }

-- A collection with the command tag of output 5, and without its supervised one.
def withCommand : List Document :=
  [[("_id", .number (.fin 1000007)), ("origin", .string "command"),
    ("protocolSourceConnectionNumber", .number (.fin 1)),
    ("protocolSourceCommonAddress", .number (.fin 12)),
    ("protocolSourceObjectAddress", .number (.fin 5))]]

def twoOutputs : List Action :=
  [.value (outputStatus 3) true, .value (outputStatus 4) true, .insertMany,
    .value (outputStatus 3) true]

theorem created_once_twoOutputs :
    ∃ s, Run.run step (start withCommand feeder) twoOutputs = some s ∧
      (s.created.map List.length = [2, 2, 0]) ∧ CreatedOnce withCommand 1 s.created := by
  have hrun : (Run.run step (start withCommand feeder) twoOutputs).map
      (fun s => s.created.map List.length) = some [2, 2, 0] := by decide
  obtain ⟨s, hs, hlengths⟩ := Option.map_eq_some_iff.mp hrun
  exact ⟨s, hs, hlengths, created_once withCommand feeder twoOutputs s (by decide +kernel) hs⟩

-- The command tag of output 5 is created a second time.
theorem command_created_twice :
    ∃ s, Run.run step (start withCommand feeder) [.value (outputStatus 5) true] = some s ∧
      ¬CreatedOnce withCommand 1 s.created := by
  have hrun : (Run.run step (start withCommand feeder) [.value (outputStatus 5) true]).map
      (fun s => s.created.flatten.any fun d => addressOf d ∈ preloadAddresses withCommand 1) =
        some true := by decide
  obtain ⟨s, hs, hknown⟩ := Option.map_eq_some_iff.mp hrun
  obtain ⟨d, hd, haddress⟩ := List.any_eq_true.mp hknown
  exact ⟨s, hs, fun h => h.newAddresses d hd (of_decide_eq_true haddress)⟩

end Claim

end JsonScada.Dnp3.AutoCreate
