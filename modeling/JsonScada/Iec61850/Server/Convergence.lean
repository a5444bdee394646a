import JsonScada.Iec61850.Server

namespace JsonScada.Iec61850.Server

open JsonScada.Library
open JsonScada.JsMongo
open JsonScada.Processor (Document Value)

variable {conn : ServerConnection} {s s' : State}

section Statement

-- Nothing is under way between the collection and the model.
def CaughtUp (s : State) : Prop :=
  s.startup = .serving ∧ s.watching = true ∧ s.log.pending = [] ∧ s.updateQueue = [] ∧ s.upd = none

-- Every point but a command shows the quality and the value of its document.
def Converged (s : State) : Prop :=
  ∀ mp ∈ s.built, mp.isCommand = false → ∀ d ∈ s.coll, (pointFromDoc d).tag = mp.tag →
    shown s.served mp.objRef =
      some (mapQuality (updateFromPoint mp (pointFromDoc d)),
        valueOf (updateFromPoint mp (pointFromDoc d)))

-- What can be seen of a document at the model.
def word (u : PointUpdate) : ℕ × Quality × MmsValue := (u.point.objRef, mapQuality u, valueOf u)

def seen (conn : ServerConnection) (built : List MappedPoint) (d : Document) :
    Option (ℕ × Quality × MmsValue) × Bool :=
  ((pushed built d).map word, exposed conn d)

-- A change of a point is one that an open stream lets through, or one that cannot be seen.
def Noticed (conn : ServerConnection) (s : State) (c : Change) (doc : Document) : Prop :=
  (pushed s.built doc).isSome →
    s.watching = true ∧ csMatch conn doc c.event = true ∨
      (findDoc s.coll c.event.id).any (fun d => seen conn s.built d = seen conn s.built doc)

-- What the code does not make up for: a change while there is no stream, events that are
-- lost with the stream or fail to decode, and an update before the initial values.
def Timely (conn : ServerConnection) (s : State) : Action → Prop
  | .change c => ∀ doc ∈ c.doc, Noticed conn s c doc
  | .next decoded =>
      decoded = true ∨ ∀ e ∈ s.log.pending.head?, (received conn s.built s.coll e).isNone
  | .fail => ∀ e ∈ s.log.pending, (received conn s.built s.coll e).isNone
  | .update _ => s.startup = .serving
  | _ => True

instance (s : State) (c : Change) (doc : Document) : Decidable (Noticed conn s c doc) :=
  inferInstanceAs (Decidable (_ → _ ∨ _))

instance : ∀ s a, Decidable (Timely conn s a)
  | s, .change c => inferInstanceAs (Decidable (∀ doc ∈ c.doc, Noticed conn s c doc))
  | s, .next decoded =>
      inferInstanceAs (Decidable (decoded = true ∨
        ∀ e ∈ s.log.pending.head?, (received conn s.built s.coll e).isNone))
  | s, .fail =>
      inferInstanceAs (Decidable (∀ e ∈ s.log.pending, (received conn s.built s.coll e).isNone))
  | s, .update _ => inferInstanceAs (Decidable (s.startup = .serving))
  | _, .selectPoints | _, .watch _ | _, .bind _ | _, .applyInitialValues _ | _, .dequeue =>
      .isTrue trivial

instance (s : State) : Decidable (CaughtUp s) :=
  inferInstanceAs (Decidable (s.startup = .serving ∧ s.watching = true ∧ s.log.pending = [] ∧
    s.updateQueue = [] ∧ s.upd = none))

instance (s : State) : Decidable (Converged s) :=
  inferInstanceAs (Decidable (∀ mp ∈ s.built, mp.isCommand = false → ∀ d ∈ s.coll,
    (pointFromDoc d).tag = mp.tag → shown s.served mp.objRef = some _))

end Statement

section Invariant

-- What an event will tell of a data object.
def brings (conn : ServerConnection) (s : State) (ref : ℕ) (e : Event) :
    Option (Quality × MmsValue) :=
  (received conn s.built s.coll e).bind (tells ref)

def waiting (s : State) : List PointUpdate :=
  (if s.startup = .serving then [] else initialUpdates s.built s.points) ++ s.upd.toList ++
    s.updateQueue

def arriving (s : State) : List Event := if s.watching then s.log.pending else []

-- What a data object shows when all that is under way has come to it.
def eventual (conn : ServerConnection) (s : State) (ref : ℕ) : Option (Quality × MmsValue) :=
  LastWrite.after (brings conn s ref)
    (LastWrite.after (tells ref) (shown s.served ref) (waiting s)) (arriving s)

structure Inv (conn : ServerConnection) (s : State) : Prop where
  apart : s.coll.Pairwise Apart
  loading : s.startup = .loading →
    s.points = [] ∧ s.watching = false ∧ s.updateQueue = [] ∧ s.upd = none
  built : s.built = buildModel s.points
  tags : (s.points.map Point.tag).Nodup
  named : ∀ p ∈ s.points, p.tag ≠ ""
  current : ∀ d ∈ s.coll, ∀ u, pushed s.built d = some u →
    eventual conn s u.point.objRef = some (mapQuality u, valueOf u)

theorem eventual_caughtUp (h : CaughtUp s) (ref : ℕ) : eventual conn s ref = shown s.served ref := by
  obtain ⟨hserving, hwatching, hlog, hqueue, hupd⟩ := h
  simp [eventual, waiting, arriving, hserving, hwatching, hlog, hqueue, hupd, LastWrite.after]

theorem Inv.converged (h : Inv conn s) (hup : CaughtUp s) : Converged s := by
  intro mp hmp hcommand d hd htag
  have hbyTag : byTag s.built mp.tag = some mp := by
    rw [h.built] at hmp ⊢
    exact byTag_buildModel h.tags hmp
  have hne : mp.tag ≠ "" := by
    rw [h.built] at hmp
    obtain ⟨p, hp, htag', -⟩ := mem_buildModel hmp
    rw [htag']
    exact h.named p hp
  have hpushed : pushed s.built d = some (updateFromPoint mp (pointFromDoc d)) := by
    rw [pushed_eq_some, updateOf, htag, hbyTag]
    simp [hne, hcommand]
  have hcurrent := h.current d hd _ hpushed
  rw [eventual_caughtUp hup] at hcurrent
  exact hcurrent

-- What goes on inside the server keeps what is to come of it.
theorem Inv.of_eventual (h : Inv conn s) (hcoll : s'.coll = s.coll) (hpoints : s'.points = s.points)
    (hbuilt : s'.built = s.built) (hstartup : s'.startup = .loading → s.startup = .loading ∧
      s'.watching = false ∧ s'.updateQueue = [] ∧ s'.upd = none)
    (hsame : ∀ ref, eventual conn s' ref = eventual conn s ref) : Inv conn s' where
  apart := hcoll ▸ h.apart
  loading hload := by
    obtain ⟨hload', hrest⟩ := hstartup hload
    exact ⟨hpoints.trans (h.loading hload').1, hrest⟩
  built := by rw [hbuilt, hpoints, h.built]
  tags := hpoints ▸ h.tags
  named := hpoints ▸ h.named
  current := by
    intro d hd u hu
    rw [hcoll] at hd
    rw [hbuilt] at hu
    rw [hsame]
    exact h.current d hd u hu

end Invariant

section Steps

theorem Inv.watch (h : Inv conn s) {ok : Bool} (hstep : step conn s (.watch ok) = some s') :
    Inv conn s' := by
  simp only [step] at hstep
  split_ifs at hstep with hbusy hok
  · obtain rfl := Option.some.inj hstep
    obtain ⟨hload, hwatching⟩ := not_or.mp hbusy
    refine h.of_eventual rfl rfl rfl (fun hload' => absurd hload' hload) ?_
    intro ref
    -- the stream starts with nothing to deliver
    have hpending : (s.log.openAt none).pending = [] := by
      rw [ChangeLog.pending_eq_nil_iff, ChangeLog.place_openAt_none, ChangeLog.events_openAt]
    simp [eventual, arriving, hpending, hwatching]
    rfl
  · obtain rfl := Option.some.inj hstep
    exact h

theorem Inv.next (h : Inv conn s) {decoded : Bool} (hok : Timely conn s (.next decoded))
    (hstep : step conn s (.next decoded) = some s') : Inv conn s' := by
  have hwatching : s.watching = true := by
    by_contra hnot
    simp [step, hnot] at hstep
  simp only [step, hwatching, if_true] at hstep
  obtain ⟨⟨e, log⟩, hnext, rfl⟩ := Option.map_eq_some_iff.mp hstep
  obtain ⟨hpending, -, -⟩ := ChangeLog.next_eq_some _ hnext
  refine h.of_eventual rfl rfl rfl (fun hload => ?_) ?_
  · rw [(h.loading hload).2.1] at hwatching
    cases hwatching
  · intro ref
    have hreceived : (if decoded then (received conn s.built s.coll e).toList else []) =
        (received conn s.built s.coll e).toList := by
      rcases hok with hok | hok
      · rw [hok, if_pos rfl]
      · have hnone := hok e (by rw [hpending]; rfl)
        rw [Option.isNone_iff_eq_none.mp hnone]
        simp
    simp only [eventual, arriving, waiting, hwatching, if_true, hreceived, hpending]
    rw [← List.append_assoc, LastWrite.after_append _ _ (received conn s.built s.coll e).toList,
      after_toList]
    rfl

theorem Inv.fail (h : Inv conn s) (hok : Timely conn s .fail)
    (hstep : step conn s .fail = some s') : Inv conn s' := by
  simp only [step] at hstep
  split_ifs at hstep with hwatching
  obtain rfl := Option.some.inj hstep
  refine h.of_eventual rfl rfl rfl (fun hload => ?_) ?_
  · rw [(h.loading hload).2.1] at hwatching
    cases hwatching
  · intro ref
    have hnone : ∀ e ∈ s.log.pending, brings conn s ref e = none := by
      intro e he
      rw [brings, Option.isNone_iff_eq_none.mp (hok e he), Option.bind_none]
    simp only [eventual, arriving, hwatching, if_true]
    rw [LastWrite.after_of_none hnone]
    rfl

theorem Inv.bind (h : Inv conn s) {ok : Bool} (hstep : step conn s (.bind ok) = some s') :
    Inv conn s' := by
  simp only [step] at hstep
  cases hstartup : s.startup with
  | binding =>
      simp only [hstartup] at hstep
      obtain rfl := Option.some.inj hstep
      refine h.of_eventual rfl rfl rfl (fun hload => ?_) ?_
      · cases ok <;> cases hload
      · intro ref
        have hwaiting :
            waiting { s with startup := if ok then .bound else .binding } = waiting s := by
          cases ok <;> simp [waiting, hstartup]
        rw [eventual, hwaiting]
        rfl
  | loading | bound | serving => simp [hstartup] at hstep

theorem Inv.applyInitialValues (h : Inv conn s) {now : ℤ}
    (hstep : step conn s (.applyInitialValues now) = some s') : Inv conn s' := by
  simp only [step] at hstep
  cases hstartup : s.startup with
  | bound =>
      simp only [hstartup] at hstep
      obtain rfl := Option.some.inj hstep
      refine h.of_eventual rfl rfl rfl (fun hload => by cases hload) ?_
      intro ref
      simp only [eventual, waiting, hstartup, shown_foldl, if_true, List.nil_append,
        LastWrite.after_append]
      rfl
  | loading | binding | serving => simp [hstartup] at hstep

theorem Inv.dequeue (h : Inv conn s) (hstep : step conn s .dequeue = some s') : Inv conn s' := by
  simp only [step] at hstep
  split at hstep
  · next u us hstartup hupd hqueue =>
      obtain rfl := Option.some.inj hstep
      refine h.of_eventual rfl rfl rfl (fun hload => ?_) ?_
      · rw [hstartup] at hload
        cases hload
      · intro ref
        have hwaiting : waiting { s with upd := some u, updateQueue := us } = waiting s := by
          simp [waiting, hupd, hqueue]
        rw [eventual, hwaiting]
        rfl
  · next u us hstartup hupd hqueue =>
      obtain rfl := Option.some.inj hstep
      refine h.of_eventual rfl rfl rfl (fun hload => ?_) ?_
      · rw [hstartup] at hload
        cases hload
      · intro ref
        have hwaiting : waiting { s with upd := some u, updateQueue := us } = waiting s := by
          simp [waiting, hupd, hqueue]
        rw [eventual, hwaiting]
        rfl
  · cases hstep

theorem Inv.update (h : Inv conn s) {now : ℤ} (hok : Timely conn s (.update now))
    (hstep : step conn s (.update now) = some s') : Inv conn s' := by
  obtain ⟨u, hupd, rfl⟩ := Option.map_eq_some_iff.mp hstep
  have hserving : s.startup = .serving := hok
  refine h.of_eventual rfl rfl rfl (fun hload => ?_) ?_
  · have hload' : s.startup = .loading := hload
    rw [hserving] at hload'
    cases hload'
  · intro ref
    simp only [eventual, waiting, hserving, hupd, if_true, List.nil_append, Option.toList_none,
      Option.toList_some, List.singleton_append, shown_foldl]
    rw [← LastWrite.after_append, List.cons_append, List.take_append_drop]
    rfl

end Steps

section Change

variable {c : Change} {coll coll' : List Document} {d d' : Document} {u : PointUpdate} {e : Event}
  {ref : ℕ}

-- What an event tells with a document.
def told (conn : ServerConnection) (built : List MappedPoint) (ref : ℕ) (e : Event)
    (doc : Document) : Option (Quality × MmsValue) :=
  if csMatch conn doc e then (pushed built doc).bind (tells ref) else none

theorem brings_eq (conn : ServerConnection) (s : State) (ref : ℕ) (e : Event) :
    brings conn s ref e = (fullDocument s.coll e).bind (told conn s.built ref e) := by
  unfold brings received told
  cases fullDocument s.coll e with
  | none => rfl
  | some doc =>
      simp only [Option.bind_some]
      split_ifs <;> rfl

theorem word_eq_iff {u u' : PointUpdate} :
    word u = word u' ↔
      u.point.objRef = u'.point.objRef ∧ mapQuality u = mapQuality u' ∧ valueOf u = valueOf u' := by
  simp [word]

theorem tells_of_word {u u' : PointUpdate} (h : word u = word u') (ref : ℕ) :
    tells ref u = tells ref u' := by
  obtain ⟨href, hquality, hvalue⟩ := word_eq_iff.mp h
  rw [tells, tells, href, hquality, hvalue]

theorem told_of_seen {built : List MappedPoint} (h : seen conn built d = seen conn built d')
    (ref : ℕ) (e : Event) : told conn built ref e d = told conn built ref e d' := by
  obtain ⟨hword, hexposed⟩ := Prod.mk.inj h
  have hmatch : csMatch conn d e = csMatch conn d' e := by
    unfold csMatch
    rw [hexposed]
  have htells : (pushed built d).bind (tells ref) = (pushed built d').bind (tells ref) := by
    cases hd : pushed built d with
    | none =>
        rw [hd] at hword
        have hd' : pushed built d' = none := by simpa using hword.symm
        rw [hd']
    | some u =>
        rw [hd, Option.map_some] at hword
        obtain ⟨u', hu', hsame⟩ := Option.map_eq_some_iff.mp hword.symm
        rw [hu', Option.bind_some, Option.bind_some, tells_of_word hsame.symm]
  rw [told, told, hmatch, htells]

-- The tag of another document has another data object.
theorem told_eq_none {points : List Point} (hd : pushed (buildModel points) d = some u)
    (hne : (pointFromDoc d).tag ≠ (pointFromDoc d').tag) (e : Event) :
    told conn (buildModel points) u.point.objRef e d' = none := by
  unfold told
  split_ifs
  · cases hd' : pushed (buildModel points) d' with
    | none => rfl
    | some u' =>
        rw [Option.bind_some, tells, if_neg]
        exact fun href => hne (pushed_tag hd hd' href.symm)
  · rfl

theorem tag_ne (hcoll : coll.Pairwise Apart) (hd : d ∈ coll) (hd' : d' ∈ coll)
    (hid : docId d ≠ docId d') (htag : (pointFromDoc d).tag ≠ "") :
    (pointFromDoc d).tag ≠ (pointFromDoc d').tag := by
  rw [tag_pointFromDoc] at htag
  rw [tag_pointFromDoc, tag_pointFromDoc]
  exact fun h => hid (eq_of_tag hcoll hd hd' h htag)

-- An event reads the collection at its own _id, or not at all.
theorem fullDocument_cases (coll coll' : List Document) (e : Event) :
    fullDocument coll' e = findDoc coll' e.id ∧ fullDocument coll e = findDoc coll e.id ∨
      fullDocument coll' e = fullDocument coll e := by
  unfold fullDocument
  cases e.operation with
  | update fields => exact .inl ⟨rfl, rfl⟩
  | insert | replace doc | delete => exact .inr rfl

theorem fullDocument_event (happ : Applied c coll coll') (h : fullDocument coll' c.event = some d) :
    c.doc = some d := by
  cases c with
  | update doc fields => exact happ.changed.symm.trans h
  | replace doc => exact h
  | insert doc | delete id => cases h

theorem fullDocument_of_match (happ : Applied c coll coll') (h : c.doc = some d)
    (hmatch : csMatch conn d c.event = true) : fullDocument coll' c.event = some d := by
  cases c with
  | update doc fields => exact happ.changed.trans h
  | replace doc => exact h
  | insert doc | delete id => cases hmatch

def changed (s : State) (c : Change) (coll : List Document) : State :=
  { s with coll := coll, log := s.log.push c.event }

theorem brings_changed (conn : ServerConnection) (s : State) (c : Change) (coll : List Document)
    (ref : ℕ) (e : Event) :
    brings conn (changed s c coll) ref e = (fullDocument coll e).bind (told conn s.built ref e) :=
  brings_eq ..

-- The events that wait tell the same when those of the changed document do.
theorem brings_same (happ : Applied c s.coll coll)
    (hown : ∀ e : Event, (findDoc coll c.event.id).bind (told conn s.built ref e) =
      (findDoc s.coll c.event.id).bind (told conn s.built ref e)) (e : Event) :
    brings conn (changed s c coll) ref e = brings conn s ref e := by
  rw [brings_changed, brings_eq]
  rcases fullDocument_cases s.coll coll e with ⟨hnew, hold⟩ | hsame
  · rw [hnew, hold]
    by_cases hid : e.id = c.event.id
    · rw [hid]
      exact hown e
    · rw [happ.others _ hid]
  · rw [hsame]

theorem arriving_changed (s : State) (c : Change) (coll : List Document) :
    arriving (changed s c coll) = if s.watching then s.log.pending ++ [c.event] else [] := by
  rw [← ChangeLog.pending_push]
  rfl

-- What is to come after a change, and what its own event adds.
theorem eventual_change (s : State) (c : Change) (coll : List Document) (ref : ℕ)
    (hsame : ∀ e ∈ s.log.pending, brings conn (changed s c coll) ref e = brings conn s ref e) :
    eventual conn (changed s c coll) ref =
      (if s.watching then brings conn (changed s c coll) ref c.event else none).or
        (eventual conn s ref) := by
  rw [eventual, eventual, arriving_changed, arriving]
  split_ifs
  · rw [LastWrite.after_concat, LastWrite.after_congr hsame]
    rfl
  · rfl

-- A change does not touch what is to come of another document.
theorem eventual_other (h : Inv conn s) (happ : Applied c s.coll coll) (hd : d ∈ coll)
    (hid : docId d ≠ c.event.id) (hu : pushed s.built d = some u) :
    eventual conn (changed s c coll) u.point.objRef =
      eventual conn s u.point.objRef := by
  have hfind := (happ.others _ hid).symm.trans ((findDoc_eq_some happ.apart).mpr ⟨hd, rfl⟩)
  have hd₀ := ((findDoc_eq_some h.apart).mp hfind).1
  have htag := (pushed_eq_some.mp hu).1
  rw [h.built] at hu
  have hnew : ∀ e : Event, ∀ d' ∈ findDoc coll c.event.id,
      told conn s.built u.point.objRef e d' = none := by
    intro e d' hd'
    obtain ⟨hmem, hid'⟩ := (findDoc_eq_some happ.apart).mp hd'
    rw [h.built]
    exact told_eq_none hu (tag_ne happ.apart hd hmem (hid' ▸ hid) htag) e
  have hold : ∀ e : Event, ∀ d' ∈ findDoc s.coll c.event.id,
      told conn s.built u.point.objRef e d' = none := by
    intro e d' hd'
    obtain ⟨hmem, hid'⟩ := (findDoc_eq_some h.apart).mp hd'
    rw [h.built]
    exact told_eq_none hu (tag_ne h.apart hd₀ hmem (hid' ▸ hid) htag) e
  rw [eventual_change]
  · have hown : brings conn (changed s c coll) u.point.objRef c.event = none := by
      rw [brings_changed, Option.bind_eq_none_iff]
      intro d' hd'
      exact hnew _ d' (happ.changed.trans (fullDocument_event happ hd'))
    rw [hown, ite_self, Option.none_or]
  · intro e _
    apply brings_same happ
    intro e
    rw [Option.bind_eq_none_iff.mpr (hnew e), Option.bind_eq_none_iff.mpr (hold e)]

-- The changed document is what comes last, or it looks like the one before.
theorem current_changed (h : Inv conn s) (happ : Applied c s.coll coll) (hdoc : c.doc = some d)
    (hnoticed : Noticed conn s c d) (hu : pushed s.built d = some u) :
    eventual conn (changed s c coll) u.point.objRef =
      some (mapQuality u, valueOf u) := by
  have htells : tells u.point.objRef u = some (mapQuality u, valueOf u) := if_pos rfl
  have hown (hmatch : csMatch conn d c.event = true) :
      brings conn (changed s c coll) u.point.objRef c.event =
        some (mapQuality u, valueOf u) := by
    rw [brings_changed, fullDocument_of_match happ hdoc hmatch, Option.bind_some, told, if_pos hmatch,
      hu, Option.bind_some, htells]
  rcases hnoticed (by rw [hu]; rfl) with ⟨hwatching, hmatch⟩ | hlike
  · rw [eventual, arriving_changed, if_pos hwatching, LastWrite.after_concat, hown hmatch,
      Option.some_or]
  · obtain ⟨d₀, hd₀, hseen⟩ := (Option.any_eq_true _ _).mp hlike
    have hseen := of_decide_eq_true hseen
    obtain ⟨u₀, hu₀, hword⟩ : ∃ u₀, pushed s.built d₀ = some u₀ ∧ word u₀ = word u := by
      have := (Prod.mk.inj hseen).1
      rw [hu, Option.map_some] at this
      exact Option.map_eq_some_iff.mp this
    have hbefore : eventual conn s u.point.objRef = some (mapQuality u, valueOf u) := by
      have hcurrent := h.current d₀ ((findDoc_eq_some h.apart).mp hd₀).1 u₀ hu₀
      obtain ⟨href, hquality, hvalue⟩ := word_eq_iff.mp hword
      rw [← href, ← hquality, ← hvalue]
      exact hcurrent
    rw [eventual_change, hbefore]
    · have hlast : brings conn (changed s c coll) u.point.objRef
          c.event = none ∨ brings conn (changed s c coll)
            u.point.objRef c.event = some (mapQuality u, valueOf u) := by
        by_cases hmatch : csMatch conn d c.event = true
        · exact .inr (hown hmatch)
        · left
          rw [brings_changed, Option.bind_eq_none_iff]
          intro d' hd'
          obtain rfl := Option.some.inj (hdoc.symm.trans (fullDocument_event happ hd'))
          rw [told, if_neg hmatch]
      rcases hlast with hlast | hlast <;> rw [hlast] <;> cases s.watching <;> rfl
    · intro e _
      apply brings_same happ
      intro e
      rw [hd₀, happ.changed, hdoc, Option.bind_some, Option.bind_some]
      exact (told_of_seen hseen _ e).symm

theorem Inv.change (h : Inv conn s) (hok : Timely conn s (.change c))
    (hstep : step conn s (.change c) = some s') : Inv conn s' := by
  obtain ⟨coll, hcoll, rfl⟩ := Option.map_eq_some_iff.mp hstep
  have happ := apply_applied h.apart hcoll
  refine ⟨happ.apart, h.loading, h.built, h.tags, h.named, ?_⟩
  intro d hd u hu
  by_cases hid : docId d = c.event.id
  · have hdoc : c.doc = some d := by
      rw [← happ.changed, findDoc_eq_some happ.apart]
      exact ⟨hd, hid⟩
    exact current_changed h happ hdoc (hok d hdoc) hu
  · have hfind := (happ.others _ hid).symm.trans ((findDoc_eq_some happ.apart).mpr ⟨hd, rfl⟩)
    have hsame := eventual_other h happ hd hid hu
    exact hsame.trans (h.current d ((findDoc_eq_some h.apart).mp hfind).1 u hu)

end Change

section Select

-- The snapshot tells of every point what its document says.
theorem after_initialUpdates {coll : List Document} (hcoll : coll.Pairwise Apart) {d : Document}
    (hd : d ∈ coll) {u : PointUpdate}
    (hu : pushed (buildModel (selectPoints conn coll)) d = some u)
    (init : Option (Quality × MmsValue)) :
    LastWrite.after (tells u.point.objRef) init
        (initialUpdates (buildModel (selectPoints conn coll)) (selectPoints conn coll)) =
      some (mapQuality u, valueOf u) := by
  have hsame : ∀ p ∈ selectPoints conn coll, p.tag = (pointFromDoc d).tag → p = pointFromDoc d := by
    intro p hp htag
    obtain ⟨d', hd', rfl, hne⟩ := mem_selectPoints hp
    rw [tag_pointFromDoc, tag_pointFromDoc] at htag
    rw [tag_pointFromDoc] at hne
    have hid := eq_of_tag hcoll hd' hd htag hne
    have hfind := (findDoc_eq_some hcoll).mpr ⟨hd', hid⟩
    rw [(findDoc_eq_some hcoll).mpr ⟨hd, rfl⟩] at hfind
    rw [Option.some.inj hfind]
  obtain ⟨hbyTag, -, -⟩ := updateOf_eq_some (pushed_eq_some.mp hu).2
  obtain ⟨hmem, htag⟩ := byTag_eq_some hbyTag
  obtain ⟨p, hp, hptag, -⟩ := mem_buildModel hmem
  obtain rfl := hsame p hp (hptag.symm.trans htag)
  apply LastWrite.after_eq_of_all
  · intro u' hu' w hw
    obtain ⟨p', hp', hupdate⟩ := List.mem_filterMap.mp hu'
    unfold tells at hw
    split_ifs at hw with href
    obtain rfl := Option.some.inj hw
    -- the update of another point is at another data object
    obtain ⟨hmem', htag'⟩ := byTag_eq_some (updateOf_eq_some hupdate).1
    rw [eq_of_objRef hmem' hmem href] at htag'
    obtain rfl := hsame p' hp' (htag'.symm.trans htag)
    rw [Option.some.inj (hupdate.symm.trans (pushed_eq_some.mp hu).2)]
  · refine ⟨u, List.mem_filterMap.mpr ⟨_, hp, (pushed_eq_some.mp hu).2⟩, ?_⟩
    rw [tells, if_pos rfl]
    exact Option.some_ne_none _

theorem Inv.selectPoints (h : Inv conn s) (hstep : step conn s .selectPoints = some s') :
    Inv conn s' := by
  simp only [step] at hstep
  cases hstartup : s.startup with
  | loading =>
      simp only [hstartup] at hstep
      obtain rfl := Option.some.inj hstep
      obtain ⟨-, hwatching, hqueue, hupd⟩ := h.loading hstartup
      refine ⟨h.apart, nofun, rfl, tags_selectPoints conn h.apart, ?_, ?_⟩
      · intro p hp
        obtain ⟨d, -, -, hne⟩ := mem_selectPoints hp
        exact hne
      · intro d hd u hu
        simp only [eventual, arriving, waiting, hwatching, hqueue, hupd, Option.toList_none,
          List.append_nil, reduceCtorEq, if_false, Bool.false_eq_true]
        exact after_initialUpdates h.apart hd hu _
  | binding | bound | serving => simp [hstartup] at hstep

end Select

section Run

theorem Inv.step (h : Inv conn s) {a : Action} (hok : Timely conn s a)
    (hstep : step conn s a = some s') : Inv conn s' := by
  cases a with
  | change c => exact h.change hok hstep
  | selectPoints => exact h.selectPoints hstep
  | watch ok => exact h.watch hstep
  | next decoded => exact h.next hok hstep
  | fail => exact h.fail hok hstep
  | bind ok => exact h.bind hstep
  | applyInitialValues now => exact h.applyInitialValues hstep
  | dequeue => exact h.dequeue hstep
  | update now => exact h.update hok hstep

theorem inv_start {coll : List Document} (hcoll : coll.Pairwise Apart) : Inv conn (start coll) where
  apart := hcoll
  loading _ := ⟨rfl, rfl, rfl, rfl⟩
  built := rfl
  tags := List.nodup_nil
  named _ hp := nomatch hp
  current d _ u hu := by
    have := (updateOf_eq_some (pushed_eq_some.mp hu).2).1
    simp [start, byTag] at this

theorem timely_converged {coll : List Document} (hcoll : coll.Pairwise Apart) {as : List Action}
    (hok : Run.Allowed (Server.step conn) (Timely conn) (start coll) as)
    (hrun : Run.run (Server.step conn) (start coll) as = some s) (hup : CaughtUp s) : Converged s :=
  (Run.invariant (fun _ _ _ h hok' hstep => Inv.step h hok' hstep) (inv_start hcoll) hok
    hrun).converged hup

-- A digital point that is set, and one that is not.
def breaker (value : ℚ) : Document :=
  [("_id", .number (.fin 1)), ("tag", .string "XCBR1"), ("type", .string "digital"),
    ("origin", .string "supervised"), ("group1", .string "KAW2"), ("value", .number (.fin value)),
    ("invalid", .bool false)]

def station : ServerConnection where
  protocolConnectionNumber := 7
  topics := ["KAW2"]
  commandsEnabled := false

-- A change after the initial values, which a bind that failed at first held up.
def orderlyRun : List Action :=
  [.selectPoints, .bind false, .watch true, .bind true, .applyInitialValues 0,
    .change (.update (breaker 1) ["value"]), .next true, .dequeue, .update 0]

theorem orderly_converged : ∃ s, Run.run (Server.step station) (start [breaker 0]) orderlyRun =
    some s ∧ CaughtUp s ∧ Converged s := by
  have hrun : (Run.run (Server.step station) (start [breaker 0]) orderlyRun).any
      (fun s => CaughtUp s) = true := by decide +kernel
  obtain ⟨s, hs, hup⟩ := (Option.any_eq_true _ _).mp hrun
  have hup := of_decide_eq_true hup
  exact ⟨s, hs, hup, timely_converged (List.pairwise_singleton ..) (by decide +kernel) hs hup⟩

-- The update loop is ahead of the initial values, which are older than its update.
theorem snapshot_served : ∃ s, Run.run (Server.step station) (start [breaker 0])
    [.selectPoints, .watch true, .change (.update (breaker 1) ["value"]), .next true, .bind true,
      .dequeue, .update 0, .applyInitialValues 0] = some s ∧
    CaughtUp s ∧ ¬Converged s := by
  have hrun : (Run.run (Server.step station) (start [breaker 0])
      [.selectPoints, .watch true, .change (.update (breaker 1) ["value"]), .next true, .bind true,
        .dequeue, .update 0, .applyInitialValues 0]).any
      (fun s => CaughtUp s ∧ ¬Converged s) = true := by decide +kernel
  obtain ⟨s, hs, hmissed⟩ := (Option.any_eq_true _ _).mp hrun
  exact ⟨s, hs, of_decide_eq_true hmissed⟩

end Run

end JsonScada.Iec61850.Server
