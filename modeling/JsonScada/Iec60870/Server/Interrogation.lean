import JsonScada.Iec60870.Server.Reports
import JsonScada.Library.Selection

namespace JsonScada.Iec60870.Server

open JsonScada.Library
open JsonScada.Processor (Document Value)

section Interrogation

variable (env : Env) (conn : Conn) (q : ℤ)

-- The query. Each condition on the destinations may be met by another one of them, and all of
-- them are to be without the group that the last one excludes.
def interrogationFilter (d : Document) : Bool :=
  let path := "protocolDestinations"
  let group (x : ℤ) := dottedMatches d path "protocolDestinationGroup" (equals (.fin x))
  let isCommand : Value → Bool := fun v =>
    match v with
    | .string s => s = "command"
    | _ => false
  dottedMatches d path "protocolDestinationConnectionNumber"
      (equals conn.cfg.protocolConnectionNumber) &&
    !fieldMatches isCommand (d.lookup "origin") &&
    if q = 20 then !group (-1) else group q || group (q - 20)

-- The destination that a point is sorted by: the last one of the connection, or the first one.
def dstFor (p : RtDataPoint) : Option ProtocolDestination :=
  (p.protocolDestinations.reverse.find? (isFor env.pl conn.cfg)).or p.protocolDestinations.head?

def byASDU (p p' : RtDataPoint) : Bool :=
  match dstFor env conn p, dstFor env conn p' with
  | some d, some d' => d.asdu ≤ d'.asdu
  | _, _ => true

-- An object that is sent, with the point it is made of.
structure Answer where
  point : RtDataPoint
  ca : ℤ
  obj : InfoObject

-- The object of a point, by its first destination for the connection.
def answer (p : RtDataPoint) : Option Answer := do
  let dst ← destinationFor env.pl conn.cfg p
  let obj ← interrogationObj env.pl env.now p dst
  some { point := p, ca := dst.commonAddress.toNat, obj := obj }

-- Objects for one ASDU: of one type and one common address, 30 at most.
structure Batch where
  typeId : ℕ
  ca : ℤ
  answers : List Answer

def Batch.takes (b : Batch) (a : Answer) : Bool :=
  b.answers.isEmpty || (a.obj.typeId = b.typeId && a.ca = b.ca && b.answers.length < 30)

def flush (sent : List Batch) (b : Batch) : List Batch :=
  if b.answers.isEmpty then sent else sent ++ [b]

def collect : List Batch → Batch → List Answer → List Batch
  | sent, b, [] => flush sent b
  | sent, b, a :: rest =>
      let (sent, answers) := if b.takes a then (sent, b.answers) else (flush sent b, [])
      collect sent { typeId := a.obj.typeId, ca := a.ca, answers := answers ++ [a] } rest

-- `asdu.CommonAddr(lastCa)`
def sentAddress (ca : ℤ) : UInt16 := UInt16.ofNat (ca % 2 ^ 16).toNat

inductive Reply where
  | activationCon (isNegative : Bool)
  | data (ca : UInt16) (answers : List Answer)
  | activationTerm

-- The points that the query finds, none when it or their decoding fails.
def interrogated : Option (List RtDataPoint) := do
  let docs ← env.realtimeData
  (docs.filter (interrogationFilter conn q)).mapM (decodePoint env.pl)

def interrogation : List Reply :=
  match interrogated env conn q with
  | none => [.activationCon true]
  | some points =>
      let answers := (points.mergeSort (byASDU env conn)).filterMap (answer env conn)
      .activationCon false ::
        ((collect [] { typeId := 0, ca := -1, answers := [] } answers).map fun b =>
          .data (sentAddress b.ca) b.answers) ++ [.activationTerm]

end Interrogation

section Configured

variable (env : Env) (conn : Conn) (q : ℤ)

-- A destination for the connection that belongs to the interrogated group: for the station, any
-- but the excluded one, and for a group, the one with its number or with its qualifier.
def IsConfigured (dst : ProtocolDestination) : Prop :=
  isFor env.pl conn.cfg dst = true ∧
    if q = 20 then Double.eq dst.group (.fin (-1)) = false
    else Double.eq dst.group (.fin q) = true ∨ Double.eq dst.group (.fin (q - 20)) = true

instance (dst : ProtocolDestination) : Decidable (IsConfigured env conn q dst) :=
  inferInstanceAs (Decidable (_ ∧ _))

def HasConfigured (p : RtDataPoint) : Prop :=
  ∃ dst ∈ p.protocolDestinations, IsConfigured env conn q dst

instance (p : RtDataPoint) : Decidable (HasConfigured env conn q p) :=
  inferInstanceAs (Decidable (∃ dst ∈ p.protocolDestinations, _))

-- Two destinations have the same addresses, as far as they are sent.
def SameAddresses (ca : UInt16) (ioa : ℤ) (dst : ProtocolDestination) : Prop :=
  ca.toNat = dst.commonAddress.toNat ∧ ioa = dst.objectAddress.toNat

instance (ca : UInt16) (ioa : ℤ) (dst : ProtocolDestination) :
    Decidable (SameAddresses ca ioa dst) :=
  inferInstanceAs (Decidable (_ ∧ _))

-- The objects of the replies, with the common addresses they are sent with.
def sentAnswers (replies : List Reply) : List (UInt16 × Answer) :=
  replies.flatMap fun r =>
    match r with
    | .data ca answers => answers.map fun a => (ca, a)
    | _ => []

-- The interrogation is confirmed and answered with the points that have a configured
-- destination, each of them once and with the addresses of such a destination.
def AnsweredExactly (docs : List Document) : Prop :=
  let replies := interrogation { env with realtimeData := some docs } conn q
  (∃ rest, replies = .activationCon false :: rest) ∧
    ((sentAnswers replies).map fun a => a.2.point).Perm
      ((docs.filterMap (decodePoint env.pl)).filter fun p => HasConfigured env conn q p) ∧
    ∀ a ∈ sentAnswers replies, ∃ dst ∈ a.2.point.protocolDestinations,
      IsConfigured env conn q dst ∧ SameAddresses a.1 a.2.obj.ioa dst

-- A point is found and answered by what it is configured with, or neither is it configured nor
-- answered.
def Settled (d : Document) (p : RtDataPoint) : Prop :=
  if HasConfigured env conn q p then
    interrogationFilter conn q d = true ∧ ∃ dst, destinationFor env.pl conn.cfg p = some dst ∧
      (destASDUToBase dst.asdu.toNat).isSome = true ∧ ∃ e ∈ p.protocolDestinations,
        IsConfigured env conn q e ∧
          SameAddresses (sentAddress dst.commonAddress.toNat) dst.objectAddress.toNat e
  else interrogationFilter conn q d = false ∨ ∀ dst,
    destinationFor env.pl conn.cfg p = some dst → destASDUToBase dst.asdu.toNat = none

end Configured

section Batches

variable {sent : List Batch} {b : Batch} {answers : List Answer}

def Batch.Uniform (b : Batch) : Prop := ∀ a ∈ b.answers, a.ca = b.ca

def answersOf (batches : List Batch) : List Answer := batches.flatMap fun b => b.answers

theorem flush_spec (hsent : ∀ b ∈ sent, b.Uniform) (hb : b.Uniform) :
    answersOf (flush sent b) = answersOf sent ++ b.answers ∧ ∀ b' ∈ flush sent b, b'.Uniform := by
  unfold flush
  cases hempty : b.answers.isEmpty with
  | true =>
      rw [List.isEmpty_iff.mp hempty, List.append_nil, if_pos rfl]
      exact ⟨rfl, hsent⟩
  | false =>
      rw [if_neg Bool.false_ne_true]
      refine ⟨by simp [answersOf], fun b' hb' => ?_⟩
      rcases List.mem_append.mp hb' with hb' | hb'
      · exact hsent b' hb'
      · exact List.mem_singleton.mp hb' ▸ hb

variable (answers) in
-- The batches hold the answers in their order, each under its own common address.
theorem collect_spec (hsent : ∀ b ∈ sent, b.Uniform) (hb : b.Uniform) :
    answersOf (collect sent b answers) = answersOf sent ++ b.answers ++ answers ∧
      ∀ b' ∈ collect sent b answers, b'.Uniform := by
  induction answers generalizing sent b with
  | nil =>
      obtain ⟨hflush, huniform⟩ := flush_spec hsent hb
      rw [collect, hflush, List.append_nil]
      exact ⟨rfl, huniform⟩
  | cons a rest ih =>
      cases htakes : b.takes a with
      | true =>
          have hnext : Batch.Uniform
              { typeId := a.obj.typeId, ca := a.ca, answers := b.answers ++ [a] } := by
            intro a' ha'
            rcases List.mem_append.mp ha' with ha' | ha'
            · rw [Batch.takes, Bool.or_eq_true] at htakes
              rcases htakes with hempty | hsame
              · rw [List.isEmpty_iff.mp hempty] at ha'
                cases ha'
              · simp only [Bool.and_eq_true, decide_eq_true_eq] at hsame
                exact (hb a' ha').trans hsame.1.2.symm
            · rw [List.mem_singleton.mp ha']
          obtain ⟨hanswers, huniform⟩ := ih hsent hnext
          simp only [collect, htakes, if_true]
          refine ⟨?_, huniform⟩
          rw [hanswers]
          simp
      | false =>
          have hnext : Batch.Uniform { typeId := a.obj.typeId, ca := a.ca, answers := [] ++ [a] } :=
            fun a' ha' => by rw [List.mem_singleton.mp ha']
          obtain ⟨hflush, hflushed⟩ := flush_spec hsent hb
          obtain ⟨hanswers, huniform⟩ := ih hflushed hnext
          simp only [collect, htakes, Bool.false_eq_true, if_false]
          refine ⟨?_, huniform⟩
          rw [hanswers, hflush]
          simp

theorem uniform_nil (typeId : ℕ) (ca : ℤ) :
    Batch.Uniform { typeId := typeId, ca := ca, answers := [] } :=
  fun _ ha => absurd ha List.not_mem_nil

-- What is sent for a list of answers.
theorem sentAnswers_collect (answers : List Answer) :
    sentAnswers (.activationCon false ::
        ((collect [] { typeId := 0, ca := -1, answers := [] } answers).map fun b =>
          .data (sentAddress b.ca) b.answers) ++ [.activationTerm]) =
      answers.map fun a => (sentAddress a.ca, a) := by
  obtain ⟨hanswers, huniform⟩ :=
    collect_spec answers (fun _ hb => absurd hb List.not_mem_nil) (uniform_nil 0 (-1))
  have hsent : ∀ batches : List Batch, (∀ b ∈ batches, b.Uniform) →
      (batches.flatMap fun b => b.answers.map fun a => (sentAddress b.ca, a)) =
        (answersOf batches).map fun a => (sentAddress a.ca, a) := by
    intro batches hall
    induction batches with
    | nil => rfl
    | cons b batches ih =>
        have hb := hall b List.mem_cons_self
        simp only [answersOf, List.flatMap_cons, List.map_append]
        rw [ih fun b' hb' => hall b' (List.mem_cons_of_mem _ hb')]
        congr 1
        exact List.map_congr_left fun a ha => by rw [hb a ha]
  simp only [sentAnswers, List.cons_append, List.flatMap_cons, List.flatMap_append, List.flatMap_map,
    List.nil_append, List.flatMap_nil, List.append_nil]
  rw [hsent _ huniform, hanswers]
  rfl

end Batches

section Answers

variable {env : Env} {conn : Conn} {q : ℤ} {d : Document} {p : RtDataPoint}

theorem interrogationObj_spec (pl : Platform) (now : ℤ) (p : RtDataPoint)
    (dst : ProtocolDestination) :
    ((interrogationObj pl now p dst).isSome = true ↔
        (destASDUToBase dst.asdu.toNat).isSome = true) ∧
      ∀ o, interrogationObj pl now p dst = some o → o.ioa = dst.objectAddress.toNat := by
  cases hbase : destASDUToBase dst.asdu.toNat with
  | none =>
      have hnone : interrogationObj pl now p dst = none := by simp [interrogationObj, hbase]
      rw [hnone]
      exact ⟨Iff.rfl, fun _ ho => by cases ho⟩
  | some base =>
      have hcontent := interrogation_content pl now p dst hbase
      obtain ⟨info, hinfo⟩ := buildInfo_isSome pl hbase p.value false 0
        { invalid := p.invalid, substituted := p.substituted, overflow := p.overflow }
        (defaultOne dst.kconv1) dst.kconv2 p.transient
      rw [hinfo, Option.map_some] at hcontent
      obtain ⟨o, ho, hioa⟩ := Option.map_eq_some_iff.mp hcontent
      rw [ho]
      refine ⟨Iff.rfl, fun o' ho' => ?_⟩
      obtain rfl := Option.some.inj ho'
      exact congrArg Content.ioa hioa

theorem answer_eq_some_iff {a : Answer} :
    answer env conn p = some a ↔ ∃ dst obj, destinationFor env.pl conn.cfg p = some dst ∧
      interrogationObj env.pl env.now p dst = some obj ∧
      a = { point := p, ca := dst.commonAddress.toNat, obj := obj } := by
  unfold answer
  simp only [Option.bind_eq_bind, Option.bind_eq_some_iff, Option.some.injEq]
  constructor
  · rintro ⟨dst, hdst, obj, hobj, rfl⟩
    exact ⟨dst, obj, hdst, hobj, rfl⟩
  · rintro ⟨dst, obj, hdst, hobj, rfl⟩
    exact ⟨dst, hdst, obj, hobj, rfl⟩

theorem answer_isSome_iff :
    (answer env conn p).isSome = true ↔ ∃ dst, destinationFor env.pl conn.cfg p = some dst ∧
      (destASDUToBase dst.asdu.toNat).isSome = true := by
  rw [Option.isSome_iff_exists]
  constructor
  · rintro ⟨a, ha⟩
    obtain ⟨dst, obj, hdst, hobj, -⟩ := answer_eq_some_iff.mp ha
    exact ⟨dst, hdst, (interrogationObj_spec env.pl env.now p dst).1.mp (by rw [hobj]; rfl)⟩
  · rintro ⟨dst, hdst, hbase⟩
    obtain ⟨obj, hobj⟩ := Option.isSome_iff_exists.mp
      ((interrogationObj_spec env.pl env.now p dst).1.mpr hbase)
    exact ⟨_, answer_eq_some_iff.mpr ⟨dst, obj, hdst, hobj, rfl⟩⟩

-- The object has the addresses of a configured destination of its point.
def RightAddresses (env : Env) (conn : Conn) (q : ℤ) (a : Answer) : Prop :=
  ∃ dst ∈ a.point.protocolDestinations,
    IsConfigured env conn q dst ∧ SameAddresses (sentAddress a.ca) a.obj.ioa dst

theorem settled_iff :
    Settled env conn q d p ↔
      (HasConfigured env conn q p ↔
        interrogationFilter conn q d = true ∧ (answer env conn p).isSome = true) ∧
      (interrogationFilter conn q d = true →
        ∀ a, answer env conn p = some a → RightAddresses env conn q a) := by
  unfold Settled
  rw [answer_isSome_iff]
  by_cases hconf : HasConfigured env conn q p
  · simp only [hconf, if_true, true_iff]
    constructor
    · rintro ⟨hfound, dst, hdst, hbase, e, he, hconfigured, hsame⟩
      refine ⟨⟨hfound, dst, hdst, hbase⟩, fun _ a ha => ?_⟩
      obtain ⟨dst', obj, hdst', hobj, rfl⟩ := answer_eq_some_iff.mp ha
      obtain rfl := Option.some.inj (hdst.symm.trans hdst')
      refine ⟨e, he, hconfigured, ?_⟩
      rw [(interrogationObj_spec env.pl env.now p dst).2 obj hobj]
      exact hsame
    · rintro ⟨⟨hfound, dst, hdst, hbase⟩, hright⟩
      obtain ⟨obj, hobj⟩ := Option.isSome_iff_exists.mp
        ((interrogationObj_spec env.pl env.now p dst).1.mpr hbase)
      obtain ⟨e, he, hconfigured, hsame⟩ :=
        hright hfound _ (answer_eq_some_iff.mpr ⟨dst, obj, hdst, hobj, rfl⟩)
      rw [(interrogationObj_spec env.pl env.now p dst).2 obj hobj] at hsame
      exact ⟨hfound, dst, hdst, hbase, e, he, hconfigured, hsame⟩
  · simp only [hconf, if_false, false_iff, not_and, not_exists]
    constructor
    · intro h
      refine ⟨fun hfound dst hdst hbase => ?_, fun hfound a ha => ?_⟩
      · rcases h with hnot | hnone
        · rw [hfound] at hnot
          cases hnot
        · rw [hnone dst hdst] at hbase
          cases hbase
      · obtain ⟨dst, obj, hdst, hobj, -⟩ := answer_eq_some_iff.mp ha
        rcases h with hnot | hnone
        · rw [hfound] at hnot
          cases hnot
        · have hbase := (interrogationObj_spec env.pl env.now p dst).1.mp (by rw [hobj]; rfl)
          rw [hnone dst hdst] at hbase
          cases hbase
    · rintro ⟨hunanswered, -⟩
      by_cases hfound : interrogationFilter conn q d = true
      · exact .inr fun dst hdst => Option.not_isSome_iff_eq_none.mp (hunanswered hfound dst hdst)
      · exact .inl (Bool.not_eq_true _ ▸ hfound)

theorem map_point_answers (points : List RtDataPoint) :
    (points.filterMap (answer env conn)).map Answer.point =
      points.filter fun p => (answer env conn p).isSome := by
  induction points with
  | nil => rfl
  | cons p points ih =>
      cases ha : answer env conn p with
      | none =>
          rw [List.filterMap_cons_none ha, List.filter_cons_of_neg (by simp [ha]), ih]
      | some a =>
          obtain ⟨dst, obj, -, -, rfl⟩ := answer_eq_some_iff.mp ha
          rw [List.filterMap_cons_some ha, List.filter_cons_of_pos (by simp [ha]), List.map_cons, ih]

end Answers

section Theorems

variable (env : Env) (conn : Conn) (q : ℤ)

-- An interrogation is answered rightly exactly when its query finds documents that can be
-- decoded, and with them the configured points, whose first destination for the connection is
-- one of a type that is answered and has the addresses of a configured one.
theorem answered_exactly_iff (docs : List Document) :
    AnsweredExactly env conn q docs ↔
      (∀ d ∈ docs, interrogationFilter conn q d = true → (decodePoint env.pl d).isSome = true) ∧
        ∀ d ∈ docs, ∀ p, decodePoint env.pl d = some p → Settled env conn q d p := by
  have hreplies : interrogation { env with realtimeData := some docs } conn q =
      match (docs.filter (interrogationFilter conn q)).mapM (decodePoint env.pl) with
      | none => [.activationCon true]
      | some points =>
          .activationCon false ::
            ((collect [] { typeId := 0, ca := -1, answers := [] }
              ((points.mergeSort (byASDU env conn)).filterMap (answer env conn))).map fun b =>
                .data (sentAddress b.ca) b.answers) ++ [.activationTerm] := rfl
  unfold AnsweredExactly
  simp only [hreplies]
  cases hpoints : (docs.filter (interrogationFilter conn q)).mapM (decodePoint env.pl) with
  | none =>
      refine ⟨fun h => ?_, fun h => ?_⟩
      · obtain ⟨⟨rest, hrest⟩, -⟩ := h
        cases hrest
      · have hall : ∀ d ∈ docs.filter (interrogationFilter conn q),
            (decodePoint env.pl d).isSome = true :=
          fun d hd => h.1 d (List.mem_filter.mp hd).1 (List.mem_filter.mp hd).2
        rw [Selection.mapM_eq_some_iff.mpr ⟨hall, rfl⟩] at hpoints
        cases hpoints
  | some points =>
      obtain ⟨hall, rfl⟩ := Selection.mapM_eq_some_iff.mp hpoints
      have hdecodes : ∀ d ∈ docs, interrogationFilter conn q d = true →
          (decodePoint env.pl d).isSome = true :=
        fun d hd hfound => hall d (List.mem_filter.mpr ⟨hd, hfound⟩)
      simp only [sentAnswers_collect, List.map_map, Function.comp_def]
      have hsorted := List.mergeSort_perm
        ((docs.filter (interrogationFilter conn q)).filterMap (decodePoint env.pl)) (byASDU env conn)
      rw [show (fun a : Answer => a.point) = Answer.point from rfl, map_point_answers,
        (hsorted.filter _).congr_left, Selection.perm_iff]
      simp only [decide_eq_true_eq]
      refine ⟨?_, ?_⟩
      · rintro ⟨-, hperm, hright⟩
        refine ⟨hdecodes, fun d hd p hp => settled_iff.mpr ⟨hperm d hd p hp, fun hfound a ha => ?_⟩⟩
        refine hright (sentAddress a.ca, a) (List.mem_map.mpr ⟨a, ?_, rfl⟩)
        refine List.mem_filterMap.mpr ⟨p, hsorted.mem_iff.mpr ?_, ha⟩
        exact List.mem_filterMap.mpr ⟨d, List.mem_filter.mpr ⟨hd, hfound⟩, hp⟩
      · rintro ⟨-, hsettled⟩
        refine ⟨⟨_, rfl⟩, fun d hd p hp => (settled_iff.mp (hsettled d hd p hp)).1, ?_⟩
        intro sent hsent
        obtain ⟨a, ha, rfl⟩ := List.mem_map.mp hsent
        obtain ⟨p, hp, hanswer⟩ := List.mem_filterMap.mp ha
        obtain ⟨d, hd, hdecode⟩ := List.mem_filterMap.mp (hsorted.mem_iff.mp hp)
        obtain ⟨hd, hfound⟩ := List.mem_filter.mp hd
        exact (settled_iff.mp (hsettled d hd p hdecode)).2 hfound a hanswer

-- A measured value that connection 1 has in no group, and connection 2 in the group that is
-- left out.
def measured : Document :=
  [("_id", .number (.fin 6001)), ("tag", .string "VOLTAGE"), ("type", .string "analog"),
    ("origin", .string "supervised"), ("value", .number (.fin 13)),
    ("protocolDestinations", .array
      [.document
          [("protocolDestinationConnectionNumber", .number (.fin 1)),
            ("protocolDestinationCommonAddress", .number (.fin 1)),
            ("protocolDestinationObjectAddress", .number (.fin 300)),
            ("protocolDestinationASDU", .number (.fin 13)),
            ("protocolDestinationGroup", .number (.fin 0))],
        .document
          [("protocolDestinationConnectionNumber", .number (.fin 2)),
            ("protocolDestinationCommonAddress", .number (.fin 1)),
            ("protocolDestinationObjectAddress", .number (.fin 400)),
            ("protocolDestinationASDU", .number (.fin 13)),
            ("protocolDestinationGroup", .number (.fin (-1)))]])]

-- The station interrogation of the first connection leaves it out too.
theorem excluded_elsewhere : ¬AnsweredExactly (environment false) (connection 1) 20 [measured] := by
  rintro ⟨-, hperm, -⟩
  have hnone : (sentAnswers (interrogation { environment false with realtimeData := some [measured] }
      (connection 1) 20)).length = 0 := by decide +kernel
  have hone : (([measured].filterMap (decodePoint (environment false).pl)).filter fun p =>
      HasConfigured (environment false) (connection 1) 20 p).length = 1 := by decide
  have hlength := hperm.length_eq
  rw [List.length_map, hnone, hone] at hlength
  cases hlength

end Theorems

end JsonScada.Iec60870.Server
