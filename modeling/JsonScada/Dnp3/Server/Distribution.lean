import JsonScada.Dnp3.Server

namespace JsonScada.Dnp3.Server

open JsonScada.Library

section Loop

variable {conn : Connection} {p : AutoCreatePass}

-- What is done to the tags for one candidate.
def assign (conn : Connection) (p : AutoCreatePass) (doc : Tag) (address : ℤ) (tags : List Tag) :
    List Tag :=
  createOutputStatus conn p doc address
    (pushDestination doc.id (newDestination conn p address) tags)

theorem distribute_skip {doc : Tag} (docs : List Tag) (last : ℤ) (tags : List Tag)
    (h : conn.matchesTopic doc.group1 = false) :
    distribute conn p (doc :: docs) last tags = distribute conn p docs last tags := by
  simp [distribute, h]

theorem distribute_full {doc : Tag} (docs : List Tag) {last : ℤ} (tags : List Tag)
    (h : conn.matchesTopic doc.group1 = true) (hfull : maxObjectAddress < last + 1) :
    distribute conn p (doc :: docs) last tags = tags := by
  simp [distribute, h, hfull]

theorem distribute_assign {doc : Tag} (docs : List Tag) {last : ℤ} (tags : List Tag)
    (h : conn.matchesTopic doc.group1 = true) (hroom : ¬maxObjectAddress < last + 1) :
    distribute conn p (doc :: docs) last tags =
      distribute conn p docs (last + 1) (assign conn p doc (last + 1) tags) := by
  simp [distribute, h, hroom, assign]

-- What every assignment keeps holds after the loop.
theorem distribute_induct (P : ℤ → List Tag → Prop) {docs : List Tag}
    (hstep : ∀ doc ∈ docs, ∀ last tags, last + 1 ≤ maxObjectAddress → P last tags →
      P (last + 1) (assign conn p doc (last + 1) tags))
    {last : ℤ} {tags : List Tag} (h : P last tags) :
    ∃ last', P last' (distribute conn p docs last tags) := by
  induction docs generalizing last tags with
  | nil => exact ⟨last, h⟩
  | cons doc docs ih =>
      have hrest : ∀ doc ∈ docs, ∀ last tags, last + 1 ≤ maxObjectAddress → P last tags →
          P (last + 1) (assign conn p doc (last + 1) tags) :=
        fun doc' hdoc' => hstep doc' (List.mem_cons_of_mem _ hdoc')
      cases htopic : conn.matchesTopic doc.group1 with
      | false =>
          rw [distribute_skip docs last tags htopic]
          exact ih hrest h
      | true =>
          by_cases hfull : maxObjectAddress < last + 1
          · rw [distribute_full docs tags htopic hfull]
            exact ⟨last, h⟩
          · rw [distribute_assign docs tags htopic hfull]
            exact ih hrest (hstep doc List.mem_cons_self last tags (not_lt.mp hfull) h)

end Loop

section Passes

variable {conn : Connection} {p : AutoCreatePass}

-- The passes for supervised tags give no status, those for commands the status of their group.
inductive PassKind (p : AutoCreatePass) : Prop where
  | supervised (origin : p.origin = "supervised") (status : p.status = none)
    (group : p.group = groupBinaryInput ∨ p.group = groupAnalogInput)
  | crob (origin : p.origin = "command") (type : p.tagType = "digital")
    (group : p.group = groupCROBCommand) (status : p.status = some (groupBinaryOutputStatus, 2))
  | analogOutput (origin : p.origin = "command") (type : p.tagType = "analog")
    (group : p.group = groupAnalogOutputBlock)
    (status : p.status = some (groupAnalogOutputStatus, 3))

theorem passKind (hp : p ∈ autoCreatePasses conn) : PassKind p := by
  unfold autoCreatePasses at hp
  rcases List.mem_append.mp hp with hp | hp
  · split_ifs at hp
    · simp only [List.mem_cons, List.not_mem_nil, or_false] at hp
      rcases hp with rfl | rfl
      · exact .crob rfl rfl rfl rfl
      · exact .analogOutput rfl rfl rfl rfl
    · cases hp
  · simp only [List.mem_cons, List.not_mem_nil, or_false] at hp
    rcases hp with rfl | rfl
    · exact .supervised rfl rfl (.inl rfl)
    · exact .supervised rfl rfl (.inr rfl)

-- The new point of a tag of the pass.
theorem pointOf_new (hkind : PassKind p) {doc : Tag} (htype : doc.type = p.tagType)
    (horigin : doc.origin = p.origin) (address : ℤ) :
    pointOf doc (newDestination conn p address) =
      some (if p.origin = "supervised" then .data (familyOf p.group) address
        else .control p.group address) := by
  unfold pointOf newDestination
  cases hkind with
  | supervised ho hs hg => simp [horigin, ho]
  | crob ho ht hg hs => simp [horigin, htype, ho, ht, hg]
  | analogOutput ho ht hg hs => simp [horigin, htype, ho, ht, hg]

-- A status is an entry at the group of the status, at the address of the command.
theorem outputStatus_eq {status : ℤ × ℤ} {cmd : Tag} {address : ℤ} {tags : List Tag}
    {d : Destination} (h : outputStatus conn status cmd address tags = some d) :
    d.connectionNumber = conn.protocolConnectionNumber ∧ d.commonAddress = status.1 ∧
      d.objectAddress = address ∧ ∃ twin, findTag tags cmd.supervisedOfCommand = some twin := by
  cases htwin : findTag tags cmd.supervisedOfCommand with
  | none => simp [outputStatus, htwin] at h
  | some twin =>
      simp only [outputStatus, htwin] at h
      split_ifs at h
      obtain rfl := Option.some.inj h
      exact ⟨rfl, rfl, rfl, twin, rfl⟩

theorem createOutputStatus_cases (conn : Connection) (p : AutoCreatePass) (cmd : Tag) (address : ℤ)
    (tags : List Tag) :
    createOutputStatus conn p cmd address tags = tags ∨
      ∃ status d twin, p.status = some status ∧
        outputStatus conn status cmd address tags = some d ∧
        findTag tags cmd.supervisedOfCommand = some twin ∧
        createOutputStatus conn p cmd address tags =
          pushDestination cmd.supervisedOfCommand d tags := by
  unfold createOutputStatus
  cases hstatus : p.status with
  | none => exact .inl rfl
  | some status =>
      rw [Option.bind_some]
      cases hd : outputStatus conn status cmd address tags with
      | none => exact .inl rfl
      | some d =>
          obtain ⟨-, -, -, twin, htwin⟩ := outputStatus_eq hd
          exact .inr ⟨status, d, twin, rfl, hd, htwin, rfl⟩

end Passes

section Extension

variable {conn : Connection} {p : AutoCreatePass} {tags tags' : List Tag} {doc : Tag}

-- The tag that a candidate stands for, with what it has been given since.
theorem findTag_extends (hids : (tags.map Tag.id).Nodup) (hext : Extends tags tags')
    (hdoc : doc ∈ tags) :
    ∃ t, findTag tags' doc.id = some t ∧ doc.bare = t.bare ∧
      doc.destinations ⊆ t.destinations := by
  obtain ⟨t, ht, hbare, hsub⟩ := hext.mem hdoc
  have hid : t.id = doc.id := (congrArg Tag.id hbare).symm
  refine ⟨t, ?_, hbare, hsub⟩
  cases hfind : findTag tags' doc.id with
  | none =>
      have hnone := List.find?_eq_none.mp hfind t ht
      simp [hid] at hnone
  | some t' =>
      have hid' : t'.id = doc.id := by simpa using List.find?_some hfind
      rw [hext.ids] at hids
      exact congrArg some (List.inj_on_of_nodup_map hids (List.mem_of_find?_eq_some hfind) ht
        (hid'.trans hid.symm))

theorem extends_createOutputStatus (conn : Connection) (p : AutoCreatePass) (cmd : Tag)
    (address : ℤ) (tags : List Tag) : Extends tags (createOutputStatus conn p cmd address tags) := by
  rcases createOutputStatus_cases conn p cmd address tags with h | ⟨_, d, twin, -, -, htwin, h⟩
  · rw [h]
    exact .refl tags
  · rw [h]
    exact extends_push htwin d

theorem extends_assign (hids : (tags.map Tag.id).Nodup) (hext : Extends tags tags')
    (hdoc : doc ∈ tags) (address : ℤ) : Extends tags (assign conn p doc address tags') := by
  obtain ⟨t, ht, -⟩ := findTag_extends hids hext hdoc
  exact (hext.trans (extends_push ht _)).trans (extends_createOutputStatus ..)

theorem mem_candidates :
    doc ∈ candidates conn p tags ↔
      doc ∈ tags ∧ doc.type = p.tagType ∧ doc.origin = p.origin ∧
        ∀ d ∈ doc.destinations, conn.owns d = false := by
  simp [candidates, and_assoc]

theorem extends_autoCreatePass (hids : (tags.map Tag.id).Nodup) :
    Extends tags (autoCreatePass conn tags p) := by
  obtain ⟨-, h⟩ := distribute_induct (fun _ tags' => Extends tags tags')
    (fun doc hdoc _ _ _ hext => extends_assign hids hext (mem_candidates.mp hdoc).1 _)
    (Extends.refl tags)
  exact h

theorem ids_autoCreatePass (hids : (tags.map Tag.id).Nodup) :
    ((autoCreatePass conn tags p).map Tag.id).Nodup := by
  rw [← (extends_autoCreatePass hids).ids]
  exact hids

end Extension

section Condition

-- The address that a supervised tag is about to get is free in the family of the group.
def AddressFree (conn : Connection) (p : AutoCreatePass) (address : ℤ) (tags : List Tag) : Prop :=
  p.origin = "supervised" → .data (familyOf p.group) address ∉ points conn tags

-- The address of a command is free in the family of its status, when the status is about
-- to be put on a supervised tag.
def StatusFree (conn : Connection) (p : AutoCreatePass) (cmd : Tag) (address : ℤ)
    (tags : List Tag) : Prop :=
  ∀ status ∈ p.status, (outputStatus conn status cmd address tags).isSome →
    (findTag tags cmd.supervisedOfCommand).any (fun twin => twin.origin = "supervised") →
    .data (familyOf status.1) address ∉ points conn tags

instance (conn : Connection) (p : AutoCreatePass) (address : ℤ) (tags : List Tag) :
    Decidable (AddressFree conn p address tags) :=
  inferInstanceAs (Decidable (_ → _))

instance (conn : Connection) (p : AutoCreatePass) (cmd : Tag) (address : ℤ) (tags : List Tag) :
    Decidable (StatusFree conn p cmd address tags) :=
  inferInstanceAs (Decidable (∀ status ∈ p.status, _ → _ → _))

-- So it is for every candidate that the loop of a pass comes to.
def Clear (conn : Connection) (p : AutoCreatePass) : List Tag → ℤ → List Tag → Prop
  | [], _, _ => True
  | doc :: docs, last, tags =>
      if conn.matchesTopic doc.group1 = false then Clear conn p docs last tags
      else if maxObjectAddress < last + 1 then True
      else
        AddressFree conn p (last + 1) tags ∧
        StatusFree conn p doc (last + 1)
          (pushDestination doc.id (newDestination conn p (last + 1)) tags) ∧
        Clear conn p docs (last + 1) (assign conn p doc (last + 1) tags)

def ClearPasses (conn : Connection) : List AutoCreatePass → List Tag → Prop
  | [], _ => True
  | p :: ps, tags =>
      Clear conn p (candidates conn p tags) (lastAddress conn p tags) tags ∧
      ClearPasses conn ps (autoCreatePass conn tags p)

def ClearAll (conn : Connection) (tags : List Tag) : Prop :=
  conn.autoCreateTags = true → ClearPasses conn (autoCreatePasses conn) tags

instance decidableClear (conn : Connection) (p : AutoCreatePass) :
    ∀ docs last tags, Decidable (Clear conn p docs last tags)
  | [], _, _ => isTrue trivial
  | doc :: docs, last, tags =>
      have := decidableClear conn p docs last tags
      have := decidableClear conn p docs (last + 1) (assign conn p doc (last + 1) tags)
      inferInstanceAs (Decidable
        (if conn.matchesTopic doc.group1 = false then Clear conn p docs last tags
        else if maxObjectAddress < last + 1 then True
        else
          AddressFree conn p (last + 1) tags ∧
          StatusFree conn p doc (last + 1)
            (pushDestination doc.id (newDestination conn p (last + 1)) tags) ∧
          Clear conn p docs (last + 1) (assign conn p doc (last + 1) tags)))

instance decidableClearPasses (conn : Connection) : ∀ ps tags, Decidable (ClearPasses conn ps tags)
  | [], _ => isTrue trivial
  | p :: ps, tags =>
      have := decidableClearPasses conn ps (autoCreatePass conn tags p)
      inferInstanceAs (Decidable (_ ∧ _))

instance (conn : Connection) (tags : List Tag) : Decidable (ClearAll conn tags) :=
  inferInstanceAs (Decidable (_ → _))

end Condition

section Distinct

variable {conn : Connection} {p : AutoCreatePass} {tags tags' : List Tag} {doc : Tag} {last : ℤ}

-- No control of the group is past the last address.
def ControlsBelow (conn : Connection) (p : AutoCreatePass) (last : ℤ) (tags : List Tag) : Prop :=
  ∀ a, .control p.group a ∈ points conn tags → a ≤ last

theorem owns_new (conn : Connection) (p : AutoCreatePass) (address : ℤ) :
    conn.owns (newDestination conn p address) = true := by
  simp [Connection.owns, newDestination]

theorem status_group (hkind : PassKind p) {status : ℤ × ℤ} (h : p.status = some status) :
    status.1 = groupBinaryOutputStatus ∨ status.1 = groupAnalogOutputStatus := by
  cases hkind with
  | supervised ho hs hg =>
      rw [hs] at h
      cases h
  | crob ho ht hg hs =>
      obtain rfl := Option.some.inj (hs.symm.trans h)
      exact .inl rfl
  | analogOutput ho ht hg hs =>
      obtain rfl := Option.some.inj (hs.symm.trans h)
      exact .inr rfl

-- A status is a point on a supervised tag only.
theorem pointOf_status {twin : Tag} {d : Destination}
    (hgroup : d.commonAddress = groupBinaryOutputStatus ∨
      d.commonAddress = groupAnalogOutputStatus) :
    pointOf twin d =
      if twin.origin = "supervised" then some (.data (familyOf d.commonAddress) d.objectAddress)
      else none := by
  unfold pointOf
  split_ifs with ho hc
  · rfl
  · have hother : d.commonAddress ≠ groupCROBCommand ∧ d.commonAddress ≠ groupAnalogOutputBlock := by
      rcases hgroup with h | h <;> rw [h] <;> decide
    rcases hc.2 with ⟨-, h⟩ | ⟨-, h⟩
    · exact absurd h hother.1
    · exact absurd h hother.2
  · rfl

theorem nodup_status (hkind : PassKind p) (cmd : Tag) (address : ℤ) (tags : List Tag) :
    (points conn (createOutputStatus conn p cmd address tags)).Nodup ↔
      StatusFree conn p cmd address tags ∧ (points conn tags).Nodup := by
  unfold createOutputStatus StatusFree
  cases hstatus : p.status with
  | none => simp
  | some status =>
      simp only [Option.bind_some, Option.mem_def, Option.some.injEq, forall_eq']
      cases hd : outputStatus conn status cmd address tags with
      | none => simp
      | some d =>
          obtain ⟨hconn, hgroup, haddress, twin, htwin⟩ := outputStatus_eq hd
          have howns : conn.owns d = true := by simp [Connection.owns, hconn]
          have hpoint : pointOf twin d =
              if twin.origin = "supervised" then some (.data (familyOf status.1) address)
              else none := by
            rw [pointOf_status (hgroup ▸ status_group hkind hstatus), hgroup, haddress]
          simp only [nodup_push htwin howns, hpoint, htwin, Option.isSome_some, forall_const,
            Option.any_some, decide_eq_true_eq]
          apply and_congr_left
          intro _
          by_cases ho : twin.origin = "supervised" <;> simp [ho]

theorem nodup_assign (hkind : PassKind p) (hids : (tags.map Tag.id).Nodup)
    (hext : Extends tags tags') (hdoc : doc ∈ candidates conn p tags)
    (hbelow : ControlsBelow conn p last tags') :
    (points conn (assign conn p doc (last + 1) tags')).Nodup ↔
      (AddressFree conn p (last + 1) tags' ∧
        StatusFree conn p doc (last + 1)
          (pushDestination doc.id (newDestination conn p (last + 1)) tags')) ∧
        (points conn tags').Nodup := by
  obtain ⟨hmem, htype, horigin, -⟩ := mem_candidates.mp hdoc
  obtain ⟨t, ht, hbare, -⟩ := findTag_extends hids hext hmem
  have hpoint : pointOf t (newDestination conn p (last + 1)) =
      some (if p.origin = "supervised" then .data (familyOf p.group) (last + 1)
        else .control p.group (last + 1)) := by
    rw [← pointOf_bare t, ← hbare, pointOf_bare, pointOf_new hkind htype horigin]
  have hpush : (points conn (pushDestination doc.id (newDestination conn p (last + 1))
      tags')).Nodup ↔ AddressFree conn p (last + 1) tags' ∧ (points conn tags').Nodup := by
    rw [nodup_push ht (owns_new ..), hpoint]
    apply and_congr_left
    intro _
    unfold AddressFree
    by_cases ho : p.origin = "supervised"
    · simp [ho]
    · simp only [ho, if_false, Option.some.injEq, forall_eq', false_implies, iff_true]
      intro hcontrol
      have := hbelow _ hcontrol
      omega
  rw [assign, nodup_status hkind, hpush]
  tauto

theorem pointOf_assigned (hkind : PassKind p) (hids : (tags.map Tag.id).Nodup)
    (hext : Extends tags tags') (hdoc : doc ∈ candidates conn p tags) {q : Point} :
    q ∈ points conn (pushDestination doc.id (newDestination conn p (last + 1)) tags') ↔
      q = (if p.origin = "supervised" then .data (familyOf p.group) (last + 1)
        else .control p.group (last + 1)) ∨ q ∈ points conn tags' := by
  obtain ⟨hmem, htype, horigin, -⟩ := mem_candidates.mp hdoc
  obtain ⟨t, ht, hbare, -⟩ := findTag_extends hids hext hmem
  rw [mem_points_push ht (owns_new ..), ← pointOf_bare t, ← hbare, pointOf_bare,
    pointOf_new hkind htype horigin, Option.some.injEq, eq_comm]

-- A status is no control.
theorem control_createOutputStatus (hkind : PassKind p) {cmd : Tag} {address g a : ℤ}
    (h : .control g a ∈ points conn (createOutputStatus conn p cmd address tags)) :
    .control g a ∈ points conn tags := by
  rcases createOutputStatus_cases conn p cmd address tags with
    heq | ⟨status, d, twin, hstatus, hd, htwin, heq⟩
  · rwa [heq] at h
  · obtain ⟨hconn, hgroup, haddress, -⟩ := outputStatus_eq hd
    rw [heq, mem_points_push htwin (by simp [Connection.owns, hconn]),
      pointOf_status (hgroup ▸ status_group hkind hstatus)] at h
    rcases h with h | h
    · split_ifs at h
      cases h
    · exact h

theorem ControlsBelow.assign (hkind : PassKind p) (hids : (tags.map Tag.id).Nodup)
    (hext : Extends tags tags') (hdoc : doc ∈ candidates conn p tags)
    (hbelow : ControlsBelow conn p last tags') :
    ControlsBelow conn p (last + 1) (assign conn p doc (last + 1) tags') := by
  intro a ha
  have ha := control_createOutputStatus hkind ha
  rw [pointOf_assigned hkind hids hext hdoc] at ha
  rcases ha with ha | ha
  · split_ifs at ha
    obtain ⟨-, rfl⟩ := Point.control.inj ha
    exact le_refl _
  · have := hbelow a ha
    omega

theorem foldl_max_le {ds : List Destination} {init b : ℤ} :
    ds.foldl (fun last d => max last d.objectAddress) init ≤ b ↔
      init ≤ b ∧ ∀ d ∈ ds, d.objectAddress ≤ b := by
  induction ds generalizing init with
  | nil => simp
  | cons d ds ih =>
      rw [List.foldl_cons, ih, max_le_iff, List.forall_mem_cons, and_assoc]

theorem lastAddress_le {b : ℤ} :
    lastAddress conn p tags ≤ b ↔
      -1 ≤ b ∧ ∀ t ∈ tags, t.type = p.tagType → t.origin = p.origin →
        ∀ d ∈ t.destinations, atGroup conn p.group d = true → d.objectAddress ≤ b := by
  unfold lastAddress
  rw [foldl_max_le]
  apply and_congr_right
  intro _
  constructor
  · intro h t ht htype horigin d hd hgroup
    apply h d
    rw [List.mem_filter, List.mem_flatMap]
    refine ⟨⟨t, ?_, hd⟩, hgroup⟩
    simp only [List.mem_filter, htype, horigin, decide_true, Bool.true_and, List.any_eq_true]
    exact ⟨ht, d, hd, hgroup⟩
  · intro h d hd
    rw [List.mem_filter, List.mem_flatMap] at hd
    obtain ⟨⟨t, ht, hd⟩, hgroup⟩ := hd
    simp only [List.mem_filter, Bool.and_eq_true, decide_eq_true_eq] at ht
    exact h t ht.1 ht.2.1.1 ht.2.1.2 d hd hgroup

theorem le_lastAddress {t : Tag} (ht : t ∈ tags) (htype : t.type = p.tagType)
    (horigin : t.origin = p.origin) {d : Destination} (hd : d ∈ t.destinations)
    (hgroup : atGroup conn p.group d = true) : d.objectAddress ≤ lastAddress conn p tags :=
  (lastAddress_le.mp le_rfl).2 t ht htype horigin d hd hgroup

theorem controlsBelow_lastAddress (hkind : PassKind p) (tags : List Tag) :
    ControlsBelow conn p (lastAddress conn p tags) tags := by
  intro a ha
  obtain ⟨t, ht, d, hd, howns, hpoint⟩ := mem_points.mp ha
  unfold pointOf at hpoint
  split_ifs at hpoint with ho hc
  · cases hpoint
  · obtain ⟨hgroup, rfl⟩ := Point.control.inj (Option.some.inj hpoint)
    have hat : atGroup conn p.group d = true := by simp [atGroup, howns, hgroup]
    rw [hgroup] at hc
    cases hkind with
    | supervised ho' hs hg =>
        rcases hc.2 with ⟨-, h⟩ | ⟨-, h⟩ <;> rcases hg with hg | hg <;> rw [hg] at h <;>
          exact absurd h (by decide)
    | crob ho' htype hg hs =>
        rcases hc.2 with ⟨htype', -⟩ | ⟨-, h⟩
        · exact le_lastAddress ht (htype'.trans htype.symm) (hc.1.trans ho'.symm) hd hat
        · rw [hg] at h
          exact absurd h (by decide)
    | analogOutput ho' htype hg hs =>
        rcases hc.2 with ⟨-, h⟩ | ⟨htype', -⟩
        · rw [hg] at h
          exact absurd h (by decide)
        · exact le_lastAddress ht (htype'.trans htype.symm) (hc.1.trans ho'.symm) hd hat

theorem nodup_distribute (hkind : PassKind p) (hids : (tags.map Tag.id).Nodup)
    {docs : List Tag} (hdocs : ∀ doc ∈ docs, doc ∈ candidates conn p tags)
    (hext : Extends tags tags') (hbelow : ControlsBelow conn p last tags') :
    (points conn (distribute conn p docs last tags')).Nodup ↔
      Clear conn p docs last tags' ∧ (points conn tags').Nodup := by
  induction docs generalizing last tags' with
  | nil => simp [distribute, Clear]
  | cons doc docs ih =>
      have hrest := fun doc' hdoc' => hdocs doc' (List.mem_cons_of_mem _ hdoc')
      have hdoc := hdocs doc List.mem_cons_self
      cases htopic : conn.matchesTopic doc.group1 with
      | false =>
          rw [distribute_skip docs last tags' htopic, ih hrest hext hbelow, Clear, if_pos htopic]
      | true =>
          by_cases hfull : maxObjectAddress < last + 1
          · rw [distribute_full docs tags' htopic hfull, Clear, if_neg (by simp [htopic]),
              if_pos hfull, true_and]
          · have hmem := (mem_candidates.mp hdoc).1
            rw [distribute_assign docs tags' htopic hfull,
              ih hrest (extends_assign hids hext hmem _) (hbelow.assign hkind hids hext hdoc),
              nodup_assign hkind hids hext hdoc hbelow, Clear, if_neg (by simp [htopic]),
              if_neg hfull]
            tauto

theorem nodup_autoCreatePass (hkind : PassKind p) (hids : (tags.map Tag.id).Nodup) :
    (points conn (autoCreatePass conn tags p)).Nodup ↔
      Clear conn p (candidates conn p tags) (lastAddress conn p tags) tags ∧
        (points conn tags).Nodup :=
  nodup_distribute hkind hids (fun _ h => h) (.refl tags) (controlsBelow_lastAddress hkind tags)

theorem nodup_passes {ps : List AutoCreatePass} (hkind : ∀ p ∈ ps, PassKind p)
    (hids : (tags.map Tag.id).Nodup) :
    (points conn (ps.foldl (autoCreatePass conn) tags)).Nodup ↔
      ClearPasses conn ps tags ∧ (points conn tags).Nodup := by
  induction ps generalizing tags with
  | nil => simp [ClearPasses]
  | cons p ps ih =>
      rw [List.foldl_cons, ih (fun q hq => hkind q (List.mem_cons_of_mem _ hq))
        (ids_autoCreatePass hids), nodup_autoCreatePass (hkind p List.mem_cons_self) hids,
        ClearPasses]
      tauto

end Distinct

section Range

variable {conn : Connection} {p : AutoCreatePass} {tags tags' : List Tag} {doc : Tag} {last : ℤ}

def InRange (conn : Connection) (tags : List Tag) : Prop :=
  ∀ t ∈ tags, ∀ d ∈ t.destinations, conn.owns d = true →
    0 ≤ d.objectAddress ∧ d.objectAddress ≤ maxObjectAddress

instance (conn : Connection) (tags : List Tag) : Decidable (InRange conn tags) :=
  inferInstanceAs (Decidable (∀ t ∈ tags, ∀ d ∈ t.destinations, _ → _))

theorem InRange.push {id : ℚ} {t : Tag} {d : Destination} (h : InRange conn tags)
    (ht : findTag tags id = some t) (hlow : 0 ≤ d.objectAddress)
    (hhigh : d.objectAddress ≤ maxObjectAddress) : InRange conn (pushDestination id d tags) := by
  intro u hu e he howns
  rcases mem_push ht hu with hu | rfl
  · exact h u hu e he howns
  · rcases List.mem_append.mp he with he | he
    · exact h t (List.mem_of_find?_eq_some ht) e he howns
    · obtain rfl := List.mem_singleton.mp he
      exact ⟨hlow, hhigh⟩

theorem InRange.assign (h : InRange conn tags') (hids : (tags.map Tag.id).Nodup)
    (hext : Extends tags tags') (hdoc : doc ∈ tags) (hlow : -1 ≤ last)
    (hhigh : last + 1 ≤ maxObjectAddress) :
    InRange conn (assign conn p doc (last + 1) tags') := by
  obtain ⟨t, ht, -⟩ := findTag_extends hids hext hdoc
  have hpush : InRange conn (pushDestination doc.id (newDestination conn p (last + 1)) tags') :=
    h.push ht (show 0 ≤ last + 1 by omega) hhigh
  unfold Server.assign
  rcases createOutputStatus_cases conn p doc (last + 1)
      (pushDestination doc.id (newDestination conn p (last + 1)) tags') with
    heq | ⟨status, d, twin, -, hd, htwin, heq⟩
  · rw [heq]
    exact hpush
  · obtain ⟨-, -, haddress, -⟩ := outputStatus_eq hd
    rw [heq]
    exact hpush.push htwin (by omega) (by omega)

theorem InRange.autoCreatePass (h : InRange conn tags) (hids : (tags.map Tag.id).Nodup) :
    InRange conn (autoCreatePass conn tags p) := by
  obtain ⟨-, -, -, hrange⟩ := distribute_induct
    (fun last tags' => -1 ≤ last ∧ Extends tags tags' ∧ InRange conn tags')
    (fun doc hdoc last tags' hhigh hall =>
      have hmem := (mem_candidates.mp hdoc).1
      ⟨by omega, extends_assign hids hall.2.1 hmem _,
        hall.2.2.assign hids hall.2.1 hmem hall.1 hhigh⟩)
    ⟨(lastAddress_le.mp le_rfl).1, Extends.refl tags, h⟩
  exact hrange

end Range

section Status

variable {conn : Connection} {p : AutoCreatePass} {tags tags' : List Tag} {doc : Tag} {last : ℤ}

-- The status group that mirrors the group of a command.
def Mirrors (status group : ℤ) : Prop :=
  status = groupBinaryOutputStatus ∧ group = groupCROBCommand ∨
    status = groupAnalogOutputStatus ∧ group = groupAnalogOutputBlock

-- An output status that was not there before is that of a command, on the tag that the
-- command names, at the address that the command has.
def StatusesMirror (conn : Connection) (tags tags' : List Tag) : Prop :=
  ∀ t' ∈ tags', ∀ d ∈ t'.destinations, conn.owns d = true →
    (d.commonAddress = groupBinaryOutputStatus ∨ d.commonAddress = groupAnalogOutputStatus) →
    (∃ t ∈ tags, t.bare = t'.bare ∧ d ∈ t.destinations) ∨
      ∃ cmd ∈ tags', cmd.origin = "command" ∧ cmd.supervisedOfCommand = t'.id ∧
        ∃ e ∈ cmd.destinations, conn.owns e = true ∧ Mirrors d.commonAddress e.commonAddress ∧
          e.objectAddress = d.objectAddress

theorem StatusesMirror.push {id : ℚ} {t : Tag} {d : Destination} (h : StatusesMirror conn tags tags')
    (ht : findTag tags' id = some t)
    (hnew : d.commonAddress = groupBinaryOutputStatus ∨
      d.commonAddress = groupAnalogOutputStatus →
      ∃ cmd ∈ tags', cmd.origin = "command" ∧ cmd.supervisedOfCommand = t.id ∧
        ∃ e ∈ cmd.destinations, conn.owns e = true ∧ Mirrors d.commonAddress e.commonAddress ∧
          e.objectAddress = d.objectAddress) :
    StatusesMirror conn tags (pushDestination id d tags') := by
  -- a command that was there is there with its entries
  have hkeep {i : ℚ} {g a : ℤ} (hcmd : ∃ cmd ∈ tags', cmd.origin = "command" ∧
      cmd.supervisedOfCommand = i ∧ ∃ e ∈ cmd.destinations, conn.owns e = true ∧
        Mirrors g e.commonAddress ∧ e.objectAddress = a) :
      ∃ cmd ∈ pushDestination id d tags', cmd.origin = "command" ∧
        cmd.supervisedOfCommand = i ∧ ∃ e ∈ cmd.destinations, conn.owns e = true ∧
          Mirrors g e.commonAddress ∧ e.objectAddress = a := by
    obtain ⟨cmd, hcmd, horigin, htwin, e, he, hrest⟩ := hcmd
    obtain ⟨cmd', hcmd', hbare, hsub⟩ := (extends_push ht d).mem hcmd
    exact ⟨cmd', hcmd', (congrArg Tag.origin hbare).symm.trans horigin,
      (congrArg Tag.supervisedOfCommand hbare).symm.trans htwin, e, hsub he, hrest⟩
  intro u hu e he howns hgroup
  rcases mem_push ht hu with hu | rfl
  · exact (h u hu e he howns hgroup).imp_right hkeep
  · rcases List.mem_append.mp he with he | he
    · exact (h t (List.mem_of_find?_eq_some ht) e he howns hgroup).imp_right hkeep
    · obtain rfl := List.mem_singleton.mp he
      exact .inr (hkeep (hnew hgroup))

theorem mirrors_pass (hkind : PassKind p) {status : ℤ × ℤ} (h : p.status = some status) :
    p.origin = "command" ∧ Mirrors status.1 p.group := by
  cases hkind with
  | supervised ho hs hg =>
      rw [hs] at h
      cases h
  | crob ho ht hg hs =>
      obtain rfl := Option.some.inj (hs.symm.trans h)
      exact ⟨ho, .inl ⟨rfl, hg⟩⟩
  | analogOutput ho ht hg hs =>
      obtain rfl := Option.some.inj (hs.symm.trans h)
      exact ⟨ho, .inr ⟨rfl, hg⟩⟩

theorem group_not_status (hkind : PassKind p) :
    ¬(p.group = groupBinaryOutputStatus ∨ p.group = groupAnalogOutputStatus) := by
  cases hkind with
  | supervised ho hs hg => rcases hg with hg | hg <;> rw [hg] <;> decide
  | crob ho ht hg hs => rw [hg]; decide
  | analogOutput ho ht hg hs => rw [hg]; decide

theorem StatusesMirror.assign {tags₀ : List Tag} (h : StatusesMirror conn tags₀ tags')
    (hkind : PassKind p) (hids : (tags.map Tag.id).Nodup) (hext : Extends tags tags')
    (hdoc : doc ∈ candidates conn p tags) (address : ℤ) :
    StatusesMirror conn tags₀ (assign conn p doc address tags') := by
  obtain ⟨hmem, -, horigin, -⟩ := mem_candidates.mp hdoc
  obtain ⟨t, ht, hbare, -⟩ := findTag_extends hids hext hmem
  have hpush : StatusesMirror conn tags₀
      (pushDestination doc.id (newDestination conn p address) tags') :=
    h.push ht fun hgroup => absurd hgroup (group_not_status hkind)
  unfold Server.assign
  rcases createOutputStatus_cases conn p doc address
      (pushDestination doc.id (newDestination conn p address) tags') with
    heq | ⟨status, d, twin, hstatus, hd, htwin, heq⟩
  · rw [heq]
    exact hpush
  · obtain ⟨-, hgroup, haddress, -⟩ := outputStatus_eq hd
    obtain ⟨hcommand, hmirrors⟩ := mirrors_pass hkind hstatus
    have hid : twin.id = doc.supervisedOfCommand := by simpa using List.find?_some htwin
    rw [heq]
    refine hpush.push htwin fun _ => ⟨_, push_mem ht, ?_, ?_, newDestination conn p address, ?_⟩
    · exact (congrArg Tag.origin hbare).symm.trans (horigin.trans hcommand)
    · exact (congrArg Tag.supervisedOfCommand hbare).symm.trans hid.symm
    · refine ⟨by simp, owns_new .., ?_, haddress.symm⟩
      rw [hgroup]
      exact hmirrors

theorem StatusesMirror.autoCreatePass {tags₀ : List Tag} (h : StatusesMirror conn tags₀ tags)
    (hkind : PassKind p) (hids : (tags.map Tag.id).Nodup) :
    StatusesMirror conn tags₀ (autoCreatePass conn tags p) := by
  obtain ⟨-, -, hmirror⟩ := distribute_induct
    (fun _ tags' => Extends tags tags' ∧ StatusesMirror conn tags₀ tags')
    (fun doc hdoc last tags' _ hall =>
      ⟨extends_assign hids hall.1 (mem_candidates.mp hdoc).1 _,
        hall.2.assign hkind hids hall.1 hdoc _⟩)
    ⟨Extends.refl tags, h⟩
  exact hmirror

end Status

section Again

variable {conn : Connection} {p : AutoCreatePass} {tags tags' : List Tag} {doc : Tag} {last : ℤ}

-- A pass has nothing left to do: no tag to distribute, or no address.
def Done (conn : Connection) (p : AutoCreatePass) (tags : List Tag) : Prop :=
  (∀ doc ∈ candidates conn p tags, conn.matchesTopic doc.group1 = false) ∨
    maxObjectAddress ≤ lastAddress conn p tags

theorem distribute_nothing {docs : List Tag}
    (h : (∀ doc ∈ docs, conn.matchesTopic doc.group1 = false) ∨ maxObjectAddress ≤ last)
    (tags : List Tag) : distribute conn p docs last tags = tags := by
  induction docs with
  | nil => rfl
  | cons doc docs ih =>
      cases htopic : conn.matchesTopic doc.group1 with
      | false =>
          rw [distribute_skip docs last tags htopic]
          exact ih (h.imp_left fun hall doc' hdoc' => hall doc' (List.mem_cons_of_mem _ hdoc'))
      | true =>
          rcases h with h | h
          · rw [h doc List.mem_cons_self] at htopic
            cases htopic
          · exact distribute_full docs tags htopic (by omega)

theorem Done.autoCreatePass (h : Done conn p tags) : autoCreatePass conn tags p = tags :=
  distribute_nothing h tags

theorem lastAddress_mono (hext : Extends tags tags') :
    lastAddress conn p tags ≤ lastAddress conn p tags' := by
  rw [lastAddress_le]
  refine ⟨(lastAddress_le.mp le_rfl).1, ?_⟩
  intro t ht htype horigin d hd hgroup
  obtain ⟨t', ht', hbare, hsub⟩ := hext.mem ht
  exact le_lastAddress ht' ((congrArg Tag.type hbare).symm.trans htype)
    ((congrArg Tag.origin hbare).symm.trans horigin) (hsub hd) hgroup

-- A tag that has no destination now had none before.
theorem candidate_before (hext : Extends tags tags') (hdoc : doc ∈ candidates conn p tags') :
    ∃ t ∈ candidates conn p tags, t.bare = doc.bare := by
  obtain ⟨hmem, htype, horigin, hnone⟩ := mem_candidates.mp hdoc
  obtain ⟨t, ht, hbare, hsub⟩ := hext.mem' hmem
  exact ⟨t, mem_candidates.mpr ⟨ht, (congrArg Tag.type hbare).trans htype,
    (congrArg Tag.origin hbare).trans horigin, fun d hd => hnone d (hsub hd)⟩, hbare⟩

theorem Done.extends (h : Done conn p tags) (hext : Extends tags tags') : Done conn p tags' := by
  refine h.imp ?_ fun hfull => hfull.trans (lastAddress_mono hext)
  intro hall doc hdoc
  obtain ⟨t, ht, hbare⟩ := candidate_before hext hdoc
  have hgroup := congrArg Tag.group1 hbare
  exact hgroup ▸ hall t ht

theorem extends_distribute {docs : List Tag} (hids : (tags.map Tag.id).Nodup)
    (hdocs : ∀ doc ∈ docs, doc ∈ candidates conn p tags) (hext : Extends tags tags') :
    Extends tags' (distribute conn p docs last tags') := by
  have hstep : ∀ doc ∈ docs, ∀ last u, last + 1 ≤ maxObjectAddress →
      Extends tags u ∧ Extends tags' u →
        Extends tags (assign conn p doc (last + 1) u) ∧
          Extends tags' (assign conn p doc (last + 1) u) := by
    intro doc hdoc last u _ hall
    have hmem := (mem_candidates.mp (hdocs doc hdoc)).1
    obtain ⟨t, ht, -⟩ := findTag_extends hids hall.1 hmem
    exact ⟨extends_assign hids hall.1 hmem _,
      (hall.2.trans (extends_push ht _)).trans (extends_createOutputStatus ..)⟩
  obtain ⟨-, -, h⟩ := distribute_induct (fun _ u => Extends tags u ∧ Extends tags' u) hstep
    (⟨hext, .refl tags'⟩ : _ ∧ _)
  exact h

-- What the loop has come to is distributed, or the addresses are used up.
theorem distribute_done {docs : List Tag} (hids : (tags.map Tag.id).Nodup)
    (hdocs : ∀ doc ∈ docs, doc ∈ candidates conn p tags) (hext : Extends tags tags')
    (hlast : last ≤ lastAddress conn p tags') :
    (∀ doc ∈ docs, conn.matchesTopic doc.group1 = true →
      ∃ t ∈ distribute conn p docs last tags', doc.bare = t.bare ∧
        ∃ d ∈ t.destinations, conn.owns d = true) ∨
      maxObjectAddress ≤ lastAddress conn p (distribute conn p docs last tags') := by
  induction docs generalizing last tags' with
  | nil => exact .inl (by simp)
  | cons doc docs ih =>
      have hrest := fun doc' hdoc' => hdocs doc' (List.mem_cons_of_mem _ hdoc')
      obtain ⟨hmem, htype, horigin, -⟩ := mem_candidates.mp (hdocs doc List.mem_cons_self)
      cases htopic : conn.matchesTopic doc.group1 with
      | false =>
          rw [distribute_skip docs last tags' htopic]
          refine (ih hrest hext hlast).imp_left ?_
          intro hall doc' hdoc' htopic'
          rcases List.mem_cons.mp hdoc' with rfl | hdoc'
          · rw [htopic] at htopic'
            cases htopic'
          · exact hall doc' hdoc' htopic'
      | true =>
          by_cases hfull : maxObjectAddress < last + 1
          · rw [distribute_full docs tags' htopic hfull]
            exact .inr (by omega)
          · rw [distribute_assign docs tags' htopic hfull]
            obtain ⟨t, ht, hbare, -⟩ := findTag_extends hids hext hmem
            have hgiven := push_mem (d := newDestination conn p (last + 1)) ht
            obtain ⟨u, hu, hubare, husub⟩ := (extends_createOutputStatus conn p doc (last + 1)
              (pushDestination doc.id (newDestination conn p (last + 1)) tags')).mem hgiven
            have hnew : newDestination conn p (last + 1) ∈ u.destinations := husub (by simp)
            have hubare : doc.bare = u.bare := hbare.trans hubare
            have hle : last + 1 ≤ lastAddress conn p (assign conn p doc (last + 1) tags') := by
              refine le_lastAddress hu ((congrArg Tag.type hubare).symm.trans htype)
                ((congrArg Tag.origin hubare).symm.trans horigin) hnew ?_
              simp [atGroup, Connection.owns, newDestination]
            have hext' : Extends tags (assign conn p doc (last + 1) tags') :=
              extends_assign hids hext hmem _
            refine (ih hrest hext' hle).imp_left ?_
            intro hall doc' hdoc' htopic'
            rcases List.mem_cons.mp hdoc' with rfl | hdoc'
            · obtain ⟨v, hv, hvbare, hvsub⟩ := (extends_distribute hids hrest hext').mem hu
              exact ⟨v, hv, hubare.trans hvbare, _, hvsub hnew, owns_new ..⟩
            · exact hall doc' hdoc' htopic'

theorem done_autoCreatePass (hids : (tags.map Tag.id).Nodup) :
    Done conn p (autoCreatePass conn tags p) := by
  refine (distribute_done hids (fun _ h => h) (Extends.refl tags) le_rfl).imp_left ?_
  intro hall doc hdoc
  obtain ⟨t, ht, hbare⟩ := candidate_before (extends_autoCreatePass hids) hdoc
  rw [← Bool.not_eq_true]
  intro htopic
  have hgroup := congrArg Tag.group1 hbare
  obtain ⟨u, hu, hubare, d, hd, howns⟩ := hall t ht (hgroup ▸ htopic)
  obtain ⟨hmem, -, -, hnone⟩ := mem_candidates.mp hdoc
  have hsame := hubare.symm.trans hbare
  have hid := congrArg Tag.id hsame
  obtain rfl : u = doc := List.inj_on_of_nodup_map (ids_autoCreatePass hids) hu hmem hid
  rw [hnone d hd] at howns
  cases howns

end Again

section All

variable {conn : Connection} {tags : List Tag}

-- What every pass keeps holds after all of them.
theorem passes_induct (P : List Tag → Prop) {ps : List AutoCreatePass}
    (hstep : ∀ p ∈ ps, ∀ tags, (tags.map Tag.id).Nodup → P tags → P (autoCreatePass conn tags p))
    (hids : (tags.map Tag.id).Nodup) (h : P tags) : P (ps.foldl (autoCreatePass conn) tags) := by
  induction ps generalizing tags with
  | nil => exact h
  | cons p ps ih =>
      exact ih (fun q hq => hstep q (List.mem_cons_of_mem _ hq)) (ids_autoCreatePass hids)
        (hstep p List.mem_cons_self tags hids h)

theorem extends_passes (ps : List AutoCreatePass) (hids : (tags.map Tag.id).Nodup) :
    Extends tags (ps.foldl (autoCreatePass conn) tags) :=
  passes_induct (Extends tags) (fun _ _ _ hids' h => h.trans (extends_autoCreatePass hids')) hids
    (.refl tags)

theorem done_passes {ps : List AutoCreatePass} (hids : (tags.map Tag.id).Nodup) :
    ∀ p ∈ ps, Done conn p (ps.foldl (autoCreatePass conn) tags) := by
  induction ps generalizing tags with
  | nil => simp
  | cons p ps ih =>
      intro q hq
      rcases List.mem_cons.mp hq with rfl | hq
      · exact (done_autoCreatePass hids).extends (extends_passes ps (ids_autoCreatePass hids))
      · exact ih (ids_autoCreatePass hids) q hq

theorem done_again {ps : List AutoCreatePass} (h : ∀ p ∈ ps, Done conn p tags) :
    ps.foldl (autoCreatePass conn) tags = tags := by
  induction ps with
  | nil => rfl
  | cons p ps ih =>
      rw [List.foldl_cons, (h p List.mem_cons_self).autoCreatePass]
      exact ih fun q hq => h q (List.mem_cons_of_mem _ hq)

theorem nodup_autoCreateAll (hids : (tags.map Tag.id).Nodup) (hdistinct : (points conn tags).Nodup) :
    (points conn (autoCreateAll conn tags)).Nodup ↔ ClearAll conn tags := by
  unfold autoCreateAll ClearAll
  split_ifs with hauto
  · simp [nodup_passes (fun _ => passKind) hids, hauto, hdistinct]
  · simp [hauto, hdistinct]

theorem autoCreateAll_again (hids : (tags.map Tag.id).Nodup) :
    autoCreateAll conn (autoCreateAll conn tags) = autoCreateAll conn tags := by
  unfold autoCreateAll
  split_ifs with hauto
  · exact done_again (done_passes hids)
  · rfl

theorem inRange_autoCreateAll (hids : (tags.map Tag.id).Nodup) :
    InRange conn (autoCreateAll conn tags) ↔ InRange conn tags := by
  unfold autoCreateAll
  split_ifs with hauto
  · constructor
    · intro h t ht d hd howns
      obtain ⟨t', ht', -, hsub⟩ := (extends_passes (autoCreatePasses conn) hids).mem ht
      exact h t' ht' d (hsub hd) howns
    · exact passes_induct (InRange conn) (fun _ _ _ hids' h => h.autoCreatePass hids') hids
  · rfl

theorem statuses_autoCreateAll (hids : (tags.map Tag.id).Nodup) :
    StatusesMirror conn tags (autoCreateAll conn tags) := by
  have hstart : StatusesMirror conn tags tags := fun t ht d hd _ _ => .inl ⟨t, ht, rfl, hd⟩
  unfold autoCreateAll
  split_ifs with hauto
  · exact passes_induct (StatusesMirror conn tags)
      (fun _ hp _ hids' h => h.autoCreatePass (passKind hp) hids') hids hstart
  · exact hstart

-- What the distribution of a connection is to give.
structure Distributed (conn : Connection) (tags tags' : List Tag) : Prop where
  distinct : (points conn tags').Nodup
  inRange : InRange conn tags'
  statuses : StatusesMirror conn tags tags'
  again : autoCreateAll conn tags' = tags'

-- A connection that takes every tag, commands too.
def everything : Connection where
  protocolConnectionNumber := 7
  commandsEnabled := true
  autoCreateTags := true
  topics := []

-- A command with its supervised twin, and two more supervised tags.
def newTags : List Tag :=
  [{ id := 1, type := "digital", origin := "command", group1 := "", supervisedOfCommand := 2,
     destinations := [] },
    { id := 2, type := "digital", origin := "supervised", group1 := "", supervisedOfCommand := 0,
      destinations := [] },
    { id := 3, type := "digital", origin := "supervised", group1 := "", supervisedOfCommand := 0,
      destinations := [] },
    { id := 4, type := "analog", origin := "supervised", group1 := "", supervisedOfCommand := 0,
      destinations := [] }]

-- A digital that was put at an event group by hand, and one to be distributed.
def handMade : List Tag :=
  [{ id := 1, type := "digital", origin := "supervised", group1 := "", supervisedOfCommand := 0
     destinations :=
      [{ connectionNumber := 7, commonAddress := 2, objectAddress := 0, asdu := 2
         commandDuration := 0 }] },
    { id := 2, type := "digital", origin := "supervised", group1 := "", supervisedOfCommand := 0
      destinations := [] }]

end All

end JsonScada.Dnp3.Server
