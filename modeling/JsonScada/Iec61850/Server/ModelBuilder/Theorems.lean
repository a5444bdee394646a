import JsonScada.Iec61850.Server.ModelBuilder.Devices

-- When the model that is built respects its bounds and can be told apart.
namespace JsonScada.Iec61850.Server.ModelBuilder

open JsonScada.Library
open JsonScada.Iec60870 (Platform)

section Instances

variable (toLower : String → String)

-- The monitored points of the two categories of data sets.
def measured (p : Point) : Bool := !p.isCommand && toLower p.type = "analog"

def status (p : Point) : Bool := !p.isCommand && toLower p.type ≠ "analog"

variable {toLower}

theorem monitored_mapped (p : Point) (ref : String) :
    (mapped toLower p (kindAt toLower p) ref).monitored .mx = measured toLower p ∧
      (mapped toLower p (kindAt toLower p) ref).monitored .st = status toLower p := by
  cases hcmd : p.isCommand with
  | true => simp [MappedPoint.monitored, mapped, measured, status, hcmd]
  | false =>
      by_cases htype : toLower p.type = "analog"
      · simp [MappedPoint.monitored, mapped, measured, status, hcmd, kindAt, kindOf, htype,
          valueAttrPath]
      · by_cases htext : toLower p.type = "string" ∨ toLower p.type = "json" <;>
          simp [MappedPoint.monitored, mapped, measured, status, hcmd, kindAt, kindOf, htype, htext,
            valueAttrPath]

theorem countP_of_forall₂ {α β : Type*} {R : α → β → Prop} {f : α → Bool} {g : β → Bool}
    {l : List α} {l' : List β} (h : List.Forall₂ R l l') (hfg : ∀ a b, R a b → f a = g b) :
    l.countP f = l'.countP g := by
  induction h with
  | nil => rfl
  | cons hr _ ih => rw [List.countP_cons, List.countP_cons, ih, hfg _ _ hr]

theorem length_entriesOf {R : Point → MappedPoint → Prop} {pts : List Point}
    {mps : List MappedPoint} (h : List.Forall₂ R pts mps)
    (hmapped : ∀ p mp, R p mp → mp = mapped toLower p (kindAt toLower p) mp.objRef) :
    (entriesOf .st mps).length = pts.countP (status toLower) ∧
      (entriesOf .mx mps).length = pts.countP (measured toLower) := by
  rw [entriesOf, entriesOf, List.length_map, List.length_map, ← List.countP_eq_length_filter,
    ← List.countP_eq_length_filter]
  constructor
  · refine (countP_of_forall₂ h fun p mp hr => ?_).symm
    rw [hmapped p mp hr, (monitored_mapped p mp.objRef).2]
  · refine (countP_of_forall₂ h fun p mp hr => ?_).symm
    rw [hmapped p mp hr, (monitored_mapped p mp.objRef).1]

variable {pl : Platform} {conn : ServerConnection} {b : Batch}
  {d : LogicalDevice × List MappedPoint}

-- The instances that a batch of points needs in each family.
def instancesFor (toLower : String → String) (copies : ℕ) (pts : List Point) : ℕ :=
  copies * (Chunks.count entriesPerDataSet (pts.countP (status toLower)) +
    Chunks.count entriesPerDataSet (pts.countP (measured toLower)))

theorem Holds.instances (h : Holds pl toLower conn b d) (buffered : Bool) :
    (∃ node ∈ d.1.nodes, node.cls = "LLN0") ∧ ∀ node ∈ d.1.nodes, node.cls = "LLN0" →
      node.instances buffered =
        instancesFor toLower (computeModelBounds pl conn).rcbCopies b.points := by
  obtain ⟨ctx, hlaid, -, -, hnodes⟩ := h
  rw [hnodes]
  refine ⟨⟨_, (mem_deviceNodes hlaid.nodes).mpr (.inl rfl), rfl⟩, fun node hnode hcls => ?_⟩
  obtain ⟨hst, hmx⟩ := length_entriesOf hlaid.stands fun p mp hstands => hstands.1
  rw [eq_lln0_of_mem hlaid.nodes hnode hcls, instances_lln0, hlaid.status, hlaid.measured, hst, hmx,
    instancesFor]

-- No run of points is of both categories.
def OneKind (toLower : String → String) (pts : List Point) : Prop :=
  pts.countP (status toLower) = 0 ∨ pts.countP (measured toLower) = 0

theorem countP_add_le (toLower : String → String) (pts : List Point) :
    pts.countP (status toLower) + pts.countP (measured toLower) ≤ pts.length := by
  induction pts with
  | nil => exact Nat.le_refl 0
  | cons p pts ih =>
      have hp : (if status toLower p then 1 else 0) + (if measured toLower p then 1 else 0) ≤ 1 := by
        cases hcmd : p.isCommand <;> by_cases htype : toLower p.type = "analog" <;>
          simp [status, measured, hcmd, htype]
      rw [List.countP_cons, List.countP_cons, List.length_cons]
      omega

theorem maxClients_pos (pl : Platform) (conn : ServerConnection) : 1 ≤ maxClients pl conn :=
  Nat.le_max_left ..

-- Only four instances of two data sets are too many.
theorem instances_le_iff {pts : List Point}
    (h : pts.length ≤ (computeModelBounds pl conn).maxPointsPerLD) :
    instancesFor toLower (computeModelBounds pl conn).rcbCopies pts ≤ maxRcbPerLLN0 ↔
      maxClients pl conn ≤ 3 ∨ OneKind toLower pts := by
  have hsum := countP_add_le toLower pts
  have hpos := maxClients_pos pl conn
  unfold instancesFor OneKind
  unfold computeModelBounds at h ⊢
  dsimp only at h ⊢
  generalize pts.countP (status toLower) = a at hsum ⊢
  generalize pts.countP (measured toLower) = b at hsum ⊢
  generalize maxClients pl conn = clients at hpos h ⊢
  have hbound := hsum.trans h
  unfold maxRcbPerLLN0 maxRcbCopiesPerDataSet entriesPerDataSet at *
  unfold Chunks.count
  obtain rfl | rfl | rfl | hmany : clients = 1 ∨ clients = 2 ∨ clients = 3 ∨ 4 ≤ clients := by omega
  · norm_num at hbound ⊢
    omega
  · norm_num at hbound ⊢
    omega
  · norm_num at hbound ⊢
    omega
  · rw [Nat.min_eq_right hmany] at hbound ⊢
    norm_num at hbound ⊢
    omega

end Instances

section Batches

variable {pl : Platform} {conn : ServerConnection} {points : List Point}

-- A run of the points of one topic.
def run (points : List Point) (size : ℕ) (g1 : String) (i : ℕ) : List Point :=
  ((points.filter fun p => groupOf p = g1).drop (i * size)).take size

theorem maxPointsPerLD_pos (pl : Platform) (conn : ServerConnection) :
    0 < (computeModelBounds pl conn).maxPointsPerLD :=
  Nat.mul_pos (by decide) (Nat.le_max_left ..)

theorem map_points_split {maxPoints : ℕ} {g1 : String} {pts : List Point} (hpts : pts ≠ []) :
    (split maxPoints g1 pts).map Batch.points = Chunks.chunks maxPoints pts := by
  unfold split
  split_ifs with hle
  · rw [Chunks.chunks_of_length_le hpts hle]
    rfl
  · exact List.ext_getElem (by simp) (by simp)

theorem map_points_batches (points : List Point) :
    (batches pl conn points).map Batch.points = (Grouping.group groupOf points).flatMap fun g =>
      Chunks.chunks (computeModelBounds pl conn).maxPointsPerLD g.2.toList := by
  rw [batches, List.map_flatMap]
  exact List.flatMap_congr fun g _ => map_points_split (List.cons_ne_nil _ _)

-- Every point is in one batch.
theorem perm_batches (points : List Point) :
    ((batches pl conn points).flatMap Batch.points).Perm points := by
  rw [List.flatMap_def, map_points_batches, ← List.flatMap_id, List.flatMap_assoc]
  refine .trans (.of_eq (List.flatMap_congr fun g _ => ?_)) (Grouping.perm_group points)
  exact List.flatMap_id.trans (Chunks.flatten_chunks (maxPointsPerLD_pos pl conn) _)

theorem mem_batches {pts : List Point} :
    pts ∈ (batches pl conn points).map Batch.points ↔
      pts ≠ [] ∧ ∃ g1 i, pts = run points (computeModelBounds pl conn).maxPointsPerLD g1 i := by
  rw [map_points_batches, List.mem_flatMap]
  constructor
  · rintro ⟨g, hg, hpts⟩
    rw [Chunks.mem_chunks (maxPointsPerLD_pos pl conn), Grouping.toList_of_mem_group hg] at hpts
    exact ⟨hpts.1, g.1, hpts.2⟩
  · rintro ⟨hne, g1, i, rfl⟩
    obtain ⟨p, hp⟩ := List.exists_mem_of_ne_nil _ hne
    have hp := List.mem_of_mem_drop (List.mem_of_mem_take hp)
    rw [List.mem_filter, decide_eq_true_iff] at hp
    obtain ⟨g, hg, hkey⟩ : ∃ g ∈ Grouping.group groupOf points, g.1 = groupOf p :=
      Grouping.exists_group hp.1
    rw [hp.2] at hkey
    refine ⟨g, hg, ?_⟩
    rw [Chunks.mem_chunks (maxPointsPerLD_pos pl conn), Grouping.toList_of_mem_group hg, hkey]
    exact ⟨hne, i, rfl⟩

theorem maxPointsPerLD_of_many (h : ¬maxClients pl conn ≤ 3) :
    (computeModelBounds pl conn).maxPointsPerLD = entriesPerDataSet := by
  unfold computeModelBounds maxRcbCopiesPerDataSet
  dsimp only
  rw [Nat.min_eq_right (by omega)]
  rfl

variable {toLower : String → String}

-- With four clients a logical device takes as many points as a data set, of one category each.
theorem instances_batches_iff :
    (∀ b ∈ batches pl conn points,
      instancesFor toLower (computeModelBounds pl conn).rcbCopies b.points ≤ maxRcbPerLLN0) ↔
        maxClients pl conn ≤ 3 ∨
          ∀ g1 i, OneKind toLower (run points entriesPerDataSet g1 i) := by
  have hlength : ∀ b ∈ batches pl conn points,
      b.points.length ≤ (computeModelBounds pl conn).maxPointsPerLD := by
    intro b hb
    obtain ⟨-, g1, i, hrun⟩ := mem_batches.mp (List.mem_map_of_mem hb)
    rw [hrun]
    exact List.length_take_le _ _
  constructor
  · intro h
    by_cases hfew : maxClients pl conn ≤ 3
    · exact .inl hfew
    · refine .inr fun g1 i => ?_
      by_cases hempty : run points entriesPerDataSet g1 i = []
      · rw [hempty]
        exact .inl rfl
      · obtain ⟨b, hb, hrun⟩ := List.mem_map.mp
          (mem_batches.mpr ⟨hempty, g1, i, by rw [maxPointsPerLD_of_many hfew]⟩)
        rw [← hrun]
        exact ((instances_le_iff (hlength b hb)).mp (h b hb)).resolve_left hfew
  · intro h b hb
    rw [instances_le_iff (hlength b hb)]
    by_cases hfew : maxClients pl conn ≤ 3
    · exact .inl hfew
    · obtain ⟨-, g1, i, hrun⟩ := mem_batches.mp (List.mem_map_of_mem hb)
      rw [maxPointsPerLD_of_many hfew] at hrun
      rw [hrun]
      exact .inr (h.resolve_left hfew g1 i)

end Batches

section Tables

variable (mps : List MappedPoint) (built : BuiltModel)

theorem foldl_addPoint :
    mps.foldl BuiltModel.addPoint built =
      { built with
        byTag := (mps.map fun mp => (mp.tag, mp)).reverse ++ built.byTag
        byCtlObjRef :=
          ((mps.filter MappedPoint.isCommand).map fun mp => (mp.objRef, mp)).reverse ++
            built.byCtlObjRef
        order := built.order ++ mps } := by
  induction mps generalizing built with
  | nil => simp
  | cons mp mps ih =>
      rw [List.foldl_cons, ih, BuiltModel.addPoint]
      cases hcmd : mp.isCommand <;> simp [hcmd]

variable {mps}

theorem lookup_byTag {mp : MappedPoint} (hmp : mp ∈ mps)
    (hnodup : (mps.map MappedPoint.tag).Nodup) :
    ((mps.map fun mp => (mp.tag, mp)).reverse).lookup mp.tag = some mp := by
  refine Assoc.lookup_of_mem (e := (mp.tag, mp)) ?_ (List.mem_reverse.mpr
    (List.mem_map.mpr ⟨mp, hmp, rfl⟩))
  rw [List.map_reverse, List.nodup_reverse, List.map_map]
  exact hnodup

theorem lookup_byCtlObjRef {mp : MappedPoint} (hmp : mp ∈ mps)
    (hnodup : (mps.map MappedPoint.objRef).Nodup) :
    (((mps.filter MappedPoint.isCommand).map fun mp => (mp.objRef, mp)).reverse).lookup mp.objRef =
      if mp.isCommand then some mp else none := by
  split_ifs with hcmd
  · refine Assoc.lookup_of_mem (e := (mp.objRef, mp)) ?_ (List.mem_reverse.mpr
      (List.mem_map.mpr ⟨mp, List.mem_filter.mpr ⟨hmp, hcmd⟩, rfl⟩))
    rw [List.map_reverse, List.nodup_reverse, List.map_map]
    exact hnodup.sublist (List.filter_sublist.map _)
  · rw [List.lookup_eq_none_iff]
    intro e he
    rw [bne_iff_ne]
    intro heq
    obtain ⟨other, hother, rfl⟩ := List.mem_map.mp (List.mem_reverse.mp he)
    obtain ⟨hmem, hcommand⟩ := List.mem_filter.mp hother
    have hsame : mp = other := List.inj_on_of_nodup_map hnodup hmp hmem heq
    exact hcmd (hsame ▸ hcommand)

end Tables

section WellBuilt

variable (toLower : String → String)

def BuiltModel.entries (built : BuiltModel) : List Fcda :=
  built.model.devices.flatMap LogicalDevice.entries

-- A mapped point stands for its point in the model, in the data sets and in the tables.
structure Represents (built : BuiltModel) (p : Point) (mp : MappedPoint) : Prop where
  object : ∃ d ∈ built.model.devices, Refers toLower d p mp
  entries : (built.entries.map Fcda.ref).count mp.objRef = if p.isCommand then 0 else 1
  byTag : built.byTag.lookup p.tag = some mp
  byCtlObjRef : built.byCtlObjRef.lookup mp.objRef = if p.isCommand then some mp else none

structure WellBuilt (built : BuiltModel) (points : List Point) : Prop where
  reports : ∀ d ∈ built.model.devices, ∀ node ∈ d.nodes, node.cls = "LLN0" →
    ∀ buffered, node.instances buffered ≤ maxRcbPerLLN0
  budgets : ∀ d ∈ built.model.devices, ∀ node ∈ d.nodes, node.cls = "GGIO" →
    nodeCost node ≤ maxDataObjectsPerLN
  dataSets : ∀ d ∈ built.model.devices, ∀ node ∈ d.nodes, ∀ ds ∈ node.dataSets,
    ds.entries.length ≤ entriesPerDataSet
  identifiers : ∀ d ∈ built.model.devices, IsIdentifier d.name
  devices : (built.model.devices.map LogicalDevice.name).Nodup
  references : (built.order.map MappedPoint.objRef).Nodup
  points : ∃ pts, pts.Perm points ∧ List.Forall₂ (Represents toLower built) pts built.order

variable {toLower} {pl : Platform} {conn : ServerConnection} {points : List Point}

-- The tables tell points apart only by their tags.
theorem nodup_tags_of_represents {built : BuiltModel} {pts : List Point} {mps : List MappedPoint}
    (h : List.Forall₂ (Represents toLower built) pts mps)
    (hnodup : (mps.map MappedPoint.objRef).Nodup) : (pts.map fun p => p.tag).Nodup := by
  induction h with
  | nil => exact List.nodup_nil
  | @cons p mp pts mps hr hrest ih =>
      obtain ⟨hnew, hnodup⟩ := List.nodup_cons.mp hnodup
      refine List.nodup_cons.mpr ⟨fun hmem => ?_, ih hnodup⟩
      obtain ⟨q, hq, htag⟩ := List.mem_map.mp hmem
      obtain ⟨mq, hmq, hrq⟩ := exists_left_of_mem hrest.flip hq
      have hsame : mq = mp := Option.some.inj (hrq.byTag.symm.trans (htag ▸ hr.byTag))
      exact hnew (hsame ▸ List.mem_map_of_mem hmq)

-- What is said of the points of each device is said of all of them.
theorem refers_of_holds {bs : List Batch} {ds : List (LogicalDevice × List MappedPoint)}
    (h : List.Forall₂ (Holds pl toLower conn) bs ds) :
    List.Forall₂ (fun p mp => ∃ d ∈ ds.map Prod.fst, Refers toLower d p mp)
      (bs.flatMap Batch.points) (ds.flatMap Prod.snd) := by
  have hmem : List.Forall₂ (fun d b => d ∈ ds ∧ Holds pl toLower conn b d) ds bs :=
    (List.forall₂_and_left ds bs).mpr ⟨fun d hd => hd, h.flip⟩
  refine List.rel_flatMap hmem.flip fun b d hd => ?_
  exact hd.2.refers.imp fun p mp hrefers => ⟨d.1, List.mem_map_of_mem hd.1, hrefers⟩

theorem text_device {d : LogicalDevice × List MappedPoint} {b : Batch}
    (h : Holds pl toLower conn b d) {mp : MappedPoint} (hmp : mp ∈ d.2) :
    ∃ r : Reference, r.Valid ∧ r.device = d.1.name ∧ mp.objRef = r.text := by
  obtain ⟨p, -, -, node, -, doName, hvalid, href, -⟩ := exists_left_of_mem h.refers hmp
  exact ⟨_, hvalid, rfl, href⟩

-- References of different devices are different.
theorem nodup_references {bs : List Batch} {ds : List (LogicalDevice × List MappedPoint)}
    (h : List.Forall₂ (Holds pl toLower conn) bs ds) (hnames : (ds.map fun d => d.1.name).Nodup) :
    ((ds.flatMap Prod.snd).map MappedPoint.objRef).Nodup := by
  induction h with
  | nil => exact List.nodup_nil
  | @cons b d bs ds hd hrest ih =>
      obtain ⟨hnew, hnames⟩ := List.nodup_cons.mp hnames
      rw [List.flatMap_cons, List.map_append, List.nodup_append]
      refine ⟨hd.nodup, ih hnames, fun ref hleft ref' hright heq => ?_⟩
      obtain ⟨mp, hmp, rfl⟩ := List.mem_map.mp hleft
      obtain ⟨mp', hmp', rfl⟩ := List.mem_map.mp hright
      obtain ⟨d', hd', hmp'⟩ := List.mem_flatMap.mp hmp'
      obtain ⟨b', -, hholds⟩ := exists_left_of_mem hrest hd'
      obtain ⟨r, hr, hdevice, htext⟩ := text_device hd hmp
      obtain ⟨r', hr', hdevice', htext'⟩ := text_device hholds hmp'
      obtain rfl := Reference.text_inj hr hr' (htext.symm.trans (heq.trans htext'))
      exact hnew (List.mem_map.mpr ⟨d', hd', hdevice'.symm.trans hdevice⟩)

theorem perm_entries {bs : List Batch} {ds : List (LogicalDevice × List MappedPoint)}
    (h : List.Forall₂ (Holds pl toLower conn) bs ds) :
    (ds.flatMap fun d => d.1.entries).Perm
      (((ds.flatMap Prod.snd).filter fun mp => !mp.isCommand).map entryOf) := by
  induction h with
  | nil => exact .refl _
  | cons hd _ ih =>
      rw [List.flatMap_cons, List.flatMap_cons, List.filter_append, List.map_append]
      exact hd.entries.append ih

theorem count_entries {mps : List MappedPoint} (hnodup : (mps.map MappedPoint.objRef).Nodup)
    {mp : MappedPoint} (hmp : mp ∈ mps) :
    (((mps.filter fun mp => !mp.isCommand).map entryOf).map Fcda.ref).count mp.objRef =
      if mp.isCommand then 0 else 1 := by
  rw [List.map_map]
  change ((mps.filter fun mp => !mp.isCommand).map MappedPoint.objRef).count mp.objRef = _
  split_ifs with hcmd
  · rw [List.count_eq_zero]
    intro hmem
    obtain ⟨other, hother, heq⟩ := List.mem_map.mp hmem
    obtain ⟨hother, hmonitored⟩ := List.mem_filter.mp hother
    obtain rfl := List.inj_on_of_nodup_map hnodup hother hmp heq
    simp [hcmd] at hmonitored
  · refine List.count_eq_one_of_mem (hnodup.sublist (List.filter_sublist.map _)) ?_
    exact List.mem_map_of_mem (List.mem_filter.mpr ⟨hmp, by simpa using hcmd⟩)

theorem represents_of_refers {built : BuiltModel} {pts : List Point}
    (hrefers : List.Forall₂ (fun p mp => ∃ d ∈ built.model.devices, Refers toLower d p mp)
      pts built.order)
    (hentries : built.entries.Perm ((built.order.filter fun mp => !mp.isCommand).map entryOf))
    (hbyTag : built.byTag = (built.order.map fun mp => (mp.tag, mp)).reverse)
    (hbyCtlObjRef : built.byCtlObjRef =
      ((built.order.filter MappedPoint.isCommand).map fun mp => (mp.objRef, mp)).reverse)
    (hrefs : (built.order.map MappedPoint.objRef).Nodup) (hpts : (pts.map fun p => p.tag).Nodup) :
    List.Forall₂ (Represents toLower built) pts built.order := by
  have hsame : List.Forall₂ (fun p mp => p.tag = mp.tag) pts built.order :=
    hrefers.imp fun p mp ⟨d, _, hmapped, _⟩ => (congrArg MappedPoint.tag hmapped).symm
  have htags : pts.map (fun p => p.tag) = built.order.map MappedPoint.tag := by
    rw [← List.forall₂_eq_eq_eq, List.forall₂_map_left_iff, List.forall₂_map_right_iff]
    exact hsame
  rw [htags] at hpts
  have hmem : List.Forall₂ (fun mp p => mp ∈ built.order ∧ ∃ d ∈ built.model.devices,
      Refers toLower d p mp) built.order pts :=
    (List.forall₂_and_left _ _).mpr ⟨fun mp hmp => hmp, hrefers.flip⟩
  refine hmem.flip.imp fun p mp ⟨hmp, d, hd, hrefers⟩ => ?_
  have hcommand : mp.isCommand = p.isCommand := congrArg MappedPoint.isCommand hrefers.1
  have htag : mp.tag = p.tag := congrArg MappedPoint.tag hrefers.1
  refine ⟨⟨d, hd, hrefers⟩, ?_, ?_, ?_⟩
  · rw [(hentries.map Fcda.ref).count_eq, count_entries hrefs hmp, hcommand]
  · rw [← htag, hbyTag, lookup_byTag hmp hpts]
  · rw [hbyCtlObjRef, lookup_byCtlObjRef hmp hrefs, hcommand]

-- The names of the devices, the name of the IED before those of the instances.
theorem nodup_names (used : List String) (bs : List Batch) :
    ((buildDevices pl toLower conn used bs).map fun d => d.1.name).Nodup := by
  have hnames : ((buildDevices pl toLower conn used bs).map fun d => d.1.name) =
      ((buildDevices pl toLower conn used bs).map fun d => d.1.inst).map (iedName conn ++ ·) := by
    rw [List.map_map]
    refine List.map_congr_left fun d hd => ?_
    obtain ⟨b, -, ctx, -, -, hname, -⟩ :=
      exists_left_of_mem (holds_buildDevices pl toLower conn used bs) hd
    exact hname
  rw [hnames]
  refine (inst_buildDevices pl toLower conn used bs).1.map fun a b hab => ?_
  have hlist := congrArg String.toList hab
  rw [String.toList_append, String.toList_append, List.append_cancel_left_eq] at hlist
  exact String.toList_inj.mp hlist

variable (pl toLower conn points)

def devicesOf : List (LogicalDevice × List MappedPoint) :=
  buildDevices pl toLower conn [] (batches pl conn points)

theorem buildModel_eq :
    (buildModel pl toLower conn points).model.devices =
        (devicesOf toLower pl conn points).map Prod.fst ∧
      (buildModel pl toLower conn points).order =
        (devicesOf toLower pl conn points).flatMap Prod.snd := by
  unfold buildModel
  dsimp only
  rw [foldl_addPoint]
  exact ⟨rfl, List.nil_append _⟩

theorem tables_buildModel :
    (buildModel pl toLower conn points).byTag =
        ((buildModel pl toLower conn points).order.map fun mp => (mp.tag, mp)).reverse ∧
      (buildModel pl toLower conn points).byCtlObjRef =
        (((buildModel pl toLower conn points).order.filter MappedPoint.isCommand).map
          fun mp => (mp.objRef, mp)).reverse := by
  unfold buildModel
  dsimp only
  rw [foldl_addPoint]
  exact ⟨List.append_nil _, List.append_nil _⟩

theorem mem_devices {d : LogicalDevice} :
    d ∈ (buildModel pl toLower conn points).model.devices ↔
      ∃ mps, (d, mps) ∈ devicesOf toLower pl conn points := by
  rw [(buildModel_eq toLower pl conn points).1, List.mem_map]
  exact ⟨fun ⟨e, he, hd⟩ => ⟨e.2, hd ▸ he⟩, fun ⟨mps, hmem⟩ => ⟨_, hmem, rfl⟩⟩

theorem holds_of_mem {d : LogicalDevice × List MappedPoint}
    (hd : d ∈ devicesOf toLower pl conn points) :
    ∃ b ∈ batches pl conn points, Holds pl toLower conn b d :=
  exists_left_of_mem (holds_buildDevices pl toLower conn [] (batches pl conn points)) hd

-- Points with different tags are all found at their objects.
theorem represents_buildModel (htags : (points.map fun p => p.tag).Nodup) :
    List.Forall₂ (Represents toLower (buildModel pl toLower conn points))
      ((batches pl conn points).flatMap Batch.points) (buildModel pl toLower conn points).order := by
  have hholds := holds_buildDevices pl toLower conn [] (batches pl conn points)
  have hperm : ((batches pl conn points).flatMap Batch.points).Perm points := perm_batches points
  obtain ⟨hdevices, horder⟩ := buildModel_eq toLower pl conn points
  obtain ⟨hbyTag, hbyCtlObjRef⟩ := tables_buildModel toLower pl conn points
  refine represents_of_refers ?_ ?_ hbyTag hbyCtlObjRef ?_ ((hperm.map _).nodup_iff.mpr htags)
  · rw [hdevices, horder]
    exact refers_of_holds hholds
  · rw [BuiltModel.entries, hdevices, horder, List.flatMap_map]
    exact perm_entries hholds
  · rw [horder]
    exact nodup_references hholds (nodup_names [] _)

-- Only the tags and the report control block instances depend on the points and the clients.
theorem buildModel_wellBuilt_iff :
    WellBuilt toLower (buildModel pl toLower conn points) points ↔
      (points.map fun p => p.tag).Nodup ∧ (maxClients pl conn ≤ 3 ∨
        ∀ g1 i, OneKind toLower (run points entriesPerDataSet g1 i)) := by
  rw [← instances_batches_iff]
  obtain ⟨hdevices, horder⟩ := buildModel_eq toLower pl conn points
  constructor
  · intro h
    refine ⟨?_, fun b hb => ?_⟩
    · obtain ⟨pts, hperm, hrepresents⟩ := h.points
      exact (hperm.map _).nodup_iff.mp (nodup_tags_of_represents hrepresents h.references)
    · obtain ⟨d, hd, hholds⟩ : ∃ d ∈ devicesOf toLower pl conn points,
          Holds pl toLower conn b d :=
        exists_left_of_mem (holds_buildDevices pl toLower conn [] (batches pl conn points)).flip hb
      obtain ⟨⟨node, hnode, hcls⟩, hinstances⟩ := hholds.instances true
      rw [← hinstances node hnode hcls]
      exact h.reports d.1 (hdevices ▸ List.mem_map_of_mem hd) node hnode hcls true
  · rintro ⟨htags, hinstances⟩
    refine ⟨?_, ?_, ?_, ?_, ?_, ?_, ?_⟩
    · intro d hd node hnode hcls buffered
      obtain ⟨mps, hmem⟩ := (mem_devices toLower pl conn points).mp hd
      obtain ⟨b, hb, hholds⟩ := holds_of_mem toLower pl conn points hmem
      rw [(hholds.instances buffered).2 node hnode hcls]
      exact hinstances b hb
    · intro d hd node hnode hcls
      obtain ⟨mps, hmem⟩ := (mem_devices toLower pl conn points).mp hd
      obtain ⟨b, -, hholds⟩ := holds_of_mem toLower pl conn points hmem
      exact hholds.budget hnode hcls
    · intro d hd node hnode ds hds
      obtain ⟨mps, hmem⟩ := (mem_devices toLower pl conn points).mp hd
      obtain ⟨b, -, hholds⟩ := holds_of_mem toLower pl conn points hmem
      exact hholds.dataSets hnode hds
    · intro d hd
      obtain ⟨mps, hmem⟩ := (mem_devices toLower pl conn points).mp hd
      obtain ⟨b, -, hholds⟩ := holds_of_mem toLower pl conn points hmem
      exact hholds.isIdentifier
    · rw [hdevices, List.map_map]
      exact nodup_names [] _
    · rw [horder]
      exact nodup_references (holds_buildDevices pl toLower conn [] _) (nodup_names [] _)
    · exact ⟨_, perm_batches points, represents_buildModel toLower pl conn points htags⟩

-- A status and a measurand in one topic, for four clients.
def fourClients : ServerConnection := ⟨"IEC61850SRV", .fin 4, .fin 1000⟩

def samplePoint (id : ℤ) (tag type : String) : Point where
  id := .fin id
  tag := tag
  type := type
  origin := "supervised"
  group1 := "T"
  value := .fin 0
  valueString := ""
  invalid := false
  substituted := false
  overflow := false
  transient := false
  timeTagAtSource := none
  timeTagAtSourceOk := false
  description := ""
  kconv1 := .fin 1
  kconv2 := .fin 0
  srcConnectionNumber := .fin 1
  srcCommonAddress := .null
  srcObjectAddress := .null
  srcASDU := .null
  srcCommandDuration := .fin 0
  srcCommandUseSBO := false

def mixedTopic : List Point := [samplePoint 1 "D1" "digital", samplePoint 2 "A1" "analog"]

theorem mixedTopic_eight_instances :
    ¬WellBuilt String.toLower
      (buildModel Iec60870.plainPlatform String.toLower fourClients mixedTopic) mixedTopic := by
  intro h
  have hnode : (buildModel Iec60870.plainPlatform String.toLower fourClients
      mixedTopic).model.devices.any (fun d => d.nodes.any fun node =>
        decide (node.cls = "LLN0") && decide (maxRcbPerLLN0 < node.instances true)) = true := by
    decide +kernel
  obtain ⟨d, hd, hnode⟩ := List.any_eq_true.mp hnode
  obtain ⟨node, hnode, hmany⟩ := List.any_eq_true.mp hnode
  rw [Bool.and_eq_true, decide_eq_true_iff, decide_eq_true_iff] at hmany
  exact absurd (h.reports d hd node hnode hmany.1 true) (Nat.not_le.mpr hmany.2)

end WellBuilt

end JsonScada.Iec61850.Server.ModelBuilder
