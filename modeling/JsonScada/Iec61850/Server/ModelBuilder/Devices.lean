import Mathlib.Algebra.BigOperators.Group.List.Basic
import JsonScada.Iec61850.Server.ModelBuilder.Layout

-- What each logical device of a model holds.
namespace JsonScada.Iec61850.Server.ModelBuilder

open JsonScada.Library
open JsonScada.Iec60870 (Platform)

section Contents

-- The report control block instances of a family: one for each client that a block is enabled for.
def instancesOf (buffered : Bool) (blocks : List ReportControl) : ℕ :=
  ((blocks.filter fun rc => rc.buffered = buffered).map ReportControl.rptEnabled).sum

def LogicalNode.instances (buffered : Bool) (node : LogicalNode) : ℕ :=
  instancesOf buffered node.reportControls

def LogicalDevice.entries (d : LogicalDevice) : List Fcda :=
  d.nodes.flatMap fun node => node.dataSets.flatMap DataSet.entries

theorem instancesOf_append (buffered : Bool) (blocks blocks' : List ReportControl) :
    instancesOf buffered (blocks ++ blocks') =
      instancesOf buffered blocks + instancesOf buffered blocks' := by
  simp [instancesOf]

theorem instancesOf_addReportControls (buffered : Bool) (dsName cat : String) (dsIdx : ℕ)
    (confRev : UInt32) (copies : ℕ) (maxQueueSize : ℤ) :
    instancesOf buffered (addReportControls dsName cat dsIdx confRev copies maxQueueSize) =
      copies := by
  cases buffered <;> simp [instancesOf, addReportControls]

-- Every data set adds the instances of its two blocks.
theorem instancesOf_mapIdx {buffered : Bool} {copies : ℕ} (chunks : List (List Fcda))
    (f : ℕ → List Fcda → DataSet × List ReportControl)
    (hf : ∀ i c, instancesOf buffered (f i c).2 = copies) :
    instancesOf buffered ((chunks.mapIdx f).flatMap Prod.snd) = copies * chunks.length := by
  induction chunks generalizing f with
  | nil => rfl
  | cons c chunks ih =>
      rw [List.mapIdx_cons, List.flatMap_cons, instancesOf_append, hf, ih _ fun i c => hf (i + 1) c,
        List.length_cons, Nat.mul_succ, Nat.add_comm]

theorem entries_mapIdx (chunks : List (List Fcda))
    (f : ℕ → List Fcda → DataSet × List ReportControl) (hf : ∀ i c, (f i c).1.entries = c) :
    ((chunks.mapIdx f).map Prod.fst).flatMap DataSet.entries = chunks.flatten := by
  induction chunks generalizing f with
  | nil => rfl
  | cons c chunks ih =>
      rw [List.mapIdx_cons, List.map_cons, List.flatMap_cons, hf, ih _ fun i c => hf (i + 1) c,
        List.flatten_cons]

theorem instancesOf_categorySets (buffered : Bool) (cat : String) (entries : List Fcda)
    (confRev : UInt32) (copies : ℕ) (maxQueueSize : ℤ) :
    instancesOf buffered ((categorySets cat entries confRev copies maxQueueSize).flatMap Prod.snd) =
      copies * Chunks.count entriesPerDataSet entries.length := by
  rw [categorySets, instancesOf_mapIdx _ _ fun i c => instancesOf_addReportControls ..,
    Chunks.length_chunks]

theorem entries_categorySets (cat : String) (entries : List Fcda) (confRev : UInt32) (copies : ℕ)
    (maxQueueSize : ℤ) :
    ((categorySets cat entries confRev copies maxQueueSize).map Prod.fst).flatMap DataSet.entries =
      entries := by
  rw [categorySets, entries_mapIdx _ _ fun i c => rfl, Chunks.flatten_chunks (by decide)]

theorem length_of_mem_categorySets {cat : String} {entries : List Fcda} {confRev : UInt32}
    {copies : ℕ} {maxQueueSize : ℤ} {s : DataSet × List ReportControl}
    (h : s ∈ categorySets cat entries confRev copies maxQueueSize) :
    s.1.entries.length ≤ entriesPerDataSet := by
  obtain ⟨i, hi, rfl⟩ := List.mem_mapIdx.mp h
  exact Chunks.length_le_of_mem (List.getElem_mem hi)

end Contents

section Nodes

variable {pl : Platform} {conn : ServerConnection} {ctx : LdContext} {node : LogicalNode}

theorem mem_deviceNodes (h : Nodes ctx) :
    node ∈ deviceNodes pl conn ctx ↔
      node = lln0 pl conn ctx ∨ node = lphd1 ∨ ∃ idx, ctx.ggios idx = some node := by
  rw [deviceNodes, List.mem_cons, List.mem_cons, List.mem_filterMap]
  refine or_congr_right (or_congr_right ⟨fun ⟨i, _, hi⟩ => ⟨i + 1, hi⟩, fun ⟨idx, hidx⟩ => ?_⟩)
  obtain ⟨hpos, hle⟩ := h.range idx node hidx
  refine ⟨idx - 1, List.mem_range.mpr (by omega), ?_⟩
  rw [Nat.sub_add_cancel hpos]
  exact hidx

theorem instances_lln0 (buffered : Bool) (ctx : LdContext) :
    (lln0 pl conn ctx).instances buffered =
      (computeModelBounds pl conn).rcbCopies *
        (Chunks.count entriesPerDataSet ctx.statusEntries.length +
          Chunks.count entriesPerDataSet ctx.mxEntries.length) := by
  rw [LogicalNode.instances, lln0, buildDataSetsAndReports]
  dsimp only
  rw [List.flatMap_append, instancesOf_append, instancesOf_categorySets, instancesOf_categorySets,
    Nat.mul_add]

-- The data sets of a device are those of its LLN0.
theorem entries_deviceNodes (h : Nodes ctx) :
    (deviceNodes pl conn ctx).flatMap (fun node => node.dataSets.flatMap DataSet.entries) =
      ctx.statusEntries ++ ctx.mxEntries := by
  have hggios : ((List.range ctx.ggioIdx).filterMap fun i => ctx.ggios (i + 1)).flatMap
      (fun node => node.dataSets.flatMap DataSet.entries) = [] := by
    rw [List.flatMap_eq_nil_iff]
    intro node hnode
    obtain ⟨i, -, hi⟩ := List.mem_filterMap.mp hnode
    rw [(h.ggio _ node hi).dataSets]
    rfl
  rw [deviceNodes, List.flatMap_cons, List.flatMap_cons, hggios]
  show (_ : List Fcda) ++ ([] ++ []) = _
  rw [List.append_nil, List.append_nil, lln0, buildDataSetsAndReports]
  dsimp only
  rw [List.map_append, List.flatMap_append, entries_categorySets, entries_categorySets]

theorem length_of_mem_dataSets (h : Nodes ctx) (hnode : node ∈ deviceNodes pl conn ctx)
    {ds : DataSet} (hds : ds ∈ node.dataSets) : ds.entries.length ≤ entriesPerDataSet := by
  rcases (mem_deviceNodes h).mp hnode with rfl | rfl | ⟨idx, hidx⟩
  · obtain ⟨s, hs, rfl⟩ := List.mem_map.mp hds
    rcases List.mem_append.mp hs with hs | hs
    · exact length_of_mem_categorySets hs
    · exact length_of_mem_categorySets hs
  · cases hds
  · rw [(h.ggio idx node hidx).dataSets] at hds
    cases hds

theorem budget_of_mem (h : Nodes ctx) (hnode : node ∈ deviceNodes pl conn ctx)
    (hcls : node.cls = "GGIO") : nodeCost node ≤ maxDataObjectsPerLN := by
  rcases (mem_deviceNodes h).mp hnode with rfl | rfl | ⟨idx, hidx⟩
  · exact absurd (show "LLN0" = "GGIO" from hcls) (by decide)
  · exact absurd (show "LPHD" = "GGIO" from hcls) (by decide)
  · exact h.budget idx node hidx

theorem eq_lln0_of_mem (h : Nodes ctx) (hnode : node ∈ deviceNodes pl conn ctx)
    (hcls : node.cls = "LLN0") : node = lln0 pl conn ctx := by
  rcases (mem_deviceNodes h).mp hnode with rfl | rfl | ⟨idx, hidx⟩
  · rfl
  · exact absurd (show "LPHD" = "LLN0" from hcls) (by decide)
  · rw [(h.ggio idx node hidx).cls] at hcls
    exact absurd hcls (by decide)

end Nodes

section Devices

variable (pl : Platform) (toLower : String → String) (conn : ServerConnection)

-- A logical device holds the points of its batch.
def Holds (b : Batch) (d : LogicalDevice × List MappedPoint) : Prop :=
  ∃ ctx, Laid toLower ctx b.points d.2 ∧ d.1.name = ctx.ldName ∧
    d.1.name = iedName conn ++ d.1.inst ∧ d.1.nodes = deviceNodes pl conn ctx

theorem holds_buildDevice (used : List String) (b : Batch) :
    Holds pl toLower conn b (buildDevice pl toLower conn used b) := by
  unfold buildDevice
  dsimp only
  generalize hinst : uniqueName (String.ofList (sanitizeMms b.name (ldNameBudget conn))) used = inst
  have hidentifier : IsIdentifier inst :=
    hinst ▸ isIdentifier_uniqueName (isIdentifier_sanitizeMms _ _)
  obtain ⟨hlaid, hname⟩ := (laid_start toLower
    ((isIdentifier_iedName conn).append hidentifier.all)).mapPoints b.points
  exact ⟨_, hlaid, hname.symm, rfl, rfl⟩

theorem holds_buildDevices (used : List String) (bs : List Batch) :
    List.Forall₂ (Holds pl toLower conn) bs (buildDevices pl toLower conn used bs) := by
  induction bs generalizing used with
  | nil => exact .nil
  | cons b bs ih => exact .cons (holds_buildDevice pl toLower conn used b) (ih _)

theorem inst_buildDevice_notMem (used : List String) (b : Batch) :
    (buildDevice pl toLower conn used b).1.inst ∉ used := (uniqueName_spec _ used).1

-- No instance name is given twice.
theorem inst_buildDevices (used : List String) (bs : List Batch) :
    ((buildDevices pl toLower conn used bs).map fun d => d.1.inst).Nodup ∧
      ∀ d ∈ buildDevices pl toLower conn used bs, d.1.inst ∉ used := by
  induction bs generalizing used with
  | nil => exact ⟨List.nodup_nil, by simp [buildDevices]⟩
  | cons b bs ih =>
      obtain ⟨hnodup, hnew⟩ := ih (used ++ [(buildDevice pl toLower conn used b).1.inst])
      rw [buildDevices]
      constructor
      · rw [List.map_cons, List.nodup_cons]
        refine ⟨fun hmem => ?_, hnodup⟩
        obtain ⟨d, hd, heq⟩ := List.mem_map.mp hmem
        exact hnew d hd (heq ▸ List.mem_append_right _ (List.mem_singleton_self _))
      · intro d hd
        rcases List.mem_cons.mp hd with rfl | hd
        · exact inst_buildDevice_notMem pl toLower conn used b
        · exact fun hmem => hnew d hd (List.mem_append_left _ hmem)

variable {pl toLower conn} {b : Batch} {d : LogicalDevice × List MappedPoint}

theorem Holds.isIdentifier (h : Holds pl toLower conn b d) : IsIdentifier d.1.name := by
  obtain ⟨ctx, hlaid, hname, -, -⟩ := h
  exact hname ▸ hlaid.identifier

theorem Holds.budget (h : Holds pl toLower conn b d) {node : LogicalNode} (hnode : node ∈ d.1.nodes)
    (hcls : node.cls = "GGIO") : nodeCost node ≤ maxDataObjectsPerLN := by
  obtain ⟨ctx, hlaid, -, -, hnodes⟩ := h
  exact budget_of_mem hlaid.nodes (hnodes ▸ hnode) hcls

theorem Holds.dataSets (h : Holds pl toLower conn b d) {node : LogicalNode}
    (hnode : node ∈ d.1.nodes) {ds : DataSet} (hds : ds ∈ node.dataSets) :
    ds.entries.length ≤ entriesPerDataSet := by
  obtain ⟨ctx, hlaid, -, -, hnodes⟩ := h
  exact length_of_mem_dataSets hlaid.nodes (hnodes ▸ hnode) hds

theorem Holds.nodup (h : Holds pl toLower conn b d) : (d.2.map MappedPoint.objRef).Nodup := by
  obtain ⟨ctx, hlaid, -, -, -⟩ := h
  exact hlaid.nodup

-- A reference names a data object of its device.
def Refers (toLower : String → String) (d : LogicalDevice) (p : Point) (mp : MappedPoint) : Prop :=
  mp = mapped toLower p (kindAt toLower p) mp.objRef ∧
    ∃ node ∈ d.nodes, ∃ doName, (Reference.mk d.name node.name doName).Valid ∧
      mp.objRef = (Reference.mk d.name node.name doName).text ∧
        dataObject p (kindAt toLower p) doName ∈ node.objects

theorem Holds.refers (h : Holds pl toLower conn b d) :
    List.Forall₂ (Refers toLower d.1) b.points d.2 := by
  obtain ⟨ctx, hlaid, hname, -, hnodes⟩ := h
  refine hlaid.stands.imp fun p mp hstands => ?_
  obtain ⟨hmapped, idx, number, href, -, node, hnode, hobject⟩ := hstands
  have hggio := (hlaid.nodes.ggio idx node hnode).name
  refine ⟨hmapped, node, ?_, stemAt toLower p ++ toString number, ?_, ?_, hobject⟩
  · rw [hnodes, mem_deviceNodes hlaid.nodes]
    exact .inr (.inr ⟨idx, hnode⟩)
  · rw [hname, hggio]
    exact place_valid hlaid.identifier (stem_mem _ _) idx number
  · rw [hname, hggio]
    exact href

-- The entries of a device are those of its monitored points.
theorem Holds.entries (h : Holds pl toLower conn b d) :
    d.1.entries.Perm ((d.2.filter fun mp => !mp.isCommand).map entryOf) := by
  obtain ⟨ctx, hlaid, -, -, hnodes⟩ := h
  rw [LogicalDevice.entries, hnodes, entries_deviceNodes hlaid.nodes, hlaid.status, hlaid.measured,
    entriesOf, entriesOf, ← List.map_append]
  apply List.Perm.map
  have hsplit := List.filter_append_perm (fun mp : MappedPoint => mp.fc = .st)
    (d.2.filter fun mp => !mp.isCommand)
  refine .trans (.of_eq ?_) hsplit
  rw [List.filter_filter, List.filter_filter]
  congr 1
  · refine List.filter_congr fun mp _ => ?_
    rw [MappedPoint.monitored, Bool.and_comm]
  · refine List.filter_congr fun mp _ => ?_
    rw [MappedPoint.monitored, Bool.and_comm]
    cases mp.fc <;> rfl

end Devices

end JsonScada.Iec61850.Server.ModelBuilder
