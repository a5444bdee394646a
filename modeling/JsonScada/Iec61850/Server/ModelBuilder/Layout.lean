import JsonScada.Iec61850.Server.ModelBuilder.Names

-- What laying out the points of one logical device keeps.
namespace JsonScada.Iec61850.Server.ModelBuilder

open JsonScada.Library

section Costs

def objectCost (o : DataObject) : ℕ :=
  match o.cdc with
  | some .vss => 8
  | some .ens => 0
  | _ => 1

def nodeCost (node : LogicalNode) : ℕ := (node.objects.map objectCost).sum

theorem objectCost_dataObject (p : Point) (typ doName : String) :
    objectCost (dataObject p (kindOf p.isCommand typ).1 doName) =
      doCost (kindOf p.isCommand typ).1 := by
  unfold dataObject kindOf
  cases p.isCommand with
  | true => by_cases h : typ = "analog" <;> simp [h, objectCost, newCommandObject, doCost]
  | false =>
      by_cases h : typ = "analog"
      · simp [h, objectCost, newMonitorObject, doCost]
      · by_cases h' : typ = "string" ∨ typ = "json" <;>
          simp [h, h', objectCost, newMonitorObject, doCost]

theorem name_dataObject (p : Point) (kind : PointKind) (doName : String) :
    (dataObject p kind doName).name = doName := by
  unfold dataObject
  cases p.isCommand <;> rfl

theorem doCost_bounds (kind : PointKind) : 1 ≤ doCost kind ∧ doCost kind ≤ 8 := by
  cases kind <;> decide

end Costs

section Entries

def entryOf (mp : MappedPoint) : Fcda := ⟨mp.objRef, mp.fc⟩

def MappedPoint.monitored (fc : Fc) (mp : MappedPoint) : Bool := !mp.isCommand && mp.fc = fc

-- The entries of some points for the data sets of one category.
def entriesOf (fc : Fc) (mps : List MappedPoint) : List Fcda :=
  (mps.filter (MappedPoint.monitored fc)).map entryOf

theorem entriesOf_append (fc : Fc) (mps mps' : List MappedPoint) :
    entriesOf fc (mps ++ mps') = entriesOf fc mps ++ entriesOf fc mps' := by
  simp [entriesOf]

theorem enter_entries (ctx : LdContext) (mp : MappedPoint) :
    (ctx.enter mp).statusEntries = ctx.statusEntries ++ entriesOf .st [mp] ∧
      (ctx.enter mp).mxEntries = ctx.mxEntries ++ entriesOf .mx [mp] := by
  unfold LdContext.enter entriesOf
  dsimp only
  cases hcmd : mp.isCommand with
  | true => simp [MappedPoint.monitored, hcmd]
  | false => cases hfc : mp.fc <;> simp [MappedPoint.monitored, hcmd, hfc, entryOf]

-- Only the entries change.
theorem enter_rest (ctx : LdContext) (mp : MappedPoint) :
    (ctx.enter mp).ldName = ctx.ldName ∧ (ctx.enter mp).ggios = ctx.ggios ∧
      (ctx.enter mp).ggioIdx = ctx.ggioIdx ∧ (ctx.enter mp).ggioCost = ctx.ggioCost ∧
        (ctx.enter mp).counters = ctx.counters := by
  unfold LdContext.enter
  dsimp only
  split_ifs <;> exact ⟨rfl, rfl, rfl, rfl, rfl⟩

theorem withRoom_rest (ctx : LdContext) (cost : ℕ) :
    (ctx.withRoom cost).ldName = ctx.ldName ∧
      (ctx.withRoom cost).statusEntries = ctx.statusEntries ∧
        (ctx.withRoom cost).mxEntries = ctx.mxEntries := by
  unfold LdContext.withRoom
  split_ifs <;> exact ⟨rfl, rfl, rfl⟩

end Entries

section Nodes

variable (toLower : String → String)

def kindAt (p : Point) : PointKind := (kindOf p.isCommand (toLower p.type)).1

def stemAt (p : Point) : String := (kindOf p.isCommand (toLower p.type)).2

-- A place that has been given away.
def Taken (ctx : LdContext) (idx : ℕ) (stem : String) (number : ℕ) : Prop :=
  idx < ctx.ggioIdx ∨ idx = ctx.ggioIdx ∧ number ≤ ctx.counters stem

-- A mapped point has its object at its reference.
def Stands (ctx : LdContext) (p : Point) (mp : MappedPoint) : Prop :=
  mp = mapped toLower p (kindAt toLower p) mp.objRef ∧
    ∃ idx number, mp.objRef = (place ctx.ldName idx (stemAt toLower p) number).text ∧
      Taken ctx idx (stemAt toLower p) number ∧ ∃ node, ctx.ggios idx = some node ∧
        dataObject p (kindAt toLower p) (stemAt toLower p ++ toString number) ∈ node.objects

structure Ggio (idx : ℕ) (node : LogicalNode) : Prop where
  name : node.name = ggioName idx
  cls : node.cls = "GGIO"
  dataSets : node.dataSets = []
  reportControls : node.reportControls = []

-- The nodes are numbered from 1 up to the open one, and within their budget.
structure Nodes (ctx : LdContext) : Prop where
  ggio : ∀ idx node, ctx.ggios idx = some node → Ggio idx node
  budget : ∀ idx node, ctx.ggios idx = some node → nodeCost node ≤ maxDataObjectsPerLN
  range : ∀ idx node, ctx.ggios idx = some node → 1 ≤ idx ∧ idx ≤ ctx.ggioIdx

-- A node for a point is open, with its cost counted and room for the point.
structure Room (ctx : LdContext) (cost : ℕ) : Prop where
  nodes : Nodes ctx
  pos : 1 ≤ ctx.ggioIdx
  ggio : Ggio ctx.ggioIdx (getOrCreateGgio ctx ctx.ggioIdx)
  spent : nodeCost (getOrCreateGgio ctx ctx.ggioIdx) = ctx.ggioCost
  room : ctx.ggioCost + cost ≤ maxDataObjectsPerLN

-- The cost is that of the open node; before the first one it is full.
def Counted (ctx : LdContext) : Prop :=
  (ctx.ggioIdx = 0 ∧ ctx.ggioCost = maxDataObjectsPerLN) ∨
    ∃ node, ctx.ggios ctx.ggioIdx = some node ∧ nodeCost node = ctx.ggioCost

variable {toLower} {ctx : LdContext} {cost : ℕ} {p : Point} {mp : MappedPoint}

theorem Nodes.withRoom (h : Nodes ctx) (cost : ℕ) : Nodes (ctx.withRoom cost) := by
  unfold LdContext.withRoom
  split_ifs
  · refine ⟨h.ggio, h.budget, fun idx node hnode => ?_⟩
    obtain ⟨hpos, hle⟩ := h.range idx node hnode
    exact ⟨hpos, Nat.le_succ_of_le hle⟩
  · exact h

theorem Nodes.room (h : Nodes ctx) (hcounted : Counted ctx) (hcost : 1 ≤ cost ∧ cost ≤ 8) :
    Room (ctx.withRoom cost) cost := by
  have hnodes := h.withRoom cost
  unfold LdContext.withRoom at hnodes ⊢
  split_ifs at hnodes ⊢ with hfull
  · -- the next node is opened, and there is none under its number yet
    have hnone : ctx.ggios (ctx.ggioIdx + 1) = none := by
      rw [Option.eq_none_iff_forall_ne_some]
      intro node hnode
      have hle := (h.range _ node hnode).2
      omega
    refine ⟨hnodes, Nat.succ_pos _, ?_, ?_, ?_⟩
    · simp only [getOrCreateGgio, hnone, Option.getD_none]
      constructor <;> rfl
    · simp [getOrCreateGgio, hnone, nodeCost, objectCost]
    · show 0 + cost ≤ 30
      omega
  · rcases hcounted with ⟨-, hspent⟩ | ⟨node, hnode, hspent⟩
    · omega
    · have hopen : getOrCreateGgio ctx ctx.ggioIdx = node := by
        rw [getOrCreateGgio, hnode, Option.getD_some]
      exact ⟨hnodes, (h.range _ node hnode).1, hopen ▸ h.ggio _ node hnode, hopen ▸ hspent,
        not_lt.mp hfull⟩

theorem Stands.withRoom (h : Stands toLower ctx p mp) (cost : ℕ) :
    Stands toLower (ctx.withRoom cost) p mp := by
  obtain ⟨hmapped, idx, number, href, htaken, hnode⟩ := h
  unfold LdContext.withRoom
  split_ifs
  · refine ⟨hmapped, idx, number, href, .inl ?_, hnode⟩
    show idx < ctx.ggioIdx + 1
    unfold Taken at htaken
    omega
  · exact ⟨hmapped, idx, number, href, htaken, hnode⟩

-- The node that is open after an object was put there.
def added (ctx : LdContext) (o : DataObject) : LogicalNode :=
  { getOrCreateGgio ctx ctx.ggioIdx with
    objects := (getOrCreateGgio ctx ctx.ggioIdx).objects ++ [o] }

theorem ggios_add_open (ctx : LdContext) (stem : String) (cost : ℕ) (o : DataObject) :
    (ctx.add stem cost o).ggios ctx.ggioIdx = some (added ctx o) := Function.update_self ..

theorem ggios_add_ne {idx : ℕ} (h : idx ≠ ctx.ggioIdx) (stem : String) (o : DataObject) :
    (ctx.add stem cost o).ggios idx = ctx.ggios idx := Function.update_of_ne h ..

theorem nodeCost_added (ctx : LdContext) (o : DataObject) :
    nodeCost (added ctx o) = nodeCost (getOrCreateGgio ctx ctx.ggioIdx) + objectCost o := by
  simp [nodeCost, added]

theorem Room.add (h : Room ctx cost) {o : DataObject} (ho : objectCost o = cost) (stem : String) :
    Nodes (ctx.add stem cost o) ∧ Counted (ctx.add stem cost o) := by
  have hcost : nodeCost (added ctx o) = ctx.ggioCost + cost := by
    rw [nodeCost_added, h.spent, ho]
  have hcases : ∀ idx node, (ctx.add stem cost o).ggios idx = some node →
      (idx = ctx.ggioIdx ∧ node = added ctx o) ∨ ctx.ggios idx = some node := by
    intro idx node hnode
    by_cases hidx : idx = ctx.ggioIdx
    · rw [hidx, ggios_add_open] at hnode
      exact .inl ⟨hidx, (Option.some.inj hnode).symm⟩
    · rw [ggios_add_ne hidx] at hnode
      exact .inr hnode
  refine ⟨⟨fun idx node hnode => ?_, fun idx node hnode => ?_, fun idx node hnode => ?_⟩,
    .inr ⟨_, ggios_add_open ctx stem cost o, hcost⟩⟩
  · rcases hcases idx node hnode with ⟨rfl, rfl⟩ | hold
    · exact ⟨h.ggio.name, h.ggio.cls, h.ggio.dataSets, h.ggio.reportControls⟩
    · exact h.nodes.ggio idx node hold
  · rcases hcases idx node hnode with ⟨rfl, rfl⟩ | hold
    · rw [hcost]
      exact h.room
    · exact h.nodes.budget idx node hold
  · rcases hcases idx node hnode with ⟨rfl, rfl⟩ | hold
    · exact ⟨h.pos, le_refl _⟩
    · exact h.nodes.range idx node hold

-- What stands goes on to stand.
theorem Stands.add (h : Stands toLower ctx p mp) (stem : String) (cost : ℕ) (o : DataObject) :
    Stands toLower (ctx.add stem cost o) p mp := by
  obtain ⟨hmapped, idx, number, href, htaken, node, hnode, hobject⟩ := h
  refine ⟨hmapped, idx, number, href, ?_, ?_⟩
  · rcases htaken with hlt | ⟨rfl, hle⟩
    · exact .inl hlt
    · refine .inr ⟨rfl, hle.trans ?_⟩
      show ctx.counters _ ≤ Function.update ctx.counters stem (ctx.counters stem + 1) _
      by_cases hstem : stemAt toLower p = stem
      · rw [hstem, Function.update_self]
        exact Nat.le_succ _
      · rw [Function.update_of_ne hstem]
  · by_cases hidx : idx = ctx.ggioIdx
    · subst hidx
      refine ⟨_, ggios_add_open ctx stem cost o, List.mem_append_left _ ?_⟩
      rw [getOrCreateGgio, hnode]
      exact hobject
    · exact ⟨node, (ggios_add_ne hidx stem o).trans hnode, hobject⟩

-- Entering a point into the data sets moves nothing.
theorem Stands.enter (h : Stands toLower ctx p mp) (mp' : MappedPoint) :
    Stands toLower (ctx.enter mp') p mp := by
  obtain ⟨hld, hggios, hidx, -, hcounters⟩ := enter_rest ctx mp'
  simpa only [Stands, Taken, hld, hggios, hidx, hcounters] using h

theorem Nodes.enter (h : Nodes ctx) (mp : MappedPoint) : Nodes (ctx.enter mp) := by
  obtain ⟨-, hggios, hidx, -, -⟩ := enter_rest ctx mp
  refine ⟨?_, ?_, ?_⟩
  · simpa only [hggios] using h.ggio
  · simpa only [hggios] using h.budget
  · simpa only [hggios, hidx] using h.range

theorem Counted.enter (h : Counted ctx) (mp : MappedPoint) : Counted (ctx.enter mp) := by
  obtain ⟨-, hggios, hidx, hcost, -⟩ := enter_rest ctx mp
  simpa only [Counted, hggios, hidx, hcost] using h

end Nodes

section Invariant

variable (toLower : String → String)

-- The points laid out so far, with the entries made for them.
structure Laid (ctx : LdContext) (pts : List Point) (mps : List MappedPoint) : Prop where
  identifier : IsIdentifier ctx.ldName
  nodes : Nodes ctx
  counted : Counted ctx
  stands : List.Forall₂ (Stands toLower ctx) pts mps
  nodup : (mps.map MappedPoint.objRef).Nodup
  status : ctx.statusEntries = entriesOf .st mps
  measured : ctx.mxEntries = entriesOf .mx mps

theorem laid_start {ldName : String} (h : IsIdentifier ldName) :
    Laid toLower { ldName := ldName } [] [] where
  identifier := h
  nodes := ⟨by simp, by simp, by simp⟩
  counted := .inl ⟨rfl, rfl⟩
  stands := .nil
  nodup := List.nodup_nil
  status := rfl
  measured := rfl

variable {toLower} {ctx : LdContext} {pts : List Point} {mps : List MappedPoint}

theorem exists_left_of_mem {α β : Type*} {R : α → β → Prop} {l : List α} {l' : List β}
    (h : List.Forall₂ R l l') {b : β} (hb : b ∈ l') : ∃ a ∈ l, R a b := by
  induction h with
  | nil => cases hb
  | cons hr _ ih =>
      rcases List.mem_cons.mp hb with rfl | hb
      · exact ⟨_, List.mem_cons_self, hr⟩
      · obtain ⟨a, ha, hab⟩ := ih hb
        exact ⟨a, List.mem_cons_of_mem _ ha, hab⟩

-- The next place is not taken yet.
theorem free_of_stands (hld : IsIdentifier ctx.ldName)
    (h : List.Forall₂ (Stands toLower ctx) pts mps) {stem : String} (hstem : stem ∈ stems) :
    (place ctx.ldName ctx.ggioIdx stem (ctx.counters stem + 1)).text ∉
      mps.map MappedPoint.objRef := by
  intro hmem
  obtain ⟨mp, hmp, href⟩ := List.mem_map.mp hmem
  obtain ⟨p, -, hstands⟩ := exists_left_of_mem h hmp
  obtain ⟨-, idx, number, href', htaken, -⟩ := hstands
  have hstem' : stemAt toLower p ∈ stems := stem_mem _ _
  have hplace := Reference.text_inj (place_valid hld hstem' idx number)
    (place_valid hld hstem ctx.ggioIdx (ctx.counters stem + 1)) (href'.symm.trans href)
  obtain ⟨-, rfl, hst, rfl⟩ := place_inj hstem' hstem hplace
  rw [Taken, hst] at htaken
  omega

-- What is left to do of a point once there is room for it.
def placed (toLower : String → String) (ctx : LdContext) (p : Point) : LdContext × MappedPoint :=
  let doName := stemAt toLower p ++ toString (ctx.counters (stemAt toLower p) + 1)
  let mp := mapped toLower p (kindAt toLower p) (objectRef ctx.ldName ctx.ggioIdx doName)
  ((ctx.add (stemAt toLower p) (doCost (kindAt toLower p))
    (dataObject p (kindAt toLower p) doName)).enter mp, mp)

theorem mapPoint_eq (ctx : LdContext) (p : Point) :
    mapPoint toLower ctx p = placed toLower (ctx.withRoom (doCost (kindAt toLower p))) p := rfl

theorem stands_placed (ctx : LdContext) (p : Point) :
    Stands toLower (placed toLower ctx p).1 p (placed toLower ctx p).2 := by
  have hadded : Stands toLower (ctx.add (stemAt toLower p) (doCost (kindAt toLower p))
      (dataObject p (kindAt toLower p)
        (stemAt toLower p ++ toString (ctx.counters (stemAt toLower p) + 1)))) p
      (placed toLower ctx p).2 := by
    refine ⟨rfl, ctx.ggioIdx, ctx.counters (stemAt toLower p) + 1, rfl, .inr ⟨rfl, ?_⟩, _,
      ggios_add_open .., List.mem_append_right _ List.mem_cons_self⟩
    exact (Function.update_self (stemAt toLower p) _ ctx.counters).ge
  exact hadded.enter _

theorem Stands.placed (h : Stands toLower ctx p mp) (q : Point) :
    Stands toLower (placed toLower ctx q).1 p mp :=
  (h.add _ _ _).enter _

theorem room_placed {p : Point} (h : Room ctx (doCost (kindAt toLower p))) :
    Nodes (placed toLower ctx p).1 ∧ Counted (placed toLower ctx p).1 := by
  obtain ⟨hnodes, hcounted⟩ := h.add
    (objectCost_dataObject p _ (stemAt toLower p ++ toString (ctx.counters (stemAt toLower p) + 1)))
    (stemAt toLower p)
  exact ⟨hnodes.enter _, hcounted.enter _⟩

-- One point more is laid out, in the same logical device.
theorem Laid.mapPoint (h : Laid toLower ctx pts mps) (p : Point) :
    Laid toLower (mapPoint toLower ctx p).1 (pts ++ [p]) (mps ++ [(mapPoint toLower ctx p).2]) ∧
      (ModelBuilder.mapPoint toLower ctx p).1.ldName = ctx.ldName := by
  rw [mapPoint_eq]
  have hroom := h.nodes.room h.counted (doCost_bounds (kindAt toLower p))
  obtain ⟨hname, hstatus, hmeasured⟩ := withRoom_rest ctx (doCost (kindAt toLower p))
  have hbefore := h.stands.imp fun _ _ hs => hs.withRoom (doCost (kindAt toLower p))
  have hfree := free_of_stands (hname ▸ h.identifier) hbefore
    (stem_mem p.isCommand (toLower p.type))
  generalize ctx.withRoom (doCost (kindAt toLower p)) = room at *
  obtain ⟨hnodes, hcounted⟩ := room_placed hroom
  have hld : (placed toLower room p).1.ldName = ctx.ldName := (enter_rest _ _).1.trans hname
  refine ⟨⟨hld ▸ h.identifier, hnodes, hcounted, ?_, ?_, ?_, ?_⟩, hld⟩
  · exact List.rel_append (hbefore.imp fun _ _ hs => hs.placed p)
      (.cons (stands_placed room p) .nil)
  · rw [List.map_append]
    exact List.nodup_append_comm.mpr (List.nodup_cons.mpr ⟨hfree, h.nodup⟩)
  · rw [entriesOf_append, ← h.status, ← hstatus]
    exact (enter_entries _ _).1
  · rw [entriesOf_append, ← h.measured, ← hmeasured]
    exact (enter_entries _ _).2

-- All points of a batch are laid out.
theorem Laid.mapPoints (h : Laid toLower ctx pts mps) (ps : List Point) :
    Laid toLower (mapPoints toLower ctx ps).1 (pts ++ ps) (mps ++ (mapPoints toLower ctx ps).2) ∧
      (ModelBuilder.mapPoints toLower ctx ps).1.ldName = ctx.ldName := by
  induction ps generalizing ctx pts mps with
  | nil =>
      refine ⟨?_, rfl⟩
      simpa only [ModelBuilder.mapPoints, List.append_nil] using h
  | cons p ps ih =>
      obtain ⟨hstep, hname⟩ := h.mapPoint p
      obtain ⟨hrest, hname'⟩ := ih hstep
      rw [List.append_assoc, List.append_assoc] at hrest
      exact ⟨hrest, hname'.trans hname⟩

end Invariant

end JsonScada.Iec61850.Server.ModelBuilder
