import JsonScada.Redundancy

namespace JsonScada.Redundancy

open JsonScada.Library Lease

section Refinement

-- On a document that lists the node, a manager does what its rule says, and it
-- writes the keep-alive exactly when it is then active.
theorem driver_step_eq (c : Driver.Controller) (s : Driver.State) (inst : Driver.DriverInstance)
    (h : Driver.nodeAllowed inst c.nodeName = true) :
    let rule := driverRule c.missingInstanceActive c.onNodeNotAllowed inst.nodeNames
    let s' := rule.decide c.nodeName s ⟨inst.activeNodeName, inst.activeNodeKeepAliveTimeTag⟩
    Driver.step c s (.tick (.instance inst)) = some (s', rule.active s') := by
  simp [Driver.step, h, driverRule]

theorem process_tick_eq (n : String) (st : Process.RedundancyState)
    (inst : Process.ProcessInstance) (henabled : inst.enabled = true)
    (h : Process.nodeAllowed inst n = true) :
    let rule := processRule inst.enabled inst.nodeNames
    let st' := rule.decide n st ⟨inst.activeNodeName, inst.activeNodeKeepAliveTimeTag⟩
    Process.tick n st true (.instance inst) =
      some (st', if rule.active st' then .keepAlive else .none) := by
  obtain ⟨enabled, nodeNames, activeNodeName, keepAlive⟩ := inst
  subst henabled
  simp only [Process.tick, Process.processRedundancy, h, if_true, Bool.not_true,
    Bool.false_eq_true, if_false]
  rfl

end Refinement

variable {ι ν τ σ : Type}

-- A tick of the node lies within the run: it reads, decides, and either writes or
-- comes to its next reading.
def FullTick (i : ι) (es : List (Event ι τ)) : Prop :=
  ∃ pre mid post, es = pre ++ .read i :: (mid ++ .decide i :: post) ∧
    ((∃ t, .write i t ∈ post) ∨ .read i ∈ post)

theorem FullTick.decides {i : ι} {es : List (Event ι τ)} (h : FullTick i es) :
    .decide i ∈ es := by
  obtain ⟨pre, mid, post, rfl, _⟩ := h
  simp

-- Nobody but the node that holds the document writes.
def OwnershipKept (name : ι → ν) (s : State ι ν τ σ) (es : List (Event ι τ)) : Prop :=
  ∀ i t, .write i t ∈ es → name i = s.doc.name

-- At most one node is active once every node that is or was active has made a
-- full tick after the last change of ownership.
def AtMostOneActive (rule : Rule ν τ σ) : Prop :=
  ∀ {ι : Type} [DecidableEq ι] (name : ι → ν), Function.Injective name →
    ∀ (s s' : State ι ν τ σ) (es : List (Event ι τ)), run rule name s es = some s' →
      OwnershipKept name s es →
      (∀ i, rule.active (s.nodes i).state = true ∨ rule.active (s'.nodes i).state = true →
        FullTick i es) →
      ∀ i j, rule.active (s'.nodes i).state = true → rule.active (s'.nodes j).state = true → i = j

-- After a full tick of every node that was active at the last change of ownership,
-- an active node is the owner or still owes the write of its own claim.
def SettlesAfterTick (rule : Rule ν τ σ) : Prop :=
  ∀ {ι : Type} [DecidableEq ι] (name : ι → ν) (s s' : State ι ν τ σ) (es : List (Event ι τ)),
    run rule name s es = some s' → OwnershipKept name s es →
    (∀ i, rule.active (s.nodes i).state = true → FullTick i es) →
    ∀ i, rule.active (s'.nodes i).state = true →
      name i = s'.doc.name ∨ (s'.nodes i).phase = .write

-- The owner has just written its keep-alive, and no other node is active or within
-- a tick or has seen that keep-alive.
structure Quiet (rule : Rule ν τ σ) (name : ι → ν) (o : ι) (s : State ι ν τ σ) : Prop where
  owner : s.doc.name = name o
  active : rule.active (s.nodes o).state = true
  idle : ∀ i, (s.nodes i).phase = .idle
  standby : ∀ i, i ≠ o → rule.active (s.nodes i).state = false ∧
    rule.last (s.nodes i).state ≠ s.doc.stamp

-- From then on the owner stays the only active node, as long as the others read the
-- document `limit + 1` times at most between two of its writes.
def KeepsOwner (rule : Rule ν τ σ) : Prop :=
  ∀ {ι : Type} [DecidableEq ι] (name : ι → ν), Function.Injective name →
    ∀ (o : ι) (s s' : State ι ν τ σ) (es : List (Event ι τ)), Quiet rule name o s →
      Paced rule name o s (fun _ => 0) es s' →
      s'.doc.name = name o ∧ ∀ i, rule.active (s'.nodes i).state = true ↔ i = o

theorem settlesAfterTick (rule : Rule ν τ σ) : SettlesAfterTick rule := by
  intro ι _ name s s' es hrun hkept htick i hactive
  have hdoc : s'.doc.name = s.doc.name := by
    clear htick hactive
    induction es generalizing s with
    | nil =>
        obtain rfl := Option.some.inj hrun
        rfl
    | cons e es ih =>
        rw [run, List.foldlM_cons] at hrun
        obtain ⟨s₁, hstep, hrest⟩ := Option.bind_eq_some_iff.mp hrun
        have hfirst : s₁.doc.name = s.doc.name := by
          cases e with
          | read j =>
              obtain ⟨_, rfl⟩ := step_read rule name hstep
              rfl
          | decide j =>
              obtain ⟨d, _, rfl⟩ := step_decide rule name hstep
              rfl
          | write j t =>
              obtain ⟨_, rfl⟩ := step_write rule name hstep
              exact hkept j t (by simp)
        rw [ih s₁ hrest, hfirst]
        intro j t hmem
        rw [hfirst]
        exact hkept j t (List.mem_cons_of_mem _ hmem)
  rw [hdoc]
  exact settled_run hrun hkept (fun i ha => .inr (htick i ha).decides) i hactive

theorem keepsOwner (rule : Rule ν τ σ) : KeepsOwner rule := by
  intro ι _ name hname o s s' es hquiet hpaced
  have hholds : Holds rule name o s (fun _ => 0) := by
    refine ⟨hquiet.owner, hquiet.active, ?_, ?_⟩
    · intro d hd
      rw [hquiet.idle o] at hd
      cases hd
    · intro j hj
      have hidle := hquiet.idle j
      obtain ⟨hinactive, hlast⟩ := hquiet.standby j hj
      exact ⟨hinactive, by simp [hidle], Nat.zero_le _, fun _ h => absurd h hlast,
        by simp [hidle], by simp [hidle], by simp [hidle]⟩
  obtain ⟨r, hs'⟩ := holds_paced hname hholds hpaced
  exact ⟨hs'.holder, active_iff_of_holds hs'⟩

-- The drivers' manager and that of the data processor.
theorem arbitration (missingInstanceActive onNodeNotAllowed enabled : Bool)
    (nodeNames : List String) :
    (SettlesAfterTick (driverRule missingInstanceActive onNodeNotAllowed nodeNames) ∧
      KeepsOwner (driverRule missingInstanceActive onNodeNotAllowed nodeNames)) ∧
    (SettlesAfterTick (processRule enabled nodeNames) ∧
      KeepsOwner (processRule enabled nodeNames)) :=
  ⟨⟨settlesAfterTick _, keepsOwner _⟩, ⟨settlesAfterTick _, keepsOwner _⟩⟩

section Examples

def twoNames (b : Bool) : String := if b then "A" else "B"

theorem twoNames_injective : Function.Injective twoNames := by
  intro a b h
  revert h
  cases a <;> cases b <;> decide

-- Node A holds the document, B waits.
def twoNodes : State Bool String Time Driver.State where
  doc := ⟨"A", 7⟩
  nodes b := ⟨{ active := b }, .idle⟩

-- While A pauses after its tick, B reads the same keep-alive six times.
def pausedOwner : List (Event Bool Time) :=
  [.read true, .decide true, .write true 8] ++
    (List.replicate 6 [Event.read false, Event.decide false]).flatten

-- B then believes itself active although it has not written its name yet.
theorem two_active : ¬ AtMostOneActive (driverRule false false []) := by
  intro h
  have hrun : (run (driverRule false false []) twoNames twoNodes pausedOwner).isSome = true := rfl
  obtain ⟨s', hs'⟩ := Option.isSome_iff_exists.mp hrun
  have hboth : ∀ b, ((driverRule false false []).active (s'.nodes b).state) = true := by
    have hget : s' = (run (driverRule false false []) twoNames twoNodes pausedOwner).get hrun := by
      simp [hs']
    rw [hget]
    intro b
    cases b <;> rfl
  have := h twoNames twoNames_injective twoNodes s' pausedOwner hs'
    (by
      intro i t hmem
      cases i with
      | true => rfl
      | false => simp [pausedOwner, List.replicate] at hmem)
    (by
      intro i _
      cases i with
      | true => exact ⟨[], [], _, rfl, .inl ⟨8, by simp⟩⟩
      | false =>
          exact ⟨[.read true, .decide true, .write true 8], [], _, rfl,
            .inr (by simp [List.replicate])⟩)
    true false (hboth true) (hboth false)
  cases this

-- One round of both nodes after A's write.
theorem arbitration_round :
    ∃ s', Paced (driverRule false false []) twoNames true twoNodes (fun _ => 0)
        [.read true, .decide true, .read false, .write true 8, .decide false] s' ∧
      s'.doc.name = "A" ∧
      ∀ i, (driverRule false false []).active (s'.nodes i).state = true ↔ i = true := by
  have hquiet : Quiet (driverRule false false []) twoNames true twoNodes := by
    refine ⟨rfl, rfl, fun _ => rfl, ?_⟩
    intro i hi
    cases i with
    | true => exact absurd rfl hi
    | false => exact ⟨rfl, by decide⟩
  have hpaced : ∃ s', Paced (driverRule false false []) twoNames true twoNodes (fun _ => 0)
      [.read true, .decide true, .read false, .write true 8, .decide false] s' := by
    refine ⟨_, .read true rfl (by simp) (.decide true rfl (.read false rfl (by simp)
      (.write true 8 rfl ?_ (.decide false rfl (.nil _ _)))))⟩
    intro _ j hj
    cases j with
    | true => exact absurd rfl hj
    | false =>
        refine ⟨by decide, ?_⟩
        intro d hd
        obtain rfl := Phase.decide.inj hd
        decide
  obtain ⟨s', hs'⟩ := hpaced
  have hkeeps : KeepsOwner (driverRule false false []) := (arbitration false false true []).1.2
  exact ⟨s', hs', @hkeeps Bool _ twoNames twoNames_injective true twoNodes s' _ hquiet hs'⟩

end Examples

end JsonScada.Redundancy
