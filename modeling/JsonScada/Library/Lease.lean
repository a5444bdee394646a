import Mathlib.Logic.Function.Basic
import Mathlib.Tactic.Common

namespace JsonScada.Library.Lease

-- The shared document: who holds the lease, and when it was last renewed.
structure Doc (ν τ : Type*) where
  name : ν
  stamp : τ

-- What a node does with the document it has read. A node that reads another
-- name counts how often the stamp stays the same, and it claims the lease no
-- sooner than after `limit` such readings in a row.
structure Rule (ν τ σ : Type*) where
  limit : Nat
  active : σ → Bool
  stall : σ → Nat
  last : σ → τ
  decide : ν → σ → Doc ν τ → σ
  own : ∀ n s t, active (decide n s ⟨n, t⟩) = true
  advanced : ∀ n s d, d.name ≠ n → d.stamp ≠ last s →
    active (decide n s d) = false ∧ stall (decide n s d) = 0 ∧ last (decide n s d) = d.stamp
  stalled : ∀ n s d, d.name ≠ n → d.stamp = last s → active s = false →
    last (decide n s d) = d.stamp ∧ stall (decide n s d) ≤ stall s + 1 ∧
      (stall s < limit → active (decide n s d) = false)

-- Where a node stands in its tick.
inductive Phase (ν τ : Type*) where
  | idle
  | decide (d : Doc ν τ)
  | write

structure Node (ν τ σ : Type*) where
  state : σ
  phase : Phase ν τ

structure State (ι ν τ σ : Type*) where
  doc : Doc ν τ
  nodes : ι → Node ν τ σ

inductive Event (ι τ : Type*) where
  | read (i : ι)
  | decide (i : ι)
  | write (i : ι) (stamp : τ)

variable {ι ν τ σ : Type*} [DecidableEq ι] (rule : Rule ν τ σ) (name : ι → ν)

def State.setNode (s : State ι ν τ σ) (i : ι) (n : Node ν τ σ) : State ι ν τ σ :=
  { s with nodes := Function.update s.nodes i n }

-- A tick is a read of the document, a decision, and, if the node is then active,
-- a write of its name and a stamp. Each of them is atomic, nothing else is.
def step (s : State ι ν τ σ) : Event ι τ → Option (State ι ν τ σ)
  | .read i =>
      match (s.nodes i).phase with
      | .idle => some (s.setNode i { s.nodes i with phase := .decide s.doc })
      | _ => none
  | .decide i =>
      match (s.nodes i).phase with
      | .decide d =>
          let state := rule.decide (name i) (s.nodes i).state d
          some (s.setNode i ⟨state, if rule.active state then .write else .idle⟩)
      | _ => none
  | .write i stamp =>
      match (s.nodes i).phase with
      | .write =>
          some { s.setNode i { s.nodes i with phase := .idle } with doc := ⟨name i, stamp⟩ }
      | _ => none

def run (s : State ι ν τ σ) (es : List (Event ι τ)) : Option (State ι ν τ σ) :=
  es.foldlM (step rule name) s

@[simp] theorem setNode_self (s : State ι ν τ σ) (i : ι) (n : Node ν τ σ) :
    (s.setNode i n).nodes i = n := by
  simp [State.setNode]

theorem setNode_of_ne (s : State ι ν τ σ) {i j : ι} (n : Node ν τ σ) (h : j ≠ i) :
    (s.setNode i n).nodes j = s.nodes j := by
  simp [State.setNode, h]

@[simp] theorem setNode_doc (s : State ι ν τ σ) (i : ι) (n : Node ν τ σ) :
    (s.setNode i n).doc = s.doc := rfl

-- What a step can do.
theorem step_read {s s' : State ι ν τ σ} {i : ι} (h : step rule name s (.read i) = some s') :
    (s.nodes i).phase = .idle ∧
      s' = s.setNode i { s.nodes i with phase := .decide s.doc } := by
  simp only [step] at h
  split at h
  · rename_i hp
    exact ⟨hp, (Option.some.inj h).symm⟩
  · cases h

theorem step_decide {s s' : State ι ν τ σ} {i : ι} (h : step rule name s (.decide i) = some s') :
    ∃ d, (s.nodes i).phase = .decide d ∧
      s' = s.setNode i ⟨rule.decide (name i) (s.nodes i).state d,
        if rule.active (rule.decide (name i) (s.nodes i).state d) then .write else .idle⟩ := by
  simp only [step] at h
  split at h
  · rename_i d hp
    exact ⟨d, hp, (Option.some.inj h).symm⟩
  · cases h

theorem step_write {s s' : State ι ν τ σ} {i : ι} {t : τ}
    (h : step rule name s (.write i t) = some s') :
    (s.nodes i).phase = .write ∧
      s' = { s.setNode i { s.nodes i with phase := .idle } with doc := ⟨name i, t⟩ } := by
  simp only [step] at h
  split at h
  · rename_i hp
    exact ⟨hp, (Option.some.inj h).symm⟩
  · cases h

section Settling

-- A node that is active either holds the lease or still owes its claim.
def Settled (s : State ι ν τ σ) (holder : ν) (i : ι) : Prop :=
  rule.active (s.nodes i).state = true → name i = holder ∨ (s.nodes i).phase = .write

variable {rule name}

-- A decision settles the node that takes it.
theorem settled_decide {s s' : State ι ν τ σ} {i : ι} (holder : ν)
    (h : step rule name s (.decide i) = some s') : Settled rule name s' holder i := by
  obtain ⟨d, _, rfl⟩ := step_decide rule name h
  intro hactive
  simp only [setNode_self] at hactive ⊢
  rw [if_pos hactive]
  exact .inr rfl

-- A settled node stays settled as long as only the holder writes.
theorem settled_step {s s' : State ι ν τ σ} {e : Event ι τ} {holder : ν} {j : ι}
    (h : step rule name s e = some s') (hwrite : ∀ i t, e = .write i t → name i = holder)
    (hj : Settled rule name s holder j) : Settled rule name s' holder j := by
  cases e with
  | read i =>
      obtain ⟨hphase, rfl⟩ := step_read rule name h
      by_cases hij : j = i
      · subst hij
        intro hactive
        simp only [setNode_self] at hactive
        rcases hj hactive with hname | hp
        · exact .inl hname
        · rw [hphase] at hp
          cases hp
      · intro hactive
        simp only [setNode_of_ne _ _ hij] at hactive ⊢
        exact hj hactive
  | decide i =>
      by_cases hij : j = i
      · subst hij
        exact settled_decide holder h
      · obtain ⟨d, _, rfl⟩ := step_decide rule name h
        intro hactive
        simp only [setNode_of_ne _ _ hij] at hactive ⊢
        exact hj hactive
  | write i t =>
      obtain ⟨_, rfl⟩ := step_write rule name h
      by_cases hij : j = i
      · subst hij
        exact fun _ => .inl (hwrite j t rfl)
      · intro hactive
        simp only [State.setNode, Function.update_of_ne hij] at hactive ⊢
        exact hj hactive

-- Once every node that was active when the lease last changed hands has come to
-- a decision, every active node holds the lease or still owes its claim.
theorem settled_run {s s' : State ι ν τ σ} {es : List (Event ι τ)} {holder : ν}
    (h : run rule name s es = some s') (hwrite : ∀ i t, .write i t ∈ es → name i = holder)
    (hactive : ∀ i, rule.active (s.nodes i).state = true →
      Settled rule name s holder i ∨ .decide i ∈ es) :
    ∀ i, Settled rule name s' holder i := by
  intro i
  have hstart : Settled rule name s holder i ∨ .decide i ∈ es := by
    by_cases ha : rule.active (s.nodes i).state = true
    · exact hactive i ha
    · exact .inl fun h => absurd h ha
  clear hactive
  induction es generalizing s with
  | nil =>
      obtain rfl := Option.some.inj h
      rcases hstart with hs | hmem
      · exact hs
      · cases hmem
  | cons e es ih =>
      rw [run, List.foldlM_cons] at h
      obtain ⟨s₁, hstep, hrun⟩ := Option.bind_eq_some_iff.mp h
      apply ih hrun (fun i t hm => hwrite i t (List.mem_cons_of_mem _ hm))
      rcases hstart with hs | hmem
      · refine .inl (settled_step hstep (fun i t he => hwrite i t ?_) hs)
        rw [he]
        exact List.mem_cons_self
      · rcases List.mem_cons.mp hmem with he | hmem
        · subst he
          exact .inl (settled_decide holder hstep)
        · exact .inr hmem

end Settling

section Holding

variable {rule name}

-- A stamp that no node other than `o` has in its memory or in its hands.
def Unseen (rule : Rule ν τ σ) (s : State ι ν τ σ) (o : ι) (t : τ) : Prop :=
  ∀ j, j ≠ o → rule.last (s.nodes j).state ≠ t ∧
    ∀ d, (s.nodes j).phase = .decide d → d.stamp ≠ t

-- The runs in which no node falls behind the holder: between two renewals, each
-- with a new stamp, another node reads the document `limit + 1` times at most.
-- The second argument counts these readings.
inductive Paced (rule : Rule ν τ σ) (name : ι → ν) (o : ι) :
    State ι ν τ σ → (ι → Nat) → List (Event ι τ) → State ι ν τ σ → Prop where
  | nil (s r) : Paced rule name o s r [] s
  | read {s s₁ s' r es} (i : ι) (hstep : step rule name s (.read i) = some s₁)
      (hpace : i ≠ o → r i ≤ rule.limit)
      (rest : Paced rule name o s₁ (Function.update r i (r i + 1)) es s') :
      Paced rule name o s r (.read i :: es) s'
  | decide {s s₁ s' r es} (i : ι) (hstep : step rule name s (.decide i) = some s₁)
      (rest : Paced rule name o s₁ r es s') : Paced rule name o s r (.decide i :: es) s'
  | write {s s₁ s' r es} (i : ι) (t : τ) (hstep : step rule name s (.write i t) = some s₁)
      (hnew : i = o → Unseen rule s o t)
      (rest : Paced rule name o s₁ (if i = o then fun _ => 0 else r) es s') :
      Paced rule name o s r (.write i t :: es) s'

-- What is known of a node other than the holder. `count` is the number of its
-- readings since the last renewal.
structure Follows (rule : Rule ν τ σ) (doc : Doc ν τ) (count : Nat) (n : Node ν τ σ) : Prop where
  inactive : rule.active n.state = false
  noWrite : n.phase ≠ .write
  bound : count ≤ rule.limit + 1
  idle : n.phase = .idle → rule.last n.state = doc.stamp → rule.stall n.state + 1 ≤ count
  reading : ∀ d, n.phase = .decide d → d.name = doc.name
  inTime : ∀ d, n.phase = .decide d → rule.last n.state = d.stamp →
    rule.stall n.state < rule.limit
  current : ∀ d, n.phase = .decide d → d.stamp = doc.stamp →
    1 ≤ count ∧ (rule.last n.state = d.stamp → rule.stall n.state + 2 ≤ count)

structure Holds (rule : Rule ν τ σ) (name : ι → ν) (o : ι) (s : State ι ν τ σ) (r : ι → Nat) :
    Prop where
  holder : s.doc.name = name o
  active : rule.active (s.nodes o).state = true
  ownRead : ∀ d, (s.nodes o).phase = .decide d → d.name = name o
  others : ∀ j, j ≠ o → Follows rule s.doc (r j) (s.nodes j)

theorem holds_read {o : ι} {s s' : State ι ν τ σ} {r : ι → Nat} {i : ι}
    (hs : Holds rule name o s r) (h : step rule name s (.read i) = some s')
    (hpace : i ≠ o → r i ≤ rule.limit) :
    Holds rule name o s' (Function.update r i (r i + 1)) := by
  obtain ⟨hidle, rfl⟩ := step_read rule name h
  refine ⟨hs.holder, ?_, ?_, ?_⟩
  · by_cases hio : o = i
    · subst hio
      simpa using hs.active
    · rw [setNode_of_ne _ _ hio]
      exact hs.active
  · intro d hd
    by_cases hio : o = i
    · subst hio
      rw [setNode_self] at hd
      obtain rfl := Phase.decide.inj hd
      exact hs.holder
    · rw [setNode_of_ne _ _ hio] at hd
      exact hs.ownRead d hd
  · intro j hj
    by_cases hji : j = i
    · subst hji
      have hf := hs.others j hj
      have hcount := hpace hj
      rw [setNode_self, Function.update_self]
      refine ⟨hf.inactive, by simp, by omega, by simp, ?_, ?_, ?_⟩
      · intro d hd
        obtain rfl := Phase.decide.inj hd
        rfl
      · intro d hd hlast
        obtain rfl := Phase.decide.inj hd
        have := hf.idle hidle hlast
        show rule.stall (s.nodes j).state < rule.limit
        omega
      · intro d hd _
        obtain rfl := Phase.decide.inj hd
        refine ⟨by omega, fun hlast => ?_⟩
        have := hf.idle hidle hlast
        show rule.stall (s.nodes j).state + 2 ≤ _
        omega
    · rw [setNode_of_ne _ _ hji, Function.update_of_ne hji]
      exact hs.others j hj

theorem holds_decide {o : ι} {s s' : State ι ν τ σ} {r : ι → Nat} {i : ι}
    (hname : Function.Injective name) (hs : Holds rule name o s r)
    (h : step rule name s (.decide i) = some s') : Holds rule name o s' r := by
  obtain ⟨d, hphase, rfl⟩ := step_decide rule name h
  refine ⟨hs.holder, ?_, ?_, ?_⟩
  · by_cases hio : o = i
    · subst hio
      obtain ⟨n, t⟩ := d
      obtain rfl := hs.ownRead _ hphase
      rw [setNode_self]
      exact rule.own _ _ _
    · rw [setNode_of_ne _ _ hio]
      exact hs.active
  · intro d' hd'
    by_cases hio : o = i
    · subst hio
      rw [setNode_self] at hd'
      dsimp only at hd'
      split_ifs at hd'
    · rw [setNode_of_ne _ _ hio] at hd'
      exact hs.ownRead d' hd'
  · intro j hj
    by_cases hji : j = i
    · subst hji
      have hf := hs.others j hj
      have hother : d.name ≠ name j := by
        rw [hf.reading d hphase, hs.holder]
        exact fun he => hj (hname he.symm)
      rw [setNode_self, setNode_doc]
      by_cases hlast : d.stamp = rule.last (s.nodes j).state
      · obtain ⟨hl, hstall, hina⟩ := rule.stalled (name j) _ d hother hlast hf.inactive
        have hactive := hina (hf.inTime d hphase hlast.symm)
        refine ⟨hactive, by simp [hactive], hf.bound, ?_, by simp [hactive], by simp [hactive],
          by simp [hactive]⟩
        intro _ hdoc
        have hcur := hf.current d hphase (hl.symm.trans hdoc)
        have := hcur.2 hlast.symm
        dsimp only
        omega
      · obtain ⟨hactive, hstall, hl⟩ := rule.advanced (name j) _ d hother hlast
        refine ⟨hactive, by simp [hactive], hf.bound, ?_, by simp [hactive], by simp [hactive],
          by simp [hactive]⟩
        intro _ hdoc
        have hcur := hf.current d hphase (hl.symm.trans hdoc)
        dsimp only
        omega
    · rw [setNode_of_ne _ _ hji]
      exact hs.others j hj

theorem holds_write {o : ι} {s s' : State ι ν τ σ} {r : ι → Nat} {i : ι} {t : τ}
    (hs : Holds rule name o s r) (h : step rule name s (.write i t) = some s')
    (hnew : i = o → Unseen rule s o t) :
    i = o ∧ Holds rule name o s' (fun _ => 0) := by
  obtain ⟨hphase, rfl⟩ := step_write rule name h
  have hio : i = o := by
    by_contra hne
    exact (hs.others i hne).noWrite hphase
  subst hio
  refine ⟨rfl, rfl, ?_, ?_, ?_⟩
  · simpa [State.setNode] using hs.active
  · intro d hd
    simp [State.setNode] at hd
  · intro j hj
    have hf := hs.others j hj
    have hun := hnew rfl j hj
    simp only [State.setNode, Function.update_of_ne hj]
    refine ⟨hf.inactive, hf.noWrite, by omega, ?_, ?_, hf.inTime, ?_⟩
    · intro _ hlast
      exact absurd hlast hun.1
    · intro d hd
      rw [hf.reading d hd]
      exact hs.holder
    · intro d hd hstamp
      exact absurd hstamp (hun.2 d hd)

-- A holder that no node falls behind keeps the lease, and nobody else is active.
theorem holds_paced {o : ι} {s s' : State ι ν τ σ} {r : ι → Nat} {es : List (Event ι τ)}
    (hname : Function.Injective name) (hs : Holds rule name o s r)
    (h : Paced rule name o s r es s') : ∃ r', Holds rule name o s' r' := by
  induction h with
  | nil s r => exact ⟨r, hs⟩
  | read i hstep hpace rest ih => exact ih (holds_read hs hstep hpace)
  | decide i hstep rest ih => exact ih (holds_decide hname hs hstep)
  | write i t hstep hnew rest ih =>
      obtain ⟨hio, hs'⟩ := holds_write hs hstep hnew
      rw [if_pos hio] at ih
      exact ih hs'

theorem active_iff_of_holds {o : ι} {s : State ι ν τ σ} {r : ι → Nat}
    (hs : Holds rule name o s r) (i : ι) : rule.active (s.nodes i).state = true ↔ i = o := by
  constructor
  · intro hactive
    by_contra hne
    rw [(hs.others i hne).inactive] at hactive
    cases hactive
  · rintro rfl
    exact hs.active

end Holding

end JsonScada.Library.Lease
