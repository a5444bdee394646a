import Mathlib.Data.Option.Basic
import Mathlib.Tactic.Common

namespace JsonScada.Library.Run

-- Runs of a system that takes an action at a time, where it can.
variable {σ α : Type*} (step : σ → α → Option σ)

def run (s : σ) : List α → Option σ
  | [] => some s
  | a :: as => (step s a).bind fun s' => run s' as

-- Every action of the run is allowed in the state that it is taken in.
def Allowed (ok : σ → α → Prop) (s : σ) : List α → Prop
  | [] => True
  | a :: as => ok s a ∧ ∀ s', step s a = some s' → Allowed ok s' as

instance decidableAllowed (ok : σ → α → Prop) [∀ s a, Decidable (ok s a)] :
    ∀ s as, Decidable (Allowed step ok s as)
  | _, [] => .isTrue trivial
  | s, a :: as =>
      have (s' : σ) : Decidable (Allowed step ok s' as) := decidableAllowed ok s' as
      have : Decidable (∀ s', step s a = some s' → Allowed step ok s' as) :=
        inferInstanceAs (Decidable (∀ s' ∈ step s a, Allowed step ok s' as))
      inferInstanceAs (Decidable (_ ∧ _))

variable {step} {ok : σ → α → Prop}

theorem run_cons {s s' : σ} {a : α} {as : List α} (h : run step s (a :: as) = some s') :
    ∃ t, step s a = some t ∧ run step t as = some s' :=
  Option.bind_eq_some_iff.mp h

theorem run_append (s : σ) (as bs : List α) :
    run step s (as ++ bs) = (run step s as).bind fun s' => run step s' bs := by
  induction as generalizing s with
  | nil => rfl
  | cons a as ih => simp only [List.cons_append, run, Option.bind_assoc, ih]

theorem allowed_of_forall (h : ∀ s a, ok s a) (s : σ) (as : List α) : Allowed step ok s as := by
  induction as generalizing s with
  | nil => trivial
  | cons a as ih => exact ⟨h s a, fun s' _ => ih s'⟩

-- Conditions that say the same in every state that is reached.
theorem allowed_congr {ok' : σ → α → Prop} (inv : σ → Prop)
    (hstep : ∀ s a s', inv s → step s a = some s' → inv s')
    (hsame : ∀ s a, inv s → (ok s a ↔ ok' s a)) {s : σ} (hinv : inv s) (as : List α) :
    Allowed step ok s as ↔ Allowed step ok' s as := by
  induction as generalizing s with
  | nil => rfl
  | cons a as ih =>
      apply and_congr (hsame s a hinv)
      exact forall_congr' fun s' => forall_congr' fun hs' => ih (hstep s a s' hinv hs')

-- What an invariant of the allowed actions tells of each of them.
theorem allowed_imp {good : σ → α → Prop} {inv : σ → Prop}
    (hstep : ∀ s a s', inv s → ok s a → step s a = some s' → inv s')
    (hgood : ∀ s a, inv s → ok s a → good s a) {s : σ} (hinv : inv s) {as : List α}
    (hok : Allowed step ok s as) : Allowed step good s as := by
  induction as generalizing s with
  | nil => trivial
  | cons a as ih =>
      refine ⟨hgood s a hinv hok.1, fun s' hs' => ?_⟩
      exact ih (hstep s a s' hinv hok.1 hs') (hok.2 s' hs')

-- What every allowed action preserves holds at the end of every allowed run.
theorem invariant {inv : σ → Prop}
    (hstep : ∀ s a s', inv s → ok s a → step s a = some s' → inv s') {s s' : σ} {as : List α}
    (hinv : inv s) (hok : Allowed step ok s as) (hrun : run step s as = some s') : inv s' := by
  induction as generalizing s with
  | nil =>
      obtain rfl := Option.some.inj hrun
      exact hinv
  | cons a as ih =>
      obtain ⟨t, ht, hrun⟩ := run_cons hrun
      exact ih (hstep s a t hinv hok.1 ht) (hok.2 t ht) hrun

-- What every action preserves holds at the end of every run.
theorem preserved (inv : σ → Prop)
    (hstep : ∀ s a s', inv s → step s a = some s' → inv s') {s s' : σ} {as : List α}
    (hinv : inv s) (hrun : run step s as = some s') : inv s' :=
  invariant (fun s a s' h _ => hstep s a s' h) hinv (allowed_of_forall (fun _ _ => trivial) s as)
    hrun

section Emitted

variable {β : Type*}

-- What the actions of a run give out, each in the state that it is taken in.
def emitted (step : σ → α → Option σ) (out : σ → α → List β) (s : σ) : List α → List β
  | [] => []
  | a :: as => out s a ++ (step s a).elim [] fun s' => emitted step out s' as

-- What every allowed action preserves together with what has been given out.
theorem emitted_invariant {out : σ → α → List β} (inv : List β → σ → Prop)
    (hstep : ∀ h s a s', inv h s → ok s a → step s a = some s' → inv (h ++ out s a) s')
    {h : List β} {s s' : σ} {as : List α} (hinv : inv h s) (hok : Allowed step ok s as)
    (hrun : run step s as = some s') : inv (h ++ emitted step out s as) s' := by
  induction as generalizing h s with
  | nil =>
      obtain rfl := Option.some.inj hrun
      rw [emitted, List.append_nil]
      exact hinv
  | cons a as ih =>
      obtain ⟨t, ht, hrun⟩ := run_cons hrun
      rw [emitted, ht, Option.elim_some, ← List.append_assoc]
      exact ih (hstep h s a t hinv hok.1 ht) (hok.2 t ht) hrun

-- What every action preserves together with what has been given out.
theorem emitted_preserved {out : σ → α → List β} (inv : List β → σ → Prop)
    (hstep : ∀ h s a s', inv h s → step s a = some s' → inv (h ++ out s a) s') {h : List β}
    {s s' : σ} {as : List α} (hinv : inv h s) (hrun : run step s as = some s') :
    inv (h ++ emitted step out s as) s' :=
  emitted_invariant inv (fun h s a s' hinv _ => hstep h s a s' hinv) hinv
    (allowed_of_forall (fun _ _ => trivial) s as) hrun

end Emitted

end JsonScada.Library.Run
