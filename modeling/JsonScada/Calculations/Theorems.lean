import JsonScada.Calculations

namespace JsonScada.Calculations

open JsonScada.Library

namespace Expr

-- An operation takes finite numbers to an infinity. A division by zero is no overflow.
def overflows : Expr → Bool
  | val _ => false
  | neg a => a.overflows
  | add a b => a.overflows || b.overflows || a.eval.isFinite && b.eval.isFinite && (a + b).eval.isInf
  | sub a b => a.overflows || b.overflows || a.eval.isFinite && b.eval.isFinite && (a - b).eval.isInf
  | mul a b => a.overflows || b.overflows || a.eval.isFinite && b.eval.isFinite && (a * b).eval.isInf
  | div a b =>
      a.overflows || b.overflows ||
        a.eval.isFinite && b.eval.isFinite && b.eval ≠ .fin 0 && (a / b).eval.isInf
  | sqrt a => a.overflows || a.eval.isFinite && (sqrt a).eval.isInf

-- The numbers are finite, and no operation is without a value.
def Regular : Expr → Prop
  | val d => d.isFinite = true
  | neg a => a.Regular
  | add a b | sub a b | mul a b => a.Regular ∧ b.Regular
  | div a b => a.Regular ∧ b.Regular ∧ b.eval ≠ .fin 0
  | sqrt a => a.Regular ∧ Double.lt a.eval (.fin 0) = false

@[simp] theorem regular_val {d : Double} : Regular (val d) ↔ d.isFinite = true := Iff.rfl

@[simp] theorem regular_neg {a : Expr} : Regular (-a) ↔ a.Regular := Iff.rfl

@[simp] theorem regular_add {a b : Expr} : Regular (a + b) ↔ a.Regular ∧ b.Regular := Iff.rfl

@[simp] theorem regular_sub {a b : Expr} : Regular (a - b) ↔ a.Regular ∧ b.Regular := Iff.rfl

@[simp] theorem regular_mul {a b : Expr} : Regular (a * b) ↔ a.Regular ∧ b.Regular := Iff.rfl

@[simp] theorem regular_div {a b : Expr} :
    Regular (a / b) ↔ a.Regular ∧ b.Regular ∧ b.eval ≠ .fin 0 := Iff.rfl

@[simp] theorem regular_sqrt {a : Expr} :
    Regular (sqrt a) ↔ a.Regular ∧ Double.lt a.eval (.fin 0) = false := Iff.rfl

theorem exists_fin {d : Double} (h : d.isFinite = true) : ∃ q, d = .fin q := by
  cases d <;> simp_all [Double.isFinite]

theorem isFinite_round {q : ℚ} (h : (Double.round q).isInf = false) :
    (Double.round q).isFinite = true := by
  cases hround : Double.round q with
  | nan =>
      simp only [Double.round] at hround
      split_ifs at hround
  | inf negative =>
      rw [hround] at h
      cases h
  | fin r => rfl

-- What an operation of two operands gives, where it gives a number or overflows.
theorem isFinite_binary {op : Double → Double → Double} {a b : Expr}
    (hop : ∀ x y, b.eval = .fin y → (op (.fin x) (.fin y)).isInf = false →
      (op (.fin x) (.fin y)).isFinite = true)
    (iha : a.overflows = false → a.eval.isFinite = true)
    (ihb : b.overflows = false → b.eval.isFinite = true)
    (hover : (a.overflows || b.overflows ||
      a.eval.isFinite && b.eval.isFinite && (op a.eval b.eval).isInf) = false) :
    (op a.eval b.eval).isFinite = true := by
  simp only [Bool.or_eq_false_iff] at hover
  obtain ⟨⟨ha, hb⟩, hinf⟩ := hover
  have hfa := iha ha
  have hfb := ihb hb
  rw [hfa, hfb, Bool.true_and, Bool.true_and] at hinf
  obtain ⟨x, hx⟩ := exists_fin hfa
  obtain ⟨y, hy⟩ := exists_fin hfb
  rw [hx, hy] at hinf ⊢
  exact hop x y hy hinf

theorem isFinite_eval {e : Expr} (h : e.Regular) (hover : e.overflows = false) :
    e.eval.isFinite = true := by
  induction e with
  | val d => exact h
  | neg a ih =>
      obtain ⟨q, hq⟩ := exists_fin (ih h hover)
      rw [eval, hq]
      rfl
  | add a b iha ihb =>
      exact isFinite_binary (fun _ _ _ => isFinite_round) (iha h.1) (ihb h.2) hover
  | sub a b iha ihb =>
      exact isFinite_binary (fun _ _ _ => isFinite_round) (iha h.1) (ihb h.2) hover
  | mul a b iha ihb =>
      exact isFinite_binary (fun _ _ _ => isFinite_round) (iha h.1) (ihb h.2) hover
  | div a b iha ihb =>
      obtain ⟨hra, hrb, hzero⟩ := h
      rw [overflows, decide_eq_true hzero, Bool.and_true] at hover
      refine isFinite_binary (fun x y hy hinf => ?_) (iha hra) (ihb hrb) hover
      have hy0 : y ≠ 0 := fun h0 => hzero (h0 ▸ hy)
      rw [Double.div, if_neg hy0] at hinf ⊢
      exact isFinite_round hinf
  | sqrt a ih =>
      obtain ⟨hra, hneg⟩ := h
      rw [overflows, Bool.or_eq_false_iff] at hover
      have hfa := ih hra hover.1
      have hinf := hover.2
      rw [hfa, Bool.true_and] at hinf
      obtain ⟨q, hq⟩ := exists_fin hfa
      rw [eval] at hinf ⊢
      rw [hq] at hneg hinf ⊢
      rw [root, if_neg (of_decide_eq_false hneg)] at hinf ⊢
      dsimp only at hinf ⊢
      split_ifs at hinf ⊢
      · exact isFinite_round hinf
      · exact isFinite_round hinf

-- The factors and the seconds of the clock are far from the end of the range.
theorem isFinite_const {q : ℚ} (hq : |q| ≤ 2 ^ 64) : (const q).eval.isFinite = true := by
  refine isFinite_round ?_
  by_cases h0 : q = 0
  · rw [Double.round, if_pos h0]
    rfl
  · have hpos : 0 < |q| := abs_pos.mpr h0
    have hulp : Double.ulp q ≤ (2 : ℚ) ^ (12 : ℤ) := by
      rw [Double.ulp, Double.pow2_eq]
      apply zpow_le_zpow_right₀ (by norm_num)
      have he := Double.exponent_le (e := 64) hpos (lt_of_le_of_lt hq (by norm_num))
      omega
    have herror := (Double.round_error_le (q := q)).trans
      (mul_le_mul_of_nonneg_left hulp (by norm_num))
    have hsmall : |(Double.roundEven (q / Double.ulp q) : ℚ) * Double.ulp q| < Double.pow2 1024 := by
      have htriangle := abs_sub_abs_le_abs_sub
        ((Double.roundEven (q / Double.ulp q) : ℚ) * Double.ulp q) q
      calc |(Double.roundEven (q / Double.ulp q) : ℚ) * Double.ulp q|
          ≤ |q| + 1 / 2 * (2 : ℚ) ^ (12 : ℤ) := by linarith
        _ < (2 : ℚ) ^ (65 : ℤ) := by norm_num at hq ⊢; linarith
        _ < (2 : ℚ) ^ (1024 : ℤ) := zpow_lt_zpow_right₀ (by norm_num) (by norm_num)
        _ = Double.pow2 1024 := (Double.pow2_eq 1024).symm
    rw [Double.round, if_neg h0, if_neg (not_le.mpr hsmall)]
    rfl

theorem regular_const {q : ℚ} (hq : |q| ≤ 2 ^ 64) : (const q).Regular := isFinite_const hq

theorem eval_const {n : ℕ} [n.AtLeastTwo] (hn : n < 2 ^ 53) :
    (const (OfNat.ofNat n)).eval = .fin (OfNat.ofNat n) := by
  have h := Double.round_intCast (z := n) (by rw [Nat.abs_cast]; exact_mod_cast hn)
  rwa [Int.cast_natCast] at h

theorem round_of_nonneg {q : ℚ} (hq : 0 ≤ q) :
    (∃ r, 0 ≤ r ∧ Double.round q = .fin r) ∨ Double.round q = .inf false := by
  cases hround : Double.round q with
  | fin r => exact .inl ⟨r, Double.round_nonneg hq hround, rfl⟩
  | nan =>
      simp only [Double.round] at hround
      split_ifs at hround
  | inf negative =>
      refine .inr ?_
      simp only [Double.round] at hround
      split_ifs at hround
      rw [← hround, decide_eq_false (not_lt.mpr hq)]

-- The sum of two squares is not negative.
theorem not_lt_sumOfSquares {x : ℕ → Expr} (h0 : (x 0).eval.isFinite = true)
    (h1 : (x 1).eval.isFinite = true) : Double.lt (sumOfSquares x).eval (.fin 0) = false := by
  obtain ⟨a, ha⟩ := exists_fin h0
  obtain ⟨b, hb⟩ := exists_fin h1
  have hsum : (sumOfSquares x).eval =
      Double.add Double.round (Double.round (a * a)) (Double.round (b * b)) := by
    simp only [sumOfSquares, HAdd.hAdd, HMul.hMul, Add.add, Mul.mul, eval, ha, hb, Double.mul]
  rw [hsum]
  rcases round_of_nonneg (mul_self_nonneg a) with ⟨r, hr, hra⟩ | hra <;>
    rcases round_of_nonneg (mul_self_nonneg b) with ⟨t, ht, htb⟩ | htb <;> rw [hra, htb]
  · rcases round_of_nonneg (add_nonneg hr ht) with ⟨u, hu, hround⟩ | hround
    · rw [Double.add, hround]
      exact decide_eq_false (not_lt.mpr hu)
    · rw [Double.add, hround]
      rfl
  all_goals rfl

end Expr

section Choice

-- The first parcel that is not invalid, marked valid, or else the first of all, marked invalid.
def preferred (ps : List Parcel) : Option (Double × Bool) :=
  match ps.find? fun p => !p.invalid with
  | some p => some (p.val, false)
  | none => ps.head?.map fun p => (p.val, true)

def PicksFirst (ps : List Parcel) (r : Option Result) : Prop :=
  ∃ out, r = some out ∧ out.ok = true ∧ preferred ps = some (out.val.eval, out.invalid)

def good (ps : List Parcel) : List Parcel := ps.filter fun p => !p.invalid

-- The loop ends with the last parcel that is not invalid.
theorem foldl_choice (c : Parcel) (ps : List Parcel) :
    ps.foldl (fun c q => if q.invalid then c else q) c = (good ps).getLast?.getD c := by
  induction ps generalizing c with
  | nil => rfl
  | cons p ps ih =>
      rw [List.foldl_cons, ih, good, good, List.filter_cons]
      cases hp : p.invalid
      · cases hlast : (ps.filter fun p => !p.invalid).getLast? <;>
          simp [List.getLast?_cons, hlast]
      · simp

-- The first and the last parcel that are not invalid have one value.
theorem picksFirst_iff {now : Int64} {formula : ℤ} (hformula : formula = 50 ∨ formula = 51)
    {ps : List Parcel} (hps : ps ≠ []) :
    PicksFirst ps (compute now formula ps) ↔
      (good ps).head?.map Parcel.val = (good ps).getLast?.map Parcel.val := by
  have hchoice : compute now formula = choice := by
    rcases hformula with rfl | rfl <;> rfl
  obtain ⟨p, ps, rfl⟩ := List.exists_cons_of_ne_nil hps
  have hfirst : ((p :: ps).find? fun q => !q.invalid) = (good (p :: ps)).head? := by
    rw [good, List.head?_filter]
  rw [hchoice, PicksFirst, preferred, hfirst, show choice (p :: ps) = some
    { val := .val ((good (p :: ps)).getLast?.getD p).val
      invalid := ((good (p :: ps)).getLast?.getD p).invalid
      ok := true } from by rw [choice.eq_def, ← foldl_choice]]
  cases hgood : good (p :: ps) with
  | nil =>
      have hp : p.invalid = true := by
        have hp := List.filter_eq_nil_iff.mp hgood p List.mem_cons_self
        simpa using hp
      simp [Expr.eval, hp]
  | cons q qs =>
      have hlast := List.getLast?_eq_some_getLast (List.cons_ne_nil q qs)
      have hvalid : ((q :: qs).getLast (List.cons_ne_nil q qs)).invalid = false := by
        have hmem : (q :: qs).getLast (List.cons_ne_nil q qs) ∈ good (p :: ps) := by
          rw [hgood]
          exact List.getLast_mem (List.cons_ne_nil q qs)
        simpa using (List.mem_filter.mp hmem).2
      rw [hlast]
      simp [Expr.eval, hvalid]

-- The second of two good parcels is chosen.
theorem second_chosen :
    ¬PicksFirst [⟨.fin 5, false⟩, ⟨.fin 6, false⟩]
      (compute 0 50 [⟨.fin 5, false⟩, ⟨.fin 6, false⟩]) := by
  rintro ⟨out, hout, -, hpreferred⟩
  obtain rfl := Option.some.inj hout
  revert hpreferred
  decide

-- One good parcel is found wherever it stands.
theorem only_chosen :
    PicksFirst [⟨.fin 5, true⟩, ⟨.fin 6, false⟩, ⟨.fin 7, true⟩]
      (compute 0 51 [⟨.fin 5, true⟩, ⟨.fin 6, false⟩, ⟨.fin 7, true⟩]) :=
  (picksFirst_iff (.inr rfl) (List.cons_ne_nil _ _)).mpr rfl

end Choice

section Quality

variable {now : Int64} {s : Readings} {formula : ℤ} {ids : List ℤ} {out : Result}

def Readings.set (s : Readings) (p : ℤ) (w : Double) : Readings :=
  { s with vals := Function.update s.vals p w }

theorem Readings.set_of_ne {p j : ℤ} (h : j ≠ p) (w : Double) : (s.set p w).vals j = s.vals j := by
  simp [Readings.set, h]

def valueOf (r : Option Result) : Option Double := r.map fun out => out.val.eval

-- Another value of the parcel gives another value of the point.
def DependsOn (now : Int64) (s : Readings) (formula : ℤ) (ids : List ℤ) (p : ℤ) : Prop :=
  ∃ w, valueOf (calculate now (s.set p w) formula ids) ≠ valueOf (calculate now s formula ids)

-- The selector of one formula and the limits of three others, whose flags are not looked at.
def unchecked (formula : ℤ) (ids : List ℤ) : List ℤ :=
  if formula = 203 then ids.take 1
  else if formula ∈ [216, 218, 219] then ids.drop 1
  else []

-- A power factor has a root other than zero, and a square root is not of a negative number.
def Defined (formula : ℤ) (vs : List Double) : Prop :=
  (formula = 2 →
    (Expr.sqrt (sumOfSquares fun i => .val (vs.getD i (.fin 0)))).eval ≠ .fin 0) ∧
  (formula = 5 → ∀ v ∈ vs, Double.lt v (.fin 0) = false)

theorem compute_cases (now : Int64) (formula : ℤ) :
    compute now formula = (fun _ => some {}) ∨ (formula, compute now formula) ∈ formulas now := by
  unfold compute
  split
  · next f hf =>
      obtain ⟨front, back, hsplit, -⟩ := List.lookup_eq_some_iff.mp hf
      exact .inr (hsplit ▸ List.mem_append_right _ List.mem_cons_self)
  · exact .inl rfl

theorem formulas_cases {f : Formula} (h : (formula, f) ∈ formulas now) :
    (∃ e ∈ sums ++ weighted, formula = e.1 ∧ f = fixed e.2.1 fun _ => e.2.2) ∨
      (∃ e ∈ measures, formula = e.1 ∧ f = fixed e.2.1 e.2.2) ∨
      (∃ e ∈ loops, formula = e.1 ∧ f = loop e.2) ∨ (formula, f) ∈ others now := by
  rw [formulas, List.mem_append, List.mem_append, List.mem_append] at h
  rcases h with ((h | h) | h) | h
  · obtain ⟨e, he, heq⟩ := List.mem_map.mp h
    exact .inl ⟨e, he, (Prod.mk.inj heq).1.symm, (Prod.mk.inj heq).2.symm⟩
  · obtain ⟨e, he, heq⟩ := List.mem_map.mp h
    exact .inr (.inl ⟨e, he, (Prod.mk.inj heq).1.symm, (Prod.mk.inj heq).2.symm⟩)
  · obtain ⟨e, he, heq⟩ := List.mem_map.mp h
    exact .inr (.inr (.inl ⟨e, he, (Prod.mk.inj heq).1.symm, (Prod.mk.inj heq).2.symm⟩))
  · exact .inr (.inr (.inr h))

-- A formula whose result is invalid where any of its parcels is.
def Flags (f : Formula) : Prop :=
  ∀ ps out, f ps = some out → out.ok = true → ∀ p ∈ ps, p.invalid = true → out.invalid = true

theorem flags_fixed (n : ℕ) (f : (ℕ → Double) → (ℕ → Expr) → Expr) : Flags (fixed n f) := by
  intro ps out h hok p hp hinvalid
  simp only [fixed] at h
  split_ifs at h
  · obtain rfl := Option.some.inj h
    exact List.any_eq_true.mpr ⟨p, hp, hinvalid⟩
  · obtain rfl := Option.some.inj h
    cases hok

theorem flags_loop (f : List Double → Expr) : Flags (loop f) := by
  intro ps out h _ p hp hinvalid
  obtain rfl := Option.some.inj h
  exact List.any_eq_true.mpr ⟨p, hp, hinvalid⟩

theorem flags_doublePoint : Flags doublePoint := by
  intro ps out h hok p hp hinvalid
  unfold doublePoint at h
  split at h
  · cases h
  · next q r =>
      obtain rfl := Option.some.inj h
      rcases List.mem_pair.mp hp with rfl | rfl <;> simp [hinvalid]
  · obtain rfl := Option.some.inj h
    cases hok

-- The parcel whose value was chosen carries its own flag.
theorem invalid_of_chosen {p c : ℤ} {w : Double} (hout : out.invalid = s.invalids c)
    (hp : s.invalids p = true) (hne : (s.set p w).vals c ≠ s.vals c) : out.invalid = true := by
  have hc : c = p := by
    by_contra hc
    exact hne (Readings.set_of_ne hc w)
  rw [hout, hc, hp]

theorem foldl_parcel (s : Readings) (c : ℤ) (ids : List ℤ) :
    (ids.map s.parcel).foldl (fun c q => if q.invalid then c else q) (s.parcel c) =
      s.parcel (ids.foldl (fun c j => if s.invalids j then c else j) c) := by
  induction ids generalizing c with
  | nil => rfl
  | cons j ids ih =>
      rw [List.map_cons, List.foldl_cons, List.foldl_cons, ← ih]
      exact congrArg (fun c => (ids.map s.parcel).foldl _ c) (apply_ite s.parcel _ c j).symm

theorem choice_parcel (s : Readings) (i : ℤ) (ids : List ℤ) :
    choice ((i :: ids).map s.parcel) =
      some
        { val := .val (s.vals ((i :: ids).foldl (fun c j => if s.invalids j then c else j) i))
          invalid := s.invalids ((i :: ids).foldl (fun c j => if s.invalids j then c else j) i)
          ok := true } := by
  rw [List.map_cons, choice, ← List.map_cons, foldl_parcel]
  rfl

-- What a formula that is not in the others says of the flags.
theorem flags_of_common {f : Formula}
    (h : (∃ e ∈ sums ++ weighted, formula = e.1 ∧ f = fixed e.2.1 fun _ => e.2.2) ∨
      (∃ e ∈ measures, formula = e.1 ∧ f = fixed e.2.1 e.2.2) ∨
      (∃ e ∈ loops, formula = e.1 ∧ f = loop e.2)) : Flags f := by
  rcases h with ⟨e, -, -, rfl⟩ | ⟨e, -, -, rfl⟩ | ⟨e, -, -, rfl⟩
  · exact flags_fixed _ _
  · exact flags_fixed _ _
  · exact flags_loop _

theorem mem_of_dependsOn {p : ℤ} (h : DependsOn now s formula ids p) : p ∈ ids := by
  obtain ⟨w, hw⟩ := h
  by_contra hp
  have hsame : ids.map (s.set p w).parcel = ids.map s.parcel := by
    refine List.map_congr_left fun j hj => ?_
    have hne : j ≠ p := fun h => hp (h ▸ hj)
    exact congrArg (Parcel.mk · _) (Readings.set_of_ne hne w)
  exact hw (by rw [calculate, hsame, calculate])

section Others

variable {p : ℤ} {w : Double}

theorem invalid_of_choice (h : choice (ids.map s.parcel) = some out) (hp : s.invalids p = true)
    (hw : valueOf (choice (ids.map (s.set p w).parcel)) ≠ valueOf (choice (ids.map s.parcel))) :
    out.invalid = true := by
  cases ids with
  | nil => cases h
  | cons i ids =>
      rw [choice_parcel] at h hw
      rw [choice_parcel] at hw
      obtain rfl := Option.some.inj h
      refine invalid_of_chosen (w := w) rfl hp fun hsame => hw ?_
      exact congrArg some hsame

theorem valueOf_anyOk (s : Readings) (p : ℤ) (w : Double) (ids : List ℤ) :
    valueOf (anyOk (ids.map (s.set p w).parcel)) = valueOf (anyOk (ids.map s.parcel)) := by
  rw [anyOk, anyOk, List.any_map, List.any_map]
  rfl

def chosenMeasure (s : Readings) (i j k : ℤ) : ℤ :=
  if !Double.eq (s.vals i) (.fin 0) then k else j

theorem chooseMeasure_parcel (s : Readings) (i j k : ℤ) :
    chooseMeasure ([i, j, k].map s.parcel) =
      some
        { val := .val (s.vals (chosenMeasure s i j k))
          invalid := s.invalids (chosenMeasure s i j k)
          ok := true } := by
  simp only [List.map_cons, List.map_nil, chooseMeasure, ← apply_ite s.parcel]
  rfl

theorem invalid_of_chooseMeasure (h : chooseMeasure (ids.map s.parcel) = some out)
    (hok : out.ok = true) (hp : s.invalids p = true) (hchecked : p ∉ unchecked 203 ids)
    (hw : valueOf (chooseMeasure (ids.map (s.set p w).parcel)) ≠
      valueOf (chooseMeasure (ids.map s.parcel))) : out.invalid = true := by
  match ids with
  | [i, j, k] =>
      have hne : i ≠ p := by
        rintro rfl
        exact hchecked List.mem_cons_self
      have hi : (s.set p w).vals i = s.vals i := Readings.set_of_ne hne w
      have hsame : chosenMeasure (s.set p w) i j k = chosenMeasure s i j k := by
        rw [chosenMeasure, hi, chosenMeasure]
      rw [chooseMeasure_parcel] at h hw
      rw [chooseMeasure_parcel, hsame] at hw
      obtain rfl := Option.some.inj h
      refine invalid_of_chosen (w := w) rfl hp fun heq => hw ?_
      exact congrArg some heq
  | [] | [_] | [_, _] | _ :: _ :: _ :: _ :: _ =>
      obtain rfl := Option.some.inj h
      cases hok

theorem invalid_of_within {low high : Double → Double → Bool}
    (h : within low high (ids.map s.parcel) = some out) (hok : out.ok = true) (hmem : p ∈ ids)
    (hp : s.invalids p = true) (hchecked : p ∉ ids.drop 1) : out.invalid = true := by
  match ids with
  | [i, j, k] =>
      obtain rfl := Option.some.inj h
      have hi : p = i := (List.mem_cons.mp hmem).resolve_right hchecked
      exact hi ▸ hp
  | [] | [_] | [_, _] | _ :: _ :: _ :: _ :: _ =>
      obtain rfl := Option.some.inj h
      cases hok

end Others

theorem invalid_of_dependsOn {p : ℤ} (h : calculate now s formula ids = some out)
    (hok : out.ok = true) (hdep : DependsOn now s formula ids p)
    (hchecked : p ∉ unchecked formula ids) (hp : s.invalids p = true) : out.invalid = true := by
  have hmem := mem_of_dependsOn hdep
  obtain ⟨w, hw⟩ := hdep
  rw [calculate] at h
  have hflags : ∀ {f}, Flags f → compute now formula = f → out.invalid = true := fun hf heq =>
    hf _ _ (heq ▸ h) hok (s.parcel p) (List.mem_map_of_mem hmem) hp
  rcases compute_cases now formula with hnone | hformula
  · rw [hnone] at h
    obtain rfl := Option.some.inj h
    cases hok
  rcases formulas_cases hformula with hc | hc | hc | hother
  · exact hflags (flags_of_common (.inl hc)) rfl
  · exact hflags (flags_of_common (.inr (.inl hc))) rfl
  · exact hflags (flags_of_common (.inr (.inr hc))) rfl
  simp only [calculate] at hw
  generalize compute now formula = f at *
  simp only [others, List.mem_cons, Prod.mk.injEq, List.not_mem_nil, or_false] at hother
  rcases hother with ⟨-, rfl⟩ | ⟨-, rfl⟩ | ⟨-, rfl⟩ | ⟨-, rfl⟩ | ⟨-, rfl⟩ | ⟨rfl, rfl⟩ | ⟨rfl, rfl⟩ |
    ⟨rfl, rfl⟩ | ⟨rfl, rfl⟩ | ⟨-, rfl⟩
  · exact absurd rfl hw
  · exact invalid_of_choice h hp hw
  · exact invalid_of_choice h hp hw
  · exact absurd (valueOf_anyOk s p w ids) hw
  · exact hflags flags_doublePoint rfl
  · exact invalid_of_chooseMeasure h hok hp hchecked hw
  · exact invalid_of_within h hok hmem hp hchecked
  · exact invalid_of_within h hok hmem hp hchecked
  · exact invalid_of_within h hok hmem hp hchecked
  · refine absurd ?_ hw
    rw [vbd, vbd, List.length_map, List.length_map]

end Quality
section Finite

variable {now : Int64} {s : Readings} {formula : ℤ} {ids : List ℤ} {out : Result}

theorem regular_sums {x : ℕ → Expr} (hx : ∀ i, (x i).Regular) :
    ∀ e ∈ sums, (e.2.2 x).Regular := by
  simp only [sums, List.forall_mem_cons, Expr.regular_add, Expr.regular_sub, Expr.regular_neg, hx,
    and_self, List.not_mem_nil, false_implies, implies_true]

theorem regular_weighted {x : ℕ → Expr} (hx : ∀ i, (x i).Regular) :
    ∀ e ∈ weighted, (e.2.2 x).Regular := by
  have hconst : ∀ q : ℚ, |q| ≤ 2 ^ 64 → (Expr.const q).Regular := fun _ => Expr.regular_const
  simp only [weighted, List.forall_mem_cons, Expr.regular_add, Expr.regular_sub, Expr.regular_mul,
    hx, true_and, and_true, List.not_mem_nil, false_implies, implies_true]
  refine ⟨hconst _ ?_, ⟨⟨hconst _ ?_, hconst _ ?_⟩, hconst _ ?_⟩, hconst _ ?_, hconst _ ?_,
    hconst _ ?_, hconst _ ?_, hconst _ ?_⟩ <;> norm_num [abs_le]

theorem ne_zero_of_lt {d : Double} (h : Double.lt (.fin 0) d = true) : d ≠ .fin 0 := by
  rintro rfl
  rw [Double.lt_irrefl] at h
  cases h

theorem regular_measures {v : ℕ → Double} (hv : ∀ i, (v i).isFinite = true) :
    ∀ e ∈ measures,
      (e.1 = 2 → (Expr.sqrt (sumOfSquares fun i => .val (v i))).eval ≠ .fin 0) →
      (e.1 = 5 → Double.lt (v 0) (.fin 0) = false) → (e.2.2 v fun i => .val (v i)).Regular := by
  have hconst : ∀ q : ℚ, |q| ≤ 2 ^ 64 → (Expr.const q).Regular := fun _ => Expr.regular_const
  have hx : ∀ i, (Expr.val (v i)).Regular := hv
  have hroot : (Expr.sqrt (sumOfSquares fun i => .val (v i))).Regular :=
    ⟨⟨⟨hx 0, hx 0⟩, hx 1, hx 1⟩, Expr.not_lt_sumOfSquares (hv 0) (hv 1)⟩
  have hdivisor : ∀ (n : ℕ) [n.AtLeastTwo], n < 2 ^ 53 →
      (Expr.const (OfNat.ofNat n)).eval ≠ .fin 0 := by
    intro n _ hn
    rw [Expr.eval_const hn]
    simp
  simp only [measures, List.forall_mem_cons]
  refine ⟨fun _ _ => ?_, fun hzero _ => ?_, fun _ _ => hroot, fun _ hneg => ?_, fun _ _ => ?_,
    fun _ _ => ?_, fun _ _ => ?_, fun _ _ => ?_, fun _ _ => ?_, fun _ _ => ?_, fun _ _ => ?_,
    fun _ _ => ?_, by simp⟩
  · split_ifs with hpos
    · exact ⟨⟨hconst _ (by norm_num [abs_le]), hroot⟩, hx 2, ne_zero_of_lt hpos⟩
    · rfl
  · exact ⟨hx 0, hroot, hzero trivial⟩
  · exact ⟨hx 0, hneg trivial⟩
  · have hthree : Double.lt (Expr.const 3).eval (.fin 0) = false := by
      rw [Expr.eval_const (by norm_num : 3 < 2 ^ 53)]
      simp [Double.lt]
    exact ⟨⟨⟨hx 0, hx 1⟩, hconst _ (by norm_num), hthree⟩, hconst _ (by norm_num),
      hdivisor 1000 (by norm_num)⟩
  · exact ⟨⟨hx 0, hconst _ (by norm_num)⟩, hconst _ (by norm_num), hdivisor 6 (by norm_num)⟩
  · split_ifs
    · exact hconst _ (by norm_num)
    · exact hconst _ (by norm_num)
    · exact hx 1
  · split_ifs with hzero
    · exact hconst _ (by norm_num)
    · rfl
    · rfl
    · refine ⟨hx 0, hx 1, fun h0 => hzero ?_⟩
      rw [show v 1 = .fin 0 from h0]
      exact Double.eq_self_fin 0
  · exact ⟨hx 0, hconst _ (by norm_num), hdivisor 2 (by norm_num)⟩
  · split_ifs
    · exact hx 1
    · exact hx 0
  · split_ifs
    · exact hx 1
    · exact hx 0
  · split_ifs
    · exact hconst _ (by norm_num)
    · exact hx 0

theorem regular_foldl {op : Expr → Double → Expr} {vs : List Double} {e : Expr} (he : e.Regular)
    (hop : ∀ e v, e.Regular → v.isFinite = true → (op e v).Regular)
    (hvs : ∀ v ∈ vs, v.isFinite = true) : (vs.foldl op e).Regular := by
  induction vs generalizing e with
  | nil => exact he
  | cons v vs ih =>
      exact ih (hop e v he (hvs v List.mem_cons_self))
        fun u hu => hvs u (List.mem_cons_of_mem _ hu)

-- What is chosen from a list has what all of it have.
theorem foldl_chosen {α : Type} (P : α → Prop) {op : α → α → α} {as : List α} {a : α}
    (hop : ∀ a b, op a b = a ∨ op a b = b) (ha : P a) (has : ∀ b ∈ as, P b) :
    P (as.foldl op a) := by
  induction as generalizing a with
  | nil => exact ha
  | cons b as ih =>
      refine ih ?_ fun c hc => has c (List.mem_cons_of_mem _ hc)
      rcases hop a b with h | h <;> rw [h]
      · exact ha
      · exact has b List.mem_cons_self

theorem ite_choice {α : Type} (c : Bool) (a b : α) :
    (if c then b else a) = a ∨ (if c then b else a) = b := by
  cases c
  · exact .inl rfl
  · exact .inr rfl

theorem regular_loops {vs : List Double} (hvs : ∀ v ∈ vs, v.isFinite = true) :
    ∀ e ∈ loops, (e.2 vs).Regular := by
  have hbit : ∀ c : Bool, (Expr.const (if c then 0 else 1)).Regular ∧
      (Expr.const (if c then 1 else 0)).Regular := by
    intro c
    cases c <;> exact ⟨Expr.regular_const (by norm_num), Expr.regular_const (by norm_num)⟩
  simp only [loops, List.forall_mem_cons]
  refine ⟨?_, (hbit _).1, (hbit _).2, ?_, ⟨?_, ?_⟩, (hbit _).2, by simp⟩
  · exact regular_foldl rfl (fun _ _ he hv => ⟨he, hv⟩) hvs
  · exact regular_foldl rfl (fun _ _ he hv => ⟨he, hv⟩) hvs
  · exact foldl_chosen (fun v : Double => v.isFinite = true) (fun _ _ => ite_choice _ _ _) rfl hvs
  · exact foldl_chosen (fun v : Double => v.isFinite = true) (fun _ _ => ite_choice _ _ _) rfl hvs

theorem regular_others {f : Formula} {ps : List Parcel} (h : (formula, f) ∈ others now)
    (hps : ∀ p ∈ ps, p.val.isFinite = true) (hout : f ps = some out) : out.val.Regular := by
  have hone : ∀ c : Bool, (Expr.const (if c then 1 else 0)).Regular := by
    intro c
    cases c <;> exact Expr.regular_const (by norm_num)
  have hnone : ∀ {out : Result}, some {} = some out → out.val.Regular := by
    rintro _ ⟨rfl⟩
    rfl
  simp only [others, List.mem_cons, Prod.mk.injEq, List.not_mem_nil, or_false] at h
  have hchoice : f = choice → out.val.Regular := by
    rintro rfl
    cases ps with
    | nil => cases hout
    | cons p ps =>
        obtain rfl := Option.some.inj hout
        exact foldl_chosen (fun q : Parcel => q.val.isFinite = true)
          (fun _ _ => (ite_choice _ _ _).symm) (hps p List.mem_cons_self) hps
  have hwithin : ∀ low high, f = within low high → out.val.Regular := by
    rintro low high rfl
    unfold within at hout
    split at hout
    · obtain rfl := Option.some.inj hout
      exact hone _
    · exact hnone hout
  rcases h with ⟨-, rfl⟩ | ⟨-, h⟩ | ⟨-, h⟩ | ⟨-, rfl⟩ | ⟨-, rfl⟩ | ⟨-, rfl⟩ | ⟨-, h⟩ | ⟨-, h⟩ |
    ⟨-, h⟩ | ⟨-, rfl⟩
  · obtain rfl := Option.some.inj hout
    have hlow := now.le_toInt
    have hhigh := now.toInt_lt
    refine Expr.regular_const (abs_le.mpr ⟨?_, ?_⟩)
    · exact_mod_cast (by omega : -(2 ^ 64) ≤ now.toInt)
    · exact_mod_cast (by omega : now.toInt ≤ 2 ^ 64)
  · exact hchoice h
  · exact hchoice h
  · obtain rfl := Option.some.inj hout
    exact hone _
  · unfold doublePoint at hout
    split at hout
    · cases hout
    · next p q =>
        obtain rfl := Option.some.inj hout
        dsimp only
        split_ifs
        · exact hone true
        · exact hone false
        · exact hps p List.mem_cons_self
    · next p _ _ =>
        obtain rfl := Option.some.inj hout
        exact hps p List.mem_cons_self
  · unfold chooseMeasure at hout
    split at hout
    · obtain rfl := Option.some.inj hout
      dsimp only [Expr.regular_val]
      split_ifs
      · exact hps _ (by simp)
      · exact hps _ (by simp)
    · exact hnone hout
  · exact hwithin _ _ h
  · exact hwithin _ _ h
  · exact hwithin _ _ h
  · unfold vbd at hout
    split_ifs at hout
    · obtain rfl := Option.some.inj hout
      exact hone true
    · exact hnone hout

theorem regular_result (h : calculate now s formula ids = some out)
    (hfin : ∀ p ∈ ids, (s.vals p).isFinite = true) (hdef : Defined formula (ids.map s.vals)) :
    out.val.Regular := by
  have hps : ∀ p ∈ ids.map s.parcel, p.val.isFinite = true := by
    intro p hp
    obtain ⟨j, hj, rfl⟩ := List.mem_map.mp hp
    exact hfin j hj
  have hvals : (ids.map s.parcel).map Parcel.val = ids.map s.vals := by
    rw [List.map_map]
    rfl
  have hvs : ∀ v ∈ ids.map s.vals, v.isFinite = true := by
    rintro v hv
    obtain ⟨j, hj, rfl⟩ := List.mem_map.mp hv
    exact hfin j hj
  have hv : ∀ i, ((ids.map s.vals).getD i (.fin 0)).isFinite = true := by
    intro i
    rw [List.getD_eq_getElem?_getD]
    cases hi : (ids.map s.vals)[i]? with
    | none => rfl
    | some v => exact hvs v (List.mem_of_getElem? hi)
  have hfixed : ∀ n f, (f (fun i => (ids.map s.vals).getD i (.fin 0))
      fun i => .val ((ids.map s.vals).getD i (.fin 0))).Regular →
      fixed n f (ids.map s.parcel) = some out → out.val.Regular := by
    intro n f hf hout
    simp only [fixed, hvals] at hout
    split_ifs at hout
    · obtain rfl := Option.some.inj hout
      exact hf
    · obtain rfl := Option.some.inj hout
      rfl
  rw [calculate] at h
  rcases compute_cases now formula with hnone | hformula
  · rw [hnone] at h
    obtain rfl := Option.some.inj h
    rfl
  rcases formulas_cases hformula with ⟨e, he, -, hf⟩ | ⟨e, he, rfl, hf⟩ | ⟨e, he, -, hf⟩ | hother
  · rw [hf] at h
    rcases List.mem_append.mp he with he | he
    · exact hfixed _ _ (regular_sums (fun i => Expr.regular_val.mpr (hv i)) e he) h
    · exact hfixed _ _ (regular_weighted (fun i => Expr.regular_val.mpr (hv i)) e he) h
  · rw [hf] at h
    refine hfixed _ _ (regular_measures hv e he hdef.1 fun h5 => ?_) h
    rw [List.getD_eq_getElem?_getD]
    cases hi : (ids.map s.vals)[0]? with
    | none => exact Double.lt_irrefl _
    | some v => exact hdef.2 h5 v (List.mem_of_getElem? hi)
  · rw [hf, loop, hvals] at h
    obtain rfl := Option.some.inj h
    exact regular_loops hvs e he
  · exact regular_others hother hps h

end Finite

theorem parcel_foldl (s : Readings) (docs : List RealtimeData) (p : ℤ) :
    (docs.foldl Readings.read s).parcel p =
      ((docs.findRev? fun d => d.id = p).map fun d => ⟨d.value, d.invalid⟩).getD (s.parcel p) := by
  induction docs generalizing s with
  | nil => rfl
  | cons d docs ih =>
      rw [List.foldl_cons, ih, List.findRev?]
      cases docs.findRev? fun d => d.id = p with
      | some e => rfl
      | none =>
          by_cases hd : d.id = p
          · subst hd
            simp [Readings.parcel, Readings.read]
          · simp [Readings.parcel, Readings.read, hd, Ne.symm hd]

-- A parcel counts as it was read last, and as a good zero if it was never read. A result is marked
-- invalid where its value depends on a parcel that counts as invalid, and its value is finite
-- where the values of the parcels are and nothing overflows.
theorem result_of_readings {now : Int64} {docs : List RealtimeData} {formula : ℤ} {ids : List ℤ}
    {out : Result} (h : calculate now (readAll docs) formula ids = some out)
    (hok : out.ok = true) :
    (∀ p, (readAll docs).parcel p =
      ((docs.findRev? fun d => d.id = p).map fun d => ⟨d.value, d.invalid⟩).getD ⟨.fin 0, false⟩) ∧
    (∀ p, DependsOn now (readAll docs) formula ids p → p ∉ unchecked formula ids →
      (readAll docs).invalids p = true → out.invalid = true) ∧
    ((∀ p ∈ ids, ((readAll docs).vals p).isFinite = true) →
      Defined formula (ids.map (readAll docs).vals) → out.val.overflows = false →
        out.val.eval.isFinite = true) := by
  refine ⟨parcel_foldl {} docs, ?_, ?_⟩
  · intro p hdep hchecked hp
    exact invalid_of_dependsOn h hok hdep hchecked hp
  · intro hfin hdef hover
    exact Expr.isFinite_eval (regular_result h hfin hdef) hover

-- The smaller of a number and of a parcel that was never read.
theorem missing_good :
    ∃ out, calculate 0 (readAll [⟨1, .fin 5, false⟩]) 220 [1, 2] = some out ∧ out.ok = true ∧
      DependsOn 0 (readAll [⟨1, .fin 5, false⟩]) 220 [1, 2] 2 ∧
      (∀ d ∈ [(⟨1, .fin 5, false⟩ : RealtimeData)], d.id ≠ 2) ∧ out.invalid = false := by
  refine ⟨_, rfl, rfl, ⟨.fin 7, ?_⟩, by decide, rfl⟩
  decide

-- The smaller of two parcels, one of which is invalid.
theorem smaller_invalid :
    ∃ out, calculate 0 (readAll [⟨1, .fin 5, false⟩, ⟨2, .fin 3, true⟩]) 220 [1, 2] = some out ∧
      out.invalid = true ∧ out.val.eval.isFinite = true := by
  have hresult := @result_of_readings 0 [⟨1, .fin 5, false⟩, ⟨2, .fin 3, true⟩] 220 [1, 2] _ rfl rfl
  refine ⟨_, rfl, hresult.2.1 2 ⟨.fin 7, ?_⟩ (by decide) rfl, hresult.2.2 ?_ ?_ ?_⟩
  · decide
  · decide
  · exact ⟨by decide, by decide⟩
  · decide


end JsonScada.Calculations
