import JsonScada.Iec60870.Server.AutoTag
import JsonScada.Library.Allotment

namespace JsonScada.Iec60870.Server.AutoTag

open JsonScada.Library
open JsonScada.Library.Allotment
open JsonScada.Processor (Document Value)

section Opens

variable {ι : Type*}

-- The points that a category of a connection is about to distribute.
def isOpen (cfg : AutoTagCfg) (cat : Category) (p : Point ι) : Bool :=
  matchesTopic cfg p.group1 && (p.isOf cat && !p.isMapped cfg.protocolConnectionNumber)

def opens (cfg : AutoTagCfg) (cat : Category) (points : List (Point ι)) : List (Point ι) :=
  points.filter (isOpen cfg cat)

def rows (cfg : AutoTagCfg) (cat : Category) (points : List (Point ι)) : Rows ι :=
  (opens cfg cat points).map fun p => (p.id, p.canHold)

variable {cfg cfg' : AutoTagCfg} {cat cat' : Category} {points : List (Point ι)} {p : Point ι}

theorem opens_eq (cfg : AutoTagCfg) (cat : Category) (points : List (Point ι)) :
    opens cfg cat points = (candidates cfg.protocolConnectionNumber cat points).filter fun p =>
      matchesTopic cfg p.group1 :=
  List.filter_filter.symm

theorem mem_opens :
    p ∈ opens cfg cat points ↔ p ∈ points ∧ matchesTopic cfg p.group1 = true ∧
      p.isOf cat = true ∧ p.isMapped cfg.protocolConnectionNumber = false := by
  simp only [opens, isOpen, List.mem_filter, Bool.and_eq_true, Bool.not_eq_true']

theorem mem_rows {i : ι} {b : Bool} :
    (i, b) ∈ rows cfg cat points ↔ ∃ p ∈ opens cfg cat points, p.id = i ∧ p.canHold = b := by
  simp [rows]

theorem candidates_mem {x : Double} (hp : p ∈ candidates x cat points) :
    p ∈ points ∧ p.isOf cat = true := by
  obtain ⟨hp, hopen⟩ := List.mem_filter.mp hp
  exact ⟨hp, (Bool.and_eq_true _ _ ▸ hopen).1⟩

-- A point is of one category at most.
theorem isOf_unique (h : p.isOf cat = true) (h' : p.isOf cat' = true) : cat = cat' := by
  simp only [Point.isOf, Bool.and_eq_true, decide_eq_true_eq] at h h'
  have htype : cat.pointType = cat'.pointType := h.1.symm.trans h'.1
  have hcommand : cat.isCommand = cat'.isCommand := Bool.eq_iff_iff.mpr (by rw [← h.2, ← h'.2])
  cases cat <;> cases cat' <;> simp [Category.pointType, Category.isCommand] at htype hcommand ⊢

variable [LinearOrder ι] {id : ι} {ioa : ℤ}

theorem isMapped_pushTo (hhold : p.canHold = true) (hid : p.id = id) :
    (pushTo id (destDoc cfg cat ioa) p).isMapped cfg.protocolConnectionNumber = true := by
  rw [pushTo, if_pos hid, Point.isMapped, push_entries, if_pos hhold, List.any_append,
    Bool.or_eq_true, List.any_cons, fieldMatches_destDoc]
  exact .inr (by simp)

theorem isMapped_pushTo_ne {x : Double} (hne : cfg.protocolConnectionNumber ≠ x) :
    (pushTo id (destDoc cfg cat ioa) p).isMapped x = p.isMapped x := by
  unfold pushTo
  split_ifs with hid
  · rw [Point.isMapped, push_entries, List.any_append]
    cases p.canHold
    · simp [Point.isMapped]
    · simp [Point.isMapped, fieldMatches_destDoc, hne]
  · rfl

-- A point that gets a destination is open no longer, for any connection of the number.
theorem opens_push (hnumber : cfg'.protocolConnectionNumber = cfg.protocolConnectionNumber)
    (hhold : ∀ p ∈ points, p.id = id → p.canHold = true) :
    opens cfg cat (points.map (pushTo id (destDoc cfg' cat' ioa))) =
      (opens cfg cat points).filter fun p => p.id ≠ id := by
  unfold opens
  induction points with
  | nil => rfl
  | cons p points ih =>
      rw [List.map_cons, List.filter_cons, ih fun p' hp' => hhold p' (List.mem_cons_of_mem _ hp')]
      by_cases hid : p.id = id
      · have hmapped : (pushTo id (destDoc cfg' cat' ioa) p).isMapped
            cfg'.protocolConnectionNumber = true :=
          isMapped_pushTo (hhold p List.mem_cons_self hid) hid
        rw [isOpen, ← hnumber, hmapped, List.filter_cons]
        split_ifs <;> simp_all
      · have hsame : pushTo id (destDoc cfg' cat' ioa) p = p := if_neg hid
        rw [hsame, List.filter_cons]
        split_ifs <;> simp [hid]

-- The other connections do not mind.
theorem rows_push_ne (hnumber : cfg'.protocolConnectionNumber ≠ cfg.protocolConnectionNumber) :
    rows cfg cat (points.map (pushTo id (destDoc cfg' cat' ioa))) = rows cfg cat points := by
  unfold rows opens
  induction points with
  | nil => rfl
  | cons p points ih =>
      have hopen : isOpen cfg cat (pushTo id (destDoc cfg' cat' ioa) p) = isOpen cfg cat p := by
        rw [isOpen, isMapped_pushTo_ne hnumber, isOpen]
        unfold pushTo
        split_ifs <;> rfl
      have hrow : ((pushTo id (destDoc cfg' cat' ioa) p).id,
          (pushTo id (destDoc cfg' cat' ioa) p).canHold) = (p.id, p.canHold) := by
        unfold pushTo
        split_ifs
        · rw [push_canHold]
          rfl
        · rfl
      rw [List.map_cons, List.filter_cons, List.filter_cons, hopen]
      split_ifs
      · rw [List.map_cons, List.map_cons, hrow, ih]
      · exact ih

theorem rows_push (hnumber : cfg'.protocolConnectionNumber = cfg.protocolConnectionNumber)
    (hhold : ∀ p ∈ points, p.id = id → p.canHold = true) :
    rows cfg cat (points.map (pushTo id (destDoc cfg' cat' ioa))) =
      remove id (rows cfg cat points) := by
  rw [rows, opens_push hnumber hhold, remove, rows, List.filter_map]
  rfl

theorem usedAddresses_push (pl : Platform) (x : Double) (id : ι) (e : Document)
    (points : List (Point ι)) :
    usedAddresses pl x points ⊆ usedAddresses pl x (points.map (pushTo id e)) := by
  intro used hused
  obtain ⟨p, hp, hmem⟩ := List.mem_flatMap.mp hused
  obtain ⟨hp, hmapped⟩ := List.mem_filter.mp hp
  obtain ⟨e', he', rfl⟩ := List.mem_map.mp hmem
  obtain ⟨he', hcounted⟩ := List.mem_filter.mp he'
  refine List.mem_flatMap.mpr ⟨pushTo id e p, List.mem_filter.mpr ⟨List.mem_map_of_mem hp, ?_⟩, ?_⟩
  · unfold pushTo
    split_ifs
    · exact isMapped_push hmapped
    · exact hmapped
  · refine List.mem_map_of_mem (List.mem_filter.mpr ⟨?_, hcounted⟩)
    unfold pushTo
    split_ifs
    · rw [push_entries]
      exact List.mem_append_left _ he'
    · exact he'

end Opens

section Assign

variable {ι : Type*} [LinearOrder ι] {pl : Platform} {cfg cfg' : AutoTagCfg} {cat cat' : Category}
  {r : Run ι} {id : ι} {ioa : ℤ}

abbrev rowsOf (cfg : AutoTagCfg) (cat : Category) (r : Run ι) : Rows ι :=
  rows cfg cat r.coll.points

theorem rowsOf_nodup (cfg : AutoTagCfg) (cat : Category) (r : Run ι) :
    (rowsOf cfg cat r).Pairwise fun row row' => row.1 < row'.1 := by
  rw [rowsOf, rows, List.pairwise_map]
  exact r.coll.sorted.sublist List.filter_sublist

theorem startIoa_assign (pl : Platform) (cfg cfg' : AutoTagCfg) (cat cat' : Category) (id : ι)
    (ioa : ℤ) (r : Run ι) :
    startIoa cfg pl r cat ≤ startIoa cfg pl (r.assign cfg' cat' id ioa) cat := by
  rcases assign_cases cfg' cat' id ioa r with ⟨hsame, -⟩ | ⟨-, hpoints, -⟩
  · rw [hsame]
  · rw [startIoa, startIoa, hpoints]
    exact lastIoa_mono (usedAddresses_push pl _ _ _ _)

-- What an assignment does to the open points of a category: nothing when it fails or is made for
-- another connection or category, and otherwise the point is one of them no longer, and its
-- address is in use.
theorem assign_open (pl : Platform) (cfg cfg' : AutoTagCfg) (cat cat' : Category) (id : ι) (ioa : ℤ)
    (r : Run ι) :
    (r.assign cfg' cat' id ioa = r ∧ (id, true) ∉ rowsOf cfg cat r) ∨
      (cfg'.protocolConnectionNumber ≠ cfg.protocolConnectionNumber ∧
        rowsOf cfg cat (r.assign cfg' cat' id ioa) = rowsOf cfg cat r) ∨
      cfg'.protocolConnectionNumber = cfg.protocolConnectionNumber ∧
        rowsOf cfg cat (r.assign cfg' cat' id ioa) = remove id (rowsOf cfg cat r) ∧
        (cat'.Holds ioa → cat' = cat → ioa ≤ startIoa cfg pl (r.assign cfg' cat' id ioa) cat) := by
  rcases assign_cases cfg' cat' id ioa r with ⟨hsame, hnone⟩ | ⟨⟨p, hp, hid, hhold⟩, hpoints, -⟩
  · refine .inl ⟨hsame, fun hmem => ?_⟩
    obtain ⟨p, hp, hid, hhold⟩ := mem_rows.mp hmem
    rw [hnone p (List.mem_filter.mp hp).1 hid] at hhold
    cases hhold
  · have hall : ∀ p' ∈ r.coll.points, p'.id = id → p'.canHold = true := by
      intro p' hp' hid'
      rw [eq_of_id r.coll hp' hp (hid'.trans hid.symm)]
      exact hhold
    by_cases hnumber : cfg'.protocolConnectionNumber = cfg.protocolConnectionNumber
    · refine .inr (.inr ⟨hnumber, ?_, fun hholds hcat => ?_⟩)
      · rw [rowsOf, hpoints, rows_push hnumber hall]
      · subst hcat
        refine le_lastIoa ?_ hholds
        have hpushed : destDoc cfg' cat' ioa ∈ (pushTo id (destDoc cfg' cat' ioa) p).entries := by
          rw [pushTo, if_pos hid, push_entries, if_pos hhold]
          exact List.mem_append_right _ (List.mem_singleton.mpr rfl)
        have hused : objectAddress (destDoc cfg' cat' ioa) ∈ usedAddresses pl
            cfg.protocolConnectionNumber (r.coll.points.map (pushTo id (destDoc cfg' cat' ioa))) :=
          mem_usedAddresses (List.mem_map_of_mem hp) hpushed
            ((owns_destDoc cfg' cat' ioa _).mpr hnumber)
        rw [objectAddress_destDoc cfg' hholds] at hused
        rw [hpoints]
        exact hused
    · refine .inr (.inl ⟨hnumber, ?_⟩)
      rw [rowsOf, hpoints, rows_push_ne hnumber]

end Assign

section Loop

variable {ι : Type*} [LinearOrder ι] {pl : Platform} {cfg cfg' : AutoTagCfg} {cat cat' : Category}
  {r : Run ι} {nextIoa : ℤ}

-- A new run would come to the end of the range before it comes to a point it can distribute.
def Saturated (pl : Platform) (cfg : AutoTagCfg) (cat : Category) (r : Run ι) : Prop :=
  Full cat.ioaTop (startIoa cfg pl r cat) (rowsOf cfg cat r)

-- The loop passes over the points whose topic does not match.
theorem distribute_filter (ps : List (Point ι)) (nextIoa : ℤ) (r : Run ι) :
    distribute cfg cat ps nextIoa r =
      distribute cfg cat (ps.filter fun p => matchesTopic cfg p.group1) nextIoa r := by
  induction ps generalizing nextIoa r with
  | nil => rfl
  | cons p ps ih =>
      cases htopic : matchesTopic cfg p.group1 with
      | false =>
          rw [List.filter_cons_of_neg (by simp [htopic]), ← ih, distribute]
          simp [htopic]
      | true =>
          rw [List.filter_cons_of_pos (by simpa using htopic), distribute, distribute]
          simp only [htopic, Bool.not_true, Bool.false_eq_true, if_false, ← ih]

theorem distributeCategory_eq (start : Category → ℤ) :
    distributeCategory cfg start r cat =
      distribute cfg cat (opens cfg cat r.coll.points) (start cat) r := by
  rw [distributeCategory, distribute_filter, opens_eq]

-- The loop over the open points leaves the category saturated: when it ends at the top, the points
-- that are left come after those that use up the rest of the range.
theorem distribute_saturated {ps : List (Point ι)} (hbase : cat.ioaBase ≤ nextIoa + 1)
    (hsorted : ps.Pairwise fun p p' => p.id < p'.id)
    (htopics : ∀ p ∈ ps, matchesTopic cfg p.group1 = true)
    (hopen : ∀ p ∈ ps, (p.id, p.canHold) ∈ rowsOf cfg cat r)
    (hnext : ∀ p ∈ ps, nextIoa ≤ startIoa cfg pl r cat + rank (rowsOf cfg cat r) p.id)
    (hrows : ∀ i, (i, true) ∈ rowsOf cfg cat r → ∃ p ∈ ps, p.id = i) :
    Saturated pl cfg cat (distribute cfg cat ps nextIoa r) := by
  induction ps generalizing nextIoa r with
  | nil =>
      intro i hi
      obtain ⟨p, hp, -⟩ := hrows i hi
      cases hp
  | cons p ps ih =>
      obtain ⟨hfirst, hsorted⟩ := List.pairwise_cons.mp hsorted
      have htopic := htopics p List.mem_cons_self
      rw [distribute]
      simp only [htopic, Bool.not_true, Bool.false_eq_true, if_false]
      split_ifs with htop
      · intro i hi
        obtain ⟨p', hp', rfl⟩ := hrows i hi
        have hle := hnext p' hp'
        omega
      · have hholds : cat.Holds (nextIoa + 1) := ⟨hbase, not_lt.mp htop⟩
        have hrest : ∀ p' ∈ ps, matchesTopic cfg p'.group1 = true :=
          fun p' hp' => htopics p' (List.mem_cons_of_mem _ hp')
        rcases assign_open pl cfg cfg cat cat p.id (nextIoa + 1) r with
          ⟨hsame, hnot⟩ | ⟨hne, -⟩ | ⟨-, hremoved, hused⟩
        · rw [hsame]
          refine ih (by omega) hsorted hrest
            (fun p' hp' => hopen p' (List.mem_cons_of_mem _ hp')) (fun p' hp' => ?_) fun i hi => ?_
          · have hle := hnext p List.mem_cons_self
            have hrank := rank_lt (hopen p List.mem_cons_self) (hfirst p' hp')
            omega
          · obtain ⟨p', hp', rfl⟩ := hrows i hi
            rcases List.mem_cons.mp hp' with rfl | hp'
            · exact absurd hi hnot
            · exact ⟨p', hp', rfl⟩
        · exact absurd rfl hne
        · have hlast := hused hholds rfl
          refine ih (by omega) hsorted hrest (fun p' hp' => ?_) (fun p' hp' => ?_) fun i hi => ?_
          · rw [hremoved]
            exact mem_remove.mpr ⟨hopen p' (List.mem_cons_of_mem _ hp'), (hfirst p' hp').ne'⟩
          · omega
          · rw [hremoved] at hi
            obtain ⟨hi, hne⟩ := mem_remove.mp hi
            obtain ⟨p', hp', rfl⟩ := hrows i hi
            rcases List.mem_cons.mp hp' with rfl | hp'
            · exact absurd rfl hne
            · exact ⟨p', hp', rfl⟩

-- The other loops leave it saturated, from the counter they start at: an address that they hand
-- out to an open point makes up for that point.
theorem distribute_full (h : ∃ last ≤ nextIoa, last ≤ startIoa cfg pl r cat ∧
      Full cat.ioaTop last (rowsOf cfg cat r)) (hbase : cat.ioaBase ≤ nextIoa + 1)
    (ps : List (Point ι)) :
    Saturated pl cfg cat (distribute cfg' cat ps nextIoa r) := by
  let P (n : ℤ) (r' : Run ι) : Prop :=
    cat.ioaBase ≤ n + 1 ∧ ∃ last ≤ n, last ≤ startIoa cfg pl r' cat ∧
      Full cat.ioaTop last (rowsOf cfg cat r')
  have hstep : ∀ p ∈ ps, ∀ n r', n + 1 ≤ cat.ioaTop → P n r' →
      P (n + 1) (r'.assign cfg' cat p.id (n + 1)) := by
    rintro p - n r' htop ⟨hbase, last, hn, hlast, hfull⟩
    refine ⟨by omega, ?_⟩
    rcases assign_open pl cfg cfg' cat cat p.id (n + 1) r' with
      ⟨hsame, -⟩ | ⟨-, hrows⟩ | ⟨-, hrows, hused⟩
    · rw [hsame]
      exact ⟨last, by omega, hlast, hfull⟩
    · rw [hrows]
      exact ⟨last, by omega, hlast.trans (startIoa_assign ..), hfull⟩
    · have hnodup : ((rowsOf cfg cat r').map Prod.fst).Nodup := by
        rw [List.nodup_iff_pairwise_ne, List.pairwise_map]
        exact (rowsOf_nodup cfg cat r').imp fun h => ne_of_lt h
      rw [hrows]
      exact ⟨n + 1, le_rfl, hused ⟨hbase, htop⟩ rfl, (hfull.remove hnodup p.id).mono (by omega)⟩
  obtain ⟨n, -, last, -, hlast, hfull⟩ := distribute_induct P hstep ⟨hbase, h⟩
  exact hfull.mono hlast

variable (pl cfg cfg' nextIoa) in
-- The loops for other categories, and those for other connections, leave its points alone.
theorem distribute_other {ps : List (Point ι)}
    (hother : cfg'.protocolConnectionNumber ≠ cfg.protocolConnectionNumber ∨ cat' ≠ cat)
    (hps : ∀ p ∈ ps, p ∈ r.coll.points ∧ p.isOf cat' = true) :
    rowsOf cfg cat (distribute cfg' cat' ps nextIoa r) = rowsOf cfg cat r ∧
      startIoa cfg pl r cat ≤ startIoa cfg pl (distribute cfg' cat' ps nextIoa r) cat := by
  let P (_ : ℤ) (r' : Run ι) : Prop :=
    (∀ p ∈ ps, ∀ p' ∈ r'.coll.points, p'.id = p.id → p'.isOf cat' = true) ∧
      rowsOf cfg cat r' = rowsOf cfg cat r ∧ startIoa cfg pl r cat ≤ startIoa cfg pl r' cat
  have hstart : P nextIoa r := by
    refine ⟨fun p hp p' hp' hid => ?_, rfl, le_rfl⟩
    rw [eq_of_id r.coll hp' (hps p hp).1 hid]
    exact (hps p hp).2
  have hstep : ∀ p ∈ ps, ∀ n r', n + 1 ≤ cat'.ioaTop → P n r' →
      P (n + 1) (r'.assign cfg' cat' p.id (n + 1)) := by
    rintro p hp n r' - ⟨hof, hrows, hle⟩
    have hof' : ∀ q ∈ ps, ∀ p' ∈ (r'.assign cfg' cat' p.id (n + 1)).coll.points,
        p'.id = q.id → p'.isOf cat' = true := by
      intro q hq p' hp' hid
      rcases assign_cases cfg' cat' p.id (n + 1) r' with ⟨hsame, -⟩ | ⟨-, hpoints, -⟩
      · rw [hsame] at hp'
        exact hof q hq p' hp' hid
      · rw [hpoints] at hp'
        obtain ⟨p₀, hp₀, rfl⟩ := List.mem_map.mp hp'
        rw [pushTo_id] at hid
        have hkept := hof q hq p₀ hp₀ hid
        unfold pushTo
        split_ifs <;> exact hkept
    refine ⟨hof', ?_, hle.trans (startIoa_assign ..)⟩
    rcases assign_open pl cfg cfg' cat cat' p.id (n + 1) r' with
      ⟨hsame, -⟩ | ⟨-, hkept⟩ | ⟨hnumber, hremoved, -⟩
    · rw [hsame, hrows]
    · rw [hkept, hrows]
    · rw [hremoved, ← hrows]
      refine List.filter_eq_self.mpr fun row hrow => decide_eq_true fun hid => ?_
      obtain ⟨p', hp', hid', -⟩ := mem_rows.mp (show (row.1, row.2) ∈ _ from hrow)
      obtain ⟨hp', -, hopen, -⟩ := mem_opens.mp hp'
      have hcat := isOf_unique (hof p hp p' hp' (hid'.trans hid)) hopen
      exact hother.elim (fun hne => hne hnumber) fun hne => hne hcat
  obtain ⟨last, hend⟩ := distribute_induct P hstep hstart
  exact hend.2

end Loop

section Runs

variable {ι : Type*} [LinearOrder ι] {pl : Platform} {cfg cfg' : AutoTagCfg} {cat : Category}
  {r : Run ι}

variable (pl cfg cfg') in
-- Other categories, whatever their counters, and other connections.
theorem foldl_other (start : Category → ℤ) {cats : List Category}
    (h : cfg'.protocolConnectionNumber ≠ cfg.protocolConnectionNumber ∨ cat ∉ cats) (r : Run ι) :
    rowsOf cfg cat (cats.foldl (distributeCategory cfg' start) r) = rowsOf cfg cat r ∧
      startIoa cfg pl r cat ≤
        startIoa cfg pl (cats.foldl (distributeCategory cfg' start) r) cat := by
  induction cats generalizing r with
  | nil => exact ⟨rfl, le_rfl⟩
  | cons cat' cats ih =>
      have hother : cfg'.protocolConnectionNumber ≠ cfg.protocolConnectionNumber ∨ cat' ≠ cat :=
        h.imp_right fun hnot heq => hnot (heq ▸ List.mem_cons_self)
      have hrest : cfg'.protocolConnectionNumber ≠ cfg.protocolConnectionNumber ∨ cat ∉ cats :=
        h.imp_right fun hnot hmem => hnot (List.mem_cons_of_mem _ hmem)
      obtain ⟨hrows, hle⟩ := distribute_other pl cfg cfg' (start cat') hother
        fun p (hp : p ∈ candidates cfg'.protocolConnectionNumber cat' r.coll.points) =>
          candidates_mem hp
      obtain ⟨hrows', hle'⟩ := ih hrest (distributeCategory cfg' start r cat')
      exact ⟨hrows'.trans hrows, hle.trans hle'⟩

theorem saturated_foldl_other {start : Category → ℤ} {cats : List Category}
    (hother : cfg'.protocolConnectionNumber ≠ cfg.protocolConnectionNumber ∨ cat ∉ cats)
    (h : Saturated pl cfg cat r) :
    Saturated pl cfg cat (cats.foldl (distributeCategory cfg' start) r) := by
  obtain ⟨hrows, hle⟩ := foldl_other pl cfg cfg' start hother r
  rw [Saturated, hrows]
  exact Full.mono hle h

-- The categories are taken one after the other, each once.
theorem exists_split {cat : Category} {cfg : AutoTagCfg} (h : cat ∈ categories cfg) :
    ∃ pre post, categories cfg = pre ++ cat :: post ∧ cat ∉ pre ∧ cat ∉ post := by
  obtain ⟨pre, post, heq⟩ := List.append_of_mem h
  have hnodup := categories_nodup cfg
  rw [heq] at hnodup
  refine ⟨pre, post, heq, fun hpre => ?_, ?_⟩
  · exact (List.disjoint_of_nodup_append hnodup) hpre List.mem_cons_self
  · exact (List.nodup_cons.mp (List.nodup_append.mp hnodup).2.1).1

-- A connection saturates its categories.
theorem distributeConn_saturates (hcfg : isDistributed cfg = true) (hcat : cat ∈ categories cfg)
    (pl : Platform) (r : Run ι) : Saturated pl cfg cat (distributeConn cfg pl r) := by
  obtain ⟨pre, post, heq, hpre, hpost⟩ := exists_split hcat
  rw [distributeConn, if_pos hcfg, heq, List.foldl_append, List.foldl_cons]
  refine saturated_foldl_other (.inr hpost) ?_
  have hle := (foldl_other pl cfg cfg (startIoa cfg pl r) (.inr hpre) r).2
  generalize pre.foldl (distributeCategory cfg (startIoa cfg pl r)) r = r' at hle ⊢
  rw [distributeCategory_eq]
  refine distribute_saturated base_le_lastIoa (r'.coll.sorted.sublist List.filter_sublist)
    (fun p hp => (mem_opens.mp hp).2.1) (fun p hp => mem_rows.mpr ⟨p, hp, rfl, rfl⟩)
    (fun p _ => by omega) fun i hi => ?_
  obtain ⟨p, hp, hid, -⟩ := mem_rows.mp hi
  exact ⟨p, hp, hid⟩

-- All connections leave it saturated.
theorem saturated_distributeConn (h : Saturated pl cfg cat r) (cfg' : AutoTagCfg) :
    Saturated pl cfg cat (distributeConn cfg' pl r) := by
  rw [distributeConn]
  split_ifs with hcfg'
  · by_cases hnumber : cfg'.protocolConnectionNumber = cfg.protocolConnectionNumber
    · by_cases hcat : cat ∈ categories cfg'
      · obtain ⟨pre, post, heq, hpre, hpost⟩ := exists_split hcat
        rw [heq, List.foldl_append, List.foldl_cons]
        refine saturated_foldl_other (.inr hpost) ?_
        obtain ⟨hrows, hle⟩ :=
          foldl_other pl cfg cfg' (startIoa cfg' pl r) (.inr hpre) r
        generalize pre.foldl (distributeCategory cfg' (startIoa cfg' pl r)) r = r' at hrows hle ⊢
        have hstart : startIoa cfg' pl r cat = startIoa cfg pl r cat := by
          rw [startIoa, hnumber, startIoa]
        refine distribute_full ⟨startIoa cfg pl r cat, hstart.ge, hle, ?_⟩ base_le_lastIoa _
        rw [hrows]
        exact h
      · exact saturated_foldl_other (.inr hcat) h
    · exact saturated_foldl_other (.inl hnumber) h
  · exact h

-- Where a category is saturated, its loop assigns nothing.
theorem distribute_none {pre ps : List (Point ι)} (h : Saturated pl cfg cat r)
    (hopens : opens cfg cat r.coll.points = pre ++ ps) :
    distribute cfg cat ps (startIoa cfg pl r cat + pre.length) r = r := by
  induction ps generalizing pre with
  | nil => rfl
  | cons p ps ih =>
      have hmem : p ∈ opens cfg cat r.coll.points := by
        rw [hopens]
        exact List.mem_append_right _ List.mem_cons_self
      have htopic := (mem_opens.mp hmem).2.1
      rw [distribute]
      simp only [htopic, Bool.not_true, Bool.false_eq_true, if_false]
      split_ifs with htop
      · rfl
      · have hrank : rank (rowsOf cfg cat r) p.id = pre.length := by
          have hrows : rowsOf cfg cat r = pre.map (fun p => (p.id, p.canHold)) ++
              (p.id, p.canHold) :: ps.map fun p => (p.id, p.canHold) := by
            rw [rowsOf, rows, hopens, List.map_append, List.map_cons]
          have hsorted := rowsOf_nodup cfg cat r
          rw [hrows] at hsorted ⊢
          rw [rank_eq_length hsorted, List.length_map]
        have hsame : r.assign cfg cat p.id (startIoa cfg pl r cat + pre.length + 1) = r := by
          rcases assign_cases cfg cat p.id (startIoa cfg pl r cat + pre.length + 1) r with
            ⟨hsame, -⟩ | ⟨⟨p', hp', hid, hhold⟩, -⟩
          · exact hsame
          · rw [eq_of_id r.coll hp' (mem_opens.mp hmem).1 hid] at hhold
            have hfull := h p.id (mem_rows.mpr ⟨p, hmem, rfl, hhold⟩)
            omega
        rw [hsame]
        have hrest := @ih (pre ++ [p]) (by rw [hopens, List.append_assoc]; rfl)
        rwa [List.length_append, List.length_singleton, Nat.cast_add, Nat.cast_one,
          ← add_assoc] at hrest

theorem distributeConn_none (h : isDistributed cfg = true →
    ∀ cat ∈ categories cfg, Saturated pl cfg cat r) : distributeConn cfg pl r = r := by
  have hcats : ∀ cats : List Category, (∀ cat ∈ cats, Saturated pl cfg cat r) →
      cats.foldl (distributeCategory cfg (startIoa cfg pl r)) r = r := by
    intro cats hall
    induction cats with
    | nil => rfl
    | cons cat cats ih =>
        have hfirst : distributeCategory cfg (startIoa cfg pl r) r cat = r := by
          have hnone := distribute_none (hall cat List.mem_cons_self) (List.nil_append _).symm
          rwa [List.length_nil, Nat.cast_zero, add_zero, ← distributeCategory_eq] at hnone
        rw [List.foldl_cons, hfirst]
        exact ih fun cat' hcat' => hall cat' (List.mem_cons_of_mem _ hcat')
  unfold distributeConn
  split_ifs with hcfg
  · exact hcats _ (h hcfg)
  · rfl

end Runs

section Theorems

variable {ι : Type*} [LinearOrder ι] {pl : Platform} {cfg : AutoTagCfg} {cat : Category}

theorem saturated_foldl {r : Run ι} (h : Saturated pl cfg cat r) (cfgs : List AutoTagCfg) :
    Saturated pl cfg cat (cfgs.foldl (fun r cfg => distributeConn cfg pl r) r) := by
  induction cfgs generalizing r with
  | nil => exact h
  | cons cfg' cfgs ih => exact ih (saturated_distributeConn h cfg')

theorem foldl_saturates {cfgs : List AutoTagCfg} (hcfg : cfg ∈ cfgs)
    (hdistributed : isDistributed cfg = true) (hcat : cat ∈ categories cfg) (r : Run ι) :
    Saturated pl cfg cat (cfgs.foldl (fun r cfg => distributeConn cfg pl r) r) := by
  induction cfgs generalizing r with
  | nil => cases hcfg
  | cons cfg' cfgs ih =>
      rcases List.mem_cons.mp hcfg with rfl | hcfg
      · exact saturated_foldl (distributeConn_saturates hdistributed hcat pl r) cfgs
      · exact ih hcfg _

theorem foldl_none {cfgs : List AutoTagCfg} {r : Run ι}
    (h : ∀ cfg ∈ cfgs, isDistributed cfg = true →
      ∀ cat ∈ categories cfg, Saturated pl cfg cat r) :
    cfgs.foldl (fun r cfg => distributeConn cfg pl r) r = r := by
  induction cfgs with
  | nil => rfl
  | cons cfg cfgs ih =>
      rw [List.foldl_cons, distributeConn_none (h cfg List.mem_cons_self)]
      exact ih fun cfg' hcfg' => h cfg' (List.mem_cons_of_mem _ hcfg')

-- The destinations that are given have addresses of their own, in the range of their category, and
-- a second run gives none.
theorem distributeAutoTags_unique (pl : Platform) (cfgs : List AutoTagCfg) (coll : Collection ι) :
    Distributed cfgs coll (distributeAutoTags pl cfgs coll) ∧
      distributeAutoTags pl cfgs (distributeAutoTags pl cfgs coll).coll =
        { coll := (distributeAutoTags pl cfgs coll).coll } := by
  refine ⟨foldl_distributeConn_unique (List.Subset.refl cfgs) (distributed_start cfgs coll), ?_⟩
  -- a run depends on the collection, not on what has been logged
  exact foldl_none fun cfg hcfg hdistributed cat hcat =>
    foldl_saturates hcfg hdistributed hcat { coll := coll }

end Theorems

end JsonScada.Iec60870.Server.AutoTag
