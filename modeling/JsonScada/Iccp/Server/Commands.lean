import JsonScada.Iccp.Server

namespace JsonScada.Iccp.Server

open JsonScada.Library

section Marks

theorem domainItem_inj {d d' i i' : String} (hi : '/' ∉ i.toList) (hi' : '/' ∉ i'.toList) :
    d ++ "/" ++ i = d' ++ "/" ++ i' ↔ d = d' ∧ i = i' := by
  constructor
  · intro h
    have hlist := congrArg String.toList h
    simp only [String.toList_append, List.append_assoc] at hlist
    obtain ⟨hd, hitem⟩ := append_mark_inj hi hi' hlist
    exact ⟨String.toList_inj.mp hd, String.toList_inj.mp hitem⟩
  · rintro ⟨rfl, rfl⟩
    rfl

end Marks

section Names

-- The name before it is cut to its length.
def folded (name : String) : List Char :=
  let result := name.toList.map fun r => if isLetter r || r.isDigit then r else '_'
  match result with
  | c :: _ => if isLetter c then result else 'X' :: result
  | [] => []

theorem sanitizePointName_eq {name : String} (h : name ≠ "") :
    sanitizePointName name = String.ofList ((folded name).take 32) := by
  rw [sanitizePointName, if_neg h]
  rfl

theorem folded_ne_nil {name : String} (h : name ≠ "") : folded name ≠ [] := by
  unfold folded
  dsimp only
  split
  · split
    · next hcs _ =>
      rw [hcs]
      exact List.cons_ne_nil _ _
    · exact List.cons_ne_nil _ _
  · next hnil =>
    exact absurd (String.toList_eq_nil_iff.mp (List.map_eq_nil_iff.mp hnil)) h

theorem slash_not_mem_folded (name : String) : '/' ∉ folded name := by
  have hmap : '/' ∉ name.toList.map fun r => if isLetter r || r.isDigit then r else '_' := by
    intro hmap
    obtain ⟨r, -, hr⟩ := List.mem_map.mp hmap
    split at hr
    · next hgood =>
      rw [hr] at hgood
      exact absurd hgood (by decide)
    · exact absurd hr (by decide)
  unfold folded
  dsimp only
  split
  · split
    · exact hmap
    · intro h
      rcases List.mem_cons.mp h with hx | hx
      · exact absurd hx (by decide)
      · exact hmap hx
  · exact List.not_mem_nil

theorem sanitizePointName_ne_empty (name : String) : sanitizePointName name ≠ "" := by
  by_cases h : name = ""
  · rw [h]
    decide
  · rw [sanitizePointName_eq h]
    intro hempty
    have hlist := congrArg String.toList hempty
    rw [String.toList_ofList] at hlist
    cases hfolded : folded name with
    | nil => exact folded_ne_nil h hfolded
    | cons c cs => simp [hfolded] at hlist

theorem slash_not_mem_sanitizePointName (name : String) : '/' ∉ (sanitizePointName name).toList := by
  by_cases h : name = ""
  · rw [h]
    decide
  · rw [sanitizePointName_eq h, String.toList_ofList]
    exact fun hmem => slash_not_mem_folded name (List.mem_of_mem_take hmem)

end Names

section Lookup

variable {pl : Platform} {connections : List Connection} {c : Collection}

-- The tags whose own group is a domain and whose name folds to the name of a point.
def namesakes (tags : List RtData) (domain name : String) : List RtData :=
  tags.filter fun t => t.group1 = domain && sanitizePointName t.tag = name

theorem tagByDomainItem_eq (tags : List RtData) {domain name : String} (hdomain : domain ≠ "")
    (hname : '/' ∉ name.toList) :
    (populateRtDataCache tags).tagByDomainItem (domain ++ "/" ++ name) =
      ((namesakes tags domain name).getLast?).map RtData.tag := by
  have hentry : ((tags.filterMap fun t =>
      if t.group1 ≠ "" && sanitizePointName t.tag ≠ "" then
        some (t.group1 ++ "/" ++ sanitizePointName t.tag, t.tag) else none).filter
          fun e => e.1 = domain ++ "/" ++ name) =
      (namesakes tags domain name).map fun t =>
        (t.group1 ++ "/" ++ sanitizePointName t.tag, t.tag) := by
    induction tags with
    | nil => rfl
    | cons t tags ih =>
        have hkey : t.group1 ++ "/" ++ sanitizePointName t.tag = domain ++ "/" ++ name ↔
            t.group1 = domain ∧ sanitizePointName t.tag = name :=
          domainItem_inj (slash_not_mem_sanitizePointName t.tag) hname
        unfold namesakes at ih ⊢
        by_cases hgroup : t.group1 = ""
        · simpa [hgroup, Ne.symm hdomain] using ih
        · by_cases hsame : t.group1 = domain ∧ sanitizePointName t.tag = name
          · obtain ⟨rfl, rfl⟩ := hsame
            simpa [hgroup, sanitizePointName_ne_empty] using ih
          · have hsame' : ¬(t.group1 ++ "/" ++ sanitizePointName t.tag = domain ++ "/" ++ name) :=
              fun h => hsame (hkey.mp h)
            simp [hgroup, sanitizePointName_ne_empty, hsame, hsame'] at ih ⊢
            exact ih
  change filled _ tags (domain ++ "/" ++ name) = _
  rw [filled_eq, ofKey]
  dsimp only at hentry ⊢
  rw [hentry, List.getLast?_map, Option.map_map]
  rfl

-- The names are different, so the cache knows every tag by its name.
theorem rtDataByTag_of_mem {t : RtData} (h : t ∈ allTags connections c) :
    (populateRtDataCache (allTags connections c)).rtDataByTag t.tag = some t := by
  have hnodup : ((allTags connections c).map RtData.tag).Nodup :=
    c.nodup.sublist (List.filter_sublist.map _)
  change filled (fun u : RtData => some (u.tag, u)) (allTags connections c) t.tag = some t
  rw [filled_eq, ofKey]
  cases hlast : (((allTags connections c).filterMap fun u => some (u.tag, u)).filter
      fun e => e.1 = t.tag).getLast? with
  | none =>
      rw [List.getLast?_eq_none_iff, List.filter_eq_nil_iff] at hlast
      have hmem : (t.tag, t) ∈ (allTags connections c).filterMap fun u => some (u.tag, u) :=
        List.mem_filterMap.mpr ⟨t, h, rfl⟩
      exact absurd (decide_eq_true rfl) (hlast _ hmem)
  | some e =>
      obtain ⟨hmem, hkey⟩ := List.mem_filter.mp (List.mem_of_getLast? hlast)
      obtain ⟨u, hu, he⟩ := List.mem_filterMap.mp hmem
      obtain rfl := Option.some.inj he
      have hsame : u = t :=
        List.inj_on_of_nodup_map hnodup hu h (of_decide_eq_true hkey)
      rw [hsame]
      rfl

end Lookup

section Commands

variable (pl : Platform) (connections : List Connection) (c : Collection)

def cacheOf : Cache := populateRtDataCache (allTags connections c)

-- The tag that a command for a point of the model is queued for.
def reached (domain name : String) : Option RtData :=
  (namesakes (allTags connections c) domain name).getLast?.filter fun t => t.tag ≠ ""

variable {pl connections c}

theorem mem_of_reached {domain name : String} {t : RtData}
    (h : reached connections c domain name = some t) :
    t ∈ allTags connections c ∧ t.tag ≠ "" ∧
      (namesakes (allTags connections c) domain name).getLast? = some t := by
  obtain ⟨hlast, htag⟩ := Option.filter_eq_some_iff.mp h
  exact ⟨(List.mem_filter.mp (List.mem_of_getLast? hlast)).1, of_decide_eq_true htag, hlast⟩

-- A command is queued for the tag that is reached, with its address and its key.
theorem forwardCommand_eq (pl : Platform) (connections : List Connection) (c : Collection)
    (conn : Connection) {domain name : String} (hdomain : domain ≠ "")
    (hname : '/' ∉ name.toList) (value : Double) (valueStr : String) :
    (forwardCommand pl (cacheOf connections c) conn domain name value valueStr).map
        (fun cmd => (cmd.tag, cmd.pointKey)) =
      (reached connections c domain name).map fun t => (t.tag, t.id) := by
  have hfind : (cacheOf connections c).findTagByDomainItem domain name =
      (((namesakes (allTags connections c) domain name).getLast?).map RtData.tag).getD "" := by
    rw [Cache.findTagByDomainItem, cacheOf, tagByDomainItem_eq _ hdomain hname]
  unfold forwardCommand reached
  rw [hfind]
  cases hlast : (namesakes (allTags connections c) domain name).getLast? with
  | none => simp
  | some t =>
      have hmem : t ∈ allTags connections c :=
        (List.mem_filter.mp (List.mem_of_getLast? hlast)).1
      have hdata : (cacheOf connections c).findRtDataForTag t.tag = some t := rtDataByTag_of_mem hmem
      have hid : Double.eq t.id (.fin 0) = false := by
        have hpos := (List.mem_filter.mp hmem).2
        rw [queried, Bool.and_eq_true] at hpos
        cases hid : t.id with
        | fin q =>
            rw [hid] at hpos
            have hq : (0 : ℚ) < q := by simpa [Double.lt] using hpos.1
            simp [Double.eq, hq.ne']
        | nan => rfl
        | inf negative => rfl
      by_cases htag : t.tag = ""
      · simp [htag]
      · simp only [Option.map_some, Option.getD_some, hdata, hid, Bool.false_eq_true,
          if_false, Option.filter_some, ne_eq, htag, not_false_eq_true, decide_true, if_true]
        split <;> rfl

theorem pointOf_eq {t : RtData} {p : Point} (h : pointOf pl connections t = some p) :
    p.domain = trimSpace t.group1 ∧ p.domain ≠ "" ∧ p.name = sanitizePointName t.tag ∧ p.tag = t := by
  unfold pointOf at h
  dsimp only at h
  split at h
  · cases h
  · next hgroup =>
    rw [Bool.or_eq_true, not_or, decide_eq_true_eq] at hgroup
    split at h
    · obtain rfl := Option.some.inj h
      exact ⟨rfl, hgroup.1, rfl, rfl⟩
    · obtain ⟨type, -, rfl⟩ := Option.map_eq_some_iff.mp h
      exact ⟨rfl, hgroup.1, rfl, rfl⟩

theorem mem_points {p : Point} :
    p ∈ points pl connections c ↔
      p.tag ∈ allTags connections c ∧ pointOf pl connections p.tag = some p := by
  constructor
  · intro h
    obtain ⟨t, ht, hp⟩ := List.mem_filterMap.mp h
    obtain rfl := (pointOf_eq hp).2.2.2
    exact ⟨ht, hp⟩
  · rintro ⟨ht, hp⟩
    exact List.mem_filterMap.mpr ⟨p.tag, ht, hp⟩

-- A control point comes from a command that is not blocked, while some connection has commands.
theorem control_of_mem {p : Point} (h : p ∈ points pl connections c) (hcontrol : p.isControl = true) :
    p.tag.origin = "command" ∧ p.tag.commandBlocked = false ∧
      ∃ conn ∈ connections, conn.commandsEnabled = true := by
  have hp := (mem_points.mp h).2
  unfold pointOf at hp
  dsimp only at hp
  split at hp
  · cases hp
  · split at hp
    · next hcommand =>
      simp only [Bool.and_eq_true, decide_eq_true_eq, Bool.not_eq_true', hasCmdEnabled,
        List.any_eq_true] at hcommand
      obtain ⟨⟨horigin, hblocked⟩, conn, hconn, henabled, -⟩ := hcommand
      exact ⟨horigin, hblocked, conn, hconn, henabled⟩
    · obtain ⟨type, -, hpoint⟩ := Option.map_eq_some_iff.mp hp
      rw [← hpoint] at hcontrol
      cases hcontrol

-- The points of one domain have different names, for different tags.
def NamedApart (pl : Platform) (connections : List Connection) (c : Collection) : Prop :=
  ∀ p ∈ points pl connections c, ∀ q ∈ points pl connections c,
    p.domain = q.domain → p.name = q.name → p.tag.tag = q.tag.tag

-- What is written to a control point, or operates it, goes to the unblocked command that it was
-- created from.
def ReachesOwn (pl : Platform) (connections : List Connection) (c : Collection) : Prop :=
  ∀ p ∈ points pl connections c, p.isControl = true →
    ∀ conn ∈ connections, conn.commandsEnabled = true → ∀ value valueStr cmd,
      forwardCommand pl (cacheOf connections c) conn p.domain p.name value valueStr = some cmd →
        cmd.tag = p.tag.tag ∧ cmd.pointKey = p.tag.id ∧ p.tag.origin = "command" ∧
          p.tag.commandBlocked = false

-- Two tags with a point, of one group apart from blanks, do not fold to one name.
def FoldedApart (pl : Platform) (connections : List Connection) (c : Collection) : Prop :=
  ∀ t ∈ allTags connections c, ∀ u ∈ allTags connections c,
    (pointOf pl connections t).isSome = true → (pointOf pl connections u).isSome = true →
      trimSpace t.group1 = trimSpace u.group1 →
        sanitizePointName t.tag = sanitizePointName u.tag → t.tag = u.tag

-- Of the tags with just the group of a control point and with its folded name, with a point or
-- without one, the last one that is loaded is its own, or has no name.
def LastIsOwn (pl : Platform) (connections : List Connection) (c : Collection) : Prop :=
  ∀ t ∈ allTags connections c, (∃ p ∈ pointOf pl connections t, p.isControl = true) →
    ∀ u ∈ (namesakes (allTags connections c) (trimSpace t.group1)
      (sanitizePointName t.tag)).getLast?, u.tag = t.tag ∨ u.tag = ""

theorem namedApart_iff : NamedApart pl connections c ↔ FoldedApart pl connections c := by
  constructor
  · intro h t ht u hu htp hup hgroup hname
    obtain ⟨p, hp⟩ := Option.isSome_iff_exists.mp htp
    obtain ⟨q, hq⟩ := Option.isSome_iff_exists.mp hup
    obtain ⟨hpdomain, -, hpname, rfl⟩ := pointOf_eq hp
    obtain ⟨hqdomain, -, hqname, rfl⟩ := pointOf_eq hq
    apply h p (mem_points.mpr ⟨ht, hp⟩) q (mem_points.mpr ⟨hu, hq⟩)
    · rw [hpdomain, hqdomain, hgroup]
    · rw [hpname, hqname, hname]
  · intro h p hp q hq hdomain hname
    obtain ⟨ht, hp⟩ := mem_points.mp hp
    obtain ⟨hu, hq⟩ := mem_points.mp hq
    obtain ⟨hpdomain, -, hpname, -⟩ := pointOf_eq hp
    obtain ⟨hqdomain, -, hqname, -⟩ := pointOf_eq hq
    apply h p.tag ht q.tag hu (by rw [hp]; rfl) (by rw [hq]; rfl)
    · rw [← hpdomain, ← hqdomain, hdomain]
    · rw [← hpname, ← hqname, hname]

theorem reachesOwn_iff : ReachesOwn pl connections c ↔ LastIsOwn pl connections c := by
  constructor
  · rintro h t ht ⟨p, hp, hcontrol⟩ u hlast
    obtain ⟨hdomain, hne, hname, rfl⟩ := pointOf_eq hp
    have hmem := mem_points.mpr ⟨ht, hp⟩
    obtain ⟨-, -, conn, hconn, henabled⟩ := control_of_mem hmem hcontrol
    by_cases hu : u.tag = ""
    · exact .inr hu
    · left
      rw [← hdomain, ← hname] at hlast
      have hreached : reached connections c p.domain p.name = some u := by
        rw [reached, hlast, Option.filter_some, if_pos (decide_eq_true hu)]
      have hforward := forwardCommand_eq pl connections c conn hne
        (hname ▸ slash_not_mem_sanitizePointName p.tag.tag) (.fin 0) ""
      rw [hreached, Option.map_some, Option.map_eq_some_iff] at hforward
      obtain ⟨cmd, hcmd, heq⟩ := hforward
      have htag := (h p hmem hcontrol conn hconn henabled _ _ cmd hcmd).1
      rw [← htag]
      exact (congrArg Prod.fst heq).symm
  · intro h p hmem hcontrol conn hconn henabled value valueStr cmd hcmd
    obtain ⟨ht, hp⟩ := mem_points.mp hmem
    obtain ⟨hdomain, hne, hname, -⟩ := pointOf_eq hp
    obtain ⟨horigin, hblocked, -⟩ := control_of_mem hmem hcontrol
    have hforward := forwardCommand_eq pl connections c conn hne
      (hname ▸ slash_not_mem_sanitizePointName p.tag.tag) value valueStr
    rw [hcmd, Option.map_some] at hforward
    obtain ⟨u, hreached, heq⟩ := Option.map_eq_some_iff.mp hforward.symm
    obtain ⟨hu, hutag, hlast⟩ := mem_of_reached hreached
    rw [hdomain, hname] at hlast
    have hsame : u.tag = p.tag.tag :=
      (h p.tag ht ⟨p, hp, hcontrol⟩ u hlast).resolve_right hutag
    have hnodup : ((allTags connections c).map RtData.tag).Nodup :=
      c.nodup.sublist (List.filter_sublist.map _)
    have huq : u = p.tag := List.inj_on_of_nodup_map hnodup hu ht hsame
    rw [huq] at heq
    exact ⟨(congrArg Prod.fst heq).symm, (congrArg Prod.snd heq).symm, horigin, hblocked⟩

-- The points of a domain are told apart by their names, and each command goes to the tag of its
-- control point: exactly when no fold makes two of them one.
theorem reaches_own_tag_iff (pl : Platform) (connections : List Connection) (c : Collection) :
    NamedApart pl connections c ∧ ReachesOwn pl connections c ↔
      FoldedApart pl connections c ∧ LastIsOwn pl connections c :=
  and_congr namedApart_iff reachesOwn_iff

end Commands

section Samples

def plain : Platform where
  round := Double.fin
  sprint := fun _ => ""
  formatFloat := fun _ => ""

def breaker (id : ℚ) (tag : String) : RtData where
  id := .fin id
  tag := tag
  type := "digital"
  value := .fin 0
  invalid := false
  group1 := "North"
  origin := "command"
  protocolSourceConnectionNumber := .fin 7
  protocolSourceASDU := .null
  protocolSourceObjectAddress := .null
  protocolSourceCommonAddress := .null
  protocolSourceCommandDuration := .fin 0
  protocolSourceCommandUseSBO := false
  kconv1 := .number (.fin 1)
  kconv2 := .number (.fin 0)
  timeTagAtSource := none
  timeTagAtSourceOk := false
  commandBlocked := false

def controlCenter : List Connection := [⟨"ControlCenter", 1, true, []⟩]

-- Two breakers whose names differ behind the 32nd character.
def twoBreakers : Collection where
  tags := [breaker 1 "North-Substation-Feeder-Breaker-A", breaker 2 "North-Substation-Feeder-Breaker-B"]
  nodup := by decide

def breakerPoint (id : ℚ) (tag : String) : Point :=
  ⟨"North", "North_Substation_Feeder_Breaker_", .control .direct, breaker id tag⟩

-- Both have the one name of the domain, and a command for the first one is queued for the second.
theorem wrong_breaker :
    ¬NamedApart plain controlCenter twoBreakers ∧ ¬ReachesOwn plain controlCenter twoBreakers := by
  have hpoints : points plain controlCenter twoBreakers =
      [breakerPoint 1 "North-Substation-Feeder-Breaker-A",
        breakerPoint 2 "North-Substation-Feeder-Breaker-B"] := by
    rfl
  have hfirst : breakerPoint 1 "North-Substation-Feeder-Breaker-A" ∈
      points plain controlCenter twoBreakers := by
    rw [hpoints]
    exact List.mem_cons_self
  have hsecond : breakerPoint 2 "North-Substation-Feeder-Breaker-B" ∈
      points plain controlCenter twoBreakers := by
    rw [hpoints]
    exact List.mem_cons_of_mem _ (List.mem_singleton.mpr rfl)
  constructor
  · intro hapart
    exact absurd (hapart _ hfirst _ hsecond rfl rfl) (by decide)
  · intro hreaches
    have hlast := reachesOwn_iff.mp hreaches _ (mem_points.mp hfirst).1
      ⟨_, (mem_points.mp hfirst).2, rfl⟩ (breaker 2 "North-Substation-Feeder-Breaker-B") rfl
    exact absurd hlast (by decide)

end Samples

end JsonScada.Iccp.Server
