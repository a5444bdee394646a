import JsonScada.WebServer.Database

-- The rights that a user is given at sign-in: those of all of the roles together.
namespace JsonScada.WebServer

open JsonScada.Library
open JsonScada.Processor (Value)

section SignIn

-- A role with all of its rights.
structure UserRole extends Role where
  isAdmin : Bool := false
  changePassword : Bool := false
  enterAnnotations : Bool := false
  enterNotes : Bool := false
  enterManuals : Bool := false
  enterLimits : Bool := false
  substituteValues : Bool := false
  ackEvents : Bool := false
  ackAlarms : Bool := false
  disableAlarms : Bool := false
  group1List : List String := []
  displayList : List String := []
  maxSessionDays : Double := .fin 3

-- All of the rights in an access token.
structure Rights extends UserRights where
  isAdmin : Bool := false
  changePassword : Bool := false
  sendCommands : Bool := false
  enterManuals : Bool := false
  group1CommandList : List String := []
  displayList : List String := []
  maxSessionDays : Double := .fin 0

-- Without a list of groups a role may read all of them.
def addRole (i : ℕ) (rights : Rights) (role : UserRole) : Rights where
  isAdmin := rights.isAdmin || role.isAdmin
  changePassword := rights.changePassword || role.changePassword
  sendCommands := rights.sendCommands || role.sendCommands
  enterAnnotations := rights.enterAnnotations || role.enterAnnotations
  enterNotes := rights.enterNotes || role.enterNotes
  enterManuals := rights.enterManuals || role.enterManuals
  enterLimits := rights.enterLimits || role.enterLimits
  substituteValues := rights.substituteValues || role.substituteValues
  ackEvents := rights.ackEvents || role.ackEvents
  ackAlarms := rights.ackAlarms || role.ackAlarms
  disableAlarms := rights.disableAlarms || role.disableAlarms
  group1List :=
    if i > 0 ∧ (rights.group1List.length = 0 ∨ role.group1List.length = 0) then []
    else rights.group1List ++ role.group1List
  group1CommandList := rights.group1CommandList ++ role.group1CommandList
  displayList := rights.displayList ++ role.displayList
  maxSessionDays :=
    if Double.lt rights.maxSessionDays role.maxSessionDays then role.maxSessionDays
    else rights.maxSessionDays

def addRoles : ℕ → Rights → List UserRole → Rights
  | _, rights, [] => rights
  | i, rights, role :: roles => addRoles (i + 1) (addRole i rights role) roles

def signInRights (roles : List UserRole) : Rights := addRoles 0 { group1List := [] } roles

end SignIn

section Combination

variable (roles : List UserRole)

-- The flags of a token, each beside that of a role.
def flags : List ((Rights → Bool) × (UserRole → Bool)) :=
  [((·.isAdmin), (·.isAdmin)), ((·.changePassword), (·.changePassword)),
    ((·.sendCommands), (·.sendCommands)), ((·.enterAnnotations), (·.enterAnnotations)),
    ((·.enterNotes), (·.enterNotes)), ((·.enterManuals), (·.enterManuals)),
    ((·.enterLimits), (·.enterLimits)), ((·.substituteValues), (·.substituteValues)),
    ((·.ackEvents), (·.ackEvents)), ((·.ackAlarms), (·.ackAlarms)),
    ((·.disableAlarms), (·.disableAlarms))]

-- The largest of zero and the days of the roles. What is no number is never the larger one.
def IsMaxDays (days : Double) : Prop :=
  (days = .fin 0 ∨ ∃ role ∈ roles, days = role.maxSessionDays) ∧
    Double.lt days (.fin 0) = false ∧
      ∀ role ∈ roles, Double.lt days role.maxSessionDays = false

-- The rights of all of the roles together.
structure Combined (rights : Rights) : Prop where
  flags : ∀ f ∈ flags, f.1 rights = roles.any f.2
  maxSessionDays : IsMaxDays roles rights.maxSessionDays
  unrestricted : roles = [] ∨ (∃ role ∈ roles, role.group1List = []) → rights.group1List = []
  group1List : (∀ role ∈ roles, role.group1List ≠ []) →
    ∀ g, g ∈ rights.group1List ↔ ∃ role ∈ roles, g ∈ role.group1List

-- The same rights, up to the order of the lists.
structure SameRights (a b : Rights) : Prop where
  flags : ∀ f ∈ flags, f.1 a = f.1 b
  maxSessionDays : a.maxSessionDays = b.maxSessionDays
  group1List : a.group1List.Perm b.group1List
  group1CommandList : a.group1CommandList.Perm b.group1CommandList
  displayList : a.displayList.Perm b.displayList

-- A command is allowed as the token has it, whatever the order that the roles are found in.
def AgreesWithToken (rights : Rights) : Prop :=
  ∀ (s : Session) (found : List Role), s.roles = some found →
    (∀ r, r ∈ found ↔ r ∈ roles.map (·.toRole)) →
      ∀ group1, canSendCommandTo s group1 =
        (rights.group1CommandList.isEmpty || includesGroup rights.group1CommandList group1)

end Combination

section Fields

variable (rights : Rights) (roles : List UserRole)

-- A field that every role adds to in the same way.
theorem addRoles_field {α : Type} (get : Rights → α) (f : α → UserRole → α)
    (h : ∀ i rights role, get (addRole i rights role) = f (get rights) role) (i : ℕ) :
    get (addRoles i rights roles) = roles.foldl f (get rights) := by
  induction roles generalizing i rights with
  | nil => rfl
  | cons role roles ih => rw [addRoles, ih, h, List.foldl_cons]

theorem foldl_or (f : UserRole → Bool) (b : Bool) :
    roles.foldl (fun b role => b || f role) b = (b || roles.any f) := by
  induction roles generalizing b with
  | nil => simp
  | cons role roles ih => rw [List.foldl_cons, ih, List.any_cons, Bool.or_assoc]

theorem foldl_append (f : UserRole → List String) (l : List String) :
    roles.foldl (fun l role => l ++ f role) l = l ++ roles.flatMap f := by
  induction roles generalizing l with
  | nil => simp
  | cons role roles ih => rw [List.foldl_cons, ih, List.flatMap_cons, List.append_assoc]

theorem flag_signIn {f : (Rights → Bool) × (UserRole → Bool)} (hf : f ∈ flags) :
    f.1 (signInRights roles) = roles.any f.2 := by
  have hstep : (∀ i rights role, f.1 (addRole i rights role) = (f.1 rights || f.2 role)) ∧
      f.1 { group1List := [] } = false := by
    simp only [flags, List.mem_cons, List.not_mem_nil, or_false] at hf
    rcases hf with rfl | rfl | rfl | rfl | rfl | rfl | rfl | rfl | rfl | rfl | rfl <;>
      exact ⟨fun _ _ _ => rfl, rfl⟩
  rw [signInRights, addRoles_field _ roles f.1 (fun b role => b || f.2 role) hstep.1, foldl_or,
    hstep.2, Bool.false_or]

theorem group1CommandList_signIn :
    (signInRights roles).group1CommandList = roles.flatMap (·.group1CommandList) := by
  rw [signInRights, addRoles_field _ roles (·.group1CommandList)
    (fun l role => l ++ role.group1CommandList) (fun _ _ _ => rfl), foldl_append]
  rfl

theorem displayList_signIn :
    (signInRights roles).displayList = roles.flatMap (·.displayList) := by
  rw [signInRights, addRoles_field _ roles (·.displayList) (fun l role => l ++ role.displayList)
    (fun _ _ _ => rfl), foldl_append]
  rfl

-- The longer of two sessions.
def longer (days other : Double) : Double := if Double.lt days other then other else days

theorem maxSessionDays_signIn : (signInRights roles).maxSessionDays =
    roles.foldl (fun days role => longer days role.maxSessionDays) (.fin 0) := by
  rw [signInRights, addRoles_field _ roles (·.maxSessionDays)
    (fun days role => longer days role.maxSessionDays) (fun _ _ _ => rfl)]

-- After the first role: one list that is empty makes it all empty.
theorem group1List_addRoles {i : ℕ} (hi : 0 < i) :
    (addRoles i rights roles).group1List =
      if rights.group1List = [] ∨ ∃ role ∈ roles, role.group1List = [] then []
      else rights.group1List ++ roles.flatMap (·.group1List) := by
  induction roles generalizing i rights with
  | nil =>
      by_cases hnone : rights.group1List = []
      · simp [addRoles, hnone]
      · simp [addRoles, hnone]
  | cons role roles ih =>
      have hadded : (addRole i rights role).group1List =
          if rights.group1List = [] ∨ role.group1List = [] then []
          else rights.group1List ++ role.group1List := by
        simp [addRole, hi]
      rw [addRoles, ih _ (Nat.succ_pos i), hadded]
      by_cases hnone : rights.group1List = [] ∨ role.group1List = []
      · rcases hnone with hnone | hnone <;> simp [hnone]
      · rw [not_or] at hnone
        simp [hnone.1, hnone.2]

theorem group1List_signIn : (signInRights roles).group1List =
    if ∃ role ∈ roles, role.group1List = [] then [] else roles.flatMap (·.group1List) := by
  cases roles with
  | nil => rfl
  | cons role roles =>
      have hfirst : (addRole 0 { group1List := [] } role).group1List = role.group1List := by
        simp [addRole]
      rw [signInRights, addRoles, group1List_addRoles _ _ (Nat.succ_pos 0), hfirst]
      simp

theorem longer_cases (days other : Double) :
    Double.lt days other = true ∧ longer days other = other ∨
      Double.lt days other = false ∧ longer days other = days := by
  unfold longer
  cases Double.lt days other
  · exact .inr ⟨rfl, rfl⟩
  · exact .inl ⟨rfl, rfl⟩

-- The longer one is not shorter than what it is taken from.
theorem lt_of_longer_lt {days other d : Double} (h : Double.lt (longer days other) d = true) :
    Double.lt days d = true := by
  rcases longer_cases days other with ⟨hlt, heq⟩ | ⟨-, heq⟩
  · rw [heq] at h
    exact Double.lt_trans hlt h
  · rwa [heq] at h

theorem longer_not_lt (days other : Double) : Double.lt (longer days other) other = false := by
  rcases longer_cases days other with ⟨-, heq⟩ | ⟨hlt, heq⟩
  · rw [heq]
    exact Double.lt_irrefl other
  · rwa [heq]

theorem longer_right_comm (days a b : Double) :
    longer (longer days a) b = longer (longer days b) a := by
  have hskip {days a b : Double} (ha : Double.lt days a = true) (hb : Double.lt days b = false) :
      Double.lt a b = false := by
    rw [Bool.eq_false_iff]
    exact fun hab => Bool.false_ne_true (hb.symm.trans (Double.lt_trans ha hab))
  unfold longer
  cases ha : Double.lt days a <;> cases hb : Double.lt days b
  · simp [ha, hb]
  · simp [hb, hskip hb ha]
  · simp [ha, hskip ha hb]
  · -- two numbers, of which neither may be the smaller one
    have hnan := And.intro (Double.ne_nan_of_lt ha).2 (Double.ne_nan_of_lt hb).2
    cases hab : Double.lt a b <;> cases hba : Double.lt b a
    · simp [Double.eq_of_not_lt hnan.1 hnan.2 hab hba]
    · simp [hab, hba]
    · simp [hab, hba]
    · exact absurd (Double.lt_trans hab hba) (by simp [Double.lt_irrefl])

-- The longest of the sessions, from the one that is granted without a role.
theorem foldl_longer (days : Double) :
    let longest := roles.foldl (fun days role => longer days role.maxSessionDays) days
    (longest = days ∨ ∃ role ∈ roles, longest = role.maxSessionDays) ∧
      (∀ d, Double.lt longest d = true → Double.lt days d = true) ∧
        ∀ role ∈ roles, Double.lt longest role.maxSessionDays = false := by
  induction roles generalizing days with
  | nil => exact ⟨.inl rfl, fun _ h => h, fun _ h => by cases h⟩
  | cons role roles ih =>
      obtain ⟨hvalue, hbound, hroles⟩ := ih (longer days role.maxSessionDays)
      rw [List.foldl_cons]
      refine ⟨?_, fun d hd => lt_of_longer_lt (hbound d hd), ?_⟩
      · rcases hvalue with heq | ⟨other, hother, heq⟩
        · rcases longer_cases days role.maxSessionDays with ⟨-, hlonger⟩ | ⟨-, hlonger⟩
          · exact .inr ⟨role, List.mem_cons_self, heq.trans hlonger⟩
          · exact .inl (heq.trans hlonger)
        · exact .inr ⟨other, List.mem_cons_of_mem _ hother, heq⟩
      · rw [List.forall_mem_cons]
        refine ⟨?_, hroles⟩
        rw [Bool.eq_false_iff]
        intro hlt
        exact Bool.false_ne_true ((longer_not_lt days _).symm.trans (hbound _ hlt))

theorem isMaxDays_signIn : IsMaxDays roles (signInRights roles).maxSessionDays := by
  rw [maxSessionDays_signIn]
  obtain ⟨hvalue, hbound, hroles⟩ := foldl_longer roles (.fin 0)
  refine ⟨hvalue, ?_, hroles⟩
  rw [Bool.eq_false_iff]
  intro hlt
  exact Bool.false_ne_true ((Double.lt_irrefl _).symm.trans (hbound _ hlt))

-- A command is allowed by a list that names its group, or where no role has a list.
theorem commandsTo_eq (group1 : Option Value) (canCmd : Bool) (found : List Role) :
    commandsTo group1 canCmd found =
      (found.any (includesGroup ·.group1CommandList group1) ||
        (canCmd && found.all (·.group1CommandList.isEmpty))) := by
  induction found generalizing canCmd with
  | nil => simp [commandsTo]
  | cons r found ih =>
      rw [commandsTo, ih, List.any_cons, List.all_cons, Bool.or_assoc, Bool.and_assoc]

theorem includesGroup_flatMap (found : List Role) (group1 : Option Value) :
    includesGroup (found.flatMap (·.group1CommandList)) group1 =
      found.any (includesGroup ·.group1CommandList group1) := by
  rw [Bool.eq_iff_iff, List.any_eq_true]
  cases group1 with
  | none => simp [includesGroup]
  | some v => cases v <;> simp [includesGroup]

end Fields

section Results

variable (roles : List UserRole)

theorem combined_signIn : Combined roles (signInRights roles) where
  flags := fun _ hf => flag_signIn roles hf
  maxSessionDays := isMaxDays_signIn roles
  unrestricted := by
    rintro (rfl | hempty)
    · rfl
    · rw [group1List_signIn, if_pos hempty]
  group1List := by
    intro hall g
    have hnone : ¬∃ role ∈ roles, role.group1List = [] := by
      rintro ⟨role, hrole, hempty⟩
      exact hall role hrole hempty
    rw [group1List_signIn, if_neg hnone, List.mem_flatMap]

theorem sameRights_of_perm {roles roles' : List UserRole} (h : roles.Perm roles') :
    SameRights (signInRights roles) (signInRights roles') where
  flags := fun f hf => by rw [flag_signIn roles hf, flag_signIn roles' hf, h.any_eq]
  maxSessionDays := by
    rw [maxSessionDays_signIn, maxSessionDays_signIn]
    exact h.foldl_eq' (fun a _ b _ days => longer_right_comm days _ _) _
  group1List := by
    have hempty : (∃ role ∈ roles, role.group1List = []) ↔
        ∃ role ∈ roles', role.group1List = [] := by
      simp only [h.mem_iff]
    rw [group1List_signIn, group1List_signIn]
    simp only [hempty]
    split_ifs
    · exact List.Perm.refl _
    · exact h.flatMap_right _
  group1CommandList := by
    rw [group1CommandList_signIn, group1CommandList_signIn]
    exact h.flatMap_right _
  displayList := by
    rw [displayList_signIn, displayList_signIn]
    exact h.flatMap_right _

theorem agreesWithToken (hroles : roles ≠ []) : AgreesWithToken roles (signInRights roles) := by
  intro s found hfound hsame group1
  have hany (p : Role → Bool) : found.any p = (roles.map (·.toRole)).any p := by
    rw [Bool.eq_iff_iff, List.any_eq_true, List.any_eq_true]
    exact exists_congr fun r => and_congr_left fun _ => hsame r
  have hall (p : Role → Bool) : found.all p = (roles.map (·.toRole)).all p := by
    rw [Bool.eq_iff_iff, List.all_eq_true, List.all_eq_true]
    exact forall_congr' fun r => imp_congr_left (hsame r)
  have hlist : (signInRights roles).group1CommandList =
      (roles.map (·.toRole)).flatMap (·.group1CommandList) := by
    rw [group1CommandList_signIn, List.flatMap_map]
  have hempty : (signInRights roles).group1CommandList.isEmpty =
      (roles.map (·.toRole)).all (·.group1CommandList.isEmpty) := by
    rw [hlist, Bool.eq_iff_iff, List.isEmpty_iff, List.flatMap_eq_nil_iff, List.all_eq_true]
    simp only [List.isEmpty_iff]
  have hsome : canSendCommandTo s group1 = commandsTo group1 true found := by
    obtain ⟨role, hrole⟩ := List.exists_mem_of_ne_nil roles hroles
    have hmem := (hsame role.toRole).mpr (List.mem_map_of_mem hrole)
    unfold canSendCommandTo
    rw [hfound]
    cases found with
    | nil => cases hmem
    | cons r found => rfl
  rw [hsome, commandsTo_eq, hany, hall, hempty, hlist, includesGroup_flatMap, Bool.true_and,
    Bool.or_comm]

section Samples

def observer : UserRole where
  sendCommands := false
  group1CommandList := []
  group1List := ["North", "South"]

def northerner : UserRole where
  sendCommands := true
  group1CommandList := ["North"]
  group1List := ["North"]
  maxSessionDays := .fin 1

end Samples

end Results

end JsonScada.WebServer
