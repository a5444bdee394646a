import JsonScada.WebServer.Js
import Mathlib.Logic.Function.Basic

-- The audit log of the authentication server: what each endpoint registers of a request.
namespace JsonScada.WebServer.UserActions

open JsonScada.Library
open JsonScada.Processor (Value truthyValue)
open JsonScada.Processor.Node (Runtime isSpace)

-- The fields of the object that a request carries, none for one that it lacks.
abbrev Body := String → Option Value

-- What the server takes from the runtime and from its libraries.
structure Platform where
  rt : Runtime
  -- the own fields of a Mongoose document of the model `Tag` that is made of a body, and its `_id`
  newTag : Body → Body
  newTagId : Body → Value
  -- bcrypt: a hash, none where the password is no text
  hashSync : Option Value → Option Value
  compareSync : Value → Value → Bool

-- The token of a request, verified.
structure Token where
  username : Option Value
  changePassword : Bool

-- What a request comes with besides its body, and what the database gives the handlers.
structure Request where
  token : Option Token
  now : ℤ
  -- the `_id` of the document that is made for the request
  newId : Value
  biggestTagId : Option Value

-- How the calls turn out that a handler makes before it registers: they can depend on the whole
-- body.
structure Outcome where
  -- none of them throws, and an uploaded file is accepted
  succeeds : Bool
  -- a tag with the `_id`, or a user with the role, is there already
  found : Bool
  -- the user, who signs in or changes the password, with the hash of the password
  user : Option (Bool × Value)
  signedIn : Bool

structure UserAction where
  username : Option Value
  properties : Body
  action : String
  timeTag : ℤ

def registerUserAction (req : Request) (body : Body) (actionName : String) : UserAction where
  username := match req.token with
    | some ck => ck.username
    | none => body "username"
  properties := Function.update body "password" none
  action := actionName
  timeTag := req.now

section Handlers

variable (pl : Platform) (req : Request) (o : Outcome) (body : Body)

-- `Math.trunc` and `Math.floor`
def mathTrunc : Double → Double
  | .fin q => .fin (if q < 0 then ⌈q⌉ else ⌊q⌋)
  | x => x

def mathFloor : Double → Double
  | .fin q => .fin ⌊q⌋
  | x => x

-- The trimmed name of a tag that is made, or one from its `_id`; none where `trim` fails.
def tagName (id : Value) : Option Value :=
  match body "tag" with
  | some (.string s) =>
      let name := Processor.trim isSpace s.toList
      some (.string (if name = [] then "new_tag_" ++ valueText id else String.ofList name))
  | v => if truthyValue v then none else some (.string ("new_tag_" ++ valueText id))

def onlyId (id : Value) : Body := fun k => if k = "_id" then some id else none

def createTag : List UserAction :=
  if truthyValue (body "_id") && !looseEq pl.rt (body "_id") 0 then
    let id := Value.number (mathTrunc (parseFloat pl.rt (body "_id")))
    match tagName body id with
    | some name =>
        if o.found = false ∧ o.succeeds = true then
          let body := Function.update (Function.update body "_id" (some id)) "tag" (some name)
          [registerUserAction req (onlyId (pl.newTagId body)) "createTag"]
        else []
    | none => []
  else
    let biggest := mathTrunc (parseFloat pl.rt (some (req.biggestTagId.getD (.number (.fin 0)))))
    let biggest := if Double.lt biggest (.fin 0) then .fin 0 else biggest
    let id := Value.number (mathTrunc (Double.add pl.rt.round biggest (.fin 1)))
    match tagName body id with
    | some name =>
        if o.succeeds then
          let body := Function.update (Function.update body "_id" (some id)) "tag" (some name)
          [registerUserAction req (pl.newTag body) "createTag"]
        else []
    | none => []

def updateTag : List UserAction := [registerUserAction req body "updateTag"]

def deleteTag : List UserAction := [registerUserAction req body "deleteTag"]

def updateProtocolConnection : List UserAction :=
  [registerUserAction req body "updateProtocolConnection"]

def deleteProtocolConnection : List UserAction :=
  [registerUserAction req body "deleteProtocolConnection"]

def createProtocolConnection : List UserAction :=
  if o.succeeds then [registerUserAction req (onlyId req.newId) "createProtocolConnection"] else []

def deleteProtocolDriverInstance : List UserAction :=
  [registerUserAction req body "deleteProtocolDriverInstance"]

def createProtocolDriverInstance : List UserAction :=
  if o.succeeds then [registerUserAction req (onlyId req.newId) "createProtocolDriverInstance"] else []

def floorField (key : String) : Body :=
  Function.update body key (some (.number (mathFloor (toNumber pl.rt (body key)))))

def updateProtocolDriverInstance : List UserAction :=
  if o.succeeds then
    let body := floorField pl (floorField pl body "protocolDriverInstanceNumber") "logLevel"
    [registerUserAction req body "updateProtocolDriverInstance"]
  else []

def userAddRole : List UserAction := [registerUserAction req body "userAddRole"]

def userRemoveRole : List UserAction :=
  if strictEq (body "username") (some (.string "admin")) &&
      strictEq (body "role") (some (.string "admin")) then []
  else [registerUserAction req body "userRemoveRole"]

def updateRole : List UserAction := [registerUserAction req body "updateRole"]

def updateUser : List UserAction := [registerUserAction req body "updateUser"]

def createRole : List UserAction :=
  if o.succeeds then
    [registerUserAction req (Function.update body "_id" (some req.newId)) "createRole"]
  else []

-- The password is hashed first.
def createUser : List UserAction :=
  let hashed := if truthyValue (body "password") then
      (pl.hashSync (body "password")).map fun hash => Function.update body "password" (some hash)
    else some body
  match hashed with
  | some body =>
      if o.succeeds then
        [registerUserAction req (Function.update body "_id" (some req.newId)) "createUser"]
      else []
  | none => []

def deleteRole : List UserAction :=
  if o.found = false ∧ o.succeeds = true then [registerUserAction req body "deleteRole"] else []

def deleteUser : List UserAction :=
  if strictEq (body "username") (some (.string "admin")) then []
  else [registerUserAction req body "deleteUser"]

def signup : List UserAction :=
  if (pl.hashSync (body "password")).isSome then [registerUserAction req body "signup"] else []

def signin : List UserAction :=
  if o.signedIn then [registerUserAction req body "signin"] else []

def signout : List UserAction := [registerUserAction req body "signout"]

-- A field that is there, and neither empty nor null.
def given (key : String) : Option Value :=
  (body key).filter fun v =>
    !strictEq (some v) (some (.string "")) && !strictEq (some v) (some .null)

-- The current and the new password are deleted between the two records.
def changePassword : List UserAction :=
  match o.user, req.token with
  | some (isLDAPUser, password), some ck =>
      if isLDAPUser = false ∧ strictEq ck.username (body "username") = true ∧
          ck.changePassword = true then
        match given body "currentPassword", given body "newPassword" with
        | some current, some new =>
            if pl.compareSync current password && (pl.hashSync (some new)).isSome && o.succeeds then
              [registerUserAction req body "changePassword",
                registerUserAction req
                  (Function.update (Function.update body "currentPassword" none) "newPassword" none)
                  "restartProcesses"]
            else []
        | _, _ => []
      else []
  | _, _ => []

-- `/^[a-zA-Z0-9][a-zA-Z0-9._-]{0,250}\.zip$/`
def safeFileName (name : List Char) : Bool :=
  let alphanumeric (c : Char) : Bool := c.isAlpha || c.isDigit
  let plain (c : Char) : Bool := alphanumeric c || c = '.' || c = '_' || c = '-'
  5 ≤ name.length && name.length ≤ 255 && name.head?.any alphanumeric && name.all plain &&
    ".zip".toList.isSuffixOf name

-- `project.fileName`, completed and trimmed, and the object with it.
def namedProject : Option (List Char × Value) :=
  let default := ("new_project_" ++ Decimal.ecmaString (pl.rt.round (req.now / 1000)) ++ ".zip").toList
  match body "project" with
  | some (.document fields) =>
      let name :=
        match fields.lookup "fileName" with
        | some (.string s) =>
            let name := Processor.trim isSpace s.toList
            some (if name = [] then default else name)
        | v => if truthyValue v then none else some default
      name.map fun name =>
        (name, .document (Processor.setField fields "fileName" (.string (String.ofList name))))
  | some (.array items) => some (default, .array items)
  | _ => none

def exportProject : List UserAction :=
  match namedProject pl req body with
  | some (name, project) =>
      if safeFileName name && o.succeeds then
        [registerUserAction req (Function.update body "project" (some project)) "exportProject"]
      else []
  | none => []

def importProject : List UserAction :=
  if o.succeeds then [registerUserAction req body "importProject"] else []

def restartProtocols : List UserAction :=
  if o.succeeds then [registerUserAction req body "restartProtocols"] else []

def restartProcesses : List UserAction :=
  if o.succeeds then [registerUserAction req body "restartProcesses"] else []

end Handlers

-- The endpoints that register a user action.
inductive Endpoint where
  | createTag | updateTag | deleteTag
  | updateProtocolConnection | deleteProtocolConnection | createProtocolConnection
  | deleteProtocolDriverInstance | createProtocolDriverInstance | updateProtocolDriverInstance
  | userAddRole | userRemoveRole | updateRole | updateUser | createRole | createUser | deleteRole
  | deleteUser | signup | signin | signout | changePassword
  | exportProject | importProject | restartProtocols | restartProcesses
  deriving DecidableEq

def records (pl : Platform) (req : Request) (o : Outcome) (body : Body) :
    Endpoint → List UserAction
  | .createTag => createTag pl req o body
  | .updateTag => updateTag req body
  | .deleteTag => deleteTag req body
  | .updateProtocolConnection => updateProtocolConnection req body
  | .deleteProtocolConnection => deleteProtocolConnection req body
  | .createProtocolConnection => createProtocolConnection req o
  | .deleteProtocolDriverInstance => deleteProtocolDriverInstance req body
  | .createProtocolDriverInstance => createProtocolDriverInstance req o
  | .updateProtocolDriverInstance => updateProtocolDriverInstance pl req o body
  | .userAddRole => userAddRole req body
  | .userRemoveRole => userRemoveRole req body
  | .updateRole => updateRole req body
  | .updateUser => updateUser req body
  | .createRole => createRole req o body
  | .createUser => createUser pl req o body
  | .deleteRole => deleteRole req o body
  | .deleteUser => deleteUser req body
  | .signup => signup pl req body
  | .signin => signin req o body
  | .signout => signout req body
  | .changePassword => changePassword pl req o body
  | .exportProject => exportProject pl req o body
  | .importProject => importProject req o body
  | .restartProtocols => restartProtocols req o body
  | .restartProcesses => restartProcesses req o body

def secretFields : List String :=
  ["password", "currentPassword", "newPassword", "passphrase", "privateKeyPassphrase"]

-- The secrets that `registerUserAction` leaves in the properties.
def keptSecrets : List String :=
  ["currentPassword", "newPassword", "passphrase", "privateKeyPassphrase"]

-- The fields of the schema of a tag.
def tagFields : List String :=
  ["_id", "alarmDisabled", "alarmRange", "alarmState", "alarmed", "alerted", "alertState",
    "annotation", "commandBlocked", "commandOfSupervised", "commissioningRemarks", "description",
    "eventTextFalse", "eventTextTrue", "formula", "frozen", "frozenDetectTimeout", "group1",
    "group2", "group3", "hihihiLimit", "hihiLimit", "hiLimit", "historianDeadBand",
    "historianPeriod", "historianLastValue", "hysteresis", "invalid", "invalidDetectTimeout",
    "isEvent", "kconv1", "kconv2", "location", "loLimit", "loloLimit", "lololoLimit", "notes",
    "origin", "overflow", "parcels", "priority", "protocolDestinations", "protocolSourceASDU",
    "protocolSourceCommandDuration", "protocolSourceCommandUseSBO", "protocolSourceCommonAddress",
    "protocolSourceConnectionNumber", "protocolSourceObjectAddress",
    "protocolSourcePublishingInterval", "protocolSourceSamplingInterval",
    "protocolSourceQueueSize", "protocolSourceDiscardOldest", "sourceDataUpdate",
    "stateTextFalse", "stateTextTrue", "substituted", "supervisedOfCommand", "tag", "timeTag",
    "timeTagAlarm", "timeTagAlertState", "timeTagAtSource", "timeTagAtSourceOk", "transient",
    "type", "ungroupedDescription", "unit", "updatesCnt", "value", "valueDefault", "valueJson",
    "valueString", "zeroDeadband"]

-- A document of a strict schema takes the fields of the schema from a body, and no others.
def Platform.Strict (pl : Platform) : Prop :=
  ∀ body body', (∀ k ∈ tagFields, body k = body' k) →
    pl.newTag body = pl.newTag body' ∧ pl.newTagId body = pl.newTagId body'

def DifferInSecrets (body body' : Body) : Prop := ∀ k ∉ secretFields, body k = body' k

def AgreeOnKept (body body' : Body) : Prop := ∀ k ∈ keptSecrets, body k = body' k

-- The endpoints that replace the body before they register it.
def Endpoint.replaces : Endpoint → Bool
  | .createTag | .createProtocolConnection | .createProtocolDriverInstance => true
  | _ => false

section Bodies

variable {body body' : Body}

theorem DifferInSecrets.update (h : DifferInSecrets body body') (k : String) (v : Option Value) :
    DifferInSecrets (Function.update body k v) (Function.update body' k v) := by
  intro k' hk'
  by_cases hk : k' = k
  · rw [hk, Function.update_self, Function.update_self]
  · rw [Function.update_of_ne hk, Function.update_of_ne hk]
    exact h k' hk'

theorem agreeOnKept_update {k : String} {v v' : Option Value} (hk : k ∉ keptSecrets) :
    AgreeOnKept (Function.update body k v) (Function.update body' k v') ↔ AgreeOnKept body body' := by
  apply forall₂_congr
  intro k' hk'
  have hne : k' ≠ k := by
    rintro rfl
    exact hk hk'
  rw [Function.update_of_ne hne, Function.update_of_ne hne]

theorem registered_iff (req : Request) (actionName : String) (h : DifferInSecrets body body') :
    registerUserAction req body actionName = registerUserAction req body' actionName ↔
      AgreeOnKept body body' := by
  have hkept (k : String) (hk : k ∈ keptSecrets) : k ≠ "password" := by
    rintro rfl
    exact absurd hk (by decide)
  constructor
  · intro heq k hk
    have hfields := congrFun (congrArg UserAction.properties heq) k
    simp only [registerUserAction] at hfields
    rwa [Function.update_of_ne (hkept k hk), Function.update_of_ne (hkept k hk)] at hfields
  · intro hagree
    have husername : body "username" = body' "username" := h "username" (by decide)
    have hfields : Function.update body "password" none = Function.update body' "password" none := by
      funext k
      by_cases hpassword : k = "password"
      · rw [hpassword, Function.update_self, Function.update_self]
      · rw [Function.update_of_ne hpassword, Function.update_of_ne hpassword]
        by_cases hk : k ∈ keptSecrets
        · exact hagree k hk
        · apply h
          intro hsecret
          rcases List.mem_cons.mp hsecret with hk' | hk'
          · exact hpassword hk'
          · exact hk hk'
    rw [registerUserAction, registerUserAction, husername, hfields]

end Bodies

section Endpoints

variable {pl : Platform} {req : Request} {o o' : Outcome} {body body' : Body}

theorem guarded {α : Type*} {c : Prop} [Decidable c] {l : List α} (h : (if c then l else []) ≠ []) :
    (if c then l else []) = l := by
  by_cases hc : c
  · exact if_pos hc
  · exact absurd (if_neg hc) h

theorem refused {α : Type*} {c : Prop} [Decidable c] {l : List α} (h : (if c then [] else l) ≠ []) :
    (if c then [] else l) = l := by
  by_cases hc : c
  · exact absurd (if_pos hc) h
  · exact if_neg hc

-- One record on each side, of bodies that come from the ones that were sent.
theorem single_iff (actionName : String) {b b' : Body} (hdiff : DifferInSecrets b b')
    (hkept : AgreeOnKept b b' ↔ AgreeOnKept body body') :
    [registerUserAction req b actionName] = [registerUserAction req b' actionName] ↔
      AgreeOnKept body body' := by
  rw [List.cons.injEq, and_iff_left rfl, registered_iff req actionName hdiff, hkept]

theorem plain_iff (actionName : String) (hdiff : DifferInSecrets body body') :
    [registerUserAction req body actionName] = [registerUserAction req body' actionName] ↔
      AgreeOnKept body body' := single_iff actionName hdiff Iff.rfl

theorem guarded_iff (actionName : String) {c c' : Prop} [Decidable c] [Decidable c']
    (hdiff : DifferInSecrets body body')
    (h : (if c then [registerUserAction req body actionName] else []) ≠ [])
    (h' : (if c' then [registerUserAction req body' actionName] else []) ≠ []) :
    ((if c then [registerUserAction req body actionName] else []) =
        if c' then [registerUserAction req body' actionName] else []) ↔
      AgreeOnKept body body' := by
  rw [guarded h, guarded h']
  exact plain_iff actionName hdiff

theorem refused_iff (actionName : String) {c c' : Prop} [Decidable c] [Decidable c']
    (hdiff : DifferInSecrets body body')
    (h : (if c then [] else [registerUserAction req body actionName]) ≠ [])
    (h' : (if c' then [] else [registerUserAction req body' actionName]) ≠ []) :
    ((if c then [] else [registerUserAction req body actionName]) =
        if c' then [] else [registerUserAction req body' actionName]) ↔
      AgreeOnKept body body' := by
  rw [refused h, refused h']
  exact plain_iff actionName hdiff

-- A field that is no secret is set to the same value on both sides.
theorem updated_iff (actionName : String) (hdiff : DifferInSecrets body body') {k : String}
    (hk : k ∉ keptSecrets) (v : Option Value) :
    [registerUserAction req (Function.update body k v) actionName] =
        [registerUserAction req (Function.update body' k v) actionName] ↔
      AgreeOnKept body body' :=
  single_iff actionName (hdiff.update k v) (agreeOnKept_update hk)

theorem tagName_congr (h : body "tag" = body' "tag") (id : Value) :
    tagName body id = tagName body' id := by
  rw [tagName, tagName, h]

theorem tag_congr (hstrict : pl.Strict) (hdiff : DifferInSecrets body body') (id name : Value) :
    pl.newTag (Function.update (Function.update body "_id" (some id)) "tag" (some name)) =
        pl.newTag (Function.update (Function.update body' "_id" (some id)) "tag" (some name)) ∧
      pl.newTagId (Function.update (Function.update body "_id" (some id)) "tag" (some name)) =
        pl.newTagId (Function.update (Function.update body' "_id" (some id)) "tag" (some name)) := by
  apply hstrict
  intro k hk
  apply (hdiff.update "_id" _).update "tag" _
  intro hsecret
  have hapart : ∀ k ∈ secretFields, k ∉ tagFields := by decide
  exact hapart k hsecret hk

-- Whatever becomes of its calls, a tag that is made is registered alike.
theorem createTag_eq (hstrict : pl.Strict) (hdiff : DifferInSecrets body body')
    (h : createTag pl req o body ≠ []) (h' : createTag pl req o' body' ≠ []) :
    createTag pl req o body = createTag pl req o' body' := by
  have hid : body "_id" = body' "_id" := hdiff "_id" (by decide)
  have htag : body "tag" = body' "tag" := hdiff "tag" (by decide)
  unfold createTag at h h' ⊢
  rw [← hid] at h' ⊢
  by_cases hgiven : (truthyValue (body "_id") && !looseEq pl.rt (body "_id") 0) = true
  · simp only [if_pos hgiven, ← tagName_congr htag] at h h' ⊢
    split at h
    · next name hname =>
      simp only [hname] at h' ⊢
      rw [guarded h, guarded h', (tag_congr hstrict hdiff _ name).2]
    · exact absurd rfl h
  · simp only [if_neg hgiven, ← tagName_congr htag] at h h' ⊢
    split at h
    · next name hname =>
      simp only [hname] at h' ⊢
      rw [guarded h, guarded h', (tag_congr hstrict hdiff _ name).1]
    · exact absurd rfl h

-- Where the password is hashed first, the hash is left out as the password is.
theorem createUser_iff (hdiff : DifferInSecrets body body') (h : createUser pl req o body ≠ [])
    (h' : createUser pl req o' body' ≠ []) :
    createUser pl req o body = createUser pl req o' body' ↔ AgreeOnKept body body' := by
  have hashed (b : Body) (o : Outcome) (h : createUser pl req o b ≠ []) : ∃ v,
      createUser pl req o b = [registerUserAction req
        (Function.update (Function.update b "password" v) "_id" (some req.newId)) "createUser"] := by
    unfold createUser at h ⊢
    dsimp only at h ⊢
    split at h
    · next b' hb' =>
      obtain ⟨v, rfl⟩ : ∃ v, b' = Function.update b "password" v := by
        split at hb'
        · obtain ⟨hash, -, rfl⟩ := Option.map_eq_some_iff.mp hb'
          exact ⟨_, rfl⟩
        · obtain rfl := Option.some.inj hb'
          exact ⟨_, (Function.update_eq_self _ _).symm⟩
      exact ⟨v, guarded h⟩
    · exact absurd rfl h
  obtain ⟨v, hv⟩ := hashed body o h
  obtain ⟨v', hv'⟩ := hashed body' o' h'
  rw [hv, hv']
  apply single_iff
  · apply DifferInSecrets.update
    intro k hk
    have hpassword : k ≠ "password" := by
      rintro rfl
      exact hk (by decide)
    rw [Function.update_of_ne hpassword, Function.update_of_ne hpassword]
    exact hdiff k hk
  · rw [agreeOnKept_update (by decide), agreeOnKept_update (by decide)]

theorem updateProtocolDriverInstance_iff (hdiff : DifferInSecrets body body')
    (h : updateProtocolDriverInstance pl req o body ≠ [])
    (h' : updateProtocolDriverInstance pl req o' body' ≠ []) :
    updateProtocolDriverInstance pl req o body = updateProtocolDriverInstance pl req o' body' ↔
      AgreeOnKept body body' := by
  have hfloor {b b' : Body} (hb : DifferInSecrets b b') {k : String} (hk : k ∉ secretFields) :
      DifferInSecrets (floorField pl b k) (floorField pl b' k) := by
    unfold floorField
    rw [hb k hk]
    exact hb.update k _
  unfold updateProtocolDriverInstance at h h' ⊢
  rw [guarded h, guarded h']
  apply single_iff
  · exact hfloor (hfloor hdiff (by decide)) (by decide)
  · unfold floorField
    rw [agreeOnKept_update (by decide), agreeOnKept_update (by decide)]

-- Of the two records of a changed password, the first one decides.
theorem changePassword_iff (hdiff : DifferInSecrets body body')
    (h : changePassword pl req o body ≠ []) (h' : changePassword pl req o' body' ≠ []) :
    changePassword pl req o body = changePassword pl req o' body' ↔ AgreeOnKept body body' := by
  have registered (b : Body) (o : Outcome) (h : changePassword pl req o b ≠ []) :
      changePassword pl req o b = [registerUserAction req b "changePassword",
        registerUserAction req
          (Function.update (Function.update b "currentPassword" none) "newPassword" none)
          "restartProcesses"] := by
    unfold changePassword at h ⊢
    split at h
    · next isLDAPUser password ck huser htoken =>
      have hallowed := guarded h
      rw [hallowed] at h
      rw [hallowed]
      split at h
      · exact guarded h
      · exact absurd rfl h
    · exact absurd rfl h
  rw [registered body o h, registered body' o' h', List.cons.injEq, registered_iff req _ hdiff]
  apply and_iff_left_of_imp
  intro hagree
  apply congrArg (fun r => [r])
  rw [registered_iff]
  · intro k hk
    simp only [Function.update_apply, hagree k hk]
  · exact (hdiff.update _ _).update _ _

theorem exportProject_iff (hdiff : DifferInSecrets body body')
    (h : exportProject pl req o body ≠ []) (h' : exportProject pl req o' body' ≠ []) :
    exportProject pl req o body = exportProject pl req o' body' ↔ AgreeOnKept body body' := by
  have hproject : namedProject pl req body = namedProject pl req body' := by
    rw [namedProject, namedProject, hdiff "project" (by decide)]
  unfold exportProject at h h' ⊢
  rw [← hproject] at h' ⊢
  split at h
  · next name project hname =>
    simp only [hname] at h' ⊢
    rw [guarded h, guarded h']
    exact updated_iff "exportProject" hdiff (by decide) (some project)
  · exact absurd rfl h

-- An endpoint that registers the body itself.
theorem kept_iff {e : Endpoint} (he : e.replaces = false) (hdiff : DifferInSecrets body body')
    (h : records pl req o body e ≠ []) (h' : records pl req o' body' e ≠ []) :
    records pl req o body e = records pl req o' body' e ↔ AgreeOnKept body body' := by
  cases e with
  | createTag | createProtocolConnection | createProtocolDriverInstance => cases he
  | createUser => exact createUser_iff hdiff h h'
  | changePassword => exact changePassword_iff hdiff h h'
  | exportProject => exact exportProject_iff hdiff h h'
  | updateProtocolDriverInstance => exact updateProtocolDriverInstance_iff hdiff h h'
  | createRole =>
      simp only [records, createRole] at h h' ⊢
      rw [guarded h, guarded h']
      exact updated_iff "createRole" hdiff (by decide) _
  | userRemoveRole => exact refused_iff "userRemoveRole" hdiff h h'
  | deleteUser => exact refused_iff "deleteUser" hdiff h h'
  | deleteRole => exact guarded_iff "deleteRole" hdiff h h'
  | signup => exact guarded_iff "signup" hdiff h h'
  | signin => exact guarded_iff "signin" hdiff h h'
  | importProject => exact guarded_iff "importProject" hdiff h h'
  | restartProtocols => exact guarded_iff "restartProtocols" hdiff h h'
  | restartProcesses => exact guarded_iff "restartProcesses" hdiff h h'
  | updateTag | deleteTag | updateProtocolConnection | deleteProtocolConnection
  | deleteProtocolDriverInstance | userAddRole | updateRole | updateUser | signout =>
      exact plain_iff _ hdiff

theorem replaced_eq {e : Endpoint} (he : e.replaces = true) (hstrict : pl.Strict)
    (hdiff : DifferInSecrets body body') (h : records pl req o body e ≠ [])
    (h' : records pl req o' body' e ≠ []) :
    records pl req o body e = records pl req o' body' e := by
  cases e with
  | createTag => exact createTag_eq hstrict hdiff h h'
  | createProtocolConnection | createProtocolDriverInstance =>
      exact (guarded h).trans (guarded h').symm
  | _ => cases he

-- The records of two requests that differ in secrets are the same exactly where the endpoint
-- replaces the body, or the secrets other than the password are the same too.
theorem records_equal_iff (pl : Platform) (hstrict : pl.Strict) (e : Endpoint) (req : Request)
    (o o' : Outcome) (body body' : Body) (hdiff : DifferInSecrets body body')
    (h : records pl req o body e ≠ []) (h' : records pl req o' body' e ≠ []) :
    records pl req o body e = records pl req o' body' e ↔
      e.replaces = true ∨ AgreeOnKept body body' := by
  cases he : e.replaces with
  | true => exact iff_of_true (replaced_eq he hstrict hdiff h h') (.inl rfl)
  | false => exact (kept_iff he hdiff h h').trans (or_iff_right Bool.false_ne_true).symm

end Endpoints

section Samples

-- A model that takes nothing but the name of a tag, and passwords that are their own hashes.
def library : Platform where
  rt := { round := Library.Double.fin, localOffset := fun _ => 0 }
  newTag := fun body => fun k => if k = "tag" then body "tag" else none
  newTagId := fun body => (body "_id").getD .null
  hashSync := id
  compareSync := fun password hash => truthyValue (some password) && truthyValue (some hash)

theorem library_strict : library.Strict := by
  intro body body' h
  refine ⟨?_, congrArg (fun v => v.getD .null) (h "_id" (by decide))⟩
  funext k
  by_cases hk : k = "tag"
  · exact if_congr Iff.rfl (h "tag" (by decide)) rfl
  · exact (if_neg hk).trans (if_neg hk).symm

def anna : Request where
  token := some ⟨some (.string "anna"), true⟩
  now := 0
  newId := .null
  biggestTagId := none

def accepted : Outcome := ⟨true, false, some (false, .string "hash"), true⟩

def passwords (current new : String) : Body := fun k =>
  if k = "username" then some (.string "anna")
  else if k = "currentPassword" then some (.string current)
  else if k = "newPassword" then some (.string new)
  else none

theorem passwords_differ (current new current' new' : String) :
    DifferInSecrets (passwords current new) (passwords current' new') := by
  intro k hk
  have hcurrent : k ≠ "currentPassword" := by
    rintro rfl
    exact hk (by decide)
  have hnew : k ≠ "newPassword" := by
    rintro rfl
    exact hk (by decide)
  simp only [passwords, if_neg hcurrent, if_neg hnew]

-- Two requests that give the same secrets but for the password itself.
theorem same_record :
    records library anna accepted (Function.update (passwords "a" "b") "password" none)
        .updateUser =
      records library anna accepted
        (Function.update (passwords "a" "b") "password" (some (.string "c"))) .updateUser := by
  have hdiff : DifferInSecrets (Function.update (passwords "a" "b") "password" none)
      (Function.update (passwords "a" "b") "password" (some (.string "c"))) := by
    intro k hk
    have hpassword : k ≠ "password" := by
      rintro rfl
      exact hk (by decide)
    rw [Function.update_of_ne hpassword, Function.update_of_ne hpassword]
  refine (records_equal_iff library library_strict .updateUser anna accepted accepted _ _ hdiff
    (List.cons_ne_nil _ _) (List.cons_ne_nil _ _)).mpr (.inr ?_)
  exact (agreeOnKept_update (by decide)).mpr fun _ _ => rfl

-- The passwords of a user who changes them are in the first of the two records.
def storedPasswords (current new : String) : List (Option Value × Option Value) :=
  (records library anna accepted (passwords current new) .changePassword).map fun r =>
    (r.properties "currentPassword", r.properties "newPassword")

theorem changed_password_stored :
    storedPasswords "old" "new" =
        [(some (.string "old"), some (.string "new")), (none, none)] ∧
      DifferInSecrets (passwords "old" "new") (passwords "old" "other") ∧
      records library anna accepted (passwords "old" "other") .changePassword ≠ [] ∧
      records library anna accepted (passwords "old" "new") .changePassword ≠
        records library anna accepted (passwords "old" "other") .changePassword := by
  have hnew : storedPasswords "old" "new" =
      [(some (.string "old"), some (.string "new")), (none, none)] := by rfl
  have hother : storedPasswords "old" "other" =
      [(some (.string "old"), some (.string "other")), (none, none)] := by rfl
  refine ⟨hnew, passwords_differ _ _ _ _, ?_, ?_⟩
  · intro hnil
    rw [storedPasswords, hnil] at hother
    cases hother
  · intro heq
    rw [storedPasswords, heq] at hnew
    have hboth := hnew.symm.trans hother
    exact absurd hboth (by simp)

end Samples

end JsonScada.WebServer.UserActions
