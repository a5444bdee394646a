import JsonScada.Iec60870.Server

namespace JsonScada.Iec60870.Server

open JsonScada.Library
open JsonScada.Processor (Document Value)

section Destinations

variable (env : Env) (conn : Conn) (slot : ℤ) (ca : UInt16) (type : ℕ) (req : CmdRequest)

-- A destination names the connection, the addresses and the type of a command.
def Names (dst : ProtocolDestination) : Prop :=
  isFor env.pl conn.cfg dst = true ∧ dst.commonAddress.toNat = ca.toNat ∧
    (dst.objectAddress.toNat : ℤ) = req.objAddr ∧ dst.asdu.toNat = type

instance (dst : ProtocolDestination) : Decidable (Names env conn ca type req dst) :=
  inferInstanceAs (Decidable (_ ∧ _ ∧ _ ∧ _))

-- A command goes to a point only by a destination that names it, with its factors.
def ReachesConfigured : Prop :=
  ∀ point kconv1 kconv2, forwardVerdict env conn slot ca type req = .forwarded point kconv1 kconv2 →
    ∃ dst ∈ point.protocolDestinations, Names env conn ca type req dst ∧
      defaultOne dst.kconv1 = kconv1 ∧ dst.kconv2 = kconv2

-- An execute that a destination lets through: its qualifier, its age and the selection.
def LetsThrough (point : RtDataPoint) (dst : ProtocolDestination) : Prop :=
  req.isSelect = false ∧ req.dur = (env.pl.toInt .int dst.commandDuration).1 ∧
    isExpired env req = false ∧ (dst.commandUseSBO = true → slot = pointKey env.pl point)

variable {env conn slot ca type req}

-- What is forwarded passed the checks of the destination that it was found by.
theorem verdictFor_forwarded {point p : RtDataPoint} {dst : ProtocolDestination} {k₁ k₂ : Double} :
    verdictFor env slot point dst req = .forwarded p k₁ k₂ ↔
      LetsThrough env slot req point dst ∧ p = point ∧ k₁ = defaultOne dst.kconv1 ∧
        k₂ = dst.kconv2 := by
  unfold verdictFor LetsThrough
  by_cases hselect : req.isSelect = true
  · simp only [hselect, Bool.true_and, if_true]
    split_ifs <;> simp
  · by_cases hdur : req.dur = (env.pl.toInt .int dst.commandDuration).1
    · by_cases hexpired : isExpired env req = true
      · simp [hselect, hdur, hexpired]
      · by_cases hsbo : dst.commandUseSBO = true
        · by_cases hslot : slot = pointKey env.pl point
          · simp [hselect, hdur, hexpired, hsbo, hslot, eq_comm]
          · simp [hselect, hdur, hexpired, hsbo, hslot]
        · simp [hselect, hdur, hexpired, hsbo, eq_comm]
    · simp [hselect, hdur]

theorem forwardVerdict_forwarded {point : RtDataPoint} {k₁ k₂ : Double} :
    forwardVerdict env conn slot ca type req = .forwarded point k₁ k₂ ↔
      env.isMongoLive = true ∧ ∃ dst,
        findMappedPoint env.pl env.realtimeData conn.cfg ca.toNat req.objAddr type =
          some (point, dst) ∧
        LetsThrough env slot req point dst ∧ k₁ = defaultOne dst.kconv1 ∧ k₂ = dst.kconv2 := by
  unfold forwardVerdict
  by_cases hlive : env.isMongoLive = true
  · simp only [hlive, Bool.not_true, Bool.false_eq_true, if_false, true_and]
    cases hfind : findMappedPoint env.pl env.realtimeData conn.cfg ca.toNat req.objAddr type with
    | none => simp
    | some found =>
        obtain ⟨p, dst⟩ := found
        simp only [verdictFor_forwarded, Option.some.injEq, Prod.mk.injEq]
        constructor
        · rintro ⟨hthrough, rfl, hk⟩
          exact ⟨dst, ⟨rfl, rfl⟩, hthrough, hk⟩
        · rintro ⟨_, ⟨rfl, rfl⟩, hthrough, hk⟩
          exact ⟨hthrough, rfl, hk⟩
  · simp [hlive]

theorem findMappedPoint_eq {pl : Platform} {docs : Option (List Document)} {cfg : ConnCfg}
    {a b c : ℤ} {point : RtDataPoint} {dst : ProtocolDestination} :
    findMappedPoint pl docs cfg a b c = some (point, dst) ↔
      findPoint pl docs cfg a b c = some point ∧ destinationFor pl cfg point = some dst := by
  unfold findMappedPoint
  simp only [Option.bind_eq_bind, Option.bind_eq_some_iff, Option.some.injEq, Prod.mk.injEq]
  constructor
  · rintro ⟨_, hpoint, _, hdst, rfl, rfl⟩
    exact ⟨hpoint, hdst⟩
  · rintro ⟨hpoint, hdst⟩
    exact ⟨point, hpoint, dst, hdst, rfl, rfl⟩

-- What is queued is the command of a forwarding, converted with its factors.
theorem insertCommand_iff {doc : Document} :
    .insertCommand doc ∈ (forwardCommand env conn slot ca type req).2 ↔
      ∃ point k₁ k₂, forwardVerdict env conn slot ca type req = .forwarded point k₁ k₂ ∧
        doc = commandDoc env.pl env.now conn point (destinationValue env.pl type k₁ k₂ req.val) := by
  unfold forwardCommand
  cases forwardVerdict env conn slot ca type req with
  | forwarded point k₁ k₂ =>
      simp only [carryOut, List.mem_cons, reduceCtorEq, Effect.insertCommand.injEq, false_or,
        List.not_mem_nil, or_false, Verdict.forwarded.injEq]
      constructor
      · rintro rfl
        exact ⟨point, k₁, k₂, ⟨rfl, rfl, rfl⟩, rfl⟩
      · rintro ⟨_, _, _, ⟨rfl, rfl, rfl⟩, rfl⟩
        rfl
  | _ => simp [carryOut]

end Destinations

section Example

def destination (connection ca ioa asdu : ℕ) (useSbo : Bool) : Value :=
  .document
    [("protocolDestinationConnectionNumber", .number (.fin connection)),
      ("protocolDestinationCommonAddress", .number (.fin ca)),
      ("protocolDestinationObjectAddress", .number (.fin ioa)),
      ("protocolDestinationASDU", .number (.fin asdu)),
      ("protocolDestinationCommandDuration", .number (.fin 0)),
      ("protocolDestinationCommandUseSBO", .bool useSbo),
      ("protocolDestinationKConv1", .number (.fin 1)),
      ("protocolDestinationKConv2", .number (.fin 0))]

-- A command point that two connections reach under different object addresses.
def breaker (useSbo : Bool) : Document :=
  [("_id", .number (.fin 5001)), ("tag", .string "BREAKER"), ("type", .string "digital"),
    ("origin", .string "command"),
    ("protocolDestinations", .array [destination 1 1 1000 45 useSbo, destination 2 1 2000 45 useSbo])]

def environment (useSbo : Bool) : Env where
  pl := plainPlatform
  now := 1700000000000000000
  isMongoLive := true
  realtimeData := some [breaker useSbo]

def connection (number : ℕ) : Conn where
  cfg := { name := "IEC104", protocolConnectionNumber := .fin number }

def closeCommand (ioa : ℕ) : CmdRequest := { val := .fin 1, objAddr := ioa, dur := 0 }

-- The point as the server decodes it.
def breakerPoint (useSbo : Bool) : RtDataPoint where
  id := .fin 5001
  tag := "BREAKER"
  value := .fin 0
  valueString := ""
  invalid := false
  transient := false
  substituted := false
  overflow := false
  origin := "command"
  type := "digital"
  timeTagAtSource := none
  timeTagAtSourceOk := false
  kconv1 := .fin 0
  kconv2 := .fin 0
  protocolSourceConnectionNumber := .fin 0
  protocolSourceCommonAddress := 0
  protocolSourceObjectAddress := 0
  protocolSourceASDU := 0
  protocolSourceCommandDuration := .fin 0
  protocolSourceCommandUseSBO := false
  protocolDestinations :=
    [{ connectionNumber := .fin 1, commonAddress := 1, objectAddress := 1000, asdu := 45
       commandUseSBO := useSbo, kconv1 := .fin 1 },
      { connectionNumber := .fin 2, commonAddress := 1, objectAddress := 2000, asdu := 45
        commandUseSBO := useSbo, kconv1 := .fin 1 }]

end Example

end JsonScada.Iec60870.Server
