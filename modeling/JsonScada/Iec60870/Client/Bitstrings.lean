import JsonScada.Iec60870.Client.Values
import JsonScada.Iec60870.Server.Destinations
import JsonScada.JsMongo

namespace JsonScada.Iec60870.Client

open JsonScada.Library
open JsonScada.Processor (Document Value)

section Bitstrings

variable (w : UInt32)

-- A bitstring command that is forwarded without conversion is built by the client as the same
-- word, whatever either platform makes of numbers out of range.
def CommandKept : Prop :=
  ∀ (env : Server.Env) (conn : Server.Conn) (slot : ℤ) (a : CommandAsdu) (req : Server.CmdRequest)
    (point : RtDataPoint) (doc : Document) (client : Env) (sbo : Bool),
    a.info = .bitsString32 w → Server.cmdRequest env.pl a = some req →
    Server.forwardVerdict env conn slot a.commonAddr a.typeId req =
      .forwarded point (.fin 1) (.fin 0) →
    Server.isBitstringCommand point.protocolSourceASDU.toNat = true →
    Server.defaultOne point.kconv1 = .fin 1 → point.kconv2 = .fin 0 →
    .insertCommand doc ∈ (Server.handleCommandASDU env conn slot a).2 →
    ∃ obj, commandObj client doc sbo = some obj ∧ obj.info = .command (.bitsString32 w)

-- A received bitstring is stored as its number.
def Published : Prop :=
  ∀ (driver : Driver) (pl : Platform) (now connNumber : ℤ) (pack : MonitorAsdu),
    ∀ o ∈ pack.objects, ∀ qds, o.info = .bitString32 w qds →
    ∀ iv, (o, iv) ∈ pack.objects.zip (decode pl now pack connNumber) →
      iv.address = o.ioa.toNat ∧ ∃ update,
        (sourceDataUpdateDoc driver iv).lookup "sourceDataUpdate" = some (.document update) ∧
        update.lookup "valueAtSource" = some (.number (.fin w.toNat))

-- The word keeps its bits, as a command and as a value.
def KeepsBits : Prop := CommandKept w ∧ Published w

end Bitstrings

section Conversion

variable {pl : Platform}

-- The conversion of the server, which reads the word as a signed one.
theorem sourceValue_bitstring {type : ℕ} (h : Server.isBitstringCommand type = true)
    (srctype : String) (k₂ val : Double) :
    Server.sourceValue pl type srctype (.fin 1) k₂ val = .fin (pl.toInt .int32 val).1 := by
  simp only [Server.isBitstringCommand, decide_eq_true_eq, List.mem_cons, List.not_mem_nil,
    or_false] at h
  rcases h with rfl | rfl <;> rfl

-- What the client makes of the document for a bitstring source.
theorem commandObj_commandDoc (env : Env) (pl : Platform) (now : ℤ) (conn : Server.Conn)
    (point : RtDataPoint) (val : Double) (sbo : Bool)
    (hasdu : Server.isBitstringCommand point.protocolSourceASDU.toNat = true)
    (hk₁ : Server.defaultOne point.kconv1 = .fin 1) :
    (commandObj env (Server.commandDoc pl now conn point val) sbo).map InfoObject.info =
      some (.command (.bitsString32 (bitsVal env.pl (.fin (pl.toInt .int32 val).1) (.fin 1)))) := by
  have hmod : point.protocolSourceASDU.toNat % 256 = point.protocolSourceASDU.toNat := by
    simp only [Server.isBitstringCommand, decide_eq_true_eq, List.mem_cons, List.not_mem_nil,
      or_false] at hasdu
    omega
  have htype : JsMongo.getU32 (Server.commandDoc pl now conn point val) "protocolSourceASDU" 0 =
      point.protocolSourceASDU := JsMongo.getU32_number rfl
  have hvalue : JsMongo.getDouble (Server.commandDoc pl now conn point val) "value" (.fin 0) =
      .fin (pl.toInt .int32 val).1 := by
    rw [JsMongo.getDouble_number rfl, hmod, hk₁, sourceValue_bitstring hasdu]
  simp only [commandObj, htype, hvalue, buildInfoObj, timedType, Option.map_map]
  simp only [Server.isBitstringCommand, decide_eq_true_eq, List.mem_cons, List.not_mem_nil,
    or_false] at hasdu
  rcases hasdu with h | h <;> rw [h] <;> rfl

theorem bitsVal_toNat (pl : Platform) (w : UInt32) : bitsVal pl (.fin w.toNat) (.fin 1) = w := by
  have hlt := w.toNat_lt
  have hword : (pl.toInt .uint32 (.fin w.toNat)).1 = w.toNat :=
    Platform.toInt_intCast (z := w.toNat) (by simp only [IntType.min, IntType.max]; omega)
  have hkept : isInverted (.fin 1) = false := by decide
  apply UInt32.toNat_inj.mp
  rw [bitsVal, hkept, hword]
  simp only [Int.toNat_natCast, Bool.false_eq_true, if_false, UInt32.toNat_ofNat']
  exact Nat.mod_eq_of_lt hlt

end Conversion

section Kept

variable {w : UInt32}

-- Below the sign bit of the server's conversion nothing is out of range.
theorem commandKept (h : w.toNat < 2 ^ 31) : CommandKept w := by
  intro env conn slot a req point doc client sbo hinfo hreq hforward hasdu hk₁ hk₂ hdoc
  simp only [Server.handleCommandASDU, hreq] at hdoc
  obtain ⟨p, k₁, k₂, hverdict, rfl⟩ := Server.insertCommand_iff.mp hdoc
  rw [hforward, Server.Verdict.forwarded.injEq] at hverdict
  obtain ⟨rfl, rfl, rfl⟩ := hverdict
  have hval : Server.destinationValue env.pl a.typeId (.fin 1) (.fin 0) req.val =
      .fin w.toNat := by
    simp only [Server.cmdRequest, hinfo, Option.some.injEq] at hreq
    subst hreq
    rw [CommandAsdu.typeId, hinfo]
    cases a.time <;> rfl
  have hbits : (env.pl.toInt .int32 (.fin w.toNat)).1 = w.toNat :=
    Platform.toInt_intCast (z := w.toNat) (by simp only [IntType.min, IntType.max]; omega)
  have hbuilt := commandObj_commandDoc client env.pl env.now conn point (.fin w.toNat) sbo hasdu hk₁
  rw [hval]
  obtain ⟨obj, hobj, hword⟩ := Option.map_eq_some_iff.mp hbuilt
  refine ⟨obj, hobj, ?_⟩
  rw [hword, hbits]
  exact congrArg (fun v => Info.command (.bitsString32 v)) (bitsVal_toNat client.pl w)

theorem published (w : UInt32) : Published w := by
  intro driver pl now connNumber pack o ho qds hinfo iv hiv
  rw [decode, List.zip_map_right, List.mem_map] at hiv
  obtain ⟨⟨o₁, o₂⟩, hmem, heq⟩ := hiv
  have hsame : o₁ = o₂ := by
    obtain ⟨i, hi, hget⟩ := List.getElem_of_mem hmem
    rw [List.getElem_zip, Prod.mk.injEq] at hget
    exact hget.1.symm.trans hget.2
  obtain ⟨rfl, rfl⟩ := Prod.mk.inj heq
  subst hsame
  refine ⟨rfl, sourceDataUpdate driver _, rfl, ?_⟩
  change some (Value.number (o₁.info.content pl).2.1) = _
  rw [show o₁.info = .bitString32 w qds from hinfo]
  rfl

end Kept

section Lost

-- A lamp for each bit of a word that goes out as it comes in.
def lamps : Document :=
  [("_id", .number (.fin 5003)), ("tag", .string "LAMPS"), ("type", .string "analog"),
    ("origin", .string "command"), ("kconv1", .number (.fin 1)), ("kconv2", .number (.fin 0)),
    ("protocolSourceConnectionNumber", .number (.fin 2)),
    ("protocolSourceCommonAddress", .number (.fin 1)),
    ("protocolSourceObjectAddress", .number (.fin 7000)),
    ("protocolSourceASDU", .number (.fin 51)),
    ("protocolDestinations", .array [Server.destination 1 1 3000 51 false])]

def lampsPoint : RtDataPoint where
  id := .fin 5003
  tag := "LAMPS"
  value := .fin 0
  valueString := ""
  invalid := false
  transient := false
  substituted := false
  overflow := false
  origin := "command"
  type := "analog"
  timeTagAtSource := none
  timeTagAtSourceOk := false
  kconv1 := .fin 1
  kconv2 := .fin 0
  protocolSourceConnectionNumber := .fin 2
  protocolSourceCommonAddress := 1
  protocolSourceObjectAddress := 7000
  protocolSourceASDU := 51
  protocolSourceCommandDuration := .fin 0
  protocolSourceCommandUseSBO := false
  protocolDestinations :=
    [{ connectionNumber := .fin 1, commonAddress := 1, objectAddress := 3000, asdu := 51
       kconv1 := .fin 1 }]

section Ranges

variable (t : IntType)

theorem zero_fits : t.min ≤ 0 ∧ 0 ≤ t.max := by cases t <;> decide

theorem min_fits : t.min ≤ t.min ∧ t.min ≤ t.max := by cases t <;> decide

theorem max_fits : t.min ≤ t.max ∧ t.max ≤ t.max := by cases t <;> decide

theorem nearest_fits (z : ℤ) : t.min ≤ max t.min (min t.max z) ∧ max t.min (min t.max z) ≤ t.max :=
  ⟨le_max_left _ _, max_le (min_fits t).2 (min_le_left _ _)⟩

end Ranges

-- The nearest integer of a type, and zero for a NaN.
def saturate (t : IntType) : Double → t.Range
  | .nan => ⟨0, zero_fits t⟩
  | .inf true => ⟨t.min, min_fits t⟩
  | .inf false => ⟨t.max, max_fits t⟩
  | .fin q =>
      let z := Double.toInt (.fin q)
      ⟨max t.min (min t.max z), nearest_fits t z⟩

-- A platform whose conversions out of range are those of an arm64 machine. The shorter ones are
-- the low half of those to 32 bits.
def arm64 : Platform where
  round := Double.round
  outOfRange := fun t x =>
    match t with
    | .int16 =>
        ⟨((saturate .int32 x).1 + 2 ^ 15) % 2 ^ 16 - 2 ^ 15, by
          simp only [IntType.min, IntType.max]; omega⟩
    | t => saturate t x
  decodeTime := plainPlatform.decodeTime
  parseQualifierOfParamMV := plainPlatform.parseQualifierOfParamMV
  normalFloat := plainPlatform.normalFloat

def lampsServer : Server.Env where
  pl := arm64
  now := 1700000000000000000
  isMongoLive := true
  realtimeData := some [lamps]

def lampsClient : Env where
  pl := arm64
  now := 1700000000000000000
  isConnected := fun _ => true
  sendOk := true

def lampsCommand (w : UInt32) : CommandAsdu where
  commonAddr := 1
  cause := .activation
  isNegative := false
  ioa := 3000
  info := .bitsString32 w
  time := none

theorem lamps_forwarded (w : UInt32) :
    Server.forwardVerdict lampsServer (Server.connection 1) 0 1 51
      { val := .fin w.toNat, objAddr := 3000, dur := 0 } =
        .forwarded lampsPoint (.fin 1) (.fin 0) := by
  -- the value has no part in the checks
  change Server.forwardVerdict lampsServer (Server.connection 1) 0 1 51
    { val := .fin 0, objAddr := 3000, dur := 0 } = .forwarded lampsPoint (.fin 1) (.fin 0)
  decide +kernel

-- The highest positive number comes out of the server for all words with the sign bit.
theorem saturated {w : UInt32} (h : 2 ^ 31 ≤ w.toNat) :
    (arm64.toInt .int32 (.fin w.toNat)).1 = 2 ^ 31 - 1 := by
  have htoInt : Double.toInt (.fin w.toNat) = w.toNat := by simp [Double.toInt]
  rw [Platform.toInt, dif_neg (by rw [htoInt, IntType.max]; omega)]
  change max IntType.int32.min (min IntType.int32.max (Double.toInt (.fin w.toNat))) = 2 ^ 31 - 1
  rw [htoInt, IntType.min, IntType.max]
  omega

theorem lost {w : UInt32} (h : 2 ^ 31 ≤ w.toNat) : ¬CommandKept w := by
  intro hkept
  obtain ⟨obj, hobj, hinfo⟩ := hkept lampsServer (Server.connection 1) 0 (lampsCommand w)
    { val := .fin w.toNat, objAddr := 3000, dur := 0 } lampsPoint _ lampsClient false rfl rfl
    (lamps_forwarded w) (by decide) (by decide) rfl
    (Server.insertCommand_iff.mpr ⟨_, _, _, lamps_forwarded w, rfl⟩)
  have hbuilt := commandObj_commandDoc lampsClient arm64 lampsServer.now (Server.connection 1)
    lampsPoint (.fin w.toNat) false (by decide) (by decide)
  have hsent := congrArg (Option.map InfoObject.info) hobj
  rw [Option.map_some, hinfo] at hsent
  have hword := Option.some.inj (hbuilt.symm.trans hsent)
  rw [Info.command.injEq, CommandInfo.bitsString32.injEq, saturated h] at hword
  have hmax : bitsVal lampsClient.pl (.fin ((2 ^ 31 - 1 : ℤ) : ℚ)) (.fin 1) = 0x7fffffff := by
    decide
  rw [hmax] at hword
  rw [← hword] at h
  exact absurd h (by decide)

end Lost

section Theorems

-- Words keep their bits exactly when the highest one is clear.
theorem keepsBits_iff (w : UInt32) : KeepsBits w ↔ w.toNat < 2 ^ 31 := by
  constructor
  · intro h
    by_contra hsign
    exact lost (by omega) h.1
  · exact fun h => ⟨commandKept h, published w⟩

-- The first and the last lamp.
theorem highest_bit_lost : ¬KeepsBits 0x80000001 := by
  have hsign : 2 ^ 31 ≤ (0x80000001 : UInt32).toNat := by decide
  exact fun h => lost hsign h.1

end Theorems

end JsonScada.Iec60870.Client
