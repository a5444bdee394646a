import JsonScada.Iec60870.Server.Destinations

namespace JsonScada.Iec60870.Server

open JsonScada.Library

section Content

-- The type without its time tag.
def untimed (typeId : ℕ) : ℕ :=
  match typeId with
  | 30 => 1
  | 31 => 3
  | 32 => 5
  | 33 => 7
  | 34 => 9
  | 35 => 11
  | 36 => 13
  | 37 => 15
  | t => t

-- What an object tells, but for its time: type, address, value and quality.
structure Content where
  typeId : ℕ
  ioa : ℤ
  info : Info
deriving DecidableEq

def InfoObject.content (o : InfoObject) : Content :=
  { typeId := untimed o.typeId, ioa := o.ioa, info := o.info }

variable (pl : Platform) (now now' : ℤ) (point : RtDataPoint) (dst : ProtocolDestination)

-- The type with the time tag says what the other one does.
theorem buildInfo_timedType (asduNum : ℤ) (timeTag : Option ℤ) (value : Double) (sbo : Bool)
    (cmdQualif : ℤ) (q : Quality) (kconv1 kconv2 : Double) (transient : Bool) :
    buildInfo pl (timedType asduNum timeTag) value sbo cmdQualif q kconv1 kconv2 transient =
      buildInfo pl asduNum value sbo cmdQualif q kconv1 kconv2 transient := by
  unfold timedType
  cases timeTag with
  | none => rfl
  | some t =>
      unfold mapToWithCP56Time
      simp only
      split <;> rfl

theorem untimed_timedType (asduNum : ℤ) (timeTag : Option ℤ) :
    untimed (timedType asduNum timeTag).toNat = untimed asduNum.toNat := by
  unfold timedType
  cases timeTag with
  | none => rfl
  | some t =>
      unfold mapToWithCP56Time
      simp only
      split <;> rfl

-- A time tag does not change what an object tells.
theorem buildInfoObj_content (asduNum addr : ℤ) (timeTag : Option ℤ) (value : Double) (sbo : Bool)
    (cmdQualif : ℤ) (q : Quality) (kconv1 kconv2 : Double) (transient : Bool) :
    (buildInfoObj pl now asduNum addr value sbo cmdQualif q timeTag kconv1 kconv2 transient).map
        InfoObject.content =
      (buildInfo pl asduNum value sbo cmdQualif q kconv1 kconv2 transient).map fun info =>
        { typeId := untimed asduNum.toNat
          ioa := if asduNum = 100 ∨ asduNum = 101 then 0 else addr
          info := info } := by
  have hioa : (timedType asduNum timeTag = 100 ∨ timedType asduNum timeTag = 101) ↔
      (asduNum = 100 ∨ asduNum = 101) := by
    unfold timedType
    cases timeTag with
    | none => exact Iff.rfl
    | some t =>
        unfold mapToWithCP56Time
        simp only
        split <;> simp
  unfold buildInfoObj
  simp only [Option.map_map, buildInfo_timedType]
  apply Option.map_congr
  intro info _
  simp only [Function.comp, InfoObject.content, untimed_timedType, hioa]

theorem read_spontaneous :
    (readObj pl now point dst).map InfoObject.content =
      (spontaneousObj pl now' point dst).map InfoObject.content := by
  unfold readObj spontaneousObj
  rw [buildInfoObj_content, buildInfoObj_content]

theorem buildInfo_base {a : ℕ} {base : ℤ} (h : destASDUToBase a = some base) (value : Double)
    (sbo : Bool) (cmdQualif : ℤ) (q : Quality) (kconv1 kconv2 : Double) (transient : Bool) :
    buildInfo pl base value sbo cmdQualif q kconv1 kconv2 transient =
        buildInfo pl a value sbo cmdQualif q kconv1 kconv2 transient ∧
      untimed base.toNat = untimed a ∧ ¬(base = 100 ∨ base = 101) ∧
        ¬((a : ℤ) = 100 ∨ (a : ℤ) = 101) := by
  unfold destASDUToBase at h
  split at h <;> cases h <;> exact ⟨rfl, rfl, by decide, by decide⟩

theorem buildInfo_isSome {a : ℕ} {base : ℤ} (h : destASDUToBase a = some base) (value : Double)
    (sbo : Bool) (cmdQualif : ℤ) (q : Quality) (kconv1 kconv2 : Double) (transient : Bool) :
    ∃ info, buildInfo pl a value sbo cmdQualif q kconv1 kconv2 transient = some info := by
  unfold destASDUToBase at h
  split at h <;> cases h <;> exact ⟨_, rfl⟩

-- What an interrogation answers, for the types that it covers.
theorem interrogation_content {base : ℤ} (h : destASDUToBase dst.asdu.toNat = some base) :
    (interrogationObj pl now point dst).map InfoObject.content =
      (buildInfo pl dst.asdu.toNat point.value false 0
          { invalid := point.invalid, substituted := point.substituted, overflow := point.overflow }
          (defaultOne dst.kconv1) dst.kconv2 point.transient).map fun info =>
        { typeId := untimed dst.asdu.toNat, ioa := dst.objectAddress.toNat, info := info } := by
  unfold interrogationObj
  simp only [h, Option.bind_eq_bind, Option.bind_some]
  have hbase := buildInfo_base pl h point.value false 0
    { invalid := point.invalid, substituted := point.substituted, overflow := point.overflow }
    (defaultOne dst.kconv1) dst.kconv2 point.transient
  rw [buildInfoObj_content, hbase.1, hbase.2.1, if_neg hbase.2.2.1]

theorem read_content {base : ℤ} (h : destASDUToBase dst.asdu.toNat = some base) :
    (readObj pl now point dst).map InfoObject.content =
      (buildInfo pl dst.asdu.toNat point.value false 0 (pointQuality point) (.fin 1) (.fin 0)
          false).map fun info =>
        { typeId := untimed dst.asdu.toNat, ioa := dst.objectAddress.toNat, info := info } := by
  have hbase := buildInfo_base pl h point.value false 0 (pointQuality point) (.fin 1) (.fin 0) false
  unfold readObj
  rw [buildInfoObj_content, if_neg hbase.2.2.2, Int.toNat_natCast]

end Content

section Distribution

-- What an update of a point queues is, for each connection of a destination, its spontaneous
-- object.
theorem mem_processPointUpdate_iff {pl : Platform} {now : ℤ} {conns : List Conn}
    {point : RtDataPoint} {srv : Conn} {io : InfoObject} {ca : ℤ} :
    (srv, io, ca) ∈ processPointUpdate pl now conns point ↔
      ∃ dst ∈ point.protocolDestinations, srv ∈ conns ∧ isFor pl srv.cfg dst = true ∧
        spontaneousObj pl now point dst = some io ∧ ca = dst.commonAddress.toNat := by
  simp only [processPointUpdate, List.mem_flatMap, List.mem_filterMap, List.mem_filter,
    Option.map_eq_some_iff, Prod.mk.injEq]
  constructor
  · rintro ⟨dst, hdst, srv', ⟨hsrv, hfor⟩, io', hio, rfl, rfl, rfl⟩
    exact ⟨dst, hdst, hsrv, hfor, hio, rfl⟩
  · rintro ⟨dst, hdst, hsrv, hfor, hio, rfl⟩
    exact ⟨dst, hdst, srv, ⟨hsrv, hfor⟩, io, hio, rfl, rfl, rfl⟩

end Distribution

section Agreement

variable {pl : Platform} {now now' : ℤ} {point : RtDataPoint} {dst : ProtocolDestination}

-- The factors of the destination leave the values of its type as they are.
def NeutralFactors (dst : ProtocolDestination) : Prop :=
  isInverted dst.kconv1 = false ∧
    (dst.asdu.toNat ∈ [1, 30, 3, 31] ∨ defaultOne dst.kconv1 = .fin 1 ∧ dst.kconv2 = .fin 0)

theorem isInverted_defaultOne (k : Double) : isInverted (defaultOne k) = isInverted k := by
  unfold defaultOne
  by_cases hzero : Double.eq k (.fin 0) = true
  · obtain ⟨rfl, -⟩ := Double.eq_iff.mp hzero
    rfl
  · rw [if_neg hzero]

theorem buildInfo_neutral (h : NeutralFactors dst) (value : Double) (q : Quality)
    (transient : Bool) :
    buildInfo pl dst.asdu.toNat value false 0 q (defaultOne dst.kconv1) dst.kconv2 transient =
      buildInfo pl dst.asdu.toNat value false 0 q (.fin 1) (.fin 0) transient := by
  obtain ⟨hinverted, hdigital | ⟨hone, hzero⟩⟩ := h
  · have hon : boolVal value (defaultOne dst.kconv1) = boolVal value (.fin 1) := by
      unfold boolVal
      rw [isInverted_defaultOne, hinverted]
      rfl
    simp only [List.mem_cons, List.not_mem_nil, or_false] at hdigital
    rcases hdigital with ha | ha | ha | ha <;> rw [ha] <;> simp only [buildInfo, hon] <;> rfl
  · rw [hone, hzero]

theorem base_of_interrogation {o : InfoObject} (h : interrogationObj pl now point dst = some o) :
    ∃ base, destASDUToBase dst.asdu.toNat = some base := by
  unfold interrogationObj at h
  obtain ⟨base, hbase, -⟩ := Option.bind_eq_some_iff.mp h
  exact ⟨base, hbase⟩

-- A read and a spontaneous object tell the same. An interrogation has their type and
-- address, and tells the same too where the factors of the destination do nothing and the
-- point is neither in overflow nor transient.
theorem objects_agree (pl : Platform) (now now' now'' : ℤ) (point : RtDataPoint)
    (dst : ProtocolDestination) :
    (readObj pl now point dst).map InfoObject.content =
        (spontaneousObj pl now' point dst).map InfoObject.content ∧
      (∀ o, interrogationObj pl now'' point dst = some o →
        ∃ r, readObj pl now point dst = some r ∧
          untimed o.typeId = untimed r.typeId ∧ o.ioa = r.ioa) ∧
      (NeutralFactors dst → point.overflow = false → point.transient = false →
        ∀ o, interrogationObj pl now'' point dst = some o →
          (readObj pl now point dst).map InfoObject.content = some (InfoObject.content o)) := by
  refine ⟨read_spontaneous pl now now' point dst, ?_, ?_⟩
  · intro o ho
    obtain ⟨base, hbase⟩ := base_of_interrogation ho
    have hread := read_content pl now point dst hbase
    obtain ⟨info, hinfo⟩ := buildInfo_isSome pl hbase point.value false 0 (pointQuality point)
      (.fin 1) (.fin 0) false
    rw [hinfo, Option.map_some] at hread
    obtain ⟨r, hr, hcontent⟩ := Option.map_eq_some_iff.mp hread
    have hanswer := interrogation_content pl now'' point dst hbase
    rw [ho, Option.map_some] at hanswer
    obtain ⟨info', -, hcontent'⟩ := Option.map_eq_some_iff.mp hanswer.symm
    refine ⟨r, hr, ?_, ?_⟩
    · exact (congrArg Content.typeId hcontent').symm.trans (congrArg Content.typeId hcontent).symm
    · exact (congrArg Content.ioa hcontent').symm.trans (congrArg Content.ioa hcontent).symm
  · intro hneutral hoverflow htransient o ho
    obtain ⟨base, hbase⟩ := base_of_interrogation ho
    have hanswer := interrogation_content pl now'' point dst hbase
    have hquality : pointQuality point =
        { invalid := point.invalid, substituted := point.substituted, overflow := point.overflow } := by
      simp only [pointQuality, hoverflow, htransient, Bool.or_false]
    rw [ho, Option.map_some, buildInfo_neutral hneutral, htransient] at hanswer
    rw [hanswer, read_content pl now point dst hbase, hquality]

-- All objects tell the same, where an interrogation answers.
def OneValue (pl : Platform) (now : ℤ) (point : RtDataPoint) (dst : ProtocolDestination) : Prop :=
  (readObj pl now point dst).map InfoObject.content =
      (spontaneousObj pl now point dst).map InfoObject.content ∧
    ∀ o, interrogationObj pl now point dst = some o →
      (readObj pl now point dst).map InfoObject.content = some (InfoObject.content o)

-- A single point that its destination inverts: on for a read, off for an interrogation.
def invertedDestination : ProtocolDestination where
  connectionNumber := .fin 1
  commonAddress := 1
  objectAddress := 100
  asdu := 1
  kconv1 := .fin (-1)

def closedPoint : RtDataPoint :=
  { breakerPoint false with value := .fin 1, protocolDestinations := [invertedDestination] }

theorem inverted_interrogation : ¬OneValue plainPlatform 0 closedPoint invertedDestination := by
  rintro ⟨-, h⟩
  have hanswer : interrogationObj plainPlatform 0 closedPoint invertedDestination = some
      { typeId := 1, ioa := 100, qualifier := 0, info := .singlePoint false {}, time := 0 } := by
    decide
  have hread : (readObj plainPlatform 0 closedPoint invertedDestination).map InfoObject.content =
      some { typeId := 1, ioa := 100, info := .singlePoint true {} } := by
    decide
  have heq := h _ hanswer
  rw [hread] at heq
  exact absurd heq (by decide)

end Agreement

end JsonScada.Iec60870.Server
