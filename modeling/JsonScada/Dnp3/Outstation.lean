import JsonScada.Dnp3.Fields
import JsonScada.Dnp3.Server
import JsonScada.Iec60870.Convert

namespace JsonScada.Dnp3.Outstation

open JsonScada.Library
open JsonScada.JsMongo
open JsonScada.Iec60870 (Platform IntType)
open JsonScada.Processor (Document Value)
open JsonScada.Dnp3.Server (Family familyOf)

section Destinations

structure Destination where
  connectionNumber : ℤ
  commonAddress : ℤ
  objectAddress : ℤ
  asdu : ℤ
  commandDuration : Double
  commandUseSBO : Bool
  kConv1 : Double
  kConv2 : Double
  group : ℤ
  hoursShift : Double

variable (pl : Platform)

def destinationFromDoc (d : Document) : Destination where
  connectionNumber := getInt pl d "protocolDestinationConnectionNumber" 0
  commonAddress := getInt pl d "protocolDestinationCommonAddress" 0
  objectAddress := getInt pl d "protocolDestinationObjectAddress" 0
  asdu := getInt pl d "protocolDestinationASDU" 0
  commandDuration := getDouble d "protocolDestinationCommandDuration" (.fin 0)
  commandUseSBO := getBool d "protocolDestinationCommandUseSBO" false
  kConv1 := getDouble d "protocolDestinationKConv1" (.fin 1)
  kConv2 := getDouble d "protocolDestinationKConv2" (.fin 0)
  group := getInt pl d "protocolDestinationGroup" 0
  hoursShift := getDouble d "protocolDestinationHoursShift" (.fin 0)

def asDocument : Value → Option Document
  | .document d => some d
  | _ => none

def destinationsOf (doc : Document) : List Destination :=
  match doc.lookup "protocolDestinations" with
  | some (.array entries) => (entries.filterMap asDocument).map (destinationFromDoc pl)
  | _ => []

def destinationsFor (doc : Document) (connNumber : ℤ) : List Destination :=
  (destinationsOf pl doc).filter fun d => d.connectionNumber = connNumber

-- How many points of a family a connection needs: the highest object address and one. Group 50 is
-- not supported.
def sizeDatabase (connNumber : ℤ) (tags : List Document) (f : Family) : ℤ :=
  if f = .timeAndInterval then 0
  else
    let dests := (tags.flatMap fun doc => destinationsFor pl doc connNumber).filter fun d =>
      familyOf d.commonAddress = f
    dests.foldl (fun last d => max last d.objectAddress) (-1) + 1

end Destinations

section Database

-- A point as the outstation reports it.
structure Reading where
  value : Measured
  flags : Flags
  time : Timestamp

-- The database of the outstation library: points by their families and indices, as many as it is
-- made with, and an update of one of them.
structure Database (δ : Type) where
  new : (Family → ℤ) → δ
  read : δ → Family → UInt16 → Option Reading
  update : δ → Family → UInt16 → Reading → δ
  isSome_read_new : ∀ sizes f i, (read (new sizes) f i).isSome = decide ((i.toNat : ℤ) < sizes f)
  read_update : ∀ db f i r, read (update db f i r) f i = (read db f i).map fun _ => r
  read_update_ne : ∀ db f i r f' i', (f', i') ≠ (f, i) →
    read (update db f i r) f' i' = read db f' i'

end Database

section Values

structure TagQuality where
  invalid : Bool
  transient : Bool
  substituted : Bool
  overflow : Bool

def tagQuality (doc : Document) : TagQuality where
  invalid := getBool doc "invalid" false
  transient := getBool doc "transient" false
  substituted := getBool doc "substituted" false
  overflow := getBool doc "overflow" false

-- Online or comm-lost, locally forced when substituted, and the bit of the type for an overflow.
def TagQuality.flags (q : TagQuality) (countsTransient : Bool) (overflowBit : Option FlagBit) :
    Flags := fun bit =>
  let lost := q.invalid || (countsTransient && q.transient)
  (bit = .commLost && lost) || (bit = .online && !lost) || (bit = .localForced && q.substituted) ||
    (q.overflow && some bit = overflowBit)

variable (pl : Platform) (now : ℤ) (doc : Document) (dest : Destination)

-- The source time, or that of the server without one, which is never synchronized.
def timestampFor (connHoursShift : Double) : Timestamp :=
  let shift := (pl.toInt .int (Double.mul pl.round
    (Double.add pl.round dest.hoursShift connHoursShift) (.fin 3600000000000))).1
  let shifted (ms : ℤ) : ℤ := (ms * 1000000 + shift) / 1000000
  let source := getDateMs pl doc "timeTagAtSource" 0
  if source ≠ 0 then
    { isValid := true
      synchronized := getBool doc "timeTagAtSourceOk" false
      unixMilli := shifted source }
  else
    let ms := getDateMs pl doc "timeTag" 0
    { isValid := true, synchronized := false, unixMilli := shifted (if ms = 0 then now else ms) }

def scaled (v : Double) : Double :=
  if !Double.eq dest.kConv1 (.fin 1) || !Double.eq dest.kConv2 (.fin 0) then
    Iec60870.scaled pl v dest.kConv1 dest.kConv2
  else v

def scaledValue : Double := scaled pl dest (getDouble doc "value" (.fin 0))

def boolValue : Bool :=
  let v := getBool doc "value" false
  if Double.eq dest.kConv1 (.fin (-1)) then !v else v

-- `uint32(v)`
def toUInt32 (v : Double) : UInt32 := UInt32.ofNat (pl.toInt .uint32 v).1.toNat

def doubleBitValue (transient v : Bool) : DoubleBit :=
  if transient && v then .indeterminate
  else if transient then .intermediate
  else if v then .determinedOn
  else .determinedOff

-- What is written for a tag, by the family of its destination. Octet strings and times are not
-- distributed.
def reading (connHoursShift : Double) : Option Reading :=
  let ts := timestampFor pl now doc dest connHoursShift
  let q := tagQuality doc
  let v := scaledValue pl doc dest
  match familyOf dest.commonAddress with
  | .binary => some ⟨.binary (boolValue doc dest), q.flags true none, ts⟩
  -- a transient value of a double bit is no lost one
  | .doubleBit =>
      some ⟨.doubleBit (doubleBitValue q.transient (boolValue doc dest)), q.flags false none, ts⟩
  | .counter => some ⟨.counter (toUInt32 pl v), q.flags true (some .rollover), ts⟩
  | .frozenCounter => some ⟨.frozenCounter (toUInt32 pl v), q.flags true (some .rollover), ts⟩
  | .binaryOutputStatus =>
      some ⟨.binaryOutputStatus (boolValue doc dest), q.flags true none, ts⟩
  | .analogOutputStatus =>
      some ⟨.analogOutputStatus v, q.flags true (some .overRange), ts⟩
  | .octetString | .timeAndInterval => none
  | .analog => some ⟨.analog v, q.flags true (some .overRange), ts⟩

variable {δ : Type} (lib : Database δ)

def applyValue (connHoursShift : Double) (db : δ) : δ :=
  match reading pl now doc dest connHoursShift with
  | none => db
  | some r => lib.update db (familyOf dest.commonAddress) (toUInt16 dest.objectAddress) r

end Values

section Purpose

variable (pl : Platform) (now : ℤ) (shift : Double) {δ : Type} (lib : Database δ)
  (doc : Document) (dest : Destination)

def countOf : Measured → Option UInt32
  | .counter value => some value
  | .frozenCounter value => some value
  | _ => none

def isCounter (f : Family) : Bool := f = .counter || f = .frozenCounter

def isDistributed (f : Family) : Bool := f ≠ .octetString && f ≠ .timeAndInterval

-- The count is the truncated value, or the point is marked where there is no such count.
def Counted (v : Double) (r : Reading) : Prop :=
  (FitsInt .uint32 v → ∃ n, countOf r.value = some n ∧ (n.toNat : ℤ) = v.toInt) ∧
    (¬FitsInt .uint32 v → r.flags .rollover = true)

-- What is meant of an update: no point changes but that of the family at the address, and a
-- counter there has the scaled value.
structure LandsOnOwnPoint : Prop where
  frame : ∀ db f i,
    lib.read (applyValue pl now doc dest lib shift db) f i ≠ lib.read db f i →
      f = familyOf dest.commonAddress ∧ (i.toNat : ℤ) = dest.objectAddress
  counted : isCounter (familyOf dest.commonAddress) = true → ∀ db i r,
    (i.toNat : ℤ) = dest.objectAddress →
    lib.read (applyValue pl now doc dest lib shift db) (familyOf dest.commonAddress) i = some r →
      Counted (scaledValue pl doc dest) r

end Purpose

section Reading

variable {pl : Platform} {now : ℤ} {shift : Double} {doc : Document} {dest : Destination}

theorem isSome_reading :
    (reading pl now doc dest shift).isSome = isDistributed (familyOf dest.commonAddress) := by
  unfold reading
  cases familyOf dest.commonAddress <;> rfl

theorem exists_reading (pl : Platform) (now : ℤ) (shift : Double) (doc : Document)
    (h : isDistributed (familyOf dest.commonAddress) = true) :
    ∃ r, reading pl now doc dest shift = some r :=
  Option.isSome_iff_exists.mp (isSome_reading.trans h)

theorem toNat_toUInt32 {v : Double} (h : FitsInt .uint32 v) :
    ((toUInt32 pl v).toNat : ℤ) = v.toInt := by
  obtain ⟨hlow, hhigh⟩ : 0 ≤ v.toInt ∧ v.toInt ≤ 2 ^ 32 - 1 := h.2
  have hlt : v.toInt.toNat < 2 ^ 32 := by omega
  rw [toUInt32, toInt_of_fits h, UInt32.toNat_ofNat', Nat.mod_eq_of_lt hlt]
  omega

theorem isCounter_iff {f : Family} : isCounter f = true ↔ f = .counter ∨ f = .frozenCounter := by
  simp [isCounter]

theorem isDistributed_of_isCounter {f : Family} (h : isCounter f = true) :
    isDistributed f = true := by
  rcases isCounter_iff.mp h with rfl | rfl <;> rfl

theorem flags_rollover (q : TagQuality) (countsTransient : Bool) :
    q.flags countsTransient (some .rollover) .rollover = q.overflow := by
  simp [TagQuality.flags]

theorem reading_counter (h : isCounter (familyOf dest.commonAddress) = true) {r : Reading}
    (hr : reading pl now doc dest shift = some r) :
    countOf r.value = some (toUInt32 pl (scaledValue pl doc dest)) ∧
      r.flags .rollover = (tagQuality doc).overflow := by
  unfold reading at hr
  rcases isCounter_iff.mp h with hf | hf <;> rw [hf] at hr <;> obtain rfl := Option.some.inj hr <;>
    exact ⟨rfl, flags_rollover (tagQuality doc) true⟩

theorem counted_iff (h : isCounter (familyOf dest.commonAddress) = true) {r : Reading}
    (hr : reading pl now doc dest shift = some r) :
    Counted (scaledValue pl doc dest) r ↔
      FitsInt .uint32 (scaledValue pl doc dest) ∨ (tagQuality doc).overflow = true := by
  obtain ⟨hcount, hflag⟩ := reading_counter h hr
  rw [Counted, hflag]
  constructor
  · rintro ⟨-, hmarked⟩
    by_cases hfits : FitsInt .uint32 (scaledValue pl doc dest)
    · exact .inl hfits
    · exact .inr (hmarked hfits)
  · intro hor
    refine ⟨fun hfits => ⟨_, hcount, toNat_toUInt32 hfits⟩, fun hfits => hor.resolve_left hfits⟩

end Reading

section Points

variable {pl : Platform} {now : ℤ} {shift : Double} {δ : Type} {lib : Database δ}
  {doc : Document} {dest : Destination}

theorem applyValue_none (h : isDistributed (familyOf dest.commonAddress) = false) (db : δ) :
    applyValue pl now doc dest lib shift db = db := by
  have hnone : reading pl now doc dest shift = none := by
    rw [← Option.not_isSome_iff_eq_none, isSome_reading, h]
    exact Bool.false_ne_true
  rw [applyValue, hnone]

theorem applyValue_some {r : Reading} (h : reading pl now doc dest shift = some r) (db : δ) :
    applyValue pl now doc dest lib shift db =
      lib.update db (familyOf dest.commonAddress) (toUInt16 dest.objectAddress) r := by
  rw [applyValue, h]

-- Some database has the point of the update, with anything there.
theorem exists_read (lib : Database δ) (f : Family) (i : UInt16) (r : Reading) :
    ∃ db, lib.read db f i = some r := by
  have hsome := lib.isSome_read_new (fun _ => 65536) f i
  have hlt : decide ((i.toNat : ℤ) < 65536) = true := by
    have := i.toNat_lt
    exact decide_eq_true (by omega)
  rw [hlt] at hsome
  obtain ⟨old, hold⟩ := Option.isSome_iff_exists.mp hsome
  exact ⟨lib.update (lib.new fun _ => 65536) f i r, by rw [lib.read_update, hold]; rfl⟩

-- An update changes the point at the wrapped address, where it is not what is written anyway.
theorem exists_changed (h : isDistributed (familyOf dest.commonAddress) = true) :
    ∃ db, lib.read (applyValue pl now doc dest lib shift db) (familyOf dest.commonAddress)
        (toUInt16 dest.objectAddress) ≠
      lib.read db (familyOf dest.commonAddress) (toUInt16 dest.objectAddress) := by
  obtain ⟨r, hr⟩ := exists_reading pl now shift doc h
  obtain ⟨db, hdb⟩ := exists_read lib (familyOf dest.commonAddress) (toUInt16 dest.objectAddress)
    { r with flags := fun bit => !r.flags bit }
  refine ⟨db, fun heq => ?_⟩
  rw [applyValue_some hr, lib.read_update, hdb] at heq
  have hflags : r.flags .online = !r.flags .online :=
    congrArg (fun x : Reading => x.flags .online) (Option.some.inj heq)
  exact absurd hflags.symm (by cases r.flags .online <;> decide)

theorem frame_iff :
    (∀ db f i, lib.read (applyValue pl now doc dest lib shift db) f i ≠ lib.read db f i →
      f = familyOf dest.commonAddress ∧ (i.toNat : ℤ) = dest.objectAddress) ↔
      (isDistributed (familyOf dest.commonAddress) = true →
        0 ≤ dest.objectAddress ∧ dest.objectAddress ≤ 65535) := by
  constructor
  · intro hframe hdist
    obtain ⟨db, hne⟩ := @exists_changed pl now shift δ lib doc dest hdist
    obtain ⟨-, haddr⟩ := hframe db _ _ hne
    have hlt := (toUInt16 dest.objectAddress).toNat_lt
    omega
  · intro haddr db f i hne
    cases hdist : isDistributed (familyOf dest.commonAddress) with
    | false =>
        rw [applyValue_none hdist] at hne
        exact absurd rfl hne
    | true =>
        obtain ⟨r, hr⟩ := exists_reading pl now shift doc hdist
        by_cases hpoint : (f, i) = (familyOf dest.commonAddress, toUInt16 dest.objectAddress)
        · obtain ⟨rfl, rfl⟩ := Prod.mk.inj hpoint
          exact ⟨rfl, toNat_toUInt16 (haddr hdist)⟩
        · rw [applyValue_some hr, lib.read_update_ne _ _ _ _ _ _ hpoint] at hne
          exact absurd rfl hne

end Points

section Claim

theorem landsOnOwnPoint_iff (pl : Platform) (now : ℤ) (shift : Double) {δ : Type}
    (lib : Database δ) (doc : Document) (dest : Destination) :
    LandsOnOwnPoint pl now shift lib doc dest ↔
      (isDistributed (familyOf dest.commonAddress) = true →
        0 ≤ dest.objectAddress ∧ dest.objectAddress ≤ 65535) ∧
      (isCounter (familyOf dest.commonAddress) = true →
        FitsInt .uint32 (scaledValue pl doc dest) ∨ (tagQuality doc).overflow = true) := by
  constructor
  · rintro ⟨hframe, hcounted⟩
    have haddr := frame_iff.mp hframe
    refine ⟨haddr, fun hc => ?_⟩
    have hdist := isDistributed_of_isCounter hc
    obtain ⟨r, hr⟩ := exists_reading pl now shift doc hdist
    obtain ⟨db, hdb⟩ := exists_read lib (familyOf dest.commonAddress)
      (toUInt16 dest.objectAddress) r
    refine (counted_iff hc hr).mp (hcounted hc db _ r (toNat_toUInt16 (haddr hdist)) ?_)
    rw [applyValue_some hr, lib.read_update, hdb]
    rfl
  · rintro ⟨haddr, hfits⟩
    refine ⟨frame_iff.mpr haddr, fun hc db i r hi hread => ?_⟩
    have hdist := isDistributed_of_isCounter hc
    obtain ⟨w, hw⟩ := exists_reading pl now shift doc hdist
    obtain rfl : i = toUInt16 dest.objectAddress := by
      rw [← UInt16.toNat_inj, ← Int.ofNat_inj]
      exact hi.trans (toNat_toUInt16 (haddr hdist)).symm
    rw [applyValue_some hw, lib.read_update] at hread
    obtain ⟨old, -, rfl⟩ := Option.map_eq_some_iff.mp hread
    exact (counted_iff hc hw).mpr (hfits hc)

deriving instance DecidableEq for Measured, Destination

-- A database as a table of its points.
def tableDatabase : Database (Family → UInt16 → Option Reading) where
  new := fun sizes f i =>
    if (i.toNat : ℤ) < sizes f then some ⟨.analog (.fin 0), fun _ => false, ⟨false, false, 0⟩⟩
    else none
  read := fun db => db
  update := fun db f i r f' i' => if (f', i') = (f, i) then (db f i).map fun _ => r else db f' i'
  isSome_read_new := fun sizes f i => by by_cases h : (i.toNat : ℤ) < sizes f <;> simp [h]
  read_update := fun db f i r => by simp
  read_update_ne := fun db f i r f' i' h => if_neg h

-- A tag that goes to an analog of connection 1.
def analogTag (value address : ℚ) : Document :=
  [("value", .number (.fin value)),
    ("protocolDestinations", .array [.document
      [("protocolDestinationConnectionNumber", .number (.fin 1)),
        ("protocolDestinationCommonAddress", .number (.fin 30)),
        ("protocolDestinationObjectAddress", .number (.fin address))]])]

def analogDestination (address : ℤ) : Destination where
  connectionNumber := 1
  commonAddress := 30
  objectAddress := address
  asdu := 0
  commandDuration := .fin 0
  commandUseSBO := false
  kConv1 := .fin 1
  kConv2 := .fin 0
  group := 0
  hoursShift := .fin 0

-- The points that the two tags need.
def twoTags : Family → UInt16 → Option Reading :=
  tableDatabase.new (sizeDatabase Iec60870.plainPlatform 1 [analogTag 3 1, analogTag 7 65537])

-- The tag of address 65537 writes to the point of address 1.
theorem wrapped_address_overwrites :
    destinationsFor Iec60870.plainPlatform (analogTag 7 65537) 1 = [analogDestination 65537] ∧
      ¬LandsOnOwnPoint Iec60870.plainPlatform 0 (.fin 0) tableDatabase (analogTag 7 65537)
        (analogDestination 65537) := by
  refine ⟨by decide, fun h => ?_⟩
  have hvalue : (tableDatabase.read (applyValue Iec60870.plainPlatform 0 (analogTag 7 65537)
      (analogDestination 65537) tableDatabase (.fin 0) twoTags) .analog 1).map Reading.value ≠
      (tableDatabase.read twoTags .analog 1).map Reading.value := by decide
  obtain ⟨-, haddr⟩ := h.frame twoTags .analog 1 fun heq => hvalue (congrArg _ heq)
  exact absurd haddr (by decide)

end Claim

end JsonScada.Dnp3.Outstation
