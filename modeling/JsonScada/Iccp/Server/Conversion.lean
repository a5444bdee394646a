import JsonScada.Library.Selection
import JsonScada.Iccp.Server.Commands
import JsonScada.Iec60870.Server

-- The way of a command value through the conversion factors of its tag, here and in the
-- IEC 60870-5 server.
namespace JsonScada.Iccp.Server

open JsonScada.Library
open JsonScada.Processor (Document Value)
open JsonScada.Iec60870 (floatField boolField stringField timeField)

section Loading

-- The fields that the query at startup asks for.
def projection : List String :=
  ["_id", "tag", "type", "value", "valueString", "valueJson", "invalid", "description",
    "ungroupedDescription", "group1", "group2", "group3", "origin",
    "protocolSourceConnectionNumber", "protocolSourceObjectAddress", "protocolSourceASDU",
    "protocolSourceCommonAddress", "protocolSourceCommandDuration", "protocolSourceCommandUseSBO",
    "protocolSourceAccessLevel", "timeTagAtSource", "timeTagAtSourceOk", "commandBlocked",
    "supervisedOfCommand", "kconv1"]

def project (d : Document) : Document := d.filter fun f => projection.contains f.1

def anyField (d : Document) (key : String) : Value := (d.lookup key).getD .null

variable (db : Iec60870.Platform)

def decodeRtData (d : Document) : Option RtData := do
  some
    { id := ← floatField d "_id"
      tag := ← stringField d "tag"
      type := ← stringField d "type"
      value := ← floatField d "value"
      invalid := ← boolField d "invalid"
      group1 := ← stringField d "group1"
      origin := ← stringField d "origin"
      protocolSourceConnectionNumber := ← floatField d "protocolSourceConnectionNumber"
      protocolSourceASDU := anyField d "protocolSourceASDU"
      protocolSourceObjectAddress := anyField d "protocolSourceObjectAddress"
      protocolSourceCommonAddress := anyField d "protocolSourceCommonAddress"
      protocolSourceCommandDuration := ← floatField d "protocolSourceCommandDuration"
      protocolSourceCommandUseSBO := ← boolField d "protocolSourceCommandUseSBO"
      kconv1 := anyField d "kconv1"
      kconv2 := anyField d "kconv2"
      timeTagAtSource := ← timeField d "timeTagAtSource" db
      timeTagAtSourceOk := ← boolField d "timeTagAtSourceOk"
      commandBlocked := ← boolField d "commandBlocked" }

-- A stored document as the query loads it.
def load (d : Document) : Option RtData := decodeRtData db (project d)

theorem lookup_filter (p : String → Bool) (d : Document) (key : String) :
    (d.filter fun f => p f.1).lookup key = if p key then d.lookup key else none := by
  induction d with
  | nil => simp
  | cons f d ih =>
      obtain ⟨name, v⟩ := f
      rw [List.filter_cons, List.lookup_cons]
      by_cases hkey : key = name
      · subst hkey
        cases hp : p key
        · simpa [hp] using ih
        · simp
      · have hbeq : (key == name) = false := beq_false_of_ne hkey
        rw [hbeq]
        cases hp : p name
        · simpa [hp] using ih
        · simpa [hp, List.lookup_cons, hbeq] using ih

theorem lookup_project (d : Document) (key : String) :
    (project d).lookup key = if projection.contains key then d.lookup key else none :=
  lookup_filter projection.contains d key

theorem anyField_project (d : Document) (key : String) :
    anyField (project d) key = if projection.contains key then anyField d key else .null := by
  rw [anyField, lookup_project]
  split_ifs <;> rfl

-- The second factor is not asked for.
theorem load_eq {d : Document} {t : RtData} (h : load db d = some t) {type : String}
    (htype : d.lookup "type" = some (.string type)) :
    t.type = type ∧ t.kconv1 = anyField d "kconv1" ∧ t.kconv2 = .null := by
  iterate 2 (replace h := Option.bind_eq_some_iff.mp h; obtain ⟨_, -, h⟩ := h)
  replace h := Option.bind_eq_some_iff.mp h
  obtain ⟨type', htype', h⟩ := h
  iterate 10 (replace h := Option.bind_eq_some_iff.mp h; obtain ⟨_, -, h⟩ := h)
  obtain rfl := Option.some.inj h
  refine ⟨?_, ?_, ?_⟩
  · rw [stringField, lookup_project, if_pos (by decide), htype] at htype'
    exact (Option.some.inj htype').symm
  · exact (anyField_project d "kconv1").trans (if_pos (by decide))
  · exact (anyField_project d "kconv2").trans (if_neg (by decide))

end Loading

section Conversion

-- The state of a digital command, the other way round for the factor -1.
def digitalState (k₁ v : ℚ) : ℚ :=
  let state := if v = 0 then 0 else 1
  if k₁ = -1 then 1 - state else state

def linear (round : ℚ → Double) (k₁ k₂ v : ℚ) : Double :=
  Double.add round (Double.mul round (.fin v) (.fin k₁)) (.fin k₂)

-- What a command of a tag is to be queued with.
def wanted (round : ℚ → Double) (type : String) (k₁ k₂ v : ℚ) : Double :=
  if type = "digital" then .fin (digitalState k₁ v) else linear round k₁ k₂ v

theorem applyCommandConversion_load {pl : Platform} {db : Iec60870.Platform} {d : Document}
    {t : RtData} (h : load db d = some t) {type : String} {k₁ : ℚ}
    (htype : d.lookup "type" = some (.string type)) (hkind : type = "digital" ∨ type = "analog")
    (hk₁ : d.lookup "kconv1" = some (.number (.fin k₁))) (v : ℚ) :
    applyCommandConversion pl (.fin v) t = wanted pl.round type k₁ 0 v := by
  obtain ⟨ht, hone, htwo⟩ := load_eq db h htype
  have hfactor : kconvToFloat64 t.kconv1 (.fin 1) = .fin k₁ := by
    rw [hone, anyField, hk₁]
    rfl
  have hsecond : kconvToFloat64 t.kconv2 (.fin 0) = .fin 0 := by
    rw [htwo]
    rfl
  unfold applyCommandConversion wanted
  rw [ht, hfactor, hsecond]
  rcases hkind with rfl | rfl
  · rw [if_pos rfl, if_pos rfl, digitalState]
    simp [Double.eq]
  · rw [if_neg (by decide), if_pos rfl, if_neg (by decide), linear]

-- The command for a tag has the converted value.
theorem value_of_forwardCommand {pl : Platform} {connections : List Connection} {c : Collection}
    {conn : Connection} {domain item valueStr : String} {value : Double} {cmd : Command} {t : RtData}
    (hcmd : forwardCommand pl (cacheOf connections c) conn domain item value valueStr = some cmd)
    (ht : t ∈ c.tags) (htag : cmd.tag = t.tag) : cmd.value = applyCommandConversion pl value t := by
  unfold forwardCommand at hcmd
  dsimp only at hcmd
  split at hcmd
  · cases hcmd
  split at hcmd
  · cases hcmd
  next rtDoc hfind =>
    split at hcmd
    · cases hcmd
    have hcached : rtDoc ∈ allTags connections c := by
      change filled (fun u : RtData => some (u.tag, u)) (allTags connections c) _ = _ at hfind
      rw [filled_eq] at hfind
      obtain ⟨e, hlast, rfl⟩ := Option.map_eq_some_iff.mp hfind
      obtain ⟨u, hu, he⟩ := List.mem_filterMap.mp (List.mem_filter.mp (List.mem_of_getLast? hlast)).1
      rw [← Option.some.inj he]
      exact hu
    have hsame : cmd.tag = rtDoc.tag ∧ cmd.value = applyCommandConversion pl value rtDoc := by
      split at hcmd
      · next heq =>
        rw [← Option.some.inj hcmd]
        exact ⟨rfl, (Double.eq_iff.mp heq).1.symm⟩
      · rw [← Option.some.inj hcmd]
        exact ⟨rfl, rfl⟩
    have hrt : rtDoc = t :=
      List.inj_on_of_nodup_map c.nodup (List.mem_filter.mp hcached).1 ht (hsame.1.symm.trans htag)
    rw [hsame.2, hrt]

-- The value that the other server queues.
def queuedValue (doc : Document) : Value := anyField doc "value"

-- No type of IEC 60870-5 says how the command is converted.
def Untyped (point : Iec60870.RtDataPoint) : Prop :=
  let asdu := point.protocolSourceASDU.toNat % 256
  Iec60870.Server.isDigitalCommand asdu = false ∧ Iec60870.Server.isScaledCommand asdu = false ∧
    Iec60870.Server.isBitstringCommand asdu = false

theorem decodePoint_eq {db : Iec60870.Platform} {d : Document} {point : Iec60870.RtDataPoint}
    (h : Iec60870.decodePoint db d = some point) {type : String} {k₁ k₂ : ℚ}
    (htype : d.lookup "type" = some (.string type))
    (hk₁ : d.lookup "kconv1" = some (.number (.fin k₁)))
    (hk₂ : d.lookup "kconv2" = some (.number (.fin k₂))) :
    point.type = type ∧ point.kconv1 = .fin k₁ ∧ point.kconv2 = .fin k₂ := by
  iterate 9 (replace h := Option.bind_eq_some_iff.mp h; obtain ⟨_, -, h⟩ := h)
  replace h := Option.bind_eq_some_iff.mp h
  obtain ⟨type', htype', h⟩ := h
  iterate 2 (replace h := Option.bind_eq_some_iff.mp h; obtain ⟨_, -, h⟩ := h)
  replace h := Option.bind_eq_some_iff.mp h
  obtain ⟨_, hone, h⟩ := h
  replace h := Option.bind_eq_some_iff.mp h
  obtain ⟨_, htwo, h⟩ := h
  iterate 4 (replace h := Option.bind_eq_some_iff.mp h; obtain ⟨_, -, h⟩ := h)
  obtain rfl := Option.some.inj h
  rw [stringField, htype] at htype'
  rw [floatField, hk₁] at hone
  rw [floatField, hk₂] at htwo
  exact ⟨(Option.some.inj htype').symm, (Option.some.inj hone).symm, (Option.some.inj htwo).symm⟩

-- A factor zero stands for a missing one.
def orOne (k₁ : ℚ) : ℚ := if k₁ = 0 then 1 else k₁

theorem queuedValue_commandDoc (db : Iec60870.Platform) {point : Iec60870.RtDataPoint} {k₁ k₂ : ℚ}
    (huntyped : Untyped point) (hk₁ : point.kconv1 = .fin k₁) (hk₂ : point.kconv2 = .fin k₂)
    (now : ℤ) (conn : Iec60870.Server.Conn) (v : ℚ) :
    queuedValue (Iec60870.Server.commandDoc db now conn point (.fin v)) =
      .number (if point.type = "digital" then
          .fin (if k₁ = -1 then digitalState k₁ v else v)
        else if point.type = "analog" then linear db.round (orOne k₁) k₂ v else .fin v) := by
  obtain ⟨hdigital, hscaled, hbits⟩ := huntyped
  have hone : Iec60870.Server.defaultOne (.fin k₁) = .fin (orOne k₁) := by
    rw [Iec60870.Server.defaultOne, orOne]
    by_cases h0 : k₁ = 0 <;> simp [Double.eq, h0]
  have hvalue : queuedValue (Iec60870.Server.commandDoc db now conn point (.fin v)) =
      .number (Iec60870.Server.sourceValue db (point.protocolSourceASDU.toNat % 256) point.type
        (Iec60870.Server.defaultOne point.kconv1) point.kconv2 (.fin v)) := rfl
  rw [hvalue, hk₁, hk₂, hone, Iec60870.Server.sourceValue, hdigital, hscaled, hbits]
  simp only [Bool.false_eq_true, if_false]
  congr 1
  by_cases hdig : point.type = "digital"
  · have hinverted : Iec60870.isInverted (.fin (orOne k₁)) = true ↔ k₁ = -1 := by
      rw [Iec60870.isInverted, Double.eq_iff, orOne]
      by_cases h0 : k₁ = 0 <;> simp [h0]
      norm_num
    rw [if_pos hdig, if_pos hdig]
    by_cases hneg : k₁ = -1
    · rw [if_pos (hinverted.mpr hneg), if_pos hneg, Iec60870.Server.invert, digitalState, if_pos hneg]
      by_cases h0 : v = 0 <;> simp [Double.eq, h0]
    · rw [if_neg fun h => hneg (hinverted.mp h), if_neg hneg]
  · rw [if_neg hdig, if_neg hdig]
    rfl

end Conversion

section Samples

-- A setpoint as it is stored.
def setpoint (k₁ k₂ : ℚ) : Document :=
  [("_id", .number (.fin 3)), ("tag", .string "Level"), ("type", .string "analog"),
    ("origin", .string "command"), ("group1", .string "North"),
    ("kconv1", .number (.fin k₁)), ("kconv2", .number (.fin k₂))]

def levelOf (k₁ : ℚ) : RtData :=
  { breaker 3 "Level" with
    type := "analog"
    protocolSourceConnectionNumber := .fin 0
    kconv1 := .number (.fin k₁)
    kconv2 := .null }

def setpoints : Collection where
  tags := [levelOf 2]
  nodup := by decide

def iecConn : Iec60870.Server.Conn where
  cfg := ⟨"IEC104", .fin 1⟩

end Samples

end JsonScada.Iccp.Server
