import JsonScada.Library.Assoc
import JsonScada.Processor.Json
import JsonScada.Processor.Limits

-- Whether the row of the realtime table says what the database has after the same update.
namespace JsonScada.Processor

open JsonScada.Library

section Definitions

variable (otherToJSON : List UInt8 → String) (pl : Platform) (now : Int) (count : Nat)
  (fd sdu : Document)

-- A field of a document, as it is written to JSON.
def fieldJSON (d : Document) (key : String) : Option String :=
  (d.lookup key).map (bsonValueToJSON otherToJSON)

-- The document with the `$set` of its point, when there is one.
def storedDocument (c : Converted) : Document :=
  if suppressed fd sdu c.value then fd else applySet fd (ownSet pl now fd sdu c)

def MirrorAgrees : Prop :=
  ∀ tag doc, .sqlRt tag doc ∈ (processUpdate pl now count fd sdu).1 → ∀ key,
    fieldJSON otherToJSON doc key =
      fieldJSON otherToJSON (storedDocument pl now fd sdu (convert pl now fd sdu)) key

-- The new values that the row overrides.
def rowSet (c : Converted) : Document :=
  [("value", .number c.value), ("valueString", .string c.valueString),
    ("valueJson", .string (sdu.str "valueJsonAtSource")), ("timeTag", .dateTime now),
    ("overflow", .bool (qualityBits sdu).overflow), ("invalid", .bool c.invalid),
    ("transient", .bool c.transient), ("updatesCnt", .number (updatesCnt pl fd)),
    ("alarmed", .bool c.alarmed)]

-- The new values that are stored, and that the row does not override.
def unmirrored (c : Converted) : Document :=
  (if fd.str "type" = "analog" && insertIntoHistorian pl fd sdu c.value then
    [("historianLastValue", .number c.value)] else []) ++
  [("frozen", .bool false), ("timeTagAtSource", ((sourceTime sdu).getD (.null, .null)).1),
    ("timeTagAtSourceOk", ((sourceTime sdu).getD (.null, .null)).2),
    ("alarmRange", .number c.alarmRange)] ++
  (if hasAlarmTime fd sdu c then [("timeTagAlarm", .dateTime now)] else [])

-- The document has these fields with the same values already.
def Carries (set : Document) : Prop :=
  ∀ f ∈ set, fieldJSON otherToJSON fd f.1 = some (bsonValueToJSON otherToJSON f.2)

-- Without a `$set` the document has what the row overrides. With one it has all that the row does
-- not override, and the alarm is not of a point whose alarms are disabled.
def Mirrors (c : Converted) : Prop :=
  if suppressed fd sdu c.value then Carries otherToJSON fd (rowSet pl now fd sdu c)
  else
    ¬(fd.truthy "alarmDisabled" = true ∧ fd.truthy "alarmed" = true) ∧
      Carries otherToJSON fd (unmirrored pl now fd sdu c)

end Definitions

theorem mirrorDocument_eq (pl : Platform) (now : Int) (fd sdu : Document) (c : Converted) :
    mirrorDocument pl now fd sdu c = applySet fd (rowSet pl now fd sdu c) :=
  rfl

section Lookups

variable {otherToJSON : List UInt8 → String} {pl : Platform} {now : Int} {count : Nat}
  {fd sdu set : Document} {c : Converted}

def rowKeys : List String :=
  ["value", "valueString", "valueJson", "timeTag", "overflow", "invalid", "transient", "updatesCnt",
    "alarmed"]

theorem lookup_rowSet_of_notMem {key : String} (h : key ∉ rowKeys) :
    (rowSet pl now fd sdu c).reverse.lookup key = none := by
  simp only [rowKeys, List.mem_cons, List.not_mem_nil, or_false, not_or, ← beq_eq_false_iff_ne] at h
  simp [rowSet, List.lookup_cons, h]

theorem lookup_ownSet_of_notMem {key : String} (h : key ∉ rowKeys) :
    (ownSet pl now fd sdu c).reverse.lookup key = (unmirrored pl now fd sdu c).reverse.lookup key := by
  simp only [rowKeys, List.mem_cons, List.not_mem_nil, or_false, not_or, ← beq_eq_false_iff_ne] at h
  simp only [ownSet, unmirrored]
  split
  · split
    · simp [List.lookup_cons, h]
    · simp [List.lookup_cons, h]
  · split
    · simp [List.lookup_cons, h]
    · simp [List.lookup_cons, h]

-- On the fields of the row the two agree, but for the alarm of a point whose alarms are disabled.
theorem lookup_ownSet_of_mem {key : String} (h : key ∈ rowKeys) (hkey : key ≠ "alarmed") :
    (ownSet pl now fd sdu c).reverse.lookup key = (rowSet pl now fd sdu c).reverse.lookup key := by
  simp only [rowKeys, List.mem_cons, List.not_mem_nil, or_false] at h
  simp only [ownSet]
  split
  all_goals
    split
    all_goals
      rcases h with rfl | rfl | rfl | rfl | rfl | rfl | rfl | rfl | rfl
      all_goals first | rfl | exact absurd rfl hkey

theorem keys_unmirrored {f : String × Value} (h : f ∈ unmirrored pl now fd sdu c) : f.1 ∉ rowKeys := by
  have hkey : f.1 ∈ ["historianLastValue", "frozen", "timeTagAtSource", "timeTagAtSourceOk",
      "alarmRange", "timeTagAlarm"] := by
    simp only [unmirrored, List.mem_append, List.mem_ite_nil_right, List.mem_cons, List.not_mem_nil,
      or_false] at h
    rcases h with (⟨-, rfl⟩ | rfl | rfl | rfl | rfl) | ⟨-, rfl⟩
    all_goals simp
  generalize f.1 = key at hkey
  revert key
  decide

theorem nodup_rowSet : ((rowSet pl now fd sdu c).map Prod.fst).Nodup :=
  (by decide : rowKeys.Nodup)

theorem nodup_unmirrored : ((unmirrored pl now fd sdu c).map Prod.fst).Nodup := by
  simp only [unmirrored]
  split <;> split <;> simp

-- A `$set` changes nothing exactly when the document carries it.
theorem carries_iff (hnodup : (set.map Prod.fst).Nodup) :
    Carries otherToJSON fd set ↔
      ∀ key, fieldJSON otherToJSON (applySet fd set) key = fieldJSON otherToJSON fd key := by
  have hreverse : (set.reverse.map Prod.fst).Nodup := by
    rw [List.map_reverse]
    exact List.nodup_reverse.mpr hnodup
  have hmem (f : String × Value) (hf : f ∈ set) :
      fieldJSON otherToJSON (applySet fd set) f.1 = some (bsonValueToJSON otherToJSON f.2) := by
    rw [fieldJSON, lookup_applySet, Assoc.lookup_of_mem hreverse (List.mem_reverse.mpr hf)]
    rfl
  constructor
  · intro hcarries key
    by_cases hkey : key ∈ set.map Prod.fst
    · obtain ⟨f, hf, rfl⟩ := List.mem_map.mp hkey
      rw [hmem f hf, hcarries f hf]
    · have hfields : ∀ f ∈ set, f.1 ∈ set.map Prod.fst := fun f hf => List.mem_map_of_mem hf
      rw [fieldJSON, fieldJSON, lookup_applySet_of_fields hfields hkey]
  · intro hequal f hf
    rw [← hequal f.1, hmem f hf]

end Lookups

section Agreement

variable {otherToJSON : List UInt8 → String} {pl : Platform} {now : Int} {count : Nat}
  {fd sdu : Document} {c : Converted}

-- No alarm is raised where the alarms are disabled.
theorem alarmed_of_disabled (h : fd.truthy "alarmDisabled" = true) :
    (convert pl now fd sdu).alarmed = fd.truthy "alarmed" := by
  have hlimits : hasLimits fd = false := by
    simp only [hasLimits, h, Bool.not_true, Bool.and_false]
  by_cases hdigital : fd.str "type" = "digital"
  · simp only [convert, hdigital, if_true, convertDigital, h, Bool.not_true, Bool.and_false,
      Bool.or_false]
  · by_cases hanalog : fd.str "type" = "analog"
    · simp only [convert, hanalog, String.reduceEq, if_false, if_true, convertAnalog, hlimits,
        Bool.false_eq_true]
    · simp only [convert, hdigital, hanalog, if_false]

theorem alarmed_agrees_iff :
    fieldJSON otherToJSON (mirrorDocument pl now fd sdu c) "alarmed" =
        fieldJSON otherToJSON (applySet fd (ownSet pl now fd sdu c)) "alarmed" ↔
      ¬(fd.truthy "alarmDisabled" = true ∧ c.alarmed = true) := by
  rw [mirrorDocument, fieldJSON, fieldJSON, lookup_applySet, lookup_applySet, lookup_ownSet_alarmed]
  simp only [List.reverse_cons, List.reverse_nil, List.nil_append, List.cons_append, List.lookup_cons,
    beq_self_eq_true, Option.some_or, Option.map_some, Option.some.injEq, bsonValueToJSON]
  cases fd.truthy "alarmDisabled" <;> cases c.alarmed <;> simp

-- With a `$set`, the row agrees where it overrides nothing if the document carries the rest.
theorem stored_agrees_iff :
    (∀ key, fieldJSON otherToJSON (mirrorDocument pl now fd sdu c) key =
        fieldJSON otherToJSON (applySet fd (ownSet pl now fd sdu c)) key) ↔
      ¬(fd.truthy "alarmDisabled" = true ∧ c.alarmed = true) ∧
        Carries otherToJSON fd (unmirrored pl now fd sdu c) := by
  have hout (key : String) (hkey : key ∉ rowKeys) :
      fieldJSON otherToJSON (mirrorDocument pl now fd sdu c) key = fieldJSON otherToJSON fd key ∧
        fieldJSON otherToJSON (applySet fd (ownSet pl now fd sdu c)) key =
          fieldJSON otherToJSON (applySet fd (unmirrored pl now fd sdu c)) key := by
    constructor
    · rw [mirrorDocument_eq, fieldJSON, fieldJSON, lookup_applySet, lookup_rowSet_of_notMem hkey,
        Option.none_or]
    · rw [fieldJSON, fieldJSON, lookup_applySet, lookup_applySet, lookup_ownSet_of_notMem hkey]
  have hin (key : String) (hkey : key ∈ rowKeys) :
      fieldJSON otherToJSON (applySet fd (unmirrored pl now fd sdu c)) key =
        fieldJSON otherToJSON fd key := by
    have hnone : (unmirrored pl now fd sdu c).reverse.lookup key = none := by
      rw [List.lookup_eq_none_iff]
      intro f hf
      rw [bne_iff_ne]
      rintro rfl
      exact keys_unmirrored (List.mem_reverse.mp hf) hkey
    rw [fieldJSON, fieldJSON, lookup_applySet, hnone, Option.none_or]
  rw [carries_iff nodup_unmirrored, ← alarmed_agrees_iff]
  constructor
  · intro hagree
    refine ⟨hagree "alarmed", fun key => ?_⟩
    by_cases hkey : key ∈ rowKeys
    · exact hin key hkey
    · rw [← (hout key hkey).2, ← hagree key, (hout key hkey).1]
  · rintro ⟨halarmed, hcarries⟩ key
    by_cases hkey : key ∈ rowKeys
    · by_cases hname : key = "alarmed"
      · rw [hname]
        exact halarmed
      · rw [mirrorDocument_eq, fieldJSON, fieldJSON, lookup_applySet, lookup_applySet,
          lookup_ownSet_of_mem hkey hname]
    · rw [(hout key hkey).1, (hout key hkey).2, hcarries key]

theorem mirror_agrees_iff (otherToJSON : List UInt8 → String) (pl : Platform) (now : Int) (count : Nat)
    (fd sdu : Document) :
    MirrorAgrees otherToJSON pl now count fd sdu ↔
      (updates fd sdu (convert pl now fd sdu) = true →
        Mirrors otherToJSON pl now fd sdu (convert pl now fd sdu)) := by
  have hrow : MirrorAgrees otherToJSON pl now count fd sdu ↔
      (updates fd sdu (convert pl now fd sdu) = true → ∀ key,
        fieldJSON otherToJSON (mirrorDocument pl now fd sdu (convert pl now fd sdu)) key =
          fieldJSON otherToJSON (storedDocument pl now fd sdu (convert pl now fd sdu)) key) := by
    unfold MirrorAgrees
    simp only [sqlRt_mem_processUpdate_iff]
    constructor
    · exact fun h hupdates => h _ _ ⟨hupdates, rfl, rfl⟩
    · rintro h _ _ ⟨hupdates, -, rfl⟩
      exact h hupdates
  rw [hrow]
  refine imp_congr_right fun _ => ?_
  unfold Mirrors storedDocument
  split
  · rw [carries_iff nodup_rowSet, mirrorDocument_eq]
  · rw [stored_agrees_iff]
    refine and_congr_left fun _ => not_congr (and_congr_right fun hdisabled => ?_)
    rw [alarmed_of_disabled hdisabled]

end Agreement

section Samples

-- A point whose alarms were disabled while it was in alarm.
def silencedBreaker : Document :=
  [("_id", .number (.fin 12)), ("tag", .string "BREAKER"), ("type", .string "digital"),
    ("value", .number (.fin 0)), ("valueString", .string "OFF"), ("valueJson", .string ""),
    ("invalid", .bool false), ("alarmed", .bool true), ("alarmDisabled", .bool true),
    ("frozen", .bool false), ("timeTag", .dateTime 0), ("timeTagAtSource", .null),
    ("timeTagAtSourceOk", .null), ("alarmRange", .number (.fin 0)), ("updatesCnt", .number (.fin 1))]

-- The row says that it is still in alarm, the `$set` that it is not.
theorem silencedBreaker_not_mirrored :
    ¬MirrorAgrees (fun _ => "null") exactPlatform 5 0 silencedBreaker
      [("valueAtSource", .number (.fin 1))] := by
  intro hagrees
  have hrow : .sqlRt "BREAKER" (mirrorDocument exactPlatform 5 silencedBreaker
      [("valueAtSource", .number (.fin 1))] (convert exactPlatform 5 silencedBreaker
        [("valueAtSource", .number (.fin 1))])) ∈
      (processUpdate exactPlatform 5 0 silencedBreaker [("valueAtSource", .number (.fin 1))]).1 :=
    (sqlRt_mem_processUpdate_iff exactPlatform 5 0 silencedBreaker _).mpr
      ⟨by decide, rfl, rfl⟩
  exact absurd (hagrees _ _ hrow "alarmed") (by decide)

end Samples

end JsonScada.Processor
