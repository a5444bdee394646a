import JsonScada.Iec60870.Client
import JsonScada.JsTags

namespace JsonScada.Iec60870.Client

open JsonScada.Library
open JsonScada.JsTags
open JsonScada.Processor (Document Value)

section AutoKey

def autoKeyMultiplier : ℚ := 1000000

def baseKey (connNumber : Double) : Double :=
  Double.mul Double.round connNumber (.fin autoKeyMultiplier)

def topKey (connNumber : Double) : Double :=
  Double.mul Double.round (Double.add Double.round connNumber (.fin 1)) (.fin autoKeyMultiplier)

-- The next _id of the connection: the one after the cached key, which the first call looks up.
def getNextAutoKey (lastNewKey connNumber : Double) (colRt : List Document) (lookupOk : Bool) :
    Double :=
  if Double.eq lastNewKey (.fin 0) then
    match if lookupOk then highestId colRt (baseKey connNumber) (topKey connNumber) else none with
    | some id => Double.add Double.round id (.fin 1)
    | none => baseKey connNumber
  else Double.add Double.round lastNewKey (.fin 1)

end AutoKey

section Allocators

-- Who hands out keys for a connection: the allocator of the other drivers, or that of the
-- IEC 60870-5 clients.
inductive Allocator where
  | tagKeys (connNumber : ℤ)
  | autoKey (connNumber : Double)

def Allocator.range : Allocator → KeyRange
  | .tagKeys connNumber => { base := base connNumber, top := top connNumber }
  | .autoKey connNumber => { base := baseKey connNumber, top := topKey connNumber }

-- The next key after the cached one, with lookups that succeed.
def Allocator.next (a : Allocator) (last : Double) (coll : List Document) : Double :=
  match a with
  | .tagKeys connNumber => (({ last := last } : KeyAllocator).next coll true connNumber).2
  | .autoKey connNumber => getNextAutoKey last connNumber coll true

-- Both look for the highest key of their range, and count.
theorem Allocator.next_eq (a : Allocator) : a.next = a.range.next := by
  funext last coll
  cases a with
  | tagKeys connNumber => rfl
  | autoKey connNumber =>
      simp only [Allocator.next, getNextAutoKey, KeyRange.next, Allocator.range, if_true, succ]
      cases Double.eq last (.fin 0) <;> rfl

-- The driver just started.
def started (coll : List Document) : Allocation := { last := .fin 0, coll := coll }

-- Every key is one of the connection, and neither a stored one nor one that was handed out.
def NeverReused (a : Allocator) (coll : List Document) (events : List JsTags.Event) : Prop :=
  (∀ key ∈ (started coll).keys a.next events, a.range.Contains key ∧ key ∉ storedKeys coll) ∧
    ((started coll).keys a.next events).Nodup

-- As long as every key has room, none is reused.
theorem never_reused (a : Allocator) (coll : List Document) (events : List JsTags.Event)
    (hroom : (started coll).AlwaysRoom a.next a.range events) : NeverReused a coll events := by
  unfold NeverReused
  rw [a.next_eq] at hroom ⊢
  exact keys_unique hroom fun hlast => absurd hlast (by simp [started])

-- Two tags, and a third one after a restart.
def threeTags : List JsTags.Event := [.create [], .create [], .restart, .create []]

theorem never_reused_threeTags : NeverReused (.autoKey (.fin 7)) [] threeTags :=
  never_reused (.autoKey (.fin 7)) [] threeTags (by decide +kernel)

-- The first tag has the base, which the lookup after a restart does not see.
theorem base_reused : ¬NeverReused (.tagKeys 7) [] [.create [], .restart, .create []] := by
  rintro ⟨-, hnodup⟩
  have hkeys : (started []).keys (Allocator.tagKeys 7).next [.create [], .restart, .create []] =
      [.fin 7000000, .fin 7000000] := by decide +kernel
  rw [hkeys] at hnodup
  exact absurd hnodup (by decide)

end Allocators

end JsonScada.Iec60870.Client
