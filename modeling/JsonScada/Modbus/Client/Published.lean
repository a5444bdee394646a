import JsonScada.Library.LastWrite
import JsonScada.Library.Run
import JsonScada.Modbus.Client.Poll

namespace JsonScada.Modbus

open JsonScada.Library

section Update

variable (round : ℚ → Double) (now : Int) (conn : Double) (isGi : Bool)

-- What is queued for a tag after a read of its block.
def updateOf (read : Option Bytes) (s : Slice) : RtOp :=
  match read with
  | none => queueInvalid now conn s.b.id
  | some raw =>
      match decodeTag round s raw with
      | .error _ => queueInvalid now conn s.b.id
      | .ok (v, invalid, json) =>
          queue now conn
            { id := s.b.id, value := v, json := json, asduLabel := s.b.asdu.label
              invalid := invalid, cot := if isGi then "20" else "3" }

-- A read is published when it fails for the first time, differs from the last one, or
-- belongs to an integrity cycle.
def publishes (b : Block) (read : Option Bytes) : Bool :=
  match read with
  | none => !b.invalidPublished
  | some raw => b.lastRaw ≠ some raw || isGi

-- A block that was marked invalid remembers no bytes.
def Block.Consistent (b : Block) : Prop := b.invalidPublished = true → b.lastRaw = none

theorem readBlock_ops (b : Block) (read : Option Bytes) :
    (readBlock round now conn b read isGi).2 =
      if publishes isGi b read then b.slices.map (updateOf round now conn isGi read) else [] := by
  cases read with
  | none => cases h : b.invalidPublished <;> simp [readBlock, publishes, updateOf, h]
  | some raw =>
      unfold readBlock publishes
      simp only
      split <;> rfl

-- The block remembers the bytes that were read, none of a failed read.
theorem readBlock_block {b : Block} (hb : b.Consistent) (read : Option Bytes) :
    (readBlock round now conn b read isGi).1 =
      { b with lastRaw := read, invalidPublished := read.isNone } := by
  obtain ⟨slices, lastRaw, invalidPublished⟩ := b
  cases read with
  | none =>
      cases invalidPublished with
      | true =>
          obtain rfl : lastRaw = none := hb rfl
          rfl
      | false => rfl
  | some raw =>
      unfold readBlock
      by_cases h : lastRaw = some raw <;> cases isGi <;> simp [h]

theorem readBlock_consistent {b : Block} (hb : b.Consistent) (read : Option Bytes) :
    (readBlock round now conn b read isGi).1.Consistent := by
  rw [readBlock_block round now conn isGi hb]
  cases read with
  | none => exact fun _ => rfl
  | some raw => exact fun h => absurd h (by simp)

theorem updateOf_id (read : Option Bytes) (s : Slice) :
    (updateOf round now conn isGi read s).id = s.b.id := by
  unfold updateOf
  cases read with
  | none => rfl
  | some raw =>
      simp only
      split <;> rfl

end Update

section Content

-- The value of a tag as the database has it.
structure SourceValue where
  number : Option Double
  text : String
  json : Option Processor.Value

-- What an update says of the quality of its tag, and of the value.
def RtOp.quality (op : RtOp) : Option Bool :=
  match op.set.doc "sourceDataUpdate" with
  | some sdu => sdu.boolStrict "invalidAtSource"
  | none => op.set.boolStrict "sourceDataUpdate.invalidAtSource"

def RtOp.value (op : RtOp) : Option SourceValue :=
  (op.set.doc "sourceDataUpdate").map fun sdu =>
    { number := sdu.num "valueAtSource"
      text := sdu.str "valueStringAtSource"
      json := sdu.lookup "valueJsonAtSource" }

variable (round : ℚ → Double)

-- The quality and the value of a tag in the bytes of its block.
def decodedInvalid (s : Slice) (raw : Bytes) : Bool :=
  match decodeTag round s raw with
  | .error _ => true
  | .ok (_, invalid, _) => invalid

def decodedValue (s : Slice) (raw : Bytes) : Option SourceValue :=
  match decodeTag round s raw with
  | .error _ => none
  | .ok (v, _, json) =>
      let vjson : Processor.Value :=
        match json with
        | some bits => .array (bits.map fun b => .number (.fin b))
        | none => .null
      some { number := some v.atSource, text := v.string, json := some vjson }

variable (now : Int) (conn : Double) (isGi : Bool)

theorem quality_updateOf (s : Slice) (raw : Bytes) :
    (updateOf round now conn isGi (some raw) s).quality = some (decodedInvalid round s raw) := by
  unfold updateOf decodedInvalid
  simp only
  split <;> rfl

theorem value_updateOf (s : Slice) (raw : Bytes) :
    (updateOf round now conn isGi (some raw) s).value = decodedValue round s raw := by
  unfold updateOf decodedValue
  simp only
  split <;> rfl

end Content

namespace Poll

section Cycle

variable (round : ℚ → Double) (now : Int) (conn : Double) (isGi : Bool)

-- The loop goes on after the cycle.
def Cycle.GoesOn (c : Cycle) : Prop := c.ended = false ∧ (c.answered = 0 → c.linkErrs = 0)

-- What a read queues.
def queuedFor (p : Block × Read) : List RtOp :=
  if publishes isGi p.1 p.2.raw then p.1.slices.map (updateOf round now conn isGi p.2.raw) else []

def remembers (p : Block × Read) : Block :=
  { p.1 with lastRaw := p.2.raw, invalidPublished := p.2.raw.isNone }

theorem readBlock_eq {b : Block} (hb : b.Consistent) (read : Read) :
    readBlock round now conn b read.raw isGi =
      (remembers (b, read), queuedFor round now conn isGi (b, read)) :=
  Prod.ext (readBlock_block round now conn isGi hb read.raw)
    (readBlock_ops round now conn isGi b read.raw)

theorem le_pollBlocks_answered (answered : Nat) (l : List (Block × Read)) :
    answered ≤ (pollBlocks round now conn isGi answered l).answered := by
  induction l generalizing answered with
  | nil => exact Nat.le_refl _
  | cons p l ih =>
      obtain ⟨b, read⟩ := p
      have hnext := ih (answered + 1)
      have hsame := ih answered
      cases read with
      | answered _ | exception =>
          simp only [pollBlocks, Cycle.after]
          omega
      | timedOut => exact hsame
      | stopped | cancelled => exact Nat.le_refl _
      | linkError msg =>
          simp only [pollBlocks]
          split
          · omega
          · exact hsame

-- What the read of a block does to the rest of the cycle: the context ended, the cycle breaks
-- off after the read, or the other blocks are read too.
theorem pollBlocks_cons (answered : Nat) (b : Block) (read : Read) (l : List (Block × Read)) :
    let r := readBlock round now conn b read.raw isGi
    let c := pollBlocks round now conn isGi answered ((b, read) :: l)
    (c.blocks = b :: l.map Prod.fst ∧ ¬c.GoesOn) ∨
      (c.blocks = r.1 :: l.map Prod.fst ∧ ¬c.GoesOn) ∨
      ∃ rest, (∃ k, rest = pollBlocks round now conn isGi k l) ∧ c.blocks = r.1 :: rest.blocks ∧
        c.ops = r.2 ++ rest.ops ∧ c.returned = rest.returned ∧ (c.GoesOn → rest.GoesOn) := by
  intro r c
  cases read with
  | answered _ | exception =>
      exact .inr (.inr ⟨_, ⟨answered + 1, rfl⟩, rfl, rfl, rfl, fun h => h⟩)
  | timedOut => exact .inr (.inr ⟨_, ⟨answered, rfl⟩, rfl, rfl, rfl, fun h => h⟩)
  | stopped | cancelled => exact .inl ⟨rfl, fun h => by cases h.1⟩
  | linkError msg =>
      by_cases hnone : answered = 0
      · have hc : c = { blocks := r.1 :: l.map Prod.fst, ops := r.2, answered := 0, linkErrs := 1
                        lastLinkErr := msg } := if_pos hnone
        rw [hc]
        exact .inr (.inl ⟨rfl, fun h => by cases h.2 rfl⟩)
      · have hc : c = ((pollBlocks round now conn isGi answered l).after r).afterLinkError msg :=
          if_neg hnone
        have hle := le_pollBlocks_answered round now conn isGi answered l
        rw [hc]
        exact .inr (.inr ⟨_, ⟨answered, rfl⟩, rfl, rfl, rfl, fun h => ⟨h.1, fun h0 => by omega⟩⟩)

-- A cycle after which the loop goes on has read every block.
theorem pollBlocks_goesOn {answered : Nat} {l : List (Block × Read)}
    (hl : ∀ p ∈ l, p.1.Consistent) (h : (pollBlocks round now conn isGi answered l).GoesOn) :
    (pollBlocks round now conn isGi answered l).blocks = l.map remembers ∧
      (pollBlocks round now conn isGi answered l).ops = l.flatMap (queuedFor round now conn isGi) ∧
      (pollBlocks round now conn isGi answered l).returned = false := by
  induction l generalizing answered with
  | nil => exact ⟨rfl, rfl, rfl⟩
  | cons p l ih =>
      obtain ⟨b, read⟩ := p
      have hread := readBlock_eq round now conn isGi (hl _ List.mem_cons_self) read
      rcases pollBlocks_cons round now conn isGi answered b read l with
        ⟨-, hends⟩ | ⟨-, hends⟩ | ⟨_, ⟨k, rfl⟩, hblocks, hops, hreturned, hgoes⟩
      · exact absurd h hends
      · exact absurd h hends
      · obtain ⟨ihblocks, ihops, ihreturned⟩ :=
          ih (fun p hp => hl p (List.mem_cons_of_mem _ hp)) (hgoes h)
        rw [hblocks, hops, hreturned, ihblocks, ihops, ihreturned, hread]
        exact ⟨rfl, rfl, rfl⟩

-- Whatever happens, the blocks keep their tags, and stay consistent.
theorem pollBlocks_blocks (answered : Nat) {l : List (Block × Read)}
    (hl : ∀ p ∈ l, p.1.Consistent) :
    (pollBlocks round now conn isGi answered l).blocks.map Block.slices = l.map (·.1.slices) ∧
      ∀ b ∈ (pollBlocks round now conn isGi answered l).blocks, b.Consistent := by
  induction l generalizing answered with
  | nil => exact ⟨rfl, by simp [pollBlocks]⟩
  | cons p l ih =>
      obtain ⟨b, read⟩ := p
      have hb : b.Consistent := hl _ List.mem_cons_self
      have hrest : ∀ p ∈ l, p.1.Consistent := fun p hp => hl p (List.mem_cons_of_mem _ hp)
      have hslices : (readBlock round now conn b read.raw isGi).1.slices = b.slices := by
        rw [readBlock_block round now conn isGi hb]
      have hconsistent := readBlock_consistent round now conn isGi hb read.raw
      have hunread : ∀ b ∈ l.map Prod.fst, b.Consistent := by
        intro b hb
        obtain ⟨p, hp, rfl⟩ := List.mem_map.mp hb
        exact hrest p hp
      rcases pollBlocks_cons round now conn isGi answered b read l with
        ⟨hblocks, -⟩ | ⟨hblocks, -⟩ | ⟨_, ⟨k, rfl⟩, hblocks, -⟩
      · rw [hblocks]
        simp only [List.map_cons, List.map_map]
        exact ⟨rfl, List.forall_mem_cons.mpr ⟨hb, hunread⟩⟩
      · rw [hblocks]
        simp only [List.map_cons, List.map_map, hslices]
        exact ⟨rfl, List.forall_mem_cons.mpr ⟨hconsistent, hunread⟩⟩
      · obtain ⟨ihslices, ihconsistent⟩ := ih k hrest
        rw [hblocks]
        simp only [List.map_cons, hslices, ihslices]
        exact ⟨trivial, List.forall_mem_cons.mpr ⟨hconsistent, ihconsistent⟩⟩

end Cycle

section Published

open LastWrite

-- What an update says of a tag, if it is an update of that tag.
open Classical in
noncomputable def ofTag {α : Type} (part : RtOp → Option α) (id : Processor.Value) (op : RtOp) :
    Option α :=
  if op.id = id then part op else none

def written (flushes : List Flush) : List (List RtOp) := flushes.map Flush.written

-- The quality and the value last written for a tag are those in the bytes, in whatever order
-- the bulk writes were executed.
structure Published (round : ℚ → Double) (flushes : List Flush) (s : Slice) (raw : Bytes) : Prop where
  quality :
    Settles (ofTag RtOp.quality s.b.id) (written flushes) (decodedInvalid round s raw)
  value : ∀ v, decodedValue round s raw = some v →
    Settles (ofTag RtOp.value s.b.id) (written flushes) v

-- Whether a flush was done for a tag that it has an update of.
open Classical in
noncomputable def fate (id : Processor.Value) (f : Flush) : Option Bool :=
  if ∃ op ∈ f.ops, op.id = id then some (f.through id) else none

-- The last update that was queued for the tag has not reached the database.
def Lost (flushes : List Flush) (id : Processor.Value) : Prop :=
  after (fate id) none flushes = some false

variable {round : ℚ → Double} {now : Int} {conn : Double} {isGi : Bool}
variable {flushes : List Flush} {f : Flush} {s : Slice} {raw : Bytes}

theorem fate_of_none {id : Processor.Value} (h : ∀ op ∈ f.ops, op.id ≠ id) : fate id f = none := by
  unfold fate
  rw [if_neg]
  rintro ⟨op, hop, hid⟩
  exact h op hop hid

theorem fate_of_mem {op : RtOp} (hop : op ∈ f.ops) : fate op.id f = some (f.through op.id) :=
  if_pos ⟨op, hop, rfl⟩

theorem lost_concat_of_none {id : Processor.Value} (h : ∀ op ∈ f.ops, op.id ≠ id) :
    Lost (flushes ++ [f]) id ↔ Lost flushes id := by
  unfold Lost
  rw [after_concat, fate_of_none h, Option.none_or]

theorem lost_concat_of_mem {op : RtOp} (hop : op ∈ f.ops) :
    Lost (flushes ++ [f]) op.id ↔ f.through op.id = false := by
  unfold Lost
  rw [after_concat, fate_of_mem hop, Option.some_or, Option.some_inj]

theorem written_concat : written (flushes ++ [f]) = written flushes ++ [f.written] := by
  simp [written]

theorem Published.concat_of_none (h : Published round flushes s raw)
    (hnone : ∀ op ∈ f.ops, op.id ≠ s.b.id) : Published round (flushes ++ [f]) s raw := by
  have hsilent : ∀ {α : Type} (part : RtOp → Option α), ∀ op ∈ f.written,
      ofTag part s.b.id op = none := by
    intro α part op hop
    exact if_neg (hnone op (List.mem_of_mem_filter hop))
  constructor
  · rw [written_concat]
    exact h.quality.concat_of_none (hsilent _)
  · intro v hv
    rw [written_concat]
    exact (h.value v hv).concat_of_none (hsilent _)

-- The only update of the tag in a flush that was done for it.
theorem published_concat (hop : updateOf round now conn isGi (some raw) s ∈ f.ops)
    (honly : ∀ op ∈ f.ops, op.id = s.b.id → op = updateOf round now conn isGi (some raw) s)
    (hthrough : f.through s.b.id = true) : Published round (flushes ++ [f]) s raw := by
  have hid := updateOf_id round now conn isGi (some raw) s
  have hmem : updateOf round now conn isGi (some raw) s ∈ f.written := by
    apply List.mem_filter.mpr
    rw [hid]
    exact ⟨hop, hthrough⟩
  have hsettles : ∀ {α : Type} (part : RtOp → Option α) (v : α),
      part (updateOf round now conn isGi (some raw) s) = some v →
      Settles (ofTag part s.b.id) (written (flushes ++ [f])) v := by
    intro α part v hpart
    rw [written_concat]
    apply settles_concat
    · intro op hop w hw
      unfold ofTag at hw
      split at hw
      · rename_i heq
        rw [honly op (List.mem_of_mem_filter hop) heq, hpart] at hw
        exact (Option.some.inj hw).symm
      · cases hw
    · refine ⟨_, hmem, ?_⟩
      rw [ofTag, if_pos hid, hpart]
      exact Option.some_ne_none v
  constructor
  · exact hsettles _ _ (quality_updateOf round now conn isGi s raw)
  · intro v hv
    exact hsettles _ _ ((value_updateOf round now conn isGi s raw).trans hv)

end Published

section Tags

variable {round : ℚ → Double} {now : Int} {conn : Double} {isGi : Bool}

def slicesOf (l : List (Block × Read)) : List Slice := (l.map (·.1.slices)).flatten

-- A tag is in one slice of one block.
theorem tag_unique {l : List (Block × Read)} (hnodup : ((slicesOf l).map fun s => s.b.id).Nodup)
    {p p' : Block × Read} {s s' : Slice} (hp : p ∈ l) (hp' : p' ∈ l) (hs : s ∈ p.1.slices)
    (hs' : s' ∈ p'.1.slices) (hid : s.b.id = s'.b.id) : p = p' ∧ s = s' := by
  have hmem : ∀ {p : Block × Read} {s : Slice}, p ∈ l → s ∈ p.1.slices → s ∈ slicesOf l := by
    intro p s hp hs
    exact List.mem_flatten.mpr ⟨_, List.mem_map_of_mem hp, hs⟩
  obtain rfl : s = s' := List.inj_on_of_nodup_map hnodup (hmem hp hs) (hmem hp' hs') hid
  refine ⟨?_, rfl⟩
  have hslices := hnodup.of_map
  rw [slicesOf, List.nodup_flatten, List.pairwise_map] at hslices
  by_contra hne
  have hsymm : Std.Symm fun a b : Block × Read => a.1.slices.Disjoint b.1.slices :=
    ⟨fun _ _ h => h.symm⟩
  exact hslices.2.forall hp hp' hne hs hs'

theorem mem_queued {l : List (Block × Read)} (hnodup : ((slicesOf l).map fun s => s.b.id).Nodup)
    {p : Block × Read} {s : Slice} (hp : p ∈ l) (hs : s ∈ p.1.slices) {op : RtOp}
    (hop : op ∈ l.flatMap (queuedFor round now conn isGi)) (hid : op.id = s.b.id) :
    publishes isGi p.1 p.2.raw = true ∧ op = updateOf round now conn isGi p.2.raw s := by
  obtain ⟨p', hp', hop⟩ := List.mem_flatMap.mp hop
  unfold queuedFor at hop
  split at hop
  · rename_i hpublishes
    obtain ⟨s', hs', rfl⟩ := List.mem_map.mp hop
    rw [updateOf_id] at hid
    obtain ⟨rfl, rfl⟩ := tag_unique hnodup hp' hp hs' hs hid
    exact ⟨hpublishes, rfl⟩
  · cases hop

end Tags

section Invariant

variable {cfg : Config} {c : Connection} {now : Int} {reads : Nat → Read} {outcome : Outcome}

-- What a block remembers is published, except where a flush was lost.
structure Inv (cfg : Config) (c : Connection) : Prop where
  consistent : ∀ b ∈ c.blocks, b.Consistent
  nodup : ((c.blocks.map Block.slices).flatten.map fun s => s.b.id).Nodup
  upToDate : c.connected = true → c.lastGi ≠ none → ∀ b ∈ c.blocks, ∀ raw, b.lastRaw = some raw →
    ∀ s ∈ b.slices, ¬Lost c.flushes s.b.id → Published cfg.round c.flushes s raw

theorem polled_fst (c : Connection) (reads : Nat → Read) :
    (polled c reads).map Prod.fst = c.blocks := by
  unfold polled
  apply List.ext_getElem
  · simp
  · simp

theorem mem_blocks {p : Block × Read} (hp : p ∈ polled c reads) : p.1 ∈ c.blocks := by
  rw [← polled_fst c reads]
  exact List.mem_map_of_mem hp

theorem slices_polled (c : Connection) (reads : Nat → Read) :
    (polled c reads).map (·.1.slices) = c.blocks.map Block.slices := by
  conv_rhs => rw [← polled_fst c reads]
  rw [List.map_map]
  rfl

theorem Inv.polled_consistent (h : Inv cfg c) (reads : Nat → Read) :
    ∀ p ∈ polled c reads, p.1.Consistent :=
  fun _ hp => h.consistent _ (mem_blocks hp)

theorem Inv.polled_nodup (h : Inv cfg c) :
    ((slicesOf (polled c reads)).map fun s => s.b.id).Nodup := by
  rw [slicesOf, slices_polled]
  exact h.nodup

theorem pollCycle_flushes (h : Inv cfg c) (hgoes : (cycleOf cfg c now reads).GoesOn) :
    (pollCycle cfg c now reads outcome).flushes =
      c.flushes ++ [⟨(cycleOf cfg c now reads).ops, outcome⟩] := by
  obtain ⟨-, -, hreturned⟩ := pollBlocks_goesOn _ _ _ _ (h.polled_consistent reads) hgoes
  simp [pollCycle, cycleOf, hreturned]

-- After a cycle that read every block, a tag is published or its update was lost, then or
-- before.
theorem published_after_cycle (h : Inv cfg c) (hconnected : c.connected = true)
    (hgoes : (cycleOf cfg c now reads).GoesOn) {p : Block × Read} (hp : p ∈ polled c reads)
    {raw : Bytes} (hraw : p.2.raw = some raw) {s : Slice} (hs : s ∈ p.1.slices)
    (hlost : ¬Lost (pollCycle cfg c now reads outcome).flushes s.b.id) :
    Published cfg.round (pollCycle cfg c now reads outcome).flushes s raw := by
  have hops := (pollBlocks_goesOn _ _ _ _ (h.polled_consistent reads) hgoes).2.1
  rw [pollCycle_flushes h hgoes] at hlost ⊢
  by_cases hpublishes : publishes (isGiDue cfg c now) p.1 p.2.raw = true
  · -- the block is published, with no other update of the tag
    have hid := updateOf_id cfg.round (millis now) cfg.protocolConnectionNumber (isGiDue cfg c now)
      (some raw) s
    have hop : updateOf cfg.round (millis now) cfg.protocolConnectionNumber (isGiDue cfg c now)
        (some raw) s ∈ (cycleOf cfg c now reads).ops := by
      unfold cycleOf
      rw [hops, List.mem_flatMap]
      refine ⟨p, hp, ?_⟩
      rw [queuedFor, if_pos hpublishes, ← hraw]
      exact List.mem_map_of_mem hs
    apply published_concat hop
    · intro op hop' hid'
      have hop' : op ∈ (cycleOf cfg c now reads).ops := hop'
      unfold cycleOf at hop'
      rw [hops] at hop'
      rw [(mem_queued h.polled_nodup hp hs hop' hid').2, hraw]
    · rw [← hid, lost_concat_of_mem hop] at hlost
      rw [← hid]
      simpa using hlost
  · -- the bytes are those remembered, and nothing is sent
    have hnone : ∀ op ∈ (cycleOf cfg c now reads).ops, op.id ≠ s.b.id := by
      intro op hop hid
      unfold cycleOf at hop
      rw [hops] at hop
      exact hpublishes (mem_queued h.polled_nodup hp hs hop hid).1
    rw [lost_concat_of_none hnone] at hlost
    simp only [publishes, hraw, ne_eq, decide_not, Bool.or_eq_true, Bool.not_eq_true',
      decide_eq_false_iff_not, not_or, not_not, Bool.not_eq_true] at hpublishes
    have hgi : c.lastGi ≠ none := by
      intro hgi
      simp [isGiDue, hgi] at hpublishes
    exact (h.upToDate hconnected hgi p.1 (mem_blocks hp) raw hpublishes.1 s hs hlost).concat_of_none
      hnone

theorem pollCycle_connected :
    (pollCycle cfg c now reads outcome).connected = true → (cycleOf cfg c now reads).GoesOn := by
  intro hconnected
  simp only [pollCycle, Bool.not_eq_true', Bool.or_eq_false_iff, Bool.and_eq_false_iff,
    decide_eq_false_iff_not] at hconnected
  refine ⟨hconnected.1, fun h0 => ?_⟩
  rcases hconnected.2 with h | h <;> omega

theorem inv_cycle (h : Inv cfg c) (hconnected : c.connected = true) :
    Inv cfg (pollCycle cfg c now reads outcome) := by
  obtain ⟨hslices, hconsistent⟩ := pollBlocks_blocks cfg.round (millis now)
    cfg.protocolConnectionNumber (isGiDue cfg c now) 0 (h.polled_consistent reads)
  refine ⟨hconsistent, ?_, ?_⟩
  · show (((cycleOf cfg c now reads).blocks.map Block.slices).flatten.map fun s => s.b.id).Nodup
    unfold cycleOf
    rw [hslices, slices_polled]
    exact h.nodup
  · intro hconnected' hgi b hb raw hraw s hs hlost
    have hgoes := pollCycle_connected hconnected'
    have hb : b ∈ (cycleOf cfg c now reads).blocks := hb
    unfold cycleOf at hb
    rw [(pollBlocks_goesOn _ _ _ _ (h.polled_consistent reads) hgoes).1] at hb
    obtain ⟨p, hp, rfl⟩ := List.mem_map.mp hb
    exact published_after_cycle h hconnected hgoes hp hraw hs hlost

theorem consistent_fresh (plan : Plan) : ∀ b ∈ plan.fresh, b.Consistent := by
  intro b hb
  obtain ⟨slices, -, rfl⟩ := List.mem_map.mp hb
  exact fun _ => rfl

theorem nodup_fresh (plan : Plan) :
    ((plan.fresh.map Block.slices).flatten.map fun s => s.b.id).Nodup := by
  simp only [Plan.fresh, List.map_map]
  exact (List.map_id plan.blocks).symm ▸ plan.nodup

theorem lastRaw_fresh {plan : Plan} {b : Block} (hb : b ∈ plan.fresh) : b.lastRaw = none := by
  obtain ⟨slices, -, rfl⟩ := List.mem_map.mp hb
  rfl

theorem inv_start (cfg : Config) (plan : Plan) : Inv cfg (start plan) :=
  ⟨consistent_fresh plan, nodup_fresh plan, fun hconnected => by cases hconnected⟩

theorem inv_step {c' : Connection} {a : Action} (h : Inv cfg c) (hstep : step cfg c a = some c') :
    Inv cfg c' := by
  cases a with
  | connect =>
      simp only [step] at hstep
      split at hstep
      · cases hstep
      · obtain rfl := Option.some.inj hstep
        exact ⟨h.consistent, h.nodup, fun _ hgi => absurd rfl hgi⟩
  | linkDown now outcome =>
      simp only [step] at hstep
      split at hstep
      · cases hstep
      · rename_i hconnected
        split at hstep
        · obtain rfl := Option.some.inj hstep
          exact h
        · obtain rfl := Option.some.inj hstep
          exact ⟨h.consistent, h.nodup, fun hconnected' => absurd hconnected' hconnected⟩
  | cycle now reads outcome =>
      simp only [step] at hstep
      split at hstep
      · rename_i hconnected
        obtain rfl := Option.some.inj hstep
        exact inv_cycle h hconnected
      · cases hstep
  | stop =>
      obtain rfl := Option.some.inj hstep
      exact ⟨h.consistent, h.nodup, fun hconnected => by cases hconnected⟩
  | setBindings plan =>
      obtain rfl := Option.some.inj hstep
      refine ⟨consistent_fresh plan, nodup_fresh plan, ?_⟩
      intro hconnected hgi b hb raw hraw
      rw [lastRaw_fresh hb] at hraw
      cases hraw

theorem inv_run {plan : Plan} {actions : List Action}
    (hrun : Run.run (step cfg) (start plan) actions = some c) : Inv cfg c :=
  Run.invariant (fun _ _ _ h _ hstep => inv_step h hstep) (inv_start cfg plan)
    (Run.allowed_of_forall (fun _ _ => trivial) _ _) hrun

end Invariant

section Successful

variable {cfg : Config} {c : Connection} {now : Int} {reads : Nat → Read} {outcome : Outcome}

theorem pollBlocks_answered (round : ℚ → Double) (now : Int) (conn : Double) (isGi : Bool)
    (answered : Nat) {l : List (Block × Read)} (hl : ∀ p ∈ l, ∃ raw, p.2 = .answered raw) :
    (pollBlocks round now conn isGi answered l).ended = false ∧
      (pollBlocks round now conn isGi answered l).linkErrs = 0 := by
  induction l generalizing answered with
  | nil => exact ⟨rfl, rfl⟩
  | cons p l ih =>
      obtain ⟨b, read⟩ := p
      obtain ⟨raw, rfl⟩ := hl _ List.mem_cons_self
      exact ih _ fun p hp => hl p (List.mem_cons_of_mem _ hp)

-- Outside the integrity cycles, a block is read as it was remembered, and the update of one
-- of its tags was lost.
def SuppressesLost (cfg : Config) (c : Connection) (now : Int) (reads : Nat → Read) : Prop :=
  isGiDue cfg c now = false ∧
    ∃ p ∈ polled c reads, ∃ raw, p.2 = .answered raw ∧ p.1.lastRaw = some raw ∧
      ∃ s ∈ p.1.slices, Lost c.flushes s.b.id

-- A successful cycle leaves every tag published, unless it suppresses a lost update.
theorem cycle_published (cfg : Config) (plan : Plan) {actions : List Action}
    (hrun : Run.run (step cfg) (start plan) actions = some c) (hconnected : c.connected = true)
    (hreads : ∀ p ∈ polled c reads, ∃ raw, p.2 = .answered raw)
    (hflush : Flush.Succeeded ⟨(cycleOf cfg c now reads).ops, outcome⟩)
    (hlost : ¬SuppressesLost cfg c now reads) :
    ∀ p ∈ polled c reads, ∀ raw, p.2 = .answered raw → ∀ s ∈ p.1.slices,
      Published cfg.round (pollCycle cfg c now reads outcome).flushes s raw := by
  intro p hp raw hraw s hs
  have hinv := inv_run hrun
  obtain ⟨hended, hlink⟩ := pollBlocks_answered cfg.round (millis now) cfg.protocolConnectionNumber
    (isGiDue cfg c now) 0 hreads
  have hgoes : (cycleOf cfg c now reads).GoesOn := ⟨hended, fun _ => hlink⟩
  have hraw' : p.2.raw = some raw := by rw [hraw, Read.raw]
  apply published_after_cycle hinv hconnected hgoes hp hraw' hs
  intro hafter
  rw [pollCycle_flushes hinv hgoes] at hafter
  by_cases hmem : ∃ op ∈ (cycleOf cfg c now reads).ops, op.id = s.b.id
  · obtain ⟨op, hop, hid⟩ := hmem
    have happlied : outcome = .applied := hflush.resolve_left (List.ne_nil_of_mem hop)
    rw [← hid, lost_concat_of_mem hop, happlied] at hafter
    cases hafter
  · have hnone : ∀ op ∈ (cycleOf cfg c now reads).ops, op.id ≠ s.b.id :=
      fun op hop hid => hmem ⟨op, hop, hid⟩
    rw [lost_concat_of_none hnone] at hafter
    have hsuppressed : publishes (isGiDue cfg c now) p.1 p.2.raw = false := by
      by_contra hpublishes
      rw [Bool.not_eq_false] at hpublishes
      apply hmem
      unfold cycleOf
      rw [(pollBlocks_goesOn _ _ _ _ (hinv.polled_consistent reads) hgoes).2.1]
      refine ⟨_, List.mem_flatMap.mpr ⟨p, hp, ?_⟩, updateOf_id cfg.round (millis now)
        cfg.protocolConnectionNumber (isGiDue cfg c now) p.2.raw s⟩
      rw [queuedFor, if_pos hpublishes]
      exact List.mem_map_of_mem hs
    rw [hraw'] at hsuppressed
    simp only [publishes, ne_eq, decide_not, Bool.or_eq_false_iff, Bool.not_eq_false',
      decide_eq_true_eq] at hsuppressed
    exact hlost ⟨hsuppressed.2, p, hp, raw, hraw, hsuppressed.1, s, hs, hafter⟩

end Successful

section Example

def exampleConfig : Config where
  round := .fin
  protocolConnectionNumber := .fin 1
  giInterval := 3600000000000

def coilSlice : Slice where
  b :=
    { id := .number (.fin 7), tag := "COIL", area := .coil, bit := none
      asdu := { type := .bool, byteOrder := "", perm := newPerm 1 [0] }
      kconv1 := .fin 1, kconv2 := .fin 0 }
  relStart := 0

def coilPlan : Plan := { blocks := [[coilSlice]], nodup := by simp }

-- Every block is read with these bytes.
def reading (raw : Bytes) : Nat → Read := fun _ => .answered raw

theorem cycle_published_coil :
    Published .fin (pollCycle exampleConfig { start coilPlan with connected := true } 0
      (reading [1]) .applied).flushes coilSlice [1] := by
  have hrun : Run.run (step exampleConfig) (start coilPlan) [.connect] =
      some { start coilPlan with connected := true } := rfl
  refine cycle_published exampleConfig coilPlan hrun rfl ?_ (.inr rfl) ?_
    ({ slices := [coilSlice] }, .answered [1]) (List.mem_singleton.mpr rfl) [1] rfl coilSlice
    (List.mem_singleton.mpr rfl)
  · intro p hp
    obtain rfl := List.mem_singleton.mp hp
    exact ⟨[1], rfl⟩
  · rintro ⟨hgi, -⟩
    cases hgi

-- Every successful cycle leaves every tag published.
def PublishesWhatItReads (cfg : Config) (plan : Plan) : Prop :=
  ∀ actions c now reads outcome, Run.run (step cfg) (start plan) actions = some c →
    c.connected = true → (∀ p ∈ polled c reads, ∃ raw, p.2 = .answered raw) →
    Flush.Succeeded ⟨(cycleOf cfg c now reads).ops, outcome⟩ →
    ∀ p ∈ polled c reads, ∀ raw, p.2 = .answered raw → ∀ s ∈ p.1.slices,
      Published cfg.round (pollCycle cfg c now reads outcome).flushes s raw

-- A coil is set while a flush fails, and stays set.
def lostChange : List Action :=
  [.connect, .cycle 0 (reading [0]) .applied, .cycle 1 (reading [1]) (.failed fun _ => false)]

theorem change_lost : ¬PublishesWhatItReads exampleConfig coilPlan := by
  intro h
  have hpublished := h lostChange _ 2 (reading [1]) .applied rfl rfl
    (fun p hp => ⟨[1], by obtain rfl := List.mem_singleton.mp hp; rfl⟩) (.inl rfl) _
    (List.mem_singleton.mpr rfl) [1] rfl coilSlice (List.mem_singleton.mpr rfl)
  obtain ⟨v, hv, htrue⟩ : ∃ v, decodedValue .fin coilSlice [1] = some v ∧ v.text = "true" :=
    ⟨_, rfl, rfl⟩
  obtain ⟨w, hw, hfalse⟩ : ∃ w, decodedValue .fin coilSlice [0] = some w ∧ w.text = "false" :=
    ⟨_, rfl, rfl⟩
  have hlast := hpublished.value v hv _ (LastWrite.executes_self _)
  have hwritten : LastWrite.after (ofTag RtOp.value coilSlice.b.id) none
      [updateOf .fin 0 (.fin 1) true (some [0]) coilSlice] = some w := by
    simp [LastWrite.after, ofTag, updateOf_id, value_updateOf, hw]
  obtain rfl : v = w := Option.some.inj (hlast.symm.trans hwritten)
  rw [htrue] at hfalse
  exact absurd hfalse (by decide)

end Example

end Poll

end JsonScada.Modbus
