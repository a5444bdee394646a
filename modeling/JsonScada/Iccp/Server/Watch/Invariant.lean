import JsonScada.Iccp.Server.Watch.Timely

namespace JsonScada.Iccp.Server

open JsonScada.Library

section Invariant

variable {s : State}

structure Inv (s : State) : Prop where
  -- what is under way brings every point to the value of its document
  current : AllServed s fun g gen => ∀ doc ∈ s.realtimeData.tags, ∀ ip,
    gen.ipByTag doc.tag = some ip →
      eventual s.realtimeData.tags (underWay s) g gen doc.tag =
        some (convertToICCPValue doc ip.iccpType)
  agree : Agree (s.flushing.map Prod.snd)
  clients : ∀ g gen, s.generations[g]? = some gen → gen.registry ≠ [] → ∃ l ∈ s.listeners, l.1 = g
  models : ∀ u ∈ underWay s, u.model < s.generations.length
  servers : ∀ gen ∈ s.generations, ∀ cs ∈ gen.stream, ∀ b ∈ cs.buffering, b.1 ≠ []

theorem inv_start (c : Collection) : Inv (start c) where
  current := by simp [AllServed, start]
  agree := by simp [Agree, start]
  clients := by simp [start]
  models := by simp [underWay, start]
  servers := by simp [start]

-- When nothing is under way the points have the values of their documents.
theorem Inv.serves (h : Inv s) (hquiet : Quiet s) : Serves s := by
  obtain ⟨hflushing, hpending, hstreams⟩ := hquiet
  intro g server tag ip hread doc hdoc htag
  subst htag
  obtain ⟨gen, hgen, hip⟩ := Option.bind_eq_some_iff.mp hread
  split_ifs at hip with hserver
  have hregistry : gen.registry ≠ [] := by
    intro hnil
    rw [hnil] at hserver
    cases hserver
  obtain ⟨l, hl, rfl⟩ := h.clients g gen hgen hregistry
  have hcurrent := h.current l hl gen hgen doc hdoc ip hip
  have hus : underWay s = [] := by
    rw [underWay, List.isEmpty_iff.mp hflushing, List.isEmpty_iff.mp hpending]
    rfl
  rw [eventual_quiet hus (hstreams gen (List.mem_of_getElem? hgen)), hip] at hcurrent
  exact Option.some.inj hcurrent

end Invariant

section Steps

variable {s s' : State} {g : ℕ} {gen gen' : Generation} {pl : Platform}

theorem getElem?_setGeneration (hgen : s.generations[g]? = some gen) (gen' : Generation) (g₁ : ℕ) :
    (s.setGeneration g gen').generations[g₁]? = if g = g₁ then some gen' else s.generations[g₁]? := by
  rw [State.setGeneration, List.getElem?_set]
  simp [(List.getElem?_eq_some_iff.mp hgen).1]

-- A step of one generation that leaves what its points will show.
theorem Inv.setGeneration (h : Inv s) (hgen : s.generations[g]? = some gen)
    (hip : gen'.ipByTag = gen.ipByTag)
    (hregistry : gen'.registry ≠ [] → ∃ l ∈ s.listeners, l.1 = g)
    (hservers : ∀ cs ∈ gen'.stream, ∀ b ∈ cs.buffering, b.1 ≠ [])
    (hsame : (∃ l ∈ s.listeners, l.1 = g) → ∀ tag,
      eventual s.realtimeData.tags (underWay s) g gen' tag =
        eventual s.realtimeData.tags (underWay s) g gen tag) :
    Inv (s.setGeneration g gen') := by
  refine ⟨?_, h.agree, ?_, ?_, ?_⟩
  · intro l hl gen₁ hgen₁ doc hdoc ip hip₁
    rw [getElem?_setGeneration hgen] at hgen₁
    split_ifs at hgen₁ with hg
    · obtain rfl := Option.some.inj hgen₁
      subst hg
      exact (hsame ⟨l, hl, rfl⟩ doc.tag).trans
        (h.current l hl gen hgen doc hdoc ip (hip ▸ hip₁))
    · exact h.current l hl gen₁ hgen₁ doc hdoc ip hip₁
  · intro g₁ gen₁ hgen₁ hne
    rw [getElem?_setGeneration hgen] at hgen₁
    split_ifs at hgen₁ with hg
    · obtain rfl := Option.some.inj hgen₁
      exact hg ▸ hregistry hne
    · exact h.clients g₁ gen₁ hgen₁ hne
  · intro u hu
    rw [State.setGeneration, List.length_set]
    exact h.models u hu
  · intro gen₁ hgen₁
    rcases List.mem_or_eq_of_mem_set hgen₁ with hmem | rfl
    · exact h.servers gen₁ hmem
    · exact hservers

-- A step of one watcher that leaves what its stream brings.
theorem Inv.setStream (h : Inv s) (hgen : s.generations[g]? = some gen) {stream : Option ChangeStream}
    (hservers : ∀ cs ∈ stream, ∀ b ∈ cs.buffering, b.1 ≠ [])
    (hsame : (∃ l ∈ s.listeners, l.1 = g) → ∀ tag,
      delivered s.realtimeData.tags gen.ipByTag tag (stream.getD ⟨[], [], none⟩)
          (flushed (underWay s) g gen.ipByTag tag) =
        delivered s.realtimeData.tags gen.ipByTag tag (gen.stream.getD ⟨[], [], none⟩)
          (flushed (underWay s) g gen.ipByTag tag)) :
    Inv (s.setStream g gen stream) :=
  h.setGeneration hgen rfl (h.clients g gen hgen) hservers hsame

theorem Inv.watch (h : Inv s) (hstep : step pl s (.watch g) = some s') : Inv s' := by
  obtain ⟨gen, hgen, hstep⟩ := Option.bind_eq_some_iff.mp hstep
  split_ifs at hstep with hopen
  obtain rfl := Option.some.inj hstep
  simp only [Bool.and_eq_true, Option.isNone_iff_eq_none] at hopen
  refine h.setStream hgen ?_ fun _ tag => by rw [hopen.2]; rfl
  intro cs hcs b hb
  obtain rfl := Option.some.inj hcs
  cases hb

theorem Inv.receive (h : Inv s) (hstep : step pl s (.receive g) = some s') : Inv s' := by
  obtain ⟨gen, hgen, hstep⟩ := Option.bind_eq_some_iff.mp hstep
  obtain ⟨cs, hcs, hstep⟩ := Option.bind_eq_some_iff.mp hstep
  split at hstep
  · cases hstep
  · next e es hevents =>
      split_ifs at hstep
      obtain rfl := Option.some.inj hstep
      refine h.setStream hgen ?_ ?_
      · intro cs' hcs'
        obtain rfl := Option.some.inj hcs'
        exact h.servers gen (List.mem_of_getElem? hgen) cs hcs
      · intro _ tag
        simp only [delivered, hcs, hevents, Option.getD_some, LastWrite.after_append]
        cases he : fullDocument s.realtimeData.tags e with
        | none => simp [LastWrite.after, he]
        | some doc => simp [LastWrite.after, he]

-- What is lost with the stream would have left the values as they are.
theorem Inv.fail (h : Inv s) (hok : Timely s (.fail g)) (hstep : step pl s (.fail g) = some s') :
    Inv s' := by
  obtain ⟨gen, hgen, hstep⟩ := Option.bind_eq_some_iff.mp hstep
  obtain ⟨cs, hcs, hstep⟩ := Option.bind_eq_some_iff.mp hstep
  split_ifs at hstep with hread
  obtain rfl := Option.some.inj hstep
  simp only [Bool.and_eq_true, List.isEmpty_iff, Option.isNone_iff_eq_none] at hread
  refine h.setStream hgen (fun cs hcs => by cases hcs) ?_
  rintro ⟨l, hl, rfl⟩ tag
  have hspared := hok l hl gen hgen rfl cs hcs
  have hbrings (e) (he : e ∈ cs.events) (v : ICCPValue)
      (hv : (fullDocument s.realtimeData.tags e).bind (tells gen.ipByTag tag) = some v) :
      flushed (underWay s) l.1 gen.ipByTag tag = some v := by
    obtain ⟨doc, hdoc, hv⟩ := Option.bind_eq_some_iff.mp hv
    obtain ⟨rfl, ip, hip, rfl⟩ := tells_eq_some hv
    exact hspared e he doc hdoc ip hip
  simp only [delivered, hcs, hread, Option.getD_none, Option.getD_some]
  exact (LastWrite.after_self hbrings).symm

-- An event that is handled, that is followed by another one of its tag, or that tells nothing new.
theorem Inv.next (h : Inv s) (hok : Timely s (.next g)) (hstep : step pl s (.next g) = some s') :
    Inv s' := by
  obtain ⟨gen, hgen, hstep⟩ := Option.bind_eq_some_iff.mp hstep
  obtain ⟨cs, hcs, hstep⟩ := Option.bind_eq_some_iff.mp hstep
  split at hstep
  · next doc docs hbatch hbuffering =>
      obtain rfl := Option.some.inj hstep
      refine h.setStream hgen ?_ ?_
      · intro cs' hcs' b hb
        obtain rfl := Option.some.inj hcs'
        exact (handle_eq_some hb).1
      · rintro ⟨l, hl, rfl⟩ tag
        have hhandled := hok l hl gen hgen rfl cs hcs doc (by rw [hbatch]; rfl)
        simp only [delivered, hcs, hbatch, hbuffering, Option.getD_some, Option.toList_none]
        cases hhandle : gen.handle doc with
        | some b =>
            have hb : LastWrite.after (brings tag) (flushed (underWay s) l.1 gen.ipByTag tag) [b] =
                LastWrite.after (tells gen.ipByTag tag)
                  (flushed (underWay s) l.1 gen.ipByTag tag) [doc] := by
              show (brings tag b).or _ = (tells gen.ipByTag tag doc).or _
              rw [brings_handle hhandle]
            rw [Option.toList_some, hb]
            rfl
        | none => exact delivered_skip hbatch hhandle hhandled tag
  · cases hstep

theorem Inv.associate (h : Inv s) {i : ℕ} (hstep : step pl s (.associate i) = some s') : Inv s' := by
  obtain ⟨⟨g, conn⟩, hl, hstep⟩ := Option.bind_eq_some_iff.mp hstep
  obtain ⟨gen, hgen, hstep⟩ := Option.bind_eq_some_iff.mp hstep
  obtain rfl := Option.some.inj hstep
  have hinv : Inv (s.setGeneration g
      { gen with registry := gen.registry ++ [(s.nextServer, conn.toConnection)] }) :=
    h.setGeneration hgen rfl (fun _ => ⟨_, List.mem_of_getElem? hl, rfl⟩)
      (h.servers gen (List.mem_of_getElem? hgen)) fun _ _ => rfl
  exact ⟨hinv.current, hinv.agree, hinv.clients, hinv.models, hinv.servers⟩

theorem Inv.release (h : Inv s) {server : ℕ} (hstep : step pl s (.release g server) = some s') :
    Inv s' := by
  obtain ⟨gen, hgen, hstep⟩ := Option.bind_eq_some_iff.mp hstep
  obtain rfl := Option.some.inj hstep
  refine h.setGeneration hgen rfl ?_ (h.servers gen (List.mem_of_getElem? hgen)) fun _ _ => rfl
  intro hne
  apply h.clients g gen hgen
  intro hnil
  exact hne (by rw [hnil]; rfl)

theorem Inv.disconnect (h : Inv s) (hstep : step pl s .disconnect = some s') : Inv s' := by
  obtain rfl := Option.some.inj hstep
  refine ⟨?_, h.agree, ?_, ?_, ?_⟩
  · intro l hl gen hgen
    rw [Option.mem_def, List.getElem?_map] at hgen
    obtain ⟨gen₀, hgen₀, rfl⟩ := Option.map_eq_some_iff.mp hgen
    exact h.current l hl gen₀ hgen₀
  · intro g gen hgen
    rw [List.getElem?_map] at hgen
    obtain ⟨gen₀, hgen₀, rfl⟩ := Option.map_eq_some_iff.mp hgen
    exact h.clients g gen₀ hgen₀
  · intro u hu
    rw [List.length_map]
    exact h.models u hu
  · intro gen hgen
    obtain ⟨gen₀, hgen₀, rfl⟩ := List.mem_map.mp hgen
    exact h.servers gen₀ hgen₀

theorem Inv.connect (h : Inv s) {conns : List ServerConnection}
    (hstep : step pl s (.connect conns) = some s') : Inv s' := by
  simp only [step] at hstep
  split_ifs at hstep
  obtain rfl := Option.some.inj hstep
  have hold {g : ℕ} {gen : Generation} (hgen : (s.generations ++
      [build pl (conns.map ServerConnection.toConnection) s.realtimeData])[g]? = some gen) :
      s.generations[g]? = some gen ∨ g = s.generations.length ∧
        gen = build pl (conns.map ServerConnection.toConnection) s.realtimeData := by
    rcases Nat.lt_trichotomy g s.generations.length with hlt | rfl | hgt
    · rw [List.getElem?_append_left hlt] at hgen
      exact .inl hgen
    · rw [List.getElem?_concat_length] at hgen
      exact .inr ⟨rfl, (Option.some.inj hgen).symm⟩
    · rw [List.getElem?_eq_none (by simp; omega)] at hgen
      cases hgen
  refine ⟨?_, h.agree, ?_, ?_, ?_⟩
  · intro l hl gen hgen doc hdoc ip hip
    rcases hold hgen with hgen | ⟨hg, rfl⟩
    · rcases mem_listen hl with hl | hg
      · exact h.current l hl gen hgen doc hdoc ip hip
      · rw [hg, List.getElem?_eq_none (Nat.le_refl _)] at hgen
        cases hgen
    · -- nothing is under way to the new model
      have hnone : ∀ u ∈ underWay s, sets l.1 doc.tag u = none := by
        intro u hu
        apply if_neg
        rintro ⟨hmodel, -⟩
        exact absurd (h.models u hu) (by omega)
      show flushed (underWay s) _ _ _ = _
      rw [flushed, hip, Option.map_some, build_value hdoc hip]
      exact LastWrite.after_of_none hnone
  · intro g gen hgen hne
    rcases hold hgen with hgen | ⟨-, rfl⟩
    · obtain ⟨l, hl, hg⟩ := h.clients g gen hgen hne
      exact ⟨l, subset_listen _ _ hl, hg⟩
    · exact absurd rfl hne
  · intro u hu
    have := h.models u hu
    simp
    omega
  · intro gen hgen
    rcases List.mem_append.mp hgen with hgen | hgen
    · exact h.servers gen hgen
    · rw [List.mem_singleton.mp hgen]
      intro cs hcs
      cases hcs

theorem Inv.drain (h : Inv s) (hok : Timely s (.drain g)) (hstep : step pl s (.drain g) = some s') :
    Inv s' := by
  simp only [step] at hstep
  split_ifs at hstep
  obtain rfl := Option.some.inj hstep
  have htaken : (s.flushing ++ s.pendingChanges.map fun u => (g, u)).map Prod.snd = underWay s := by
    rw [List.map_append, List.map_map, underWay]
    congr 1
    exact List.map_id _
  have hsame : underWay { s with
      flushing := s.flushing ++ s.pendingChanges.map fun u => (g, u), pendingChanges := [] } =
      underWay s := by
    rw [underWay, htaken, List.append_nil]
  refine ⟨?_, ?_, h.clients, ?_, h.servers⟩
  · intro l hl gen hgen doc hdoc ip hip
    rw [hsame]
    exact h.current l hl gen hgen doc hdoc ip hip
  · show Agree ((s.flushing ++ s.pendingChanges.map fun u => (g, u)).map Prod.snd)
    rw [htaken]
    exact hok
  · rw [hsame]
    exact h.models

theorem Inv.buffer (h : Inv s) (hstep : step pl s (.buffer g) = some s') : Inv s' := by
  obtain ⟨gen, hgen, hstep⟩ := Option.bind_eq_some_iff.mp hstep
  obtain ⟨cs, hcs, hstep⟩ := Option.bind_eq_some_iff.mp hstep
  obtain ⟨⟨servers, tag, value⟩, hbuffering, hstep⟩ := Option.bind_eq_some_iff.mp hstep
  obtain rfl := Option.some.inj hstep
  have hlt : g < s.generations.length := (List.getElem?_eq_some_iff.mp hgen).1
  have hservers : servers ≠ [] := h.servers gen (List.mem_of_getElem? hgen) cs hcs _ hbuffering
  have hflushed (g' : ℕ) (points : String → Option IndicationPoint) (t : String) :
      flushed (s.flushing.map Prod.snd ++ bufferUpdate g servers tag value s.pendingChanges)
          g' points t =
        if g' = g ∧ t = tag then some value else flushed (underWay s) g' points t := by
    rw [flushed, LastWrite.after_append, after_bufferUpdate hservers, flushed, underWay,
      LastWrite.after_append]
  have hget {g₁ : ℕ} {gen₁ : Generation}
      (hgen₁ : (s.setStream g gen (some ⟨cs.events, cs.batch, none⟩)).generations[g₁]? = some gen₁) :
      g₁ = g ∧ gen₁ = { gen with stream := some ⟨cs.events, cs.batch, none⟩ } ∨
        g₁ ≠ g ∧ s.generations[g₁]? = some gen₁ := by
    rw [State.setStream, getElem?_setGeneration hgen] at hgen₁
    split_ifs at hgen₁ with hg
    · exact .inl ⟨hg.symm, (Option.some.inj hgen₁).symm⟩
    · exact .inr ⟨Ne.symm hg, hgen₁⟩
  refine ⟨?_, h.agree, ?_, ?_, ?_⟩
  · intro l hl gen₁ hgen₁ doc hdoc ip hip
    rcases hget hgen₁ with ⟨rfl, rfl⟩ | ⟨hg, hgen₁⟩
    · have hcurrent := h.current l hl gen hgen doc hdoc ip hip
      rw [eventual, hcs, Option.getD_some, delivered_buffering hbuffering] at hcurrent
      rw [← hcurrent]
      show delivered _ _ _ _ (flushed (s.flushing.map Prod.snd ++ _) _ _ _) = _
      simp only [hflushed, true_and]
      rfl
    · rw [← h.current l hl gen₁ hgen₁ doc hdoc ip hip]
      show delivered _ _ _ _ (flushed (s.flushing.map Prod.snd ++ _) _ _ _) = _
      rw [hflushed, if_neg fun hkey => hg hkey.1]
      rfl
  · intro g₁ gen₁ hgen₁ hne
    rcases hget hgen₁ with ⟨rfl, rfl⟩ | ⟨-, hgen₁⟩
    · exact h.clients _ gen hgen hne
    · exact h.clients g₁ gen₁ hgen₁ hne
  · intro u hu
    show u.model < (s.generations.set _ _).length
    rw [List.length_set]
    rcases List.mem_append.mp hu with hu | hu
    · exact h.models u (List.mem_append_left _ hu)
    · rcases List.mem_append.mp hu with hu | hu
      · exact h.models u (List.mem_append_right _ (List.mem_of_mem_filter hu))
      · obtain ⟨server, -, rfl⟩ := List.mem_map.mp hu
        exact hlt
  · intro gen₁ hgen₁ cs₁ hcs₁
    rcases List.mem_or_eq_of_mem_set hgen₁ with hgen₁ | rfl
    · exact h.servers gen₁ hgen₁ cs₁ hcs₁
    · obtain rfl := Option.some.inj hcs₁
      intro b hb
      cases hb

-- A value is put into the model, where the others that have been taken for the point agree with it.
theorem Inv.updateOnlineValue (h : Inv s) {i : ℕ}
    (hstep : step pl s (.updateOnlineValue i) = some s') : Inv s' := by
  obtain ⟨⟨k, u⟩, hu, hstep⟩ := Option.bind_eq_some_iff.mp hstep
  obtain rfl := Option.some.inj hstep
  obtain ⟨hlt, hu⟩ := List.getElem?_eq_some_iff.mp hu
  have hsplit : s.flushing = s.flushing.take i ++ (k, u) :: s.flushing.drop (i + 1) := by
    rw [← hu, ← List.drop_eq_getElem_cons hlt, List.take_append_drop]
  obtain ⟨pre, hpre⟩ : ∃ pre, (s.flushing.take i).map Prod.snd = pre := ⟨_, rfl⟩
  obtain ⟨post, hpost⟩ : ∃ post, (s.flushing.drop (i + 1)).map Prod.snd = post := ⟨_, rfl⟩
  have hbefore : s.flushing.map Prod.snd = pre ++ u :: post := by
    rw [hsplit, List.map_append, List.map_cons, hpre, hpost]
  have hafter : (s.flushing.eraseIdx i).map Prod.snd = pre ++ post := by
    rw [List.eraseIdx_eq_take_drop_succ, List.map_append, hpre, hpost]
  have hagree : Agree (pre ++ u :: post) := hbefore ▸ h.agree
  have hsub (u') (hu' : u' ∈ pre ++ post) : u' ∈ pre ++ u :: post :=
    List.mem_append.mpr ((List.mem_append.mp hu').imp_right (List.mem_cons_of_mem u))
  have hget {g : ℕ} {gen₁ : Generation}
      (hgen₁ : (s.generations.modify u.model fun gen => gen.updateValue u.tag u.value)[g]? =
        some gen₁) :
      ∃ gen, s.generations[g]? = some gen ∧
        gen₁ = if u.model = g then gen.updateValue u.tag u.value else gen := by
    rw [List.getElem?_modify] at hgen₁
    obtain ⟨gen, hgen, rfl⟩ := Option.map_eq_some_iff.mp hgen₁
    exact ⟨gen, hgen, by split_ifs <;> rfl⟩
  refine ⟨?_, ?_, ?_, ?_, ?_⟩
  · intro l hl gen₁ hgen₁ doc hdoc ip hip
    obtain ⟨gen, hgen, rfl⟩ := hget hgen₁
    show delivered _ _ _ _ (flushed ((s.flushing.eraseIdx i).map Prod.snd ++ _) _ _ _) = _
    rw [hafter, flushed_append]
    by_cases hmodel : u.model = l.1
    · rw [if_pos hmodel] at hip ⊢
      obtain ⟨ip₀, hip₀, htype⟩ : ∃ ip₀, gen.ipByTag doc.tag = some ip₀ ∧
          ip₀.iccpType = ip.iccpType := by
        rw [updateValue_ipByTag] at hip
        split_ifs at hip
        · obtain ⟨ip₀, hip₀, rfl⟩ := Option.map_eq_some_iff.mp hip
          exact ⟨ip₀, hip₀, rfl⟩
        · exact ⟨ip, hip, rfl⟩
      have hcurrent := h.current l hl gen hgen doc hdoc ip₀ hip₀
      rw [eventual, underWay, hbefore, flushed_append, ← hmodel,
        ← flushed_updateValue hagree (by rw [hip₀]; rfl), delivered, ← tells_updateValue, htype]
        at hcurrent
      rw [← hmodel, delivered]
      exact hcurrent
    · rw [if_neg hmodel] at hip ⊢
      have hcurrent := h.current l hl gen hgen doc hdoc ip hip
      rw [eventual, underWay, hbefore, flushed_append, ← flushed_skip] at hcurrent
      · exact hcurrent
      · exact if_neg fun hkey => hmodel hkey.1
  · show Agree ((s.flushing.eraseIdx i).map Prod.snd)
    rw [hafter]
    exact fun u₁ hu₁ u₂ hu₂ => hagree u₁ (hsub u₁ hu₁) u₂ (hsub u₂ hu₂)
  · intro g gen₁ hgen₁ hne
    obtain ⟨gen, hgen, rfl⟩ := hget hgen₁
    apply h.clients g gen hgen
    split_ifs at hne <;> exact hne
  · intro u' hu'
    rw [List.length_modify]
    apply h.models u'
    rw [underWay, hafter] at hu'
    rw [underWay, hbefore]
    exact List.mem_append.mpr ((List.mem_append.mp hu').imp_left (hsub u'))
  · intro gen₁ hgen₁
    obtain ⟨g, hg, rfl⟩ := List.mem_iff_getElem.mp hgen₁
    obtain ⟨gen, hgen, hgen₁⟩ := hget (List.getElem?_eq_getElem hg)
    rw [hgen₁]
    split_ifs <;> exact h.servers gen (List.mem_of_getElem? hgen)

end Steps

section Changes

variable {s s' : State} {pl : Platform} {doc : RtData} {id : Double}

theorem Inv.delete (h : Inv s) (hstep : step pl s (.delete id) = some s') : Inv s' := by
  obtain rfl := Option.some.inj hstep
  refine ⟨?_, h.agree, h.clients, h.models, h.servers⟩
  intro l hl gen hgen d hd ip hip
  obtain ⟨hmem, hid⟩ := mem_deleteDoc.mp hd
  rw [← h.current l hl gen hgen d hmem ip hip]
  apply eventual_docs
  intro id' d' htag
  show findDoc (deleteDoc s.realtimeData.tags id) id' = some d' ↔ _
  rw [findDoc_deleteDoc]
  split_ifs with heq
  · subst heq
    exact iff_of_false (fun hfound => by cases hfound) (findDoc_other s.realtimeData hmem hid htag)
  · rfl

theorem Inv.put (h : Inv s) {replaced : Bool} (hok : Timely s (.put doc replaced))
    (hstep : step pl s (.put doc replaced) = some s') : Inv s' := by
  by_cases haccepts : Accepts s.realtimeData.tags doc
  swap
  · rw [step, dif_neg haccepts] at hstep
    cases hstep
  rw [step, dif_pos haccepts] at hstep
  obtain rfl := Option.some.inj hstep
  obtain ⟨e, he⟩ : ∃ e : ChangeEvent, (if replaced then .replace doc else .update doc.id) = e :=
    ⟨_, rfl⟩
  obtain ⟨found, hfound⟩ : ∃ found, (findDoc s.realtimeData.tags doc.id).isSome = found := ⟨_, rfl⟩
  have hevent : fullDocument (putDoc s.realtimeData.tags doc) e = some doc := by
    subst he
    cases replaced with
    | true => rfl
    | false => exact (findDoc_putDoc ..).trans (if_pos rfl)
  simp only [he, hfound]
  have hget {g : ℕ} {gen₁ : Generation}
      (hgen₁ : (if found then s.generations.map fun gen => gen.notify e else s.generations)[g]? =
        some gen₁) :
      ∃ gen, s.generations[g]? = some gen ∧ gen₁ = if found then gen.notify e else gen := by
    cases found with
    | true =>
        rw [if_pos rfl, List.getElem?_map] at hgen₁
        obtain ⟨gen, hgen, rfl⟩ := Option.map_eq_some_iff.mp hgen₁
        exact ⟨gen, hgen, rfl⟩
    | false => exact ⟨gen₁, hgen₁, rfl⟩
  refine ⟨?_, h.agree, ?_, ?_, ?_⟩
  · intro l hl gen₁ hgen₁ d hd ip hip
    obtain ⟨gen, hgen, rfl⟩ := hget hgen₁
    rw [ite_notify] at hip
    show eventual (putDoc s.realtimeData.tags doc) (underWay s) l.1 _ _ = _
    rw [eventual_ite_notify, hevent, Option.bind_some]
    rcases List.mem_append.mp hd with hd | hd
    · -- another document, of another tag
      obtain ⟨hmem, hid⟩ := mem_deleteDoc.mp hd
      have htag : doc.tag ≠ d.tag := (haccepts d hmem hid).symm
      have hsame : eventual (putDoc s.realtimeData.tags doc) (underWay s) l.1 gen d.tag =
          eventual s.realtimeData.tags (underWay s) l.1 gen d.tag := by
        apply eventual_docs
        intro id d' hd'
        rw [findDoc_putDoc]
        split_ifs with hdoc
        · subst hdoc
          refine iff_of_false ?_ (findDoc_other s.realtimeData hmem hid hd')
          intro heq
          exact htag (Option.some.inj heq ▸ hd')
        · rfl
      have htells : tells gen.ipByTag d.tag doc = none := if_neg htag
      rw [htells, Option.none_or, ite_self, hsame]
      exact h.current l hl gen hgen d hmem ip hip
    · obtain rfl := List.mem_singleton.mp hd
      have htells : tells gen.ipByTag d.tag d = some (convertToICCPValue d ip.iccpType) := by
        rw [tells, if_pos rfl, hip]
        rfl
      rw [htells, Option.some_or]
      rcases hok l hl gen hgen ip hip with ⟨hfind, hstream⟩ | hsame
      · rw [if_pos ⟨hfound.symm.trans hfind, hstream⟩]
      · rw [hsame, ite_self]
  · intro g gen₁ hgen₁ hne
    obtain ⟨gen, hgen, rfl⟩ := hget hgen₁
    apply h.clients g gen hgen
    cases found <;> exact hne
  · intro u hu
    have := h.models u hu
    cases found
    · exact this
    · exact this.trans_eq (List.length_map _).symm
  · intro gen₁ hgen₁ cs₁ hcs₁
    obtain ⟨g, hg, rfl⟩ := List.mem_iff_getElem.mp hgen₁
    obtain ⟨gen, hgen, hgen₁⟩ := hget (List.getElem?_eq_getElem hg)
    have hservers := h.servers gen (List.mem_of_getElem? hgen)
    rw [hgen₁] at hcs₁
    cases found with
    | true =>
        obtain ⟨cs, hcs, rfl⟩ := Option.map_eq_some_iff.mp hcs₁
        exact hservers cs hcs
    | false => exact hservers cs₁ hcs₁

end Changes

section Runs

theorem Inv.step {pl : Platform} {s s' : State} {a : Action} (h : Inv s) (hok : Timely s a)
    (hstep : step pl s a = some s') : Inv s' := by
  cases a with
  | put doc replaced => exact h.put hok hstep
  | delete id => exact h.delete hstep
  | connect conns => exact h.connect hstep
  | disconnect => exact h.disconnect hstep
  | watch g => exact h.watch hstep
  | receive g => exact h.receive hstep
  | fail g => exact h.fail hok hstep
  | next g => exact h.next hok hstep
  | buffer g => exact h.buffer hstep
  | drain g => exact h.drain hok hstep
  | updateOnlineValue i => exact h.updateOnlineValue hstep
  | associate l => exact h.associate hstep
  | release g server => exact h.release hstep

-- A run whose steps lose nothing serves the database whenever no change is pending.
theorem timely_serves {pl : Platform} {c : Collection} {as : List Action} {s : State}
    (hok : Run.Allowed (Server.step pl) Timely (start c) as)
    (hrun : Run.run (Server.step pl) (start c) as = some s) (hquiet : Quiet s) : Serves s :=
  (Run.invariant (fun _ _ _ h hok hstep => Inv.step h hok hstep) (inv_start c) hok hrun).serves hquiet

end Runs

section Samples

-- A digital point that is set, and one that is not.
def supervisedBreaker (value : ℚ) : RtData :=
  { breaker 1 "XCBR1" with origin := "supervised", value := .fin value }

def station (value : ℚ) : Collection where
  tags := [supervisedBreaker value]
  nodup := List.nodup_singleton _

def peer : ServerConnection where
  name := "ControlCenter"
  protocolConnectionNumber := 1
  commandsEnabled := true
  topics := []
  port := some 102

-- A change while no client is there is not seen by the client that comes after it.
theorem unattended_stale : ∃ s, Run.run (step plain) (start (station 0))
    [.connect [peer], .watch 0, .put (supervisedBreaker 1) false, .receive 0, .next 0,
      .associate 0] = some s ∧ Quiet s ∧ ¬Serves s := by
  have hrun : (Run.run (step plain) (start (station 0))
      [.connect [peer], .watch 0, .put (supervisedBreaker 1) false, .receive 0, .next 0,
        .associate 0]).any (fun s => Quiet s ∧ (s.read 0 0 "XCBR1").any fun ip =>
          s.realtimeData.tags.any fun doc => doc.tag = "XCBR1" &&
            ip.value ≠ convertToICCPValue doc ip.iccpType) = true := by decide
  obtain ⟨s, hs, hmissed⟩ := (Option.any_eq_true _ _).mp hrun
  obtain ⟨hquiet, hread⟩ := of_decide_eq_true hmissed
  refine ⟨s, hs, hquiet, ?_⟩
  intro hserves
  obtain ⟨ip, hip, hdocs⟩ := (Option.any_eq_true _ _).mp hread
  obtain ⟨doc, hdoc, hne⟩ := List.any_eq_true.mp hdocs
  simp only [Bool.and_eq_true, decide_eq_true_eq] at hne
  exact hne.2 (hserves 0 0 _ ip hip doc hdoc hne.1)

-- A client that is there when the change comes, and one that comes later.
def attendedRun : List Action :=
  [.connect [peer], .watch 0, .associate 0, .put (supervisedBreaker 1) false, .receive 0, .next 0,
    .buffer 0, .drain 0, .updateOnlineValue 0, .associate 0]

theorem attended_serves : ∃ s, Run.run (step plain) (start (station 0)) attendedRun = some s ∧
    (s.read 0 1 "XCBR1").isSome ∧ Quiet s ∧ Serves s := by
  have hrun : (Run.run (step plain) (start (station 0)) attendedRun).any
      (fun s => (s.read 0 1 "XCBR1").isSome ∧ Quiet s) = true := by decide
  obtain ⟨s, hs, hread⟩ := (Option.any_eq_true _ _).mp hrun
  obtain ⟨hread, hquiet⟩ := of_decide_eq_true hread
  exact ⟨s, hs, hread, hquiet, timely_serves (by decide) hs hquiet⟩

end Samples

end JsonScada.Iccp.Server
