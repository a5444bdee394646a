import JsonScada.Iec61850.Client.Writer.Invariant

namespace JsonScada.Iec61850.Client.Writer

open JsonScada.Library
open JsonScada.Processor (Document)

variable {rt : Runtime}

-- After a run in which every new tag is stored and every value that is let go comes again,
-- the writer that has caught up has lost nothing.
theorem recovered_nothingLost {coll : List Document} {conns : ℤ → Option Connection}
    {as : List Action} {s : State} (hrun : Run.run (step rt) (start rt coll conns) as = some s)
    (hsep : Separate coll conns (received as) (controls as))
    (hrecovered : Recovered rt (start rt coll conns) as) (hidle : CaughtUp s) :
    NothingLost rt as s.coll := by
  have h := (inv_start hsep (received as)).run hsep (fun _ h => h) (fun _ h => h) hrun hrecovered
  obtain ⟨hphase, hqueue, hcommands⟩ := hidle
  have hphase : s.phase = .idle := by
    cases hp : s.phase <;> simp [hp, isIdle] at hphase ⊢
  have hvalues : s.values = [] := by
    rw [State.values, hphase, hqueue]
    rfl
  have hwaiting : s.waiting = [] := by
    rw [State.waiting, hphase, List.isEmpty_iff.mp hcommands]
    rfl
  constructor
  · intro o v hlast
    obtain ⟨pre, post, hreceived, hv, -⟩ := exists_of_getLast?_ofKey hlast
    have hin : v ∈ received as := by
      rw [hreceived]
      simp
    have hsame : ofKey addressOf (addressOf v) (received as) = ofKey objectOf o (received as) := by
      apply List.filter_congr
      intro w hw
      rw [decide_eq_decide, ← hv]
      constructor
      · exact fun haddress => Prod.ext haddress (hsep.unshared w hw v hin haddress)
      · exact fun hobject => congrArg Prod.fst hobject
    rcases h.keeps (addressOf v) v (by rw [List.nil_append, hsame, hlast]) with
      hv | ⟨-, hstored⟩ | ⟨w, hw, -⟩
    · rw [hvalues] at hv
      cases hv
    · obtain ⟨d, hd, hsource⟩ := Option.map_eq_some_iff.mp hstored
      obtain ⟨hmem, htag⟩ := tagAt_spec hd
      exact ⟨d, hmem, htag, h.constraints d hmem v hin htag, hsource⟩
    · cases hw
  · intro ct hct
    rcases h.linked ct (by rwa [List.nil_append]) with ⟨w, hw, -⟩ | hlinked
    · rw [hwaiting] at hw
      cases hw
    · exact hlinked

section Runs

def ascii : Runtime where
  unmarshal _ := none
  toUpper := Char.toUpper
  toUpper_ascii _ _ := rfl

-- The position of a breaker, as it is read and as it is commanded.
def breaker (value : ℤ) : IECValue where
  valueJSON := ""
  selfPublish := true
  address := "IED/XCBR1.Pos"
  asdu := "boolean"
  isDigital := true
  isTransient := false
  value := .fin value
  valueString := ""
  serverTimestamp := 0
  quality := true
  connNumber := 1
  connName := "IED"
  commonAddress := "ST"
  displayName := ""

def breakerControl : CommandTag where
  connNumber := 1
  connName := "IED"
  ref := "IED/XCBR1.Pos"
  isDigital := true
  useSBO := false
  asdu := "boolean"

def oneConnection (n : ℤ) : Option Connection :=
  if n = 1 then some { protocolConnectionNumber := 1, autoCreateTags := true } else none

theorem separate_breaker {values : List IECValue} {ctrls : List CommandTag}
    (hvalues : ∀ v ∈ values, ∃ x, v = breaker x) (hctrls : ∀ ct ∈ ctrls, ct = breakerControl) :
    Separate [] oneConnection values ctrls where
  ids := List.nodup_nil
  created := by
    intro n conn hconn
    unfold oneConnection at hconn
    split_ifs at hconn
    obtain rfl := Option.some.inj hconn
    rfl
  tags := fun d hd => absurd hd List.not_mem_nil
  objects := by
    intro v hv
    obtain ⟨x, rfl⟩ := hvalues v hv
    exact ⟨show trimSpace "IED/XCBR1.Pos" = "IED/XCBR1.Pos" by decide, .st, by decide, rfl⟩
  controllable := by
    intro ct hct
    obtain rfl := hctrls ct hct
    exact ⟨rfl, by decide⟩
  unshared := by
    intro v hv w hw _
    obtain ⟨x, rfl⟩ := hvalues v hv
    obtain ⟨y, rfl⟩ := hvalues w hw
    rfl
  unsharedTags := fun d hd => absurd hd List.not_mem_nil

-- The update of the first value comes before the insert, and a second value follows.
def reordered : List Action :=
  [.enqueueValue (breaker 0), .enqueueCommandTag breakerControl, .ping false, .trimQueue, .ping true,
    .dequeueValue true, .enqueueValue (breaker 1), .bulkWrite [1, 0] true,
    .createCommandTag { found := true, lookupOk := true, insert := .done, link := .done },
    .ping true, .dequeueValue true, .bulkWrite [0] true]

theorem reordered_nothingLost : ∃ s,
    Run.run (step ascii) (start ascii [] oneConnection) reordered = some s ∧ CaughtUp s ∧
      NothingLost ascii reordered s.coll := by
  have hrun : (Run.run (step ascii) (start ascii [] oneConnection) reordered).any
      (fun s => CaughtUp s) = true := by
    decide +kernel
  obtain ⟨s, hs, hidle⟩ := (Option.any_eq_true _ _).mp hrun
  have hidle := of_decide_eq_true hidle
  refine ⟨s, hs, hidle, recovered_nothingLost hs (separate_breaker ?_ ?_) (by decide +kernel) hidle⟩
  · intro v hv
    rcases List.mem_cons.mp hv with rfl | hv
    · exact ⟨0, rfl⟩
    · obtain rfl := List.mem_singleton.mp hv
      exact ⟨1, rfl⟩
  · exact fun ct hct => List.mem_singleton.mp hct

-- The bulk write fails with nothing written, and the point is taken to have a tag.
def failedOnce : List Action :=
  [.enqueueValue (breaker 1), .ping true, .dequeueValue true, .bulkWrite [] false, .trimQueue,
    .ping true, .bulkWrite [] true]

theorem failedOnce_lost : ∃ s,
    Run.run (step ascii) (start ascii [] oneConnection) failedOnce = some s ∧
      Separate [] oneConnection (received failedOnce) (controls failedOnce) ∧ CaughtUp s ∧
      ¬NothingLost ascii failedOnce s.coll := by
  have hrun : (Run.run (step ascii) (start ascii [] oneConnection) failedOnce).any
      (fun s => CaughtUp s ∧ s.coll = []) = true := by
    decide
  obtain ⟨s, hs, hend⟩ := (Option.any_eq_true _ _).mp hrun
  obtain ⟨hidle, hempty⟩ := of_decide_eq_true hend
  refine ⟨s, hs, separate_breaker ?_ ?_, hidle, ?_⟩
  · exact fun v hv => ⟨1, List.mem_singleton.mp hv⟩
  · exact fun ct hct => absurd hct List.not_mem_nil
  · intro hnothing
    obtain ⟨d, hd, -⟩ := hnothing.shown (objectOf (breaker 1)) (breaker 1) rfl
    rw [hempty] at hd
    cases hd

end Runs

end JsonScada.Iec61850.Client.Writer
