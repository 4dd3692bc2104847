import NixSecrets.TuiSteps

namespace NixSecrets.Tui

/-- A procedure that shows no more than it did. -/
structure Procedure.Softer (p p' : Procedure) : Prop where
  id : p'.id = p.id
  minimised : p'.minimised = false → p.minimised = false
  prompts : p.prompts = [] → p'.prompts = []

namespace Procedure

theorem Softer.refl (p : Procedure) : Softer p p :=
  ⟨rfl, fun h => h, fun h => h⟩

theorem Softer.trans {p p' p'' : Procedure} (h : Softer p p') (h' : Softer p' p'') : Softer p p'' :=
  ⟨h'.id.trans h.id, fun hsee => h.minimised (h'.minimised hsee), fun hnil => h'.prompts (h.prompts hnil)⟩

theorem ending_softer (shown : Bool) (exitCode : Option Int) (p : Procedure) :
    Softer p (p.ending shown exitCode) := by
  obtain ⟨hid, -, hprompts, hminimised⟩ := ending_keeps shown exitCode p
  refine ⟨hid, ?_, fun hnil => hprompts.trans hnil⟩
  intro hsee
  rcases hminimised with hsame | ⟨-, htrue⟩
  · exact hsame.symm.trans hsee
  · rw [htrue] at hsee
    cases hsee

theorem joined_softer (succeeded : Bool) (p : Procedure) : Softer p (p.joined succeeded) := by
  unfold joined
  split
  next => exact ⟨rfl, fun h => h, fun h => h⟩
  next => exact Softer.refl p

theorem recorded_softer (isOpen shown : Bool) (step : FinishedStep) (p : Procedure) :
    Softer p (p.recorded isOpen shown step) := by
  unfold recorded
  dsimp only
  generalize (if step.reportedFailed = true then some step.reportedFailure else none) = reported
  split
  next =>
    split
    next => exact ⟨rfl, fun h => h, fun h => h⟩
    next =>
      refine ⟨rfl, ?_, fun h => h⟩
      intro hsee
      exact (Bool.or_eq_false_iff.mp hsee).1
  next =>
    split
    next =>
      split
      next => exact Softer.refl p
      next => exact ⟨rfl, fun h => h, fun h => h⟩
    next => exact Softer.refl p

theorem reworded_softer (request : String) (step : ProcedureStep) (outcome : StepOutcome) (reason : String)
    (p : Procedure) : Softer p (p.reworded request step outcome reason) := by
  obtain ⟨hid, -, -, hprompts, hminimised, -⟩ := reworded_same p request step outcome reason
  exact ⟨hid, fun h => hminimised.symm.trans h, fun h => hprompts.trans h⟩

end Procedure

namespace Model

/-- From one model to another nothing comes on screen: no procedure takes the foreground, and none that was
there shows more than it did. -/
structure Quiet (m m' : Model) : Prop where
  foreground : ∀ id, m'.foreground = some id → m.foreground = some id
  procedures : ∀ p' ∈ m'.procedures, (∃ p ∈ m.procedures, Procedure.Softer p p') ∨ p'.prompts = []

namespace Quiet

variable {m m' m'' : Model}

theorem refl (m : Model) : Quiet m m :=
  ⟨fun _ h => h, fun p hp => Or.inl ⟨p, hp, Procedure.Softer.refl p⟩⟩

theorem trans (h : Quiet m m') (h' : Quiet m' m'') : Quiet m m'' := by
  refine ⟨fun id hid => h.foreground id (h'.foreground id hid), ?_⟩
  intro p'' hp''
  rcases h'.procedures p'' hp'' with ⟨p', hp', hsofter'⟩ | hnil
  · rcases h.procedures p' hp' with ⟨p, hp, hsofter⟩ | hnil
    · exact Or.inl ⟨p, hp, hsofter.trans hsofter'⟩
    · exact Or.inr (hsofter'.prompts hnil)
  · exact Or.inr hnil

theorem aside (hprocedures : m'.procedures = m.procedures) (hforeground : m'.foreground = m.foreground) :
    Quiet m m' := by
  refine ⟨fun id hid => hforeground ▸ hid, ?_⟩
  intro p hp
  rw [hprocedures] at hp
  exact Or.inl ⟨p, hp, Procedure.Softer.refl p⟩

theorem map {f : Procedure → Procedure} (hf : ∀ p, Procedure.Softer p (f p)) :
    Quiet m { m with procedures := m.procedures.map f } := by
  refine ⟨fun _ h => h, ?_⟩
  intro p' hp'
  obtain ⟨p, hp, rfl⟩ := List.mem_map.mp hp'
  exact Or.inl ⟨p, hp, hf p⟩

theorem update {id : String} {f : Procedure → Procedure} (hf : ∀ p, Procedure.Softer p (f p)) :
    Quiet m (m.update id f) := by
  apply map
  intro p
  split
  next => exact hf p
  next => exact Procedure.Softer.refl p

theorem tidy (m : Model) : Quiet m m.tidyProcedures := by
  refine ⟨fun id hid => (tidyProcedures_foreground.mp hid).1, ?_⟩
  intro p hp
  exact Or.inl ⟨p, (tidyProcedures_mem.mp hp).1, Procedure.Softer.refl p⟩

theorem ensureProcedure (m : Model) (id title : String) (step : Option ProcedureStep) :
    Quiet m (m.ensureProcedure id title step) := by
  refine ⟨fun id hid => (ensureProcedure_same m _ title step).2 ▸ hid, ?_⟩
  intro p' hp'
  rcases ensureProcedure_mem hp' with ⟨p, hp, hid, -, -, hprompts, -, hminimised, -⟩ | ⟨-, -, -, -, hnil, -⟩
  · exact Or.inl ⟨p, hp, hid, fun h => hminimised.symm.trans h, fun h => hprompts.trans h⟩
  · exact Or.inr hnil

theorem procedureEnded (m : Model) (id : String) (exitCode : Option Int) :
    Quiet m (m.procedureEnded id exitCode) := by
  unfold Model.procedureEnded
  dsimp only
  refine trans ?_ (tidy _)
  generalize (m.mode.isBrowse && Decidable.decide (m.foreground = some id) && _) = shown
  have hending : Quiet m (m.update id (Procedure.ending shown exitCode)) :=
    update (Procedure.ending_softer shown exitCode)
  split
  next => exact hending.trans ⟨nofun, fun p hp => Or.inl ⟨p, hp, Procedure.Softer.refl p⟩⟩
  next => exact hending

theorem recordStep (m : Model) (id : String) (flight : InFlight) (outcome : StepOutcome) (text : String) :
    Quiet m (m.recordStep id flight outcome text) := by
  unfold Model.recordStep
  dsimp only
  have hlisted : ∀ step, Quiet m (m.update id (Procedure.listed step)) :=
    fun step => update fun p => ⟨rfl, fun h => h, fun h => h⟩
  split
  next => exact hlisted _
  next =>
    split
    next =>
      split
      next => exact (hlisted _).trans (update (Procedure.joined_softer _))
      next =>
        split
        next => exact hlisted _
        next => exact (hlisted _).trans (procedureEnded _ _ _)
    next => exact (hlisted _).trans (update (Procedure.recorded_softer _ _ _))

theorem stepReported (m : Model) (step : ProcedureStep) (outcome : StepOutcome) (reason : String) :
    Quiet m (m.stepReported step outcome reason) := by
  unfold Model.stepReported
  dsimp only
  generalize (if outcome = .warning then "warning" else "failed") ++ ":" ++ step.id ++ ":" ++
    toString step.step = request
  split
  next => exact refl m
  next =>
    split
    next => exact update (Procedure.reworded_softer request step outcome reason)
    next => exact (recordStep m _ _ _ _).trans (tidy _)

theorem procedureStep (m : Model) (step : ProcedureStep) : Quiet m (m.procedureStep step) := by
  unfold Model.procedureStep
  dsimp only
  have hreported (m : Model) (outcome : StepOutcome) (reason : Option String) :
      Quiet m (reason.elim m (m.stepReported step outcome)) := by
    cases reason with
    | none => exact refl m
    | some reason => exact stepReported m step outcome reason
  refine trans (ensureProcedure m step.id "" (some step)) (trans ?_ ((hreported _ _ _).trans (hreported _ _ _)))
  split
  next => exact update fun p => ⟨rfl, fun h => h, fun h => h⟩
  next => exact refl _

theorem promptMissed (m : Model) (promptId : String) (outcome : StepOutcome) (text : String) :
    Quiet m (m.promptMissed promptId outcome text) := by
  unfold Model.promptMissed
  dsimp only
  have hdrop : Quiet m (m.dropPrompt promptId) := by
    apply map
    intro p
    refine ⟨rfl, fun h => h, ?_⟩
    intro hnil
    show p.prompts.filter _ = []
    rw [hnil]
    rfl
  refine hdrop.trans (trans ?_ (tidy _))
  split
  next id flight m' htake =>
    obtain ⟨p, -, -, -, rfl⟩ := takeInFlight_some htake
    refine trans (update ?_) (recordStep _ _ _ _ _)
    exact fun p => ⟨rfl, fun h => h, fun h => h⟩
  next => exact refl _

theorem expirePrompts (m : Model) (now : Nat) : Quiet m (m.expirePrompts now) := by
  unfold Model.expirePrompts
  dsimp only
  generalize (m.procedures.flatMap (·.prompts)).filter _ = expired
  induction expired generalizing m with
  | nil => exact refl m
  | cons prompt prompts ih => exact trans (promptMissed m prompt.id .timedOut "no answer within 120 s") (ih _)

theorem connectionLost (m : Model) : Quiet m m.connectionLost := by
  refine trans (map ?_) (tidy _)
  exact fun p => ⟨rfl, fun h => h, fun _ => rfl⟩

theorem proceduresSynced (m : Model) (live : List String) : Quiet m (m.proceduresSynced live) := by
  unfold Model.proceduresSynced
  dsimp only
  refine trans ?_ (tidy _)
  generalize (m.procedures.filter _).map _ = gone
  induction gone generalizing m with
  | nil => exact refl m
  | cons id gone ih => exact (procedureEnded m id none).trans (ih _)

theorem pushNotice (m : Model) (text : String) (severity : NoticeSeverity) :
    Quiet m (m.pushNotice text severity) := by
  unfold Model.pushNotice
  dsimp only
  split
  next => exact refl m
  next =>
    split
    next =>
      split
      next => exact aside rfl rfl
      next => exact aside rfl rfl
    next =>
      split
      next => exact aside rfl rfl
      next => exact aside rfl rfl

theorem showPendingApproval (m : Model) : Quiet m m.showPendingApproval := by
  obtain ⟨hprocedures, hforeground⟩ := showPendingApproval_same m
  exact (tidy m).trans (aside hprocedures hforeground)

/-- No piece of procedure news brings a prompt on screen. -/
theorem handle (m : Model) (event : ProcedureEvent) : Quiet m (m.handle event) := by
  cases event with
  | step step => exact procedureStep m step
  | ended id exitCode => exact procedureEnded m id exitCode
  | withdrawn id => exact promptMissed m id .failed "withdrawn: its requester left"
  | disconnected => exact connectionLost m
  | reconnected => exact pushNotice m _ .info
  | synced live => exact proceduresSynced m live

/-- Where no prompt was on screen, none is. -/
theorem shownPrompt (h : Quiet m m') (hm : (m.procedures.map (·.id)).Nodup) (hnone : m.shownPrompt = none) :
    m'.shownPrompt = none := by
  cases hshown : m'.shownPrompt with
  | none => rfl
  | some prompt =>
    obtain ⟨p', hp', hforeground', hsee', hprompt⟩ := shownPrompt_some hshown
    rcases h.procedures p' hp' with ⟨p, hp, hsofter⟩ | hnil
    · have hforeground : m.foreground = some p.id := by
        rw [← hsofter.id]
        exact h.foreground p'.id hforeground'
      rw [shownPrompt_eq hm hp hforeground (hsofter.minimised hsee')] at hnone
      rw [hsofter.prompts (List.head?_eq_none_iff.mp hnone)] at hprompt
      cases hprompt
    · rw [hnil] at hprompt
      cases hprompt

end Quiet

end Model

end NixSecrets.Tui
