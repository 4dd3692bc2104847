import NixSecrets.TuiEvolves

namespace NixSecrets.Tui

theorem any_updateFirst {α : Type} {p q : α → Bool} {f : α → α} (h : ∀ x, q (f x) = q x) (xs : List α) :
    (updateFirst p f xs).any q = xs.any q := by
  induction xs with
  | nil => rfl
  | cons x xs ih =>
    unfold updateFirst
    split
    next => rw [List.any_cons, List.any_cons, h]
    next => rw [List.any_cons, List.any_cons, ih]

/-- What another report about a step leaves alone. -/
theorem Procedure.reworded_same (p : Procedure) (request : String) (step : ProcedureStep) (outcome : StepOutcome)
    (reason : String) : (p.reworded request step outcome reason).id = p.id ∧
      (p.reworded request step outcome reason).ended = p.ended ∧
      (p.reworded request step outcome reason).implicit = p.implicit ∧
      (p.reworded request step outcome reason).prompts = p.prompts ∧
      (p.reworded request step outcome reason).minimised = p.minimised ∧
      (p.reworded request step outcome reason).failed = p.failed ∧
      (p.reworded request step outcome reason).hasSucceeded = p.hasSucceeded ∧
      (p.reworded request step outcome reason).warned = p.warned := by
  unfold Procedure.reworded
  split
  next => exact ⟨rfl, rfl, rfl, rfl, rfl, rfl, rfl, rfl⟩
  next known hknown =>
    have hwarned : (updateFirst (fun finished : FinishedStep => Decidable.decide (finished.request = request))
        (fun known => { known with text := reason, step }) p.finished).any FinishedStep.warned =
          p.finished.any FinishedStep.warned := by
      apply any_updateFirst
      exact fun _ => rfl
    dsimp only
    split
    next => exact ⟨rfl, rfl, rfl, rfl, rfl, rfl, rfl, hwarned⟩
    next =>
      refine ⟨rfl, rfl, rfl, rfl, rfl, ?_, ?_, hwarned⟩
      · unfold Procedure.failed
        rcases p.between with _ | ⟨⟩ | ⟨⟩ | ⟨_ | _, _⟩
        all_goals rfl
      · unfold Procedure.hasSucceeded
        rcases p.between with _ | ⟨⟩ | ⟨⟩ | ⟨_ | _, _⟩
        all_goals rfl

namespace Model

variable {C L : String → Prop} {S : SecretPrompt → Prop}

/-- A change that only rewords what is listed and shown. -/
theorem Change.reword {m : Model} {p p' : Procedure} (hid : p'.id = p.id) (hended : p'.ended = p.ended)
    (hprompts : p'.prompts = p.prompts) (hminimised : p'.minimised = p.minimised)
    (hfailed : p'.failed = p.failed) (hsucceeded : p'.hasSucceeded = p.hasSucceeded)
    (hwarned : p'.warned = p.warned) : Change L S m p p' where
  id := hid
  ended h := hended.trans h
  minimised _ h := hminimised.trans h
  placed h := Or.inl ⟨hprompts ▸ h, fun h => hminimised.trans h⟩
  needs h := by
    left
    refine ⟨?_, fun h => hfailed.trans h⟩
    unfold Procedure.needsAcknowledgement Procedure.succeededWithWarnings at h ⊢
    rw [hfailed, hsucceeded, hwarned]
    exact h
  shown prompt h h' := Or.inl ⟨hminimised.trans h, hprompts ▸ h'⟩

theorem Change.reworded (m : Model) (p : Procedure) (request : String) (step : ProcedureStep)
    (outcome : StepOutcome) (reason : String) : Change L S m p (p.reworded request step outcome reason) := by
  obtain ⟨hid, hended, -, hprompts, hminimised, hfailed, hsucceeded, hwarned⟩ :=
    Procedure.reworded_same p request step outcome reason
  exact Change.reword hid hended hprompts hminimised hfailed hsucceeded hwarned

theorem Evolves.stepReported (m : Model) (step : ProcedureStep) (outcome : StepOutcome) (reason : String)
    (hl : ∀ request, m.Overwrites step.id ⟨request, step, .reported, reason, outcome⟩ → L step.id) :
    Evolves C L S m (m.stepReported step outcome reason) := by
  unfold Model.stepReported
  dsimp only
  generalize (if outcome = .warning then "warning" else "failed") ++ ":" ++ step.id ++ ":" ++
    toString step.step = request
  split
  next => exact Evolves.refl m
  next =>
    split
    next => exact Evolves.update fun _ p _ _ => Change.reworded m p _ _ _ _
    next => exact (Evolves.recordStep m _ _ _ _ (hl _)).trans (Evolves.tidy _)

/-- Where the procedures come from after `ensureProcedure`. -/
theorem ensureProcedure_mem {m : Model} {id title : String} {step : Option ProcedureStep} {p' : Procedure}
    (h : p' ∈ (m.ensureProcedure id title step).procedures) :
    (∃ p ∈ m.procedures, p'.id = p.id ∧ p'.ended = p.ended ∧ p'.between = p.between ∧ p'.prompts = p.prompts ∧
      p'.implicit = p.implicit ∧ p'.minimised = p.minimised ∧ p'.finished = p.finished) ∨
    (∀ p ∈ m.procedures, p.id ≠ id) ∧ p'.id = id ∧ p'.ended = false ∧ p'.between = none ∧ p'.prompts = [] ∧
      p'.implicit = step.isNone := by
  have hadvance (p : Procedure) (step : ProcedureStep) : (p.advance step).id = p.id ∧
      (p.advance step).ended = p.ended ∧ (p.advance step).between = p.between ∧
      (p.advance step).prompts = p.prompts ∧ (p.advance step).implicit = p.implicit ∧
      (p.advance step).minimised = p.minimised ∧ (p.advance step).finished = p.finished := by
    unfold Procedure.advance
    split
    next => exact ⟨rfl, rfl, rfl, rfl, rfl, rfl, rfl⟩
    next => exact ⟨rfl, rfl, rfl, rfl, rfl, rfl, rfl⟩
  have hfirst : ∀ q, q ∈ (if m.procedures.any (·.id = id) then m else { m with procedures := m.procedures ++
      [{ id, title := step.elim title (·.title), implicit := step.isNone }] }).procedures →
      q ∈ m.procedures ∨ (∀ p ∈ m.procedures, p.id ≠ id) ∧ q.id = id ∧ q.ended = false ∧ q.between = none ∧
        q.prompts = [] ∧ q.implicit = step.isNone := by
    intro q hq
    split at hq
    next => exact Or.inl hq
    next hany =>
      rcases List.mem_append.mp hq with hq | hq
      · exact Or.inl hq
      · right
        obtain rfl := List.mem_singleton.mp hq
        exact ⟨by simpa using hany, rfl, rfl, rfl, rfl, rfl⟩
  cases hstep : step with
  | none =>
    subst hstep
    rcases hfirst p' h with hp | hnew
    · exact Or.inl ⟨p', hp, rfl, rfl, rfl, rfl, rfl, rfl, rfl⟩
    · exact Or.inr hnew
  | some current =>
    subst hstep
    obtain ⟨q, hq, rfl⟩ := List.mem_map.mp h
    have hq' : ∀ q', q' = q ∨ q' = q.advance current → (∃ p ∈ m.procedures, q'.id = p.id ∧ q'.ended = p.ended ∧
        q'.between = p.between ∧ q'.prompts = p.prompts ∧ q'.implicit = p.implicit ∧
        q'.minimised = p.minimised ∧ q'.finished = p.finished) ∨
        (∀ p ∈ m.procedures, p.id ≠ id) ∧ q'.id = id ∧ q'.ended = false ∧ q'.between = none ∧ q'.prompts = [] ∧
          q'.implicit = (some current).isNone := by
      intro q' hsame
      have hkeeps : q'.id = q.id ∧ q'.ended = q.ended ∧ q'.between = q.between ∧ q'.prompts = q.prompts ∧
          q'.implicit = q.implicit ∧ q'.minimised = q.minimised ∧ q'.finished = q.finished := by
        rcases hsame with rfl | rfl
        · exact ⟨rfl, rfl, rfl, rfl, rfl, rfl, rfl⟩
        · exact hadvance q current
      rcases hfirst q hq with hp | ⟨hnew, hid, hended, hbetween, hprompts, himplicit⟩
      · exact Or.inl ⟨q, hp, hkeeps⟩
      · obtain ⟨hid', hended', hbetween', hprompts', himplicit', -⟩ := hkeeps
        exact Or.inr ⟨hnew, hid'.trans hid, hended'.trans hended, hbetween'.trans hbetween,
          hprompts'.trans hprompts, himplicit'.trans himplicit⟩
    split
    next => exact hq' _ (Or.inr rfl)
    next => exact hq' _ (Or.inl rfl)

/-- The command warns about a step that is not the last while a successful result is there. -/
def Rewarns (m : Model) (step : ProcedureStep) : Prop :=
  step.warning.isSome = true ∧ step.steps.any (· ≤ step.step) = false ∧
    ∃ p ∈ m.procedures, p.id = step.id ∧ p.ended = false ∧ p.hasSucceeded = true

theorem Evolves.procedureStep (m : Model) (step : ProcedureStep)
    (hc : (∀ p ∈ m.procedures, p.id ≠ step.id) → C step.id) (hl : m.Rewarns step → L step.id) :
    Evolves C L S m (m.procedureStep step) := by
  unfold Model.procedureStep
  dsimp only
  have hensure : Evolves C L S m (m.ensureProcedure step.id "" (some step)) := Evolves.ensureProcedure m _ _ _ hc
  generalize hm₁ : m.ensureProcedure step.id "" (some step) = m₁ at hensure ⊢
  have hsecond : Evolves C L S m₁ (if step.deployment then
      m₁.update step.id fun p => { p with awaitingDeployment := true } else m₁) := by
    split
    next => exact Evolves.update fun _ p _ _ => Change.calm rfl rfl rfl rfl rfl (fun h => h)
    next => exact Evolves.refl m₁
  have hmem : ∀ q ∈ (if step.deployment then m₁.update step.id fun p => { p with awaitingDeployment := true }
      else m₁).procedures, ∃ p ∈ m₁.procedures, q.id = p.id ∧ q.ended = p.ended ∧ q.between = p.between := by
    intro q hq
    split at hq
    next =>
      obtain ⟨p, hp, rfl⟩ := List.mem_map.mp hq
      refine ⟨p, hp, ?_⟩
      split
      next => exact ⟨rfl, rfl, rfl⟩
      next => exact ⟨rfl, rfl, rfl⟩
    next => exact ⟨q, hq, rfl, rfl, rfl⟩
  generalize (if step.deployment then m₁.update step.id fun p => { p with awaitingDeployment := true }
    else m₁) = m₂ at hsecond hmem
  have hthird : Evolves C L S m₂ (step.warning.elim m₂ (m₂.stepReported step .warning)) := by
    cases hwarning : step.warning with
    | none => exact Evolves.refl m₂
    | some reason =>
      apply Evolves.stepReported
      rintro request ⟨-, hlast, q, hq, hid, hended, hsucceeded⟩
      obtain ⟨p₁, hp₁, hid₁, hended₁, hbetween₁⟩ := hmem q hq
      rw [← hm₁] at hp₁
      apply hl
      refine ⟨by rw [hwarning]; rfl, hlast, ?_⟩
      rcases ensureProcedure_mem hp₁ with ⟨p, hp, hid', hended', hbetween', -⟩ | ⟨-, -, -, hnone, -⟩
      · refine ⟨p, hp, ?_, ?_, ?_⟩
        · rw [← hid', ← hid₁, hid]
        · rw [← hended', ← hended₁, hended]
        · rw [← hsucceeded, Procedure.hasSucceeded, Procedure.hasSucceeded, hbetween₁, hbetween']
      · rw [Procedure.hasSucceeded, hbetween₁, hnone] at hsucceeded
        cases hsucceeded
  refine (hensure.trans hsecond).trans (hthird.trans ?_)
  generalize step.warning.elim m₂ (m₂.stepReported step .warning) = m₃
  cases step.failure with
  | none => exact Evolves.refl m₃
  | some reason =>
    apply Evolves.stepReported
    rintro request ⟨hsucceeded, -⟩
    cases hsucceeded

theorem takeInFlight_some {m m' : Model} {request id : String} {flight : InFlight}
    (h : m.takeInFlight request = some (id, flight, m')) : ∃ p ∈ m.procedures, p.id = id ∧
      p.inFlight.find? (·.request = request) = some flight ∧
      m' = m.update id fun p => { p with inFlight := p.inFlight.eraseP (·.request = request) } := by
  obtain ⟨p, hp, h⟩ := Option.bind_eq_some_iff.mp h
  obtain ⟨found, hfound, h⟩ := Option.map_eq_some_iff.mp h
  cases h
  exact ⟨p, List.mem_of_find?_eq_some hp, rfl, hfound, rfl⟩

/-- The outcome of a step that is not the last arrives for a procedure that goes on and has a successful
result. -/
def Outdates (m : Model) (request id : String) : Prop :=
  ∃ p ∈ m.procedures, p.id = id ∧ p.ended = false ∧ p.hasSucceeded = true ∧
    ∃ flight, p.inFlight.find? (·.request = request) = some flight ∧
      flight.step.steps.any (· ≤ flight.step.step) = false

/-- Recording a step that was taken out of those in flight. -/
theorem Evolves.takeRecord {m m' : Model} {request id : String} {flight : InFlight} {outcome : StepOutcome}
    {text : String} (h : m.takeInFlight request = some (id, flight, m'))
    (hl : (outcome = .done ∨ outcome = .warning) → m.Inv → m.Outdates request id → L id) :
    Evolves C L S m (m'.recordStep id flight outcome text) := by
  obtain ⟨p, hp, hid, hflight, rfl⟩ := takeInFlight_some h
  have hcalm : Evolves C L S m
      (m.update id fun p => { p with inFlight := p.inFlight.eraseP (·.request = request) }) :=
    Evolves.update fun _ p _ _ => Change.calm rfl rfl rfl rfl rfl (fun h => h)
  have hrecord : m.Inv → Evolves C L S m (Model.recordStep
      (m.update id fun p => { p with inFlight := p.inFlight.eraseP (·.request = request) })
        id flight outcome text) := by
    intro hm
    refine hcalm.trans (Evolves.recordStep _ _ _ _ _ ?_)
    rintro ⟨hsucceeded, hlast, q', hq', hid', hended, hsuccess⟩
    obtain ⟨q, hq, hqq'⟩ := List.mem_map.mp hq'
    have hsame : q.id = id := by
      by_cases hqid : q.id = id
      · exact hqid
      · rw [if_neg hqid] at hqq'
        rw [hqq']
        exact hid'
    rw [if_pos hsame] at hqq'
    subst hqq'
    have hqp := List.inj_on_of_nodup_map hm.nodup hq hp (hsame.trans hid.symm)
    rw [← hqp] at hflight
    refine hl ?_ hm ⟨q, hq, hsame, hended, hsuccess, flight, hflight, hlast⟩
    simpa [FinishedStep.succeeded] using hsucceeded
  exact ⟨fun hm => (hrecord hm).inv hm, fun hm => (hrecord hm).old hm, fun hm => (hrecord hm).kept hm,
    fun hm => (hrecord hm).shown hm⟩

/-- Only an answer settles a step as a success. -/
theorem settle_succeeded {now : Nat} {flight : InFlight} {outcome : Except String (Option String)}
    (h : (settle now flight outcome).1 = .done ∨ (settle now flight outcome).1 = .warning) :
    ∃ text, outcome = .ok text := by
  cases outcome with
  | ok text => exact ⟨text, rfl⟩
  | error error =>
    unfold settle at h
    dsimp only at h
    split at h
    next => simp at h
    next =>
      split at h
      next => simp at h
      next => simp at h

theorem Evolves.stepFinished (m : Model) (now : Nat) (request : String)
    (outcome : Except String (Option String))
    (hl : ∀ text, outcome = .ok text → ∀ id, m.Outdates request id → L id) :
    Evolves C L S m (m.stepFinished now request outcome).2 := by
  unfold Model.stepFinished
  split
  next => exact Evolves.refl m
  next id flight m' htake =>
    refine Evolves.trans (Evolves.takeRecord htake ?_) (Evolves.tidy _)
    intro hsucceeded _
    obtain ⟨text, hok⟩ := settle_succeeded hsucceeded
    exact hl text hok id

theorem Evolves.dropPrompt (m : Model) (promptId : String) (hs : ∀ prompt, prompt.id = promptId → S prompt) :
    Evolves C L S m (m.dropPrompt promptId) := by
  apply Evolves.map
  intro _ p _
  refine ⟨rfl, fun h => h, fun _ h => h, ?_, fun h => Or.inl ⟨h, fun h => h⟩, ?_⟩
  · intro hprompts
    refine Or.inl ⟨?_, fun h => h⟩
    intro hnil
    apply hprompts
    show p.prompts.filter _ = []
    rw [hnil]
    rfl
  · intro prompt hsee hprompt
    by_cases hid : prompt.id = promptId
    · exact Or.inr (hs prompt hid)
    · left
      refine ⟨hsee, ?_⟩
      obtain ⟨rest, hrest⟩ := List.head?_eq_some_iff.mp hprompt
      show (p.prompts.filter _).head? = some prompt
      rw [hrest, List.filter_cons_of_pos (by simpa using hid)]
      rfl

theorem Evolves.removePrompt (m : Model) (promptId : String) (hs : ∀ prompt, prompt.id = promptId → S prompt) :
    Evolves C L S m (m.removePrompt promptId) :=
  (Evolves.dropPrompt m promptId hs).trans (Evolves.tidy _)

theorem Evolves.promptMissed (m : Model) (promptId : String) (outcome : StepOutcome) (text : String)
    (houtcome : ¬ (outcome = .done ∨ outcome = .warning)) (hs : ∀ prompt, prompt.id = promptId → S prompt) :
    Evolves C L S m (m.promptMissed promptId outcome text) := by
  unfold Model.promptMissed
  dsimp only
  refine (Evolves.dropPrompt m promptId hs).trans (Evolves.trans ?_ (Evolves.tidy _))
  split
  next id flight m' htake => exact Evolves.takeRecord htake fun h => absurd h houtcome
  next => exact Evolves.refl _

theorem Evolves.expirePrompts (m : Model) (now : Nat) (hs : ∀ prompt, (∃ p ∈ m.procedures, ∃ expired ∈ p.prompts,
    expired.deadline.any (· ≤ now) = true ∧ prompt.id = expired.id) → S prompt) :
    Evolves C L S m (m.expirePrompts now) := by
  unfold Model.expirePrompts
  dsimp only
  have hexpired : ∀ expired ∈ (m.procedures.flatMap (·.prompts)).filter fun prompt =>
      prompt.deadline.any (· ≤ now), ∀ prompt, prompt.id = expired.id → S prompt := by
    intro expired hmem prompt hid
    obtain ⟨hmem, hdeadline⟩ := List.mem_filter.mp hmem
    obtain ⟨p, hp, hprompt⟩ := List.mem_flatMap.mp hmem
    exact hs prompt ⟨p, hp, expired, hprompt, hdeadline, hid⟩
  revert hexpired
  generalize (m.procedures.flatMap (·.prompts)).filter _ = expired
  clear hs
  intro hexpired
  induction expired generalizing m with
  | nil => exact Evolves.refl m
  | cons prompt prompts ih =>
    rw [List.foldl_cons]
    refine Evolves.trans (Evolves.promptMissed m prompt.id .timedOut "no answer within 120 s" nofun
      (hexpired prompt List.mem_cons_self)) ?_
    exact ih _ fun expired hmem => hexpired expired (List.mem_cons_of_mem _ hmem)

theorem Evolves.connectionLost (m : Model) (hs : ∀ prompt, S prompt) : Evolves C L S m m.connectionLost := by
  refine Evolves.trans (Evolves.map ?_) (Evolves.tidy _)
  intro _ p _
  exact ⟨rfl, fun h => h, fun _ h => h, fun h => absurd rfl h, fun h => Or.inl ⟨h, fun h => h⟩,
    fun prompt _ _ => Or.inr (hs prompt)⟩

theorem Evolves.proceduresSynced (m : Model) (live : List String) :
    Evolves C L S m (m.proceduresSynced live) := by
  unfold Model.proceduresSynced
  dsimp only
  refine Evolves.trans ?_ (Evolves.tidy _)
  generalize (m.procedures.filter _).map _ = gone
  induction gone generalizing m with
  | nil => exact Evolves.refl m
  | cons id gone ih => exact (Evolves.procedureEnded m id none).trans (ih _)

theorem Evolves.pushNotice (m : Model) (text : String) (severity : NoticeSeverity) :
    Evolves C L S m (m.pushNotice text severity) := by
  unfold Model.pushNotice
  dsimp only
  split
  next => exact Evolves.refl m
  next =>
    split
    next =>
      split
      next => exact Evolves.aside rfl rfl
      next => exact Evolves.aside rfl rfl
    next =>
      split
      next => exact Evolves.aside rfl rfl
      next => exact Evolves.aside rfl rfl

theorem Evolves.failUnlessQueued (m : Model) (error : String) : Evolves C L S m (m.failUnlessQueued error) := by
  unfold Model.failUnlessQueued
  split
  next => exact Evolves.refl m
  next => exact Evolves.pushNotice m error .failure

theorem Evolves.showPendingApproval (m : Model) : Evolves C L S m m.showPendingApproval := by
  refine (Evolves.tidy m).trans ?_
  unfold Model.showPendingApproval
  dsimp only
  split
  next => exact Evolves.aside rfl rfl
  next => exact Evolves.aside rfl rfl
  next =>
    split
    next => exact Evolves.aside rfl rfl
    next => exact Evolves.refl _
  next => exact Evolves.refl _

theorem Evolves.acknowledge (m : Model) : Evolves C L S m m.acknowledge := by
  unfold Model.acknowledge
  refine Evolves.trans ?_ (Evolves.showPendingApproval _)
  exact Evolves.aside rfl rfl

theorem Evolves.finishApproval (m : Model) (id : String) : Evolves C L S m (m.finishApproval id) := by
  unfold Model.finishApproval
  refine Evolves.trans ?_ (Evolves.tidy _)
  exact Evolves.aside rfl rfl

end Model

end NixSecrets.Tui
