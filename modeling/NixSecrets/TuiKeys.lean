import NixSecrets.TuiPlaces

namespace NixSecrets.Tui

namespace Model

variable {C L : String → Prop} {S : SecretPrompt → Prop}

theorem Evolves.ofInv {m m' : Model} (h : m.Inv → Evolves C L S m m') : Evolves C L S m m' :=
  ⟨fun hm => (h hm).inv hm, fun hm => (h hm).old hm, fun hm => (h hm).kept hm, fun hm => (h hm).shown hm⟩

theorem ensureProcedure_exists (m : Model) (id title : String) (step : Option ProcedureStep) :
    ∃ p ∈ (m.ensureProcedure id title step).procedures, p.id = id := by
  have hfirst : ∃ p ∈ (if m.procedures.any (·.id = id) then m else { m with procedures := m.procedures ++
      [{ id, title := step.elim title (·.title), implicit := step.isNone }] }).procedures, p.id = id := by
    split
    next hany =>
      obtain ⟨p, hp, hid⟩ := List.any_eq_true.mp hany
      exact ⟨p, hp, by simpa using hid⟩
    next => exact ⟨_, List.mem_append_right _ List.mem_cons_self, rfl⟩
  cases step with
  | none => exact hfirst
  | some step =>
    obtain ⟨p, hp, hid⟩ := hfirst
    refine ⟨_, update_mem hp, ?_⟩
    rw [if_pos hid]
    unfold Procedure.advance
    split
    next => exact hid
    next => exact hid

theorem Evolves.offerPrompt (m : Model) (prompt : SecretPrompt)
    (hc : (∀ p ∈ m.procedures, p.id ≠ promptProcedure prompt) → C (promptProcedure prompt))
    (hl : L (promptProcedure prompt)) : Evolves C L S m (m.offerPrompt prompt) := by
  unfold Model.offerPrompt
  dsimp only
  generalize (if (prompt.confirmation && _) = true then none else prompt.procedure) = step
  refine Evolves.trans (Evolves.ensureProcedure m _ prompt.title step hc) ?_
  have hexists := ensureProcedure_exists m (promptProcedure prompt) prompt.title step
  generalize m.ensureProcedure (promptProcedure prompt) prompt.title step = m₁ at hexists ⊢
  generalize promptProcedure prompt = id at hexists hl ⊢
  apply Evolves.ofInv
  intro hm
  split
  next hwaiting =>
    apply Evolves.update
    intro _ p hp hid
    have hp' : m₁.procedure id = some p := hid ▸ procedure_mem hm.nodup hp
    rw [hp'] at hwaiting
    refine Change.asked (Or.inl ?_) (hid ▸ hl)
    simpa using hwaiting
  next hidle =>
    apply Evolves.askArrive hexists _ hl
    intro p hp hid
    have hp' : m₁.procedure id = some p := hid ▸ procedure_mem hm.nodup hp
    rw [hp'] at hidle
    simpa using hidle

theorem Evolves.offerApproval (m : Model) (request : ApprovalRequest)
    (hc : (∀ p ∈ m.procedures, p.id ≠ approvalProcedure request) → C (approvalProcedure request))
    (hl : L (approvalProcedure request)) : Evolves C L S m (m.offerApproval request) := by
  unfold Model.offerApproval
  split
  next => exact Evolves.refl m
  next =>
    dsimp only
    have hensure : Evolves C L S m (m.ensureProcedure (approvalProcedure request) ("Deploy " ++ request.target)
      request.procedure) := Evolves.ensureProcedure m _ _ _ hc
    obtain ⟨p, hp, hid⟩ := ensureProcedure_exists m (approvalProcedure request) ("Deploy " ++ request.target)
      request.procedure
    generalize m.ensureProcedure (approvalProcedure request) ("Deploy " ++ request.target) request.procedure = m₁
      at hensure hp ⊢
    have hcleared : Evolves C L S m₁ (m₁.update (approvalProcedure request) fun p =>
        { p with awaitingDeployment := false, between := none }) := by
      apply Evolves.update
      intro _ p _ hid
      exact ⟨rfl, fun h => h, fun _ h => h, fun h => Or.inl ⟨h, fun h => h⟩, fun _ => Or.inr (hid ▸ hl),
        fun _ h h' => Or.inl ⟨h, h'⟩⟩
    have hexists : ∃ q ∈ (m₁.update (approvalProcedure request) fun p =>
        { p with awaitingDeployment := false, between := none }).procedures, q.id = approvalProcedure request := by
      refine ⟨_, update_mem hp, ?_⟩
      rw [if_pos hid]
      exact hid
    refine hensure.trans (hcleared.trans ?_)
    generalize (m₁.update (approvalProcedure request) fun p =>
      { p with awaitingDeployment := false, between := none }) = m₂ at hexists ⊢
    have hqueued : Evolves C L S m₂ (Model.showPendingApproval (Model.arrive
        { m₂ with pendingApprovals := m₂.pendingApprovals ++ [request] } (approvalProcedure request))) := by
      refine Evolves.trans ?_ (Evolves.showPendingApproval _)
      refine Evolves.trans ?_ (Evolves.arrive hexists)
      exact Evolves.aside rfl rfl
    split
    next =>
      refine Evolves.trans ?_ (Evolves.showPendingApproval _)
      exact Evolves.aside rfl rfl
    next =>
      split
      next =>
        split
        next =>
          split
          next => exact Evolves.aside rfl rfl
          next => exact Evolves.refl _
        next => exact hqueued
      next => exact hqueued

theorem parkApproval_same (m : Model) (id : String) :
    (m.parkApproval id).procedures = m.procedures ∧ (m.parkApproval id).foreground = m.foreground := by
  unfold parkApproval
  split
  next =>
    split
    next => exact ⟨rfl, rfl⟩
    next => exact ⟨rfl, rfl⟩
  next => exact ⟨rfl, rfl⟩

theorem minimise_needs {p : Procedure} (h : p.needsAcknowledgement = true) :
    p.minimise.needsAcknowledgement = true ∧ (p.failed = true → p.minimise.failed = true) := by
  have hkept : p.minimise.between = p.between := by
    show (if (p.hasSucceeded && !p.succeededWithWarnings) = true then none else p.between) = p.between
    obtain ⟨succeeded, text, hbetween, hwarned⟩ := Procedure.needsAcknowledgement_result h
    cases succeeded with
    | false => simp [Procedure.hasSucceeded, hbetween]
    | true => simp [Procedure.hasSucceeded, Procedure.succeededWithWarnings, hbetween, hwarned]
  have hfailed : p.minimise.failed = p.failed := by
    unfold Procedure.failed
    rw [hkept]
  have hsucceeded : p.minimise.hasSucceeded = p.hasSucceeded := by
    unfold Procedure.hasSucceeded
    rw [hkept]
  refine ⟨?_, fun hf => hfailed.trans hf⟩
  unfold Procedure.needsAcknowledgement Procedure.succeededWithWarnings at h ⊢
  rw [hfailed, hsucceeded]
  exact h

/-- Minimising the dialog of `id`. -/
theorem Evolves.lowerDialog {m : Model} (id : String) (hforeground : m.foreground = some id ∨ m.foreground = none)
    (hs : ∀ prompt, S prompt) {m' : Model} (hprocedures : m'.procedures = (m.update id Procedure.minimise).procedures)
    (hforeground' : m'.foreground = none) : Evolves C L S m m' := by
  have hlower : Evolves C L S m ({ m with
      foreground := if m.foreground = some id then none else m.foreground }.update id Procedure.minimise) :=
    Evolves.lower (fun _ => ⟨rfl, rfl, rfl⟩) (fun _ => minimise_needs) fun _ _ _ _ _ prompt _ => hs prompt
  refine hlower.trans (Evolves.aside hprocedures ?_)
  rw [hforeground']
  show none = if m.foreground = some id then none else m.foreground
  rcases hforeground with h | h
  · rw [if_pos h]
  · rw [h]
    simp

/-- What `minimise` may create: the procedure of an approval dialog that lost it. -/
def Unowned (m : Model) (id : String) : Prop :=
  m.foreground = none ∧ (∀ p ∈ m.procedures, p.id ≠ id) ∧ ∃ request, m.mode = .approval request ∧
    approvalProcedure request = id

theorem ensureProcedure_same (m : Model) (id title : String) (step : Option ProcedureStep) :
    (m.ensureProcedure id title step).mode = m.mode ∧
      (m.ensureProcedure id title step).foreground = m.foreground := by
  unfold ensureProcedure
  dsimp only
  cases step with
  | none =>
    dsimp only
    split
    next => exact ⟨rfl, rfl⟩
    next => exact ⟨rfl, rfl⟩
  | some step =>
    dsimp only
    split
    next => exact ⟨rfl, rfl⟩
    next => exact ⟨rfl, rfl⟩

theorem ownApproval_new {m : Model} {request : ApprovalRequest} (hforeground : m.foreground = none)
    (hmode : m.mode = .approval request) : m.ownApproval =
      { m.ensureProcedure (approvalProcedure request) ("Deploy " ++ request.target) request.procedure with
        foreground := some (approvalProcedure request) } := by
  unfold ownApproval
  rw [hforeground, hmode]

theorem ownApproval_same {m : Model} (h : ¬ (m.foreground = none ∧ ∃ request, m.mode = .approval request)) :
    m.ownApproval = m := by
  unfold ownApproval
  split
  next hforeground hmode => exact absurd ⟨hforeground, _, hmode⟩ h
  next => rfl

theorem Evolves.minimise (m : Model) (hc : ∀ id, m.Unowned id → C id) (hs : ∀ prompt, S prompt) :
    Evolves C L S m m.minimise := by
  have hplain (m₁ : Model) (id : String) (hforeground : m₁.foreground = some id) :
      Evolves C L S m₁ (Model.tidyProcedures { (m₁.parkApproval id).update id Procedure.minimise with
        foreground := none }) := by
    refine Evolves.trans (Evolves.lowerDialog id (Or.inl hforeground) hs ?_ rfl) (Evolves.tidy _)
    show (m₁.parkApproval id).procedures.map _ = m₁.procedures.map _
    rw [(parkApproval_same m₁ id).1]
  unfold Model.minimise
  dsimp only
  by_cases hown : m.foreground = none ∧ ∃ request, m.mode = .approval request
  · obtain ⟨hforeground, request, hmode⟩ := hown
    rw [ownApproval_new hforeground hmode]
    obtain ⟨hmode', hforeground'⟩ := ensureProcedure_same m (approvalProcedure request)
      ("Deploy " ++ request.target) request.procedure
    have hensure : Evolves C L S m (m.ensureProcedure (approvalProcedure request)
        ("Deploy " ++ request.target) request.procedure) :=
      Evolves.ensureProcedure m _ _ _ fun hnew => hc _ ⟨hforeground, hnew, request, hmode, rfl⟩
    generalize m.ensureProcedure (approvalProcedure request) ("Deploy " ++ request.target) request.procedure = m₁
      at hensure hmode' hforeground' ⊢
    refine hensure.trans ?_
    dsimp only
    split
    next hnot =>
      rw [hmode', hmode] at hnot
      simp [Mode.isApprovalOf] at hnot
    next =>
      refine Evolves.trans (Evolves.lowerDialog (approvalProcedure request)
        (Or.inr (hforeground'.trans hforeground)) hs ?_ rfl) (Evolves.tidy _)
      show (Model.parkApproval _ _).procedures.map _ = _
      rw [(parkApproval_same _ _).1]
      rfl
  · rw [ownApproval_same hown]
    split
    next => exact Evolves.refl m
    next id hforeground =>
      split
      next => exact Evolves.refl m
      next => exact hplain m id hforeground

theorem minimise_shown (m : Model) : m.minimise.shownPrompt = none := by
  unfold minimise
  dsimp only
  split
  next hforeground =>
    unfold shownPrompt
    rw [hforeground]
    rfl
  next =>
    split
    next hnot =>
      simp only [Bool.and_eq_true, Option.isNone_iff_eq_none] at hnot
      exact hnot.1.1
    next => rfl

theorem Evolves.bringUp {m : Model} {id : String} (hid : ∃ p ∈ m.procedures, p.id = id)
    (hclear : m.foreground = some id ∨ m.shownPrompt = none) : Evolves C L S m (m.bringUp id) := by
  have hraise : Evolves C L S m ({ m with foreground := some id }.update id raised) := by
    apply Evolves.raise hid
    intro hm p hp hforeground hpid
    rcases hclear with h | h
    · rw [hforeground] at h
      exact absurd (Option.some.inj h) hpid
    · rw [shownPrompt_eq hm.nodup hp hforeground (inForeground_of hm hp hforeground).2] at h
      exact List.head?_eq_none_iff.mp h
  unfold Model.bringUp
  dsimp only
  split
  next => exact hraise.trans (Evolves.showPendingApproval _)
  next => exact hraise

theorem procedure_exists {m : Model} {id : String} (h : ¬ (m.procedure id).isNone = true) :
    ∃ p ∈ m.procedures, p.id = id := by
  cases hp : m.procedure id with
  | none =>
    rw [hp] at h
    exact absurd rfl h
  | some p => exact ⟨p, procedure_some hp⟩

theorem Evolves.restore (m : Model) (id : String) (hc : ∀ id, m.Unowned id → C id) (hs : ∀ prompt, S prompt) :
    Evolves C L S m (m.restore id).2 := by
  unfold Model.restore
  split
  next => exact Evolves.refl m
  next hexists =>
    split
    next => exact Evolves.refl m
    next =>
      split
      next hforeground => exact Evolves.bringUp (procedure_exists hexists) (Or.inl hforeground)
      next =>
        dsimp only
        refine (Evolves.minimise m hc hs).trans ?_
        split
        next => exact Evolves.refl _
        next =>
          split
          next => exact Evolves.refl _
          next hexists' => exact Evolves.bringUp (procedure_exists hexists') (Or.inr (minimise_shown m))

theorem Evolves.informing {m : Model} {answer : Option String × Model} (h : Evolves C L S m answer.2) :
    Evolves C L S m (informing answer) := by
  unfold Model.informing
  cases answer.1 with
  | none => exact h
  | some reason => exact h.trans (Evolves.pushNotice _ reason .info)

theorem Evolves.restoreNext (m : Model) (hc : ∀ id, m.Unowned id → C id) (hs : ∀ prompt, S prompt) :
    Evolves C L S m m.restoreNext.2 := by
  unfold Model.restoreNext
  split
  next p _ => exact Evolves.restore m p.id hc hs
  next => exact Evolves.refl m

theorem Evolves.restoreAt (m : Model) (index : Nat) (hc : ∀ id, m.Unowned id → C id) (hs : ∀ prompt, S prompt) :
    Evolves C L S m (m.restoreAt index) := by
  unfold Model.restoreAt
  split
  next p _ => exact Evolves.informing (Evolves.restore m p.id hc hs)
  next => exact Evolves.refl m

theorem Evolves.stepAnswered (m : Model) (id : String) (hl : L id) : Evolves C L S m (m.stepAnswered id) := by
  apply Evolves.update
  intro _ p _ hid
  split
  next => exact ⟨rfl, fun h => h, fun _ h => h, fun h => Or.inl ⟨h, fun h => h⟩, fun _ => Or.inr (hid ▸ hl),
      fun _ h h' => Or.inl ⟨h, h'⟩⟩
  next => exact Change.refl m p

theorem Evolves.answerShown (m : Model) (approved : Bool) (answers : Answers)
    (hl : ∀ id, m.foreground = some id → m.shownPrompt.isSome = true → L id) (hs : ∀ prompt, S prompt) :
    Evolves C L S m (m.answerShown approved answers) := by
  unfold Model.answerShown
  split
  next => exact Evolves.refl m
  next prompt m' htake =>
    obtain ⟨id, hforeground, htake⟩ := Option.bind_eq_some_iff.mp htake
    obtain ⟨shown, hshown, htake⟩ := Option.map_eq_some_iff.mp htake
    cases htake
    have hanswered : L id := hl id hforeground (by rw [hshown]; rfl)
    have htaken : Evolves C L S m (Model.tidyProcedures (Model.stepAnswered (m.update id fun p => { p with
        prompts := p.prompts.tail
        inFlight := updateFirst (·.request = prompt.id) (fun flight => { flight with denied := !approved })
          p.inFlight }) id)) := by
      refine Evolves.trans (Evolves.trans (Evolves.update ?_) (Evolves.stepAnswered _ _ hanswered)) (Evolves.tidy _)
      intro _ p _ _
      refine ⟨rfl, fun h => h, fun _ h => h, ?_, fun h => Or.inl ⟨h, fun h => h⟩, fun prompt _ _ => Or.inr (hs prompt)⟩
      intro htail
      refine Or.inl ⟨?_, fun h => h⟩
      intro hnil
      apply htail
      show p.prompts.tail = []
      rw [hnil]
      rfl
    split
    next => exact htaken
    next error _ => exact htaken.trans (Evolves.pushNotice _ error .failure)

theorem Evolves.cancelCountdown (m : Model) (hs : ∀ prompt, S prompt) : Evolves C L S m m.cancelCountdown.2 := by
  unfold Model.cancelCountdown
  split
  next id prompt _ _ =>
    split
    next =>
      apply Evolves.update
      intro _ p _ _
      refine ⟨rfl, fun h => h, fun _ h => h, ?_, fun h => Or.inl ⟨h, fun h => h⟩, fun prompt _ _ => Or.inr (hs prompt)⟩
      intro hprompts
      refine Or.inl ⟨?_, fun h => h⟩
      intro hnil
      apply hprompts
      show p.prompts.modifyHead _ = []
      rw [hnil]
      rfl
    next => exact Evolves.refl m
  next => exact Evolves.refl m

theorem Evolves.deploymentAnswered (m : Model) (request : ApprovalRequest)
    (hl : ∀ step, request.procedure = some step → L step.id) : Evolves C L S m (m.deploymentAnswered request) := by
  unfold Model.deploymentAnswered
  dsimp only
  have hfirst : Evolves C L S m { m with procedures := m.procedures.map fun p => { p with
      inFlight := p.inFlight.filter fun flight => flight.kind ≠ .deployment || flight.request = request.id } } :=
    Evolves.map fun _ p _ => Change.calm rfl rfl rfl rfl rfl (fun h => h)
  split
  next => exact hfirst
  next step hstep =>
    refine hfirst.trans (Evolves.update ?_)
    intro _ p _ hid
    split
    next => exact Change.refl _ p
    next => exact ⟨rfl, fun h => h, fun _ h => h, fun h => Or.inl ⟨h, fun h => h⟩,
        fun _ => Or.inr (hid ▸ hl step hstep), fun _ h h' => Or.inl ⟨h, h'⟩⟩

theorem betweenShown_some {m : Model} {p : Procedure} (h : m.betweenShown = some p) :
    m.mode = .browse ∧ m.foreground = some p.id ∧ m.procedure p.id = some p ∧ p.minimised = false ∧
      p.prompts = [] ∧ p.between.isSome = true := by
  unfold betweenShown at h
  split at h
  next hbrowse =>
    obtain ⟨id, hforeground, h⟩ := Option.bind_eq_some_iff.mp h
    obtain ⟨q, hq, h⟩ := Option.bind_eq_some_iff.mp h
    split at h
    next hshown =>
      cases h
      obtain ⟨-, rfl⟩ := procedure_some hq
      simp only [Bool.and_eq_true, Bool.not_eq_true', List.isEmpty_iff] at hshown
      refine ⟨?_, hforeground, hq, hshown.1.1, hshown.1.2, hshown.2⟩
      cases hmode : m.mode with
      | browse => rfl
      | _ =>
        rw [hmode] at hbrowse
        cases hbrowse
    next => cases h
  next => cases h

theorem Evolves.dismissResult (m : Model)
    (hl : ∀ p, m.betweenShown = some p → p.needsAcknowledgement = true → L p.id) :
    Evolves C L S m m.dismissResult := by
  unfold Model.dismissResult
  split
  next => exact Evolves.refl m
  next p hshown =>
    refine Evolves.trans (Evolves.update ?_) (Evolves.tidy _)
    intro hm q hq hid
    obtain ⟨-, -, hp, -⟩ := betweenShown_some hshown
    have hsame := List.inj_on_of_nodup_map hm.nodup hq (procedure_some hp).1 hid
    subst hsame
    split
    next => exact ⟨rfl, fun h => h, fun _ h => h, fun h => Or.inl ⟨h, fun h => h⟩,
        fun h => Or.inr (hl q hshown h), fun _ h h' => Or.inl ⟨h, h'⟩⟩
    next => exact Change.refl m q

end Model

end NixSecrets.Tui
