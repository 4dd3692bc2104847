import NixSecrets.TuiKeys

namespace NixSecrets.Tui

/-- The key that a click on a button stands for. -/
def UiEvent.key : UiEvent → UiEvent
  | .click (.shortcut shortcut) => shortcut.event
  | event => event

/-- A key that answers the deployment dialog. -/
def UiEvent.decides (event : UiEvent) : Bool :=
  event.key = .character 'y' || event.key = .character 'n' || event.key = .escape

def UiEvent.enters (event : UiEvent) : Bool := event.key = .enter

theorem Shortcut.event_key (shortcut : Shortcut) : shortcut.event.key = shortcut.event := by
  cases shortcut with
  | _ => rfl

namespace Model

variable {C L : String → Prop} {S : SecretPrompt → Prop}

/-- What a key may create, take away or take off the screen. -/
structure KeyScope (C L : String → Prop) (S : SecretPrompt → Prop) (m : Model) (event : UiEvent) : Prop where
  creates : ∀ id, m.Unowned id → C id
  offers : ∀ request, event = .approval request →
    ((∀ p ∈ m.procedures, p.id ≠ approvalProcedure request) → C (approvalProcedure request)) ∧
      L (approvalProcedure request)
  answers : ∀ id, m.foreground = some id → m.shownPrompt.isSome = true → L id
  decides : event.decides = true → ∀ request, m.mode = .approval request → ∀ step,
    request.procedure = some step → L step.id
  dismisses : event.enters = true → ∀ p, m.betweenShown = some p → p.needsAcknowledgement = true → L p.id
  prompts : ∀ prompt, S prompt

theorem Evolves.cancelInput (m : Model) (answers : Answers) (hs : ∀ prompt, S prompt) :
    Evolves C L S m (m.cancelInput answers) := by
  unfold Model.cancelInput
  split
  next error _ _ => exact (Evolves.cancelCountdown m hs).trans (Evolves.pushNotice _ error .failure)
  next => exact Evolves.cancelCountdown m hs

theorem Evolves.promptInput {m : Model} {event : UiEvent} (h : KeyScope C L S m event) (answers : Answers) :
    Evolves C L S m (m.promptInput event answers) := by
  unfold Model.promptInput
  split
  next request => exact Evolves.offerApproval m request (h.offers request rfl).1 (h.offers request rfl).2
  next => exact Evolves.minimise m h.creates h.prompts
  next => exact Evolves.minimise m h.creates h.prompts
  next => exact Evolves.informing (Evolves.restoreNext m h.creates h.prompts)
  next index => exact Evolves.restoreAt m index h.creates h.prompts
  next => exact Evolves.cancelInput m answers h.prompts
  next => exact Evolves.cancelInput m answers h.prompts
  next => exact Evolves.answerShown m true answers h.answers h.prompts
  next => exact Evolves.answerShown m true answers h.answers h.prompts
  all_goals first
    | exact Evolves.answerShown m false answers h.answers h.prompts
    | exact Evolves.refl m

/-- The scope only looks at these parts of the model. -/
theorem KeyScope.congr {m m' : Model} {event : UiEvent} (h : KeyScope C L S m event)
    (hprocedures : m'.procedures = m.procedures) (hforeground : m'.foreground = m.foreground)
    (hmode : m'.mode = m.mode) : KeyScope C L S m' event := by
  have hshown : m'.shownPrompt = m.shownPrompt := by
    unfold shownPrompt procedure
    rw [hprocedures, hforeground]
  have hbetween : m'.betweenShown = m.betweenShown := by
    unfold betweenShown procedure
    rw [hprocedures, hforeground, hmode]
  refine ⟨?_, ?_, ?_, ?_, ?_, h.prompts⟩
  · rintro id ⟨hnone, hnew, request, hrequest, hid⟩
    refine h.creates id ⟨?_, ?_, request, ?_, hid⟩
    · rw [← hforeground, hnone]
    · rw [← hprocedures]
      exact hnew
    · rw [← hmode, hrequest]
  · intro request hrequest
    refine ⟨?_, (h.offers request hrequest).2⟩
    rw [hprocedures]
    exact (h.offers request hrequest).1
  · rw [hforeground, hshown]
    exact h.answers
  · rw [hmode]
    exact h.decides
  · rw [hbetween]
    exact h.dismisses

theorem Evolves.confirmation {m : Model} {event : UiEvent} (h : KeyScope C L S m event) (prompt : SecretPrompt)
    (answers : Answers) : Evolves C L S m (m.confirmation prompt event answers) := by
  unfold Model.confirmation
  dsimp only
  have hfresh : Evolves C L S m
      (if m.confirmationTyped.1 = prompt.id then m else { m with confirmationTyped := (prompt.id, "") }) := by
    split
    next => exact Evolves.refl m
    next => exact Evolves.aside rfl rfl
  have hscope : KeyScope C L S
      (if m.confirmationTyped.1 = prompt.id then m else { m with confirmationTyped := (prompt.id, "") }) event := by
    split
    next => exact h
    next => exact h.congr rfl rfl rfl
  refine hfresh.trans ?_
  generalize (if m.confirmationTyped.1 = prompt.id then m
    else { m with confirmationTyped := (prompt.id, "") }) = m at hscope ⊢
  clear h hfresh
  split
  next request => exact Evolves.offerApproval m request (hscope.offers request rfl).1 (hscope.offers request rfl).2
  next => exact Evolves.minimise m hscope.creates hscope.prompts
  next => exact Evolves.minimise m hscope.creates hscope.prompts
  next => exact Evolves.informing (Evolves.restoreNext m hscope.creates hscope.prompts)
  next index => exact Evolves.restoreAt m index hscope.creates hscope.prompts
  next => exact Evolves.aside rfl rfl
  next => exact Evolves.aside rfl rfl
  next => exact Evolves.aside rfl rfl
  next => exact Evolves.aside rfl rfl
  next =>
    split
    next => exact Evolves.answerShown m true answers hscope.answers hscope.prompts
    next => exact Evolves.refl m
  next =>
    split
    next => exact Evolves.answerShown m true answers hscope.answers hscope.prompts
    next => exact Evolves.refl m
  all_goals first
    | exact Evolves.answerShown m false answers hscope.answers hscope.prompts
    | exact Evolves.refl m

/-- A success without warnings needs no acknowledgement. -/
theorem not_needs_of_plain {p : Procedure} (h : (p.hasSucceeded && !p.succeededWithWarnings) = true) :
    p.needsAcknowledgement = false := by
  simp only [Bool.and_eq_true, Bool.not_eq_true'] at h
  cases hneeds : p.needsAcknowledgement with
  | false => rfl
  | true =>
    obtain ⟨succeeded, text, hbetween, hwarned⟩ := Procedure.needsAcknowledgement_result hneeds
    have hsucceeded := h.1
    unfold Procedure.hasSucceeded at hsucceeded
    rw [hbetween] at hsucceeded
    cases succeeded with
    | false => cases hsucceeded
    | true =>
      have hplain := h.2
      simp [Procedure.succeededWithWarnings, Procedure.hasSucceeded, hbetween, hwarned] at hplain

theorem Evolves.betweenInput {m m' : Model} {event : UiEvent} (h : KeyScope C L S m event)
    (hinput : m.betweenInput event = some m') : Evolves C L S m m' := by
  unfold Model.betweenInput at hinput
  split at hinput
  next => cases hinput
  next =>
    obtain ⟨p, hshown, hkey⟩ := Option.bind_eq_some_iff.mp hinput
    clear hinput
    have hbrowse := (betweenShown_some hshown).1
    have hplain : (p.hasSucceeded && !p.succeededWithWarnings) = true → Evolves C L S m m.dismissResult := by
      intro hcloses
      apply Evolves.dismissResult
      intro q hq hneeds
      rw [hshown] at hq
      cases hq
      rw [not_needs_of_plain hcloses] at hneeds
      cases hneeds
    have hany : ∀ m', (if (p.hasSucceeded && !p.succeededWithWarnings) = true then some m.dismissResult
        else some m) = some m' → Evolves C L S m m' := by
      intro m' hm'
      split at hm'
      next hcloses =>
        cases hm'
        exact hplain hcloses
      next =>
        cases hm'
        exact Evolves.refl m
    have henter : event.enters = true → ∀ m', (if p.hasResult = true then some m.dismissResult else some m) =
        some m' → Evolves C L S m m' := by
      intro henters m' hm'
      split at hm'
      next =>
        cases hm'
        exact Evolves.dismissResult m (h.dismisses henters)
      next =>
        cases hm'
        exact Evolves.refl m
    dsimp only at hkey
    split at hkey
    next => cases hkey
    next =>
      cases hkey
      exact Evolves.refl m
    next request =>
      cases hkey
      exact Evolves.offerApproval m request (h.offers request rfl).1 (h.offers request rfl).2
    next index =>
      cases hkey
      exact Evolves.restoreAt m index h.creates h.prompts
    next =>
      split at hkey
      next hcloses =>
        cases hkey
        refine (hplain hcloses).trans (Evolves.restoreNext _ ?_ h.prompts)
        rintro id ⟨-, -, request, hmode, -⟩
        have hmode' : m.dismissResult.mode = m.mode := by
          unfold Model.dismissResult
          rw [hshown]
          rfl
        rw [hmode', hbrowse] at hmode
        cases hmode
      next =>
        cases hkey
        exact Evolves.informing (Evolves.restoreNext m h.creates h.prompts)
    next =>
      cases hkey
      exact Evolves.minimise m h.creates h.prompts
    next =>
      cases hkey
      exact Evolves.minimise m h.creates h.prompts
    next =>
      split at hkey
      next =>
        cases hkey
        exact Evolves.minimise m h.creates h.prompts
      next => exact hany m' hkey
    next => exact henter rfl m' hkey
    next => exact henter rfl m' hkey
    next => exact hany m' hkey

theorem Evolves.intercept {m m' : Model} {event : UiEvent} (h : KeyScope C L S m event) {answers : Answers}
    (hinput : m.intercept event answers = some m') : Evolves C L S m m' := by
  unfold Model.intercept at hinput
  split at hinput
  next => exact Evolves.betweenInput h hinput
  next prompt _ =>
    cases hinput
    split
    next => exact Evolves.confirmation h prompt answers
    next => exact Evolves.promptInput h answers

theorem Evolves.decide (m : Model) (request : ApprovalRequest) (accepted reopens : Bool) (answers : Answers)
    (hl : ∀ step, request.procedure = some step → L step.id) :
    Evolves C L S m (m.decide request accepted reopens answers) := by
  unfold Model.decide
  dsimp only
  have hanswered : Evolves C L S m (Model.deploymentAnswered { m with mode := .browse } request) := by
    refine Evolves.trans ?_ (Evolves.deploymentAnswered _ request hl)
    exact Evolves.aside rfl rfl
  refine hanswered.trans ?_
  generalize Model.deploymentAnswered { m with mode := .browse } request = m₁
  split
  next =>
    split
    next => exact Evolves.aside rfl rfl
    next =>
      split
      next => exact Evolves.aside rfl rfl
      next => exact Evolves.refl _
  next => exact Evolves.refl _
  next message _ =>
    split
    next =>
      refine (Evolves.failUnlessQueued m₁ message).trans ?_
      exact Evolves.aside rfl rfl
    next => exact Evolves.failUnlessQueued m₁ message

theorem Evolves.hostMutations {m : Model} {event : UiEvent} (request : ApprovalRequest) (answers : Answers)
    (hl : event.decides = true → ∀ step, request.procedure = some step → L step.id) :
    Evolves C L S m (m.hostMutations request event answers) := by
  unfold Model.hostMutations
  dsimp only
  have hreviewed : Evolves C L S m (m.reviewed (request.hostMutationToken.getD "") answers) :=
    Evolves.aside rfl rfl
  refine hreviewed.trans ?_
  generalize m.reviewed (request.hostMutationToken.getD "") answers = m₁
  have hdecided (accepted reopens : Bool) (hdecides : event.decides = true) : Evolves C L S m₁
      (if (accepted && !answers.reviewSeen) = true then m₁
        else if request.hostMutationToken.getD "" = "" then
          { Model.fail { m₁ with mode := .browse }
              "This replacement review has no batch identifier; no values were changed." with
            mode := .approval request }
        else m₁.decide request accepted reopens answers) := by
    split
    next => exact Evolves.refl m₁
    next =>
      split
      next =>
        have hclosed : Evolves C L S m₁ { m₁ with mode := .browse } := Evolves.aside rfl rfl
        have hfailed : Evolves C L S { m₁ with mode := .browse } (Model.fail { m₁ with mode := .browse }
            "This replacement review has no batch identifier; no values were changed.") :=
          Evolves.pushNotice _ _ .failure
        refine hclosed.trans (hfailed.trans ?_)
        exact Evolves.aside rfl rfl
      next => exact Evolves.decide m₁ request _ _ answers (hl hdecides)
  split
  next => exact hdecided _ _ rfl
  next => exact hdecided _ _ rfl
  next => exact hdecided _ _ rfl
  next => exact Evolves.refl m₁

theorem Evolves.approvalInput {m : Model} {event : UiEvent} (request : ApprovalRequest) (answers : Answers)
    (hl : event.decides = true → ∀ step, request.procedure = some step → L step.id) :
    Evolves C L S m (m.approvalInput request event answers) := by
  unfold Model.approvalInput
  split
  next => exact Evolves.hostMutations request answers hl
  next =>
    dsimp only
    split
    next =>
      split
      next => exact Evolves.aside rfl rfl
      next => exact Evolves.refl m
    next =>
      split
      next => exact Evolves.aside rfl rfl
      next => exact Evolves.refl m
    next =>
      split
      next => exact Evolves.aside rfl rfl
      next => exact Evolves.refl m
    next =>
      split
      next => exact Evolves.aside rfl rfl
      next => exact Evolves.refl m
    next =>
      split
      next => exact Evolves.aside rfl rfl
      next => exact Evolves.refl m
    next =>
      split
      next => exact Evolves.decide m request true false answers (hl rfl)
      next => exact Evolves.refl m
    next => exact Evolves.decide m request false true answers (hl rfl)
    next => exact Evolves.decide m request false true answers (hl rfl)
    next => exact Evolves.refl m

theorem Evolves.elsewhere (m : Model) (answers : Answers) : Evolves C L S m (m.elsewhere answers) := by
  unfold Model.elsewhere
  dsimp only
  cases answers.notice with
  | none => exact Evolves.aside rfl rfl
  | some notice =>
    refine Evolves.trans ?_ (Evolves.pushNotice _ notice.text notice.severity)
    exact Evolves.aside rfl rfl

theorem Evolves.dispatch {m : Model} {event : UiEvent} (h : KeyScope C L S m event) (answers : Answers) :
    Evolves C L S m (m.dispatch event answers) := by
  have hrestore := Evolves.informing (Evolves.restoreNext m h.creates h.prompts) (C := C) (L := L)
  unfold Model.dispatch
  split
  next request hmode =>
    split
    next => exact (Evolves.minimise m h.creates h.prompts).trans (Evolves.showPendingApproval _)
    next => exact hrestore.trans (Evolves.showPendingApproval _)
    next =>
      refine Evolves.trans ?_ (Evolves.showPendingApproval _)
      exact Evolves.approvalInput request answers fun hdecides => h.decides hdecides request hmode
  next =>
    split
    next => exact hrestore.trans (Evolves.showPendingApproval _)
    next => exact (Evolves.elsewhere m answers).trans (Evolves.showPendingApproval _)
  next => exact (Evolves.elsewhere m answers).trans (Evolves.showPendingApproval _)

/-- A button has the scope of its key. -/
theorem KeyScope.shortcut {m : Model} {shortcut : Shortcut} (h : KeyScope C L S m (.click (.shortcut shortcut))) :
    KeyScope C L S m shortcut.event := by
  refine ⟨h.creates, ?_, h.answers, ?_, ?_, h.prompts⟩
  · intro request hrequest
    cases shortcut with
    | _ => cases hrequest
  · intro hdecides
    apply h.decides
    unfold UiEvent.decides at hdecides ⊢
    rw [shortcut.event_key] at hdecides
    exact hdecides
  · intro henters
    apply h.dismisses
    unfold UiEvent.enters at henters ⊢
    rw [shortcut.event_key] at henters
    exact henters

theorem Evolves.click {m : Model} {target : MouseTarget} (h : KeyScope C L S m (.click target))
    (answers : Answers) : Evolves C L S m (m.click target answers) := by
  unfold Model.click
  split
  next index => exact Evolves.restoreAt m index h.creates h.prompts
  next shortcut => exact Evolves.dispatch h.shortcut answers
  next =>
    have hdecides : UiEvent.decides .confirmLoss = false := rfl
    have henters : UiEvent.enters .confirmLoss = false := rfl
    apply Evolves.dispatch
    refine ⟨h.creates, fun _ hsame => ?_, h.answers, fun hd => ?_, fun he => ?_, h.prompts⟩
    · cases hsame
    · exact Bool.noConfusion (hdecides.symm.trans hd)
    · exact Bool.noConfusion (henters.symm.trans he)
  next index request _ => exact Evolves.approvalInput request answers nofun
  next => exact Evolves.refl m
  next => exact Evolves.elsewhere m answers

theorem Evolves.act {m : Model} {event : UiEvent} (h : KeyScope C L S m event) (answers : Answers) :
    Evolves C L S m (m.act event answers) := by
  unfold Model.act
  split
  next => exact Evolves.click h answers
  next => exact Evolves.dispatch h answers

end Model

end NixSecrets.Tui
