import NixSecrets.TuiScreen

namespace NixSecrets.Tui

/-- The entered value that a dialog about one value holds. -/
def Entry.drafts : Entry → List (String × Value)
  | .edit path value | .replace path value _ => [(path, value)]
  | .deleteConfirm _ _ => []

def Dialog.drafts : Dialog → List (String × Value)
  | .entry e => e.drafts
  | .reveal _ _ (some e) => e.drafts
  | .providerFailure _ path value => [(path, value)]
  | _ => []

def Mode.drafts : Mode → List (String × Value)
  | .dialog d => d.drafts
  | _ => []

theorem Mode.eq_browse {mode : Mode} (h : mode.isBrowse = true) : mode = .browse := by
  cases mode with
  | browse => rfl
  | approval request => cases h
  | dialog dialog => cases h

theorem Mode.bulkProgress_drafts {mode : Mode} (h : mode.isBulkProgress = true) : mode.drafts = [] := by
  cases mode with
  | browse => rfl
  | approval request => rfl
  | dialog dialog =>
    cases dialog with
    | bulkProgress total done => rfl
    | _ => cases h

namespace Model

/-- The entered values that wait behind the open dialog. -/
def waitingDrafts (m : Model) : List (String × Value) := m.pendingDialogs.flatMap Dialog.drafts

/-- The entered values that the UI holds. -/
def drafts (m : Model) : List (String × Value) := m.mode.drafts ++ m.waitingDrafts

/-- The same dialog is open, and the same ones wait. -/
structure SameDialogs (m m' : Model) : Prop where
  mode : m'.mode = m.mode
  pending : m'.pendingDialogs = m.pendingDialogs

namespace SameDialogs

variable {m m' m'' : Model}

theorem refl (m : Model) : m.SameDialogs m := ⟨rfl, rfl⟩

theorem trans (h : m.SameDialogs m') (h' : m'.SameDialogs m'') : m.SameDialogs m'' :=
  ⟨h'.mode.trans h.mode, h'.pending.trans h.pending⟩

theorem drafts (h : m.SameDialogs m') : m'.drafts = m.drafts := by
  unfold Model.drafts waitingDrafts
  rw [h.mode, h.pending]

theorem update (m : Model) (id : String) (f : Procedure → Procedure) : m.SameDialogs (m.update id f) := ⟨rfl, rfl⟩

theorem tidyProcedures (m : Model) : m.SameDialogs m.tidyProcedures := ⟨rfl, rfl⟩

theorem ensureProcedure (m : Model) (id title : String) (step : Option ProcedureStep) :
    m.SameDialogs (m.ensureProcedure id title step) := by
  unfold Model.ensureProcedure
  by_cases hknown : m.procedures.any (·.id = id)
  · rw [if_pos hknown]
    cases step with
    | none => exact refl m
    | some step => exact update m id _
  · rw [if_neg hknown]
    cases step with
    | none => exact ⟨rfl, rfl⟩
    | some step => exact ⟨rfl, rfl⟩

theorem arrive (m : Model) (id : String) : m.SameDialogs (m.arrive id) := by
  unfold Model.arrive
  dsimp only
  split
  next => exact refl m
  next =>
    split
    next => exact ⟨rfl, rfl⟩
    next => exact ⟨rfl, rfl⟩

theorem offerPrompt (m : Model) (prompt : SecretPrompt) : m.SameDialogs (m.offerPrompt prompt) := by
  unfold Model.offerPrompt
  dsimp only
  generalize (if prompt.confirmation && (m.procedure (promptProcedure prompt)).isSome then none
    else prompt.procedure) = current
  have hasked := (ensureProcedure m (promptProcedure prompt) prompt.title current).trans
    (update _ (promptProcedure prompt) (·.asked prompt))
  split
  next => exact hasked
  next => exact hasked.trans (arrive _ _)

theorem procedureEnded (m : Model) (id : String) (exitCode : Option Int) :
    m.SameDialogs (m.procedureEnded id exitCode) := by
  unfold Model.procedureEnded
  dsimp only
  split
  next => exact ⟨rfl, rfl⟩
  next => exact ⟨rfl, rfl⟩

theorem recordStep (m : Model) (id : String) (flight : InFlight) (outcome : StepOutcome) (text : String) :
    m.SameDialogs (m.recordStep id flight outcome text) := by
  unfold Model.recordStep
  dsimp only
  split
  next => exact ⟨rfl, rfl⟩
  next p _ =>
    split
    next =>
      split
      next => exact ⟨rfl, rfl⟩
      next =>
        split
        next => exact ⟨rfl, rfl⟩
        next => exact (update m id _).trans (procedureEnded _ id p.exitCode)
    next => exact ⟨rfl, rfl⟩

theorem stepReported (m : Model) (step : ProcedureStep) (outcome : StepOutcome) (reason : String) :
    m.SameDialogs (m.stepReported step outcome reason) := by
  unfold Model.stepReported
  dsimp only
  generalize (if outcome = .warning then "warning" else "failed") ++ ":" ++ step.id ++ ":" ++ toString step.step =
    request
  split
  next => exact refl m
  next =>
    split
    next => exact update m _ _
    next => exact (recordStep m _ _ _ _).trans (tidyProcedures _)

theorem procedureStep (m : Model) (step : ProcedureStep) : m.SameDialogs (m.procedureStep step) := by
  unfold Model.procedureStep
  dsimp only
  have hreport (m : Model) (outcome : StepOutcome) (reason : Option String) :
      m.SameDialogs (reason.elim m (m.stepReported step outcome)) := by
    cases reason with
    | none => exact refl m
    | some reason => exact stepReported m step outcome reason
  refine SameDialogs.trans (SameDialogs.trans ?_ (hreport _ _ _)) (hreport _ _ _)
  have hensured := ensureProcedure m step.id "" (some step)
  split
  next => exact hensured.trans (update _ _ _)
  next => exact hensured

theorem takeInFlight {m : Model} {request id : String} {flight : InFlight}
    (h : m.takeInFlight request = some (id, flight, m')) : m.SameDialogs m' := by
  obtain ⟨p, -, h⟩ := Option.bind_eq_some_iff.mp h
  obtain ⟨known, -, heq⟩ := Option.map_eq_some_iff.mp h
  cases heq
  exact update m _ _

theorem stepFinished (m : Model) (now : Nat) (request : String) (outcome : Except String (Option String)) :
    m.SameDialogs (m.stepFinished now request outcome).2 := by
  unfold Model.stepFinished
  split
  next => exact refl m
  next hflight => exact ((takeInFlight hflight).trans (recordStep _ _ _ _ _)).trans (tidyProcedures _)

theorem deploymentAnswered (m : Model) (request : ApprovalRequest) : m.SameDialogs (m.deploymentAnswered request) := by
  unfold Model.deploymentAnswered
  dsimp only
  split
  next => exact ⟨rfl, rfl⟩
  next => exact ⟨rfl, rfl⟩

theorem dismissResult (m : Model) : m.SameDialogs m.dismissResult := by
  unfold Model.dismissResult
  split
  next => exact refl m
  next => exact (update m _ _).trans (tidyProcedures _)

theorem removePrompt (m : Model) (id : String) : m.SameDialogs (m.removePrompt id) := ⟨rfl, rfl⟩

theorem promptMissed (m : Model) (id : String) (outcome : StepOutcome) (text : String) :
    m.SameDialogs (m.promptMissed id outcome text) := by
  unfold Model.promptMissed
  dsimp only
  have hdropped : m.SameDialogs (m.dropPrompt id) := ⟨rfl, rfl⟩
  split
  next hflight => exact ((hdropped.trans (takeInFlight hflight)).trans (recordStep _ _ _ _ _)).trans (tidyProcedures _)
  next => exact hdropped.trans (tidyProcedures _)

theorem takeShownPrompt {approved : Bool} {prompt : SecretPrompt}
    (h : m.takeShownPrompt approved = some (prompt, m')) : m.SameDialogs m' := by
  obtain ⟨id, -, h⟩ := Option.bind_eq_some_iff.mp h
  obtain ⟨shown, -, heq⟩ := Option.map_eq_some_iff.mp h
  cases heq
  exact ⟨rfl, rfl⟩

theorem foldl {α : Type} {f : Model → α → Model} (hf : ∀ (m : Model) a, m.SameDialogs (f m a)) (m : Model) (xs : List α) :
    m.SameDialogs (xs.foldl f m) := by
  induction xs generalizing m with
  | nil => exact refl m
  | cons x rest ih => exact (hf m x).trans (ih (f m x))

theorem expirePrompts (m : Model) (now : Nat) : m.SameDialogs (m.expirePrompts now) :=
  foldl (fun m (prompt : SecretPrompt) => promptMissed m prompt.id .timedOut "no answer within 120 s") m _

theorem cancelCountdown (m : Model) : m.SameDialogs m.cancelCountdown.2 := by
  unfold Model.cancelCountdown
  split
  next =>
    split
    next => exact update m _ _
    next => exact refl m
  next => exact refl m

theorem connectionLost (m : Model) : m.SameDialogs m.connectionLost := ⟨rfl, rfl⟩

theorem proceduresSynced (m : Model) (live : List String) : m.SameDialogs (m.proceduresSynced live) :=
  (foldl (fun m id => procedureEnded m id none) m _).trans (tidyProcedures _)

theorem pushNotice (m : Model) (text : String) (severity : NoticeSeverity) :
    m.SameDialogs (m.pushNotice text severity) := by
  unfold Model.pushNotice
  dsimp only
  split
  next => exact refl m
  next =>
    split
    next =>
      split
      next => exact ⟨rfl, rfl⟩
      next => exact ⟨rfl, rfl⟩
    next =>
      split
      next => exact ⟨rfl, rfl⟩
      next => exact ⟨rfl, rfl⟩

theorem failUnlessQueued (m : Model) (error : String) : m.SameDialogs (m.failUnlessQueued error) := by
  unfold Model.failUnlessQueued
  split
  next => exact refl m
  next => exact pushNotice m error .failure

theorem handle (m : Model) (event : ProcedureEvent) : m.SameDialogs (m.handle event) := by
  cases event with
  | step step => exact procedureStep m step
  | ended id exitCode => exact procedureEnded m id exitCode
  | withdrawn id => exact promptMissed m id _ _
  | disconnected => exact connectionLost m
  | reconnected => exact pushNotice m _ .info
  | synced live => exact proceduresSynced m live

end SameDialogs

theorem drafts_of_mode {m m' : Model} (hmode : m'.mode.drafts = m.mode.drafts)
    (hpending : m'.pendingDialogs = m.pendingDialogs) : m'.drafts = m.drafts := by
  unfold drafts waitingDrafts
  rw [hmode, hpending]

/-- A dialog that opens in the place of the tree is the one that waited first. -/
@[simp] theorem showPendingApproval_drafts (m : Model) : m.showPendingApproval.drafts = m.drafts := by
  rw [← (SameDialogs.tidyProcedures m).drafts]
  unfold showPendingApproval
  generalize m.tidyProcedures = m
  dsimp only
  split
  next dialog dialogs hmode hpending =>
    unfold drafts waitingDrafts
    rw [hmode, hpending]
    rfl
  next request hmode hpending _ =>
    apply drafts_of_mode
    · rw [hmode]
      rfl
    · rfl
  next =>
    split
    next => rfl
    next => rfl
  next => rfl

/-- While the tree is on screen no dialog waits. -/
def Idle (m : Model) : Prop := m.mode = .browse → m.pendingDialogs = []

theorem showPendingApproval_idle (m : Model) : m.showPendingApproval.Idle := by
  unfold showPendingApproval
  generalize m.tidyProcedures = m
  dsimp only
  split
  next => exact nofun
  next => exact nofun
  next hpending _ =>
    intro _
    split
    next => exact hpending
    next => exact hpending
  next hnot _ _ =>
    intro hmode
    cases hpending : m.pendingDialogs with
    | nil => rfl
    | cons dialog dialogs => exact (hnot dialog dialogs hmode hpending).elim

theorem SameDialogs.idle {m m' : Model} (h : m.SameDialogs m') (hidle : m.Idle) : m'.Idle := by
  intro hmode
  rw [h.mode] at hmode
  rw [h.pending]
  exact hidle hmode

@[simp] theorem acknowledge_drafts (m : Model) : m.acknowledge.drafts = m.drafts := showPendingApproval_drafts _

@[simp] theorem offerApproval_drafts (m : Model) (request : ApprovalRequest) :
    (m.offerApproval request).drafts = m.drafts := by
  unfold offerApproval
  split
  next => rfl
  next =>
    dsimp only
    have hensured := (SameDialogs.ensureProcedure m (approvalProcedure request) ("Deploy " ++ request.target)
      request.procedure).trans (SameDialogs.update _ (approvalProcedure request) fun p =>
        { p with awaitingDeployment := false, between := none })
    rw [← hensured.drafts]
    generalize Model.update _ _ _ = m
    split
    next => exact showPendingApproval_drafts _
    next =>
      have hqueued : (arrive { m with pendingApprovals := m.pendingApprovals ++ [request] }
          (approvalProcedure request)).showPendingApproval.drafts = m.drafts := by
        rw [showPendingApproval_drafts, (SameDialogs.arrive _ _).drafts]
        rfl
      split
      next current hmode =>
        split
        next =>
          split
          next =>
            apply drafts_of_mode
            · rw [hmode]
              rfl
            · rfl
          next => rfl
        next => exact hqueued
      next => exact hqueued

@[simp] theorem finishApproval_drafts (m : Model) (id : String) : (m.finishApproval id).drafts = m.drafts := by
  unfold finishApproval
  rw [(SameDialogs.tidyProcedures _).drafts]
  apply drafts_of_mode
  · dsimp only
    split
    next request hmode =>
      split
      next =>
        rw [hmode]
        rfl
      next => rfl
    next => rfl
  · rfl

theorem ownApproval_drafts (m : Model) : m.ownApproval.drafts = m.drafts := by
  unfold ownApproval
  split
  next => exact (SameDialogs.ensureProcedure m _ _ _).drafts
  next => rfl

theorem parkApproval_drafts (m : Model) (id : String) : (m.parkApproval id).drafts = m.drafts := by
  unfold parkApproval
  split
  next request hmode =>
    split
    next =>
      apply drafts_of_mode
      · rw [hmode]
        rfl
      · rfl
    next => rfl
  next => rfl

@[simp] theorem minimise_drafts (m : Model) : m.minimise.drafts = m.drafts := by
  unfold minimise
  rw [← ownApproval_drafts m]
  generalize m.ownApproval = m
  dsimp only
  split
  next => rfl
  next id _ =>
    split
    next => rfl
    next =>
      rw [(SameDialogs.tidyProcedures _).drafts, ← parkApproval_drafts m id]
      rfl

theorem bringUp_drafts (m : Model) (id : String) : (m.bringUp id).drafts = m.drafts := by
  unfold bringUp
  dsimp only
  split
  next => exact showPendingApproval_drafts _
  next => rfl

theorem restore_drafts (m : Model) (id : String) : (m.restore id).2.drafts = m.drafts := by
  unfold restore
  split
  next => rfl
  next =>
    split
    next => rfl
    next =>
      split
      next => exact bringUp_drafts m id
      next =>
        dsimp only
        split
        next => exact minimise_drafts m
        next =>
          split
          next => exact minimise_drafts m
          next => exact (bringUp_drafts _ id).trans (minimise_drafts m)

@[simp] theorem restoreNext_drafts (m : Model) : m.restoreNext.2.drafts = m.drafts := by
  unfold restoreNext
  split
  next => exact restore_drafts m _
  next => rfl

theorem informing_drafts (answer : Option String × Model) : (informing answer).drafts = answer.2.drafts := by
  obtain ⟨reason, m⟩ := answer
  cases reason with
  | none => rfl
  | some reason => exact (SameDialogs.pushNotice m reason .info).drafts

@[simp] theorem restoreAt_drafts (m : Model) (index : Nat) : (m.restoreAt index).drafts = m.drafts := by
  unfold restoreAt
  split
  next => exact (informing_drafts _).trans (restore_drafts m _)
  next => rfl

@[simp] theorem answerShown_drafts (m : Model) (approved : Bool) (answers : Answers) :
    (m.answerShown approved answers).drafts = m.drafts := by
  unfold answerShown
  split
  next => rfl
  next htake =>
    have htaken := SameDialogs.takeShownPrompt htake
    split
    next => exact htaken.drafts
    next => exact (htaken.trans (SameDialogs.pushNotice _ _ .failure)).drafts

@[simp] theorem cancelInput_drafts (m : Model) (answers : Answers) : (m.cancelInput answers).drafts = m.drafts := by
  unfold cancelInput
  split
  next => exact ((SameDialogs.cancelCountdown m).trans (SameDialogs.pushNotice _ _ .failure)).drafts
  next => exact (SameDialogs.cancelCountdown m).drafts

@[simp] theorem restoreNext_informing_drafts (m : Model) : (informing m.restoreNext).drafts = m.drafts :=
  (informing_drafts _).trans (restoreNext_drafts m)

theorem promptInput_drafts (m : Model) (event : UiEvent) (answers : Answers) :
    (m.promptInput event answers).drafts = m.drafts := by
  unfold promptInput
  split
  all_goals simp only [offerApproval_drafts, minimise_drafts, restoreNext_informing_drafts, restoreAt_drafts,
    cancelInput_drafts, answerShown_drafts]

theorem confirmation_drafts (m : Model) (prompt : SecretPrompt) (event : UiEvent) (answers : Answers) :
    (m.confirmation prompt event answers).drafts = m.drafts := by
  unfold confirmation
  dsimp only
  have hsame : m.SameDialogs
      (if m.confirmationTyped.1 = prompt.id then m else { m with confirmationTyped := (prompt.id, "") }) := by
    split
    next => exact SameDialogs.refl m
    next => exact ⟨rfl, rfl⟩
  rw [← hsame.drafts]
  generalize (if m.confirmationTyped.1 = prompt.id then m else { m with confirmationTyped := (prompt.id, "") }) = m
  have htyped (m' : Model) (h : m.SameDialogs m') : m'.drafts = m.drafts := h.drafts
  split
  all_goals try simp only [offerApproval_drafts, minimise_drafts, restoreNext_informing_drafts, restoreAt_drafts,
    answerShown_drafts, apply_ite drafts, ite_self]
  all_goals exact htyped _ ⟨rfl, rfl⟩

theorem betweenInput_drafts {m m' : Model} {event : UiEvent} (h : m.betweenInput event = some m') :
    m'.drafts = m.drafts := by
  unfold betweenInput at h
  split at h
  next => cases h
  next =>
    obtain ⟨p, -, h⟩ := Option.bind_eq_some_iff.mp h
    dsimp only at h
    have hdismissed := (SameDialogs.dismissResult m).drafts
    split at h
    all_goals try split at h
    all_goals try split at h
    all_goals cases h
    all_goals simp only [offerApproval_drafts, minimise_drafts, restoreNext_informing_drafts, restoreAt_drafts,
      restoreNext_drafts, hdismissed]

theorem intercept_drafts {m m' : Model} {event : UiEvent} {answers : Answers}
    (h : m.intercept event answers = some m') : m'.drafts = m.drafts := by
  unfold intercept at h
  split at h
  next => exact betweenInput_drafts h
  next prompt _ =>
    cases h
    split
    next => exact confirmation_drafts m prompt event answers
    next => exact promptInput_drafts m event answers

theorem noticeInput_drafts (m : Model) (severity : NoticeSeverity) (event : UiEvent) :
    (m.noticeInput severity event).2.drafts = m.drafts := by
  unfold noticeInput
  split
  all_goals first
    | rfl
    | exact acknowledge_drafts m

theorem decide_drafts (m : Model) (request : ApprovalRequest) (accepted reopens : Bool) (answers : Answers)
    (hmode : m.mode.drafts = []) : (m.decide request accepted reopens answers).drafts = m.drafts := by
  unfold decide
  dsimp only
  have hanswered := SameDialogs.deploymentAnswered { m with mode := .browse } request
  have hwaiting : ({ m with mode := .browse }.deploymentAnswered request).pendingDialogs = m.pendingDialogs :=
    hanswered.pending
  have hclosed : ({ m with mode := .browse }.deploymentAnswered request).drafts = m.drafts := by
    rw [hanswered.drafts]
    apply drafts_of_mode
    · rw [hmode]
      rfl
    · rfl
  generalize { m with mode := .browse }.deploymentAnswered request = closed at hwaiting hclosed
  have hreopen (m' : Model) (next : ApprovalRequest) (hpending : m'.pendingDialogs = m.pendingDialogs) :
      { m' with mode := .approval next }.drafts = m.drafts := by
    apply drafts_of_mode
    · rw [hmode]
      rfl
    · exact hpending
  split
  next next _ =>
    split
    next => exact hreopen _ _ hwaiting
    next =>
      split
      next => exact hreopen _ _ hwaiting
      next => exact hclosed
  next => exact hclosed
  next message _ =>
    have hfailed := SameDialogs.failUnlessQueued closed message
    split
    next => exact hreopen _ _ (hfailed.pending.trans hwaiting)
    next => exact hfailed.drafts.trans hclosed

theorem reviewed_same (m : Model) (token : String) (answers : Answers) : m.SameDialogs (m.reviewed token answers) :=
  ⟨rfl, rfl⟩

theorem hostMutations_drafts (m : Model) (request : ApprovalRequest) (event : UiEvent) (answers : Answers)
    (hmode : m.mode.drafts = []) : (m.hostMutations request event answers).drafts = m.drafts := by
  unfold hostMutations
  dsimp only
  have hreviewed := reviewed_same m (request.hostMutationToken.getD "") answers
  have hmode' : (m.reviewed (request.hostMutationToken.getD "") answers).mode.drafts = [] := by
    rw [hreviewed.mode, hmode]
  rw [← hreviewed.drafts]
  generalize m.reviewed (request.hostMutationToken.getD "") answers = m at hmode'
  have hanswer : ∀ accepted reopens refused, (if refused = true then m
      else if request.hostMutationToken.getD "" = "" then
        { { m with mode := .browse }.fail
            "This replacement review has no batch identifier; no values were changed." with
          mode := .approval request }
      else m.decide request accepted reopens answers).drafts = m.drafts := by
    intro accepted reopens refused
    split
    next => rfl
    next =>
      split
      next =>
        have hfailed := SameDialogs.pushNotice { m with mode := .browse }
          "This replacement review has no batch identifier; no values were changed." .failure
        apply drafts_of_mode
        · rw [hmode']
          rfl
        · exact hfailed.pending
      next => exact decide_drafts m request accepted reopens answers hmode'
  split
  next => exact hanswer _ _ _
  next => exact hanswer _ _ _
  next => exact hanswer _ _ _
  next => rfl

theorem approvalInput_drafts (m : Model) (request : ApprovalRequest) (event : UiEvent) (answers : Answers)
    (hmode : m.mode.drafts = []) : (m.approvalInput request event answers).drafts = m.drafts := by
  have hchanged (request : ApprovalRequest) : { m with mode := .approval request }.drafts = m.drafts := by
    apply drafts_of_mode
    · rw [hmode]
      rfl
    · rfl
  unfold approvalInput
  split
  next => exact hostMutations_drafts m request event answers hmode
  next =>
    dsimp only
    split
    all_goals try split
    all_goals first
      | rfl
      | exact hchanged _
      | exact decide_drafts m request _ _ answers hmode

theorem dispatch_drafts (m : Model) (event : UiEvent) (answers : Answers)
    (hmode : m.mode.isApproval = true ∨ m.mode = .browse ∧ event = .character 'M') :
    (m.dispatch event answers).drafts = m.drafts := by
  unfold dispatch
  split
  next request happroval =>
    split
    next => rw [showPendingApproval_drafts, minimise_drafts]
    next => rw [showPendingApproval_drafts, restoreNext_informing_drafts]
    next =>
      rw [showPendingApproval_drafts]
      apply approvalInput_drafts
      rw [happroval]
      rfl
  next hbrowse =>
    split
    next => rw [showPendingApproval_drafts, restoreNext_informing_drafts]
    next hnot =>
      rw [hbrowse] at hmode
      rcases hmode with happroval | ⟨-, hevent⟩
      · cases happroval
      · exact absurd hevent hnot
  next hdialog =>
    rw [hdialog] at hmode
    rcases hmode with happroval | ⟨hbrowse, -⟩
    · cases happroval
    · cases hbrowse

theorem closeApproval_drafts (m : Model) : m.closeApproval.drafts = m.drafts := by
  unfold closeApproval
  split
  next happroval =>
    apply drafts_of_mode
    · cases hmode : m.mode with
      | approval request => rfl
      | browse => rfl
      | dialog dialog =>
        rw [hmode] at happroval
        cases happroval
    · rfl
  next => rfl

theorem outcomeCloses_drafts (m : Model) (completion : Completion Report) :
    (m.outcomeCloses completion).drafts = m.drafts := by
  unfold outcomeCloses
  split
  next => rfl
  next => exact closeApproval_drafts m
  next => exact closeApproval_drafts m

theorem openDialog_drafts (m : Model) (dialog : Dialog) (asking : List Dialog)
    (hasking : ∀ below ∈ asking, below.drafts = dialog.drafts) :
    m.drafts.Sublist (m.openDialog dialog asking).drafts := by
  unfold openDialog
  split
  next hmode =>
    unfold drafts waitingDrafts
    rw [hmode]
    exact List.sublist_append_right _ _
  next below hmode =>
    split
    next hmem =>
      have hsame : { m with mode := .dialog dialog }.drafts = m.drafts := by
        apply drafts_of_mode
        · rw [hmode]
          exact (hasking below hmem).symm
        · rfl
      rw [hsame]
    next => exact List.Sublist.refl _
  next => exact List.Sublist.refl _

/-- A dialog of the report keeps what the one below it holds. -/
def Careful : Completion Report → Prop
  | .reported (.dialog dialog asking) => ∀ below ∈ asking, below.drafts = dialog.drafts
  | _ => True

theorem notice_drafts (m : Model) (text : String) (severity : NoticeSeverity) :
    (m.closeApproval.pushNotice text severity).drafts = m.drafts :=
  (SameDialogs.pushNotice _ text severity).drafts.trans (closeApproval_drafts m)

theorem noticeCompletion_drafts (m : Model) (completion : Completion Report) (hcareful : Careful completion) :
    m.drafts.Sublist (m.noticeCompletion completion).drafts := by
  have hsame {m' : Model} (h : m'.drafts = m.drafts) : m.drafts.Sublist m'.drafts := by rw [h]
  have hpushed (text : String) (severity : NoticeSeverity) : m.drafts.Sublist (m.pushNotice text severity).drafts :=
    hsame (SameDialogs.pushNotice m text severity).drafts
  have hcleared : { m.closeApproval with pendingApprovals := [] }.drafts = m.drafts := closeApproval_drafts m
  unfold noticeCompletion
  split
  next => exact hpushed _ .info
  next =>
    split
    next hbrowse =>
      unfold drafts waitingDrafts
      rw [Mode.eq_browse hbrowse]
      exact List.sublist_cons_self _ _
    next =>
      unfold drafts waitingDrafts
      rw [List.flatMap_append, ← List.append_assoc]
      exact List.sublist_append_left _ _
  next => exact hpushed _ .failure
  next =>
    dsimp only
    have hdone : (if m.mode.isBulkProgress then { m with mode := .browse } else m).drafts = m.drafts := by
      split
      next hbulk => exact drafts_of_mode (Mode.bulkProgress_drafts hbulk).symm rfl
      next => rfl
    generalize (if m.mode.isBulkProgress then { m with mode := .browse } else m) = m₁ at hdone
    split
    next => exact hsame ((SameDialogs.pushNotice m₁ _ .info).drafts.trans hdone)
    next => exact hsame ((SameDialogs.pushNotice m₁ _ .failure).drafts.trans hdone)
  next total done =>
    split
    next hbulk => exact hsame (drafts_of_mode (Mode.bulkProgress_drafts hbulk).symm rfl)
    next => exact List.Sublist.refl _
  next id => exact hsame (finishApproval_drafts m id)
  next request => exact hsame ((offerApproval_drafts _ request).trans (closeApproval_drafts m))
  next => exact hsame (notice_drafts m _ .info)
  next => exact hsame (notice_drafts m _ .info)
  next =>
    split
    next => exact hsame (notice_drafts m _ .failure)
    next => exact hsame (notice_drafts m _ .info)
  next => exact hsame (closeApproval_drafts m)
  next => exact hsame ((SameDialogs.pushNotice _ _ .failure).drafts.trans hcleared)
  next => exact hpushed _ .failure
  next dialog asking => exact openDialog_drafts m dialog asking hcareful
  next => exact hpushed _ .info
  next => exact List.Sublist.refl _
  next kind id requester result =>
    have hremoved (text : String) : m.drafts.Sublist ((m.removePrompt id).fail text).drafts :=
      hsame ((SameDialogs.removePrompt m id).trans (SameDialogs.pushNotice _ text .failure)).drafts
    split
    next => exact hpushed _ .info
    next => exact hpushed _ .info
    next => exact hpushed _ .info
    next => exact hpushed _ .info
    next => exact hremoved _
    next => exact hremoved _
    next => exact hremoved _
    next => exact hremoved _

theorem applyCompletion_drafts (m : Model) (now : Nat) (completion : Completion Report)
    (hcareful : Careful completion) : m.drafts.Sublist (m.applyCompletion now completion).drafts := by
  unfold applyCompletion
  split
  next =>
    rw [showPendingApproval_drafts]
    exact noticeCompletion_drafts m completion hcareful
  next request outcome _ =>
    have hclosed := outcomeCloses_drafts m completion
    have hafter {m' m'' : Model} {seen : Bool} (h : m'.drafts = m.drafts)
        (hstep : m'.stepFinished now request outcome = (seen, m'')) : m''.drafts = m.drafts := by
      have hsame := (SameDialogs.stepFinished m' now request outcome).drafts
      rw [hstep] at hsame
      exact hsame.trans h
    cases outcome with
    | ok text =>
      dsimp only
      split
      next hstep => rw [showPendingApproval_drafts, hafter hclosed hstep]
      next hstep =>
        rw [showPendingApproval_drafts, ← hafter hclosed hstep]
        exact noticeCompletion_drafts _ completion hcareful
    | error error =>
      have hremoved := (SameDialogs.removePrompt (m.outcomeCloses completion) request).drafts.trans hclosed
      dsimp only
      split
      next hstep => rw [showPendingApproval_drafts, hafter hremoved hstep]
      next hstep =>
        rw [showPendingApproval_drafts, ← hafter hremoved hstep]
        exact noticeCompletion_drafts _ completion hcareful

theorem applyCompletion_idle (m : Model) (now : Nat) (completion : Completion Report) :
    (m.applyCompletion now completion).Idle := by
  unfold applyCompletion
  split
  next => exact showPendingApproval_idle _
  next =>
    dsimp only
    split
    next => exact showPendingApproval_idle _
    next => exact showPendingApproval_idle _

/-- A value that could not be saved is in the dialog that opens, or waits behind the open one. -/
theorem applyCompletion_saveFailed (m : Model) (now : Nat) (path message : String) (value : Value) :
    ((path, value) :: m.drafts).Perm (m.applyCompletion now (.saveFailed path value message)).drafts := by
  show List.Perm _ (m.noticeCompletion (.saveFailed path value message)).showPendingApproval.drafts
  rw [showPendingApproval_drafts]
  show List.Perm _ (if m.mode.isBrowse then { m with mode := .dialog (.providerFailure message path value) }
    else { m with pendingDialogs := m.pendingDialogs ++ [Dialog.providerFailure message path value] }).drafts
  split
  next hbrowse =>
    unfold drafts waitingDrafts
    rw [Mode.eq_browse hbrowse]
    exact List.Perm.refl _
  next =>
    unfold drafts waitingDrafts
    rw [List.flatMap_append, ← List.append_assoc]
    exact (List.perm_append_singleton (path, value) _).symm

theorem offerApproval_idle {m : Model} (hidle : m.Idle) (request : ApprovalRequest) :
    (m.offerApproval request).Idle := by
  unfold offerApproval
  split
  next => exact hidle
  next =>
    dsimp only
    have hensured := (SameDialogs.ensureProcedure m (approvalProcedure request) ("Deploy " ++ request.target)
      request.procedure).trans (SameDialogs.update _ (approvalProcedure request) fun p =>
        { p with awaitingDeployment := false, between := none })
    have hidle' := hensured.idle hidle
    generalize Model.update _ _ _ = m at hidle'
    split
    next => exact showPendingApproval_idle _
    next =>
      split
      next current hmode =>
        split
        next =>
          split
          next => exact nofun
          next => exact hidle'
        next => exact showPendingApproval_idle _
      next => exact showPendingApproval_idle _

end Model

end NixSecrets.Tui
