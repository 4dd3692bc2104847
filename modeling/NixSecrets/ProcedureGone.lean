import NixSecrets.TuiSteps

namespace NixSecrets.Tui

theorem Procedure.hasResult_eq (p : Procedure) : p.hasResult = (p.failed || p.hasSucceeded) := by
  unfold hasResult failed hasSucceeded
  rcases p.between with _ | ⟨⟩ | ⟨⟩ | ⟨_ | _, _⟩
  all_goals rfl

namespace Model

/-- Nothing is left in the model that has nothing more to show. -/
def Tidy (m : Model) : Prop := ∀ p ∈ m.procedures, m.isOver p = false

theorem isOver_false_iff {m : Model} {p : Procedure} : m.isOver p = false ↔
    ((p.implicit || p.ended) = true → m.procedureWaiting p = true ∨ m.resultOnScreen p = true) := by
  unfold isOver
  cases (p.implicit || p.ended) <;> cases m.procedureWaiting p <;> cases m.resultOnScreen p <;> simp

theorem isOver_congr {m m' : Model} {p p' : Procedure} (hmode : m'.mode = m.mode)
    (hpending : m'.pendingApprovals = m.pendingApprovals) (hforeground : m'.foreground = m.foreground)
    (hid : p'.id = p.id) (hended : p'.ended = p.ended) (himplicit : p'.implicit = p.implicit)
    (hprompts : p'.prompts = p.prompts) (hminimised : p'.minimised = p.minimised)
    (hfailed : p'.failed = p.failed) (hsucceeded : p'.hasSucceeded = p.hasSucceeded)
    (hwarned : p'.warned = p.warned) : m'.isOver p' = m.isOver p := by
  unfold isOver procedureWaiting resultOnScreen Procedure.needsAcknowledgement Procedure.succeededWithWarnings
  rw [Procedure.hasResult_eq, Procedure.hasResult_eq, hmode, hpending, hforeground, hid, hended, himplicit, hprompts,
    hminimised, hfailed, hsucceeded, hwarned]

theorem tidyProcedures_tidy (m : Model) : m.tidyProcedures.Tidy := by
  intro p hp
  have hkept := (tidyProcedures_mem.mp hp).2
  rw [isOver_false_iff] at hkept ⊢
  intro hgone
  refine (hkept hgone).imp_right ?_
  intro hscreen
  unfold resultOnScreen at hscreen ⊢
  simp only [Bool.and_eq_true, decide_eq_true_eq] at hscreen ⊢
  exact ⟨⟨tidyProcedures_foreground.mpr ⟨hscreen.1.1, p, hp, rfl⟩, hscreen.1.2⟩, hscreen.2⟩

/-- Opening the approval of a procedure keeps what waits waiting. -/
theorem opened_waiting {m m' : Model} {p : Procedure} {request : ApprovalRequest}
    (hmode : m'.mode = .approval request) (hbrowse : m.mode = .browse)
    (hpending : m'.pendingApprovals =
      m.pendingApprovals.eraseP fun r => approvalProcedure r = approvalProcedure request)
    (h : m.procedureWaiting p = true) : m'.procedureWaiting p = true := by
  unfold procedureWaiting at h ⊢
  rw [hmode, hpending]
  simp only [Bool.or_eq_true] at h ⊢
  rcases h with (h | hqueued) | hopen
  · exact Or.inl (Or.inl h)
  · by_cases hid : approvalProcedure request = p.id
    · right
      simp [Mode.isApprovalOf, hid]
    · left
      right
      obtain ⟨queued, hqueued, hpid⟩ := List.any_eq_true.mp hqueued
      refine List.any_eq_true.mpr ⟨queued, ?_, hpid⟩
      have hother : approvalProcedure queued ≠ approvalProcedure request := by
        rw [of_decide_eq_true hpid]
        exact fun hsame => hid hsame.symm
      exact (List.mem_eraseP_of_neg (by simpa using hother)).mpr hqueued
  · rw [hbrowse] at hopen
    cases hopen

theorem Tidy.of {m m' : Model} (h : m.Tidy) (hprocedures : m'.procedures = m.procedures)
    (hforeground : m'.foreground = m.foreground)
    (hwaiting : ∀ p, m.procedureWaiting p = true → m'.procedureWaiting p = true) : m'.Tidy := by
  intro p hp
  have hkept := h p (hprocedures ▸ hp)
  rw [isOver_false_iff] at hkept ⊢
  intro hgone
  refine (hkept hgone).imp (hwaiting p) ?_
  unfold resultOnScreen
  rw [hforeground]
  exact fun h => h

theorem showPendingApproval_tidy (m : Model) : m.showPendingApproval.Tidy := by
  have htidy := tidyProcedures_tidy m
  unfold showPendingApproval
  dsimp only
  split
  next hmode _ =>
    refine htidy.of rfl rfl ?_
    intro p hwaiting
    unfold procedureWaiting at hwaiting ⊢
    rw [hmode] at hwaiting
    exact hwaiting
  next hmode _ _ =>
    refine htidy.of rfl rfl ?_
    exact fun p => opened_waiting rfl hmode rfl
  next =>
    split
    next => exact htidy.of rfl rfl fun p h => h
    next => exact htidy
  next => exact htidy

section

variable {m : Model} (h : m.Tidy)
include h

theorem Tidy.update {id : String} {f : Procedure → Procedure}
    (hf : ∀ p ∈ m.procedures, p.id = id → m.isOver (f p) = false) : (m.update id f).Tidy := by
  intro p' hp'
  obtain ⟨p, hp, rfl⟩ := List.mem_map.mp hp'
  show m.isOver _ = false
  split
  next hid => exact hf p hp hid
  next => exact h p hp

theorem Tidy.pushNotice (text : String) (severity : NoticeSeverity) : (m.pushNotice text severity).Tidy := by
  unfold Model.pushNotice
  dsimp only
  split
  next => exact h
  next =>
    split
    next =>
      split
      next => exact h
      next => exact h
    next =>
      split
      next => exact h
      next => exact h

theorem Tidy.stepReported (step : ProcedureStep) (outcome : StepOutcome) (reason : String) :
    (m.stepReported step outcome reason).Tidy := by
  unfold Model.stepReported
  dsimp only
  generalize (if outcome = .warning then "warning" else "failed") ++ ":" ++ step.id ++ ":" ++
    toString step.step = request
  split
  next => exact h
  next =>
    split
    next =>
      apply h.update
      intro p hp _
      obtain ⟨hid, hended, himplicit, hprompts, hminimised, hfailed, hsucceeded, hwarned⟩ :=
        Procedure.reworded_same p request step outcome reason
      rw [isOver_congr rfl rfl rfl hid hended himplicit hprompts hminimised hfailed hsucceeded hwarned]
      exact h p hp
    next => exact tidyProcedures_tidy _

end

theorem ensureProcedure_pending (m : Model) (id title : String) (step : Option ProcedureStep) :
    (m.ensureProcedure id title step).pendingApprovals = m.pendingApprovals := by
  unfold ensureProcedure
  dsimp only
  cases step with
  | none =>
    dsimp only
    split
    next => rfl
    next => rfl
  | some step =>
    dsimp only
    split
    next => rfl
    next => rfl

/-- Only a procedure that is new can have nothing to show. -/
theorem ensureProcedure_tidy {m : Model} (h : m.Tidy) (id title : String) (step : Option ProcedureStep) :
    ∀ p ∈ (m.ensureProcedure id title step).procedures, (step.isSome = true ∨ p.id ≠ id) →
      (m.ensureProcedure id title step).isOver p = false := by
  intro p' hp' hcase
  obtain ⟨hmode, hforeground⟩ := ensureProcedure_same m id title step
  rcases ensureProcedure_mem hp' with
    ⟨p, hp, hid, hended, hbetween, hprompts, himplicit, hminimised, hfinished⟩ | ⟨-, hid, hended, -, -, himplicit⟩
  · have hfailed : p'.failed = p.failed := by
      unfold Procedure.failed
      rw [hbetween]
    have hsucceeded : p'.hasSucceeded = p.hasSucceeded := by
      unfold Procedure.hasSucceeded
      rw [hbetween]
    have hwarned : p'.warned = p.warned := by
      unfold Procedure.warned
      rw [hfinished]
    rw [isOver_congr hmode (ensureProcedure_pending m id title step) hforeground hid hended himplicit hprompts hminimised
      hfailed hsucceeded hwarned]
    exact h p hp
  · rcases hcase with hstep | hother
    · rw [isOver_false_iff, hended, himplicit]
      cases step with
      | none => cases hstep
      | some step => exact nofun
    · exact absurd hid hother

theorem Tidy.procedureStep {m : Model} (h : m.Tidy) (step : ProcedureStep) : (m.procedureStep step).Tidy := by
  unfold Model.procedureStep
  dsimp only
  have hensure : (m.ensureProcedure step.id "" (some step)).Tidy :=
    fun p hp => ensureProcedure_tidy h step.id "" (some step) p hp (Or.inl rfl)
  generalize m.ensureProcedure step.id "" (some step) = m₁ at hensure ⊢
  have hawaits : (if step.deployment = true then m₁.update step.id fun p => { p with awaitingDeployment := true }
      else m₁).Tidy := by
    split
    next => exact hensure.update fun p hp _ => hensure p hp
    next => exact hensure
  generalize (if step.deployment = true then m₁.update step.id fun p => { p with awaitingDeployment := true }
    else m₁) = m₂ at hawaits ⊢
  have hreported (m : Model) (hm : m.Tidy) (outcome : StepOutcome) (reason : Option String) :
      (reason.elim m (m.stepReported step outcome)).Tidy := by
    cases reason with
    | none => exact hm
    | some reason => exact hm.stepReported step outcome reason
  exact hreported _ (hreported m₂ hawaits .warning step.warning) .failed step.failure

theorem Tidy.arrive {m : Model} {id : String} (h : m.Tidy)
    (hid : ∀ p ∈ m.procedures, p.id = id → m.procedureWaiting p = true) : (m.arrive id).Tidy := by
  rw [arrive_eq]
  split
  next => exact h
  next =>
    split
    next => exact tidyProcedures_tidy _
    next =>
      intro p' hp'
      obtain ⟨p, hp, rfl⟩ := List.mem_map.mp hp'
      rw [isOver_false_iff]
      intro hgone
      by_cases hpid : p.id = id
      · rw [if_pos hpid]
        exact Or.inl (hid p hp hpid)
      · rw [if_neg hpid] at hgone ⊢
        refine ((isOver_false_iff.mp (h p hp)) hgone).imp_right ?_
        intro hscreen
        unfold resultOnScreen at hscreen ⊢
        simp only [Bool.and_eq_true, decide_eq_true_eq] at hscreen ⊢
        refine ⟨⟨?_, hscreen.1.2⟩, hscreen.2⟩
        show (if m.foreground = some id then none else m.foreground) = some p.id
        rw [hscreen.1.1, if_neg]
        intro hsame
        exact hpid (Option.some.inj hsame)

theorem Tidy.offerPrompt {m : Model} (h : m.Tidy) (prompt : SecretPrompt) : (m.offerPrompt prompt).Tidy := by
  unfold Model.offerPrompt
  dsimp only
  generalize (if (prompt.confirmation && _) = true then none else prompt.procedure) = step
  have hensure := ensureProcedure_tidy h (promptProcedure prompt) prompt.title step
  generalize m.ensureProcedure (promptProcedure prompt) prompt.title step = m₁ at hensure ⊢
  generalize promptProcedure prompt = id at hensure ⊢
  have hasked (p : Procedure) : (p.asked prompt).prompts ≠ [] := by
    unfold Procedure.asked
    split
    next => exact List.append_ne_nil_of_right_ne_nil _ (List.cons_ne_nil _ _)
    next => exact List.append_ne_nil_of_right_ne_nil _ (List.cons_ne_nil _ _)
  have htidy : (m₁.update id (·.asked prompt)).Tidy := by
    intro p' hp'
    obtain ⟨p, hp, rfl⟩ := List.mem_map.mp hp'
    show m₁.isOver _ = false
    split
    next => exact prompts_waiting (hasked p)
    next hid => exact hensure p hp (Or.inr hid)
  split
  next => exact htidy
  next =>
    apply htidy.arrive
    intro p' hp' hid
    obtain ⟨p, hp, rfl⟩ := List.mem_map.mp hp'
    by_cases hpid : p.id = id
    · rw [if_pos hpid]
      unfold procedureWaiting
      simp [hasked p]
    · rw [if_neg hpid] at hid
      exact absurd hid hpid

theorem Tidy.offerApproval {m : Model} (h : m.Tidy) (request : ApprovalRequest)
    (hsame : ∀ current, m.mode = .approval current → current.id = request.id →
      approvalProcedure current = approvalProcedure request) : (m.offerApproval request).Tidy := by
  unfold Model.offerApproval
  split
  next => exact h
  next =>
    dsimp only
    have hensure := ensureProcedure_tidy h (approvalProcedure request) ("Deploy " ++ request.target)
      request.procedure
    have hmode := (ensureProcedure_same m (approvalProcedure request) ("Deploy " ++ request.target)
      request.procedure).1
    generalize m.ensureProcedure (approvalProcedure request) ("Deploy " ++ request.target) request.procedure = m₁
      at hensure hmode ⊢
    have hopen (current : ApprovalRequest) (howner : approvalProcedure current = approvalProcedure request)
        (mode : Mode) (hcurrent : mode = .approval current) (hbefore : ∀ id, id ≠ approvalProcedure request →
          m₁.mode.isApprovalOf id = false) : ({ m₁.update (approvalProcedure request) fun p =>
          { p with awaitingDeployment := false, between := none } with mode }).Tidy := by
      intro p' hp'
      obtain ⟨p, hp, rfl⟩ := List.mem_map.mp hp'
      rw [isOver_false_iff]
      intro hgone
      by_cases hpid : p.id = approvalProcedure request
      · left
        rw [if_pos hpid]
        unfold procedureWaiting
        rw [hcurrent]
        simp [Mode.isApprovalOf, howner, hpid]
      · rw [if_neg hpid] at hgone ⊢
        refine (isOver_false_iff.mp (hensure p hp (Or.inr hpid)) hgone).imp_left ?_
        intro hwaiting
        unfold procedureWaiting at hwaiting ⊢
        rw [hbefore p.id hpid, Bool.or_false] at hwaiting
        rw [Bool.or_eq_true]
        exact Or.inl hwaiting
    split
    next => exact showPendingApproval_tidy _
    next =>
      split
      next current hcurrent =>
        have hcurrent : m₁.mode = .approval current := hcurrent
        split
        next hid =>
          have howner := hsame current (hmode.symm.trans hcurrent) hid
          have hbefore : ∀ id, id ≠ approvalProcedure request → m₁.mode.isApprovalOf id = false := by
            intro id hother
            rw [hcurrent]
            simp [Mode.isApprovalOf, howner, hother.symm]
          split
          next => exact hopen request rfl _ rfl hbefore
          next => exact hopen current howner _ hcurrent hbefore
        next => exact showPendingApproval_tidy _
      next => exact showPendingApproval_tidy _

theorem Tidy.expirePrompts {m : Model} (h : m.Tidy) (now : Nat) : (m.expirePrompts now).Tidy := by
  unfold Model.expirePrompts
  dsimp only
  generalize (m.procedures.flatMap (·.prompts)).filter _ = expired
  induction expired generalizing m with
  | nil => exact h
  | cons prompt prompts ih => exact ih (tidyProcedures_tidy _)

theorem Tidy.handle {m : Model} (h : m.Tidy) (event : ProcedureEvent) : (m.handle event).Tidy := by
  cases event with
  | step step => exact h.procedureStep step
  | ended id exitCode => exact tidyProcedures_tidy _
  | withdrawn id => exact tidyProcedures_tidy _
  | disconnected => exact tidyProcedures_tidy _
  | reconnected => exact h.pushNotice _ .info
  | synced live => exact tidyProcedures_tidy _

theorem applyCompletion_tidy (m : Model) (now : Nat) (completion : Completion Report) :
    (m.applyCompletion now completion).Tidy := by
  unfold applyCompletion
  split
  next => exact showPendingApproval_tidy _
  next =>
    dsimp only
    split
    next => exact showPendingApproval_tidy _
    next => exact showPendingApproval_tidy _

/-- After the end of a procedure all that is left of it has ended. -/
theorem procedureEnded_ended {m : Model} {id : String} {exitCode : Option Int} {p : Procedure}
    (hp : p ∈ (m.procedureEnded id exitCode).procedures) (hid : p.id = id) : p.ended = true := by
  have hp := (tidyProcedures_mem.mp hp).1
  generalize hshown : (m.mode.isBrowse && Decidable.decide (m.foreground = some id) && _) = shown at hp
  have hp : p ∈ (m.update id (Procedure.ending shown exitCode)).procedures := by
    split at hp
    next => exact hp
    next => exact hp
  obtain ⟨q, _, rfl⟩ := List.mem_map.mp hp
  obtain ⟨hsame, hended, -⟩ := Procedure.ending_keeps shown exitCode q
  by_cases hqid : q.id = id
  · rw [if_pos hqid]
    exact hended
  · rw [if_neg hqid] at hid
    exact absurd hid hqid

end Model

namespace Ui

/-- No news of a procedure that ended creates it anew, and a deployment request that is open comes again for the
procedure it is of. -/
structure Fresh (u : Ui) (act : UiAct) : Prop where
  ended : ∀ id ∈ u.ended, ¬ u.creates act id
  owned : ∀ request current, act = .approval request → u.model.mode = .approval current →
    current.id = request.id → approvalProcedure current = approvalProcedure request

/-- The operator has answered all of the procedure: no prompt or deployment of it is open, and no result of it
is on screen or waits. -/
def Settled (u : Ui) (id : String) : Prop :=
  u.model.mode.isApprovalOf id = false ∧
    u.model.pendingApprovals.any (fun request => approvalProcedure request = id) = false ∧
    ∀ p ∈ u.model.procedures, p.id = id →
      p.prompts = [] ∧ p.needsAcknowledgement = false ∧ u.model.resultOnScreen p = false

theorem step_tidy {u : Ui} {act : UiAct} (h : u.model.Tidy) (hfresh : u.Fresh act) : (u.step act).model.Tidy := by
  cases act with
  | hear event => exact h
  | procedureEvent =>
    simp only [step]
    split
    next => exact h
    next event events _ => exact h.handle event
  | secretPrompt =>
    simp only [step]
    split
    next => exact h
    next prompt prompts _ => exact h.offerPrompt prompt
  | endTick now changed =>
    simp only [step]
    split
    next => exact Model.showPendingApproval_tidy _
    next => exact h.expirePrompts now
  | completion now completion => exact Model.applyCompletion_tidy _ now completion
  | approval request => exact h.offerApproval request fun current => hfresh.owned request current rfl
  | key event answers => exact Model.showPendingApproval_tidy _

/-- What is left of the procedures that ended knows that they did. -/
def EndsKnown (u : Ui) : Prop := ∀ id ∈ u.ended, ∀ p ∈ u.model.procedures, p.id = id → p.ended = true

theorem step_endsKnown {u : Ui} {act : UiAct} (hm : u.model.Inv) (h : u.EndsKnown) (hfresh : u.Fresh act) :
    (u.step act).EndsKnown := by
  have hold : ∀ id ∈ u.ended, ∀ p ∈ (u.step act).model.procedures, p.id = id → p.ended = true := by
    intro id hid p' hp' hpid
    rcases (step_evolves u act).old hm p' hp' with ⟨p, hp, hsame, hended⟩ | hcreates
    · exact hended (h id hid p hp (hsame.trans hpid))
    · rw [hpid] at hcreates
      exact absurd hcreates (hfresh.ended id hid)
  intro id hid p hp hpid
  by_cases hknown : id ∈ u.ended
  · exact hold id hknown p hp hpid
  · cases act with
    | procedureEvent =>
      revert hid hp
      simp only [step]
      split
      next => exact fun hid _ => absurd hid hknown
      next event events _ =>
        intro hid hp
        have hends := (List.mem_append.mp hid).resolve_left hknown
        cases event with
        | ended ended exitCode =>
          obtain rfl := List.mem_singleton.mp hends
          exact Model.procedureEnded_ended hp hpid
        | step | withdrawn | disconnected | reconnected | synced => cases hends
    | hear | endTick | completion | approval | key => exact absurd hid hknown
    | secretPrompt =>
      revert hid
      simp only [step]
      split
      next => exact fun hid => absurd hid hknown
      next => exact fun hid => absurd hid hknown

theorem run_tidy {u : Ui} {acts : List UiAct} (hm : u.model.Inv) (htidy : u.model.Tidy) (hends : u.EndsKnown)
    (h : u.Along Fresh acts) : (u.run acts).model.Tidy ∧ (u.run acts).EndsKnown := by
  induction acts generalizing u with
  | nil => exact ⟨htidy, hends⟩
  | cons act acts ih =>
    obtain ⟨hfresh, hrest⟩ := along_cons_iff.mp h
    exact ih ((step_evolves u act).inv hm) (step_tidy htidy hfresh) (step_endsKnown hm hends hfresh) hrest

/-- Once a procedure has ended and the operator is done with it, nothing of it is in the model. -/
theorem ended_procedure_gone (onePassword : Bool) (acts : List UiAct) (h : (start onePassword).Along Fresh acts)
    (id : String) (hended : id ∈ ((start onePassword).run acts).ended)
    (hsettled : ((start onePassword).run acts).Settled id) :
    ∀ p ∈ ((start onePassword).run acts).model.procedures, p.id ≠ id := by
  have hstart : (start onePassword).model.Tidy := fun p hp => absurd hp List.not_mem_nil
  have hnone : (start onePassword).EndsKnown := fun id hid => absurd hid List.not_mem_nil
  obtain ⟨htidy, hends⟩ := run_tidy (start_inv onePassword) hstart hnone h
  intro p hp hid
  obtain ⟨hopen, hpending, hsettled⟩ := hsettled
  obtain ⟨hprompts, hneeds, hscreen⟩ := hsettled p hp hid
  have hover := Model.isOver_false_iff.mp (htidy p hp) (by rw [hends id hended p hp hid, Bool.or_true])
  rcases hover with hwaiting | hresult
  · unfold Model.procedureWaiting at hwaiting
    rw [hprompts, hneeds, hid, hpending, hopen] at hwaiting
    cases hwaiting
  · rw [hscreen] at hresult
    cases hresult

def onlyPrompt : SecretPrompt :=
  ⟨"p1", "sign", true, false, false, false, false, none,
    some ⟨"install", "Install web", 1, none, "sign", false, none, none, none⟩⟩

def allWell : Answers := ⟨.ok (), .ok none, false, none, none⟩

/-- The prompt is answered before the procedure ends, and its result is closed. -/
def endsAfterAnswer : List UiAct :=
  [.hear (.prompt onlyPrompt), .secretPrompt, .key .confirmLoss allWell,
    .hear (.procedureEnded "install" (some 0)), .procedureEvent, .key .enter allWell]

theorem fresh_of_none {u : Ui} {act : UiAct} (hended : u.ended = []) (hact : ∀ request, act ≠ .approval request) :
    u.Fresh act := by
  refine ⟨?_, fun request current h => absurd h (hact request)⟩
  rw [hended]
  exact fun id hid => absurd hid List.not_mem_nil

theorem fresh_of_enter {u : Ui} {answers : Answers} (hbrowse : u.model.mode = .browse) :
    u.Fresh (.key .enter answers) := by
  refine ⟨?_, fun request current h => by cases h⟩
  rintro id - ⟨-, ⟨-, -, request, hmode, -⟩ | ⟨request, hevent, -⟩⟩
  · rw [hbrowse] at hmode
    cases hmode
  · cases hevent

theorem endsAfterAnswer_fresh : (start true).Along Fresh endsAfterAnswer := by
  refine along_cons_iff.mpr ⟨fresh_of_none (by decide) (by simp), ?_⟩
  refine along_cons_iff.mpr ⟨fresh_of_none (by decide) (by simp), ?_⟩
  refine along_cons_iff.mpr ⟨fresh_of_none (by decide) (by simp), ?_⟩
  refine along_cons_iff.mpr ⟨fresh_of_none (by decide) (by simp), ?_⟩
  refine along_cons_iff.mpr ⟨fresh_of_none (by decide) (by simp), ?_⟩
  exact along_cons_iff.mpr ⟨fresh_of_enter (by decide), along_nil⟩

/-- The procedure of that run is gone at its end. -/
theorem endsAfterAnswer_gone : "install" ∈ ((start true).run endsAfterAnswer).ended ∧
    ((start true).run (endsAfterAnswer.take 5)).model.procedures.map (·.id) = ["install"] ∧
    ∀ p ∈ ((start true).run endsAfterAnswer).model.procedures, p.id ≠ "install" := by
  refine ⟨by decide, by decide, ?_⟩
  refine ended_procedure_gone true endsAfterAnswer endsAfterAnswer_fresh "install" (by decide)
    ⟨by decide, by decide, ?_⟩
  have hprocedures : ((start true).run endsAfterAnswer).model.procedures = [] := by decide
  rw [hprocedures]
  exact fun p hp => absurd hp List.not_mem_nil

/-- The prompt and the end of its procedure come in one tick, so that the end is handled first; then the
operator answers the prompt. -/
def endsWithPrompt : List UiAct :=
  [.hear (.prompt onlyPrompt), .hear (.procedureEnded "install" (some 0)), .procedureEvent, .secretPrompt,
    .endTick 0 true, .key .confirmLoss allWell,
    .completion 0 (.requestFinished .signature "p1" "web" (.ok 1))]

/-- The procedure ended and nothing of it waits, but it is in the model and waits for its next step. -/
theorem procedure_created_after_end : "install" ∈ ((start true).run endsWithPrompt).ended ∧
    ((start true).run endsWithPrompt).Settled "install" ∧
    ((start true).run endsWithPrompt).model.procedures.map (fun p => (p.id, p.ended, p.between)) =
      [("install", false, some .waiting)] := by
  refine ⟨by decide, ⟨by decide, by decide, ?_⟩, by decide⟩
  have hall : ((start true).run endsWithPrompt).model.procedures.all (fun p => p.prompts.isEmpty &&
      !p.needsAcknowledgement && !((start true).run endsWithPrompt).model.resultOnScreen p) = true := by
    decide
  intro p hp _
  have hp := List.all_eq_true.mp hall p hp
  simp only [Bool.and_eq_true, Bool.not_eq_true', List.isEmpty_iff] at hp
  exact ⟨hp.1.1, hp.1.2, hp.2⟩

end Ui

end NixSecrets.Tui
