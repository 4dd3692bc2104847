import NixSecrets.TuiModel

namespace NixSecrets.Tui

def operationQueued : String := "nix-secrets:operation-queued"

/-- A denial this close to a step's deadline is its countdown running out (milliseconds). -/
def deadlineSlack : Nat := 2000

namespace Model

def procedure (m : Model) (id : String) : Option Procedure := m.procedures.find? (·.id = id)

/-- Changes the procedure with this id, if there is one. -/
def update (m : Model) (id : String) (f : Procedure → Procedure) : Model :=
  { m with procedures := m.procedures.map fun p => if p.id = id then f p else p }

/-- The prompt on screen: the first of the foreground procedure. -/
def shownPrompt (m : Model) : Option SecretPrompt :=
  m.foreground.bind fun id => (m.procedure id).bind fun p =>
    if p.minimised then none else p.prompts.head?

/-- The procedure whose dialog shows what happens between its prompts. -/
def betweenShown (m : Model) : Option Procedure :=
  if m.mode.isBrowse then m.foreground.bind fun id => (m.procedure id).bind fun p =>
    if !p.minimised && p.prompts.isEmpty && p.between.isSome then some p else none
  else none

/-- A dialog is on screen; a success without warnings gives way. -/
def foregroundBusy (m : Model) : Bool :=
  !m.mode.isBrowse || m.shownPrompt.isSome ||
    m.betweenShown.any fun p => !p.hasSucceeded || p.succeededWithWarnings

/-- The procedure waits for the operator. -/
def procedureWaiting (m : Model) (p : Procedure) : Bool :=
  !p.prompts.isEmpty || p.needsAcknowledgement ||
    m.pendingApprovals.any (fun request => approvalProcedure request = p.id) || m.mode.isApprovalOf p.id

def resultOnScreen (m : Model) (p : Procedure) : Bool :=
  m.foreground = some p.id && !p.minimised && p.hasResult

/-- Nothing is left of it to show. -/
def isOver (m : Model) (p : Procedure) : Bool :=
  (p.implicit || p.ended) && !m.procedureWaiting p && !m.resultOnScreen p

def tidyProcedures (m : Model) : Model :=
  let procedures := m.procedures.filter fun p => !m.isOver p
  { m with
    procedures
    foreground := m.foreground.filter fun id => procedures.any (·.id = id) }

/-- The procedure of this id is there, and knows of the step. -/
def ensureProcedure (m : Model) (id title : String) (step : Option ProcedureStep) : Model :=
  let m := if m.procedures.any (·.id = id) then m
    else { m with procedures := m.procedures ++
      [{ id, title := step.elim title (·.title), implicit := step.isNone }] }
  match step with
  | some step => m.update id (·.advance step)
  | none => m

/-- Puts a procedure that now waits for the operator on screen when nothing else is. -/
def arrive (m : Model) (id : String) : Model :=
  let inForeground := m.foreground = some id && (m.procedure id).any fun p => !p.minimised
  let ownDialog := m.shownPrompt.isSome || m.mode.isApprovalOf id
  if inForeground && (ownDialog || m.mode.isBrowse) then m
  else if !inForeground && !m.foregroundBusy then
    ({ m with foreground := some id }.update id fun p =>
      { p with minimised := false, flashing := false }).tidyProcedures
  else
    { m with foreground := if m.foreground = some id then none else m.foreground }.update id fun p =>
      { p with minimised := true, flashing := true }

/-- A prompt from the operator channel. -/
def offerPrompt (m : Model) (prompt : SecretPrompt) : Model :=
  let id := promptProcedure prompt
  -- A confirmation is asked about the current step and is none of its own.
  let current := if prompt.confirmation && (m.procedure id).isSome then none else prompt.procedure
  let m := m.ensureProcedure id prompt.title current
  let wasWaiting := (m.procedure id).any fun p => !p.prompts.isEmpty
  let m := m.update id (·.asked prompt)
  if wasWaiting then m else m.arrive id

/-- The backend reported the end of a procedure. -/
def procedureEnded (m : Model) (id : String) (exitCode : Option Int) : Model :=
  let shown := m.mode.isBrowse && m.foreground = some id && (m.procedure id).any fun p => !p.minimised
  let m := m.update id (·.ending shown exitCode)
  let m := if m.foreground = some id && (m.procedure id).any (·.minimised) then { m with foreground := none }
    else m
  m.tidyProcedures

/-- Lists a finished step in its procedure's dialog. -/
def recordStep (m : Model) (id : String) (flight : InFlight) (outcome : StepOutcome) (text : String) : Model :=
  let step : FinishedStep := ⟨flight.request, flight.step, flight.kind, text, outcome⟩
  let m := m.update id (·.listed step)
  match m.procedure id with
  | none => m
  | some p =>
    let isOpen := !p.prompts.isEmpty || m.mode.isApprovalOf id
    if p.ended then
      if p.hasResult then m.update id (·.joined step.succeeded)
      else if isOpen then m
      else m.procedureEnded id p.exitCode
    else m.update id (·.recorded isOpen (m.foreground = some id && !p.minimised) step)

/-- The procedure's command reported a step as failed, or as done with a warning. -/
def stepReported (m : Model) (step : ProcedureStep) (outcome : StepOutcome) (reason : String) : Model :=
  let kind := if outcome = .warning then "warning" else "failed"
  let request := kind ++ ":" ++ step.id ++ ":" ++ toString step.step
  match m.procedure step.id with
  | none => m
  | some p =>
    if p.finished.any (·.request = request) then m.update step.id (·.reworded request step outcome reason)
    else (m.recordStep step.id ⟨request, step, .reported, false, none⟩ outcome reason).tidyProcedures

/-- A procedure started or reached a new step. -/
def procedureStep (m : Model) (step : ProcedureStep) : Model :=
  let m := m.ensureProcedure step.id "" (some step)
  let m := if step.deployment then m.update step.id fun p => { p with awaitingDeployment := true } else m
  let m := step.warning.elim m (m.stepReported step .warning)
  step.failure.elim m (m.stepReported step .failed)

/-- Removes the step that `request` asked from what is in flight. -/
def takeInFlight (m : Model) (request : String) : Option (String × InFlight × Model) :=
  (m.procedures.find? fun p => p.inFlight.any (·.request = request)).bind fun p =>
    (p.inFlight.find? (·.request = request)).map fun flight =>
      (p.id, flight, m.update p.id fun p => { p with inFlight := p.inFlight.eraseP (·.request = request) })

/-- How a step that was asked ended, and what its dialog says of it. -/
def settle (now : Nat) (flight : InFlight) : Except String (Option String) → StepOutcome × String
  | .ok text => (if flight.kind = .confirmation then .warning else .done, text.getD flight.kind.done)
  | .error error =>
    if flight.denied then (.denied, error)
    else if flight.deadline.any (· ≤ now + deadlineSlack) then (.timedOut, error)
    else (.failed, error)

/-- The outcome of a step; answers whether `request` was a step of a procedure. -/
def stepFinished (m : Model) (now : Nat) (request : String) (outcome : Except String (Option String)) :
    Bool × Model :=
  match m.takeInFlight request with
  | none => (m.procedures.any fun p => p.finished.any (·.request = request), m)
  | some (id, flight, m) =>
    let (outcome, text) := settle now flight outcome
    (true, (m.recordStep id flight outcome text).tidyProcedures)

/-- The operator answered the prompt of a procedure step. -/
def stepAnswered (m : Model) (id : String) : Model :=
  m.update id fun p => if !p.implicit && p.prompts.isEmpty then { p with between := some .working } else p

/-- The operator answered a deployment dialog of a procedure. -/
def deploymentAnswered (m : Model) (request : ApprovalRequest) : Model :=
  -- The TUI deploys one request at a time.
  let m := { m with procedures := m.procedures.map fun p => { p with
    inFlight := p.inFlight.filter fun flight => flight.kind ≠ .deployment || flight.request = request.id } }
  match request.procedure with
  | none => m
  | some step => m.update step.id fun p =>
    if p.implicit then p
    else { p with
      inFlight := if p.inFlight.any (·.request = request.id) then p.inFlight
        else p.inFlight ++ [⟨request.id, step, .deployment, false, none⟩]
      between := if p.prompts.isEmpty then some .working else p.between }

def deploymentInFlight (m : Model) : Option String :=
  m.procedures.findSome? fun p => (p.inFlight.find? (·.kind = .deployment)).map (·.request)

/-- Closes the result in the procedure dialog on screen. -/
def dismissResult (m : Model) : Model :=
  match m.betweenShown with
  | none => m
  | some p => (m.update p.id fun p => if p.hasResult then { p with between := none } else p).tidyProcedures

def dropPrompt (m : Model) (promptId : String) : Model :=
  { m with procedures := m.procedures.map fun p => { p with prompts := p.prompts.filter (·.id ≠ promptId) } }

/-- Removes a prompt that finished elsewhere or whose answer failed. -/
def removePrompt (m : Model) (promptId : String) : Model := (m.dropPrompt promptId).tidyProcedures

/-- Closes a prompt nobody answered. -/
def promptMissed (m : Model) (promptId : String) (outcome : StepOutcome) (text : String) : Model :=
  let m := m.dropPrompt promptId
  let m := match m.takeInFlight promptId with
    | some (id, flight, m) => m.recordStep id flight outcome text
    | none => m
  m.tidyProcedures

def withdrawPrompt (m : Model) (promptId : String) : Model :=
  m.promptMissed promptId .failed "withdrawn: its requester left"

/-- Takes the prompt on screen, which the operator just answered. -/
def takeShownPrompt (m : Model) (approved : Bool) : Option (SecretPrompt × Model) :=
  m.foreground.bind fun id => m.shownPrompt.map fun prompt =>
    let m := m.update id fun p => { p with
      prompts := p.prompts.tail
      inFlight := updateFirst (·.request = prompt.id) (fun flight => { flight with denied := !approved })
        p.inFlight }
    (prompt, (m.stepAnswered id).tidyProcedures)

/-- Drops prompts whose countdown ran out. -/
def expirePrompts (m : Model) (now : Nat) : Model :=
  let expired := (m.procedures.flatMap (·.prompts)).filter fun prompt => prompt.deadline.any (· ≤ now)
  expired.foldl (fun m prompt => m.promptMissed prompt.id .timedOut "no answer within 120 s") m

/-- Stops the countdown of the prompt on screen. -/
def cancelCountdown (m : Model) : Option String × Model :=
  match m.foreground, m.shownPrompt with
  | some id, some prompt =>
    if prompt.deadline.isSome then
      (some prompt.id, m.update id fun p => { p with
        prompts := p.prompts.modifyHead fun prompt => { prompt with deadline := none }
        inFlight := p.inFlight.map fun flight =>
          if flight.request = prompt.id then { flight with deadline := none } else flight })
    else (none, m)
  | _, _ => (none, m)

/-- The operator channel broke: no prompt on it can be answered any more. -/
def connectionLost (m : Model) : Model :=
  tidyProcedures { m with procedures := m.procedures.map Procedure.disconnected }

/-- Procedures that are not live any more after attaching again ended meanwhile. -/
def proceduresSynced (m : Model) (live : List String) : Model :=
  let gone := (m.procedures.filter fun p => !p.implicit && !p.ended && !live.contains p.id).map (·.id)
  (gone.foldl (fun m id => m.procedureEnded id none) m).tidyProcedures

end Model

end NixSecrets.Tui
