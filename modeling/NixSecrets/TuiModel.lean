import NixSecrets.ApprovalRows
import NixSecrets.AsyncWriter

namespace NixSecrets.Tui

/-- What a step asked the operator for. -/
inductive StepKind
  | values
  | sshLogin
  | sshLoginApproval
  | artifacts
  | closure
  | deployment
  | reported
  | confirmation
  deriving DecidableEq, Repr

def StepKind.of (prompt : SecretPrompt) : StepKind :=
  if prompt.confirmation then .confirmation
  else if prompt.closureSignature then .closure
  else if prompt.artifactSignature then .artifacts
  else if prompt.sshLogin then .sshLoginApproval
  else if prompt.sshSignature then .sshLogin
  else .values

def StepKind.done : StepKind → String
  | .values => "secret values sent"
  | .sshLogin => "SSH login signed"
  | .sshLoginApproval => "SSH logins approved"
  | .artifacts => "artifacts signed"
  | .closure => "closure signed"
  | .deployment => "secrets deployed"
  | .reported => "reported"
  | .confirmation => "confirmed"

/-- A step that was asked and whose outcome has not arrived yet. -/
structure InFlight where
  request : String
  step : ProcedureStep
  kind : StepKind
  denied : Bool
  deadline : Option Nat
  deriving DecidableEq, Repr

inductive StepOutcome
  | done
  | failed
  | denied
  | timedOut
  | warning
  deriving DecidableEq, Repr

structure FinishedStep where
  request : String
  step : ProcedureStep
  kind : StepKind
  text : String
  outcome : StepOutcome
  deriving DecidableEq, Repr

/-- `step 2/4`, or `step 5` past the declaration. -/
def stepPosition (step : ProcedureStep) : String :=
  match step.steps with
  | some steps => if step.step ≤ steps then "step " ++ toString step.step ++ "/" ++ toString steps
    else "step " ++ toString step.step
  | none => "step " ++ toString step.step

namespace FinishedStep

def succeeded (step : FinishedStep) : Bool := step.outcome = .done || step.outcome = .warning

def warned (step : FinishedStep) : Bool := step.outcome = .warning

def reportedFailed (step : FinishedStep) : Bool := step.kind = .reported && step.outcome = .failed

def reportedFailure (step : FinishedStep) : String :=
  "Failed at " ++ stepPosition step.step ++ ": " ++ step.step.label ++ ": " ++ step.text

end FinishedStep

/-- What the dialog of a procedure shows while none of its prompts or deployments is open. -/
inductive Between
  | working
  | waiting
  | result (succeeded : Bool) (text : String)
  deriving DecidableEq, Repr

def Between.failed : Between → Bool
  | .result succeeded _ => !succeeded
  | _ => false

structure Procedure where
  id : String
  title : String
  implicit : Bool
  step : Option ProcedureStep := none
  prompts : List SecretPrompt := []
  minimised : Bool := false
  flashing : Bool := false
  ended : Bool := false
  awaitingDeployment : Bool := false
  inFlight : List InFlight := []
  finished : List FinishedStep := []
  between : Option Between := none
  exitCode : Option Int := none
  reportedFailure : Option String := none
  deriving DecidableEq, Repr

def exitText : Option Int → String
  | some code => if code = 0 then "The command finished successfully."
    else "The command failed with exit status " ++ toString code ++ "."
  | none => "The command ended without reporting its exit status."

/-- Changes the first element that satisfies `p`. -/
def updateFirst {α : Type} (p : α → Bool) (f : α → α) : List α → List α
  | [] => []
  | x :: xs => if p x then f x :: xs else x :: updateFirst p f xs

/-- Rewrites the text at the front of another. -/
def withNewFront (old new text : String) : String :=
  if old.toList.isPrefixOf text.toList then new ++ String.ofList (text.toList.drop old.toList.length)
  else text

namespace Procedure

def hasResult (p : Procedure) : Bool :=
  match p.between with
  | some (.result _ _) => true
  | _ => false

def failed (p : Procedure) : Bool :=
  match p.between with
  | some (.result false _) => true
  | _ => false

def hasSucceeded (p : Procedure) : Bool :=
  match p.between with
  | some (.result true _) => true
  | _ => false

def warned (p : Procedure) : Bool := p.finished.any FinishedStep.warned

def succeededWithWarnings (p : Procedure) : Bool := p.hasSucceeded && p.warned

/-- Its result waits for the operator to close it with Enter. -/
def needsAcknowledgement (p : Procedure) : Bool := p.failed || p.succeededWithWarnings

def reached (p : Procedure) : Nat := p.step.elim 0 (·.step)

def declared (p : Procedure) : Option Nat := p.step.bind (·.steps)

def endedEarly (p : Procedure) : Bool := p.ended && p.declared.any (p.reached < ·)

def lastStepDone (p : Procedure) : Bool :=
  p.finished.getLast?.any fun step => step.succeeded && step.step.steps.any (· ≤ step.step.step)

/-- Steps only move forward. -/
def advance (step : ProcedureStep) (p : Procedure) : Procedure :=
  if p.step.all (·.step ≤ step.step) then { p with title := step.title, step := some step } else p

/-- A prompt of it arrived. -/
def asked (prompt : SecretPrompt) (p : Procedure) : Procedure :=
  match p.implicit, prompt.procedure with
  | false, some step => { p with
      prompts := p.prompts ++ [prompt]
      inFlight := p.inFlight ++ [⟨prompt.id, step, .of prompt, false, prompt.deadline⟩]
      between := none }
  | _, _ => { p with prompts := p.prompts ++ [prompt] }

/-- Its prompts cannot be answered any more. -/
def disconnected (p : Procedure) : Procedure :=
  { p with prompts := [], inFlight := p.inFlight.filter (·.kind = .deployment) }

/-- Its dialog goes to the task bar; a success shown is a success seen, warnings wait to be closed. -/
def minimise (p : Procedure) : Procedure :=
  { p with
    minimised := true
    flashing := false
    between := if p.hasSucceeded && !p.succeededWithWarnings then none else p.between }

def listed (step : FinishedStep) (p : Procedure) : Procedure := { p with finished := p.finished ++ [step] }

/-- The result that its end gives. -/
def result (exitCode : Option Int) (p : Procedure) : Between :=
  match p.between with
  | some (.result succeeded text) => .result (succeeded && exitCode = some 0) (text ++ "\n" ++ exitText exitCode)
  | _ =>
    if p.finished.isEmpty && p.inFlight.isEmpty then .result (exitCode.all (· = 0)) (exitText exitCode)
    else
      let summary := if p.endedEarly then "Ended after step " ++ toString p.reached ++ " of " ++
          toString (p.declared.getD p.reached) ++ ". " ++ exitText exitCode
        else exitText exitCode
      let summary := match p.finished.reverse.find? FinishedStep.reportedFailed with
        | some reported => reported.reportedFailure ++ "\n" ++ summary
        | none => summary
      .result (exitCode = some 0 && p.finished.all FinishedStep.succeeded && !p.endedEarly) summary

/-- The backend reported its end; `shown` says whether its dialog is on screen. -/
def ending (shown : Bool) (exitCode : Option Int) (p : Procedure) : Procedure :=
  let p := { p with ended := true, exitCode }
  if p.implicit || !p.prompts.isEmpty then p
  else
    let result := p.result exitCode
    if p.finished.isEmpty && p.inFlight.isEmpty && !result.failed then { p with between := none }
    else if (result.failed || p.warned) && !shown then
      { p with between := some result, minimised := true, flashing := true }
    else { p with between := some result }

/-- A late outcome joins the result that is shown already. -/
def joined (succeeded : Bool) (p : Procedure) : Procedure :=
  match p.between with
  | some (.result shown text) => { p with between := some (.result (shown && succeeded) text) }
  | _ => p

def failureText : StepOutcome → String
  | .denied => "You denied the step."
  | .timedOut => "Nobody answered the step in time."
  | _ => "The step failed."

/-- What comes next once `step` is finished, in a procedure that goes on. -/
def recorded (isOpen shown : Bool) (step : FinishedStep) (p : Procedure) : Procedure :=
  let reported := if step.reportedFailed then some step.reportedFailure else none
  if !isOpen && p.inFlight.isEmpty && !p.failed then
    let reported := reported.or p.reportedFailure
    if step.succeeded && reported.isNone then
      { p with
        between := some (if p.lastStepDone then .result true "All steps are done." else .waiting)
        reportedFailure := none }
    else
      { p with
        between := some (.result false (reported.getD (failureText step.outcome)))
        reportedFailure := none
        minimised := p.minimised || !shown
        flashing := p.flashing || !shown }
  else match reported with
    | some text => if p.failed then p
      else { p with reportedFailure := some text, flashing := p.flashing || p.minimised }
    | none => p

/-- Another report about a step that is listed only changes the reason. -/
def reworded (request : String) (step : ProcedureStep) (outcome : StepOutcome) (reason : String)
    (p : Procedure) : Procedure :=
  match p.finished.find? (·.request = request) with
  | none => p
  | some known =>
    let new := { known with text := reason, step }
    let p' := { p with
      finished := updateFirst (·.request = request) (fun known => { known with text := reason, step }) p.finished }
    if outcome = .warning then p'
    else { p' with
      between := p.between.map fun between => match between with
        | .result succeeded text =>
          .result succeeded (withNewFront known.reportedFailure new.reportedFailure text)
        | between => between
      reportedFailure := p.reportedFailure.map (withNewFront known.reportedFailure new.reportedFailure) }

end Procedure

/-- The procedure of a prompt. -/
def promptProcedure (prompt : SecretPrompt) : String :=
  prompt.procedure.elim ("request:" ++ prompt.id) (·.id)

/-- The procedure of a deployment approval. -/
def approvalProcedure (request : ApprovalRequest) : String :=
  request.procedure.elim ("deployment:" ++ request.id) (·.id)

/-- What git says of the value that a save would replace. -/
inductive CommitState
  | unset
  | committed
  | uncommitted
  | unknown (reason : String)
  deriving DecidableEq, Repr

/-- The dialogs about one value, over which the stored value can be shown. -/
inductive Entry
  | edit (path : String) (value : Value)
  | replace (path : String) (value : Value) (commit : CommitState)
  | deleteConfirm (path : String) (commit : CommitState)
  deriving DecidableEq, Repr

/-- The dialogs that belong to no procedure. -/
inductive Dialog
  | settings (selected : Nat)
  | properties
  | facetCategories
  | facetValues
  | facetFirstChoice
  | treeOrder
  | profiles
  | profileSave
  | profileOverwrite
  | profileDelete
  | help
  | search (query : String)
  | entry (entry : Entry)
  | reveal (path : String) (value : Value) (underneath : Option Entry)
  | generateChoice (path : String) (replacing : Bool)
  | keypairConfirm (path : String) (replacing : Bool)
  | bulkGenerateConfirm (paths : List String)
  | bulkProgress (total done : Nat)
  | generatedPreview (path : String) (value : Value) (revealed replacing : Bool)
  | deployHost
  | commit
  | providerFailure (message path : String) (value : Value)
  deriving DecidableEq

namespace Dialog

def isEdit : Dialog → Bool
  | .entry (.edit _ _) => true
  | _ => false

def isBulkProgress : Dialog → Bool
  | .bulkProgress _ _ => true
  | _ => false

end Dialog

inductive Mode
  | browse
  | approval (request : ApprovalRequest)
  | dialog (dialog : Dialog)
  deriving DecidableEq

namespace Mode

def isBrowse : Mode → Bool
  | .browse => true
  | _ => false

def isEdit : Mode → Bool
  | .dialog d => d.isEdit
  | _ => false

def isBulkProgress : Mode → Bool
  | .dialog d => d.isBulkProgress
  | _ => false

def isApproval : Mode → Bool
  | .approval _ => true
  | _ => false

/-- The deployment dialog of this procedure. -/
def isApprovalOf (id : String) : Mode → Bool
  | .approval request => approvalProcedure request = id
  | _ => false

end Mode

inductive NoticeSeverity
  | info
  | failure
  deriving DecidableEq, Repr

structure Notice where
  text : String
  severity : NoticeSeverity
  deriving DecidableEq, Repr

structure Model where
  mode : Mode := .browse
  message : Option Notice := none
  notifications : List Notice := []
  hostReview : Option (String × Bool) := none
  pendingApprovals : List ApprovalRequest := []
  completedApprovals : List String := []
  pendingDialogs : List Dialog := []
  /-- The procedures in the order of the task bar; their ids differ. -/
  procedures : List Procedure := []
  /-- The procedure whose dialog is on screen. -/
  foreground : Option String := none
  confirmationTyped : String × String := ("", "")

end NixSecrets.Tui
