import NixSecrets.TuiUi

namespace NixSecrets.Tui

/-- What a command reports to the UI. -/
inductive Report
  | approval (request : ApprovalRequest)
  | deployment (text notice : String) (quarantined : Bool)
  /-- Opens over the tree, or over the dialog that asked for it. -/
  | dialog (dialog : Dialog) (asking : List Dialog)
  | notice (text : String)

namespace Model

/-- What a completion says of a step of a procedure: the request, and how it ended. -/
def procedureOutcome (m : Model) : Completion Report → Option (String × Except String (Option String))
  | .requestFinished kind id _ result => some (id, result.map fun count =>
      match kind with
      | .values => some (toString count ++ " secret value" ++ (if count = 1 then "" else "s") ++ " sent")
      | .confirmation => some "confirmed"
      | _ => none)
  | .deployed (.deployment text _ _) => m.deploymentInFlight.map fun request => (request, .ok (some text))
  | .approvalDone none => m.deploymentInFlight.map fun request => (request, .error "you rejected the deployment")
  | .hostMutationsDeclined false => m.deploymentInFlight.map fun request =>
      (request, .ok (some "secrets deployed; you rejected the host-provided changes"))
  | .hostMutationsDeclined true => m.deploymentInFlight.map fun request =>
      (request, .error "you rejected the host-provided changes; nothing was deployed")
  | .approvalLost message => m.deploymentInFlight.map fun request => (request, .error message)
  | _ => none

def closeApproval (m : Model) : Model := if m.mode.isApproval then { m with mode := .browse } else m

/-- What the outcome of a deployment closes besides its notice. -/
def outcomeCloses (m : Model) : Completion Report → Model
  | .requestFinished _ _ _ _ => m
  | .approvalLost _ => { m.closeApproval with pendingApprovals := [] }
  | _ => m.closeApproval

def openDialog (m : Model) (dialog : Dialog) (asking : List Dialog) : Model :=
  match m.mode with
  | .browse => { m with mode := .dialog dialog }
  | .dialog below => if below ∈ asking then { m with mode := .dialog dialog } else m
  | .approval _ => m

/-- A completion that is no outcome of a step. -/
def noticeCompletion (m : Model) : Completion Report → Model
  | .saved path => m.inform ("saved " ++ path)
  | .saveFailed path value message =>
    if m.mode.isBrowse then { m with mode := .dialog (.providerFailure message path value) }
    else { m with pendingDialogs := m.pendingDialogs ++ [.providerFailure message path value] }
  | .failed message => m.fail message
  | .bulkGenerated saved failed =>
    let m := if m.mode.isBulkProgress then { m with mode := .browse } else m
    if failed.isEmpty then m.inform ("Generated and saved " ++ toString saved ++ " missing passwords.")
    else m.fail ("Generated and saved " ++ toString saved ++ " missing passwords. " ++ toString failed.length ++
      " failed:\n" ++ "\n".intercalate failed)
  | .bulkProgress done total =>
    if m.mode.isBulkProgress then { m with mode := .dialog (.bulkProgress total done) } else m
  | .approvalTerminated id => m.finishApproval id
  | .approvalDone (some (.approval request)) => m.closeApproval.offerApproval request
  | .approvalDone _ => m.closeApproval.inform "deployment request finished"
  | .hostMutationsDeclined beforeDeploy => m.closeApproval.inform (if beforeDeploy then
      "Host-provided changes rejected; existing values were kept and deployment was cancelled."
      else "Host-provided changes rejected; existing values were kept. The target deployment already completed.")
  | .deployed (.deployment _ notice quarantined) =>
    if quarantined then m.closeApproval.fail notice else m.closeApproval.inform notice
  | .deployed _ => m.closeApproval
  | .approvalLost message => { m.closeApproval with pendingApprovals := [] }.fail message
  | .commitFailed message => m.fail ("git commit failed:\n" ++ message)
  | .reported (.dialog dialog asking) => m.openDialog dialog asking
  | .reported (.notice text) => m.inform text
  | .reported _ => m
  | .requestFinished kind id requester result =>
    match kind, result with
    | .values, .ok count => m.inform ("Sent " ++ toString count ++ " secret value" ++
        (if count = 1 then "" else "s") ++ " to " ++ requester ++ ".")
    | .signature, .ok _ => m.inform ("Approved SSH authentication for " ++ requester ++
        "; the private key stayed on this client.")
    | .artifacts, .ok _ => m.inform ("Returned detached signatures to " ++ requester ++
        "; the private key stayed on this client.")
    | .confirmation, .ok _ => m.inform ("You confirmed the step " ++ requester ++ " asked about.")
    | .values, .error error => (m.removePrompt id).fail ("Secret request from " ++ requester ++ " failed: " ++ error)
    | .signature, .error error =>
      (m.removePrompt id).fail ("SSH authentication for " ++ requester ++ " failed: " ++ error)
    | .artifacts, .error error => (m.removePrompt id).fail ("Signing for " ++ requester ++ " failed: " ++ error)
    | .confirmation, .error error =>
      (m.removePrompt id).fail ("The step " ++ requester ++ " asked about was not confirmed: " ++ error)

def applyCompletion (m : Model) (now : Nat) (completion : Completion Report) : Model :=
  match m.procedureOutcome completion with
  | none => (m.noticeCompletion completion).showPendingApproval
  | some (request, outcome) =>
    let m := m.outcomeCloses completion
    let m := match outcome with
      | .ok _ => m
      | .error _ => m.removePrompt request
    match m.stepFinished now request outcome with
    | (true, m) => m.showPendingApproval
    | (false, m) => (m.noticeCompletion completion).showPendingApproval

/-- Takes in one piece of procedure news. -/
def handle (m : Model) : ProcedureEvent → Model
  | .step step => m.procedureStep step
  | .ended id exitCode => m.procedureEnded id exitCode
  | .withdrawn id => m.withdrawPrompt id
  | .disconnected => m.connectionLost
  | .reconnected => m.inform
      "Reconnected to the backend. Requests that still wait are shown again from the start."
  | .synced live => m.proceduresSynced live

end Model

/-- The UI with its end of the worker; `ended` are the procedures whose end it has handled. -/
structure Ui where
  model : Model := {}
  writer : AsyncWriter Report
  ended : List String := []

/-- One thing the UI loop does. A tick handles the procedure news until there is none, then the prompts until
there is none, then what ran out. -/
inductive UiAct
  | hear (event : ChannelEvent)
  | procedureEvent
  | secretPrompt
  | endTick (now : Nat) (changed : Bool)
  | completion (now : Nat) (completion : Completion Report)
  | approval (request : ApprovalRequest)
  | key (event : UiEvent) (answers : Answers)

def ProcedureEvent.ends : ProcedureEvent → List String
  | .ended id _ => [id]
  | _ => []

namespace Ui

def start (onePassword : Bool) : Ui := { writer := { onePassword } }

def step (u : Ui) : UiAct → Ui
  | .hear event => { u with writer := u.writer.hear event }
  | .procedureEvent =>
    match u.writer.procedureEvents with
    | [] => u
    | event :: events => { u with
        model := u.model.handle event
        writer := { u.writer with procedureEvents := events }
        ended := u.ended ++ event.ends }
  | .secretPrompt =>
    match u.writer.secretPrompts with
    | [] => u
    | prompt :: prompts => { u with
        model := u.model.offerPrompt prompt
        writer := { u.writer with secretPrompts := prompts } }
  | .endTick now changed => { u with
      model := if changed then (u.model.expirePrompts now).showPendingApproval else u.model.expirePrompts now }
  | .completion now completion => { u with model := u.model.applyCompletion now completion }
  | .approval request => { u with model := u.model.offerApproval request }
  | .key event answers => { u with model := (u.model.reduce event answers).showPendingApproval }

def run (u : Ui) : List UiAct → Ui
  | [] => u
  | act :: acts => (u.step act).run acts

end Ui

end NixSecrets.Tui
