import NixSecrets.TuiProcedures

namespace NixSecrets.Tui

/-- A stale stage must not replace one that is further on. -/
def ApprovalRequest.succeeding (request queued : ApprovalRequest) : ApprovalRequest :=
  if queued.approvalStage < request.approvalStage || (queued.approvalStage = request.approvalStage &&
    request.hostMutationToken = queued.hostMutationToken) then request else queued

namespace Model

def pushNotice (m : Model) (text : String) (severity : NoticeSeverity) : Model :=
  let notice : Notice := ⟨text, severity⟩
  if m.message = some notice || m.notifications.getLast? = some notice then m
  else match m.message with
    | some current =>
      if m.mode.isBrowse && severity = .failure && current.severity = .info then
        { m with message := some notice, notifications := current :: m.notifications }
      else { m with notifications := m.notifications ++ [notice] }
    | none =>
      if !m.mode.isApproval && !(severity = .info && m.mode.isEdit) then { m with message := some notice }
      else { m with notifications := m.notifications ++ [notice] }

def inform (m : Model) (text : String) : Model := m.pushNotice text .info

def fail (m : Model) (text : String) : Model := m.pushNotice text .failure

def failUnlessQueued (m : Model) (error : String) : Model := if error = operationQueued then m else m.fail error

/-- The approval of the foreground procedure that is to open. -/
def foregroundApproval (m : Model) : Option ApprovalRequest :=
  (m.foreground.filter fun id => (m.procedure id).any fun p => !p.minimised).bind fun id =>
    m.pendingApprovals.find? fun request => approvalProcedure request = id

def showPendingApproval (m : Model) : Model :=
  let m := m.tidyProcedures
  match m.mode, m.pendingDialogs, m.foregroundApproval with
  | .browse, dialog :: dialogs, _ => { m with
      message := none
      notifications := m.message.toList ++ m.notifications
      mode := .dialog dialog
      pendingDialogs := dialogs }
  | .browse, [], some request => { m with
      message := none
      notifications := m.message.toList ++ m.notifications
      mode := .approval request
      pendingApprovals := m.pendingApprovals.eraseP fun r => approvalProcedure r = approvalProcedure request }
  | .browse, [], none =>
    if m.message.isNone then { m with message := m.notifications.head?, notifications := m.notifications.tail }
    else m
  | _, _, _ => m

def acknowledge (m : Model) : Model :=
  showPendingApproval { m with message := m.notifications.head?, notifications := m.notifications.tail }

/-- A deployment request, or its next stage. -/
def offerApproval (m : Model) (request : ApprovalRequest) : Model :=
  if m.completedApprovals.contains request.id then m
  else
    let id := approvalProcedure request
    let m := (m.ensureProcedure id ("Deploy " ++ request.target) request.procedure).update id fun p =>
      { p with awaitingDeployment := false, between := none }
    if m.pendingApprovals.any (·.id = request.id) then
      showPendingApproval { m with
        pendingApprovals := updateFirst (·.id = request.id) request.succeeding m.pendingApprovals }
    else
      let queued := showPendingApproval (arrive { m with pendingApprovals := m.pendingApprovals ++ [request] } id)
      match m.mode with
      | .approval current =>
        if current.id = request.id then
          if current.approvalStage < request.approvalStage then { m with mode := .approval request } else m
        else queued
      | _ => queued

def finishApproval (m : Model) (id : String) : Model :=
  tidyProcedures { m with
    completedApprovals := if m.completedApprovals.contains id then m.completedApprovals
      else m.completedApprovals ++ [id]
    pendingApprovals := m.pendingApprovals.filter (·.id ≠ id)
    mode := match m.mode with
      | .approval request => if request.id = id then .browse else m.mode
      | mode => mode }

/-- An approval dialog without a procedure in the foreground is that of its own procedure. -/
def ownApproval (m : Model) : Model :=
  match m.foreground, m.mode with
  | none, .approval request =>
    let id := approvalProcedure request
    { m.ensureProcedure id ("Deploy " ++ request.target) request.procedure with foreground := some id }
  | _, _ => m

/-- Parks the deployment dialog; a review that was not read to its end starts again. -/
def parkApproval (m : Model) (id : String) : Model :=
  match m.mode with
  | .approval request =>
    if approvalProcedure request = id then { m with
      mode := .browse
      hostReview := if m.hostReview.any fun review => !review.2 && request.hostMutationToken = some review.1
        then none else m.hostReview
      pendingApprovals := request :: m.pendingApprovals }
    else m
  | _ => m

/-- `m`: moves the foreground procedure's dialog to the task bar. -/
def minimise (m : Model) : Model :=
  let m := m.ownApproval
  match m.foreground with
  | none => m
  | some id =>
    if m.shownPrompt.isNone && !m.mode.isApprovalOf id && m.betweenShown.isNone then m
    else tidyProcedures { (m.parkApproval id).update id Procedure.minimise with foreground := none }

def bringUp (m : Model) (id : String) : Model :=
  let m := { m with foreground := some id }.update id fun p => { p with minimised := false, flashing := false }
  if m.shownPrompt.isNone then m.showPendingApproval else m

/-- Brings a procedure from the task bar to the foreground, or says why not. -/
def restore (m : Model) (id : String) : Option String × Model :=
  if (m.procedure id).isNone then (some "that procedure has finished", m)
  else if !m.mode.isBrowse && !m.mode.isApproval && m.shownPrompt.isNone && m.betweenShown.isNone then
    (some "close the open dialog before restoring a procedure", m)
  else if m.foreground = some id then (none, m.bringUp id)
  else
    let m := m.minimise
    if m.mode.isApproval then (some "answer the open deployment request first", m)
    else if (m.procedure id).isNone then (some "that procedure has finished", m)
    else (none, m.bringUp id)

/-- The procedures that wait, in the order in which `M` goes through them. -/
def candidates (m : Model) : List Procedure :=
  let current := m.foreground.bind fun id => m.procedures.findIdx? (·.id = id)
  let count := m.procedures.length
  let order := (List.range count).map fun offset => (current.getD (count - 1) + (offset + 1)) % max count 1
  ((order.filter fun index => some index ≠ current).filterMap fun index => m.procedures[index]?).filter
    m.procedureWaiting

/-- `M`: restores the next procedure that waits, flashing ones first. -/
def restoreNext (m : Model) : Option String × Model :=
  match (m.candidates.find? (·.flashing)).or m.candidates.head? with
  | some p => m.restore p.id
  | none => (some "no other procedure waits for you", m)

/-- A refusal becomes a notice. -/
def informing (answer : Option String × Model) : Model := answer.1.elim answer.2 answer.2.inform

/-- A click on a task bar entry. -/
def restoreAt (m : Model) (index : Nat) : Model :=
  match m.procedures[index]? with
  | some p => informing (m.restore p.id)
  | none => m

end Model

inductive Shortcut
  | enter
  | escape
  | character (c : Char)
  deriving DecidableEq, Repr

inductive MouseTarget
  | shortcut (shortcut : Shortcut)
  | confirmLoss
  | notice
  | deployRow (index : Nat)
  | procedure (index : Nat)
  | elsewhere
  deriving DecidableEq, Repr

inductive UiEvent
  | up
  | down
  | enter
  | escape
  | character (c : Char)
  | backspace
  | paste
  | confirmLoss
  | approval (request : ApprovalRequest)
  | refresh
  | hover
  | click (target : MouseTarget)
  | elsewhere
  deriving DecidableEq

def Shortcut.event : Shortcut → UiEvent
  | .enter => .enter
  | .escape => .escape
  | .character c => .character c

/-- What the writer, and the dialogs that belong to no procedure, make of a key. -/
structure Answers where
  /-- Sending an answer, or cancelling a countdown. -/
  sent : Except String Unit
  decision : Except String (Option ApprovalRequest)
  reviewSeen : Bool
  /-- The dialog that the key leads to, in the tree or in another dialog. -/
  next : Option Dialog
  notice : Option Notice

namespace Model

/-- Answers the prompt on screen. -/
def answerShown (m : Model) (approved : Bool) (answers : Answers) : Model :=
  match m.takeShownPrompt approved with
  | none => m
  | some (_, m) =>
    match answers.sent with
    | .ok () => m
    | .error error => m.fail error

/-- Cancels the countdown of the prompt on screen, here and in the channel. -/
def cancelInput (m : Model) (answers : Answers) : Model :=
  match m.cancelCountdown.1, answers.sent with
  | some _, .error error => m.cancelCountdown.2.fail error
  | _, _ => m.cancelCountdown.2

/-- Input while a request is shown. -/
def promptInput (m : Model) (event : UiEvent) (answers : Answers) : Model :=
  match event with
  | .approval request => m.offerApproval request
  | .character 'm' | .click (.shortcut (.character 'm')) => m.minimise
  | .character 'M' => informing m.restoreNext
  | .click (.procedure index) => m.restoreAt index
  | .character 'c' | .click (.shortcut (.character 'c')) => m.cancelInput answers
  | .confirmLoss | .click .confirmLoss => m.answerShown true answers
  | .character 'n' | .escape | .enter | .click (.shortcut .escape) | .click (.shortcut .enter)
  | .click (.shortcut (.character 'n')) => m.answerShown false answers
  | _ => m

def typeLetter (m : Model) (c : Char) : Model :=
  { m with confirmationTyped := (m.confirmationTyped.1,
      if m.confirmationTyped.2.length < 3 then m.confirmationTyped.2.push c else m.confirmationTyped.2) }

/-- Input while a confirmation is shown: only typing `yes` and then Enter confirms. -/
def confirmation (m : Model) (prompt : SecretPrompt) (event : UiEvent) (answers : Answers) : Model :=
  let m := if m.confirmationTyped.1 = prompt.id then m else { m with confirmationTyped := (prompt.id, "") }
  match event with
  | .approval request => m.offerApproval request
  | .character 'm' | .click (.shortcut (.character 'm')) => m.minimise
  | .character 'M' => informing m.restoreNext
  | .click (.procedure index) => m.restoreAt index
  | .character 'y' => m.typeLetter 'y'
  | .character 'e' => m.typeLetter 'e'
  | .character 's' => m.typeLetter 's'
  | .backspace => { m with confirmationTyped :=
      (m.confirmationTyped.1, String.ofList m.confirmationTyped.2.toList.dropLast) }
  | .enter | .click (.shortcut .enter) =>
    if m.confirmationTyped.2 = "yes" then m.answerShown true answers else m
  | .character 'n' | .escape | .click (.shortcut .escape) | .click (.shortcut (.character 'n')) =>
    m.answerShown false answers
  | _ => m

/-- Input while a procedure dialog shows what happens between its prompts; `none`: not consumed. -/
def betweenInput (m : Model) (event : UiEvent) : Option Model :=
  if m.message.isSome then none
  else m.betweenShown.bind fun p =>
    let closesWithAnyKey := p.hasSucceeded && !p.succeededWithWarnings
    match event with
    | .refresh => none
    | .hover => some m
    | .approval request => some (m.offerApproval request)
    | .click (.procedure index) => some (m.restoreAt index)
    | .character 'M' =>
      if closesWithAnyKey then some (m.dismissResult.restoreNext.2) else some (informing m.restoreNext)
    | .character 'm' | .click (.shortcut (.character 'm')) => some m.minimise
    | .escape =>
      if !p.hasResult then some m.minimise
      else if closesWithAnyKey then some m.dismissResult else some m
    | .enter | .click (.shortcut .enter) => if p.hasResult then some m.dismissResult else some m
    | _ => if closesWithAnyKey then some m.dismissResult else some m

/-- Input that a request or a procedure dialog takes before all others. -/
def intercept (m : Model) (event : UiEvent) (answers : Answers) : Option Model :=
  match m.shownPrompt with
  | none => m.betweenInput event
  | some prompt => some (if prompt.confirmation then m.confirmation prompt event answers
      else m.promptInput event answers)

/-- Whether a key that dismissed a notice keeps its usual meaning. -/
def passesThrough : Mode → Bool
  | .browse => true
  | .approval _ => false
  | .dialog dialog =>
    match dialog with
    | .help | .properties | .reveal _ _ _ | .search _ | .facetCategories | .facetValues | .facetFirstChoice
    | .treeOrder | .profiles | .bulkProgress _ _ => true
    | _ => false

def takesPaste : Mode → Bool
  | .dialog dialog =>
    match dialog with
    | .entry (.edit _ _) | .search _ | .profileSave | .commit => true
    | _ => false
  | _ => false

/-- Input while a notice is shown; answers whether the key still acts. -/
def noticeInput (m : Model) (severity : NoticeSeverity) (event : UiEvent) : Bool × Model :=
  match severity, event with
  | _, .refresh => (false, m)
  | .failure, .enter | .failure, .click (.shortcut .enter) => (false, m.acknowledge)
  | .failure, _ => (false, m)
  | .info, .click .notice | .info, .escape => (false, m.acknowledge)
  | .info, .paste => (m.acknowledge.message.isNone && takesPaste m.acknowledge.mode, m.acknowledge)
  | .info, _ => (m.acknowledge.message.isNone && passesThrough m.acknowledge.mode, m.acknowledge)

/-- The operator decides on a deployment or on a review; the dialog is closed meanwhile. -/
def decide (m : Model) (request : ApprovalRequest) (accepted reopens : Bool) (answers : Answers) : Model :=
  let m := { m with mode := .browse }.deploymentAnswered request
  match answers.decision with
  | .ok (some next) =>
    if accepted && request.hostMutations.isEmpty then
      { m with mode := .approval { next with unchecked := request.unchecked } }
    else if !request.hostMutations.isEmpty then { m with mode := .approval next } else m
  | .ok none => m
  | .error message =>
    if reopens then { m.failUnlessQueued message with mode := .approval request } else m.failUnlessQueued message

/-- The review that is on screen, and whether all of it was. -/
def reviewed (m : Model) (token : String) (answers : Answers) : Model :=
  { m with hostReview := if answers.reviewSeen then some (token, true)
    else if m.hostReview.any (·.1 = token) then m.hostReview else some (token, false) }

/-- Input in the review of what a host provides. -/
def hostMutations (m : Model) (request : ApprovalRequest) (event : UiEvent) (answers : Answers) : Model :=
  let token := request.hostMutationToken.getD ""
  let m := m.reviewed token answers
  let accepted := event = .character 'y'
  match event with
  | .character 'y' | .character 'n' | .escape =>
    if accepted && !answers.reviewSeen then m
    else if token = "" then
      { { m with mode := .browse }.fail
          "This replacement review has no batch identifier; no values were changed." with
        mode := .approval request }
    else m.decide request accepted (answers.decision ≠ .error operationQueued) answers
  | _ => m

/-- Input in the deployment dialog. -/
def approvalInput (m : Model) (request : ApprovalRequest) (event : UiEvent) (answers : Answers) : Model :=
  if !request.hostMutations.isEmpty then m.hostMutations request event answers
  else
    let row := request.rows[request.cursor]?
    match event with
    | .character ' ' => if request.hostKey.isNone then
        { m with mode := .approval (row.elim request fun row => request.toggle row.identifier) } else m
    | .character 'a' => if request.hostKey.isNone then
        { m with mode := .approval (row.elim request fun row => request.toggleSection row.kind) } else m
    | .click (.deployRow index) =>
      match request.rows[index]? with
      | some row => { m with mode := .approval ({ request with cursor := index }.toggle row.identifier) }
      | none => m
    | .up => if request.hostKey.isNone && !request.rows.isEmpty then
        { m with mode := .approval { request with cursor := request.cursor - 1 } } else m
    | .down => if request.hostKey.isNone && !request.rows.isEmpty then
        { m with mode := .approval { request with cursor := min (request.cursor + 1) (request.rows.length - 1) } }
        else m
    | .character 'y' => if request.hostKey.isSome || request.deployable then m.decide request true false answers
        else m
    | .character 'n' | .escape => m.decide request false true answers
    | _ => m

/-- Input of the tree and of the dialogs that belong to no procedure. -/
def elsewhere (m : Model) (answers : Answers) : Model :=
  let m := { m with mode := answers.next.elim .browse .dialog }
  answers.notice.elim m fun notice => m.pushNotice notice.text notice.severity

def dispatch (m : Model) (event : UiEvent) (answers : Answers) : Model :=
  match m.mode with
  | .approval request =>
    match event with
    | .character 'm' => m.minimise.showPendingApproval
    | .character 'M' => (informing m.restoreNext).showPendingApproval
    | event => (m.approvalInput request event answers).showPendingApproval
  | .browse =>
    match event with
    | .character 'M' => (informing m.restoreNext).showPendingApproval
    | _ => (m.elsewhere answers).showPendingApproval
  | .dialog _ => (m.elsewhere answers).showPendingApproval

def click (m : Model) (target : MouseTarget) (answers : Answers) : Model :=
  match target, m.mode with
  | .procedure index, _ => m.restoreAt index
  | .shortcut shortcut, _ => m.dispatch shortcut.event answers
  | .confirmLoss, _ => m.dispatch .confirmLoss answers
  | .deployRow index, .approval request => m.approvalInput request (.click (.deployRow index)) answers
  | _, .approval _ => m
  | _, _ => m.elsewhere answers

def act (m : Model) (event : UiEvent) (answers : Answers) : Model :=
  match event with
  | .click target => m.click target answers
  | event => m.dispatch event answers

/-- One input event. -/
def reduce (m : Model) (event : UiEvent) (answers : Answers) : Model :=
  match m.intercept event answers with
  | some m => m
  | none =>
    match event with
    | .hover => m
    | .approval request => m.offerApproval request
    | event =>
      match m.message with
      | none => m.act event answers
      | some notice =>
        match m.noticeInput notice.severity event with
        | (false, m) => m
        | (true, m) => (m.intercept event answers).getD (m.act event answers)

end Model

end NixSecrets.Tui
