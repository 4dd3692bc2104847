import NixSecrets.JsonText
import NixSecrets.TreeView
import NixSecrets.TuiRun

namespace NixSecrets.Tui

/-- What the operator points at, in all dialogs. -/
inductive Target
  | filter (number : Nat)
  | tree (index : Nat)
  | modalItem (index : Nat)
  | shortcut (shortcut : Shortcut)
  | autosaveToggle
  | confirmLoss
  | revealCurrent
  | notice
  | deployRow (index : Nat)
  | procedure (index : Nat)
  | elsewhere
  deriving DecidableEq, Repr

/-- What the operator enters; `other` are the keys of the commit dialog. -/
inductive Input
  | up
  | down
  | enter
  | escape
  | character (c : Char)
  | backspace
  | paste (pasted : Value)
  | pasteRequest
  | tab
  | confirmLoss
  | revealCurrent
  | other
  | approval (request : ApprovalRequest)
  | refresh
  | hover
  | click (target : Target)
  deriving DecidableEq

def Target.coarse : Target → MouseTarget
  | .shortcut key => .shortcut key
  | .confirmLoss => .confirmLoss
  | .notice => .notice
  | .deployRow index => .deployRow index
  | .procedure index => .procedure index
  | .filter _ | .tree _ | .modalItem _ | .autosaveToggle | .revealCurrent | .elsewhere => .elsewhere

/-- What the procedures and notices see of it. -/
def Input.coarse : Input → UiEvent
  | .up => .up
  | .down => .down
  | .enter => .enter
  | .escape => .escape
  | .character c => .character c
  | .backspace => .backspace
  | .paste _ | .pasteRequest => .paste
  | .confirmLoss => .confirmLoss
  | .approval request => .approval request
  | .refresh => .refresh
  | .hover => .hover
  | .click target => .click target.coarse
  | .tab | .revealCurrent | .other => .elsewhere

def Shortcut.input : Shortcut → Input
  | .enter => .enter
  | .escape => .escape
  | .character c => .character c

namespace Dialog

/-- Whether it is about no value at all: its keys change what is listed, or nothing. -/
def isPlain : Dialog → Bool
  | .properties | .facetCategories | .facetValues | .facetFirstChoice | .treeOrder | .profiles | .profileSave
  | .profileOverwrite | .profileDelete | .help | .deployHost | .commit => true
  | _ => false

end Dialog

/-- What the writer and the clipboard answer during one input. In the dialogs about no value the next dialog,
the tree's look and a notice are answers too. -/
structure Replies where
  sent : Except String Unit := .ok ()
  decision : Except String (Option ApprovalRequest) := .ok none
  reviewSeen : Bool := false
  write : String → Value → Except (String × Value) Action
  reveal : Except String Value := .error operationQueued
  copy : Except String Unit := .ok ()
  copyPublic : Except String Unit := .error operationQueued
  clipboard : Except String Value := .error ""
  commitState : String → CommitState
  commitSummary : Except String Unit := .error operationQueued
  delete : Except String Unit := .error operationQueued
  generate : Except String Value := .error operationQueued
  generateKeypair : Except String Unit := .error operationQueued
  generateMissing : Except String Unit := .ok ()
  next : Option Dialog := none
  look : View := {}
  notice : Option Notice := none

def Replies.answers (r : Replies) : Answers where
  sent := r.sent
  decision := r.decision
  reviewSeen := r.reviewSeen
  next := none
  notice := none

/-- What the operator decided and what was asked of the writer. -/
inductive Deed
  | confirmed (path : String) (value : Value)
  | write (path : String) (value : Value)
  | delete (path : String)
  | keypair (path : String)
  | missing (paths : List String)
  deriving DecidableEq, Repr

/-- What a key does in the tree and in the dialogs that belong to no procedure. -/
structure Outcome where
  next : Option Dialog := none
  notice : Option Notice := none
  view : View
  autosave : Bool
  deeds : List Deed := []

namespace Outcome

def inform (o : Outcome) (text : String) : Outcome := { o with notice := some ⟨text, .info⟩ }

def fail (o : Outcome) (text : String) : Outcome := { o with notice := some ⟨text, .failure⟩ }

/-- The result of a queued operation arrives later. -/
def failUnlessQueued (o : Outcome) (error : String) : Outcome := if error = operationQueued then o else o.fail error

def report (o : Outcome) (result : Except String Unit) (text : String) : Outcome :=
  match result with
  | .ok () => o.inform text
  | .error error => o.failUnlessQueued error

def opens (o : Outcome) (dialog : Dialog) : Outcome := { o with next := some dialog }

def noting (o : Outcome) (deed : Deed) : Outcome := { o with deeds := o.deeds ++ [deed] }

def submit (o : Outcome) (r : Replies) (path : String) (value : Value) : Outcome :=
  let o := o.noting (.write path value)
  match r.write path value with
  | .ok (.saved saved) => { o with view := o.view.setRow saved true }.inform ("saved " ++ saved)
  | .ok _ => o
  | .error (message, value) => o.opens (.providerFailure message path value)

/-- Saves the entered value; replacing a stored value asks first. -/
def submitEntry (o : Outcome) (r : Replies) (path : String) (value : Value) : Outcome :=
  if o.view.isSet path then o.opens (.entry (.replace path value (r.commitState path)))
  else o.submit r path value

/-- Opens the entry field of the selected value. -/
def beginValue (o : Outcome) (value : Value) : Outcome :=
  match o.view.selectedPath with
  | some path => o.opens (.entry (.edit path value))
  | none => o

/-- A paste into the tree saves an unset value. -/
def pasteValue (o : Outcome) (r : Replies) (value : Value) : Outcome :=
  match o.view.selectedPath with
  | some path => if (o.view.selectedRow.any (·.isSet)) then o.opens (.entry (.edit path value)) else o.submit r path value
  | none => o

/-- The generator of the selected value. -/
def beginGenerate (o : Outcome) : Outcome :=
  match o.view.selectedRow, o.view.selectedPath with
  | some row, some path =>
    if row.canGenerate then
      if row.category = .operator then o.opens (.keypairConfirm path row.isSet)
      else o.opens (.generateChoice path row.isSet)
    else o.inform "select a password leaf"
  | _, _ => o.inform "select a password leaf"

end Outcome

/-- Drops the last character. -/
def truncateCharacter (value : Value) : Value :=
  match utf8Text value with
  | some text => utf8Bytes text.dropLast
  | none => value.dropLast

def Entry.path : Entry → String
  | .edit path _ | .replace path _ _ | .deleteConfirm path _ => path

namespace Outcome

def browse (o : Outcome) (r : Replies) : Input → Outcome
  | .up => { o with view := o.view.moveTo (o.view.selected - 1) }
  | .down => { o with view := o.view.moveTo (o.view.selected + 1) }
  | .enter => o.beginValue []
  | .paste value => o.pasteValue r value
  | .character c =>
    match c with
    | 'f' => { o with view := o.view.setFilter o.view.filter.next }
    | ' ' => { o with view := o.view.toggleSelectedGroup.getD o.view }
    | '-' => { o with view := o.view.collapseAll }
    | '+' => { o with view := o.view.expandAll }
    | 'F' => { o with view := (o.view.setFilter .all).setHumanOnly false }.opens .facetCategories
    | 'T' => o.opens .treeOrder
    | 'C' =>
      match r.commitSummary with
      | .ok () => o.opens .commit
      | .error error => o.failUnlessQueued error
    | 'D' => if o.view.hasHosts then o.opens .deployHost else o.inform "the evaluated schema has no hosts to deploy"
    | 'S' => o.opens .profiles
    | 'h' => { o with view := o.view.setHumanOnly (!o.view.humanOnly) }
    | '1' => { o with view := o.view.setFilter .required }
    | '2' => { o with view := o.view.setFilter .all }
    | '3' => { o with view := o.view.setFilter .keys }
    | '4' => { o with view := o.view.setFilter .passwords }
    | '5' => { o with view := o.view.setFilter .publicInfo }
    | '6' => { o with view := o.view.setHumanOnly false }
    | '7' => { o with view := o.view.setHumanOnly true }
    | 'G' => o.opens (.bulkGenerateConfirm o.view.missingPasswords)
    | '?' => o.opens .help
    | 'P' => if o.view.selectedPath.isSome then o.opens .properties else o
    | '/' => o.opens (.search o.view.search)
    | 'g' => o.beginGenerate
    | 'd' =>
      match o.view.selectedSet with
      | some path => o.opens (.entry (.deleteConfirm path (r.commitState path)))
      | none => o.inform "select a set secret to delete"
    | 'r' =>
      match o.view.selectedSet, r.reveal with
      | some path, .ok value => o.opens (.reveal path value none)
      | some _, .error error => o.failUnlessQueued error
      | none, _ => o.inform "select a set secret to reveal"
    | 'c' =>
      match o.view.selectedSet with
      | some path => o.report (r.reveal.bind fun _ => r.copy) ("copied " ++ path)
      | none => o.inform "select a set secret to copy"
    | 'p' =>
      match o.view.selectedSet with
      | some path => o.report r.copyPublic ("copied public key for " ++ path)
      | none => o.inform "select a set OpenSSH private key"
    | 'O' => o.opens (.settings 0)
    | _ => o
  | _ => o

def settings (o : Outcome) (selected : Nat) : Input → Outcome
  | .up => o.opens (.settings (selected - 1))
  | .down => o.opens (.settings (min (selected + 1) 0))
  | .enter | .character ' ' => { o with autosave := !o.autosave }.opens (.settings selected)
  | .escape | .character 'O' => o
  | _ => o.opens (.settings selected)

def search (o : Outcome) (r : Replies) (query : String) : Input → Outcome
  | .character c => { o with view := o.view.setSearch (query.push c) }.opens (.search (query.push c))
  | .backspace =>
    let query := String.ofList query.toList.dropLast
    { o with view := o.view.setSearch query }.opens (.search query)
  | .enter => o
  | .escape => { o with view := o.view.setSearch "" }
  | .paste _ =>
    let query := query ++ r.look.search
    { o with view := o.view.setSearch query }.opens (.search query)
  | _ => o.opens (.search query)

/-- `Ctrl+R`: the stored value over the dialog that asks about it. -/
def revealCurrent (o : Outcome) (r : Replies) (entry : Entry) : Outcome :=
  if !o.view.isSet entry.path then
    (o.opens (.entry entry)).inform "this value is not set yet; there is nothing to reveal"
  else
    match r.reveal with
    | .ok value => o.opens (.reveal entry.path value (some entry))
    | .error error => (o.opens (.entry entry)).failUnlessQueued error

def edit (o : Outcome) (r : Replies) (path : String) (value : Value) : Input → Outcome
  | .character c => o.opens (.entry (.edit path (value ++ utf8Bytes [c])))
  | .paste pasted =>
    -- Autosave never replaces a stored value.
    if o.autosave ∧ !o.view.isSet path ∧ value = [] ∧ pasted ≠ [] ∧ 10 ∉ pasted then
      o.submit r path (value ++ pasted)
    else o.opens (.entry (.edit path (value ++ pasted)))
  | .tab => { o with autosave := !o.autosave }.opens (.entry (.edit path value))
  | .backspace => o.opens (.entry (.edit path (truncateCharacter value)))
  | .enter => if value ≠ [] then o.submitEntry r path value else o.opens (.entry (.edit path value))
  | .escape => o
  | .revealCurrent => o.revealCurrent r (.edit path value)
  | _ => o.opens (.entry (.edit path value))

/-- The operator confirmed that the stored value is replaced. -/
def confirm (o : Outcome) (r : Replies) (path : String) (value : Value) : Outcome :=
  (o.noting (.confirmed path value)).submit r path value

def replace (o : Outcome) (r : Replies) (path : String) (value : Value) (commit : CommitState) : Input → Outcome
  | .character 'y' =>
    if commit = .committed then o.confirm r path value else o.opens (.entry (.replace path value commit))
  | .confirmLoss => o.confirm r path value
  | .character 'n' | .character ' ' | .escape | .enter => o.opens (.entry (.edit path value))
  | .revealCurrent => o.revealCurrent r (.replace path value commit)
  | _ => o.opens (.entry (.replace path value commit))

def delete (o : Outcome) (r : Replies) (path : String) : Outcome :=
  let o := o.noting (.delete path)
  match r.delete with
  | .ok () => { o with view := o.view.setRow path false }.inform ("deleted " ++ path)
  | .error error => o.failUnlessQueued error

def deleteConfirm (o : Outcome) (r : Replies) (path : String) (commit : CommitState) : Input → Outcome
  | .character 'y' =>
    if commit = .committed ∨ commit = .unset then o.delete r path
    else o.opens (.entry (.deleteConfirm path commit))
  | .confirmLoss => o.delete r path
  | .character 'n' | .character ' ' | .escape | .enter => o
  | .revealCurrent => o.revealCurrent r (.deleteConfirm path commit)
  | _ => o.opens (.entry (.deleteConfirm path commit))

/-- Closing the reveal returns to the dialog it was opened from. -/
def close (o : Outcome) (underneath : Option Entry) : Outcome := { o with next := underneath.map .entry }

def accepted (result : Except String Unit) : Bool := result = .ok () ∨ result = .error operationQueued

def reveal (o : Outcome) (r : Replies) (path : String) (value : Value) (underneath : Option Entry) : Input → Outcome
  | .character 'c' => (o.opens (.reveal path value underneath)).report r.copy "value copied"
  | .enter =>
    if accepted r.copy then (o.close underneath).report r.copy "value copied"
    else (o.opens (.reveal path value underneath)).report r.copy "value copied"
  | .escape => o.close underneath
  | _ => o.opens (.reveal path value underneath)

def generateChoice (o : Outcome) (r : Replies) (path : String) (replacing : Bool) : Input → Outcome
  | .character 'p' | .character 'w' =>
    match r.generate with
    | .ok value => o.opens (.generatedPreview path value false replacing)
    | .error error => o.failUnlessQueued error
  | .escape => o
  | _ => o.opens (.generateChoice path replacing)

def keypairConfirm (o : Outcome) (r : Replies) (path : String) (replacing : Bool) : Input → Outcome
  | .character 'y' =>
    (o.noting (.keypair path)).report r.generateKeypair ("generated keypair for " ++ path)
  | .escape => o
  | _ => o.opens (.keypairConfirm path replacing)

def bulkGenerateConfirm (o : Outcome) (r : Replies) (paths : List String) : Input → Outcome
  | .character 'p' | .character 'w' =>
    if paths = [] then o.inform "No missing passwords to generate"
    else
      match r.generateMissing with
      | .ok () => (o.noting (.missing paths)).opens (.bulkProgress paths.length 0)
      | .error error => o.fail error
  | .escape => o
  | _ => o.opens (.bulkGenerateConfirm paths)

def generatedPreview (o : Outcome) (r : Replies) (path : String) (value : Value) (revealed replacing : Bool) :
    Input → Outcome
  | .character 'r' => o.opens (.generatedPreview path value (!revealed) replacing)
  | .character 'c' =>
    (o.opens (.generatedPreview path value revealed replacing)).report r.copy "generated value copied"
  | .enter => o.submitEntry r path value
  | .escape => o
  | _ => o.opens (.generatedPreview path value revealed replacing)

def providerFailure (o : Outcome) (r : Replies) (message path : String) (value : Value) : Input → Outcome
  | .character 'r' | .enter => o.submit r path value
  -- Dismissing an error must not discard the operator's unsaved draft.
  | .escape => o.opens (.entry (.edit path value))
  | _ => o.opens (.providerFailure message path value)

/-- The dialogs about no value change at most what is listed. -/
def plain (o : Outcome) (r : Replies) : Outcome :=
  { o with
    next := r.next.filter Dialog.isPlain
    notice := r.notice
    view := { r.look with rows := o.view.rows }.rebuildTree }

def dialog (o : Outcome) (r : Replies) (event : Input) : Dialog → Outcome
  | .settings selected => o.settings selected event
  | .search query => o.search r query event
  | .entry (.edit path value) => o.edit r path value event
  | .entry (.replace path value commit) => o.replace r path value commit event
  | .entry (.deleteConfirm path commit) => o.deleteConfirm r path commit event
  | .reveal path value underneath => o.reveal r path value underneath event
  | .generateChoice path replacing => o.generateChoice r path replacing event
  | .keypairConfirm path replacing => o.keypairConfirm r path replacing event
  | .bulkGenerateConfirm paths => o.bulkGenerateConfirm r paths event
  | .bulkProgress total done => if event = .escape then o else o.opens (.bulkProgress total done)
  | .generatedPreview path value revealed replacing => o.generatedPreview r path value revealed replacing event
  | .providerFailure message path value => o.providerFailure r message path value event
  | _ => o.plain r

end Outcome

/-- What a completion carries, for all of the UI. -/
inductive Arrival
  | rows (rows : List Row)
  | approval (request : ApprovalRequest)
  | deployment (text notice : String) (quarantined : Bool)
  | deleted (path : String)
  | keypairGenerated (path : String)
  | revealed (path : String) (value : Value)
  | generated (path : String) (value : Value) (replacing : Bool)
  | commitSummary
  | committed (text : String)
  | notice (text : String)
  deriving DecidableEq

def Completion.filterMap {ρ σ : Type} (f : ρ → Option σ) : Completion ρ → Option (Completion σ)
  | .approvalTerminated id => some (.approvalTerminated id)
  | .saved path => some (.saved path)
  | .saveFailed path value message => some (.saveFailed path value message)
  | .bulkGenerated count errors => some (.bulkGenerated count errors)
  | .bulkProgress done total => some (.bulkProgress done total)
  | .approvalDone none => some (.approvalDone none)
  | .approvalDone (some next) => (f next).map fun next => .approvalDone (some next)
  | .hostMutationsDeclined beforeDeploy => some (.hostMutationsDeclined beforeDeploy)
  | .deployed report => (f report).map .deployed
  | .approvalLost message => some (.approvalLost message)
  | .failed message => some (.failed message)
  | .commitFailed message => some (.commitFailed message)
  | .reported report => (f report).map .reported
  | .requestFinished kind id requester result => some (.requestFinished kind id requester result)

/-- The UI with the tree and the session's settings. `deeds` is no part of the program: it lists what was asked
of the writer, and what the operator confirmed. -/
structure Screen where
  model : Model := {}
  view : View := {}
  autosave : Bool := false
  deeds : List Deed := []

namespace Screen

def new (rows : List Row) : Screen where
  view := if rows.any (·.identity.isSome) then View.rebuildTree { rows } else { rows }

/-- What an outcome makes of the UI. -/
def apply (s : Screen) (o : Outcome) : Screen where
  model := s.model.elsewhere ⟨.ok (), .ok none, false, o.next, o.notice⟩
  view := o.view
  autosave := o.autosave
  deeds := s.deeds ++ o.deeds

def outcome (s : Screen) : Outcome := { view := s.view, autosave := s.autosave }

def showPendingApproval (s : Screen) : Screen := { s with model := s.model.showPendingApproval }

/-- A key in the open dialog, or in the tree. -/
def dispatch (s : Screen) (event : Input) (r : Replies) : Screen :=
  match s.model.mode with
  | .approval _ => { s with model := s.model.dispatch event.coarse r.answers }
  | .browse =>
    if event = .character 'M' then { s with model := s.model.dispatch event.coarse r.answers }
    else (s.apply (s.outcome.browse r event)).showPendingApproval
  | .dialog dialog => (s.apply (s.outcome.dialog r event dialog)).showPendingApproval

/-- `Ctrl+V` reads the clipboard itself and then acts like a paste. -/
def paste (s : Screen) (event : Input) (r : Replies) : Screen :=
  if event = .pasteRequest then
    match r.clipboard with
    | .ok value => s.dispatch (.paste value) r
    | .error error => { s with model := s.model.fail error }
  else s.dispatch event r

/-- A click into the tree selects, folds a group, and opens the entry of an unset value the operator provides. -/
def clickTree (s : Screen) (index : Nat) : Screen :=
  if s.view.visibleRows.length ≤ index then s
  else
    let view := { s.view with selected := index }
    match view.toggleSelectedGroup with
    | some view => { s with view }
    | none =>
      if view.selectedRow.any fun row => row.isSecret && !row.isSet && row.externalInputRequired then
        { s with view, model := { s.model with
          mode := view.selectedPath.elim .browse fun path => .dialog (.entry (.edit path [])) } }
      else { s with view }

def click (s : Screen) (target : Target) (r : Replies) : Screen :=
  match target with
  | .filter number =>
    if s.model.mode.isBrowse && number < 10 then s.dispatch (.character (Nat.digitChar number)) r else s
  | .tree index => if s.model.mode.isBrowse then s.clickTree index else s
  | .modalItem index =>
    match s.model.mode with
    | .dialog (.settings _) => { s with model := { s.model with mode := .dialog (.settings index) } }.dispatch .enter r
    | .dialog dialog => if dialog.isPlain then s.dispatch .enter r else s
    | _ => s
  | .shortcut key => s.paste key.input r
  | .autosaveToggle => s.dispatch .tab r
  | .confirmLoss => s.dispatch .confirmLoss r
  | .revealCurrent => s.dispatch .revealCurrent r
  | .deployRow index =>
    match s.model.mode with
    | .approval request => { s with model := s.model.approvalInput request (.click (.deployRow index)) r.answers }
    | _ => s
  | .procedure index => { s with model := s.model.restoreAt index }
  | .notice => s
  | .elsewhere => if s.model.mode = .dialog .commit then s.dispatch .other r else s

def input (s : Screen) (event : Input) (r : Replies) : Screen :=
  match event with
  | .click target => s.click target r
  | event => s.paste event r

/-- A deployment request brings the state of its tasks. -/
def offered (s : Screen) (request : ApprovalRequest) : View :=
  if s.model.completedApprovals.contains request.id then s.view else s.view.applyTaskStatus request

def offerApproval (s : Screen) (request : ApprovalRequest) : Screen :=
  { s with model := s.model.offerApproval request, view := s.offered request }

/-- One input event. -/
def reduce (s : Screen) (event : Input) (r : Replies) : Screen :=
  let view := match event with
    | .approval request => s.offered request
    | _ => s.view
  let s := { s with view }
  match s.model.intercept event.coarse r.answers with
  | some model => { s with model }
  | none =>
    match event with
    | .hover => s
    | .approval request => { s with model := s.model.offerApproval request }
    | event =>
      match s.model.message with
      | none => s.input event r
      | some notice =>
        match s.model.noticeInput notice.severity event.coarse with
        | (false, model) => { s with model }
        | (true, model) =>
          match model.intercept event.coarse r.answers with
          | some model => { s with model }
          | none => { s with model }.input event r

/-- What a completion opens or says. -/
def report (s : Screen) : Arrival → Option Report
  | .rows _ => none
  | .approval request => some (.approval request)
  | .deployment text notice quarantined => some (.deployment text notice quarantined)
  | .deleted path => some (.notice ("deleted " ++ path))
  | .keypairGenerated path => some (.notice ("Generated keypair for " ++ path ++ ". p copies its public key."))
  | .revealed path value =>
    match s.model.mode with
    | .dialog (.entry entry) =>
      if entry.path = path then some (.dialog (.reveal path value (some entry)) [.entry entry]) else none
    | _ => if s.view.selectedPath = some path then some (.dialog (.reveal path value none) []) else none
  | .generated path value replacing =>
    if s.view.selectedPath = some path then some (.dialog (.generatedPreview path value false replacing) []) else none
  | .commitSummary => some (.dialog .commit [])
  | .committed text | .notice text => some (.notice text)

/-- The rows that a completion changes. -/
def settled (s : Screen) : Completion Arrival → View
  | .saved path | .reported (.keypairGenerated path) => s.view.setRow path true
  | .reported (.deleted path) => s.view.setRow path false
  | .approvalDone (some (.approval request)) => s.offered request
  | _ => s.view

/-- A commit closes its dialog. -/
def closeCommit (s : Screen) : Completion Arrival → Model
  | .reported (.committed _) => if s.model.mode = .dialog .commit then { s.model with mode := .browse } else s.model
  | _ => s.model

def applyCompletion (s : Screen) (now : Nat) (completion : Completion Arrival) : Screen :=
  match completion.filterMap s.report with
  | some seen =>
    { s with model := (s.closeCommit completion).applyCompletion now seen, view := s.settled completion }
  | none => { s with model := s.model.showPendingApproval }

end Screen

/-- One thing the UI loop does. -/
inductive ScreenAct
  | procedureEvent (event : ProcedureEvent)
  | secretPrompt (prompt : SecretPrompt)
  | endTick (now : Nat) (changed : Bool)
  | completion (now : Nat) (completion : Completion Arrival)
  | refresh (rows : List Row)
  | approval (request : ApprovalRequest)
  | key (event : Input) (replies : Replies)

namespace Screen

def step (s : Screen) : ScreenAct → Screen
  | .procedureEvent event => { s with model := s.model.handle event }
  | .secretPrompt prompt => { s with model := s.model.offerPrompt prompt }
  | .endTick now changed => { s with
      model := if changed then (s.model.expirePrompts now).showPendingApproval else s.model.expirePrompts now }
  | .completion now completion => s.applyCompletion now completion
  | .refresh rows => if s.model.mode.isBrowse then { s with view := s.view.updateRows rows } else s
  | .approval request => s.offerApproval request
  | .key event replies => (s.reduce event replies).showPendingApproval

def run (s : Screen) : List ScreenAct → Screen
  | [] => s
  | act :: acts => (s.step act).run acts

end Screen

end NixSecrets.Tui
