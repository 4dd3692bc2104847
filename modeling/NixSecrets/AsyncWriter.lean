import NixSecrets.InventorySchema
import NixSecrets.Profiles
import NixSecrets.ApprovalBroker

namespace NixSecrets.Tui

/-- A request that waits for the operator; `title` is the line that names it. -/
structure SecretPrompt where
  id : String
  title : String
  sshSignature : Bool
  sshLogin : Bool
  artifactSignature : Bool
  closureSignature : Bool
  confirmation : Bool
  deadline : Option Nat
  procedure : Option ProcedureStep
  deriving DecidableEq, Repr

/-- What kind of request an outcome belongs to. -/
inductive RequestKind
  | values
  | signature
  | artifacts
  | confirmation
  deriving DecidableEq, Repr

/-- What the operator channel tells the UI. -/
inductive ChannelEvent
  | attached
  | prompt (prompt : SecretPrompt)
  | withdrawn (id : String)
  | procedure (step : ProcedureStep)
  | procedureEnded (id : String) (exitCode : Option Int)
  | finished (kind : RequestKind) (id requester : String) (result : Except String Nat)
  | lost (error : String)
  deriving DecidableEq

inductive ProcedureEvent
  | step (step : ProcedureStep)
  | ended (id : String) (exitCode : Option Int)
  | withdrawn (id : String)
  | disconnected
  | reconnected
  | synced (live : List String)
  deriving DecidableEq, Repr

end NixSecrets.Tui

namespace NixSecrets.Tui

abbrev Value := List UInt8

inductive GenerateKind
  | password
  | passphrase
  deriving DecidableEq, Repr

structure CommitOptions where
  message : String
  amend : Bool
  signoff : Bool
  deriving DecidableEq, Repr

/-- What the UI asks the worker for. -/
inductive Command
  | write (path : String) (value : Value)
  | delete (path : String)
  | reveal (path : String)
  | copyPublic (path : String)
  | copyValue (value : Value)
  | generate (path : String) (kind : GenerateKind) (replacing : Bool)
  | bulkGenerate (paths : List String) (kind : GenerateKind)
  | generateKeypair (path : String)
  | approval (accepted : Bool)
  | approvalWith (accepted : Bool) (unchecked : List String)
  | hostMutations (accepted : Bool) (token : String)
  | requestDeployment (host : String)
  | saveProfile (name : String) (profile : Profiles.ViewProfile) (revision : Nat)
  | commitSummary
  | commit (options : CommitOptions)
  | deleteProfile (name : String) (revision : Nat)
  deriving DecidableEq

/-- The value that a command submits. -/
def Command.draft : Command → Option (String × Value)
  | .write path value => some (path, value)
  | _ => none

structure Activity where
  label : String
  waitsForOnePassword : Bool
  deriving DecidableEq, Repr

/-- What became of a command; `ρ` is what commands report that only the UI looks at. -/
inductive Completion (ρ : Type)
  | approvalTerminated (id : String)
  | saved (path : String)
  | saveFailed (path : String) (value : Value) (message : String)
  | bulkGenerated (saved : Nat) (failed : List String)
  | bulkProgress (done total : Nat)
  | approvalDone (next : Option ρ)
  | hostMutationsDeclined (beforeDeploy : Bool)
  | deployed (report : ρ)
  | approvalLost (message : String)
  | failed (message : String)
  | commitFailed (message : String)
  | reported (report : ρ)
  | requestFinished (kind : RequestKind) (id requester : String) (result : Except String Nat)
  deriving DecidableEq

/-- What the worker tells the UI. -/
inductive Event (ρ : Type)
  | connection (problem : Option String)
  | workerStopped
  | progress (done total : Nat) (waiting secret : Bool)
  | phase (label : String)
  | approvalTerminated (id : String)
  | rows (rows : ρ)
  | profiles (snapshot : ρ)
  | approval (request : ρ)
  | completion (completion : Completion ρ)
  | error (message : String)
  | approvalLost (message : String)
  deriving DecidableEq

/-- The UI's end of the worker. -/
structure AsyncWriter (ρ : Type) where
  rows : Option ρ := none
  profiles : Option ρ := none
  approvals : List ρ := []
  completions : List (Completion ρ) := []
  busy : Bool := false
  pending : List (Option Activity) := []
  drafts : List (Option (String × Value)) := []
  activity : Option Activity := none
  onePassword : Bool
  secretPrompts : List SecretPrompt := []
  workerLost : Option String := none
  channelLost : Option String := none
  attachSnapshot : List String := []
  secretActivity : BTreeMap String Activity := ∅
  procedureEvents : List ProcedureEvent := []

def maxSecretSize : Nat := 16 * 1024 * 1024

/-- Names the slow commands. -/
def describe (onePassword : Bool) : Command → Option Activity
  | .reveal path => some ⟨"Decrypting " ++ path, onePassword⟩
  | .approval true | .approvalWith true _ => some ⟨"Decrypting values for deployment", onePassword⟩
  | .hostMutations accepted _ => some ⟨if accepted then "Saving approved host-provided changes"
      else "Rejecting host-provided changes", false⟩
  | .approvalWith false _ | .approval false => some ⟨"Rejecting deployment request", false⟩
  | .requestDeployment host => some ⟨"Requesting a deployment of " ++ host, false⟩
  | .write path _ => some ⟨"Encrypting and saving " ++ path, onePassword⟩
  | .delete path => some ⟨"Deleting " ++ path, false⟩
  | .generate path _ _ => some ⟨"Generating " ++ path, false⟩
  | .generateKeypair path => some ⟨"Running the generator for " ++ path, false⟩
  | .bulkGenerate paths _ => some ⟨"Generating " ++ toString paths.length ++ " missing passwords", false⟩
  | .commit options => some ⟨if options.amend then "Amending the last commit; sign it if your agent asks"
      else "Committing; sign it if your agent asks", false⟩
  | .copyPublic _ | .copyValue _ | .saveProfile _ _ _ | .deleteProfile _ _ | .commitSummary => none

/-- The request whose outcome this is. -/
def Completion.secretRequest {ρ : Type} : Completion ρ → Option String
  | .requestFinished _ id _ _ => some id
  | _ => none

namespace AsyncWriter

variable {ρ : Type}

def workerStopped (w : AsyncWriter ρ) : AsyncWriter ρ :=
  let handedBack := (w.drafts.filterMap id).map fun (path, value) =>
    .saveFailed path value "backend worker stopped; this submitted value was retained for retry"
  let idle := if w.busy ∧ ¬ w.drafts.any Option.isSome then [.failed "backend worker stopped"] else []
  { w with
    completions := w.completions ++ handedBack ++ idle
    drafts := []
    pending := []
    busy := false
    activity := none }

/-- Takes one event of the operator channel in. -/
def hear (w : AsyncWriter ρ) : ChannelEvent → AsyncWriter ρ
  | .attached =>
    let w' := { w with attachSnapshot := [], channelLost := none }
    if w.channelLost.isSome then
      { w' with procedureEvents := w.procedureEvents ++ [.synced w.attachSnapshot, .reconnected] }
    else w'
  | .prompt prompt => { w with secretPrompts := w.secretPrompts ++ [prompt] }
  | .withdrawn id => { w with
      secretPrompts := w.secretPrompts.filter (·.id ≠ id)
      procedureEvents := w.procedureEvents ++ [.withdrawn id] }
  | .procedure step => { w with
      attachSnapshot := if w.channelLost.isSome then w.attachSnapshot ++ [step.id] else w.attachSnapshot
      procedureEvents := w.procedureEvents ++ [.step step] }
  | .procedureEnded id exitCode => { w with procedureEvents := w.procedureEvents ++ [.ended id exitCode] }
  | .finished kind id requester result => { w with
      secretActivity := w.secretActivity.erase id
      completions := w.completions ++ [.requestFinished kind id requester result] }
  | .lost error => { w with
      procedureEvents := if w.channelLost.isNone then w.procedureEvents ++ [.disconnected]
        else w.procedureEvents
      secretPrompts := []
      secretActivity := ∅
      channelLost := some error }

def decrypting (done total : Nat) (waiting : Bool) : Activity where
  label := "Decrypting " ++ toString done ++ "/" ++ toString total ++ ". " ++
    (if waiting then "Waiting for 1Password approval" else "Running decryption workers")
  waitsForOnePassword := waiting

/-- A failed save hands the submitted value back. -/
def withDraft (draft : Option (Option (String × Value))) (result : Completion ρ) : Completion ρ :=
  match draft, result with
  | some (some (path, value)), .failed message => .saveFailed path value message
  | _, result => result

/-- Takes one event of the worker in. -/
def receive (w : AsyncWriter ρ) : Event ρ → AsyncWriter ρ
  | .workerStopped => w.workerStopped
  | .connection problem => { w with workerLost := problem }
  | .approvalTerminated id => { w with completions := w.completions ++ [.approvalTerminated id] }
  | .phase label => { w with activity := w.activity.map fun _ => ⟨label, false⟩ }
  | .progress done total waiting secret =>
    if secret then { w with secretActivity := w.secretActivity.map fun _ _ => decrypting done total waiting }
    else { w with activity := w.activity.map fun _ => decrypting done total waiting }
  | .rows rows => { w with rows := some rows }
  | .profiles snapshot => { w with profiles := some snapshot }
  | .approval request => { w with approvals := w.approvals ++ [request] }
  | .completion (.bulkProgress done total) =>
    { w with completions := w.completions ++ [.bulkProgress done total] }
  | .completion result => { w with
      pending := w.pending.tail
      drafts := w.drafts.tail
      busy := !w.pending.tail.isEmpty
      activity := (w.pending.tail.head?).join
      completions := w.completions ++ [withDraft w.drafts.head? result] }
  | .error message => { w with completions := w.completions ++ [.failed message] }
  | .approvalLost message => { w with completions := w.completions ++ [.approvalLost message] }

/-- Submits a value; `listening` says whether the worker still listens. -/
def write (w : AsyncWriter ρ) (listening : Bool) (path : String) (value : Value) :
    Except (String × Value) (AsyncWriter ρ × Command) :=
  if maxSecretSize < value.length then .error ("value exceeds the maximum secret size", value)
  else if 8 ≤ w.pending.length then
    .error ("save queue is full; keep this value and retry after a save completes", value)
  else if !listening then .error ("backend worker stopped", value)
  else
    let next := some (Activity.mk ("Encrypting and saving " ++ path) w.onePassword)
    .ok ({ w with
      busy := true
      activity := if w.pending.isEmpty then next else w.activity
      pending := w.pending ++ [next]
      drafts := w.drafts ++ [some (path, value)] }, .write path value)

/-- Hands any other command to the worker. -/
def queue (w : AsyncWriter ρ) (listening : Bool) (command : Command) : Except String (AsyncWriter ρ) :=
  if w.busy then .error "another operation is still running"
  else if !listening then .error "backend worker stopped"
  else
    let activity := describe w.onePassword command
    .ok { w with
      busy := true
      pending := w.pending ++ [activity]
      drafts := w.drafts ++ [none]
      activity }

/-- Hands out a completion; the outcome of a request waits until its prompt was taken in. -/
def pollCompletion (w : AsyncWriter ρ) : Option (Completion ρ) × AsyncWriter ρ :=
  let ready (completion : Completion ρ) : Bool := completion.secretRequest.all fun id =>
    !w.secretPrompts.any (·.id == id)
  (w.completions.find? ready, { w with completions := w.completions.eraseP ready })

end AsyncWriter

inductive Action
  | none
  | queued
  | saved (path : String)
  deriving DecidableEq, Repr

/-- What the controller answers to the commands of a run. -/
structure Answer (ρ : Type) where
  pathRefusal : String
  stored : Except String Unit
  reply : Except String ρ
  next : Except String (Option ρ)
  report : ρ
  beforeDeploy : Bool
  saved : Nat
  failed : List String

section

variable {ρ : Type}

/-- The controller's own write: a value that is not stored comes back. -/
def controllerWrite (answer : Answer ρ) (path : String) (value : Value) : Except (String × Value) Action :=
  match Inventory.SecretPath.parse path with
  | .error _ => .error (answer.pathRefusal, value)
  | .ok parsed =>
    match answer.stored with
    | .ok () => .ok (.saved parsed.display)
    | .error message => .error (message, value)

def approvalDone (answer : Answer ρ) (accepted : Bool) : Completion ρ :=
  match answer.next with
  | .ok none => if accepted then .deployed answer.report else .approvalDone none
  | .ok next => .approvalDone next
  | .error message => .approvalLost message

def execute (answer : Answer ρ) : Command → Completion ρ
  | .write path value =>
    match controllerWrite answer path value with
    | .ok (.saved path) => .saved path
    | .ok _ => .failed "save did not complete"
    | .error (message, value) => .saveFailed path value message
  | .bulkGenerate _ _ => .bulkGenerated answer.saved answer.failed
  | .approval accepted | .approvalWith accepted _ => approvalDone answer accepted
  | .hostMutations accepted _ =>
    match answer.next with
    | .ok none => if accepted then approvalDone answer accepted
      else .hostMutationsDeclined answer.beforeDeploy
    | _ => approvalDone answer accepted
  | .commit _ =>
    match answer.reply with
    | .ok report => .reported report
    | .error message => .commitFailed message
  | _ =>
    match answer.reply with
    | .ok report => .reported report
    | .error message => .failed message

/-- The worker takes commands until it stops; it announces that before it lets go of its queue. -/
inductive Worker
  | idle
  | executing (command : Command)
  | announced
  | gone
  deriving DecidableEq

def Worker.listening : Worker → Bool
  | .gone => false
  | _ => true

def Worker.running : Worker → Bool
  | .idle | .executing _ => true
  | _ => false

/-- The UI, the worker, the operator channel and what is on its way between them. -/
structure System (ρ : Type) where
  writer : AsyncWriter ρ
  commands : List Command := []
  events : List (Event ρ) := []
  channel : List ChannelEvent := []
  worker : Worker := .idle
  channelThread : Bool := true
  /-- The values that were queued, and the completions that were handed out, in order. -/
  queued : List (String × Value) := []
  polled : List (Completion ρ) := []
  stopSeen : Bool := false

/-- What the worker tells besides what became of its commands. -/
inductive News (ρ : Type)
  | connection (problem : Option String)
  | progress (done total : Nat) (waiting : Bool)
  | phase (label : String)
  | refreshed (rows : ρ)
  | profiles (snapshot : ρ)
  | approval (request : ρ)
  | error (message : String)
  | approvalLost (message : String)

def News.event : News ρ → Event ρ
  | .connection problem => .connection problem
  | .progress done total waiting => .progress done total waiting false
  | .phase label => .phase label
  | .refreshed rows => .rows rows
  | .profiles snapshot => .profiles snapshot
  | .approval request => .approval request
  | .error message => .error message
  | .approvalLost message => .approvalLost message

/-- One step of one of the threads. -/
inductive Act (ρ : Type)
  | write (path : String) (value : Value)
  | queue (command : Command)
  | hear
  | receive
  | poll
  | take
  | bulkProgress (done total : Nat)
  | finish (answer : Answer ρ) (approvalId : Option String)
  | tell (news : News ρ)
  | announce
  | letGo
  | channelSends (event : ChannelEvent)
  | channelProgress (done total : Nat) (waiting : Bool)
  | channelEnds

namespace System

def spawn (onePassword : Bool) : System ρ := { writer := { onePassword } }

/-- The pump's next event of the worker, or that all its senders are gone. -/
def receive (s : System ρ) : System ρ :=
  match s.events with
  | event :: events => { s with
      writer := s.writer.receive event
      events
      stopSeen := s.stopSeen || (match event with | .workerStopped => true | _ => false) }
  | [] =>
    if s.worker = .gone ∧ s.channelThread = false then { s with writer := s.writer.workerStopped } else s

def step (s : System ρ) : Act ρ → System ρ
  | .write path value =>
    match s.writer.write s.worker.listening path value with
    | .ok (writer, command) =>
      { s with writer, commands := s.commands ++ [command], queued := s.queued ++ [(path, value)] }
    | .error _ => s
  | .queue command =>
    if command.draft.isSome then s
    else match s.writer.queue s.worker.listening command with
    | .ok writer => { s with writer, commands := s.commands ++ [command] }
    | .error _ => s
  | .hear =>
    match s.channel with
    | event :: channel => { s with writer := s.writer.hear event, channel }
    | [] => s
  | .receive => s.receive
  | .poll =>
    match s.writer.pollCompletion with
    | (some completion, writer) => { s with writer, polled := s.polled ++ [completion] }
    | (none, _) => s
  | .take =>
    match s.worker, s.commands with
    | .idle, command :: commands => { s with worker := .executing command, commands }
    | _, _ => s
  | .bulkProgress done total =>
    match s.worker with
    | .executing (.bulkGenerate _ _) =>
      { s with events := s.events ++ [.completion (.bulkProgress done total)] }
    | _ => s
  | .finish answer approvalId =>
    match s.worker with
    | .executing command => { s with
        worker := .idle
        events := s.events ++ approvalId.toList.map .approvalTerminated ++
          [.completion (execute answer command)] }
    | _ => s
  | .tell news => if s.worker.running then { s with events := s.events ++ [news.event] } else s
  | .announce =>
    if s.worker.running then { s with worker := .announced, events := s.events ++ [.workerStopped] } else s
  | .letGo => if s.worker = .announced then { s with worker := .gone, commands := [] } else s
  | .channelSends event => if s.channelThread then { s with channel := s.channel ++ [event] } else s
  | .channelProgress done total waiting =>
    if s.channelThread then { s with events := s.events ++ [.progress done total waiting true] } else s
  | .channelEnds => { s with channelThread := false }

def run (s : System ρ) : List (Act ρ) → System ρ
  | [] => s
  | act :: acts => (s.step act).run acts

end System

end

end NixSecrets.Tui
