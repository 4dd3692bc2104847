import NixSecrets.ArtifactSigning
import NixSecrets.OperatorChannel
import NixSecrets.ProcedureAdmission

namespace NixSecrets

open Inventory

/-- What a request that carries a procedure token touches: the registry, every step sent to
the TUIs so far, and the approval queue. -/
structure Desk where
  procedures : Procedures := {}
  told : List ProcedureStep := []
  broker : ApprovalBroker := {}

/-- The process at the other end of the connection, and its place in `/proc`. -/
structure Caller where
  peer : Nat
  parentPid : ParentPid
  procedure : Option String

inductive DeskReply
  | deploymentRequested (request : ApprovalRequest) (waitingForOperator : Bool)
  | answered (answer : SecretAnswer)
  deriving DecidableEq, Repr

/-- How a request ends; `queued` if it reached the queue or the inbox of a TUI. -/
structure Handled where
  desk : Desk
  queued : Bool
  answer : Checked Refusal DeskReply

/-- How a request is placed in its procedure. -/
inductive Mark
  | unmarked
  | annotated (token label : String)
  | advanced (token label : String) (deployment repeatable : Bool)
  deriving DecidableEq, Repr

namespace Desk

def advance (d : Desk) (c : Caller) (token label : String) (deployment repeatable : Bool) :
    Desk × Except String ProcedureStep :=
  match d.procedures.nextStep c.parentPid token c.peer label deployment repeatable with
  | (procedures, .error message) => ({ d with procedures }, .error message)
  | (procedures, .ok step) =>
    ({ d with
        procedures
        told := d.told ++ [step] }, .ok step)

def mark (d : Desk) (c : Caller) : Mark → Desk × Except String (Option ProcedureStep)
  | .unmarked => (d, .ok none)
  | .annotated token label =>
    let (procedures, step) := d.procedures.annotate c.parentPid token c.peer label
    ({ d with procedures }, step.map some)
  | .advanced token label deployment repeatable =>
    let (d, step) := d.advance c token label deployment repeatable
    (d, step.map some)

/-- A request is checked, placed in its procedure, and handed on. -/
def inStep {α : Type} (d : Desk) (c : Caller) (checks : Checked Refusal α) (place : α → Mark)
    (rest : Desk → α → Option ProcedureStep → Handled) : Handled :=
  match checks with
  | .error stop => ⟨d, false, .error stop⟩
  | .ok checked =>
    match d.mark c (place checked) with
    | (d, .error message) => ⟨d, false, Checked.refuse (.message message)⟩
    | (d, .ok step) => rest d checked step

end Desk

def deploymentRequest (schema : Inventory.Schema) (target : String) (allowPartial : Bool) (random : Random 16) :
    Checked Refusal ApprovalRequest :=
  match schema.deployableIdentifiers target with
  | .error .panicked => .error .panicked
  | .error (.refused _) => Checked.refuse (.message (target ++ " is not a host of the evaluated schema"))
  | .ok secrets =>
    if secrets = [] then Checked.refuse (.message (target ++ " declares no deployable values"))
    else
      match randomHex random with
      | .error error => Checked.refuse (.message error)
      | .ok random => .ok ⟨"deploy-" ++ random, target, secrets, allowPartial⟩

def queueRefusal : BrokerError → String
  | .invalid message => message
  | .full => "approval broker capacity reached"
  | _ => "the deployment request could not be queued"

def Desk.submit (now later : Nat) (d : Desk) (request : ApprovalRequest)
    (procedure : Option ProcedureStep) : Handled :=
  match d.broker.submitInProcedure now later request procedure with
  | (broker, .error error) => ⟨{ d with broker }, false, Checked.refuse (.message (queueRefusal error))⟩
  | (broker, .ok _) =>
    ⟨{ d with broker }, true, .ok (.deploymentRequested request (broker.frontends.isEmpty))⟩

def deploymentMark (c : Caller) (request : ApprovalRequest) : Mark :=
  match c.procedure with
  | none => .unmarked
  | some token => .advanced token ("deploy secrets to " ++ request.target) true false

def Desk.requestDeployment (d : Desk) (c : Caller) (schema : Inventory.Schema) (target : String)
    (allowPartial : Bool) (random : Random 16) (now later : Nat) : Handled :=
  d.inStep c (deploymentRequest schema target allowPartial random) (deploymentMark c) (submit now later)

inductive OperatorAsk
  | secrets (identifiers : List String)
  | sshSignature (destination : String) (grant : Option String)
  | sshLogin (destination : String)
  | artifacts (signing : ArtifactSigning.SigningRequest)
  | closure (identifier host : String)
  | confirmation (label : String)

namespace OperatorAsk

def grant : OperatorAsk → Option String
  | .sshSignature _ grant => grant
  | _ => none

def isConfirmation : OperatorAsk → Bool
  | .confirmation _ => true
  | _ => false

def isClosure : OperatorAsk → Bool
  | .closure _ _ => true
  | _ => false

/-- What a request asks for, as a procedure step label; SSH logins may repeat. -/
def stepLabel : OperatorAsk → String × Bool
  | .closure _ host => ("sign closure for " ++ host, false)
  | .artifacts signing => ("sign artifacts for " ++ signing.host, false)
  | .sshSignature destination _ => ("SSH authentication to " ++ destination, true)
  | .sshLogin destination => ("SSH authentication to " ++ destination, true)
  | .secrets identifiers =>
    ("release " ++ toString identifiers.length ++ " secret value" ++
      (if identifiers.length = 1 then "" else "s"), false)
  | .confirmation label => (label, false)

def mark (c : Caller) (what : OperatorAsk) : Mark :=
  match c.procedure.filter fun _ => what.grant.isNone with
  | none => .unmarked
  | some token =>
    match what with
    | .confirmation label => .annotated token label
    | _ => .advanced token what.stepLabel.1 false what.stepLabel.2

end OperatorAsk

/-- One TUI the request is tried on: its owner, the copy of the requester's socket, whether
its inbox took the job and what came of it. -/
structure Round where
  owner : Option Nat
  socket : Except String Unit
  sent : Bool
  outcome : Except String (Option SecretAnswer)

/-- What happens around a request. `checked` stands for the checks that the handlers of
logins, closures and confirmations make first; `left` is how the last wait for a TUI ends. -/
structure Surroundings where
  schema : Except String Inventory.Schema
  checked : Checked Refusal Unit
  attached : Bool
  pending : Nat
  operator : Except String Unit
  random : Random 8
  store : ArtifactSigning.StoreView
  first : Round
  later : List Round
  left : String

def maxRequestIdentifiers : Nat := 256

def isSigningOnly (schema : Inventory.Schema) (path : SecretPath) : Checked SchemaError Bool := do
  match ← schema.leaf path with
  | .operator _ spec => .ok spec.signingOnly
  | .stored _ _ | .generated _ _ => .ok false

/-- Any other error is reported by the channel, which checks the path again. -/
def refuseExport (schema : Inventory.Schema) (identifier : String) : Checked Refusal Unit :=
  match SecretPath.parse identifier >>= isSigningOnly schema with
  | .ok true =>
    Checked.refuse (.message (identifier ++ " is signing-only; plaintext export is forbidden"))
  | .error .panicked => .error .panicked
  | _ => .ok ()

def checkIdentifiers : List String → List String → Checked Refusal Unit
  | _, [] => .ok ()
  | seen, identifier :: identifiers => do
    let _ ← (SecretPath.parse identifier).mapRefusal (.path identifier)
    Checked.refuseIf (identifier ∈ seen) (.message (identifier ++ " is requested twice"))
    checkIdentifiers (identifier :: seen) identifiers

def reloaded (e : Surroundings) : Checked Refusal Inventory.Schema :=
  (Checked.ofExcept e.schema).mapRefusal fun message =>
    .message ("reloading signing policy failed: " ++ message)

/-- The checks of each handler before it asks the operator. -/
def OperatorAsk.check (e : Surroundings) (reason : Option String) :
    OperatorAsk → Checked Refusal Unit
  | .secrets identifiers => do
    let schema ← reloaded e
    Checked.each (refuseExport schema) identifiers
    Checked.refuseIf (reason.any fun reason => maxRequestReasonBytes < reason.utf8ByteSize)
      (.message "secret request reason exceeds 4096 bytes")
    Checked.refuseIf (identifiers = [] ∨ maxRequestIdentifiers < identifiers.length)
      (.message "a secret request names between 1 and 256 identifiers")
    checkIdentifiers [] identifiers
  | .artifacts signing => do
    let schema ← reloaded e
    signing.validate
    let path ← (SecretPath.parse signing.identifier).mapRefusal Refusal.schema
    let signingOnly ← (isSigningOnly schema path).mapRefusal Refusal.schema
    Checked.refuseIf (signingOnly = false)
      (.message "artifact signing requires a signing-only operator key")
  | .closure _ _ => do
    let _ ← reloaded e
    e.checked
  | .sshSignature _ _ | .sshLogin _ | .confirmation _ => e.checked

/-- The start of the operator channel, up to the TUI that can be asked. -/
def askable (c : Caller) (e : Surroundings) (reason : Option String) (what : OperatorAsk) :
    Checked Refusal Unit := do
  what.check e reason
  Checked.refuseIf (reason.any fun reason => maxRequestReasonBytes < reason.utf8ByteSize)
    (.message "request reason exceeds 4096 bytes")
  Checked.refuseIf (what.isConfirmation ∧ c.procedure = none)
    (.message "a confirmation must come from inside a procedure")
  Checked.refuseIf (what.isConfirmation ∧ e.attached = false) (.message noOperator)
  Checked.refuseIf (maxPending ≤ e.pending)
    (.message "16 requests are already waiting for the operator; retry when one is answered")
  (Checked.ofExcept e.operator).mapRefusal Refusal.message

def OperatorAsk.openArtifacts (e : Surroundings) : OperatorAsk → Checked Refusal Unit
  | .artifacts signing => do
    let _ ← ArtifactSigning.openArtifacts e.store signing
    return ()
  | _ => .ok ()

def Round.ready (round : Round) (closure : Bool) : Except String Unit :=
  if closure then
    match round.owner with
    | none => .error noOperator
    | some _ => round.socket
  else .ok ()

def wentAway : String := "the nix-secrets TUI went away before the operator answered"

/-- Whether a TUI got the request, and how the request ends unless it waits for another TUI. -/
def Round.tried (round : Round) (closure confirmation : Bool) :
    Bool × Option (Except String SecretAnswer) :=
  let gone := if confirmation then some (.error wentAway) else none
  match round.ready closure with
  | .error message => (false, some (.error message))
  | .ok () =>
    if round.sent then
      match round.outcome with
      | .error message => (true, some (.error message))
      | .ok (some answer) => (true, some (.ok answer))
      | .ok none => (true, gone)
    else (false, gone)

def askTuis (closure confirmation : Bool) (left : String) :
    Round → List Round → Bool × Except String SecretAnswer
  | round, [] =>
    let (sent, result) := round.tried closure confirmation
    (sent, result.getD (.error left))
  | round, next :: rounds =>
    match round.tried closure confirmation with
    | (sent, some result) => (sent, result)
    | (sent, none) =>
      let (queued, result) := askTuis closure confirmation left next rounds
      (sent || queued, result)

def Desk.ask (e : Surroundings) (what : OperatorAsk) (d : Desk) : Handled :=
  match randomHex e.random with
  | .error error => ⟨d, false, Checked.refuse (.message error)⟩
  | .ok _ =>
    match what.openArtifacts e with
    | .error stop => ⟨d, false, .error stop⟩
    | .ok () =>
      let (queued, answer) := askTuis what.isClosure what.isConfirmation e.left e.first e.later
      ⟨d, queued, ((Checked.ofExcept answer).mapRefusal Refusal.message).map .answered⟩

def Desk.requestOperator (d : Desk) (c : Caller) (e : Surroundings) (reason : Option String)
    (what : OperatorAsk) : Handled :=
  d.inStep c (askable c e reason what) (fun _ => what.mark c) fun d _ _ => d.ask e what

end NixSecrets
