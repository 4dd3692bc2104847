import NixSecrets.StepNumbering

namespace NixSecrets

open Inventory

/-- A request that takes a procedure token, with what its handler reads. -/
inductive Submission
  | deployment (schema : Inventory.Schema) (target : String) (allowPartial : Bool)
      (random : Random 16) (now later : Nat)
  | operator (e : Surroundings) (reason : Option String) (what : OperatorAsk)

def Desk.handle (d : Desk) (c : Caller) : Submission → Handled
  | .deployment schema target allowPartial random now later =>
    d.requestDeployment c schema target allowPartial random now later
  | .operator e reason what => d.requestOperator c e reason what

def Mark.numbers (d : Desk) (c : Caller) : Mark → Bool
  | .advanced token _ _ _ => (d.procedures.enter c.parentPid token c.peer).isOk
  | .unmarked | .annotated _ _ => false

/-- The request passes what is checked before its step is numbered, and the token is good. -/
def Submission.numbered (d : Desk) (c : Caller) : Submission → Bool
  | .deployment schema target allowPartial random _ _ =>
    match deploymentRequest schema target allowPartial random with
    | .ok request => (deploymentMark c request).numbers d c
    | .error _ => false
  | .operator e reason what =>
    match askable c e reason what with
    | .ok () => (what.mark c).numbers d c
    | .error _ => false

def ApprovalBroker.accepts (b : ApprovalBroker) (now : Nat) (request : ApprovalRequest) : Bool :=
  request.validate.isOk &&
    match (b.reclaim now).entries[request.id]? with
    | some entry => entry.request = request
    | none => (b.reclaim now).entries.size < maxRequests

/-- Some TUI gets the job before a closure's owner or socket is missing. -/
def reaches (closure confirmation : Bool) : Round → List Round → Bool
  | round, [] => (round.ready closure).isOk && round.sent
  | round, next :: rounds => (round.ready closure).isOk &&
    (round.sent || (!confirmation && reaches closure confirmation next rounds))

/-- What is checked after the step was numbered: the queue, the random bytes, the artifacts
and the TUIs. -/
def Submission.taken (d : Desk) : Submission → Bool
  | .deployment schema target allowPartial random now _ =>
    match deploymentRequest schema target allowPartial random with
    | .ok request => d.broker.accepts now request
    | .error _ => true
  | .operator e _ what => (randomHex e.random).isOk && (what.openArtifacts e).isOk &&
    reaches what.isClosure what.isConfirmation e.first e.later

namespace Desk

end Desk

theorem new_answers (parts : List String) : (SecretPath.new parts).Answers := by
  refine Checked.answers_bind.mpr ⟨Checked.answers_refuseIf _, fun _ hlength => ?_⟩
  have hlong := Checked.refuseIf_ok hlength
  refine Checked.answers_bind.mpr ⟨Checked.answers_each fun part _ => ?_, fun _ _ => ?_⟩
  · unfold validateComponent
    split
    next => exact Checked.answers_ok _
    next => exact Checked.answers_refuse _
  · refine Checked.answers_bind.mpr ⟨Checked.answers_index.mpr (by omega), fun space _ => ?_⟩
    refine Checked.answers_bind.mpr ⟨?_, fun _ _ => Checked.answers_pure _⟩
    unfold validateNamespace
    split
    next => exact Checked.answers_ok _
    next => exact Checked.answers_refuse _

end NixSecrets
