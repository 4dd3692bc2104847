import NixSecrets.ApprovalBroker

namespace NixSecrets.Tui

/-- One replacement that a host provides, as the operator reviews it. -/
structure HostMutationReview where
  identifier : String
  kind : String
  previous : List String
  proposed : List String
  deriving DecidableEq, Repr

structure TaskApproval where
  identifier : String
  inputIsSet : Bool
  outputIsSet : Option Bool
  requiresInput : Bool
  deriving DecidableEq, Repr

/-- What the deployment dialog asks about. -/
structure ApprovalRequest where
  id : String
  target : String
  hostMutations : List HostMutationReview := []
  hostMutationsBeforeDeploy : Bool := false
  hostMutationToken : Option String := none
  create : List String := []
  replace : List String := []
  hostKey : Option String := none
  tasks : List TaskApproval := []
  /-- Unset values that the target generates, with the generator's label. -/
  generate : List (String × String) := []
  /-- Unset values that nobody can generate, with why. -/
  missing : List (String × String) := []
  /-- Values deployed from another secret, with that secret. -/
  derived : List (String × String) := []
  skippable : List String := []
  allowPartial : Bool := false
  unchecked : List String := []
  cursor : Nat := 0
  procedure : Option ProcedureStep := none
  deriving DecidableEq, Repr

inductive DialogSection
  | sent
  | generated
  deriving DecidableEq, Repr

structure DeployRow where
  kind : DialogSection
  identifier : String
  what : String
  deriving DecidableEq, Repr

def taskWhat (task : TaskApproval) : String :=
  let output := match task.outputIsSet with
    | some true => "installed"
    | some false => "not installed"
    | none => "unknown"
  if task.requiresInput then "target task; its key " ++ output
  else "generated on the target; its key " ++ output

namespace ApprovalRequest

def approvalStage (r : ApprovalRequest) : Nat :=
  if !r.hostMutations.isEmpty then if r.hostMutationsBeforeDeploy then 1 else 3
  else if r.hostKey.isSome then 0 else 2

def isMissing (r : ApprovalRequest) (identifier : String) : Bool := r.missing.any (·.1 == identifier)

def isGenerated (r : ApprovalRequest) (identifier : String) : Bool := r.generate.any (·.1 == identifier)

def isDerived (r : ApprovalRequest) (identifier : String) : Bool := r.derived.any (·.1 == identifier)

/-- The rows with a checkbox, in the order of the dialog. -/
def rows (r : ApprovalRequest) : List DeployRow :=
  if !r.hostMutations.isEmpty then []
  else
    let stored := r.create.map (·, "set") ++ r.replace.map (·, "replaced")
    (stored.filter fun row => !r.isMissing row.1 && !r.isGenerated row.1 && !r.isDerived row.1).map
        (fun row => ⟨.sent, row.1, row.2⟩) ++
      (r.derived.filter fun row => !r.isMissing row.1).map
        (fun row => ⟨.sent, row.1, "derived from " ++ row.2⟩) ++
      (r.tasks.filter fun task => !r.isMissing task.identifier).map
        (fun task => ⟨.sent, task.identifier, taskWhat task⟩) ++
      r.generate.map fun row => ⟨.generated, row.1, row.2⟩

/-- What approving sends or generates. -/
def checked (r : ApprovalRequest) : List DeployRow :=
  r.rows.filter fun row => !r.unchecked.contains row.identifier

def deployable (r : ApprovalRequest) : Bool := !r.checked.isEmpty

def toggle (r : ApprovalRequest) (identifier : String) : ApprovalRequest :=
  { r with unchecked := if r.unchecked.contains identifier then r.unchecked.filter (· ≠ identifier)
      else r.unchecked ++ [identifier] }

def toggleSection (r : ApprovalRequest) (kind : DialogSection) : ApprovalRequest :=
  let rows := (r.rows.filter fun row => row.kind = kind).map (·.identifier)
  { r with unchecked := if rows.all fun row => !r.unchecked.contains row
      then r.unchecked ++ rows else r.unchecked.filter fun row => !rows.contains row }

end ApprovalRequest

end NixSecrets.Tui
