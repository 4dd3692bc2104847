import NixSecrets.DeploymentServer

namespace NixSecrets.Transport

def selection (expected : ExpectedTarget) : DeploymentSelection where
  identifiers := expected.secrets.map (·.identifier)
  taskIdentifiers := expected.tasks.map (·.identifier)

/-- What the operator sends for the values and tasks. -/
structure BatchItems where
  entries : List SecretDeployment := []
  tasks : List TaskEntry := []
  generate : List GenerateEntry := []
  derive : List String := []

def batchOf (version : UInt16) (items : BatchItems) : WireBatch where
  version
  requestedIdentifiers := items.entries.map (·.identifier) ++
    (items.generate.filter (·.shared = none)).map (·.identifier) ++ items.derive
  requestedTasks := items.tasks.map (·.identifier)
  entries := items.entries
  tasks := items.tasks
  generate := items.generate
  derive := items.derive

section

variable (libs : Libraries) (expected : ExpectedTarget) (state : TargetState)

/-- Before protocol 4 a batch must name the whole selection. -/
def requireWhole : Except DeploymentError Unit :=
  if state.protocolVersion < notDeployedProtocolVersion then validateTarget libs state expected else .ok ()

/-- Opens a deployment to a target that answers the selection with its state. -/
def openDeployment : Except DeploymentError (List LeftOut) := do
  validateSelection (selection expected)
  let leftOut ← compareTarget libs state expected
  requireWhole libs expected state
  return leftOut

/-- The batch the client sends for the items. -/
def deployWithGeneration (items : BatchItems) : Except DeploymentError WireBatch := do
  rejectIf ((items.generate ≠ [] ∨ items.derive ≠ []) ∧ state.protocolVersion < generationProtocolVersion)
    "target runs deployment protocol 1 and cannot generate values; rebuild it first"
  rejectIf ((∃ item ∈ items.generate, item.shared ≠ none) ∧
      state.protocolVersion < sharedSourceProtocolVersion)
    "target runs deployment protocol 2 and cannot generate a shared source; rebuild it first"
  verifyGenerators state expected ((items.generate.filter (·.shared = none)).map (·.identifier))
  let batch := batchOf state.protocolVersion items
  validateBatch libs batch state
  return batch

end

end NixSecrets.Transport
