import NixSecrets.TargetComparison
import NixSecrets.ByteStream
import NixSecrets.LengthPrefixed

namespace NixSecrets.Transport

def maxDeploymentJson : Nat := 64 * 1024 * 1024

inductive DeploymentResult
  | applied (output : AppliedOutput)
  | rejected (message : String)
  deriving DecidableEq

/-- How the messages are read from JSON and written as JSON. -/
structure WireFormat where
  selection : List UInt8 → Except String DeploymentSelection
  batch : List UInt8 → Except String WireBatch
  state : TargetState → Except String (List UInt8)
  result : DeploymentResult → Except String (List UInt8)

/-- What a server has done, a message counting once it is received or sent as a whole. -/
inductive ServerEvent
  | selected (selection : DeploymentSelection)
  | answered (state : TargetState)
  | received (batch : WireBatch)
  | applied (batch : WireBatch)
  | reported (result : DeploymentResult)

structure Served (ω : Type) where
  input : List Arrival
  output : ω
  events : List ServerEvent

abbrev Serving (ω : Type) := ExceptT DeploymentError (StateM (Served ω))

/-- How an unfilled buffer is reported when some bytes of its message came before it. -/
def readError (before expected : Nat) : ReadStop → DeploymentError
  | .ended received => .truncated (received + before) expected
  | .failed e => .io e

def readWireJson {α : Type} (decode : List UInt8 → Except String α) (input : List Arrival) :
    Except DeploymentError (α × List Arrival) := do
  let (length, input) ← (readWhole input 4 []).mapError (readError 0 4)
  let length := readBigEndian length
  rejectIf (maxDeploymentJson < length) "deployment message too large"
  let (body, input) ← (readWhole input length []).mapError (readError 4 (length + 4))
  let value ← (decode body).mapError .json
  return (value, input)

def encodeJson (body : Except String (List UInt8)) : Except DeploymentError (List UInt8) := do
  let body ← body.mapError .json
  rejectIf (maxDeploymentJson < body.length) "deployment message too large"
  return prefixed 4 body

section

variable {ω : Type}

def check {α : Type} (x : Except DeploymentError α) : Serving ω α := fun s => (x, s)

def note (event : ServerEvent) : Serving ω Unit :=
  fun s => (.ok (), { s with events := s.events ++ [event] })

def receive {α : Type} (decode : List UInt8 → Except String α) (event : α → ServerEvent) :
    Serving ω α := fun s =>
  match readWireJson decode s.input with
  | .ok (value, input) => (.ok value, { s with input, events := s.events ++ [event value] })
  | .error e => (.error e, s)

/-- `write` hands bytes to the writer, which may fail. -/
def send (write : ω → List UInt8 → Except String ω) (body : Except String (List UInt8))
    (event : ServerEvent) : Serving ω Unit := fun s =>
  match encodeJson body with
  | .error e => (.error e, s)
  | .ok wire =>
    match write s.output wire with
    | .ok output => (.ok (), { s with output, events := s.events ++ [event] })
    | .error e => (.error (.io e), s)

end

/-- From protocol 4 the batch may request a part of the selection. -/
def checkSubset (version : UInt16) : List String → List String → String → Except DeploymentError Unit :=
  if notDeployedProtocolVersion ≤ version then requireSubset else requireSameSet

/-- What the server asks of a batch that follows a selection. -/
def admitBatch (libs : Libraries) (selection : DeploymentSelection) (selected : TargetState)
    (batch : WireBatch) : Except DeploymentError Unit := do
  rejectIf (¬ (legacyDeploymentProtocolVersion ≤ batch.version ∧ batch.version ≤ deploymentProtocolVersion))
    "unsupported deployment batch version"
  checkSubset batch.version selection.identifiers batch.requestedIdentifiers
    "batch secret subset differs from selection"
  checkSubset batch.version selection.taskIdentifiers batch.requestedTasks
    "batch task subset differs from selection"
  validateBatch libs batch { selected with protocolVersion := batch.version }

/-- Extra records are passed on, missing ones are not. -/
def resultOf (generate : List String) : Except String AppliedOutput → DeploymentResult
  | .ok output =>
    if ∃ id ∈ generate, id ∉ output.generatedRecords then
      .rejected "target did not return exactly the generated records"
    else .applied output
  | .error message => .rejected message

section

variable {ω : Type} (libs : Libraries) (format : WireFormat) (write : ω → List UInt8 → Except String ω)
  (apply : WireBatch → Except String AppliedOutput)

def serveDeployment (state : TargetState) : Serving ω Unit := do
  check (validateServerState libs state)
  let selection ← receive format.selection .selected
  let selected ← check (selectState state selection)
  send write (format.state selected) (.answered selected)
  let batch ← receive format.batch .received
  check (admitBatch libs selection selected batch)
  note (.applied batch)
  let result := resultOf (batch.generate.map (·.identifier)) (apply batch)
  send write (format.result result) (.reported result)

/-- The events of a server that starts on the stream. -/
def served (state : TargetState) (input : List Arrival) (output : ω) : List ServerEvent :=
  (serveDeployment libs format write apply state ⟨input, output, []⟩).2.events

end

def ServerEvent.applied? : ServerEvent → Option WireBatch
  | .applied batch => some batch
  | _ => none

def appliedBatches (events : List ServerEvent) : List WireBatch := events.filterMap (·.applied?)

end NixSecrets.Transport
