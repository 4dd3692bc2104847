import Mathlib.Data.List.Destutter
import NixSecrets.SchemaLeaves
import NixSecrets.TargetComparison
import NixSecrets.ValueGeneration

namespace NixSecrets.Manager

open Inventory

/-- An OpenSSH public key, as its library reads it. -/
structure SshKey where
  algorithm : String
  keyData : List UInt8
  /-- The SHA-256 fingerprint. -/
  fingerprint : String
  /-- The key in OpenSSH's own format. -/
  openssh : Except String String

/-- What the operator's program takes from other packages. -/
structure Libraries extends SchemaLibraries where
  transport : Transport.Libraries
  sshKey : String → Option SshKey
  sha256 : List UInt8 → List UInt8
  readToml : ReadToml
  /-- Whether a ciphertext is for exactly these SSH keys. -/
  verifyHeader : List UInt8 → List String → Except String Unit
  /-- The JSON texts by which both sides compare generators and derivations. -/
  generatorText : DeployGenerator → String
  derivationText : DerivedFrom → String

inductive MissingKind
  | needsInput | optional | filledByAnotherHost | derivedFromUnset | cannotDeploy | invalidUnderSchema
  | notDeclaredByHost | declaredDifferently | unknownToSchema
  deriving DecidableEq, Repr

/-- How a deployment treats its unset stored values. -/
structure UnsetPlan where
  generate : List (String × String) := []
  missing : List (String × String) := []
  derived : List (String × String) := []
  /-- Derived values that the target frames itself, with the source it generates. -/
  derivedOnTarget : List (String × String) := []
  skippable : List String := []
  reasons : BTreeMap String MissingKind := ∅
  hostDefault : List String := []
  /-- Sources of another host that this target generates first. -/
  shared : List (String × String) := []
  deriving DecidableEq

def without (identifier : String) (items : List (String × String)) : List (String × String) :=
  items.filter (·.1 ≠ identifier)

namespace UnsetPlan

def partialPossible (plan : UnsetPlan) : Bool :=
  !plan.missing.isEmpty && plan.missing.all fun item => plan.skippable.contains item.1

def miss (plan : UnsetPlan) (identifier : String) (kind : MissingKind) (reason : String) : UnsetPlan :=
  { plan with
    missing := plan.missing ++ [(identifier, reason)]
    skippable := plan.skippable ++ [identifier]
    reasons := plan.reasons.insert identifier kind }

/-- The target generates the source in this deployment. -/
def generates (plan : UnsetPlan) (source : String) : Bool :=
  (plan.generate ++ plan.shared).any (·.1 = source)

def exclude (plan : UnsetPlan) (mismatch : String × MissingKind × String) : UnsetPlan :=
  { plan with
    generate := without mismatch.1 plan.generate
    shared := without mismatch.1 plan.shared
    derived := without mismatch.1 plan.derived
    derivedOnTarget := without mismatch.1 plan.derivedOnTarget
    hostDefault := plan.hostDefault.filter (· ≠ mismatch.1)
    missing := without mismatch.1 plan.missing
    skippable := plan.skippable.filter (· ≠ mismatch.1) }.miss mismatch.1 mismatch.2.1 mismatch.2.2

/-- The derived values whose source is not generated wait with it. -/
def waiting (plan : UnsetPlan) : List (String × String) :=
  plan.derivedOnTarget.filter fun item => !plan.generates item.2

def excludeMismatches (plan : UnsetPlan) (mismatches : List (String × MissingKind × String)) : UnsetPlan :=
  let plan := mismatches.foldl exclude plan
  plan.waiting.foldl (fun plan item =>
    { plan with derivedOnTarget := without item.1 plan.derivedOnTarget }.miss item.1 .cannotDeploy
      ("its source " ++ item.2 ++ " is left out of this deployment")) plan

def refusal (plan : UnsetPlan) : Option String :=
  let required := plan.missing.filter fun item => plan.reasons[item.1]? ≠ some .optional
  if required = [] then none
  else some ("Missing values that must be entered: " ++
    ", ".intercalate (required.map fun item => item.1 ++ " (" ++ item.2 ++ ")") ++
    ". Nothing was generated or written.")

def refusalFor (plan : UnsetPlan) (allowPartial : Bool) : Option String :=
  if allowPartial && plan.partialPossible then none else plan.refusal

end UnsetPlan

/-- The text before the first dot. -/
def hostPart (identifier : String) : String :=
  String.ofList (((identifier.toList.splitOn '.').head?).getD [])

def generatorLabel : DeployGenerator → String
  | .password _ => "password"
  | .declared (.randomBytes bytes encoding front suffix) =>
    let encoding := match encoding with
      | .base64 => "base64"
      | .base64UrlUnpadded => "base64url"
      | .hexLower => "hex"
    toString bytes ++ " random bytes, " ++ encoding ++
      if front = "" ∧ suffix = "" then "" else ", framed"

section

variable (libs : Libraries)

def parsePath (identifier : String) : Checked String SecretPath :=
  (SecretPath.parse identifier).mapRefusal (·.display libs.debug)

/-- The leaf an identifier names. -/
def leafOf (schema : Inventory.Schema) (identifier : String) : Checked String LeafSpec := do
  let path ← parsePath libs identifier
  (schema.leaf path).mapRefusal (·.display libs.debug)

end

def optionalLeaf : LeafSpec → Bool
  | .stored _ leaf => leaf.optional
  | .generated _ leaf => leaf.optional
  | .operator _ _ => false

def provided (set : BTreeSet String) (identifier : String) : LeafSpec → Bool
  | .stored _ leaf => match leaf.derivedFrom with
    | some source => set.contains source.identifier
    | none => set.contains identifier
  | _ => set.contains identifier

def registrationProducers (schema : Inventory.Schema) (inventory : String) : List String :=
  schema.leaves.filterMap fun
    | .generated path leaf =>
      if leaf.generatedSecret.registerAt = some inventory then some path.display else none
    | _ => none

/-- What becomes of an unset value that is neither public information nor derived. -/
def planStored (schema : Inventory.Schema) (identifier : String) (leaf : Inventory.SecretLeaf) (plan : UnsetPlan) : UnsetPlan :=
  let producers := registrationProducers schema identifier
  if producers = [] ∧ leaf.destination.contentType = some "named-ssh-ed25519-public-keys" then
    plan.miss identifier .filledByAnotherHost
      "no reporting-key producers configured; inventory has no registered senders"
  else if producers ≠ [] then
    plan.miss identifier .filledByAnotherHost ("filled when " ++
      ", ".intercalate ((producers.map hostPart).destutter (· ≠ ·)) ++ " deploy")
  else
    match deploymentGenerator leaf with
    | .ok generator => { plan with generate := plan.generate ++ [(identifier, generatorLabel generator)] }
    | .error reason => plan.miss identifier .needsInput reason.reason

/-- What becomes of a value that is not set, or is public information without a stored value. -/
def planUnsetLeaf (schema : Inventory.Schema) (identifier : String) (plan : UnsetPlan) : LeafSpec → UnsetPlan
  | .operator _ _ => plan
  | .generated _ task =>
    if task.generatedSecret.secretType ≠ .localSshKey then plan.miss identifier .needsInput "task input"
    else plan
  | .stored _ leaf =>
    if leaf.kind = .publicInfo then
      if leaf.installDefaultIfMissing then { plan with hostDefault := plan.hostDefault ++ [identifier] }
      else plan.miss identifier .needsInput "public information is unset; enter it first"
    else planStored schema identifier leaf plan

/-- The source of a derived value. -/
def derivedSource : LeafSpec → Option String
  | .stored _ leaf => leaf.derivedFrom.map (·.identifier)
  | _ => none

/-- A plan, and the derived values whose source is unset. -/
abbrev Planning := UnsetPlan × List (String × String)

section

variable (schema : Inventory.Schema) (set : BTreeSet String)

def planLeaf (identifier : String) (planning : Planning) (leaf : LeafSpec) : Planning :=
  if optionalLeaf leaf && !provided set identifier leaf then
    (planning.1.miss identifier .optional "optional; not provided", planning.2)
  else
    match derivedSource leaf with
    | some source =>
      if set.contains source then
        ({ planning.1 with derived := planning.1.derived ++ [(identifier, source)] }, planning.2)
      else (planning.1, planning.2 ++ [(identifier, source)])
    | none =>
      if set.contains identifier then planning
      else (planUnsetLeaf schema identifier planning.1 leaf, planning.2)

end

section

variable (libs : Libraries) (schema : Inventory.Schema)

def storedLeaf (identifier : String) : Option Inventory.SecretLeaf :=
  match leafOf libs schema identifier with
  | .ok (.stored _ leaf) => some leaf
  | _ => none

/-- The generator of a source that another host may generate first. -/
def sharedGenerator (source : String) : Option DeployGenerator := do
  let leaf ← storedLeaf libs schema source
  if leaf.destination.contentType.isSome ∨ leaf.kind = .publicInfo then none
  else (deploymentGenerator leaf).toOption

def sourceFirst (source : String) : String :=
  if (storedLeaf libs schema source).any fun leaf => (deploymentGenerator leaf).toOption.isSome then
    "derived from unset " ++ source ++ "; deploy " ++ hostPart source ++ " first, which generates it"
  else "derived from unset " ++ source ++ "; enter " ++ source ++ " first"

/-- A derived value whose source is unset is framed on the target that generates the source. -/
def planWaiting (plan : UnsetPlan) (item : String × String) : UnsetPlan :=
  if plan.generates item.2 then { plan with derivedOnTarget := plan.derivedOnTarget ++ [item] }
  else
    match sharedGenerator libs schema item.2 with
    | some generator =>
      if hostPart item.2 ≠ hostPart item.1 then
        { plan with
          shared := plan.shared ++ [(item.2, generatorLabel generator)]
          derivedOnTarget := plan.derivedOnTarget ++ [item] }
      else plan.miss item.1 .derivedFromUnset (sourceFirst libs schema item.2)
    | none => plan.miss item.1 .derivedFromUnset (sourceFirst libs schema item.2)

def planLeaves (set : BTreeSet String) (stale : BTreeMap String String) :
    List String → Planning → Checked String Planning
  | [], planning => .ok planning
  | identifier :: rest, planning =>
    match stale[identifier]? with
    | some reason =>
      planLeaves set stale rest (planning.1.miss identifier .invalidUnderSchema reason, planning.2)
    | none => do
      let leaf ← leafOf libs schema identifier
      planLeaves set stale rest (planLeaf schema set identifier planning leaf)

end

namespace Preflight

/-- Refuses a host whose forwarder keys are not all OpenSSH public keys. -/
def refusal (libs : Libraries) (schema : Inventory.Schema) (target : String) : Option String := do
  let host ← schema.lookup target
  let bad := host.metadata.deployment.identityPublicKeys.filter fun key => (libs.sshKey key).isNone
  if bad = [] then none
  else some (target ++ ": cannot deploy: its forwarder key is not an OpenSSH public key: " ++
    ", ".intercalate bad)

def needs (protocol : UInt16) (version : UInt16) (feature : String) : Option String :=
  if protocol < version then
    some ("the host's receiver speaks deployment protocol " ++ toString protocol ++ ", and " ++ feature ++
      " needs " ++ toString version ++ "; update the host first")
  else none

def multiLine (leaf : Inventory.SecretLeaf) : Bool :=
  leaf.defaultValue.any fun value =>
    ((value.toList.reverse.dropWhile (· = '\n')).reverse).contains '\n'

/-- Why a stored value cannot be deployed to a receiver of the protocol. -/
def storedProblem (leaf : Inventory.SecretLeaf) (plan : UnsetPlan) (identifier : String) (protocol : UInt16) :
    Option String :=
  let framed := plan.derivedOnTarget.any (·.1 = identifier)
  let sharedSource := (plan.derivedOnTarget.find? (·.1 = identifier)).any fun item =>
    plan.shared.any (·.1 = item.2)
  let generation := if plan.generate.any (·.1 = identifier) || framed then
    needs protocol Transport.generationProtocolVersion "generating a value on the target" else none
  let source := if sharedSource then
    needs protocol Transport.sharedSourceProtocolVersion "generating another host's shared secret" else none
  let field := if leaf.derivedFrom.any fun derived => derived.tomlPath ≠ [] then
    needs protocol Transport.sharedSourceProtocolVersion "derivedFrom.tomlPath" else none
  let several := if leaf.kind = .publicInfo ∧ (1 < leaf.sshHosts.length ∨ multiLine leaf) then
    needs protocol Transport.notDeployedProtocolVersion
      "public information with several hosts or key lines" else none
  generation <|> source <|> field <|> several

/-- The public-info leaf of the host that is installed as the file and attests the server. -/
def attestingLeaf (host : Inventory.HostSchema) (hostname file server : String) (port : UInt16) :
    Option (String × Inventory.SecretLeaf) :=
  (host.trees.flatMap fun tree => leavesBelow [hostname, tree.1, tree.2.1] tree.2.2).findSome? fun
    | .stored path leaf =>
      if leaf.kind = .publicInfo ∧ leaf.destination.path = file ∧ server ∈ leaf.sshHosts ∧
          leaf.expectedSshPort = some port then some (path.display, leaf) else none
    | _ => none

def knownHostsKeys (libs : Libraries) (value : String) (hosts : List String) (port : UInt16) (host : String) :
    Checked String (List String) := do
  let lines ← knownHostsLines libs.toLibraries hosts port value
  return (lines.filter (·.1 = host)).map (·.2)

/-- Why the default of an attesting leaf does not let a task connect. -/
def defaultProblem (libs : Libraries) (identifier : String) (leaf : Inventory.SecretLeaf)
    (bootstrap : StorageBoxBootstrap) : Option String := do
  let value ← leaf.defaultValue
  match knownHostsKeys libs value leaf.sshHosts bootstrap.port bootstrap.host with
  | .ok keys =>
    if keys = [] then
      some ("the default of " ++ identifier ++ " holds no key for [" ++ bootstrap.host ++ "]:" ++
        toString bootstrap.port)
    else none
  | .error (.refused error) => some ("the default of " ++ identifier ++ " is invalid: " ++ error)
  | .error .panicked => none

/-- Why a target task cannot run: nothing provides the known_hosts file of its bootstrap. -/
def taskProblem (libs : Libraries) (host : Inventory.HostSchema) (identifiers : List String) (set stale : BTreeSet String)
    (path : SecretPath) (task : GeneratedSecretLeaf) : Option String := do
  let bootstrap ← task.generatedSecret.bootstrap
  let file ← bootstrap.knownHostsFile
  let hostname ← path.parts.head?
  match attestingLeaf host hostname file bootstrap.host bootstrap.port with
  | none => some ("its knownHostsFile " ++ file ++ " is not public information of " ++ hostname ++ " for [" ++
      bootstrap.host ++ "]:" ++ toString bootstrap.port ++
      "; declare it with expectedSshHost or expectedSshHosts")
  | some (identifier, leaf) =>
    if stale.contains identifier then none
    else if ¬ (set.contains identifier ∧ identifier ∈ identifiers) ∧
        ¬ (leaf.installDefaultIfMissing ∧ leaf.defaultValue.isSome) then
      some (file ++ " is absent: " ++ identifier ++ " has no stored value and no defaultValue; enter it, " ++
        "or set defaultValue in the host's configuration")
    else defaultProblem libs identifier leaf bootstrap

def problem (libs : Libraries) (host : Inventory.HostSchema) (identifiers : List String) (set stale : BTreeSet String)
    (plan : UnsetPlan) (identifier : String) : LeafSpec → Option String
  | .generated path task => taskProblem libs host identifiers set stale path task
  | .stored _ leaf => do
    let protocol ← host.metadata.deployment.protocolVersion
    storedProblem leaf plan identifier protocol
  | .operator _ _ => none

section

variable (libs : Libraries) (schema : Inventory.Schema) (host : Inventory.HostSchema) (identifiers : List String)
  (set stale : BTreeSet String)

def checkOne (plan : UnsetPlan) (identifier : String) : UnsetPlan :=
  if plan.missing.any (·.1 = identifier) then plan
  else
    match leafOf libs schema identifier with
    | .ok leaf =>
      match problem libs host identifiers set stale plan identifier leaf with
      | some reason => plan.miss identifier .cannotDeploy reason
      | none => plan
    | .error _ => plan

end

/-- Leaves out every value the host cannot receive. -/
def check (libs : Libraries) (schema : Inventory.Schema) (identifiers : List String) (set : BTreeSet String)
    (plan : UnsetPlan) : UnsetPlan :=
  match identifiers.head?.bind fun identifier => schema.lookup (hostPart identifier) with
  | none => plan
  | some host =>
    let stale := Std.ExtTreeSet.ofList
      ((plan.reasons.toList.filter (·.2 = .invalidUnderSchema)).map (·.1)) compare
    let plan := identifiers.foldl (checkOne libs schema host identifiers set stale) plan
    let plan := { plan with
      generate := plan.generate.filter fun item => !plan.missing.any (·.1 = item.1) }
    plan.waiting.foldl (fun plan item =>
      let plan := { plan with derivedOnTarget := without item.1 plan.derivedOnTarget }
      if plan.missing.any (·.1 = item.1) then plan
      else plan.miss item.1 .cannotDeploy
        ("its source " ++ item.2 ++ " cannot be generated in this deployment")) plan

end Preflight

/-- Classifies the leaves of a request that are not in the store. -/
def planUnset (libs : Libraries) (schema : Inventory.Schema) (identifiers : List String) (set : BTreeSet String)
    (stale : BTreeMap String String) : Checked String UnsetPlan := do
  let planning ← planLeaves libs schema set stale identifiers ({}, [])
  return Preflight.check libs schema identifiers set
    (planning.2.foldl (planWaiting libs schema) planning.1)

section

variable (libs : Libraries) (schema : Inventory.Schema)

def transportDestination (value : Destination) (consumerUnits : List String) : Transport.Destination where
  path := value.path
  category := value.category
  owner := value.owner
  group := value.group
  mode := value.mode
  consumerUnits := consumerUnits

def expectedSecret (identifier : String) (leaf : Inventory.SecretLeaf) : Transport.ExpectedSecret where
  identifier := identifier
  generator := (deploymentGenerator leaf).toOption.map libs.generatorText
  derived := leaf.derivedFrom.map libs.derivationText
  recipientIds := leaf.recipientIds
  destination := transportDestination leaf.destination leaf.consumerUnits
  publicInfo := leaf.sharedPublicId.map fun sharedId =>
    ⟨sharedId, leaf.expectedSshHost.getD "", leaf.expectedSshPort.getD 0, leaf.expectedSshHosts⟩

def expectedTask (identifier : String) (leaf : GeneratedSecretLeaf) : Transport.ExpectedTask where
  identifier := identifier
  taskType := match leaf.generatedSecret.secretType with
    | .storageBoxSshKey => Transport.storageBoxSshKey
    | .localSshKey => Transport.localSshKey
  recipientIds := leaf.recipientIds
  output := transportDestination leaf.generatedSecret.output leaf.consumerUnits
  bootstrap := leaf.generatedSecret.bootstrap.map fun bootstrap =>
    ⟨bootstrap.host, bootstrap.port, bootstrap.user, bootstrap.hostPublicKeys, bootstrap.knownHostsFile⟩

def expectLeaf (identifier : String) (expected : Transport.ExpectedTarget) :
    LeafSpec → Checked String Transport.ExpectedTarget
  | .operator _ _ => Checked.refuse (identifier ++ " is operator-only and is never deployed")
  | .stored _ leaf =>
    .ok { expected with secrets := expected.secrets ++ [expectedSecret libs identifier leaf] }
  | .generated _ leaf => .ok { expected with tasks := expected.tasks ++ [expectedTask identifier leaf] }

def expectLeaves : List String → Transport.ExpectedTarget → Checked String Transport.ExpectedTarget
  | [], expected => .ok expected
  | identifier :: rest, expected => do
    let leaf ← leafOf libs schema identifier
    let expected ← expectLeaf libs identifier expected leaf
    expectLeaves rest expected

def expectedTarget (request : ApprovalRequest) : Checked String Transport.ExpectedTarget :=
  expectLeaves libs schema request.secrets ⟨request.target, [], []⟩

def targetHasVersion (state : Transport.TargetState) (identifier : String) : Checked String Bool := do
  let secret ← Checked.orRefuse ("target omitted " ++ identifier)
    (state.secrets.find? (·.identifier = identifier))
  return secret.currentVersionId.isSome

def targetTaskHasVersion (state : Transport.TargetState) (identifier : String) : Checked String Bool := do
  let task ← Checked.orRefuse ("target omitted task " ++ identifier)
    (state.tasks.find? (·.identifier = identifier))
  return task.currentVersionId.isSome

def deploymentErrorText : Transport.DeploymentError → String
  | .json message | .io message | .invalid message | .mismatch message => message
  | .truncated 0 _ => "the operator closed the connection before sending the next deployment message; " ++
      "nothing was changed"
  | .truncated received expected => "the connection closed after " ++ toString received ++ " of " ++
      toString expected ++ " bytes of a deployment message; nothing from it was applied"

/-- Where the host's current activation disagrees with the schema. -/
def targetMismatches (state : Transport.TargetState) (expected : Transport.ExpectedTarget) :
    Checked String (List (String × MissingKind × String)) := do
  let found ← Checked.ofExcept
    ((Transport.compareTarget libs.transport state expected).mapError deploymentErrorText)
  let unknown := state.unselected.filter fun identifier => (leafOf libs schema identifier).toOption.isNone
  return (found.map fun left => (left.identifier,
      if left.absent then MissingKind.notDeclaredByHost else .declaredDifferently, left.reason)) ++
    unknown.map fun identifier => (identifier, .unknownToSchema,
      "the host's current activation asks for it, but this schema does not declare it; nothing is sent for it")

end

end NixSecrets.Manager
