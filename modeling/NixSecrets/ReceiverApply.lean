import NixSecrets.GeneratedTasks
import NixSecrets.DeployRoot
import NixSecrets.ManifestSchema

namespace NixSecrets

structure AuditChange where
  identifier : String
  action : String
  sshUser : Option String
  keyNames : List String
  deriving DecidableEq, Repr

def jsonOptional : Option String → List Char
  | some text => jsonString text
  | none => "null".toList

def AuditChange.json (change : AuditChange) : List Char :=
  jsonObject [jsonMember "identifier" (jsonString change.identifier),
    jsonMember "action" (jsonString change.action),
    jsonMember "ssh_user" (jsonOptional change.sshUser),
    jsonMember "key_names" (jsonArray (change.keyNames.map jsonString))]

def maxAuditChanges : Nat := 512

def maxAuditBytes : Nat := 64 * 1024

section

variable (previous : BTreeMap String String) (details : BTreeMap String AuditDetail)

def auditChange (identifier : String) : AuditChange where
  identifier
  action := if identifier ∈ previous then "replaced" else "set"
  sshUser := details[identifier]?.bind AuditDetail.sshUser
  keyNames := (details[identifier]?.map AuditDetail.keyNames).getD []

def auditText (host submittedAt : String) (identifiers : List String) : String :=
  String.ofList (jsonObject [jsonMember "host" (jsonString host),
    jsonMember "submitted_at" (jsonString submittedAt),
    jsonMember "changes" (jsonArray (identifiers.map fun identifier =>
      (auditChange previous details identifier).json))])

/-- `submittedAt` is the formatted time, if it can be formatted. -/
def auditEvent (submittedAt : Except String String) (host : String) (identifiers : List String) :
    Except String String :=
  if identifiers = [] ∨ maxAuditChanges < identifiers.length then .error "invalid audit change count"
  else do
    let submittedAt ← submittedAt
    return auditText previous details host submittedAt identifiers

end

/-- A file name's extension: what follows its last dot, unless that dot is its first character. -/
def fileExtension (name : String) : Option String :=
  match name.toList.reverse.span (· ≠ '.') with
  | (tail, _ :: _ :: _) => some (String.ofList tail.reverse)
  | _ => none

def validAuditName (name : String) : Bool :=
  name.toList.head? ≠ some '.' && name.utf8ByteSize ≤ 135 &&
    name.toList.all fun c => c.isAlphanum || c == '.' || c == '_' || c == '-'

def validAuditDestination (path text : String) : Bool :=
  (PathText.parse path).absolute &&
    (PathText.parse path).fileName.bind fileExtension = some "json" &&
    (PathText.parse path).fileName.any validAuditName && text.utf8ByteSize ≤ maxAuditBytes

/-- Where the audit event is kept; a group that is not text has no name here. -/
structure AuditFile where
  path : String
  group : Option String
  deriving DecidableEq, Repr

/-- `keep` is what becomes of the file once the destination is accepted. -/
def writeEvent (keep : String → String → String → Except String Unit) (path group text : String) :
    Except String Unit :=
  if validAuditDestination path text = false then .error "invalid audit destination"
  else keep path group text

def recordEvent (keep : String → String → String → Except String Unit) (text : String) :
    Option AuditFile → Except String Unit
  | none => .ok ()
  | some ⟨_, none⟩ => .error "audit group is not UTF-8"
  | some ⟨path, some group⟩ => writeEvent keep path group text

end NixSecrets

namespace NixSecrets

/-- A batch as it arrives. -/
structure WireBatch where
  version : UInt16
  requestedIdentifiers : List String := []
  entries : List SecretDeployment := []
  requestedTasks : List String := []
  tasks : List TaskEntry := []
  generate : List GenerateEntry := []
  derive : List String := []
  deriving DecidableEq, Repr

structure AppliedOutput where
  versions : BTreeMap String String
  generatedPublicKeys : BTreeMap String String
  generatedRecords : BTreeMap String GeneratedRecord
  notDeployed : BTreeMap String String
  deriving DecidableEq

/-- A receiver without a post-deployment program: the host it runs on, and how the tasks,
the generation of values and the audit file turn out there. -/
structure Receiver extends TargetHost where
  platform : Platform
  pendingPublic : List SecretDeployment → Except DeployError (BTreeMap String String)
  task : BTreeMap String String → TaskEntry → TaskOutcome
  values : List GenerateEntry → List String → BTreeMap String String → Except DeployError GeneratedValues
  submittedAt : Except String String
  auditFile : Option AuditFile
  keepAudit : String → String → String → Except String Unit

namespace Receiver

variable (r : Receiver)

def runGeneratedTasksWith (entries : List TaskEntry) (supplied : List SecretDeployment) :
    Except DeployError GeneratedTasks := do
  let _ ← r.schema
  let published ← r.pendingPublic supplied
  GeneratedTasks.runEntries (r.task published) entries {}

def runValueGeneration (entries : List GenerateEntry) (derive : List String)
    (installed : BTreeMap String String) : Except DeployError GeneratedValues := do
  let _ ← r.schema
  r.values entries derive installed

def versionsOf (side : Side) : Deploy (BTreeMap String String) := do
  Faulty.ofExcept ((← Deploy.root side).currentVersions r.platform)

def currentVersions : Faulty Roots String (BTreeMap String String) := do
  let secrets ← (r.versionsOf .secrets).mapError fun e =>
    "reading the installed versions: " ++ e.display
  let publicInfo ← (r.versionsOf .publicInfo).mapError fun e =>
    "reading the installed public information: " ++ e.display
  return secrets ∪ publicInfo

/-- Publishes what was resolved in both roots, if anything was. -/
def publish (resolved : ResolvedBatch) (id : String) : Faulty Roots String (BTreeMap String String) :=
  if resolved.partition.1 = [] ∧ resolved.partition.2 = [] then pure ∅
  else (Deploy.together r.platform (some resolved.partition.1) (some resolved.partition.2) id).mapError
    DeployError.display

def report (generated : GeneratedTasks) (records : BTreeMap String GeneratedRecord)
    (notDeployed : BTreeMap String String) : Faulty Roots String AppliedOutput := do
  let versions ← r.currentVersions
  return ⟨versions, generated.publicKeys, records, notDeployed⟩

/-- Records what was published and reports it. -/
def answer (resolved : ResolvedBatch) (deployed : List String) (previous : BTreeMap String String)
    (generated : GeneratedTasks) (records : BTreeMap String GeneratedRecord)
    (notDeployed : BTreeMap String String) : Faulty Roots String AppliedOutput := do
  let audit ← Faulty.ofExcept
    (auditEvent previous resolved.auditDetails r.submittedAt r.hostname deployed)
  Faulty.ofExcept (recordEvent r.keepAudit audit r.auditFile)
  r.report generated records notDeployed

/-- What is left to deploy once the tasks and the generation of values have run. -/
structure Remaining where
  generated : GeneratedTasks
  values : GeneratedValues
  batch : DeploymentBatch
  deriving DecidableEq

def remaining (current : BTreeMap String String) (batch : WireBatch) : Except String Remaining := do
  let generated ← (r.runGeneratedTasksWith batch.tasks batch.entries).mapError fun e =>
    "running the target tasks: " ++ e.display
  let values ← (r.runValueGeneration batch.generate batch.derive current).mapError fun e =>
    "generating values: " ++ e.display
  return ⟨generated, values, batch.version.toUInt32,
    (batch.requestedIdentifiers ++ batch.requestedTasks).filter (· ∉ generated.notDeployed),
    batch.entries ++ generated.deployments ++ values.deployments⟩

def validateRemaining (batch : DeploymentBatch) :
    Except String (ResolvedBatch × BTreeMap String String) :=
  (r.loadAndValidateLeavingOut batch).mapError fun e =>
    "validating the batch against " ++ r.manifest ++ ": " ++ e.display

/-- Applies a batch: `current` are the versions installed when the receiver started, `id` is
the generation a deployment would publish. -/
def apply (current : BTreeMap String String) (id : String) (batch : WireBatch) :
    Faulty Roots String AppliedOutput := do
  let ⟨generated, values, batch⟩ ← Faulty.ofExcept (r.remaining current batch)
  if batch.requestedIdentifiers = [] then r.report generated values.records generated.notDeployed
  else do
    let (resolved, refused) ← Faulty.ofExcept (r.validateRemaining batch)
    let notDeployed := generated.notDeployed ∪ refused
    let deployed := batch.requestedIdentifiers.filter (· ∉ notDeployed)
    let previous ← r.publish resolved id
    r.answer resolved deployed previous generated values.records notDeployed

end Receiver

end NixSecrets
