import NixSecrets.DeployBatch
import NixSecrets.JsonText

namespace NixSecrets

structure Destination where
  path : String
  category : String
  owner : String
  group : String
  mode : String
  contentType : Option String := none
  authorizedForUser : Option String := none
  deriving DecidableEq, Repr

structure PublicInfoAttestation where
  sharedId : String
  expectedSshHost : String
  expectedSshPort : UInt16
  expectedSshHosts : List String
  deriving DecidableEq, Repr

def PublicInfoAttestation.hosts (attestation : PublicInfoAttestation) : List String :=
  ((attestation.expectedSshHost :: attestation.expectedSshHosts).mergeSort (· ≤ ·)).dedup

structure SecretLeaf where
  destination : Destination
  sharedPublicId : Option String := none
  expectedSshHost : Option String := none
  expectedSshPort : Option UInt16 := none
  expectedSshHosts : List String := []
  deriving DecidableEq, Repr

def SecretLeaf.publicInfo (leaf : SecretLeaf) : Option PublicInfoAttestation :=
  leaf.sharedPublicId.map fun sharedId => ⟨sharedId, leaf.expectedSshHost.getD "",
    leaf.expectedSshPort.getD 0, leaf.expectedSshHosts⟩

/-- What the manifest declares under a name; operator-only values never reach a host. -/
inductive SecretNode
  | generated (output : Destination)
  | secret (leaf : SecretLeaf)
  | operator
  | branch (children : List (String × SecretNode))

/-- The services of a host by namespace. -/
abbrev HostSchema := List (String × List (String × SecretNode))

abbrev Schema := BTreeMap String HostSchema

structure ManifestEntry where
  service : String
  destination : Destination
  publicInfo : Option PublicInfoAttestation
  deriving DecidableEq, Repr

abbrev ManifestEntries := BTreeMap String ManifestEntry

def declare (path : List String) (entry : ManifestEntry) (output : ManifestEntries) :
    Except DeployError ManifestEntries :=
  if ".".intercalate path ∈ output then
    .error (.invalid ("duplicate manifest identifier: " ++ ".".intercalate path))
  else .ok (output.insert (".".intercalate path) entry)

mutual

def flatten (path : List String) (service : String) :
    SecretNode → ManifestEntries → Except DeployError ManifestEntries
  | .operator, output => .ok output
  | .branch children, output => flattenChildren path service children output
  | .secret leaf, output => declare path ⟨service, leaf.destination, leaf.publicInfo⟩ output
  | .generated destination, output => declare path ⟨service, destination, none⟩ output

def flattenChildren (path : List String) (service : String) :
    List (String × SecretNode) → ManifestEntries → Except DeployError ManifestEntries
  | [], output => .ok output
  | (name, child) :: rest, output => do
    let output ← flatten (path ++ [name]) service child output
    flattenChildren path service rest output

end

def flattenServices (hostname space : String) :
    List (String × SecretNode) → ManifestEntries → Except DeployError ManifestEntries
  | [], output => .ok output
  | (service, node) :: rest, output => do
    let output ← flatten [hostname, space, service] service node output
    flattenServices hostname space rest output

def flattenHost (hostname : String) : HostSchema → ManifestEntries → Except DeployError ManifestEntries
  | [], output => .ok output
  | (space, services) :: rest, output => do
    let output ← flattenServices hostname space services output
    flattenHost hostname rest output

/-- A path as it is compared: whether it starts at the root, and its components. -/
structure PathText where
  absolute : Bool
  names : List String
  deriving DecidableEq, Repr

namespace PathText

def parse (path : String) : PathText where
  absolute := path.toList.head? = some '/'
  names := ((path.toList.splitOn '/').map String.ofList).filter fun name => name ≠ "" ∧ name ≠ "."

def parent (path : PathText) : Option PathText :=
  if path.names = [] then none else some { path with names := path.names.dropLast }

def fileName (path : PathText) : Option String :=
  path.names.getLast?.filter (· ≠ "..")

def join (path other : PathText) : PathText :=
  if other.absolute then other else { path with names := path.names ++ other.names }

end PathText

def octalDigits : List Char → Option Nat
  | [] => none
  | text => text.foldlM (fun value c =>
      if '0' ≤ c ∧ c ≤ '7' then some (8 * value + (c.toNat - '0'.toNat)) else none) 0

/-- Reads an octal number as the standard library does, a leading plus sign included. -/
def parseOctal (text : List Char) : Option UInt32 := do
  let value ← octalDigits (match text with
    | '+' :: digits => digits
    | digits => digits)
  if value < 2 ^ 32 then some (UInt32.ofNat value) else none

def parseMode (mode : String) : Except DeployError UInt32 :=
  let digits := match mode.toList with
    | '0' :: 'o' :: rest => rest
    | text => text
  match parseOctal digits with
  | some value => .ok value
  | none => .error (.invalid ("invalid mode: " ++ mode))

structure Expected where
  service : String
  secretClass : SecretClass
  secret : String
  owner : UInt32
  group : UInt32
  mode : UInt32
  deriving DecidableEq, Repr

/-- The host's account database and the checks of a value's contents that other parts of
the program and its libraries make. -/
structure Checks where
  user : String → Except DeployError (Option UInt32)
  group : String → Except DeployError (Option UInt32)
  decodeBase64 : String → Option (List UInt8)
  sshKnownHosts : String → List String → UInt16 → Except String Unit
  namedSshKeys : List UInt8 → Except DeployError Unit
  /-- Whether a private key is encrypted, if it is one. -/
  privateKey : String → Option Bool
  publicKey : String → Bool

def classOf : String → Except DeployError SecretClass
  | "setup" => .ok .setup
  | "service" => .ok .service
  | "backup" => .ok .backup
  | "public-info" => .ok .publicInfo
  | _ => .error (.invalid "manifest has invalid secret category")

def destinationService (secretClass : SecretClass) (service : String) (path : PathText) :
    Except DeployError String :=
  if secretClass = .publicInfo then
    match path.parent.bind PathText.fileName with
    | some name => .ok name
    | none => .error (.invalid "public-info destination has no service component")
  else .ok service

def rootPath (secretClass : SecretClass) : PathText :=
  if secretClass = .publicInfo then ⟨true, ["persistent", "public-info"]⟩
  else ⟨true, ["persistent", "secrets"]⟩

def found {α : Type} (missing : String) : Option α → Except DeployError α
  | some a => .ok a
  | none => .error (.missing missing)

section

variable (checks : Checks)

def expectedFromDestination (service : String) (destination : Destination) :
    Except DeployError Expected := do
  let secretClass ← classOf destination.category
  let path := PathText.parse destination.path
  let destinationService ← destinationService secretClass service path
  let parent := ((rootPath secretClass).join (.parse destinationService)).join
    ⟨false, secretClass.directory⟩
  if path.parent ≠ some parent then
    .error (.invalid ("manifest destination is outside service boundary: " ++ destination.path))
  else do
    let secret ← match path.fileName with
      | some name => .ok name
      | none => .error (.invalid "manifest destination has no UTF-8 filename")
    validateName "secret" secret
    let owner ← found ("its owner " ++ destination.owner ++ " does not exist on this host")
      (← checks.user destination.owner)
    let group ← found ("its group " ++ destination.group ++ " does not exist on this host")
      (← checks.group destination.group)
    let mode ← parseMode destination.mode
    if secretClass = .publicInfo then
      if mode ≠ 0o644 then .error (.invalid "public-info mode must be 0644") else .ok ()
    else validateMode mode
    return ⟨destinationService, secretClass, secret, owner, group, mode⟩

def refuse (reason : String) : DeployError :=
  .missing ("this host refuses the value: " ++ reason)

def utf8OrRefuse (reason : String) (contents : List UInt8) : Except DeployError String :=
  match utf8Text contents with
  | some text => .ok (String.ofList text)
  | none => .error (refuse reason)

def checkPublicInfo (contents : List UInt8) :
    Option PublicInfoAttestation → Except DeployError Unit
  | none => .ok ()
  | some attestation => do
    let text ← utf8OrRefuse "public information is not UTF-8" contents
    (checks.sshKnownHosts text attestation.hosts attestation.expectedSshPort).mapError refuse

def checkContentType (contents : List UInt8) (contentType : Option String) :
    Except DeployError Unit :=
  if contentType = some "named-ssh-ed25519-public-keys" then
    (checks.namedSshKeys contents).mapError fun error => refuse error.display
  else if contentType = some "openssh-private-key" then do
    match checks.privateKey (← utf8OrRefuse "SSH private key is not UTF-8" contents) with
    | none => .error (refuse "invalid OpenSSH private key")
    | some true => .error (refuse "OpenSSH private key requires an interactive passphrase")
    | some false => .ok ()
  else if contentType = some "openssh-public-key" then do
    if checks.publicKey (← utf8OrRefuse "SSH public key is not UTF-8" contents) then .ok ()
    else .error (refuse "invalid OpenSSH public key")
  else .ok ()

def isAsciiWhitespace (c : Char) : Bool :=
  c = ' ' || c = '\t' || c = '\n' || c = '\x0c' || c = '\r'

/-- The first field of every line that has one. -/
def keyNames (text : List Char) : List String :=
  ((text.splitOn '\n').map fun line => String.ofList
    ((line.dropWhile isAsciiWhitespace).takeWhile fun c => !isAsciiWhitespace c)).filter (· ≠ "")

def auditKeyNames (contents : List UInt8) (contentType : Option String) : List String :=
  if contentType = some "named-ssh-ed25519-public-keys" then keyNames ((utf8Text contents).getD [])
  else []

/-- The value's owner and checked contents; a missing value is one this host cannot accept. -/
def resolveContents (entry : ManifestEntry) (contents : List UInt8) :
    Except DeployError (Expected × List String) := do
  let spec ← expectedFromDestination checks entry.service entry.destination
  checkPublicInfo checks contents entry.publicInfo
  checkContentType checks contents entry.destination.contentType
  return (spec, auditKeyNames contents entry.destination.contentType)

end

end NixSecrets
