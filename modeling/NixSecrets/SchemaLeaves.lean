import NixSecrets.DerivedVersion
import NixSecrets.KnownHosts
import NixSecrets.SchemaIdentity

namespace NixSecrets.Inventory

/-- Besides the other libraries, how a text is quoted in a message. -/
structure SchemaLibraries extends Libraries where
  debug : String → String

def SchemaError.display (debug : String → String) : SchemaError → String
  | .tooShort => "secret path must have at least four components"
  | .invalidComponent component => "invalid path component " ++ debug component
  | .invalidNamespace space => "invalid service namespace " ++ debug space
  | .notFound path => "schema path does not exist: " ++ path.display
  | .isBranch path => "schema path is a branch: " ++ path.display
  | .wrongKind path => "schema path has the wrong leaf kind: " ++ path.display
  | .missingPublicKey path => "secret has no recipient public key: " ++ path.display
  | .recipientCount path => "recipient key and identifier counts differ: " ++ path.display
  | .invalidDestination path message => "invalid destination for " ++ path.display ++ ": " ++ message
  | .invalidValueDefinition path message =>
    "invalid value definition for " ++ path.display ++ ": " ++ message

def DerivationError.display (debug : String → String) : DerivationError → String
  | .identifier error => "derivedFrom.identifier is invalid: " ++ error.display debug
  | .message text => text

def invalid (path : SecretPath) (message : String) : SchemaError := .invalidDestination path message

def validateDescription (path : SecretPath) (description : Option String) : Checked SchemaError Unit :=
  Checked.refuseIf (description.any fun value =>
      value = "" || 512 < value.utf8ByteSize || value.toList.any isControl)
    (invalid path "description must contain 1–512 printable bytes")

def validateRecipients (path : SecretPath) (publicKeys ids : List String) : Checked SchemaError Unit := do
  Checked.refuseIf (publicKeys = []) (.missingPublicKey path)
  Checked.refuseIf (publicKeys.length ≠ ids.length) (.recipientCount path)

def authorizedUser (user : String) : Bool :=
  user ≠ "" && user.utf8ByteSize ≤ 32 && user.toList.all isComponentChar

def contentTypeMatches : Option String → Option String → Bool
  | some kind, some user => kind = "named-ssh-ed25519-public-keys" && authorizedUser user
  | none, none => true
  | some kind, none => kind = "openssh-private-key" || kind = "openssh-public-key"
  | none, some _ => false

def destinationFront (service category : String) : String :=
  "/persistent/secrets/" ++ service ++ "/" ++ category ++ "/"

def validateDestination (path : SecretPath) (service : String) (destination : Destination) :
    Checked SchemaError Unit := do
  Checked.refuseIf (destination.category ∉ ["setup", "service", "backup"]) (invalid path "invalid category")
  Checked.refuseIf (destination.owner = "" ∨ destination.group = "")
    (invalid path "owner and group must not be empty")
  Checked.refuseIf (destination.mode ∉ ["0400", "0440"]) (invalid path "mode must be 0400 or 0440")
  Checked.refuseIf (destination.contentType.any fun kind =>
      kind ∉ ["named-ssh-ed25519-public-keys", "openssh-private-key", "openssh-public-key"])
    (invalid path "unsupported secret content type")
  Checked.refuseIf (contentTypeMatches destination.contentType destination.authorizedForUser = false)
    (invalid path "SSH key inventory requires a valid authorizedForUser")
  let front := destinationFront service destination.category
  let name := (strip front.toList destination.path.toList).getD []
  Checked.refuseIf (name = [] ∨ '/' ∈ name) (invalid path ("path must be directly below " ++ front))

def validSharedPart (part : List Char) : Bool :=
  part ≠ [] && utf8Length part ≤ 64 && part.all isComponentChar

def validSharedId (id : String) : Bool :=
  (id.toList.splitOn '/').length = 2 && (id.toList.splitOn '/').all validSharedPart &&
    id.utf8ByteSize ≤ 256

/-- The one destination a public value with this shared name may have. -/
def publicDestination (id : String) : Destination where
  path := "/persistent/public-info/" ++ id
  category := "public-info"
  owner := "root"
  group := "root"
  mode := "0644"
  contentType := some "ssh-known-hosts"

def ConsumerConstraints.checkRegex (libs : Libraries) : Option String → Checked String Unit
  | none => .ok ()
  | some pattern => do
    Checked.refuseIf (pattern = "" ∨ 4096 < pattern.utf8ByteSize)
      "consumer matching regex must contain 1 through 4096 bytes"
    match libs.regexError ("\\A(?:" ++ pattern ++ ")\\z") with
    | some error => Checked.refuse ("invalid consumer matching regex: " ++ error)
    | none => .ok ()

def ConsumerConstraints.validateDefinition (libs : Libraries) (constraints : ConsumerConstraints) :
    Checked String Unit := do
  Checked.refuseIf (constraints.cannotHandleLongerThan.getD (2 ^ 64 - 1) <
    constraints.cannotHandleShorterThan.getD 0) "minimum consumer length exceeds maximum"
  checkRegex libs constraints.matchingRegex

def validateValue (libs : Libraries) (path : SecretPath) (valueType : Option ValueType)
    (constraints : Option ConsumerConstraints) : Checked SchemaError Unit := do
  Checked.refuseIf (constraints.isSome ∧ valueType ≠ some .password)
    (.invalidValueDefinition path "consumerConstraints requires valueType=password")
  match constraints with
  | some constraints => (constraints.validateDefinition libs).mapRefusal (.invalidValueDefinition path)
  | none => .ok ()

def maxAffixBytes : Nat := 1024

def ValueGenerator.checkAffix (affix : String) : Checked String Unit :=
  Checked.refuseIf (maxAffixBytes < affix.utf8ByteSize ∨ '\x00' ∈ affix.toList)
    "random-bytes prefix and suffix must be at most 1024 bytes without NUL"

def ValueGenerator.validateDefinition : ValueGenerator → Checked String Unit
  | .randomBytes bytes _ front suffix => do
    Checked.refuseIf (bytes < 16 ∨ 1024 < bytes) "random-bytes generator needs 16 through 1024 bytes"
    Checked.each checkAffix [front, suffix]

def KeypairGenerator.validateDefinition (generator : KeypairGenerator) : Checked String Unit := do
  Checked.refuseIf (generator.installable = "" ∨ 4096 < generator.installable.utf8ByteSize ∨
      generator.installable.toList.any isControl ∨ generator.installable.toList.head? = some '-')
    "generator installable must be a printable flake reference"
  Checked.refuseIf (64 < generator.args.length ∨
      generator.args.any fun arg => 4096 < arg.utf8ByteSize || arg.toList.contains '\x00')
    "generator takes at most 64 arguments of at most 4096 bytes without NUL"

def validateValueGenerator (path : SecretPath) (leaf : SecretLeaf) : Checked SchemaError Unit :=
  match leaf.valueGenerator with
  | none => .ok ()
  | some generator => do
    Checked.refuseIf leaf.externalInputRequired
      (.invalidValueDefinition path "valueGenerator contradicts externalInputRequired")
    Checked.refuseIf (leaf.valueType = some .password) (.invalidValueDefinition path
      "a password leaf uses the password generator; remove valueGenerator")
    Checked.refuseIf leaf.destination.contentType.isSome (.invalidValueDefinition path
      "valueGenerator cannot produce a typed destination contentType")
    generator.validateDefinition.mapRefusal (.invalidValueDefinition path)

section

variable (libs : SchemaLibraries)

def isSshHostName (host : String) : Bool :=
  host ≠ "" && host.utf8ByteSize ≤ 253 && ((libs.parseIp host.toList).isSome ||
    host.toList.all fun c => c.isAlphanum || c == '.' || c == '-')

def refuseLocalHost (path : SecretPath) (host : String) : Checked SchemaError Unit := do
  match ← localOnlySshHost libs.toLibraries host.toList with
  | some kind => Checked.refuse (invalid path ("expected SSH host " ++ host ++ " is " ++ kind ++
      "; pin the host's real name or address"))
  | none => .ok ()

def validateDefault (path : SecretPath) (leaf : SecretLeaf) : Checked SchemaError Unit :=
  match leaf.defaultValue with
  | none => .ok ()
  | some value =>
    (validateSshKnownHosts libs.toLibraries leaf.sshHosts (leaf.expectedSshPort.getD 0) value).mapRefusal
      fun error => invalid path ("invalid defaultValue: " ++ error)

def validatePublicDestination (path : SecretPath) (leaf : SecretLeaf) : Checked SchemaError Unit := do
  let id ← Checked.orRefuse (invalid path "public-info has no sharedPublicId") leaf.sharedPublicId
  Checked.refuseIf (validSharedId id = false) (invalid path "invalid sharedPublicId")
  Checked.refuseIf (leaf.destination ≠ publicDestination id)
    (invalid path "public-info destination must be its root-owned 0644 known-hosts path")
  Checked.refuseIf (leaf.expectedSshHost = none) (invalid path "expectedSshHost is required")
  Checked.refuseIf (64 < leaf.sshHosts.length ∨ leaf.sshHosts.any (!isSshHostName libs ·) ∨
      leaf.expectedSshPort.getD 0 = 0)
    (invalid path "invalid expected SSH host or port")
  Checked.each (refuseLocalHost libs path) leaf.sshHosts
  validateDefault libs path leaf

def validateDerivedLeaf (path : SecretPath) (leaf : SecretLeaf) : Checked SchemaError Unit :=
  match leaf.derivedFrom with
  | none => .ok ()
  | some derived => do
    Checked.refuseIf (leaf.valueGenerator.isSome ∨ leaf.externalInputRequired)
      (.invalidValueDefinition path "derivedFrom excludes valueGenerator and externalInputRequired")
    let _ ← derived.validateDefinition.mapRefusal
      fun error => .invalidValueDefinition path (error.display libs.debug)
    return ()

def validateRegistration (path : SecretPath) : Option String → Checked SchemaError Unit
  | none => .ok ()
  | some registerAt => do
    let _ ← (SecretPath.parse registerAt).mapRefusal
      fun _ => invalid path "invalid registration secret identifier"
    return ()

def validateBootstrap (path : SecretPath) (bootstrap : StorageBoxBootstrap) : Checked SchemaError Unit := do
  Checked.refuseIf (bootstrap.host = "" ∨ bootstrap.user = "")
    (invalid path "storage-box bootstrap is incomplete")
  Checked.refuseIf (bootstrap.port ≠ 23) (invalid path "storage-box bootstrap port must be 23")
  Checked.refuseIf ((bootstrap.hostPublicKeys = [] ↔ bootstrap.knownHostsFile = none) ∨
      bootstrap.hostPublicKeys.any (!validSshPublicKey libs.toLibraries ·))
    (invalid path "exactly one pinned host-key source is required")
  Checked.refuseIf (bootstrap.knownHostsFile.any fun file =>
      !"/persistent/public-info/".toList.isPrefixOf file.toList ||
        (splitOnceText "..".toList file.toList).isSome)
    (invalid path "invalid knownHostsFile path")
  Checked.refuseIf (bootstrap.hostPublicKeys.dedup.length ≠ bootstrap.hostPublicKeys.length)
    (invalid path "duplicate pinned OpenSSH host public key")

/-- What is checked of a generated key by its type. -/
def validateGeneratedType (path : SecretPath) (leaf : GeneratedSecretLeaf) : Checked SchemaError Unit :=
  match leaf.generatedSecret.secretType with
  | .storageBoxSshKey => do
    let bootstrap ← Checked.orRefuse (invalid path "storage-box bootstrap is missing")
      leaf.generatedSecret.bootstrap
    Checked.refuseIf leaf.generatedSecret.registerAt.isSome
      (invalid path "storage-box key cannot register another secret")
    validateBootstrap libs path bootstrap
    Checked.refuseIf (leaf.recipientPublicKeys.any (!validSshPublicKey libs.toLibraries ·))
      (invalid path "invalid OpenSSH recipient public key")
  | .localSshKey => do
    Checked.refuseIf (leaf.generatedSecret.bootstrap.isSome ∨
        leaf.generatedSecret.output.category ≠ "service")
      (invalid path "local SSH key must have a service output and no bootstrap")
    validateRegistration path leaf.generatedSecret.registerAt

def validateGenerated (path : SecretPath) (service : String) (leaf : GeneratedSecretLeaf) :
    Checked SchemaError Unit := do
  validateRecipients path leaf.recipientPublicKeys leaf.recipientIds
  validateDestination path service leaf.generatedSecret.output
  validateValue libs.toLibraries path leaf.valueType leaf.consumerConstraints
  validateGeneratedType libs path leaf

def SecretLeaf.hasPublicFields (leaf : SecretLeaf) : Bool :=
  leaf.sharedPublicId.isSome || leaf.expectedSshHost.isSome || leaf.expectedSshHosts ≠ [] ||
    leaf.defaultValue.isSome || leaf.expectedSshPort.isSome || leaf.installDefaultIfMissing

def SecretLeaf.hasPrivateFields (leaf : SecretLeaf) : Bool :=
  leaf.recipientPublicKeys ≠ [] || leaf.recipientIds ≠ [] || leaf.recipientNames ≠ [] ||
    leaf.valueType.isSome || leaf.consumerConstraints.isSome || leaf.valueGenerator.isSome ||
    leaf.derivedFrom.isSome

def validateStored (path : SecretPath) (service : String) (leaf : SecretLeaf) :
    Checked SchemaError Unit :=
  match leaf.kind with
  | .secret => do
    Checked.refuseIf leaf.hasPublicFields (invalid path "public-info fields require kind=public-info")
    validateRecipients path leaf.recipientPublicKeys leaf.recipientIds
    validateDestination path service leaf.destination
    validateValue libs.toLibraries path leaf.valueType leaf.consumerConstraints
    validateValueGenerator path leaf
    validateDerivedLeaf libs path leaf
  | .publicInfo => do
    Checked.refuseIf leaf.hasPrivateFields
      (invalid path "public-info cannot have encryption or private value settings")
    validatePublicDestination libs path leaf

def validateKeypair (path : SecretPath) : Option KeypairGenerator → Checked SchemaError Unit
  | none => .ok ()
  | some generator => generator.validateDefinition.mapRefusal (.invalidValueDefinition path)

def validateLeaf (service : String) : LeafSpec → Checked SchemaError Unit
  | .stored path leaf => do
    Checked.refuseIf (leaf.optional ∧ leaf.requiredForInstall)
      (invalid path "optional conflicts with requiredForInstall")
    validateDescription path leaf.description
    validateStored libs path service leaf
  | .operator path leaf => do
    validateDescription path leaf.description
    validateRecipients path leaf.recipientPublicKeys leaf.recipientIds
    Checked.refuseIf (leaf.recipientPublicKeys.any (!validSshPublicKey libs.toLibraries ·))
      (invalid path "invalid OpenSSH recipient public key")
    validateKeypair path leaf.generator
  | .generated path leaf => do
    Checked.refuseIf (leaf.optional ∧ leaf.requiredForInstall)
      (invalid path "optional conflicts with requiredForInstall")
    validateDescription path leaf.description
    validateGenerated libs path service leaf

def validateTree (path : List String) (service : String) (node : SecretNode) : Checked SchemaError Unit :=
  walk validateComponent (fun _ leaf => validateLeaf libs service leaf) path node ()

end

end NixSecrets.Inventory
