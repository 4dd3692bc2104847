import NixSecrets.ManifestSchema
import NixSecrets.RustText

namespace NixSecrets.Inventory

/-- A map of the evaluated document, in the order of its keys. -/
abbrev Entries (α : Type) := List (String × α)

/-- A path as the wire carries it: nothing is checked until `new` makes one. -/
structure SecretPath where
  parts : List String
  deriving DecidableEq, Repr

def SecretPath.display (path : SecretPath) : String := ".".intercalate path.parts

inductive SchemaError
  | tooShort
  | invalidComponent (component : String)
  | invalidNamespace (space : String)
  | notFound (path : SecretPath)
  | isBranch (path : SecretPath)
  | wrongKind (path : SecretPath)
  | missingPublicKey (path : SecretPath)
  | recipientCount (path : SecretPath)
  | invalidDestination (path : SecretPath) (message : String)
  | invalidValueDefinition (path : SecretPath) (message : String)
  deriving DecidableEq, Repr

structure SecretIdentity where
  host : String
  scope : String
  user : Option String := none
  service : String
  responsibility : String
  space : Option String := none
  name : String
  deriving DecidableEq, Repr

structure SecretPresentation where
  explanation : String
  facing : String
  valueType : String
  deriving DecidableEq, Repr

inductive SecretKind
  | secret | publicInfo
  deriving DecidableEq, Repr

inductive ValueType
  | password | key
  deriving DecidableEq, Repr

structure ConsumerConstraints where
  cannotHandleShorterThan : Option Nat := none
  cannotHandleLongerThan : Option Nat := none
  matchingRegex : Option String := none
  deriving DecidableEq, Repr

inductive RandomEncoding
  | base64 | base64UrlUnpadded | hexLower
  deriving DecidableEq, Repr

inductive ValueGenerator
  | randomBytes (bytes : Nat) (encoding : RandomEncoding) (front suffix : String)
  deriving DecidableEq, Repr

structure DerivedFrom where
  identifier : String
  front : String := ""
  suffix : String := ""
  tomlPath : List String := []
  encoding : Option String := none
  deriving DecidableEq, Repr

structure KeypairGenerator where
  installable : String
  args : List String := []
  deriving DecidableEq, Repr

structure SecretLeaf where
  kind : SecretKind
  sharedPublicId : Option String := none
  expectedSshHost : Option String := none
  expectedSshPort : Option UInt16 := none
  expectedSshHosts : List String := []
  installDefaultIfMissing : Bool := false
  defaultValue : Option String := none
  description : Option String := none
  humanFacing : Bool := false
  externalInputRequired : Bool := false
  requiredForInstall : Bool := false
  optional : Bool := false
  identity : Option SecretIdentity := none
  presentation : Option SecretPresentation := none
  recipientPublicKeys : List String := []
  recipientIds : List String := []
  recipientNames : List String := []
  destination : Destination
  consumerUnits : List String := []
  valueType : Option ValueType := none
  consumerConstraints : Option ConsumerConstraints := none
  valueGenerator : Option ValueGenerator := none
  generateOnDeploy : Bool := true
  derivedFrom : Option DerivedFrom := none
  deriving DecidableEq, Repr

inductive GeneratedSecretType
  | storageBoxSshKey | localSshKey
  deriving DecidableEq, Repr

structure StorageBoxBootstrap where
  host : String
  port : UInt16
  user : String
  hostPublicKeys : List String := []
  knownHostsFile : Option String := none
  deriving DecidableEq, Repr

structure GeneratedSecret where
  secretType : GeneratedSecretType
  output : Destination
  bootstrap : Option StorageBoxBootstrap := none
  registerAt : Option String := none
  deriving DecidableEq, Repr

structure GeneratedSecretLeaf where
  description : Option String := none
  humanFacing : Bool := false
  externalInputRequired : Bool := false
  requiredForInstall : Bool := false
  optional : Bool := false
  identity : Option SecretIdentity := none
  presentation : Option SecretPresentation := none
  recipientPublicKeys : List String
  recipientIds : List String
  recipientNames : List String := []
  generatedSecret : GeneratedSecret
  consumerUnits : List String := []
  valueType : Option ValueType := none
  consumerConstraints : Option ConsumerConstraints := none
  deriving DecidableEq, Repr

structure OperatorLeaf where
  description : Option String := none
  humanFacing : Bool := false
  requiredForInstall : Bool := false
  signingOnly : Bool := false
  identity : Option SecretIdentity := none
  presentation : Option SecretPresentation := none
  recipientPublicKeys : List String
  recipientIds : List String
  recipientNames : List String := []
  generator : Option KeypairGenerator := none
  deriving DecidableEq, Repr

inductive SecretNode
  | generated (leaf : GeneratedSecretLeaf)
  | secret (leaf : SecretLeaf)
  | operator (leaf : OperatorLeaf)
  | branch (children : List (String × SecretNode))

structure DeploymentMetadata where
  publishHostIdentityTo : Option String := none
  host : String
  destination : String
  port : UInt16
  /-- The keys that the host's forwarder accepts. -/
  identityPublicKeys : List String := []
  /-- The protocol of the host's receiver, where its configuration tells. -/
  protocolVersion : Option UInt16 := none
  deriving DecidableEq, Repr

structure HostMetadata where
  socketPath : String
  deployment : DeploymentMetadata
  recipientPublicKeys : Entries String := []
  serviceDisplayPaths : Entries (Entries (List String)) := []
  deriving DecidableEq, Repr

structure HostSchema where
  metadata : HostMetadata
  serviceGroups : Entries (Entries SecretNode)

/-- The evaluated inventory of every host. -/
abbrev Schema := Entries HostSchema

inductive LeafSpec
  | stored (path : SecretPath) (leaf : SecretLeaf)
  | generated (path : SecretPath) (leaf : GeneratedSecretLeaf)
  | operator (path : SecretPath) (leaf : OperatorLeaf)

def LeafSpec.recipients : LeafSpec → List String × List String
  | .stored _ leaf => (leaf.recipientIds, leaf.recipientPublicKeys)
  | .generated _ leaf => (leaf.recipientIds, leaf.recipientPublicKeys)
  | .operator _ leaf => (leaf.recipientIds, leaf.recipientPublicKeys)

def LeafSpec.recipientNames : LeafSpec → List String
  | .stored _ leaf => leaf.recipientNames
  | .generated _ leaf => leaf.recipientNames
  | .operator _ leaf => leaf.recipientNames

/-- Every host a public-info known_hosts value may name. -/
def sshHosts (single : Option String) (more : List String) : List String :=
  ((single.toList ++ more).mergeSort (· ≤ ·)).dedup

def SecretLeaf.sshHosts (leaf : SecretLeaf) : List String :=
  Inventory.sshHosts leaf.expectedSshHost leaf.expectedSshHosts

def isComponentChar (c : Char) : Bool := c.isAlphanum || c == '-' || c == '_'

def validateComponent (component : String) : Checked SchemaError Unit :=
  if component ≠ "" ∧ component.toList.all isComponentChar then .ok ()
  else .refuse (.invalidComponent component)

def isUserNamespace (space : String) : Bool :=
  "user-".toList.isPrefixOf space.toList && "-services".toList.isSuffixOf space.toList

def validateNamespace (space : String) : Checked SchemaError Unit :=
  if space = "services" ∨ isUserNamespace space then .ok () else .refuse (.invalidNamespace space)

namespace SecretPath

def new (parts : List String) : Checked SchemaError SecretPath := do
  Checked.refuseIf (parts.length < 4) .tooShort
  Checked.each validateComponent parts
  validateNamespace (← Checked.index parts 1)
  return ⟨parts⟩

def parse (path : String) : Checked SchemaError SecretPath :=
  new ((path.toList.splitOn '.').map String.ofList)

end SecretPath

def missing (path : SecretPath) : SchemaError := .notFound path

/-- The rest of a path below a node, to the leaf it names. -/
def descend (path : SecretPath) : List String → SecretNode → Checked SchemaError LeafSpec
  | [], .branch _ => .refuse (.isBranch path)
  | [], .secret leaf => .ok (.stored path leaf)
  | [], .operator leaf => .ok (.operator path leaf)
  | [], .generated leaf => .ok (.generated path leaf)
  | component :: rest, .branch children =>
    match children.lookup component with
    | some child => descend path rest child
    | none => .refuse (missing path)
  | _ :: _, _ => .refuse (missing path)

namespace Schema

/-- The leaf at a path; its first three components are read by position. -/
def leaf (schema : Schema) (path : SecretPath) : Checked SchemaError LeafSpec := do
  let host ← Checked.orRefuse (missing path) (schema.lookup (← Checked.index path.parts 0))
  let services ←
    Checked.orRefuse (missing path) (host.serviceGroups.lookup (← Checked.index path.parts 1))
  let node ← Checked.orRefuse (missing path) (services.lookup (← Checked.index path.parts 2))
  descend path (path.parts.drop 3) node

def secret (schema : Schema) (path : SecretPath) : Checked SchemaError SecretLeaf := do
  match ← schema.leaf path with
  | .stored _ leaf => .ok leaf
  | .generated _ _ | .operator _ _ => .refuse (.wrongKind path)

end Schema

/-- A path that went through `SecretPath.new`. -/
def SecretPath.Made (path : SecretPath) : Prop := SecretPath.new path.parts = .ok path

theorem validateComponent_ok {component : String} (h : validateComponent component = .ok ()) :
    '.' ∉ component.toList := by
  unfold validateComponent at h
  split at h
  next hc =>
    intro hdot
    have hchar := List.all_eq_true.mp hc.2 '.' hdot
    exact absurd hchar (by decide)
  next => cases h

theorem made_split {path : SecretPath} (h : path.Made) :
    path.display.toList.splitOn '.' = path.parts.map String.toList := by
  obtain ⟨_, hlength, h⟩ := Checked.bind_ok h
  obtain ⟨_, hparts, _⟩ := Checked.bind_ok h
  have hshort := Checked.refuseIf_ok hlength
  have hdots : ∀ text ∈ path.parts.map String.toList, '.' ∉ text := by
    intro text ht
    obtain ⟨part, hp, rfl⟩ := List.mem_map.mp ht
    exact validateComponent_ok (Checked.each_ok hparts part hp)
  have hne : path.parts.map String.toList ≠ [] := by
    intro hnil
    rw [List.map_eq_nil_iff.mp hnil] at hshort
    simp at hshort
  rw [SecretPath.display, String.toList_intercalate]
  exact List.splitOn_intercalate '.' hdots hne

theorem parse_display {path : SecretPath} (h : path.Made) : SecretPath.parse path.display = .ok path := by
  have hback : (path.parts.map String.toList).map String.ofList = path.parts := by
    simp [Function.comp_def]
  rw [SecretPath.parse, made_split h, hback]
  exact h

theorem display_inj {path other : SecretPath} (h : path.Made) (h' : other.Made)
    (hd : other.display = path.display) : other = path := by
  have hparts : other.parts.map String.toList = path.parts.map String.toList := by
    rw [← made_split h, ← made_split h', hd]
  have he := List.map_injective_iff.mpr (fun _ _ => String.toList_inj.mp) hparts
  cases other
  cases path
  exact congrArg _ he

end NixSecrets.Inventory
