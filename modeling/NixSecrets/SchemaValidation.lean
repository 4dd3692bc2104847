import NixSecrets.SchemaLeaves

namespace NixSecrets.Inventory

def syntheticPath (host : String) : SecretPath := ⟨[host, "services", "metadata", "socket"]⟩

def checkRecipientNames (host : String) (names keys : List String) (registry : Entries String) :
    Checked SchemaError Unit :=
  if names = [] then .ok ()
  else do
    Checked.refuseIf (names.length ≠ keys.length ∨ (names.zip keys).any fun (name, key) =>
        name = "" || 64 < name.utf8ByteSize || !name.toList.all isComponentChar ||
          registry.lookup name ≠ some key)
      (invalid (syntheticPath host) "named recipient does not match the host registry")
    Checked.refuseIf (names.dedup.length ≠ names.length)
      (invalid (syntheticPath host) "duplicate recipient name")

def validateNamedRecipients (host : String) (registry : Entries String) (path : List String)
    (node : SecretNode) : Checked SchemaError Unit :=
  walk unchecked (fun _ leaf => checkRecipientNames host leaf.recipientNames leaf.publicKeys registry)
    path node ()

/-- The hosts and the port that each shared name was seen with. -/
abbrev PublicSpecs := Entries (List String × UInt16)

def checkSharedPublic (host : String) (seen : PublicSpecs) (leaf : LeafSpec) :
    Checked SchemaError PublicSpecs :=
  match leaf with
  | .stored _ leaf =>
    if leaf.kind = .publicInfo then do
      let id ← Checked.orPanic leaf.sharedPublicId
      let port ← Checked.orPanic leaf.expectedSshPort
      Checked.refuseIf ((seen.lookup id).any (· ≠ (leaf.sshHosts, port)))
        (invalid (syntheticPath host) "shared public-info ID has conflicting validation settings")
      return (id, leaf.sshHosts, port) :: seen
    else .ok seen
  | .generated _ _ | .operator _ _ => .ok seen

def validateSharedPublicSpecs (host : String) (path : List String) (node : SecretNode)
    (seen : PublicSpecs) : Checked SchemaError PublicSpecs :=
  walk unchecked (checkSharedPublic host) path node seen

/-- What the loop over the hosts hands on: who produces each shared identity, and the public
values seen. -/
structure Registries where
  producers : Entries String := []
  publicSpecs : PublicSpecs := []

namespace Schema

variable (libs : SchemaLibraries)

def collectStored (schema : Schema) (leaves : List (SecretPath × SecretLeaf)) (leaf : LeafSpec) :
    Checked SchemaError (List (SecretPath × SecretLeaf)) :=
  match leaf with
  | .stored path _ => do
    let path ← SecretPath.new path.parts
    match ← schema.leaf path with
    | .stored _ spec => return leaves ++ [(path, spec)]
    | .generated _ _ | .operator _ _ => return leaves
  | .generated _ _ | .operator _ _ => .ok leaves

def storedLeaves (schema : Schema) : Checked SchemaError (List (SecretPath × SecretLeaf)) :=
  schema.walkAll schema.collectStored []

/-- The source is a stored secret that is not itself derived. -/
def isSource : LeafSpec → Bool
  | .stored _ leaf => leaf.kind = .secret && leaf.derivedFrom.isNone
  | .generated _ _ | .operator _ _ => false

def checkSource (schema : Schema) (path source : SecretPath) : Checked SchemaError Unit := do
  let host ← Checked.index source.parts 0
  if (schema.lookup host).isNone then return ()
  else do
    Checked.refuseIf (source = path)
      (.invalidValueDefinition path "a value cannot be derived from itself")
    let leaf ← (schema.leaf source).mapRefusal
      fun _ => .invalidValueDefinition path "derivedFrom names a value absent from the schema"
    Checked.refuseIf (isSource leaf = false) (.invalidValueDefinition path
      "derivedFrom must name a stored secret that is not itself derived")

def checkDerived (schema : Schema) (entry : SecretPath × SecretLeaf) : Checked SchemaError Unit :=
  match entry.2.derivedFrom with
  | none => .ok ()
  | some derived => do
    let source ← derived.validateDefinition.mapRefusal
      fun error => .invalidValueDefinition entry.1 (error.display libs.debug)
    schema.checkSource entry.1 source

def validateDerived (schema : Schema) : Checked SchemaError Unit := do
  Checked.each (schema.checkDerived libs) (← schema.storedLeaves)

/-- A host publishes its identity under a shared public value of its own that no other host
publishes under. -/
def validateProducer (schema : Schema) (hostName : String) (producers : Entries String) :
    Option String → Checked SchemaError (Entries String)
  | none => .ok producers
  | some identifier => do
    let path ← SecretPath.parse identifier
    let spec ← schema.secret path
    Checked.refuseIf (spec.kind ≠ .publicInfo ∨ spec.sharedPublicId = none ∨
        spec.expectedSshPort = none ∨ path.parts.head? ≠ some hostName)
      (invalid path "publishHostIdentityTo requires this producer's shared public-info leaf")
    let shared ← Checked.orPanic spec.sharedPublicId
    Checked.refuseIf (producers.lookup shared).isSome
      (invalid path "shared host identity has more than one producer")
    return (shared, hostName) :: producers

def validateService (hostName : String) (host : HostSchema) (specs : PublicSpecs)
    (tree : String × String × SecretNode) : Checked SchemaError PublicSpecs := do
  let (space, service, node) := tree
  let path := [hostName, space, service]
  validateComponent service
  validateTree libs path service node
  validateNamedRecipients hostName host.metadata.recipientPublicKeys path node
  validateSharedPublicSpecs hostName path node specs

/-- The services of one namespace, after its name. -/
def validateGroup (hostName : String) (host : HostSchema) (specs : PublicSpecs)
    (group : String × Entries SecretNode) : Checked SchemaError PublicSpecs := do
  validateNamespace group.1
  Checked.carry (fun specs (service, node) => validateService libs hostName host specs
    (group.1, service, node)) specs group.2

def validateDisplayPath (host : HostSchema) (space : String) (entry : String × List String) :
    Checked SchemaError Unit := do
  Checked.refuseIf (((host.serviceGroups.lookup space).bind (·.lookup entry.1)).isNone ∨ entry.2 = [])
    (.invalidComponent ("unknown or empty display path for " ++ space ++ "." ++ entry.1))
  Checked.each validateComponent entry.2

def validateDisplayPaths (host : HostSchema) (group : String × Entries (List String)) :
    Checked SchemaError Unit := do
  validateNamespace group.1
  Checked.each (validateDisplayPath host group.1) group.2

/-- A service without a display path is shown under its name. -/
def displayPath (paths : Option (Entries (List String))) (service : String) : List String :=
  (paths.bind (·.lookup service)).getD [service]

def uniqueDisplayPaths (host : HostSchema) (group : String × Entries SecretNode) :
    Checked SchemaError Unit :=
  let paths := host.metadata.serviceDisplayPaths.lookup group.1
  Checked.refuseIf (¬ (group.2.map fun entry => displayPath paths entry.1).Nodup)
    (.invalidComponent ("duplicate display path in " ++ group.1))

def validateHost (schema : Schema) (registries : Registries) (entry : String × HostSchema) :
    Checked SchemaError Registries := do
  let (hostName, host) := entry
  validateComponent hostName
  Checked.refuseIf (host.metadata.socketPath.toList.head? ≠ some '/')
    (invalid (syntheticPath hostName) "socketPath must be absolute")
  Checked.refuseIf (host.metadata.deployment.host = "" ∨ host.metadata.deployment.destination = "" ∨
      host.metadata.deployment.port = 0)
    (invalid (syntheticPath hostName) "deployment metadata is incomplete")
  let producers ← schema.validateProducer hostName registries.producers
    host.metadata.deployment.publishHostIdentityTo
  let publicSpecs ← Checked.carry (validateGroup libs hostName host) registries.publicSpecs
    host.serviceGroups
  Checked.each (validateDisplayPaths host) host.metadata.serviceDisplayPaths
  Checked.each (uniqueDisplayPaths host) host.serviceGroups
  return { producers, publicSpecs }

def validate (schema : Schema) : Checked SchemaError Unit := do
  let _ ← schema.identityIndex
  schema.validateDerived libs
  let _ ← Checked.carry (schema.validateHost libs) {} schema
  return ()

end Schema

inductive SchemaLoadError
  | json (message : String)
  | schema (error : SchemaError)
  deriving DecidableEq, Repr

/-- Reads a document with the JSON library, and checks it. -/
def Schema.fromJson (libs : SchemaLibraries) (decode : String → Except String Schema) (input : String) :
    Checked SchemaLoadError Schema := do
  let schema ← (Checked.ofExcept (decode input)).mapRefusal SchemaLoadError.json
  (schema.validate libs).mapRefusal SchemaLoadError.schema
  return schema

end NixSecrets.Inventory
