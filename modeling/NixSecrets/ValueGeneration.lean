import NixSecrets.Base64
import NixSecrets.DerivedVersion
import NixSecrets.Encryption
import NixSecrets.GeneratedTasks

namespace NixSecrets.Inventory

inductive TomlValue
  | string (text : String)
  | table (entries : List (String × TomlValue))
  | other

/-- Reads a TOML document. -/
abbrev ReadToml := String → Option (List (String × TomlValue))

namespace DerivedFrom

def frameBytes (derived : DerivedFrom) (source : List UInt8) : List UInt8 :=
  utf8Bytes derived.front.toList ++ source ++ utf8Bytes derived.suffix.toList

/-- Colons and backslashes are escaped in a field of a password file. -/
def escapePgpass (source : List UInt8) : List UInt8 :=
  source.flatMap fun byte => if byte = 58 ∨ byte = 92 then [92, byte] else [byte]

def frameEncoded (derived : DerivedFrom) (source : List UInt8) : Except String (List UInt8) :=
  match derived.encoding with
  | none => .ok (derived.frameBytes source)
  | some "pgpass" =>
    if source.any fun byte => byte = 0 || byte = 13 || byte = 10 then
      .error "pgpass source must be one password without NUL or line breaks"
    else .ok (derived.frameBytes (escapePgpass source))
  | some _ => .error "derivedFrom.encoding must be pgpass when set"

/-- Follows the keys from table to table. -/
def selectFrom (derived : DerivedFrom) (table : List (String × TomlValue)) :
    List String → Except String String
  | [] => .error (derived.identifier ++ ": " ++ ".".intercalate derived.tomlPath ++ " is not a string")
  | key :: rest =>
    match table.lookup key, rest with
    | some (.string text), [] => .ok text
    | some _, [] =>
      .error (derived.identifier ++ ": " ++ ".".intercalate derived.tomlPath ++ " is not a string")
    | some (.table inner), next :: rest => selectFrom derived inner (next :: rest)
    | _, _ => .error (derived.identifier ++ " has no field " ++ ".".intercalate derived.tomlPath)

def select (readToml : ReadToml) (derived : DerivedFrom) (source : List UInt8) : Except String String :=
  let path := ".".intercalate derived.tomlPath
  match utf8Text source with
  | none => .error (derived.identifier ++ " is not UTF-8 TOML, so it has no " ++ path)
  | some text =>
    match readToml (String.ofList text) with
    | none => .error (derived.identifier ++ " is not valid TOML, so it has no " ++ path)
    | some document => derived.selectFrom document derived.tomlPath

/-- The deployed bytes for a source value. -/
def frame (readToml : ReadToml) (derived : DerivedFrom) (source : List UInt8) : Except String (List UInt8) :=
  if derived.tomlPath = [] then derived.frameEncoded source
  else do
    let field ← derived.select readToml source
    derived.frameEncoded (utf8Bytes field.toList)

end DerivedFrom

inductive DeployGenerator
  | password (constraints : Option ConsumerConstraints)
  | declared (generator : ValueGenerator)
  deriving DecidableEq, Repr

inductive NotGeneratable
  | externalInput | optedOut | publicInfo | unknownFormat | derived
  deriving DecidableEq, Repr

def NotGeneratable.reason : NotGeneratable → String
  | .externalInput => "external input"
  | .optedOut => "generateOnDeploy = false"
  | .publicInfo => "public information"
  | .unknownFormat => "no valueGenerator"
  | .derived => "derived from another value"

def decideGenerator (leaf : SecretLeaf) : Except NotGeneratable DeployGenerator :=
  if leaf.kind = .publicInfo then .error .publicInfo
  else if leaf.externalInputRequired then .error .externalInput
  else if ¬ leaf.generateOnDeploy then .error .optedOut
  else
    match leaf.valueGenerator with
    | some generator => .ok (.declared generator)
    | none =>
      if leaf.valueType = some .password then .ok (.password leaf.consumerConstraints)
      else .error .unknownFormat

/-- The generator a target may use for this stored leaf when it is unset. -/
def deploymentGenerator (leaf : SecretLeaf) : Except NotGeneratable DeployGenerator :=
  if leaf.derivedFrom ≠ none then .error .derived else decideGenerator leaf

end NixSecrets.Inventory

namespace NixSecrets.Generation

open Inventory Crypto

/-- An error text, or one that ends in the error of another part of the program. -/
inductive GenerationError
  | invalid (message : String)
  | schema (context : String) (error : SchemaError)
  | crypto (identifier : String) (error : CryptoError)
  | host (error : DeployError)
  deriving DecidableEq, Repr

abbrev Generating (η : Type) := StateT η (Checked GenerationError)

/-- Where generated values come from and where installed ones are read. -/
structure GenerationHost (η : Type) where
  mix : List UInt8 → η → Except DeployError η
  generate : DeployGenerator → η → Except DeployError (List UInt8 × η)
  freshVersion : η → Except DeployError (VersionId × η)
  readInstalled : String → Except DeployError (Option (List UInt8))

/-- The target, with what its libraries compute. -/
structure Target (η : Type) where
  schema : Except DeployError Inventory.Schema
  hostname : String
  host : GenerationHost η
  encrypt : Encrypt
  sha256 : List UInt8 → List UInt8
  readToml : ReadToml
  readGenerator : String → Option DeployGenerator

/-- A value this run produced or adopted. -/
structure Made where
  version : VersionId
  value : List UInt8
  record : GeneratedRecord

def invalid {α : Type} (message : String) : Checked GenerationError α := .refuse (.invalid message)

def encodeBase64 (bytes : List UInt8) : String := String.ofList (base64Encode bytes)

def decodeVersion (text : String) : Option VersionId :=
  (base64Decode text.toList).bind fun bytes =>
    if h : bytes.length = versionIdSize then some ⟨bytes, h⟩ else none

def decodeContribution (text : String) : Checked GenerationError (List UInt8) := do
  let contribution ← Checked.orRefuse (.invalid "client contribution is not valid base64")
    (base64Decode text.toList)
  Checked.refuseIf (contribution.length ≠ 32) (.invalid "client contribution must be exactly 32 bytes")
  return contribution

def makeRecord (adopted : Bool) (encrypted : Crypto.EncryptedSecret) (version : VersionId) : GeneratedRecord where
  formatVersion := UInt16.ofNat encrypted.formatVersion
  versionIdBase64 := encodeBase64 version.val
  recipientIds := encrypted.recipientIds
  ageCiphertextBase64 := encodeBase64 encrypted.ageCiphertext
  adopted

def recipientsOf (ids keys : List String) : List Recipient :=
  (ids.zip keys).map fun (id, key) => ⟨id, key⟩

section

variable {η : Type} {α : Type}

def check (x : Checked GenerationError α) : Generating η α := fun s =>
  match x with
  | .ok a => .ok (a, s)
  | .error e => .error e

def onHost (f : η → Except DeployError (α × η)) : Generating η α := fun s =>
  match f s with
  | .ok result => .ok result
  | .error e => .error (.refused (.host e))

variable (target : Target η)

def mix (contribution : List UInt8) : Generating η Unit :=
  onHost fun s => (target.host.mix contribution s).map ((), ·)

def freshVersion : Generating η VersionId := onHost target.host.freshVersion

def generate (generator : DeployGenerator) : Generating η (List UInt8) :=
  onHost (target.host.generate generator)

/-- The leaf of this host that an identifier names; the texts say what the caller looks for. -/
def ownLeaf (schema : Inventory.Schema) (malformed foreign absent wrong : String) (identifier : String) :
    Checked GenerationError Inventory.SecretLeaf := do
  let path ← (SecretPath.parse identifier).mapRefusal (.schema malformed)
  Checked.refuseIf (path.parts.head? ≠ some target.hostname) (.invalid foreign)
  match ← (schema.leaf path).mapRefusal (.schema absent) with
  | .stored _ leaf => .ok leaf
  | _ => invalid wrong

def encryptValue (identifier : String) (version : VersionId) (value : List UInt8)
    (recipients : List Recipient) : Checked GenerationError Crypto.EncryptedSecret :=
  (encryptSecretWithVersion target.encrypt identifier version value recipients).mapRefusal
    (.crypto identifier)

/-- The installed version of a value with the bytes in its file, if both are there. -/
def installedValue (installedVersions : BTreeMap String String) (identifier : String) (leaf : Inventory.SecretLeaf) :
    Checked GenerationError (Option (String × List UInt8)) :=
  match installedVersions[identifier]? with
  | some version =>
    (Checked.ofExcept (target.host.readInstalled leaf.destination.path)).mapRefusal .host >>= fun value =>
      .ok (value.map (version, ·))
  | none => .ok none

/-- An installed value is kept, under its version if the store can hold that; any other is new. -/
def versionAndValue (contribution : List UInt8) (generator : DeployGenerator) :
    Option (String × List UInt8) → Generating η (VersionId × List UInt8)
  | some (installedVersion, value) =>
    match decodeVersion installedVersion with
    | some version => pure (version, value)
    | none => do
      let version ← freshVersion target
      return (version, value)
  | none => do
    mix target contribution
    let version ← freshVersion target
    let value ← generate target generator
    return (version, value)

def generateOwn (schema : Inventory.Schema) (installedVersions : BTreeMap String String)
    (entry : GenerateEntry) : Generating η Made := do
  let leaf ← check (ownLeaf target schema "invalid generated identifier: "
    "generated value belongs to another host" "generated value is absent from manifest: "
    "target tasks cannot be generated as values" entry.identifier)
  let generator ← check (match deploymentGenerator leaf with
    | .ok generator => .ok generator
    | .error reason => invalid (entry.identifier ++ " cannot be generated here: " ++ reason.reason))
  let contribution ← check (decodeContribution entry.clientContributionBase64)
  let installed ← check (installedValue target installedVersions entry.identifier leaf)
  let (version, value) ← versionAndValue target contribution generator installed
  let encrypted ← check (encryptValue target entry.identifier version value
    (recipientsOf leaf.recipientIds leaf.recipientPublicKeys))
  return ⟨version, value, makeRecord installed.isSome encrypted version⟩

/-- A requested derived value of this host is framed from the identifier. -/
def framesFrom (schema : Inventory.Schema) (source identifier : String) : Bool :=
  match SecretPath.parse identifier with
  | .ok path =>
    path.parts.head? = some target.hostname &&
      match schema.leaf path with
      | .ok (.stored _ leaf) => leaf.derivedFrom.any fun derived => derived.identifier = source
      | _ => false
  | .error _ => false

/-- A source this target shares but does not own is always new. -/
def generateShared (schema : Inventory.Schema) (derive : List String) (entry : GenerateEntry)
    (shared : SharedSource) : Generating η Made := do
  let _ ← check ((SecretPath.parse entry.identifier).mapRefusal (.schema "invalid shared source: "))
  check (Checked.refuseIf (¬ derive.any (framesFrom target schema entry.identifier))
    (.invalid (entry.identifier ++
      " is shared, but no requested derived value of this host is framed from it")))
  let generator ← check (Checked.orRefuse (.invalid "invalid shared source generator")
    (target.readGenerator shared.generator))
  check (Checked.refuseIf (shared.recipientIds = [] ∨
      shared.recipientIds.length ≠ shared.recipientPublicKeys.length)
    (.invalid "invalid shared source recipients"))
  let contribution ← check (decodeContribution entry.clientContributionBase64)
  mix target contribution
  let version ← freshVersion target
  let value ← generate target generator
  let encrypted ← check (encryptValue target entry.identifier version value
    (recipientsOf shared.recipientIds shared.recipientPublicKeys))
  return ⟨version, value, makeRecord false encrypted version⟩

def generateEntry (schema : Inventory.Schema) (installedVersions : BTreeMap String String)
    (derive : List String) (entry : GenerateEntry) : Generating η Made :=
  match entry.shared with
  | some shared => generateShared target schema derive entry shared
  | none => generateOwn target schema installedVersions entry

end

/-- What a run has so far. -/
structure Progress where
  produced : BTreeMap String (VersionId × List UInt8) := ∅
  deployments : List SecretDeployment := []
  records : BTreeMap String GeneratedRecord := ∅

/-- The deployment of a value of this target; a shared source is deployed nowhere. -/
def deploymentOf (entry : GenerateEntry) (made : Made) : List SecretDeployment :=
  if entry.shared = none then
    [⟨entry.identifier, encodeBase64 made.version.val, encodeBase64 made.value⟩]
  else []

def Progress.add (progress : Progress) (entry : GenerateEntry) (made : Made) : Progress where
  produced := progress.produced.insert entry.identifier (made.version, made.value)
  deployments := progress.deployments ++ deploymentOf entry made
  records := progress.records.insert entry.identifier made.record

section

variable {η : Type} (target : Target η)

def generateAll (schema : Inventory.Schema) (installedVersions : BTreeMap String String)
    (derive : List String) : Progress → List GenerateEntry → Generating η Progress
  | progress, [] => pure progress
  | progress, entry :: rest => do
    let made ← generateEntry target schema installedVersions derive entry
    generateAll schema installedVersions derive (progress.add entry made) rest

def deriveValue (schema : Inventory.Schema) (produced : BTreeMap String (VersionId × List UInt8))
    (identifier : String) : Checked GenerationError SecretDeployment := do
  let leaf ← ownLeaf target schema "invalid derived identifier: " "derived value belongs to another host"
    "derived value is absent from manifest: " "only stored values can be derived" identifier
  let derived ← Checked.orRefuse (.invalid (identifier ++ " declares no derivedFrom")) leaf.derivedFrom
  let (version, value) ← Checked.orRefuse (.invalid (identifier ++ ": its source " ++ derived.identifier ++
    " is not generated in this deployment")) produced[derived.identifier]?
  let contents ← (Checked.ofExcept (derived.frame target.readToml value)).mapRefusal .invalid
  return ⟨identifier, derived.version target.sha256 version.val, encodeBase64 contents⟩

def runValueGeneration (entries : List GenerateEntry) (derive : List String)
    (installedVersions : BTreeMap String String) : Generating η GeneratedValues := do
  let schema ← check ((Checked.ofExcept target.schema).mapRefusal .host)
  let progress ← generateAll target schema installedVersions derive {} entries
  let derived ← check (derive.mapM (deriveValue target schema progress.produced))
  return ⟨progress.deployments ++ derived, progress.records⟩

end

end NixSecrets.Generation
