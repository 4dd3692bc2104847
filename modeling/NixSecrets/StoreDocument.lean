import NixSecrets.KnownHosts

namespace NixSecrets.Inventory

structure EncryptedSecret where
  formatVersion : UInt16 := 1
  versionId : List UInt8
  recipientIds : List String := []
  recipientRefs : List String := []
  ageCiphertext : List UInt8
  publicKey : Option String := none
  deriving DecidableEq, Repr

structure GeneratedPublicKey where
  versionId : String
  publicKey : String
  deriving DecidableEq, Repr

structure PublicInfoRecord where
  versionId : String
  value : String
  deriving DecidableEq, Repr

inductive QuarantinedContent
  | generatedRecord (formatVersion : UInt16) (versionIdBase64 : String)
      (recipientIds : List String) (ageCiphertextBase64 : String) (adopted : Bool)
  | publicKey (publicKey : String)
  deriving DecidableEq, Repr

structure QuarantinedValue where
  identifier : String
  sourceHost : String
  deploymentId : String
  quarantinedAt : UInt64
  reason : String
  content : QuarantinedContent
  deriving DecidableEq, Repr

structure StoreDocument where
  secrets : BTreeMap String EncryptedSecret := ∅
  generatedPublicKeys : BTreeMap String GeneratedPublicKey := ∅
  recipientRegistry : BTreeMap String String := ∅
  publicInfo : BTreeMap String PublicInfoRecord := ∅
  quarantine : BTreeMap String QuarantinedValue := ∅
  deriving DecidableEq

inductive StoreError
  | io (error : String)
  | decode (error : String)
  | encode (error : String)
  | schema (error : SchemaError)
  | recipientMismatch | invalidRecord | invalidPublicKey | invalidRecipientRegistry
  | invalidPublicInfo | invalidQuarantine | versionConflict | derived
  deriving DecidableEq, Repr

/-- What an operation does to the document while it holds the lock. -/
abbrev Action (α : Type) := StoreDocument → Checked StoreError (α × StoreDocument)

def lookUp (registry : BTreeMap String String) : List String → Except StoreError (List String)
  | [] => .ok []
  | reference :: rest =>
    match registry[reference]? with
    | some id => (lookUp registry rest).map (id :: ·)
    | none => .error .invalidRecipientRegistry

def hydrateRecord (document : StoreDocument) (record : EncryptedSecret) :
    Except StoreError EncryptedSecret :=
  if record.recipientRefs = [] then .ok record
  else if record.recipientIds ≠ [] then .error .invalidRecipientRegistry
  else (lookUp document.recipientRegistry record.recipientRefs).map fun ids =>
    { record with recipientIds := ids }

def maxOperatorPublicKeyBytes : Nat := 64 * 1024

def validOperatorPublicKey (libs : Libraries) (key : String) : Bool :=
  (libs.decodeBase64 key.toList).any fun bytes =>
    bytes ≠ [] && bytes.length ≤ maxOperatorPublicKeyBytes

def validatePublicMetadata (libs : Libraries) (leaf : LeafSpec) (publicKey : Option String) :
    Checked StoreError Unit :=
  let checked (privateKey : Bool) : Checked StoreError Unit :=
    Checked.refuseIf (publicKey.any fun key => !privateKey || !validSshPublicKey libs key)
      .invalidPublicKey
  match leaf with
  | .stored _ spec =>
    if spec.destination.contentType = some "openssh-private-key" then do
      Checked.refuseIf (publicKey = none) .invalidPublicKey
      checked true
    else checked false
  | .generated _ spec =>
    checked (spec.generatedSecret.output.contentType = some "openssh-private-key")
  | .operator _ spec =>
    Checked.refuseIf (publicKey.any fun key =>
      spec.generator.isNone || !validOperatorPublicKey libs key) .invalidPublicKey

def maxCiphertextBytes : Nat := 64 * 1024 * 1024

def validateRecord (record : EncryptedSecret) : Checked StoreError Unit :=
  Checked.refuseIf (record.formatVersion ≠ 1 ∨ record.versionId.length ≠ 16 ∨
    record.recipientIds = [] ∨ record.ageCiphertext = [] ∨
    maxCiphertextBytes < record.ageCiphertext.length) .invalidRecord

def LeafSpec.isPublicInfo : LeafSpec → Bool
  | .stored _ spec => spec.kind = .publicInfo
  | _ => false

def LeafSpec.isDerived : LeafSpec → Bool
  | .stored _ spec => spec.derivedFrom.isSome
  | _ => false

def registryReference (name : String) (revision : Nat) : String := name ++ "#" ++ toString revision

/-- The first revision from `revision` on that is free, at most `fuel` further on. -/
def freeRevision (registry : BTreeMap String String) (name : String) : Nat → Nat → Nat
  | 0, revision => revision
  | fuel + 1, revision =>
    if registryReference name revision ∈ registry then freeRevision registry name fuel (revision + 1)
    else revision

/-- A registry of `n` entries has one of the first `n + 1` revisions free. -/
def freeReference (registry : BTreeMap String String) (name : String) : String :=
  registryReference name (freeRevision registry name registry.size 0)

def intern (name id : String) (registry : BTreeMap String String) :
    String × BTreeMap String String :=
  let reference := match registry.toList.find? fun entry =>
      (name ++ "#").toList.isPrefixOf entry.1.toList && entry.2 == id with
    | some entry => entry.1
    | none => freeReference registry name
  (reference, registry.insertIfNew reference id)

def internAll : List (String × String) → BTreeMap String String →
    List String × BTreeMap String String
  | [], registry => ([], registry)
  | (name, id) :: rest, registry =>
    let (reference, registry) := intern name id registry
    let (refs, registry) := internAll rest registry
    (reference :: refs, registry)

namespace SecretStore

def get (path : SecretPath) : Action (Option EncryptedSecret) := fun document =>
  match document.secrets[path.display]? with
  | some record => do return (some (← Checked.ofExcept (hydrateRecord document record)), document)
  | none => return (none, document)

def hydrateAll (document : StoreDocument) : List (String × EncryptedSecret) →
    Except StoreError (List (String × EncryptedSecret))
  | [] => .ok []
  | (path, record) :: rest => do
    let record ← hydrateRecord document record
    let rest ← hydrateAll document rest
    return (path, record) :: rest

def list : Action (List (String × EncryptedSecret)) := fun document => do
  return (← Checked.ofExcept (hydrateAll document document.secrets.toList), document)

section

variable (libs : Libraries) (schema : Schema) (path : SecretPath)

def setChecked (envelope : EncryptedSecret) (expected : Option (Option (List UInt8))) :
    Checked StoreError (Action Unit) := do
  let leaf ← Checked.mapRefusal .schema (schema.leaf path)
  Checked.refuseIf leaf.isPublicInfo .invalidPublicInfo
  Checked.refuseIf leaf.isDerived .derived
  Checked.refuseIf (leaf.recipients.1 ≠ envelope.recipientIds) .recipientMismatch
  validatePublicMetadata libs leaf envelope.publicKey
  validateRecord envelope
  let names := leaf.recipientNames
  return fun document => do
    Checked.refuseIf (expected.any fun version =>
      document.secrets[path.display]?.map (·.versionId) ≠ version) .versionConflict
    if names ≠ [] then
      Checked.refuseIf (names.length ≠ envelope.recipientIds.length) .invalidRecipientRegistry
      let (refs, registry) := internAll (names.zip envelope.recipientIds) document.recipientRegistry
      return ((), { document with
        recipientRegistry := registry
        secrets := document.secrets.insert path.display
          { envelope with recipientRefs := refs, recipientIds := [] } })
    else
      return ((), { document with
        secrets := document.secrets.insert path.display { envelope with recipientRefs := [] } })

def set (envelope : EncryptedSecret) : Checked StoreError (Action Unit) :=
  setChecked libs schema path envelope none

def setIfVersion (envelope : EncryptedSecret) (expectedVersion : Option (List UInt8)) :
    Checked StoreError (Action Unit) :=
  setChecked libs schema path envelope (some expectedVersion)

def remove : Checked StoreError (Action Bool) := do
  let leaf ← Checked.mapRefusal .schema (schema.leaf path)
  Checked.refuseIf leaf.isPublicInfo .invalidPublicInfo
  return fun document => return (document.secrets.contains path.display,
    { document with secrets := document.secrets.erase path.display })

def removeIfVersion (expectedVersion : List UInt8) : Checked StoreError (Action Bool) := do
  let leaf ← Checked.mapRefusal .schema (schema.leaf path)
  Checked.refuseIf leaf.isPublicInfo .invalidPublicInfo
  return fun document => do
    Checked.refuseIf (document.secrets[path.display]?.map (·.versionId) ≠ some expectedVersion)
      .versionConflict
    return (document.secrets.contains path.display,
      { document with secrets := document.secrets.erase path.display })

def setGeneratedPublicKeyIfVersion (value : GeneratedPublicKey) (expectedVersion : Option String) :
    Checked StoreError (Action Unit) := do
  let .generated _ spec ← Checked.mapRefusal .schema (schema.leaf path)
    | Checked.refuse .invalidPublicKey
  Checked.refuseIf (spec.generatedSecret.secretType ≠ .localSshKey ∨
    ¬ validSshPublicKey libs value.publicKey ∨ value.versionId = "" ∨
    256 < value.versionId.utf8ByteSize) .invalidPublicKey
  return fun document => do
    let actual := document.generatedPublicKeys[path.display]?
    Checked.refuseIf (actual.map (·.versionId) ≠ expectedVersion) .versionConflict
    Checked.refuseIf (actual.any fun record =>
      record.publicKey ≠ value.publicKey ∧ record.versionId = value.versionId) .versionConflict
    return ((), { document with
      generatedPublicKeys := document.generatedPublicKeys.insert path.display value })

def setPublicKeyIfVersion (publicKey : String) (expectedVersion : List UInt8)
    (expectedPublicKey : Option String) : Checked StoreError (Action Unit) := do
  let .generated _ spec ← Checked.mapRefusal .schema (schema.leaf path)
    | Checked.refuse .invalidPublicKey
  Checked.refuseIf (spec.generatedSecret.secretType ≠ .storageBoxSshKey ∨
    ¬ validSshPublicKey libs publicKey) .invalidPublicKey
  return fun document => do
    let record ← Checked.orRefuse .versionConflict document.secrets[path.display]?
    Checked.refuseIf (record.versionId ≠ expectedVersion) .versionConflict
    Checked.refuseIf (record.publicKey ≠ expectedPublicKey) .versionConflict
    return ((), { document with
      secrets := document.secrets.insert path.display { record with publicKey := some publicKey } })

def isAsciiHexDigit (c : Char) : Bool := (hexValue c).isSome

def setPublicInfoIfVersion (value : PublicInfoRecord) (expectedVersion : Option String) :
    Checked StoreError (Action Unit) := do
  let spec ← Checked.mapRefusal .schema (schema.secret path)
  match spec.kind, spec.sharedPublicId, spec.expectedSshHost, spec.expectedSshPort with
  | .publicInfo, some id, some _, some port =>
    Checked.refuseIf ((value.versionId.utf8ByteSize ≠ 32 ∧ value.versionId.utf8ByteSize ≠ 64) ∨
      ¬ value.versionId.toList.all isAsciiHexDigit) .invalidPublicInfo
    Checked.mapRefusal (fun _ => .invalidPublicInfo)
      (validateSshKnownHosts libs spec.sshHosts port value.value)
    return fun document => do
      Checked.refuseIf (document.publicInfo[id]?.map (·.versionId) ≠ expectedVersion) .versionConflict
      return ((), { document with publicInfo := document.publicInfo.insert id value })
  | _, _, _, _ => Checked.refuse .invalidPublicInfo

def removePublicInfoIfVersion (expectedVersion : String) : Checked StoreError (Action Bool) := do
  let spec ← Checked.mapRefusal .schema (schema.secret path)
  match spec.kind, spec.sharedPublicId with
  | .publicInfo, some id =>
    return fun document => do
      Checked.refuseIf (document.publicInfo[id]?.map (·.versionId) ≠ some expectedVersion)
        .versionConflict
      return (document.publicInfo.contains id,
        { document with publicInfo := document.publicInfo.erase id })
  | _, _ => Checked.refuse .invalidPublicInfo

end

def generatedPublicKey (path : SecretPath) : Action (Option GeneratedPublicKey) := fun document =>
  return (document.generatedPublicKeys[path.display]?, document)

def listPublicInfo : Action (List (String × PublicInfoRecord)) := fun document =>
  return (document.publicInfo.toList, document)

def getPublicInfo (sharedId : String) : Action (Option PublicInfoRecord) := fun document =>
  return (document.publicInfo[sharedId]?, document)

end SecretStore

def maxQuarantine : Nat := 1024
def maxText : Nat := 4096
def maxContent : Nat := 32 * 1024 * 1024

def QuarantinedContent.length : QuarantinedContent → Nat
  | .generatedRecord _ versionId recipientIds ageCiphertext _ =>
    versionId.utf8ByteSize + ageCiphertext.utf8ByteSize +
      (recipientIds.map String.utf8ByteSize).sum
  | .publicKey key => key.utf8ByteSize

def QuarantinedValue.validate (value : QuarantinedValue) : Checked StoreError Unit :=
  Checked.refuseIf ([value.identifier, value.sourceHost, value.deploymentId, value.reason].any
      (maxText < ·.utf8ByteSize) ∨ value.identifier = "" ∨ value.sourceHost = "" ∨
    maxContent < value.content.length) .invalidQuarantine

namespace SecretStore

/-- The id is the hexadecimal text of eight random bytes. -/
def quarantine (value : QuarantinedValue) (random : Except String String) :
    Checked StoreError (Action String) := do
  value.validate
  let id ← Checked.mapRefusal .io (Checked.ofExcept random)
  return fun document => do
    Checked.refuseIf (maxQuarantine ≤ document.quarantine.size) .invalidQuarantine
    return (id, { document with quarantine := document.quarantine.insert id value })

def listQuarantine : Action (List (String × QuarantinedValue)) := fun document =>
  return (document.quarantine.toList, document)

def removeQuarantined (id : String) : Action Bool := fun document =>
  return (document.quarantine.contains id,
    { document with quarantine := document.quarantine.erase id })

end SecretStore

end NixSecrets.Inventory
