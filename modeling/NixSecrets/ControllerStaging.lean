import NixSecrets.ArtifactSigning
import NixSecrets.ControllerWorld

namespace NixSecrets.Manager

open Inventory Program

section

variable (libs : Libraries) (schema : Inventory.Schema)

/-- The hosts that publish their identity as the shared value. -/
def identityProducers (id : String) : List String :=
  (schema.filter fun entry =>
    (entry.2.metadata.deployment.publishHostIdentityTo.bind (storedLeaf libs schema)).any
      fun leaf => leaf.sharedPublicId = some id).map (·.1)

/-- Why the stored value of a public-info leaf is left out. -/
def staleReason (publicInfo : List (String × PublicInfoRecord)) (identifier : String) : Option String := do
  let leaf ← storedLeaf libs schema identifier
  let id ← leaf.sharedPublicId
  let port ← leaf.expectedSshPort
  let record ← publicInfo.lookup id
  if leaf.kind ≠ .publicInfo then none
  else
    match validateSshKnownHosts libs.toLibraries leaf.sshHosts port record.value with
    | .error (.refused error) =>
      let producers := identityProducers libs schema id
      some ("the stored value of " ++ id ++ " is invalid under the current schema: " ++ error ++
        ". It stays stored and is not deployed; " ++
        if producers = [] then "enter it again"
        else "deploy " ++ ", ".intercalate producers ++ " to republish it")
    | _ => none

def stalePublicInfo (identifiers : List String) (publicInfo : List (String × PublicInfoRecord)) :
    BTreeMap String String :=
  identifiers.foldl (fun stale identifier => match staleReason libs schema publicInfo identifier with
    | some reason => stale.insert identifier reason
    | none => stale) ∅

/-- Every stored value, and each requested public-info leaf with a shared value or a default. -/
def setOf (identifiers : List String) (entries : List (String × Inventory.EncryptedSecret))
    (publicInfo : List (String × PublicInfoRecord)) : BTreeSet String :=
  identifiers.foldl (fun set identifier =>
    if (storedLeaf libs schema identifier).any fun leaf => leaf.defaultValue.isSome ||
        leaf.sharedPublicId.any fun id => (publicInfo.lookup id).isSome then set.insert identifier
    else set) (Std.ExtTreeSet.ofList (entries.map (·.1)) compare)

/-- What becomes of the leaves of a request: values by what the target has, and tasks. -/
structure Detailed where
  create : List String := []
  replace : List String := []
  tasks : List Tui.TaskApproval := []

def detailTask (plan : UnsetPlan) (skippable : List String) (state : Option Transport.TargetState)
    (set : BTreeSet String) (identifier : String) (task : Inventory.GeneratedSecretLeaf) (detailed : Detailed) :
    Checked String Detailed :=
  if plan.reasons[identifier]? = some .notDeclaredByHost ∨
      plan.reasons[identifier]? = some .declaredDifferently then .ok detailed
  else do
    let requiresInput := decide (task.generatedSecret.secretType ≠ .localSshKey)
    let outputIsSet ← match state with
      | some state =>
        if skippable.contains identifier then pure none
        else some <$> targetTaskHasVersion state identifier
      | none => pure none
    return { detailed with tasks := detailed.tasks ++ [{
      identifier := identifier
      inputIsSet := !requiresInput || set.contains identifier
      outputIsSet := outputIsSet
      requiresInput := requiresInput }] }

def detailLeaf (request : ApprovalRequest) (plan : UnsetPlan) (skippable : List String)
    (state : Option Transport.TargetState) (set : BTreeSet String) (detailed : Detailed)
    (identifier : String) : Checked String Detailed := do
  let path ← parsePath libs identifier
  Checked.refuseIf (path.parts.head? ≠ some request.target)
    (identifier ++ " does not belong to target " ++ request.target)
  match ← (schema.leaf path).mapRefusal (·.display libs.debug) with
  | .operator _ _ => Checked.refuse (identifier ++ " is operator-only and is never deployed")
  | .generated _ task => detailTask plan skippable state set identifier task detailed
  | .stored _ _ =>
    match state with
    | some state =>
      if skippable.contains identifier then return detailed
      else if ← targetHasVersion state identifier then
        return { detailed with replace := detailed.replace ++ [identifier] }
      else return { detailed with create := detailed.create ++ [identifier] }
    | none => return detailed

/-- The plan of a request, without what the host's activation disagrees with. -/
def detailPlan (c : Controller) (request : ApprovalRequest) (state : Option Transport.TargetState)
    (set : BTreeSet String) : Checked String UnsetPlan := do
  let plan ← planUnset libs schema request.secrets set c.stalePublic
  match state, c.active with
  | some state, some active =>
    return plan.excludeMismatches (← targetMismatches libs schema state active.expected)
  | _, _ => return plan

def sharedLabel (target : String) (item : String × String) : String × String :=
  (item.1, item.2 ++ "; shared with " ++ hostPart item.1 ++ ", generated and encrypted on " ++ target ++
    " and stored as ciphertext")

/-- The dialog of a request. -/
def approvalDetails (c : Controller) (request : ApprovalRequest) (state : Option Transport.TargetState)
    (set : BTreeSet String) : Checked String Tui.ApprovalRequest := do
  let plan ← detailPlan libs schema c request state set
  let detailed ← Checked.carry
    (detailLeaf libs schema request plan (plan.skippable ++ plan.hostDefault) state set) {} request.secrets
  return {
    id := request.id
    target := request.target
    create := detailed.create
    replace := detailed.replace
    tasks := detailed.tasks
    generate := plan.generate ++ plan.shared.map (sharedLabel request.target)
    missing := plan.missing
    derived := plan.derived ++ plan.derivedOnTarget
    skippable := plan.skippable
    allowPartial := true }

/-- Checks a returned record without decrypting it. -/
def recordEnvelope (identifier : String) (record : GeneratedRecord) :
    Checked String Inventory.EncryptedSecret := do
  let said (message : String) := identifier ++ ": target record " ++ message
  match ← leafOf libs schema identifier with
  | .stored _ leaf =>
    Checked.refuseIf (record.formatVersion ≠ 1) (said "has an unsupported format version")
    Checked.refuseIf (record.recipientIds ≠ leaf.recipientIds) (said "names different recipients")
    let versionId ← Checked.orRefuse (said "has an invalid version")
      (libs.decodeBase64 record.versionIdBase64.toList)
    Checked.refuseIf (versionId.length ≠ Crypto.versionIdSize) (said "has an invalid version length")
    let ciphertext ← Checked.orRefuse (said "has invalid ciphertext encoding")
      (libs.decodeBase64 record.ageCiphertextBase64.toList)
    Checked.ofExcept ((libs.verifyHeader ciphertext leaf.recipientPublicKeys).mapError fun error =>
      said ("failed its recipient check: " ++ error))
    return {
      formatVersion := record.formatVersion
      versionId := versionId
      recipientIds := record.recipientIds
      ageCiphertext := ciphertext }
  | _ => Checked.refuse (identifier ++ ": target returned a record for a task")

end

/-- The deployment a returned value came from. -/
structure Origin where
  host : String
  deployment : String

/-- What became of the records a target generated. -/
structure StoredRecords where
  stored : List String := []
  quarantined : List String := []
  conflicts : List String := []

def StoredRecords.problem (records : StoredRecords) : Option String :=
  let problems :=
    (if records.conflicts = [] then [] else ["these were entered in the store meanwhile and kept: " ++
      ", ".intercalate records.conflicts ++ ". Deploy again to install the stored values."]) ++
    (if records.quarantined = [] then [] else ["these generated records were not stored as values: " ++
      "; ".intercalate records.quarantined])
  if problems = [] then none else some ("Deployed, but " ++ " Also, ".intercalate problems)

section

variable (libs : Libraries) (schema : Inventory.Schema) (s : Surroundings)

def planSet (identifiers : List String) : Program (BTreeSet String) := do
  let entries ← Client.read libs s SecretStore.list
  let publicInfo ← Client.read libs s SecretStore.listPublicInfo
  update fun c => { c with stalePublic := stalePublicInfo libs schema identifiers publicInfo }
  let _ ← Client.read libs s SecretStore.listQuarantine
  return setOf libs schema identifiers entries publicInfo

def quarantineValue (origin : Origin) (identifier reason : String) (content : QuarantinedContent)
    (fallback : String) : Program String := do
  let now ← question s.clock
  match ← attempt (Client.quarantine libs s
      ⟨identifier, origin.host, origin.deployment, now, reason, content⟩) with
  | .ok id => return identifier ++ " (QUARANTINED as " ++ id ++ ": " ++ reason ++
      "; adopt or discard it with \x60nix-secrets quarantine\x60)"
  | .error error => return identifier ++ " (NOT SAVED, quarantining failed: " ++ error ++ "; " ++ reason ++
      "; " ++ fallback ++ ")"

def recordContent (record : GeneratedRecord) : QuarantinedContent :=
  .generatedRecord record.formatVersion record.versionIdBase64 record.recipientIds
    record.ageCiphertextBase64 record.adopted

def quarantineRecord (origin : Origin) (identifier : String) (record : GeneratedRecord) (reason : String) :
    Program String :=
  quarantineValue libs s origin identifier reason (recordContent record)
    ("its ciphertext is " ++ record.ageCiphertextBase64)

def quarantinePublicKey (origin : Origin) (identifier publicKey reason : String) : Program String :=
  quarantineValue libs s origin identifier reason (.publicKey publicKey)
    ("the key is \x60" ++ publicKey ++ "\x60")

def setAside (origin : Origin) (item : String × GeneratedRecord) (records : StoredRecords) (reason : String) :
    Program StoredRecords := do
  let text ← quarantineRecord libs s origin item.1 item.2 reason
  return { records with quarantined := records.quarantined ++ [text] }

def storeGenerated (origin : Origin) (records : StoredRecords) (item : String × GeneratedRecord) :
    Program StoredRecords := do
  match ← attempt (check (recordEnvelope libs schema item.1 item.2)) with
  | .error error => setAside libs s origin item records error
  | .ok envelope =>
    match ← attempt (check (parsePath libs item.1)) with
    | .error error => setAside libs s origin item records (item.1 ++ ": " ++ error)
    | .ok path =>
      match ← attempt (Client.set libs s (.setIfVersion path envelope none)) with
      | .ok () => return { records with stored := records.stored ++ [item.1] }
      | .error error =>
        -- The operator's value wins; the host's copy is kept aside.
        if "version changed".toList <:+: error.toList then
          setAside libs s origin item { records with conflicts := records.conflicts ++ [item.1] }
            "a value was entered in the store while the target generated this one"
        else setAside libs s origin item records ("storing it failed: " ++ error)

def storeGeneratedAll (origin : Origin) (generated : BTreeMap String GeneratedRecord) :
    Program StoredRecords :=
  carry (storeGenerated libs schema s origin) {} generated.toList

def stageGeneratedPublicKey (path : SecretPath) (kind : GeneratedSecretType) (publicKey : String)
    (batch : HostMutationBatch) : Program HostMutationBatch := do
  let key ← check (Checked.orRefuse "target returned an invalid SSH public key" (libs.sshKey publicKey))
  check (Checked.refuseIf (key.algorithm ≠ "ssh-ed25519") "target returned a non-Ed25519 SSH public key")
  let openssh ← check (Checked.ofExcept key.openssh)
  let same (old : String) : Bool := (libs.sshKey old).any fun old => old.keyData = key.keyData
  match kind with
  | .localSshKey =>
    let previous ← Client.read libs s (SecretStore.generatedPublicKey path)
    if previous.any fun old => same old.publicKey then return batch
    else return { batch with mutations := batch.mutations ++
      [.generated path previous ⟨"local-generated-" ++ key.fingerprint, canonicalKey openssh⟩] }
  | .storageBoxSshKey =>
    let stored ← Client.read libs s (SecretStore.get path)
    let old ← check (Checked.orRefuse
      "Storage Box bootstrap secret disappeared before key registration" stored)
    if old.publicKey.any same then return batch
    else return { batch with mutations := batch.mutations ++
      [.attached path old.versionId old.publicKey (canonicalKey openssh)] }

/-- A batch, and the keys to register by the inventory they go to. -/
abbrev Staging := HostMutationBatch × BTreeMap String (List (String × String))

/-- The time stamp of a local key, and the key. -/
def returnedKey (value : String) : GeneratedSecretType → Checked String (Option String × String)
  | .localSshKey => do
    let dated ← parseDatedKey libs value
    return (some dated.1, dated.2)
  | .storageBoxSshKey => return (none, value)

def stageKey (sourceHost : String) (staging : Staging) (item : String × String) : Program Staging := do
  let source ← check (parsePath libs item.1)
  check (Checked.refuseIf (source.parts.head? ≠ some sourceHost) "generated key belongs to another host")
  match ← check ((schema.leaf source).mapRefusal (·.display libs.debug)) with
  | .generated _ task =>
    let (stamp, publicKey) ← check (returnedKey libs item.2 task.generatedSecret.secretType)
    let batch ← stageGeneratedPublicKey libs s source task.generatedSecret.secretType publicKey staging.1
    match task.generatedSecret.registerAt with
    | none => return (batch, staging.2)
    | some destination =>
      let stamp ← check (Checked.orRefuse "Storage Box task cannot register an authorized key" stamp)
      return (batch, staging.2.insert destination
        ((staging.2[destination]?).getD [] ++ [(sourceHost ++ "-" ++ stamp, publicKey)]))
  | _ => fail "generated key response did not match the schema"

def cryptoSecret (stored : Inventory.EncryptedSecret) : Crypto.EncryptedSecret :=
  ⟨stored.formatVersion.toNat, stored.versionId, stored.recipientIds, stored.ageCiphertext⟩

def storedEnvelope (encrypted : Crypto.EncryptedSecret) : Inventory.EncryptedSecret where
  formatVersion := UInt16.ofNat encrypted.formatVersion
  versionId := encrypted.versionId
  recipientIds := encrypted.recipientIds
  ageCiphertext := encrypted.ageCiphertext

/-- The values decrypted before the deployment, with their versions. -/
abbrev Prefetched := BTreeMap String (List UInt8 × List UInt8)

def inventoryBytes (prefetched : Prefetched) (identifier : String) (stored : Inventory.EncryptedSecret) :
    Program (List UInt8) :=
  match (prefetched[identifier]?).filter (·.1 = stored.versionId) with
  | some value => pure value.2
  | none => Program.answered fun n => s.decryptOne n identifier (cryptoSecret stored)

/-- The lines of an inventory as it is stored now. -/
def inventoryLines (prefetched : Prefetched) (identifier : String) :
    Option Inventory.EncryptedSecret → Program String
  | none => return ""
  | some stored => do
    let bytes ← inventoryBytes s prefetched identifier stored
    let text ← check (Checked.orRefuse "registered public keys are not UTF-8" (utf8Text bytes))
    return String.ofList text

def recipientsOf (leaf : Inventory.SecretLeaf) : List Crypto.Recipient :=
  (leaf.recipientIds.zip leaf.recipientPublicKeys).map fun item => ⟨item.1, item.2⟩

def stageInventory (sourceHost : String) (prefetched : Prefetched) (batch : HostMutationBatch)
    (item : String × List (String × String)) : Program HostMutationBatch := do
  let path ← check (parsePath libs item.1)
  match ← check ((schema.leaf path).mapRefusal (·.display libs.debug)) with
  | .stored _ leaf =>
    check (Checked.refuseIf (leaf.destination.contentType ≠ some "named-ssh-ed25519-public-keys")
      "public key registration destination lacks named-key validation")
    let current ← Client.read libs s (SecretStore.get path)
    let lines ← inventoryLines s prefetched item.1 current
    let updated := item.2.foldl (fun text key => mergeNamedKey libs text sourceHost key.1 key.2) lines
    if updated = lines then return batch
    else
      let encrypted ← Program.answered fun n => s.encrypt n item.1 (utf8Bytes updated.toList) (recipientsOf leaf)
      let mutation := HostMutation.inventory path (current.map (·.versionId))
        (namedKeyFingerprints libs lines) (storedEnvelope encrypted) (namedKeyFingerprints libs updated)
      check ({ batch with mutations := batch.mutations ++ [mutation] }.followup path)
  | _ => fail "public key registration destination must be a stored secret"

def hostNameChar (c : Char) : Bool := c.isAlphanum || c == '.' || c == '_' || c == '-'

/-- Stages the keys a host returned; nothing is written. -/
def stagePublicKeys (sourceHost : String) (keys : BTreeMap String String) (prefetched : Prefetched) :
    Program HostMutationBatch := do
  check (Checked.refuseIf (sourceHost = "" ∨ ¬ sourceHost.toList.all hostNameChar)
    "invalid source hostname for public key registration")
  let staging ← carry (stageKey libs schema s sourceHost) ({}, ∅) keys.toList
  carry (stageInventory libs schema s sourceHost prefetched) staging.1 staging.2.toList

/-- Whether what a mutation was staged over is still stored. -/
def unchanged : HostMutation → Program Bool
  | .generated path previous _ => do
    return decide ((← Client.read libs s (SecretStore.generatedPublicKey path)) = previous)
  | .attached path version previous _ => do
    return (← Client.read libs s (SecretStore.get path)).any fun old =>
      old.versionId = version && old.publicKey = previous
  | .inventory path previousVersion _ _ _ => do
    return decide ((← Client.read libs s (SecretStore.get path)).map (·.versionId) = previousVersion)
  | .identity _ sharedId previous _ _ _ => do
    return decide ((← Client.read libs s (SecretStore.getPublicInfo sharedId)) = previous)

def checkUnchanged (mutation : HostMutation) : Program Unit := do
  if ← unchanged libs s mutation then return ()
  else hindered none "host-provided values changed after review; request new approval"

/-- The conditional write of a mutation. -/
def HostMutation.op : HostMutation → StoreOp
  | .generated path previous proposed =>
    .setGeneratedPublicKeyIfVersion path proposed (previous.map (·.versionId))
  | .attached path version previous proposed => .setPublicKeyIfVersion path proposed version previous
  | .inventory path previousVersion _ proposed _ => .setIfVersion path proposed previousVersion
  | .identity path _ previous _ proposed _ =>
    .setPublicInfoIfVersion path proposed (previous.map (·.versionId))

/-- Whether the proposed value is read back. -/
def readBack : HostMutation → Program Bool
  | .generated path _ proposed => do
    return decide ((← Client.read libs s (SecretStore.generatedPublicKey path)) = some proposed)
  | .attached path version _ proposed => do
    return (← Client.read libs s (SecretStore.get path)).any fun old =>
      old.versionId = version && old.publicKey = some proposed
  | .inventory path _ _ proposed _ => do
    return (← Client.read libs s (SecretStore.get path)).any fun old =>
      old.versionId = proposed.versionId && old.ageCiphertext = proposed.ageCiphertext
  | .identity _ sharedId _ _ proposed _ => do
    return decide ((← Client.read libs s (SecretStore.getPublicInfo sharedId)) = some proposed)

def HostMutation.unread : HostMutation → String
  | .generated .. => "generated public key failed read-back verification"
  | .attached .. => "attached public key failed read-back verification"
  | .inventory .. => "registered public key failed read-back verification"
  | .identity .. => "host identity failed read-back verification"

/-- The identifiers whose value a mutation changes. -/
def HostMutation.changes : HostMutation → List String
  | .generated path .. | .attached path .. | .inventory path .. => [path.display]
  | .identity path _ _ _ _ consumers => consumers.toList ++ [path.display]

def applyMutation (mutation : HostMutation) : Program (List String) := do
  Client.set libs s mutation.op
  if ← readBack libs s mutation then return mutation.changes
  else hindered none mutation.unread

/-- Writes mutations up to the first that fails, with the identifiers that were changed. -/
def applyMutations : List String → List HostMutation → Program (List String × Except String Unit)
  | changed, [] => return (changed, .ok ())
  | changed, mutation :: rest => do
    match ← attempt (applyMutation libs s mutation) with
    | .ok more => applyMutations (changed ++ more) rest
    | .error error => return (changed, .error error)

def maxFollowupProcedures : Nat := 256

def submitHostFollowup (item : String × BTreeSet String) : Program Unit := do
  if item.2.isEmpty then return ()
  else
    let token ← Program.answered s.random
    let id := "pubkey-" ++ token
    update fun c => match c.active.bind (·.procedure) with
      | some step => { c with followupProcedures :=
          (if maxFollowupProcedures ≤ c.followupProcedures.size then ∅ else c.followupProcedures).insert id step }
      | none => c
    Client.submitApproval s ⟨id, item.1, item.2.toList, false⟩

def submitHostFollowups (followups : Followups) : Program Unit :=
  each (submitHostFollowup s) followups.toList

/-- The follow-ups of a batch of which these identifiers were changed. -/
def HostMutationBatch.followupsAfter (batch : HostMutationBatch) (changed : List String) : Followups :=
  batch.followups.toList.foldl (fun followups item =>
    followups.insert item.1 ((followups[item.1]?).getD ∅ ∪ item.2.filter (changed.contains ·)))
    batch.committedFollowups

def applyHostMutations (batch : HostMutationBatch) : Program Unit := do
  match ← attempt (each (checkUnchanged libs s) batch.mutations) with
  | .error error =>
    submitHostFollowups s batch.committedFollowups
    fail error
  | .ok () =>
    let (changed, result) ← applyMutations libs s [] batch.mutations
    submitHostFollowups s (batch.followupsAfter changed)
    check (Checked.ofExcept result)

end

end NixSecrets.Manager
