import NixSecrets.ControllerStaging

namespace NixSecrets.Manager

open Inventory Program

section

variable (libs : Libraries) (schema : Inventory.Schema) (s : Surroundings)

def activeApproval : Program ActiveApproval := do
  check (Checked.orRefuse "no claimed approval request" (← controller).active)

def details (request : ApprovalRequest) (state : Option Transport.TargetState) (set : BTreeSet String) :
    Program Tui.ApprovalRequest := do
  check (approvalDetails libs schema (← controller) request state set)

/-- The dialog that shows a batch and asks for its token. -/
def hostMutationReview (pending : PendingHostMutations) : Program Tui.ApprovalRequest := do
  let active ← activeApproval
  let set ← planSet libs schema s active.request.secrets
  let review ← details libs schema active.request none set
  return { review with
    hostMutationsBeforeDeploy := pending.beforeDeploy
    hostMutations := pending.batch.reviews libs
    hostMutationToken := some pending.token }

def deploymentSummary (target : String) (generated skipped : List String) (problem : Option String) : String :=
  (if problem.isSome then "deployment of " ++ target ++ " incomplete" else "deployed " ++ target) ++
  (if generated = [] then "" else "; generated and stored: " ++ ", ".intercalate generated) ++
  (if skipped = [] then "" else "; not deployed yet, " ++ target ++ " waits for: " ++ ", ".intercalate skipped) ++
  (problem.map ("; " ++ ·)).getD ""

def completeHostDeployment (generated skipped : List String) : Program Unit := do
  let active ← activeApproval
  update fun c => { c with active := none, identityPublication := none }
  Client.resolve s active.request.id active.leaseId true
    (some (deploymentSummary active.request.target generated skipped none))
  update fun c => { c with lastGenerated := generated, lastSkipped := skipped }

/-- The leaf where the requested host publishes its identity, if it is requested. -/
def producerIdentityInScope (request : ApprovalRequest) : Option String := do
  let host ← schema.lookup request.target
  let identifier ← host.metadata.deployment.publishHostIdentityTo
  if identifier ∈ request.secrets then some identifier else none

def deploymentDetailsAfterIdentity : Program Tui.ApprovalRequest := do
  let active ← activeApproval
  let state ← check (Checked.orRefuse "the authenticated deployment connection is gone" active.prepared)
  let set ← planSet libs schema s active.request.secrets
  details libs schema active.request (some state) set

def publicSpec (path : SecretPath) : Checked String (Option Inventory.SecretLeaf) := do
  match ← (schema.leaf path).mapRefusal (·.display libs.debug) with
  | .stored _ leaf => return if leaf.kind = .publicInfo then some leaf else none
  | _ => return none

/-- The leaf is a local key that is registered with another host. -/
def isReporter : Checked SchemaError LeafSpec → Bool
  | .ok (.generated _ task) =>
    task.generatedSecret.secretType = .localSshKey && task.generatedSecret.registerAt.isSome
  | _ => false

def anyReporter : List String → Program Bool
  | [] => return false
  | identifier :: rest => do
    let path ← check (parsePath libs identifier)
    if isReporter (schema.leaf path) then
      if (← Client.read libs s (SecretStore.generatedPublicKey path)).isSome then return true
      else anyReporter rest
    else anyReporter rest

def hasReporterMetadata (host : String) : Program Bool := do
  let identifiers ← check ((schema.deployableIdentifiers host).mapRefusal (·.display libs.debug))
  anyReporter libs schema s identifiers

/-- Another deployed reporter that uses the shared value needs a deployment of its own. -/
def identityConsumer (source sharedId : String) (found : BTreeSet String × HostMutationBatch)
    (leaf : LeafSpec) : Program (BTreeSet String × HostMutationBatch) := do
  match storedLeaf libs schema leaf.path.display, leaf.path.parts.head? with
  | some spec, some consumer =>
    if spec.sharedPublicId = some sharedId ∧ consumer ≠ source then
      if ← hasReporterMetadata libs schema s consumer then
        let batch ← check (found.2.followup leaf.path)
        return (found.1.insert leaf.path.display, batch)
      else return found
    else return found
  | _, _ => return found

/-- Why the stored identity is invalid, if it is; nothing if it has the same keys. -/
def previousProblem (value : String) (leaf : Inventory.SecretLeaf) (port : UInt16) :
    Option PublicInfoRecord → Checked String (Option (Option String))
  | none => return some none
  | some previous =>
    match validateSshKnownHosts libs.toLibraries leaf.sshHosts port previous.value with
    | .ok () => do
      let old ← identityKeys libs previous.value leaf port
      let new ← identityKeys libs value leaf port
      if old ⊆ new ∧ new ⊆ old then return none else return some none
    | .error (.refused error) => return some (some error)
    | .error .panicked => .error .panicked

/-- Stages the verified identity of a host for the leaf where it publishes it. -/
def stageHostIdentity (source : String) (identity : HostKey.HostIdentity) : Program HostMutationBatch := do
  let host ← check (Checked.orRefuse "identity producer is unknown" (schema.lookup source))
  match host.metadata.deployment.publishHostIdentityTo with
  | none => return {}
  | some identifier =>
    check (Checked.refuseIf (identity.host ≠ host.metadata.deployment.host ∨
      identity.port ≠ host.metadata.deployment.port.toNat ∨ identity.keys = [])
      "host identity was not verified for this deployment endpoint")
    let path ← check (parsePath libs identifier)
    let spec ← check (publicSpec libs schema path)
    let leaf ← check (Checked.orRefuse "host identity destination is not public info" spec)
    let sharedId ← check (Checked.orRefuse "host identity destination has no shared ID" leaf.sharedPublicId)
    let value ← check (renderIdentity libs identity leaf)
    let port ← check (Checked.orRefuse "host identity destination has no SSH port" leaf.expectedSshPort)
    let previous ← Client.read libs s (SecretStore.getPublicInfo sharedId)
    match ← check (previousProblem libs value leaf port previous) with
    | none => return {}
    | some problem =>
      let (consumers, batch) ← carry (identityConsumer libs schema s source sharedId) (∅, {}) schema.leaves
      return { batch with mutations := batch.mutations ++
        [.identity path sharedId previous problem ⟨contentVersion libs value, value⟩ consumers] }

def proposedIdentity : HostMutation → Option PublicInfoRecord
  | .identity _ _ _ _ proposed _ => some proposed
  | _ => none

/-- The identity a batch proposes, or the one that is stored. -/
def publishedRecord (batch : HostMutationBatch) (sharedId : String) : Program PublicInfoRecord :=
  match batch.mutations.findSome? proposedIdentity with
  | some record => pure record
  | none => do
    let stored ← Client.read libs s (SecretStore.getPublicInfo sharedId)
    check (Checked.orRefuse "verified identity record disappeared" stored)

/-- Shows a batch and waits for its token. -/
def awaitReview (pending : PendingHostMutations) : Program Tui.ApprovalRequest := do
  let review ← hostMutationReview libs schema s pending
  update fun c => { c with hostMutations := some pending }
  return review

def prepareIdentityForActive : Program Tui.ApprovalRequest := do
  let active ← activeApproval
  let request := active.request
  match producerIdentityInScope schema request with
  | none => deploymentDetailsAfterIdentity libs schema s
  | some identifier =>
    check (Checked.refuseIf (active.prepared.isNone ∨ ¬ active.targetApproved)
      "host identity publication requires the original authenticated connection")
    mapRefusal ("host identity preparation lease was lost: " ++ ·)
      (Client.renewFor s request.id active.leaseId 900000)
    let batch ← stageHostIdentity libs schema s request.target active.identity
    let path ← check (parsePath libs identifier)
    let spec ← check (publicSpec libs schema path)
    let leaf ← check (Checked.orRefuse "producer identity destination is not public information" spec)
    let sharedId ← check (Checked.orRefuse "producer identity destination has no shared ID" leaf.sharedPublicId)
    let record ← publishedRecord libs s batch sharedId
    let publication : IdentityPublication :=
      ⟨path, sharedId, record, request.id, active.leaseId, batch.followups⟩
    let batch := { batch with followups := ∅ }
    if batch.reviews libs ≠ [] then
      let token ← Program.answered s.random
      awaitReview libs schema s ⟨true, some publication, batch, token, request.id, active.leaseId, [], []⟩
    else
      applyHostMutations libs s batch
      update fun c => { c with identityPublication := some publication }
      deploymentDetailsAfterIdentity libs schema s

def verifyIdentityPublication (selected : List String) : Program Unit := do
  match (← controller).identityPublication with
  | none => return ()
  | some publication =>
    let active ← activeApproval
    check (Checked.refuseIf
      (publication.requestId ≠ active.request.id ∨ publication.leaseId ≠ active.leaseId)
      "prepared identity belongs to another deployment request")
    if publication.path.display ∈ selected then
      let stored ← Client.read libs s (SecretStore.getPublicInfo publication.sharedId)
      check (Checked.refuseIf (stored ≠ some publication.record)
        "host identity changed after preparation; request a new deployment review")

/-- The default of a public-info leaf as a record. -/
def defaultRecord (leaf : Inventory.SecretLeaf) : Option PublicInfoRecord :=
  leaf.defaultValue.map fun value => ⟨contentVersion libs value, value⟩

/-- A concurrent write wins over the default. -/
def materializedResult (proposed : PublicInfoRecord) :
    Except String Unit → Option PublicInfoRecord → Checked String PublicInfoRecord
  | _, some record => .ok record
  | .error error, none => Checked.refuse error
  | .ok (), none => Checked.refuse
      ("public default save failed read-back verification for version " ++ proposed.versionId)

def materializePublicDefault (path : SecretPath) (leaf : Inventory.SecretLeaf) : Program PublicInfoRecord := do
  let id ← check (Checked.orRefuse "public info has no shared ID" leaf.sharedPublicId)
  match ← Client.read libs s (SecretStore.getPublicInfo id) with
  | some record => return record
  | none =>
    let record ← check (Checked.orRefuse "required public info is unset" (defaultRecord libs leaf))
    let port ← check (Checked.orRefuse "missing expected SSH port" leaf.expectedSshPort)
    check ((validateSshKnownHosts libs.toLibraries leaf.sshHosts port record.value).mapRefusal fun error =>
      "the defaultValue of " ++ path.display ++ ": " ++ error)
    let written ← attempt (Client.set libs s (.setPublicInfoIfVersion path record none))
    let stored ← Client.read libs s (SecretStore.getPublicInfo id)
    check (materializedResult record (written.mapError fun error => "materializing public-info default " ++
      path.display ++ " (shared ID " ++ id ++ "): " ++ error) stored)

/-- The leaves to record a default for, one for each shared value. -/
def selectedHostDefaults (hostDefaults : List String) :
    List String → List String → Checked String (List (SecretPath × Inventory.SecretLeaf))
  | _, [] => return []
  | seen, identifier :: rest =>
    if identifier ∈ hostDefaults then do
      let path ← parsePath libs identifier
      let leaf ← Checked.orRefuse "host default is not public information" (← publicSpec libs schema path)
      let id ← Checked.orRefuse "host default has no shared ID" leaf.sharedPublicId
      let others ← selectedHostDefaults hostDefaults (id :: seen) rest
      return if id ∈ seen then others else (path, leaf) :: others
    else selectedHostDefaults hostDefaults seen rest

def materializeHostDefaults (requested hostDefaults : List String) : Program Unit := do
  let selected ← check (selectedHostDefaults libs schema hostDefaults [] requested)
  each (fun item => do
    if (defaultRecord libs item.2).isSome then
      let _ ← materializePublicDefault libs s item.1 item.2) selected

def activeMismatches (active : ActiveApproval) : Checked String (List (String × MissingKind × String)) :=
  match active.prepared with
  | some state => targetMismatches libs schema state active.expected
  | none => pure []

/-- The plan of an approved request, without what the host's activation disagrees with. -/
def deploymentPlan (c : Controller) (active : ActiveApproval) (set : BTreeSet String) :
    Checked String (UnsetPlan × List (String × MissingKind × String)) := do
  let plan ← planUnset libs schema active.request.secrets set c.stalePublic
  let mismatches ← activeMismatches libs schema active
  let plan := plan.excludeMismatches mismatches
  match plan.refusalFor true with
  | some refusal => Checked.refuse refusal
  | none => return (plan, mismatches)

/-- What an approved deployment sends. -/
structure Selection where
  identifiers : List String
  plan : UnsetPlan
  leftOut : List String

/-- The identifiers a plan deploys. -/
def plannedIdentifiers (active : ActiveApproval) (plan : UnsetPlan) : List String :=
  active.request.secrets.filter fun identifier =>
    !plan.skippable.contains identifier && !plan.hostDefault.contains identifier

/-- The identifiers the connection was opened for and the host's activation agrees with. -/
def openedIdentifiers (active : ActiveApproval) (mismatches : List (String × MissingKind × String)) :
    List String :=
  (Transport.expectedIdentifiers active.expected).filter fun identifier =>
    !mismatches.any (·.1 = identifier)

/-- Leaves out what the operator unchecked, and the derived values that wait for it. -/
def leaveOut (unchecked identifiers : List String) (plan : UnsetPlan) : Selection :=
  let unwanted := (identifiers ++ plan.shared.map (·.1)).filter (unchecked.contains ·)
  let plan := { plan with
    generate := plan.generate.filter fun item => !unchecked.contains item.1
    shared := plan.shared.filter fun item => !unchecked.contains item.1 }
  let leftOut := plan.derivedOnTarget.foldl (fun leftOut item =>
    if !plan.generates item.2 && !leftOut.contains item.1 then leftOut ++ [item.1] else leftOut) unwanted
  ⟨identifiers.filter (!leftOut.contains ·),
    { plan with derivedOnTarget := plan.derivedOnTarget.filter fun item => !leftOut.contains item.1 }, leftOut⟩

/-- The checks between the operator's choice and the batch. -/
def selectRows (active : ActiveApproval) (plan : UnsetPlan)
    (mismatches : List (String × MissingKind × String)) : Checked String Selection := do
  let planned := plannedIdentifiers active plan
  let opened := openedIdentifiers active mismatches
  let difference := HostKey.sortedSet (opened.filter (· ∉ planned) ++ planned.filter (· ∉ opened))
  Checked.refuseIf (difference ≠ []) ("values changed in the store since the target was read (" ++
    ", ".intercalate difference ++ "); request the deployment again")
  let state ← Checked.orRefuse "the connection to the target is gone; request the deployment again"
    active.prepared
  let selection := leaveOut active.unchecked planned plan
  Checked.refuseIf (selection.identifiers = [] ∧ selection.plan.shared = [])
    "every value was unchecked; nothing was sent"
  Checked.refuseIf (selection.leftOut ≠ [] ∧ state.protocolVersion < Transport.notDeployedProtocolVersion)
    (active.request.target ++ " runs a receiver older than deployment protocol 4, which cannot leave out " ++
      "values after reading its state; check every row or update the host first. Nothing was sent.")
  Checked.refuseIf (selection.plan.shared ≠ [] ∧ state.protocolVersion < Transport.sharedSourceProtocolVersion)
    (active.request.target ++ " runs a receiver older than deployment protocol 3 and cannot generate " ++
      ", ".intercalate (selection.plan.shared.map (·.1)) ++ "; update it first. Nothing was sent.")
  return selection

/-- The source of another host that the target generates. -/
def sharedSource (identifier : String) : Checked String SharedSource := do
  match ← leafOf libs schema identifier with
  | .stored _ leaf =>
    let generator ← Checked.orRefuse (identifier ++ " cannot be generated on another host")
      (sharedGenerator libs schema identifier)
    return ⟨libs.generatorText generator, leaf.recipientIds, leaf.recipientPublicKeys⟩
  | _ => Checked.refuse (identifier ++ " is not a stored value")

def freshContribution : Program String :=
  mapRefusal ("OS randomness failed: " ++ ·) (Program.answered s.contribution)

def generateEntries (plan : UnsetPlan) : Program (List GenerateEntry) := do
  let own ← collect (fun item => do return ⟨item.1, ← freshContribution s, none⟩) plan.generate
  let shared ← collect (fun item => do
    let source ← check (sharedSource libs schema item.1)
    return ⟨item.1, ← freshContribution s, some source⟩) plan.shared
  return own ++ shared

/-- The inventories that the local keys of a deployment are registered in, where they are stored. -/
def inventoriesOf (identifiers : List String) (entries : BTreeMap String Inventory.EncryptedSecret) :
    List String :=
  HostKey.sortedSet ((identifiers.filterMap fun identifier => match leafOf libs schema identifier with
    | .ok (.generated _ task) => task.generatedSecret.registerAt
    | _ => none).filter (· ∈ entries))

/-- The stored value that is decrypted for an identifier. -/
def decryptedFor (selection : Selection) (entries : BTreeMap String Inventory.EncryptedSecret)
    (identifier : String) : Option String :=
  if selection.plan.generate.any (·.1 = identifier) || selection.plan.derivedOnTarget.any (·.1 = identifier) then
    none
  else
    match selection.plan.derived.lookup identifier with
    | some source => some source
    | none => if identifier ∈ entries then some identifier else none

/-- Decrypts, in one batch, what a deployment sends or derives from. -/
def decryptForDeployment (selection : Selection) (wanted : List String)
    (entries : BTreeMap String Inventory.EncryptedSecret) : Program (BTreeMap String (List UInt8)) := do
  let wanted := HostKey.sortedSet (wanted.filterMap (decryptedFor selection entries))
  let records ← collect (fun identifier => do
    let stored ← check (Checked.orPanic entries[identifier]?)
    return (identifier, cryptoSecret stored)) wanted
  if records = [] then return ∅
  else
    let values ← Program.answered fun n => s.decrypt n records
    return Std.ExtTreeMap.ofList (wanted.zip values) compare

def derivedEntry (identifier source : String) (entries : BTreeMap String Inventory.EncryptedSecret)
    (plaintexts : BTreeMap String (List UInt8)) : Checked String SecretDeployment := do
  match ← leafOf libs schema identifier with
  | .stored _ leaf =>
    let derived ← Checked.orRefuse (identifier ++ " is not derived") leaf.derivedFrom
    let stored ← Checked.orRefuse (identifier ++ ": its source " ++ source ++ " became unset") entries[source]?
    let value ← Checked.orRefuse (identifier ++ ": its source " ++ source ++ " was not decrypted")
      plaintexts[source]?
    let framed ← Checked.ofExcept ((derived.frame libs.readToml value).mapError fun error =>
      identifier ++ " cannot be derived: " ++ error)
    return ⟨identifier, derived.version libs.sha256 stored.versionId, Generation.encodeBase64 framed⟩
  | _ => Checked.refuse (identifier ++ " is not a stored value")

/-- The identity that was just published, or the shared value. -/
def publicRecord (path : SecretPath) (leaf : Inventory.SecretLeaf) : Program PublicInfoRecord := do
  match (← controller).identityPublication.filter (·.path = path) with
  | some publication => return publication.record
  | none => materializePublicDefault libs s path leaf

/-- The entry of a public-info leaf. -/
def publicEntry (identifier : String) (path : SecretPath) (leaf : Inventory.SecretLeaf) :
    Program SecretDeployment := do
  let id ← check (Checked.orRefuse "public info has no shared ID" leaf.sharedPublicId)
  let record ← publicRecord libs s path leaf
  let port ← check (Checked.orRefuse "missing expected SSH port" leaf.expectedSshPort)
  check ((validateSshKnownHosts libs.toLibraries leaf.sshHosts port record.value).mapRefusal fun error =>
    "public information " ++ identifier ++ " (shared ID " ++ id ++ "): " ++ error)
  return ⟨identifier, record.versionId, Generation.encodeBase64 (utf8Bytes record.value.toList)⟩

def storedValue (identifier : String) (entries : BTreeMap String Inventory.EncryptedSecret)
    (plaintexts : BTreeMap String (List UInt8)) : Checked String (String × String) := do
  let stored ← Checked.orRefuse ("required secret became unset: " ++ identifier) entries[identifier]?
  let value ← Checked.orRefuse (identifier ++ " was not decrypted") plaintexts[identifier]?
  return (Generation.encodeBase64 stored.versionId, Generation.encodeBase64 value)

def buildLeaf (entries : BTreeMap String Inventory.EncryptedSecret) (plaintexts : BTreeMap String (List UInt8))
    (items : Transport.BatchItems) (identifier : String) : Program Transport.BatchItems := do
  let path ← check (parsePath libs identifier)
  match ← check ((schema.leaf path).mapRefusal (·.display libs.debug)) with
  | .stored _ leaf =>
    if leaf.kind = .publicInfo then
      let entry ← publicEntry libs s identifier path leaf
      return { items with entries := items.entries ++ [entry] }
    else
      let value ← check (storedValue identifier entries plaintexts)
      return { items with entries := items.entries ++ [⟨identifier, value.1, value.2⟩] }
  | .generated _ task =>
    if task.generatedSecret.secretType = .localSshKey then
      let contribution ← freshContribution s
      return { items with tasks := items.tasks ++ [⟨identifier, "local-generated-v1", "", contribution⟩] }
    else
      let value ← check (storedValue identifier entries plaintexts)
      let contribution ← freshContribution s
      return { items with tasks := items.tasks ++ [⟨identifier, value.1, value.2, contribution⟩] }
  | .operator _ _ => do
    let _ ← check (storedValue identifier entries plaintexts)
    fail (identifier ++ " is operator-only and is never deployed")

def buildItem (selection : Selection) (entries : BTreeMap String Inventory.EncryptedSecret)
    (plaintexts : BTreeMap String (List UInt8)) (items : Transport.BatchItems) (identifier : String) :
    Program Transport.BatchItems := do
  if selection.plan.generate.any (·.1 = identifier) || selection.plan.derivedOnTarget.any (·.1 = identifier) then
    return items
  else
    match selection.plan.derived.lookup identifier with
    | some source =>
      let entry ← check (derivedEntry libs schema identifier source entries plaintexts)
      return { items with entries := items.entries ++ [entry] }
    | none => buildLeaf libs schema s entries plaintexts items identifier

/-- What an applied deployment returned. -/
structure Returned where
  applied : AppliedOutput
  /-- Records that nobody requested. -/
  unrequested : BTreeMap String GeneratedRecord
  warnings : List String

def returnedOf (requested : List String) (output : AppliedOutput) : Returned where
  applied := { output with generatedRecords := output.generatedRecords.filter fun id _ => requested.contains id }
  unrequested := output.generatedRecords.filter fun id _ => !requested.contains id
  warnings := ((HostKey.sortedSet requested).filter (· ∉ output.generatedRecords)).map fun identifier =>
    identifier ++ " (the target returned no record for it; deploy again and the target adopts its installed value)"

/-- Sends the batch over the open connection. -/
def deploy (expected : Transport.ExpectedTarget) (state : Transport.TargetState)
    (items : Transport.BatchItems) : Program Returned := do
  let batch ← check (Checked.ofExcept
    ((Transport.deployWithGeneration libs.transport expected state items).mapError deploymentErrorText))
  match ← Program.answered fun n => s.send n batch with
  | .rejected message => fail ("the target rejected the deployment: " ++ message)
  | .applied output =>
    note (.returned output)
    return returnedOf (items.generate.map (·.identifier)) output

/-- Where the values a target returned went: stored records, texts about the others, and the
staged keys. -/
structure Kept where
  stored : List String
  warnings : List String
  batch : HostMutationBatch

/-- Stages the keys a target returned, or quarantines all of them. -/
def stageOrQuarantine (origin : Origin) (keys : BTreeMap String String) (prefetched : Prefetched) :
    Program (HostMutationBatch × List String) := do
  match ← attempt (stagePublicKeys libs schema s origin.host keys prefetched) with
  | .ok batch => return (batch, [])
  | .error error =>
    let texts ← collect (fun item => quarantinePublicKey libs s origin item.1 item.2
      ("registering the generated public key failed: " ++ error)) keys.toList
    return ({}, texts)

/-- Stores or quarantines the records a target returned, and stages its keys. -/
def keepReturned (origin : Origin) (allowed : List String) (prefetched : Prefetched) (returned : Returned) :
    Program Kept := do
  let unrequested ← collect (fun item => quarantineRecord libs s origin item.1 item.2
    "the target returned a generated record nobody requested") returned.unrequested.toList
  let records ← storeGeneratedAll libs schema s origin returned.applied.generatedRecords
  let keys := returned.applied.generatedPublicKeys
  let unexpected ← collect (fun item => quarantinePublicKey libs s origin item.1 item.2
    "the target returned a public key outside the approved tasks")
    (keys.toList.filter fun item => !allowed.contains item.1)
  let (batch, unregistered) ← stageOrQuarantine libs schema s origin
    (keys.filter fun id _ => allowed.contains id) prefetched
  return ⟨records.stored, returned.warnings ++ records.problem.toList ++ unrequested ++ unexpected ++ unregistered,
    batch⟩

def describeQuarantined (id : String) (value : QuarantinedValue) : String :=
  let kind := match value.content with
    | .generatedRecord .. => "generated record"
    | .publicKey _ => "public key"
  id ++ ": " ++ kind ++ " " ++ value.identifier ++ " from " ++ value.sourceHost ++ " (deployment " ++
    value.deploymentId ++ ", at " ++ toString value.quarantinedAt ++ "): " ++ value.reason

def quarantinedBy (origin : Origin) : Program (List String) := do
  match ← attempt (Client.read libs s SecretStore.listQuarantine) with
  | .ok entries => return (entries.filter (·.2.deploymentId = origin.deployment)).map fun item =>
      describeQuarantined item.1 item.2
  | .error error => return ["listing the quarantine failed: " ++ error]

/-- The values that were not deployed, with why, and what else the operator must know. -/
def skippedTexts (plan : UnsetPlan) (notDeployed : BTreeMap String String) (warnings : List String) :
    List String :=
  let missing := plan.missing ++ notDeployed.toList.map fun item => (item.1, "not deployed: " ++ item.2)
  ((plan.skippable ++ notDeployed.keys).map fun identifier =>
    identifier ++ " (" ++ ((missing.lookup identifier).getD "its shared source needs a newer target") ++ ")") ++
    warnings

def ActiveApproval.origin (active : ActiveApproval) : Origin := ⟨active.request.target, active.request.id⟩

/-- The follow-ups of an identity that the deployment installed are committed. -/
def committedBatch (publication : Option IdentityPublication) (selected : List String)
    (notDeployed : BTreeMap String String) (batch : HostMutationBatch) : HostMutationBatch :=
  match publication with
  | some publication =>
    if publication.wasSent selected notDeployed then
      { batch with committedFollowups := publication.followups }
    else batch
  | none => batch

def summaryOf (active : ActiveApproval) (selection : Selection) (items : Transport.BatchItems)
    (applied : AppliedOutput) (skipped quarantined : List String) : DeploySummary where
  target := active.request.target
  sent := items.entries.length + items.derive.length + items.tasks.length - applied.notDeployed.size
  generated := applied.generatedRecords.size
  leftOut := selection.leftOut
  missing := skipped
  quarantined := quarantined

/-- Staged keys that replace something are shown; others are stored, which ends the request. -/
def settleBatch (active : ActiveApproval) (batch : HostMutationBatch) (stored skipped : List String) :
    Program (Option Tui.ApprovalRequest) := do
  if batch.reviews libs ≠ [] then
    let token ← Program.answered s.random
    let review ← awaitReview libs schema s
      ⟨false, none, batch, token, active.request.id, active.leaseId, stored, skipped⟩
    return some review
  else
    mapRefusal ("approval lease was lost after deployment: " ++ ·)
      (Client.renewFor s active.request.id active.leaseId 900000)
    applyHostMutations libs s batch
    completeHostDeployment s stored skipped
    return none

/-- What follows the target's answer: the returned values are kept, the staged keys settled. -/
def finishDeployment (active : ActiveApproval) (selection : Selection) (items : Transport.BatchItems)
    (prefetched : Prefetched) (returned : Returned) : Program (Option Tui.ApprovalRequest) := do
  let kept ← keepReturned libs schema s active.origin (items.tasks.map (·.identifier)) prefetched returned
  note (.kept kept.warnings)
  let publication := (← controller).identityPublication
  update fun c => { c with identityPublication := none }
  let quarantined ← quarantinedBy libs s active.origin
  let skipped := skippedTexts selection.plan returned.applied.notDeployed kept.warnings
  update fun c => { c with
    lastSummary := some (summaryOf active selection items returned.applied skipped quarantined) }
  settleBatch libs schema s active
    (committedBatch publication selection.identifiers returned.applied.notDeployed kept.batch) kept.stored skipped

/-- Everything up to the batch: plan, choice of the operator, decrypted values. -/
def prepareBatch (active : ActiveApproval) :
    Program (Selection × Transport.BatchItems × Prefetched) := do
  let set ← planSet libs schema s active.request.secrets
  let entries ← Client.read libs s SecretStore.list
  let entries := Std.ExtTreeMap.ofList entries compare
  let (plan, mismatches) ← check (deploymentPlan libs schema (← controller) active set)
  materializeHostDefaults libs schema s active.request.secrets plan.hostDefault
  let selection ← check (selectRows active plan mismatches)
  let generate ← generateEntries libs schema s selection.plan
  let inventories := inventoriesOf libs schema selection.identifiers entries
  let wanted := selection.identifiers ++ inventories.filter (· ∉ selection.identifiers)
  let plaintexts ← decryptForDeployment s selection wanted entries
  let prefetched := Std.ExtTreeMap.ofList (inventories.filterMap fun identifier => do
    let stored ← entries[identifier]?
    let value ← plaintexts[identifier]?
    return (identifier, stored.versionId, value)) compare
  let items ← carry (buildItem libs schema s selection entries plaintexts) {} selection.identifiers
  return (selection,
    { items with generate := generate, derive := selection.plan.derivedOnTarget.map (·.1) }, prefetched)

def deployActive : Program (Option Tui.ApprovalRequest) := do
  let active ← activeApproval
  let (selection, items, prefetched) ← prepareBatch libs schema s active
  verifyIdentityPublication libs s selection.identifiers
  update fun c => { c with active := c.active.map fun active => { active with prepared := none } }
  let state ← check (Checked.orPanic active.prepared)
  let returned ← deploy libs s active.expected state items
  finishDeployment libs schema s active selection items prefetched returned

/-- Opens the connection, which is answered with the target's state. -/
def prepareActive : Program Unit := do
  let active ← activeApproval
  let state ← Program.answered s.login
  let opened := Transport.openDeployment libs.transport active.expected state
  let _ ← check (Checked.ofExcept (opened.mapError fun error =>
    "Cannot deploy " ++ active.request.target ++ ": " ++ deploymentErrorText error))
  update fun c => { c with active := some { active with prepared := some state } }

/-- Approves the target: it is logged in to, and its identity is published. -/
def approveTarget (active : ActiveApproval) : Program (Option Tui.ApprovalRequest) := do
  if active.hostKeyKnown then pure () else Program.answered s.trust
  prepareActive libs s
  update fun c => { c with active := c.active.map fun active => { active with targetApproved := true } }
  let review ← prepareIdentityForActive libs schema s
  return some review

def dropClaim : Program Unit :=
  update fun c => { c with active := none, hostMutations := none, identityPublication := none }

/-- Rejects the claimed request on behalf of the operator. -/
def rejectActive : Program (Option Tui.ApprovalRequest) := do
  let active ← activeApproval
  update fun c => { c with active := none }
  Client.resolve s active.request.id active.leaseId false (some (match active.lastError with
    | some error => "rejected by the operator after: " ++ error
    | none => "rejected by the operator"))
  return none

/-- Approves the target, or what it is sent. -/
def acceptActive (active : ActiveApproval) : Program (Option Tui.ApprovalRequest) := do
  if active.targetApproved then
    match ← attempt (Client.renewFor s active.request.id active.leaseId 900000) with
    | .error error =>
      dropClaim
      fail ("approval lease was lost: " ++ error)
    | .ok () => deployActive libs schema s
  else approveTarget libs schema s active

def answerApproval (accepted : Bool) : Program (Option Tui.ApprovalRequest) := do
  if (← controller).hostMutations.isSome then
    fail "host-provided changes require their displayed review token"
  else if accepted then
    let active ← activeApproval
    acceptActive libs schema s active
  else rejectActive s

/-- Gives the claimed request up with the error that ended it. -/
def giveUp {α : Type} (error : String) : Program α := do
  match (← controller).active with
  | some active =>
    update fun c => { c with active := none }
    let _ ← attempt (Client.resolve s active.request.id active.leaseId false (some error))
    fail error
  | none => fail error

/-- Any failure is final: the request is resolved with its reason. -/
def approvalInner (accepted : Bool) : Program (Option Tui.ApprovalRequest) := do
  match ← attempt (answerApproval libs schema s accepted) with
  | .ok next => return next
  | .error error =>
    update fun c => { c with hostMutations := none, identityPublication := none }
    giveUp s error

/-- Ends a claim that no dialog was opened for. -/
def refuseClaim {α : Type} (request : ApprovalRequest) (leaseId : Nat) (error : String) : Program α := do
  Client.resolve s request.id leaseId false (some error)
  fail error

def finishClaimedSetup {α : Type} (request : ApprovalRequest) (leaseId : Nat) (setup : Program α) :
    Program α := do
  match ← attempt setup with
  | .ok value => return value
  | .error error =>
    update fun c => if c.active.any fun active => active.request.id = request.id then
      { c with active := none, hostMutations := none, identityPublication := none } else c
    mapRefusal (fun failed => error ++ "; could not resolve failed approval setup: " ++ failed)
      (Client.resolve s request.id leaseId false (some error))
    fail error

/-- Goes on with what a check gives, or ends the claim with its error. -/
def orRefuseClaim {α : Type} (request : ApprovalRequest) (leaseId : Nat) (m : Program α) : Program α := do
  match ← attempt m with
  | .ok value => return value
  | .error error => refuseClaim s request leaseId error

/-- The values that cannot be deployed are not selected, the host's own identity apart. -/
def selectedRequest (c : Controller) (request : ApprovalRequest) (set : BTreeSet String) : ApprovalRequest :=
  let left := match planUnset libs schema request.secrets set c.stalePublic with
    | .ok plan => plan.skippable ++ plan.hostDefault
    | .error _ => []
  { request with secrets := request.secrets.filter fun identifier =>
    !left.contains identifier || producerIdentityInScope schema request = some identifier }

def noIdentity : HostKey.HostIdentity := ⟨"", 0, [], []⟩

def openApproval (request : ApprovalRequest) (leaseId : Nat) (expected : Transport.ExpectedTarget)
    (identity : HostKey.HostIdentity) (targetApproved known : Bool) (procedure : Option ProcedureStep) :
    Program Unit :=
  update fun c => { c with active := some {
    request := request
    leaseId := leaseId
    expected := expected
    identity := identity
    targetApproved := targetApproved
    hostKeyKnown := known
    procedure := procedure } }

/-- How the dialog describes the host's key, known or not. -/
def describeHostKey (preflight : HostKey.HostKeyPreflight) : String :=
  (if preflight.status = .unknown then "UNKNOWN SSH HOST KEY" else "Known SSH host key") ++ " for " ++
    preflight.identity.host

def openClaimed (request : ApprovalRequest) (leaseId : Nat) (procedure : Option ProcedureStep) :
    Program (Option Tui.ApprovalRequest) := do
  let set ← finishClaimedSetup s request leaseId (planSet libs schema s request.secrets)
  let dialog ← orRefuseClaim s request leaseId (details libs schema request none set)
  if (schema.lookup request.target).isNone then
    refuseClaim s request leaseId "target host is absent from schema"
  else
    match Preflight.refusal libs schema request.target with
    | some error => refuseClaim s request leaseId error
    | none =>
      let selected := selectedRequest libs schema (← controller) request set
      let expected ← orRefuseClaim s request leaseId (check (expectedTarget libs schema selected))
      if selected.secrets = [] then
        openApproval request leaseId expected noIdentity true true procedure
        return some dialog
      else
        let preflight ← orRefuseClaim s request leaseId (Program.answered s.preflight)
        openApproval request leaseId expected preflight.identity false (preflight.status = .known) procedure
        return some { dialog with hostKey := some (describeHostKey preflight) }

/-- Takes what the listening worker has heard. -/
def drainBackground : Program Unit := do
  let heard ← question s.heard
  update fun c => if c.background then { c with approvalsReady := c.approvalsReady || heard } else c

def renewActive (active : ActiveApproval) : Program (Option Tui.ApprovalRequest) := do
  if ← question s.renewedRecently then return none
  else
    match ← attempt (Client.renew s active.request.id active.leaseId) with
    | .ok () => return none
    | .error error =>
      dropClaim
      fail ("approval lease was lost: " ++ error)

/-- The procedure of a claim, or of the follow-up it was submitted as. -/
def procedureOf (id : String) : Option ProcedureStep → Program (Option ProcedureStep)
  | some step => return some step
  | none => do
    let step := (← controller).followupProcedures[id]?
    update fun c => { c with followupProcedures := c.followupProcedures.erase id }
    return step

/-- Whether to ask for requests: without a worker always, else when it has heard of one. -/
def takeReady : Program Bool := do
  let c ← controller
  if c.background then
    update fun c => { c with approvalsReady := false }
    return c.approvalsReady
  else return true

def claimAndOpen : Program (Option Tui.ApprovalRequest) := do
  match ← Client.pollAndClaimStep s with
  | none => return none
  | some (request, leaseId, procedure) =>
    let procedure ← procedureOf request.id procedure
    openClaimed libs schema s request leaseId procedure

def claimNext : Program (Option Tui.ApprovalRequest) := do
  update fun c => { c with hostMutations := none, identityPublication := none }
  if ← takeReady then claimAndOpen libs schema s else return none

def pollApprovalInner : Program (Option Tui.ApprovalRequest) := do
  drainBackground s
  match (← controller).active with
  | some active => renewActive s active
  | none => claimNext libs schema s

/-- Keeps the keys of a rejected review aside. -/
def quarantineRejected (origin : Origin) : HostMutation → Program (Option String)
  | .generated path _ proposed => some <$> quarantinePublicKey libs s origin path.display proposed.publicKey
      "the operator rejected it replacing the stored public key"
  | .attached path _ _ proposed => some <$> quarantinePublicKey libs s origin path.display proposed
      "the operator rejected it replacing the stored public key"
  | .inventory .. | .identity .. => return none

def rejectedReason (beforeDeploy : Bool) (quarantined : List String) : String :=
  let reason := if beforeDeploy then
    "host-provided identity change rejected; no deployment sent and existing values kept"
    else "target deployment completed; host-provided changes rejected, existing values kept"
  if quarantined = [] then reason else reason ++ "; " ++ "; ".intercalate quarantined

def rejectHostMutations (active : ActiveApproval) (pending : PendingHostMutations) :
    Program (Option Tui.ApprovalRequest) := do
  let origin : Origin := ⟨active.request.target, active.request.id⟩
  let quarantined ← collect (quarantineRejected libs s origin) pending.batch.mutations
  submitHostFollowups s pending.batch.committedFollowups
  update fun c => { c with active := none, identityPublication := none }
  Client.resolve s active.request.id active.leaseId false
    (some (rejectedReason pending.beforeDeploy (quarantined.filterMap id)))
  return none

def acceptHostMutations (pending : PendingHostMutations) : Program (Option Tui.ApprovalRequest) := do
  match ← attempt (applyHostMutations libs s pending.batch) with
  | .error error => giveUp s error
  | .ok () =>
    if pending.beforeDeploy then
      update fun c => { c with identityPublication := pending.publication }
      match ← attempt (deploymentDetailsAfterIdentity libs schema s) with
      | .ok review => return some review
      | .error error =>
        update fun c => { c with identityPublication := none }
        giveUp s error
    else
      completeHostDeployment s pending.generated pending.skipped
      return none

/-- Decides a review while its lease is held. -/
def decideReview (accepted : Bool) (active : ActiveApproval) (pending : PendingHostMutations) :
    Program (Option Tui.ApprovalRequest) := do
  match ← attempt (Client.renewFor s active.request.id active.leaseId 900000) with
  | .error error =>
    dropClaim
    fail ("host-provided change approval lease was lost: " ++ error)
  | .ok () =>
    update fun c => { c with hostMutations := none }
    if accepted then acceptHostMutations libs schema s pending
    else rejectHostMutations libs s active pending

def approveHostMutationsInner (accepted : Bool) (token : String) : Program (Option Tui.ApprovalRequest) := do
  let active ← activeApproval
  let pending ← check (Checked.orRefuse "no host-provided changes awaiting approval"
    (← controller).hostMutations)
  check (Checked.refuseIf (pending.requestId ≠ active.request.id ∨ pending.leaseId ≠ active.leaseId)
    "host-provided change approval belongs to another request or lease")
  check (Checked.refuseIf (token ≠ pending.token)
    "host-provided change approval does not match the displayed batch")
  decideReview libs schema s accepted active pending

/-- Marks a dialog of the claimed request with its procedure. -/
def withProcedure (m : Program (Option Tui.ApprovalRequest)) : Program (Option Tui.ApprovalRequest) := do
  let next ← m
  let c ← controller
  return next.map fun dialog => { dialog with
    procedure := (c.active.filter (·.request.id = dialog.id)).bind (·.procedure) }

def reconnected (session : Nat) : Program Unit := fun w => (.ok (), { w with
  session := session
  controller := { w.controller with
    active := none
    hostMutations := none
    identityPublication := none
    approvalsReady := true } })

/-- What each operation of the operator's side does. -/
def perform : Operation → Program (Option Tui.ApprovalRequest)
  | .pollApproval => withProcedure (pollApprovalInner libs schema s)
  | .approval accepted => withProcedure (approvalInner libs schema s accepted)
  | .approvalWith accepted unchecked => do
    update fun c => { c with active := c.active.map fun active => { active with unchecked := unchecked } }
    withProcedure (approvalInner libs schema s accepted)
  | .approveHostMutations accepted token => withProcedure (approveHostMutationsInner libs schema s accepted token)
  | .reconnect session => do
    reconnected session
    return none

end

/-- A finished deployment is reported with what it did, which is then forgotten. -/
def approvalDone (accepted : Bool) (w : World) : Checked String (Option Tui.ApprovalRequest) → Report × World
  | .ok (some next) => (.showed next, w)
  | .ok none =>
    if accepted then
      (.deployed w.controller.lastGenerated w.controller.lastSkipped w.controller.lastSummary,
        { w with controller := { w.controller with lastGenerated := [], lastSkipped := [], lastSummary := none } })
    else (.finished, w)
  | .error (.refused error) => (.failed error, w)
  | .error .panicked => (.died, { w with alive := false })

/-- How an operation is reported. -/
def reported (beforeDeploy : Bool) (w : World) :
    Operation → Checked String (Option Tui.ApprovalRequest) → Report × World
  | .pollApproval, .ok none | .reconnect _, .ok none => (.nothing, w)
  | .approval accepted, result | .approvalWith accepted _, result => approvalDone accepted w result
  | .approveHostMutations false _, .ok none => (.declined beforeDeploy, w)
  | .approveHostMutations accepted _, result => approvalDone accepted w result
  | .pollApproval, result | .reconnect _, result => approvalDone false w result

/-- One operation, from the command to its report. -/
def step (libs : Libraries) (schema : Inventory.Schema) (s : Surroundings) (w : World) (operation : Operation) :
    World :=
  if w.alive then
    let ended := perform libs schema s operation { w with log := w.log ++ [.began operation] }
    let told := reported (w.controller.hostMutations.any (·.beforeDeploy)) ended.2 operation ended.1
    { told.2 with log := told.2.log ++ [.ended told.1] }
  else w

def run (libs : Libraries) (schema : Inventory.Schema) (s : Surroundings) (w : World)
    (operations : List Operation) : World :=
  operations.foldl (step libs schema s) w

end NixSecrets.Manager
