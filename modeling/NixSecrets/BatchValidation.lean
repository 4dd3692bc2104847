import NixSecrets.ReceiverApply
import NixSecrets.RustText
import NixSecrets.Traversal

namespace NixSecrets.Transport

inductive DeploymentError
  | json (message : String)
  | io (message : String)
  | invalid (message : String)
  | mismatch (message : String)
  | truncated (received expected : Nat)
  deriving DecidableEq, Repr

structure Destination where
  path : String
  category : String
  owner : String
  group : String
  mode : String
  consumerUnits : List String := []
  deriving DecidableEq, Repr

structure StorageBoxBootstrap where
  host : String
  port : UInt16
  user : String
  hostPublicKeys : List String
  knownHostsFile : Option String := none
  deriving DecidableEq, Repr

structure TargetSecret where
  identifier : String
  recipientIds : List String
  destination : Destination
  publicInfo : Option PublicInfoAttestation := none
  currentVersionId : Option String := none
  generator : Option String := none
  derived : Option String := none
  deriving DecidableEq, Repr

structure TargetTask where
  identifier : String
  taskType : String
  recipientIds : List String
  output : Destination
  bootstrap : Option StorageBoxBootstrap := none
  currentVersionId : Option String := none
  deriving DecidableEq, Repr

structure TargetState where
  protocolVersion : UInt16
  hostname : String
  secrets : List TargetSecret
  tasks : List TargetTask := []
  absent : List String := []
  unselected : List String := []
  deriving DecidableEq, Repr

/-- What the messages are read with: the base64 decoder, the text under `identifier` in a JSON
document, and how a text is quoted in a report. -/
structure Libraries where
  decodeBase64 : String → Option (List UInt8)
  jsonIdentifier : String → Option String
  debug : String → String

def generationProtocolVersion : UInt16 := 2

def sharedSourceProtocolVersion : UInt16 := 3

def notDeployedProtocolVersion : UInt16 := 4

def maxPasswordBytes : Nat := 64 * 1024

def localSshKey : String := "local-ssh-key"

def storageBoxSshKey : String := "storage-box-ssh-key"

def rejectIf (c : Prop) [Decidable c] (message : String) : Except DeploymentError Unit :=
  if c then .error (.invalid message) else .ok ()

def orReject {α : Type} (message : String) : Option α → Except DeploymentError α
  | some a => .ok a
  | none => .error (.invalid message)

def validVersion (value : String) : Bool := value ≠ "" && value.utf8ByteSize ≤ 256

/-- No text that is split at its dots has a dot left; the source asks all the same. -/
def badPart (part : List Char) : Bool := part = [] || part = ['.'] || part = ['.', '.']

def validateIdentifier (value : String) : Except DeploymentError Unit :=
  rejectIf (value = "" ∨ 4096 < value.utf8ByteSize ∨ (value.toList.splitOn '.').any badPart)
    "invalid secret identifier"

def uniqueFrom (duplicate : String) :
    BTreeSet String → List String → Except DeploymentError (BTreeSet String)
  | result, [] => .ok result
  | result, value :: rest => do
    validateIdentifier value
    rejectIf (value ∈ result) duplicate
    uniqueFrom duplicate (result.insert value) rest

def uniqueIdentifiers (values : List String) (duplicate : String) :
    Except DeploymentError (BTreeSet String) :=
  uniqueFrom duplicate ∅ values

def validateSupplied (requested supplied available : List String) : Except DeploymentError Unit := do
  let requested ← uniqueIdentifiers requested "duplicate requested identifier"
  let supplied : BTreeSet String := .ofList supplied compare
  let available : BTreeSet String := .ofList available compare
  rejectIf (supplied.size ≠ requested.size ∨ supplied.toList ≠ requested.toList)
    "entries do not match requested subset"
  rejectIf (∃ identifier ∈ requested.toList, identifier ∉ available)
    "requested identifier is absent from target schema"

section

variable (libs : Libraries)

def validateContribution (text : String) : Except DeploymentError Unit := do
  let contribution ← orReject "invalid client contribution encoding" (libs.decodeBase64 text)
  rejectIf (contribution.length ≠ 32) "client contribution must be exactly 32 bytes"

def validateShared (available : List TargetSecret) (item : GenerateEntry) (shared : SharedSource) :
    Except DeploymentError Unit := do
  validateIdentifier item.identifier
  rejectIf (∃ secret ∈ available, secret.identifier = item.identifier)
    "a shared source is a value of this target"
  rejectIf (shared.generator = "" ∨ shared.recipientIds = [] ∨
      shared.recipientIds.length ≠ shared.recipientPublicKeys.length) "invalid shared source"
  validateContribution libs item.clientContributionBase64

def validateOwn (supplied : BTreeSet String) (available : List TargetSecret) (item : GenerateEntry) :
    Except DeploymentError Unit := do
  rejectIf (item.identifier ∈ supplied) "a value is both supplied and generated"
  let target ← orReject "generated identifier is absent from target schema"
    (available.find? (·.identifier = item.identifier))
  rejectIf (target.generator = none ∨ target.publicInfo ≠ none) "target cannot generate this value"
  validateContribution libs item.clientContributionBase64

def validateGenerate (supplied : BTreeSet String) (available : List TargetSecret)
    (item : GenerateEntry) : Except DeploymentError Unit :=
  match item.shared with
  | some shared => validateShared libs available item shared
  | none => validateOwn libs supplied available item

def validateDerive (supplied generated : BTreeSet String) (available : List TargetSecret)
    (identifier : String) : Except DeploymentError Unit := do
  rejectIf (identifier ∈ supplied ∨ identifier ∈ generated)
    "a derived value is also supplied or generated"
  let source ← orReject "target declares no derivation for a derived value"
    (((available.find? (·.identifier = identifier)).bind (·.derived)).bind libs.jsonIdentifier)
  rejectIf (source ∉ generated) "a target-derived value needs its source generated in the same batch"

/-- The generated values that are the target's own. -/
def ownGenerated (batch : WireBatch) : List String :=
  (batch.generate.filter (·.shared = none)).map (·.identifier)

def suppliedIdentifiers (batch : WireBatch) : List String :=
  batch.entries.map (·.identifier) ++ ownGenerated batch ++ batch.derive

def validateEntries (batch : WireBatch) (available : List TargetSecret) :
    Except DeploymentError Unit := do
  let supplied ← uniqueIdentifiers (batch.entries.map (·.identifier)) "duplicate supplied identifier"
  rejectIf (batch.version < sharedSourceProtocolVersion ∧ ∃ item ∈ batch.generate, item.shared ≠ none)
    "shared sources need deployment protocol 3"
  batch.generate.forM (validateGenerate libs supplied available)
  let generated : BTreeSet String := .ofList (batch.generate.map (·.identifier)) compare
  batch.derive.forM (validateDerive libs supplied generated available)
  validateSupplied batch.requestedIdentifiers (suppliedIdentifiers batch) (available.map (·.identifier))
  rejectIf (∃ entry ∈ batch.entries, ¬ validVersion entry.versionId ∨ entry.contentsBase64 = "")
    "invalid deployment entry"

def isLocalKey (available : List TargetTask) (entry : TaskEntry) : Bool :=
  available.any fun task => task.identifier = entry.identifier && task.taskType = localSshKey

def validateTask (available : List TargetTask) (entry : TaskEntry) : Except DeploymentError Unit := do
  rejectIf (¬ validVersion entry.versionId) "invalid task version"
  let password ← orReject "invalid task password encoding" (libs.decodeBase64 entry.passwordBase64)
  rejectIf ((¬ isLocalKey available entry ∧ password = []) ∨
      (isLocalKey available entry ∧ password ≠ []) ∨ maxPasswordBytes < password.length)
    "invalid task password length"
  validateContribution libs entry.clientContributionBase64

def validateTasks (entries : List TaskEntry) (requested : List String) (available : List TargetTask) :
    Except DeploymentError Unit := do
  validateSupplied requested (entries.map (·.identifier)) (available.map (·.identifier))
  entries.forM (validateTask libs available)

def validateBatch (batch : WireBatch) (state : TargetState) : Except DeploymentError Unit := do
  rejectIf (state.protocolVersion < batch.version ∨ batch.version < legacyDeploymentProtocolVersion)
    "batch version is not supported by the target"
  rejectIf (batch.version = legacyDeploymentProtocolVersion ∧
      (batch.generate ≠ [] ∨ batch.derive ≠ [])) "deployment protocol 1 cannot generate values"
  validateEntries libs batch state.secrets
  validateTasks libs batch.tasks batch.requestedTasks state.tasks

end

theorem exists_unit_ok {ε : Type} {x : Except ε Unit} {p : Unit → Prop} :
    (∃ a, x = .ok a ∧ p a) ↔ x = .ok () ∧ p () :=
  ⟨fun ⟨_, h⟩ => h, fun h => ⟨(), h⟩⟩

@[simp] theorem rejectIf_ok {c : Prop} [Decidable c] {message : String} :
    rejectIf c message = .ok () ↔ ¬ c := by
  unfold rejectIf
  split
  next h => exact iff_of_false nofun (fun hc => hc h)
  next h => exact iff_of_true rfl h

@[simp] theorem orReject_ok {α : Type} {message : String} {x : Option α} {a : α} :
    orReject message x = .ok a ↔ x = some a := by
  cases x with
  | none => exact iff_of_false nofun nofun
  | some b => exact ⟨fun h => by rw [Except.ok.inj h], fun h => by rw [Option.some.inj h]; rfl⟩

/-- The identifiers are well formed, and none is listed twice. -/
structure Distinct (values : List String) : Prop where
  valid : ∀ value ∈ values, validateIdentifier value = .ok ()
  nodup : values.Nodup

theorem uniqueFrom_ok {duplicate : String} {values : List String} {result all : BTreeSet String} :
    uniqueFrom duplicate result values = .ok all ↔
      Distinct values ∧ (∀ value ∈ values, value ∉ result) ∧ ∀ k, k ∈ all ↔ k ∈ result ∨ k ∈ values := by
  induction values generalizing result with
  | nil =>
    have hdistinct : Distinct [] := ⟨by simp, List.nodup_nil⟩
    rw [uniqueFrom]
    constructor
    · intro h
      cases h
      exact ⟨hdistinct, by simp, by simp⟩
    · intro h
      have hsame : all = result := Std.ExtTreeSet.ext_mem fun k => by simpa using h.2.2 k
      rw [hsame]
  | cons value rest ih =>
    simp only [uniqueFrom, except_bind_ok, exists_unit_ok, rejectIf_ok, ih]
    constructor
    · rintro ⟨hvalid, hnew, hrest, hfresh, hall⟩
      have hhead : value ∉ rest := fun hmem => hfresh value hmem (by simp)
      refine ⟨⟨by simpa using ⟨hvalid, hrest.valid⟩, List.nodup_cons.mpr ⟨hhead, hrest.nodup⟩⟩, ?_, ?_⟩
      · intro k hk hin
        rcases List.mem_cons.mp hk with rfl | hk
        · exact hnew hin
        · exact hfresh k hk (by simp [hin])
      · intro k
        rw [hall, Std.ExtTreeSet.mem_insert, List.mem_cons, Std.LawfulEqCmp.compare_eq_iff_eq]
        tauto
    · rintro ⟨⟨hvalid, hnodup⟩, hfresh, hall⟩
      obtain ⟨hhead, hnodup⟩ := List.nodup_cons.mp hnodup
      have hrest : Distinct rest := ⟨fun v hv => hvalid v (List.mem_cons_of_mem value hv), hnodup⟩
      refine ⟨hvalid value List.mem_cons_self, hfresh value List.mem_cons_self, hrest, ?_, ?_⟩
      · intro k hk hin
        rw [Std.ExtTreeSet.mem_insert, Std.LawfulEqCmp.compare_eq_iff_eq] at hin
        rcases hin with rfl | hin
        · exact hhead hk
        · exact hfresh k (List.mem_cons_of_mem value hk) hin
      · intro k
        rw [hall, Std.ExtTreeSet.mem_insert, List.mem_cons, Std.LawfulEqCmp.compare_eq_iff_eq]
        tauto

theorem mem_ofList {values : List String} {k : String} :
    k ∈ (Std.ExtTreeSet.ofList values compare : BTreeSet String) ↔ k ∈ values := by
  rw [Std.ExtTreeSet.mem_ofList, List.contains_iff_mem]

theorem uniqueIdentifiers_ok {values : List String} {duplicate : String} {all : BTreeSet String} :
    uniqueIdentifiers values duplicate = .ok all ↔ Distinct values ∧ all = .ofList values compare := by
  rw [uniqueIdentifiers, uniqueFrom_ok]
  constructor
  · rintro ⟨hdistinct, _, hall⟩
    refine ⟨hdistinct, Std.ExtTreeSet.ext_mem fun k => ?_⟩
    rw [hall, mem_ofList]
    simp
  · rintro ⟨hdistinct, rfl⟩
    refine ⟨hdistinct, by simp, fun k => ?_⟩
    rw [mem_ofList]
    simp

theorem set_toList_eq_iff {s t : BTreeSet String} : s.toList = t.toList ↔ ∀ k, k ∈ s ↔ k ∈ t := by
  constructor
  · intro h k
    rw [← Std.ExtTreeSet.mem_toList, h, Std.ExtTreeSet.mem_toList]
  · intro h
    rw [Std.ExtTreeSet.ext_mem h]

/-- What is supplied is what is requested, as sets, and all of it is available. -/
structure Supplies (requested supplied available : List String) : Prop where
  distinct : Distinct requested
  same : ∀ k, k ∈ supplied ↔ k ∈ requested
  available : ∀ k ∈ requested, k ∈ available

theorem validateSupplied_ok {requested supplied available : List String} :
    validateSupplied requested supplied available = .ok () ↔ Supplies requested supplied available := by
  simp only [validateSupplied, except_bind_ok, exists_unit_ok, uniqueIdentifiers_ok, rejectIf_ok]
  constructor
  · rintro ⟨_, ⟨hdistinct, rfl⟩, hsame, havailable⟩
    rw [not_or, not_not, not_not, set_toList_eq_iff] at hsame
    refine ⟨hdistinct, fun k => ?_, fun k hk => ?_⟩
    · rw [← mem_ofList, hsame.2, mem_ofList]
    · by_contra hnot
      apply havailable
      refine ⟨k, ?_, ?_⟩
      · rw [Std.ExtTreeSet.mem_toList, mem_ofList]
        exact hk
      · rw [mem_ofList]
        exact hnot
  · rintro ⟨hdistinct, hsame, havailable⟩
    have hset : (Std.ExtTreeSet.ofList supplied compare : BTreeSet String) = .ofList requested compare := by
      apply Std.ExtTreeSet.ext_mem
      intro k
      rw [mem_ofList, mem_ofList, hsame]
    refine ⟨_, ⟨hdistinct, rfl⟩, ?_, ?_⟩
    · rw [hset]
      simp
    · rintro ⟨k, hk, hnot⟩
      rw [Std.ExtTreeSet.mem_toList, mem_ofList] at hk
      rw [mem_ofList] at hnot
      exact hnot (havailable k hk)

section

variable (libs : Libraries)

def Contributes (text : String) : Prop :=
  ∃ contribution, libs.decodeBase64 text = some contribution ∧ contribution.length = 32

theorem validateContribution_ok {text : String} :
    validateContribution libs text = .ok () ↔ Contributes libs text := by
  simp only [validateContribution, Contributes, except_bind_ok, orReject_ok, rejectIf_ok, not_not]

/-- A shared source is no value of the target; another generated value is one that it can make
and that the batch does not supply. -/
def Generates (supplied : List String) (available : List TargetSecret) (item : GenerateEntry) : Prop :=
  match item.shared with
  | some shared => validateIdentifier item.identifier = .ok () ∧
      (∀ secret ∈ available, secret.identifier ≠ item.identifier) ∧ shared.generator ≠ "" ∧
      shared.recipientIds ≠ [] ∧ shared.recipientIds.length = shared.recipientPublicKeys.length
  | none => item.identifier ∉ supplied ∧ ∃ target,
      available.find? (·.identifier = item.identifier) = some target ∧
        target.generator ≠ none ∧ target.publicInfo = none

theorem validateGenerate_ok {supplied : List String} {available : List TargetSecret}
    {item : GenerateEntry} :
    validateGenerate libs (.ofList supplied compare) available item = .ok () ↔
      Generates supplied available item ∧ Contributes libs item.clientContributionBase64 := by
  unfold validateGenerate Generates
  split
  next shared _ =>
    simp only [validateShared, except_bind_ok, exists_unit_ok, rejectIf_ok, validateContribution_ok,
      not_or, not_exists, not_and, not_not, and_assoc, ne_eq]
  next _ =>
    simp only [validateOwn, except_bind_ok, exists_unit_ok, rejectIf_ok, orReject_ok,
      validateContribution_ok, not_or, not_not, mem_ofList]
    constructor
    · rintro ⟨hnew, target, hfind, hable, hcontributes⟩
      exact ⟨⟨hnew, target, hfind, hable⟩, hcontributes⟩
    · rintro ⟨⟨hnew, target, hfind, hable⟩, hcontributes⟩
      exact ⟨hnew, target, hfind, hable, hcontributes⟩

/-- The target declares how the value is derived, and the batch generates its source. -/
def Derives (batch : WireBatch) (available : List TargetSecret) (identifier : String) : Prop :=
  identifier ∉ batch.entries.map (·.identifier) ∧ identifier ∉ batch.generate.map (·.identifier) ∧
  ∃ source ∈ batch.generate.map (·.identifier),
    ((available.find? (·.identifier = identifier)).bind (·.derived)).bind libs.jsonIdentifier =
      some source

theorem validateDerive_ok {batch : WireBatch} {available : List TargetSecret} {identifier : String} :
    validateDerive libs (.ofList (batch.entries.map (·.identifier)) compare)
        (.ofList (batch.generate.map (·.identifier)) compare) available identifier = .ok () ↔
      Derives libs batch available identifier := by
  simp only [validateDerive, Derives, except_bind_ok, exists_unit_ok, rejectIf_ok, orReject_ok, not_or,
    not_not, mem_ofList, and_assoc]
  constructor
  · rintro ⟨hentry, hgenerated, source, hderived, hsource⟩
    exact ⟨hentry, hgenerated, source, hsource, hderived⟩
  · rintro ⟨hentry, hgenerated, source, hsource, hderived⟩
    exact ⟨hentry, hgenerated, source, hderived, hsource⟩

def TaskAllowed (available : List TargetTask) (entry : TaskEntry) : Prop :=
  validVersion entry.versionId ∧ Contributes libs entry.clientContributionBase64 ∧
  ∃ password, libs.decodeBase64 entry.passwordBase64 = some password ∧
    (isLocalKey available entry ↔ password = []) ∧ password.length ≤ maxPasswordBytes

theorem validateTask_ok {available : List TargetTask} {entry : TaskEntry} :
    validateTask libs available entry = .ok () ↔ TaskAllowed libs available entry := by
  simp only [validateTask, TaskAllowed, except_bind_ok, exists_unit_ok, rejectIf_ok, orReject_ok,
    validateContribution_ok, not_or, not_and, not_not, Nat.not_lt]
  constructor
  · rintro ⟨hversion, password, hpassword, ⟨hempty, hlocal, hlength⟩, hcontributes⟩
    refine ⟨hversion, hcontributes, password, hpassword, ⟨hlocal, fun hnil => ?_⟩, hlength⟩
    by_contra hnot
    exact hempty hnot hnil
  · rintro ⟨hversion, hcontributes, password, hpassword, hlocal, hlength⟩
    exact ⟨hversion, password, hpassword, ⟨fun hnot hnil => hnot (hlocal.mpr hnil), hlocal.mp, hlength⟩,
      hcontributes⟩

/-- What the target asks of a batch. -/
structure BatchAllowed (batch : WireBatch) (state : TargetState) : Prop where
  notNewer : batch.version ≤ state.protocolVersion
  notOlder : legacyDeploymentProtocolVersion ≤ batch.version
  legacy : batch.version = legacyDeploymentProtocolVersion → batch.generate = [] ∧ batch.derive = []
  entries : Distinct (batch.entries.map (·.identifier))
  ownSources : batch.version < sharedSourceProtocolVersion → ∀ item ∈ batch.generate, item.shared = none
  generate : ∀ item ∈ batch.generate,
    Generates (batch.entries.map (·.identifier)) state.secrets item ∧
      Contributes libs item.clientContributionBase64
  derive : ∀ identifier ∈ batch.derive, Derives libs batch state.secrets identifier
  values : Supplies batch.requestedIdentifiers (suppliedIdentifiers batch)
    (state.secrets.map (·.identifier))
  contents : ∀ entry ∈ batch.entries, validVersion entry.versionId ∧ entry.contentsBase64 ≠ ""
  tasks : Supplies batch.requestedTasks (batch.tasks.map (·.identifier)) (state.tasks.map (·.identifier))
  taskEntries : ∀ entry ∈ batch.tasks, TaskAllowed libs state.tasks entry

theorem validateBatch_ok {batch : WireBatch} {state : TargetState} :
    validateBatch libs batch state = .ok () ↔ BatchAllowed libs batch state := by
  simp only [validateBatch, except_bind_ok, exists_unit_ok, rejectIf_ok]
  simp only [validateEntries, validateTasks, except_bind_ok, exists_unit_ok, rejectIf_ok,
    uniqueIdentifiers_ok, forM_ok_iff, validateSupplied_ok, validateTask_ok, not_or, not_and, not_not,
    not_exists, ne_eq, UInt16.not_lt]
  constructor
  · rintro ⟨⟨hnewer, holder⟩, hlegacy, ⟨_, ⟨hentries, rfl⟩, hown, hgenerate, hderive, hvalues, hcontents⟩,
      htasks, htaskEntries⟩
    exact ⟨hnewer, holder, hlegacy, hentries, hown,
      fun item hitem => (validateGenerate_ok libs).mp (hgenerate item hitem),
      fun k hk => (validateDerive_ok libs).mp (hderive k hk), hvalues, hcontents, htasks, htaskEntries⟩
  · intro h
    exact ⟨⟨h.notNewer, h.notOlder⟩, h.legacy, ⟨_, ⟨h.entries, rfl⟩, h.ownSources,
      fun item hitem => (validateGenerate_ok libs).mpr (h.generate item hitem),
      fun k hk => (validateDerive_ok libs).mpr (h.derive k hk), h.values, h.contents⟩,
      h.tasks, h.taskEntries⟩

end

end NixSecrets.Transport
