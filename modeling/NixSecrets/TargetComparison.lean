import Mathlib.Data.List.Infix
import NixSecrets.BatchValidation

namespace NixSecrets.Transport

structure LeftOut where
  identifier : String
  absent : Bool
  reason : String
  deriving DecidableEq, Repr

structure ExpectedSecret where
  identifier : String
  recipientIds : List String
  destination : Destination
  publicInfo : Option PublicInfoAttestation := none
  generator : Option String := none
  derived : Option String := none
  deriving DecidableEq, Repr

structure ExpectedTask where
  identifier : String
  taskType : String
  recipientIds : List String
  output : Destination
  bootstrap : Option StorageBoxBootstrap := none
  deriving DecidableEq, Repr

structure ExpectedTarget where
  hostname : String
  secrets : List ExpectedSecret
  tasks : List ExpectedTask
  deriving DecidableEq, Repr

structure DeploymentSelection where
  identifiers : List String
  taskIdentifiers : List String := []
  deriving DecidableEq, Repr

def validateSelection (selection : DeploymentSelection) : Except DeploymentError Unit := do
  rejectIf (selection.identifiers = [] ∧ selection.taskIdentifiers = []) "deployment subset is empty"
  let _ ← uniqueIdentifiers selection.identifiers "duplicate selected secret"
  let _ ← uniqueIdentifiers selection.taskIdentifiers "duplicate selected task"
  return ()

/-- Those of the available items that are wanted. -/
def select {τ : Type} (identifier : τ → String) (available : List τ) (identifiers : List String) : List τ :=
  available.filter (identifier · ∈ identifiers)

/-- The wanted identifiers for which no item was selected. -/
def missingFrom {τ : Type} (identifier : τ → String) (available : List τ) (identifiers : List String) :
    List String :=
  identifiers.filter fun wanted =>
    !(select identifier available identifiers).any fun item => identifier item = wanted

def selectState (state : TargetState) (selection : DeploymentSelection) :
    Except DeploymentError TargetState := do
  validateSelection selection
  return {
    protocolVersion := state.protocolVersion
    hostname := state.hostname
    secrets := select (·.identifier) state.secrets selection.identifiers
    tasks := select (·.identifier) state.tasks selection.taskIdentifiers
    absent := missingFrom (·.identifier) state.secrets selection.identifiers ++
      missingFrom (·.identifier) state.tasks selection.taskIdentifiers
    unselected := (state.secrets.map (·.identifier) ++ state.tasks.map (·.identifier)).filter
      (· ∉ selection.identifiers ++ selection.taskIdentifiers) }

def hostKeyAlgorithms : List String :=
  ["ssh-ed25519", "ssh-rsa", "ecdsa-sha2-nistp256", "ecdsa-sha2-nistp384", "ecdsa-sha2-nistp521"]

def validateOutput (identifier : String) (output : Destination) : Except DeploymentError Unit := do
  let service ← orReject "invalid task identifier" (identifier.toList.splitOn '.')[2]?
  let parts := output.path.toList.splitOn '/'
  rejectIf (¬ (parts.length = 6 ∧ parts.take 3 = ["".toList, "persistent".toList, "secrets".toList] ∧
        parts[3]? = some service ∧ parts[4]? = some output.category.toList ∧ parts[5]? ≠ some []) ∨
      output.category ∉ ["setup", "service", "backup"] ∨ output.mode ∉ ["0400", "0440"] ∨
      output.owner = "" ∨ output.group = "") "invalid generated task output"

section

variable (libs : Libraries)

def validHostKey (key : String) : Bool :=
  if '\n' ∈ key.toList ∨ '\r' ∈ key.toList then false
  else
    match (key.toList.splitOnP isWhitespace).filter (· ≠ []) with
    | algorithm :: encoded :: _ => String.ofList algorithm ∈ hostKeyAlgorithms &&
      (libs.decodeBase64 (String.ofList encoded)).any (· ≠ [])
    | _ => false

def validateBootstrap (bootstrap : StorageBoxBootstrap) : Except DeploymentError Unit := do
  rejectIf (bootstrap.port ≠ 23 ∨ bootstrap.host = "" ∨ bootstrap.user = "")
    "invalid storage box endpoint"
  rejectIf ((bootstrap.hostPublicKeys = [] ↔ bootstrap.knownHostsFile = none) ∨
      (∃ key ∈ bootstrap.hostPublicKeys, ¬ validHostKey libs key) ∨ ¬ bootstrap.hostPublicKeys.Nodup)
    "invalid pinned storage box host key"
  rejectIf (∃ path ∈ bootstrap.knownHostsFile,
      ¬ "/persistent/public-info/".toList <+: path.toList ∨ "..".toList <:+: path.toList)
    "invalid knownHostsFile path"

def validateTaskSpec (identifier kind : String) (output : Destination)
    (bootstrap : Option StorageBoxBootstrap) : Except DeploymentError Unit :=
  if kind = localSshKey then do
    rejectIf (bootstrap ≠ none ∨ output.category ≠ "service") "invalid local SSH key task"
    validateOutput identifier output
  else do
    rejectIf (kind ≠ storageBoxSshKey) "unsupported generated task type"
    let bootstrap ← orReject "missing storage box bootstrap" bootstrap
    validateBootstrap libs bootstrap
    validateOutput identifier output

end

section

variable {τ ν : Type} (item : τ → String × ν)

def mapUniqueFrom : BTreeMap String ν → List τ → Except DeploymentError (BTreeMap String ν)
  | result, [] => .ok result
  | result, value :: rest => do
    validateIdentifier (item value).1
    rejectIf ((item value).1 ∈ result) "duplicate target identifier"
    mapUniqueFrom (result.insert (item value).1 (item value).2) rest

def mapUnique (items : List τ) : Except DeploymentError (BTreeMap String ν) := mapUniqueFrom item ∅ items

end

/-- What both sides say of a value: its recipients, destination, attestation and derivation. -/
abbrev SecretSpec := List String × Destination × Option PublicInfoAttestation × Option String

abbrev TaskSpec := String × List String × Destination × Option StorageBoxBootstrap

def TargetSecret.spec (item : TargetSecret) : SecretSpec :=
  (item.recipientIds, item.destination, item.publicInfo, item.derived)

def ExpectedSecret.spec (item : ExpectedSecret) : SecretSpec :=
  (item.recipientIds, item.destination, item.publicInfo, item.derived)

def TargetTask.spec (item : TargetTask) : TaskSpec :=
  (item.taskType, item.recipientIds, item.output, item.bootstrap)

def ExpectedTask.spec (item : ExpectedTask) : TaskSpec :=
  (item.taskType, item.recipientIds, item.output, item.bootstrap)

def mapTargetSecrets (items : List TargetSecret) : Except DeploymentError (BTreeMap String SecretSpec) :=
  mapUnique (fun item => (item.identifier, item.spec)) items

def mapExpectedSecrets (items : List ExpectedSecret) :
    Except DeploymentError (BTreeMap String SecretSpec) :=
  mapUnique (fun item => (item.identifier, item.spec)) items

section

variable (libs : Libraries)

def mapTargetTasks (items : List TargetTask) : Except DeploymentError (BTreeMap String TaskSpec) := do
  items.forM fun item => validateTaskSpec libs item.identifier item.taskType item.output item.bootstrap
  mapUnique (fun item => (item.identifier, item.spec)) items

def mapExpectedTasks (items : List ExpectedTask) : Except DeploymentError (BTreeMap String TaskSpec) := do
  items.forM fun item => validateTaskSpec libs item.identifier item.taskType item.output item.bootstrap
  mapUnique (fun item => (item.identifier, item.spec)) items

def validateServerState (state : TargetState) : Except DeploymentError Unit := do
  rejectIf (state.protocolVersion ≠ deploymentProtocolVersion ∨ state.hostname = "") "invalid target state"
  let _ ← mapTargetSecrets state.secrets
  let _ ← mapTargetTasks libs state.tasks
  return ()

def debugList (values : List String) : String := "[" ++ ", ".intercalate (values.map libs.debug) ++ "]"

def debugOption {α : Type} (debug : α → String) : Option α → String
  | none => "None"
  | some a => "Some(" ++ debug a ++ ")"

def debugStruct (name : String) (fields : List (String × String)) : String :=
  name ++ " \x7b " ++ ", ".intercalate (fields.map fun field => field.1 ++ ": " ++ field.2) ++ " \x7d"

def debugAttestation (value : PublicInfoAttestation) : String :=
  debugStruct "PublicInfoAttestation" [("shared_id", libs.debug value.sharedId),
    ("expected_ssh_host", libs.debug value.expectedSshHost),
    ("expected_ssh_port", toString value.expectedSshPort),
    ("expected_ssh_hosts", debugList libs value.expectedSshHosts)]

def debugBootstrap (value : StorageBoxBootstrap) : String :=
  debugStruct "StorageBoxBootstrap" [("host", libs.debug value.host), ("port", toString value.port),
    ("user", libs.debug value.user), ("host_public_keys", debugList libs value.hostPublicKeys),
    ("known_hosts_file", debugOption libs.debug value.knownHostsFile)]

def differs {α : Type} [DecidableEq α] (debug : α → String) (what : String) (target want : α) :
    List String :=
  if target ≠ want then
    [what ++ " " ++ debug target ++ " on the host, " ++ debug want ++ " here"]
  else []

def destinationDifference (target want : Destination) : List String :=
  differs libs.debug "path" target.path want.path ++
  differs libs.debug "category" target.category want.category ++
  differs libs.debug "owner" target.owner want.owner ++
  differs libs.debug "group" target.group want.group ++
  differs libs.debug "mode" target.mode want.mode ++
  differs (debugList libs) "consumer units" target.consumerUnits want.consumerUnits

def secretDifference (target want : SecretSpec) : String :=
  "; ".intercalate (differs (debugList libs) "recipients" target.1 want.1 ++
    destinationDifference libs target.2.1 want.2.1 ++
    differs (debugOption (debugAttestation libs)) "public-info attestation" target.2.2.1 want.2.2.1 ++
    differs (debugOption libs.debug) "derivation" target.2.2.2 want.2.2.2)

def taskDifference (target want : TaskSpec) : String :=
  "; ".intercalate (differs libs.debug "task type" target.1 want.1 ++
    differs (debugList libs) "recipients" target.2.1 want.2.1 ++
    destinationDifference libs target.2.2.1 want.2.2.1 ++
    differs (debugOption (debugBootstrap libs)) "Storage Box bootstrap" target.2.2.2 want.2.2.2)

end

section

variable {ν : Type} (difference : ν → ν → String) (target : BTreeMap String ν) (absent : List String)

/-- Only a target that says so leaves a selected value out. -/
def compareOne (identifier : String) (want : ν) : Except DeploymentError (Option LeftOut) :=
  match target[identifier]? with
  | none =>
    if identifier ∉ absent then
      .error (.mismatch ("target omitted " ++ identifier ++ " without listing it as absent"))
    else .ok (some ⟨identifier, true, "the host's current activation does not declare it"⟩)
  | some declared =>
    if difference declared want ≠ "" then
      .ok (some ⟨identifier, false, "the host's current activation declares it differently: " ++
        difference declared want⟩)
    else .ok none

def compareAll : List (String × ν) → Except DeploymentError (List LeftOut)
  | [] => .ok []
  | (identifier, want) :: rest => do
    let first ← compareOne difference target absent identifier want
    let others ← compareAll rest
    return first.toList ++ others

end

def expectedIdentifiers (expected : ExpectedTarget) : List String :=
  expected.secrets.map (·.identifier) ++ expected.tasks.map (·.identifier)

def checkAnswers (state : TargetState) (expected : ExpectedTarget) : Except DeploymentError Unit :=
  match (state.secrets.map (·.identifier) ++ state.tasks.map (·.identifier) ++ state.absent).find?
      (· ∉ expectedIdentifiers expected) with
  | some extra => .error (.mismatch ("the target answered for " ++ extra ++ ", which was not selected"))
  | none => .ok ()

def compareTarget (libs : Libraries) (state : TargetState) (expected : ExpectedTarget) :
    Except DeploymentError (List LeftOut) := do
  rejectIf (¬ (legacyDeploymentProtocolVersion ≤ state.protocolVersion ∧
    state.protocolVersion ≤ deploymentProtocolVersion)) "unsupported deployment protocol"
  rejectIf (state.hostname ≠ expected.hostname) "target hostname mismatch"
  let targetSecrets ← mapTargetSecrets state.secrets
  let expectedSecrets ← mapExpectedSecrets expected.secrets
  let secrets ← compareAll (secretDifference libs) targetSecrets state.absent expectedSecrets.toList
  let targetTasks ← mapTargetTasks libs state.tasks
  let expectedTasks ← mapExpectedTasks libs expected.tasks
  let tasks ← compareAll (taskDifference libs) targetTasks state.absent expectedTasks.toList
  checkAnswers state expected
  return secrets ++ tasks

def validateTarget (libs : Libraries) (state : TargetState) (expected : ExpectedTarget) :
    Except DeploymentError Unit := do
  match (← compareTarget libs state expected).head? with
  | none => .ok ()
  | some leftOut => .error (.mismatch (leftOut.identifier ++ ": " ++ leftOut.reason))

def verifyGenerator (state : TargetState) (expected : ExpectedTarget) (identifier : String) :
    Except DeploymentError Unit := do
  let want ← orReject "operator schema cannot generate a requested value"
    ((expected.secrets.find? (·.identifier = identifier)).bind (·.generator))
  let declared ← orReject "target cannot generate a requested value; rebuild it with this schema"
    ((state.secrets.find? (·.identifier = identifier)).bind (·.generator))
  rejectIf (want ≠ declared)
    "target would generate a value in another format; rebuild it with this schema"

def verifyGenerators (state : TargetState) (expected : ExpectedTarget) (identifiers : List String) :
    Except DeploymentError Unit :=
  identifiers.forM (verifyGenerator state expected)

def requireSameSet (left right : List String) (message : String) : Except DeploymentError Unit :=
  rejectIf (¬ ∀ k ∈ left ++ right, k ∈ left ∧ k ∈ right) message

/-- The right list names only identifiers of the left, each once. -/
def requireSubset (left right : List String) (message : String) : Except DeploymentError Unit :=
  rejectIf (¬ ((∀ k ∈ right, k ∈ left) ∧ right.Nodup)) message

theorem mapUniqueFrom_ok {τ ν : Type} {item : τ → String × ν} {items : List τ}
    {result all : BTreeMap String ν} (h : mapUniqueFrom item result items = .ok all) :
    Distinct (items.map fun value => (item value).1) ∧ (∀ value ∈ items, (item value).1 ∉ result) ∧
      ∀ k v, all[k]? = some v ↔ result[k]? = some v ∨ ∃ value ∈ items, item value = (k, v) := by
  induction items generalizing result with
  | nil =>
    cases h
    exact ⟨⟨by simp, List.nodup_nil⟩, by simp, by simp⟩
  | cons value rest ih =>
    simp only [mapUniqueFrom, except_bind_ok, exists_unit_ok, rejectIf_ok] at h
    obtain ⟨hvalid, hnew, h⟩ := h
    obtain ⟨hdistinct, hfresh, hall⟩ := ih h
    have hhead : (item value).1 ∉ rest.map fun value => (item value).1 := by
      intro hmem
      obtain ⟨other, hother, hsame⟩ := List.mem_map.mp hmem
      exact hfresh other hother (by rw [hsame]; exact Std.ExtTreeMap.mem_insert_self)
    refine ⟨⟨?_, List.nodup_cons.mpr ⟨hhead, hdistinct.nodup⟩⟩, ?_, fun k v => ?_⟩
    · rw [List.map_cons, List.forall_mem_cons]
      exact ⟨hvalid, hdistinct.valid⟩
    · rw [List.forall_mem_cons]
      exact ⟨hnew, fun other hother hin => hfresh other hother (Std.ExtTreeMap.mem_insert.mpr (Or.inr hin))⟩
    · rw [hall, Std.ExtTreeMap.getElem?_insert, List.exists_mem_cons_iff, Prod.ext_iff]
      by_cases hk : (item value).1 = k
      · have hnone : result[k]? = none := by
          rw [← hk]
          exact Std.ExtTreeMap.getElem?_eq_none hnew
        simp [hk, hnone]
      · simp [hk, Std.LawfulEqCmp.compare_eq_iff_eq]

theorem mapUnique_ok {τ ν : Type} {item : τ → String × ν} {items : List τ} {all : BTreeMap String ν}
    (h : mapUnique item items = .ok all) : Distinct (items.map fun value => (item value).1) ∧
      ∀ k v, all[k]? = some v ↔ ∃ value ∈ items, item value = (k, v) := by
  obtain ⟨hdistinct, _, hall⟩ := mapUniqueFrom_ok h
  exact ⟨hdistinct, by simpa using hall⟩

theorem differs_eq_nil {α : Type} [DecidableEq α] {debug : α → String} {what : String} {target want : α} :
    differs debug what target want = [] ↔ target = want := by
  unfold differs
  split
  next h => exact iff_of_false nofun h
  next h => exact iff_of_true rfl (not_not.mp h)

theorem mem_differs_ne_empty {α : Type} [DecidableEq α] {debug : α → String} {what part : String}
    {target want : α} (h : part ∈ differs debug what target want) : part ≠ "" := by
  unfold differs at h
  split at h
  next =>
    rw [List.mem_singleton.mp h]
    simp
  next => exact absurd h List.not_mem_nil

theorem intercalate_eq_empty {separator : String} {parts : List String} (h : ∀ part ∈ parts, part ≠ "") :
    separator.intercalate parts = "" ↔ parts = [] := by
  cases parts with
  | nil => simp
  | cons part rest =>
    have hpart := h part List.mem_cons_self
    cases rest with
    | nil => simpa using hpart
    | cons next rest => simp [String.intercalate_cons_cons, hpart]

section

variable (libs : Libraries)

theorem destinationDifference_eq_nil {target want : Destination} :
    destinationDifference libs target want = [] ↔ target = want := by
  simp only [destinationDifference, List.append_eq_nil_iff, differs_eq_nil, and_assoc]
  cases target
  cases want
  simp

theorem mem_destinationDifference {target want : Destination} {part : String}
    (h : part ∈ destinationDifference libs target want) : part ≠ "" := by
  simp only [destinationDifference, List.mem_append, or_assoc] at h
  rcases h with h | h | h | h | h | h <;> exact mem_differs_ne_empty h

theorem secretDifference_eq_empty {target want : SecretSpec} :
    secretDifference libs target want = "" ↔ target = want := by
  rw [secretDifference, intercalate_eq_empty]
  · simp only [List.append_eq_nil_iff, differs_eq_nil, destinationDifference_eq_nil, and_assoc,
      Prod.ext_iff]
  · intro part hpart
    simp only [List.mem_append, or_assoc] at hpart
    rcases hpart with h | h | h | h
    · exact mem_differs_ne_empty h
    · exact mem_destinationDifference libs h
    · exact mem_differs_ne_empty h
    · exact mem_differs_ne_empty h

theorem taskDifference_eq_empty {target want : TaskSpec} :
    taskDifference libs target want = "" ↔ target = want := by
  rw [taskDifference, intercalate_eq_empty]
  · simp only [List.append_eq_nil_iff, differs_eq_nil, destinationDifference_eq_nil, and_assoc,
      Prod.ext_iff]
  · intro part hpart
    simp only [List.mem_append, or_assoc] at hpart
    rcases hpart with h | h | h | h
    · exact mem_differs_ne_empty h
    · exact mem_differs_ne_empty h
    · exact mem_destinationDifference libs h
    · exact mem_differs_ne_empty h

end

/-- A comparison leaves out the identifiers of which the target says nothing, or something else. -/
theorem compareAll_ok {ν : Type} {difference : ν → ν → String} {target : BTreeMap String ν}
    {absent : List String} {pairs : List (String × ν)} {leftOut : List LeftOut}
    (hdifference : ∀ x y, difference x y = "" ↔ x = y)
    (h : compareAll difference target absent pairs = .ok leftOut) (k : String) :
    k ∈ leftOut.map (·.identifier) ↔ ∃ want, (k, want) ∈ pairs ∧ target[k]? ≠ some want := by
  induction pairs generalizing leftOut with
  | nil =>
    cases h
    simp
  | cons pair rest ih =>
    obtain ⟨identifier, want⟩ := pair
    simp only [compareAll, except_bind_ok] at h
    obtain ⟨first, hfirst, others, hothers, h⟩ := h
    cases h
    have hone : k ∈ first.toList.map (·.identifier) ↔ k = identifier ∧ target[identifier]? ≠ some want := by
      unfold compareOne at hfirst
      split at hfirst
      next hnone =>
        split at hfirst
        next => cases hfirst
        next =>
          cases hfirst
          simp [hnone]
      next declared hdeclared =>
        split at hfirst
        next hdiffers =>
          cases hfirst
          rw [ne_eq, hdifference] at hdiffers
          simp [hdeclared, hdiffers]
        next hsame =>
          cases hfirst
          rw [ne_eq, not_not, hdifference] at hsame
          simp [hdeclared, hsame]
    rw [List.map_append, List.mem_append, hone, ih hothers]
    constructor
    · rintro (⟨rfl, hwant⟩ | ⟨want', hmem, hwant⟩)
      · exact ⟨want, List.mem_cons_self, hwant⟩
      · exact ⟨want', List.mem_cons_of_mem _ hmem, hwant⟩
    · rintro ⟨want', hmem, hwant⟩
      rcases List.mem_cons.mp hmem with heq | hmem
      · cases heq
        exact Or.inl ⟨rfl, hwant⟩
      · exact Or.inr ⟨want', hmem, hwant⟩

end NixSecrets.Transport
