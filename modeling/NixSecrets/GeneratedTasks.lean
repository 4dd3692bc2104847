import NixSecrets.ManifestBatch

namespace NixSecrets

structure TaskEntry where
  identifier : String
  versionId : String
  passwordBase64 : String
  clientContributionBase64 : String
  deriving DecidableEq, Repr

/-- How one task ends. A prerequisite this host lacks leaves out the task alone. -/
inductive TaskOutcome
  | ran (publicKey privateBase64 : String)
  | absent (reason : String)
  | failed (error : DeployError)
  deriving DecidableEq, Repr

structure GeneratedTasks where
  deployments : List SecretDeployment := []
  publicKeys : BTreeMap String String := ∅
  notDeployed : BTreeMap String String := ∅
  deriving DecidableEq

namespace GeneratedTasks

def add (tasks : GeneratedTasks) (entry : TaskEntry) : TaskOutcome → Except DeployError GeneratedTasks
  | .ran publicKey privateBase64 => .ok { tasks with
      deployments := tasks.deployments ++ [⟨entry.identifier, entry.versionId, privateBase64⟩]
      publicKeys := tasks.publicKeys.insert entry.identifier publicKey }
  | .absent reason =>
    .ok { tasks with notDeployed := tasks.notDeployed.insert entry.identifier reason }
  | .failed error => .error error

def runEntries (task : TaskEntry → TaskOutcome) :
    List TaskEntry → GeneratedTasks → Except DeployError GeneratedTasks
  | [], tasks => .ok tasks
  | entry :: rest, tasks => do
    let tasks ← tasks.add entry (task entry)
    runEntries task rest tasks

/-- The task of the identifier is left out. -/
def LeftOut (task : TaskEntry → TaskOutcome) (entries : List TaskEntry) (k : String) : Prop :=
  ∃ entry ∈ entries, entry.identifier = k ∧ ∃ reason, task entry = .absent reason

theorem runEntries_notDeployed {task : TaskEntry → TaskOutcome} {entries : List TaskEntry}
    {start tasks : GeneratedTasks} (h : runEntries task entries start = .ok tasks) (k : String) :
    k ∈ tasks.notDeployed ↔ LeftOut task entries k ∨ k ∈ start.notDeployed := by
  induction entries generalizing start with
  | nil =>
    cases h
    simp [LeftOut]
  | cons entry rest ih =>
    obtain ⟨next, hnext, h⟩ := except_bind_ok.mp h
    have hstep : k ∈ next.notDeployed ↔
        (entry.identifier = k ∧ ∃ reason, task entry = .absent reason) ∨ k ∈ start.notDeployed := by
      cases ho : task entry with
      | ran publicKey privateBase64 =>
        rw [ho] at hnext
        cases hnext
        simp
      | absent reason =>
        rw [ho] at hnext
        cases hnext
        simp
      | failed error =>
        rw [ho] at hnext
        cases hnext
    have hcons : LeftOut task (entry :: rest) k ↔
        (entry.identifier = k ∧ ∃ reason, task entry = .absent reason) ∨ LeftOut task rest k := by
      unfold LeftOut
      rw [List.exists_mem_cons_iff]
    rw [ih h, hstep, hcons]
    tauto

end GeneratedTasks

structure SharedSource where
  generator : String
  recipientIds : List String
  recipientPublicKeys : List String
  deriving DecidableEq, Repr

structure GenerateEntry where
  identifier : String
  clientContributionBase64 : String
  shared : Option SharedSource := none
  deriving DecidableEq, Repr

structure GeneratedRecord where
  formatVersion : UInt16
  versionIdBase64 : String
  recipientIds : List String
  ageCiphertextBase64 : String
  adopted : Bool
  deriving DecidableEq, Repr

structure GeneratedValues where
  deployments : List SecretDeployment := []
  records : BTreeMap String GeneratedRecord := ∅
  deriving DecidableEq

end NixSecrets
