import NixSecrets.BatchValidation
import Mathlib.Data.List.Perm.Subperm
import Mathlib.Data.List.Nodup

namespace NixSecrets.Transport

/-- Lists that say the same of every identifier differ at most by repetitions. -/
theorem nodup_iff_length {values requested : List String} (hrequested : requested.Nodup)
    (hsame : ∀ k, k ∈ values ↔ k ∈ requested) : values.Nodup ↔ values.length = requested.length := by
  constructor
  · intro hvalues
    exact ((List.perm_ext_iff_of_nodup hvalues hrequested).mpr hsame).length_eq
  · intro hlength
    have hsub : requested.Subperm values :=
      List.subperm_of_subset hrequested fun k hk => (hsame k).mpr hk
    have hperm := hsub.perm_of_length_le (Nat.le_of_eq hlength)
    exact hperm.nodup hrequested

def sharedSources (batch : WireBatch) : List String :=
  (batch.generate.filter (·.shared ≠ none)).map (·.identifier)

theorem generate_perm (batch : WireBatch) :
    (ownGenerated batch ++ sharedSources batch).Perm (batch.generate.map (·.identifier)) := by
  have hperm := List.filter_append_perm (fun item : GenerateEntry => decide (item.shared = none)) batch.generate
  have hshared : (fun item : GenerateEntry => !decide (item.shared = none)) =
      fun item => decide (item.shared ≠ none) := by
    funext item
    simp
  rw [hshared] at hperm
  have hmap := hperm.map (·.identifier)
  rw [List.map_append] at hmap
  exact hmap

def batchIdentifiers (batch : WireBatch) : List String :=
  suppliedIdentifiers batch ++ batch.tasks.map (·.identifier)

/-- Each requested identifier is a value or a task of the batch, once, and the batch runs
neither a task nor a generator twice for an identifier. -/
structure Partitions (batch : WireBatch) : Prop where
  distinct : (batchIdentifiers batch).Nodup
  exact : ∀ k, k ∈ batchIdentifiers batch ↔ k ∈ batch.requestedIdentifiers ∨ k ∈ batch.requestedTasks
  generatesOnce : (batch.generate.map (·.identifier)).Nodup
  runsOnce : (batch.tasks.map (·.identifier)).Nodup

/-- There are as many values and tasks as requests, no task is requested as a value too, and
no shared source is listed twice. -/
structure Counted (batch : WireBatch) : Prop where
  values : (suppliedIdentifiers batch).length = batch.requestedIdentifiers.length
  tasks : batch.tasks.length = batch.requestedTasks.length
  apart : ∀ k ∈ batch.requestedIdentifiers, k ∉ batch.requestedTasks
  shared : (sharedSources batch).Nodup

variable {libs : Libraries} {batch : WireBatch} {state : TargetState}

theorem BatchAllowed.own_available (h : BatchAllowed libs batch state) {k : String}
    (hk : k ∈ ownGenerated batch) : k ∈ state.secrets.map (·.identifier) := by
  apply h.values.available
  apply (h.values.same k).mp
  exact List.mem_append_left _ (List.mem_append_right _ hk)

theorem BatchAllowed.shared_absent (h : BatchAllowed libs batch state) {k : String}
    (hk : k ∈ sharedSources batch) : k ∉ state.secrets.map (·.identifier) := by
  obtain ⟨item, hitem, rfl⟩ := List.mem_map.mp hk
  obtain ⟨hitem, hshared⟩ := List.mem_filter.mp hitem
  have hgenerates := (h.generate item hitem).1
  unfold Generates at hgenerates
  split at hgenerates
  next =>
    intro hmem
    obtain ⟨secret, hsecret, hsame⟩ := List.mem_map.mp hmem
    exact hgenerates.2.1 secret hsecret hsame
  next hnone => simp [hnone] at hshared

theorem BatchAllowed.generate_nodup (h : BatchAllowed libs batch state) :
    (batch.generate.map (·.identifier)).Nodup ↔ (ownGenerated batch).Nodup ∧ (sharedSources batch).Nodup := by
  rw [← (generate_perm batch).nodup_iff, List.nodup_append']
  have hdisjoint : (ownGenerated batch).Disjoint (sharedSources batch) := fun k hown hshared =>
    h.shared_absent hshared (h.own_available hown)
  tauto

theorem BatchAllowed.mem_identifiers (h : BatchAllowed libs batch state) (k : String) :
    k ∈ batchIdentifiers batch ↔ k ∈ batch.requestedIdentifiers ∨ k ∈ batch.requestedTasks := by
  rw [batchIdentifiers, List.mem_append, h.values.same, h.tasks.same]

theorem BatchAllowed.nodup_identifiers (h : BatchAllowed libs batch state) :
    (batchIdentifiers batch).Nodup ↔
      (suppliedIdentifiers batch).length = batch.requestedIdentifiers.length ∧
      batch.tasks.length = batch.requestedTasks.length ∧
      ∀ k ∈ batch.requestedIdentifiers, k ∉ batch.requestedTasks := by
  have htasks := nodup_iff_length h.tasks.distinct.nodup h.tasks.same
  rw [List.length_map] at htasks
  have hapart : (suppliedIdentifiers batch).Disjoint (batch.tasks.map (·.identifier)) ↔
      ∀ k ∈ batch.requestedIdentifiers, k ∉ batch.requestedTasks := by
    constructor
    · intro hdisjoint k hk hin
      exact hdisjoint ((h.values.same k).mpr hk) ((h.tasks.same k).mpr hin)
    · intro hapart k hk hin
      exact hapart k ((h.values.same k).mp hk) ((h.tasks.same k).mp hin)
  rw [batchIdentifiers, List.nodup_append', hapart,
    nodup_iff_length h.values.distinct.nodup h.values.same, htasks]

/-- The target compares sets of identifiers, so an accepted batch partitions what it requests
exactly when nothing in it is repeated. -/
theorem validated_partition_iff_counted (libs : Libraries) (batch : WireBatch) (state : TargetState)
    (h : validateBatch libs batch state = .ok ()) : Partitions batch ↔ Counted batch := by
  have hallowed := (validateBatch_ok libs).mp h
  constructor
  · intro hp
    obtain ⟨hvalues, htasks, hapart⟩ := hallowed.nodup_identifiers.mp hp.distinct
    exact ⟨hvalues, htasks, hapart, (hallowed.generate_nodup.mp hp.generatesOnce).2⟩
  · intro hc
    have hdistinct := hallowed.nodup_identifiers.mpr ⟨hc.values, hc.tasks, hc.apart⟩
    obtain ⟨hvalues, htasks, _⟩ := List.nodup_append'.mp hdistinct
    have hown := (List.nodup_append'.mp (List.nodup_append'.mp hvalues).1).2.1
    exact ⟨hdistinct, hallowed.mem_identifiers, hallowed.generate_nodup.mpr ⟨hown, hc.shared⟩, htasks⟩

def zeroContribution : String := "AAAAAAAAAAAAAAAAAAAAAAAAAAAAAAAAAAAAAAAAAAA="

/-- A decoder of no bytes, of thirty-two zero bytes and of one other. -/
def keyLibraries : Libraries where
  decodeBase64 text :=
    if text = "" then some [] else if text = zeroContribution then some (List.replicate 32 0)
    else if text = "eA==" then some [120] else none
  jsonIdentifier _ := none
  debug text := text

def gitKey : String := "web.services.git.key"

def gitToken : String := "web.services.git.token"

def keyState : TargetState where
  protocolVersion := 5
  hostname := "web"
  secrets := [⟨gitToken, ["admin"], ⟨"/persistent/secrets/git/service/token", "service", "git", "git",
    "0400", []⟩, none, none, none, none⟩]
  tasks := [⟨gitKey, localSshKey, ["admin"], ⟨"/persistent/secrets/git/service/key", "service", "git",
    "git", "0400", []⟩, none, none⟩]

def keyEntry : TaskEntry := ⟨gitKey, "local-generated-v1", "", zeroContribution⟩

/-- A batch that runs the one task as many times as it is told. -/
def keyBatch (times : Nat) : WireBatch where
  version := 5
  requestedIdentifiers := [gitToken]
  entries := [⟨gitToken, "v1", "eA=="⟩]
  requestedTasks := [gitKey]
  tasks := List.replicate times keyEntry

theorem distinct_singleton {k : String} (h : validateIdentifier k = .ok ()) : Distinct [k] :=
  ⟨by simpa using h, List.nodup_singleton k⟩

theorem keyBatch_allowed (times : Nat) (htimes : 0 < times) :
    validateBatch keyLibraries (keyBatch times) keyState = .ok () := by
  have hkey : Distinct [gitKey] := distinct_singleton (by decide)
  have htoken : Distinct [gitToken] := distinct_singleton (by decide)
  have htask : TaskAllowed keyLibraries keyState.tasks keyEntry :=
    ⟨by decide, ⟨_, rfl, by decide⟩, [], rfl, by decide, by decide⟩
  have hcontents : ∀ entry ∈ [SecretDeployment.mk gitToken "v1" "eA=="],
      validVersion entry.versionId ∧ entry.contentsBase64 ≠ "" := by decide
  have hlatest : (5 : UInt16) ≤ 5 := by decide
  have hlegacy : (1 : UInt16) ≤ 5 := by decide
  refine (validateBatch_ok keyLibraries).mpr ⟨hlatest, hlegacy, fun _ => ⟨rfl, rfl⟩, htoken, fun _ => nofun,
    nofun, nofun, ⟨htoken, fun k => Iff.rfl, fun k hk => hk⟩, hcontents,
    ⟨hkey, fun k => ?_, fun k hk => hk⟩, ?_⟩
  · have hne : times ≠ 0 := Nat.pos_iff_ne_zero.mp htimes
    simp [keyBatch, keyEntry, hne]
  · intro entry hentry
    rw [List.eq_of_mem_replicate hentry]
    exact htask

theorem validated_partition_of_one_key : Counted (keyBatch 1) ∧ Partitions (keyBatch 1) := by
  have hcounted : Counted (keyBatch 1) := ⟨rfl, rfl, by decide, List.nodup_nil⟩
  exact ⟨hcounted, (validated_partition_iff_counted keyLibraries (keyBatch 1) keyState
    (keyBatch_allowed 1 Nat.one_pos)).mpr hcounted⟩

/-- A batch that runs one task twice is accepted. -/
theorem repeated_task_validated :
    validateBatch keyLibraries (keyBatch 2) keyState = .ok () ∧ ¬ Partitions (keyBatch 2) := by
  refine ⟨keyBatch_allowed 2 Nat.two_pos, fun hp => ?_⟩
  have htwice : (keyBatch 2).tasks.map (·.identifier) = [gitKey, gitKey] := rfl
  have honce := hp.runsOnce
  rw [htwice] at honce
  simp at honce

end NixSecrets.Transport
