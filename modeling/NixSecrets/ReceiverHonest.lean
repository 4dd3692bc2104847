import NixSecrets.ReceiverRun

namespace NixSecrets

open Faulty

/-- A batch that is answered with an error has moved neither root. -/
def Honest (w : Roots) (run : Ended String AppliedOutput × List Fault × Roots) : Prop :=
  run.1.isFailed = true → ∀ side, (run.2.2.at side).active = (w.at side).active

namespace Receiver

variable {r : Receiver}

/-- The deployment of what was resolved gets past the switch that commits it. -/
def Commits (r : Receiver) (resolved : ResolvedBatch) (id : String) (faults : List Fault)
    (w : Roots) : Prop :=
  resolved ≠ [] ∧ (Deploy.committing r.platform (some resolved.partition.1)
    (some resolved.partition.2) id faults w).1.isDone = true

/-- Nothing after that switch goes wrong: the deployment does not fail, there are no more
changes than an event holds, it is recorded, and both version maps are read. -/
def Finishes (r : Receiver) (left : Remaining) (resolved : ResolvedBatch)
    (refused : BTreeMap String String) (id : String) (faults : List Fault) (w : Roots) : Prop :=
  match Deploy.together r.platform (some resolved.partition.1) (some resolved.partition.2) id faults w with
  | (.done previous, rest, w') => (left.deployed refused).length ≤ maxAuditChanges ∧
      r.Recorded resolved (left.deployed refused) previous ∧
      (r.currentVersions rest w').1.isFailed = false
  | (.failed _, _, _) => False
  | (.crashed, _, _) => True

section

variable {current : BTreeMap String String} {id : String} {batch : WireBatch} {left : Remaining}
  {resolved : ResolvedBatch} {refused : BTreeMap String String} {faults : List Fault} {w : Roots}

theorem honest_of_same {run : Ended String AppliedOutput × List Fault × Roots} (h : run.2.2 = w) :
    Honest w run := by
  intro _ side
  rw [h]

theorem Resolves.deployed_ne_nil (h : r.Resolves current batch left resolved refused)
    (hne : resolved ≠ []) : left.deployed refused ≠ [] := by
  obtain ⟨entry, hentry⟩ := List.exists_mem_of_ne_nil _ hne
  have hk := (h.deployed_iff entry.identifier).mpr (List.mem_map.mpr ⟨entry, hentry, rfl⟩)
  exact List.ne_nil_of_mem hk

/-- The answer to a batch of which something is resolved. -/
theorem Resolves.honest_iff {x : Settled} {free : String → Prop}
    (h : r.Resolves current batch left resolved refused) (hne : resolved ≠ [])
    (hv : validGeneration id = true) (hid : free id) (hw : Deploy.Rested x free w) :
    Honest w (r.apply current id batch faults w) ↔
      (r.Commits resolved id faults w → r.Finishes left resolved refused id faults w) := by
  have hmoved : (∀ side, ((Deploy.together r.platform (some resolved.partition.1)
      (some resolved.partition.2) id faults w).2.2.at side).active = (w.at side).active) ↔
      ¬ r.Commits resolved id faults w := by
    rw [Deploy.together_unmoved_iff hv hid hw, Commits, ← Bool.not_eq_true]
    tauto
  have hparts : ¬ (resolved.partition.1 = [] ∧ resolved.partition.2 = []) :=
    fun hn => hne (partition_eq_nil.mp hn)
  rw [h.apply_eq, bind_run, Receiver.publish, if_neg hparts, Finishes]
  simp only [mapError]
  cases hrun : Deploy.together r.platform (some resolved.partition.1)
      (some resolved.partition.2) id faults w with
  | mk out rest =>
    obtain ⟨rest, w'⟩ := rest
    rw [hrun] at hmoved
    cases out with
    | crashed => exact ⟨fun _ _ => trivial, fun _ hf => by cases hf⟩
    | failed e =>
      constructor
      · intro hh hc
        exact hmoved.mp (hh rfl) hc
      · intro hc _
        exact hmoved.mpr hc
    | done previous =>
      have hfailed : (r.answer resolved (left.deployed refused) previous left.generated
          left.values.records (left.notDeployed refused) rest w').1.isFailed = false ↔ _ :=
        answer_failed_iff
      simp only [Honest, answer_state]
      constructor
      · intro hh hc
        refine (hfailed.mp ?_).2
        by_contra hf
        exact hmoved.mp (hh (by simpa using hf)) hc
      · intro hc hf
        refine hmoved.mpr fun hcommits => ?_
        have hok := hfailed.mpr ⟨h.deployed_ne_nil hne, hc hcommits⟩
        rw [hok] at hf
        cases hf

theorem Resolves.unique {left' : Remaining} {resolved' : ResolvedBatch}
    {refused' : BTreeMap String String} (h : r.Resolves current batch left resolved refused)
    (h' : r.Resolves current batch left' resolved' refused') :
    left' = left ∧ resolved' = resolved ∧ refused' = refused := by
  have hl : left' = left := Except.ok.inj (h'.remaining.symm.trans h.remaining)
  subst hl
  have hr := Except.ok.inj (h'.validated.symm.trans h.validated)
  exact ⟨rfl, congrArg Prod.fst hr, congrArg Prod.snd hr⟩

/-- Whatever a receiver is given and however its steps end, its error says that neither root
has moved just when nothing goes wrong once the deployment is committed. -/
theorem apply_honest_iff {attempts : List Attempt} (hs : Started r.platform attempts w)
    (hv : validGeneration id = true) (hid : id ∉ generationIds attempts) :
    Honest w (r.apply current id batch faults w) ↔
      ∀ left resolved refused, r.Resolves current batch left resolved refused →
        r.Commits resolved id faults w → r.Finishes left resolved refused id faults w := by
  obtain ⟨x, hw⟩ := hs.rested
  by_cases h : ∃ left resolved refused, r.Resolves current batch left resolved refused
  · obtain ⟨left, resolved, refused, h⟩ := h
    by_cases hne : resolved = []
    · subst hne
      refine ⟨fun _ left' resolved' refused' h' hc => ?_, fun _ => honest_of_same h.apply_nil⟩
      exact absurd (h.unique h').2.1 hc.1
    · rw [h.honest_iff hne hv hid hw]
      constructor
      · intro hf left' resolved' refused' h'
        obtain ⟨rfl, rfl, rfl⟩ := h.unique h'
        exact hf
      · exact fun hf => hf left resolved refused h
  · have hnone (left : Remaining) (resolved : ResolvedBatch) (refused : BTreeMap String String) :
        ¬ r.Resolves current batch left resolved refused := fun h' => h ⟨left, resolved, refused, h'⟩
    refine ⟨fun _ left resolved refused h' => absurd h' (hnone left resolved refused), fun _ => ?_⟩
    exact honest_of_same (apply_unresolved hnone)

end

end Receiver

def webTokenLeaf : SecretLeaf :=
  { destination := ⟨"/persistent/secrets/web/service/token", "service", "root", "root", "0400",
      none, none⟩ }

/-- A host that declares one secret and knows no account but root. -/
def webTarget : TargetHost where
  hostname := "host"
  manifest := "/etc/nix-secrets/manifest.json"
  schema := .ok ((∅ : Schema).insert "host"
    [("services", [("web", .branch [("token", .secret webTokenLeaf)])])])
  checks :=
    { user := fun name => .ok (if name = "root" then some 0 else none)
      group := fun name => .ok (if name = "root" then some 0 else none)
      decodeBase64 := fun text => if text = "cw==" then some [115] else none
      sshKnownHosts := fun _ _ _ => .ok ()
      namedSshKeys := fun _ => .ok ()
      privateKey := fun _ => some false
      publicKey := fun _ => true }

def webReceiver (keepAudit : String → String → String → Except String Unit) : Receiver where
  toTargetHost := webTarget
  platform := receiver
  pendingPublic := fun _ => .ok ∅
  task := fun _ _ => .absent "no known_hosts on this host"
  values := fun _ _ _ => .ok {}
  submittedAt := .ok "2026-01-01T00:00:00Z"
  auditFile := some ⟨"/var/lib/nix-secrets/audit/event.json", some "audit"⟩
  keepAudit

def webBatch : WireBatch :=
  { version := 5
    requestedIdentifiers := ["host.services.web.token"]
    entries := [⟨"host.services.web.token", "v1", "cw=="⟩] }

theorem started_empty : Started receiver [] {} := by
  refine ⟨⟨List.nodup_nil, by simp [generationIds]⟩, [], [], ?_⟩
  decide +kernel

theorem webBatch_honest :
    ((webReceiver fun _ _ _ => .ok ()).apply ∅ firstId webBatch [] {}).1.isFailed = false ∧
    ¬ ∃ left resolved refused,
      (webReceiver fun _ _ _ => .ok ()).Resolves ∅ webBatch left resolved refused ∧
      (webReceiver fun _ _ _ => .ok ()).Commits resolved firstId [] {} ∧
      ¬ (webReceiver fun _ _ _ => .ok ()).Finishes left resolved refused firstId [] {} := by
  have hdone : ((webReceiver fun _ _ _ => .ok ()).apply ∅ firstId webBatch [] {}).1.isFailed = false := by
    decide +kernel
  have hhonest : Honest {} ((webReceiver fun _ _ _ => .ok ()).apply ∅ firstId webBatch [] {}) := by
    intro hf
    rw [hdone] at hf
    cases hf
  have hfinishes := (Receiver.apply_honest_iff started_empty (by decide +kernel)
    (by simp [generationIds])).mp hhonest
  refine ⟨hdone, ?_⟩
  intro ⟨left, resolved, refused, hresolves, hcommits, hnot⟩
  exact hnot (hfinishes left resolved refused hresolves hcommits)

/-- The audit file cannot be written once the batch is published. -/
def unauditedReceiver : Receiver := webReceiver fun _ _ _ => .error "audit group does not exist"

/-- The batch is answered with an error and published all the same. -/
theorem unaudited_batch_published : ¬ ∀ (r : Receiver) (attempts : List Attempt) (w : Roots)
    (current : BTreeMap String String) (id : String) (batch : WireBatch) (faults : List Fault),
    Started r.platform attempts w → validGeneration id = true → id ∉ generationIds attempts →
    Honest w (r.apply current id batch faults w) := by
  intro h
  have hh := h unauditedReceiver [] {} ∅ firstId webBatch [] started_empty (by decide +kernel)
    (by simp [generationIds])
  have hfailed : (unauditedReceiver.apply ∅ firstId webBatch [] {}).1.isFailed = true := by
    decide +kernel
  have hmoved : (unauditedReceiver.apply ∅ firstId webBatch [] {}).2.2.secrets.active = some firstId := by
    decide +kernel
  have hsame := hh hfailed .secrets
  have hactive : ({} : Roots).secrets.active = some firstId := hsame.symm.trans hmoved
  cases hactive

end NixSecrets
