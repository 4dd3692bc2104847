import NixSecrets.ReceiverApply
import NixSecrets.DeployCommit
import NixSecrets.DeployAtomic

namespace NixSecrets

open Faulty

def Ended.isFailed {ε α : Type} : Ended ε α → Bool
  | .failed _ => true
  | _ => false

/-- The roots as a receiver finds them: deployments were attempted before, and its own
recovery has ended well. -/
structure Started (p : Platform) (attempts : List Attempt) (w : Roots) : Prop where
  fresh : FreshIds attempts
  recovered : ∃ faults rest, Deploy.recover faults (deployAll p attempts {}) = (.done (), rest, w)

theorem Started.rested {p : Platform} {attempts : List Attempt} {w : Roots}
    (h : Started p attempts w) : ∃ x, Deploy.Rested x (· ∉ generationIds attempts) w := by
  obtain ⟨x, _, hw⟩ := deployAll_steady (p := p) steady_empty h.fresh fun _ _ => trivial
  obtain ⟨faults, rest, hr⟩ := h.recovered
  exact ⟨x, Deploy.meets_recover.done (hw.mono fun _ hk => ⟨trivial, hk⟩) hr⟩

namespace Receiver

variable {r : Receiver}

theorem keeps_currentVersions {P : Roots → Prop} : Keeps P r.currentVersions := by
  have hread (side : Side) : Keeps P (r.versionsOf side) :=
    keeps_bind (Deploy.keeps_root side) fun _ => keeps_ofExcept
  refine keeps_bind (keeps_mapError (hread .secrets)) fun _ => ?_
  exact keeps_bind (keeps_mapError (hread .publicInfo)) fun _ => keeps_pure

theorem currentVersions_state (faults : List Fault) (w : Roots) :
    (r.currentVersions faults w).2.2 = w :=
  Meets.final (keeps_currentVersions (P := (· = w))) faults rfl

theorem keeps_report {P : Roots → Prop} {generated : GeneratedTasks}
    {records : BTreeMap String GeneratedRecord} {notDeployed : BTreeMap String String} :
    Keeps P (r.report generated records notDeployed) :=
  keeps_bind keeps_currentVersions fun _ => keeps_pure

theorem report_isFailed {generated : GeneratedTasks} {records : BTreeMap String GeneratedRecord}
    {notDeployed : BTreeMap String String} {faults : List Fault} {w : Roots} :
    (r.report generated records notDeployed faults w).1.isFailed =
      (r.currentVersions faults w).1.isFailed := by
  rw [report, bind_run]
  cases r.currentVersions faults w with
  | mk out rest => cases out <;> rfl

/-- The event is recorded if a time can be told and there are neither too few nor too many
changes. -/
def Recorded (r : Receiver) (resolved : ResolvedBatch) (deployed : List String)
    (previous : BTreeMap String String) : Prop :=
  ∃ time, r.submittedAt = .ok time ∧ recordEvent r.keepAudit
    (auditText previous resolved.auditDetails r.hostname time deployed) r.auditFile = .ok ()

section Answer

variable {resolved : ResolvedBatch} {deployed : List String} {previous : BTreeMap String String}
  {generated : GeneratedTasks} {records : BTreeMap String GeneratedRecord}
  {notDeployed : BTreeMap String String} {faults : List Fault} {w : Roots}

theorem answer_state :
    (r.answer resolved deployed previous generated records notDeployed faults w).2.2 = w := by
  refine Meets.final (E := (· = w)) (keeps_bind keeps_ofExcept fun _ => ?_) faults rfl
  exact keeps_bind keeps_ofExcept fun _ => keeps_report

theorem answer_recorded (hn : deployed ≠ []) (hl : deployed.length ≤ maxAuditChanges)
    (hr : r.Recorded resolved deployed previous) :
    r.answer resolved deployed previous generated records notDeployed faults w =
      r.report generated records notDeployed faults w := by
  obtain ⟨time, htime, hrecord⟩ := hr
  have hcount : ¬ (deployed = [] ∨ maxAuditChanges < deployed.length) := by
    rw [not_or]
    exact ⟨hn, by omega⟩
  unfold answer
  rw [auditEvent, if_neg hcount, htime]
  show (do
    ofExcept (recordEvent r.keepAudit _ r.auditFile)
    r.report generated records notDeployed) faults w = _
  rw [hrecord]
  rfl

theorem answer_unrecorded (h : deployed = [] ∨ maxAuditChanges < deployed.length ∨
    ¬ r.Recorded resolved deployed previous) :
    (r.answer resolved deployed previous generated records notDeployed faults w).1.isFailed = true := by
  unfold answer
  by_cases hcount : deployed = [] ∨ maxAuditChanges < deployed.length
  · rw [auditEvent, if_pos hcount]
    rfl
  · have hr : ¬ r.Recorded resolved deployed previous := by tauto
    rw [auditEvent, if_neg hcount]
    cases ht : r.submittedAt with
    | error e => rfl
    | ok time =>
      show ((do
        ofExcept (recordEvent r.keepAudit _ r.auditFile)
        r.report generated records notDeployed) faults w).1.isFailed = true
      cases hk : recordEvent r.keepAudit
          (auditText previous resolved.auditDetails r.hostname time deployed) r.auditFile with
      | error e => rfl
      | ok u => exact absurd ⟨time, ht, hk⟩ hr

/-- Answering fails just when the event is not recorded or the versions cannot be read. -/
theorem answer_failed_iff :
    (r.answer resolved deployed previous generated records notDeployed faults w).1.isFailed = false ↔
      deployed ≠ [] ∧ deployed.length ≤ maxAuditChanges ∧ r.Recorded resolved deployed previous ∧
        (r.currentVersions faults w).1.isFailed = false := by
  by_cases h : deployed ≠ [] ∧ deployed.length ≤ maxAuditChanges ∧ r.Recorded resolved deployed previous
  · obtain ⟨hn, hl, hr⟩ := h
    rw [answer_recorded hn hl hr, report_isFailed]
    exact ⟨fun hf => ⟨hn, hl, hr, hf⟩, fun hf => hf.2.2.2⟩
  · have hf : (r.answer resolved deployed previous generated records notDeployed faults w).1.isFailed =
        true := by
      refine answer_unrecorded ?_
      by_contra hn
      refine h ⟨fun he => hn (Or.inl he), ?_, ?_⟩
      · by_contra hl
        exact hn (Or.inr (Or.inl (by omega)))
      · by_contra hr
        exact hn (Or.inr (Or.inr hr))
    rw [hf]
    constructor
    · intro hc
      cases hc
    · exact fun hc => absurd ⟨hc.1, hc.2.1, hc.2.2.1⟩ h

end Answer

/-- The steps before publication leave something to deploy and resolve it. -/
structure Resolves (r : Receiver) (current : BTreeMap String String) (batch : WireBatch)
    (left : Remaining) (resolved : ResolvedBatch) (refused : BTreeMap String String) : Prop where
  remaining : r.remaining current batch = .ok left
  requested : left.batch.requestedIdentifiers ≠ []
  validated : r.validateRemaining left.batch = .ok (resolved, refused)

def Remaining.notDeployed (left : Remaining) (refused : BTreeMap String String) :
    BTreeMap String String := left.generated.notDeployed ∪ refused

def Remaining.deployed (left : Remaining) (refused : BTreeMap String String) : List String :=
  left.batch.requestedIdentifiers.filter (· ∉ left.notDeployed refused)

section Apply

variable {current : BTreeMap String String} {id : String} {batch : WireBatch} {left : Remaining}
  {resolved : ResolvedBatch} {refused : BTreeMap String String} {faults : List Fault} {w : Roots}

theorem Resolves.apply_eq (h : r.Resolves current batch left resolved refused) :
    r.apply current id batch = r.publish resolved id >>= fun previous =>
      r.answer resolved (left.deployed refused) previous left.generated left.values.records
        (left.notDeployed refused) := by
  unfold apply
  rw [h.remaining]
  show (if left.batch.requestedIdentifiers = [] then _ else _) = _
  rw [if_neg h.requested, h.validated]
  rfl

/-- Without anything resolved, nothing is done to the roots. -/
theorem apply_unresolved (h : ∀ left resolved refused,
    ¬ r.Resolves current batch left resolved refused) :
    (r.apply current id batch faults w).2.2 = w := by
  unfold apply
  cases hleft : r.remaining current batch with
  | error e => rfl
  | ok left =>
    show ((if left.batch.requestedIdentifiers = [] then _ else _ :
      Faulty Roots String AppliedOutput) faults w).2.2 = w
    by_cases hn : left.batch.requestedIdentifiers = []
    · rw [if_pos hn]
      exact Meets.final (E := (· = w)) keeps_report faults rfl
    · rw [if_neg hn]
      cases hv : r.validateRemaining left.batch with
      | error e => rfl
      | ok resolved => exact absurd ⟨hleft, hn, hv⟩ (h left resolved.1 resolved.2)

theorem partition_eq_nil {resolved : ResolvedBatch} :
    resolved.partition.1 = [] ∧ resolved.partition.2 = [] ↔ resolved = [] := by
  constructor
  · rintro ⟨hs, hp⟩
    rw [List.eq_nil_iff_forall_not_mem]
    intro e he
    by_cases hc : e.secretClass = .publicInfo
    · have hmem : e ∈ resolved.partition.2 := List.mem_filter.mpr ⟨he, by simpa using hc⟩
      rw [hp] at hmem
      cases hmem
    · have hmem : e ∈ resolved.partition.1 := List.mem_filter.mpr ⟨he, by simpa using hc⟩
      rw [hs] at hmem
      cases hmem
  · rintro rfl
    exact ⟨rfl, rfl⟩

/-- Nothing is published of a batch that is refused as a whole. -/
theorem Resolves.apply_nil (h : r.Resolves current batch left [] refused) :
    (r.apply current id batch faults w).2.2 = w := by
  rw [h.apply_eq, Receiver.publish, if_pos (partition_eq_nil.mpr rfl)]
  exact answer_state

theorem Resolves.deployed_iff (h : r.Resolves current batch left resolved refused) (k : String) :
    k ∈ left.deployed refused ↔ k ∈ resolved.map ResolvedSecret.identifier := by
  have hv := h.validated
  rw [validateRemaining, except_mapError_ok] at hv
  obtain ⟨schema, expected, supplied, _, _, _, hs⟩ := TargetHost.loadAndValidate_sorted hv
  have hleft : k ∈ left.batch.requestedIdentifiers → k ∉ left.generated.notDeployed := by
    have hr := h.remaining
    simp only [Receiver.remaining, except_bind_ok] at hr
    obtain ⟨generated, _, values, _, hr⟩ := hr
    cases hr
    intro hk
    simpa using (List.mem_filter.mp hk).2
  rw [Remaining.deployed, List.mem_filter, hs.resolved, decide_eq_true_iff]
  refine and_congr_right fun hk => ?_
  rw [Remaining.notDeployed, Std.ExtTreeMap.mem_union_iff, hs.leftOut]
  obtain ⟨outcome, houtcome⟩ := hs.all k hk
  simp only [houtcome, hleft hk, hk, false_or, true_and]
  cases outcome with
  | ok entry => simp
  | error reason => simp

end Apply

end Receiver

end NixSecrets
