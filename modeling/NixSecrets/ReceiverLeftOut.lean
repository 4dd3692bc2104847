import NixSecrets.ReceiverHonest
import NixSecrets.VersionHistory

namespace NixSecrets

open Faulty

/-- What of a batch goes into a root. -/
def ResolvedBatch.at (resolved : ResolvedBatch) : Side → ResolvedBatch
  | .secrets => resolved.partition.1
  | .publicInfo => resolved.partition.2

def ResolvedBatch.entries (batch : ResolvedBatch) : List ValidatedSecret :=
  batch.map fun spec => ⟨spec, spec.relative⟩

theorem validate_entries {batch : ResolvedBatch} {entries : List ValidatedSecret}
    (h : validate batch = .ok entries) : entries = batch.entries := by
  obtain ⟨hspec, _, ha⟩ := validate_ok h
  rw [ResolvedBatch.entries, ← hspec, List.map_map]
  conv_lhs => rw [← List.map_id entries]
  refine List.map_congr_left fun e he => ?_
  have hrelative := (ha.named e he).1
  show e = ⟨e.spec, e.spec.relative⟩
  rw [← hrelative]

/-- A root has changed for these values alone. -/
def Laid (p : Platform) (w w' : Roots) (side : Side) (batch : ResolvedBatch) : Prop :=
  if batch = [] then (w'.at side).currentTree = (w.at side).currentTree
  else ∃ new, (w'.at side).currentTree = .ok (some new) ∧
    CarriedOver p ((w.settledTree side).getD .empty) new (w.settledVersions p side) batch.entries

/-- Nothing that a root would carry over stands under the version map's name. -/
def Clean (w : Roots) (side : Side) (batch : ResolvedBatch) : Prop :=
  batch = [] ∨ Unshadowed ((w.settledTree side).getD .empty) batch.entries

section Laid

variable {p : Platform} {x : Settled} {free : String → Prop} {w w' : Roots} {id : String}

theorem rested_currentTree (hw : Deploy.Rested x free w) (side : Side) :
    (w.at side).currentTree = .ok (w.settledTree side) := by
  have hsteady : w.Steady x free := ⟨hw.1.steady, hw.2.steady⟩
  obtain ⟨hsecrets, hpublic⟩ := hsteady.settledAt_eq
  cases side with
  | secrets =>
    rw [Roots.settledTree, hsecrets]
    exact recovered_currentTree hw.1 (Root.Shrunk.refl _)
  | publicInfo =>
    rw [Roots.settledTree, hpublic]
    exact recovered_currentTree hw.2 (Root.Shrunk.refl _)

theorem laid_nil (p : Platform) (w : Roots) (side : Side) : Laid p w w side [] := by
  rw [Laid, if_pos rfl]

/-- A joint deployment that reports success has changed both roots for its values alone, just
when nothing stood under the version map's name. -/
theorem together_laid_iff {resolved : ResolvedBatch} {faults rest : List Fault}
    {previous : BTreeMap String String} (hv : validGeneration id = true) (hid : free id)
    (hw : Deploy.Rested x free w)
    (hrun : Deploy.together p (some resolved.partition.1) (some resolved.partition.2) id faults w =
      (.done previous, rest, w')) (side : Side) :
    Laid p w w' side (resolved.at side) ↔ Clean w side (resolved.at side) := by
  have hsteady : w.Steady x free := ⟨hw.1.steady, hw.2.steady⟩
  have hbatch : batchFor side (some resolved.partition.1) (some resolved.partition.2) =
      some (resolved.at side) := by cases side <;> rfl
  by_cases hne : resolved.at side = []
  · have hjoint := (Deploy.meets_together hv hid hsteady).done rfl hrun
    have hasked : asked (batchFor side (some resolved.partition.1) (some resolved.partition.2)) =
        false := by
      rw [hbatch, hne]
      rfl
    have hsame := (undeployed_settled hsteady hjoint hasked).1
    rw [Laid, if_pos hne]
    refine ⟨fun _ => Or.inl hne, fun _ => ?_⟩
    rw [hsame, rested_currentTree hw side]
  · obtain ⟨entries, new, hentries, hstaged, hnew, _⟩ :=
      deploys_staged hsteady hv hid (Deploys.joint hrun hbatch hne)
    obtain ⟨versions, hversions, hiff⟩ := carriedOver_iff (validate_ok hentries).2.2 hstaged
    have he := validate_entries hentries
    subst he
    rw [Laid, if_neg hne, Clean, Roots.settledVersions, versionsOver_eq hversions, ← hiff]
    constructor
    · rintro ⟨new', hnew', hc⟩
      have hsame := Except.ok.inj (hnew'.symm.trans hnew)
      cases hsame
      exact Or.inr hc
    · rintro (hn | hc)
      · exact absurd hn hne
      · exact ⟨new, hnew, hc⟩

end Laid

namespace Receiver

variable {r : Receiver}

/-- The tasks and the generation of values end well, and validation accepts what they leave
or leaves it out. -/
structure Admits (r : Receiver) (current : BTreeMap String String) (batch : WireBatch)
    (left : Remaining) (resolved : ResolvedBatch) (refused : BTreeMap String String) : Prop where
  remaining : r.remaining current batch = .ok left
  accepted : if left.batch.requestedIdentifiers = [] then resolved = [] ∧ refused = ∅
    else r.validateRemaining left.batch = .ok (resolved, refused)

def LeftOutByTask (r : Receiver) (batch : WireBatch) (k : String) : Prop :=
  ∃ published, r.pendingPublic batch.entries = .ok published ∧
    GeneratedTasks.LeftOut (r.task published) batch.tasks k

def RefusedHere (r : Receiver) (batch : DeploymentBatch) (k : String) : Prop :=
  k ∈ batch.requestedIdentifiers ∧ ∃ schema expected supplied, r.schema = .ok schema ∧
    r.expected schema = .ok expected ∧ collectSupplied batch.entries ∅ = .ok supplied ∧
    r.Refuses expected supplied k

/-- Refused by one of the two stages. -/
def Refused (r : Receiver) (batch : WireBatch) (left : Remaining) (k : String) : Prop :=
  r.LeftOutByTask batch k ∨ r.RefusedHere left.batch k

/-- The value is the one supplied or produced under its identifier. -/
def SuppliedBy (r : Receiver) (batch : DeploymentBatch) (spec : ResolvedSecret) : Prop :=
  ∃ value ∈ batch.entries, value.identifier = spec.identifier ∧ spec.versionId = value.versionId ∧
    r.checks.decodeBase64 value.contentsBase64 = some spec.contents

/-- The batch is applied without the values that were refused. -/
def LeavesOut (r : Receiver) (batch : WireBatch) (left : Remaining) (resolved : ResolvedBatch)
    (w : Roots) (run : Ended String AppliedOutput × List Fault × Roots) : Prop :=
  ∃ output, run.1 = .done output ∧ (∀ k, k ∈ output.notDeployed ↔ r.Refused batch left k) ∧
    output.generatedRecords = left.values.records ∧
    output.generatedPublicKeys = left.generated.publicKeys ∧
    (∀ k, k ∈ resolved.map ResolvedSecret.identifier ↔
      k ∈ batch.requestedIdentifiers ++ batch.requestedTasks ∧ ¬ r.Refused batch left k) ∧
    (∀ spec ∈ resolved, r.SuppliedBy left.batch spec) ∧
    ∀ side, Laid r.platform w run.2.2 side (resolved.at side)

section Stages

variable {current : BTreeMap String String} {batch : WireBatch} {left : Remaining}
  {resolved : ResolvedBatch} {refused : BTreeMap String String}

theorem remaining_notDeployed (h : r.remaining current batch = .ok left) (k : String) :
    k ∈ left.generated.notDeployed ↔ r.LeftOutByTask batch k := by
  simp only [Receiver.remaining, except_bind_ok, except_mapError_ok] at h
  obtain ⟨generated, hgenerated, values, _, h⟩ := h
  cases h
  simp only [runGeneratedTasksWith, except_bind_ok] at hgenerated
  obtain ⟨_, _, published, hpublished, hrun⟩ := hgenerated
  have hk := GeneratedTasks.runEntries_notDeployed hrun k
  rw [hk]
  constructor
  · rintro (hl | hn)
    · exact ⟨published, hpublished, hl⟩
    · simp at hn
  · rintro ⟨published', hpublished', hl⟩
    rw [hpublished] at hpublished'
    cases hpublished'
    exact Or.inl hl

theorem remaining_requested (h : r.remaining current batch = .ok left) (k : String) :
    k ∈ left.batch.requestedIdentifiers ↔
      k ∈ batch.requestedIdentifiers ++ batch.requestedTasks ∧ k ∉ left.generated.notDeployed := by
  simp only [Receiver.remaining, except_bind_ok] at h
  obtain ⟨generated, _, values, _, h⟩ := h
  cases h
  rw [List.mem_filter, decide_eq_true_iff]

theorem Admits.refused_iff (h : r.Admits current batch left resolved refused) (k : String) :
    k ∈ left.notDeployed refused ↔ r.Refused batch left k := by
  rw [Remaining.notDeployed, Std.ExtTreeMap.mem_union_iff, remaining_notDeployed h.remaining, Refused]
  refine or_congr_right ?_
  have ha := h.accepted
  split at ha
  next hn =>
    rw [ha.2, RefusedHere, hn]
    simp
  next =>
    rw [validateRemaining, except_mapError_ok] at ha
    obtain ⟨schema, expected, supplied, hschema, hexpected, hsupplied, hs⟩ :=
      TargetHost.loadAndValidate_sorted ha
    rw [hs.leftOut, RefusedHere]
    refine and_congr_right fun _ => ?_
    rw [← TargetHost.refuses_iff]
    constructor
    · exact fun hr => ⟨schema, expected, supplied, hschema, hexpected, hsupplied, hr⟩
    · rintro ⟨schema', expected', supplied', hschema', hexpected', hsupplied', hr⟩
      cases hschema.symm.trans hschema'
      cases hexpected.symm.trans hexpected'
      cases hsupplied.symm.trans hsupplied'
      exact hr

theorem Admits.resolves (h : r.Admits current batch left resolved refused)
    (hn : left.batch.requestedIdentifiers ≠ []) : r.Resolves current batch left resolved refused := by
  have ha := h.accepted
  rw [if_neg hn] at ha
  exact ⟨h.remaining, hn, ha⟩

theorem Admits.resolved_iff (h : r.Admits current batch left resolved refused) (k : String) :
    k ∈ resolved.map ResolvedSecret.identifier ↔
      k ∈ batch.requestedIdentifiers ++ batch.requestedTasks ∧ ¬ r.Refused batch left k := by
  have hrequested := remaining_requested h.remaining k
  have hrefused := h.refused_iff k
  rw [Remaining.notDeployed, Std.ExtTreeMap.mem_union_iff] at hrefused
  by_cases hn : left.batch.requestedIdentifiers = []
  · have ha := h.accepted
    rw [if_pos hn] at ha
    obtain ⟨rfl, rfl⟩ := ha
    rw [hn] at hrequested
    simp at hrequested hrefused ⊢
    exact fun hk => hrefused.mp (hrequested hk)
  · rw [← (h.resolves hn).deployed_iff, Remaining.deployed, List.mem_filter, decide_eq_true_iff,
      h.refused_iff, hrequested]
    tauto

theorem Admits.supplied (h : r.Admits current batch left resolved refused) :
    ∀ spec ∈ resolved, r.SuppliedBy left.batch spec := by
  intro spec hspec
  have ha := h.accepted
  split at ha
  next =>
    rw [ha.1] at hspec
    cases hspec
  next =>
    rw [validateRemaining, except_mapError_ok] at ha
    obtain ⟨schema, expected, supplied, _, _, hsupplied, hs⟩ := TargetHost.loadAndValidate_sorted ha
    obtain ⟨value, hvalue, hversion, hcontents⟩ :=
      TargetHost.resolveRequested_supplied (hs.entries spec hspec)
    rcases TargetHost.collectSupplied_mem hsupplied hvalue with ⟨hmem, hid⟩ | hnone
    · exact ⟨value, hmem, hid, hversion, hcontents⟩
    · simp at hnone

end Stages

/-- The values that are left can be deployed: there are none once the tasks have run, or at
least one and at most as many as an event holds are accepted, and what follows goes well. -/
def Deployable (r : Receiver) (left : Remaining) (resolved : ResolvedBatch)
    (refused : BTreeMap String String) (id : String) (faults : List Fault) (w : Roots) : Prop :=
  if left.batch.requestedIdentifiers = [] then (r.currentVersions faults w).1.isDone = true
  else resolved ≠ [] ∧ (left.deployed refused).length ≤ maxAuditChanges ∧
    (∀ side, Clean w side (resolved.at side)) ∧
    match Deploy.together r.platform (some resolved.partition.1) (some resolved.partition.2) id
        faults w with
    | (.done previous, rest, w') => r.Recorded resolved (left.deployed refused) previous ∧
        (r.currentVersions rest w').1.isDone = true
    | _ => False

section LeftOut

variable {current : BTreeMap String String} {batch : WireBatch} {left : Remaining}
  {resolved : ResolvedBatch} {refused : BTreeMap String String} {id : String} {faults : List Fault}
  {w : Roots}

theorem report_done {generated : GeneratedTasks} {records : BTreeMap String GeneratedRecord}
    {notDeployed : BTreeMap String String} {output : AppliedOutput}
    (h : (r.report generated records notDeployed faults w).1 = .done output) :
    (r.currentVersions faults w).1.isDone = true ∧ output.notDeployed = notDeployed ∧
      output.generatedRecords = records ∧ output.generatedPublicKeys = generated.publicKeys := by
  rw [report, bind_run] at h
  cases hv : r.currentVersions faults w with
  | mk out rest =>
    rw [hv] at h
    cases out with
    | done versions =>
      cases h
      exact ⟨rfl, rfl, rfl, rfl⟩
    | failed e => cases h
    | crashed => cases h

theorem report_completes {generated : GeneratedTasks} {records : BTreeMap String GeneratedRecord}
    {notDeployed : BTreeMap String String} (h : (r.currentVersions faults w).1.isDone = true) :
    ∃ output, (r.report generated records notDeployed faults w).1 = .done output := by
  obtain ⟨versions, hv⟩ := done_of_isDone h
  rw [report, run_bind hv]
  exact ⟨_, rfl⟩

theorem report_state {generated : GeneratedTasks} {records : BTreeMap String GeneratedRecord}
    {notDeployed : BTreeMap String String} :
    (r.report generated records notDeployed faults w).2.2 = w :=
  Meets.final (E := (· = w)) keeps_report faults rfl

/-- The report on a batch, once the roots are as they should be, is the one promised. -/
theorem Admits.leavesOut_report (h : r.Admits current batch left resolved refused) {w' : Roots}
    (hd : (r.currentVersions faults w').1.isDone = true)
    (hlaid : ∀ side, Laid r.platform w w' side (resolved.at side)) :
    r.LeavesOut batch left resolved w
      (r.report left.generated left.values.records (left.notDeployed refused) faults w') := by
  have hcompletes : ∃ output, (r.report left.generated left.values.records
      (left.notDeployed refused) faults w').1 = .done output := report_completes hd
  obtain ⟨output, houtput⟩ := hcompletes
  obtain ⟨_, hn, hrecords, hkeys⟩ := report_done houtput
  refine ⟨output, houtput, fun k => ?_, hrecords, hkeys, h.resolved_iff, h.supplied, ?_⟩
  · rw [hn]
    exact h.refused_iff k
  · rw [report_state]
    exact hlaid

theorem Admits.apply_nothing (h : r.Admits current batch left resolved refused)
    (hn : left.batch.requestedIdentifiers = []) :
    resolved = [] ∧ r.apply current id batch faults w =
      r.report left.generated left.values.records (left.notDeployed refused) faults w := by
  have ha := h.accepted
  rw [if_pos hn] at ha
  obtain ⟨rfl, rfl⟩ := ha
  have hunion : left.notDeployed ∅ = left.generated.notDeployed := by
    refine Std.ExtTreeMap.ext_getElem? fun k => ?_
    rw [Remaining.notDeployed, Std.ExtTreeMap.getElem?_union]
    simp
  refine ⟨rfl, ?_⟩
  unfold apply
  rw [h.remaining, hunion]
  show (if left.batch.requestedIdentifiers = [] then _ else _ :
    Faulty Roots String AppliedOutput) faults w = _
  rw [if_pos hn]

theorem leavesOut_isDone {run : Ended String AppliedOutput × List Fault × Roots}
    (h : r.LeavesOut batch left resolved w run) : run.1.isDone = true := by
  obtain ⟨output, houtput, _⟩ := h
  rw [houtput]
  rfl

/-- A batch refused as a whole by validation is not applied. -/
theorem Resolves.not_leavesOut (h : r.Resolves current batch left [] refused) :
    ¬ r.LeavesOut batch left [] w (r.apply current id batch faults w) := by
  intro hl
  have hnone : left.deployed refused = [] := by
    rw [List.eq_nil_iff_forall_not_mem]
    intro k hk
    have hmem := (h.deployed_iff k).mp hk
    cases hmem
  have hdone := leavesOut_isDone hl
  rw [h.apply_eq, Receiver.publish, if_pos (partition_eq_nil.mpr rfl), hnone] at hdone
  cases hdone

theorem Admits.answer_leavesOut_iff {x : Settled} {free : String → Prop} {rest : List Fault}
    {previous : BTreeMap String String} {w' : Roots}
    (h : r.Admits current batch left resolved refused) (hv : validGeneration id = true)
    (hid : free id) (hw : Deploy.Rested x free w) (hn : left.batch.requestedIdentifiers ≠ [])
    (hne : resolved ≠ [])
    (hrun : Deploy.together r.platform (some resolved.partition.1) (some resolved.partition.2) id
      faults w = (.done previous, rest, w')) :
    r.LeavesOut batch left resolved w (r.answer resolved (left.deployed refused) previous
        left.generated left.values.records (left.notDeployed refused) rest w') ↔
      (left.deployed refused).length ≤ maxAuditChanges ∧ (∀ side, Clean w side (resolved.at side)) ∧
        r.Recorded resolved (left.deployed refused) previous ∧
        (r.currentVersions rest w').1.isDone = true := by
  have hsome := (h.resolves hn).deployed_ne_nil hne
  constructor
  · rintro ⟨output, houtput, _, _, _, _, _, hlaid⟩
    have hfailed : (r.answer resolved (left.deployed refused) previous left.generated
        left.values.records (left.notDeployed refused) rest w').1.isFailed = false := by
      rw [houtput]
      rfl
    obtain ⟨_, hlength, hrecorded, _⟩ := answer_failed_iff.mp hfailed
    rw [answer_recorded hsome hlength hrecorded] at houtput
    refine ⟨hlength, fun side => ?_, hrecorded, (report_done houtput).1⟩
    have hside := hlaid side
    rw [answer_state] at hside
    exact (together_laid_iff hv hid hw hrun side).mp hside
  · rintro ⟨hlength, hclean, hrecorded, hread⟩
    rw [answer_recorded hsome hlength hrecorded]
    refine h.leavesOut_report hread fun side => ?_
    exact (together_laid_iff hv hid hw hrun side).mpr (hclean side)

/-- A batch in which any of the values is refused is applied without those, just when the
rest can be deployed. -/
theorem apply_leavesOut_iff {attempts : List Attempt} (hs : Started r.platform attempts w)
    (hv : validGeneration id = true) (hid : id ∉ generationIds attempts)
    (h : r.Admits current batch left resolved refused) :
    r.LeavesOut batch left resolved w (r.apply current id batch faults w) ↔
      r.Deployable left resolved refused id faults w := by
  obtain ⟨x, hw⟩ := hs.rested
  by_cases hn : left.batch.requestedIdentifiers = []
  · have hnothing : resolved = [] ∧ r.apply current id batch faults w =
        r.report left.generated left.values.records (left.notDeployed refused) faults w :=
      h.apply_nothing hn
    obtain ⟨rfl, happly⟩ := hnothing
    rw [happly, Deployable, if_pos hn]
    constructor
    · rintro ⟨output, houtput, _⟩
      exact (report_done houtput).1
    · intro hd
      refine h.leavesOut_report hd fun side => ?_
      cases side with
      | secrets => exact laid_nil _ _ _
      | publicInfo => exact laid_nil _ _ _
  · rw [Deployable, if_neg hn]
    by_cases hne : resolved = []
    · subst hne
      exact ⟨fun hl => absurd hl (h.resolves hn).not_leavesOut, fun hd => absurd rfl hd.1⟩
    · have hparts : ¬ (resolved.partition.1 = [] ∧ resolved.partition.2 = []) :=
        fun hp => hne (partition_eq_nil.mp hp)
      rw [(h.resolves hn).apply_eq, bind_run, Receiver.publish, if_neg hparts]
      simp only [mapError]
      cases hrun : Deploy.together r.platform (some resolved.partition.1)
          (some resolved.partition.2) id faults w with
      | mk out rest =>
        obtain ⟨rest, w'⟩ := rest
        cases out with
        | failed e =>
          refine ⟨fun hl => ?_, fun hd => hd.2.2.2.elim⟩
          cases leavesOut_isDone hl
        | crashed =>
          refine ⟨fun hl => ?_, fun hd => hd.2.2.2.elim⟩
          cases leavesOut_isDone hl
        | done previous =>
          have hanswer := h.answer_leavesOut_iff hv hid hw hn hne hrun
          exact hanswer.trans ⟨fun hd => ⟨hne, hd⟩, fun hd => hd.2⟩

end LeftOut

end Receiver

/-- A secret for an account that the host does not have. -/
def webKeyLeaf : SecretLeaf :=
  { destination := ⟨"/persistent/secrets/web/service/key", "service", "web", "root", "0400",
      none, none⟩ }

def mixedReceiver : Receiver :=
  { webReceiver fun _ _ _ => .ok () with
    schema := .ok ((∅ : Schema).insert "host" [("services",
      [("web", .branch [("key", .secret webKeyLeaf), ("token", .secret webTokenLeaf)])])]) }

def keyValue : SecretDeployment := ⟨"host.services.web.key", "v1", "cw=="⟩

def tokenValue : SecretDeployment := ⟨"host.services.web.token", "v1", "cw=="⟩

def mixedBatch : WireBatch :=
  { version := 5
    requestedIdentifiers := ["host.services.web.key", "host.services.web.token"]
    entries := [keyValue, tokenValue] }

def refusedKey : BTreeMap String String :=
  (∅ : BTreeMap String String).insert "host.services.web.key" "its owner web does not exist on this host"

def mixedLeft : Receiver.Remaining :=
  ⟨{}, {}, 5, ["host.services.web.key", "host.services.web.token"], [keyValue, tokenValue]⟩

theorem mixedBatch_admitted :
    mixedReceiver.Admits ∅ mixedBatch mixedLeft [webToken] refusedKey := by
  constructor <;> decide

/-- One value is refused and the other is deployed. -/
theorem mixedBatch_leavesOut : mixedReceiver.LeavesOut mixedBatch mixedLeft [webToken] {}
    (mixedReceiver.apply ∅ firstId mixedBatch [] {}) := by
  refine (Receiver.apply_leavesOut_iff started_empty (by decide) (by simp [generationIds])
    mixedBatch_admitted).mpr ?_
  have hdone : (Deploy.together receiver (some [webToken]) (some []) firstId [] {}).1 = .done ∅ := by
    decide
  have hclean (side : Side) : Clean {} side (ResolvedBatch.at [webToken] side) := by
    refine Or.inr fun path hpath => absurd ?_ hpath
    have hnone : (({} : Roots).settledTree side).getD .empty = .empty := by cases side <;> rfl
    rw [hnone, Listing.node?_empty]
  have hread : (mixedReceiver.currentVersions
      (Deploy.together receiver (some [webToken]) (some []) firstId [] {}).2.1
      (Deploy.together receiver (some [webToken]) (some []) firstId [] {}).2.2).1.isDone = true := by
    decide
  have hrecorded : mixedReceiver.Recorded [webToken] (mixedLeft.deployed refusedKey) ∅ :=
    ⟨"2026-01-01T00:00:00Z", rfl, by decide +kernel⟩
  rw [Receiver.Deployable, if_neg (by decide)]
  refine ⟨by simp, by decide, hclean, ?_⟩
  show match Deploy.together receiver (some [webToken]) (some []) firstId [] {} with
    | (.done previous, rest, w') => mixedReceiver.Recorded [webToken] (mixedLeft.deployed refusedKey)
        previous ∧ (mixedReceiver.currentVersions rest w').1.isDone = true
    | _ => False
  generalize Deploy.together receiver (some [webToken]) (some []) firstId [] {} = run at hdone hread
  obtain ⟨out, rest, w'⟩ := run
  cases hdone
  exact ⟨hrecorded, hread⟩

def refusedBatch : WireBatch :=
  { version := 5
    requestedIdentifiers := ["host.services.web.key"]
    entries := [keyValue] }

def refusedLeft : Receiver.Remaining := ⟨{}, {}, 5, ["host.services.web.key"], [keyValue]⟩

/-- A batch of which every value is refused fails, when it was to be applied without them. -/
theorem refused_batch_fails : ¬ ∀ (r : Receiver) (attempts : List Attempt) (w : Roots)
    (current : BTreeMap String String) (id : String) (batch : WireBatch) (faults : List Fault)
    (left : Receiver.Remaining) (resolved : ResolvedBatch) (refused : BTreeMap String String),
    Started r.platform attempts w → validGeneration id = true → id ∉ generationIds attempts →
    r.Admits current batch left resolved refused →
    r.LeavesOut batch left resolved w (r.apply current id batch faults w) := by
  intro h
  have hadmitted : mixedReceiver.Admits ∅ refusedBatch refusedLeft [] refusedKey := by
    constructor <;> decide
  have hl := h mixedReceiver [] {} ∅ firstId refusedBatch [] refusedLeft [] refusedKey started_empty
    (by decide) (by simp [generationIds]) hadmitted
  have hfailed : (mixedReceiver.apply ∅ firstId refusedBatch [] {}).1.isDone = false := by
    decide
  rw [Receiver.leavesOut_isDone hl] at hfailed
  cases hfailed

end NixSecrets
