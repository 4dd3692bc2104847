import NixSecrets.DeployCarried

namespace NixSecrets

/-- The versions that batches deployed one after the other leave installed. -/
def versionsOf (batches : List ResolvedBatch) : BTreeMap String String :=
  batches.flatten.foldl (fun versions spec => versions.insert spec.identifier spec.versionId) ∅

/-- Deployments from empty roots that all report success; `batches` are those of one root. -/
inductive DeployedRun (p : Platform) (side : Side) :
    List ResolvedBatch → List String → Roots → Prop
  | start : DeployedRun p side [] [] {}
  | into {batches : List ResolvedBatch} {ids : List String} {batch : ResolvedBatch} {id : String}
      {w w' : Roots} (hrun : DeployedRun p side batches ids w) (hv : validGeneration id = true)
      (hid : id ∉ ids) (h : Deploys p side batch id w w') :
      DeployedRun p side (batches ++ [batch]) (id :: ids) w'
  | elsewhere {batches : List ResolvedBatch} {ids : List String} {id : String} {w w' : Roots}
      {secrets publicInfo : Option ResolvedBatch} {faults rest : List Fault}
      {previous : BTreeMap String String} (hrun : DeployedRun p side batches ids w)
      (hv : validGeneration id = true) (hid : id ∉ ids)
      (h : Deploy.together p secrets publicInfo id faults w = (.done previous, rest, w'))
      (hn : asked (batchFor side secrets publicInfo) = false) :
      DeployedRun p side batches (id :: ids) w'

/-- The generation records the versions of every batch so far. -/
def Records (p : Platform) (batches : List ResolvedBatch) (old : Option Tree) : Prop :=
  (batches = [] ∧ old = none) ∨ ∃ tree f, batches ≠ [] ∧ old = some tree ∧
    tree.get? versionsName = some (.file f) ∧ f.bytes = p.codec.encode (versionsOf batches)

theorem readVersions_recorded {p : Platform} {tree : Tree} {f : File}
    {versions : BTreeMap String String} (hf : tree.get? versionsName = some (.file f))
    (hb : f.bytes = p.codec.encode versions) :
    readVersions p tree = if maxVersionsBytes < (p.codec.encode versions).length then
      .error (.invalid "generation version metadata is invalid") else .ok versions := by
  rw [readVersions, hf]
  simp only [hb, p.codec.decode_encode]
  rfl

theorem Records.versions_eq {p : Platform} {batches : List ResolvedBatch} {old : Option Tree}
    {versions : BTreeMap String String} (h : Records p batches old)
    (hv : versionsOver p old = .ok versions) : versions = versionsOf batches := by
  rcases h with ⟨rfl, rfl⟩ | ⟨tree, f, _, rfl, hf, hb⟩
  · cases hv
    rfl
  · rw [versionsOver, readVersions_recorded hf hb] at hv
    split at hv
    next => cases hv
    next =>
      cases hv
      rfl

theorem mergeVersions_versionsOf {batches : List ResolvedBatch} {batch : ResolvedBatch}
    {entries : List ValidatedSecret} (h : entries.map ValidatedSecret.spec = batch) :
    mergeVersions (versionsOf batches) entries = versionsOf (batches ++ [batch]) := by
  simp [versionsOf, mergeVersions, ← h, List.foldl_map]

theorem stagedOver_records {p : Platform} {batches : List ResolvedBatch} {batch : ResolvedBatch}
    {old : Option Tree} {entries : List ValidatedSecret} {new : Tree} (h : Records p batches old)
    (he : entries.map ValidatedSecret.spec = batch) (hs : stagedOver p old entries = .ok new) :
    Records p (batches ++ [batch]) (some new) := by
  simp only [stagedOver, except_bind_ok] at hs
  obtain ⟨_, _, tree, _, versions, hv, hs⟩ := hs
  have hversions := h.versions_eq hv
  subst hversions
  unfold stageVersions at hs
  split at hs
  next => cases hs
  next =>
    cases hs
    refine Or.inr ⟨_, ⟨p.codec.encode (mergeVersions (versionsOf batches) entries), p.uid, p.gid,
      0o600, none⟩, by simp, rfl, ?_, ?_⟩
    · rw [Listing.get?_set, if_pos rfl]
    · rw [mergeVersions_versionsOf he]

/-- What holds of a root after each successful deployment. -/
structure Recorded (p : Platform) (side : Side) (batches : List ResolvedBatch) (ids : List String)
    (w : Roots) : Prop where
  steady : ∃ x, w.Steady x (· ∉ ids)
  current : (w.at side).currentTree = .ok (w.settledTree side)
  records : Records p batches (w.settledTree side)

theorem Recorded.start (p : Platform) (side : Side) : Recorded p side [] [] {} := by
  refine ⟨⟨(none, none), steady_empty.mono fun _ _ => trivial⟩, ?_, Or.inl ⟨rfl, ?_⟩⟩
  · cases side <;> rfl
  · cases side <;> rfl

theorem Recorded.into {p : Platform} {side : Side} {batches : List ResolvedBatch}
    {ids : List String} {batch : ResolvedBatch} {id : String} {w w' : Roots}
    (hr : Recorded p side batches ids w) (hv : validGeneration id = true) (hid : id ∉ ids)
    (h : Deploys p side batch id w w') : Recorded p side (batches ++ [batch]) (id :: ids) w' := by
  obtain ⟨x, hw⟩ := hr.steady
  obtain ⟨entries, new, hentries, hstaged, hcurrent, hsettled, y, hy⟩ := deploys_staged hw hv hid h
  refine ⟨⟨y, hy.mono fun k hk => ?_⟩, by rw [hcurrent, hsettled], ?_⟩
  · rw [List.mem_cons, not_or] at hk
    exact ⟨hk.2, hk.1⟩
  · rw [hsettled]
    exact stagedOver_records hr.records (validate_ok hentries).1 hstaged

/-- A root that a joint deployment has no batch for stays where it was to be. -/
theorem undeployed_settled {p : Platform} {x : Settled} {free : String → Prop} {side : Side}
    {secrets publicInfo : Option ResolvedBatch} {id : String} {previous : BTreeMap String String}
    {w w' : Roots} (hw : w.Steady x free)
    (h : Deploy.JointlyDeployed p x free w secrets publicInfo id previous w')
    (hn : asked (batchFor side secrets publicInfo) = false) :
    (w'.at side).currentTree = .ok (w.settledTree side) ∧
      w'.settledTree side = w.settledTree side := by
  have same {settled commit : Option String} {r₀ r : Root}
      (hr : Deploy.Recovered commit settled free true r) (hs : r₀.Shrunk r)
      (h₀ : w.settledTree side = settled.bind fun k => r₀.generations[k]?.map Generation.tree)
      (h' : w'.settledTree side = settled.bind fun k => r.generations[k]?.map Generation.tree)
      (ha : w'.at side = r) : (w'.at side).currentTree = .ok (w.settledTree side) ∧
        w'.settledTree side = w.settledTree side := by
    have hbefore := recovered_currentTree hr hs
    have hafter := recovered_currentTree hr (Root.Shrunk.refl r)
    rw [ha, h₀, h']
    exact ⟨hbefore, Except.ok.inj (hafter.symm.trans hbefore)⟩
  obtain ⟨hsecrets, hpublic⟩ := hw.settledAt_eq
  obtain ⟨hsecrets', hpublic'⟩ := h.steady.settledAt_eq
  obtain ⟨es, ep, rs, rp, hvs, hvp, hrs, hrp, hss, hsp, hd⟩ := h
  cases side with
  | secrets =>
    have hasked : asked secrets = false := hn
    have hnone : es = none := by
      rw [← Option.isNone_iff_eq_none, ← Option.not_isSome, Deploy.validated_isSome hvs, hasked]
      rfl
    subst hnone
    have hr : w'.secrets = rs := hd.secrets
    refine same hrs hss ?_ ?_ hr
    · rw [Roots.settledTree, hsecrets]
      rfl
    · rw [Roots.settledTree, hsecrets', Settled.joint, hasked, ← hr]
      rfl
  | publicInfo =>
    have hasked : asked publicInfo = false := hn
    have hnone : ep = none := by
      rw [← Option.isNone_iff_eq_none, ← Option.not_isSome, Deploy.validated_isSome hvp, hasked]
      rfl
    subst hnone
    have hr : w'.publicInfo = rp := hd.publicInfo
    refine same hrp hsp ?_ ?_ hr
    · rw [Roots.settledTree, hpublic]
      rfl
    · rw [Roots.settledTree, hpublic', Settled.joint, hasked, ← hr]
      rfl

theorem Recorded.elsewhere {p : Platform} {side : Side} {batches : List ResolvedBatch}
    {ids : List String} {id : String} {w w' : Roots} {secrets publicInfo : Option ResolvedBatch}
    {faults rest : List Fault} {previous : BTreeMap String String}
    (hr : Recorded p side batches ids w) (hv : validGeneration id = true) (hid : id ∉ ids)
    (h : Deploy.together p secrets publicInfo id faults w = (.done previous, rest, w'))
    (hn : asked (batchFor side secrets publicInfo) = false) :
    Recorded p side batches (id :: ids) w' := by
  obtain ⟨x, hw⟩ := hr.steady
  have hjoint := (Deploy.meets_together hv hid hw).done rfl h
  obtain ⟨hcurrent, hsettled⟩ := undeployed_settled hw hjoint hn
  refine ⟨⟨_, hjoint.steady.mono fun k hk => ?_⟩, by rw [hcurrent, hsettled], ?_⟩
  · rw [List.mem_cons, not_or] at hk
    exact ⟨hk.2, hk.1⟩
  · rw [hsettled]
    exact hr.records

theorem run_recorded {p : Platform} {side : Side} {batches : List ResolvedBatch}
    {ids : List String} {w : Roots} (h : DeployedRun p side batches ids w) :
    Recorded p side batches ids w := by
  induction h with
  | start => exact Recorded.start p side
  | into _ hv hid h ih => exact ih.into hv hid h
  | elsewhere _ hv hid h hn ih => exact ih.elsewhere hv hid h hn

theorem run_currentVersions {p : Platform} {side : Side} {batches : List ResolvedBatch}
    {ids : List String} {w : Roots} (h : DeployedRun p side batches ids w) :
    (w.at side).currentVersions p =
      if batches ≠ [] ∧ maxVersionsBytes < (p.codec.encode (versionsOf batches)).length then
        .error (.invalid "generation version metadata is invalid")
      else .ok (versionsOf batches) := by
  obtain ⟨_, hcurrent, hrecords⟩ := run_recorded h
  have hread : (w.at side).currentVersions p = versionsOver p (w.settledTree side) := by
    unfold Root.currentVersions
    rw [hcurrent]
    cases w.settledTree side <;> rfl
  rw [hread]
  rcases hrecords with ⟨rfl, hnone⟩ | ⟨tree, f, hne, hsome, hf, hb⟩
  · rw [hnone, if_neg (by simp)]
    rfl
  · rw [hsome, versionsOver, readVersions_recorded hf hb]
    exact if_congr (by simp [hne]) rfl rfl

/-- After any run of successful deployments the version map is read back just when its
encoding fits the reader's limit. -/
theorem run_versions_accepted_iff {p : Platform} {side : Side} {batches : List ResolvedBatch}
    {ids : List String} {w : Roots} (h : DeployedRun p side batches ids w) :
    (∃ versions, (w.at side).currentVersions p = .ok versions) ↔
      batches = [] ∨ (p.codec.encode (versionsOf batches)).length ≤ maxVersionsBytes := by
  rw [run_currentVersions h]
  by_cases hn : batches ≠ [] ∧ maxVersionsBytes < (p.codec.encode (versionsOf batches)).length
  · rw [if_pos hn]
    constructor
    · rintro ⟨versions, hv⟩
      cases hv
    · rintro (he | hle)
      · exact absurd he hn.1
      · omega
  · rw [if_neg hn]
    refine ⟨fun _ => ?_, fun _ => ⟨_, rfl⟩⟩
    by_contra hc
    rw [not_or, Nat.not_le] at hc
    exact hn hc

theorem first_versions_accepted : ∃ versions,
    (((Deploy.together receiver (some [webToken]) none firstId [] {}).2.2).at .secrets).currentVersions
      receiver = .ok versions := by
  have hdone : (Deploy.together receiver (some [webToken]) none firstId [] {}).1.isDone = true := by
    decide +kernel
  obtain ⟨previous, hrun⟩ := done_of_isDone hdone
  have hdeploys : Deploys receiver .secrets [webToken] firstId {} _ := .joint hrun rfl (by simp)
  have hsize : (receiver.codec.encode (versionsOf [[webToken]])).length ≤ maxVersionsBytes := by
    decide +kernel
  exact (run_versions_accepted_iff
    (DeployedRun.start.into (by decide +kernel) (by simp) hdeploys)).mpr (Or.inr hsize)

end NixSecrets
