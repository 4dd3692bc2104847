import NixSecrets.DeployTrees
import NixSecrets.StoreDocument
import NixSecrets.ValueGeneration

namespace NixSecrets

/-- What a declared default does to the value installed at its destination. -/
inductive DefaultDecision
  | install
  | unchanged
  | replace
  | keepOperatorValue
  deriving DecidableEq, Repr

/-- The destination as found under the deployment lock; a regular file of plausible size has
a digest. -/
inductive Installed
  | absent
  | present (digest : Option String)
  deriving DecidableEq, Repr

/-- The version of the installed value, the version recorded as installed by default, that
of the declared default, and the installed file. -/
def DefaultDecision.decide (recorded installedByDefault : Option String) (newVersion : String)
    (installed : Installed) : DefaultDecision :=
  match recorded, installed with
  | none, .absent => .install
  | some recorded, installed =>
    if recorded = newVersion then .unchanged
    else if installedByDefault = some recorded ∧ installed = .present (some recorded) then .replace
    else .keepOperatorValue
  | none, .present _ => .keepOperatorValue

def DefaultDecision.proceeds : DefaultDecision → Bool
  | .install | .replace => true
  | .unchanged | .keepOperatorValue => false

/-- Both roots, and the files under `.public-defaults` in the public-info root. -/
structure PublicRoot where
  roots : Roots := {}
  records : BTreeMap String (List UInt8) := ∅
  deriving DecidableEq

def provenanceDir : String := ".public-defaults"

/-- The leaf of the manifest that declares a default. -/
structure DefaultLeaf where
  publicInfo : Bool
  installDefaultIfMissing : Bool
  sshHosts : List String
  expectedSshPort : Option UInt16
  defaultValue : Option String

structure SourceFile where
  isFile : Bool
  bytes : List UInt8

/-- A call of the installer: the host and manifest it names, its other arguments, and what the
manifest and the source file hold for it. -/
structure DefaultCall where
  target : TargetHost
  identifier : String
  version : String
  path : Except DeployError (List String)
  leaf : Except DeployError DefaultLeaf
  source : Except DeployError SourceFile

/-- What the installer runs on. -/
structure DefaultHost where
  platform : Platform
  sha256 : List UInt8 → List UInt8

namespace DefaultHost

variable (host : DefaultHost)

def sha256Hex (bytes : List UInt8) : String := String.join ((host.sha256 bytes).map hexByte)

def recordName (identifier : String) : String := host.sha256Hex (utf8Bytes identifier.toList)

/-- Anything that is not such a record counts as none. -/
def installedByDefault (records : BTreeMap String (List UInt8)) (identifier : String) : Option String :=
  records[host.recordName identifier]?.bind fun bytes =>
    if 256 < bytes.length then none else (utf8Text bytes).map String.ofList

/-- The record takes effect with the rename of the file that was written beside it. -/
def recordInstalledByDefault (identifier version : String) : Faulty PublicRoot DeployError Unit := do
  Faulty.op .io id
  Faulty.op .io id
  Faulty.op .io fun s => { s with
    records := s.records.insert (host.recordName identifier) (utf8Bytes version.toList) }
  Faulty.op .io id

def digestOf (bytes : List UInt8) : Option String :=
  if Inventory.maxKnownHostsBytes < bytes.length then none else some (host.sha256Hex bytes)

def inspectInstalled (tree : Option Tree) (path : List String) : Installed :=
  match (tree.getD .empty).node? path with
  | none => .absent
  | some (.file f) => .present (host.digestOf f.bytes)
  | some _ => .present none

def decision (records : BTreeMap String (List UInt8)) (entry : ResolvedSecret) (r : Root) :
    Except DeployError DefaultDecision := do
  let versions ← r.currentVersions host.platform
  let tree ← r.currentTree
  return .decide versions[entry.identifier]? (host.installedByDefault records entry.identifier)
    entry.versionId (host.inspectInstalled tree entry.relative)

def onRoots {α : Type} (m : Deploy α) : Faulty PublicRoot DeployError α :=
  m.zoom PublicRoot.roots fun roots s => { s with roots }

def notOneDestination : DeployError :=
  .invalid "public default did not resolve to one public destination"

/-- Says whether the default was installed. -/
def install (batch : ResolvedBatch) (id : String) : Faulty PublicRoot DeployError Bool :=
  match batch with
  | [entry] => do
    Faulty.refuseIf (entry.secretClass ≠ .publicInfo) (.invalid "public default is not public information")
    let s ← Faulty.read
    let deployed ← onRoots (Deploy.deployInner host.platform .publicInfo batch id
      (fun r => (host.decision s.records entry r).map DefaultDecision.proceeds) fun _ => .ok ())
    Faulty.doIf (deployed = true) (host.recordInstalledByDefault entry.identifier entry.versionId)
    return deployed
  | _ => Faulty.throw notOneDestination

/-- The value to install and its version; the leaf's own default stands in for a source that
is invalid under this manifest. -/
def usableDefault (checks : Checks) (leaf : DefaultLeaf) (value : List UInt8) (version : String) :
    Option (List UInt8 × String) :=
  let valid (text : String) : Bool :=
    (checks.sshKnownHosts text leaf.sshHosts (leaf.expectedSshPort.getD 0)).isOk
  if ((utf8Text value).map String.ofList).any valid then some (value, version)
  else (leaf.defaultValue.filter valid).map fun text =>
    (utf8Bytes text.toList, host.sha256Hex (utf8Bytes text.toList))

def loadAndValidateManifest (target : TargetHost) (batch : DeploymentBatch) :
    Except DeployError ResolvedBatch := do
  let (resolved, leftOut) ← target.loadAndValidateLeavingOut batch
  match leftOut.toList with
  | [] => return resolved
  | (identifier, reason) :: _ => .error (.invalid (identifier ++ ": " ++ reason))

/-- The checks made before anything is touched. -/
def declared (call : DefaultCall) : Except DeployError DefaultLeaf := do
  if call.version = "" ∨ 256 < call.version.utf8ByteSize ∨
      ¬ call.version.toList.all Inventory.SecretStore.isAsciiHexDigit then
    .error (.invalid "invalid public default version")
  else do
    if (← call.path).head? ≠ some call.target.hostname then
      .error (.invalid "public default belongs to another host")
    else do
      let leaf ← call.leaf
      if leaf.publicInfo = false ∨ leaf.installDefaultIfMissing = false then
        .error (.invalid "public default is not enabled by the manifest")
      else return leaf

/-- The one public value a call installs, if its source or its leaf has a usable one. -/
def resolved (call : DefaultCall) (leaf : DefaultLeaf) : Except DeployError (Option ResolvedBatch) := do
  let source ← call.source
  if source.isFile = false ∨ Inventory.maxKnownHostsBytes < source.bytes.length then
    .error (.invalid "public default source is invalid")
  else match host.usableDefault call.target.checks leaf source.bytes call.version with
    | none => return none
    | some (value, version) => do
      let batch ← loadAndValidateManifest call.target ⟨1, [call.identifier],
        [⟨call.identifier, version, Generation.encodeBase64 value⟩]⟩
      if batch.partition.1 ≠ [] ∨ batch.partition.2 = [] ∨ batch.partition.2.auditDetails.size ≠ 1 then
        .error notOneDestination
      else return some batch.partition.2

def installPublicDefault (call : DefaultCall) (id : String) : Faulty PublicRoot DeployError Unit := do
  let leaf ← Faulty.ofExcept (declared call)
  onRoots (Deploy.recoverAlone .publicInfo)
  let r ← onRoots (Deploy.root .publicInfo)
  let versions ← Faulty.ofExcept (r.currentVersions host.platform)
  if versions[call.identifier]? = some call.version then return ()
  else match ← Faulty.ofExcept (host.resolved call leaf) with
    | none => return ()
    | some batch => do
      let _ ← host.install batch id

/-- The batch a call installs, whatever is installed. -/
def batchOf (call : DefaultCall) : Option ResolvedBatch :=
  match declared call with
  | .ok leaf => match host.resolved call leaf with
    | .ok batch => batch
    | .error _ => none
  | .error _ => none

def decisionOver (records : BTreeMap String (List UInt8)) (entry : ResolvedSecret)
    (tree : Option Tree) : Except DeployError DefaultDecision := do
  let versions ← versionsOver host.platform tree
  return .decide versions[entry.identifier]? (host.installedByDefault records entry.identifier)
    entry.versionId (host.inspectInstalled tree entry.relative)

theorem decision_eq {records : BTreeMap String (List UInt8)} {entry : ResolvedSecret} {r : Root}
    {tree : Option Tree} (h : r.currentTree = .ok tree) :
    host.decision records entry r = host.decisionOver records entry tree := by
  unfold decision decisionOver Root.currentVersions
  rw [h]
  cases tree <;> rfl

/-- The default in `batch` took the place of what was installed. -/
structure Installs (batch : ResolvedBatch) (id : String) (s s' : PublicRoot) (entry : ResolvedSecret) :
    Prop where
  batch : batch = [entry]
  decided : ∃ decision, host.decisionOver s.records entry (s.roots.settledTree .publicInfo) =
    .ok decision ∧ decision.proceeds = true
  moved : s'.roots.MovedTo id fun tree => ∃ entries, validate [entry] = .ok entries ∧
    stagedOver host.platform (s.roots.settledTree .publicInfo) entries = .ok tree
  records : s'.records = s.records ∨ s'.records =
    s.records.insert (host.recordName entry.identifier) (utf8Bytes entry.versionId.toList)

/-- Nothing the installer looks at has changed. -/
def Kept (s s' : PublicRoot) : Prop := s.roots.Unmoved s'.roots ∧ s'.records = s.records

section Effect

open Faulty

variable {host} {x : Settled} {free : String → Prop} {id : String} {s : PublicRoot}

theorem Kept.refl (s : PublicRoot) : Kept s s := ⟨⟨rfl, rfl⟩, rfl⟩

theorem meets_onRoots {α : Type} {m : Deploy α} {Q : α → Roots → Prop} {E : Roots → Prop}
    (hm : Meets (· = s.roots) m Q E) :
    Meets (· = s) (onRoots m) (fun a s' => ∃ w, Q a w ∧ s' = { s with roots := w })
      (fun s' => ∃ w, E w ∧ s' = { s with roots := w }) :=
  meets_zoom hm

theorem meets_readRoot : Meets (· = s) (onRoots (Deploy.root .publicInfo))
    (fun r s' => r = s.roots.publicInfo ∧ s' = s) (· = s) := by
  refine (meets_onRoots (Deploy.meets_root_still .publicInfo s.roots)).weaken (fun _ h => h) ?_ ?_
  · rintro r s' ⟨w, ⟨hr, rfl⟩, rfl⟩
    exact ⟨hr, rfl⟩
  · rintro s' ⟨w, rfl, rfl⟩
    rfl

theorem Kept.trans {s₁ s₂ : PublicRoot} (h : Kept s s₁) (h' : Kept s₁ s₂) : Kept s s₂ :=
  ⟨⟨h'.1.1.trans h.1.1, h'.1.2.trans h.1.2⟩, h'.2.trans h.2⟩

theorem Installs.of_kept {batch : ResolvedBatch} {s₁ s₂ : PublicRoot} {entry : ResolvedSecret}
    (hk : Kept s s₁) (h : host.Installs batch id s₁ s₂ entry) : host.Installs batch id s s₂ entry := by
  obtain ⟨hbatch, hdecided, hmoved, hrecords⟩ := h
  obtain ⟨⟨_, htree⟩, hsame⟩ := hk
  rw [hsame, htree] at hdecided
  rw [htree] at hmoved
  rw [hsame] at hrecords
  exact ⟨hbatch, hdecided, hmoved, hrecords⟩

/-- A default that was installed is recorded, or the value stays without a record. -/
theorem meets_recordInstalledByDefault (host : DefaultHost) {s₁ : PublicRoot} (identifier version : String)
    {P : PublicRoot → Prop} (h : P s₁) (h' : P { s₁ with
      records := s₁.records.insert (host.recordName identifier) (utf8Bytes version.toList) }) :
    Meets (· = s₁) (host.recordInstalledByDefault identifier version) (fun _ => P) P := by
  have before (s : PublicRoot) (hs : s = s₁) : P s := hs ▸ h
  refine meets_bind (meets_op (R := (· = s₁)) (fun _ hs => hs) before) fun _ => ?_
  refine meets_bind (meets_op (R := (· = s₁)) (fun _ hs => hs) before) fun _ => ?_
  refine meets_bind (meets_op (R := P) (fun s hs => ?_) before) fun _ => keeps_op fun _ hs => hs
  rw [hs]
  exact h'

theorem meets_install {batch : ResolvedBatch} (hv : validGeneration id = true) (hid : free id)
    (hs : s.roots.Steady x free) :
    Meets (· = s) (host.install batch id)
      (fun _ s' => (∃ y, s'.roots.Steady y (Deploy.Without free id)) ∧
        (Kept s s' ∨ ∃ entry, host.Installs batch id s s' entry))
      (fun s' => (∃ y, s'.roots.Steady y (Deploy.Without free id)) ∧
        (Kept s s' ∨ ∃ entry, host.Installs batch id s s' entry)) := by
  have still (s' : PublicRoot) (h : s' = s) : (∃ y, s'.roots.Steady y (Deploy.Without free id)) ∧
      (Kept s s' ∨ ∃ entry, host.Installs batch id s s' entry) := by
    subst h
    exact ⟨⟨x, hs.mono fun _ hk => hk.1⟩, Or.inl (Kept.refl s')⟩
  unfold install
  split
  next entry =>
    refine meets_bind (meets_refuseIf (fun _ _ h => h) still) fun _ => ?_
    refine meets_bind (meets_read (R := fun read s' => read = s ∧ s' = s) fun s' h => ⟨h, h⟩)
      fun read => meets_known fun hread => ?_
    subst hread
    have installs (w : Roots) (records : BTreeMap String (List UInt8))
        (hm : w.MovedTo id (PublishesAlone host.platform [entry] (fun r => (host.decision read.records
          entry r).map DefaultDecision.proceeds) (read.roots.settledTree .publicInfo)))
        (hr : records = read.records ∨ records = read.records.insert
          (host.recordName entry.identifier) (utf8Bytes entry.versionId.toList)) :
        host.Installs [entry] id read ⟨w, records⟩ entry := by
      obtain ⟨hat, tree, ⟨entries, r, hentries, hcurrent, hgo, hstaged⟩, htree⟩ := hm
      refine ⟨rfl, ?_, ⟨hat, tree, ⟨entries, hentries, hstaged⟩, htree⟩, hr⟩
      have happroved : (host.decision read.records entry r).map DefaultDecision.proceeds = .ok true := hgo
      rw [decision_eq host hcurrent] at happroved
      cases hd : host.decisionOver read.records entry (read.roots.settledTree .publicInfo) with
      | error e => rw [hd] at happroved; cases happroved
      | ok decision =>
        rw [hd] at happroved
        exact ⟨decision, rfl, Except.ok.inj happroved⟩
    have hdeploy : Meets (· = read.roots) (Deploy.deployInner host.platform .publicInfo [entry] id
        (fun r => (host.decision read.records entry r).map DefaultDecision.proceeds) fun _ => .ok ())
        _ _ := meets_deployInner_moved hv hid hs
    refine meets_bind ((meets_onRoots hdeploy).weaken (fun _ h => h) (fun _ _ h => h) ?_)
      fun deployed => meets_pointwise fun s₁ h => ?_
    · rintro s' ⟨w, ⟨hsteady, hkept | hmoved⟩, rfl⟩
      · exact ⟨hsteady, Or.inl ⟨hkept, rfl⟩⟩
      · exact ⟨hsteady, Or.inr ⟨entry, installs w _ hmoved (Or.inl rfl)⟩⟩
    obtain ⟨w, ⟨hsteady, hdone⟩, rfl⟩ := h
    cases deployed with
    | false =>
      refine meets_bind (meets_doIf (R := fun s' => s' = _) (fun h => by cases h) fun _ _ h => h)
        fun _ => meets_pure ?_
      rintro s' rfl
      exact ⟨hsteady, Or.inl ⟨hdone, rfl⟩⟩
    | true =>
      have hrecord := meets_recordInstalledByDefault host entry.identifier entry.versionId
        (P := fun s' => (∃ y, s'.roots.Steady y (Deploy.Without free id)) ∧
          (Kept read s' ∨ ∃ e, host.Installs [entry] id read s' e))
        ⟨hsteady, Or.inr ⟨entry, installs w _ hdone (Or.inl rfl)⟩⟩
        ⟨hsteady, Or.inr ⟨entry, installs w _ hdone (Or.inr rfl)⟩⟩
      exact meets_bind (meets_doIf (fun _ => hrecord) fun h => (h rfl).elim) fun _ => keeps_pure
  next => exact meets_throw still

/-- What a call of the installer may have done. -/
def Outcome (host : DefaultHost) (call : DefaultCall) (id : String) (s s' : PublicRoot) : Prop :=
  Kept s s' ∨ ∃ batch entry, host.batchOf call = some batch ∧ host.Installs batch id s s' entry ∧
    ∀ versions, versionsOver host.platform (s.roots.settledTree .publicInfo) = .ok versions →
      versions[call.identifier]? ≠ some call.version

theorem meets_installPublicDefault {call : DefaultCall} (hv : validGeneration id = true)
    (hid : free id) (hs : s.roots.Steady x free) :
    Meets (· = s) (host.installPublicDefault call id)
      (fun _ s' => (∃ y, s'.roots.Steady y (Deploy.Without free id)) ∧ host.Outcome call id s s')
      (fun s' => (∃ y, s'.roots.Steady y (Deploy.Without free id)) ∧ host.Outcome call id s s') := by
  have kept (s' : PublicRoot) (hs' : s'.roots.Steady x free) (hk : Kept s s') :
      (∃ y, s'.roots.Steady y (Deploy.Without free id)) ∧ host.Outcome call id s s' :=
    ⟨⟨x, hs'.mono fun _ hk => hk.1⟩, Or.inl hk⟩
  refine meets_bind_ofExcept (fun s' h => kept s' (h ▸ hs) (h ▸ Kept.refl s)) fun leaf hleaf => ?_
  refine meets_bind ((meets_onRoots (meets_recoverAlone_publicInfo hs)).weaken (fun _ h => h)
    (fun _ _ h => h) ?_) fun _ => meets_pointwise fun s₁ h => ?_
  · rintro s' ⟨w, ⟨hsteady, hunmoved⟩, rfl⟩
    exact kept _ hsteady ⟨hunmoved, rfl⟩
  obtain ⟨w, ⟨hcurrent, hsteady, hunmoved⟩, rfl⟩ := h
  have hkept : Kept s { s with roots := w } := ⟨hunmoved, rfl⟩
  have still (s' : PublicRoot) (h : s' = { s with roots := w }) :
      (∃ y, s'.roots.Steady y (Deploy.Without free id)) ∧ host.Outcome call id s s' := by
    subst h
    exact kept _ hsteady hkept
  refine meets_bind (meets_readRoot.weaken (fun _ h => h) (fun _ _ h => h) still) fun r =>
    meets_known fun hr => ?_
  refine meets_bind_ofExcept still fun versions hversions => ?_
  have hover : versionsOver host.platform (s.roots.settledTree .publicInfo) = .ok versions := by
    rw [hr, Root.currentVersions, hcurrent] at hversions
    rw [← hversions]
    cases s.roots.settledTree .publicInfo <;> rfl
  by_cases hfast : versions[call.identifier]? = some call.version
  · rw [if_pos hfast]
    exact meets_pure still
  rw [if_neg hfast]
  refine meets_bind_ofExcept still fun batch hbatch => ?_
  cases batch with
  | none => exact meets_pure still
  | some batch =>
    have hof : host.batchOf call = some batch := by simp only [batchOf, hleaf, hbatch]
    have after (s' : PublicRoot) (h : (∃ y, s'.roots.Steady y (Deploy.Without free id)) ∧
        (Kept { s with roots := w } s' ∨
          ∃ entry, host.Installs batch id { s with roots := w } s' entry)) :
        (∃ y, s'.roots.Steady y (Deploy.Without free id)) ∧ host.Outcome call id s s' := by
      refine ⟨h.1, h.2.imp hkept.trans ?_⟩
      rintro ⟨entry, hinstalls⟩
      refine ⟨batch, entry, hof, hinstalls.of_kept hkept, fun other hother => ?_⟩
      rw [Except.ok.inj (hother.symm.trans hover)]
      exact hfast
    exact meets_bind ((meets_install hv hid hsteady).weaken (fun _ h => h) (fun _ s' h => after s' h)
      after) fun _ => keeps_pure

end Effect

end DefaultHost

end NixSecrets
