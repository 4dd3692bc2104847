import NixSecrets.PublicDefault

namespace NixSecrets

open Faulty

/-- Who deployed a value. -/
inductive Writer
  | operator
  | installer
  deriving DecidableEq, Repr

structure Written where
  writer : Writer
  contents : List UInt8
  deriving DecidableEq, Repr

namespace ResolvedBatch

/-- The last entry for a destination counts, and the last one of an identifier. -/
def lastAt (batch : ResolvedBatch) (path : List String) : Option ResolvedSecret :=
  batch.reverse.find? (·.relative = path)

def lastOf (batch : ResolvedBatch) (identifier : String) : Option ResolvedSecret :=
  batch.reverse.find? (·.identifier = identifier)

end ResolvedBatch

/-- What was last deployed to each destination of the public-info root, and where each
identifier was last deployed. -/
structure Ledger where
  written : List String → Option Written := fun _ => none
  home : String → Option (List String) := fun _ => none

def Ledger.lay (ledger : Ledger) (writer : Writer) (batch : ResolvedBatch) : Ledger where
  written path := ((batch.lastAt path).map fun e => ⟨writer, e.contents⟩).or (ledger.written path)
  home identifier := ((batch.lastOf identifier).map (·.relative)).or (ledger.home identifier)

namespace PublicRoot

/-- What stands at a path once the root is recovered. -/
def node (s : PublicRoot) (path : List String) : Option (Node File DirMetadata) :=
  ((s.roots.settledTree .publicInfo).getD .empty).node? path

def versions (host : DefaultHost) (s : PublicRoot) : BTreeMap String String :=
  s.roots.settledVersions host.platform .publicInfo

end PublicRoot

/-- The operator's deployments and recoveries, and the runs of the installer. -/
inductive PublicOp
  | operator (op : DeployOp)
  | installer (call : DefaultCall) (id : String)

namespace PublicOp

variable (host : DefaultHost)

def perform : PublicOp → Faulty PublicRoot DeployError Unit
  | .operator op => DefaultHost.onRoots (op.perform host.platform)
  | .installer call id => host.installPublicDefault call id

def id? : PublicOp → Option String
  | .operator op => op.id?
  | .installer _ id => some id

def writer : PublicOp → Writer
  | .operator _ => .operator
  | .installer .. => .installer

def batch : PublicOp → Option ResolvedBatch
  | .operator op => op.publicBatch
  | .installer call _ => host.batchOf call

end PublicOp

/-- The root, and the ledger kept beside it. -/
structure PublicState where
  root : PublicRoot := {}
  ledger : Ledger := {}

structure PublicAttempt where
  op : PublicOp
  faults : List Fault

/-- A call counts as a deployment once the root settles at its generation. -/
def PublicAttempt.run (host : DefaultHost) (s : PublicState) (a : PublicAttempt) : PublicState :=
  let root := (a.op.perform host a.faults s.root).2.2
  { root
    ledger := if a.op.id? ≠ none ∧ root.roots.settledAt .publicInfo = a.op.id? then
      s.ledger.lay a.op.writer ((a.op.batch host).getD []) else s.ledger }

def runPublic (host : DefaultHost) (attempts : List PublicAttempt) (s : PublicState) : PublicState :=
  attempts.foldl (PublicAttempt.run host) s

def publicIds (attempts : List PublicAttempt) : List String := attempts.filterMap (·.op.id?)

/-- Every call names its generation with a valid name of its own. -/
def FreshPublicIds (attempts : List PublicAttempt) : Prop :=
  (publicIds attempts).Nodup ∧ ∀ id ∈ publicIds attempts, validGeneration id = true

/-- Neither under a name that the root keeps for itself nor under one it drops. -/
def ResolvedSecret.Plain (e : ResolvedSecret) : Prop :=
  versionsName ∉ e.relative ∧ e.service ≠ provenanceDir

/-- The operator deploys no value that its destination's identifier would take for a recorded
default; a default stays at the destination of its identifier, and its record has a name
of its own. -/
def PublicOp.KeepsApart (host : DefaultHost) (s : PublicState) : PublicOp → Prop
  | .operator op => ∀ batch, op.publicBatch = some batch → ∀ e ∈ batch, e.Plain ∧
      ∀ identifier version, (s.ledger.lay .operator batch).home identifier = some e.relative →
        host.installedByDefault s.root.records identifier = some version →
        ((batch.lastOf identifier).map (·.versionId)).or (s.root.versions host)[identifier]? =
          some version → host.digestOf e.contents ≠ some version
  | .installer call _ => ∀ batch, host.batchOf call = some batch → ∀ e ∈ batch, e.Plain ∧
      (∀ version, (s.root.versions host)[e.identifier]? = some version →
        s.ledger.home e.identifier = some e.relative) ∧
      ∀ identifier, s.ledger.home identifier ≠ none →
        host.recordName identifier = host.recordName e.identifier → identifier = e.identifier

/-- What the ledger says is there, nothing else is, and no value of the operator's passes for
a default. -/
structure PublicState.Sound (host : DefaultHost) (s : PublicState) : Prop where
  there : ∀ path written, s.ledger.written path = some written →
    versionsName ∉ path ∧ ∃ f, s.root.node path = some (.file f) ∧ f.bytes = written.contents
  known : ∀ path f, path ≠ [versionsName] → s.root.node path = some (.file f) →
    s.ledger.written path ≠ none
  apart : ∀ path contents, s.ledger.written path = some ⟨.operator, contents⟩ →
    ∀ identifier version, s.ledger.home identifier = some path →
      host.installedByDefault s.root.records identifier = some version →
      (s.root.versions host)[identifier]? = some version → host.digestOf contents ≠ some version

/-- The batch is laid over what the root was at. -/
structure Lays (host : DefaultHost) (batch : ResolvedBatch) (s s' : PublicRoot) : Prop where
  laid : ∀ e ∈ batch, ∃ f, s'.node e.relative = some (.file f) ∧ f.bytes = e.contents
  kept : ∀ path, versionsName ∉ path → path ∉ batch.map ResolvedSecret.relative →
    s.node path ≠ none → s'.node path = s.node path
  files : ∀ path f, path ≠ [versionsName] → path ∉ batch.map ResolvedSecret.relative →
    s'.node path = some (.file f) → s.node path = some (.file f)
  versions : ∀ identifier : String, (s'.versions host)[identifier]? =
    ((batch.lastOf identifier).map (·.versionId)).or (s.versions host)[identifier]?

section Lay

variable {host : DefaultHost} {batch : ResolvedBatch} {s s' : PublicRoot}

theorem deployedVersion_eq {entries : List ValidatedSecret} (identifier : String) :
    deployedVersion entries identifier =
      (ResolvedBatch.lastOf (entries.map ValidatedSecret.spec) identifier).map (·.versionId) := by
  rw [deployedVersion, ResolvedBatch.lastOf, ← List.map_reverse, List.find?_map, Option.map_map]
  rfl

theorem lays_of_staged {entries : List ValidatedSecret} {new : Tree}
    (hv : validate batch = .ok entries)
    (hstaged : stagedOver host.platform (s.roots.settledTree .publicInfo) entries = .ok new)
    (hnew : s'.roots.settledTree .publicInfo = some new) : Lays host batch s s' := by
  obtain ⟨hspecs, _, haccepted⟩ := validate_ok hv
  obtain ⟨versions, hversions, hover⟩ := stagedOver_laid haccepted hstaged
  have hnode (path : List String) : s'.node path = new.node? path := by
    rw [PublicRoot.node, hnew, Option.getD_some]
  have hpaths : entries.map ValidatedSecret.relative = batch.map ResolvedSecret.relative := by
    rw [← hspecs, List.map_map]
    exact List.map_congr_left fun e he => (hover.named e he).1
  refine ⟨?_, ?_, ?_, ?_⟩
  · intro e he
    rw [← hspecs] at he
    obtain ⟨entry, hentry, rfl⟩ := List.mem_map.mp he
    obtain ⟨f, hfits, hf⟩ := hover.laid entry hentry
    refine ⟨f, ?_, hfits.bytes⟩
    rw [hnode, ← (hover.named entry hentry).1]
    exact hf
  · intro path hplain hpath hold
    have hne : path ≠ [versionsName] := by
      rintro rfl
      exact hplain List.mem_cons_self
    rw [hnode, hover.rest path hne (hpaths ▸ hpath), if_neg hplain]
    exact Option.or_of_isSome (Option.isSome_iff_ne_none.mpr hold)
  · intro path f hne hpath hf
    rw [hnode, hover.rest path hne (hpaths ▸ hpath)] at hf
    have hmade : madeFor host.platform entries path ≠ some (.file f) := by
      unfold madeFor
      split
      next => exact fun h => by cases h
      next => exact fun h => by cases h
    split at hf
    next =>
      rw [Option.none_or] at hf
      exact absurd hf hmade
    next =>
      show ((s.roots.settledTree .publicInfo).getD .empty).node? path = some (.file f)
      cases hold : ((s.roots.settledTree .publicInfo).getD .empty).node? path with
      | none =>
        rw [hold, Option.none_or] at hf
        exact absurd hf hmade
      | some node =>
        rw [hold, Option.some_or] at hf
        exact hf
  · intro identifier
    have hnewVersions : s'.versions host = mergeVersions versions entries := by
      rw [PublicRoot.versions, Roots.settledVersions, hnew, Option.bind_some, hover.versions]
      rfl
    have holdVersions : s.versions host = versions := versionsOver_eq hversions
    rw [hnewVersions, holdVersions, mergeVersions_getElem?, deployedVersion_eq, hspecs]

end Lay

namespace ResolvedBatch

variable {batch : ResolvedBatch} {path : List String} {identifier : String} {e : ResolvedSecret}

theorem lastAt_some (h : batch.lastAt path = some e) : e ∈ batch ∧ e.relative = path := by
  have hm := List.mem_of_find?_eq_some h
  have he := List.find?_some h
  exact ⟨List.mem_reverse.mp hm, of_decide_eq_true he⟩

theorem lastAt_none : batch.lastAt path = none ↔ path ∉ batch.map ResolvedSecret.relative := by
  simp [lastAt]

theorem lastOf_some (h : batch.lastOf identifier = some e) : e ∈ batch ∧ e.identifier = identifier := by
  have hm := List.mem_of_find?_eq_some h
  have he := List.find?_some h
  exact ⟨List.mem_reverse.mp hm, of_decide_eq_true he⟩

end ResolvedBatch

namespace PublicState

variable {host : DefaultHost} {s : PublicState} {root : PublicRoot} {writer : Writer}
  {batch : ResolvedBatch}

theorem lay_there (hs : s.Sound host) (hl : Lays host batch s.root root)
    (hplain : ∀ e ∈ batch, e.Plain) (path : List String) (written : Written)
    (h : (s.ledger.lay writer batch).written path = some written) :
    versionsName ∉ path ∧ ∃ f, root.node path = some (.file f) ∧ f.bytes = written.contents := by
  simp only [Ledger.lay] at h
  cases hlast : batch.lastAt path with
  | some e =>
    obtain ⟨hmem, rfl⟩ := ResolvedBatch.lastAt_some hlast
    rw [hlast] at h
    have hw := Option.some.inj h
    subst hw
    exact ⟨(hplain e hmem).1, hl.laid e hmem⟩
  | none =>
    rw [hlast] at h
    obtain ⟨hn, f, hf, hbytes⟩ := hs.there path written h
    refine ⟨hn, f, ?_, hbytes⟩
    rw [hl.kept path hn (ResolvedBatch.lastAt_none.mp hlast) (by rw [hf]; simp)]
    exact hf

theorem lay_known (hs : s.Sound host) (hl : Lays host batch s.root root) (path : List String)
    (f : File) (hpath : path ≠ [versionsName]) (hf : root.node path = some (.file f)) :
    (s.ledger.lay writer batch).written path ≠ none := by
  simp only [Ledger.lay]
  cases hlast : batch.lastAt path with
  | some e => simp
  | none =>
    have hold := hl.files path f hpath (ResolvedBatch.lastAt_none.mp hlast) hf
    simpa using hs.known path f hpath hold

/-- A value that the batch leaves alone, under an identifier it leaves alone. -/
theorem lay_untouched {path : List String} {identifier : String}
    (hpath : path ∉ batch.map ResolvedSecret.relative)
    (hhome : (s.ledger.lay writer batch).home identifier = some path) :
    batch.lastOf identifier = none ∧ s.ledger.home identifier = some path := by
  simp only [Ledger.lay] at hhome
  cases hlast : batch.lastOf identifier with
  | none =>
    rw [hlast] at hhome
    exact ⟨rfl, hhome⟩
  | some e =>
    rw [hlast] at hhome
    have he := Option.some.inj hhome
    exact absurd (List.mem_map.mpr ⟨e, (ResolvedBatch.lastOf_some hlast).1, he⟩) hpath

/-- The operator's deployment. -/
theorem Sound.operator {op : DeployOp} (hs : s.Sound host) (hl : Lays host batch s.root root)
    (hbatch : op.publicBatch = some batch) (happart : (PublicOp.operator op).KeepsApart host s)
    (hrecords : root.records = s.root.records) :
    PublicState.Sound host ⟨root, s.ledger.lay .operator batch⟩ := by
  have hcond := happart batch hbatch
  refine ⟨lay_there hs hl fun e he => (hcond e he).1, lay_known hs hl, ?_⟩
  intro path contents hw identifier version hhome hrecord hversion
  simp only [hrecords] at hrecord
  simp only [hl.versions identifier] at hversion
  cases hlast : batch.lastAt path with
  | some e =>
    obtain ⟨hmem, rfl⟩ := ResolvedBatch.lastAt_some hlast
    simp only [Ledger.lay, hlast] at hw
    have hc := congrArg Written.contents (Option.some.inj hw)
    rw [← show e.contents = contents from hc]
    exact (hcond e hmem).2 identifier version hhome hrecord hversion
  | none =>
    obtain ⟨hnone, hold⟩ := lay_untouched (ResolvedBatch.lastAt_none.mp hlast) hhome
    simp only [Ledger.lay, hlast] at hw
    rw [hnone] at hversion
    exact hs.apart path contents hw identifier version hold hrecord hversion

/-- The installer's. -/
theorem Sound.installer {call : DefaultCall} {id : String} {entry : ResolvedSecret}
    (hs : s.Sound host) (hl : Lays host [entry] s.root root) (hbatch : host.batchOf call = some [entry])
    (happart : (PublicOp.installer call id).KeepsApart host s)
    (hrecords : root.records = s.root.records ∨ root.records =
      s.root.records.insert (host.recordName entry.identifier) (utf8Bytes entry.versionId.toList)) :
    PublicState.Sound host ⟨root, s.ledger.lay .installer [entry]⟩ := by
  obtain ⟨hplain, _, hname⟩ := happart [entry] hbatch entry List.mem_cons_self
  refine ⟨lay_there hs hl fun e he => ?_, lay_known hs hl, ?_⟩
  · rw [List.mem_singleton.mp he]
    exact hplain
  intro path contents hw identifier version hhome hrecord hversion
  cases hlast : ResolvedBatch.lastAt [entry] path with
  | some e => simp [Ledger.lay, hlast] at hw
  | none =>
    obtain ⟨hnone, hold⟩ := lay_untouched (ResolvedBatch.lastAt_none.mp hlast) hhome
    simp only [Ledger.lay, hlast] at hw
    simp only [hl.versions identifier, hnone] at hversion
    have hother : host.recordName entry.identifier ≠ host.recordName identifier := by
      intro heq
      have he := hname identifier (by rw [hold]; simp) heq.symm
      rw [he, ResolvedBatch.lastOf] at hnone
      simp at hnone
    have hsame : host.installedByDefault root.records identifier =
        host.installedByDefault s.root.records identifier := by
      rcases hrecords with h | h
      · rw [h]
      · rw [h, DefaultHost.installedByDefault, DefaultHost.installedByDefault,
          Std.ExtTreeMap.getElem?_insert]
        simp [hother]
    exact hs.apart path contents hw identifier version hold (hsame.symm.trans hrecord) hversion

theorem Sound.kept (hs : s.Sound host) (hk : DefaultHost.Kept s.root root) :
    PublicState.Sound host ⟨root, s.ledger⟩ := by
  obtain ⟨⟨_, htree⟩, hrecords⟩ := hk
  have hnode : root.node = s.root.node := by
    funext path
    rw [PublicRoot.node, PublicRoot.node, htree]
  have hversions : root.versions host = s.root.versions host := by
    rw [PublicRoot.versions, PublicRoot.versions, Roots.settledVersions, Roots.settledVersions, htree]
  refine ⟨?_, ?_, ?_⟩
  · rw [hnode]
    exact hs.there
  · rw [hnode]
    exact hs.known
  · rw [hversions, hrecords]
    exact hs.apart

end PublicState

section Step

variable (host : DefaultHost) {x : Settled} {free : String → Prop} {s : PublicState}

theorem onRoots_run {α : Type} (m : Deploy α) (faults : List Fault) (root : PublicRoot) :
    (DefaultHost.onRoots m faults root).2.2 = { root with roots := (m faults root.roots).2.2 } := rfl

theorem run_root (a : PublicAttempt) (s : PublicState) :
    (a.run host s).root = (a.op.perform host a.faults s.root).2.2 := rfl

/-- A root does not settle at a name that is still free. -/
theorem settledAt_ne_free {w : Roots} {id : String} (hw : w.Steady x free) (hid : free id) :
    w.settledAt .publicInfo ≠ some id := by
  intro h
  have hx : x.2 = some id := hw.settledAt_eq.2.symm.trans h
  obtain ⟨tree, ht, _⟩ := hw.settledTree_whole hx
  exact hw.2.fresh id hid (Std.ExtTreeMap.mem_iff_isSome_getElem?.mpr (by rw [ht]; rfl))

theorem run_kept {a : PublicAttempt} (hw : s.root.roots.Steady x free)
    (hid : ∀ id, a.op.id? = some id → free id)
    (hk : DefaultHost.Kept s.root (a.op.perform host a.faults s.root).2.2) :
    a.run host s = ⟨(a.op.perform host a.faults s.root).2.2, s.ledger⟩ := by
  have hsame : ¬ (a.op.id? ≠ none ∧ (a.op.perform host a.faults s.root).2.2.roots.settledAt .publicInfo =
      a.op.id?) := by
    rintro ⟨hsome, hat⟩
    obtain ⟨id, he⟩ := Option.ne_none_iff_exists'.mp hsome
    rw [he, hk.1.1] at hat
    exact settledAt_ne_free hw (hid id he) hat
  unfold PublicAttempt.run
  simp only [if_neg hsame]

theorem run_laid {a : PublicAttempt} {id : String} {batch : ResolvedBatch} (he : a.op.id? = some id)
    (hb : a.op.batch host = some batch)
    (hat : (a.op.perform host a.faults s.root).2.2.roots.settledAt .publicInfo = some id) :
    a.run host s =
      ⟨(a.op.perform host a.faults s.root).2.2, s.ledger.lay a.op.writer batch⟩ := by
  have hmoved : a.op.id? ≠ none ∧
      (a.op.perform host a.faults s.root).2.2.roots.settledAt .publicInfo = a.op.id? := by
    rw [he]
    exact ⟨by simp, hat⟩
  unfold PublicAttempt.run
  simp only [if_pos hmoved, hb, Option.getD_some]

/-- However a deployment of the operator's ends, it has its whole effect or none. -/
theorem run_operator (op : DeployOp) (faults : List Fault) (hw : s.root.roots.Steady x free)
    (hid : ∀ id, op.id? = some id → validGeneration id = true ∧ free id) :
    ∃ root, DefaultHost.Kept s.root root ∧
        (⟨.operator op, faults⟩ : PublicAttempt).run host s = ⟨root, s.ledger⟩ ∨
      ∃ batch, op.publicBatch = some batch ∧ Lays host batch s.root root ∧
        root.records = s.root.records ∧ (⟨.operator op, faults⟩ : PublicAttempt).run host s =
          ⟨root, s.ledger.lay .operator batch⟩ := by
  let a : PublicAttempt := ⟨.operator op, faults⟩
  refine ⟨(a.op.perform host a.faults s.root).2.2, ?_⟩
  rcases perform_publicInfo (p := host.platform) op hw hid faults with hu | ⟨id, he, hat, tree, hp, ht⟩
  · have hk : DefaultHost.Kept s.root (a.op.perform host a.faults s.root).2.2 := ⟨hu, rfl⟩
    exact Or.inl ⟨hk, run_kept host hw (fun id he => (hid id he).2) hk⟩
  · obtain ⟨batch, entries, hb, hv, hstaged⟩ := hp
    exact Or.inr ⟨batch, hb, lays_of_staged hv hstaged ht, rfl, run_laid host (a := a) he hb hat⟩

/-- So has a run of the installer, but for the record. -/
theorem run_installer (call : DefaultCall) (id : String) (faults : List Fault)
    (hw : s.root.roots.Steady x free) (hv : validGeneration id = true) (hid : free id) :
    ∃ root, (∃ y, root.roots.Steady y (Deploy.Without free id)) ∧
      (DefaultHost.Kept s.root root ∧
        (⟨.installer call id, faults⟩ : PublicAttempt).run host s = ⟨root, s.ledger⟩ ∨
      ∃ entry, host.batchOf call = some [entry] ∧ host.Installs [entry] id s.root root entry ∧
        Lays host [entry] s.root root ∧
        (∀ versions, versionsOver host.platform (s.root.roots.settledTree .publicInfo) = .ok versions →
          versions[call.identifier]? ≠ some call.version) ∧
        (⟨.installer call id, faults⟩ : PublicAttempt).run host s =
          ⟨root, s.ledger.lay .installer [entry]⟩) := by
  let a : PublicAttempt := ⟨.installer call id, faults⟩
  have hmeets : Meets (· = s.root) (host.installPublicDefault call id) _ _ :=
    DefaultHost.meets_installPublicDefault hv hid hw
  obtain ⟨hsteady, houtcome⟩ := hmeets.final faults rfl
  refine ⟨(a.op.perform host a.faults s.root).2.2, hsteady, ?_⟩
  rcases houtcome with hk | ⟨batch, entry, hb, hinstalls, hstale⟩
  · refine Or.inl ⟨hk, run_kept host hw (fun k he => ?_) hk⟩
    cases he
    exact hid
  · obtain rfl := hinstalls.batch
    obtain ⟨hat, tree, ⟨entries, hentries, hstaged⟩, ht⟩ := hinstalls.moved
    exact Or.inr ⟨entry, hb, hinstalls, lays_of_staged hentries hstaged ht, hstale,
      run_laid host (a := a) rfl hb hat⟩

theorem run_steady (a : PublicAttempt) (hw : s.root.roots.Steady x free)
    (hid : ∀ id, a.op.id? = some id → validGeneration id = true ∧ free id) :
    ∃ y, (a.run host s).root.roots.Steady y fun k => free k ∧ a.op.id? ≠ some k := by
  obtain ⟨op, faults⟩ := a
  cases op with
  | operator op =>
    rcases attempt_steady (p := host.platform) (a := ⟨op, faults⟩) hw hid with h | h
    · exact ⟨x, h⟩
    · exact ⟨_, h⟩
  | installer call id =>
    obtain ⟨hv, hfree⟩ := hid id rfl
    obtain ⟨root, ⟨y, hy⟩, heffect⟩ := run_installer host call id faults hw hv hfree
    have hroot : ((⟨.installer call id, faults⟩ : PublicAttempt).run host s).root = root := by
      rcases heffect with ⟨_, h⟩ | ⟨_, _, _, _, _, h⟩
      · rw [h]
      · rw [h]
    rw [hroot]
    refine ⟨y, hy.mono fun k hk => ⟨hk.1, fun he => hk.2 ?_⟩⟩
    rw [he]
    rfl

theorem run_sound (a : PublicAttempt) (hs : s.Sound host) (hw : s.root.roots.Steady x free)
    (hid : ∀ id, a.op.id? = some id → validGeneration id = true ∧ free id)
    (happart : a.op.KeepsApart host s) : (a.run host s).Sound host := by
  obtain ⟨op, faults⟩ := a
  cases op with
  | operator op =>
    obtain ⟨root, ⟨hk, h⟩ | ⟨batch, hb, hl, hr, h⟩⟩ := run_operator host op faults hw hid
    · rw [h]
      exact hs.kept hk
    · rw [h]
      exact hs.operator hl hb happart hr
  | installer call id =>
    obtain ⟨hv, hfree⟩ := hid id rfl
    obtain ⟨root, _, ⟨hk, h⟩ | ⟨entry, hb, hi, hl, _, h⟩⟩ :=
      run_installer host call id faults hw hv hfree
    · rw [h]
      exact hs.kept hk
    · rw [h]
      exact hs.installer hl hb happart hi.records

end Step

end NixSecrets
