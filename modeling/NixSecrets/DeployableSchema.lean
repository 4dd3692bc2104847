import Mathlib.Data.List.Pairwise
import NixSecrets.DeclaredPaths
import NixSecrets.ManifestBatch

namespace NixSecrets.Inventory

/-- What the target reads of a stored leaf. -/
def SecretLeaf.manifest (leaf : SecretLeaf) : NixSecrets.SecretLeaf where
  destination := leaf.destination
  sharedPublicId := leaf.sharedPublicId
  expectedSshHost := leaf.expectedSshHost
  expectedSshPort := leaf.expectedSshPort
  expectedSshHosts := leaf.expectedSshHosts

mutual

/-- A node of the document as the target sorts it into its manifest. -/
def SecretNode.manifest : SecretNode → NixSecrets.SecretNode
  | .generated leaf => .generated leaf.generatedSecret.output
  | .secret leaf => .secret leaf.manifest
  | .operator _ => .operator
  | .branch children => .branch (childrenManifest children)

def childrenManifest : List (String × SecretNode) → List (String × NixSecrets.SecretNode)
  | [] => []
  | (name, child) :: rest => (name, child.manifest) :: childrenManifest rest

end

def HostSchema.manifest (host : HostSchema) : NixSecrets.HostSchema :=
  host.serviceGroups.map fun (space, services) => (space, childrenManifest services)

/-- A deployable leaf under its identifier; what is the operator's alone is not deployed. -/
def LeafSpec.deployable (service : String) : LeafSpec → Option (String × ManifestEntry)
  | .stored path leaf => some (path.display, ⟨service, leaf.destination, leaf.manifest.publicInfo⟩)
  | .generated path leaf => some (path.display, ⟨service, leaf.generatedSecret.output, none⟩)
  | .operator _ _ => none

def HostSchema.deployables (hostname : String) (host : HostSchema) : List (String × ManifestEntry) :=
  host.trees.flatMap fun (space, service, node) =>
    (leavesBelow [hostname, space, service] node).filterMap (LeafSpec.deployable service)

/-- What an accepted document says of each of its services. -/
theorem validate_service {libs : SchemaLibraries} {schema : Schema} {hostname space service : String}
    {host : HostSchema} {node : SecretNode} (h : schema.validate libs = .ok ())
    (hhost : (hostname, host) ∈ schema) (htree : (space, service, node) ∈ host.trees) :
    validateComponent service = .ok () ∧
      validateTree libs [hostname, space, service] service node = .ok () := by
  obtain ⟨_, _, h⟩ := Checked.bind_ok h
  obtain ⟨_, _, h⟩ := Checked.bind_ok h
  obtain ⟨_, hhosts, _⟩ := Checked.bind_ok h
  obtain ⟨registries, _, h⟩ := Checked.carry_ok_mem hhosts hhost
  obtain ⟨_, _, h⟩ := Checked.bind_ok h
  obtain ⟨_, _, h⟩ := Checked.bind_ok h
  obtain ⟨_, _, h⟩ := Checked.bind_ok h
  obtain ⟨_, _, h⟩ := Checked.bind_ok h
  obtain ⟨_, hgroups, _⟩ := Checked.bind_ok h
  obtain ⟨⟨space', services⟩, hgroup, htree⟩ := List.mem_flatMap.mp htree
  obtain ⟨⟨service', node'⟩, hservice, htree⟩ := List.mem_map.mp htree
  cases htree
  obtain ⟨_, _, h⟩ := Checked.carry_ok_mem hgroups hgroup
  obtain ⟨_, _, hservices⟩ := Checked.bind_ok h
  obtain ⟨_, _, h⟩ := Checked.carry_ok_mem hservices hservice
  obtain ⟨_, hcomponent, h⟩ := Checked.bind_ok h
  obtain ⟨_, htree, _⟩ := Checked.bind_ok h
  exact ⟨hcomponent, htree⟩

theorem deployable_declared {libs : SchemaLibraries} {service : String} {leaf : LeafSpec}
    {identifier : String} {entry : ManifestEntry} (hservice : validateComponent service = .ok ())
    (h : validateLeaf libs service leaf = .ok ()) (hentry : leaf.deployable service = some (identifier, entry)) :
    Declared entry.service entry.destination := by
  cases leaf with
  | operator path leaf => cases hentry
  | generated path leaf =>
    cases hentry
    obtain ⟨_, _, h⟩ := Checked.bind_ok h
    obtain ⟨_, _, h⟩ := Checked.bind_ok h
    obtain ⟨_, _, h⟩ := Checked.bind_ok h
    obtain ⟨_, hdestination, _⟩ := Checked.bind_ok h
    exact validateDestination_declared hservice hdestination
  | stored path leaf =>
    cases hentry
    obtain ⟨_, _, h⟩ := Checked.bind_ok h
    obtain ⟨_, _, h⟩ := Checked.bind_ok h
    unfold validateStored at h
    split at h
    next =>
      obtain ⟨_, _, h⟩ := Checked.bind_ok h
      obtain ⟨_, _, h⟩ := Checked.bind_ok h
      obtain ⟨_, hdestination, _⟩ := Checked.bind_ok h
      exact validateDestination_declared hservice hdestination
    next =>
      obtain ⟨_, _, h⟩ := Checked.bind_ok h
      exact validatePublicDestination_declared service h

/-- Every deployable leaf of an accepted document has a declared destination. -/
theorem deployables_declared {libs : SchemaLibraries} {schema : Schema} {hostname : String}
    {host : HostSchema} (h : schema.validate libs = .ok ()) (hhost : (hostname, host) ∈ schema)
    {item : String × ManifestEntry} (hitem : item ∈ host.deployables hostname) :
    Declared item.2.service item.2.destination := by
  obtain ⟨⟨space, service, node⟩, htree, hitem⟩ := List.mem_flatMap.mp hitem
  obtain ⟨leaf, hleaf, hitem⟩ := List.mem_filterMap.mp hitem
  obtain ⟨hcomponent, htree⟩ := validate_service h hhost htree
  have haccepted := walk_ok htree
  rw [Checked.carry_unit] at haccepted
  exact deployable_declared hcomponent (Checked.each_ok haccepted leaf hleaf) hitem

theorem declare_ok {path : List String} {entry : ManifestEntry} {output output' : ManifestEntries}
    (h : declare path entry output = .ok output') {k : String} {e : ManifestEntry}
    (hk : output'[k]? = some e) : output[k]? = some e ∨ (k, e) = (".".intercalate path, entry) := by
  unfold declare at h
  split at h
  next => cases h
  next =>
    cases h
    rw [Std.ExtTreeMap.getElem?_insert] at hk
    split at hk
    next hsame =>
      cases hk
      exact Or.inr (by rw [Std.LawfulEqOrd.eq_of_compare hsame])
    next => exact Or.inl hk

mutual

theorem flatten_mem {path : List String} {service : String} {node : SecretNode}
    {output output' : ManifestEntries} (h : flatten path service node.manifest output = .ok output')
    {k : String} {e : ManifestEntry} (hk : output'[k]? = some e) :
    output[k]? = some e ∨ (k, e) ∈ (leavesBelow path node).filterMap (LeafSpec.deployable service) := by
  match node with
  | .operator leaf =>
    cases h
    exact Or.inl hk
  | .secret leaf =>
    rw [SecretNode.manifest, flatten] at h
    refine (declare_ok h hk).imp_right fun hnew => ?_
    simp [leavesBelow, LeafSpec.deployable, hnew, SecretPath.display, SecretLeaf.manifest]
  | .generated leaf =>
    rw [SecretNode.manifest, flatten] at h
    refine (declare_ok h hk).imp_right fun hnew => ?_
    simp [leavesBelow, LeafSpec.deployable, hnew, SecretPath.display]
  | .branch children =>
    rw [SecretNode.manifest, flatten] at h
    rw [leavesBelow]
    exact flattenChildren_mem h hk

theorem flattenChildren_mem {path : List String} {service : String}
    {children : List (String × SecretNode)} {output output' : ManifestEntries}
    (h : flattenChildren path service (childrenManifest children) output = .ok output')
    {k : String} {e : ManifestEntry} (hk : output'[k]? = some e) :
    output[k]? = some e ∨ (k, e) ∈ (leavesAmong path children).filterMap (LeafSpec.deployable service) := by
  match children with
  | [] =>
    cases h
    exact Or.inl hk
  | (name, child) :: rest =>
    rw [childrenManifest, flattenChildren, except_bind_ok] at h
    obtain ⟨middle, hchild, hrest⟩ := h
    rw [leavesAmong, List.filterMap_append, List.mem_append]
    rcases flattenChildren_mem hrest hk with hmiddle | hlater
    · exact (flatten_mem hchild hmiddle).imp_right Or.inl
    · exact Or.inr (Or.inr hlater)

end

theorem flattenServices_mem {hostname space : String} {services : List (String × SecretNode)}
    {output output' : ManifestEntries}
    (h : flattenServices hostname space (childrenManifest services) output = .ok output')
    {k : String} {e : ManifestEntry} (hk : output'[k]? = some e) :
    output[k]? = some e ∨ ∃ service node, (service, node) ∈ services ∧
      (k, e) ∈ (leavesBelow [hostname, space, service] node).filterMap (LeafSpec.deployable service) := by
  induction services generalizing output with
  | nil =>
    cases h
    exact Or.inl hk
  | cons tree rest ih =>
    obtain ⟨service, node⟩ := tree
    rw [childrenManifest, flattenServices, except_bind_ok] at h
    obtain ⟨middle, hnode, hrest⟩ := h
    rcases ih hrest with hmiddle | ⟨service', node', hmem, hlater⟩
    · refine (flatten_mem hnode hmiddle).imp_right fun hnew => ?_
      exact ⟨service, node, List.mem_cons_self, hnew⟩
    · exact Or.inr ⟨service', node', List.mem_cons_of_mem _ hmem, hlater⟩

/-- What the target expects of a host is declared by one of its deployable leaves. -/
theorem flattenHost_mem {hostname : String} {host : HostSchema} {entries : ManifestEntries}
    (h : flattenHost hostname host.manifest ∅ = .ok entries) {k : String} {e : ManifestEntry}
    (hk : entries[k]? = some e) : (k, e) ∈ host.deployables hostname := by
  have hgroups : ∀ (groups : Entries (Entries SecretNode)) (output : ManifestEntries),
      flattenHost hostname (groups.map fun (space, services) => (space, childrenManifest services))
        output = .ok entries → output[k]? = some e ∨ (k, e) ∈
          (HostSchema.mk host.metadata groups).deployables hostname := by
    intro groups
    induction groups with
    | nil =>
      intro output h
      cases h
      exact Or.inl hk
    | cons group rest ih =>
      intro output h
      obtain ⟨space, services⟩ := group
      rw [List.map_cons, flattenHost, except_bind_ok] at h
      obtain ⟨middle, hgroup, hrest⟩ := h
      have hsplit : (HostSchema.mk host.metadata ((space, services) :: rest)).deployables hostname =
          (services.flatMap fun tree => (leavesBelow [hostname, space, tree.1] tree.2).filterMap
            (LeafSpec.deployable tree.1)) ++
          (HostSchema.mk host.metadata rest).deployables hostname := by
        simp [HostSchema.deployables, HostSchema.trees, List.flatMap_map]
      rw [hsplit, List.mem_append, List.mem_flatMap]
      rcases ih middle hrest with hmiddle | hlater
      · refine (flattenServices_mem hgroup hmiddle).imp_right ?_
        rintro ⟨service, node, hmem, hnew⟩
        exact Or.inl ⟨(service, node), hmem, hnew⟩
      · exact Or.inr (Or.inr hlater)
  rcases hgroups host.serviceGroups ∅ h with hempty | hmem
  · simp at hempty
  · exact hmem

end NixSecrets.Inventory

namespace NixSecrets

theorem validateEntry_fresh {seen : List (List String)} {spec : ResolvedSecret} (h : spec.relative ∉ seen) :
    validateEntry seen spec = validateEntry [] spec := by
  simp [validateEntry, h]

/-- A rejection that one value gets on its own, and so none for a destination that two share. -/
def RejectedAlone (part : ResolvedBatch) (error : DeployError) : Prop :=
  part = [] ∨ ∃ spec ∈ part, validateEntry [] spec = .error error

theorem validateEntries_alone {seen : List (List String)} {part : ResolvedBatch} {error : DeployError}
    (hdistinct : (part.map ResolvedSecret.relative).Nodup) (hseen : ∀ spec ∈ part, spec.relative ∉ seen)
    (h : validateEntries seen part = .error error) :
    ∃ spec ∈ part, validateEntry [] spec = .error error := by
  induction part generalizing seen with
  | nil => cases h
  | cons spec rest ih =>
    have hfresh := validateEntry_fresh (hseen spec List.mem_cons_self)
    rw [validateEntries, hfresh] at h
    cases hentry : validateEntry [] spec with
    | error e =>
      rw [hentry] at h
      cases h
      exact ⟨spec, List.mem_cons_self, hentry⟩
    | ok entry =>
      rw [hentry] at h
      obtain ⟨rfl, _⟩ := validateEntry_ok hentry
      rw [List.map_cons, List.nodup_cons] at hdistinct
      have hrest : validateEntries (spec.relative :: seen) rest = .error error := by
        cases hr : validateEntries (spec.relative :: seen) rest with
        | error e =>
          simp only [bind, Except.bind, hr] at h
          exact h
        | ok entries =>
          simp only [bind, Except.bind, hr] at h
          cases h
      have hseen' : ∀ other ∈ rest, other.relative ∉ spec.relative :: seen := by
        intro other hother
        rw [List.mem_cons, not_or]
        refine ⟨fun heq => hdistinct.1 ?_, hseen other (List.mem_cons_of_mem _ hother)⟩
        rw [← heq]
        exact List.mem_map_of_mem hother
      obtain ⟨spec', hmem, herror⟩ := ih hdistinct.2 hseen' hrest
      exact ⟨spec', List.mem_cons_of_mem _ hmem, herror⟩

theorem validate_alone {part : ResolvedBatch} {error : DeployError}
    (hdistinct : (part.map ResolvedSecret.relative).Nodup) (h : validate part = .error error) :
    RejectedAlone part error := by
  unfold validate at h
  split at h
  next hempty => exact Or.inl hempty
  next => exact Or.inr (validateEntries_alone hdistinct (by simp) h)

end NixSecrets

namespace NixSecrets.Inventory

/-- If both leaves resolve on a target, they resolve to different places. -/
def ResolveApart (checks : Checks) (a b : String × ManifestEntry) : Prop :=
  ∀ spec spec', expectedFromDestination checks a.2.service a.2.destination = .ok spec →
    expectedFromDestination checks b.2.service b.2.destination = .ok spec' →
    spec.relative ≠ spec'.relative

instance (checks : Checks) : Std.Symm (ResolveApart checks) :=
  ⟨fun _ _ h spec spec' hspec hspec' hsame => h spec' spec hspec' hspec hsame.symm⟩

/-- On every target the deployable leaves of a host resolve to different places, and no batch is
rejected for a destination that two of its values share. -/
structure DeployableAsAWhole (hostname : String) (host : HostSchema) : Prop where
  distinct : ∀ checks, (host.deployables hostname).Pairwise (ResolveApart checks)
  accepted : ∀ (target : TargetHost) (manifest : NixSecrets.Schema) (batch : DeploymentBatch)
    (resolved : ResolvedBatch) (leftOut : BTreeMap String String), target.hostname = hostname →
    target.schema = .ok manifest → manifest[hostname]? = some host.manifest →
    target.loadAndValidateLeavingOut batch = .ok (resolved, leftOut) →
    ∀ part ∈ [resolved.partition.1, resolved.partition.2], ∀ error, validate part = .error error →
      RejectedAlone part error

theorem resolved_distinct {hostname : String} {host : HostSchema}
    (hdistinct : ∀ checks, (host.deployables hostname).Pairwise (ResolveApart checks))
    {target : TargetHost} {manifest : NixSecrets.Schema} {batch : DeploymentBatch}
    {resolved : ResolvedBatch} {leftOut : BTreeMap String String} (hname : target.hostname = hostname)
    (hschema : target.schema = .ok manifest) (hhost : manifest[hostname]? = some host.manifest)
    (h : target.loadAndValidateLeavingOut batch = .ok (resolved, leftOut)) :
    (resolved.map ResolvedSecret.relative).Nodup := by
  obtain ⟨schema, expected, supplied, hschema', hexpected, _, hsorted⟩ :=
    TargetHost.loadAndValidate_sorted h
  rw [hschema] at hschema'
  cases hschema'
  rw [TargetHost.expected, hname, hhost] at hexpected
  have hnodup := TargetHost.loadAndValidate_nodup h
  rw [List.Nodup, List.pairwise_map] at hnodup ⊢
  refine hnodup.imp_of_mem fun {a b} ha hb hne hsame => ?_
  obtain ⟨declared, spec, hdeclared, hspec, hplace⟩ :=
    TargetHost.resolveRequested_place (hsorted.entries a ha)
  obtain ⟨declared', spec', hdeclared', hspec', hplace'⟩ :=
    TargetHost.resolveRequested_place (hsorted.entries b hb)
  have hrelative : spec.relative = spec'.relative := by
    rw [Expected.relative, Expected.relative, ← hplace, ← hplace', hsame]
  have hapart := (hdistinct target.checks).forall (flattenHost_mem hexpected hdeclared)
    (flattenHost_mem hexpected hdeclared') fun heq => hne (congrArg Prod.fst heq)
  exact hapart spec spec' hspec hspec' hrelative

/-- The target takes the last name of the leaf's path for a file. -/
def hasFileName (item : String × ManifestEntry) : Bool :=
  (validateName "secret" (destinationName item.2.destination)).isOk

theorem hasFileName_iff {item : String × ManifestEntry} :
    hasFileName item = true ↔ validateName "secret" (destinationName item.2.destination) = .ok () := by
  unfold hasFileName
  cases validateName "secret" (destinationName item.2.destination) with
  | ok u => exact iff_of_true rfl rfl
  | error e => exact iff_of_false (by simp [Except.isOk, Except.toBool]) nofun

/-- An accepted document is deployable as a whole exactly if no path is declared twice. -/
theorem deployable_iff_paths_distinct (libs : SchemaLibraries) (schema : Schema)
    (h : schema.validate libs = .ok ()) (hostname : String) (host : HostSchema)
    (hhost : (hostname, host) ∈ schema) :
    DeployableAsAWhole hostname host ↔
      (((host.deployables hostname).filter hasFileName).map (·.2.destination.path)).Nodup := by
  have hdeclared {item : String × ManifestEntry} (hitem : item ∈ host.deployables hostname) :=
    deployables_declared h hhost hitem
  have hpaths : (((host.deployables hostname).filter hasFileName).map (·.2.destination.path)).Nodup ↔
      (host.deployables hostname).Pairwise fun a b => hasFileName a = true → hasFileName b = true →
        a.2.destination.path ≠ b.2.destination.path := by
    rw [List.Nodup, List.pairwise_map, List.pairwise_filter]
  rw [hpaths]
  constructor
  · intro hwhole
    refine (hwhole.distinct openChecks).imp_of_mem fun {a b} ha hb hapart hname hname' hsame => ?_
    obtain ⟨spec, hspec⟩ := declared_resolves (hdeclared ha) (hasFileName_iff.mp hname)
    obtain ⟨spec', hspec'⟩ := declared_resolves (hdeclared hb) (hasFileName_iff.mp hname')
    exact hapart spec spec' hspec hspec'
      ((resolved_relative_iff (hdeclared ha) (hdeclared hb) hspec hspec').mpr hsame)
  · intro hpairs
    have hdistinct (checks : Checks) : (host.deployables hostname).Pairwise (ResolveApart checks) := by
      refine hpairs.imp_of_mem fun {a b} ha hb hne spec spec' hspec hspec' hsame => ?_
      apply hne
      · exact hasFileName_iff.mpr (resolved_name (hdeclared ha) hspec)
      · exact hasFileName_iff.mpr (resolved_name (hdeclared hb) hspec')
      · exact (resolved_relative_iff (hdeclared ha) (hdeclared hb) hspec hspec').mp hsame
    refine ⟨hdistinct, ?_⟩
    intro target manifest batch resolved leftOut hname hschema hfound hok part hpart error herror
    have hnodup := resolved_distinct hdistinct hname hschema hfound hok
    apply validate_alone _ herror
    simp only [List.mem_cons, List.not_mem_nil, or_false] at hpart
    rcases hpart with rfl | rfl
    · exact (List.filter_sublist.map _).nodup hnodup
    · exact (List.filter_sublist.map _).nodup hnodup

def pairedLeaf (name : String) : SecretLeaf where
  kind := .secret
  recipientPublicKeys := ["ssh-ed25519 AAAA"]
  recipientIds := ["operator"]
  destination := {
    path := "/persistent/secrets/app/service/" ++ name, category := "service", owner := "root",
    group := "root", mode := "0400" }

def pairedHost (first second : String) : HostSchema where
  metadata := {
    socketPath := "/run/nix-secrets.sock"
    deployment := { host := "web", destination := "deploy@web", port := 22 } }
  serviceGroups := [("services", [("app", .branch [("first", .secret (pairedLeaf first)),
    ("second", .secret (pairedLeaf second))])])]

def pairedLibraries : SchemaLibraries where
  parseIp _ := none
  decodeBase64 _ := none
  opensshKey _ := none
  regexError _ := none
  debug text := text

theorem paired_deployable : DeployableAsAWhole "web" (pairedHost "token" "key") :=
  (deployable_iff_paths_distinct pairedLibraries [("web", pairedHost "token" "key")] (by decide +kernel)
    "web" (pairedHost "token" "key") List.mem_cons_self).mpr (by decide +kernel)

def pairedTarget : TargetHost where
  hostname := "web"
  manifest := "/etc/nix-secrets/manifest.json"
  schema := .ok (.ofList [("web", (pairedHost "token" "token").manifest)] compare)
  checks := openChecks

/-- All the values of the host. -/
def pairedBatch : DeploymentBatch where
  version := 5
  requestedIdentifiers := ["web.services.app.first", "web.services.app.second"]
  entries := [⟨"web.services.app.first", "v1", ""⟩, ⟨"web.services.app.second", "v1", ""⟩]

/-- Two values at one path are accepted in the document, and rejected by the target. -/
theorem shared_path_accepted :
    Schema.validate pairedLibraries [("web", pairedHost "token" "token")] = .ok () ∧
    (do validate (← pairedTarget.loadAndValidateLeavingOut pairedBatch).1.partition.1) =
      .error (.invalid "validating web.services.app.second: duplicate destination: app/service/token") := by
  decide +kernel

end NixSecrets.Inventory
