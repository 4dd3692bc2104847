import NixSecrets.RowsListed
import NixSecrets.SchemaWalks

namespace NixSecrets.Inventory

/-- A step that enters each of these identifiers, if they are new, and nothing else. -/
def Enters (run : ManifestEntries → Except DeployError ManifestEntries) (names : List String) : Prop :=
  ∀ output, names.Nodup → (∀ k ∈ names, k ∉ output) →
    ∃ entered, run output = .ok entered ∧ ∀ k, k ∈ entered ↔ k ∈ output ∨ k ∈ names

theorem Enters.nothing : Enters Except.ok [] := fun output _ _ => ⟨output, rfl, by simp⟩

theorem Enters.declare (path : List String) (entry : ManifestEntry) :
    Enters (NixSecrets.declare path entry) [(⟨path⟩ : SecretPath).display] := by
  intro output _ hnew
  have hfresh := hnew _ (List.mem_singleton.mpr rfl)
  refine ⟨output.insert (".".intercalate path) entry, if_neg hfresh, ?_⟩
  intro k
  rw [Std.ExtTreeMap.mem_insert, Std.LawfulEqCmp.compare_eq_iff_eq, List.mem_singleton, SecretPath.display]
  constructor
  · intro h
    exact h.symm.imp id Eq.symm
  · intro h
    exact h.symm.imp Eq.symm id

theorem Enters.append {first later : ManifestEntries → Except DeployError ManifestEntries} {xs ys : List String}
    (hfirst : Enters first xs) (hlater : Enters later ys) : Enters (fun output => first output >>= later) (xs ++ ys) := by
  intro output hnodup hnew
  obtain ⟨hxs, hys, hapart⟩ := List.nodup_append.mp hnodup
  obtain ⟨middle, hmiddle, hmem⟩ := hfirst output hxs fun k hk => hnew k (List.mem_append_left _ hk)
  have hfresh : ∀ k ∈ ys, k ∉ middle := by
    intro k hk hin
    cases (hmem k).mp hin with
    | inl hold => exact hnew k (List.mem_append_right _ hk) hold
    | inr hnewer => exact hapart k hnewer k hk rfl
  obtain ⟨entered, hentered, hmem'⟩ := hlater middle hys hfresh
  refine ⟨entered, ?_, ?_⟩
  · show (first output >>= later) = .ok entered
    rw [hmiddle]
    exact hentered
  · intro k
    rw [hmem', hmem, List.mem_append, or_assoc]

mutual

theorem flatten_enters (path : List String) (service : String) (node : SecretNode) :
    Enters (flatten path service node.manifest) (identifiers (leavesBelow path node)) := by
  match node with
  | .branch children =>
    have hchildren := flattenChildren_enters path service children
    rw [leavesBelow]
    intro output
    rw [SecretNode.manifest, flatten]
    exact hchildren output
  | .secret leaf =>
    intro output
    rw [SecretNode.manifest, flatten, leavesBelow]
    exact Enters.declare path _ output
  | .generated leaf =>
    intro output
    rw [SecretNode.manifest, flatten, leavesBelow]
    exact Enters.declare path _ output
  | .operator leaf =>
    intro output
    rw [SecretNode.manifest, flatten, leavesBelow]
    exact Enters.nothing output

theorem flattenChildren_enters (path : List String) (service : String) (children : List (String × SecretNode)) :
    Enters (flattenChildren path service (childrenManifest children)) (identifiers (leavesAmong path children)) := by
  match children with
  | [] =>
    intro output
    rw [childrenManifest, flattenChildren, leavesAmong]
    exact Enters.nothing output
  | (name, child) :: rest =>
    have happend := (flatten_enters (path ++ [name]) service child).append (flattenChildren_enters path service rest)
    intro output
    rw [childrenManifest, flattenChildren, leavesAmong, identifiers_append]
    exact happend output

end

theorem flattenServices_enters (hostname space : String) (services : List (String × SecretNode)) :
    Enters (flattenServices hostname space (childrenManifest services))
      (identifiers (leavesAmong [hostname, space] services)) := by
  induction services with
  | nil =>
    intro output
    rw [childrenManifest, flattenServices, leavesAmong]
    exact Enters.nothing output
  | cons tree rest ih =>
    obtain ⟨service, node⟩ := tree
    have happend := (flatten_enters [hostname, space, service] service node).append ih
    intro output
    rw [childrenManifest, flattenServices, leavesAmong, identifiers_append]
    exact happend output

/-- The manifest of a host expects what can be requested of it, if no identifier stands twice. -/
theorem flattenHost_enters (hostname : String) (host : HostSchema) :
    Enters (flattenHost hostname host.manifest) (identifiers (host.leaves hostname)) := by
  rw [host_leaves_node, HostSchema.node, leavesBelow, HostSchema.manifest]
  induction host.serviceGroups with
  | nil =>
    intro output
    rw [List.map_nil, List.map_nil, flattenHost, leavesAmong]
    exact Enters.nothing output
  | cons group rest ih =>
    have happend := (flattenServices_enters hostname group.1 group.2).append ih
    intro output
    rw [List.map_cons, List.map_cons, flattenHost, leavesAmong, leavesBelow, identifiers_append]
    exact happend output

end NixSecrets.Inventory

namespace NixSecrets.Inventory

open Tui (NodeOrdered NamesOrdered LabelsApart displayLabels isBranch rowsWithPublic reorderedRows valuePaths valueRows)

/-- All that walks over a document sees the same leaves of a host. -/
structure WalkersAgree (schema : Schema) (hostname : String) (host : HostSchema) : Prop where
  deployed : ∃ found entries, schema.deployableIdentifiers hostname = .ok found ∧ found.Nodup ∧
    flattenHost hostname host.manifest ∅ = .ok entries ∧ (∀ identifier, identifier ∈ found ↔ identifier ∈ entries) ∧
    ∀ identifier ∈ found, ∃ path leaf, SecretPath.parse identifier = .ok path ∧ schema.leaf path = .ok leaf ∧
      leaf.requested = some path ∧ leaf ∈ host.leaves hostname
  listed : ∀ set publicIds, (valuePaths (rowsWithPublic set publicIds schema)).Perm (shownPaths schema.leaves)
  reordered : ∀ set publicIds order, (valueRows (reorderedRows (rowsWithPublic set publicIds schema) order)).Perm
    (valueRows (rowsWithPublic set publicIds schema))

/-- Each generated leaf stands below a branch of its service, in a namespace that can be part of a path. -/
def HostSchema.GeneratedPlaced (hostname : String) (host : HostSchema) : Prop :=
  ∀ tree ∈ host.trees, ∀ path leaf, .generated path leaf ∈ leavesBelow [hostname, tree.1, tree.2.1] tree.2.2 →
    isBranch tree.2.2 = true ∧ validateComponent tree.1 = .ok ()

section

variable {ε σ : Type} {enter : String → Checked ε Unit} {visit : σ → LeafSpec → Checked ε σ}

mutual

/-- A walk that ends has entered every name that leads to a leaf. -/
theorem walk_entered {path : List String} {node : SecretNode} {s s' : σ}
    (h : walk enter visit path node s = .ok s') : ∀ leaf ∈ leavesBelow path node, ∃ rest,
      leaf.path.parts = path ++ rest ∧ (isBranch node = true ↔ rest ≠ []) ∧ ∀ name ∈ rest, enter name = .ok () := by
  match node with
  | .branch children =>
    intro leaf hleaf
    rw [leavesBelow] at hleaf
    rw [walk] at h
    obtain ⟨rest, hparts, hne, hentered⟩ := walkChildren_entered h leaf hleaf
    exact ⟨rest, hparts, iff_of_true rfl hne, hentered⟩
  | .secret value =>
    intro leaf hleaf
    rw [leavesBelow, List.mem_singleton] at hleaf
    rw [hleaf]
    exact ⟨[], (List.append_nil path).symm, by simp [isBranch], by simp⟩
  | .generated value =>
    intro leaf hleaf
    rw [leavesBelow, List.mem_singleton] at hleaf
    rw [hleaf]
    exact ⟨[], (List.append_nil path).symm, by simp [isBranch], by simp⟩
  | .operator value =>
    intro leaf hleaf
    rw [leavesBelow, List.mem_singleton] at hleaf
    rw [hleaf]
    exact ⟨[], (List.append_nil path).symm, by simp [isBranch], by simp⟩

theorem walkChildren_entered {path : List String} {children : List (String × SecretNode)} {s s' : σ}
    (h : walkChildren enter visit path children s = .ok s') : ∀ leaf ∈ leavesAmong path children, ∃ rest,
      leaf.path.parts = path ++ rest ∧ rest ≠ [] ∧ ∀ name ∈ rest, enter name = .ok () := by
  match children with
  | [] =>
    intro leaf hleaf
    rw [leavesAmong] at hleaf
    cases hleaf
  | (name, child) :: later =>
    intro leaf hleaf
    rw [walkChildren] at h
    obtain ⟨_, hname, h⟩ := Checked.bind_ok h
    obtain ⟨middle, hchild, hlater⟩ := Checked.bind_ok h
    rw [leavesAmong] at hleaf
    cases List.mem_append.mp hleaf with
    | inl hleaf =>
      obtain ⟨rest, hparts, _, hentered⟩ := walk_entered hchild leaf hleaf
      refine ⟨name :: rest, ?_, List.cons_ne_nil _ _, ?_⟩
      · rw [hparts, List.append_assoc, List.singleton_append]
      · intro other hother
        cases List.mem_cons.mp hother with
        | inl heq =>
          rw [heq]
          exact hname
        | inr hmem => exact hentered other hmem
    | inr hleaf => exact walkChildren_entered hlater leaf hleaf

end

end

theorem made_iff {first space service : String} {rest : List String}
    (hfirst : validateComponent first = .ok ()) (hspace : validateNamespace space = .ok ())
    (hservice : validateComponent service = .ok ()) (hrest : ∀ name ∈ rest, validateComponent name = .ok ()) :
    (⟨[first, space, service] ++ rest⟩ : SecretPath).Made ↔ rest ≠ [] ∧ validateComponent space = .ok () := by
  constructor
  · intro h
    obtain ⟨_, hlength, h⟩ := Checked.bind_ok h
    obtain ⟨_, hparts, _⟩ := Checked.bind_ok h
    have hlong := Checked.refuseIf_ok hlength
    refine ⟨?_, Checked.each_ok hparts space (by simp)⟩
    intro hnil
    rw [hnil] at hlong
    simp at hlong
  · intro h
    have hlength : ¬ ([first, space, service] ++ rest).length < 4 := by
      have hpos := List.length_pos_iff.mpr h.1
      simp
      omega
    have hparts : ∀ name ∈ [first, space, service] ++ rest, validateComponent name = .ok () := by
      intro name hname
      simp only [List.cons_append, List.nil_append, List.mem_cons] at hname
      rcases hname with heq | heq | heq | hmem
      · rw [heq]
        exact hfirst
      · rw [heq]
        exact h.2
      · rw [heq]
        exact hservice
      · exact hrest name hmem
    rw [SecretPath.Made, SecretPath.new, Checked.refuseIf_of_not _ hlength, Checked.ok_bind,
      Checked.each_of_ok hparts, Checked.ok_bind]
    show (do
      validateNamespace space
      return ⟨[first, space, service] ++ rest⟩ : Checked SchemaError SecretPath) = _
    rw [hspace]
    rfl

section

variable {libs : SchemaLibraries} {schema : Schema} {hostname : String} {host : HostSchema}

/-- What an accepted document says of the names of a host and of the labels its services are shown by. -/
structure HostNamed (hostname : String) (host : HostSchema) : Prop where
  name : validateComponent hostname = .ok ()
  spaces : ∀ group ∈ host.serviceGroups, validateNamespace group.1 = .ok ()
  paths : ∀ group ∈ host.metadata.serviceDisplayPaths, ∀ entry ∈ group.2, entry.2 ≠ []
  labels : ∀ group ∈ host.serviceGroups, (group.2.map fun entry => displayLabels host group.1 entry.1).Nodup

theorem validate_host (h : schema.validate libs = .ok ()) (hhost : (hostname, host) ∈ schema) :
    HostNamed hostname host := by
  obtain ⟨_, _, h⟩ := Checked.bind_ok h
  obtain ⟨_, _, h⟩ := Checked.bind_ok h
  obtain ⟨_, hhosts, _⟩ := Checked.bind_ok h
  obtain ⟨registries, _, h⟩ := Checked.carry_ok_mem hhosts hhost
  obtain ⟨_, hname, h⟩ := Checked.bind_ok h
  obtain ⟨_, _, h⟩ := Checked.bind_ok h
  obtain ⟨_, _, h⟩ := Checked.bind_ok h
  obtain ⟨_, _, h⟩ := Checked.bind_ok h
  obtain ⟨_, hgroups, h⟩ := Checked.bind_ok h
  obtain ⟨_, hpaths, h⟩ := Checked.bind_ok h
  obtain ⟨_, hunique, _⟩ := Checked.bind_ok h
  constructor
  · exact hname
  · intro group hgroup
    obtain ⟨_, _, h⟩ := Checked.carry_ok_mem hgroups hgroup
    obtain ⟨_, hspace, _⟩ := Checked.bind_ok h
    exact hspace
  · intro group hgroup entry hentry
    obtain ⟨_, _, h⟩ := Checked.bind_ok (Checked.each_ok hpaths group hgroup)
    obtain ⟨_, h, _⟩ := Checked.bind_ok (Checked.each_ok h entry hentry)
    have hnot := Checked.refuseIf_ok h
    rw [not_or] at hnot
    exact hnot.2
  · intro group hgroup
    exact not_not.mp (Checked.refuseIf_ok (Checked.each_ok hunique group hgroup))

theorem HostNamed.labelsApart (h : HostNamed hostname host) {group : String × Entries SecretNode}
    (hgroup : group ∈ host.serviceGroups) : LabelsApart (displayLabels host group.1) group.2 := by
  constructor
  · intro service _
    rw [displayLabels]
    cases hspace : host.metadata.serviceDisplayPaths.lookup group.1 with
    | none => exact List.cons_ne_nil _ _
    | some paths =>
      rw [Option.bind_some]
      cases hlabels : paths.lookup service.1 with
      | none => exact List.cons_ne_nil _ _
      | some labels => exact h.paths _ (mem_of_lookup hspace) _ (mem_of_lookup hlabels)
  · exact List.pairwise_map.mp (h.labels group hgroup)

theorem stored_made (h : schema.validate libs = .ok ()) {path : SecretPath} {leaf : SecretLeaf}
    (hleaf : .stored path leaf ∈ schema.leaves) : path.Made := by
  obtain ⟨_, _, h⟩ := Checked.bind_ok h
  obtain ⟨_, hderived, _⟩ := Checked.bind_ok h
  obtain ⟨_, hstored, _⟩ := Checked.bind_ok hderived
  rw [Schema.storedLeaves, Schema.walkAll_eq] at hstored
  obtain ⟨_, _, h⟩ := Checked.carry_ok_mem hstored hleaf
  obtain ⟨made, hmade, _⟩ := Checked.bind_ok h
  obtain ⟨heq, hnew, _⟩ := SecretPath.new_ok hmade
  rw [heq] at hnew
  exact hnew

theorem mem_host_leaves {leaf : LeafSpec} : leaf ∈ host.leaves hostname ↔
    ∃ tree ∈ host.trees, leaf ∈ leavesBelow [hostname, tree.1, tree.2.1] tree.2.2 := by
  rw [HostSchema.leaves, List.mem_flatMap]

/-- In an accepted document the paths of a host can all be made just where its generated leaves are placed well. -/
theorem allMade_iff (h : schema.validate libs = .ok ()) (hhost : (hostname, host) ∈ schema) :
    AllMade (host.leaves hostname) ↔ host.GeneratedPlaced hostname := by
  have hnamed := validate_host h hhost
  have hgenerated : ∀ tree ∈ host.trees, ∀ path leaf,
      .generated path leaf ∈ leavesBelow [hostname, tree.1, tree.2.1] tree.2.2 →
        (path.Made ↔ isBranch tree.2.2 = true ∧ validateComponent tree.1 = .ok ()) := by
    intro tree htree path leaf hleaf
    obtain ⟨hservice, hwalk⟩ := validate_service h hhost htree
    obtain ⟨rest, hparts, hbranch, hentered⟩ := walk_entered hwalk _ hleaf
    obtain ⟨group, hgroup, htree⟩ := List.mem_flatMap.mp htree
    obtain ⟨service, _, htree⟩ := List.mem_map.mp htree
    have hspace := hnamed.spaces group hgroup
    have hpath : path = ⟨[hostname, tree.1, tree.2.1] ++ rest⟩ := congrArg SecretPath.mk hparts
    rw [hpath, hbranch]
    rw [← htree] at hservice ⊢
    exact made_iff hnamed.name hspace hservice hentered
  constructor
  · intro hmade tree htree path leaf hleaf
    exact (hgenerated tree htree path leaf hleaf).mp
      (hmade _ (mem_host_leaves.mpr ⟨tree, htree, hleaf⟩) path rfl)
  · intro hplaced leaf hleaf path hpath
    cases leaf with
    | operator p value => cases hpath
    | stored p value =>
      cases hpath
      apply stored_made h
      rw [schema_leaves]
      exact List.mem_flatMap.mpr ⟨_, hhost, hleaf⟩
    | generated p value =>
      cases hpath
      obtain ⟨tree, htree, hleaf⟩ := mem_host_leaves.mp hleaf
      exact (hgenerated tree htree _ _ hleaf).mpr (hplaced tree htree _ _ hleaf)

/-- For a host of an accepted document, the walks agree just where its generated leaves are placed well. -/
theorem walkers_agree_iff (libs : SchemaLibraries) (schema : Schema) (hordered : schema.Ordered)
    (h : schema.validate libs = .ok ()) (hostname : String) (host : HostSchema) (hhost : (hostname, host) ∈ schema) :
    WalkersAgree schema hostname host ↔ host.GeneratedPlaced hostname := by
  have hlookup := lookup_of_mem hordered.hosts hhost
  rw [← allMade_iff h hhost]
  constructor
  · intro hagree
    obtain ⟨found, _, hfound, _⟩ := hagree.deployed
    exact ((deployableIdentifiers_ok hlookup).mp hfound).1
  · intro hmade
    have hdistinct : (host.leaves hostname).Pairwise fun a b => a.path ≠ b.path := by
      rw [host_leaves_node]
      exact leavesBelow_distinct (hordered.node hhost)
    have hnodup := identifiers_nodup hmade hdistinct
    obtain ⟨entries, hentries, hmem⟩ := flattenHost_enters hostname host ∅ hnodup (by simp)
    constructor
    · refine ⟨_, entries, (deployableIdentifiers_ok hlookup).mpr ⟨hmade, rfl⟩, hnodup, hentries, ?_, ?_⟩
      · intro identifier
        rw [hmem]
        simp
      · intro identifier hidentifier
        obtain ⟨leaf, hleaf, hrequested⟩ := List.mem_filterMap.mp hidentifier
        obtain ⟨path, hpath, hdisplay⟩ := Option.map_eq_some_iff.mp hrequested
        refine ⟨path, leaf, ?_, ?_, hpath, hleaf⟩
        · rw [← hdisplay]
          exact parse_display (hmade leaf hleaf path hpath)
        · rw [← requested_path hpath]
          exact leaf_found hordered hhost hleaf
    · intro set publicIds
      apply Tui.rowsWithPublic_values
      intro entry hentry group hgroup
      exact (validate_host h hentry).labelsApart hgroup
    · exact fun set publicIds order => Tui.reorderedRows_values _ order

end

/-- A key that the host makes for itself. -/
def madeLeaf : GeneratedSecretLeaf where
  recipientPublicKeys := ["ssh-ed25519 AAAA"]
  recipientIds := ["operator"]
  generatedSecret := {
    secretType := .localSshKey
    output := { (pairedLeaf "key").destination with path := "/persistent/secrets/app/service/key" } }

def madeHost (service : SecretNode) : HostSchema :=
  { pairedHost "token" "key" with serviceGroups := [("services", [("app", service)])] }

theorem madeHost_ordered {service : SecretNode} (h : NodeOrdered service) :
    Schema.Ordered [("web", madeHost service)] := by
  refine ⟨⟨List.pairwise_singleton _ _, ?_, ?_⟩, ?_⟩
  · intro host hhost
    rw [List.mem_singleton.mp hhost]
    exact List.pairwise_singleton _ _
  · intro host hhost group hgroup tree htree
    rw [List.mem_singleton.mp hhost] at hgroup
    rw [List.mem_singleton.mp hgroup] at htree
    rw [List.mem_singleton.mp htree]
    exact h
  · intro host hhost group hgroup
    rw [List.mem_singleton.mp hhost] at hgroup
    rw [List.mem_singleton.mp hgroup]
    exact List.pairwise_singleton _ _

theorem made_walkers_agree : WalkersAgree [("web", madeHost (.branch [("key", .generated madeLeaf)]))] "web"
    (madeHost (.branch [("key", .generated madeLeaf)])) := by
  apply (walkers_agree_iff pairedLibraries [("web", madeHost (.branch [("key", .generated madeLeaf)]))]
    (madeHost_ordered (by simp [NodeOrdered, NamesOrdered])) (by decide +kernel) "web" _ List.mem_cons_self).mpr
  intro tree htree path leaf _
  rw [List.mem_singleton.mp htree]
  decide

/-- The document is accepted with a generated leaf in the place of a service, and the host has no request for all of it. -/
theorem bare_service_undeployable :
    Schema.validate pairedLibraries [("web", madeHost (.generated madeLeaf))] = .ok () ∧
    Schema.deployableIdentifiers [("web", madeHost (.generated madeLeaf))] "web" = Checked.refuse .tooShort ∧
    (flattenHost "web" (madeHost (.generated madeLeaf)).manifest ∅).map (·.keys) = .ok ["web.services.app"] := by
  decide +kernel

end NixSecrets.Inventory
