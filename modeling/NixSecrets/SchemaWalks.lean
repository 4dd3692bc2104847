import NixSecrets.ArtifactSigning
import NixSecrets.DeployableSchema
import NixSecrets.InventoryRows

namespace NixSecrets.Inventory

open Tui (NodeOrdered NamesOrdered InOrder)

/-- A document whose maps are all in the order of their keys. -/
structure Schema.Ordered (schema : Schema) : Prop extends InOrder schema where
  services : ∀ host ∈ schema, ∀ group ∈ host.2.serviceGroups, group.2.Pairwise fun a b => a.1 < b.1

/-- The services of a host, in their namespaces, as one tree. -/
def HostSchema.node (host : HostSchema) : SecretNode :=
  .branch (host.serviceGroups.map fun group => (group.1, .branch group.2))

/-- The path of a leaf that a deployment may request. -/
def LeafSpec.requested : LeafSpec → Option SecretPath
  | .stored path _ => some path
  | .generated path _ => some path
  | .operator _ _ => none

def identifiers (leaves : List LeafSpec) : List String :=
  leaves.filterMap fun leaf => leaf.requested.map SecretPath.display

/-- Each leaf that can be requested has a path that can be made. -/
def AllMade (leaves : List LeafSpec) : Prop := ∀ leaf ∈ leaves, ∀ path, leaf.requested = some path → path.Made

def HostSchema.leaves (hostname : String) (host : HostSchema) : List LeafSpec :=
  host.trees.flatMap fun (space, service, node) => leavesBelow [hostname, space, service] node

section

theorem identifiers_append (xs ys : List LeafSpec) : identifiers (xs ++ ys) = identifiers xs ++ identifiers ys :=
  List.filterMap_append

theorem allMade_append {xs ys : List LeafSpec} : AllMade (xs ++ ys) ↔ AllMade xs ∧ AllMade ys :=
  List.forall_mem_append

theorem collect_leaf {parts : List String} {found : List String} :
    (do return [(← SecretPath.new parts).display] : Checked SchemaError (List String)) = .ok found ↔
      (⟨parts⟩ : SecretPath).Made ∧ found = [(⟨parts⟩ : SecretPath).display] := by
  constructor
  · intro h
    obtain ⟨path, hpath, h⟩ := Checked.bind_ok h
    obtain ⟨heq, hmade, _⟩ := SecretPath.new_ok hpath
    rw [heq] at hmade h
    cases h
    exact ⟨hmade, rfl⟩
  · intro h
    have hmade : SecretPath.new parts = .ok ⟨parts⟩ := h.1
    rw [hmade, h.2]
    rfl

mutual

/-- The walk over a node collects its leaves if the path of each can be made. -/
theorem collect_ok (path : List String) (node : SecretNode) {found : List String} :
    collect path node = .ok found ↔
      AllMade (leavesBelow path node) ∧ found = identifiers (leavesBelow path node) := by
  match node with
  | .branch children =>
    rw [collect, leavesBelow]
    exact collectAll_ok path children
  | .secret leaf =>
    rw [collect, leavesBelow, collect_leaf]
    simp [AllMade, identifiers, LeafSpec.requested]
  | .generated leaf =>
    rw [collect, leavesBelow, collect_leaf]
    simp [AllMade, identifiers, LeafSpec.requested]
  | .operator leaf =>
    rw [collect, leavesBelow]
    simp [AllMade, identifiers, LeafSpec.requested, eq_comm]

theorem collectAll_ok (path : List String) (children : List (String × SecretNode)) {found : List String} :
    collectAll path children = .ok found ↔
      AllMade (leavesAmong path children) ∧ found = identifiers (leavesAmong path children) := by
  match children with
  | [] =>
    rw [collectAll, leavesAmong]
    simp [AllMade, identifiers, eq_comm]
  | (name, child) :: rest =>
    rw [collectAll, leavesAmong, allMade_append, identifiers_append]
    constructor
    · intro h
      obtain ⟨first, hfirst, h⟩ := Checked.bind_ok h
      obtain ⟨later, hlater, h⟩ := Checked.bind_ok h
      cases h
      obtain ⟨hmade, heq⟩ := (collect_ok (path ++ [name]) child).mp hfirst
      obtain ⟨hmade', heq'⟩ := (collectAll_ok path rest).mp hlater
      exact ⟨⟨hmade, hmade'⟩, by rw [heq, heq']⟩
    · intro h
      have hfirst := (collect_ok (path ++ [name]) child).mpr ⟨h.1.1, rfl⟩
      have hlater := (collectAll_ok path rest).mpr ⟨h.1.2, rfl⟩
      rw [hfirst, Checked.ok_bind, hlater, h.2]
      rfl

end

theorem mapM_ok_iff {α β ε : Type} {run : α → Checked ε β} {value : α → β} {holds : α → Prop}
    (h : ∀ x y, run x = .ok y ↔ holds x ∧ y = value x) (xs : List α) (ys : List β) :
    xs.mapM run = .ok ys ↔ (∀ x ∈ xs, holds x) ∧ ys = xs.map value := by
  induction xs generalizing ys with
  | nil =>
    rw [List.mapM_nil]
    constructor
    · intro hys
      cases hys
      exact ⟨by simp, rfl⟩
    · intro hys
      rw [hys.2]
      rfl
  | cons x xs ih =>
    rw [List.mapM_cons, List.forall_mem_cons, List.map_cons]
    constructor
    · intro hys
      obtain ⟨y, hy, hys⟩ := Checked.bind_ok hys
      obtain ⟨later, hlater, hys⟩ := Checked.bind_ok hys
      cases hys
      obtain ⟨hx, hyv⟩ := (h x y).mp hy
      obtain ⟨hrest, hlater'⟩ := (ih later).mp hlater
      exact ⟨⟨hx, hrest⟩, by rw [hyv, hlater']⟩
    · intro hys
      rw [(h x (value x)).mpr ⟨hys.1.1, rfl⟩, Checked.ok_bind, (ih _).mpr ⟨hys.1.2, rfl⟩, hys.2]
      rfl

theorem host_leaves_eq (hostname : String) (host : HostSchema) :
    host.leaves hostname = host.serviceGroups.flatMap fun group =>
      group.2.flatMap fun service => leavesBelow [hostname, group.1, service.1] service.2 := by
  simp [HostSchema.leaves, HostSchema.trees, List.flatMap_assoc, List.flatMap_map]

theorem identifiers_flatMap {α : Type} (xs : List α) (leaves : α → List LeafSpec) :
    identifiers (xs.flatMap leaves) = (xs.map fun x => identifiers (leaves x)).flatten := by
  rw [identifiers, List.filterMap_flatMap, List.flatMap_def]
  rfl

/-- A request for a whole host is for all its leaves, if each of their paths can be made. -/
theorem deployableIdentifiers_ok {schema : Schema} {hostname : String} {host : HostSchema}
    (hhost : schema.lookup hostname = some host) {found : List String} :
    schema.deployableIdentifiers hostname = .ok found ↔
      AllMade (host.leaves hostname) ∧ found = identifiers (host.leaves hostname) := by
  have hservice (group : String × Entries SecretNode) := mapM_ok_iff
    (fun (service : String × SecretNode) _ => collect_ok [hostname, group.1, service.1] service.2) group.2
  have hgroups := mapM_ok_iff hservice host.serviceGroups
  have hentry : schema.deployableIdentifiers hostname = (do
      let groups ← host.serviceGroups.mapM fun group =>
        group.2.mapM fun service => collect [hostname, group.1, service.1] service.2
      return groups.flatten.flatten : Checked SchemaError (List String)) := by
    rw [Schema.deployableIdentifiers, hhost]
    rfl
  have hmade : (∀ group ∈ host.serviceGroups, ∀ service ∈ group.2,
      AllMade (leavesBelow [hostname, group.1, service.1] service.2)) ↔ AllMade (host.leaves hostname) := by
    rw [host_leaves_eq]
    unfold AllMade
    simp only [List.mem_flatMap]
    constructor
    · intro h leaf hleaf
      obtain ⟨group, hgroup, service, hservice, hleaf⟩ := hleaf
      exact h group hgroup service hservice leaf hleaf
    · intro h group hgroup service hservice leaf hleaf
      exact h leaf ⟨group, hgroup, service, hservice, hleaf⟩
  have hfound : identifiers (host.leaves hostname) = (host.serviceGroups.map fun group =>
      group.2.map fun service => identifiers (leavesBelow [hostname, group.1, service.1] service.2)).flatten.flatten := by
    rw [host_leaves_eq, identifiers_flatMap, List.flatten_flatten, List.map_map]
    congr 1
    apply List.map_congr_left
    intro group _
    rw [identifiers_flatMap]
    rfl
  rw [hentry, hfound, ← hmade]
  constructor
  · intro h
    obtain ⟨groups, hok, h⟩ := Checked.bind_ok h
    cases h
    obtain ⟨hall, heq⟩ := (hgroups groups).mp hok
    exact ⟨hall, by rw [heq]⟩
  · intro h
    rw [(hgroups _).mpr ⟨h.1, rfl⟩, Checked.ok_bind, h.2]
    rfl

end

section

theorem namesOrdered_iff {children : List (String × SecretNode)} :
    NamesOrdered children ↔
      (∀ child ∈ children, NodeOrdered child.2) ∧ children.Pairwise fun a b => a.1 < b.1 := by
  induction children with
  | nil => simp [NamesOrdered]
  | cons child rest ih =>
    obtain ⟨name, child⟩ := child
    rw [NamesOrdered, ih, List.pairwise_cons, List.forall_mem_cons]
    constructor
    · intro h
      exact ⟨⟨h.1, h.2.2.1⟩, h.2.1, h.2.2.2⟩
    · intro h
      exact ⟨h.1.1, h.2.1, h.1.2, h.2.2⟩

theorem lookup_of_mem {α : Type} {entries : Entries α} (h : entries.Pairwise fun a b => a.1 < b.1) {key : String}
    {x : α} (hmem : (key, x) ∈ entries) : entries.lookup key = some x := by
  induction entries with
  | nil => cases hmem
  | cons entry rest ih =>
    obtain ⟨hfirst, hrest⟩ := List.pairwise_cons.mp h
    cases List.mem_cons.mp hmem with
    | inl heq =>
      rw [← heq]
      simp
    | inr hmem =>
      have hne : key ≠ entry.1 := by
        intro hsame
        have hless := hfirst _ hmem
        rw [hsame] at hless
        exact String.lt_irrefl _ hless
      have hkey : (key == entry.1) = false := beq_false_of_ne hne
      rw [List.lookup_cons, hkey]
      exact ih hrest hmem

theorem mem_of_lookup {α : Type} {entries : Entries α} {key : String} {x : α} (h : entries.lookup key = some x) :
    (key, x) ∈ entries := by
  induction entries with
  | nil => cases h
  | cons entry rest ih =>
    by_cases hkey : key = entry.1
    · have hbeq : (key == entry.1) = true := by rw [hkey]; exact beq_self_eq_true _
      rw [List.lookup_cons, hbeq] at h
      cases h
      rw [hkey]
      exact List.mem_cons_self ..
    · have hbeq : (key == entry.1) = false := beq_false_of_ne hkey
      rw [List.lookup_cons, hbeq] at h
      exact List.mem_cons_of_mem _ (ih h)

mutual

/-- A leaf below a node is what the rest of its path leads to. -/
theorem leavesBelow_found {path : List String} {node : SecretNode} (h : NodeOrdered node) :
    ∀ leaf ∈ leavesBelow path node, ∃ rest, leaf.path.parts = path ++ rest ∧
      descend leaf.path rest node = .ok leaf := by
  match node with
  | .branch children =>
    intro leaf hleaf
    rw [leavesBelow] at hleaf
    rw [NodeOrdered] at h
    obtain ⟨name, child, rest, hmem, hparts, hfound⟩ := leavesAmong_found h leaf hleaf
    refine ⟨name :: rest, hparts, ?_⟩
    rw [descend, lookup_of_mem (namesOrdered_iff.mp h).2 hmem]
    exact hfound
  | .secret value =>
    intro leaf hleaf
    rw [leavesBelow, List.mem_singleton] at hleaf
    rw [hleaf]
    exact ⟨[], (List.append_nil path).symm, rfl⟩
  | .generated value =>
    intro leaf hleaf
    rw [leavesBelow, List.mem_singleton] at hleaf
    rw [hleaf]
    exact ⟨[], (List.append_nil path).symm, rfl⟩
  | .operator value =>
    intro leaf hleaf
    rw [leavesBelow, List.mem_singleton] at hleaf
    rw [hleaf]
    exact ⟨[], (List.append_nil path).symm, rfl⟩

theorem leavesAmong_found {path : List String} {children : List (String × SecretNode)} (h : NamesOrdered children) :
    ∀ leaf ∈ leavesAmong path children, ∃ name child rest, (name, child) ∈ children ∧
      leaf.path.parts = path ++ name :: rest ∧ descend leaf.path rest child = .ok leaf := by
  match children with
  | [] =>
    intro leaf hleaf
    rw [leavesAmong] at hleaf
    cases hleaf
  | (name, child) :: later =>
    intro leaf hleaf
    rw [NamesOrdered] at h
    rw [leavesAmong] at hleaf
    cases List.mem_append.mp hleaf with
    | inl hleaf =>
      obtain ⟨rest, hparts, hfound⟩ := leavesBelow_found h.1 leaf hleaf
      refine ⟨name, child, rest, List.mem_cons_self .., ?_, hfound⟩
      rw [hparts, List.append_assoc, List.singleton_append]
    | inr hleaf =>
      obtain ⟨name', child', rest, hmem, hparts, hfound⟩ := leavesAmong_found h.2.2 leaf hleaf
      exact ⟨name', child', rest, List.mem_cons_of_mem _ hmem, hparts, hfound⟩

end

mutual

/-- No two leaves below a node have the same path. -/
theorem leavesBelow_distinct {path : List String} {node : SecretNode} (h : NodeOrdered node) :
    (leavesBelow path node).Pairwise fun a b => a.path ≠ b.path := by
  match node with
  | .branch children =>
    rw [leavesBelow]
    rw [NodeOrdered] at h
    exact leavesAmong_distinct h
  | .secret value => exact List.pairwise_singleton _ _
  | .generated value => exact List.pairwise_singleton _ _
  | .operator value => exact List.pairwise_singleton _ _

theorem leavesAmong_distinct {path : List String} {children : List (String × SecretNode)}
    (h : NamesOrdered children) : (leavesAmong path children).Pairwise fun a b => a.path ≠ b.path := by
  match children with
  | [] =>
    rw [leavesAmong]
    exact List.Pairwise.nil
  | (name, child) :: later =>
    rw [NamesOrdered] at h
    rw [leavesAmong]
    apply List.pairwise_append.mpr
    refine ⟨leavesBelow_distinct h.1, leavesAmong_distinct h.2.2, ?_⟩
    intro a ha b hb hsame
    obtain ⟨rest, ha, _⟩ := leavesBelow_found h.1 a ha
    obtain ⟨name', child', rest', hmem, hb, _⟩ := leavesAmong_found h.2.2 b hb
    rw [hsame, hb, List.append_assoc, List.append_cancel_left_eq, List.singleton_append] at ha
    have hless := h.2.1 _ hmem
    rw [(List.cons.inj ha).1] at hless
    exact String.lt_irrefl _ hless

end

theorem leavesAmong_flatMap (path : List String) (children : List (String × SecretNode)) :
    leavesAmong path children = children.flatMap fun child => leavesBelow (path ++ [child.1]) child.2 := by
  induction children with
  | nil => rw [leavesAmong, List.flatMap_nil]
  | cons child rest ih =>
    obtain ⟨name, child⟩ := child
    rw [leavesAmong, List.flatMap_cons, ih]

theorem host_leaves_node (hostname : String) (host : HostSchema) :
    host.leaves hostname = leavesBelow [hostname] host.node := by
  rw [host_leaves_eq, HostSchema.node, leavesBelow, leavesAmong_flatMap, List.flatMap_map]
  apply List.flatMap_congr
  intro group _
  rw [leavesBelow, leavesAmong_flatMap]
  rfl

theorem Schema.Ordered.node {schema : Schema} (h : schema.Ordered) {hostname : String} {host : HostSchema}
    (hhost : (hostname, host) ∈ schema) : NodeOrdered host.node := by
  rw [HostSchema.node, NodeOrdered, namesOrdered_iff, List.forall_mem_map]
  constructor
  · intro group hgroup
    rw [NodeOrdered, namesOrdered_iff]
    exact ⟨h.nodes _ hhost group hgroup, h.services _ hhost group hgroup⟩
  · exact List.pairwise_map.mpr (h.spaces _ hhost)

/-- The document finds each leaf of a host at the leaf's path, if it is long enough to be read. -/
theorem leaf_found {schema : Schema} (h : schema.Ordered) {hostname : String} {host : HostSchema}
    (hhost : (hostname, host) ∈ schema) {leaf : LeafSpec} (hleaf : leaf ∈ host.leaves hostname) :
    schema.leaf leaf.path = .ok leaf := by
  rw [host_leaves_eq] at hleaf
  obtain ⟨group, hgroup, hleaf⟩ := List.mem_flatMap.mp hleaf
  obtain ⟨service, hservice, hleaf⟩ := List.mem_flatMap.mp hleaf
  obtain ⟨rest, hparts, hfound⟩ := leavesBelow_found (h.nodes _ hhost group hgroup service hservice) leaf hleaf
  have hindex (i : Nat) : (Checked.index leaf.path.parts i : Checked SchemaError String) =
      Checked.orPanic ([hostname, group.1, service.1] ++ rest)[i]? := by
    rw [← hparts]
    rfl
  have hdrop : leaf.path.parts.drop 3 = rest := by rw [hparts]; rfl
  rw [Schema.leaf, hindex 0, hindex 1, hindex 2, hdrop]
  show (do
    let host ← Checked.orRefuse (missing leaf.path) (schema.lookup hostname)
    let services ← Checked.orRefuse (missing leaf.path) (host.serviceGroups.lookup group.1)
    let node ← Checked.orRefuse (missing leaf.path) (services.lookup service.1)
    descend leaf.path rest node : Checked SchemaError LeafSpec) = .ok leaf
  rw [lookup_of_mem h.hosts hhost]
  show (do
    let services ← Checked.orRefuse (missing leaf.path) (host.serviceGroups.lookup group.1)
    let node ← Checked.orRefuse (missing leaf.path) (services.lookup service.1)
    descend leaf.path rest node : Checked SchemaError LeafSpec) = .ok leaf
  rw [lookup_of_mem (h.spaces _ hhost) hgroup]
  show (do
    let node ← Checked.orRefuse (missing leaf.path) (group.2.lookup service.1)
    descend leaf.path rest node : Checked SchemaError LeafSpec) = .ok leaf
  rw [lookup_of_mem (h.services _ hhost group hgroup) hservice]
  exact hfound

theorem requested_path {leaf : LeafSpec} {path : SecretPath} (h : leaf.requested = some path) : leaf.path = path := by
  cases leaf with
  | stored p value => exact Option.some.inj h
  | generated p value => exact Option.some.inj h
  | operator p value => cases h

/-- Leaves whose paths can be made are listed once each. -/
theorem identifiers_nodup {leaves : List LeafSpec} (hmade : AllMade leaves)
    (h : leaves.Pairwise fun a b => a.path ≠ b.path) : (identifiers leaves).Nodup := by
  rw [identifiers, List.Nodup, List.pairwise_filterMap]
  refine h.imp_of_mem fun {a b} ha hb hne => ?_
  intro x hx y hy hsame
  obtain ⟨p, hp, hx⟩ := Option.map_eq_some_iff.mp hx
  obtain ⟨q, hq, hy⟩ := Option.map_eq_some_iff.mp hy
  rw [requested_path hp, requested_path hq] at hne
  apply hne
  apply display_inj (hmade b hb q hq) (hmade a ha p hp)
  rw [hx, hy, hsame]

end

end NixSecrets.Inventory
