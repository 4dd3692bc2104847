import NixSecrets.InventorySchema

namespace NixSecrets.Inventory

namespace LeafSpec

def path : LeafSpec → SecretPath
  | .stored path _ | .generated path _ | .operator path _ => path

def identity : LeafSpec → Option SecretIdentity
  | .stored _ leaf => leaf.identity
  | .generated _ leaf => leaf.identity
  | .operator _ leaf => leaf.identity

def presentation : LeafSpec → Option SecretPresentation
  | .stored _ leaf => leaf.presentation
  | .generated _ leaf => leaf.presentation
  | .operator _ leaf => leaf.presentation

def publicKeys : LeafSpec → List String
  | .stored _ leaf => leaf.recipientPublicKeys
  | .generated _ leaf => leaf.recipientPublicKeys
  | .operator _ leaf => leaf.recipientPublicKeys

end LeafSpec

mutual

/-- The leaves below a node, in the order of the document. -/
def leavesBelow (path : List String) : SecretNode → List LeafSpec
  | .generated leaf => [.generated ⟨path⟩ leaf]
  | .secret leaf => [.stored ⟨path⟩ leaf]
  | .operator leaf => [.operator ⟨path⟩ leaf]
  | .branch children => leavesAmong path children

def leavesAmong (path : List String) : List (String × SecretNode) → List LeafSpec
  | [] => []
  | (name, child) :: rest => leavesBelow (path ++ [name]) child ++ leavesAmong path rest

end

section

variable {ε σ : Type} (enter : String → Checked ε Unit) (visit : σ → LeafSpec → Checked ε σ)

mutual

/-- A walk over the tree below a path enters each name before what it holds, and visits the
leaves. -/
def walk (path : List String) : SecretNode → σ → Checked ε σ
  | .generated leaf, s => visit s (.generated ⟨path⟩ leaf)
  | .secret leaf, s => visit s (.stored ⟨path⟩ leaf)
  | .operator leaf, s => visit s (.operator ⟨path⟩ leaf)
  | .branch children, s => walkChildren path children s

def walkChildren (path : List String) : List (String × SecretNode) → σ → Checked ε σ
  | [], s => .ok s
  | (name, child) :: rest, s => do
    enter name
    let s ← walk (path ++ [name]) child s
    walkChildren path rest s

end

variable {enter visit}

theorem carry_leaf (s : σ) (leaf : LeafSpec) : Checked.carry visit s [leaf] = visit s leaf := by
  rw [Checked.carry]
  cases visit s leaf with
  | ok s' => rfl
  | error e => rfl

mutual

theorem walk_ok {path : List String} {node : SecretNode} {s s' : σ}
    (h : walk enter visit path node s = .ok s') :
    Checked.carry visit s (leavesBelow path node) = .ok s' := by
  match node with
  | .generated leaf =>
    rw [leavesBelow, carry_leaf]
    rwa [walk] at h
  | .secret leaf =>
    rw [leavesBelow, carry_leaf]
    rwa [walk] at h
  | .operator leaf =>
    rw [leavesBelow, carry_leaf]
    rwa [walk] at h
  | .branch children =>
    rw [leavesBelow]
    rw [walk] at h
    exact walkChildren_ok h

theorem walkChildren_ok {path : List String} {children : List (String × SecretNode)} {s s' : σ}
    (h : walkChildren enter visit path children s = .ok s') :
    Checked.carry visit s (leavesAmong path children) = .ok s' := by
  match children with
  | [] => exact h
  | (name, child) :: rest =>
    rw [walkChildren] at h
    obtain ⟨_, _, h⟩ := Checked.bind_ok h
    obtain ⟨t, hchild, hrest⟩ := Checked.bind_ok h
    rw [leavesAmong, Checked.carry_append, walk_ok hchild, Checked.ok_bind]
    exact walkChildren_ok hrest

end

mutual

theorem walk_answers {path : List String} {node : SecretNode} {s : σ}
    (henter : ∀ name, (enter name).Answers)
    (hvisit : ∀ s, ∀ leaf ∈ leavesBelow path node, (visit s leaf).Answers) :
    (walk enter visit path node s).Answers := by
  match node with
  | .generated leaf => exact hvisit s _ (by simp [leavesBelow])
  | .secret leaf => exact hvisit s _ (by simp [leavesBelow])
  | .operator leaf => exact hvisit s _ (by simp [leavesBelow])
  | .branch children =>
    rw [walk]
    rw [leavesBelow] at hvisit
    exact walkChildren_answers henter hvisit

theorem walkChildren_answers {path : List String} {children : List (String × SecretNode)} {s : σ}
    (henter : ∀ name, (enter name).Answers)
    (hvisit : ∀ s, ∀ leaf ∈ leavesAmong path children, (visit s leaf).Answers) :
    (walkChildren enter visit path children s).Answers := by
  match children with
  | [] => exact Checked.answers_ok s
  | (name, child) :: rest =>
    rw [walkChildren]
    rw [leavesAmong] at hvisit
    apply Checked.answers_seq (henter name)
    intro _
    apply Checked.answers_seq
    · exact walk_answers henter fun s leaf hleaf => hvisit s leaf (List.mem_append_left _ hleaf)
    · intro t
      exact walkChildren_answers henter fun s leaf hleaf =>
        hvisit s leaf (List.mem_append_right _ hleaf)

end

end

/-- A walk that checks no names. -/
def unchecked {ε : Type} (_ : String) : Checked ε Unit := .ok ()

section

variable {ε σ : Type} (visit : σ → LeafSpec → Checked ε σ)

mutual

theorem walk_unchecked (path : List String) (node : SecretNode) (s : σ) :
    walk unchecked visit path node s = Checked.carry visit s (leavesBelow path node) := by
  match node with
  | .generated leaf => rw [leavesBelow, carry_leaf, walk]
  | .secret leaf => rw [leavesBelow, carry_leaf, walk]
  | .operator leaf => rw [leavesBelow, carry_leaf, walk]
  | .branch children => rw [leavesBelow, walk, walkChildren_unchecked]

theorem walkChildren_unchecked (path : List String) (children : List (String × SecretNode)) (s : σ) :
    walkChildren unchecked visit path children s = Checked.carry visit s (leavesAmong path children) := by
  match children with
  | [] => rw [leavesAmong, walkChildren, Checked.carry]
  | (name, child) :: rest =>
    rw [leavesAmong, walkChildren, Checked.carry_append, unchecked, Checked.ok_bind,
      walk_unchecked]
    exact congrArg _ (funext fun t => walkChildren_unchecked path rest t)

end

end

/-- The trees of a host with their namespaces and services. -/
def HostSchema.trees (host : HostSchema) : List (String × String × SecretNode) :=
  host.serviceGroups.flatMap fun (space, services) =>
    services.map fun (service, node) => (space, service, node)

namespace Schema

def trees (schema : Schema) : List (List String × SecretNode) :=
  schema.flatMap fun (hostname, host) =>
    host.trees.map fun (space, service, node) => ([hostname, space, service], node)

def leaves (schema : Schema) : List LeafSpec :=
  schema.trees.flatMap fun (path, node) => leavesBelow path node

/-- A walk over every tree of the document. -/
def walkAll {ε σ : Type} (visit : σ → LeafSpec → Checked ε σ) (schema : Schema) (s : σ) : Checked ε σ :=
  Checked.carry (fun s (path, node) => walk unchecked visit path node s) s schema.trees

theorem walkAll_eq {ε σ : Type} (visit : σ → LeafSpec → Checked ε σ) (schema : Schema) (s : σ) :
    walkAll visit schema s = Checked.carry visit s schema.leaves := by
  unfold walkAll leaves
  induction schema.trees generalizing s with
  | nil => rfl
  | cons tree rest ih =>
    obtain ⟨path, node⟩ := tree
    rw [List.flatMap_cons, Checked.carry_append, Checked.carry]
    dsimp only
    rw [walk_unchecked]
    exact congrArg _ (funext fun t => ih t)

end Schema

end NixSecrets.Inventory
