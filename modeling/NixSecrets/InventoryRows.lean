import NixSecrets.ApprovalBroker
import NixSecrets.TreeRuns

namespace NixSecrets.Tui

open Inventory (Entries GeneratedSecretLeaf OperatorLeaf SecretIdentity)

/-- Services under the labels that they are shown by. -/
inductive DisplayNode
  | mk (children : List (String × DisplayNode)) (service : Option (String × Inventory.SecretNode))

namespace DisplayNode

def empty : DisplayNode := .mk [] none

def insert (service : String × Inventory.SecretNode) : List String → DisplayNode → DisplayNode
  | [], .mk children _ => .mk children (some service)
  | label :: labels, .mk children own => .mk (modifyEntry label empty (insert service labels) children) own

end DisplayNode

/-- The part of a path after its last dot. -/
def lastPart (path : String) : String :=
  String.ofList ((path.toList.splitOn '.').getLast?.getD path.toList)

def leafName (identity : Option SecretIdentity) (path : String) : String :=
  (identity.map (·.name)).getD (lastPart path)

section

variable (set publicIds : BTreeSet String)

def secretRow (leaf : Inventory.SecretLeaf) (path : String) (depth : Nat) (displayPath : List String) : Row where
  depth := depth - 1
  name := leafName leaf.identity path
  displaySegments := displayPath ++ [leafName leaf.identity path]
  path := some path
  isSet := if leaf.kind = .publicInfo then leaf.sharedPublicId.any (publicIds.contains ·) else set.contains path
  canGenerate := leaf.valueType = some .password && !leaf.externalInputRequired
  canCopyPublic := leaf.destination.contentType = some "openssh-private-key"
  description := leaf.description
  category := if leaf.kind = .publicInfo then .publicInfo else match leaf.valueType with
    | some .password => .password
    | some .key => .key
    | none => .other
  humanFacing := leaf.humanFacing
  externalInputRequired := leaf.externalInputRequired
  requiredForInstall := leaf.requiredForInstall
  identity := leaf.identity
  presentation := leaf.presentation

/-- The task that makes a key of a storage box on the target. -/
def taskRow (leaf : GeneratedSecretLeaf) (path : String) (depth : Nat) (displayPath : List String) : Row where
  depth := depth - 1
  name := leafName leaf.identity path
  displaySegments := displayPath ++ [leafName leaf.identity path]
  path := some path
  isSet := set.contains path
  isTask := true
  canGenerate := leaf.valueType = some .password && !leaf.externalInputRequired
  description := leaf.description
  category := .password
  humanFacing := leaf.humanFacing
  externalInputRequired := leaf.externalInputRequired
  requiredForInstall := leaf.requiredForInstall
  identity := leaf.identity
  presentation := leaf.presentation

def operatorRow (leaf : OperatorLeaf) (path : String) (depth : Nat) (displayPath : List String) : Row where
  depth := depth - 1
  name := leafName leaf.identity path
  displaySegments := displayPath ++ [leafName leaf.identity path]
  path := some path
  isSet := set.contains path
  canGenerate := leaf.generator.isSome
  canCopyPublic := leaf.generator.isSome
  description := leaf.description
  category := .operator
  humanFacing := leaf.humanFacing
  requiredForInstall := leaf.requiredForInstall
  identity := leaf.identity
  presentation := leaf.presentation

def isBranch : Inventory.SecretNode → Bool
  | .branch _ => true
  | _ => false

mutual

/-- The rows of a node of the document; a leaf stands one level above its depth. -/
def visit (path : String) (depth : Nat) (displayPath : List String) : Inventory.SecretNode → List Row
  | .secret leaf => [secretRow set publicIds leaf path depth displayPath]
  | .generated leaf =>
    if leaf.generatedSecret.secretType = .storageBoxSshKey then [taskRow set leaf path depth displayPath] else []
  | .operator leaf => [operatorRow set leaf path depth displayPath]
  | .branch children => visitChildren path depth displayPath children

def visitChildren (parent : String) (depth : Nat) (displayPath : List String) : List (String × Inventory.SecretNode) → List Row
  | [] => []
  | (name, node) :: rest =>
    (if isBranch node then
        branch depth name (displayPath ++ [name]) ::
          visit (parent ++ "." ++ name) (depth + 1) (displayPath ++ [name]) node
      else visit (parent ++ "." ++ name) (depth + 1) displayPath node) ++
    visitChildren parent depth displayPath rest

end

mutual

/-- The rows of the services below a label. -/
def emitDisplay (host space : String) (depth : Nat) (displayPath : List String) : DisplayNode → List Row
  | .mk children _ => emitLabels host space depth displayPath children

def emitLabels (host space : String) (depth : Nat) (displayPath : List String) :
    List (String × DisplayNode) → List Row
  | [] => []
  | (label, .mk children service) :: rest =>
    branch depth label (displayPath ++ [label]) ::
      (service.toList.flatMap fun service =>
        visit set publicIds (host ++ "." ++ space ++ "." ++ service.1) (depth + 1) (displayPath ++ [label]) service.2) ++
      emitDisplay host space (depth + 1) (displayPath ++ [label]) (.mk children service) ++
      emitLabels host space depth displayPath rest

end

/-- The labels by which a service is shown. -/
def displayLabels (host : Inventory.HostSchema) (space service : String) : List String :=
  ((host.metadata.serviceDisplayPaths.lookup space).bind (·.lookup service)).getD [service]

def displayTree (host : Inventory.HostSchema) (space : String) (services : Entries Inventory.SecretNode) : DisplayNode :=
  services.foldl (fun root service => root.insert service (displayLabels host space service.1)) .empty

/-- Every value of every host, below the groups that it is shown in. -/
def rowsWithPublic (configuration : Inventory.Schema) : List Row :=
  configuration.flatMap fun (hostName, host) =>
    branch 0 hostName [hostName] :: host.serviceGroups.flatMap fun (space, services) =>
      branch 1 space [hostName, space] ::
        emitDisplay set publicIds hostName space 2 [hostName, space] (displayTree host space services)

end

mutual

/-- The names below each branch are in order, as a map has them. -/
def NodeOrdered : Inventory.SecretNode → Prop
  | .branch children => NamesOrdered children
  | .secret _ | .generated _ | .operator _ => True

def NamesOrdered : List (String × Inventory.SecretNode) → Prop
  | [] => True
  | (name, child) :: rest => NodeOrdered child ∧ (∀ other ∈ rest, name < other.1) ∧ NamesOrdered rest

end

/-- The maps of the document are in the order of their keys. -/
structure InOrder (configuration : Inventory.Schema) : Prop where
  hosts : configuration.Pairwise fun a b => a.1 < b.1
  spaces : ∀ host ∈ configuration, host.2.serviceGroups.Pairwise fun a b => a.1 < b.1
  nodes : ∀ host ∈ configuration, ∀ group ∈ host.2.serviceGroups, ∀ service ∈ group.2, NodeOrdered service.2

/-- No service is shown by labels that lead through a branch of another service. -/
def Unshared (labelsOf : String → List String) (services : Entries Inventory.SecretNode) : Prop :=
  ∀ service ∈ services, ∀ other ∈ services, ∀ label more children grandchildren,
    labelsOf other.1 = labelsOf service.1 ++ label :: more → service.2 = .branch children →
      (label, .branch grandchildren) ∉ children

section

variable (labelsOf : String → List String) (services : Entries Inventory.SecretNode)

mutual

/-- A service stands where its labels lead, and every label leads to a service. -/
def DisplayNode.Fine (path : List String) : DisplayNode → Prop
  | .mk children own => LabelsFine path children ∧ ∀ service, own = some service →
      service ∈ services ∧ labelsOf service.1 = path

def LabelsFine (path : List String) : List (String × DisplayNode) → Prop
  | [] => True
  | (label, child) :: rest => child.Fine (path ++ [label]) ∧
      (∃ service ∈ services, path ++ [label] <+: labelsOf service.1) ∧ (∀ other ∈ rest, label < other.1) ∧
      LabelsFine path rest

end

variable {labelsOf services}

theorem labelsFine_iff {path : List String} {children : List (String × DisplayNode)} :
    LabelsFine labelsOf services path children ↔ (∀ child ∈ children,
      child.2.Fine labelsOf services (path ++ [child.1]) ∧
        ∃ service ∈ services, path ++ [child.1] <+: labelsOf service.1) ∧
      children.Pairwise fun a b => a.1 < b.1 := by
  induction children with
  | nil => simp [LabelsFine]
  | cons child rest ih =>
    obtain ⟨label, child⟩ := child
    rw [LabelsFine, ih, List.pairwise_cons, List.forall_mem_cons]
    constructor
    · intro h
      exact ⟨⟨⟨h.1, h.2.1⟩, h.2.2.2.1⟩, h.2.2.1, h.2.2.2.2⟩
    · intro h
      exact ⟨h.1.1.1, h.1.1.2, h.2.1, h.1.2, h.2.2⟩

theorem DisplayNode.empty_fine (path : List String) : DisplayNode.empty.Fine labelsOf services path := by
  rw [DisplayNode.empty, DisplayNode.Fine]
  exact ⟨trivial, nofun⟩

theorem DisplayNode.insert_fine {service : String × Inventory.SecretNode} (hservice : service ∈ services)
    {labels path : List String} (hlabels : labelsOf service.1 = path ++ labels) {node : DisplayNode}
    (h : node.Fine labelsOf services path) : (node.insert service labels).Fine labelsOf services path := by
  induction labels generalizing node path with
  | nil =>
    cases node with
    | mk children own =>
      rw [DisplayNode.Fine] at h
      rw [DisplayNode.insert, DisplayNode.Fine]
      refine ⟨h.1, ?_⟩
      intro other hother
      cases hother
      exact ⟨hservice, by rw [hlabels, List.append_nil]⟩
  | cons label labels ih =>
    cases node with
    | mk children own =>
      rw [DisplayNode.Fine, labelsFine_iff] at h
      rw [DisplayNode.insert, DisplayNode.Fine, labelsFine_iff]
      have hfurther : labelsOf service.1 = path ++ [label] ++ labels := by
        rw [hlabels, List.append_assoc, List.singleton_append]
      have hleads : ∃ service ∈ services, path ++ [label] <+: labelsOf service.1 :=
        ⟨service, hservice, labels, hfurther.symm⟩
      refine ⟨⟨?_, modifyEntry_sorted h.1.2⟩, h.2⟩
      intro child hchild
      rcases mem_modifyEntry hchild with hold | hnew | ⟨old, hold, hnew⟩
      · exact h.1.1 child hold
      · rw [hnew]
        exact ⟨ih hfurther (DisplayNode.empty_fine _), hleads⟩
      · rw [hnew]
        exact ⟨ih hfurther (h.1.1 _ hold).1, hleads⟩

end

section

variable (set publicIds : BTreeSet String)

/-- A row of a node: a value right below the path, or a row in one of the node's branches. -/
def OwnRow (displayPath : List String) (node : Inventory.SecretNode) (row : Row) : Prop :=
  row.path ≠ none ∧ (∃ name, row.displaySegments = displayPath ++ [name]) ∨
    ∃ children name grandchildren, node = .branch children ∧ (name, .branch grandchildren) ∈ children ∧
      displayPath ++ [name] <+: row.displaySegments

theorem visit_leaf (path : String) (depth : Nat) (displayPath : List String) (node : Inventory.SecretNode)
    (h : isBranch node = false) : ∀ row ∈ visit set publicIds path depth displayPath node,
      row.path ≠ none ∧ ∃ name, row.displaySegments = displayPath ++ [name] := by
  cases node with
  | branch children => cases h
  | secret leaf =>
    intro row hrow
    rw [visit, List.mem_singleton] at hrow
    rw [hrow]
    exact ⟨nofun, _, rfl⟩
  | operator leaf =>
    intro row hrow
    rw [visit, List.mem_singleton] at hrow
    rw [hrow]
    exact ⟨nofun, _, rfl⟩
  | generated leaf =>
    intro row hrow
    rw [visit] at hrow
    split at hrow
    · rw [List.mem_singleton] at hrow
      rw [hrow]
      exact ⟨nofun, _, rfl⟩
    · cases hrow

theorem OwnRow.below {displayPath : List String} {node : Inventory.SecretNode} {row : Row}
    (h : OwnRow displayPath node row) : View.below displayPath row.displaySegments = true := by
  rcases h with ⟨_, name, hname⟩ | ⟨_, name, _, _, _, hprefix⟩
  · rw [hname]
    exact below_snoc displayPath name
  · exact below_of_prefix (below_snoc displayPath name) hprefix

mutual

theorem visit_runs (path : String) (depth : Nat) (displayPath : List String) (node : Inventory.SecretNode)
    (h : NodeOrdered node) : Runs (visit set publicIds path depth displayPath node) ∧
      ∀ row ∈ visit set publicIds path depth displayPath node, OwnRow displayPath node row := by
  match node with
  | .branch children =>
    rw [NodeOrdered] at h
    obtain ⟨hruns, hrows⟩ := visitChildren_runs path depth displayPath children h
    rw [visit]
    refine ⟨hruns, fun row hrow => (hrows row hrow).imp id ?_⟩
    intro hbranch
    obtain ⟨name, grandchildren, hmem, hprefix⟩ := hbranch
    exact ⟨children, name, grandchildren, rfl, hmem, hprefix⟩
  | .secret leaf =>
    have hvalues := visit_leaf set publicIds path depth displayPath (.secret leaf) rfl
    exact ⟨Runs.values fun row hrow => (hvalues row hrow).1, fun row hrow => .inl (hvalues row hrow)⟩
  | .generated leaf =>
    have hvalues := visit_leaf set publicIds path depth displayPath (.generated leaf) rfl
    exact ⟨Runs.values fun row hrow => (hvalues row hrow).1, fun row hrow => .inl (hvalues row hrow)⟩
  | .operator leaf =>
    have hvalues := visit_leaf set publicIds path depth displayPath (.operator leaf) rfl
    exact ⟨Runs.values fun row hrow => (hvalues row hrow).1, fun row hrow => .inl (hvalues row hrow)⟩

theorem visitChildren_runs (parent : String) (depth : Nat) (displayPath : List String)
    (children : List (String × Inventory.SecretNode)) (h : NamesOrdered children) :
    Runs (visitChildren set publicIds parent depth displayPath children) ∧
      ∀ row ∈ visitChildren set publicIds parent depth displayPath children,
        row.path ≠ none ∧ (∃ name, row.displaySegments = displayPath ++ [name]) ∨
          ∃ name grandchildren, (name, .branch grandchildren) ∈ children ∧
            displayPath ++ [name] <+: row.displaySegments := by
  match children with
  | [] =>
    rw [visitChildren]
    exact ⟨trivial, by simp⟩
  | (name, node) :: rest =>
    rw [NamesOrdered] at h
    obtain ⟨hnode, hname, hrest⟩ := h
    obtain ⟨hlater, hrows⟩ := visitChildren_runs parent depth displayPath rest hrest
    have hmore : ∀ row ∈ visitChildren set publicIds parent depth displayPath rest,
        row.path ≠ none ∧ (∃ name, row.displaySegments = displayPath ++ [name]) ∨
          ∃ name' grandchildren, (name', .branch grandchildren) ∈ (name, node) :: rest ∧
            displayPath ++ [name'] <+: row.displaySegments := by
      intro row hrow
      refine (hrows row hrow).imp id ?_
      intro hbranch
      obtain ⟨name', grandchildren, hmem, hprefix⟩ := hbranch
      exact ⟨name', grandchildren, List.mem_cons_of_mem _ hmem, hprefix⟩
    rw [visitChildren]
    by_cases hbranch : isBranch node = true
    · rw [if_pos hbranch]
      obtain ⟨grandchildren, hnode'⟩ : ∃ grandchildren, node = .branch grandchildren := by
        cases node with
        | branch grandchildren => exact ⟨grandchildren, rfl⟩
        | secret leaf => cases hbranch
        | generated leaf => cases hbranch
        | operator leaf => cases hbranch
      obtain ⟨hruns, hown⟩ := visit_runs (parent ++ "." ++ name) (depth + 1) (displayPath ++ [name]) node hnode
      have hbelow := fun row hrow => (hown row hrow).below
      have hpart := group_extends hbelow depth
      refine ⟨(hruns.group depth name hbelow).append hlater ?_, ?_⟩
      · intro x hx y hy
        rcases hrows y hy with ⟨hvalue, name', hname'⟩ | ⟨name', grandchildren', hmem, hprefix⟩
        · have hlonger := (hpart x hx).length_le
          rw [List.length_append, List.length_singleton] at hlonger
          have hlength : y.displaySegments.length = displayPath.length + 1 := by rw [hname']; simp
          exact ⟨not_heads_of_length (by omega), fun hheads => hvalue hheads.1⟩
        · have hne : name ≠ name' := by
            intro hsame
            have hless := hname _ hmem
            rw [hsame] at hless
            exact String.lt_irrefl _ hless
          exact ⟨not_heads_of_ne hne (hpart x hx) hprefix, not_heads_of_ne (Ne.symm hne) hprefix (hpart x hx)⟩
      · intro row hrow
        cases List.mem_append.mp hrow with
        | inl hrow => exact .inr ⟨name, grandchildren, by rw [hnode']; exact List.mem_cons_self .., hpart row hrow⟩
        | inr hrow => exact hmore row hrow
    · rw [if_neg hbranch]
      rw [Bool.not_eq_true] at hbranch
      have hvalues := visit_leaf set publicIds (parent ++ "." ++ name) (depth + 1) displayPath node hbranch
      refine ⟨(Runs.values fun row hrow => (hvalues row hrow).1).append hlater ?_, ?_⟩
      · intro x hx y hy
        obtain ⟨hvalue, name', hname'⟩ := hvalues x hx
        refine ⟨fun hheads => hvalue hheads.1, not_heads_of_length ?_⟩
        have hlength : x.displaySegments.length = displayPath.length + 1 := by rw [hname']; simp
        rcases hrows y hy with ⟨_, other, hother⟩ | ⟨other, _, _, hprefix⟩
        · rw [hother, hlength]
          simp
        · have hlonger := hprefix.length_le
          rw [List.length_append, List.length_singleton] at hlonger
          omega
      · intro row hrow
        cases List.mem_append.mp hrow with
        | inl hrow => exact .inl (hvalues row hrow)
        | inr hrow => exact hmore row hrow

end

variable {labelsOf : String → List String} {services : Entries Inventory.SecretNode}

mutual

theorem emitDisplay_runs (host space : String) (depth : Nat) (displayPath path : List String) (node : DisplayNode)
    (hordered : ∀ service ∈ services, NodeOrdered service.2) (hunshared : Unshared labelsOf services)
    (h : node.Fine labelsOf services path) : ∃ labels, (∀ label ∈ labels,
        ∃ service ∈ services, path ++ [label] <+: labelsOf service.1) ∧
      Labelled displayPath labels (emitDisplay set publicIds host space depth displayPath node) := by
  match node with
  | .mk children own =>
    rw [DisplayNode.Fine] at h
    rw [emitDisplay]
    refine ⟨children.map Prod.fst, ?_, emitLabels_runs host space depth displayPath path children hordered hunshared h.1⟩
    intro label hlabel
    obtain ⟨child, hchild, heq⟩ := List.mem_map.mp hlabel
    rw [← heq]
    exact ((labelsFine_iff.mp h.1).1 child hchild).2

theorem emitLabels_runs (host space : String) (depth : Nat) (displayPath path : List String)
    (children : List (String × DisplayNode)) (hordered : ∀ service ∈ services, NodeOrdered service.2)
    (hunshared : Unshared labelsOf services) (h : LabelsFine labelsOf services path children) :
    Labelled displayPath (children.map Prod.fst) (emitLabels set publicIds host space depth displayPath children) := by
  match children with
  | [] =>
    rw [emitLabels]
    exact Labelled.nil displayPath
  | (label, .mk children own) :: rest =>
    rw [LabelsFine] at h
    obtain ⟨hchild, _, hlabel, hrest⟩ := h
    obtain ⟨labels, hleads, hlabels⟩ :=
      emitDisplay_runs host space (depth + 1) (displayPath ++ [label]) (path ++ [label]) (.mk children own)
        hordered hunshared hchild
    rw [DisplayNode.Fine] at hchild
    have hown : Runs (own.toList.flatMap fun service => visit set publicIds (host ++ "." ++ space ++ "." ++ service.1)
          (depth + 1) (displayPath ++ [label]) service.2) ∧
        ∀ row ∈ own.toList.flatMap fun service => visit set publicIds (host ++ "." ++ space ++ "." ++ service.1)
          (depth + 1) (displayPath ++ [label]) service.2,
          ∃ service, own = some service ∧ OwnRow (displayPath ++ [label]) service.2 row := by
      cases own with
      | none => exact ⟨trivial, by simp⟩
      | some service =>
        have hservice := (hchild.2 service rfl).1
        have hvisit := visit_runs set publicIds (host ++ "." ++ space ++ "." ++ service.1) (depth + 1)
          (displayPath ++ [label]) service.2 (hordered service hservice)
        simp only [Option.toList_some, List.flatMap_singleton]
        exact ⟨hvisit.1, fun row hrow => ⟨service, rfl, hvisit.2 row hrow⟩⟩
    -- The rows of the service itself stand before those of the services below its label.
    have hapart : Apart (own.toList.flatMap fun service => visit set publicIds (host ++ "." ++ space ++ "." ++ service.1)
          (depth + 1) (displayPath ++ [label]) service.2)
        (emitDisplay set publicIds host space (depth + 1) (displayPath ++ [label]) (.mk children own)) := by
      intro x hx y hy
      obtain ⟨service, hservice, hrow⟩ := hown.2 x hx
      obtain ⟨label', hlabel', hprefix⟩ := hlabels.2 y hy
      rcases hrow with ⟨hvalue, name, hname⟩ | ⟨cs, name, grandchildren, hbranch, hmem, hprefix'⟩
      · refine ⟨fun hheads => hvalue hheads.1, not_heads_of_length ?_⟩
        have hlonger := hprefix.length_le
        rw [hname]
        simpa using hlonger
      · have hne : name ≠ label' := by
          intro hsame
          obtain ⟨hin, hpath⟩ := hchild.2 service hservice
          obtain ⟨other, hother, more, hmore⟩ := hleads label' hlabel'
          refine hunshared service hin other hother name more cs grandchildren ?_ hbranch hmem
          rw [hpath, hsame, ← hmore, List.append_assoc, List.singleton_append]
        exact ⟨not_heads_of_ne hne hprefix' hprefix, not_heads_of_ne (Ne.symm hne) hprefix hprefix'⟩
    have hbelow : ∀ row ∈ (own.toList.flatMap fun service =>
          visit set publicIds (host ++ "." ++ space ++ "." ++ service.1) (depth + 1) (displayPath ++ [label]) service.2) ++
        emitDisplay set publicIds host space (depth + 1) (displayPath ++ [label]) (.mk children own),
        View.below (displayPath ++ [label]) row.displaySegments = true := by
      intro row hrow
      cases List.mem_append.mp hrow with
      | inl hrow =>
        obtain ⟨_, _, hrow⟩ := hown.2 row hrow
        exact hrow.below
      | inr hrow => exact hlabels.below row hrow
    rw [emitLabels, List.cons_append]
    exact Labelled.cons ((hown.1.append hlabels.1 hapart).group depth label hbelow) (group_extends hbelow depth)
      (emitLabels_runs host space depth displayPath path rest hordered hunshared hrest) (not_mem_keys hlabel)

end

theorem displayTree_fine (host : Inventory.HostSchema) (space : String) (services : Entries Inventory.SecretNode) :
    (displayTree host space services).Fine (displayLabels host space) services [] := by
  have hall : ∀ (more : Entries Inventory.SecretNode) (root : DisplayNode), (∀ service ∈ more, service ∈ services) →
      root.Fine (displayLabels host space) services [] →
      (more.foldl (fun root service => root.insert service (displayLabels host space service.1)) root).Fine
        (displayLabels host space) services [] := by
    intro more
    induction more with
    | nil => exact fun root _ hroot => hroot
    | cons service rest ih =>
      intro root hmore hroot
      rw [List.foldl_cons]
      exact ih _ (fun other hother => hmore other (List.mem_cons_of_mem _ hother))
        (DisplayNode.insert_fine (hmore service (List.mem_cons_self ..)) (List.nil_append _).symm hroot)
  exact hall services .empty (fun _ hservice => hservice) (DisplayNode.empty_fine [])

end

end NixSecrets.Tui
