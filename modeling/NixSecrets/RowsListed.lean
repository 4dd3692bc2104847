import Mathlib.Data.List.Perm.Basic
import NixSecrets.SchemaWalks

namespace NixSecrets.Inventory

/-- Every leaf has a row in the tree, a generated one only where a storage box gets its key. -/
def LeafSpec.isShown : LeafSpec → Bool
  | .stored _ _ => true
  | .generated _ leaf => leaf.generatedSecret.secretType = .storageBoxSshKey
  | .operator _ _ => true

def shownPaths (leaves : List LeafSpec) : List String :=
  (leaves.filter LeafSpec.isShown).map fun leaf => leaf.path.display

theorem shownPaths_append (xs ys : List LeafSpec) : shownPaths (xs ++ ys) = shownPaths xs ++ shownPaths ys := by
  rw [shownPaths, List.filter_append, List.map_append]
  rfl

theorem shownPaths_flatMap {α : Type} (xs : List α) (leaves : α → List LeafSpec) :
    shownPaths (xs.flatMap leaves) = xs.flatMap fun x => shownPaths (leaves x) := by
  induction xs with
  | nil => rfl
  | cons x xs ih => rw [List.flatMap_cons, List.flatMap_cons, shownPaths_append, ih]

theorem display_snoc {parts : List String} (h : parts ≠ []) (name : String) :
    (⟨parts ++ [name]⟩ : SecretPath).display = (⟨parts⟩ : SecretPath).display ++ "." ++ name := by
  rw [SecretPath.display, String.intercalate_append_of_ne_nil h (List.cons_ne_nil _ _), String.intercalate_singleton]
  rfl

theorem schema_leaves (schema : Schema) : schema.leaves = schema.flatMap fun entry => entry.2.leaves entry.1 := by
  simp [Schema.leaves, Schema.trees, HostSchema.leaves, List.flatMap_assoc, List.flatMap_map]

end NixSecrets.Inventory

namespace NixSecrets.Tui

open Inventory (Entries leavesBelow leavesAmong shownPaths LeafSpec SecretPath)

section

variable {α β : Type} {key : String} {empty : α} {f : α → α}

/-- A change that adds one thing to what an entry holds adds it to what all entries hold. -/
theorem modifyEntry_perm {held : α → List β} {x : β} (hnew : (held (f empty)).Perm [x]) {entries : List (String × α)}
    (hold : ∀ y, (key, y) ∈ entries → (held (f y)).Perm (x :: held y)) :
    ((modifyEntry key empty f entries).flatMap fun entry => held entry.2).Perm
      (x :: entries.flatMap fun entry => held entry.2) := by
  induction entries with
  | nil =>
    rw [modifyEntry, List.flatMap_singleton, List.flatMap_nil]
    exact hnew
  | cons entry rest ih =>
    obtain ⟨label, y⟩ := entry
    rw [modifyEntry]
    split
    next hkey =>
      rw [List.flatMap_cons, List.flatMap_cons, ← List.cons_append]
      exact (hold y (by rw [hkey]; exact List.mem_cons_self ..)).append_right _
    next =>
      split
      next =>
        rw [List.flatMap_cons]
        exact hnew.append_right _
      next =>
        rw [List.flatMap_cons, List.flatMap_cons]
        have hrest := ih fun z hz => hold z (List.mem_cons_of_mem _ hz)
        exact (hrest.append_left _).trans List.perm_middle

end

mutual

/-- The values of a tree of groups. -/
def Node.values : Node → List Row
  | .mk children leaves => valuesAmong children ++ leaves

def valuesAmong : List (String × Node) → List Row
  | [] => []
  | (_, child) :: rest => child.values ++ valuesAmong rest

end

mutual

/-- The services of a tree of labels. -/
def DisplayNode.services : DisplayNode → List (String × Inventory.SecretNode)
  | .mk children own => own.toList ++ servicesAmong children

def servicesAmong : List (String × DisplayNode) → List (String × Inventory.SecretNode)
  | [] => []
  | (_, child) :: rest => child.services ++ servicesAmong rest

end

theorem valuesAmong_flatMap (children : List (String × Node)) :
    valuesAmong children = children.flatMap fun child => child.2.values := by
  induction children with
  | nil => rw [valuesAmong, List.flatMap_nil]
  | cons child rest ih =>
    obtain ⟨label, child⟩ := child
    rw [valuesAmong, List.flatMap_cons, ih]

theorem servicesAmong_flatMap (children : List (String × DisplayNode)) :
    servicesAmong children = children.flatMap fun child => child.2.services := by
  induction children with
  | nil => rw [servicesAmong, List.flatMap_nil]
  | cons child rest ih =>
    obtain ⟨label, child⟩ := child
    rw [servicesAmong, List.flatMap_cons, ih]

theorem Node.insert_values (leaf : Row) (labels : List String) (node : Node) :
    (node.insert leaf labels).values.Perm (leaf :: node.values) := by
  induction labels generalizing node with
  | nil =>
    cases node with
    | mk children leaves =>
      rw [Node.insert, Node.values, Node.values, ← List.append_assoc]
      exact List.perm_append_singleton leaf _
  | cons label labels ih =>
    cases node with
    | mk children leaves =>
      rw [Node.insert, Node.values, Node.values, valuesAmong_flatMap, valuesAmong_flatMap, ← List.cons_append]
      apply List.Perm.append_right
      apply modifyEntry_perm
      · have hnone : Node.empty.values = [] := by rw [Node.empty, Node.values, valuesAmong, List.append_nil]
        rw [← hnone]
        exact ih Node.empty
      · exact fun y _ => ih y

section

/-- A row without the place that the tree gives it. -/
def Row.placeless (row : Row) : Row := { row with depth := 0, displaySegments := [] }

/-- The value rows of a tree, wherever they stand. -/
def valueRows (rows : List Row) : List Row := (rows.filter Row.isSecret).map Row.placeless

theorem valueRows_append (xs ys : List Row) : valueRows (xs ++ ys) = valueRows xs ++ valueRows ys := by
  rw [valueRows, List.filter_append, List.map_append]
  rfl

theorem valueRows_branch (depth : Nat) (label : String) (segments : List String) (rows : List Row) :
    valueRows (branch depth label segments :: rows) = valueRows rows := rfl

theorem valueRows_perm {xs ys : List Row} (h : xs.Perm ys) : (valueRows xs).Perm (valueRows ys) :=
  (h.filter _).map _

theorem valueRows_placed (depth : Nat) (ancestors : List String) (leaves : List Row) :
    valueRows (leaves.map fun leaf => { leaf with depth, displaySegments := ancestors ++ [leaf.name] }) =
      valueRows leaves := by
  rw [valueRows, List.filter_map, List.map_map]
  rfl

mutual

theorem emit_values (depth : Nat) (ancestors : List String) (node : Node) :
    (valueRows (emit depth ancestors node)).Perm (valueRows node.values) := by
  match node with
  | .mk children leaves =>
    rw [emit, Node.values, valueRows_append, valueRows_append, valueRows_placed]
    exact (emitChildren_values depth ancestors children).append
      (valueRows_perm (List.perm_insertionSort (fun a b => leafBefore a b) leaves))

theorem emitChildren_values (depth : Nat) (ancestors : List String) (children : List (String × Node)) :
    (valueRows (emitChildren depth ancestors children)).Perm (valueRows (valuesAmong children)) := by
  match children with
  | [] =>
    rw [emitChildren, valuesAmong]
  | (label, child) :: rest =>
    rw [emitChildren, valuesAmong, valueRows_branch, valueRows_append, valueRows_append]
    exact (emit_values (depth + 1) (ancestors ++ [label]) child).append (emitChildren_values depth ancestors rest)

end

/-- Reordering the tree keeps its values, whatever attributes make its groups. -/
theorem reorderedRows_values (leaves : List Row) (order : List Attribute) :
    (valueRows (reorderedRows leaves order)).Perm (valueRows leaves) := by
  have hall : ∀ (values : List Row) (root : Node),
      (values.foldl (fun root leaf => root.insert leaf (groupLabels order leaf)) root).values.Perm
        (values ++ root.values) := by
    intro values
    induction values with
    | nil => exact fun root => List.Perm.refl _
    | cons leaf rest ih =>
      intro root
      rw [List.foldl_cons]
      apply (ih _).trans
      apply ((Node.insert_values leaf (groupLabels order leaf) root).append_left rest).trans
      exact List.perm_middle
  have hfiltered : valueRows (leaves.filter Row.isSecret) = valueRows leaves := by
    rw [valueRows, List.filter_filter, valueRows]
    simp
  have hnone : Node.empty.values = [] := by rw [Node.empty, Node.values, valuesAmong, List.append_nil]
  have hvalues := hall (leaves.filter Row.isSecret) Node.empty
  rw [hnone, List.append_nil] at hvalues
  rw [← hfiltered]
  exact (emit_values 0 [] _).trans (valueRows_perm hvalues)

end

section

variable (set publicIds : BTreeSet String)

/-- The paths of the values among the rows. -/
def valuePaths (rows : List Row) : List String := rows.filterMap (·.path)

theorem valuePaths_append (xs ys : List Row) : valuePaths (xs ++ ys) = valuePaths xs ++ valuePaths ys :=
  List.filterMap_append

theorem valuePaths_flatMap {α : Type} (xs : List α) (rows : α → List Row) :
    valuePaths (xs.flatMap rows) = xs.flatMap fun x => valuePaths (rows x) := List.filterMap_flatMap ..

theorem valuePaths_branch (depth : Nat) (label : String) (segments : List String) (rows : List Row) :
    valuePaths (branch depth label segments :: rows) = valuePaths rows := rfl

mutual

theorem visit_values {parts : List String} (hparts : parts ≠ []) (depth : Nat) (displayPath : List String)
    (node : Inventory.SecretNode) :
    valuePaths (visit set publicIds (⟨parts⟩ : SecretPath).display depth displayPath node) =
      shownPaths (leavesBelow parts node) := by
  match node with
  | .branch children =>
    rw [visit, leavesBelow]
    exact visitChildren_values hparts depth displayPath children
  | .secret leaf =>
    rw [visit, leavesBelow]
    rfl
  | .operator leaf =>
    rw [visit, leavesBelow]
    rfl
  | .generated leaf =>
    rw [visit, leavesBelow]
    by_cases hbox : leaf.generatedSecret.secretType = .storageBoxSshKey
    · rw [if_pos hbox]
      simp [shownPaths, LeafSpec.isShown, hbox, valuePaths, taskRow, LeafSpec.path]
    · rw [if_neg hbox]
      simp [shownPaths, LeafSpec.isShown, hbox, valuePaths]

theorem visitChildren_values {parts : List String} (hparts : parts ≠ []) (depth : Nat) (displayPath : List String)
    (children : List (String × Inventory.SecretNode)) :
    valuePaths (visitChildren set publicIds (⟨parts⟩ : SecretPath).display depth displayPath children) =
      shownPaths (leavesAmong parts children) := by
  match children with
  | [] =>
    rw [visitChildren, leavesAmong]
    rfl
  | (name, node) :: rest =>
    have hnode (displayPath : List String) :=
      @visit_values (parts ++ [name]) (by simp) (depth + 1) displayPath node
    rw [visitChildren, leavesAmong, Inventory.shownPaths_append, valuePaths_append,
      visitChildren_values hparts depth displayPath rest, ← Inventory.display_snoc hparts]
    congr 1
    split
    next => rw [valuePaths_branch, hnode]
    next => exact hnode displayPath

end

mutual

theorem emitDisplay_values (host space : String) (depth : Nat) (displayPath : List String)
    (children : List (String × DisplayNode)) (own : Option (String × Inventory.SecretNode)) :
    valuePaths (emitDisplay set publicIds host space depth displayPath (.mk children own)) =
      (servicesAmong children).flatMap fun service => shownPaths (leavesBelow [host, space, service.1] service.2) := by
  rw [emitDisplay]
  exact emitLabels_values host space depth displayPath children

theorem emitLabels_values (host space : String) (depth : Nat) (displayPath : List String)
    (children : List (String × DisplayNode)) :
    valuePaths (emitLabels set publicIds host space depth displayPath children) =
      (servicesAmong children).flatMap fun service => shownPaths (leavesBelow [host, space, service.1] service.2) := by
  match children with
  | [] =>
    rw [emitLabels, servicesAmong]
    rfl
  | (label, .mk children own) :: rest =>
    have hown (service : String × Inventory.SecretNode) :
        valuePaths (visit set publicIds (host ++ "." ++ space ++ "." ++ service.1) (depth + 1) (displayPath ++ [label])
          service.2) = shownPaths (leavesBelow [host, space, service.1] service.2) := by
      have hpath : host ++ "." ++ space ++ "." ++ service.1 = (⟨[host, space, service.1]⟩ : SecretPath).display := by
        have hspace := @Inventory.display_snoc [host] (by simp) space
        have hservice := @Inventory.display_snoc [host, space] (by simp) service.1
        have hhost : (⟨[host]⟩ : SecretPath).display = host := String.intercalate_singleton
        rw [List.singleton_append, hhost] at hspace
        show _ = (⟨[host, space] ++ [service.1]⟩ : SecretPath).display
        rw [hservice, hspace]
      rw [hpath]
      exact visit_values set publicIds (by simp) (depth + 1) (displayPath ++ [label]) service.2
    rw [emitLabels, List.cons_append, List.cons_append, valuePaths_branch, valuePaths_append, valuePaths_append,
      emitLabels_values host space depth displayPath rest,
      emitDisplay_values host space (depth + 1) (displayPath ++ [label]) children own, valuePaths_flatMap,
      servicesAmong, DisplayNode.services, List.flatMap_append, List.flatMap_append]
    simp only [hown]

end

end

/-- The labels that lead to a service are some, and they are those of no other service. -/
structure LabelsApart (labelsOf : String → List String) (services : Entries Inventory.SecretNode) : Prop where
  some : ∀ service ∈ services, labelsOf service.1 ≠ []
  apart : services.Pairwise fun a b => labelsOf a.1 ≠ labelsOf b.1

section

variable {labelsOf : String → List String} {done : Entries Inventory.SecretNode}

/-- A service that is entered at labels of its own takes no other service's place. -/
theorem DisplayNode.insert_services {service : String × Inventory.SecretNode} {labels path : List String}
    (hnew : ∀ other ∈ done, labelsOf other.1 ≠ path ++ labels) {node : DisplayNode}
    (h : node.Fine labelsOf done path) : (node.insert service labels).services.Perm (service :: node.services) := by
  induction labels generalizing node path with
  | nil =>
    cases node with
    | mk children own =>
      rw [DisplayNode.Fine] at h
      rw [List.append_nil] at hnew
      cases own with
      | none =>
        rw [DisplayNode.insert, DisplayNode.services, DisplayNode.services]
        exact List.Perm.refl _
      | some other =>
        obtain ⟨hin, hlabels⟩ := h.2 other rfl
        exact absurd hlabels (hnew other hin)
  | cons label labels ih =>
    cases node with
    | mk children own =>
      rw [DisplayNode.Fine, labelsFine_iff] at h
      have hnew' : ∀ other ∈ done, labelsOf other.1 ≠ path ++ [label] ++ labels := by
        intro other hother
        rw [List.append_assoc, List.singleton_append]
        exact hnew other hother
      have hnone : DisplayNode.empty.services = [] := by
        rw [DisplayNode.empty, DisplayNode.services, servicesAmong]
        rfl
      rw [DisplayNode.insert, DisplayNode.services, DisplayNode.services, servicesAmong_flatMap, servicesAmong_flatMap]
      refine List.Perm.trans (List.Perm.append_left _ (modifyEntry_perm ?_ ?_)) List.perm_middle
      · rw [← hnone]
        exact ih hnew' (DisplayNode.empty_fine _)
      · intro y hy
        exact ih hnew' (h.1.1 _ hy).1

mutual

theorem DisplayNode.Fine.mono {services : Entries Inventory.SecretNode} (hmore : ∀ service ∈ done, service ∈ services)
    {node : DisplayNode} {path : List String} (h : node.Fine labelsOf done path) : node.Fine labelsOf services path := by
  match node with
  | .mk children own =>
    rw [DisplayNode.Fine] at h
    rw [DisplayNode.Fine]
    exact ⟨LabelsFine.mono hmore h.1, fun service hservice => ⟨hmore _ (h.2 service hservice).1, (h.2 service hservice).2⟩⟩

theorem LabelsFine.mono {services : Entries Inventory.SecretNode} (hmore : ∀ service ∈ done, service ∈ services)
    {children : List (String × DisplayNode)} {path : List String} (h : LabelsFine labelsOf done path children) :
    LabelsFine labelsOf services path children := by
  match children with
  | [] =>
    rw [LabelsFine]
    trivial
  | (label, child) :: rest =>
    rw [LabelsFine] at h
    rw [LabelsFine]
    obtain ⟨hchild, ⟨service, hservice, hleads⟩, hlabel, hrest⟩ := h
    exact ⟨hchild.mono hmore, ⟨service, hmore _ hservice, hleads⟩, hlabel, LabelsFine.mono hmore hrest⟩

end

theorem displayTree_services {host : Inventory.HostSchema} {space : String} {services : Entries Inventory.SecretNode}
    (h : LabelsApart (displayLabels host space) services) : (displayTree host space services).services.Perm services := by
  have hall : ∀ (more done : Entries Inventory.SecretNode) (root : DisplayNode),
      (done ++ more).Pairwise (fun a b => displayLabels host space a.1 ≠ displayLabels host space b.1) →
      root.Fine (displayLabels host space) done [] → root.services.Perm done →
      (more.foldl (fun root service => root.insert service (displayLabels host space service.1)) root).services.Perm
        (done ++ more) := by
    intro more
    induction more with
    | nil =>
      intro done root _ _ hservices
      rw [List.append_nil]
      exact hservices
    | cons service rest ih =>
      intro done root hapart hfine hservices
      have hsplit : done ++ service :: rest = (done ++ [service]) ++ rest := by rw [List.append_assoc]; rfl
      have hnew : ∀ other ∈ done, displayLabels host space other.1 ≠ [] ++ displayLabels host space service.1 := by
        intro other hother
        exact (List.pairwise_append.mp hapart).2.2 other hother service (List.mem_cons_self ..)
      rw [hsplit] at hapart
      rw [List.foldl_cons, hsplit]
      apply ih (done ++ [service]) _ hapart
      · apply DisplayNode.insert_fine (List.mem_append_right _ (List.mem_singleton.mpr rfl)) (List.nil_append _).symm
        exact hfine.mono fun other hother => List.mem_append_left _ hother
      · apply (DisplayNode.insert_services hnew hfine).trans
        exact (hservices.cons service).trans (List.perm_append_singleton service done).symm
  have hnone : DisplayNode.empty.services = [] := by
    rw [DisplayNode.empty, DisplayNode.services, servicesAmong]
    rfl
  exact hall services [] .empty h.apart (DisplayNode.empty_fine []) (by rw [hnone])

end

section

variable (set publicIds : BTreeSet String)

/-- Every value that a row is for has one row in the tree of its document, and nothing else has. -/
theorem rowsWithPublic_values {configuration : Inventory.Schema}
    (h : ∀ host ∈ configuration, ∀ group ∈ host.2.serviceGroups, LabelsApart (displayLabels host.2 group.1) group.2) :
    (valuePaths (rowsWithPublic set publicIds configuration)).Perm (shownPaths configuration.leaves) := by
  rw [rowsWithPublic, valuePaths_flatMap, Inventory.schema_leaves, Inventory.shownPaths_flatMap]
  apply List.Perm.flatMap_left
  intro host hhost
  rw [valuePaths_branch, valuePaths_flatMap, Inventory.host_leaves_eq, Inventory.shownPaths_flatMap]
  apply List.Perm.flatMap_left
  intro group hgroup
  have hlabels := h host hhost group hgroup
  have hfine := displayTree_fine host.2 group.1 group.2
  have hservices := displayTree_services hlabels
  rw [valuePaths_branch, Inventory.shownPaths_flatMap]
  cases htree : displayTree host.2 group.1 group.2 with
  | mk children own =>
    rw [htree] at hfine hservices
    rw [DisplayNode.Fine] at hfine
    have hown : own = none := by
      cases own with
      | none => rfl
      | some service =>
        obtain ⟨hin, hempty⟩ := hfine.2 service rfl
        exact absurd hempty (hlabels.some service hin)
    rw [hown, DisplayNode.services] at hservices
    rw [emitDisplay_values]
    exact hservices.flatMap_right _

end

end NixSecrets.Tui
