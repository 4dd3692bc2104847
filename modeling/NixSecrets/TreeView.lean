import NixSecrets.ApprovalRows
import NixSecrets.TreeRows

namespace NixSecrets.Tui

inductive ViewFilter
  | required
  | all
  | keys
  | passwords
  | publicInfo
  deriving DecidableEq, Repr

def ViewFilter.next : ViewFilter → ViewFilter
  | .required => .all
  | .all => .keys
  | .keys => .passwords
  | .passwords => .publicInfo
  | .publicInfo => .required

/-- What a filter lists; a value needed before install stays until it is stored. -/
def ViewFilter.lists (filter : ViewFilter) (row : Row) : Bool :=
  match filter with
  | .required => row.externalInputRequired || row.requiredForInstall && !row.isSet
  | .all => true
  | .keys => row.category = .key || row.category = .operator
  | .passwords => row.category = .password
  | .publicInfo => row.category = .publicInfo

/-- The tree with what the operator sees of it. -/
structure View where
  rows : List Row := []
  selected : Nat := 0
  filter : ViewFilter := .required
  humanOnly : Bool := false
  search : String := ""
  treeOrder : List Attribute := Attribute.defaultTree
  facets : List (Attribute × Facet) := []
  collapsed : List (List String) := []
  /-- The groups folded during a search, with its query. -/
  searchCollapsed : String × List (List String) := ("", [])
  deriving DecidableEq, Repr

/-- What the filters make of one value, with the groups above it. -/
structure RowChecks where
  index : Nat
  ancestors : List Nat
  category : Bool
  audience : Bool
  facets : Bool
  searchable : Bool
  deriving DecidableEq, Repr

def RowChecks.passes (checks : RowChecks) : Bool :=
  checks.category && checks.audience && checks.facets && checks.searchable

structure VisibleRow where
  index : Nat
  depth : Nat
  label : String
  deriving DecidableEq, Repr

/-- What the selection points at: a value by its path, a group by its labels. -/
structure SelectionIdentity where
  path : Option String
  segments : List String
  deriving DecidableEq, Repr

/-- A row with its index. -/
abbrev Indexed := Row × Nat

/-- The rows directly below the row with this index, among those kept. -/
def directChildren (kept : List Indexed) (row : Indexed) : Nat :=
  (((kept.dropWhile fun other => other.2 ≠ row.2).tail.takeWhile fun other => row.1.depth < other.1.depth).filter
    fun other => other.1.depth = row.1.depth + 1).length

/-- The labels of the groups that share a row with what they hold, the nearest first. -/
def chainLabels (kept : List Indexed) (depth : Nat) : List Indexed → List String
  | [] => []
  | parent :: rest =>
    if depth ≤ parent.1.depth then chainLabels kept depth rest
    else if directChildren kept parent ≠ 1 ∨ parent.1.depth < 2 then []
    else parent.1.name :: chainLabels kept parent.1.depth rest

/-- Groups with one child below the second level share its row. -/
def listFrom (kept : List Indexed) (before : List Indexed) : List Indexed → List VisibleRow
  | [] => []
  | row :: rest =>
    if row.1.path = none ∧ 2 ≤ row.1.depth ∧ directChildren kept row = 1 then listFrom kept (row :: before) rest
    else
      { index := row.2
        depth := row.1.depth
        label := "/".intercalate ((chainLabels kept row.1.depth before).reverse ++ [row.1.name]) } ::
        listFrom kept (row :: before) rest

namespace View

def lower (text : String) : List Char := text.toList.map Char.toLower

def contains (needle : List Char) (text : String) : Bool := needle <:+: lower text

def searchable (needle : List Char) (ancestors : List Indexed) (row : Row) : Bool :=
  ([row.name] ++ row.path.toList ++ row.description.toList ++ ancestors.map (·.1.name)).any (contains needle) ||
    (Attribute.all.filterMap (·.value row)).any (contains needle)

/-- Which filters each value passes; `ancestors` are the groups above, the nearest first. -/
def rowChecks (v : View) (ancestors : List Indexed) : List Indexed → List RowChecks
  | [] => []
  | (row, index) :: rest =>
    let ancestors := ancestors.dropWhile fun parent => row.depth ≤ parent.1.depth
    if row.path = none then v.rowChecks ((row, index) :: ancestors) rest
    else
      { index
        ancestors := ancestors.map (·.2)
        category := v.filter.lists row
        audience := !v.humanOnly || row.humanFacing
        facets := v.facets.all fun facet => (facet.1.value row).all facet.2.accepts
        searchable := searchable (lower v.search) ancestors row } :: v.rowChecks ancestors rest

/-- The rows that are kept: the values that pass every filter, and the groups above them. -/
def kept (v : View) : List Indexed :=
  let checks := (v.rowChecks [] v.rows.zipIdx).filter RowChecks.passes
  v.rows.zipIdx.filter fun row => checks.any fun checks => checks.index = row.2 || checks.ancestors.contains row.2

/-- How many values a search finds, and how many of those other filters hide. -/
structure SearchSummary where
  matched : Nat := 0
  hidden : Nat := 0
  hiddenByType : Nat := 0
  hiddenByAudience : Nat := 0
  hiddenByFacets : Nat := 0
  deriving DecidableEq, Repr

def SearchSummary.count (summary : SearchSummary) (checks : RowChecks) : SearchSummary :=
  if !checks.searchable then summary
  else if checks.category && checks.audience && checks.facets then { summary with matched := summary.matched + 1 }
  else {
    matched := summary.matched + 1
    hidden := summary.hidden + 1
    hiddenByType := summary.hiddenByType + (!checks.category).toNat
    hiddenByAudience := summary.hiddenByAudience + (!checks.audience).toNat
    hiddenByFacets := summary.hiddenByFacets + (!checks.facets).toNat }

def activeCollapsed (v : View) : Option (List (List String)) :=
  if v.search = "" then some v.collapsed
  else if v.searchCollapsed.1 = v.search then some v.searchCollapsed.2
  else none

def isCollapsed (v : View) (row : Row) : Bool :=
  !row.isSecret && v.activeCollapsed.any (·.contains row.displaySegments)

def below (group segments : List String) : Bool := group.length < segments.length ∧ group <+: segments

/-- Drops the rows below collapsed groups. -/
def hideCollapsed (v : View) (hiddenBelow : Option (List String)) : List VisibleRow → List VisibleRow
  | [] => []
  | visible :: rest =>
    match v.rows[visible.index]? with
    | none => v.hideCollapsed hiddenBelow rest
    | some row =>
      if hiddenBelow.any fun group => below group row.displaySegments then v.hideCollapsed hiddenBelow rest
      else visible :: v.hideCollapsed (if v.isCollapsed row then some row.displaySegments else none) rest

def visibleTreeRows (v : View) : List VisibleRow := v.hideCollapsed none (listFrom v.kept [] v.kept)

def visibleRows (v : View) : List Nat := v.visibleTreeRows.map (·.index)

/-- The row that is listed at a place. -/
def listedAt (v : View) (place : Nat) : Option Row := v.visibleRows[place]?.bind fun index => v.rows[index]?

def selectedRow (v : View) : Option Row := v.listedAt v.selected

def selectedPath (v : View) : Option String := v.selectedRow.bind (·.path)

def selectionIdentity (v : View) : Option SelectionIdentity :=
  v.selectedRow.map fun row => ⟨row.path, row.displaySegments⟩

/-- The last of the longest. -/
def deepest : List (Nat × Nat) → Option Nat
  | [] => none
  | (depth, place) :: rest =>
    if rest.all fun other => other.1 < depth then some place else deepest rest

/-- Where row `anchor` is listed, or else the deepest group above it. -/
def visiblePositionOrGroup (v : View) (anchor : Nat) : Option Nat :=
  match v.visibleRows.idxOf? anchor with
  | some place => some place
  | none => v.rows[anchor]?.bind fun row => deepest (v.visibleRows.zipIdx.filterMap fun listed =>
      (v.rows[listed.1]?.filter fun group => !group.isSecret && below group.displaySegments row.displaySegments).map
        fun group => (group.displaySegments.length, listed.2))

def reselect (v : View) (anchor : Option Nat) : View :=
  { v with selected := (anchor.bind v.visiblePositionOrGroup).getD 0 }

/-- The row that an identity names. -/
def anchor (v : View) (identity : SelectionIdentity) : Option Nat :=
  v.rows.findIdx? fun row => match identity.path with
    | some path => row.path = some path
    | none => !row.isSecret && row.displaySegments = identity.segments

/-- Where the same value or group is listed, or else its deepest listed group. -/
def restoredPlace (v : View) (identity : Option SelectionIdentity) : Option Nat :=
  identity.bind fun identity => (v.anchor identity).bind v.visiblePositionOrGroup

def restoreSelection (v : View) (identity : Option SelectionIdentity) : Bool × View :=
  match v.restoredPlace identity with
  | some place => (true, { v with selected := place })
  | none => (false, v)

def rebuildTree (v : View) : View :=
  let identity := v.selectionIdentity
  let v := { v with rows := reorderedRows (v.rows.filter Row.isSecret) v.treeOrder }
  match v.restoreSelection identity with
  | (true, v) => v
  | (false, v) => { v with selected := 0 }

/-- A refresh from the backend. -/
def updateRows (v : View) (rows : List Row) : View :=
  let identity := v.selectionIdentity
  let wasValue := identity.any (·.path.isSome)
  let v := { v with rows }.rebuildTree
  match v.restoreSelection identity with
  | (true, v) => v
  | (false, v) => { v with
      selected := if wasValue then 0 else min v.selected (v.visibleRows.length - 1) }

/-- Changes the first row of a value. -/
def modifyRow (path : String) (f : Row → Row) : List Row → List Row
  | [] => []
  | row :: rest => if row.path = some path then f row :: rest else row :: modifyRow path f rest

def setRow (v : View) (path : String) (set : Bool) : View :=
  { v with rows := modifyRow path (fun row => { row with isSet := set }) v.rows }

def applyTask (v : View) (task : TaskApproval) : View :=
  let update (row : Row) : Row := { row with isSet := task.inputIsSet, outputIsSet := task.outputIsSet }
  { v with rows := modifyRow task.identifier update v.rows }

def applyTaskStatus (v : View) (request : ApprovalRequest) : View := request.tasks.foldl applyTask v

def isSet (v : View) (path : String) : Bool := v.rows.any fun row => row.path = some path && row.isSet

/-- Moves the selection, if anything is listed. -/
def moveTo (v : View) (place : Nat) : View :=
  if v.visibleRows.isEmpty then v else { v with selected := min place (v.visibleRows.length - 1) }

def setFilter (v : View) (filter : ViewFilter) : View := { v with filter, selected := 0 }

def setHumanOnly (v : View) (enabled : Bool) : View := { v with humanOnly := enabled, selected := 0 }

def setSearch (v : View) (query : String) : View := { v with search := query, selected := 0 }

/-- Changes the folded groups that apply now. -/
def modifyCollapsed (v : View) (f : List (List String) → List (List String)) : View :=
  if v.search = "" then { v with collapsed := f v.collapsed }
  else { v with searchCollapsed := (v.search, f (if v.searchCollapsed.1 = v.search then v.searchCollapsed.2 else [])) }

/-- Folds or unfolds the selected group; `none` on a value. -/
def toggleSelectedGroup (v : View) : Option View :=
  (v.selectedRow.filter fun row => !row.isSecret).map fun row => v.modifyCollapsed fun groups =>
    if groups.contains row.displaySegments then groups.filter (· ≠ row.displaySegments)
    else groups ++ [row.displaySegments]

def collapseAll (v : View) : View :=
  let groups := (v.rows.filter fun row => !row.isSecret).map (·.displaySegments)
  (v.modifyCollapsed (· ++ groups)).reselect v.visibleRows[v.selected]?

def expandAll (v : View) : View := (v.modifyCollapsed fun _ => []).reselect v.visibleRows[v.selected]?

/-- The passwords that nobody has set and the operator's machine can generate. -/
def missingPasswords (v : View) : List String :=
  (v.rows.filter fun row => row.category = .password && row.isSecret && !row.isSet && row.canGenerate).filterMap
    (·.path)

/-- Whether there is a host to deploy. -/
def hasHosts (v : View) : Bool := v.rows.any fun row => row.isSecret && (Attribute.host.value row).isSome

/-- The selected value, if it is stored. -/
def selectedSet (v : View) : Option String := (v.selectedRow.filter (·.isSet)).bind (·.path)

end View

end NixSecrets.Tui
