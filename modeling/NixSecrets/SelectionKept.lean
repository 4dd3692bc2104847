import NixSecrets.TuiScreen

namespace NixSecrets.Tui

namespace View

/-- The same tree with the selection elsewhere. -/
def select (v : View) (place : Nat) : View := { v with selected := place }

theorem rowChecks_select (v : View) (place : Nat) (ancestors rows : List Indexed) :
    (v.select place).rowChecks ancestors rows = v.rowChecks ancestors rows := by
  induction rows generalizing ancestors with
  | nil => rfl
  | cons row rest ih =>
    unfold rowChecks
    simp only [ih]
    rfl

theorem hideCollapsed_select (v : View) (place : Nat) (hiddenBelow : Option (List String)) (rows : List VisibleRow) :
    (v.select place).hideCollapsed hiddenBelow rows = v.hideCollapsed hiddenBelow rows := by
  induction rows generalizing hiddenBelow with
  | nil => rfl
  | cons row rest ih =>
    unfold hideCollapsed
    simp only [ih]
    rfl

theorem visibleRows_select (v : View) (place : Nat) : (v.select place).visibleRows = v.visibleRows := by
  have hkept : (v.select place).kept = v.kept := by
    unfold kept
    rw [rowChecks_select]
    rfl
  unfold visibleRows visibleTreeRows
  rw [hkept, hideCollapsed_select]

theorem listedAt_select (v : View) (place at' : Nat) : (v.select place).listedAt at' = v.listedAt at' := by
  unfold listedAt
  rw [visibleRows_select]
  rfl

theorem deepest_mem {places : List (Nat × Nat)} {place : Nat} (h : deepest places = some place) :
    ∃ depth, (depth, place) ∈ places := by
  induction places with
  | nil => cases h
  | cons head rest ih =>
    obtain ⟨depth, first⟩ := head
    unfold deepest at h
    split at h
    next =>
      cases h
      exact ⟨depth, List.mem_cons_self⟩
    next =>
      obtain ⟨depth', hmem⟩ := ih h
      exact ⟨depth', List.mem_cons_of_mem _ hmem⟩

/-- A place that is found for a row lists it, or a group. -/
theorem visiblePositionOrGroup_some {v : View} {anchor place : Nat} (h : v.visiblePositionOrGroup anchor = some place) :
    v.visibleRows[place]? = some anchor ∨ ∃ row, v.listedAt place = some row ∧ row.path = none := by
  unfold visiblePositionOrGroup at h
  split at h
  next found hfound =>
    cases h
    obtain ⟨hplace, hanchor, -⟩ := List.idxOf?_eq_some_iff.mp hfound
    left
    rw [List.getElem?_eq_getElem hplace, hanchor]
  next =>
    right
    obtain ⟨row, -, hdeepest⟩ := Option.bind_eq_some_iff.mp h
    obtain ⟨depth, hmem⟩ := deepest_mem hdeepest
    obtain ⟨⟨index, found⟩, hlisted, hgroup⟩ := List.mem_filterMap.mp hmem
    obtain ⟨group, hgroup, heq⟩ := Option.map_eq_some_iff.mp hgroup
    obtain ⟨hrow, hkeeps⟩ := Option.filter_eq_some_iff.mp hgroup
    cases heq
    have hplace : v.visibleRows[found]? = some index := List.mem_zipIdx_iff_getElem?.mp hlisted
    refine ⟨group, ?_, ?_⟩
    · rw [listedAt, hplace]
      exact hrow
    · have hplain : group.isSecret = false := by simp_all
      rw [Row.isSecret, Option.isSome_eq_false_iff, Option.isNone_iff_eq_none] at hplain
      exact hplain

/-- What an identity names is that value, or a group. -/
theorem anchor_path {v : View} {identity : SelectionIdentity} {index : Nat} (h : v.anchor identity = some index) :
    ∃ row, v.rows[index]? = some row ∧ row.path = identity.path := by
  obtain ⟨hindex, hrow, -⟩ := List.findIdx?_eq_some_iff_getElem.mp h
  refine ⟨v.rows[index], List.getElem?_eq_getElem hindex, ?_⟩
  cases hpath : identity.path with
  | some path =>
    rw [hpath] at hrow
    simpa using hrow
  | none =>
    rw [hpath] at hrow
    simp only [Row.isSecret, Bool.and_eq_true, Bool.not_eq_true', Option.isSome_eq_false_iff,
      Option.isNone_iff_eq_none] at hrow
    exact hrow.1

theorem restoredPlace_path {v : View} {identity : Option SelectionIdentity} {place : Nat} {row : Row}
    (h : v.restoredPlace identity = some place) (hrow : v.listedAt place = some row) :
    row.path = none ∨ row.path = identity.bind (·.path) := by
  obtain ⟨named, hidentity, h⟩ := Option.bind_eq_some_iff.mp h
  obtain ⟨index, hanchor, hplace⟩ := Option.bind_eq_some_iff.mp h
  rw [hidentity]
  rcases visiblePositionOrGroup_some hplace with hlisted | ⟨group, hgroup, hnone⟩
  · right
    obtain ⟨first, hfirst, hpath⟩ := anchor_path hanchor
    rw [listedAt, hlisted, Option.bind_some, hfirst] at hrow
    cases hrow
    exact hpath
  · left
    rw [hgroup] at hrow
    cases hrow
    exact hnone

theorem selectionIdentity_path (v : View) : v.selectionIdentity.bind (·.path) = v.selectedPath := by
  unfold selectionIdentity selectedPath
  cases v.selectedRow with
  | none => rfl
  | some row => rfl

/-- No two rows are of one value. -/
def Distinct (v : View) : Prop := (v.rows.filterMap Row.path).Nodup

/-- The tree that a refresh gives, before the selection is found again. -/
def refreshed (v : View) (rows : List Row) : View := rebuildTree { v with rows }

/-- Where the selection stands after a refresh that took away what was selected. -/
def fallback (v : View) (rows : List Row) : Nat :=
  if v.selectedPath.isSome then 0
  else min (v.refreshed rows).selected ((v.refreshed rows).visibleRows.length - 1)

/-- A refresh still has what was selected, or a group of it, in the list; or no value stands where the selection
goes instead. -/
def Anchored (v : View) (rows : List Row) : Prop :=
  ((v.refreshed rows).restoredPlace v.selectionIdentity).isSome = true ∨
    ∀ row, (v.refreshed rows).listedAt (v.fallback rows) = some row → row.path = none

/-- The list is the same at the place of the selection, or has no value there. -/
def Unmoved (v v' : View) : Prop :=
  v'.visibleRows[v.selected]? = v.visibleRows[v.selected]? ∨
    ∀ row, v'.listedAt v.selected = some row → row.path = none

/-- A value that is selected afterwards was selected before. -/
def Keeps (v v' : View) : Prop := ∀ path, v'.selectedPath = some path → v.selectedPath = some path

theorem selectedPath_some {v : View} {path : String} :
    v.selectedPath = some path ↔ ∃ row, v.listedAt v.selected = some row ∧ row.path = some path :=
  Option.bind_eq_some_iff

theorem select_path {v : View} {place : Nat} {path : String} :
    (v.select place).selectedPath = some path ↔ ∃ row, v.listedAt place = some row ∧ row.path = some path := by
  rw [selectedPath_some, ← listedAt_select v place place]
  rfl

theorem updateRows_eq (v : View) (rows : List Row) : v.updateRows rows =
    (v.refreshed rows).select
      (((v.refreshed rows).restoredPlace v.selectionIdentity).getD (v.fallback rows)) := by
  have hvalue : (v.selectionIdentity.any fun identity => identity.path.isSome) = v.selectedPath.isSome := by
    unfold selectionIdentity selectedPath
    cases v.selectedRow with
    | none => rfl
    | some row => rfl
  unfold updateRows restoreSelection fallback
  simp only [hvalue]
  cases hplace : (v.refreshed rows).restoredPlace v.selectionIdentity with
  | some place =>
    rw [refreshed] at hplace
    rw [hplace]
    rfl
  | none =>
    rw [refreshed] at hplace
    rw [hplace]
    rfl

theorem Anchored.keeps {v : View} {rows : List Row} (h : v.Anchored rows) : v.Keeps (v.updateRows rows) := by
  intro path hselected
  rw [updateRows_eq] at hselected
  obtain ⟨row, hrow, hpath⟩ := select_path.mp hselected
  cases hplace : (v.refreshed rows).restoredPlace v.selectionIdentity with
  | some place =>
    rw [hplace] at hrow
    have hfound := restoredPlace_path hplace hrow
    rw [selectionIdentity_path, hpath] at hfound
    exact (hfound.resolve_left nofun).symm
  | none =>
    rw [hplace] at hrow
    have hnone := (h.resolve_left (by rw [hplace]; exact nofun)) row hrow
    rw [hpath] at hnone
    cases hnone

/-- The rows are of the same values, and the selection is at the same place. -/
structure SamePaths (v v' : View) : Prop where
  selected : v'.selected = v.selected
  paths : ∀ i : Nat, v'.rows[i]?.map Row.path = v.rows[i]?.map Row.path

theorem SamePaths.refl (v : View) : v.SamePaths v := ⟨rfl, fun _ => rfl⟩

theorem SamePaths.trans {v v' v'' : View} (h : v.SamePaths v') (h' : v'.SamePaths v'') : v.SamePaths v'' :=
  ⟨h'.selected.trans h.selected, fun i => (h'.paths i).trans (h.paths i)⟩

theorem modifyRow_path {f : Row → Row} (hf : ∀ row, (f row).path = row.path) (path : String) (rows : List Row) :
    (modifyRow path f rows).map Row.path = rows.map Row.path := by
  induction rows with
  | nil => rfl
  | cons row rest ih =>
    unfold modifyRow
    split
    next => rw [List.map_cons, List.map_cons, hf]
    next => rw [List.map_cons, List.map_cons, ih]

theorem SamePaths.modifyRow {f : Row → Row} (hf : ∀ row, (f row).path = row.path) (v : View) (path : String) :
    v.SamePaths { v with rows := View.modifyRow path f v.rows } := by
  refine ⟨rfl, fun i => ?_⟩
  rw [← List.getElem?_map, ← List.getElem?_map, modifyRow_path hf]

theorem SamePaths.setRow (v : View) (path : String) (set : Bool) : v.SamePaths (v.setRow path set) :=
  SamePaths.modifyRow (f := fun row => { row with isSet := set }) (fun _ => rfl) v path

theorem SamePaths.applyTaskStatus (v : View) (request : ApprovalRequest) : v.SamePaths (v.applyTaskStatus request) := by
  unfold View.applyTaskStatus
  generalize request.tasks = tasks
  induction tasks generalizing v with
  | nil => exact SamePaths.refl v
  | cons task rest ih =>
    let update (row : Row) : Row := { row with isSet := task.inputIsSet, outputIsSet := task.outputIsSet }
    have hfirst : v.SamePaths (v.applyTask task) :=
      SamePaths.modifyRow (f := update) (fun _ => rfl) v task.identifier
    exact hfirst.trans (ih (v.applyTask task))

theorem SamePaths.path {v v' : View} (h : v.SamePaths v') {i : Nat} {row : Row} (hrow : v'.rows[i]? = some row) :
    ∃ row', v.rows[i]? = some row' ∧ row'.path = row.path := by
  have hpath := h.paths i
  rw [hrow] at hpath
  exact Option.map_eq_some_iff.mp hpath.symm

theorem Unmoved.keeps {v v' : View} (hsame : v.SamePaths v') (h : v.Unmoved v') : v.Keeps v' := by
  intro path hselected
  obtain ⟨row, hrow, hpath⟩ := selectedPath_some.mp hselected
  rw [hsame.selected] at hrow
  rcases h with hplace | hnone
  · obtain ⟨index, hindex, hat⟩ := Option.bind_eq_some_iff.mp hrow
    obtain ⟨before, hbefore, hbeforePath⟩ := hsame.path hat
    rw [hplace] at hindex
    refine selectedPath_some.mpr ⟨before, ?_, hbeforePath.trans hpath⟩
    rw [listedAt, hindex]
    exact hbefore
  · rw [hnone row hrow] at hpath
    cases hpath

end View

/-- What happens while the operator does nothing. -/
inductive Background
  | refresh (rows : List Row)
  | completion (now : Nat) (completion : Completion Arrival)
  | approval (request : ApprovalRequest)

def Background.act : Background → ScreenAct
  | .refresh rows => .refresh rows
  | .completion now result => .completion now result
  | .approval request => .approval request

namespace Screen

/-- The list does not move below the selection. -/
def Undisturbed (s : Screen) : Background → Prop
  | .refresh rows => s.view.Anchored rows
  | .completion _ completion => s.view.Unmoved (s.settled completion)
  | .approval request => s.view.Unmoved (s.offered request)

/-- No two rows are of one value, before and after a refresh. -/
def Distinct (s : Screen) : Background → Prop
  | .refresh rows => (s.view.refreshed rows).Distinct
  | _ => s.view.Distinct

end Screen

end NixSecrets.Tui
