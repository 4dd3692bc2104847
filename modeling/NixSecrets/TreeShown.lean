import NixSecrets.TreeView

namespace NixSecrets.Tui

/-- The group at `i` stands above the row at `j`: every row after it up to `j` lies deeper. -/
def Above (rows : List Row) (i j : Nat) : Prop :=
  i < j ∧ ∃ group, rows[i]? = some group ∧ group.path = none ∧
    ∀ k row, i < k → k ≤ j → rows[k]? = some row → group.depth < row.depth

namespace View

/-- The search finds the row by one of its texts, or by the name of a group above it. -/
def Finds (v : View) (j : Nat) (row : Row) : Prop :=
  ∃ text, contains (lower v.search) text = true ∧
    (text = row.name ∨ row.path = some text ∨ row.description = some text ∨
      (∃ i group, Above v.rows i j ∧ v.rows[i]? = some group ∧ text = group.name) ∨
      ∃ a : Attribute, a.value row = some text)

/-- A value that every filter and the search let through. -/
def Passes (v : View) (j : Nat) : Prop :=
  ∃ row, v.rows[j]? = some row ∧ row.path ≠ none ∧ v.filter.lists row = true ∧
    (v.humanOnly = true → row.humanFacing = true) ∧
    (∀ facet ∈ v.facets, ∀ value, facet.1.value row = some value → facet.2.accepts value = true) ∧ v.Finds j row

/-- What the ancestors are before row `n`: the groups above which every later row lies deeper. -/
structure Stack (rows : List Row) (n : Nat) (ancestors : List Indexed) : Prop where
  mem : ∀ group i, (group, i) ∈ ancestors ↔ i < n ∧ rows[i]? = some group ∧ group.path = none ∧
    ∀ k row, i < k → k < n → rows[k]? = some row → group.depth < row.depth
  falling : ancestors.Pairwise fun near far => far.1.depth < near.1.depth

theorem mem_dropWhile_depth {depth : Nat} {ancestors : List Indexed}
    (h : ancestors.Pairwise fun near far => far.1.depth < near.1.depth) (x : Indexed) :
    x ∈ (ancestors.dropWhile fun parent => depth ≤ parent.1.depth) ↔ x ∈ ancestors ∧ x.1.depth < depth := by
  induction ancestors with
  | nil => simp
  | cons y rest ih =>
    have hy := List.pairwise_cons.mp h
    by_cases hdeep : depth ≤ y.1.depth
    · have hdrop : decide (depth ≤ y.1.depth) = true := decide_eq_true hdeep
      rw [List.dropWhile_cons, if_pos hdrop, ih hy.2, List.mem_cons]
      constructor
      · intro hx
        exact ⟨.inr hx.1, hx.2⟩
      · intro hx
        cases hx.1 with
        | inl heq =>
          rw [heq] at hx
          omega
        | inr hx' => exact ⟨hx', hx.2⟩
    · have hstay : ¬ decide (depth ≤ y.1.depth) = true := by simpa using hdeep
      rw [List.dropWhile_cons, if_neg hstay]
      constructor
      · intro hx
        refine ⟨hx, ?_⟩
        cases List.mem_cons.mp hx with
        | inl heq =>
          rw [heq]
          omega
        | inr hx' =>
          have hlower := hy.1 x hx'
          omega
      · intro hx
        exact hx.1

/-- The groups that stay before a row are those above it. -/
theorem Stack.above {rows : List Row} {n : Nat} {ancestors : List Indexed} (h : Stack rows n ancestors) {row : Row}
    (hrow : rows[n]? = some row) (group : Row) (i : Nat) :
    (group, i) ∈ (ancestors.dropWhile fun parent => row.depth ≤ parent.1.depth) ↔
      rows[i]? = some group ∧ Above rows i n := by
  rw [mem_dropWhile_depth h.falling, h.mem]
  constructor
  · intro hin
    obtain ⟨⟨hi, hgroup, hpath, hbetween⟩, hdepth⟩ := hin
    refine ⟨hgroup, hi, group, hgroup, hpath, ?_⟩
    intro k other hik hkn hother
    by_cases hk : k = n
    · rw [hk, hrow] at hother
      cases hother
      exact hdepth
    · exact hbetween k other hik (by omega) hother
  · intro hin
    obtain ⟨hgroup, hi, group', hgroup', hpath, hbetween⟩ := hin
    rw [hgroup] at hgroup'
    cases hgroup'
    exact ⟨⟨hi, hgroup, hpath, fun k other hik hkn hother => hbetween k other hik (by omega) hother⟩,
      hbetween n row hi (Nat.le_refl n) hrow⟩

theorem Stack.dropped {rows : List Row} {n : Nat} {ancestors : List Indexed} (h : Stack rows n ancestors) {row : Row}
    (hrow : rows[n]? = some row) (hvalue : row.path ≠ none) :
    Stack rows (n + 1) (ancestors.dropWhile fun parent => row.depth ≤ parent.1.depth) := by
  refine ⟨?_, h.falling.sublist (List.dropWhile_sublist _)⟩
  intro group i
  rw [h.above hrow]
  constructor
  · intro hin
    obtain ⟨hgroup, hi, group', hgroup', hpath, hbetween⟩ := hin
    rw [hgroup] at hgroup'
    cases hgroup'
    exact ⟨by omega, hgroup, hpath, fun k other hik hkn => hbetween k other hik (by omega)⟩
  · intro hin
    obtain ⟨hi, hgroup, hpath, hbetween⟩ := hin
    have hne : i ≠ n := by
      intro heq
      rw [heq, hrow] at hgroup
      cases hgroup
      exact hvalue hpath
    exact ⟨hgroup, by omega, group, hgroup, hpath, fun k other hik hkn => hbetween k other hik (by omega)⟩

theorem Stack.pushed {rows : List Row} {n : Nat} {ancestors : List Indexed} (h : Stack rows n ancestors) {row : Row}
    (hrow : rows[n]? = some row) (hgroup : row.path = none) :
    Stack rows (n + 1) ((row, n) :: ancestors.dropWhile fun parent => row.depth ≤ parent.1.depth) := by
  constructor
  · intro group i
    rw [List.mem_cons, h.above hrow]
    constructor
    · intro hin
      cases hin with
      | inl heq =>
        cases heq
        exact ⟨by omega, hrow, hgroup, fun k other hik hkn => by omega⟩
      | inr hin =>
        obtain ⟨hsome, hi, group', hgroup', hpath, hbetween⟩ := hin
        rw [hsome] at hgroup'
        cases hgroup'
        exact ⟨by omega, hsome, hpath, fun k other hik hkn => hbetween k other hik (by omega)⟩
    · intro hin
      obtain ⟨hi, hsome, hpath, hbetween⟩ := hin
      by_cases heq : i = n
      · left
        rw [heq, hrow] at hsome
        cases hsome
        rw [heq]
      · right
        exact ⟨hsome, by omega, group, hsome, hpath, fun k other hik hkn => hbetween k other hik (by omega)⟩
  · refine List.pairwise_cons.mpr ⟨?_, h.falling.sublist (List.dropWhile_sublist _)⟩
    intro far hfar
    exact ((mem_dropWhile_depth h.falling far).mp hfar).2

theorem attribute_mem (a : Attribute) : a ∈ Attribute.all := by
  cases a <;> decide

/-- What the checks of a value say. -/
structure Judged (v : View) (checks : RowChecks) (row : Row) : Prop where
  found : v.rows[checks.index]? = some row
  value : row.path ≠ none
  ancestors : ∀ i, i ∈ checks.ancestors ↔ Above v.rows i checks.index
  category : checks.category = v.filter.lists row
  audience : checks.audience = (!v.humanOnly || row.humanFacing)
  facets : checks.facets = v.facets.all fun facet => (facet.1.value row).all facet.2.accepts
  searchable : checks.searchable = true ↔ v.Finds checks.index row

theorem searchable_iff {v : View} {n : Nat} {ancestors : List Indexed} {row : Row}
    (h : ∀ group i, (group, i) ∈ ancestors ↔ v.rows[i]? = some group ∧ Above v.rows i n) :
    searchable (lower v.search) ancestors row = true ↔ v.Finds n row := by
  unfold searchable Finds
  rw [Bool.or_eq_true, List.any_eq_true, List.any_eq_true]
  constructor
  · intro hfound
    rcases hfound with ⟨text, htext, hcontains⟩ | ⟨text, htext, hcontains⟩
    · refine ⟨text, hcontains, ?_⟩
      simp only [List.mem_append, List.mem_singleton, Option.mem_toList, List.mem_map] at htext
      rcases htext with ((hname | hpath) | hdescription) | ⟨⟨group, i⟩, hgroup, hname⟩
      · exact .inl hname
      · exact .inr (.inl hpath)
      · exact .inr (.inr (.inl hdescription))
      · have habove := (h group i).mp hgroup
        exact .inr (.inr (.inr (.inl ⟨i, group, habove.2, habove.1, hname.symm⟩)))
    · obtain ⟨a, _, hvalue⟩ := List.mem_filterMap.mp htext
      exact ⟨text, hcontains, .inr (.inr (.inr (.inr ⟨a, hvalue⟩)))⟩
  · intro hfound
    obtain ⟨text, hcontains, hname | hpath | hdescription | ⟨i, group, habove, hgroup, hname⟩ | ⟨a, hvalue⟩⟩ := hfound
    · exact .inl ⟨text, by simp [hname], hcontains⟩
    · exact .inl ⟨text, by simp [hpath], hcontains⟩
    · exact .inl ⟨text, by simp [hdescription], hcontains⟩
    · have hmem := (h group i).mpr ⟨hgroup, habove⟩
      refine .inl ⟨text, ?_, hcontains⟩
      rw [hname]
      exact List.mem_append_right _ (List.mem_map.mpr ⟨(group, i), hmem, rfl⟩)
    · exact .inr ⟨text, List.mem_filterMap.mpr ⟨a, attribute_mem a, hvalue⟩, hcontains⟩

/-- The checks are those of the values from row `n` on, in the order of the rows. -/
theorem rowChecks_from (v : View) {n : Nat} {ancestors : List Indexed} (h : Stack v.rows n ancestors) :
    (∀ checks ∈ v.rowChecks ancestors (v.rows.zipIdx.drop n), n ≤ checks.index ∧ ∃ row, v.Judged checks row) ∧
    (∀ j row, n ≤ j → v.rows[j]? = some row → row.path ≠ none →
      ∃ checks ∈ v.rowChecks ancestors (v.rows.zipIdx.drop n), checks.index = j) ∧
    (v.rowChecks ancestors (v.rows.zipIdx.drop n)).Pairwise fun a b => a.index < b.index := by
  generalize hrest : v.rows.zipIdx.drop n = rest
  induction rest generalizing n ancestors with
  | nil =>
    have hlength : v.rows.length ≤ n := by
      have hlen := congrArg List.length hrest
      rw [List.length_drop, List.length_zipIdx, List.length_nil] at hlen
      omega
    refine ⟨by simp [rowChecks], ?_, by simp [rowChecks]⟩
    intro j row hj hrow _
    rw [List.getElem?_eq_none (by omega)] at hrow
    cases hrow
  | cons first rest ih =>
    obtain ⟨row, index⟩ := first
    have hhead : v.rows.zipIdx[n]? = some (row, index) := by
      rw [← List.head?_drop, hrest]
      rfl
    rw [List.getElem?_zipIdx, Nat.zero_add] at hhead
    obtain ⟨row', hrow, hpair⟩ := Option.map_eq_some_iff.mp hhead
    cases hpair
    have htail : v.rows.zipIdx.drop (n + 1) = rest := by
      rw [← List.drop_drop, hrest]
      rfl
    rw [rowChecks]
    by_cases hpath : row.path = none
    · rw [if_pos hpath]
      obtain ⟨hall, hsome, hsorted⟩ := ih (h.pushed hrow hpath) htail
      refine ⟨fun checks hchecks => ⟨by have hge := (hall checks hchecks).1; omega, (hall checks hchecks).2⟩, ?_, hsorted⟩
      intro j other hj hother hvalue
      by_cases heq : j = n
      · rw [heq, hrow] at hother
        cases hother
        exact absurd hpath hvalue
      · exact hsome j other (by omega) hother hvalue
    · rw [if_neg hpath]
      obtain ⟨hall, hsome, hsorted⟩ := ih (h.dropped hrow hpath) htail
      refine ⟨?_, ?_, ?_⟩
      · intro checks hchecks
        cases List.mem_cons.mp hchecks with
        | inl heq =>
          rw [heq]
          refine ⟨Nat.le_refl n, row, hrow, hpath, ?_, rfl, rfl, rfl, searchable_iff (h.above hrow)⟩
          intro i
          rw [List.mem_map]
          constructor
          · intro hi
            obtain ⟨⟨group, i'⟩, hmem, heq⟩ := hi
            cases heq
            exact ((h.above hrow group i').mp hmem).2
          · intro hi
            obtain ⟨_, group, hgroup, _⟩ := id hi
            exact ⟨(group, i), (h.above hrow group i).mpr ⟨hgroup, hi⟩, rfl⟩
        | inr hchecks => exact ⟨by have hge := (hall checks hchecks).1; omega, (hall checks hchecks).2⟩
      · intro j other hj hother hvalue
        by_cases heq : j = n
        · exact ⟨_, List.mem_cons_self .., heq.symm⟩
        · obtain ⟨checks, hmem, hindex⟩ := hsome j other (by omega) hother hvalue
          exact ⟨checks, List.mem_cons_of_mem _ hmem, hindex⟩
      · refine List.pairwise_cons.mpr ⟨?_, hsorted⟩
        intro checks hchecks
        have hge := (hall checks hchecks).1
        show n < checks.index
        omega

/-- The checks of the whole tree. -/
def checks (v : View) : List RowChecks := v.rowChecks [] v.rows.zipIdx

theorem stack_nil (rows : List Row) : Stack rows 0 [] :=
  ⟨fun _ i => ⟨fun h => (List.not_mem_nil h).elim, fun h => (Nat.not_lt_zero i h.1).elim⟩, List.Pairwise.nil⟩

theorem checks_all (v : View) : (∀ checks ∈ v.checks, ∃ row, v.Judged checks row) ∧
    (∀ j row, v.rows[j]? = some row → row.path ≠ none → ∃ checks ∈ v.checks, checks.index = j) ∧
    v.checks.Pairwise fun a b => a.index < b.index := by
  have h := v.rowChecks_from (stack_nil v.rows)
  rw [List.drop_zero] at h
  exact ⟨fun checks hchecks => (h.1 checks hchecks).2, fun j row => h.2.1 j row (Nat.zero_le j), h.2.2⟩

theorem Judged.passes_iff {v : View} {checks : RowChecks} {row : Row} (h : v.Judged checks row) :
    checks.passes = true ↔ v.Passes checks.index := by
  unfold RowChecks.passes Passes
  rw [Bool.and_eq_true, Bool.and_eq_true, Bool.and_eq_true, h.searchable, h.category, h.audience, h.facets]
  have haudience : (!v.humanOnly || row.humanFacing) = true ↔ (v.humanOnly = true → row.humanFacing = true) := by
    cases v.humanOnly <;> simp
  have hfacets : (v.facets.all fun facet => (facet.1.value row).all facet.2.accepts) = true ↔
      ∀ facet ∈ v.facets, ∀ value, facet.1.value row = some value → facet.2.accepts value = true := by
    rw [List.all_eq_true]
    simp only [Option.all_eq_true]
  rw [haudience, hfacets]
  constructor
  · intro hpass
    exact ⟨row, h.found, h.value, hpass.1.1.1, hpass.1.1.2, hpass.1.2, hpass.2⟩
  · intro hpass
    obtain ⟨row', hrow, _, hcategory, haudience, hfacets, hfinds⟩ := hpass
    rw [h.found] at hrow
    cases hrow
    exact ⟨⟨⟨hcategory, haudience⟩, hfacets⟩, hfinds⟩

theorem passes_iff (v : View) (j : Nat) :
    v.Passes j ↔ ∃ checks ∈ v.checks, checks.passes = true ∧ checks.index = j := by
  obtain ⟨hall, hsome, _⟩ := v.checks_all
  constructor
  · intro h
    obtain ⟨row, hrow, hvalue, _⟩ := id h
    obtain ⟨checks, hmem, hindex⟩ := hsome j row hrow hvalue
    obtain ⟨row', hjudged⟩ := hall checks hmem
    rw [← hindex] at h
    exact ⟨checks, hmem, hjudged.passes_iff.mpr h, hindex⟩
  · intro h
    obtain ⟨checks, hmem, hpasses, hindex⟩ := h
    obtain ⟨row, hjudged⟩ := hall checks hmem
    rw [← hindex]
    exact hjudged.passes_iff.mp hpasses

/-- What is kept: the values that pass, and the groups above them. -/
theorem mem_kept (v : View) (row : Row) (i : Nat) :
    (row, i) ∈ v.kept ↔ v.rows[i]? = some row ∧ (v.Passes i ∨ ∃ j, v.Passes j ∧ Above v.rows i j) := by
  have hzip : (row, i) ∈ v.rows.zipIdx ↔ v.rows[i]? = some row := by
    rw [List.mem_zipIdx_iff_getElem?]
  have hkept : v.kept = v.rows.zipIdx.filter fun row => (v.checks.filter RowChecks.passes).any fun checks =>
      checks.index = row.2 || checks.ancestors.contains row.2 := rfl
  rw [hkept, List.mem_filter, hzip, List.any_eq_true]
  obtain ⟨hall, _, _⟩ := v.checks_all
  refine and_congr_right fun _ => ?_
  simp only [List.mem_filter, Bool.or_eq_true, decide_eq_true_eq, List.contains_iff_mem]
  constructor
  · intro h
    obtain ⟨checks, ⟨hmem, hpasses⟩, hrow⟩ := h
    have hpass := (v.passes_iff checks.index).mpr ⟨checks, hmem, hpasses, rfl⟩
    cases hrow with
    | inl hindex =>
      left
      rwa [hindex] at hpass
    | inr habove =>
      obtain ⟨_, hjudged⟩ := hall checks hmem
      exact .inr ⟨checks.index, hpass, (hjudged.ancestors i).mp habove⟩
  · intro h
    cases h with
    | inl hpass =>
      obtain ⟨checks, hmem, hpasses, hindex⟩ := (v.passes_iff i).mp hpass
      exact ⟨checks, ⟨hmem, hpasses⟩, .inl hindex⟩
    | inr habove =>
      obtain ⟨j, hpass, habove⟩ := habove
      obtain ⟨checks, hmem, hpasses, hindex⟩ := (v.passes_iff j).mp hpass
      obtain ⟨_, hjudged⟩ := hall checks hmem
      refine ⟨checks, ⟨hmem, hpasses⟩, .inr ((hjudged.ancestors i).mpr ?_)⟩
      rwa [hindex]

/-- The rows listed before folding. -/
def listed (v : View) : List Nat := (listFrom v.kept [] v.kept).map (·.index)

/-- The row at `i` is a folded group. -/
def Folded (v : View) (i : Nat) : Prop := ∃ row, v.rows[i]? = some row ∧ v.isCollapsed row = true

/-- The run of rows after a group, up to the row at `j`, which all extend its path. -/
def Run (v : View) (group : List String) (listed : List Nat) (j : Nat) : Prop :=
  ∀ k ∈ listed, k ≤ j → ∀ row, v.rows[k]? = some row → below group row.displaySegments = true

/-- No row of the tree is folded. -/
def Open (v : View) : Prop := ∀ i, ¬ v.Folded i

end View

end NixSecrets.Tui
