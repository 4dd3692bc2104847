import NixSecrets.TreeShown

namespace NixSecrets.Tui

open View (below)

theorem below_iff {group segments : List String} :
    below group segments = true ↔ group.length < segments.length ∧ group <+: segments := by
  rw [below, decide_eq_true_iff]

theorem below_snoc (segments : List String) (label : String) : below segments (segments ++ [label]) = true :=
  below_iff.mpr ⟨by simp, List.prefix_append _ _⟩

theorem below_of_prefix {group middle segments : List String} (h : below group middle = true)
    (hmiddle : middle <+: segments) : below group segments = true := by
  obtain ⟨hlength, hprefix⟩ := below_iff.mp h
  have hle := hmiddle.length_le
  exact below_iff.mpr ⟨by omega, hprefix.trans hmiddle⟩

/-- The row is a group whose path the other row's path extends. -/
def Row.Heads (group row : Row) : Prop :=
  group.path = none ∧ below group.displaySegments row.displaySegments = true

/-- Below each group of a list stands one run of rows, right after it. -/
def Runs : List Row → Prop
  | [] => True
  | row :: rest => (∀ later ∈ rest, ¬ later.Heads row) ∧
      (∃ run others, rest = run ++ others ∧
        (∀ x ∈ run, below row.displaySegments x.displaySegments = true) ∧ ∀ x ∈ others, ¬ row.Heads x) ∧ Runs rest

/-- No group of one part stands above a row of the other. -/
def Apart (xs ys : List Row) : Prop := ∀ x ∈ xs, ∀ y ∈ ys, ¬ x.Heads y ∧ ¬ y.Heads x

theorem Runs.append {xs ys : List Row} (hxs : Runs xs) (hys : Runs ys) (h : Apart xs ys) : Runs (xs ++ ys) := by
  induction xs with
  | nil => exact hys
  | cons x xs ih =>
    obtain ⟨hearlier, ⟨run, others, hrest, hrun, hothers⟩, hxs⟩ := hxs
    have happart := h x (List.mem_cons_self ..)
    have hsplit : xs ++ ys = run ++ (others ++ ys) := by rw [hrest, List.append_assoc]
    refine ⟨?_, ⟨run, others ++ ys, hsplit, hrun, ?_⟩, ih hxs ?_⟩
    · intro later hlater
      cases List.mem_append.mp hlater with
      | inl hlater => exact hearlier later hlater
      | inr hlater => exact (happart later hlater).2
    · intro y hy
      cases List.mem_append.mp hy with
      | inl hy => exact hothers y hy
      | inr hy => exact (happart y hy).1
    · exact fun a ha => h a (List.mem_cons_of_mem _ ha)

theorem Runs.group {xs : List Row} (hxs : Runs xs) (depth : Nat) (label : String) {segments : List String}
    (h : ∀ x ∈ xs, below segments x.displaySegments = true) : Runs (branch depth label segments :: xs) := by
  refine ⟨?_, ⟨xs, [], (List.append_nil xs).symm, h, by simp⟩, hxs⟩
  intro later hlater hheads
  have hlonger := (below_iff.mp (h later hlater)).1
  have hshorter : later.displaySegments.length < segments.length := (below_iff.mp hheads.2).1
  omega

theorem Runs.values {xs : List Row} (h : ∀ x ∈ xs, x.path ≠ none) : Runs xs := by
  induction xs with
  | nil => trivial
  | cons x xs ih =>
    have hrest := fun y hy => h y (List.mem_cons_of_mem _ hy)
    refine ⟨fun later hlater hheads => hrest later hlater hheads.1, ⟨[], xs, rfl, by simp, ?_⟩, ih hrest⟩
    exact fun y _ hheads => h x (List.mem_cons_self ..) hheads.1

/-- What stands below a group follows it in one run. -/
theorem Runs.run {rows : List Row} (h : Runs rows) {i j : Nat} {group row : Row} (hi : rows[i]? = some group)
    (hj : rows[j]? = some row) (hheads : group.Heads row) :
    i < j ∧ ∀ k other, i < k → k ≤ j → rows[k]? = some other →
      below group.displaySegments other.displaySegments = true := by
  induction rows generalizing i j with
  | nil => cases hi
  | cons first rest ih =>
    obtain ⟨hearlier, ⟨run, others, hrest, hrun, hothers⟩, hlater⟩ := h
    cases i with
    | zero =>
      cases hi
      cases j with
      | zero =>
        cases hj
        have hshorter := (below_iff.mp hheads.2).1
        omega
      | succ j =>
        refine ⟨Nat.succ_pos j, ?_⟩
        rw [List.getElem?_cons_succ, hrest] at hj
        have hj' : j < run.length := by
          by_contra hout
          rw [List.getElem?_append_right (by omega)] at hj
          exact hothers row (List.mem_of_getElem? hj) hheads
        intro k other hk hkj hother
        obtain ⟨k, rfl⟩ : ∃ k', k = k' + 1 := ⟨k - 1, by omega⟩
        rw [List.getElem?_cons_succ, hrest, List.getElem?_append_left (by omega)] at hother
        exact hrun other (List.mem_of_getElem? hother)
    | succ i =>
      rw [List.getElem?_cons_succ] at hi
      cases j with
      | zero =>
        cases hj
        exact absurd hheads (hearlier group (List.mem_of_getElem? hi))
      | succ j =>
        rw [List.getElem?_cons_succ] at hj
        obtain ⟨hij, hbetween⟩ := ih hlater hi hj
        refine ⟨by omega, ?_⟩
        intro k other hk hkj hother
        obtain ⟨k, rfl⟩ : ∃ k', k = k' + 1 := ⟨k - 1, by omega⟩
        rw [List.getElem?_cons_succ] at hother
        exact hbetween k other (by omega) (by omega) hother

theorem not_heads_of_length {row other : Row} (h : other.displaySegments.length ≤ row.displaySegments.length) :
    ¬ row.Heads other := by
  intro hheads
  have hshorter := (below_iff.mp hheads.2).1
  omega

theorem not_heads_of_ne {segments : List String} {label label' : String} (hne : label ≠ label') {row other : Row}
    (h : segments ++ [label] <+: row.displaySegments) (h' : segments ++ [label'] <+: other.displaySegments) :
    ¬ row.Heads other := by
  intro hheads
  have hprefix := h.trans (below_iff.mp hheads.2).2
  have hsame := (List.prefix_of_prefix_length_le hprefix h' (by simp)).eq_of_length (by simp)
  simp only [List.append_cancel_left_eq, List.cons.injEq, and_true] at hsame
  exact hne hsame

/-- Runs of rows below a path, each row below one of the labels. -/
def Labelled (segments labels : List String) (rows : List Row) : Prop :=
  Runs rows ∧ ∀ row ∈ rows, ∃ label ∈ labels, segments ++ [label] <+: row.displaySegments

theorem Labelled.nil (segments : List String) : Labelled segments [] [] := ⟨trivial, by simp⟩

theorem Labelled.below {segments labels : List String} {rows : List Row} (h : Labelled segments labels rows) :
    ∀ row ∈ rows, View.below segments row.displaySegments = true := by
  intro row hrow
  obtain ⟨label, _, hlabel⟩ := h.2 row hrow
  exact below_of_prefix (below_snoc segments label) hlabel

theorem Labelled.cons {segments labels : List String} {label : String} {rows rest : List Row} (hruns : Runs rows)
    (hrows : ∀ row ∈ rows, segments ++ [label] <+: row.displaySegments) (hrest : Labelled segments labels rest)
    (hlabel : label ∉ labels) : Labelled segments (label :: labels) (rows ++ rest) := by
  constructor
  · apply hruns.append hrest.1
    intro x hx y hy
    obtain ⟨label', hlabel', hy'⟩ := hrest.2 y hy
    have hne : label ≠ label' := fun hsame => hlabel (by rwa [hsame])
    exact ⟨not_heads_of_ne hne (hrows x hx) hy', not_heads_of_ne (Ne.symm hne) hy' (hrows x hx)⟩
  · intro row hrow
    cases List.mem_append.mp hrow with
    | inl hrow => exact ⟨label, List.mem_cons_self .., hrows row hrow⟩
    | inr hrow =>
      obtain ⟨label', hlabel', hrow'⟩ := hrest.2 row hrow
      exact ⟨label', List.mem_cons_of_mem _ hlabel', hrow'⟩

/-- Values right below a path end its rows. -/
theorem Labelled.values {segments labels : List String} {rows values : List Row} (h : Labelled segments labels rows)
    (hvalues : ∀ row ∈ values, row.path ≠ none ∧ row.displaySegments.length = segments.length + 1) :
    Apart rows values := by
  intro x hx y hy
  obtain ⟨label, _, hlabel⟩ := h.2 x hx
  have hlonger := hlabel.length_le
  rw [List.length_append, List.length_singleton, ← (hvalues y hy).2] at hlonger
  exact ⟨not_heads_of_length hlonger, fun hheads => (hvalues y hy).1 hheads.1⟩

/-- A group and the rows below it. -/
theorem group_extends {segments : List String} {label : String} {rows : List Row}
    (h : ∀ row ∈ rows, View.below (segments ++ [label]) row.displaySegments = true) (depth : Nat) :
    ∀ row ∈ branch depth label (segments ++ [label]) :: rows, segments ++ [label] <+: row.displaySegments := by
  intro row hrow
  cases List.mem_cons.mp hrow with
  | inl heq =>
    rw [heq]
    exact List.prefix_rfl
  | inr hrow => exact (below_iff.mp (h row hrow)).2

theorem not_mem_keys {α : Type} {label : String} {entries : List (String × α)}
    (h : ∀ other ∈ entries, label < other.1) : label ∉ entries.map Prod.fst := by
  intro hmem
  obtain ⟨other, hother, hsame⟩ := List.mem_map.mp hmem
  have hless := h other hother
  rw [hsame] at hless
  exact String.lt_irrefl label hless

theorem Labelled.flatMap {α : Type} {segments : List String} {entries : List (String × α)}
    {rows : String × α → List Row} (hsorted : entries.Pairwise fun a b => a.1 < b.1)
    (h : ∀ entry ∈ entries, Runs (rows entry) ∧ ∀ row ∈ rows entry, segments ++ [entry.1] <+: row.displaySegments) :
    Labelled segments (entries.map Prod.fst) (entries.flatMap rows) := by
  induction entries with
  | nil => exact Labelled.nil segments
  | cons entry rest ih =>
    obtain ⟨hfirst, hrest⟩ := List.pairwise_cons.mp hsorted
    obtain ⟨hruns, hrows⟩ := h entry (List.mem_cons_self ..)
    rw [List.flatMap_cons, List.map_cons]
    exact Labelled.cons hruns hrows (ih hrest fun other hother => h other (List.mem_cons_of_mem _ hother))
      (not_mem_keys hfirst)

section

variable {α : Type} {key : String} {empty : α} {f : α → α}

theorem mem_modifyEntry {entries : List (String × α)} {x : String × α} (h : x ∈ modifyEntry key empty f entries) :
    x ∈ entries ∨ x = (key, f empty) ∨ ∃ y, (key, y) ∈ entries ∧ x = (key, f y) := by
  induction entries with
  | nil => exact .inr (.inl (List.mem_singleton.mp h))
  | cons entry rest ih =>
    obtain ⟨label, y⟩ := entry
    rw [modifyEntry] at h
    split at h
    next hkey =>
      cases List.mem_cons.mp h with
      | inl heq => exact .inr (.inr ⟨y, by rw [hkey]; exact List.mem_cons_self .., by rw [heq, hkey]⟩)
      | inr hmem => exact .inl (List.mem_cons_of_mem _ hmem)
    next =>
      split at h
      next =>
        cases List.mem_cons.mp h with
        | inl heq => exact .inr (.inl heq)
        | inr hmem => exact .inl hmem
      next =>
        cases List.mem_cons.mp h with
        | inl heq => exact .inl (by rw [heq]; exact List.mem_cons_self ..)
        | inr hmem =>
          rcases ih hmem with hold | hnew | ⟨z, hz, hx⟩
          · exact .inl (List.mem_cons_of_mem _ hold)
          · exact .inr (.inl hnew)
          · exact .inr (.inr ⟨z, List.mem_cons_of_mem _ hz, hx⟩)

/-- A sorted map stays sorted. -/
theorem modifyEntry_sorted {entries : List (String × α)} (h : entries.Pairwise fun a b => a.1 < b.1) :
    (modifyEntry key empty f entries).Pairwise fun a b => a.1 < b.1 := by
  induction entries with
  | nil => exact List.pairwise_singleton _ _
  | cons entry rest ih =>
    obtain ⟨label, y⟩ := entry
    obtain ⟨hfirst, hrest⟩ := List.pairwise_cons.mp h
    rw [modifyEntry]
    split
    next => exact List.pairwise_cons.mpr ⟨hfirst, hrest⟩
    next hkey =>
      split
      next hless =>
        refine List.pairwise_cons.mpr ⟨?_, h⟩
        intro other hother
        cases List.mem_cons.mp hother with
        | inl heq =>
          rw [heq]
          exact hless
        | inr hmem => exact String.lt_trans hless (hfirst other hmem)
      next hless =>
        have hgreater : label < key := Std.lt_of_le_of_ne (String.not_lt.mp hless) (Ne.symm hkey)
        refine List.pairwise_cons.mpr ⟨?_, ih hrest⟩
        intro other hother
        rcases mem_modifyEntry hother with hold | hnew | ⟨z, _, hz⟩
        · exact hfirst other hold
        · rw [hnew]
          exact hgreater
        · rw [hz]
          exact hgreater

end

mutual

/-- The labels below each group are in order, and its values are values. -/
def Node.Fine : Node → Prop
  | .mk children leaves => ChildrenFine children ∧ ∀ leaf ∈ leaves, leaf.path ≠ none

def ChildrenFine : List (String × Node) → Prop
  | [] => True
  | (label, child) :: rest => child.Fine ∧ (∀ other ∈ rest, label < other.1) ∧ ChildrenFine rest

end

theorem childrenFine_iff {children : List (String × Node)} :
    ChildrenFine children ↔ (∀ child ∈ children, child.2.Fine) ∧ children.Pairwise fun a b => a.1 < b.1 := by
  induction children with
  | nil => simp [ChildrenFine]
  | cons child rest ih =>
    obtain ⟨label, child⟩ := child
    rw [ChildrenFine, ih, List.pairwise_cons, List.forall_mem_cons]
    constructor
    · intro h
      exact ⟨⟨h.1, h.2.2.1⟩, h.2.1, h.2.2.2⟩
    · intro h
      exact ⟨h.1.1, h.2.1, h.1.2, h.2.2⟩

theorem Node.empty_fine : Node.empty.Fine := by
  rw [Node.empty, Node.Fine]
  exact ⟨trivial, by simp⟩

theorem Node.insert_fine {leaf : Row} (hleaf : leaf.path ≠ none) {labels : List String} {node : Node}
    (h : node.Fine) : (node.insert leaf labels).Fine := by
  induction labels generalizing node with
  | nil =>
    cases node with
    | mk children leaves =>
      rw [Node.Fine] at h
      rw [Node.insert, Node.Fine]
      refine ⟨h.1, ?_⟩
      intro other hother
      cases List.mem_append.mp hother with
      | inl hother => exact h.2 other hother
      | inr hother =>
        rw [List.mem_singleton.mp hother]
        exact hleaf
  | cons label labels ih =>
    cases node with
    | mk children leaves =>
      rw [Node.Fine, childrenFine_iff] at h
      rw [Node.insert, Node.Fine, childrenFine_iff]
      refine ⟨⟨?_, modifyEntry_sorted h.1.2⟩, h.2⟩
      intro child hchild
      rcases mem_modifyEntry hchild with hold | hnew | ⟨old, hold, hnew⟩
      · exact h.1.1 child hold
      · rw [hnew]
        exact ih Node.empty_fine
      · rw [hnew]
        exact ih (h.1.1 _ hold)

mutual

theorem emit_runs (depth : Nat) (ancestors : List String) (node : Node) (h : node.Fine) :
    Runs (emit depth ancestors node) ∧ ∀ row ∈ emit depth ancestors node, below ancestors row.displaySegments = true := by
  match node with
  | .mk children leaves =>
    rw [Node.Fine] at h
    have hgroups := emitChildren_runs depth ancestors children h.1
    have hvalues : ∀ row ∈ (leaves.insertionSort fun a b => leafBefore a b).map fun leaf =>
        { leaf with depth, displaySegments := ancestors ++ [leaf.name] },
        row.path ≠ none ∧ row.displaySegments = ancestors ++ [row.name] := by
      intro row hrow
      obtain ⟨leaf, hleaf, hrow⟩ := List.mem_map.mp hrow
      rw [← hrow]
      exact ⟨h.2 leaf ((List.mem_insertionSort _).mp hleaf), rfl⟩
    rw [emit]
    constructor
    · apply hgroups.1.append (Runs.values fun row hrow => (hvalues row hrow).1)
      exact hgroups.values fun row hrow => ⟨(hvalues row hrow).1, by rw [(hvalues row hrow).2]; simp⟩
    · intro row hrow
      cases List.mem_append.mp hrow with
      | inl hrow => exact hgroups.below row hrow
      | inr hrow =>
        rw [(hvalues row hrow).2]
        exact below_snoc ancestors row.name

theorem emitChildren_runs (depth : Nat) (ancestors : List String) (children : List (String × Node))
    (h : ChildrenFine children) :
    Labelled ancestors (children.map Prod.fst) (emitChildren depth ancestors children) := by
  match children with
  | [] =>
    rw [emitChildren]
    exact Labelled.nil ancestors
  | (label, child) :: rest =>
    rw [ChildrenFine] at h
    obtain ⟨hchild, hlabel, hrest⟩ := h
    obtain ⟨hruns, hbelow⟩ := emit_runs (depth + 1) (ancestors ++ [label]) child hchild
    rw [emitChildren, ← List.cons_append]
    exact Labelled.cons (hruns.group depth label hbelow) (group_extends hbelow depth)
      (emitChildren_runs depth ancestors rest hrest) (not_mem_keys hlabel)

end

end NixSecrets.Tui
