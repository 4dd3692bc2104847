import NixSecrets.DeployPrepare

namespace NixSecrets

open Listing

section Clone

variable {p : Platform}

/-- What cloning makes of an entry. -/
def Cloned (p : Platform) : Option (Item File DirMetadata) → Option (Item File DirMetadata) → Prop
  | none, copy => copy = none
  | some (.file f), copy => copy = some (.file f)
  | some (.dir m children), copy => ∃ inner, cloneTree p children = .ok inner ∧
      copy = some (.dir m inner)
  | some (.link _), _ => False

/-- Cloning drops every entry of the bookkeeping's name and keeps the others. -/
theorem cloneTree_get? {tree copy : Tree} (h : cloneTree p tree = .ok copy) :
    copy.get? versionsName = none ∧
      ∀ name, name ≠ versionsName → Cloned p (tree.get? name) (copy.get? name) := by
  induction tree generalizing copy with
  | empty =>
    cases h
    exact ⟨rfl, fun name _ => rfl⟩
  | file n f rest ih =>
    rw [cloneTree] at h
    split at h
    next hv =>
      obtain ⟨hnone, hrest⟩ := ih h
      refine ⟨hnone, fun name hn => ?_⟩
      have hne : n ≠ name := fun he => hn (he.symm.trans hv)
      rw [get?, if_neg hne]
      exact hrest name hn
    next hv =>
      simp only [except_bind_ok] at h
      obtain ⟨_, _, copy', hcopy, h⟩ := h
      cases h
      obtain ⟨hnone, hrest⟩ := ih hcopy
      refine ⟨by rw [get?, if_neg hv]; exact hnone, fun name hn => ?_⟩
      by_cases he : n = name
      · rw [get?, if_pos he, get?, if_pos he]
        rfl
      · rw [get?, if_neg he, get?, if_neg he]
        exact hrest name hn
  | dir n m children rest _ ih =>
    rw [cloneTree] at h
    split at h
    next hv =>
      obtain ⟨hnone, hrest⟩ := ih h
      refine ⟨hnone, fun name hn => ?_⟩
      have hne : n ≠ name := fun he => hn (he.symm.trans hv)
      rw [get?, if_neg hne]
      exact hrest name hn
    next hv =>
      simp only [except_bind_ok] at h
      obtain ⟨_, _, inner, hinner, copy', hcopy, h⟩ := h
      cases h
      obtain ⟨hnone, hrest⟩ := ih hcopy
      refine ⟨by rw [get?, if_neg hv]; exact hnone, fun name hn => ?_⟩
      by_cases he : n = name
      · rw [get?, if_pos he, get?, if_pos he]
        exact ⟨inner, hinner, rfl⟩
      · rw [get?, if_neg he, get?, if_neg he]
        exact hrest name hn
  | link n t rest ih =>
    rw [cloneTree] at h
    split at h
    next hv =>
      obtain ⟨hnone, hrest⟩ := ih h
      refine ⟨hnone, fun name hn => ?_⟩
      have hne : n ≠ name := fun he => hn (he.symm.trans hv)
      rw [get?, if_neg hne]
      exact hrest name hn
    next => cases h

theorem cloneTree_node? {tree copy : Tree} (h : cloneTree p tree = .ok copy) (path : List String) :
    copy.node? path = if versionsName ∈ path then none else tree.node? path := by
  induction path generalizing tree copy with
  | nil => rw [node?_nil, node?_nil, ite_self]
  | cons name path ih =>
    obtain ⟨hnone, hrest⟩ := cloneTree_get? h
    by_cases hn : name = versionsName
    · rw [hn, node?_absent hnone, if_pos List.mem_cons_self]
    · have hmem : versionsName ∈ name :: path ↔ versionsName ∈ path := by
        simp [Ne.symm hn]
      have hname := hrest name hn
      rw [if_congr hmem rfl rfl]
      cases hg : tree.get? name with
      | none =>
        rw [hg] at hname
        rw [node?_absent hname, node?_absent hg, ite_self]
      | some item =>
        rw [hg] at hname
        cases item with
        | file f =>
          rw [node?_file hname, node?_file hg]
          split
          next hp => simp [hp]
          next => rw [ite_self]
        | dir m children =>
          obtain ⟨inner, hinner, hcopy⟩ := hname
          rw [node?_dir hcopy, node?_dir hg, ih hinner]
          split
          next hp => simp [hp]
          next => rfl
        | link t => exact hname.elim

end Clone

/-- The file holds the value under its manifest's owner, group and permissions; with an ACL
the group's permission is the ACL's entry. -/
structure File.Fits (f : File) (spec : ResolvedSecret) : Prop where
  bytes : f.bytes = spec.contents
  owner : f.owner = spec.owner
  group : f.group = spec.group
  mode : f.mode &&& ~~~0o070 = spec.mode &&& ~~~0o070
  groupPermission : f.groupPermission = .ok ((spec.mode >>> 3) &&& 0o7)

section Stage

variable {p : Platform} {spec : ResolvedSecret} {tree staged : Tree}

theorem stagedFile_fits {f : File} (h : stagedFile p spec = .ok f) : f.Fits spec := by
  unfold stagedFile at h
  split at h
  next => cases h
  next =>
    cases h
    exact ⟨rfl, rfl, rfl, rfl, rfl⟩

theorem unchangedCarried_fits {f : File}
    (h : unchangedCarried f spec.contents spec.owner spec.group spec.mode = .ok true) :
    f.Fits spec := by
  unfold unchangedCarried at h
  split at h
  next => cases h
  next hsame =>
    simp only [not_or, ne_eq, not_not] at hsame
    obtain ⟨howner, hgroup, _, hmode⟩ := hsame
    simp only [except_bind_ok] at h
    obtain ⟨permission, hp, h⟩ := h
    split at h
    next => cases h
    next hpermission =>
      have hbytes : decide (f.bytes = spec.contents) = true := Except.ok.inj h
      refine ⟨by simpa using hbytes, howner, hgroup, hmode, ?_⟩
      rw [hp, not_not.mp hpermission]

/-- A value is staged over nothing or over a file, and ends as a file that fits it. -/
theorem restage_get? {name : String} (h : restage p spec name tree = .ok staged) :
    (tree.get? name = none ∨ ∃ f, tree.get? name = some (.file f)) ∧
      (∃ f, f.Fits spec ∧ staged.get? name = some (.file f)) ∧
      ∀ other, name ≠ other → staged.get? other = tree.get? other := by
  have written {f : File} (hf : f.Fits spec) :
      (∃ g, g.Fits spec ∧ (tree.set name (.file f)).get? name = some (.file g)) ∧
        ∀ other, name ≠ other → (tree.set name (.file f)).get? other = tree.get? other := by
    refine ⟨⟨f, hf, by rw [get?_set, if_pos rfl]⟩, fun other hne => ?_⟩
    rw [get?_set, if_neg hne]
  unfold restage at h
  split at h
  next f hf =>
    simp only [except_bind_ok] at h
    obtain ⟨unchanged, hu, h⟩ := h
    refine ⟨Or.inr ⟨f, hf⟩, ?_⟩
    split at h
    next hc =>
      cases h
      exact ⟨⟨f, unchangedCarried_fits (hc ▸ hu), hf⟩, fun _ _ => rfl⟩
    next =>
      obtain ⟨g, hg, h⟩ := except_bind_ok.mp h
      cases h
      exact written (stagedFile_fits hg)
  next => cases h
  next hn =>
    obtain ⟨g, hg, h⟩ := except_bind_ok.mp h
    cases h
    exact ⟨Or.inl hn, written (stagedFile_fits hg)⟩

/-- The directory staging makes on the way to a destination. -/
def madeDirectory (p : Platform) : Node File DirMetadata := .dir ⟨p.uid, p.gid, 0o711, none⟩

/-- The directories on the way to a path. -/
def onTheWay (p : Platform) (path q : List String) : Option (Node File DirMetadata) :=
  if q ≠ [] ∧ q <+: path then some (madeDirectory p) else none

theorem onTheWay_other {name other : String} {path q : List String} (h : name ≠ other) :
    onTheWay p (name :: path) (other :: q) = none := by
  refine if_neg fun hp => ?_
  rw [List.cons_prefix_cons] at hp
  exact h hp.2.1.symm

theorem onTheWay_cons {name : String} {path q : List String} (hq : q ≠ []) :
    onTheWay p (name :: path) (name :: q) = onTheWay p path q := by
  refine if_congr ?_ rfl rfl
  simp [List.cons_prefix_cons, hq]

theorem onTheWay_head (name : String) (path : List String) :
    onTheWay p (name :: path) [name] = some (madeDirectory p) := by
  refine if_pos ?_
  simp [List.cons_prefix_cons]

theorem stageOne_node? {path : List String} (h : stageOne p spec path tree = .ok staged) :
    (∃ f, f.Fits spec ∧ staged.node? path = some (.file f)) ∧
      ∀ q, q ≠ path → staged.node? q = (tree.node? q).or (onTheWay p path q) := by
  induction path generalizing tree staged with
  | nil => cases h
  | cons name path ih =>
    cases path with
    | nil =>
      obtain ⟨hbefore, ⟨f, hfits, hfile⟩, hother⟩ := restage_get? h
      refine ⟨⟨f, hfits, by rw [node?_file hfile, if_pos rfl]⟩, fun q hq => ?_⟩
      cases q with
      | nil => rfl
      | cons other q =>
        by_cases hne : name = other
        · subst hne
          have hq' : q ≠ [] := fun he => hq (by rw [he])
          have hbelow : tree.node? (name :: q) = none := by
            rcases hbefore with hb | ⟨g, hb⟩
            · exact node?_absent hb q
            · rw [node?_file hb, if_neg hq']
          rw [node?_file hfile, if_neg hq', hbelow, onTheWay_cons hq']
          simp [onTheWay, hq']
        · rw [node?_congr (hother other hne), onTheWay_other hne, Option.or_none]
    | cons next path =>
      -- The directory stands at `name` afterwards; `below` is what it held before.
      have finish {m : DirMetadata} {below inner : Tree}
          (hinner : stageOne p spec (next :: path) below = .ok inner)
          (htop : some (.dir m) =
            (tree.node? [name]).or (onTheWay p (name :: next :: path) [name]))
          (hbelow : ∀ q, q ≠ [] → tree.node? (name :: q) = below.node? q) :
          (∃ f, f.Fits spec ∧ (tree.set name (.dir m inner)).node? (name :: next :: path) =
              some (.file f)) ∧
            ∀ q, q ≠ name :: next :: path → (tree.set name (.dir m inner)).node? q =
              (tree.node? q).or (onTheWay p (name :: next :: path) q) := by
        have hget : (tree.set name (.dir m inner)).get? name = some (.dir m inner) := by
          rw [get?_set, if_pos rfl]
        obtain ⟨⟨f, hfits, hfile⟩, hrest⟩ := ih hinner
        refine ⟨⟨f, hfits, by rw [node?_dir hget, if_neg (by simp), hfile]⟩, fun q hq => ?_⟩
        cases q with
        | nil => rfl
        | cons other q =>
          by_cases hne : name = other
          · subst hne
            by_cases hq' : q = []
            · rw [hq', node?_dir hget, if_pos rfl, htop]
            · rw [node?_dir hget, if_neg hq', hbelow q hq', onTheWay_cons hq']
              exact hrest q fun he => hq (by rw [he])
          · have hother : (tree.set name (.dir m inner)).get? other = tree.get? other := by
              rw [get?_set, if_neg hne]
            rw [node?_congr hother, onTheWay_other hne, Option.or_none]
      rw [stageOne] at h
      split at h
      next m children hc =>
        obtain ⟨inner, hinner, h⟩ := except_bind_ok.mp h
        cases h
        refine finish hinner ?_ fun q hq => ?_
        · rw [node?_dir hc, if_pos rfl, Option.some_or]
        · rw [node?_dir hc, if_neg hq]
      next => cases h
      next hn =>
        obtain ⟨inner, hinner, h⟩ := except_bind_ok.mp h
        cases h
        refine finish hinner ?_ fun q hq => ?_
        · rw [node?_absent hn, onTheWay_head, Option.none_or, madeDirectory]
        · rw [node?_absent hn, node?_empty]

/-- The directories on the way to some entry's destination. -/
def madeFor (p : Platform) (entries : List ValidatedSecret) (q : List String) :
    Option (Node File DirMetadata) :=
  if q ≠ [] ∧ ∃ e ∈ entries, q <+: e.relative then some (madeDirectory p) else none

theorem madeFor_cons (e : ValidatedSecret) (rest : List ValidatedSecret) (q : List String) :
    (onTheWay p e.relative q).or (madeFor p rest q) = madeFor p (e :: rest) q := by
  by_cases hq : q = []
  · simp [onTheWay, madeFor, hq]
  · by_cases he : q <+: e.relative
    · simp [onTheWay, madeFor, hq, he]
    · simp [onTheWay, madeFor, hq, he]

theorem stageEntry_node? {entry : ValidatedSecret} (h : stageEntry p entry tree = .ok staged) :
    (∃ f, f.Fits entry.spec ∧ staged.node? entry.relative = some (.file f)) ∧
      ∀ q, q ≠ entry.relative → staged.node? q =
        (tree.node? q).or (onTheWay p entry.relative q) :=
  stageOne_node? (except_mapError_ok.mp h)

theorem stageAll_node? {entries : List ValidatedSecret}
    (hd : (entries.map ValidatedSecret.relative).Nodup) (h : stageAll p entries tree = .ok staged) :
    (∀ e ∈ entries, ∃ f, f.Fits e.spec ∧ staged.node? e.relative = some (.file f)) ∧
      ∀ q, q ∉ entries.map ValidatedSecret.relative → staged.node? q =
        (tree.node? q).or (madeFor p entries q) := by
  induction entries generalizing tree with
  | nil =>
    cases h
    refine ⟨by simp, fun q _ => ?_⟩
    simp [madeFor]
  | cons e rest ih =>
    obtain ⟨next, hnext, h⟩ := except_bind_ok.mp h
    obtain ⟨hfresh, hd⟩ := List.nodup_cons.mp hd
    obtain ⟨⟨f, hfits, hfile⟩, hother⟩ := stageEntry_node? hnext
    obtain ⟨hfiles, hrest⟩ := ih hd h
    refine ⟨fun e' he' => ?_, fun q hq => ?_⟩
    · rcases List.mem_cons.mp he' with rfl | he'
      · refine ⟨f, hfits, ?_⟩
        rw [hrest _ hfresh, hfile, Option.some_or]
      · exact hfiles e' he'
    · rw [List.map_cons, List.mem_cons, not_or] at hq
      rw [hrest q hq.2, hother q hq.1, Option.or_assoc, madeFor_cons]

/-- A version file takes nothing's place. -/
theorem stageVersions_node? {versions : BTreeMap String String} {entries : List ValidatedSecret}
    (h : stageVersions p versions entries tree = .ok staged) :
    tree.get? versionsName = none ∧
      staged.node? [versionsName] = some (.file
        ⟨p.codec.encode (mergeVersions versions entries), p.uid, p.gid, 0o600, none⟩) ∧
      ∀ q, q ≠ [versionsName] → staged.node? q = tree.node? q := by
  unfold stageVersions at h
  split at h
  next => cases h
  next hn =>
    cases h
    refine ⟨hn, by rw [node?_file (by rw [get?_set, if_pos rfl]), if_pos rfl], fun q hq => ?_⟩
    cases q with
    | nil => rfl
    | cons name q =>
      by_cases he : versionsName = name
      · subst he
        have hq' : q ≠ [] := fun h => hq (by rw [h])
        rw [node?_file (by rw [get?_set, if_pos rfl]), if_neg hq', node?_absent hn]
      · exact node?_congr (by rw [get?_set, if_neg he]) q

end Stage

end NixSecrets
