import NixSecrets.StagedTree

namespace NixSecrets

open Listing

/-- The version map recorded in a generation, whatever its size. -/
def recordedVersions (p : Platform) (tree : Tree) : Option (BTreeMap String String) :=
  match tree.node? [versionsName] with
  | some (.file f) => (p.codec.decode f.bytes).toOption
  | _ => none

/-- The version the entries give an identifier; the last one counts. -/
def deployedVersion (entries : List ValidatedSecret) (identifier : String) : Option String :=
  (entries.reverse.find? (·.spec.identifier = identifier)).map (·.spec.versionId)

theorem mergeVersions_getElem? (versions : BTreeMap String String)
    (entries : List ValidatedSecret) (identifier : String) :
    (mergeVersions versions entries)[identifier]? =
      (deployedVersion entries identifier).or versions[identifier]? := by
  unfold mergeVersions
  induction entries generalizing versions with
  | nil => rfl
  | cons e rest ih =>
    rw [List.foldl_cons, ih, Std.ExtTreeMap.getElem?_insert]
    simp only [deployedVersion, List.reverse_cons, List.find?_append]
    cases rest.reverse.find? (fun x => x.spec.identifier = identifier) with
    | some found => rfl
    | none =>
      by_cases he : e.spec.identifier = identifier
      · simp [he]
      · simp [he]

/-- The new generation is the old one with the batch laid over it. -/
structure CarriedOver (p : Platform) (old new : Tree) (versions : BTreeMap String String)
    (entries : List ValidatedSecret) : Prop where
  kept : ∀ path, path ≠ [versionsName] → path ∉ entries.map ValidatedSecret.relative →
    old.node? path ≠ none → new.node? path = old.node? path
  laid : ∀ e ∈ entries, ∃ f, f.Fits e.spec ∧ new.node? e.relative = some (.file f)
  nothingElse : ∀ path, path ≠ [versionsName] → path ∉ entries.map ValidatedSecret.relative →
    old.node? path = none → new.node? path = madeFor p entries path
  versions : ∃ recorded, recordedVersions p new = some recorded ∧ ∀ identifier : String,
    recorded[identifier]? = (deployedVersion entries identifier).or versions[identifier]?

/-- Nothing but the version map, and what the batch replaces, is under the map's name. -/
def Unshadowed (old : Tree) (entries : List ValidatedSecret) : Prop :=
  ∀ path, old.node? path ≠ none → path ≠ [versionsName] → versionsName ∈ path →
    path ∈ entries.map ValidatedSecret.relative

def clonedOver (p : Platform) : Option Tree → Except DeployError Tree
  | none => .ok .empty
  | some tree => cloneTree p tree

def versionsOver (p : Platform) : Option Tree → Except DeployError (BTreeMap String String)
  | none => .ok ∅
  | some tree => readVersions p tree

/-- What a deployment publishes over a generation, if there is one. -/
def stagedOver (p : Platform) (old : Option Tree) (entries : List ValidatedSecret) :
    Except DeployError Tree := do
  let base ← clonedOver p old
  let tree ← stageAll p entries base
  let versions ← versionsOver p old
  stageVersions p versions entries tree

theorem staged_eq_stagedOver {p : Platform} {r : Root} {old : Option Tree}
    (h : r.currentTree = .ok old) (entries : List ValidatedSecret) :
    r.staged p entries = stagedOver p old entries := by
  unfold Root.staged stagedOver Root.cloneCurrent Root.currentVersions
  rw [h]
  cases old <;> rfl

theorem clonedOver_node? {p : Platform} {old : Option Tree} {base : Tree}
    (h : clonedOver p old = .ok base) (path : List String) :
    base.node? path = if versionsName ∈ path then none else (old.getD .empty).node? path := by
  cases old with
  | none =>
    cases h
    rw [Option.getD_none, node?_empty, ite_self]
  | some tree => exact cloneTree_node? h path

/-- A path on the way to a destination holds no bookkeeping name unless it starts with it. -/
theorem madeFor_unshadowed {p : Platform} {entries : List ValidatedSecret} {path : List String}
    (hn : ∀ e ∈ entries, e.relative = e.spec.relative ∧ e.spec.service ≠ versionsName)
    (hd : path ∉ entries.map ValidatedSecret.relative) (hm : versionsName ∈ path) :
    madeFor p entries path = none := by
  refine if_neg ?_
  rintro ⟨hne, e, he, hfront⟩
  obtain ⟨hrel, hservice⟩ := hn e he
  have hproper : path ≠ e.relative := fun h => hd (List.mem_map.mpr ⟨e, he, h.symm⟩)
  rw [hrel, ResolvedSecret.relative] at hfront hproper
  rcases List.prefix_concat_iff.mp hfront with heq | hfront
  · exact hproper heq
  · rcases List.mem_cons.mp (hfront.subset hm) with hs | hs
    · exact hservice hs.symm
    · cases hc : e.spec.secretClass <;> rw [hc] at hs <;> revert hs <;> decide

/-- What a generation published over another holds. -/
structure LaidOver (p : Platform) (old new : Tree) (versions : BTreeMap String String)
    (entries : List ValidatedSecret) : Prop where
  named : ∀ e ∈ entries, e.relative = e.spec.relative ∧ e.spec.service ≠ versionsName
  laid : ∀ e ∈ entries, ∃ f, f.Fits e.spec ∧ new.node? e.relative = some (.file f)
  rest : ∀ path, path ≠ [versionsName] → path ∉ entries.map ValidatedSecret.relative →
    new.node? path = (if versionsName ∈ path then none else old.node? path).or
      (madeFor p entries path)
  versions : recordedVersions p new = some (mergeVersions versions entries)

theorem stagedOver_laid {p : Platform} {old : Option Tree} {entries : List ValidatedSecret}
    {new : Tree} (ha : Accepted entries) (h : stagedOver p old entries = .ok new) :
    ∃ versions, versionsOver p old = .ok versions ∧
      LaidOver p (old.getD .empty) new versions entries := by
  simp only [stagedOver, except_bind_ok] at h
  obtain ⟨base, hbase, tree, htree, versions, hversions, h⟩ := h
  refine ⟨versions, hversions, ?_⟩
  obtain ⟨hnone, hfile, hsame⟩ := stageVersions_node? h
  obtain ⟨hlaid, hrest⟩ := stageAll_node? ha.distinct htree
  have hservice (e : ValidatedSecret) (he : e ∈ entries) :
      e.relative = e.spec.relative ∧ e.spec.service ≠ versionsName := by
    obtain ⟨f, _, hf⟩ := hlaid e he
    refine ⟨(ha.named e he).1, fun hs => ?_⟩
    rw [(ha.named e he).1, ResolvedSecret.relative, hs, List.cons_append, node?_absent hnone] at hf
    cases hf
  refine ⟨hservice, ?_, ?_, ?_⟩
  · intro e he
    obtain ⟨f, hfits, hf⟩ := hlaid e he
    refine ⟨f, hfits, ?_⟩
    rw [hsame e.relative ?_]
    · exact hf
    · rw [(hservice e he).1, ResolvedSecret.relative]
      simp
  · intro q hq hd
    rw [hsame q hq, hrest q hd, clonedOver_node? hbase]
  · rw [recordedVersions, hfile]
    simp only [p.codec.decode_encode]
    rfl

theorem carriedOver_iff {p : Platform} {old : Option Tree} {entries : List ValidatedSecret}
    {new : Tree} (ha : Accepted entries) (h : stagedOver p old entries = .ok new) :
    ∃ versions, versionsOver p old = .ok versions ∧
      (CarriedOver p (old.getD .empty) new versions entries ↔
        Unshadowed (old.getD .empty) entries) := by
  obtain ⟨versions, hversions, hnew⟩ := stagedOver_laid ha h
  refine ⟨versions, hversions, ?_⟩
  constructor
  · intro hc path hold hpath hm
    by_contra hd
    have hkept := hc.kept path hpath hd hold
    rw [hnew.rest path hpath hd, if_pos hm, madeFor_unshadowed hnew.named hd hm] at hkept
    exact hold hkept.symm
  · intro hu
    refine ⟨?_, hnew.laid, ?_, _, hnew.versions, mergeVersions_getElem? versions entries⟩
    · intro path hpath hd hold
      have hm : versionsName ∉ path := fun hm => hd (hu path hold hpath hm)
      rw [hnew.rest path hpath hd, if_neg hm]
      exact Option.or_of_isSome (Option.isSome_iff_ne_none.mpr hold)
    · intro path hpath hd hold
      rw [hnew.rest path hpath hd, hold, ite_self, Option.none_or]

end NixSecrets
