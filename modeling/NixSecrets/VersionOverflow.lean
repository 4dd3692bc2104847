import Mathlib.Data.List.Dedup
import NixSecrets.VersionHistory

namespace NixSecrets

open Faulty

namespace Deploy

theorem change_run (side : Side) (f : Root → Root) (w : Roots) :
    change side f [] w = (.done (), [], w.update side f) := rfl
theorem touch_run (w : Roots) : touch [] w = (.done (), [], w) := rfl
theorem root_run (side : Side) (w : Roots) : root side [] w = (.done (w.at side), [], w) := rfl

theorem run_stageEntries {p : Platform} {entries : List ValidatedSecret} {base tree : Tree}
    (h : stageAll p entries base = .ok tree) (w : Roots) :
    stageEntries p entries base [] w = (.done tree, [], w) := by
  induction entries generalizing base with
  | nil => cases h; rfl
  | cons e rest ih =>
    obtain ⟨next, hnext, h⟩ := except_bind_ok.mp h
    simp only [stageEntries, bind_run, touch_run, hnext, ofExcept_run]
    exact ih h

theorem prepare_first {p : Platform} {entries : List ValidatedSecret}
    {staged tree : Tree} (id : String) (hstaged : stageAll p entries .empty = .ok staged)
    (hs : stageVersions p ∅ entries staged = .ok tree)
    (hl : (entries.map (·.spec.service)).dedup = ["web"]) :
  ∃ w, prepare p .secrets entries id [] ⟨{ present := true }, { present := true }⟩ =
    (.done ∅, [], w) := by
  have hv (r : Root) (h : r.current = none) : r.validateCurrent = .ok () := by
    rw [Root.validateCurrent, Root.currentGeneration, h]; rfl
  have hcv (r : Root) (h : r.current = none) : r.currentVersions p = .ok ∅ := by
    rw [Root.currentVersions, Root.currentTree, Root.currentGeneration, h]; rfl
  have hcc (r : Root) (h : r.current = none) : r.cloneCurrent p = .ok .empty := by
    rw [Root.cloneCurrent, Root.currentTree, Root.currentGeneration, h]; rfl
  simp [-bind_pure_comp, prepare, prepareStore, createStaging, stage, publish, bind_run, root_run, Faulty.doIf, change_run, touch_run, Roots.update, Roots.at, hv, hcv, hcc, ofExcept_run, pure_run,
    Faulty.refuseIf, run_stageEntries hstaged, hs, hl, each, prepareServiceLink, pointPending, Root.link?, Root.addLink, stripPrefix]

theorem each_completes {α : Type} {body : α → Deploy Unit}
    (h : ∀ x w, ∃ w', body x [] w = (.done (), [], w')) (xs : List α) (w : Roots) :
    ∃ w', each body xs [] w = (.done (), [], w') := by
  induction xs generalizing w with
  | nil => exact ⟨w, rfl⟩
  | cons x rest ih =>
    obtain ⟨next, hnext⟩ := h x w
    obtain ⟨last, hlast⟩ := ih next
    exact ⟨last, (run_bind hnext).trans hlast⟩

/-- Without faults pruning ends. -/
theorem prune_completes (side : Side) (id : String) (w : Roots) :
    ∃ w', prune side id [] w = (.done (), [], w') := by
  have hsweep (name : String) (w : Roots) : ∃ w', change side (fun r =>
      { r with staging := r.staging.erase name }) [] w = (.done (), [], w') := ⟨_, rfl⟩
  have hremove (name : String) (w : Roots) :
      ∃ w', removeGeneration side name [] w = (.done (), [], w') := ⟨_, rfl⟩
  obtain ⟨swept, hswept⟩ := each_completes hsweep (w.at side).staging.toList w
  obtain ⟨pruned, hpruned⟩ := each_completes hremove
    ((w.at side).generationNames.filter (· ∉ Root.kept id (w.at side).generationNames)) swept
  refine ⟨pruned, ?_⟩
  simp only [prune, bind_run, root_run, hswept, hpruned, touch_run]

theorem together_first {p : Platform} {batch : ResolvedBatch} {entries : List ValidatedSecret}
    {tree : Tree} (id : String) (hne : batch ≠ []) (hv : validate batch = .ok entries)
    (hs : stagedOver p none entries = .ok tree)
    (hl : (entries.map (·.spec.service)).dedup = ["web"]) :
    (together p (some batch) none id [] {}).1.isDone = true := by
  have hvalidated : validated (some batch) .secrets = .ok (some entries) := by
    cases batch with
    | nil => exact absurd rfl hne
    | cons spec rest => rw [validated, hv]; rfl
  have hnone : validated none .publicInfo = .ok none := rfl
  simp only [stagedOver, except_bind_ok] at hs
  obtain ⟨base, hbase, staged, hstaged, versions, hversions, hs⟩ := hs
  cases hbase
  cases hversions
  have hopen : openBoth [] {} = (.done (), [], ⟨{ present := true }, { present := true }⟩) := by
    decide
  obtain ⟨w, hw⟩ := prepare_first id hstaged hs hl
  obtain ⟨pruned, hpruned⟩ := prune_completes .secrets id (w.update .secrets (Root.promote id))
  simp [-bind_pure_comp, together, hvalidated, hnone, bind_run, ofExcept_run, refuseIf, pure_run, hopen, attempt, publishBoth, preparePublic, commitSecrets, mapError, hw, switch, change_run, touch_run, doIf, hpruned, Ended.isDone]

end Deploy
end NixSecrets

namespace NixSecrets

theorem digitChar_injective : ∀ a < 10, ∀ b < 10, Nat.digitChar a = Nat.digitChar b → a = b := by
  decide

theorem paddedDigits_injective {width n m : Nat} (hn : n < 10 ^ width) (hm : m < 10 ^ width)
    (h : paddedDigits width n = paddedDigits width m) : n = m := by
  induction width generalizing n m with
  | zero => omega
  | succ width ih =>
    rw [paddedDigits, paddedDigits] at h
    obtain ⟨hfront, hlast⟩ := List.append_inj' h rfl
    have hrest := ih (by omega) (by omega) hfront
    have hdigit := digitChar_injective (n % 10) (by omega) (m % 10) (by omega) (List.cons.inj hlast).1
    omega

theorem paddedDigits_alphanum (width n : Nat) : ∀ c ∈ paddedDigits width n, c.isAlphanum = true := by
  have hdigit : ∀ d < 10, (Nat.digitChar d).isAlphanum = true := by decide
  induction width generalizing n with
  | zero => simp [paddedDigits]
  | succ width ih =>
    intro c hc
    rw [paddedDigits, List.mem_append, List.mem_singleton] at hc
    rcases hc with hc | rfl
    · exact ih (n / 10) c hc
    · exact hdigit (n % 10) (by omega)

theorem paddedDigits_length (width n : Nat) : (paddedDigits width n).length = width := by
  induction width generalizing n with
  | zero => rfl
  | succ width ih => rw [paddedDigits, List.length_append, ih, List.length_singleton]

def bulkName (n : Nat) : String := String.ofList ('t' :: paddedDigits 5 n)

/-- The longest version the manifest allows. -/
def bulkVersion : String := String.ofList (List.replicate 256 'v')

/-- One of many values of a service. -/
def bulkSecret (n : Nat) : ResolvedSecret :=
  ⟨"host.services.web." ++ bulkName n, bulkVersion, "web", .service, bulkName n, [115], 0, 0, 0o400,
    none, []⟩

theorem bulkSecret_relative (n : Nat) :
    (bulkSecret n).relative = ["web", "service", bulkName n] := rfl

def bulkBatch (count : Nat) : ResolvedBatch := (List.range count).map bulkSecret

theorem utf8ByteSize_ofList (text : List Char) :
    (String.ofList text).utf8ByteSize = (utf8Bytes text).length := by
  simp [utf8Bytes, String.utf8ByteSize]

theorem utf8Bytes_length_le (text : List Char) : (utf8Bytes text).length ≤ 4 * text.length := by
  rw [utf8Bytes_flatMap]
  induction text with
  | nil => simp
  | cons c rest ih =>
    have hc : (String.utf8EncodeChar c).length ≤ 4 := by
      rw [String.length_utf8EncodeChar]
      exact Char.utf8Size_le_four c
    rw [List.flatMap_cons, List.length_append, List.length_cons]
    omega

theorem bulkName_toList (n : Nat) : (bulkName n).toList = 't' :: paddedDigits 5 n :=
  String.toList_ofList

theorem bulkName_valid (n : Nat) : validateName "secret" (bulkName n) = .ok () := by
  have hlength : ('t' :: paddedDigits 5 n).length = 6 := by
    rw [List.length_cons, paddedDigits_length]
  have hbytes := length_le_utf8Bytes ('t' :: paddedDigits 5 n)
  have hbound := utf8Bytes_length_le ('t' :: paddedDigits 5 n)
  have hsize : (bulkName n).utf8ByteSize = (utf8Bytes ('t' :: paddedDigits 5 n)).length :=
    utf8ByteSize_ofList _
  have hall : (bulkName n).toList.all
      (fun c => c.isAlphanum || c == '.' || c == '_' || c == '-') = true := by
    rw [List.all_eq_true]
    intro c hc
    have halnum : c.isAlphanum = true := by
      rw [bulkName_toList, List.mem_cons] at hc
      rcases hc with rfl | hc
      · rfl
      · exact paddedDigits_alphanum 5 n c hc
    rw [halnum]
    rfl
  have hdots (s : String) (hs : s.toList.head? ≠ some 't') : bulkName n ≠ s := by
    intro he
    rw [← he, bulkName_toList] at hs
    exact hs rfl
  unfold validateName
  rw [if_pos]
  exact ⟨by omega, by omega, hall, hdots "." (by decide), hdots ".." (by decide)⟩

theorem bulkName_injective {n m : Nat} (hn : n < 100000) (hm : m < 100000)
    (h : bulkName n = bulkName m) : n = m := by
  have hlist := congrArg String.toList h
  rw [bulkName_toList, bulkName_toList] at hlist
  have hwidth : 10 ^ 5 = 100000 := by decide
  exact paddedDigits_injective (hwidth ▸ hn) (hwidth ▸ hm) (List.cons.inj hlist).2

/-- Entries that pass their own checks and have destinations of their own are accepted. -/
theorem validateEntries_accepts {seen : List (List String)} {batch : List ResolvedSecret}
    (hc : ∀ spec ∈ batch, validateName "service" spec.service = .ok () ∧
      validateName "secret" spec.secret = .ok () ∧ spec.validateClassMode = .ok () ∧
      spec.identifier ≠ "" ∧ spec.versionId ≠ "")
    (hd : (batch.map ResolvedSecret.relative).Nodup)
    (hs : ∀ spec ∈ batch, spec.relative ∉ seen) :
    validateEntries seen batch = .ok (batch.map fun spec => ⟨spec, spec.relative⟩) := by
  induction batch generalizing seen with
  | nil => rfl
  | cons spec rest ih =>
    obtain ⟨hservice, hsecret, hmode, hid, hversion⟩ := hc spec List.mem_cons_self
    obtain ⟨hfresh, hd⟩ := List.nodup_cons.mp hd
    have hentry : validateEntry seen spec = .ok ⟨spec, spec.relative⟩ := by
      simp only [validateEntry, except_bind_ok, except_mapError_ok]
      refine ⟨(), hservice, (), hsecret, (), hmode, ?_⟩
      rw [if_neg (by simp [hid, hversion]), if_neg (hs spec List.mem_cons_self)]
    simp only [validateEntries, except_bind_ok]
    refine ⟨_, hentry, _, ih (fun s h => hc s (List.mem_cons_of_mem _ h)) hd ?_, rfl⟩
    intro s h hmem
    rcases List.mem_cons.mp hmem with he | hmem
    · exact hfresh (List.mem_map.mpr ⟨s, h, he⟩)
    · exact hs s (List.mem_cons_of_mem _ h) hmem

theorem bulkBatch_relative {count : Nat} (hcount : count ≤ 100000) :
    ((bulkBatch count).map ResolvedSecret.relative).Nodup := by
  rw [bulkBatch, List.map_map]
  refine List.Nodup.map_on ?_ List.nodup_range
  intro n hn m hm h
  rw [List.mem_range] at hn hm
  have hname : bulkName n = bulkName m := by
    rw [Function.comp_apply, Function.comp_apply, bulkSecret_relative, bulkSecret_relative] at h
    simpa using h
  exact bulkName_injective (Nat.lt_of_lt_of_le hn hcount) (Nat.lt_of_lt_of_le hm hcount) hname

theorem bulkBatch_validate {count : Nat} (hcount : count ≤ 100000) (hpos : 0 < count) :
    validate (bulkBatch count) = .ok ((bulkBatch count).map fun spec => ⟨spec, spec.relative⟩) := by
  have hne : bulkBatch count ≠ [] := by
    intro h
    have hlength := congrArg List.length h
    simp [bulkBatch] at hlength
    omega
  rw [validate, if_neg hne]
  refine validateEntries_accepts (fun spec h => ?_) (bulkBatch_relative hcount) (by simp)
  obtain ⟨n, _, rfl⟩ := List.mem_map.mp h
  have hservice : validateName "service" "web" = .ok () := by decide
  have hmode : (bulkSecret n).validateClassMode = .ok () := by
    have hclass : (bulkSecret n).secretClass ≠ .publicInfo := fun h => by cases h
    have hallowed : validateMode 0o400 = .ok () := by decide
    rw [ResolvedSecret.validateClassMode, if_neg hclass]
    exact hallowed
  have hversion : bulkVersion ≠ "" := by decide +kernel
  refine ⟨hservice, bulkName_valid n, hmode, ?_, hversion⟩
  show "host.services.web." ++ bulkName n ≠ ""
  intro he
  have hlist := congrArg String.toList he
  rw [String.toList_append] at hlist
  exact absurd (List.append_eq_nil_iff.mp hlist).1 (by decide)

/-- Nothing is in the way of staging at the path. -/
structure Clear (tree : Tree) (path : List String) : Prop where
  free : tree.node? path = none
  passable : ∀ q, q <+: path → q ≠ path → tree.node? q = none ∨ ∃ m, tree.node? q = some (.dir m)

theorem get?_of_node?_none {tree : Tree} {name : String} (h : tree.node? [name] = none) :
    tree.get? name = none := by
  cases hg : tree.get? name with
  | none => rfl
  | some item =>
    rw [Listing.node?, hg] at h
    cases item <;> cases h

theorem clear_empty (path : List String) : Clear .empty path :=
  ⟨Listing.node?_empty path, fun q _ _ => Or.inl (Listing.node?_empty q)⟩

theorem stageOne_clear {p : Platform} {spec : ResolvedSecret} {f : File}
    (hf : stagedFile p spec = .ok f) {path : List String} (hp : path ≠ []) {tree : Tree}
    (hc : Clear tree path) : ∃ staged, stageOne p spec path tree = .ok staged := by
  induction path generalizing tree with
  | nil => exact absurd rfl hp
  | cons name path ih =>
    cases path with
    | nil =>
      refine ⟨tree.set name (.file f), ?_⟩
      rw [stageOne, restage, get?_of_node?_none hc.free]
      simp only [hf]
      rfl
    | cons next path =>
      have htop := hc.passable [name] (by simp) (by simp)
      rw [stageOne]
      cases hg : tree.get? name with
      | none =>
        obtain ⟨inner, hinner⟩ := ih (by simp) (clear_empty _)
        simp only [hinner]
        exact ⟨_, rfl⟩
      | some item =>
        cases item with
        | file g => simp [Listing.node?_file hg] at htop
        | link t => simp [Listing.node?, hg] at htop
        | dir m children =>
          have hbelow {q : List String} (hq : q ≠ []) : tree.node? (name :: q) = children.node? q := by
            rw [Listing.node?_dir hg, if_neg hq]
          have hinside : Clear children (next :: path) := by
            have hfree := hc.free
            rw [hbelow (List.cons_ne_nil next path)] at hfree
            refine ⟨hfree, fun q hq hne => ?_⟩
            by_cases hnil : q = []
            · rw [hnil]
              exact Or.inl (Listing.node?_nil children)
            · rw [← hbelow hnil]
              exact hc.passable (name :: q) (List.cons_prefix_cons.mpr ⟨rfl, hq⟩) (by simp [hne])
          obtain ⟨inner, hinner⟩ := ih (by simp) hinside
          simp only [hinner]
          exact ⟨_, rfl⟩

/-- Staging one value leaves the way to another clear. -/
theorem Clear.after_stageOne {p : Platform} {spec : ResolvedSecret} {path other : List String}
    {tree staged : Tree} (hc : Clear tree other) (h : stageOne p spec path tree = .ok staged)
    (hapart : ¬ other <+: path) (hapart' : ¬ path <+: other) : Clear staged other := by
  obtain ⟨_, hrest⟩ := stageOne_node? h
  have hmade (q : List String) : onTheWay p path q = none ∨
      ∃ m, onTheWay p path q = some (.dir m) := by
    unfold onTheWay
    split
    next => exact Or.inr ⟨_, rfl⟩
    next => exact Or.inl rfl
  refine ⟨?_, fun q hq hne => ?_⟩
  · rw [hrest other fun he => hapart (he ▸ List.prefix_rfl), hc.free, onTheWay,
      if_neg fun h => hapart h.2]
    rfl
  · rw [hrest q fun he => hapart' (he ▸ hq)]
    rcases hc.passable q hq hne with hn | ⟨m, hm⟩
    · rw [hn]
      exact hmade q
    · exact Or.inr ⟨m, by rw [hm, Option.some_or]⟩

theorem bulk_stageAll {p : Platform} {names : List Nat} {f : Nat → File} {tree : Tree}
    (hf : ∀ n, stagedFile p (bulkSecret n) = .ok (f n)) (hd : (names.map bulkName).Nodup)
    (hc : ∀ n ∈ names, Clear tree (bulkSecret n).relative) :
    ∃ staged, stageAll p (names.map fun n => ⟨bulkSecret n, (bulkSecret n).relative⟩) tree =
      .ok staged := by
  induction names generalizing tree with
  | nil => exact ⟨tree, rfl⟩
  | cons n rest ih =>
    obtain ⟨hfresh, hd⟩ := List.nodup_cons.mp hd
    obtain ⟨next, hnext⟩ := stageOne_clear (hf n) (by simp [bulkSecret_relative])
      (hc n List.mem_cons_self)
    have hentry : stageEntry p ⟨bulkSecret n, (bulkSecret n).relative⟩ tree = .ok next :=
      except_mapError_ok.mpr hnext
    obtain ⟨staged, hstaged⟩ := ih hd fun m hm => by
      have hne : bulkName n ≠ bulkName m := fun he => hfresh (List.mem_map.mpr ⟨m, hm, he.symm⟩)
      refine (hc m (List.mem_cons_of_mem _ hm)).after_stageOne hnext ?_ ?_
      · simp [bulkSecret_relative, List.cons_prefix_cons, Ne.symm hne]
      · simp [bulkSecret_relative, List.cons_prefix_cons, hne]
    refine ⟨staged, ?_⟩
    rw [List.map_cons, stageAll, hentry]
    exact hstaged

theorem foldl_insert_size {batch : List ResolvedSecret} {versions : BTreeMap String String}
    (hd : (batch.map ResolvedSecret.identifier).Nodup)
    (hn : ∀ spec ∈ batch, spec.identifier ∉ versions) :
    (batch.foldl (fun versions spec => versions.insert spec.identifier spec.versionId)
      versions).size = versions.size + batch.length := by
  induction batch generalizing versions with
  | nil => rfl
  | cons spec rest ih =>
    obtain ⟨hfresh, hd⟩ := List.nodup_cons.mp hd
    have hrest : ∀ s ∈ rest, s.identifier ∉ versions.insert spec.identifier spec.versionId := by
      intro s hs hmem
      rcases Std.ExtTreeMap.mem_insert.mp hmem with he | hmem
      · exact hfresh (List.mem_map.mpr ⟨s, hs, (Std.LawfulEqOrd.eq_of_compare he).symm⟩)
      · exact hn s (List.mem_cons_of_mem _ hs) hmem
    have habsent : ¬ versions.contains spec.identifier = true := by
      rw [Std.ExtTreeMap.contains_iff_mem]
      exact hn spec List.mem_cons_self
    rw [List.foldl_cons, ih hd hrest, Std.ExtTreeMap.size_insert, if_neg habsent, List.length_cons]
    omega

theorem foldl_insert_values {batch : List ResolvedSecret} {versions : BTreeMap String String}
    {version : String} (hb : ∀ spec ∈ batch, spec.versionId = version)
    (hv : ∀ (k : String) v, versions[k]? = some v → v = version) (k : String) (v : String)
    (h : (batch.foldl (fun versions spec => versions.insert spec.identifier spec.versionId)
      versions)[k]? = some v) : v = version := by
  induction batch generalizing versions with
  | nil => exact hv k v h
  | cons spec rest ih =>
    refine ih (fun s hs => hb s (List.mem_cons_of_mem _ hs)) (fun k' v' hk' => ?_) h
    rw [Std.ExtTreeMap.getElem?_insert] at hk'
    split at hk'
    next => rw [← Option.some.inj hk', hb spec List.mem_cons_self]
    next => exact hv k' v' hk'

theorem bulk_identifiers {count : Nat} (hcount : count ≤ 100000) :
    ((bulkBatch count).map ResolvedSecret.identifier).Nodup := by
  rw [bulkBatch, List.map_map]
  refine List.Nodup.map_on ?_ List.nodup_range
  intro n hn m hm h
  rw [List.mem_range] at hn hm
  have hid : "host.services.web." ++ bulkName n = "host.services.web." ++ bulkName m := h
  have hlist := congrArg String.toList hid
  rw [String.toList_append, String.toList_append] at hlist
  have hname : bulkName n = bulkName m := String.toList_injective (List.append_cancel_left hlist)
  exact bulkName_injective (Nat.lt_of_lt_of_le hn hcount) (Nat.lt_of_lt_of_le hm hcount) hname

theorem bulk_versions_length {count : Nat} (hcount : count ≤ 100000) :
    count * 256 < (jsonVersions.encode (versionsOf [bulkBatch count])).length := by
  have hsize : (versionsOf [bulkBatch count]).size = count := by
    have hnone : ∀ spec ∈ bulkBatch count, spec.identifier ∉ (∅ : BTreeMap String String) := by simp
    have h := foldl_insert_size (bulk_identifiers hcount) hnone
    simpa [versionsOf, bulkBatch] using h
  have hvalues (k v : String) (h : (versionsOf [bulkBatch count])[k]? = some v) : v = bulkVersion := by
    have hbatch : ∀ spec ∈ bulkBatch count, spec.versionId = bulkVersion := by
      intro spec hspec
      obtain ⟨n, _, rfl⟩ := List.mem_map.mp hspec
      rfl
    have hnone : ∀ (k : String) v, (∅ : BTreeMap String String)[k]? = some v → v = bulkVersion := by
      simp
    refine foldl_insert_values hbatch hnone k v ?_
    simpa [versionsOf] using h
  have hlength := jsonVersions_length hvalues
  have hversion : bulkVersion.toList.length = 256 := by decide +kernel
  rw [hsize, hversion] at hlength
  exact hlength

theorem bulk_staged {count : Nat} (hcount : count ≤ 100000) : ∃ tree,
    stagedOver receiver none ((bulkBatch count).map fun spec => ⟨spec, spec.relative⟩) = .ok tree := by
  have hfile (n : Nat) : stagedFile receiver (bulkSecret n) = .ok ⟨[115], 0, 0, 0o400, none⟩ := by
    have hplain : ¬ (chowned 0 0 ≠ 0 ∨ chowned 0 0 ≠ 0 ∨ (0o400 : UInt32) &&& 0o7777 ≠ 0o400) := by
      decide
    exact if_neg hplain
  have hnames : ((List.range count).map bulkName).Nodup := by
    refine List.Nodup.map_on (fun n hn m hm h => ?_) List.nodup_range
    rw [List.mem_range] at hn hm
    exact bulkName_injective (Nat.lt_of_lt_of_le hn hcount) (Nat.lt_of_lt_of_le hm hcount) h
  obtain ⟨staged, hstaged⟩ := bulk_stageAll hfile hnames fun n _ => clear_empty _
  have hentries : ((List.range count).map fun n => ValidatedSecret.mk (bulkSecret n)
      (bulkSecret n).relative) = (bulkBatch count).map fun spec => ⟨spec, spec.relative⟩ := by
    rw [bulkBatch, List.map_map]
    rfl
  rw [hentries] at hstaged
  have hrelative : ((bulkBatch count).map fun spec => ValidatedSecret.mk spec spec.relative).map
      ValidatedSecret.relative = (bulkBatch count).map ResolvedSecret.relative := by
    rw [List.map_map]
    rfl
  obtain ⟨_, hrest⟩ := stageAll_node? (hrelative ▸ bulkBatch_relative hcount) hstaged
  have hbulk {path : List String} (h : path ∈ (bulkBatch count).map ResolvedSecret.relative) :
      ∃ n, path = ["web", "service", bulkName n] := by
    obtain ⟨spec, hspec, rfl⟩ := List.mem_map.mp h
    obtain ⟨n, _, rfl⟩ := List.mem_map.mp hspec
    exact ⟨n, rfl⟩
  have habsent : staged.get? versionsName = none := by
    refine get?_of_node?_none ?_
    rw [hrest [versionsName], Listing.node?_empty, Option.none_or, madeFor, if_neg]
    · rintro ⟨_, e, he, hfront⟩
      obtain ⟨n, hn⟩ := hbulk (hrelative ▸ List.mem_map.mpr ⟨e, he, rfl⟩)
      rw [hn, List.cons_prefix_cons] at hfront
      exact absurd hfront.1 (by decide)
    · intro hmem
      rw [hrelative] at hmem
      obtain ⟨n, hn⟩ := hbulk hmem
      have hlength := congrArg List.length hn
      simp at hlength
  have hversions (entries : List ValidatedSecret) :
      ∃ tree, stageVersions receiver ∅ entries staged = .ok tree := by
    rw [stageVersions, habsent]
    exact ⟨_, rfl⟩
  obtain ⟨tree, htree⟩ := hversions ((bulkBatch count).map fun spec => ⟨spec, spec.relative⟩)
  refine ⟨tree, ?_⟩
  have hbase : clonedOver receiver none = .ok .empty := rfl
  have hnone : versionsOver receiver none = .ok ∅ := rfl
  simp only [stagedOver, except_bind_ok]
  exact ⟨_, hbase, staged, hstaged, _, hnone, htree⟩

/-- One deployment of many values records more than the reader will take. -/
theorem bulk_versions_refused : ¬ ∀ (p : Platform) (side : Side) (batches : List ResolvedBatch)
    (ids : List String) (w : Roots), DeployedRun p side batches ids w →
    ∃ versions, (w.at side).currentVersions p = .ok versions := by
  intro h
  have hcount : 16384 ≤ 100000 := by decide
  have hne : bulkBatch 16384 ≠ [] := by
    intro he
    have hlength := congrArg List.length he
    simp [bulkBatch] at hlength
  have hservices : (((bulkBatch 16384).map fun spec => ValidatedSecret.mk spec spec.relative).map
      (·.spec.service)).dedup = ["web"] := by
    have hmap : ((bulkBatch 16384).map fun spec => ValidatedSecret.mk spec spec.relative).map
        (·.spec.service) = List.replicate 16384 "web" := by
      rw [List.map_map, bulkBatch, List.map_map, List.eq_replicate_iff]
      refine ⟨by simp, fun name hname => ?_⟩
      obtain ⟨n, _, rfl⟩ := List.mem_map.mp hname
      rfl
    rw [hmap, List.replicate_dedup (by decide)]
  obtain ⟨tree, htree⟩ := bulk_staged hcount
  have hdone := Deploy.together_first firstId hne (bulkBatch_validate hcount (by decide)) htree
    hservices
  obtain ⟨previous, hrun⟩ := done_of_isDone hdone
  have hdeploys : Deploys receiver .secrets (bulkBatch 16384) firstId {} _ := .joint hrun rfl hne
  have hrun' := DeployedRun.start.into (by decide) (by simp) hdeploys
  obtain ⟨versions, hv⟩ := h receiver .secrets _ _ _ hrun'
  have hlength := bulk_versions_length hcount
  rw [run_currentVersions hrun', if_pos ⟨by simp, hlength⟩] at hv
  cases hv

end NixSecrets
