import NixSecrets.DeployAtomic
import NixSecrets.CarryOver

namespace NixSecrets

open Faulty

/-- The batch a joint deployment has for a root. -/
def batchFor (side : Side) (secrets publicInfo : Option ResolvedBatch) : Option ResolvedBatch :=
  match side with
  | .secrets => secrets
  | .publicInfo => publicInfo

/-- A deployment of `batch` into a root as generation `id` that reports success. -/
inductive Deploys (p : Platform) (side : Side) (batch : ResolvedBatch) (id : String) :
    Roots → Roots → Prop
  | joint {secrets publicInfo : Option ResolvedBatch} {faults rest : List Fault}
      {previous : BTreeMap String String} {w w' : Roots}
      (hrun : Deploy.together p secrets publicInfo id faults w = (.done previous, rest, w'))
      (hbatch : batchFor side secrets publicInfo = some batch) (hne : batch ≠ []) :
      Deploys p side batch id w w'
  | alone {proceed : Root → Except DeployError Bool} {published : Root → Except DeployError Unit}
      {faults rest : List Fault} {w w' : Roots}
      (hrun : Deploy.deployInner p .publicInfo batch id proceed published faults w =
        (.done true, rest, w')) (hside : side = .publicInfo) : Deploys p side batch id w w'

/-- Where recovery takes one root. -/
def Roots.settledAt (w : Roots) : Side → Option String
  | .secrets => w.settled.1
  | .publicInfo => w.settled.2

/-- The contents of the generation a root is at once recovered. -/
def Roots.settledTree (w : Roots) (side : Side) : Option Tree :=
  (w.settledAt side).bind fun id => (w.at side).generations[id]?.map Generation.tree

section Published

variable {p : Platform} {x : Settled} {free : String → Prop} {w w' : Roots} {id : String}

theorem currentTree_of_generation {r : Root} {k : String} {g : Generation}
    (hc : r.currentGeneration = .ok (some k)) (hg : r.generations[k]? = some g) :
    r.currentTree = .ok (some g.tree) := by
  unfold Root.currentTree
  rw [hc, except_bind_ok]
  exact ⟨some k, rfl, by simp only [hg]⟩

/-- A recovered root is at the generation that was to be its current one. -/
theorem recovered_currentTree {commit settled : Option String} {present : Bool} {r₀ r : Root}
    (h : Deploy.Recovered commit settled free present r) (hs : r₀.Shrunk r) :
    r.currentTree = .ok (settled.bind fun id => r₀.generations[id]?.map Generation.tree) := by
  have hactive : r.active = settled := (h.recommit none).settles
  have hcurrent := h.current
  rw [hactive] at hcurrent
  cases settled with
  | none =>
    unfold Root.currentTree
    rw [hcurrent]
    rfl
  | some k =>
    obtain ⟨_, tree, ht⟩ := h.steady.sound.current k hactive
    obtain ⟨g₀, hg₀, he⟩ := hs k _ ht
    rw [currentTree_of_generation hcurrent ht, Option.bind_some, hg₀, Option.map_some, he]

theorem switched_currentTree {commit : Option String} {tree : Tree} {r : Root}
    (h : Deploy.Switched commit free id tree r) : r.currentTree = .ok (some tree) := by
  have hvalid := (h.steady.sound.current id h.active).1
  refine currentTree_of_generation ?_ h.tree
  rw [Root.currentGeneration, Root.active_eq_some.mp h.active]
  simp only [hvalid, if_true]

theorem recovered_stagedOver {commit settled : Option String} {r₀ r : Root}
    {entries : List ValidatedSecret} {tree : Tree}
    (h : Deploy.Recovered commit settled free true r) (hs : r₀.Shrunk r)
    (hstaged : r.staged p entries = .ok tree) :
    stagedOver p (settled.bind fun id => r₀.generations[id]?.map Generation.tree) entries =
      .ok tree := by
  rw [← hstaged]
  exact (staged_eq_stagedOver (recovered_currentTree h hs) entries).symm

theorem validated_some {batch : ResolvedBatch} {side : Side}
    {entries : Option (List ValidatedSecret)} (hne : batch ≠ [])
    (h : Deploy.validated (some batch) side = .ok entries) :
    ∃ es, validate batch = .ok es ∧ entries = some es := by
  cases batch with
  | nil => exact absurd rfl hne
  | cons spec rest =>
    rw [Deploy.validated, except_mapError_ok] at h
    cases hv : validate (spec :: rest) with
    | error e => rw [hv] at h; cases h
    | ok es => rw [hv] at h; cases h; exact ⟨es, rfl, rfl⟩

theorem Roots.Steady.settledAt_eq (hw : w.Steady x free) :
    w.settledAt .secrets = x.1 ∧ w.settledAt .publicInfo = x.2 := by
  rw [Roots.settledAt, Roots.settledAt, hw.settled_eq]
  exact ⟨rfl, rfl⟩

theorem switched_settledTree {side : Side} {commit : Option String} {tree : Tree}
    (h : Deploy.Switched commit free id tree (w.at side)) (hs : w.settledAt side = some id) :
    w.settledTree side = some tree := by
  rw [Roots.settledTree, hs, Option.bind_some, h.tree]
  rfl

theorem moved_some {batch : Option ResolvedBatch} {settled : Option String}
    {entries : List ValidatedSecret} {side : Side}
    (h : Deploy.validated batch side = .ok (some entries)) :
    Deploy.moved (asked batch) id settled = some id := by
  rw [← Deploy.validated_isSome h]
  rfl

/-- A deployment that reports success has published the batch over the generation the root
was to be at. -/
theorem deploys_staged {side : Side} {batch : ResolvedBatch} (hw : w.Steady x free)
    (hv : validGeneration id = true) (hid : free id) (h : Deploys p side batch id w w') :
    ∃ entries new, validate batch = .ok entries ∧
      stagedOver p (w.settledTree side) entries = .ok new ∧
      (w'.at side).currentTree = .ok (some new) ∧ w'.settledTree side = some new ∧
      ∃ y, w'.Steady y (Deploy.Without free id) := by
  obtain ⟨hsecrets, hpublic⟩ := hw.settledAt_eq
  cases h with
  | joint hrun hbatch hne =>
    have hjoint := (Deploy.meets_together hv hid hw).done rfl hrun
    have hsteady := hjoint.steady
    obtain ⟨secrets, publicInfo, rs, rp, hs, hp, hrs, hrp, hss, hsp, hd⟩ := hjoint
    cases side with
    | secrets =>
      simp only [batchFor] at hbatch
      subst hbatch
      obtain ⟨entries, hentries, rfl⟩ := validated_some hne hs
      obtain ⟨tree, hstaged, hswitched⟩ := hd.secrets
      refine ⟨entries, tree, hentries, ?_, switched_currentTree hswitched, ?_, _, hsteady⟩
      · rw [Roots.settledTree, hsecrets]
        exact recovered_stagedOver hrs hss hstaged
      · exact switched_settledTree hswitched (hsteady.settledAt_eq.1.trans (moved_some hs))
    | publicInfo =>
      simp only [batchFor] at hbatch
      subst hbatch
      obtain ⟨entries, hentries, rfl⟩ := validated_some hne hp
      obtain ⟨tree, hstaged, hswitched⟩ := hd.publicInfo
      refine ⟨entries, tree, hentries, ?_, switched_currentTree hswitched, ?_, _, hsteady⟩
      · rw [Roots.settledTree, hpublic]
        exact recovered_stagedOver hrp hsp hstaged
      · exact switched_settledTree hswitched (hsteady.settledAt_eq.2.trans (moved_some hp))
  | alone hrun hside =>
    subst hside
    have halone := (Deploy.meets_deployInner hv hid hw).done rfl hrun
    have hsteady := Deploy.DeployedAlone.steady halone
    obtain ⟨_, entries, rp, tree, hentries, hrp, hsp, hstaged, hswitched⟩ := halone
    refine ⟨entries, tree, hentries, ?_, switched_currentTree hswitched, ?_, _, hsteady⟩
    · rw [Roots.settledTree, hpublic]
      exact recovered_stagedOver hrp hsp hstaged
    · exact switched_settledTree hswitched hsteady.settledAt_eq.2

end Published

/-- The versions recorded in the generation a root is at once recovered. -/
def Roots.settledVersions (p : Platform) (w : Roots) (side : Side) : BTreeMap String String :=
  ((w.settledTree side).bind (recordedVersions p)).getD ∅

theorem versionsOver_eq {p : Platform} {old : Option Tree} {versions : BTreeMap String String}
    (h : versionsOver p old = .ok versions) :
    (old.bind (recordedVersions p)).getD ∅ = versions := by
  cases old with
  | none =>
    cases h
    rfl
  | some tree =>
    rw [versionsOver, readVersions] at h
    rw [Option.bind_some, recordedVersions]
    split at h
    next f hf =>
      split at h
      next => cases h
      next =>
        rw [except_mapError_ok] at h
        rw [Listing.node?_file hf, if_pos rfl]
        simp only [h]
        rfl
    next => cases h
    next => cases h

def secondId : String := generationId 2 1

def versionsFile (text : String) : Tree :=
  .file versionsName ⟨text.toUTF8.data.toList, 0, 0, 0o600, none⟩ .empty

end NixSecrets
