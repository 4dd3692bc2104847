import NixSecrets.DeployCarried
import NixSecrets.DeployCommit

namespace NixSecrets

open Faulty

/-- A generation of `r₀`, or one named `id` whose contents are in `T`. -/
def Root.AddedTo (r₀ : Root) (id : String) (T : Tree → Prop) (k : String) (tree : Tree) : Prop :=
  (∃ g₀, r₀.generations[k]? = some g₀ ∧ g₀.tree = tree) ∨ (k = id ∧ T tree)

/-- The public-info root has gained no generation over `r₀` but `id`, with contents in `T`. -/
def AddsPublic (r₀ : Root) (id : String) (T : Tree → Prop) : Side → Root → Prop
  | .secrets => fun _ => True
  | .publicInfo => Root.Holds (r₀.AddedTo id T)

theorem Root.Steady.whole {commit : Option String} {free : String → Prop} {r : Root} {k : String}
    (h : r.Steady commit (some k) free) : r.Whole k := by
  have hs := h.settles
  cases commit with
  | none => exact h.sound.current k hs
  | some id =>
    simp only [Root.finish] at hs
    split at hs
    next hp =>
      have he := Option.some.inj hs
      subst he
      exact (h.sound.pending id id hp).2
    next => exact h.sound.current k hs

namespace Deploy

section Keeps

variable {I : Side → Root → Prop} {id : String}

theorem keeps_prune (hI : ∀ side, RecoveryKeeps (I side))
    (hs : ∀ side (r : Root) (staging : BTreeSet String), I side r → I side { r with staging })
    (side : Side) : Keeps (Roots.Each I) (prune side id) := by
  refine keeps_bind (keeps_root side) fun r => ?_
  refine keeps_bind (keeps_each fun _ => keeps_change fun r h => hs side r _ h) fun _ => ?_
  exact keeps_bind (keeps_each fun k => keeps_removeGeneration hI side k) fun _ => keeps_touch

theorem keeps_switch (hI : ∀ side, RecoveryKeeps (I side)) (side : Side) :
    Keeps (Roots.Each I) (switch side id) :=
  keeps_bind (keeps_change fun r h => (hI side).promoted r id h) fun _ => keeps_touch

theorem keeps_completeBoth (hI : ∀ side, RecoveryKeeps (I side))
    (hs : ∀ side (r : Root) (staging : BTreeSet String), I side r → I side { r with staging })
    (secrets publicInfo : Option (List ValidatedSecret)) :
    Keeps (Roots.Each I) (completeBoth secrets publicInfo id) := by
  refine keeps_bind ?_ fun _ => ?_
  · cases secrets with
    | none => exact keeps_mapError keeps_touch
    | some entries =>
      exact keeps_bind (keeps_mapError keeps_touch) fun _ =>
        keeps_doIf (keeps_mapError (keeps_switch hI .publicInfo))
  · exact keeps_bind (keeps_doIf (keeps_mapError (keeps_prune hI hs .secrets))) fun _ =>
      keeps_doIf (keeps_mapError (keeps_prune hI hs .publicInfo))

end Keeps

section Adds

variable {p : Platform} {x : Settled} {free : String → Prop} {id : String} {T : Tree → Prop}
  {r₀ rs rp : Root} {w₀ : Roots}

theorem addsPublic_recoveryKeeps (side : Side) : RecoveryKeeps (AddsPublic r₀ id T side) := by
  cases side with
  | secrets => exact ⟨fun _ _ h => h, fun _ _ h => h, fun _ _ h => h, fun _ _ h => h, fun _ h => h⟩
  | publicInfo => exact holds_recoveryKeeps _

theorem addsPublic_staging (side : Side) (r : Root) (staging : BTreeSet String)
    (h : AddsPublic r₀ id T side r) : AddsPublic r₀ id T side { r with staging } := by
  cases side with
  | secrets => exact trivial
  | publicInfo => exact Root.Holds.same h rfl

/-- A root that only shrank has gained nothing. -/
theorem addsPublic_of_shrunk {w : Roots} (h : Roots.Each (fun side => (w₀.at side).Shrunk) w) :
    Roots.Each (AddsPublic w₀.publicInfo id T) w := by
  intro side
  cases side with
  | secrets => exact trivial
  | publicInfo => exact fun k g hk => Or.inl (h .publicInfo k g hk)

/-- Preparing adds what it stages over the root as it stands. -/
theorem meets_prepare_adds (other : Root) {commit settled : Option String}
    {entries : List ValidatedSecret} (hr : Recovered commit settled free true rp)
    (hT : ∀ tree, rp.staged p entries = .ok tree → T tree) :
    Meets (fun w => On .publicInfo other (· = rp) w ∧ Roots.Each (AddsPublic r₀ id T) w)
      (prepare p .publicInfo entries id) (fun _ => Roots.Each (AddsPublic r₀ id T))
      (Roots.Each (AddsPublic r₀ id T)) := by
  have same (r r' : Root) (hg : r'.generations = r.generations)
      (h : AddsPublic r₀ id T .publicInfo r) : AddsPublic r₀ id T .publicInfo r' :=
    Root.Holds.same h hg
  refine meets_bind ((meets_prepareStore.and (keeps_prepareStore fun r h => same r _ rfl h)).weaken
    (fun w h => ⟨on_of_eq h.1 hr.staging, h.2⟩) (fun _ _ h => h) fun _ h => h.2) fun _ => ?_
  refine meets_bind ((meets_root fun _ h => h.2).weaken (fun _ h => h) (fun _ _ h => h.2)
    fun _ h => h) fun _ => ?_
  refine meets_bind_ofExcept (fun _ h => h.2) fun _ _ => ?_
  refine meets_bind ((meets_createStaging.and (keeps_createStaging fun r _ h => same r _ rfl h)).weaken
    (fun _ h => h) (fun _ _ h => h) fun _ h => h.2) fun _ => ?_
  refine meets_bind ((meets_stage.and keeps_stage).weaken (fun _ h => h)
    (fun tree w h => And.intro h.1.1 h.2) fun _ h => h.2) fun tree => meets_known fun htree => ?_
  refine meets_bind keeps_touch fun _ => meets_bind (keeps_publish fun r staging h =>
    Root.Holds.inserted h (Or.inr ⟨rfl, hT tree htree⟩) staging) fun _ => ?_
  refine meets_bind (keeps_each fun service => keeps_prepareServiceLink (fun r service h =>
    same r _ (addLink_generations service (.service service) r).1 h) service) fun _ => ?_
  refine meets_bind keeps_touch fun _ => meets_bind (keeps_pointPending fun r h => same r _ rfl h)
    fun _ => ?_
  exact meets_bind keeps_touch fun _ => keeps_pure

theorem meets_publishBoth_adds {secrets publicInfo : Option (List ValidatedSecret)}
    (hne : ¬ (secrets.isNone = true ∧ publicInfo.isNone = true))
    (hr : Recovered x.1 x.2 free true rp)
    (hT : ∀ entries tree, publicInfo = some entries → rp.staged p entries = .ok tree → T tree) :
    Meets (fun w => Split (· = rs) (· = rp) w ∧ Roots.Each (AddsPublic r₀ id T) w)
      (publishBoth p secrets publicInfo id) (fun _ => Roots.Each (AddsPublic r₀ id T))
      (Roots.Each (AddsPublic r₀ id T)) := by
  rw [publishBoth_eq hne]
  refine meets_bind (Q := fun _ => Roots.Each (AddsPublic r₀ id T)) ?_ fun _ => meets_bind
    (keeps_completeBoth addsPublic_recoveryKeeps addsPublic_staging secrets publicInfo)
      fun _ => keeps_pure
  refine meets_bind (Q := fun _ => Roots.Each (AddsPublic r₀ id T)) ?_ fun before => ?_
  · cases publicInfo with
    | none => exact meets_pure fun w h => h.2
    | some entries =>
      exact meets_mapError (meets_prepare_adds rs hr fun tree ht => hT entries tree rfl ht)
  · cases secrets with
    | some entries =>
      have hI : PreparationKeeps id (AddsPublic r₀ id T .secrets) :=
        ⟨fun _ h => h, fun _ _ h => h, fun _ _ _ h => h, fun _ _ h => h, fun _ h => h⟩
      refine meets_bind (keeps_mapError (keeps_prepare hI entries)) fun _ => ?_
      exact meets_bind (keeps_mapError (keeps_change fun _ h => h)) fun _ => keeps_pure
    | none =>
      exact meets_bind (keeps_mapError (keeps_change fun r h =>
        (addsPublic_recoveryKeeps .publicInfo).promoted r id h)) fun _ => keeps_pure

/-- However a joint deployment ends, it adds at most what it stages over the generation the
public-info root was at. -/
theorem meets_together_adds {secretsBatch publicBatch : Option ResolvedBatch}
    (hw₀ : w₀.Steady x free)
    (hT : ∀ entries tree, validated publicBatch .publicInfo = .ok (some entries) →
      stagedOver p (w₀.settledTree .publicInfo) entries = .ok tree → T tree) :
    Meets (· = w₀) (together p secretsBatch publicBatch id)
      (fun _ => Roots.Each (AddsPublic w₀.publicInfo id T))
      (Roots.Each (AddsPublic w₀.publicInfo id T)) := by
  rw [together_eq]
  have hopened : Meets (fun w => Roots.Steady x free w ∧
      Roots.Each (fun side => (w₀.at side).Shrunk) w) (opened secretsBatch publicBatch) _ _ :=
    meets_opened (shrunk_recoveryKeeps w₀)
  refine meets_bind (hopened.weaken ?_ (fun _ _ h => h) fun w h => addsPublic_of_shrunk h.2)
    fun entries => meets_pointwise fun w hw => ?_
  · rintro w rfl
    exact ⟨hw₀, fun side => Root.Shrunk.refl _⟩
  obtain ⟨⟨_, hpublic, hne⟩, hw, hshrunk⟩ := hw
  have hpublish : Meets (fun w' => Split (· = w.secrets) (· = w.publicInfo) w' ∧
      Roots.Each (AddsPublic w₀.publicInfo id T) w') (publishBoth p entries.1 entries.2 id)
      (fun _ => Roots.Each (AddsPublic w₀.publicInfo id T))
      (Roots.Each (AddsPublic w₀.publicInfo id T)) := by
    refine meets_publishBoth_adds hne hw.2 fun es tree he ht => ?_
    refine hT es tree (he ▸ hpublic) ?_
    rw [Roots.settledTree, hw₀.settledAt_eq.2]
    exact recovered_stagedOver hw.2 (hshrunk .publicInfo) ht
  refine meets_bind_attempt (hpublish.weaken ?_ (fun _ _ h => h) fun _ h => h)
    (fun _ => keeps_pure) fun e => ?_
  · rintro w' rfl
    exact ⟨⟨rfl, rfl⟩, addsPublic_of_shrunk hshrunk⟩
  exact keeps_concluded (fun side => keeps_recoverLocked addsPublic_recoveryKeeps side) (.error e)

theorem meets_publishAlone_adds {entries : List ValidatedSecret} (other : Root)
    (hr : Recovered x.1 x.2 free true rp)
    (hT : ∀ tree, rp.staged p entries = .ok tree → T tree) :
    Meets (fun w => On .publicInfo other (· = rp) w ∧ Roots.Each (AddsPublic r₀ id T) w)
      (publishAlone p .publicInfo entries id) (fun _ => Roots.Each (AddsPublic r₀ id T))
      (Roots.Each (AddsPublic r₀ id T)) := by
  refine meets_bind_attempt (meets_bind (meets_prepare_adds other hr hT) fun _ =>
    meets_bind (keeps_switch addsPublic_recoveryKeeps .publicInfo) fun _ =>
      keeps_prune addsPublic_recoveryKeeps addsPublic_staging .publicInfo) (fun _ => keeps_pure)
    fun e => ?_
  exact meets_bind (keeps_attempt (keeps_recoverLocked addsPublic_recoveryKeeps .publicInfo))
    fun _ => keeps_throw

/-- A deployment into the public-info root alone adds at most what it stages over the
generation the root was at, once `proceed` has approved that generation. -/
theorem meets_deployInner_adds {batch : ResolvedBatch} {proceed : Root → Except DeployError Bool}
    {published : Root → Except DeployError Unit} (hw₀ : w₀.Steady x free)
    (hT : ∀ entries r tree, validate batch = .ok entries →
      r.currentTree = .ok (w₀.settledTree .publicInfo) → proceed r = .ok true →
      stagedOver p (w₀.settledTree .publicInfo) entries = .ok tree → T tree) :
    Meets (· = w₀) (deployInner p .publicInfo batch id proceed published)
      (fun _ => Roots.Each (AddsPublic w₀.publicInfo id T))
      (Roots.Each (AddsPublic w₀.publicInfo id T)) := by
  have start (w : Roots) (h : w = w₀) : Roots.Steady x free w ∧
      Roots.Each (fun side => (w₀.at side).Shrunk) w := by
    subst h
    exact ⟨hw₀, fun side => Root.Shrunk.refl _⟩
  refine meets_bind_ofExcept (fun w h => addsPublic_of_shrunk (start w h).2) fun entries hentries => ?_
  have hprepared := (meets_publicInfo (A := Root.Steady none x.1 free)
    (B := Root.Steady x.1 x.2 free) fun _ _ => meets_prepareRoot).and
      (keeps_prepareRoot (shrunk_recoveryKeeps w₀) .publicInfo)
  refine meets_bind (hprepared.weaken start (fun _ _ h => h) fun w h => addsPublic_of_shrunk h.2)
    fun _ => ?_
  refine meets_bind (meets_touch fun w h => addsPublic_of_shrunk h.2) fun _ => ?_
  refine meets_bind (((meets_recover_publicInfo fun _ h => h.settles).and
    (keeps_recoverLocked (shrunk_recoveryKeeps w₀) .publicInfo)).weaken (fun _ h => h) (fun _ _ h => h)
      fun w h => addsPublic_of_shrunk h.2) fun _ => ?_
  refine meets_pointwise fun w hw => ?_
  obtain ⟨hw, hshrunk⟩ := hw
  have kept (w' : Roots) (h : w' = w) : Roots.Each (AddsPublic w₀.publicInfo id T) w' := by
    subst h
    exact addsPublic_of_shrunk hshrunk
  refine meets_bind (meets_root kept) fun r => meets_pointwise fun w' h => ?_
  obtain ⟨hr, rfl⟩ := h
  have hcurrent : r.currentTree = .ok (w₀.settledTree .publicInfo) := by
    rw [← hr, Roots.settledTree, hw₀.settledAt_eq.2]
    exact recovered_currentTree hw.2 (hshrunk .publicInfo)
  refine meets_bind_ofExcept kept fun go hgo => ?_
  cases go with
  | false => exact meets_pure kept
  | true =>
    have hstaged (tree : Tree) (ht : w'.publicInfo.staged p entries = .ok tree) : T tree := by
      refine hT entries r tree hentries hcurrent hgo ?_
      rw [Roots.settledTree, hw₀.settledAt_eq.2]
      exact recovered_stagedOver hw.2 (hshrunk .publicInfo) ht
    refine meets_bind ((meets_publishAlone_adds w'.secrets hw.2 hstaged).weaken
      (fun v h => ⟨?_, kept v h⟩) (fun _ _ h => h) fun _ h => h) fun _ => ?_
    · subst h
      exact ⟨rfl, rfl⟩
    exact meets_bind (keeps_root .publicInfo) fun _ => meets_bind keeps_ofExcept fun _ => keeps_pure

end Adds

end Deploy

/-- The public-info root settles where it did, at the same contents. -/
def Roots.Unmoved (w w' : Roots) : Prop :=
  w'.settledAt .publicInfo = w.settledAt .publicInfo ∧
    w'.settledTree .publicInfo = w.settledTree .publicInfo

/-- The public-info root settles at `id`, with contents in `T`. -/
def Roots.MovedTo (w' : Roots) (id : String) (T : Tree → Prop) : Prop :=
  w'.settledAt .publicInfo = some id ∧ ∃ tree, T tree ∧ w'.settledTree .publicInfo = some tree

namespace DeployOp

def publicBatch : DeployOp → Option ResolvedBatch
  | .together _ publicInfo _ => publicInfo
  | .publicAlone batch _ _ _ => some batch
  | .recover => none
  | .recoverAlone _ => none

/-- What a call publishes over the generation the public-info root is at. -/
def Publishes (p : Platform) (op : DeployOp) (old : Option Tree) (new : Tree) : Prop :=
  ∃ batch entries, op.publicBatch = some batch ∧ validate batch = .ok entries ∧
    stagedOver p old entries = .ok new

end DeployOp

section Trees

variable {p : Platform} {x y : Settled} {free free' : String → Prop} {id : String} {T : Tree → Prop}
  {w w' : Roots}

theorem Roots.Steady.settledTree_whole {k : String} (h : w.Steady x free) (hk : x.2 = some k) :
    ∃ tree, w.publicInfo.generations[k]? = some ⟨tree, true⟩ ∧
      w.settledTree .publicInfo = some tree := by
  have hwhole : w.publicInfo.Whole k := by
    apply Root.Steady.whole
    rw [← hk]
    exact h.2
  obtain ⟨_, tree, ht⟩ := hwhole
  refine ⟨tree, ht, ?_⟩
  rw [Roots.settledTree, h.settledAt_eq.2, hk, Option.bind_some]
  exact congrArg (Option.map Generation.tree) ht

theorem unmoved_of_same (hw : w.Steady x free) (hw' : w'.Steady y free') (hy : y.2 = x.2)
    (hg : ∀ (k : String) tree tree', w.publicInfo.generations[k]? = some ⟨tree, true⟩ →
      w'.publicInfo.generations[k]? = some ⟨tree', true⟩ → tree' = tree) : w.Unmoved w' := by
  refine ⟨?_, ?_⟩
  · rw [hw'.settledAt_eq.2, hw.settledAt_eq.2, hy]
  cases hx : x.2 with
  | none =>
    rw [Roots.settledTree, Roots.settledTree, hw'.settledAt_eq.2, hw.settledAt_eq.2, hy, hx]
    rfl
  | some k =>
    obtain ⟨tree, ht, hs⟩ := hw.settledTree_whole hx
    obtain ⟨tree', ht', hs'⟩ := hw'.settledTree_whole (hy.trans hx)
    rw [hs, hs', hg k tree tree' ht ht']

/-- A root that settles where it did, and gained at most `id`, is at the same contents. -/
theorem unmoved_of_adds (hw : w.Steady x free) (hid : free id) (hw' : w'.Steady y free')
    (hy : y.2 = x.2) (ha : Roots.Each (AddsPublic w.publicInfo id T) w') : w.Unmoved w' := by
  refine unmoved_of_same hw hw' hy fun k tree tree' ht ht' => ?_
  rcases ha .publicInfo k _ ht' with ⟨g₀, hg₀, he⟩ | ⟨rfl, _⟩
  · have heq := Option.some.inj (hg₀.symm.trans ht)
    rw [heq] at he
    exact he.symm
  · exact (hw.2.fresh k hid (Std.ExtTreeMap.mem_iff_isSome_getElem?.mpr (by rw [ht]; rfl))).elim

theorem movedTo_of_adds (hw : w.Steady x free) (hid : free id) (hw' : w'.Steady y free')
    (hy : y.2 = some id) (ha : Roots.Each (AddsPublic w.publicInfo id T) w') : w'.MovedTo id T := by
  obtain ⟨tree, ht, hs⟩ := hw'.settledTree_whole hy
  refine ⟨by rw [hw'.settledAt_eq.2, hy], tree, ?_, hs⟩
  rcases ha .publicInfo id _ ht with ⟨g₀, hg₀, _⟩ | ⟨_, h⟩
  · exact (hw.2.fresh id hid (Std.ExtTreeMap.mem_iff_isSome_getElem?.mpr (by rw [hg₀]; rfl))).elim
  · exact h

theorem validated_batch {batch : Option ResolvedBatch} {side : Side} {entries : List ValidatedSecret}
    (h : Deploy.validated batch side = .ok (some entries)) :
    ∃ b, batch = some b ∧ validate b = .ok entries := by
  unfold Deploy.validated at h
  split at h
  next spec rest =>
    rw [except_mapError_ok] at h
    cases hv : validate (spec :: rest) with
    | error e => rw [hv] at h; cases h
    | ok es =>
      rw [hv] at h
      cases h
      exact ⟨_, rfl, hv⟩
  next => cases h

/-- Recovery only ever removes generations. -/
theorem unmoved_of_shrunk (hw : w.Steady x free) (hw' : w'.Steady x free)
    (hs : Roots.Each (fun side => (w.at side).Shrunk) w') : w.Unmoved w' := by
  refine unmoved_of_same hw hw' rfl fun k tree tree' ht ht' => ?_
  obtain ⟨g₀, hg₀, he⟩ := hs .publicInfo k _ ht'
  have heq := Option.some.inj (hg₀.symm.trans ht)
  rw [heq] at he
  exact he.symm

theorem keeps_lockExisting {P : Roots → Prop} (side : Side) : Keeps P (Deploy.lockExisting side) :=
  keeps_bind (Deploy.keeps_root side) fun _ => keeps_bind (keeps_doIf Deploy.keeps_touch) fun _ =>
    keeps_pure

theorem keeps_recoverAlone {I : Side → Root → Prop} (hI : ∀ side, Deploy.RecoveryKeeps (I side))
    (side : Side) : Keeps (Roots.Each I) (Deploy.recoverAlone side) :=
  keeps_bind (keeps_lockExisting side) fun _ => keeps_doIf (Deploy.keeps_recoverLocked hI side)

theorem keeps_recover {I : Side → Root → Prop} (hI : ∀ side, Deploy.RecoveryKeeps (I side)) :
    Keeps (Roots.Each I) Deploy.recover := by
  refine keeps_bind (keeps_lockExisting .secrets) fun _ => ?_
  refine keeps_bind (keeps_lockExisting .publicInfo) fun _ => ?_
  exact keeps_bind (keeps_doIf (Deploy.keeps_recoverLocked hI .secrets)) fun _ =>
    keeps_doIf (Deploy.keeps_recoverLocked hI .publicInfo)

theorem recoverAlone_unmoved (faults : List Fault) (hw : w.Steady x free) (side : Side) :
    w.Unmoved (Deploy.recoverAlone side faults w).2.2 := by
  have hsteady := (Deploy.meets_recoverAlone side).final faults hw
  have hshrunk := (keeps_recoverAlone (Deploy.shrunk_recoveryKeeps w) side).final faults
    fun side => Root.Shrunk.refl (w.at side)
  exact unmoved_of_shrunk hw hsteady hshrunk

theorem recover_unmoved (faults : List Fault) (hw : w.Steady x free) :
    w.Unmoved (Deploy.recover faults w).2.2 := by
  have hsteady : Keeps (Roots.Steady x free) Deploy.recover :=
    Deploy.meets_recover.weaken (fun _ h => h) (fun _ _ h => ⟨h.1.steady, h.2.steady⟩) fun _ h => h
  have hshrunk := (keeps_recover (Deploy.shrunk_recoveryKeeps w)).final faults
    fun side => Root.Shrunk.refl (w.at side)
  exact unmoved_of_shrunk hw (hsteady.final faults hw) hshrunk

/-- Recovered alone, the public-info root is at the contents it was to be at. -/
theorem meets_recoverAlone_publicInfo (hw : w.Steady x free) :
    Meets (· = w) (Deploy.recoverAlone .publicInfo)
      (fun _ w' => w'.publicInfo.currentTree = .ok (w.settledTree .publicInfo) ∧
        w'.Steady x free ∧ w.Unmoved w')
      (fun w' => w'.Steady x free ∧ w.Unmoved w') := by
  have hrest : Meets (Roots.Steady x free) (Deploy.recoverAlone .publicInfo)
      (fun _ => Split (Root.Steady none x.1 free) (Deploy.AtRest x.1 x.2 free))
      (Roots.Steady x free) := by
    refine meets_bind (Deploy.meets_lockExisting .publicInfo fun _ h => h) fun present => ?_
    refine meets_doIf (fun _ => ?_) fun hn w' h => ?_
    · exact (Deploy.meets_recover_publicInfo fun _ h => h.settles).weaken
        (fun w' h => ⟨h.2.1, h.2.2, h.1⟩) (fun _ w' h => ⟨h.1, h.2.atRest⟩) fun _ h => h
    · have hp : w'.publicInfo.present = false := h.1.trans (by simpa using hn)
      exact ⟨h.2.1, Deploy.atRest_of_absent h.2.2 hp⟩
  refine (hrest.and (keeps_recoverAlone (Deploy.shrunk_recoveryKeeps w) .publicInfo)).weaken ?_ ?_ ?_
  · rintro w' rfl
    exact ⟨hw, fun side => Root.Shrunk.refl _⟩
  · rintro _ w' ⟨h, hs⟩
    refine ⟨?_, ⟨h.1, h.2.steady⟩, unmoved_of_shrunk hw ⟨h.1, h.2.steady⟩ hs⟩
    rw [Roots.settledTree, hw.settledAt_eq.2]
    exact recovered_currentTree h.2 (hs .publicInfo)
  · exact fun w' h => ⟨h.1, unmoved_of_shrunk hw h.1 h.2⟩

/-- What a deployment into the public-info root alone publishes over the generation it is at. -/
def PublishesAlone (p : Platform) (batch : ResolvedBatch) (proceed : Root → Except DeployError Bool)
    (old : Option Tree) (new : Tree) : Prop :=
  ∃ entries r, validate batch = .ok entries ∧ r.currentTree = .ok old ∧ proceed r = .ok true ∧
    stagedOver p old entries = .ok new

/-- It publishes just when it says so; cut off, it has its whole effect or none. -/
theorem meets_deployInner_moved {batch : ResolvedBatch} {proceed : Root → Except DeployError Bool}
    {published : Root → Except DeployError Unit} (hv : validGeneration id = true) (hid : free id)
    (hw : w.Steady x free) :
    Meets (· = w) (Deploy.deployInner p .publicInfo batch id proceed published)
      (fun deployed w' => (∃ y, w'.Steady y (Deploy.Without free id)) ∧
        if deployed then w'.MovedTo id (PublishesAlone p batch proceed (w.settledTree .publicInfo))
        else w.Unmoved w')
      (fun w' => (∃ y, w'.Steady y (Deploy.Without free id)) ∧ (w.Unmoved w' ∨
        w'.MovedTo id (PublishesAlone p batch proceed (w.settledTree .publicInfo)))) := by
  have hadds : Meets (· = w) (Deploy.deployInner p .publicInfo batch id proceed published)
      (fun _ => Roots.Each (AddsPublic w.publicInfo id
        (PublishesAlone p batch proceed (w.settledTree .publicInfo)))) _ :=
    Deploy.meets_deployInner_adds hw fun entries r tree he hr hgo ht => ⟨entries, r, he, hr, hgo, ht⟩
  refine ((Deploy.meets_deployInner hv hid hw).and hadds).weaken (fun w' h => ⟨h, h⟩) ?_ ?_
  · rintro deployed w' ⟨h, ha⟩
    cases deployed with
    | false => exact ⟨⟨x, Roots.Steady.mono h fun _ hk => hk.1⟩, unmoved_of_adds hw hid h rfl ha⟩
    | true =>
      have hs := Deploy.DeployedAlone.steady h
      exact ⟨⟨_, hs⟩, movedTo_of_adds hw hid hs rfl ha⟩
  · rintro w' ⟨h | h, ha⟩
    · exact ⟨⟨_, h⟩, Or.inl (unmoved_of_adds hw hid h rfl ha)⟩
    · exact ⟨⟨_, h⟩, Or.inr (movedTo_of_adds hw hid h rfl ha)⟩

/-- However a call ends, the public-info root is at the contents it was at, or at its batch
laid over them. -/
theorem perform_publicInfo (op : DeployOp) (hw : w.Steady x free)
    (hid : ∀ id, op.id? = some id → validGeneration id = true ∧ free id) (faults : List Fault) :
    w.Unmoved (op.perform p faults w).2.2 ∨ ∃ id, op.id? = some id ∧
      (op.perform p faults w).2.2.MovedTo id (op.Publishes p (w.settledTree .publicInfo)) := by
  have hsteady := attempt_steady (p := p) (a := ⟨op, faults⟩) hw hid
  cases op with
  | recover => exact Or.inl (recover_unmoved faults hw)
  | recoverAlone side => exact Or.inl (recoverAlone_unmoved faults hw side)
  | together secrets publicInfo id =>
    obtain ⟨_, hfree⟩ := hid id rfl
    have hadds : Roots.Each (AddsPublic w.publicInfo id
        ((DeployOp.together secrets publicInfo id).Publishes p (w.settledTree .publicInfo)))
        ((DeployOp.together secrets publicInfo id).perform p faults w).2.2 := by
      refine (meets_bind (Deploy.meets_together_adds hw ?_) fun _ => keeps_pure).final faults rfl
      intro entries tree hentries htree
      obtain ⟨batch, hb, hv⟩ := validated_batch hentries
      exact ⟨batch, entries, hb, hv, htree⟩
    rcases hsteady with h | h
    · exact Or.inl (unmoved_of_adds hw hfree h rfl hadds)
    · by_cases ha : asked publicInfo = true
      · exact Or.inr ⟨id, rfl, movedTo_of_adds hw hfree h (if_pos ha) hadds⟩
      · exact Or.inl (unmoved_of_adds hw hfree h (if_neg ha) hadds)
  | publicAlone batch id proceed published =>
    obtain ⟨_, hfree⟩ := hid id rfl
    have hadds : Roots.Each (AddsPublic w.publicInfo id
        ((DeployOp.publicAlone batch id proceed published).Publishes p (w.settledTree .publicInfo)))
        ((DeployOp.publicAlone batch id proceed published).perform p faults w).2.2 := by
      refine (meets_bind (Deploy.meets_deployInner_adds hw ?_) fun _ => keeps_pure).final faults rfl
      intro entries r tree hentries _ _ htree
      exact ⟨batch, entries, rfl, hentries, htree⟩
    rcases hsteady with h | h
    · exact Or.inl (unmoved_of_adds hw hfree h rfl hadds)
    · exact Or.inr ⟨id, rfl, movedTo_of_adds hw hfree h rfl hadds⟩

end Trees

end NixSecrets
