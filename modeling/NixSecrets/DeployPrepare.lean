import NixSecrets.DeployRecover

namespace NixSecrets

open Faulty

def stageAll (p : Platform) : List ValidatedSecret → Tree → Except DeployError Tree
  | [], tree => .ok tree
  | entry :: rest, tree => do stageAll p rest (← stageEntry p entry tree)

/-- What a deployment of `entries` publishes over the root as it stands. -/
def Root.staged (p : Platform) (entries : List ValidatedSecret) (r : Root) :
    Except DeployError Tree := do
  let base ← r.cloneCurrent p
  let tree ← stageAll p entries base
  let versions ← r.currentVersions p
  stageVersions p versions entries tree

namespace Deploy

section Prepare

variable {p : Platform} {side : Side} {other r₀ : Root} {commit settled : Option String}
  {free : String → Prop} {id : String}

/-- The names left once `id` is taken. -/
def Without (free : String → Prop) (id : String) : String → Prop := fun k => free k ∧ k ≠ id

theorem meets_prepareRoot :
    Meets (On side other (Root.Steady commit settled free)) (prepareRoot side)
      (fun _ => On side other fun r => r.Steady commit settled free ∧ r.present = true)
      (On side other (Root.Steady commit settled free)) := by
  refine meets_bind_root (fun r h => h) fun r hr => ?_
  refine meets_bind (meets_doIf (fun _ => meets_change ?_ ?_) ?_) fun _ => meets_touch fun w h =>
    ⟨h.1, h.2.1⟩
  · rintro r' rfl
    exact ⟨hr.same_links rfl rfl (fun h => by cases h) (fun _ _ h => h) hr.fresh, rfl⟩
  · rintro r' rfl
    exact hr
  · intro hp w hw
    exact on_of_eq hw ⟨hr, by simpa using hp⟩

/-- While the generation is staged: nothing but the staging directories has changed. -/
structure Staging (commit settled : Option String) (free : String → Prop) (r₀ r : Root) :
    Prop where
  steady : r.Steady commit settled free
  present : r.present = true
  pending : r.pending = ∅
  current : r.current = r₀.current
  generations : r.generations = r₀.generations

theorem Recovered.staging (h : Recovered commit settled free true r₀) :
    Staging commit settled free r₀ r₀ :=
  ⟨h.steady, h.present, h.pending, rfl, rfl⟩

theorem Staging.same {r r' : Root} (h : Staging commit settled free r₀ r)
    (hp : r'.present = r.present) (hl : r'.pending = r.pending) (hc : r'.current = r.current)
    (hg : r'.generations = r.generations) : Staging commit settled free r₀ r' where
  steady := h.steady.same_links hc hl (fun hn => hp ▸ hn)
    (fun k _ hw => Root.whole_of_generations (by rw [hg]) hw) fun k hk => by
      rw [hg]
      exact h.steady.fresh k hk
  present := hp.trans h.present
  pending := hl.trans h.pending
  current := hc.trans h.current
  generations := hg.trans h.generations

theorem Staging.cloneCurrent {r : Root} (h : Staging commit settled free r₀ r) :
    r.cloneCurrent p = r₀.cloneCurrent p := by
  unfold Root.cloneCurrent Root.currentTree Root.currentGeneration
  rw [h.current, h.generations]

theorem Staging.currentVersions {r : Root} (h : Staging commit settled free r₀ r) :
    r.currentVersions p = r₀.currentVersions p := by
  unfold Root.currentVersions Root.currentTree Root.currentGeneration
  rw [h.current, h.generations]

theorem meets_prepareStore :
    Meets (On side other (Staging commit settled free r₀)) (prepareStore side)
      (fun _ => On side other (Staging commit settled free r₀))
      (On side other (Root.Steady commit settled free)) := by
  refine meets_bind_root (fun r h => h.steady) fun r hr => ?_
  refine meets_bind (Q := fun _ => On side other (Staging commit settled free r₀))
    (meets_doIf (fun _ => meets_change ?_ ?_) ?_) fun _ => ?_
  · rintro r' rfl
    exact hr.same rfl rfl rfl rfl
  · rintro r' rfl
    exact hr.steady
  · exact fun _ w hw => on_of_eq hw hr
  · refine meets_bind_root (fun r h => h.steady) fun r' hr' => ?_
    exact meets_ofExcept (fun _ w _ hw => on_of_eq hw hr') fun w hw => on_of_eq hw hr'.steady

theorem meets_createStaging :
    Meets (On side other (Staging commit settled free r₀)) (createStaging side id)
      (fun _ => On side other (Staging commit settled free r₀))
      (On side other (Root.Steady commit settled free)) := by
  refine meets_bind_root (fun r h => h.steady) fun r hr => ?_
  refine meets_bind (meets_refuseIf (fun _ _ hw => hw) fun w hw => on_of_eq hw hr.steady)
    fun _ => ?_
  refine meets_bind (meets_change ?_ ?_) fun _ => meets_touch fun w hw => ⟨hw.1, hw.2.steady⟩
  · rintro r' rfl
    exact hr.same rfl rfl rfl rfl
  · rintro r' rfl
    exact hr.steady

theorem meets_stageEntries {P E : Roots → Prop} (he : ∀ w, P w → E w)
    {entries : List ValidatedSecret} {tree : Tree} :
    Meets P (stageEntries p entries tree)
      (fun staged w => stageAll p entries tree = .ok staged ∧ P w) E := by
  induction entries generalizing tree with
  | nil => exact meets_pure fun w hw => ⟨rfl, hw⟩
  | cons entry rest ih =>
    refine meets_bind (meets_touch he) fun _ => ?_
    refine meets_bind_ofExcept he fun next hnext => ?_
    refine ih.weaken (fun _ h => h) (fun staged w hw => ⟨?_, hw.2⟩) fun _ h => h
    rw [stageAll, hnext]
    exact hw.1

theorem meets_stage {entries : List ValidatedSecret} :
    Meets (On side other (Staging commit settled free r₀)) (stage p side entries)
      (fun tree w => r₀.staged p entries = .ok tree ∧ On side other (Staging commit settled free r₀) w)
      (On side other (Root.Steady commit settled free)) := by
  refine meets_bind_root (fun r h => h.steady) fun r hr => ?_
  refine meets_bind_ofExcept (fun w hw => on_of_eq hw hr.steady) fun base hbase => ?_
  refine meets_bind (meets_stageEntries fun w hw => on_of_eq hw hr.steady) fun tree => ?_
  refine meets_known fun htree => meets_bind_root (fun r' h => h ▸ hr.steady) fun r' hr' => ?_
  subst hr'
  refine meets_bind_ofExcept (fun w hw => on_of_eq hw hr.steady) fun versions hversions => ?_
  refine meets_ofExcept (fun final w' hfinal hw' => ⟨?_, on_of_eq hw' hr⟩)
    fun w hw => on_of_eq hw hr.steady
  rw [hr.cloneCurrent] at hbase
  rw [hr.currentVersions] at hversions
  simp only [Root.staged, except_bind_ok]
  exact ⟨base, hbase, tree, htree, versions, hversions, hfinal⟩

/-- The generation is there under its name; no pointer names it yet. -/
structure Published (commit settled : Option String) (free : String → Prop) (r₀ : Root)
    (id : String) (tree : Tree) (r : Root) : Prop where
  steady : r.Steady commit settled free
  present : r.present = true
  unpointed : ∀ key, ¬ r.Pointer key
  active : r.active = r₀.active
  tree : r.generations[id]? = some ⟨tree, true⟩

theorem meets_publish {tree : Tree} :
    Meets (On side other (Staging commit settled free r₀)) (publish side id tree)
      (fun _ => On side other (Published commit settled (Without free id) r₀ id tree))
      (On side other (Root.Steady commit settled (Without free id))) := by
  have early {r : Root} (h : Staging commit settled free r₀ r) :
      r.Steady commit settled (Without free id) := h.steady.mono fun _ hk => hk.1
  refine meets_bind_root (fun r h => early h) fun r hr => ?_
  refine meets_bind (meets_refuseIf (R := fun w => id ∉ r.generations ∧ On side other (· = r) w)
    (fun w hn hw => ⟨hn, hw⟩) fun w hw => on_of_eq hw (early hr)) fun _ => ?_
  refine meets_known fun hn => meets_bind (meets_change ?_ ?_) fun _ =>
    meets_touch fun w hw => ⟨hw.1, hw.2.steady⟩
  · rintro r' rfl
    refine ⟨hr.steady.publish hn ⟨tree, true⟩ _, hr.present, ?_, ?_, by simp⟩
    · intro key hk
      rw [Root.Pointer, hr.pending] at hk
      simp at hk
    · rw [Root.active, Root.active, hr.current]
  · rintro r' rfl
    exact early hr

theorem addLink_generations (name : String) (target : Target) (r : Root) :
    (r.addLink name target).generations = r.generations ∧
      (r.addLink name target).present = r.present := by
  unfold Root.addLink
  split
  next => exact ⟨rfl, rfl⟩
  next => split <;> exact ⟨rfl, rfl⟩

/-- A service link is never a generation pointer. -/
theorem addLink_pointers {r : Root} {name : String} (hn : r.link? name = none) :
    (r.addLink name (.service name)).active = r.active ∧
      ∀ key, (r.addLink name (.service name)).Pointer key → r.Pointer key := by
  unfold Root.addLink
  unfold Root.link? at hn
  split at hn
  next hc =>
    rw [if_pos hc]
    refine ⟨?_, fun key hk => hk⟩
    rw [Root.active, Root.active, hn]
  next hc =>
    rw [if_neg hc]
    split at hn
    next k hk =>
      refine ⟨rfl, fun key hkey => ?_⟩
      rw [Root.Pointer, Std.ExtTreeMap.getElem?_insert] at hkey
      split at hkey
      next => cases hkey
      next => exact hkey
    next => exact ⟨rfl, fun key hk => hk⟩

theorem meets_prepareServiceLink {tree : Tree} {service : String} :
    Meets (On side other (Published commit settled free r₀ id tree))
      (prepareServiceLink side service)
      (fun _ => On side other (Published commit settled free r₀ id tree))
      (On side other (Root.Steady commit settled free)) := by
  refine meets_bind (meets_refuseIf (fun _ _ hw => hw) fun w hw => ⟨hw.1, hw.2.steady⟩) fun _ => ?_
  refine meets_bind_root (fun r h => h.steady) fun r hr => ?_
  cases hl : r.link? service with
  | some target =>
    exact meets_refuseIf (fun _ _ hw => on_of_eq hw hr) fun w hw => on_of_eq hw hr.steady
  | none =>
    refine meets_change ?_ ?_
    · rintro r' rfl
      obtain ⟨hg, hp⟩ := addLink_generations service (.service service) r'
      obtain ⟨ha, hk⟩ := addLink_pointers hl
      exact ⟨hr.steady.addLink hr.present hl, hp.trans hr.present,
        fun key h => hr.unpointed key (hk key h), ha.trans hr.active, by rw [hg]; exact hr.tree⟩
    · rintro r' rfl
      exact hr.steady

/-- The generation is published and `.current-<id>` is the one pointer that waits. -/
structure Prepared (commit settled : Option String) (free : String → Prop) (r₀ : Root)
    (id : String) (tree : Tree) (r : Root) : Prop where
  steady : r.Steady commit settled free
  present : r.present = true
  pointer : r.Pointer id
  only : ∀ key, r.Pointer key → key = id
  active : r.active = r₀.active
  tree : r.generations[id]? = some ⟨tree, true⟩

theorem meets_pointPending {tree : Tree} (hv : validGeneration id = true) (hc : commit ≠ some id) :
    Meets (On side other (Published commit settled free r₀ id tree)) (pointPending side id)
      (fun _ => On side other (Prepared commit settled free r₀ id tree))
      (On side other (Root.Steady commit settled free)) := by
  refine meets_bind_root (fun r h => h.steady) fun r hr => ?_
  refine meets_bind (meets_refuseIf (fun _ _ hw => hw) fun w hw => on_of_eq hw hr.steady)
    fun _ => ?_
  refine meets_bind (meets_change ?_ ?_) fun _ => meets_touch fun w hw => ⟨hw.1, hw.2.steady⟩
  · rintro r' rfl
    refine ⟨hr.steady.point hc hr.present ⟨hv, tree, hr.tree⟩, hr.present, ?_, ?_, hr.active,
      hr.tree⟩
    · simp [Root.Pointer]
    · intro key hk
      rw [Root.Pointer, Std.ExtTreeMap.getElem?_insert] at hk
      split at hk
      next he => exact (Std.LawfulEqOrd.eq_of_compare he).symm
      next => exact (hr.unpointed key hk).elim
  · rintro r' rfl
    exact hr.steady

/-- Preparing leaves the root where it was to settle, however it ends; done, it leaves the
new generation behind its pending pointer. -/
theorem meets_prepare {entries : List ValidatedSecret} (hv : validGeneration id = true)
    (hc : commit ≠ some id) (hr : Recovered commit settled free true r₀) :
    Meets (On side other (· = r₀)) (prepare p side entries id)
      (fun previous w => r₀.currentVersions p = .ok previous ∧ ∃ tree,
        r₀.staged p entries = .ok tree ∧
          On side other (Prepared commit settled (Without free id) r₀ id tree) w)
      (On side other (Root.Steady commit settled (Without free id))) := by
  have early (w : Roots) (h : On side other (Root.Steady commit settled free) w) :
      On side other (Root.Steady commit settled (Without free id)) w :=
    ⟨h.1, h.2.mono fun _ hk => hk.1⟩
  have staged (w : Roots) (h : On side other (Staging commit settled free r₀) w) :
      On side other (Root.Steady commit settled (Without free id)) w := early w ⟨h.1, h.2.steady⟩
  refine meets_bind (meets_prepareStore.weaken (fun w hw => on_of_eq hw hr.staging)
    (fun _ _ h => h) early) fun _ => ?_
  refine meets_bind_root (fun r h => h.steady.mono fun _ hk => hk.1) fun r hs => ?_
  refine meets_bind_ofExcept (fun w hw => staged w (on_of_eq hw hs)) fun previous hprevious => ?_
  rw [hs.currentVersions] at hprevious
  refine meets_bind (meets_createStaging.weaken (fun w hw => on_of_eq hw hs) (fun _ _ h => h) early)
    fun _ => meets_bind (meets_stage.weaken (fun _ h => h) (fun _ _ h => h) early) fun tree => ?_
  refine meets_known fun htree => meets_bind (meets_touch staged) fun _ =>
    meets_bind meets_publish fun _ => ?_
  have published (w : Roots)
      (h : On side other (Published commit settled (Without free id) r₀ id tree) w) :
      On side other (Root.Steady commit settled (Without free id)) w := ⟨h.1, h.2.steady⟩
  refine meets_bind (meets_each (I := fun _ =>
    On side other (Published commit settled (Without free id) r₀ id tree))
    fun service _ => meets_prepareServiceLink) fun _ => ?_
  refine meets_bind (meets_touch published) fun _ => meets_bind (meets_pointPending hv hc) fun _ => ?_
  refine meets_bind (meets_touch fun w hw => ⟨hw.1, hw.2.steady⟩) fun _ => ?_
  exact meets_pure fun w hw => ⟨hprevious, tree, htree, hw⟩

end Prepare

end Deploy

end NixSecrets
