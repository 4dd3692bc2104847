import NixSecrets.ReadyTogether

namespace NixSecrets.Waiter

open Relation Faulty Deploy

/-- The secret root has come from `r₀` by changes that deployments make. -/
def Reaches (contents : String → Tree) (r₀ : Root) : Side → Root → Prop
  | .secrets => ReflTransGen (Change contents) r₀
  | .publicInfo => fun _ => True

section

variable {contents : String → Tree} {r₀ : Root} {id : String}

theorem reaches_change {r r' : Root} (h : ∀ contents, Change contents r r') (side : Side)
    (hr : Reaches contents r₀ side r) : Reaches contents r₀ side r' := by
  cases side with
  | secrets => exact ReflTransGen.tail hr (h contents)
  | publicInfo => exact trivial

/-- Until generation `id` is published, the changes are the same whatever it will hold. -/
def Before (contents : String → Tree) (r₀ : Root) (id : String) (side : Side) (r : Root) : Prop :=
  ∀ tree, Reaches (Function.update contents id tree) r₀ side r

/-- Once it is published, it holds something. -/
def After (contents : String → Tree) (r₀ : Root) (id : String) (side : Side) (r : Root) : Prop :=
  ∃ tree, Reaches (Function.update contents id tree) r₀ side r

theorem Before.after {side : Side} {r : Root} (h : Before contents r₀ id side r) : After contents r₀ id side r :=
  ⟨.empty, h .empty⟩

theorem before_change {r r' : Root} (h : ∀ contents, Change contents r r') (side : Side)
    (hr : Before contents r₀ id side r) : Before contents r₀ id side r' :=
  fun tree => reaches_change h side (hr tree)

theorem after_change {r r' : Root} (h : ∀ contents, Change contents r r') (side : Side)
    (hr : After contents r₀ id side r) : After contents r₀ id side r' := by
  obtain ⟨tree, hr⟩ := hr
  exact ⟨tree, reaches_change h side hr⟩

theorem before_recoveryKeeps (side : Side) : RecoveryKeeps (Before contents r₀ id side) where
  unlinked r id := before_change (fun _ => .unlinked r id) side
  broken r id := before_change (fun _ => .broken r id) side
  erased r id := before_change (fun _ => .erased r id) side
  promoted r id := before_change (fun _ => .promoted r id) side
  made r := before_change (fun _ => .made r) side

theorem after_recoveryKeeps (side : Side) : RecoveryKeeps (After contents r₀ id side) where
  unlinked r id := after_change (fun _ => .unlinked r id) side
  broken r id := after_change (fun _ => .broken r id) side
  erased r id := after_change (fun _ => .erased r id) side
  promoted r id := after_change (fun _ => .promoted r id) side
  made r := after_change (fun _ => .made r) side

theorem before_publicInfo : PreparationKeeps id (Before contents r₀ id .publicInfo) where
  stored _ _ := fun _ => trivial
  staged _ _ _ := fun _ => trivial
  published _ _ _ _ := fun _ => trivial
  linked _ _ _ := fun _ => trivial
  pointed _ _ := fun _ => trivial

theorem after_each {w : Roots} (h : Roots.Each (Before contents r₀ id) w) : Roots.Each (After contents r₀ id) w :=
  fun side => (h side).after

theorem keeps_to_after {α : Type} {m : Deploy α} (h : Keeps (Roots.Each (Before contents r₀ id)) m) :
    Meets (Roots.Each (Before contents r₀ id)) m (fun _ => Roots.Each (Before contents r₀ id))
      (Roots.Each (After contents r₀ id)) :=
  h.weaken (fun _ hw => hw) (fun _ _ hw => hw) fun _ hw => after_each hw

theorem meets_publish_after (tree : Tree) :
    Meets (Roots.Each (Before contents r₀ id)) (publish .secrets id tree)
      (fun _ => Roots.Each (After contents r₀ id)) (Roots.Each (After contents r₀ id)) := by
  refine meets_bind (keeps_to_after (keeps_root .secrets)) fun r => ?_
  refine meets_bind (keeps_to_after keeps_refuseIf) fun _ => ?_
  refine meets_bind (meets_op ?_ fun _ hw => after_each hw) fun _ => keeps_touch
  intro w hw side
  cases side with
  | secrets =>
    refine ⟨tree, ReflTransGen.tail (hw .secrets tree) ?_⟩
    have hpublished : Change (Function.update contents id tree) w.secrets { w.secrets with
        staging := w.secrets.staging.erase id
        generations := w.secrets.generations.insert id { tree := Function.update contents id tree id } } :=
      Change.published w.secrets _ id
    rw [Function.update_self] at hpublished
    exact hpublished
  | publicInfo => exact ⟨.empty, trivial⟩

variable {p : Platform}

theorem meets_prepare_after (entries : List ValidatedSecret) :
    Meets (Roots.Each (Before contents r₀ id)) (prepare p .secrets entries id)
      (fun _ => Roots.Each (After contents r₀ id)) (Roots.Each (After contents r₀ id)) := by
  refine meets_bind (keeps_to_after (keeps_prepareStore fun r => before_change (fun _ => .stored r) .secrets))
    fun _ => ?_
  refine meets_bind (keeps_to_after (keeps_root .secrets)) fun _ => ?_
  refine meets_bind (keeps_to_after keeps_ofExcept) fun _ => ?_
  refine meets_bind (keeps_to_after (keeps_createStaging fun r staging =>
    before_change (fun _ => .staged r staging) .secrets)) fun _ => ?_
  refine meets_bind (keeps_to_after keeps_stage) fun tree => meets_bind (keeps_to_after keeps_touch) fun _ => ?_
  refine meets_bind (meets_publish_after tree) fun _ => ?_
  refine keeps_bind (keeps_each fun service => keeps_prepareServiceLink (fun r service =>
    after_change (fun _ => .linked r service) .secrets) service) fun _ => ?_
  refine keeps_bind keeps_touch fun _ => ?_
  refine keeps_bind (keeps_pointPending fun r => after_change (fun _ => .pointed r id) .secrets) fun _ => ?_
  exact keeps_bind keeps_touch fun _ => keeps_pure

theorem keeps_prune_after (side : Side) (active : String) :
    Keeps (Roots.Each (After contents r₀ id)) (prune side active) := by
  refine keeps_bind (keeps_root side) fun r => ?_
  refine keeps_bind (keeps_each fun _ => keeps_change fun r => after_change (fun _ => .staged r _) side) fun _ => ?_
  exact keeps_bind (keeps_each fun k => keeps_removeGeneration after_recoveryKeeps side k) fun _ => keeps_touch

theorem keeps_switch_after (side : Side) : Keeps (Roots.Each (After contents r₀ id)) (switch side id) :=
  keeps_bind (keeps_change fun r => after_change (fun _ => .promoted r id) side) fun _ => keeps_touch

theorem meets_publishBoth_after (secrets publicInfo : Option (List ValidatedSecret)) :
    Meets (Roots.Each (Before contents r₀ id)) (publishBoth p secrets publicInfo id)
      (fun _ => Roots.Each (After contents r₀ id)) (Roots.Each (After contents r₀ id)) := by
  refine meets_bind (Q := fun _ => Roots.Each (Before contents r₀ id)) ?_ fun before => ?_
  · cases publicInfo with
    | none => exact keeps_to_after keeps_pure
    | some entries => exact keeps_to_after (keeps_mapError (keeps_prepare before_publicInfo entries))
  refine meets_bind (Q := fun _ => Roots.Each (After contents r₀ id)) ?_ fun previous => ?_
  · cases secrets with
    | none => exact (keeps_to_after keeps_pure).weaken (fun _ hw => hw) (fun _ _ hw => after_each hw) fun _ hw => hw
    | some entries =>
      refine meets_bind (meets_mapError (meets_prepare_after entries)) fun _ => ?_
      exact keeps_bind (keeps_mapError (keeps_switch_after .secrets)) fun _ => keeps_pure
  refine keeps_bind (keeps_doIf (keeps_mapError (keeps_switch_after .publicInfo))) fun _ => ?_
  refine keeps_bind (keeps_doIf (keeps_mapError (keeps_prune_after .secrets id))) fun _ => ?_
  exact keeps_bind (keeps_doIf (keeps_mapError (keeps_prune_after .publicInfo id))) fun _ => keeps_pure

theorem keeps_opened_before (secretsBatch publicBatch : Option ResolvedBatch) :
    Keeps (Roots.Each (Before contents r₀ id)) (opened secretsBatch publicBatch) := by
  refine keeps_bind keeps_ofExcept fun _ => keeps_bind keeps_ofExcept fun _ => ?_
  refine keeps_bind keeps_refuseIf fun _ => ?_
  exact keeps_bind (keeps_openBoth before_recoveryKeeps) fun _ => keeps_pure

/-- A deployment changes the secret root only by the changes that a poll is interleaved with, however it ends:
done, refused or in the middle of a crash. -/
theorem together_changes (secretsBatch publicBatch : Option ResolvedBatch) (contents : String → Tree) (id : String)
    (faults : List Fault) (w : Roots) :
    ∃ tree, ReflTransGen (Change (Function.update contents id tree)) w.secrets
      (together p secretsBatch publicBatch id faults w).2.2.secrets := by
  have hstart : Roots.Each (Before contents w.secrets id) w := by
    intro side tree
    cases side with
    | secrets => exact ReflTransGen.refl
    | publicInfo => exact trivial
  have hmeets : Meets (Roots.Each (Before contents w.secrets id)) (together p secretsBatch publicBatch id)
      (fun _ => Roots.Each (After contents w.secrets id)) (Roots.Each (After contents w.secrets id)) := by
    rw [together_eq]
    refine meets_bind (keeps_to_after (keeps_opened_before secretsBatch publicBatch)) fun entries => ?_
    refine meets_bind_attempt (meets_publishBoth_after entries.1 entries.2) (fun _ => keeps_pure) fun _ => ?_
    exact keeps_concluded (fun side => keeps_recoverLocked after_recoveryKeeps side) _
  have hend : Roots.Each (After contents w.secrets id) (together p secretsBatch publicBatch id faults w).2.2 := by
    have h := hmeets faults w hstart
    rcases hrun : together p secretsBatch publicBatch id faults w with ⟨out, rest, w'⟩
    rw [hrun] at h
    cases out with
    | done a => exact h
    | failed e => exact h
    | crashed => exact h
  exact hend .secrets

end

end NixSecrets.Waiter
