import NixSecrets.DeployTogether

namespace NixSecrets

open Faulty

/-- `R` holds of the name and the contents of every generation. -/
def Root.Holds (R : String → Tree → Prop) (r : Root) : Prop :=
  ∀ (id : String) g, r.generations[id]? = some g → R id g.tree

theorem Root.Holds.same {R : String → Tree → Prop} {r r' : Root} (h : r.Holds R)
    (hg : r'.generations = r.generations) : r'.Holds R := by
  intro id g hid
  rw [hg] at hid
  exact h id g hid

theorem Root.Holds.broken {R : String → Tree → Prop} {r : Root} (h : r.Holds R) (id : String) :
    { r with generations :=
      r.generations.modify id fun generation => { generation with whole := false } }.Holds R := by
  intro k g hk
  rw [Std.ExtTreeMap.getElem?_modify] at hk
  split at hk
  next he =>
    have heq := Std.LawfulEqOrd.eq_of_compare he
    subst heq
    obtain ⟨g', hg', rfl⟩ := Option.map_eq_some_iff.mp hk
    exact h id g' hg'
  next => exact h k g hk

theorem Root.Holds.erased {R : String → Tree → Prop} {r : Root} (h : r.Holds R) (id : String) :
    { r with generations := r.generations.erase id }.Holds R := by
  intro k g hk
  rw [Std.ExtTreeMap.getElem?_erase] at hk
  split at hk
  next => cases hk
  next => exact h k g hk

theorem Root.Holds.inserted {R : String → Tree → Prop} {r : Root} (h : r.Holds R) {id : String}
    {tree : Tree} (ht : R id tree) (staging : BTreeSet String) :
    { r with staging, generations := r.generations.insert id { tree } }.Holds R := by
  intro k g hk
  rw [Std.ExtTreeMap.getElem?_insert] at hk
  split at hk
  next he =>
    have heq := Std.LawfulEqOrd.eq_of_compare he
    subst heq
    have hg := Option.some.inj hk
    subst hg
    exact ht
  next => exact h k g hk

/-- Every generation of `r` was one of `r₀`, with the same contents. -/
def Root.Shrunk (r₀ r : Root) : Prop :=
  ∀ (id : String) g, r.generations[id]? = some g →
    ∃ g₀, r₀.generations[id]? = some g₀ ∧ g₀.tree = g.tree

theorem Root.Shrunk.refl (r : Root) : r.Shrunk r := fun _ g h => ⟨g, h, rfl⟩

theorem Root.promote_generations (id : String) (r : Root) :
    (r.promote id).generations = r.generations := by
  unfold Root.promote
  split <;> rfl

/-- What holds of each root by itself. -/
def Roots.Each (I : Side → Root → Prop) (w : Roots) : Prop := ∀ side, I side (w.at side)

namespace Deploy

/-- Nothing that recovery does to a root takes it out of `I`. -/
structure RecoveryKeeps (I : Root → Prop) : Prop where
  unlinked : ∀ (r : Root) (id : String), I r → I { r with pending := r.pending.erase id }
  broken : ∀ (r : Root) (id : String), I r → I { r with
    generations := r.generations.modify id fun generation => { generation with whole := false } }
  erased : ∀ (r : Root) (id : String), I r → I { r with generations := r.generations.erase id }
  promoted : ∀ (r : Root) (id : String), I r → I (r.promote id)
  made : ∀ r : Root, I r → I { r with present := true }

section Each

variable {I : Side → Root → Prop}

theorem keeps_change {side : Side} {f : Root → Root} (h : ∀ r, I side r → I side (f r)) :
    Keeps (Roots.Each I) (change side f) := by
  refine keeps_op fun w hw s => ?_
  cases side <;> cases s
  · exact h _ (hw .secrets)
  · exact hw .publicInfo
  · exact hw .secrets
  · exact h _ (hw .publicInfo)

theorem keeps_touch {P : Roots → Prop} : Keeps P touch := keeps_op fun _ h => h

theorem keeps_root {P : Roots → Prop} (side : Side) : Keeps P (root side) :=
  (meets_root fun _ h => h).weaken (fun _ h => h) (fun _ _ h => h.2) fun _ h => h

variable (hI : ∀ side, RecoveryKeeps (I side))
include hI

theorem keeps_removeGeneration (side : Side) (id : String) :
    Keeps (Roots.Each I) (removeGeneration side id) :=
  keeps_bind (keeps_change fun r h => (hI side).broken r id h) fun _ =>
    keeps_change fun r h => (hI side).erased r id h

theorem keeps_discard (side : Side) (current : Option String) (id : String) :
    Keeps (Roots.Each I) (discard side current id) :=
  keeps_bind (keeps_change fun r h => (hI side).unlinked r id h) fun _ =>
    keeps_bind (keeps_root side) fun _ => keeps_doIf (keeps_removeGeneration hI side id)

theorem keeps_forward (side : Side) (id : String) : Keeps (Roots.Each I) (forward side id) := by
  refine keeps_bind (keeps_root side) fun _ => keeps_bind keeps_refuseIf fun _ => ?_
  exact keeps_bind (keeps_change fun r h => (hI side).promoted r id h) fun _ => keeps_touch

omit hI in
theorem keeps_committed {P : Roots → Prop} (side : Side) : Keeps P (committed side) := by
  cases side with
  | secrets => exact keeps_pure
  | publicInfo => exact keeps_bind (keeps_root .secrets) fun _ => keeps_ofExcept

theorem keeps_recoverLocked (side : Side) : Keeps (Roots.Each I) (recoverLocked side) := by
  refine keeps_mapError (keeps_bind (keeps_committed side) fun committed => ?_)
  refine keeps_bind (keeps_root side) fun _ => keeps_bind keeps_ofExcept fun current => ?_
  refine keeps_bind (keeps_root side) fun _ => keeps_bind keeps_ofExcept fun ids => ?_
  refine keeps_bind (keeps_each fun id => keeps_discard hI side current id) fun _ => ?_
  refine keeps_bind (keeps_doIf (keeps_bind keeps_touch fun _ => keeps_touch)) fun _ => ?_
  cases committed with
  | none => exact keeps_pure
  | some id => exact keeps_doIf (keeps_forward hI side id)

theorem keeps_prepareRoot (side : Side) : Keeps (Roots.Each I) (prepareRoot side) :=
  keeps_bind (keeps_root side) fun _ =>
    keeps_bind (keeps_doIf (keeps_change fun r h => (hI side).made r h)) fun _ => keeps_touch

theorem keeps_openBoth : Keeps (Roots.Each I) openBoth := by
  refine keeps_bind (keeps_mapError (keeps_prepareRoot hI .secrets)) fun _ => ?_
  refine keeps_bind (keeps_mapError (keeps_prepareRoot hI .publicInfo)) fun _ => ?_
  refine keeps_bind (keeps_mapError keeps_touch) fun _ => ?_
  refine keeps_bind (keeps_mapError keeps_touch) fun _ => ?_
  exact keeps_bind (keeps_recoverLocked hI .secrets) fun _ => keeps_recoverLocked hI .publicInfo

end Each

theorem holds_recoveryKeeps (R : String → Tree → Prop) : RecoveryKeeps (Root.Holds R) where
  unlinked _ _ h := h.same rfl
  broken _ id h := h.broken id
  erased _ id h := h.erased id
  promoted r id h := h.same (Root.promote_generations id r)
  made _ h := h.same rfl

/-- Neither root has gained or changed a generation. -/
theorem shrunk_recoveryKeeps (w₀ : Roots) (side : Side) : RecoveryKeeps (w₀.at side).Shrunk :=
  holds_recoveryKeeps fun id tree =>
    ∃ g₀, (w₀.at side).generations[id]? = some g₀ ∧ g₀.tree = tree

end Deploy

end NixSecrets
