import NixSecrets.DeployKeeps

namespace NixSecrets

open Faulty

/-- Whether a batch of a joint deployment has anything to deploy. -/
def asked (batch : Option ResolvedBatch) : Bool := batch.any (· ≠ [])

/-- Where a joint deployment takes both roots. -/
def Settled.joint (x : Settled) (secrets publicInfo : Option ResolvedBatch) (id : String) : Settled :=
  (Deploy.moved (asked secrets) id x.1, Deploy.moved (asked publicInfo) id x.2)

theorem Roots.Steady.mono {x : Settled} {free free' : String → Prop} {w : Roots}
    (h : w.Steady x free) (hf : ∀ k, free' k → free k) : w.Steady x free' :=
  ⟨h.1.mono hf, h.2.mono hf⟩

namespace Deploy

section Atomic

variable {p : Platform} {x y : Settled} {free : String → Prop} {id : String} {w₀ : Roots}

theorem validated_isSome {batch : Option ResolvedBatch} {side : Side}
    {entries : Option (List ValidatedSecret)} (h : validated batch side = .ok entries) :
    entries.isSome = asked batch := by
  unfold validated at h
  split at h
  next spec rest =>
    rw [except_mapError_ok] at h
    cases hv : validate (spec :: rest) with
    | error e => rw [hv] at h; cases h
    | ok es => rw [hv] at h; cases h; rfl
  next hn =>
    cases h
    match batch with
    | none => rfl
    | some [] => rfl
    | some (spec :: rest) => exact (hn spec rest rfl).elim

/-- Recovering either root moves neither from where it settles. -/
theorem meets_recoverLocked_steady (side : Side) :
    Meets (Roots.Steady x free) (recoverLocked side) (fun _ => Roots.Steady x free)
      (Roots.Steady x free) := by
  intro faults w hw
  cases side with
  | secrets =>
    exact meets_recover_secrets.weaken (fun _ h => h) (fun _ _ h => ⟨h.1.steady, h.2⟩)
      (fun _ h => h) faults w ⟨⟨hw.1, rfl⟩, hw.2⟩
  | publicInfo =>
    exact (meets_recover_publicInfo fun _ h => h.settles).weaken (fun _ h => h)
      (fun _ _ h => ⟨h.1, h.2.steady⟩) (fun _ h => h) faults w ⟨hw.1, hw.2, rfl⟩

/-- What a failed deployment does before it reports the failure. -/
theorem meets_cleanup (side : Side) :
    Meets (fun w => Roots.Steady x free w ∨ Roots.Steady y free w) (recoverLocked side).attempt
      (fun _ w => Roots.Steady x free w ∨ Roots.Steady y free w)
      (fun w => Roots.Steady x free w ∨ Roots.Steady y free w) := by
  refine meets_attempt (Q := fun _ w => Roots.Steady x free w ∨ Roots.Steady y free w) ?_
    (fun _ _ h => h) fun _ _ h => h
  intro faults w hw
  rcases hw with hw | hw
  · exact (meets_recoverLocked_steady side).weaken (fun _ h => h) (fun _ _ h => Or.inl h)
      (fun _ h => Or.inl h) faults w hw
  · exact (meets_recoverLocked_steady side).weaken (fun _ h => h) (fun _ _ h => Or.inr h)
      (fun _ h => Or.inr h) faults w hw

theorem fresh_ne {settled : Option String} {r : Root} (h : r.Steady none settled free)
    (hid : free id) : settled ≠ some id := by
  intro he
  have ha : r.active = some id := h.settles.trans he
  exact h.fresh id hid (h.sound.current id ha).mem

/-- What a joint deployment that reports success has done to the roots `w₀`. -/
def JointlyDeployed (p : Platform) (x : Settled) (free : String → Prop) (w₀ : Roots)
    (secretsBatch publicBatch : Option ResolvedBatch) (id : String)
    (previous : BTreeMap String String) (w : Roots) : Prop :=
  ∃ secrets publicInfo rs rp, validated secretsBatch .secrets = .ok secrets ∧
    validated publicBatch .publicInfo = .ok publicInfo ∧ Recovered none x.1 free true rs ∧
    Recovered x.1 x.2 free true rp ∧ w₀.secrets.Shrunk rs ∧ w₀.publicInfo.Shrunk rp ∧
    DeployedBoth p (Without free id) rs rp id (moved secrets.isSome id x.1) secrets publicInfo
      previous w

/-- What a joint deployment does before it prepares anything. -/
def opened (secretsBatch publicBatch : Option ResolvedBatch) :
    Deploy (Option (List ValidatedSecret) × Option (List ValidatedSecret)) := do
  let secrets ← Faulty.ofExcept (validated secretsBatch .secrets)
  let publicInfo ← Faulty.ofExcept (validated publicBatch .publicInfo)
  Faulty.refuseIf (secrets.isNone ∧ publicInfo.isNone) (.invalid "deployment is empty")
  openBoth
  return (secrets, publicInfo)

/-- Recovers both roots before a failure is reported. -/
def concluded : Except DeployError (BTreeMap String String) → Deploy (BTreeMap String String)
  | .ok previous => pure previous
  | .error e => do
    let _ ← (recoverLocked .secrets).attempt
    let _ ← (recoverLocked .publicInfo).attempt
    Faulty.throw e

theorem together_eq (secretsBatch publicBatch : Option ResolvedBatch) :
    together p secretsBatch publicBatch id = opened secretsBatch publicBatch >>= fun entries =>
      (publishBoth p entries.1 entries.2 id).attempt >>= concluded := by
  simp only [together, opened, bind_assoc, pure_bind]
  rfl

theorem meets_opened {I : Side → Root → Prop} {secretsBatch publicBatch : Option ResolvedBatch}
    (hI : ∀ side, RecoveryKeeps (I side)) :
    Meets (fun w => Roots.Steady x free w ∧ Roots.Each I w) (opened secretsBatch publicBatch)
      (fun entries w => (validated secretsBatch .secrets = .ok entries.1 ∧
        validated publicBatch .publicInfo = .ok entries.2 ∧
        ¬ (entries.1.isNone = true ∧ entries.2.isNone = true)) ∧
        Split (Recovered none x.1 free true) (Recovered x.1 x.2 free true) w ∧ Roots.Each I w)
      (fun w => Roots.Steady x free w ∧ Roots.Each I w) := by
  refine meets_bind_ofExcept (fun _ h => h) fun secrets hsecrets => ?_
  refine meets_bind_ofExcept (fun _ h => h) fun publicInfo hpublic => ?_
  refine meets_bind (meets_refuseIf (R := fun w => ¬ (secrets.isNone = true ∧
    publicInfo.isNone = true) ∧ Roots.Steady x free w ∧ Roots.Each I w) (fun _ hn h => ⟨hn, h⟩)
      fun _ h => h) fun _ => meets_known fun hne => ?_
  refine meets_bind (meets_openBoth.and (keeps_openBoth hI)) fun _ => meets_pure fun w h => ?_
  exact ⟨⟨hsecrets, hpublic, hne⟩, h⟩

/-- However a joint deployment ends, both roots settle where they did or both where it
takes them. -/
theorem meets_together {secretsBatch publicBatch : Option ResolvedBatch}
    (hv : validGeneration id = true) (hid : free id) (hw₀ : w₀.Steady x free) :
    Meets (· = w₀) (together p secretsBatch publicBatch id)
      (JointlyDeployed p x free w₀ secretsBatch publicBatch id)
      (fun w => Roots.Steady x (Without free id) w ∨
        Roots.Steady (x.joint secretsBatch publicBatch id) (Without free id) w) := by
  have early (w : Roots) (h : Roots.Steady x free w) : Roots.Steady x (Without free id) w ∨
      Roots.Steady (x.joint secretsBatch publicBatch id) (Without free id) w :=
    Or.inl (h.mono fun _ hk => hk.1)
  rw [together_eq]
  refine meets_bind ((meets_opened (shrunk_recoveryKeeps w₀)).weaken ?_ (fun _ _ h => h)
    fun w h => early w h.1) fun entries => meets_pointwise fun w hw => ?_
  · rintro w rfl
    exact ⟨hw₀, fun side => Root.Shrunk.refl _⟩
  obtain ⟨secrets, publicInfo⟩ := entries
  obtain ⟨⟨hsecrets, hpublic, hne⟩, hw, hshrunk⟩ := hw
  have hpublish : Meets (Split (· = w.secrets) (· = w.publicInfo))
      (publishBoth p secrets publicInfo id)
      (DeployedBoth p (Without free id) w.secrets w.publicInfo id (moved secrets.isSome id x.1)
        secrets publicInfo) (fun w => Roots.Steady x (Without free id) w ∨ Roots.Steady
        (moved secrets.isSome id x.1, moved publicInfo.isSome id x.2) (Without free id) w) :=
    meets_publishBoth hne hv (fresh_ne hw.1.steady hid) hw.1 hw.2
  rw [validated_isSome hsecrets, validated_isSome hpublic] at hpublish
  refine meets_bind_attempt (hpublish.weaken (fun w' h => h ▸ ⟨rfl, rfl⟩) (fun _ _ h => h)
    fun _ h => h) (fun previous => meets_pure fun w' h => ?_) fun e => ?_
  · refine ⟨secrets, publicInfo, w.secrets, w.publicInfo, hsecrets, hpublic, hw.1, hw.2, hshrunk .secrets,
      hshrunk .publicInfo, ?_⟩
    rw [validated_isSome hsecrets]
    exact h
  · exact meets_bind (meets_cleanup .secrets) fun _ => meets_bind (meets_cleanup .publicInfo)
      fun _ => meets_throw fun _ h => h

theorem JointlyDeployed.steady {secretsBatch publicBatch : Option ResolvedBatch}
    {previous : BTreeMap String String} {w : Roots}
    (h : JointlyDeployed p x free w₀ secretsBatch publicBatch id previous w) :
    Roots.Steady (x.joint secretsBatch publicBatch id) (Without free id) w := by
  obtain ⟨secrets, publicInfo, rs, rp, hs, hp, hrs, hrp, _, _, hd⟩ := h
  have hjoint : x.joint secretsBatch publicBatch id =
      (moved secrets.isSome id x.1, moved publicInfo.isSome id x.2) := by
    rw [validated_isSome hs, validated_isSome hp]
    rfl
  rw [hjoint]
  exact ⟨hd.secrets.steady hrs, hd.publicInfo.steady hrp⟩

/-- What a deployment into the public-info root alone that reports success has done. -/
def DeployedAlone (p : Platform) (x : Settled) (free : String → Prop) (w₀ : Roots) (batch : ResolvedBatch)
    (id : String) (w : Roots) : Prop :=
  w.secrets.Steady none x.1 free ∧ ∃ entries rp tree, validate batch = .ok entries ∧
    Recovered x.1 x.2 free true rp ∧ w₀.publicInfo.Shrunk rp ∧ rp.staged p entries = .ok tree ∧
    Switched x.1 (Without free id) id tree w.publicInfo

theorem meets_publishAlone {entries : List ValidatedSecret} {rp : Root}
    (hv : validGeneration id = true) (hc : x.1 ≠ some id) (hrp : Recovered x.1 x.2 free true rp) :
    Meets (Split (Root.Steady none x.1 free) (· = rp)) (publishAlone p .publicInfo entries id)
      (fun _ => Split (Root.Steady none x.1 free) fun r => ∃ tree,
        rp.staged p entries = .ok tree ∧ Switched x.1 (Without free id) id tree r)
      (fun w => Roots.Steady x (Without free id) w ∨
        Roots.Steady (x.1, some id) (Without free id) w) := by
  have inner : Meets (Split (Root.Steady none x.1 free) (· = rp))
      (do
        let _ ← prepare p .publicInfo entries id
        switch .publicInfo id
        prune .publicInfo id)
      (fun _ => Split (Root.Steady none x.1 free) fun r => ∃ tree,
        rp.staged p entries = .ok tree ∧ Switched x.1 (Without free id) id tree r)
      (Split (Root.Steady none x.1 free) fun r => r.Steady x.1 x.2 (Without free id) ∨
        r.Steady x.1 (some id) (Without free id)) := by
    refine meets_publicInfo fun other _ => ?_
    refine meets_bind ((meets_prepare hv hc hrp).weaken (fun _ h => h) (fun _ _ h => h)
      fun w h => ⟨h.1, Or.inl h.2⟩) fun _ => meets_known fun _ => meets_exists fun tree => ?_
    refine meets_known fun ht => meets_bind meets_switch fun _ => ?_
    exact meets_prune.weaken (fun _ h => h) (fun _ w h => ⟨h.1, tree, ht, h.2⟩)
      fun w h => ⟨h.1, Or.inr h.2⟩
  refine meets_bind_attempt (inner.weaken (fun _ h => h) (fun _ _ h => h) fun w h => ?_)
    (fun _ => meets_pure fun _ h => h) fun e => ?_
  · have hs : w.secrets.Steady none x.1 (Without free id) := h.1.mono fun _ hk => hk.1
    exact h.2.imp (fun hp => ⟨hs, hp⟩) fun hp => ⟨hs, hp⟩
  · exact meets_bind (meets_cleanup .publicInfo) fun _ => meets_throw fun _ h => h

theorem meets_deployInner {batch : ResolvedBatch} {proceed : Root → Except DeployError Bool}
    {published : Root → Except DeployError Unit} (hv : validGeneration id = true) (hid : free id)
    (hw₀ : w₀.Steady x free) :
    Meets (· = w₀) (deployInner p .publicInfo batch id proceed published)
      (fun deployed w => if deployed then DeployedAlone p x free w₀ batch id w
        else Roots.Steady x free w)
      (fun w => Roots.Steady x (Without free id) w ∨
        Roots.Steady (x.1, some id) (Without free id) w) := by
  have early (w : Roots) (h : Roots.Steady x free w) : Roots.Steady x (Without free id) w ∨
      Roots.Steady (x.1, some id) (Without free id) w := Or.inl (h.mono fun _ hk => hk.1)
  refine meets_bind_ofExcept (fun w h => early w (h ▸ hw₀)) fun entries hentries => ?_
  refine meets_bind (((meets_publicInfo fun _ _ => meets_prepareRoot).and
    (keeps_prepareRoot (shrunk_recoveryKeeps w₀) .publicInfo)).weaken ?_ (fun _ _ h => h) fun w h => early w h.1) fun _ => ?_
  · rintro w rfl
    exact ⟨hw₀, fun side => Root.Shrunk.refl _⟩
  refine meets_bind (meets_touch fun w h => early w ⟨h.1.1, h.1.2.1⟩) fun _ => ?_
  refine meets_bind (((meets_recover_publicInfo fun _ h => h.settles).and
    (keeps_recoverLocked (shrunk_recoveryKeeps w₀) .publicInfo)).weaken (fun _ h => h) (fun _ _ h => h)
      fun w h => early w h.1) fun _ => ?_
  refine meets_pointwise fun w hw => ?_
  obtain ⟨hw, hshrunk⟩ := hw
  have hw' (w' : Roots) (h : Split (Root.Steady none x.1 free) (· = w.publicInfo) w') :
      Roots.Steady x free w' :=
    ⟨h.1, by rw [show w'.publicInfo = w.publicInfo from h.2]; exact hw.2.steady⟩
  have opened : Meets (· = w) (root .publicInfo)
      (fun _ => Split (Root.Steady none x.1 free) (· = w.publicInfo))
      (fun w' => Roots.Steady x (Without free id) w' ∨
        Roots.Steady (x.1, some id) (Without free id) w') := by
    refine (meets_root (E := (· = w)) fun _ h => h).weaken (fun _ h => h) ?_ ?_
    · rintro r w' ⟨_, rfl⟩
      exact ⟨hw.1, rfl⟩
    · rintro w' rfl
      exact early w' ⟨hw.1, hw.2.steady⟩
  refine meets_bind opened fun r => ?_
  refine meets_bind_ofExcept (fun w' h => early w' (hw' w' h)) fun go _ => ?_
  cases go with
  | false => exact meets_pure fun w' h => hw' w' h
  | true =>
    have failed (w' : Roots) (h : Split (Root.Steady none x.1 free) (fun r => ∃ tree,
        w.publicInfo.staged p entries = .ok tree ∧ Switched x.1 (Without free id) id tree r) w') :
        Roots.Steady x (Without free id) w' ∨ Roots.Steady (x.1, some id) (Without free id) w' := by
      obtain ⟨hs, tree, _, hp⟩ := h
      exact Or.inr ⟨hs.mono fun _ hk => hk.1, hp.steady⟩
    refine meets_bind (meets_publishAlone hv (fresh_ne hw.1 hid) hw.2) fun _ => ?_
    refine meets_bind (meets_root failed) fun r => ?_
    refine meets_bind_ofExcept (fun w' h => failed w' h.2) fun _ _ => meets_pure fun w' h => ?_
    obtain ⟨_, hs, tree, ht, hp⟩ := h
    exact ⟨hs, entries, w.publicInfo, tree, hentries, hw.2, hshrunk .publicInfo, ht, hp⟩

theorem DeployedAlone.steady {batch : ResolvedBatch} {w : Roots}
    (h : DeployedAlone p x free w₀ batch id w) :
    Roots.Steady (x.1, some id) (Without free id) w := by
  obtain ⟨hs, entries, rp, tree, _, _, _, _, hp⟩ := h
  exact ⟨hs.mono fun _ hk => hk.1, hp.steady⟩

/-- A root that recovery has nothing to do in. -/
def AtRest (commit settled : Option String) (free : String → Prop) (r : Root) : Prop :=
  Recovered commit settled free r.present r

theorem Recovered.atRest {commit settled : Option String} {present : Bool} {r : Root}
    (h : Recovered commit settled free present r) : AtRest commit settled free r :=
  ⟨h.steady, rfl, h.pending, h.current⟩

theorem meets_lockExisting {P E : Roots → Prop} (side : Side) (he : ∀ w, P w → E w) :
    Meets P (lockExisting side) (fun present w => (w.at side).present = present ∧ P w) E := by
  refine meets_bind (meets_root he) fun r => ?_
  refine meets_bind (meets_doIf (fun _ => meets_touch fun w h => he w h.2) fun _ _ h => h) fun _ => ?_
  refine meets_pure fun w h => ⟨?_, h.2⟩
  rw [h.1]

theorem atRest_of_absent {commit settled : Option String} {r : Root}
    (h : r.Steady commit settled free) (hp : r.present = false) : AtRest commit settled free r := by
  obtain ⟨hc, hn⟩ := h.sound.absent hp
  refine ⟨h, rfl, hn, ?_⟩
  rw [Root.currentGeneration, Root.active, hc]

/-- Recovery moves neither root from where it settles, and takes both there. -/
theorem meets_recover :
    Meets (Roots.Steady x free) recover
      (fun _ => Split (AtRest none x.1 free) (AtRest x.1 x.2 free)) (Roots.Steady x free) := by
  refine meets_bind (meets_lockExisting .secrets fun _ h => h) fun secrets => ?_
  refine meets_bind (meets_lockExisting .publicInfo fun _ h => h.2) fun publicInfo => ?_
  refine meets_bind (Q := fun _ => Split (AtRest none x.1 free) fun r =>
    r.Steady x.1 x.2 free ∧ r.present = publicInfo) ?_ fun _ => ?_
  · refine meets_doIf (fun _ => ?_) fun hn w h => ?_
    · exact (meets_recover_secrets (B := fun r => r.Steady x.1 x.2 free ∧
        r.present = publicInfo)).weaken (fun w h => ⟨⟨h.2.2.1, h.2.1⟩, h.2.2.2, h.1⟩)
          (fun _ w h => ⟨h.1.atRest, h.2⟩) fun w h => ⟨h.1, h.2.1⟩
    · have hs : w.secrets.present = false := h.2.1.trans (by simpa using hn)
      exact ⟨atRest_of_absent h.2.2.1 hs, h.2.2.2, h.1⟩
  · refine meets_doIf (fun _ => ?_) fun hn w h => ?_
    · exact (meets_recover_publicInfo fun _ h => h.steady.settles).weaken (fun w h => h)
        (fun _ w h => ⟨h.1, h.2.atRest⟩) fun w h => ⟨h.1.steady, h.2⟩
    · have hs : w.publicInfo.present = false := h.2.2.trans (by simpa using hn)
      exact ⟨h.1, atRest_of_absent h.2.1 hs⟩

end Atomic

end Deploy

end NixSecrets
