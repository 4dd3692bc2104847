import NixSecrets.DeployOutcome

namespace NixSecrets

open Faulty

/-- No pointer waits but that of `id`. -/
def Root.OnlyPending (id : String) (r : Root) : Prop := ∀ key, r.Pointer key → key = id

theorem Root.OnlyPending.same {id : String} {r r' : Root} (h : r.OnlyPending id)
    (hp : r'.pending = r.pending) : r'.OnlyPending id := by
  intro key hkey
  apply h key
  rw [Pointer, ← hp]
  exact hkey

theorem Root.OnlyPending.unlinked {id : String} {r : Root} (h : r.OnlyPending id) (k : String) :
    { r with pending := r.pending.erase k }.OnlyPending id := by
  intro key hkey
  apply h key
  have he : (r.pending.erase k)[key]? = some (.generation key) := hkey
  rw [Std.ExtTreeMap.getElem?_erase] at he
  split at he
  next => cases he
  next => exact he

theorem Root.OnlyPending.insert {id k : String} {r r' : Root} {target : Target}
    (h : r.OnlyPending id) (hp : r'.pending = r.pending.insert k target)
    (hk : target = .generation k → k = id) : r'.OnlyPending id := by
  intro key hkey
  rw [Pointer, hp, Std.ExtTreeMap.getElem?_insert] at hkey
  split at hkey
  next he =>
    have heq := Std.LawfulEqOrd.eq_of_compare he
    subst heq
    exact hk (Option.some.inj hkey)
  next => exact h key hkey

theorem Root.OnlyPending.addLink {id : String} {r : Root} (h : r.OnlyPending id) (name : String) :
    (r.addLink name (.service name)).OnlyPending id := by
  unfold Root.addLink
  split
  next => exact h.same rfl
  next =>
    split
    next key _ => exact h.insert rfl fun he => by cases he
    next => exact h.same rfl

namespace Deploy

/-- Nothing that preparing a deployment of `id` does to a root takes it out of `I`. -/
structure PreparationKeeps (id : String) (I : Root → Prop) : Prop where
  stored : ∀ r : Root, I r → I { r with store := true }
  staged : ∀ (r : Root) (staging : BTreeSet String), I r → I { r with staging }
  published : ∀ (r : Root) (staging : BTreeSet String) (generation : Generation), I r →
    I { r with staging, generations := r.generations.insert id generation }
  linked : ∀ (r : Root) (service : String), I r → I (r.addLink service (.service service))
  pointed : ∀ r : Root, I r → I { r with pending := r.pending.insert id (.generation id) }

theorem onlyPending_recoveryKeeps (id : String) : RecoveryKeeps (Root.OnlyPending id) where
  unlinked _ k h := h.unlinked k
  broken _ _ h := h.same rfl
  erased _ _ h := h.same rfl
  promoted r k h := by
    unfold Root.promote
    split
    next => exact (h.unlinked k).same rfl
    next => exact h
  made _ h := h.same rfl

theorem onlyPending_preparationKeeps (id : String) : PreparationKeeps id (Root.OnlyPending id) where
  stored _ h := h.same rfl
  staged _ _ h := h.same rfl
  published _ _ _ h := h.same rfl
  linked _ service h := h.addLink service
  pointed _ h := h.insert rfl fun _ => rfl

section Prepare

variable {I : Side → Root → Prop} {p : Platform} {id : String}

theorem keeps_stageEntries {P : Roots → Prop} {entries : List ValidatedSecret} {tree : Tree} :
    Keeps P (stageEntries p entries tree) := by
  induction entries generalizing tree with
  | nil => exact keeps_pure
  | cons entry rest ih =>
    exact keeps_bind keeps_touch fun _ => keeps_bind keeps_ofExcept fun _ => ih

theorem keeps_stage {P : Roots → Prop} {side : Side} {entries : List ValidatedSecret} :
    Keeps P (stage p side entries) := by
  refine keeps_bind (keeps_root side) fun _ => keeps_bind keeps_ofExcept fun _ => ?_
  refine keeps_bind keeps_stageEntries fun _ => keeps_bind (keeps_root side) fun _ => ?_
  exact keeps_bind keeps_ofExcept fun _ => keeps_ofExcept

variable {side : Side}

theorem keeps_prepareStore (h : ∀ r : Root, I side r → I side { r with store := true }) :
    Keeps (Roots.Each I) (prepareStore side) := by
  refine keeps_bind (keeps_root side) fun _ => keeps_bind (keeps_doIf (keeps_change h)) fun _ => ?_
  exact keeps_bind (keeps_root side) fun _ => keeps_ofExcept

theorem keeps_createStaging
    (h : ∀ (r : Root) (staging : BTreeSet String), I side r → I side { r with staging }) :
    Keeps (Roots.Each I) (createStaging side id) := by
  refine keeps_bind (keeps_root side) fun _ => keeps_bind keeps_refuseIf fun _ => ?_
  exact keeps_bind (keeps_change fun r hr => h r _ hr) fun _ => keeps_touch

theorem keeps_publish {tree : Tree} (h : ∀ (r : Root) (staging : BTreeSet String), I side r →
    I side { r with staging, generations := r.generations.insert id { tree } }) :
    Keeps (Roots.Each I) (publish side id tree) := by
  refine keeps_bind (keeps_root side) fun _ => keeps_bind keeps_refuseIf fun _ => ?_
  exact keeps_bind (keeps_change fun r hr => h r _ hr) fun _ => keeps_touch

theorem keeps_prepareServiceLink
    (h : ∀ (r : Root) (service : String), I side r → I side (r.addLink service (.service service)))
    (service : String) : Keeps (Roots.Each I) (prepareServiceLink side service) := by
  refine keeps_bind keeps_refuseIf fun _ => keeps_bind (keeps_root side) fun r => ?_
  cases r.link? service with
  | some target => exact keeps_refuseIf
  | none => exact keeps_change fun r hr => h r service hr

theorem keeps_pointPending
    (h : ∀ r : Root, I side r → I side { r with pending := r.pending.insert id (.generation id) }) :
    Keeps (Roots.Each I) (pointPending side id) := by
  refine keeps_bind (keeps_root side) fun _ => keeps_bind keeps_refuseIf fun _ => ?_
  exact keeps_bind (keeps_change h) fun _ => keeps_touch

theorem keeps_prepare (hI : PreparationKeeps id (I side)) (entries : List ValidatedSecret) :
    Keeps (Roots.Each I) (prepare p side entries id) := by
  refine keeps_bind (keeps_prepareStore hI.stored) fun _ => keeps_bind (keeps_root side) fun _ => ?_
  refine keeps_bind keeps_ofExcept fun _ => keeps_bind (keeps_createStaging hI.staged) fun _ => ?_
  refine keeps_bind keeps_stage fun tree => keeps_bind keeps_touch fun _ => ?_
  refine keeps_bind (keeps_publish fun r staging => hI.published r staging _) fun _ => ?_
  refine keeps_bind (keeps_each fun service => keeps_prepareServiceLink hI.linked service) fun _ => ?_
  refine keeps_bind keeps_touch fun _ => keeps_bind (keeps_pointPending hI.pointed) fun _ => ?_
  exact keeps_bind keeps_touch fun _ => keeps_pure

theorem keeps_commitBoth (hI : ∀ side, PreparationKeeps id (I side))
    (hr : ∀ side, RecoveryKeeps (I side)) (secrets publicInfo : Option (List ValidatedSecret)) :
    Keeps (Roots.Each I) (commitBoth p secrets publicInfo id) := by
  refine keeps_bind ?_ fun before => ?_
  · cases publicInfo with
    | none => exact keeps_pure
    | some entries => exact keeps_mapError (keeps_prepare (hI .publicInfo) entries)
  · cases secrets with
    | some entries =>
      refine keeps_bind (keeps_mapError (keeps_prepare (hI .secrets) entries)) fun _ => ?_
      exact keeps_bind (keeps_mapError (keeps_change fun r h => (hr .secrets).promoted r id h))
        fun _ => keeps_pure
    | none =>
      exact keeps_bind (keeps_mapError (keeps_change fun r h => (hr .publicInfo).promoted r id h))
        fun _ => keeps_pure

end Prepare

/-- A joint deployment up to the switch that commits it. -/
def committing (p : Platform) (secretsBatch publicBatch : Option ResolvedBatch) (id : String) :
    Deploy (BTreeMap String String) :=
  opened secretsBatch publicBatch >>= fun entries => commitBoth p entries.1 entries.2 id

section Commit

variable {p : Platform} {x : Settled} {free : String → Prop} {id : String} {w : Roots}
  {secretsBatch publicBatch : Option ResolvedBatch} {faults : List Fault}

theorem keeps_concluded {P : Roots → Prop} (h : ∀ side, Keeps P (recoverLocked side))
    (result : Except DeployError (BTreeMap String String)) : Keeps P (concluded result) := by
  cases result with
  | ok previous => exact keeps_pure
  | error e =>
    refine keeps_bind (keeps_attempt (h .secrets)) fun _ => ?_
    exact keeps_bind (keeps_attempt (h .publicInfo)) fun _ => keeps_throw

/-- Both roots settle at `x` and nothing but `id` waits in them. -/
def Waiting (x : Settled) (free : String → Prop) (id : String) (w : Roots) : Prop :=
  Roots.Steady x free w ∧ Roots.Each (fun _ => Root.OnlyPending id) w

theorem keeps_waiting_recoverLocked (side : Side) :
    Keeps (Waiting x free id) (recoverLocked side) :=
  (meets_recoverLocked_steady side).and (keeps_recoverLocked (fun _ => onlyPending_recoveryKeeps id) side)

theorem Waiting.without (h : Waiting x free id w) : Waiting x (Without free id) id w :=
  ⟨h.1.mono fun _ hk => hk.1, h.2⟩

/-- A deployment that does not get to commit leaves both roots where they were to settle. -/
theorem together_uncommitted (hv : validGeneration id = true) (hid : free id)
    (hw : Waiting x free id w)
    (h : (committing p secretsBatch publicBatch id faults w).1.isDone = false) :
    Waiting x (Without free id) id (together p secretsBatch publicBatch id faults w).2.2 := by
  have hopened : Meets (Waiting x free id) (opened secretsBatch publicBatch) _ (Waiting x free id) :=
    meets_opened fun _ => onlyPending_recoveryKeeps id
  rw [together_eq, bind_run]
  rw [committing, bind_run] at h
  cases hrun : opened secretsBatch publicBatch faults w with
  | mk out rest =>
    obtain ⟨rest, w₁⟩ := rest
    have hstart := hopened faults w hw
    rw [hrun] at h hstart
    cases out with
    | failed e => exact Waiting.without hstart
    | crashed => exact Waiting.without hstart
    | done entries =>
      obtain ⟨⟨_, _, hne⟩, hrec, ho⟩ := hstart
      simp only [publishBoth_eq hne]
      rw [bind_attempt_run]
      have hcommit := ((meets_commitBoth hne hv (fresh_ne hrec.1.steady hid) hrec.1 hrec.2).and
        (keeps_commitBoth (p := p) (fun _ => onlyPending_preparationKeeps id)
          (fun _ => onlyPending_recoveryKeeps id) entries.1 entries.2)) rest w₁ ⟨⟨rfl, rfl⟩, ho⟩
      cases hc : commitBoth p entries.1 entries.2 id rest w₁ with
      | mk out rest =>
        obtain ⟨rest, w₂⟩ := rest
        simp only [hc] at h hcommit
        cases out with
        | done previous => cases h
        | failed e => exact (keeps_concluded keeps_waiting_recoverLocked (.error e)).final rest hcommit
        | crashed => exact hcommit

theorem meets_completed {rs rp : Root} {secrets publicInfo : Option (List ValidatedSecret)}
    (hrs : Recovered none x.1 free true rs) (hrp : Recovered x.1 x.2 free true rp)
    (previous : BTreeMap String String) :
    Meets (Committed p x (Without free id) rs rp id secrets publicInfo)
      ((do completeBoth secrets publicInfo id; return previous).attempt >>= concluded)
      (fun _ => Roots.Steady (moved secrets.isSome id x.1, moved publicInfo.isSome id x.2)
        (Without free id))
      (Roots.Steady (moved secrets.isSome id x.1, moved publicInfo.isSome id x.2)
        (Without free id)) := by
  have hdone : Meets (Committed p x (Without free id) rs rp id secrets publicInfo)
      (do completeBoth secrets publicInfo id; return previous)
      (fun _ => Roots.Steady (moved secrets.isSome id x.1, moved publicInfo.isSome id x.2)
        (Without free id))
      (Roots.Steady (moved secrets.isSome id x.1, moved publicInfo.isSome id x.2)
        (Without free id)) := by
    refine meets_bind (meets_completeBoth hrs hrp) fun _ => meets_pure fun w hw => ?_
    exact ⟨hw.1.steady hrs, hw.2.steady hrp⟩
  exact meets_bind_attempt hdone (fun _ => meets_pure fun _ h => h) fun e =>
    keeps_concluded meets_recoverLocked_steady (.error e)

/-- One that does commit takes both roots on, however it ends. -/
theorem together_committed (hv : validGeneration id = true) (hid : free id)
    (hw : Waiting x free id w)
    (h : (committing p secretsBatch publicBatch id faults w).1.isDone = true) :
    (asked secretsBatch = true ∨ asked publicBatch = true) ∧
      Roots.Steady (x.joint secretsBatch publicBatch id) (Without free id)
        (together p secretsBatch publicBatch id faults w).2.2 := by
  have hopened : Meets (Waiting x free id) (opened secretsBatch publicBatch) _ (Waiting x free id) :=
    meets_opened fun _ => onlyPending_recoveryKeeps id
  rw [together_eq, bind_run]
  rw [committing, bind_run] at h
  cases hrun : opened secretsBatch publicBatch faults w with
  | mk out rest =>
    obtain ⟨rest, w₁⟩ := rest
    have hstart := hopened faults w hw
    rw [hrun] at h hstart
    cases out with
    | failed e => cases h
    | crashed => cases h
    | done entries =>
      obtain ⟨⟨hs, hp, hne⟩, hrec, ho⟩ := hstart
      have hasked : asked secretsBatch = true ∨ asked publicBatch = true := by
        rw [← validated_isSome hs, ← validated_isSome hp]
        by_contra hn
        simp [not_or] at hn
        exact hne (by simp [hn])
      have hjoint : x.joint secretsBatch publicBatch id =
          (moved entries.1.isSome id x.1, moved entries.2.isSome id x.2) := by
        rw [validated_isSome hs, validated_isSome hp]
        rfl
      refine ⟨hasked, ?_⟩
      simp only [publishBoth_eq hne, hjoint]
      rw [bind_attempt_run]
      have hcommit := meets_commitBoth (p := p) hne hv (fresh_ne hrec.1.steady hid) hrec.1 hrec.2
        rest w₁ ⟨rfl, rfl⟩
      cases hc : commitBoth p entries.1 entries.2 id rest w₁ with
      | mk out rest =>
        obtain ⟨rest, w₂⟩ := rest
        simp only [hc] at h hcommit
        cases out with
        | failed e => cases h
        | crashed => cases h
        | done previous =>
          exact (meets_completed hrec.1 hrec.2 previous).final rest hcommit.2

theorem finish_eq_active {commit : Option String} {r : Root} (h : r.OnlyPending id)
    (hc : commit ≠ some id) : r.finish commit = r.active := by
  cases commit with
  | none => rfl
  | some k =>
    have hk : ¬ r.Pointer k := by
      intro hp
      have he := h k hp
      exact hc (by rw [he])
    exact if_neg hk

theorem Waiting.active (h : Waiting x free id w) (hc : x.1 ≠ some id) :
    w.secrets.active = x.1 ∧ w.publicInfo.active = x.2 := by
  have hfinish : w.publicInfo.finish x.1 = w.publicInfo.active := finish_eq_active (h.2 .publicInfo) hc
  exact ⟨h.1.1.settles, hfinish.symm.trans h.1.2.settles⟩

/-- A deployment that commits has moved one of the roots. -/
theorem moved_active (hasked : asked secretsBatch = true ∨ asked publicBatch = true)
    (hc : x.1 ≠ some id)
    (h : w.Steady (x.joint secretsBatch publicBatch id) free) :
    ∃ side, (w.at side).active = some id := by
  by_cases hs : asked secretsBatch = true
  · have hsettles := h.1.settles
    rw [Settled.joint, hs] at hsettles
    exact ⟨.secrets, hsettles⟩
  · have hp : asked publicBatch = true := hasked.resolve_left hs
    have hsettles := h.2.settles
    have hn : asked secretsBatch = false := by simpa using hs
    rw [Settled.joint, hn, hp] at hsettles
    have hfinish : w.publicInfo.finish x.1 = some id := hsettles
    refine ⟨.publicInfo, ?_⟩
    cases hx : x.1 with
    | none =>
      rw [hx] at hfinish
      exact hfinish
    | some k =>
      rw [hx, Root.finish] at hfinish
      split at hfinish
      next =>
        rw [hx] at hc
        exact absurd hfinish hc
      next => exact hfinish

/-- The roots as recovery leaves them. -/
def Rested (x : Settled) (free : String → Prop) : Roots → Prop :=
  Split (AtRest none x.1 free) (AtRest x.1 x.2 free)

theorem Rested.waiting (h : Rested x free w) (id : String) : Waiting x free id w := by
  have hn {commit settled : Option String} {r : Root} (hr : AtRest commit settled free r) :
      r.OnlyPending id := by
    intro key hkey
    have hpending : r.pending = ∅ := hr.pending
    rw [Root.Pointer, hpending] at hkey
    simp at hkey
  refine ⟨⟨h.1.steady, h.2.steady⟩, fun side => ?_⟩
  cases side with
  | secrets => exact hn h.1
  | publicInfo => exact hn h.2

/-- A joint deployment moves neither root just when it does not get to commit. -/
theorem together_unmoved_iff (hv : validGeneration id = true) (hid : free id)
    (hw : Rested x free w) :
    (∀ side, ((together p secretsBatch publicBatch id faults w).2.2.at side).active =
      (w.at side).active) ↔
      (committing p secretsBatch publicBatch id faults w).1.isDone = false := by
  have hwait := hw.waiting id
  have hc : x.1 ≠ some id := fresh_ne hw.1.steady hid
  have hc' : x.2 ≠ some id := fresh_ne (hw.2.recommit none) hid
  obtain ⟨hactive, hactive'⟩ := hwait.active hc
  constructor
  · intro h
    by_contra hn
    obtain ⟨hasked, hjoint⟩ := together_committed hv hid hwait (by simpa using hn)
    obtain ⟨side, hside⟩ := moved_active hasked hc hjoint
    rw [h side] at hside
    cases side with
    | secrets => exact hc (hactive.symm.trans hside)
    | publicInfo => exact hc' (hactive'.symm.trans hside)
  · intro h side
    obtain ⟨ha, ha'⟩ := (together_uncommitted hv hid hwait h).active hc
    cases side with
    | secrets => exact ha.trans hactive.symm
    | publicInfo => exact ha'.trans hactive'.symm

end Commit

end Deploy

end NixSecrets
