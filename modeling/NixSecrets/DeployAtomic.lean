import NixSecrets.DeployOutcome
import NixSecrets.VersionJson

namespace NixSecrets

open Faulty

/-- The calls that deploy into the two roots or recover them. -/
inductive DeployOp
  | together (secrets publicInfo : Option ResolvedBatch) (id : String)
  | publicAlone (batch : ResolvedBatch) (id : String) (proceed : Root → Except DeployError Bool)
      (published : Root → Except DeployError Unit)
  | recover
  | recoverAlone (side : Side)

namespace DeployOp

def perform (p : Platform) : DeployOp → Deploy Unit
  | .together secrets publicInfo id => do
    let _ ← Deploy.together p secrets publicInfo id
  | .publicAlone batch id proceed published => do
    let _ ← Deploy.deployInner p .publicInfo batch id proceed published
  | .recover => Deploy.recover
  | .recoverAlone side => Deploy.recoverAlone side

/-- The name of the generation the call publishes. -/
def id? : DeployOp → Option String
  | .together _ _ id => some id
  | .publicAlone _ id _ _ => some id
  | .recover => none
  | .recoverAlone _ => none

def joint : DeployOp → Bool
  | .together .. => true
  | _ => false

/-- Where the call takes both roots when it has its whole effect. -/
def settle (x : Settled) : DeployOp → Settled
  | .together secrets publicInfo id => x.joint secrets publicInfo id
  | .publicAlone _ id _ _ => (x.1, some id)
  | .recover => x
  | .recoverAlone _ => x

end DeployOp

/-- A call and what goes wrong during it. -/
structure Attempt where
  op : DeployOp
  faults : List Fault

def Attempt.run (p : Platform) (w : Roots) (a : Attempt) : Roots :=
  (a.op.perform p a.faults w).2.2

def deployAll (p : Platform) (attempts : List Attempt) (w : Roots) : Roots :=
  attempts.foldl (Attempt.run p) w

def generationIds (attempts : List Attempt) : List String := attempts.filterMap (·.op.id?)

/-- Every call names its generation with a valid name of its own. -/
def FreshIds (attempts : List Attempt) : Prop :=
  (generationIds attempts).Nodup ∧ ∀ id ∈ generationIds attempts, validGeneration id = true

/-- Calls made in order, each with its whole effect or none. -/
inductive Settles : Settled → List DeployOp → Settled → Prop
  | done (x : Settled) : Settles x [] x
  | skipped {x y : Settled} {op : DeployOp} {ops : List DeployOp} :
      Settles x ops y → Settles x (op :: ops) y
  | applied {x y : Settled} {op : DeployOp} {ops : List DeployOp} :
      Settles (op.settle x) ops y → Settles x (op :: ops) y

namespace Deploy

variable {p : Platform} {x : Settled} {free : String → Prop}

theorem meets_recoverAlone (side : Side) :
    Meets (Roots.Steady x free) (recoverAlone side) (fun _ => Roots.Steady x free)
      (Roots.Steady x free) := by
  refine meets_bind (meets_lockExisting side fun _ h => h) fun present => ?_
  exact meets_doIf (fun _ => (meets_recoverLocked_steady side).weaken (fun _ h => h.2)
    (fun _ _ h => h) fun _ h => h) fun _ _ h => h.2

/-- The names left once a call has taken its own. -/
def After (free : String → Prop) (op : DeployOp) : String → Prop := fun k => free k ∧ op.id? ≠ some k

theorem meets_perform (op : DeployOp)
    (hid : ∀ id, op.id? = some id → validGeneration id = true ∧ free id) :
    Meets (Roots.Steady x free) (op.perform p)
      (fun _ w => w.Steady x (After free op) ∨ w.Steady (op.settle x) (After free op))
      (fun w => w.Steady x (After free op) ∨ w.Steady (op.settle x) (After free op)) := by
  have taken {id : String} (he : op.id? = some id) (k : String) (hk : After free op k) :
      Without free id k := by
    refine ⟨hk.1, fun h => hk.2 ?_⟩
    rw [he, h]
  have kept (w : Roots) (h : w.Steady x free) : w.Steady x (After free op) :=
    h.mono fun _ hk => hk.1
  cases op with
  | together secrets publicInfo id =>
    obtain ⟨hv, hf⟩ := hid id rfl
    have settled (w : Roots) (y : Settled) (h : w.Steady y (Without free id)) :
        w.Steady y (After free (.together secrets publicInfo id)) := h.mono (taken rfl)
    exact meets_pointwise fun w₀ hw₀ => meets_bind ((meets_together hv hf hw₀).weaken (fun _ h => h)
      (fun _ w h => Or.inr (settled w _ h.steady))
      fun w h => h.imp (settled w _) (settled w _)) fun _ => meets_pure fun _ h => h
  | publicAlone batch id proceed published =>
    obtain ⟨hv, hf⟩ := hid id rfl
    have settled (w : Roots) (y : Settled) (h : w.Steady y (Without free id)) :
        w.Steady y (After free (.publicAlone batch id proceed published)) := h.mono (taken rfl)
    refine meets_pointwise fun w₀ hw₀ => meets_bind ((meets_deployInner hv hf hw₀).weaken (fun _ h => h) ?_
      fun w h => h.imp (settled w _) (settled w _)) fun _ => meets_pure fun _ h => h
    intro deployed w h
    cases deployed with
    | false => exact Or.inl (kept w h)
    | true => exact Or.inr (settled w _ (DeployedAlone.steady h))
  | recover =>
    exact meets_recover.weaken (fun _ h => h)
      (fun _ w h => Or.inl (kept w ⟨h.1.steady, h.2.steady⟩)) fun w h => Or.inl (kept w h)
  | recoverAlone side =>
    exact (meets_recoverAlone side).weaken (fun _ h => h) (fun _ w h => Or.inl (kept w h))
      fun w h => Or.inl (kept w h)

theorem meets_root_still (side : Side) (w : Roots) :
    Meets (· = w) (root side) (fun r w' => r = w.at side ∧ w' = w) (· = w) := by
  refine (meets_root fun _ h => h).weaken (fun _ h => h) ?_ fun _ h => h
  rintro r w' ⟨hr, rfl⟩
  exact ⟨hr.symm, rfl⟩

/-- With nothing pending, recovery changes nothing. -/
theorem meets_recoverLocked_still {side : Side} {w : Roots} (hn : (w.at side).pending = ∅) :
    Meets (· = w) (recoverLocked side) (fun _ => (· = w)) (· = w) := by
  refine meets_mapError ?_
  have hcommitted : Meets (· = w) (committed side) (fun _ => (· = w)) (· = w) := by
    cases side with
    | secrets => exact meets_pure fun _ h => h
    | publicInfo =>
      exact meets_bind (meets_root_still .secrets w) fun _ => meets_ofExcept (fun _ _ _ h => h.2)
        fun _ h => h.2
  refine meets_bind hcommitted fun committed => meets_bind (meets_root_still side w) fun r => ?_
  refine meets_known fun _ => meets_bind_ofExcept (fun _ h => h) fun current _ => ?_
  refine meets_bind (meets_root_still side w) fun r' => meets_known fun hr => ?_
  have hids : r'.pendingPointers side = .ok [] := by
    rw [hr, Root.pendingPointers, hn]
    rfl
  rw [hids]
  cases committed with
  | none => exact meets_pure fun _ h => h
  | some id => exact meets_pure fun _ h => h

theorem meets_recover_still {w : Roots} (hs : w.secrets.pending = ∅)
    (hp : w.publicInfo.pending = ∅) : Meets (· = w) recover (fun _ => (· = w)) (· = w) := by
  have hlock (side : Side) : Meets (· = w) (lockExisting side) (fun _ => (· = w)) (· = w) :=
    (meets_lockExisting side fun _ h => h).weaken (fun _ h => h) (fun _ _ h => h.2) fun _ h => h
  refine meets_bind (hlock .secrets) fun _ => meets_bind (hlock .publicInfo) fun _ => ?_
  refine meets_bind (meets_doIf (fun _ => meets_recoverLocked_still hs) fun _ _ h => h) fun _ => ?_
  exact meets_doIf (fun _ => meets_recoverLocked_still hp) fun _ _ h => h

end Deploy

theorem FreshIds.append {before after : List Attempt} (h : FreshIds (before ++ after)) :
    FreshIds before ∧ FreshIds after ∧
      ∀ id ∈ generationIds after, id ∉ generationIds before := by
  have he : generationIds (before ++ after) = generationIds before ++ generationIds after :=
    List.filterMap_append
  obtain ⟨hn, hv⟩ := h
  rw [he] at hn hv
  obtain ⟨hb, ha, hd⟩ := List.nodup_append.mp hn
  exact ⟨⟨hb, fun id hid => hv id (List.mem_append_left _ hid)⟩,
    ⟨ha, fun id hid => hv id (List.mem_append_right _ hid)⟩,
    fun id hid hm => hd id hm id hid rfl⟩

section Run

variable {p : Platform} {x : Settled} {free : String → Prop} {w : Roots}

theorem attempt_steady {a : Attempt} (hw : w.Steady x free)
    (hid : ∀ id, a.op.id? = some id → validGeneration id = true ∧ free id) :
    (a.run p w).Steady x (Deploy.After free a.op) ∨
      (a.run p w).Steady (a.op.settle x) (Deploy.After free a.op) :=
  (Deploy.meets_perform a.op hid).final a.faults hw

theorem generationIds_cons (a : Attempt) (attempts : List Attempt) :
    generationIds (a :: attempts) = a.op.id?.toList ++ generationIds attempts := by
  unfold generationIds
  cases h : a.op.id? <;> simp [h]

/-- Over a run each call has its whole effect or none. -/
theorem deployAll_steady {attempts : List Attempt} (hw : w.Steady x free) (hf : FreshIds attempts)
    (hfree : ∀ id ∈ generationIds attempts, free id) :
    ∃ y, Settles x (attempts.map (·.op)) y ∧
      (deployAll p attempts w).Steady y (fun k => free k ∧ k ∉ generationIds attempts) := by
  induction attempts generalizing x free w with
  | nil => exact ⟨x, .done x, hw.mono fun _ hk => hk.1⟩
  | cons a rest ih =>
    obtain ⟨hn, hv⟩ := hf
    rw [generationIds_cons] at hn hv hfree
    have hmem {id : String} (he : a.op.id? = some id) :
        id ∈ a.op.id?.toList ++ generationIds rest := by simp [he]
    obtain ⟨_, hnodup, hdisjoint⟩ := List.nodup_append.mp hn
    have hrest : FreshIds rest := ⟨hnodup, fun id hid => hv id (List.mem_append_right _ hid)⟩
    have hafter (id : String) (hid : id ∈ generationIds rest) : Deploy.After free a.op id := by
      refine ⟨hfree id (List.mem_append_right _ hid), fun he => ?_⟩
      exact hdisjoint id (by simp [he]) id hid rfl
    have hleft (k : String) (hk : free k ∧ k ∉ generationIds (a :: rest)) :
        Deploy.After free a.op k ∧ k ∉ generationIds rest := by
      rw [generationIds_cons] at hk
      refine ⟨⟨hk.1, fun he => hk.2 (hmem he)⟩, fun hm => hk.2 (List.mem_append_right _ hm)⟩
    rcases attempt_steady (p := p) hw fun id he => ⟨hv id (hmem he), hfree id (hmem he)⟩ with h | h
    · obtain ⟨y, hy, hs⟩ := ih h hrest hafter
      exact ⟨y, .skipped hy, hs.mono hleft⟩
    · obtain ⟨y, hy, hs⟩ := ih h hrest hafter
      exact ⟨y, .applied hy, hs.mono hleft⟩

theorem steady_empty : ({} : Roots).Steady (none, none) (fun _ => True) := by
  have hroot (commit : Option String) : ({} : Root).Steady commit none (fun _ => True) := by
    refine ⟨⟨?_, ?_, fun _ => ⟨rfl, rfl⟩⟩, ?_, ?_⟩
    · intro id h
      cases h
    · intro key id h
      simp at h
    · rw [Root.finish_of_no_pointer fun key => by simp [Root.Pointer]]
      rfl
    · simp
  exact ⟨hroot none, hroot none⟩

theorem settles_alone {x y : Settled} {attempts : List Attempt}
    (h : Settles x (attempts.map (·.op)) y) (hj : ∀ a ∈ attempts, a.op.joint = false) :
    y.1 = x.1 ∧ (y.2 = x.2 ∨ ∃ id ∈ generationIds attempts, y.2 = some id) := by
  induction attempts generalizing x with
  | nil =>
    cases h
    exact ⟨rfl, Or.inl rfl⟩
  | cons a rest ih =>
    have hrest (b : Attempt) (hb : b ∈ rest) := hj b (List.mem_cons_of_mem _ hb)
    have later {z : Settled} (hz : Settles z (rest.map (·.op)) y) :
        y.1 = z.1 ∧ (y.2 = z.2 ∨ ∃ id ∈ generationIds (a :: rest), y.2 = some id) := by
      obtain ⟨h1, h2⟩ := ih hz hrest
      refine ⟨h1, h2.imp_right ?_⟩
      rintro ⟨id, hid, he⟩
      exact ⟨id, by rw [generationIds_cons]; exact List.mem_append_right _ hid, he⟩
    cases h with
    | skipped h => exact later h
    | applied h =>
      obtain ⟨h1, h2⟩ := later h
      have ha := hj a List.mem_cons_self
      have hids := generationIds_cons a rest
      obtain ⟨op, faults⟩ := a
      cases op with
      | together secrets publicInfo id => cases ha
      | publicAlone batch id proceed published =>
        refine ⟨h1, Or.inr ?_⟩
        rcases h2 with h2 | h2
        · exact ⟨id, by rw [hids]; exact List.mem_append_left _ (by simp [DeployOp.id?]), h2⟩
        · exact h2
      | recover => exact ⟨h1, h2⟩
      | recoverAlone side => exact ⟨h1, h2⟩

/-- Where recovery takes both roots. -/
def Roots.settled (w : Roots) : Settled := (w.secrets.active, w.publicInfo.finish w.secrets.active)

/-- The generations `.current` names in the two roots. -/
def Roots.actives (w : Roots) : Settled := (w.secrets.active, w.publicInfo.active)

theorem Roots.Steady.settled_eq (h : w.Steady x free) : w.settled = x := by
  have hs : w.secrets.active = x.1 := h.1.settles
  rw [Roots.settled, hs, h.2.settles]

/-- `.current` is absent or names a whole generation. -/
def Root.AtWhole (r : Root) : Prop :=
  r.current = none ∨ ∃ id tree, r.current = some (.generation id) ∧
    r.generations[id]? = some ⟨tree, true⟩

theorem atWhole_of_rest {commit settled : Option String} {r : Root}
    (h : Deploy.AtRest commit settled free r) : r.AtWhole := by
  have hc := h.current
  rw [Root.currentGeneration] at hc
  cases he : r.current with
  | none => exact Or.inl he
  | some target =>
    cases target with
    | service name =>
      rw [he] at hc
      cases hc
    | generation id =>
      obtain ⟨_, tree, ht⟩ := h.steady.sound.current id (Root.active_eq_some.mpr he)
      exact Or.inr ⟨id, tree, he, ht⟩

theorem recover_done {faults rest : List Fault} {w' : Roots} (hw : w.Steady x free)
    (hr : Deploy.recover faults w = (.done (), rest, w')) :
    w'.actives = x ∧ ∀ side, (w'.at side).pending = ∅ ∧ (w'.at side).AtWhole := by
  obtain ⟨hs, hp⟩ := Deploy.meets_recover.done hw hr
  have hactives : w'.actives = x := by
    have hpublic := (Deploy.Recovered.recommit hp none).settles
    rw [Roots.actives, show w'.secrets.active = x.1 from hs.steady.settles,
      show w'.publicInfo.active = x.2 from hpublic]
  refine ⟨hactives, fun side => ?_⟩
  cases side with
  | secrets => exact ⟨hs.pending, atWhole_of_rest hs⟩
  | publicInfo => exact ⟨hp.pending, atWhole_of_rest hp⟩

/-- A joint deployment, whatever cut it off, and what may follow it up to a recovery. -/
theorem joint_then_recover {secrets publicInfo : Option ResolvedBatch} {id : String}
    {cut faults rest : List Fault} {after : List Attempt} {w' : Roots} (hw : w.Steady x free)
    (hf : FreshIds (⟨.together secrets publicInfo id, cut⟩ :: after))
    (hfree : ∀ k ∈ generationIds (⟨.together secrets publicInfo id, cut⟩ :: after), free k)
    (hj : ∀ a ∈ after, a.op.joint = false)
    (hr : Deploy.recover faults
      (deployAll p (⟨.together secrets publicInfo id, cut⟩ :: after) w) = (.done (), rest, w')) :
    ∃ y, (y = x ∨ y = x.joint secrets publicInfo id) ∧ w'.secrets.active = y.1 ∧
      (w'.publicInfo.active = y.2 ∨ ∃ k ∈ generationIds after, w'.publicInfo.active = some k) := by
  obtain ⟨hn, hv⟩ := hf
  rw [generationIds_cons] at hn hv hfree
  have hid : id ∈ (DeployOp.together secrets publicInfo id).id?.toList ++ generationIds after :=
    List.mem_append_left _ (by simp [DeployOp.id?])
  obtain ⟨_, hnodup, hdisjoint⟩ := List.nodup_append.mp hn
  have hafter : FreshIds after := ⟨hnodup, fun k hk => hv k (List.mem_append_right _ hk)⟩
  have hleft (k : String) (hk : k ∈ generationIds after) :
      Deploy.After free (.together secrets publicInfo id) k :=
    ⟨hfree k (List.mem_append_right _ hk), fun he => hdisjoint k (by simp [he]) k hk rfl⟩
  have finish {y : Settled} (hy : ((⟨.together secrets publicInfo id, cut⟩ : Attempt).run p w).Steady
      y (Deploy.After free (.together secrets publicInfo id))) : w'.secrets.active = y.1 ∧
      (w'.publicInfo.active = y.2 ∨ ∃ k ∈ generationIds after, w'.publicInfo.active = some k) := by
    obtain ⟨z, hz, hs⟩ := deployAll_steady (p := p) hy hafter hleft
    have he := (recover_done hs hr).1
    have halone := settles_alone hz hj
    rw [← he] at halone
    exact halone
  rcases attempt_steady (p := p) (a := ⟨.together secrets publicInfo id, cut⟩) hw (by
    rintro k ⟨⟩
    exact ⟨hv id hid, hfree id hid⟩) with h | h
  · exact ⟨x, Or.inl rfl, finish h⟩
  · exact ⟨_, Or.inr rfl, finish h⟩

end Run

/-- Over any run, a recovery that succeeds leaves nothing pending and only whole generations
in use; the last joint deployment is then in every root it has a batch for, or in none; and
recovering once more changes nothing. -/
theorem recovered_joint_atomic (p : Platform) {attempts : List Attempt} (hf : FreshIds attempts)
    {faults rest : List Fault} {w : Roots}
    (hr : Deploy.recover faults (deployAll p attempts {}) = (.done (), rest, w)) :
    (∀ side, (w.at side).pending = ∅ ∧ (w.at side).AtWhole) ∧
    (∀ before secrets publicInfo id cut after,
      attempts = before ++ ⟨.together secrets publicInfo id, cut⟩ :: after →
      (∀ a ∈ after, a.op.joint = false) →
      (∀ faults₀ rest₀ w₀, Deploy.recover faults₀ (deployAll p before {}) = (.done (), rest₀, w₀) →
        w₀.actives = (deployAll p before {}).settled) ∧
      ∃ y, (y = (deployAll p before {}).settled ∨
          y = (deployAll p before {}).settled.joint secrets publicInfo id) ∧
        w.secrets.active = y.1 ∧
        (w.publicInfo.active = y.2 ∨ ∃ k ∈ generationIds after, w.publicInfo.active = some k)) ∧
    ∀ faults', (Deploy.recover faults' w).2.2 = w := by
  obtain ⟨x, _, hw⟩ := deployAll_steady (p := p) steady_empty hf fun _ _ => trivial
  obtain ⟨_, hrest⟩ := recover_done hw hr
  refine ⟨hrest, ?_, ?_⟩
  · rintro before secrets publicInfo id cut after rfl hj
    obtain ⟨hbefore, hlater, hnew⟩ := hf.append
    obtain ⟨previous, _, hprevious⟩ := deployAll_steady (p := p) steady_empty hbefore
      fun _ _ => trivial
    rw [hprevious.settled_eq]
    refine ⟨fun faults₀ rest₀ w₀ h => (recover_done hprevious h).1, ?_⟩
    rw [deployAll, List.foldl_append] at hr
    exact joint_then_recover hprevious hlater (fun k hk => ⟨trivial, hnew k hk⟩) hj hr
  · intro faults'
    exact (Deploy.meets_recover_still (hrest .secrets).1 (hrest .publicInfo).1).final faults' rfl

/-- A receiver that runs as root where no file has an ACL. -/
def receiver : Platform := ⟨0, 0, fun _ mode => mode, jsonVersions⟩

def knownHosts : ResolvedSecret :=
  ⟨"host.public.known-hosts", "v1", "ssh", .publicInfo, "known_hosts", [104], 0, 0, 0o644, none, []⟩

def webToken : ResolvedSecret :=
  ⟨"host.services.web.token", "v1", "web", .service, "token", [115], 0, 0, 0o400, none, []⟩

def firstId : String := generationId 1 1

/-- A joint deployment that crashes right after the secret root has switched. -/
def cutAfterCommit : Attempt :=
  ⟨.together (some [webToken]) (some [knownHosts]) firstId, List.replicate 56 .none ++ [.crash]⟩

theorem cutAfterCommit_fresh : FreshIds [cutAfterCommit] := by
  constructor <;> decide

theorem cutAfterCommit_recovers :
    (Deploy.recover [] (deployAll receiver [cutAfterCommit] {})).1 = .done () := by
  decide

theorem cutAfterCommit_atomic :
    (deployAll receiver [cutAfterCommit] {}).actives = (some firstId, none) ∧
    (Deploy.recover [] (deployAll receiver [cutAfterCommit] {})).2.2.actives =
      (some firstId, some firstId) ∧
    ∀ faults, (Deploy.recover faults
      (Deploy.recover [] (deployAll receiver [cutAfterCommit] {})).2.2).2.2 =
        (Deploy.recover [] (deployAll receiver [cutAfterCommit] {})).2.2 := by
  refine ⟨by decide, by decide, ?_⟩
  exact (recovered_joint_atomic receiver cutAfterCommit_fresh
    (Prod.ext cutAfterCommit_recovers rfl)).2.2

/-- A joint deployment of public information alone that crashes right after its switch. -/
def publicOnly : Attempt :=
  ⟨.together none (some [knownHosts]) firstId, List.replicate 35 .none ++ [.crash]⟩

theorem publicOnly_recovers :
    (Deploy.recover [] (deployAll receiver [publicOnly] {})).1 = .done () := by
  decide

theorem publicOnly_actives :
    (Deploy.recover [] (deployAll receiver [publicOnly] {})).2.2.actives = (none, some firstId) := by
  decide

/-- A deployment with a batch for one root only moves that root alone. -/
theorem public_only_splits_roots : ¬ ∀ (p : Platform) (attempts : List Attempt), FreshIds attempts →
    ∀ faults rest w, Deploy.recover faults (deployAll p attempts {}) = (.done (), rest, w) →
    ∀ before secrets publicInfo id cut,
      attempts = before ++ [⟨.together secrets publicInfo id, cut⟩] →
      w.actives = (deployAll p before {}).settled ∨ w.actives = (some id, some id) := by
  intro h
  have hfresh : FreshIds [publicOnly] := by
    constructor <;> decide
  have hrun : Deploy.recover [] (deployAll receiver [publicOnly] {}) = (.done (),
      (Deploy.recover [] (deployAll receiver [publicOnly] {})).2.1,
      (Deploy.recover [] (deployAll receiver [publicOnly] {})).2.2) := Prod.ext publicOnly_recovers rfl
  have hsplit := h receiver [publicOnly] hfresh [] _ _ hrun [] none (some [knownHosts]) firstId _ rfl
  rw [publicOnly_actives] at hsplit
  rcases hsplit with hs | hs
  · cases hs
  · cases hs

end NixSecrets
