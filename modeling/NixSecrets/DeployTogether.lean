import NixSecrets.DeployPrepare

namespace NixSecrets

open Faulty

theorem Root.mem_kept {id active : String} {names : List String}
    (h : id ∉ Root.kept active names) : id ≠ active := by
  have hkeep (keep names : List String) (hm : active ∈ keep) : active ∈ names.foldl
      (fun keep name => if keep.length = 3 ∨ name ∈ keep then keep else name :: keep) keep := by
    induction names generalizing keep with
    | nil => exact hm
    | cons name rest ih =>
      refine ih _ ?_
      beta_reduce
      split
      next => exact hm
      next => exact List.mem_cons_of_mem _ hm
  intro he
  rw [he] at h
  exact h (hkeep [active] names (by simp))

namespace Deploy

section Switch

variable {p : Platform} {side : Side} {other r₀ : Root} {commit settled : Option String}
  {free : String → Prop} {id : String} {tree : Tree}

/-- `.current` names the new generation and nothing waits. -/
structure Switched (commit : Option String) (free : String → Prop) (id : String) (tree : Tree)
    (r : Root) : Prop where
  steady : r.Steady commit (some id) free
  present : r.present = true
  unpointed : ∀ key, ¬ r.Pointer key
  active : r.active = some id
  tree : r.generations[id]? = some ⟨tree, true⟩

theorem Prepared.promote {r : Root} (h : Prepared commit settled free r₀ id tree r) :
    Switched commit free id tree (r.promote id) := by
  obtain ⟨hs, ha, hn⟩ := h.steady.promote h.pointer h.only
  have he : r.promote id =
      { r with current := some (.generation id), pending := r.pending.erase id } := by
    rw [Root.promote, show r.pending[id]? = some (.generation id) from h.pointer]
  exact ⟨hs, by rw [he]; exact h.present, hn, ha, by rw [he]; exact h.tree⟩

theorem meets_switch :
    Meets (On side other (Prepared commit settled free r₀ id tree)) (switch side id)
      (fun _ => On side other (Switched commit free id tree))
      (On side other fun r => r.Steady commit settled free ∨ r.Steady commit (some id) free) := by
  refine meets_bind (meets_change (fun r hr => hr.promote) fun r hr => Or.inl hr.steady)
    fun _ => meets_touch fun w hw => ⟨hw.1, Or.inr hw.2.steady⟩

theorem Switched.same {r : Root} (h : Switched commit free id tree r) (staging : BTreeSet String) :
    Switched commit free id tree { r with staging } :=
  ⟨h.steady.same_links rfl rfl (fun hn => hn) (fun _ _ hw => hw) h.steady.fresh, h.present,
    h.unpointed, h.active, h.tree⟩

theorem meets_prune_generation {k : String} (hk : k ≠ id) :
    Meets (On side other (Switched commit free id tree)) (removeGeneration side k)
      (fun _ => On side other (Switched commit free id tree))
      (On side other (Root.Steady commit (some id) free)) := by
  refine (meets_removeGeneration (F := fun r => r.present = true ∧ (∀ key, ¬ r.Pointer key) ∧
    r.active = some id ∧ r.generations[id]? = some ⟨tree, true⟩) ?_ ?_).weaken ?_ ?_ fun _ h => h
  · rintro r hs ⟨hp, hn, ha, ht⟩
    refine ⟨?_, fun key hp => ?_⟩
    · rw [ha]
      simpa using Ne.symm hk
    · have he := (hs.pending key k hp).1
      rw [he] at hp
      exact hn k hp
  · rintro r generations hg ⟨hp, hn, ha, ht⟩
    exact ⟨hp, hn, ha, (hg id (Ne.symm hk)).trans ht⟩
  · exact fun w hw => ⟨hw.1, hw.2.steady, hw.2.present, hw.2.unpointed, hw.2.active, hw.2.tree⟩
  · rintro _ w ⟨ho, hs, hp, hn, ha, ht⟩
    exact ⟨ho, hs, hp, hn, ha, ht⟩

/-- Pruning never touches the generation it is told is active. -/
theorem meets_prune :
    Meets (On side other (Switched commit free id tree)) (prune side id)
      (fun _ => On side other (Switched commit free id tree))
      (On side other (Root.Steady commit (some id) free)) := by
  refine meets_bind_root (fun r h => h.steady) fun r hr => ?_
  refine meets_bind (Q := fun _ => On side other (Switched commit free id tree)) ?_ fun _ => ?_
  · refine (meets_each (I := fun _ => On side other (Switched commit free id tree))
      fun k _ => meets_change (fun r hr => hr.same _) fun r hr => hr.steady).weaken
      (fun w hw => on_of_eq hw hr) (fun _ _ h => h) fun _ h => h
  · have hloop : Meets (On side other (Switched commit free id tree))
        (each (removeGeneration side)
          (r.generationNames.filter (· ∉ Root.kept id r.generationNames)))
        (fun _ => On side other (Switched commit free id tree))
        (On side other (Root.Steady commit (some id) free)) := by
      refine (meets_each (I := fun rest w => (∀ k ∈ rest, k ≠ id) ∧
        On side other (Switched commit free id tree) w) fun k rest => meets_known fun hk =>
          (meets_prune_generation (hk k List.mem_cons_self)).weaken (fun _ h => h)
            (fun _ w h => ⟨fun k' hm => hk k' (List.mem_cons_of_mem _ hm), h⟩) fun _ h => h).weaken
        (fun w hw => ⟨fun k hm => ?_, hw⟩) (fun _ _ h => h.2) fun _ h => h
      exact Root.mem_kept (by simpa using (List.mem_filter.mp hm).2)
    exact meets_bind hloop fun _ => meets_touch fun w hw => ⟨hw.1, hw.2.steady⟩

end Switch

end Deploy

end NixSecrets

namespace NixSecrets

open Faulty

/-- `A` holds of the secret root and `B` of the public-info root. -/
def Split (A B : Root → Prop) (w : Roots) : Prop := A w.secrets ∧ B w.publicInfo

/-- The generations the two roots settle at, the secret root's first. -/
abbrev Settled := Option String × Option String

/-- The secret root is its own commit point; the public-info root commits through it. -/
def Roots.Steady (x : Settled) (free : String → Prop) : Roots → Prop :=
  Split (Root.Steady none x.1 free) (Root.Steady x.1 x.2 free)

namespace Deploy

section Lift

variable {α : Type} {m : Deploy α} {A B E : Root → Prop} {S : α → Root → Prop}

theorem meets_secrets (h : ∀ other, B other →
    Meets (On .secrets other A) m (fun a => On .secrets other (S a)) (On .secrets other E)) :
    Meets (Split A B) m (fun a => Split (S a) B) (Split E B) := by
  intro faults w hw
  refine (h w.publicInfo hw.2).weaken (fun _ h => h) ?_ ?_ faults w ⟨rfl, hw.1⟩
  · exact fun a w' hs => ⟨hs.2, by rw [show w'.publicInfo = w.publicInfo from hs.1]; exact hw.2⟩
  · exact fun w' hs => ⟨hs.2, by rw [show w'.publicInfo = w.publicInfo from hs.1]; exact hw.2⟩

theorem meets_publicInfo (h : ∀ other, A other →
    Meets (On .publicInfo other B) m (fun a => On .publicInfo other (S a))
      (On .publicInfo other E)) :
    Meets (Split A B) m (fun a => Split A (S a)) (Split A E) := by
  intro faults w hw
  refine (h w.secrets hw.1).weaken (fun _ h => h) ?_ ?_ faults w ⟨rfl, hw.2⟩
  · exact fun a w' hs => ⟨by rw [show w'.secrets = w.secrets from hs.1]; exact hw.1, hs.2⟩
  · exact fun w' hs => ⟨by rw [show w'.secrets = w.secrets from hs.1]; exact hw.1, hs.2⟩

end Lift

section Together

variable {p : Platform} {x : Settled} {free : String → Prop} {id : String}

theorem meets_recover_publicInfo {A : Root → Prop} {commit settled : Option String}
    {present : Bool} (ha : ∀ r, A r → r.active = commit) :
    Meets (Split A fun r => r.Steady commit settled free ∧ r.present = present)
      (recoverLocked .publicInfo) (fun _ => Split A (Recovered commit settled free present))
      (Split A (Root.Steady commit settled free)) := by
  refine meets_publicInfo fun other ho => ?_
  have hc : Side.publicInfo.commit other = commit := ha other ho
  exact hc ▸ meets_recoverLocked

theorem meets_recover_secrets {B : Root → Prop} {settled : Option String} {present : Bool} :
    Meets (Split (fun r => r.Steady none settled free ∧ r.present = present) B)
      (recoverLocked .secrets) (fun _ => Split (Recovered none settled free present) B)
      (Split (Root.Steady none settled free) B) := by
  refine meets_secrets fun other _ => ?_
  have hc : Side.secrets.commit other = none := rfl
  exact hc ▸ meets_recoverLocked

theorem meets_openBoth :
    Meets (Roots.Steady x free) openBoth
      (fun _ => Split (Recovered none x.1 free true) (Recovered x.1 x.2 free true))
      (Roots.Steady x free) := by
  refine meets_bind (meets_mapError (meets_secrets fun _ _ => meets_prepareRoot)) fun _ => ?_
  refine meets_bind ((meets_mapError (meets_publicInfo fun _ _ => meets_prepareRoot)).weaken
    (fun _ h => h) (fun _ _ h => h) fun w hw => ⟨hw.1.1, hw.2⟩) fun _ => ?_
  refine meets_bind (meets_mapError (meets_touch fun w hw => ⟨hw.1.1, hw.2.1⟩)) fun _ => ?_
  refine meets_bind (meets_mapError (meets_touch fun w hw => ⟨hw.1.1, hw.2.1⟩)) fun _ => ?_
  refine meets_bind (meets_recover_secrets.weaken (fun _ h => h)
    (fun _ _ h => h) fun w hw => ⟨hw.1, hw.2.1⟩) fun _ => ?_
  exact (meets_recover_publicInfo fun r hr => hr.steady.settles).weaken (fun _ h => h)
    (fun _ _ h => h) fun w hw => ⟨hw.1.steady, hw.2⟩

/-- A root once a batch was prepared in it, if there is one. -/
def Readied (p : Platform) (commit settled : Option String) (free : String → Prop) (r₀ : Root)
    (id : String) (entries : Option (List ValidatedSecret)) (r : Root) : Prop :=
  match entries with
  | none => r = r₀
  | some entries => ∃ tree, r₀.staged p entries = .ok tree ∧
      Prepared commit settled free r₀ id tree r

/-- A root once a batch was deployed in it, if there is one. -/
def Deployed (p : Platform) (commit : Option String) (free : String → Prop) (r₀ : Root)
    (id : String) (entries : Option (List ValidatedSecret)) (r : Root) : Prop :=
  match entries with
  | none => r = r₀
  | some entries => ∃ tree, r₀.staged p entries = .ok tree ∧ Switched commit free id tree r

/-- Where a deployment of `id` takes a root. -/
def moved (asked : Bool) (id : String) (settled : Option String) : Option String :=
  if asked then some id else settled

/-- With nothing pending, the commit point does not matter. -/
theorem Recovered.recommit {commit settled : Option String} {present : Bool} {r : Root}
    (h : Recovered commit settled free present r) (commit' : Option String) :
    r.Steady commit' settled free := by
  have hn (key : String) : ¬ r.Pointer key := by
    rw [Root.Pointer, h.pending]
    simp
  refine ⟨h.steady.sound, ?_, h.steady.fresh⟩
  rw [Root.finish_of_no_pointer hn, ← h.steady.settles, Root.finish_of_no_pointer hn]

/-- Once `id` is committed, a root that prepared it settles there. -/
theorem Prepared.recommit {commit settled : Option String} {r₀ r : Root} {tree : Tree}
    (h : Prepared commit settled free r₀ id tree r) :
    Prepared (some id) (some id) free r₀ id tree r := by
  refine ⟨⟨h.steady.sound, ?_, h.steady.fresh⟩, h.present, h.pointer, h.only, h.active, h.tree⟩
  rw [Root.finish, if_pos h.pointer]

theorem Readied.steady {commit settled : Option String} {r₀ r : Root}
    {entries : Option (List ValidatedSecret)}
    (hr : Recovered commit settled free true r₀)
    (h : Readied p commit settled (Without free id) r₀ id entries r) :
    r.Steady commit settled (Without free id) := by
  cases entries with
  | none =>
    rw [show r = r₀ from h]
    exact hr.steady.mono fun _ hk => hk.1
  | some entries =>
    obtain ⟨tree, _, h⟩ := h
    exact h.steady

theorem Readied.committed {commit settled : Option String} {r₀ r : Root}
    {entries : Option (List ValidatedSecret)}
    (h : Readied p commit settled (Without free id) r₀ id entries r) :
    Readied p (some id) (moved entries.isSome id settled) (Without free id) r₀ id entries r := by
  cases entries with
  | none => exact h
  | some entries =>
    obtain ⟨tree, ht, h⟩ := h
    exact ⟨tree, ht, h.recommit⟩

theorem Readied.settles {commit settled : Option String} {r₀ r : Root}
    {entries : Option (List ValidatedSecret)} (hr : Recovered commit settled free true r₀)
    (h : Readied p (some id) (moved entries.isSome id settled) (Without free id) r₀ id entries r) :
    r.Steady (some id) (moved entries.isSome id settled) (Without free id) := by
  cases entries with
  | none =>
    rw [show r = r₀ from h]
    exact (hr.recommit (some id)).mono fun _ hk => hk.1
  | some entries =>
    obtain ⟨tree, _, h⟩ := h
    exact h.steady

/-- The versions a joint deployment reports as installed before it. -/
def publicBefore (p : Platform) (publicInfo : Option (List ValidatedSecret)) (rp : Root) :
    Except DeployError (BTreeMap String String) :=
  match publicInfo with
  | some _ => rp.currentVersions p
  | none => .ok ∅

def secretsBefore (p : Platform) (secrets : Option (List ValidatedSecret)) (rs : Root)
    (before : BTreeMap String String) : Except DeployError (BTreeMap String String) :=
  match secrets with
  | some _ => do return before.insertMany (← rs.currentVersions p)
  | none => .ok before

theorem meets_preparePublic {rs rp : Root} {publicInfo : Option (List ValidatedSecret)}
    (hv : validGeneration id = true) (hc : x.1 ≠ some id) (hrs : Recovered none x.1 free true rs)
    (hrp : Recovered x.1 x.2 free true rp) :
    Meets (Split (· = rs) (· = rp)) (preparePublic p publicInfo id)
      (fun before w => publicBefore p publicInfo rp = .ok before ∧
        Split (· = rs) (Readied p x.1 x.2 (Without free id) rp id publicInfo) w)
      (Roots.Steady x (Without free id)) := by
  cases publicInfo with
  | none => exact meets_pure fun w hw => ⟨rfl, hw⟩
  | some entries =>
    refine meets_mapError ((meets_publicInfo (S := fun before r => rp.currentVersions p = .ok before ∧
      ∃ tree, rp.staged p entries = .ok tree ∧ Prepared x.1 x.2 (Without free id) rp id tree r)
        fun other ho => (meets_prepare hv hc hrp).weaken (fun _ h => h) ?_ fun _ h => h).weaken
          (fun _ h => h) (fun before w hw => ⟨hw.2.1, hw.1, hw.2.2⟩) ?_)
    · rintro before w ⟨hb, tree, ht, ho', h⟩
      exact ⟨ho', hb, tree, ht, h⟩
    · intro w hw
      have hs : w.secrets = rs := hw.1
      exact ⟨hs ▸ hrs.steady.mono fun _ hk => hk.1, hw.2⟩

/-- A joint deployment up to the switch that commits it: the secret root's, or the public-info
root's if it is the only one. -/
def commitBoth (p : Platform) (secrets publicInfo : Option (List ValidatedSecret))
    (id : String) : Deploy (BTreeMap String String) := do
  let before ← preparePublic p publicInfo id
  match secrets with
  | some entries => do
    let versions ← (prepare p .secrets entries id).mapError (·.during Side.secrets.publishing)
    (change .secrets (Root.promote id)).mapError (·.during Side.secrets.publishing)
    return before.insertMany versions
  | none => do
    (change .publicInfo (Root.promote id)).mapError (·.during Side.publicInfo.publishing)
    return before

def followCommit (secrets publicInfo : Option (List ValidatedSecret)) (id : String) :
    Deploy Unit :=
  match secrets with
  | some _ => do
    touch.mapError (·.during Side.secrets.publishing)
    doIf (publicInfo.isSome = true)
      ((switch .publicInfo id).mapError (·.during Side.publicInfo.publishing))
  | none => touch.mapError (·.during Side.publicInfo.publishing)

/-- What is left of it from there. -/
def completeBoth (secrets publicInfo : Option (List ValidatedSecret)) (id : String) :
    Deploy Unit := do
  followCommit secrets publicInfo id
  doIf (secrets.isSome = true) ((prune .secrets id).mapError (·.during Side.secrets.publishing))
  doIf (publicInfo.isSome = true)
    ((prune .publicInfo id).mapError (·.during Side.publicInfo.publishing))

theorem publishBoth_eq {secrets publicInfo : Option (List ValidatedSecret)}
    (h : ¬ (secrets.isNone = true ∧ publicInfo.isNone = true)) :
    publishBoth p secrets publicInfo id = do
      let previous ← commitBoth p secrets publicInfo id
      completeBoth secrets publicInfo id
      return previous := by
  cases secrets with
  | some entries =>
    simp [publishBoth, commitSecrets, commitBoth, completeBoth, followCommit, switch, mapError_bind]
  | none =>
    cases publicInfo with
    | none => exact absurd ⟨rfl, rfl⟩ h
    | some entries =>
      simp [publishBoth, commitSecrets, commitBoth, completeBoth, followCommit, switch, mapError_bind, doIf]

/-- Both roots right after the switch that commits. -/
def Committed (p : Platform) (x : Settled) (free : String → Prop) (rs rp : Root) (id : String)
    (secrets publicInfo : Option (List ValidatedSecret)) : Roots → Prop :=
  match secrets with
  | some _ => Split (Deployed p none free rs id secrets)
      (Readied p (some id) (moved publicInfo.isSome id x.2) free rp id publicInfo)
  | none => Split (· = rs) (Deployed p x.1 free rp id publicInfo)

section Commit

variable {rs rp : Root} {secrets publicInfo : Option (List ValidatedSecret)}

theorem meets_prepareSecrets {entries : List ValidatedSecret} (hv : validGeneration id = true)
    (hrs : Recovered none x.1 free true rs) (hrp : Recovered x.1 x.2 free true rp) :
    Meets (Split (· = rs) (Readied p x.1 x.2 (Without free id) rp id publicInfo))
      (prepare p .secrets entries id)
      (fun versions => Split (fun r => rs.currentVersions p = .ok versions ∧ ∃ tree,
          rs.staged p entries = .ok tree ∧ Prepared none x.1 (Without free id) rs id tree r)
        (Readied p x.1 x.2 (Without free id) rp id publicInfo))
      (Roots.Steady x (Without free id)) := by
  refine Meets.weaken (meets_secrets fun other _ => (meets_prepare hv (by simp) hrs).weaken
    (fun _ h => h) ?_ fun _ h => h) (fun _ h => h) (fun _ _ h => h) fun w hw => ?_
  · rintro versions w ⟨hb, tree, ht, ho, h⟩
    exact ⟨ho, hb, tree, ht, h⟩
  · exact ⟨hw.1, hw.2.steady hrp⟩

theorem meets_promoteSecrets {entries : List ValidatedSecret} {versions : BTreeMap String String}
    (hrp : Recovered x.1 x.2 free true rp) :
    Meets (Split (fun r => rs.currentVersions p = .ok versions ∧ ∃ tree,
        rs.staged p entries = .ok tree ∧ Prepared none x.1 (Without free id) rs id tree r)
        (Readied p x.1 x.2 (Without free id) rp id publicInfo))
      (change .secrets (Root.promote id))
      (fun _ w => rs.currentVersions p = .ok versions ∧
        Committed p x (Without free id) rs rp id (some entries) publicInfo w)
      (Roots.Steady x (Without free id)) := by
  have switched (r : Root) (hr : rs.currentVersions p = .ok versions ∧ ∃ tree,
      rs.staged p entries = .ok tree ∧ Prepared none x.1 (Without free id) rs id tree r) :
      rs.currentVersions p = .ok versions ∧
        Deployed p none (Without free id) rs id (some entries) (r.promote id) := by
    obtain ⟨hb, tree, ht, hp⟩ := hr
    exact ⟨hb, tree, ht, hp.promote⟩
  have kept (r : Root) (hr : rs.currentVersions p = .ok versions ∧ ∃ tree,
      rs.staged p entries = .ok tree ∧ Prepared none x.1 (Without free id) rs id tree r) :
      r.Steady none x.1 (Without free id) := by
    obtain ⟨_, tree, _, hp⟩ := hr
    exact hp.steady
  refine (meets_secrets (S := fun _ r => rs.currentVersions p = .ok versions ∧
    Deployed p none (Without free id) rs id (some entries) r) fun other _ =>
      meets_change switched kept).weaken (fun _ h => h) ?_ ?_
  · rintro _ w ⟨⟨hb, hs⟩, hp⟩
    exact ⟨hb, hs, hp.committed⟩
  · exact fun w hw => ⟨hw.1, hw.2.steady hrp⟩

/-- Until the switch that commits has happened, nothing has moved. -/
theorem meets_commitBoth (hne : ¬ (secrets.isNone = true ∧ publicInfo.isNone = true))
    (hv : validGeneration id = true) (hc : x.1 ≠ some id) (hrs : Recovered none x.1 free true rs)
    (hrp : Recovered x.1 x.2 free true rp) :
    Meets (Split (· = rs) (· = rp)) (commitBoth p secrets publicInfo id)
      (fun previous w => (publicBefore p publicInfo rp).bind (secretsBefore p secrets rs) =
        .ok previous ∧ Committed p x (Without free id) rs rp id secrets publicInfo w)
      (Roots.Steady x (Without free id)) := by
  refine meets_bind (meets_preparePublic hv hc hrs hrp) fun before => meets_known fun hbefore => ?_
  rw [hbefore]
  cases secrets with
  | some entries =>
    refine meets_bind (meets_mapError (meets_prepareSecrets hv hrs hrp)) fun versions => ?_
    refine meets_bind (meets_mapError (meets_promoteSecrets hrp)) fun _ => meets_pure ?_
    rintro w ⟨hb, hw⟩
    refine ⟨?_, hw⟩
    show secretsBefore p (some entries) rs before = _
    rw [secretsBefore, hb]
    rfl
  | none =>
    cases publicInfo with
    | none => exact absurd ⟨rfl, rfl⟩ hne
    | some entries =>
      have switched (r : Root)
          (hr : Readied p x.1 x.2 (Without free id) rp id (some entries) r) :
          Deployed p x.1 (Without free id) rp id (some entries) (r.promote id) := by
        obtain ⟨tree, ht, hp⟩ := hr
        exact ⟨tree, ht, hp.promote⟩
      refine meets_bind (meets_mapError ((meets_publicInfo fun other _ =>
        meets_change switched fun r hr => hr.steady hrp).weaken (fun _ h => h) (fun _ _ h => h) ?_))
        fun _ => meets_pure fun w hw => ⟨rfl, hw⟩
      intro w hw
      have hs : w.secrets = rs := hw.1
      exact ⟨hs ▸ hrs.steady.mono fun _ hk => hk.1, hw.2⟩

end Commit

theorem Deployed.steady {commit commit' settled : Option String} {r₀ r : Root}
    {entries : Option (List ValidatedSecret)}
    (hr : Recovered commit' settled free true r₀)
    (h : Deployed p commit (Without free id) r₀ id entries r) :
    r.Steady commit (moved entries.isSome id settled) (Without free id) := by
  cases entries with
  | none =>
    rw [show r = r₀ from h]
    exact (hr.recommit commit).mono fun _ hk => hk.1
  | some entries =>
    obtain ⟨tree, _, h⟩ := h
    exact h.steady

theorem meets_switchPublic {rs rp : Root} {secrets : List ValidatedSecret}
    {publicInfo : Option (List ValidatedSecret)} (hrs : Recovered none x.1 free true rs) :
    Meets (Committed p x (Without free id) rs rp id (some secrets) publicInfo)
      (doIf (publicInfo.isSome = true)
        ((switch .publicInfo id).mapError (·.during Side.publicInfo.publishing)))
      (fun _ => Split (Deployed p none (Without free id) rs id (some secrets))
        (Deployed p (some id) (Without free id) rp id publicInfo))
      (Roots.Steady (some id, moved publicInfo.isSome id x.2) (Without free id)) := by
  cases publicInfo with
  | none => exact meets_doIf (fun hc => by cases hc) fun _ w hw => hw
  | some entries =>
    refine meets_doIf (fun _ => meets_mapError ?_) fun hc => (hc rfl).elim
    refine (meets_publicInfo (E := fun r => r.Steady (some id) (some id) (Without free id))
      fun other _ => ?_).weaken (fun _ h => h) (fun _ _ h => h) fun w hw => ⟨hw.1.steady hrs, hw.2⟩
    intro faults w hw
    obtain ⟨ho, tree, ht, hp⟩ := hw
    exact meets_switch.weaken (fun _ h => h) (fun _ w h => ⟨h.1, tree, ht, h.2⟩)
      (fun _ h => ⟨h.1, h.2.elim (fun h => h) fun h => h⟩) faults w ⟨ho, hp⟩

theorem meets_prune_deployed {side : Side} {other r₀ : Root} {commit : Option String}
    {entries : List ValidatedSecret} :
    Meets (On side other (Deployed p commit free r₀ id (some entries))) (prune side id)
      (fun _ => On side other (Deployed p commit free r₀ id (some entries)))
      (On side other (Root.Steady commit (some id) free)) := by
  intro faults w hw
  obtain ⟨ho, tree, ht, hp⟩ := hw
  exact meets_prune.weaken (fun _ h => h) (fun _ w h => ⟨h.1, tree, ht, h.2⟩) (fun _ h => h)
    faults w ⟨ho, hp⟩

/-- Both roots were at rest at `rs` and `rp`, and the batches were deployed over them. -/
structure DeployedBoth (p : Platform) (free : String → Prop) (rs rp : Root) (id : String)
    (commit : Option String) (secrets publicInfo : Option (List ValidatedSecret))
    (previous : BTreeMap String String) (w : Roots) : Prop where
  before : ((publicBefore p publicInfo rp).bind (secretsBefore p secrets rs)) = .ok previous
  secrets : Deployed p none free rs id secrets w.secrets
  publicInfo : Deployed p commit free rp id publicInfo w.publicInfo

/-- From the switch that commits on, both roots settle at the new generations. -/
theorem meets_completeBoth {rs rp : Root} {secrets publicInfo : Option (List ValidatedSecret)}
    (hrs : Recovered none x.1 free true rs) (hrp : Recovered x.1 x.2 free true rp) :
    Meets (Committed p x (Without free id) rs rp id secrets publicInfo)
      (completeBoth secrets publicInfo id)
      (fun _ => Split (Deployed p none (Without free id) rs id secrets)
        (Deployed p (moved secrets.isSome id x.1) (Without free id) rp id publicInfo))
      (Roots.Steady (moved secrets.isSome id x.1, moved publicInfo.isSome id x.2)
        (Without free id)) := by
  refine meets_bind (Q := fun _ => Split (Deployed p none (Without free id) rs id secrets)
    (Deployed p (moved secrets.isSome id x.1) (Without free id) rp id publicInfo)) ?_ fun _ => ?_
  · cases secrets with
    | none =>
      exact meets_mapError (meets_touch fun w hw => ⟨by
        rw [show w.secrets = rs from hw.1]
        exact hrs.steady.mono fun _ hk => hk.1, hw.2.steady hrp⟩)
    | some entries =>
      refine meets_bind (meets_mapError (meets_touch fun w hw =>
        ⟨hw.1.steady hrs, hw.2.settles hrp⟩)) fun _ => ?_
      exact meets_switchPublic hrs
  refine meets_bind (Q := fun _ => Split (Deployed p none (Without free id) rs id secrets)
    (Deployed p (moved secrets.isSome id x.1) (Without free id) rp id publicInfo))
    (meets_doIf (fun hs => meets_mapError ?_) fun _ _ h => h) fun _ => ?_
  · cases secrets with
    | none => cases hs
    | some entries =>
      exact (meets_secrets fun _ _ => meets_prune_deployed).weaken (fun _ h => h) (fun _ _ h => h)
        fun w hw => ⟨hw.1, hw.2.steady hrp⟩
  · refine meets_doIf (fun hs => meets_mapError ?_) fun _ _ h => h
    cases publicInfo with
    | none => cases hs
    | some entries =>
      exact (meets_publicInfo fun _ _ => meets_prune_deployed).weaken (fun _ h => h)
        (fun _ _ h => h) fun w hw => ⟨hw.1.steady hrs, hw.2⟩

theorem meets_publishBoth {rs rp : Root} {secrets publicInfo : Option (List ValidatedSecret)}
    (hne : ¬ (secrets.isNone = true ∧ publicInfo.isNone = true))
    (hv : validGeneration id = true) (hc : x.1 ≠ some id) (hrs : Recovered none x.1 free true rs)
    (hrp : Recovered x.1 x.2 free true rp) :
    Meets (Split (· = rs) (· = rp)) (publishBoth p secrets publicInfo id)
      (DeployedBoth p (Without free id) rs rp id (moved secrets.isSome id x.1) secrets publicInfo)
      (fun w => Roots.Steady x (Without free id) w ∨ Roots.Steady
        (moved secrets.isSome id x.1, moved publicInfo.isSome id x.2) (Without free id) w) := by
  rw [publishBoth_eq hne]
  refine meets_bind ((meets_commitBoth hne hv hc hrs hrp).weaken (fun _ h => h) (fun _ _ h => h)
    fun _ h => Or.inl h) fun previous => meets_known fun hprevious => ?_
  refine meets_bind ((meets_completeBoth hrs hrp).weaken (fun _ h => h) (fun _ _ h => h)
    fun _ h => Or.inr h) fun _ => meets_pure fun w hw => ⟨hprevious, hw.1, hw.2⟩

end Together

end Deploy

end NixSecrets
