import NixSecrets.DeployRoot

namespace NixSecrets

namespace Root

/-- The generation `.current` names. -/
def active (r : Root) : Option String :=
  match r.current with
  | some (.generation id) => some id
  | _ => none

def Pointer (r : Root) (id : String) : Prop := r.pending[id]? = some (.generation id)

instance (r : Root) (id : String) : Decidable (r.Pointer id) :=
  inferInstanceAs (Decidable (r.pending[id]? = some (.generation id)))

/-- Where recovery takes a root whose joint deployments commit through `commit`. -/
def finish (commit : Option String) (r : Root) : Option String :=
  match commit with
  | some id => if r.Pointer id then some id else r.active
  | none => r.active

def Whole (r : Root) (id : String) : Prop :=
  validGeneration id = true ∧ ∃ tree, r.generations[id]? = some ⟨tree, true⟩

/-- Every generation a pointer of the root names is there and whole. -/
structure Sound (r : Root) : Prop where
  current : ∀ id, r.active = some id → r.Whole id
  pending : ∀ key id, r.pending[key]? = some (.generation id) → key = id ∧ r.Whole id
  absent : r.present = false → r.current = none ∧ r.pending = ∅

structure Steady (commit settled : Option String) (free : String → Prop) (r : Root) : Prop where
  sound : r.Sound
  settles : r.finish commit = settled
  fresh : ∀ id, free id → id ∉ r.generations

theorem finish_congr {commit : Option String} {r r' : Root} (ha : r'.active = r.active)
    (hp : ∀ id, commit = some id → (r'.Pointer id ↔ r.Pointer id)) :
    r'.finish commit = r.finish commit := by
  cases commit with
  | none => exact ha
  | some id => simp only [finish, hp id rfl, ha]

theorem finish_of_no_pointer {commit : Option String} {r : Root} (h : ∀ id, ¬ r.Pointer id) :
    r.finish commit = r.active := by
  cases commit with
  | none => rfl
  | some id => simp [finish, h id]

/-- A change that leaves the links and the whole generations alone. -/
theorem Steady.same_links {commit settled : Option String} {free free' : String → Prop}
    {r r' : Root} (h : r.Steady commit settled free) (hc : r'.current = r.current)
    (hp : r'.pending = r.pending) (hpr : r'.present = false → r.present = false)
    (hw : ∀ id, (r.active = some id ∨ ∃ key : String, r.pending[key]? = some (.generation id)) →
      r.Whole id → r'.Whole id)
    (hf : ∀ id, free' id → id ∉ r'.generations) : r'.Steady commit settled free' := by
  have ha : r'.active = r.active := by rw [active, active, hc]
  refine ⟨⟨?_, ?_, ?_⟩, ?_, hf⟩
  · intro id hid
    rw [ha] at hid
    exact hw id (Or.inl hid) (h.sound.current id hid)
  · intro key id hk
    rw [hp] at hk
    obtain ⟨he, hwhole⟩ := h.sound.pending key id hk
    exact ⟨he, hw id (Or.inr ⟨key, hk⟩) hwhole⟩
  · intro hn
    rw [hc, hp]
    exact h.sound.absent (hpr hn)
  · refine (finish_congr ha fun id _ => ?_).trans h.settles
    rw [Pointer, Pointer, hp]

theorem Steady.mono {commit settled : Option String} {free free' : String → Prop} {r : Root}
    (h : r.Steady commit settled free) (hf : ∀ id, free' id → free id) :
    r.Steady commit settled free' :=
  ⟨h.sound, h.settles, fun id hid => h.fresh id (hf id hid)⟩

theorem Whole.mem {r : Root} {id : String} (h : r.Whole id) : id ∈ r.generations := by
  obtain ⟨_, tree, ht⟩ := h
  rw [Std.ExtTreeMap.mem_iff_isSome_getElem?, ht]
  rfl

theorem whole_of_generations {r r' : Root} {id : String}
    (h : r'.generations[id]? = r.generations[id]?) (hw : r.Whole id) : r'.Whole id := by
  obtain ⟨hv, tree, ht⟩ := hw
  exact ⟨hv, tree, h.trans ht⟩

/-- Publishing a generation under a name that was free. -/
theorem Steady.publish {commit settled : Option String} {free : String → Prop} {r : Root}
    {id : String} (h : r.Steady commit settled free) (hid : id ∉ r.generations)
    (generation : Generation) (staging : BTreeSet String) :
    { r with staging, generations := r.generations.insert id generation }.Steady commit settled
      (fun k => free k ∧ k ≠ id) := by
  refine h.same_links rfl rfl (fun hp => hp) ?_ ?_
  · intro k _ hw
    have hne : id ≠ k := by
      rintro rfl
      exact hid hw.mem
    refine whole_of_generations ?_ hw
    rw [Std.ExtTreeMap.getElem?_insert]
    simp [hne]
  · rintro k ⟨hk, hne⟩ hmem
    rw [Std.ExtTreeMap.mem_insert] at hmem
    rcases hmem with he | hmem
    · exact hne (Std.LawfulEqOrd.eq_of_compare he).symm
    · exact h.fresh k hk hmem

/-- Breaking or removing a generation no pointer names. -/
theorem Steady.discard {commit settled : Option String} {free : String → Prop} {r : Root}
    {id : String} (h : r.Steady commit settled free) (ha : r.active ≠ some id)
    (hp : ∀ key : String, r.pending[key]? ≠ some (.generation id))
    {generations : BTreeMap String Generation}
    (hg : ∀ k, k ≠ id → generations[k]? = r.generations[k]?)
    (hm : ∀ k, k ∈ generations → k ∈ r.generations) :
    { r with generations }.Steady commit settled free := by
  refine h.same_links rfl rfl (fun hp => hp) ?_ ?_
  · intro k hk hw
    refine whole_of_generations (hg k ?_) hw
    rintro rfl
    rcases hk with hk | ⟨key, hk⟩
    · exact ha hk
    · exact hp key hk
  · exact fun k hk hmem => h.fresh k hk (hm k hmem)

/-- A pending pointer that is not the committed one is removed. -/
theorem Steady.unlink {commit settled : Option String} {free : String → Prop} {r : Root}
    {id : String} (h : r.Steady commit settled free) (hc : commit ≠ some id) :
    { r with pending := r.pending.erase id }.Steady commit settled free := by
  refine ⟨⟨h.sound.current, ?_, ?_⟩, ?_, h.fresh⟩
  · intro key k hk
    rw [Std.ExtTreeMap.getElem?_erase] at hk
    split at hk
    next => cases hk
    next => exact h.sound.pending key k hk
  · intro hn
    obtain ⟨h1, h2⟩ := h.sound.absent hn
    refine ⟨h1, ?_⟩
    simp [h2]
  · rw [← h.settles]
    refine finish_congr rfl fun k hk => ?_
    have hne : id ≠ k := by
      rintro rfl
      exact hc hk
    simp [Pointer, Std.ExtTreeMap.getElem?_erase, hne]

/-- The pending pointer of a generation that was never committed. -/
theorem Steady.point {commit settled : Option String} {free : String → Prop} {r : Root}
    {id : String} (h : r.Steady commit settled free) (hc : commit ≠ some id)
    (hp : r.present = true) (hw : r.Whole id) :
    { r with pending := r.pending.insert id (.generation id) }.Steady commit settled free := by
  refine ⟨⟨h.sound.current, ?_, ?_⟩, ?_, h.fresh⟩
  · intro key k hk
    rw [Std.ExtTreeMap.getElem?_insert] at hk
    split at hk
    next he =>
      cases hk
      exact ⟨(Std.LawfulEqOrd.eq_of_compare he).symm, hw⟩
    next => exact h.sound.pending key k hk
  · intro hf
    rw [show r.present = false from hf] at hp
    cases hp
  · rw [← h.settles]
    refine finish_congr rfl fun k hk => ?_
    have hne : id ≠ k := by
      rintro rfl
      exact hc hk
    simp [Pointer, Std.ExtTreeMap.getElem?_insert, hne]

/-- A service link never takes the place of a generation pointer. -/
theorem Steady.addLink {commit settled : Option String} {free : String → Prop} {r : Root}
    {name : String} (h : r.Steady commit settled free) (hp : r.present = true)
    (hn : r.link? name = none) : (r.addLink name (.service name)).Steady commit settled free := by
  unfold Root.addLink
  unfold link? at hn
  split at hn
  next hc =>
    rw [if_pos hc]
    have ha : { r with current := some (Target.service name) }.active = r.active := by
      rw [active, active, hn]
    refine ⟨⟨?_, h.sound.pending, ?_⟩, ?_, h.fresh⟩
    · intro id hid
      rw [ha] at hid
      exact h.sound.current id hid
    · intro hf
      rw [show r.present = false from hf] at hp
      cases hp
    · exact (finish_congr ha fun id _ => Iff.rfl).trans h.settles
  next hc =>
    rw [if_neg hc]
    split at hn
    next key hk =>
      have hlink {k id : String} : (r.pending.insert key (.service name))[k]? =
          some (.generation id) ↔ r.pending[k]? = some (.generation id) := by
        rw [Std.ExtTreeMap.getElem?_insert]
        split
        next he => simp [← Std.LawfulEqOrd.eq_of_compare he, hn]
        next => rfl
      refine ⟨⟨h.sound.current, ?_, ?_⟩, ?_, h.fresh⟩
      · exact fun k id hid => h.sound.pending k id (hlink.mp hid)
      · intro hf
        rw [show r.present = false from hf] at hp
        cases hp
      · rw [← h.settles]
        exact finish_congr rfl fun id _ => hlink
    next => exact ⟨⟨h.sound.current, h.sound.pending, h.sound.absent⟩, h.settles, h.fresh⟩

/-- Once the only pointer left is promoted, the root settles at its generation. -/
theorem Steady.promote {commit settled : Option String} {free : String → Prop} {r : Root}
    {id : String} (h : r.Steady commit settled free) (hp : r.Pointer id)
    (ho : ∀ key, r.Pointer key → key = id) :
    (r.promote id).Steady commit (some id) free ∧ (r.promote id).active = some id ∧
      ∀ key, ¬ (r.promote id).Pointer key := by
  have he : r.promote id =
      { r with current := some (.generation id), pending := r.pending.erase id } := by
    rw [Root.promote, show r.pending[id]? = some (.generation id) from hp]
  have hnone (key : String) : ¬ (r.promote id).Pointer key := by
    rw [he, Pointer, Std.ExtTreeMap.getElem?_erase]
    intro hk
    split at hk
    next => cases hk
    next hne => exact hne (by simp [ho key hk])
  have hpresent : r.present = false → False := by
    intro hf
    rw [Pointer, (h.sound.absent hf).2] at hp
    simp at hp
  refine ⟨⟨⟨?_, ?_, ?_⟩, ?_, ?_⟩, by rw [he]; rfl, hnone⟩
  · intro k hk
    rw [he] at hk ⊢
    cases hk
    exact (h.sound.pending id id hp).2
  · intro key k hk
    rw [he] at hk ⊢
    rw [Std.ExtTreeMap.getElem?_erase] at hk
    split at hk
    next => cases hk
    next => exact h.sound.pending key k hk
  · intro hf
    rw [he] at hf
    exact (hpresent hf).elim
  · rw [finish_of_no_pointer hnone, he]
    rfl
  · rw [he]
    exact h.fresh

end Root

end NixSecrets
