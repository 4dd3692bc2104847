import NixSecrets.DeploySteady

namespace NixSecrets

open Faulty

def Side.other : Side → Side
  | .secrets => .publicInfo
  | .publicInfo => .secrets

/-- The generation the other root's `.current` commits joint deployments with. -/
def Side.commit (side : Side) (other : Root) : Option String :=
  match side with
  | .secrets => none
  | .publicInfo => other.active

/-- `R` holds of the root at `side`; the other root is `other`. -/
def On (side : Side) (other : Root) (R : Root → Prop) (w : Roots) : Prop :=
  w.at side.other = other ∧ R (w.at side)

theorem Roots.at_update (w : Roots) (side : Side) (f : Root → Root) :
    (w.update side f).at side = f (w.at side) := by
  cases side <;> rfl

theorem Roots.at_update_other (w : Roots) (side : Side) (f : Root → Root) :
    (w.update side f).at side.other = w.at side.other := by
  cases side <;> rfl

namespace Root

theorem active_eq_some {r : Root} {id : String} :
    r.active = some id ↔ r.current = some (.generation id) := by
  unfold active
  cases hc : r.current with
  | none => simp
  | some target => cases target <;> simp

theorem currentGeneration_ok {r : Root} {id : Option String} (h : r.currentGeneration = .ok id) :
    id = r.active := by
  unfold currentGeneration at h
  unfold active
  cases hc : r.current with
  | none => rw [hc] at h; cases h; rfl
  | some target =>
    rw [hc] at h
    cases target with
    | generation g =>
      simp only at h
      split at h
      next => cases h; rfl
      next => cases h
    | service name => cases h

theorem checkPointers_ok {side : Side} {links : List (String × Target)} {ids : List String}
    (h : checkPointers side links = .ok ids) :
    ids = links.map Prod.fst ∧ ∀ x ∈ links, x.2 = .generation x.1 := by
  induction links generalizing ids with
  | nil => cases h; simp
  | cons x rest ih =>
    obtain ⟨name, target⟩ := x
    unfold checkPointers at h
    split at h
    next hc =>
      obtain ⟨tail, ht, h⟩ := except_bind_ok.mp h
      cases h
      obtain ⟨rfl, hall⟩ := ih ht
      refine ⟨rfl, fun y hy => ?_⟩
      rcases List.mem_cons.mp hy with rfl | hy
      · exact hc.2
      · exact hall y hy
    next => cases h

theorem pendingPointers_ok {side : Side} {r : Root} {ids : List String}
    (h : r.pendingPointers side = .ok ids) :
    (∀ k, k ∈ ids ↔ k ∈ r.pending) ∧ ∀ (k : String) t, r.pending[k]? = some t → t = .generation k := by
  obtain ⟨rfl, hall⟩ := checkPointers_ok h
  constructor
  · intro k
    rw [Std.ExtTreeMap.map_fst_toList_eq_keys, Std.ExtTreeMap.mem_keys]
  · intro k t hk
    exact hall (k, t) (Std.ExtTreeMap.mem_toList_iff_getElem?_eq_some.mpr hk)

end Root

theorem links_empty {links : BTreeMap String Target} (h : ∀ k, k ∉ links) : links = ∅ := by
  refine Std.ExtTreeMap.ext_getElem? fun k => ?_
  rw [Std.ExtTreeMap.getElem?_eq_none (h k)]
  simp

namespace Deploy

section Rules

variable {side : Side} {other : Root} {R S E : Root → Prop}

theorem meets_change {f : Root → Root} (h : ∀ r, R r → S (f r)) (he : ∀ r, R r → E r) :
    Meets (On side other R) (change side f) (fun _ => On side other S) (On side other E) := by
  refine meets_op ?_ ?_
  · rintro w ⟨ho, hr⟩
    exact ⟨by rw [w.at_update_other, ho], by rw [w.at_update]; exact h _ hr⟩
  · exact fun w hw => ⟨hw.1, he _ hw.2⟩

theorem meets_touch {P E : Roots → Prop} (he : ∀ w, P w → E w) :
    Meets P touch (fun _ => P) E :=
  meets_op (fun _ h => h) he

theorem meets_root {P E : Roots → Prop} (he : ∀ w, P w → E w) :
    Meets P (root side) (fun r w => w.at side = r ∧ P w) E := by
  refine meets_bind (meets_touch he) fun _ => ?_
  refine meets_bind (meets_read (R := fun s w => w = s ∧ P w) fun w hw => ⟨rfl, hw⟩) fun s =>
    meets_pure ?_
  rintro w ⟨rfl, hw⟩
  exact ⟨rfl, hw⟩

/-- A root that was just read is known. -/
theorem meets_bind_root {α : Type} {f : Root → Deploy α} {Q : α → Roots → Prop}
    (he : ∀ r, R r → E r)
    (h : ∀ r, R r → Meets (On side other (· = r)) (f r) Q (On side other E)) :
    Meets (On side other R) (root side >>= f) Q (On side other E) := by
  refine meets_bind (meets_root fun w hw => ⟨hw.1, he _ hw.2⟩) fun r faults w hw => ?_
  obtain ⟨hr, ho, hR⟩ := hw
  exact h r (hr ▸ hR) faults w ⟨ho, hr⟩

theorem on_of_eq {r : Root} {w : Roots} (h : On side other (· = r) w) (hr : R r) :
    On side other R w :=
  ⟨h.1, by rw [show w.at side = r from h.2]; exact hr⟩

end Rules

section Recover

variable {side : Side} {other : Root} {commit settled : Option String} {free : String → Prop}
  {present : Bool}

/-- Removing a generation no pointer names keeps whatever does not look at it. -/
theorem meets_removeGeneration {F : Root → Prop} {id : String}
    (hu : ∀ r, r.Sound → F r →
      r.active ≠ some id ∧ ∀ key : String, r.pending[key]? ≠ some (.generation id))
    (hf : ∀ (r : Root) (generations : BTreeMap String Generation),
      (∀ k, k ≠ id → generations[k]? = r.generations[k]?) → F r → F { r with generations }) :
    Meets (On side other fun r => r.Steady commit settled free ∧ F r) (removeGeneration side id)
      (fun _ => On side other fun r => r.Steady commit settled free ∧ F r)
      (On side other (Root.Steady commit settled free)) := by
  refine meets_bind (meets_change (S := fun r => r.Steady commit settled free ∧ F r) ?_
    fun r h => h.1) fun _ => meets_change ?_ fun r h => h.1
  · rintro r ⟨hs, hr⟩
    have hg (k : String) (hk : k ≠ id) : (r.generations.modify id
        fun generation => { generation with whole := false })[k]? = r.generations[k]? := by
      rw [Std.ExtTreeMap.getElem?_modify]
      simp [Ne.symm hk]
    have hn := hu r hs.sound hr
    exact ⟨hs.discard hn.1 hn.2 hg fun k hk => Std.ExtTreeMap.mem_modify.mp hk, hf r _ hg hr⟩
  · rintro r ⟨hs, hr⟩
    have hg (k : String) (hk : k ≠ id) : (r.generations.erase id)[k]? = r.generations[k]? := by
      rw [Std.ExtTreeMap.getElem?_erase]
      simp [Ne.symm hk]
    have hn := hu r hs.sound hr
    exact ⟨hs.discard hn.1 hn.2 hg fun k hk => (Std.ExtTreeMap.mem_erase.mp hk).2, hf r _ hg hr⟩

/-- Before the pointers in `rest` are discarded; `ids` were pending at first. -/
structure Discarding (commit settled : Option String) (free : String → Prop) (present : Bool)
    (current : Option Target) (ids rest : List String) (r : Root) : Prop where
  steady : r.Steady commit settled free
  present : r.present = present
  current : r.current = current
  left : ∀ (k : String) t, r.pending[k]? = some t → t = .generation k ∧ (k ∈ rest ∨ commit = some k)
  committed : ∀ k, commit = some k → (k ∈ r.pending ↔ k ∈ ids)
  uncommitted : ∀ k ∈ rest, commit ≠ some k

theorem Discarding.erase {current : Option Target} {ids rest : List String} {id : String} {r : Root}
    (h : Discarding commit settled free present current ids (id :: rest) r) :
    Discarding commit settled free present current ids rest { r with pending := r.pending.erase id } where
  steady := h.steady.unlink (h.uncommitted id List.mem_cons_self)
  present := h.present
  current := h.current
  left := by
    intro k t hk
    rw [Std.ExtTreeMap.getElem?_erase] at hk
    split at hk
    next => cases hk
    next hne =>
      obtain ⟨ht, hm⟩ := h.left k t hk
      refine ⟨ht, hm.imp_left fun hm => ?_⟩
      rcases List.mem_cons.mp hm with rfl | hm
      · exact absurd (by simp) hne
      · exact hm
  committed := by
    intro k hk
    have hne : id ≠ k := fun he => h.uncommitted id List.mem_cons_self (he ▸ hk)
    rw [Std.ExtTreeMap.mem_erase, h.committed k hk]
    simp [hne]
  uncommitted := fun k hk => h.uncommitted k (List.mem_cons_of_mem _ hk)

theorem meets_discard {current : Option Target} {active : Option String} {ids rest : List String}
    {id : String} (ha : ∀ k, active = some k ↔ current = some (.generation k)) :
    Meets (On side other (Discarding commit settled free present current ids (id :: rest)))
      (discard side active id)
      (fun _ => On side other (Discarding commit settled free present current ids rest))
      (On side other (Root.Steady commit settled free)) := by
  refine meets_bind (meets_change (S := fun r =>
    Discarding commit settled free present current ids rest r ∧ id ∉ r.pending) ?_ fun r h => h.steady)
    fun _ => meets_bind_root (fun r h => h.1.steady) fun r hr => ?_
  · exact fun r h => ⟨h.erase, by simp⟩
  · obtain ⟨hd, hn⟩ := hr
    refine meets_doIf (fun hc => ?_) fun _ w hw => on_of_eq hw hd
    have hcur : current ≠ some (.generation id) := fun h => hc.1 ((ha id).mpr h)
    have hpen (key : String) : r.pending[key]? ≠ some (.generation id) := by
      intro hk
      have hkey := (hd.left key _ hk).1
      cases hkey
      exact hn (Std.ExtTreeMap.mem_iff_isSome_getElem?.mpr (by rw [hk]; rfl))
    refine (meets_removeGeneration (F := fun r' => r'.present = present ∧ r'.current = current ∧
      r'.pending = r.pending) ?_ fun r' _ _ h => h).weaken ?_ ?_ fun w hw => hw
    · rintro r' _ ⟨_, hcur', hpen'⟩
      refine ⟨fun h => hcur (hcur' ▸ Root.active_eq_some.mp h), ?_⟩
      rw [hpen']
      exact hpen
    · exact fun w hw => on_of_eq hw ⟨hd.steady, hd.present, hd.current, rfl⟩
    · rintro _ w ⟨ho, hs, hpr, hc', hp⟩
      exact ⟨ho, hs, hpr, hc', hp ▸ hd.left, hp ▸ hd.committed, hd.uncommitted⟩

/-- The root is recovered: nothing is pending, and `.current` is absent or names a
generation. -/
structure Recovered (commit settled : Option String) (free : String → Prop) (present : Bool)
    (r : Root) : Prop where
  steady : r.Steady commit settled free
  present : r.present = present
  pending : r.pending = ∅
  current : r.currentGeneration = .ok r.active

theorem meets_committed {R E : Root → Prop} (he : ∀ r, R r → E r) :
    Meets (On side other R) (committed side)
      (fun id => On side other fun r => R r ∧ id = side.commit other) (On side other E) := by
  cases side with
  | secrets => exact meets_pure fun w hw => ⟨hw.1, hw.2, rfl⟩
  | publicInfo =>
    refine meets_bind (meets_root fun w hw => ⟨hw.1, he _ hw.2⟩) fun o =>
      meets_ofExcept ?_ fun w hw => ⟨hw.2.1, he _ hw.2.2⟩
    rintro id w hid ⟨rfl, hw⟩
    refine ⟨hw.1, hw.2, ?_⟩
    rw [← hw.1]
    exact Root.currentGeneration_ok hid

theorem Discarding.start {ids : List String} {r : Root}
    (h : r.Steady commit settled free) (hp : r.present = present)
    (hids : r.pendingPointers side = .ok ids) :
    Discarding commit settled free present r.current ids (ids.filter fun id => commit ≠ some id) r where
  steady := h
  present := hp
  current := rfl
  left := by
    intro k t hk
    refine ⟨(Root.pendingPointers_ok hids).2 k t hk, ?_⟩
    by_cases hc : commit = some k
    · exact Or.inr hc
    · refine Or.inl (List.mem_filter.mpr ⟨?_, by simpa using hc⟩)
      exact ((Root.pendingPointers_ok hids).1 k).mpr
        (Std.ExtTreeMap.mem_iff_isSome_getElem?.mpr (by rw [hk]; rfl))
  committed := fun k _ => ((Root.pendingPointers_ok hids).1 k).symm
  uncommitted := fun k hk => by simpa using (List.mem_filter.mp hk).2

theorem Discarding.recovered {current : Option Target} {ids : List String} {r : Root}
    (h : Discarding commit settled free present current ids [] r) (hn : ∀ k, commit = some k → k ∉ ids) :
    r.pending = ∅ := by
  refine links_empty fun k hk => ?_
  obtain ⟨t, ht⟩ := Option.isSome_iff_exists.mp (Std.ExtTreeMap.mem_iff_isSome_getElem?.mp hk)
  rcases (h.left k t ht).2 with hm | hc
  · cases hm
  · exact hn k hc ((h.committed k hc).mp hk)

/-- Promoting the committed pointer is where the root was going to settle. -/
theorem Discarding.forwarded {current : Option Target} {ids : List String} {id : String} {r : Root}
    (h : Discarding commit settled free present current ids [] r) (hc : commit = some id) (hid : id ∈ ids) :
    Recovered commit settled free present (r.promote id) := by
  obtain ⟨t, ht⟩ := Option.isSome_iff_exists.mp
    (Std.ExtTreeMap.mem_iff_isSome_getElem?.mp ((h.committed id hc).mpr hid))
  have hpointer : r.Pointer id := by rw [Root.Pointer, ht, (h.left id t ht).1]
  have honly (k : String) (hk : k ∈ r.pending) : k = id := by
    obtain ⟨t', ht'⟩ := Option.isSome_iff_exists.mp (Std.ExtTreeMap.mem_iff_isSome_getElem?.mp hk)
    rcases (h.left k t' ht').2 with hm | hk'
    · cases hm
    · exact Option.some.inj (hk'.symm.trans hc)
  have hsettled : settled = some id := by
    rw [← h.steady.settles, hc, Root.finish, if_pos hpointer]
  obtain ⟨hs, ha, _⟩ := h.steady.promote hpointer fun k hk =>
    honly k (Std.ExtTreeMap.mem_iff_isSome_getElem?.mpr (by
      rw [show r.pending[k]? = some (.generation k) from hk]; rfl))
  have he : r.promote id =
      { r with current := some (.generation id), pending := r.pending.erase id } := by
    rw [Root.promote, show r.pending[id]? = some (.generation id) from hpointer]
  refine ⟨hsettled ▸ hs, by rw [he]; exact h.present, ?_, ?_⟩
  · rw [he]
    refine links_empty fun k hk => ?_
    obtain ⟨hne, hk⟩ := Std.ExtTreeMap.mem_erase.mp hk
    exact hne (by simp [honly k hk])
  · rw [ha, Root.currentGeneration, he]
    simp [(h.steady.sound.pending id id hpointer).2.1]

theorem meets_forward {current : Option Target} {ids : List String} {id : String}
    (hc : commit = some id) (hid : id ∈ ids) :
    Meets (On side other (Discarding commit settled free present current ids [])) (forward side id)
      (fun _ => On side other (Recovered commit settled free present))
      (On side other (Root.Steady commit settled free)) := by
  refine meets_bind_root (fun r h => h.steady) fun r hr => ?_
  refine meets_bind (meets_refuseIf (fun w _ hw => hw) fun w hw => on_of_eq hw hr.steady) fun _ => ?_
  refine meets_bind (meets_change ?_ ?_) fun _ => meets_touch fun w hw => ⟨hw.1, hw.2.steady⟩
  · rintro r' rfl
    exact hr.forwarded hc hid
  · rintro r' rfl
    exact hr.steady

/-- Recovery keeps where the root settles, however it ends, and gets it there. -/
theorem meets_recoverPending :
    Meets (On side other fun r => r.Steady (side.commit other) settled free ∧ r.present = present)
      (recoverPending side)
      (fun _ => On side other (Recovered (side.commit other) settled free present))
      (On side other (Root.Steady (side.commit other) settled free)) := by
  refine meets_bind (meets_committed fun r h => h.1) fun committed => ?_
  refine meets_bind_root (fun r h => h.1.1) fun r hr => ?_
  obtain ⟨⟨hs, hp⟩, rfl⟩ := hr
  have failed (w : Roots) (hw : On side other (· = r) w) :
      On side other (Root.Steady (side.commit other) settled free) w := on_of_eq hw hs
  refine meets_bind_ofExcept failed fun active hactive => ?_
  refine meets_bind_root (fun r' h => h ▸ hs) fun r' hr' => ?_
  subst hr'
  refine meets_bind_ofExcept failed fun ids hids => ?_
  have hact := Root.currentGeneration_ok hactive
  have hloop : Meets
      (On side other (Discarding (side.commit other) settled free present r'.current ids
        (ids.filter fun id => side.commit other ≠ some id)))
      (each (discard side active) (ids.filter fun id => side.commit other ≠ some id))
      (fun _ => On side other (Discarding (side.commit other) settled free present r'.current ids []))
      (On side other (Root.Steady (side.commit other) settled free)) := by
    refine meets_each (I := fun rest => On side other
      (Discarding (side.commit other) settled free present r'.current ids rest)) fun id rest => ?_
    refine meets_discard fun k => ?_
    rw [hact]
    exact Root.active_eq_some
  refine meets_bind (hloop.weaken (fun w hw => on_of_eq hw (Discarding.start hs hp hids))
    (fun _ _ h => h) fun _ h => h) fun _ => ?_
  refine meets_bind (meets_doIf (fun _ => meets_bind (meets_touch ?_) fun _ => meets_touch ?_)
    fun _ w hw => hw) fun _ => ?_
  · exact fun w hw => ⟨hw.1, hw.2.steady⟩
  · exact fun w hw => ⟨hw.1, hw.2.steady⟩
  have clean {r₁ : Root} (hd : Discarding (side.commit other) settled free present r'.current ids [] r₁)
      (hn : ∀ k, side.commit other = some k → k ∉ ids) :
      Recovered (side.commit other) settled free present r₁ := by
    refine ⟨hd.steady, hd.present, hd.recovered hn, ?_⟩
    have hcur : r₁.currentGeneration = r'.currentGeneration := by
      rw [Root.currentGeneration, Root.currentGeneration, hd.current]
    rw [hcur, hactive, hact, Root.active, Root.active, hd.current]
  cases hc : side.commit other with
  | none =>
    rw [hc] at clean
    exact meets_pure fun w hw => ⟨hw.1, clean hw.2 (by simp)⟩
  | some id =>
    rw [hc] at clean
    refine meets_doIf (fun hid => meets_forward rfl hid) fun hn w hw => ⟨hw.1, clean hw.2 ?_⟩
    intro k hk
    cases hk
    exact hn

theorem meets_recoverLocked :
    Meets (On side other fun r => r.Steady (side.commit other) settled free ∧ r.present = present)
      (recoverLocked side)
      (fun _ => On side other (Recovered (side.commit other) settled free present))
      (On side other (Root.Steady (side.commit other) settled free)) :=
  meets_mapError meets_recoverPending

end Recover

end Deploy

end NixSecrets
