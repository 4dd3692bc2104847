import NixSecrets.StorePersistence
import Mathlib.Data.List.Nodup
import Mathlib.Data.List.Perm.Subperm

namespace NixSecrets.Inventory

/-- Every entry of the first registry is in the second, with the same meaning. -/
def Extends (registry registry' : BTreeMap String String) : Prop :=
  ∀ (reference : String) id, registry[reference]? = some id → registry'[reference]? = some id

theorem Extends.rfl {registry : BTreeMap String String} : Extends registry registry :=
  fun _ _ h => h

theorem Extends.trans {r₁ r₂ r₃ : BTreeMap String String} (h : Extends r₁ r₂) (h' : Extends r₂ r₃) :
    Extends r₁ r₃ := fun reference id hr => h' reference id (h reference id hr)

theorem registryReference_inj {name : String} {m n : Nat}
    (h : registryReference name m = registryReference name n) : m = n := by
  have hdigits : Nat.toDigits 10 m = Nat.toDigits 10 n := by
    simpa [registryReference, Nat.toString_eq_ofList_toDigits] using congrArg String.toList h
  rw [← Nat.ofDigitChars_ten_toDigits (n := m), hdigits, Nat.ofDigitChars_ten_toDigits]

theorem freeRevision_taken {registry : BTreeMap String String} {name : String} {fuel revision : Nat}
    (h : registryReference name (freeRevision registry name fuel revision) ∈ registry) :
    ∀ i ≤ fuel, registryReference name (revision + i) ∈ registry := by
  induction fuel generalizing revision with
  | zero =>
    intro i hi
    have hzero : i = 0 := by omega
    rw [hzero]
    exact h
  | succ fuel ih =>
    rw [freeRevision] at h
    split at h
    next htaken =>
      have hrest := ih h
      intro i hi
      cases i with
      | zero => exact htaken
      | succ i =>
        have hi' := hrest i (by omega)
        rwa [show revision + 1 + i = revision + (i + 1) by omega] at hi'
    next hfree => exact absurd h hfree

/-- The loop over revisions ends on one that no entry has. -/
theorem freeReference_new (registry : BTreeMap String String) (name : String) :
    freeReference registry name ∉ registry := by
  intro h
  have htaken := freeRevision_taken h
  let references := (List.range (registry.size + 1)).map (registryReference name)
  have hnodup : references.Nodup :=
    List.nodup_range.map fun m n hmn => registryReference_inj hmn
  have hsub : references ⊆ registry.keys := by
    intro reference hr
    obtain ⟨i, hi, rfl⟩ := List.mem_map.mp hr
    have hi' := htaken i (by simpa using List.mem_range.mp hi |> Nat.lt_succ_iff.mp)
    rw [Nat.zero_add] at hi'
    exact Std.ExtTreeMap.mem_keys.mpr hi'
  have hlength := (hnodup.subperm hsub).length_le
  rw [List.length_map, List.length_range, Std.ExtTreeMap.length_keys] at hlength
  omega

theorem intern_extends (name id : String) (registry : BTreeMap String String) :
    Extends registry (intern name id registry).2 := by
  intro reference value hr
  have hmem : reference ∈ registry := Std.ExtTreeMap.mem_iff_isSome_getElem?.mpr (by rw [hr]; rfl)
  simp only [intern]
  rw [Std.ExtTreeMap.getElem?_insertIfNew, if_neg, hr]
  rintro ⟨hc, hn⟩
  rw [Std.LawfulEqOrd.eq_of_compare hc] at hn
  exact hn hmem

/-- A recipient is referred to by an entry that names it, an old one or a new one. -/
theorem intern_denotes (name id : String) (registry : BTreeMap String String) :
    (intern name id registry).2[(intern name id registry).1]? = some id := by
  simp only [intern]
  split
  next entry hfind =>
    have hmem := List.mem_of_find?_eq_some hfind
    have hid := List.find?_some hfind
    simp only [Bool.and_eq_true, beq_iff_eq] at hid
    have hget := Std.ExtTreeMap.mem_toList_iff_getElem?_eq_some.mp hmem
    rw [Std.ExtTreeMap.getElem?_insertIfNew, if_neg, hget, hid.2]
    rintro ⟨_, hn⟩
    exact hn (Std.ExtTreeMap.mem_iff_isSome_getElem?.mpr (by rw [hget]; rfl))
  next =>
    have hnew := freeReference_new registry name
    rw [Std.ExtTreeMap.getElem?_insertIfNew, if_pos ⟨Std.ReflCmp.compare_self, hnew⟩]

theorem lookUp_extends {registry registry' : BTreeMap String String} {refs ids : List String}
    (he : Extends registry registry') (h : lookUp registry refs = .ok ids) :
    lookUp registry' refs = .ok ids := by
  induction refs generalizing ids with
  | nil => exact h
  | cons reference refs ih =>
    rw [lookUp] at h ⊢
    split at h
    next id hr =>
      rw [he reference id hr]
      cases hrest : lookUp registry refs with
      | error e => rw [hrest] at h; cases h
      | ok rest =>
        rw [hrest] at h
        simp only [ih hrest]
        exact h
    next => cases h

theorem internAll_extends (pairs : List (String × String)) (registry : BTreeMap String String) :
    Extends registry (internAll pairs registry).2 := by
  induction pairs generalizing registry with
  | nil => exact Extends.rfl
  | cons pair pairs ih =>
    obtain ⟨name, id⟩ := pair
    exact (intern_extends name id registry).trans (ih (intern name id registry).2)

theorem internAll_denotes (pairs : List (String × String)) (registry : BTreeMap String String) :
    lookUp (internAll pairs registry).2 (internAll pairs registry).1 = .ok (pairs.map Prod.snd) := by
  induction pairs generalizing registry with
  | nil => rfl
  | cons pair pairs ih =>
    obtain ⟨name, id⟩ := pair
    have hfirst := internAll_extends pairs (intern name id registry).2 _ _
      (intern_denotes name id registry)
    have hrest := ih (intern name id registry).2
    simp only [internAll, lookUp, hfirst, hrest, List.map_cons]
    rfl

theorem hydrateRecord_extends {d d' : StoreDocument} {record envelope : EncryptedSecret}
    (he : Extends d.recipientRegistry d'.recipientRegistry)
    (h : hydrateRecord d record = .ok envelope) : hydrateRecord d' record = .ok envelope := by
  unfold hydrateRecord at h ⊢
  split
  next hrefs =>
    rw [if_pos hrefs] at h
    exact h
  next hrefs =>
    rw [if_neg hrefs] at h
    split
    next hids =>
      rw [if_pos hids] at h
      cases h
    next hids =>
      rw [if_neg hids] at h
      cases hl : lookUp d.recipientRegistry record.recipientRefs with
      | error e => rw [hl] at h; cases h
      | ok ids =>
        rw [hl] at h
        rw [lookUp_extends he hl]
        exact h

end NixSecrets.Inventory
