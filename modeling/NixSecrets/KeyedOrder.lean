import Mathlib.Algebra.Order.Ring.Nat
import Mathlib.Data.List.Basic

namespace NixSecrets

section

variable {α κ : Type} [DecidableEq κ] (key : α → κ)

/-- The events of one key, in their order. -/
def about (k : κ) (events : List α) : List α := events.filter fun a => key a = k

theorem about_append (k : κ) (xs ys : List α) :
    about key k (xs ++ ys) = about key k xs ++ about key k ys := List.filter_append _ _

theorem mem_about {k : κ} {events : List α} {a : α} :
    a ∈ about key k events ↔ a ∈ events ∧ key a = k := by
  simp [about]

theorem about_singleton {k : κ} {a : α} : about key k [a] = if key a = k then [a] else [] := by
  by_cases h : key a = k <;> simp [about, h]

/-- An event that overtakes only events of other keys changes the order of no key. -/
theorem about_move {front rest : List α} {a : α} (h : ∀ x ∈ front, key x ≠ key a) (k : κ) :
    about key k (a :: (front ++ rest)) = about key k (front ++ a :: rest) := by
  by_cases hk : key a = k
  · have hfront : about key k front = [] := by
      refine List.filter_eq_nil_iff.mpr fun x hx => ?_
      have hne := h x hx
      rw [hk] at hne
      simpa using hne
    have hcons (events : List α) : about key k (a :: events) = a :: about key k events := by
      simp [about, hk]
    rw [hcons, about_append, about_append, hcons, hfront]
    rfl
  · have hcons (events : List α) : about key k (a :: events) = about key k events := by
      simp [about, hk]
    rw [hcons, about_append, about_append, hcons]

theorem mem_of_about {xs ys : List α} (h : ∀ k, about key k xs = about key k ys) {a : α} (ha : a ∈ xs) :
    a ∈ ys := by
  have hx : a ∈ about key (key a) xs := (mem_about key).mpr ⟨ha, rfl⟩
  rw [h (key a)] at hx
  exact ((mem_about key).mp hx).1

/-- What relates events of the same key is seen in the events of each key. -/
theorem pairwise_iff_about {R : α → α → Prop} {events : List α} :
    events.Pairwise (fun a b => key a = key b → R a b) ↔
      ∀ k, (about key k events).Pairwise (fun a b => key a = key b → R a b) := by
  constructor
  · intro h k
    exact h.sublist List.filter_sublist
  · intro h
    refine List.pairwise_iff_forall_sublist.mpr fun {a b} hab hkey => ?_
    have hpair : List.Sublist [a, b] (about key (key a) events) := by
      have hfiltered := hab.filter fun x => decide (key x = key a)
      simpa [about, hkey] using hfiltered
    exact List.pairwise_iff_forall_sublist.mp (h (key a)) hpair hkey

end

end NixSecrets
