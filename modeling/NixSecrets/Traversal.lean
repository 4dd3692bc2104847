import Mathlib.Algebra.Order.Ring.Nat
import Mathlib.Data.List.Forall2

namespace NixSecrets

variable {ε α β : Type}

/-- The list in pieces of the size, the last of them with what is left. -/
def chunks (size : Nat) (xs : List α) : List (List α) := (xs.toChunksAux (size - 1) 0).2

/-- Runs the inputs in waves of as many as there are workers, and reports the first error in their order. -/
def orderedParallel (workers : Nat) (run : α → Except ε β) (inputs : List α) : Except ε (List β) := do
  let waves ← (chunks (max workers 1) inputs).mapM (·.mapM run)
  return waves.flatten

theorem toChunksAux_flatten (n : Nat) (xs : List α) (i : Nat) :
    (xs.toChunksAux n i).1 ++ (xs.toChunksAux n i).2.flatten = xs := by
  induction xs generalizing i with
  | nil => rfl
  | cons x xs ih =>
    cases i with
    | zero =>
      have h := ih n
      simp only [List.toChunksAux, List.flatten_cons, List.nil_append, List.cons_append]
      rw [h]
    | succ i =>
      have h := ih i
      simp only [List.toChunksAux, List.cons_append]
      rw [h]

theorem chunks_flatten (size : Nat) (xs : List α) : (chunks size xs).flatten = xs := by
  have h := toChunksAux_flatten (size - 1) xs 0
  have hfirst : (xs.toChunksAux (size - 1) 0).1 = [] := by
    cases xs with
    | nil => rfl
    | cons x xs => rfl
  rw [hfirst, List.nil_append] at h
  exact h

theorem toChunksAux_length (n : Nat) (xs : List α) (i : Nat) :
    (xs.toChunksAux n i).1.length ≤ i ∧ ∀ piece ∈ (xs.toChunksAux n i).2, piece.length ≤ n + 1 := by
  induction xs generalizing i with
  | nil => exact ⟨Nat.zero_le _, nofun⟩
  | cons x xs ih =>
    cases i with
    | zero =>
      have h := ih n
      refine ⟨Nat.le_refl _, ?_⟩
      intro piece hpiece
      rcases List.mem_cons.mp hpiece with hpiece | hpiece
      · rw [hpiece, List.length_cons]
        exact Nat.succ_le_succ h.1
      · exact h.2 piece hpiece
    | succ i =>
      have h := ih i
      exact ⟨Nat.succ_le_succ h.1, h.2⟩

theorem chunks_length {size : Nat} (hsize : 0 < size) {xs piece : List α} (h : piece ∈ chunks size xs) :
    piece.length ≤ size := by
  have hpiece := (toChunksAux_length (size - 1) xs 0).2 piece h
  omega

theorem toChunksAux_ne_nil (n : Nat) (xs : List α) (i : Nat) :
    ∀ piece ∈ (xs.toChunksAux n i).2, piece ≠ [] := by
  induction xs generalizing i with
  | nil => exact nofun
  | cons x xs ih =>
    cases i with
    | zero =>
      intro piece hpiece
      rcases List.mem_cons.mp hpiece with hpiece | hpiece
      · rw [hpiece]
        exact List.cons_ne_nil _ _
      · exact ih n piece hpiece
    | succ i => exact ih i

theorem chunks_ne_nil {size : Nat} {xs piece : List α} (h : piece ∈ chunks size xs) : piece ≠ [] :=
  toChunksAux_ne_nil _ _ _ piece h

theorem mapM_ok_iff {run : α → Except ε β} {xs : List α} {ys : List β} :
    xs.mapM run = .ok ys ↔ List.Forall₂ (fun x y => run x = .ok y) xs ys := by
  induction xs generalizing ys with
  | nil =>
    rw [List.forall₂_nil_left_iff]
    exact ⟨fun h => by cases h; rfl, fun h => by rw [h]; rfl⟩
  | cons x xs ih =>
    rw [List.mapM_cons]
    constructor
    · intro h
      cases hx : run x with
      | error e => rw [hx] at h; cases h
      | ok y =>
        cases hxs : xs.mapM run with
        | error e => rw [hx, hxs] at h; cases h
        | ok ys' =>
          rw [hx, hxs] at h
          cases h
          exact List.Forall₂.cons hx (ih.mp hxs)
    · intro h
      cases h with
      | cons hx hxs =>
        rw [hx, ih.mpr hxs]
        rfl

/-- A traversal fails with the error of its first element that does. -/
theorem mapM_error_iff {run : α → Except ε β} {xs : List α} {e : ε} :
    xs.mapM run = .error e ↔
      ∃ front x rest ys, xs = front ++ x :: rest ∧ front.mapM run = .ok ys ∧ run x = .error e := by
  induction xs with
  | nil =>
    constructor
    · intro h
      cases h
    · rintro ⟨front, x, rest, _, h, _⟩
      simp at h
  | cons x xs ih =>
    rw [List.mapM_cons]
    cases hx : run x with
    | error e' =>
      constructor
      · intro h
        cases h
        exact ⟨[], x, xs, [], rfl, rfl, hx⟩
      · rintro ⟨front, x', rest, ys, heq, hfront, hx'⟩
        cases front with
        | nil =>
          cases heq
          rw [hx] at hx'
          cases hx'
          rfl
        | cons first front =>
          cases heq
          rw [List.mapM_cons, hx] at hfront
          cases hfront
    | ok y =>
      have hsame : (do let y ← (Except.ok y : Except ε β); let ys ← xs.mapM run; pure (y :: ys)) = .error e ↔
          xs.mapM run = .error e := by
        cases xs.mapM run with
        | error e' => rfl
        | ok ys => exact ⟨nofun, nofun⟩
      refine hsame.trans (ih.trans ⟨?_, ?_⟩)
      · rintro ⟨front, x', rest, ys, rfl, hfront, hx'⟩
        refine ⟨x :: front, x', rest, y :: ys, rfl, ?_, hx'⟩
        rw [List.mapM_cons, hx, hfront]
        rfl
      · rintro ⟨front, x', rest, ys, heq, hfront, hx'⟩
        cases front with
        | nil =>
          cases heq
          rw [hx] at hx'
          cases hx'
        | cons first front =>
          cases heq
          rw [List.mapM_cons, hx] at hfront
          cases hmore : front.mapM run with
          | error e' =>
            rw [hmore] at hfront
            cases hfront
          | ok more => exact ⟨front, x', rest, more, rfl, hmore, hx'⟩

theorem forM_ok_iff {body : α → Except ε Unit} {xs : List α} :
    xs.forM body = .ok () ↔ ∀ x ∈ xs, body x = .ok () := by
  induction xs with
  | nil => exact ⟨fun _ x hx => (List.not_mem_nil hx).elim, fun _ => rfl⟩
  | cons x xs ih =>
    rw [List.forall_mem_cons, ← ih]
    change ((body x) >>= fun _ => xs.forM body) = .ok () ↔ _
    cases hx : body x with
    | error e => exact ⟨fun h => (nomatch h), fun h => (nomatch h.1)⟩
    | ok _ => exact ⟨fun h => ⟨rfl, h⟩, fun h => h.2⟩

theorem mapM_flatten (run : α → Except ε β) (waves : List (List α)) :
    (do let values ← waves.mapM (·.mapM run); return values.flatten : Except ε (List β)) =
      waves.flatten.mapM run := by
  induction waves with
  | nil => rfl
  | cons wave waves ih =>
    rw [List.mapM_cons, List.flatten_cons, List.mapM_append, ← ih]
    cases wave.mapM run with
    | error e => rfl
    | ok values =>
      cases waves.mapM (·.mapM run) with
      | error e => rfl
      | ok rest => rfl

theorem orderedParallel_eq (workers : Nat) (run : α → Except ε β) (inputs : List α) :
    orderedParallel workers run inputs = inputs.mapM run := by
  rw [orderedParallel, mapM_flatten, chunks_flatten]

theorem forall₂_mem_left {R : α → β → Prop} {xs : List α} {ys : List β} (h : List.Forall₂ R xs ys) :
    ∀ x ∈ xs, ∃ y ∈ ys, R x y := by
  intro x hx
  obtain ⟨i, hi, rfl⟩ := List.getElem_of_mem hx
  have hi' : i < ys.length := by rw [← h.length_eq]; exact hi
  exact ⟨ys[i], List.getElem_mem hi', h.get hi hi'⟩

theorem forall₂_mem_right {R : α → β → Prop} {xs : List α} {ys : List β} (h : List.Forall₂ R xs ys) :
    ∀ y ∈ ys, ∃ x ∈ xs, R x y := by
  intro y hy
  obtain ⟨x, hx, hR⟩ := forall₂_mem_left h.flip y hy
  exact ⟨x, hx, hR⟩

/-- Results that name what they are of give the elements back. -/
theorem forall₂_map_eq {R : α → β → Prop} {f : β → α} {xs : List α} {ys : List β}
    (h : List.Forall₂ R xs ys) (hname : ∀ x y, R x y → f y = x) : ys.map f = xs := by
  induction h with
  | nil => rfl
  | cons hR _ ih => rw [List.map_cons, ih, hname _ _ hR]

/-- A result for each element, found through a value for it, gives the list of those values. -/
theorem forall₂_through {γ : Type} {R : α → β → Prop} {S : α → β → γ → Prop} {xs : List α} {zs : List γ} :
    List.Forall₂ (fun x z => ∃ y, R x y ∧ S x y z) xs zs ↔
      ∃ ys, List.Forall₂ R xs ys ∧ List.Forall₂ (fun xy z => S xy.1 xy.2 z) (xs.zip ys) zs := by
  constructor
  · intro h
    induction h with
    | nil => exact ⟨[], List.Forall₂.nil, List.Forall₂.nil⟩
    | cons hx _ ih =>
      obtain ⟨y, hR, hS⟩ := hx
      obtain ⟨ys, hall, hzip⟩ := ih
      exact ⟨y :: ys, List.Forall₂.cons hR hall, List.Forall₂.cons hS hzip⟩
  · rintro ⟨ys, hall, hzip⟩
    induction hall generalizing zs with
    | nil =>
      cases hzip
      exact List.Forall₂.nil
    | cons hR _ ih =>
      cases hzip with
      | cons hS hzip => exact List.Forall₂.cons ⟨_, hR, hS⟩ (ih hzip)

end NixSecrets
