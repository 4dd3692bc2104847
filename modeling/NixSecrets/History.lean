import Mathlib.Algebra.Order.Ring.Nat
import Mathlib.Data.List.Basic
import Mathlib.Data.List.Induction

namespace NixSecrets

variable {α : Type}

/-- An entry of a history that grew by one is the new entry or an entry of the old history. -/
theorem history_concat_split {xs before after : List α} {x y : α}
    (h : xs ++ [x] = before ++ y :: after) :
    (after = [] ∧ before = xs ∧ y = x) ∨
      ∃ rest, after = rest ++ [x] ∧ xs = before ++ y :: rest := by
  induction after using List.reverseRecOn with
  | nil =>
    obtain ⟨hx, hy⟩ := List.append_inj' h rfl
    exact Or.inl ⟨rfl, hx.symm, (List.cons.inj hy).1.symm⟩
  | append_singleton rest z _ =>
    have hh : xs ++ [x] = (before ++ y :: rest) ++ [z] := by simpa using h
    obtain ⟨hx, hz⟩ := List.append_inj' hh rfl
    cases hz
    exact Or.inr ⟨rest, rfl, hx⟩

/-- Two marked entries of one history with as many marked entries before them
are the same entry. -/
theorem history_split_unique {p : α → Bool} {before after before' after' : List α} {x y : α}
    (h : before ++ x :: after = before' ++ y :: after') (hx : p x = true) (hy : p y = true)
    (hc : before.countP p = before'.countP p) : before = before' ∧ x = y ∧ after = after' := by
  rcases List.append_eq_append_iff.mp h with ⟨mid, rfl, hm⟩ | ⟨mid, rfl, hm⟩
  · cases mid with
    | nil =>
      obtain ⟨he, ht⟩ := List.cons.inj hm
      exact ⟨by simp, he, ht⟩
    | cons z mid =>
      cases (List.cons.inj hm).1
      simp [List.countP_append, hx] at hc
  · cases mid with
    | nil =>
      obtain ⟨he, ht⟩ := List.cons.inj hm
      exact ⟨by simp, he.symm, ht.symm⟩
    | cons z mid =>
      cases (List.cons.inj hm).1
      simp [List.countP_append, hy] at hc

end NixSecrets

namespace NixSecrets

section

variable {σ α V : Type} (next : σ → α → σ)

/-- The state after a list of steps. -/
def stateAfter (s : σ) (steps : List α) : σ := steps.foldl next s

theorem stateAfter_append (s : σ) (steps steps' : List α) :
    stateAfter next s (steps ++ steps') = stateAfter next (stateAfter next s steps) steps' :=
  List.foldl_append

variable (version : σ → Option V) (touches : σ → α → Prop)

/-- Each step either leaves the slot alone or makes its version another one than `v`. -/
def LeavesOrReplaces (v : V) (s : σ) (steps : List α) : Prop :=
  ∀ front a rest, steps = front ++ a :: rest →
    ¬ touches (stateAfter next s front) a ∧
      version (stateAfter next s (front ++ [a])) = version (stateAfter next s front) ∨
    version (stateAfter next s (front ++ [a])) ≠ some v

variable {next version touches}

/-- If the slot ends with the version it is checked against, no step touched it. -/
theorem untouched_of_version {v : V} {s : σ} {steps : List α}
    (h : LeavesOrReplaces next version touches v s steps)
    (hv : version (stateAfter next s steps) = some v) :
    ∀ front a rest, steps = front ++ a :: rest → ¬ touches (stateAfter next s front) a := by
  induction steps using List.reverseRecOn with
  | nil =>
    intro front a rest he
    simp at he
  | append_singleton steps last ih =>
    rcases h steps last [] rfl with ⟨hlast, hsame⟩ | hother
    · have hfront : LeavesOrReplaces next version touches v s steps := fun front a rest he =>
        h front a (rest ++ [last]) (by rw [he, List.append_assoc, List.cons_append])
      have huntouched := ih hfront (hsame ▸ hv)
      intro front a rest he
      rcases history_concat_split he with ⟨_, rfl, rfl⟩ | ⟨rest', _, hsteps⟩
      · exact hlast
      · exact huntouched front a rest' hsteps
    · exact absurd hv hother

/-- What every step keeps is what it was at the start. -/
theorem kept_by_steps {β : Type} {f : σ → β} {s : σ} {steps : List α}
    (h : ∀ front a rest, steps = front ++ a :: rest →
      f (stateAfter next s (front ++ [a])) = f (stateAfter next s front)) :
    f (stateAfter next s steps) = f s := by
  induction steps using List.reverseRecOn with
  | nil => rfl
  | append_singleton steps last ih =>
    rw [h steps last [] rfl]
    exact ih fun front a rest he =>
      h front a (rest ++ [last]) (by rw [he, List.append_assoc, List.cons_append])

end

end NixSecrets
