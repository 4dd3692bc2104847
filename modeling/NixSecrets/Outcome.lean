import Mathlib.Algebra.Order.Ring.Nat
import Mathlib.Order.Defs.Unbundled

namespace NixSecrets

variable {ε σ α β : Type}

/-- How a stateful program ends from a state: `ok` holds of its value and the state it leaves,
or `failed` of the state an error leaves. -/
def Ends (m : ExceptT ε (StateM σ) α) (s : σ) (ok : α → σ → Prop) (failed : σ → Prop) : Prop :=
  match m s with
  | (.ok a, s') => ok a s'
  | (.error _, s') => failed s'

theorem Ends.bind {m : ExceptT ε (StateM σ) α} {f : α → ExceptT ε (StateM σ) β} {s : σ}
    {middle : α → σ → Prop} {ok : β → σ → Prop} {failed : σ → Prop} (hm : Ends m s middle failed)
    (hf : ∀ a s', middle a s' → Ends (f a) s' ok failed) : Ends (m >>= f) s ok failed := by
  unfold Ends at hm ⊢
  change (match ExceptT.bind m f s with
    | (.ok b, s') => ok b s'
    | (.error _, s') => failed s')
  simp only [ExceptT.bind, ExceptT.mk, Bind.bind, StateT.bind]
  rcases hrun : m s with ⟨e | a, s'⟩
  · rw [hrun] at hm
    exact hm
  · rw [hrun] at hm
    exact hf a s' hm

theorem run_bind_ok {m : ExceptT ε (StateM σ) α} {f : α → ExceptT ε (StateM σ) β} {s s' : σ} {a : α}
    (h : m s = (.ok a, s')) : (m >>= f) s = f a s' := by
  change ExceptT.bind m f s = f a s'
  simp only [ExceptT.bind, ExceptT.mk, Bind.bind, StateT.bind, h]
  rfl

theorem Ends.imp {m : ExceptT ε (StateM σ) α} {s : σ} {ok ok' : α → σ → Prop} {failed : σ → Prop}
    (h : Ends m s ok failed) (hok : ∀ a s', ok a s' → ok' a s') : Ends m s ok' failed := by
  unfold Ends at h ⊢
  rcases hrun : m s with ⟨e | a, s'⟩
  · rw [hrun] at h
    exact h
  · rw [hrun] at h
    exact hok a s' h

/-- What holds however the program ends holds of the state it leaves. -/
theorem Ends.state {m : ExceptT ε (StateM σ) α} {s : σ} {P : σ → Prop}
    (h : Ends m s (fun _ => P) P) : P (m s).2 := by
  unfold Ends at h
  rcases hrun : m s with ⟨e | a, s'⟩
  · rw [hrun] at h
    exact h
  · rw [hrun] at h
    exact h

/-- However the program ends, the state it leaves is related to the one it starts from. -/
def Moves (R : σ → σ → Prop) (m : ExceptT ε (StateM σ) α) : Prop := ∀ s, R s (m s).2

/-- Whatever value the program gives has the property. -/
def Gives (m : ExceptT ε (StateM σ) α) (Q : α → Prop) : Prop := ∀ s a, (m s).1 = .ok a → Q a

theorem run_bind_error {m : ExceptT ε (StateM σ) α} {f : α → ExceptT ε (StateM σ) β} {s s' : σ} {e : ε}
    (h : m s = (.error e, s')) : (m >>= f) s = (.error e, s') := by
  change ExceptT.bind m f s = (.error e, s')
  simp only [ExceptT.bind, ExceptT.mk, Bind.bind, StateT.bind, h]
  rfl

/-- A sequence gives a value when its parts do. -/
theorem run_bind_eq_ok {m : ExceptT ε (StateM σ) α} {f : α → ExceptT ε (StateM σ) β} {s s'' : σ} {b : β}
    (h : (m >>= f) s = (.ok b, s'')) : ∃ a s', m s = (.ok a, s') ∧ f a s' = (.ok b, s'') := by
  rcases hrun : m s with ⟨e | a, s'⟩
  · rw [run_bind_error hrun] at h
    cases h
  · rw [run_bind_ok hrun] at h
    exact ⟨a, s', rfl, h⟩

/-- A sequence fails in its first part, or in its second from the state the first leaves. -/
theorem run_bind_eq_error {m : ExceptT ε (StateM σ) α} {f : α → ExceptT ε (StateM σ) β} {s s'' : σ} {e : ε}
    (h : (m >>= f) s = (.error e, s'')) :
    m s = (.error e, s'') ∨ ∃ a s', m s = (.ok a, s') ∧ f a s' = (.error e, s'') := by
  rcases hrun : m s with ⟨e' | a, s'⟩
  · rw [run_bind_error hrun] at h
    cases h
    exact .inl rfl
  · rw [run_bind_ok hrun] at h
    exact .inr ⟨a, s', rfl, h⟩

section

variable {R R' : σ → σ → Prop} {m : ExceptT ε (StateM σ) α} {f : α → ExceptT ε (StateM σ) β}

theorem Moves.imp (h : Moves R m) (hR : ∀ s s', R s s' → R' s s') : Moves R' m := fun s => hR _ _ (h s)

theorem Moves.pure [Std.Refl R] (a : α) : Moves R (Pure.pure a : ExceptT ε (StateM σ) α) :=
  fun s => Std.Refl.refl s

/-- The second part need only move from where the first ends, with the value it gives. -/
theorem Moves.bind_of [IsTrans σ R] (hm : Moves R m)
    (hf : ∀ s a s', m s = (.ok a, s') → R s' (f a s').2) : Moves R (m >>= f) := by
  intro s
  have hs := hm s
  rcases hrun : m s with ⟨e | a, s'⟩
  · rw [run_bind_error hrun]
    rwa [hrun] at hs
  · rw [run_bind_ok hrun]
    rw [hrun] at hs
    exact IsTrans.trans _ _ _ hs (hf s a s' hrun)

theorem Moves.bind [IsTrans σ R] (hm : Moves R m) (hf : ∀ a, Moves R (f a)) : Moves R (m >>= f) :=
  hm.bind_of fun _ a s' _ => hf a s'

theorem Gives.pure {Q : α → Prop} {a : α} (h : Q a) : Gives (Pure.pure a : ExceptT ε (StateM σ) α) Q := by
  intro s b hb
  cases hb
  exact h

theorem Gives.bind {P : α → Prop} {Q : β → Prop} (hm : Gives m P) (hf : ∀ a, P a → Gives (f a) Q) :
    Gives (m >>= f) Q := by
  intro s b hb
  have hrun : (m >>= f) s = (.ok b, ((m >>= f) s).2) := Prod.ext hb rfl
  obtain ⟨a, s', ha, hrun⟩ := run_bind_eq_ok hrun
  have hp : P a := hm s a (by rw [ha])
  exact hf a hp s' b (by rw [hrun])

theorem Gives.imp {P Q : α → Prop} (hm : Gives m P) (h : ∀ a, P a → Q a) : Gives m Q :=
  fun s a ha => h a (hm s a ha)

theorem Gives.any : Gives m fun _ => True := fun _ _ _ => trivial

end

/-- A sequence gives a value when its parts do, the second from the state the first leaves. -/
theorem stateT_bind_ok {m : StateT σ (Except ε) α} {f : α → StateT σ (Except ε) β} {s s'' : σ} {b : β} :
    (m >>= f) s = .ok (b, s'') ↔ ∃ a s', m s = .ok (a, s') ∧ f a s' = .ok (b, s'') := by
  change (m s >>= fun x => f x.1 x.2) = .ok (b, s'') ↔ _
  cases hm : m s with
  | error e => exact iff_of_false nofun fun ⟨_, _, h, _⟩ => nomatch h
  | ok x =>
    constructor
    · intro h
      exact ⟨x.1, x.2, rfl, h⟩
    · rintro ⟨a, s', ha, h⟩
      cases ha
      exact h

end NixSecrets
