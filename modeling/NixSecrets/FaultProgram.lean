import Mathlib.Algebra.Order.Ring.Nat
import Mathlib.Data.List.Basic

namespace NixSecrets

theorem except_bind_ok {ε α β : Type} {x : Except ε α} {f : α → Except ε β} {b : β} :
    (x >>= f) = .ok b ↔ ∃ a, x = .ok a ∧ f a = .ok b := by
  cases x with
  | error e => simp [bind, Except.bind]
  | ok a => simp [bind, Except.bind]

theorem except_mapError_ok {ε ε' α : Type} {x : Except ε α} {f : ε → ε'} {a : α} :
    x.mapError f = .ok a ↔ x = .ok a := by
  cases x <;> simp [Except.mapError]

/-- What happens at one operation on the outside world. -/
inductive Fault
  | none
  | fail (error : String)
  | crash
  deriving DecidableEq, Repr

inductive Ended (ε α : Type)
  | done (value : α)
  | failed (error : ε)
  | crashed
  deriving DecidableEq, Repr

def Ended.isDone {ε α : Type} : Ended ε α → Bool
  | .done _ => true
  | _ => false

theorem done_of_isDone {ε α σ : Type} {x : Ended ε α × List Fault × σ}
    (h : x.1.isDone = true) : ∃ a, x = (.done a, x.2.1, x.2.2) := by
  obtain ⟨out, rest, s⟩ := x
  cases out with
  | done a => exact ⟨a, rfl⟩
  | failed e => cases h
  | crashed => cases h

/-- A program over the state `σ` whose operations may fail or be cut off by a crash. It
consumes the faults to come; once they are used up nothing goes wrong. -/
def Faulty (σ ε α : Type) := List Fault → σ → Ended ε α × List Fault × σ

namespace Faulty

variable {σ ε ε' α β : Type}

def bind (m : Faulty σ ε α) (f : α → Faulty σ ε β) : Faulty σ ε β := fun faults s =>
  match m faults s with
  | (.done a, rest, s') => f a rest s'
  | (.failed e, rest, s') => (.failed e, rest, s')
  | (.crashed, rest, s') => (.crashed, rest, s')

instance : Monad (Faulty σ ε) where
  pure a := fun faults s => (.done a, faults, s)
  bind := bind

/-- One operation: it takes effect as a whole, fails, or the program stops before it. -/
def op (error : String → ε) (effect : σ → σ) : Faulty σ ε Unit := fun faults s =>
  match faults with
  | [] => (.done (), [], effect s)
  | .none :: rest => (.done (), rest, effect s)
  | .fail e :: rest => (.failed (error e), rest, s)
  | .crash :: rest => (.crashed, rest, s)

def read : Faulty σ ε σ := fun faults s => (.done s, faults, s)

def throw (e : ε) : Faulty σ ε α := fun faults s => (.failed e, faults, s)

def ofExcept : Except ε α → Faulty σ ε α
  | .ok a => pure a
  | .error e => throw e

/-- Runs `m` and hands on its error; a crash stays one. -/
def attempt (m : Faulty σ ε α) : Faulty σ ε (Except ε α) := fun faults s =>
  match m faults s with
  | (.done a, rest, s') => (.done (.ok a), rest, s')
  | (.failed e, rest, s') => (.done (.error e), rest, s')
  | (.crashed, rest, s') => (.crashed, rest, s')

def mapError (f : ε → ε') (m : Faulty σ ε α) : Faulty σ ε' α := fun faults s =>
  match m faults s with
  | (.done a, rest, s') => (.done a, rest, s')
  | (.failed e, rest, s') => (.failed (f e), rest, s')
  | (.crashed, rest, s') => (.crashed, rest, s')

def refuseIf (c : Prop) [Decidable c] (e : ε) : Faulty σ ε Unit := if c then throw e else pure ()

def doIf (c : Prop) [Decidable c] (m : Faulty σ ε Unit) : Faulty σ ε Unit :=
  if c then m else pure ()

def each (body : α → Faulty σ ε Unit) : List α → Faulty σ ε Unit
  | [] => pure ()
  | x :: xs => do
    body x
    each body xs

/-- Runs a program on a part of the state. -/
def zoom {τ : Type} (get : τ → σ) (set : σ → τ → τ) (m : Faulty σ ε α) : Faulty τ ε α :=
  fun faults t => match m faults (get t) with
    | (out, rest, s) => (out, rest, set s t)

section Run

theorem run_bind {m : Faulty σ ε α} {f : α → Faulty σ ε β} {s s' : σ} {a : α}
    {faults rest : List Fault} (hm : m faults s = (.done a, rest, s')) :
    (m >>= f) faults s = f a rest s' := by
  show Faulty.bind m f faults s = _
  rw [Faulty.bind, hm]

theorem run_bind_failed {m : Faulty σ ε α} {f : α → Faulty σ ε β} {s s' : σ} {e : ε}
    {faults rest : List Fault} (hm : m faults s = (.failed e, rest, s')) :
    (m >>= f) faults s = (.failed e, rest, s') := by
  show Faulty.bind m f faults s = _
  rw [Faulty.bind, hm]

theorem bind_run (m : Faulty σ ε α) (f : α → Faulty σ ε β) (faults : List Fault) (s : σ) :
    (m >>= f) faults s = match m faults s with
      | (.done a, rest, s') => f a rest s'
      | (.failed e, rest, s') => (.failed e, rest, s')
      | (.crashed, rest, s') => (.crashed, rest, s') := rfl

theorem pure_run (a : α) (faults : List Fault) (s : σ) :
    (pure a : Faulty σ ε α) faults s = (.done a, faults, s) := rfl

theorem ofExcept_run (a : α) (faults : List Fault) (s : σ) :
    (ofExcept (.ok a) : Faulty σ ε α) faults s = (.done a, faults, s) := rfl

instance : LawfulMonad (Faulty σ ε) := by
  refine LawfulMonad.mk' _ (fun m => ?_) (fun _ _ => rfl) fun m f g => ?_
  · funext faults s
    show Faulty.bind m (fun a => pure a) faults s = m faults s
    unfold Faulty.bind
    cases m faults s with
    | mk out rest => cases out <;> rfl
  · funext faults s
    simp only [bind_run]
    cases m faults s with
    | mk out rest => cases out <;> rfl

theorem ofExcept_bind (x : Except ε α) (f : α → Except ε β) :
    (ofExcept (x >>= f) : Faulty σ ε β) = ofExcept x >>= fun a => ofExcept (f a) := by
  cases x <;> rfl

theorem ofExcept_pure (a : α) : (ofExcept (pure a) : Faulty σ ε α) = pure a := rfl

theorem refuseIf_eq (c : Prop) [Decidable c] (e : ε) :
    (refuseIf c e : Faulty σ ε Unit) = ofExcept (if c then .error e else .ok ()) := by
  unfold refuseIf
  split <;> rfl

theorem mapError_bind (g : ε → ε') (m : Faulty σ ε α) (f : α → Faulty σ ε β) :
    (m >>= f).mapError g = m.mapError g >>= fun a => (f a).mapError g := by
  funext faults s
  simp only [mapError, bind_run]
  cases m faults s with
  | mk out rest => cases out <;> rfl

/-- An attempt stops at the first part that fails. -/
theorem bind_attempt_run {γ : Type} (m : Faulty σ ε α) (f : α → Faulty σ ε β)
    (k : Except ε β → Faulty σ ε γ) (faults : List Fault) (s : σ) :
    ((m >>= f).attempt >>= k) faults s = match m faults s with
      | (.done a, rest, s') => ((f a).attempt >>= k) rest s'
      | (.failed e, rest, s') => k (.error e) rest s'
      | (.crashed, rest, s') => (.crashed, rest, s') := by
  simp only [bind_run, attempt]
  cases m faults s with
  | mk out rest => cases out <;> rfl

end Run

/-- Operations one after the other. -/
def steps (error : String → ε) : List (σ → σ) → Faulty σ ε Unit
  | [] => pure ()
  | effect :: effects => do
    op error effect
    steps error effects

/-- Faults that only refuse: no crash among them. -/
def refusals (errors : List (Option String)) : List Fault := errors.map fun
  | Option.none => .none
  | some error => .fail error

theorem op_refusals_nil (error : String → ε) (effect : σ → σ) (s : σ) :
    op error effect (refusals []) s = (.done (), refusals [], effect s) := rfl

theorem steps_done {error : String → ε} {effects : List (σ → σ)} {errors : List (Option String)} {s : σ}
    (h : ∀ e ∈ errors.take effects.length, e = none) :
    steps error effects (refusals errors) s =
      (.done (), refusals (errors.drop effects.length), effects.foldl (fun s effect => effect s) s) := by
  induction effects generalizing errors s with
  | nil => rfl
  | cons effect effects ih =>
    cases errors with
    | nil =>
      have hrest := @ih [] (effect s) (by simp)
      rw [steps, run_bind (op_refusals_nil error effect s), hrest]
      simp
    | cons e errors =>
      have hnone : e = Option.none := h e (by simp)
      subst hnone
      have hop : op error effect (refusals (Option.none :: errors)) s =
          (.done (), refusals errors, effect s) := rfl
      rw [steps, run_bind hop]
      exact ih fun e he => h e (by simp [he])

theorem foldl_id {effects : List (σ → σ)} (h : ∀ effect ∈ effects, effect = id) (s : σ) :
    effects.foldl (fun s effect => effect s) s = s := by
  induction effects with
  | nil => rfl
  | cons effect effects ih =>
    rw [List.foldl_cons, h effect List.mem_cons_self]
    exact ih fun other ho => h other (List.mem_cons_of_mem effect ho)

/-- The first refusal stops the operations: those before it took effect. -/
theorem steps_failed {error : String → ε} {effects : List (σ → σ)} {errors : List (Option String)} {s : σ}
    (h : ¬ ∀ e ∈ errors.take effects.length, e = none) :
    ∃ k e rest, k < effects.length ∧ errors[k]? = some (some e) ∧ (∀ e ∈ errors.take k, e = none) ∧
      steps error effects (refusals errors) s =
        (.failed (error e), refusals rest, (effects.take k).foldl (fun s effect => effect s) s) := by
  induction effects generalizing errors s with
  | nil => simp at h
  | cons effect effects ih =>
    cases errors with
    | nil => simp at h
    | cons e errors =>
      cases e with
      | some e => exact ⟨0, e, errors, by simp, rfl, by simp, rfl⟩
      | none =>
        have hrest : ¬ ∀ e ∈ errors.take effects.length, e = Option.none := by simpa using h
        obtain ⟨k, e, rest, hk, he, hbefore, hrun⟩ := ih (s := effect s) hrest
        have hop : op error effect (refusals (Option.none :: errors)) s =
            (.done (), refusals errors, effect s) := rfl
        refine ⟨k + 1, e, rest, Nat.succ_lt_succ hk, he, by simpa using hbefore, ?_⟩
        rw [steps, run_bind hop, hrun]
        rfl

/-- From `P`, the program ends with `Q`, or stops early with `E`. -/
def Meets (P : σ → Prop) (m : Faulty σ ε α) (Q : α → σ → Prop) (E : σ → Prop) : Prop :=
  ∀ faults s, P s → match m faults s with
    | (.done a, _, s') => Q a s'
    | (.failed _, _, s') => E s'
    | (.crashed, _, s') => E s'

section Rules

variable {P P' E E' : σ → Prop} {Q Q' : α → σ → Prop} {R : β → σ → Prop}

theorem Meets.weaken {m : Faulty σ ε α} (h : Meets P m Q E) (hp : ∀ s, P' s → P s)
    (hq : ∀ a s, Q a s → Q' a s) (he : ∀ s, E s → E' s) : Meets P' m Q' E' := by
  intro faults s hs
  have hm := h faults s (hp s hs)
  split
  next ha => rw [ha] at hm; exact hq _ _ hm
  next ha => rw [ha] at hm; exact he _ hm
  next ha => rw [ha] at hm; exact he _ hm

theorem Meets.and {m : Faulty σ ε α} (h : Meets P m Q E) (h' : Meets P' m Q' E') :
    Meets (fun s => P s ∧ P' s) m (fun a s => Q a s ∧ Q' a s) (fun s => E s ∧ E' s) := by
  intro faults s hs
  have hm := h faults s hs.1
  have hm' := h' faults s hs.2
  split
  next ha => rw [ha] at hm hm'; exact ⟨hm, hm'⟩
  next ha => rw [ha] at hm hm'; exact ⟨hm, hm'⟩
  next ha => rw [ha] at hm hm'; exact ⟨hm, hm'⟩

theorem Meets.final {m : Faulty σ ε α} (h : Meets P m (fun _ => E) E) (faults : List Fault)
    {s : σ} (hs : P s) : E (m faults s).2.2 := by
  have hm := h faults s hs
  cases hr : m faults s with
  | mk out rest =>
    obtain ⟨rest, s'⟩ := rest
    rw [hr] at hm
    cases out <;> exact hm

theorem Meets.done {m : Faulty σ ε α} {faults rest : List Fault} {s s' : σ} {a : α}
    (h : Meets P m Q E) (hs : P s) (hm : m faults s = (.done a, rest, s')) : Q a s' := by
  have hq := h faults s hs
  rw [hm] at hq
  exact hq

theorem Meets.stopped {m : Faulty σ ε α} {faults : List Fault} {s : σ} (h : Meets P m Q E)
    (hs : P s) (hm : (m faults s).1.isDone = false) : E (m faults s).2.2 := by
  have hq := h faults s hs
  cases hr : m faults s with
  | mk out rest =>
    rw [hr] at hq hm
    cases out with
    | done a => cases hm
    | failed e => exact hq
    | crashed => exact hq

theorem meets_pointwise {m : Faulty σ ε α} (h : ∀ s, P s → Meets (· = s) m Q E) : Meets P m Q E :=
  fun faults s hs => h s hs faults s rfl

theorem meets_known {c : Prop} {m : Faulty σ ε α} (h : c → Meets P m Q E) :
    Meets (fun s => c ∧ P s) m Q E :=
  fun faults s hs => h hs.1 faults s hs.2

theorem meets_exists {ι : Type} {P : ι → σ → Prop} {m : Faulty σ ε α}
    (h : ∀ i, Meets (P i) m Q E) : Meets (fun s => ∃ i, P i s) m Q E :=
  fun faults s ⟨i, hs⟩ => h i faults s hs

theorem meets_pure {a : α} (h : ∀ s, P s → Q a s) : Meets P (pure a : Faulty σ ε α) Q E :=
  fun _ s hs => h s hs

theorem meets_bind {m : Faulty σ ε α} {f : α → Faulty σ ε β} (hm : Meets P m Q E)
    (hf : ∀ a, Meets (Q a) (f a) R E) : Meets P (m >>= f) R E := by
  intro faults s hs
  have h := hm faults s hs
  have hb : (m >>= f) faults s = Faulty.bind m f faults s := rfl
  rw [hb]
  unfold Faulty.bind
  cases hr : m faults s with
  | mk out rest =>
    obtain ⟨rest, s'⟩ := rest
    rw [hr] at h
    cases out with
    | done a => exact hf a rest s' h
    | failed e => exact h
    | crashed => exact h

theorem meets_op {error : String → ε} {effect : σ → σ} {R : σ → Prop}
    (h : ∀ s, P s → R (effect s)) (he : ∀ s, P s → E s) :
    Meets P (op error effect) (fun _ => R) E := by
  intro faults s hs
  unfold op
  cases faults with
  | nil => exact h s hs
  | cons fault rest =>
    cases fault with
    | none => exact h s hs
    | fail e => exact he s hs
    | crash => exact he s hs

theorem meets_read {R : σ → σ → Prop} (h : ∀ s, P s → R s s) :
    Meets P (read : Faulty σ ε σ) R E :=
  fun _ s hs => h s hs

theorem meets_throw {e : ε} (h : ∀ s, P s → E s) : Meets P (throw e : Faulty σ ε α) Q E :=
  fun _ s hs => h s hs

theorem meets_ofExcept {x : Except ε α} (h : ∀ a s, x = .ok a → P s → Q a s)
    (he : ∀ s, P s → E s) : Meets P (ofExcept x : Faulty σ ε α) Q E := by
  cases x with
  | ok a => exact meets_pure fun s hs => h a s rfl hs
  | error e => exact meets_throw he

theorem meets_bind_ofExcept {x : Except ε α} {f : α → Faulty σ ε β}
    (he : ∀ s, P s → E s) (h : ∀ a, x = .ok a → Meets P (f a) R E) :
    Meets P (ofExcept x >>= f) R E := by
  cases x with
  | ok a => exact h a rfl
  | error e => exact fun _ s hs => he s hs

theorem meets_attempt {m : Faulty σ ε α} {R : Except ε α → σ → Prop} (hm : Meets P m Q E)
    (hok : ∀ a s, Q a s → R (.ok a) s) (herr : ∀ e s, E s → R (.error e) s) :
    Meets P m.attempt R E := by
  intro faults s hs
  have h := hm faults s hs
  unfold attempt
  cases hr : m faults s with
  | mk out rest =>
    obtain ⟨rest, s'⟩ := rest
    rw [hr] at h
    cases out with
    | done a => exact hok a s' h
    | failed e => exact herr e s' h
    | crashed => exact h

theorem meets_bind_attempt {m : Faulty σ ε α} {k : Except ε α → Faulty σ ε β}
    (hm : Meets P m Q E) (hok : ∀ a, Meets (Q a) (k (.ok a)) R E)
    (herr : ∀ e, Meets E (k (.error e)) R E) : Meets P (m.attempt >>= k) R E := by
  refine meets_bind (meets_attempt (R := fun result s => match result with
    | .ok a => Q a s
    | .error _ => E s) hm (fun _ _ h => h) fun _ _ h => h) fun result => ?_
  cases result with
  | ok a => exact hok a
  | error e => exact herr e

theorem meets_mapError {f : ε → ε'} {m : Faulty σ ε α} (hm : Meets P m Q E) :
    Meets P (m.mapError f) Q E := by
  intro faults s hs
  have h := hm faults s hs
  unfold mapError
  cases hr : m faults s with
  | mk out rest =>
    obtain ⟨rest, s'⟩ := rest
    rw [hr] at h
    cases out <;> exact h

theorem meets_refuseIf {c : Prop} [Decidable c] {e : ε} {R : σ → Prop}
    (h : ∀ s, ¬ c → P s → R s) (he : ∀ s, P s → E s) :
    Meets P (refuseIf c e) (fun _ => R) E := by
  unfold refuseIf
  split
  next => exact meets_throw he
  next hc => exact meets_pure fun s hs => h s hc hs

theorem meets_doIf {c : Prop} [Decidable c] {m : Faulty σ ε Unit} {R : σ → Prop}
    (h : c → Meets P m (fun _ => R) E) (hn : ¬ c → ∀ s, P s → R s) :
    Meets P (doIf c m) (fun _ => R) E := by
  unfold doIf
  split
  next hc => exact h hc
  next hc => exact meets_pure (hn hc)

theorem meets_zoom {τ : Type} {get : τ → σ} {set : σ → τ → τ} {m : Faulty σ ε α} {t : τ}
    (hm : Meets (· = get t) m Q E) : Meets (· = t) (zoom get set m)
      (fun a t' => ∃ s, Q a s ∧ t' = set s t) (fun t' => ∃ s, E s ∧ t' = set s t) := by
  rintro faults _ rfl
  have h := hm faults (get _) rfl
  unfold zoom
  cases hr : m faults (get _) with
  | mk out rest =>
    obtain ⟨rest, s'⟩ := rest
    rw [hr] at h
    cases out with
    | done a => exact ⟨s', h, rfl⟩
    | failed e => exact ⟨s', h, rfl⟩
    | crashed => exact ⟨s', h, rfl⟩

/-- The loop rule: `I` says what holds before the rest of the list. -/
theorem meets_each {body : α → Faulty σ ε Unit} {I : List α → σ → Prop} {xs : List α}
    (hb : ∀ x rest, Meets (I (x :: rest)) (body x) (fun _ => I rest) E) :
    Meets (I xs) (each body xs) (fun _ => I []) E := by
  induction xs with
  | nil => exact meets_pure fun _ h => h
  | cons x rest ih => exact meets_bind (hb x rest) fun _ => ih

end Rules

/-- The program keeps `P`, however it ends. -/
def Keeps (P : σ → Prop) (m : Faulty σ ε α) : Prop := Meets P m (fun _ => P) P

section Keeps

variable {P : σ → Prop}

theorem keeps_pure {a : α} : Keeps P (pure a : Faulty σ ε α) := meets_pure fun _ h => h

theorem keeps_bind {m : Faulty σ ε α} {f : α → Faulty σ ε β} (hm : Keeps P m)
    (hf : ∀ a, Keeps P (f a)) : Keeps P (m >>= f) := meets_bind hm hf

theorem keeps_op {error : String → ε} {effect : σ → σ} (h : ∀ s, P s → P (effect s)) :
    Keeps P (op error effect) := meets_op h fun _ hs => hs

theorem keeps_ofExcept {x : Except ε α} : Keeps P (ofExcept x : Faulty σ ε α) :=
  meets_ofExcept (fun _ _ _ h => h) fun _ h => h

theorem keeps_mapError {f : ε → ε'} {m : Faulty σ ε α} (hm : Keeps P m) : Keeps P (m.mapError f) :=
  meets_mapError hm

theorem keeps_attempt {m : Faulty σ ε α} (hm : Keeps P m) : Keeps P m.attempt :=
  meets_attempt hm (fun _ _ h => h) fun _ _ h => h

theorem keeps_throw {e : ε} : Keeps P (throw e : Faulty σ ε α) := meets_throw fun _ h => h

theorem keeps_refuseIf {c : Prop} [Decidable c] {e : ε} : Keeps P (refuseIf c e : Faulty σ ε Unit) :=
  meets_refuseIf (fun _ _ h => h) fun _ h => h

theorem keeps_doIf {c : Prop} [Decidable c] {m : Faulty σ ε Unit} (hm : Keeps P m) :
    Keeps P (doIf c m) := meets_doIf (fun _ => hm) fun _ _ h => h

theorem keeps_each {body : α → Faulty σ ε Unit} (hb : ∀ x, Keeps P (body x)) {xs : List α} :
    Keeps P (each body xs) := meets_each (I := fun _ => P) fun x _ => hb x

end Keeps

end Faulty

end NixSecrets
