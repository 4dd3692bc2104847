import Mathlib.Algebra.Order.Ring.Nat
import Mathlib.Data.List.Basic

namespace NixSecrets

/-- Why a computation stops early: with an error it returns, or with a panic. -/
inductive Stop (ε : Type)
  | refused (error : ε)
  | panicked
  deriving DecidableEq, Repr

def Stop.map {ε ε' : Type} (f : ε → ε') : Stop ε → Stop ε'
  | .refused e => .refused (f e)
  | .panicked => .panicked

abbrev Checked (ε α : Type) := Except (Stop ε) α

namespace Checked

variable {ε ε' α β : Type}

def refuse (e : ε) : Checked ε α := .error (.refused e)

def panic : Checked ε α := .error .panicked

def refuseIf (c : Prop) [Decidable c] (e : ε) : Checked ε Unit := if c then refuse e else .ok ()

def orRefuse (e : ε) : Option α → Checked ε α
  | some a => .ok a
  | none => refuse e

def orPanic : Option α → Checked ε α
  | some a => .ok a
  | none => panic

/-- Reads a list at a position the caller takes for granted. -/
def index (xs : List α) (i : Nat) : Checked ε α := orPanic xs[i]?

def ofExcept : Except ε α → Checked ε α
  | .ok a => .ok a
  | .error e => refuse e

def mapRefusal (f : ε → ε') : Checked ε α → Checked ε' α
  | .ok a => .ok a
  | .error e => .error (e.map f)

def each (body : α → Checked ε Unit) : List α → Checked ε Unit
  | [] => .ok ()
  | x :: xs => do
    body x
    each body xs

/-- A loop that hands a value from one round to the next. -/
def carry (body : β → α → Checked ε β) : β → List α → Checked ε β
  | b, [] => .ok b
  | b, x :: xs => do
    let b ← body b x
    carry body b xs

/-- The computation returns, with a value or an error. -/
def Answers (x : Checked ε α) : Prop := x ≠ .error .panicked

theorem answers_ok (a : α) : Answers (.ok a : Checked ε α) := nofun

theorem answers_pure (a : α) : Answers (pure a : Checked ε α) := nofun

theorem answers_refuse (e : ε) : Answers (refuse e : Checked ε α) := by
  intro h
  cases h

theorem answers_refuseIf {c : Prop} [Decidable c] (e : ε) : Answers (refuseIf c e) := by
  unfold refuseIf
  split
  next => exact answers_refuse e
  next => exact answers_ok ()

theorem refuseIf_of_not {c : Prop} [Decidable c] (e : ε) (h : ¬ c) : refuseIf c e = .ok () := if_neg h

theorem refuseIf_ok {c : Prop} [Decidable c] {e : ε} (h : refuseIf c e = .ok ()) : ¬ c := by
  intro hc
  rw [refuseIf, if_pos hc] at h
  cases h

theorem answers_orRefuse (e : ε) (x : Option α) : Answers (orRefuse e x) := by
  cases x with
  | none => exact answers_refuse e
  | some a => exact answers_ok a

theorem orRefuse_ok {e : ε} {x : Option α} {a : α} (h : orRefuse e x = .ok a) : x = some a := by
  cases x with
  | none => cases h
  | some b => cases h; rfl

theorem orPanic_ok {x : Option α} {a : α} (h : (orPanic x : Checked ε α) = .ok a) : x = some a := by
  cases x with
  | none => cases h
  | some b => cases h; rfl

theorem answers_orPanic {x : Option α} : Answers (orPanic x : Checked ε α) ↔ x.isSome := by
  cases x with
  | none => simp [Answers, orPanic, panic]
  | some a => simp [Answers, orPanic]

theorem answers_index {xs : List α} {i : Nat} :
    Answers (index xs i : Checked ε α) ↔ i < xs.length := by
  rw [index, answers_orPanic]
  simp

theorem answers_ofExcept (x : Except ε α) : Answers (ofExcept x) := by
  cases x with
  | ok a => exact answers_ok a
  | error e => exact answers_refuse e

theorem answers_mapRefusal {f : ε → ε'} {x : Checked ε α} :
    Answers (mapRefusal f x) ↔ Answers x := by
  rcases x with (e | _) | a <;> simp [Answers, mapRefusal, Stop.map]

theorem mapRefusal_ok {f : ε → ε'} {x : Checked ε α} {a : α} (h : mapRefusal f x = .ok a) :
    x = .ok a := by
  cases x with
  | error e => cases h
  | ok b => cases h; rfl

@[simp] theorem ok_bind (a : α) (f : α → Checked ε β) : ((.ok a : Checked ε α) >>= f) = f a := rfl

theorem bind_ok {x : Checked ε α} {f : α → Checked ε β} {b : β} (h : (x >>= f) = .ok b) :
    ∃ a, x = .ok a ∧ f a = .ok b := by
  cases x with
  | error e => cases h
  | ok a => exact ⟨a, rfl, h⟩

/-- A sequence answers when its first part does and, after each value of it, the second. -/
theorem answers_bind {x : Checked ε α} {f : α → Checked ε β} :
    Answers (x >>= f) ↔ Answers x ∧ ∀ a, x = .ok a → Answers (f a) := by
  rcases x with (e | _) | a
  · exact iff_of_true (answers_refuse e) ⟨answers_refuse e, nofun⟩
  · exact iff_of_false (fun h => h rfl) fun h => h.1 rfl
  · exact ⟨fun h => ⟨answers_ok a, fun _ ha => by cases ha; exact h⟩, fun h => h.2 a rfl⟩

theorem answers_seq {x : Checked ε α} {f : α → Checked ε β} (hx : Answers x)
    (hf : ∀ a, Answers (f a)) : Answers (x >>= f) := answers_bind.mpr ⟨hx, fun a _ => hf a⟩

/-- After a check what it refuses does not hold. -/
theorem answers_check {c : Prop} [Decidable c] {e : ε} {f : Unit → Checked ε β}
    (hf : ¬ c → Answers (f ())) : Answers (refuseIf c e >>= f) :=
  answers_bind.mpr ⟨answers_refuseIf e, fun _ h => hf (refuseIf_ok h)⟩

theorem answers_found {e : ε} {x : Option α} {f : α → Checked ε β}
    (hf : ∀ a, x = some a → Answers (f a)) : Answers (orRefuse e x >>= f) :=
  answers_bind.mpr ⟨answers_orRefuse e x, fun a h => hf a (orRefuse_ok h)⟩

theorem answers_each {body : α → Checked ε Unit} {xs : List α}
    (h : ∀ x ∈ xs, Answers (body x)) : Answers (each body xs) := by
  induction xs with
  | nil => exact answers_ok ()
  | cons x xs ih =>
    refine answers_bind.mpr ⟨h x List.mem_cons_self, fun _ _ => ?_⟩
    exact ih fun y hy => h y (List.mem_cons_of_mem x hy)

theorem each_ok {body : α → Checked ε Unit} {xs : List α} (h : each body xs = .ok ()) :
    ∀ x ∈ xs, body x = .ok () := by
  induction xs with
  | nil => exact fun x hx => nomatch hx
  | cons y ys ih =>
    obtain ⟨_, hy, hys⟩ := bind_ok h
    intro x hx
    rcases List.mem_cons.mp hx with rfl | hx
    · exact hy
    · exact ih hys x hx

theorem each_of_ok {body : α → Checked ε Unit} {xs : List α} (h : ∀ x ∈ xs, body x = .ok ()) :
    each body xs = .ok () := by
  induction xs with
  | nil => rfl
  | cons x xs ih =>
    rw [each, h x List.mem_cons_self, ok_bind]
    exact ih fun y hy => h y (List.mem_cons_of_mem x hy)

theorem answers_carry {body : β → α → Checked ε β} {b : β} {xs : List α}
    (h : ∀ b, ∀ x ∈ xs, Answers (body b x)) : Answers (carry body b xs) := by
  induction xs generalizing b with
  | nil => exact answers_ok b
  | cons x xs ih =>
    refine answers_bind.mpr ⟨h b x List.mem_cons_self, fun b' _ => ?_⟩
    exact ih fun b y hy => h b y (List.mem_cons_of_mem x hy)

theorem carry_unit (body : α → Checked ε Unit) (xs : List α) :
    carry (fun _ x => body x) () xs = each body xs := by
  induction xs with
  | nil => rfl
  | cons x xs ih =>
    rw [carry, each]
    exact congrArg _ (funext fun _ => ih)

theorem carry_ok_mem {body : β → α → Checked ε β} {b c : β} {xs : List α} (h : carry body b xs = .ok c)
    {x : α} (hx : x ∈ xs) : ∃ b' c', body b' x = .ok c' := by
  induction xs generalizing b with
  | nil => cases hx
  | cons y ys ih =>
    obtain ⟨d, hd, hys⟩ := bind_ok h
    rcases List.mem_cons.mp hx with rfl | hx
    · exact ⟨b, d, hd⟩
    · exact ih hys hx

theorem carry_append (body : β → α → Checked ε β) (b : β) (xs ys : List α) :
    carry body b (xs ++ ys) = carry body b xs >>= fun c => carry body c ys := by
  induction xs generalizing b with
  | nil => rfl
  | cons x xs ih =>
    rw [List.cons_append, carry, carry, bind_assoc]
    exact congrArg _ (funext fun c => ih c)

/-- A loop answers when every round that is reached does. -/
theorem answers_carry_iff {body : β → α → Checked ε β} {b : β} {xs : List α} :
    Answers (carry body b xs) ↔ ∀ front x rest c, xs = front ++ x :: rest →
      carry body b front = .ok c → Answers (body c x) := by
  constructor
  · intro h front x rest c hxs hfront
    rw [hxs, carry_append, hfront, ok_bind] at h
    exact (answers_bind.mp h).1
  · intro h
    induction xs generalizing b with
    | nil => exact answers_ok b
    | cons x xs ih =>
      refine answers_bind.mpr ⟨h [] x xs b rfl rfl, fun c hc => ih ?_⟩
      intro front y rest d hxs hfront
      apply h (x :: front) y rest d (by rw [hxs, List.cons_append])
      rw [carry, hc, ok_bind]
      exact hfront

end Checked

end NixSecrets
