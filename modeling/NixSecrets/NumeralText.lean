import Mathlib.Data.List.Forall2
import Mathlib.Data.List.Induction
import Mathlib.Algebra.Order.Ring.Nat

namespace NixSecrets.NumeralText

/-- The value of a digit, of any base up to sixteen. -/
def digit (c : Char) : Option Nat :=
  if '0' ≤ c ∧ c ≤ '9' then some (c.toNat - '0'.toNat)
  else if 'a' ≤ c ∧ c ≤ 'f' then some (c.toNat - 'a'.toNat + 10)
  else if 'A' ≤ c ∧ c ≤ 'F' then some (c.toNat - 'A'.toNat + 10)
  else none

/-- The text writes the number in the base, with one digit or more. -/
inductive Writes (base : Nat) : List Char → Nat → Prop
  | digit {c : Char} {d : Nat} (hdigit : digit c = some d) (hbase : d < base) : Writes base [c] d
  | snoc {text : List Char} {n : Nat} {c : Char} {d : Nat} (htext : Writes base text n)
      (hdigit : NumeralText.digit c = some d) (hbase : d < base) : Writes base (text ++ [c]) (base * n + d)

def pushDigit (base n : Nat) (c : Char) : Option Nat :=
  (digit c).bind fun d => if d < base then some (base * n + d) else none

/-- The number that the text writes in the base. -/
def numeral (base : Nat) (text : List Char) : Option Nat :=
  if text = [] then none else text.foldlM (pushDigit base) 0

/-- The number with these digits in the base, the highest first. -/
def joined (base : Nat) (digits : List Nat) : Nat := digits.foldl (fun n d => n * base + d) 0

theorem pushDigit_eq_some {base n m : Nat} {c : Char} :
    pushDigit base n c = some m ↔ ∃ d, digit c = some d ∧ d < base ∧ m = base * n + d := by
  unfold pushDigit
  rw [Option.bind_eq_some_iff]
  constructor
  · intro h
    obtain ⟨d, hd, h⟩ := h
    split at h
    next hbase => exact ⟨d, hd, hbase, (Option.some.inj h).symm⟩
    next => cases h
  · intro h
    obtain ⟨d, hd, hbase, hm⟩ := h
    exact ⟨d, hd, by rw [if_pos hbase, hm]⟩

theorem numeral_snoc {base m : Nat} {text : List Char} {c : Char} (hne : text ≠ []) :
    numeral base (text ++ [c]) = some m ↔
      ∃ n d, numeral base text = some n ∧ digit c = some d ∧ d < base ∧ m = base * n + d := by
  have hwhole : text ++ [c] ≠ [] := by simp
  unfold numeral
  rw [if_neg hne, if_neg hwhole, List.foldlM_append]
  simp only [List.foldlM_cons, List.foldlM_nil, Option.bind_eq_bind, Option.bind_eq_some_iff, Option.pure_def,
    Option.some.injEq, exists_eq_right, pushDigit_eq_some]
  constructor
  · intro h
    obtain ⟨n, hn, d, h⟩ := h
    exact ⟨n, d, hn, h⟩
  · intro h
    obtain ⟨n, d, hn, h⟩ := h
    exact ⟨n, hn, d, h⟩

theorem numeral_single {base m : Nat} {c : Char} :
    numeral base [c] = some m ↔ digit c = some m ∧ m < base := by
  have hne : [c] ≠ [] := by simp
  unfold numeral
  rw [if_neg hne]
  simp only [List.foldlM_cons, List.foldlM_nil, Option.bind_eq_bind, Option.bind_eq_some_iff, Option.pure_def,
    Option.some.injEq, exists_eq_right, pushDigit_eq_some, Nat.mul_zero, Nat.zero_add]
  constructor
  · intro h
    obtain ⟨d, hd, hbase, hm⟩ := h
    rw [hm]
    exact ⟨hd, hbase⟩
  · intro h
    exact ⟨m, h.1, h.2, rfl⟩

theorem Writes.ne_nil {base n : Nat} {text : List Char} (h : Writes base text n) : text ≠ [] := by
  cases h with
  | digit => simp
  | snoc => simp

theorem numeral_eq_some {base n : Nat} {text : List Char} :
    numeral base text = some n ↔ Writes base text n := by
  constructor
  · intro h
    induction text using List.reverseRecOn generalizing n with
    | nil => cases h
    | append_singleton text c ih =>
      by_cases hne : text = []
      · subst hne
        obtain ⟨hd, hbase⟩ := numeral_single.mp h
        exact Writes.digit hd hbase
      · obtain ⟨m, d, hm, hd, hbase, hn⟩ := (numeral_snoc hne).mp h
        rw [hn]
        exact Writes.snoc (ih hm) hd hbase
  · intro h
    induction h with
    | digit hd hbase => exact numeral_single.mpr ⟨hd, hbase⟩
    | snoc htext hd hbase ih => exact (numeral_snoc htext.ne_nil).mpr ⟨_, _, ih, hd, hbase, rfl⟩

/-- A text is read as one number only. -/
theorem Writes.unique {base n m : Nat} {text : List Char} (h : Writes base text n)
    (h' : Writes base text m) : n = m :=
  Option.some.inj ((numeral_eq_some.mpr h).symm.trans (numeral_eq_some.mpr h'))

theorem Writes.digit_of_mem {base n : Nat} {text : List Char} (h : Writes base text n) {c : Char}
    (hc : c ∈ text) : ∃ d, NumeralText.digit c = some d := by
  induction h with
  | digit hd _ =>
    rw [List.mem_singleton.mp hc]
    exact ⟨_, hd⟩
  | snoc _ hd _ ih =>
    cases List.mem_append.mp hc with
    | inl hc => exact ih hc
    | inr hc =>
      rw [List.mem_singleton.mp hc]
      exact ⟨_, hd⟩

theorem Writes.not_mem {base n : Nat} {text : List Char} (h : Writes base text n) {c : Char}
    (hc : NumeralText.digit c = none) : c ∉ text := by
  intro hmem
  obtain ⟨d, hd⟩ := h.digit_of_mem hmem
  rw [hc] at hd
  cases hd

theorem joined_snoc (base : Nat) (digits : List Nat) (d : Nat) :
    joined base (digits ++ [d]) = joined base digits * base + d := by
  unfold joined
  rw [List.foldl_append]
  rfl

theorem joined_lt {base : Nat} {digits : List Nat} (h : ∀ d ∈ digits, d < base) :
    joined base digits < base ^ digits.length := by
  induction digits using List.reverseRecOn with
  | nil => exact Nat.one_pos
  | append_singleton digits d ih =>
    have hlt := ih fun x hx => h x (List.mem_append_left _ hx)
    have hd : d < base := h d (by simp)
    rw [joined_snoc, List.length_append, List.length_singleton, Nat.pow_succ]
    calc joined base digits * base + d < (joined base digits + 1) * base := by
          rw [Nat.add_mul]
          omega
      _ ≤ base ^ digits.length * base := Nat.mul_le_mul_right base hlt

theorem mapM_eq_some {α β : Type} {run : α → Option β} {xs : List α} {ys : List β} :
    xs.mapM run = some ys ↔ List.Forall₂ (fun x y => run x = some y) xs ys := by
  induction xs generalizing ys with
  | nil =>
    rw [List.forall₂_nil_left_iff]
    exact ⟨fun h => by cases h; rfl, fun h => by rw [h]; rfl⟩
  | cons x xs ih =>
    rw [List.mapM_cons, List.forall₂_cons_left_iff]
    simp only [Option.bind_eq_bind, Option.bind_eq_some_iff, Option.pure_def, Option.some.injEq, ih]
    constructor
    · intro h
      obtain ⟨y, hy, ys', hys, h⟩ := h
      exact ⟨y, ys', hy, hys, h.symm⟩
    · intro h
      obtain ⟨y, ys', hy, hys, h⟩ := h
      exact ⟨y, hy, ys', hys, h.symm⟩

end NixSecrets.NumeralText
