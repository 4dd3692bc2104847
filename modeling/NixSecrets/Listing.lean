import Mathlib.Algebra.Order.Ring.Nat
import Mathlib.Data.List.Basic

namespace NixSecrets

/-- A directory with files `φ` and subdirectories that carry metadata `μ`, as the list of
its entries. -/
inductive Listing (φ μ : Type)
  | empty
  | file (name : String) (file : φ) (rest : Listing φ μ)
  | dir (name : String) (metadata : μ) (children rest : Listing φ μ)
  | link (name target : String) (rest : Listing φ μ)
  deriving DecidableEq, Repr

inductive Item (φ μ : Type)
  | file (file : φ)
  | dir (metadata : μ) (children : Listing φ μ)
  | link (target : String)
  deriving DecidableEq, Repr

/-- An item without what is below it. -/
inductive Node (φ μ : Type)
  | file (file : φ)
  | dir (metadata : μ)
  | link (target : String)
  deriving DecidableEq, Repr

namespace Listing

variable {φ μ : Type}

def get? : Listing φ μ → String → Option (Item φ μ)
  | .empty, _ => none
  | .file n f rest, name => if n = name then some (.file f) else rest.get? name
  | .dir n m children rest, name => if n = name then some (.dir m children) else rest.get? name
  | .link n t rest, name => if n = name then some (.link t) else rest.get? name

def add (name : String) : Item φ μ → Listing φ μ → Listing φ μ
  | .file f, rest => .file name f rest
  | .dir m children, rest => .dir name m children rest
  | .link t, rest => .link name t rest

/-- Replaces the entry of that name, or adds one. -/
def set (name : String) (item : Item φ μ) : Listing φ μ → Listing φ μ
  | .empty => add name item .empty
  | .file n f rest => if n = name then add name item rest else .file n f (rest.set name item)
  | .dir n m children rest =>
    if n = name then add name item rest else .dir n m children (rest.set name item)
  | .link n t rest => if n = name then add name item rest else .link n t (rest.set name item)

theorem get?_add (name other : String) (item : Item φ μ) (rest : Listing φ μ) :
    (add name item rest).get? other = if name = other then some item else rest.get? other := by
  cases item <;> rfl

theorem if_other_first {α : Type} {n name other : String} (h : n ≠ name) (x y z : α) :
    (if n = other then x else if name = other then y else z) =
      if name = other then y else if n = other then x else z := by
  by_cases ho : n = other
  · have : name ≠ other := fun hh => h (ho.trans hh.symm)
    simp [ho, this]
  · simp [ho]

theorem get?_set (l : Listing φ μ) (name other : String) (item : Item φ μ) :
    (l.set name item).get? other = if name = other then some item else l.get? other := by
  induction l with
  | empty => exact get?_add name other item .empty
  | file n f rest ih =>
    by_cases hn : n = name
    · simp only [set, hn, if_true, get?_add, get?]
      split <;> rfl
    · simp only [set, hn, if_false, get?, ih, if_other_first hn]
  | dir n m children rest _ ih =>
    by_cases hn : n = name
    · simp only [set, hn, if_true, get?_add, get?]
      split <;> rfl
    · simp only [set, hn, if_false, get?, ih, if_other_first hn]
  | link n t rest ih =>
    by_cases hn : n = name
    · simp only [set, hn, if_true, get?_add, get?]
      split <;> rfl
    · simp only [set, hn, if_false, get?, ih, if_other_first hn]

/-- What stands at a relative path, if anything does. -/
def node? : List String → Listing φ μ → Option (Node φ μ)
  | [], _ => none
  | name :: path, l => match l.get? name with
    | some (.file f) => if path = [] then some (.file f) else none
    | some (.dir m children) => if path = [] then some (.dir m) else children.node? path
    | some (.link t) => if path = [] then some (.link t) else none
    | none => none

theorem node?_nil (l : Listing φ μ) : l.node? [] = none := by
  cases l <;> rfl

theorem node?_empty (path : List String) : (Listing.empty : Listing φ μ).node? path = none := by
  cases path <;> rfl

/-- Paths that start alike in two listings lead to the same. -/
theorem node?_congr {l l' : Listing φ μ} {name : String} (h : l'.get? name = l.get? name)
    (path : List String) : l'.node? (name :: path) = l.node? (name :: path) := by
  rw [node?, node?, h]

theorem node?_file {l : Listing φ μ} {name : String} {f : φ} (h : l.get? name = some (.file f))
    (path : List String) : l.node? (name :: path) = if path = [] then some (.file f) else none := by
  rw [node?, h]

theorem node?_dir {l children : Listing φ μ} {name : String} {m : μ}
    (h : l.get? name = some (.dir m children)) (path : List String) :
    l.node? (name :: path) = if path = [] then some (.dir m) else children.node? path := by
  rw [node?, h]

theorem node?_absent {l : Listing φ μ} {name : String} (h : l.get? name = none)
    (path : List String) : l.node? (name :: path) = none := by
  rw [node?, h]

end Listing

end NixSecrets
