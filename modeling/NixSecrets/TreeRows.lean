import Mathlib.Data.List.Infix
import Mathlib.Data.List.Sort
import NixSecrets.InventorySchema

namespace NixSecrets.Tui

open Inventory (SecretIdentity SecretPresentation)

inductive RowCategory
  | branch
  | password
  | key
  | publicInfo
  | operator
  | other
  deriving DecidableEq, Repr

/-- A value or a group of the tree; only values have a path. -/
structure Row where
  depth : Nat
  name : String
  displaySegments : List String
  path : Option String := none
  isSet : Bool := false
  isTask : Bool := false
  canGenerate : Bool := false
  canCopyPublic : Bool := false
  outputIsSet : Option Bool := none
  description : Option String := none
  category : RowCategory := .branch
  humanFacing : Bool := false
  externalInputRequired : Bool := false
  requiredForInstall : Bool := false
  identity : Option SecretIdentity := none
  presentation : Option SecretPresentation := none
  deriving DecidableEq, Repr

def Row.isSecret (row : Row) : Bool := row.path.isSome

inductive Attribute
  | host
  | scope
  | user
  | service
  | responsibility
  | space
  | name
  | explanation
  | facing
  | type
  | status
  deriving DecidableEq, Repr

namespace Attribute

def all : List Attribute :=
  [host, scope, user, service, responsibility, space, name, explanation, facing, type, status]

def defaultTree : List Attribute := [host, scope, service, responsibility, space, name]

/-- The parts of a row's path between its dots. -/
def pathPart (row : Row) (index : Nat) : String :=
  String.ofList (((row.path.getD "").toList.splitOn '.').getD index [])

def facingOf (row : Row) : String :=
  if row.externalInputRequired then "external" else if row.humanFacing then "human" else "generated"

def typeOf : RowCategory → String
  | .password => "passphrase"
  | .key => "key"
  | .publicInfo => "public-key"
  | .operator => "operator-key"
  | .other | .branch => "value"

def rawValue (row : Row) : Attribute → Option String
  | host => some (row.identity.elim (pathPart row 0) (·.host))
  | scope => some (row.identity.elim
      (if ".user-".toList <:+: (row.path.getD "").toList then "user" else "system") (·.scope))
  | user => row.identity.bind (·.user)
  | service => some (row.identity.elim (pathPart row 2) (·.service))
  | responsibility => some (row.identity.elim "main" (·.responsibility))
  | space => row.identity.bind (·.space)
  | name => some (row.identity.elim row.name (·.name))
  | explanation => (row.presentation.map (·.explanation)).or row.description
  | facing => some (row.presentation.elim (facingOf row) (·.facing))
  | type => some (row.presentation.elim (typeOf row.category) (·.valueType))
  | status => some (if row.isSet then "set" else "unset")

/-- The attribute's value for a row, if it applies to it. -/
def value (a : Attribute) (row : Row) : Option String :=
  (a.rawValue row).filter fun value => value ≠ "" ∧ value ≠ "(none)"

end Attribute

inductive FacetMode
  | all
  | whitelist
  | blacklist
  deriving DecidableEq, Repr

structure Facet where
  mode : FacetMode := .all
  selected : List String := []
  deriving DecidableEq, Repr

def Facet.accepts (facet : Facet) (value : String) : Bool :=
  match facet.mode with
  | .all => true
  | .whitelist => facet.selected.contains value
  | .blacklist => !facet.selected.contains value

/-- The groups below a group, in the order of their labels, and its values. -/
inductive Node
  | mk (children : List (String × Node)) (leaves : List Row)

/-- Changes the entry of a sorted map, which is `empty` if there is none yet. -/
def modifyEntry {α : Type} (key : String) (empty : α) (f : α → α) : List (String × α) → List (String × α)
  | [] => [(key, f empty)]
  | (label, x) :: rest =>
    if key = label then (label, f x) :: rest
    else if key < label then (key, f empty) :: (label, x) :: rest
    else (label, x) :: modifyEntry key empty f rest

namespace Node

def empty : Node := .mk [] []

/-- Puts a value below the groups that its attributes name. -/
def insert (leaf : Row) : List String → Node → Node
  | [], .mk children leaves => .mk children (leaves ++ [leaf])
  | label :: labels, .mk children leaves => .mk (modifyEntry label empty (insert leaf labels) children) leaves

end Node

/-- The groups that a value stands below; the last attribute is no group where it is the name. -/
def groupLabels (order : List Attribute) (leaf : Row) : List String :=
  (if order.getLast? = some .name then order.dropLast else order).filterMap (·.value leaf)

def branch (depth : Nat) (name : String) (displaySegments : List String) : Row :=
  { depth, name, displaySegments }

def leafBefore (a b : Row) : Bool :=
  match compare a.name b.name with
  | .lt => true
  | .eq => compare a.path b.path ≠ .gt
  | .gt => false

mutual

def emit (depth : Nat) (ancestors : List String) : Node → List Row
  | .mk children leaves =>
    emitChildren depth ancestors children ++ (leaves.insertionSort fun a b => leafBefore a b).map fun leaf =>
      { leaf with depth, displaySegments := ancestors ++ [leaf.name] }

def emitChildren (depth : Nat) (ancestors : List String) : List (String × Node) → List Row
  | [] => []
  | (label, child) :: rest =>
    branch depth label (ancestors ++ [label]) :: (emit (depth + 1) (ancestors ++ [label]) child ++
      emitChildren depth ancestors rest)

end

/-- The values in the tree that the attributes give in this order. -/
def reorderedRows (leaves : List Row) (order : List Attribute) : List Row :=
  emit 0 [] ((leaves.filter Row.isSecret).foldl (fun root leaf => root.insert leaf (groupLabels order leaf)) .empty)

end NixSecrets.Tui
