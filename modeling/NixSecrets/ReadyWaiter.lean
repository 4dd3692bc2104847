import NixSecrets.DeployTrees
import NixSecrets.HostKeyLines
import NixSecrets.Outcome

namespace NixSecrets.Waiter

open Relation

structure ExpectedSecret where
  service : String
  category : String
  secret : String
  uid : UInt32
  gid : UInt32
  mode : UInt32
  runtimeUids : List UInt32 := []
  aclProgram : Option String := none
  deriving DecidableEq, Repr

def rootPath : String := "/persistent/secrets"

def ExpectedSecret.path (expected : ExpectedSecret) : String :=
  rootPath ++ "/" ++ expected.service ++ "/" ++ expected.category ++ "/" ++ expected.secret

def ExpectedSecret.parts (expected : ExpectedSecret) : List String :=
  [expected.service, expected.category, expected.secret]

structure AclOutput where
  success : Bool
  stdout : List UInt8
  deriving DecidableEq, Repr

/-- The file system as one system call finds it: the root that deployments change, what else has a name in
it, and what is left of a generation that is being removed. -/
structure World where
  root : Root
  parent : Bool
  others : String → Bool
  left : String → List String → Bool

inductive Entry
  | link (target : Target)
  | other
  deriving DecidableEq, Repr

def World.entry (w : World) (name : String) : Option Entry :=
  if w.others name then some .other else (w.root.link? name).map .link

def World.node (w : World) (id : String) (path : List String) : Option (Node File DirMetadata) :=
  match w.root.generations[id]? with
  | none => none
  | some generation => if generation.whole ∨ w.left id path then generation.tree.node? path else none

def World.directory (w : World) (id : String) (path : List String) : Bool :=
  match w.node id path with
  | some (.dir _) => true
  | _ => false

/-- What each system call of a poll finds, or why it fails. -/
structure Looks where
  seen : Nat → World
  fault : Nat → Option String

/-- A poll counts its system calls. -/
abbrev Poll := ExceptT String (StateM Nat)

def fail {α : Type} (message : String) : Poll α := throw message

section

variable (looks : Looks)

def look {α : Type} (failure : String) (f : World → α) : Poll α := fun count =>
  match looks.fault count with
  | some error => (.error (failure ++ error), count + 1)
  | none => (.ok (f (looks.seen count)), count + 1)

def realDirectory (path : String) (isDirectory : World → Bool) : Poll Bool :=
  look looks ("cannot inspect " ++ path ++ ": ") isDirectory

def currentPath : String := rootPath ++ "/.current"

def generationOf (target : Target) : Option String :=
  match target with
  | .generation id => if validGeneration id then some id else none
  | .service _ => none

/-- The generation that `.current` names, once the directories above it are there. -/
def pointedGeneration : Poll (Option String) := do
  match ← look looks ("cannot inspect " ++ currentPath ++ ": ") (·.entry ".current") with
  | none => return none
  | some .other => fail (currentPath ++ " is not the required symlink")
  | some (.link _) =>
    match ← look looks ("cannot read " ++ currentPath ++ ": ") (·.entry ".current") with
    | some (.link target) =>
      match generationOf target with
      | none => fail (currentPath ++ " has an invalid target")
      | some id =>
        let isDirectory ← realDirectory looks (rootPath ++ "/.generations/" ++ id) fun w =>
          id ∈ w.root.generations
        return if isDirectory then some id else none
    | _ => fail ("cannot read " ++ currentPath ++ ": No such file or directory")

def currentGeneration : Poll (Option String) := do
  if ¬ (← realDirectory looks "/persistent" (·.parent)) then return none
  else if ¬ (← realDirectory looks rootPath (·.root.present)) then return none
  else if ¬ (← realDirectory looks (rootPath ++ "/.generations") (·.root.store)) then return none
  else pointedGeneration looks

end

/-- The lines of an access list in any order. -/
def exactRuntimeAcl (text : List Char) (uids : List UInt32) : Bool :=
  ((HostKey.lines text).filter (· ≠ [])).isPerm
    (["user::r--".toList, "group::---".toList, "mask::r--".toList, "other::---".toList] ++
      uids.map fun uid => ("user:" ++ toString uid ++ ":r--").toList)

section

variable (getfacl : File → AclOutput) (looks : Looks)

def aclOf (id : String) (path : List String) (w : World) : AclOutput :=
  match w.node id path with
  | some (.file file) => getfacl file
  | _ => ⟨false, []⟩

def runtimeAclReady (id : String) (expected : ExpectedSecret) : Poll Bool := do
  if expected.aclProgram = none then fail "runtime ACL checker missing"
  else
    let output ← look looks "inspecting runtime ACL: " (aclOf getfacl id expected.parts)
    if ¬ output.success ∨ 65536 < output.stdout.length then fail "runtime ACL inspection failed"
    else
      match utf8Text output.stdout with
      | none => fail "runtime ACL is not UTF-8"
      | some text => return exactRuntimeAcl text expected.runtimeUids

def fileReady (id : String) (expected : ExpectedSecret) : Poll Bool := do
  match ← look looks ("cannot inspect " ++ expected.path ++ ": ") (·.node id expected.parts) with
  | some (.file file) =>
    if file.owner ≠ expected.uid ∨ file.group ≠ expected.gid then return false
    else if file.mode &&& 0o7777 = expected.mode then return true
    else if file.mode &&& 0o7777 ≠ 0o440 ∨ expected.runtimeUids = [] then return false
    else runtimeAclReady getfacl looks id expected
  | _ => return false

def readyIn (id : String) (expected : ExpectedSecret) : Poll Bool := do
  let linkPath := rootPath ++ "/" ++ expected.service
  match ← look looks ("cannot inspect " ++ linkPath ++ ": ") (·.entry expected.service) with
  | none => return false
  | some .other => fail (linkPath ++ " is not the required service symlink")
  | some (.link _) =>
    let target ← look looks "" (·.entry expected.service)
    if target ≠ some (.link (.service expected.service)) then
      fail (linkPath ++ " is not the required service symlink")
    else if ¬ (← realDirectory looks (rootPath ++ "/.generations/" ++ id ++ "/" ++ expected.service)
        (·.directory id [expected.service])) then return false
    else if ¬ (← realDirectory looks
        (rootPath ++ "/.generations/" ++ id ++ "/" ++ expected.service ++ "/" ++ expected.category)
        (·.directory id [expected.service, expected.category])) then return false
    else fileReady getfacl looks id expected

def secretIsReadyAt (expected : ExpectedSecret) : Poll Bool := do
  match ← currentGeneration looks with
  | none => return false
  | some id => readyIn getfacl looks id expected

def missingFrom (missing : List String) (expected : ExpectedSecret) : Poll (List String) := do
  if ← secretIsReadyAt getfacl looks expected then return missing
  else return missing ++ [expected.path]

end

end NixSecrets.Waiter
