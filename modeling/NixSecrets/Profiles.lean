import NixSecrets.ApprovalBroker
import NixSecrets.FaultProgram
import NixSecrets.RustText

namespace NixSecrets.Profiles

open Faulty

def maxBytes : Nat := 128 * 1024

def attributes : List String :=
  ["host", "scope", "user", "service", "responsibility", "namespace", "name", "explanation",
    "facing", "type", "status"]

inductive ProfileFacetMode
  | all | whitelist | blacklist
  deriving DecidableEq, Repr

structure ProfileFacet where
  mode : ProfileFacetMode
  selected : BTreeSet String := ∅
  deriving DecidableEq

inductive ProfileViewFilter
  | required | all | keys | passwords | publicInfo
  deriving DecidableEq, Repr

structure ViewProfile where
  treeOrder : List String
  facets : BTreeMap String ProfileFacet := ∅
  viewFilter : ProfileViewFilter
  humanOnly : Bool
  deriving DecidableEq

structure ProfileSnapshot where
  revision : Nat := 0
  profiles : BTreeMap String ViewProfile := ∅
  deriving DecidableEq

structure Document where
  version : Nat
  profiles : BTreeMap String ViewProfile := ∅
  deriving DecidableEq

inductive ProfileError
  | invalid (message : String)
  | alreadyExists (message : String)
  | notFound (message : String)
  | io (error : String)
  | encode (error : String)
  deriving DecidableEq, Repr

/-- The TOML library, and the hash of the file's text. -/
structure Toml where
  encode : Document → Except String String
  decode : String → Except String Document
  hash : String → Nat

/-- What the library writes it reads back. -/
def Toml.RoundTrips (toml : Toml) : Prop :=
  ∀ document content, toml.encode document = .ok content → toml.decode content = .ok document

def validateName (name : String) : Except ProfileError Unit :=
  if name = "" ∨ 64 < name.utf8ByteSize ∨
      ¬ name.toList.all (fun c => c.isAlphanum || " _-.".toList.contains c) then
    .error (.invalid "profile name must be 1–64 letters, numbers, spaces, _, - or .")
  else .ok ()

def ProfileFacet.wellFormed (name : String) (facet : ProfileFacet) : Bool :=
  attributes.contains name && facet.selected.size ≤ 1024 &&
  facet.selected.toList.all (fun value =>
    value.utf8ByteSize ≤ 256 && !value.toList.any isControl) &&
  (facet.mode != .all || facet.selected.isEmpty)

def ViewProfile.validate (profile : ViewProfile) : Except ProfileError Unit :=
  if attributes.length < profile.treeOrder.length ∨ ¬ profile.treeOrder.Nodup ∨
      ¬ profile.treeOrder.all attributes.contains then
    .error (.invalid "invalid or duplicate tree attribute")
  else if attributes.length < profile.facets.size then .error (.invalid "too many facet filters")
  else if ¬ profile.facets.toList.all (fun (name, facet) => facet.wellFormed name) then
    .error (.invalid "invalid facet filter")
  else .ok ()

def validateAll : List (String × ViewProfile) → Except ProfileError Unit
  | [] => .ok ()
  | (name, profile) :: rest => do
    validateName name
    profile.validate
    validateAll rest

/-- The checks on the text of the file, once it is read. -/
def accept (toml : Toml) (content : String) : Except ProfileError ProfileSnapshot :=
  if maxBytes < content.utf8ByteSize then .error (.invalid "profile file is too large")
  else
    match toml.decode content with
    | .error error => .error (.invalid error)
    | .ok document =>
      if document.version ≠ 1 then .error (.invalid "unsupported profile file version")
      else if 64 < document.profiles.size then .error (.invalid "too many profiles")
      else do
        validateAll document.profiles.toList
        return ⟨toml.hash content, document.profiles⟩

/-- The text of the profile file and of the temporary file beside it. -/
structure ProfileDisk where
  file : Option String := none
  temp : Option String := none
  deriving DecidableEq, Repr

abbrev ProfileProgram (α : Type) := Faulty ProfileDisk ProfileError α

def ios (effects : List (ProfileDisk → ProfileDisk)) : ProfileProgram Unit := steps ProfileError.io effects

namespace ProfileStore

/-- The rest of `read`, once the file is found and opened. -/
def readText (toml : Toml) (content : String) : ProfileProgram ProfileSnapshot := do
  -- Its metadata is looked at twice.
  ios [id, id]
  refuseIf (maxBytes < content.utf8ByteSize)
    (ProfileError.invalid "profile path is not a regular file of acceptable size")
  ios [id]
  Faulty.ofExcept (accept toml content)

def read (toml : Toml) : ProfileProgram ProfileSnapshot := do
  -- The path is looked at, then opened.
  ios [id, id]
  let disk ← Faulty.read
  match disk.file with
  | none => return {}
  | some content => readText toml content

/-- Open, write and sync the temporary file, look at the path, rename; open and sync the
directory. -/
def writing (content : String) : List (ProfileDisk → ProfileDisk) :=
  [fun disk => { disk with temp := some "" },
    fun disk => { disk with temp := some content },
    id,
    id,
    fun _ => { file := some content, temp := none },
    id,
    id]

def atomicWrite (content : String) : ProfileProgram Unit := do
  ios [id]
  match ← (ios (writing content)).attempt with
  | .ok () => return ()
  | .error error => do
    let _ ← (ios [fun disk => { disk with temp := none }]).attempt
    throw error

def change (toml : Toml) (expected : Nat) (edit : Document → Except ProfileError Document) :
    ProfileProgram ProfileSnapshot := do
  let current ← read toml
  refuseIf (current.revision ≠ expected)
    (ProfileError.alreadyExists "profiles changed; reload before saving")
  let document ← Faulty.ofExcept (edit ⟨1, current.profiles⟩)
  let content ← Faulty.ofExcept ((toml.encode document).mapError ProfileError.encode)
  refuseIf (maxBytes < content.utf8ByteSize) (ProfileError.invalid "profile file is too large")
  atomicWrite content
  read toml

def insertProfile (name : String) (profile : ViewProfile) (document : Document) :
    Except ProfileError Document :=
  .ok { document with profiles := document.profiles.insert name profile }

def removeProfile (name : String) (document : Document) : Except ProfileError Document :=
  if name ∈ document.profiles then
    .ok { document with profiles := document.profiles.erase name }
  else .error (.notFound "profile does not exist")

def save (toml : Toml) (name : String) (profile : ViewProfile) (expected : Nat) :
    ProfileProgram ProfileSnapshot := do
  Faulty.ofExcept (validateName name)
  Faulty.ofExcept profile.validate
  change toml expected (insertProfile name profile)

def delete (toml : Toml) (name : String) (expected : Nat) : ProfileProgram ProfileSnapshot := do
  Faulty.ofExcept (validateName name)
  change toml expected (removeProfile name)

end ProfileStore

/-- A profile is renamed by saving it under its new name and deleting the old one. -/
inductive ProfileOp
  | save (name : String) (profile : ViewProfile) (expected : Nat)
  | delete (name : String) (expected : Nat)

/-- An operation, and which of its accesses to the file system are refused. -/
structure ProfileCall where
  op : ProfileOp
  errors : List (Option String) := []

def ProfileOp.program (toml : Toml) : ProfileOp → ProfileProgram ProfileSnapshot
  | .save name profile expected => ProfileStore.save toml name profile expected
  | .delete name expected => ProfileStore.delete toml name expected

def ProfileCall.exec (toml : Toml) (call : ProfileCall) (disk : ProfileDisk) :
    Ended ProfileError ProfileSnapshot × ProfileDisk :=
  let (ended, _, disk) := call.op.program toml (refusals call.errors) disk
  (ended, disk)

/-- What the file holds, when nothing refuses to read it. -/
def current (toml : Toml) : Option String → Except ProfileError ProfileSnapshot
  | none => .ok {}
  | some content => accept toml content

def ProfileOp.prepare : ProfileOp → Except ProfileError (Nat × (Document → Except ProfileError Document))
  | .save name profile expected => do
    validateName name
    profile.validate
    return (expected, ProfileStore.insertProfile name profile)
  | .delete name expected => do
    validateName name
    return (expected, ProfileStore.removeProfile name)

/-- The edited document and its text, if it may be written. -/
def written (toml : Toml) (expected : Nat) (edit : Document → Except ProfileError Document)
    (snapshot : ProfileSnapshot) : Except ProfileError (Document × String) :=
  if snapshot.revision ≠ expected then
    .error (.alreadyExists "profiles changed; reload before saving")
  else do
    let document ← edit ⟨1, snapshot.profiles⟩
    let content ← (toml.encode document).mapError ProfileError.encode
    if maxBytes < content.utf8ByteSize then .error (.invalid "profile file is too large")
    else .ok (document, content)

/-- What an operation would write over the file. -/
def ProfileOp.writes (toml : Toml) (op : ProfileOp) (file : Option String) :
    Except ProfileError (Document × String) := do
  let (expected, edit) ← op.prepare
  let snapshot ← current toml file
  written toml expected edit snapshot

/-- How many accesses it takes to read the file. -/
def reads : Option String → Nat
  | none => 2
  | some _ => 5

end NixSecrets.Profiles
