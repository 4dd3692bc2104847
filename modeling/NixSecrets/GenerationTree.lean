import NixSecrets.DeployBatch
import NixSecrets.Listing

namespace NixSecrets

/-- A regular file; `mode` has the permission bits, `acl` the access ACL as stored. -/
structure File where
  bytes : List UInt8
  owner : UInt32
  group : UInt32
  mode : UInt32
  acl : Option (List UInt8) := none
  deriving DecidableEq, Repr

structure DirMetadata where
  owner : UInt32
  group : UInt32
  mode : UInt32
  acl : Option (List UInt8) := none
  deriving DecidableEq, Repr

/-- The contents of a generation. -/
abbrev Tree := Listing File DirMetadata

/-- The JSON reader and writer of version maps. -/
structure VersionCodec where
  encode : BTreeMap String String → List UInt8
  decode : List UInt8 → Except String (BTreeMap String String)
  decode_encode : ∀ versions, decode (encode versions) = .ok versions

/-- What the receiver runs on: its user and group, the permission bits a file shows once
an ACL is set, and the JSON library. -/
structure Platform where
  uid : UInt32
  gid : UInt32
  aclMode : List UInt8 → UInt32 → UInt32
  codec : VersionCodec

def versionsName : String := ".versions.json"
def maxVersionsBytes : Nat := 4 * 1024 * 1024

variable (p : Platform)

/-- The mode a copy shows after its owner, permissions and ACL are set. -/
def copiedMode (mode : UInt32) (acl : Option (List UInt8)) : UInt32 :=
  match acl with
  | none => mode
  | some acl => p.aclMode acl mode

def copyOwnerAndAcls (mode : UInt32) (acl : Option (List UInt8)) : Except DeployError Unit :=
  if copiedMode p mode acl = mode then .ok ()
  else .error (.invalid "copied POSIX ACL mode differs from source")

def cloneTree : Tree → Except DeployError Tree
  | .empty => .ok .empty
  | .file name f rest =>
    if name = versionsName then cloneTree rest
    else do
      copyOwnerAndAcls p f.mode f.acl
      let copy ← cloneTree rest
      return .file name f copy
  | .dir name m children rest =>
    if name = versionsName then cloneTree rest
    else do
      copyOwnerAndAcls p m.mode m.acl
      let inner ← cloneTree children
      let copy ← cloneTree rest
      return .dir name m inner copy
  | .link name _ rest =>
    if name = versionsName then cloneTree rest
    else .error (.invalid "symbolic link in current generation")

def le16 (low high : UInt8) : UInt16 := low.toUInt16 ||| (high.toUInt16 <<< 8)

/-- The owning group's permission among the eight-byte entries of an ACL. -/
def groupEntry : List UInt8 → Except DeployError UInt16
  | tagLow :: tagHigh :: permLow :: permHigh :: _ :: _ :: _ :: _ :: rest =>
    if le16 tagLow tagHigh = 4 then .ok (le16 permLow permHigh) else groupEntry rest
  | _ => .error (.invalid "carried secret ACL has no group entry")

def groupObject (acl : Option (List UInt8)) : Except DeployError (Option UInt16) :=
  match acl with
  | none => .ok none
  | some value =>
    if value.length < 4 ∨ (value.length - 4) % 8 ≠ 0 ∨ value.take 4 ≠ [2, 0, 0, 0] then
      .error (.invalid "carried secret has an invalid POSIX ACL")
    else (groupEntry (value.drop 4)).map some

/-- What the owning group may do: with an ACL the group bits show its mask instead. -/
def File.groupPermission (f : File) : Except DeployError UInt32 :=
  (groupObject f.acl).map fun entry => match entry with
    | some permission => permission.toUInt32
    | none => (f.mode >>> 3) &&& 0o7

def unchangedCarried (f : File) (contents : List UInt8) (owner group mode : UInt32) :
    Except DeployError Bool :=
  if f.owner ≠ owner ∨ f.group ≠ group ∨ f.bytes.length ≠ contents.length ∨
      f.mode &&& ~~~0o070 ≠ mode &&& ~~~0o070 then .ok false
  else do
    let permission ← f.groupPermission
    if permission ≠ (mode >>> 3) &&& 0o7 then return false
    else return f.bytes = contents

/-- `fchown` leaves an owner of all ones as it is. -/
def chowned (current asked : UInt32) : UInt32 :=
  if asked = 0xffffffff then current else asked

/-- The file made for a value that is new or changed. -/
def stagedFile (spec : ResolvedSecret) : Except DeployError File :=
  if chowned p.uid spec.owner ≠ spec.owner ∨ chowned p.gid spec.group ≠ spec.group ∨
      spec.mode &&& 0o7777 ≠ spec.mode then
    .error (.invalid "staged secret metadata does not match manifest")
  else .ok ⟨spec.contents, spec.owner, spec.group, spec.mode, none⟩

def restage (spec : ResolvedSecret) (name : String) (tree : Tree) : Except DeployError Tree :=
  match tree.get? name with
  | some (.file f) => do
    if ← unchangedCarried f spec.contents spec.owner spec.group spec.mode then return tree
    else return tree.set name (.file (← stagedFile p spec))
  | some _ => .error (.invalid "existing generation destination is not a regular file")
  | none => do return tree.set name (.file (← stagedFile p spec))

/-- Stages a value at a relative path, making the directories on the way. -/
def stageOne (spec : ResolvedSecret) : List String → Tree → Except DeployError Tree
  | [], _ => .error (.invalid "destination escaped generation")
  | [name], tree => restage p spec name tree
  | name :: next :: path, tree => match tree.get? name with
    | some (.dir m children) => do
      return tree.set name (.dir m (← stageOne spec (next :: path) children))
    | some _ => .error (.invalid "secret directory is not a real directory")
    | none => do
      return tree.set name (.dir ⟨p.uid, p.gid, 0o711, none⟩ (← stageOne spec (next :: path) .empty))

def stageEntry (entry : ValidatedSecret) (tree : Tree) : Except DeployError Tree :=
  (stageOne p entry.spec entry.relative tree).mapError
    (DeployError.during ("staging " ++ entry.spec.identifier))

/-- The version map a generation records. -/
def readVersions (tree : Tree) : Except DeployError (BTreeMap String String) :=
  match tree.get? versionsName with
  | some (.file f) =>
    if maxVersionsBytes < f.bytes.length then
      .error (.invalid "generation version metadata is invalid")
    else (p.codec.decode f.bytes).mapError fun e =>
      .invalid ("invalid generation version metadata: " ++ e)
  | some _ => .error (.invalid "generation version metadata is invalid")
  | none => .error (.io "No such file or directory")

def mergeVersions (versions : BTreeMap String String) (entries : List ValidatedSecret) :
    BTreeMap String String :=
  entries.foldl (fun versions entry => versions.insert entry.spec.identifier entry.spec.versionId)
    versions

def stageVersions (versions : BTreeMap String String) (entries : List ValidatedSecret)
    (tree : Tree) : Except DeployError Tree :=
  match tree.get? versionsName with
  | some _ => .error (.io "File exists")
  | none => .ok (tree.set versionsName
      (.file ⟨p.codec.encode (mergeVersions versions entries), p.uid, p.gid, 0o600, none⟩))

end NixSecrets
