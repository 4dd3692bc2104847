import NixSecrets.Checked
import NixSecrets.InventorySchema

namespace NixSecrets

open Inventory

/-- Why a request is refused: a text, or an error of the schema that the text ends in. -/
inductive Refusal
  | message (text : String)
  | schema (error : SchemaError)
  | path (identifier : String) (error : SchemaError)
  deriving DecidableEq, Repr

namespace ArtifactSigning

structure Artifact where
  role : String
  path : String
  sha512 : String
  size : Nat
  deriving DecidableEq, Repr

structure Manifest where
  artifacts : List Artifact
  deriving DecidableEq, Repr

structure SigningRequest where
  identifier : String
  host : String
  publicKeySha256 : String
  manifest : Manifest
  deriving DecidableEq, Repr

def maxArtifactBytes : Nat := 128 * 1024 * 1024 * 1024

def requiredRoles : List String :=
  ["generation-image", "boot-config", "gen-kernel", "gen-initrd", "rescue-sfs"]

def optionalRoles : List String := ["network-stage", "rescue-tools"]

def isHex (value : String) (length : Nat) : Bool :=
  value.utf8ByteSize == length && value.toList.all fun c => c.isDigit || ('a' ≤ c && c ≤ 'f')

def Artifact.validate (artifact : Artifact) : Except String Unit :=
  if !isHex artifact.sha512 128 then
    .error "artifact SHA512 must be 128 lowercase hexadecimal characters"
  else if artifact.size = 0 ∨ maxArtifactBytes < artifact.size then
    .error "artifact size outside permitted bounds"
  else if ¬ "/nix/store/".toList.isPrefixOf artifact.path.toList ∨ 4096 < artifact.path.utf8ByteSize ∨
      '\x00' ∈ artifact.path.toList then
    .error "signing accepts immutable Nix store artifacts only"
  else .ok ()

/-- The loop over the artifacts, with the roles it has seen. -/
def validateArtifacts : List String → List Artifact → Except String (List String)
  | roles, [] => .ok roles
  | roles, artifact :: artifacts =>
    if artifact.role ∉ requiredRoles ∧ artifact.role ∉ optionalRoles then
      .error "unknown artifact role"
    else if artifact.role ∈ roles then .error "duplicate artifact role"
    else
      match artifact.validate with
      | .error message => .error message
      | .ok () => validateArtifacts (artifact.role :: roles) artifacts

def Manifest.validate (manifest : Manifest) : Except String Unit :=
  if manifest.artifacts.length < 5 ∨ 7 < manifest.artifacts.length then
    .error "artifact batch requires five roles plus an optional network stage and rescue tools image"
  else
    match validateArtifacts [] manifest.artifacts with
    | .error message => .error message
    | .ok roles =>
      if requiredRoles.any (· ∉ roles) then .error "missing required artifact role" else .ok ()

def SigningRequest.validate (request : SigningRequest) : Checked Refusal Unit := do
  let _ ← (SecretPath.parse request.identifier).mapRefusal Refusal.schema
  Checked.refuseIf (request.host = "" ∨ 253 < request.host.utf8ByteSize ∨
      ¬ request.host.toList.all (fun c => c.isAlphanum || c == '-') ∨
      ¬ (request.host ++ ".services.").toList.isPrefixOf request.identifier.toList)
    (.message "signing key must belong to the declared host")
  Checked.refuseIf (¬ isHex request.publicKeySha256 64)
    (.message "invalid signing public-key fingerprint")
  (Checked.ofExcept request.manifest.validate).mapRefusal Refusal.message

structure StoreFile where
  isFile : Bool
  mode : Nat
  uid : Nat
  size : Nat
  deriving DecidableEq, Repr

/-- What the file system says about the Nix store. -/
structure StoreView where
  storeUid : Except String Nat
  canonicalize : String → Except String String
  openFile : String → Except String StoreFile

def insideStore (canonical : String) : Bool :=
  canonical == "/nix/store" || "/nix/store/".toList.isPrefixOf canonical.toList

def openArtifact (store : StoreView) (storeUid : Nat) (artifact : Artifact) :
    Except String (String × StoreFile) := do
  let canonical ← store.canonicalize artifact.path
  if !insideStore canonical then .error "artifact escaped immutable Nix store"
  else
    let file ← store.openFile canonical
    if ¬ file.isFile ∨ file.mode &&& 0o222 ≠ 0 ∨ file.uid ≠ storeUid ∨ file.size ≠ artifact.size then
      .error "artifact is mutable or has changed size"
    else .ok (artifact.role, file)

def openArtifacts (store : StoreView) (request : SigningRequest) :
    Checked Refusal (Entries StoreFile) := do
  request.validate
  let files := do
    let storeUid ← store.storeUid
    request.manifest.artifacts.mapM (openArtifact store storeUid)
  (Checked.ofExcept files).mapRefusal Refusal.message

end ArtifactSigning

namespace Inventory

mutual

def collect (path : List String) : SecretNode → Checked SchemaError (List String)
  | .branch children => collectAll path children
  | .secret _ | .generated _ => do return [(← SecretPath.new path).display]
  | .operator _ => .ok []

def collectAll (path : List String) : List (String × SecretNode) → Checked SchemaError (List String)
  | [] => .ok []
  | (name, child) :: children => do
    let first ← collect (path ++ [name]) child
    let rest ← collectAll path children
    return first ++ rest

end

/-- Every value a host can request in one deployment. -/
def Schema.deployableIdentifiers (schema : Schema) (host : String) :
    Checked SchemaError (List String) := do
  let entry ← Checked.orRefuse (.invalidComponent ("unknown host " ++ host)) (schema.lookup host)
  let groups ← entry.serviceGroups.mapM fun (space, services) =>
    services.mapM fun (service, node) => collect [host, space, service] node
  return groups.flatten.flatten

end Inventory

end NixSecrets
