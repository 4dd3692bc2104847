import NixSecrets.ApprovalRows
import NixSecrets.DeploymentPlan
import NixSecrets.HostKeys
import NixSecrets.StoreDocument

namespace NixSecrets.Manager

open Inventory

/-- One change of the store that a host provides, with what it was staged over. -/
inductive HostMutation
  | generated (path : SecretPath) (previous : Option GeneratedPublicKey) (proposed : GeneratedPublicKey)
  | attached (path : SecretPath) (version : List UInt8) (previous : Option String) (proposed : String)
  | inventory (path : SecretPath) (previousVersion : Option (List UInt8)) (previousKeys : List String)
      (proposed : EncryptedSecret) (proposedKeys : List String)
  | identity (path : SecretPath) (sharedId : String) (previous : Option PublicInfoRecord)
      (previousProblem : Option String) (proposed : PublicInfoRecord) (consumers : BTreeSet String)

abbrev Followups := BTreeMap String (BTreeSet String)

structure HostMutationBatch where
  mutations : List HostMutation := []
  followups : Followups := ∅
  /-- Trust that the deployment already installed. -/
  committedFollowups : Followups := ∅

structure IdentityPublication where
  path : SecretPath
  sharedId : String
  record : PublicInfoRecord
  requestId : String
  leaseId : Nat
  followups : Followups

def IdentityPublication.wasSent (publication : IdentityPublication) (selected : List String)
    (notDeployed : BTreeMap String String) : Bool :=
  selected.contains publication.path.display && !notDeployed.contains publication.path.display

structure PendingHostMutations where
  beforeDeploy : Bool
  publication : Option IdentityPublication
  batch : HostMutationBatch
  token : String
  requestId : String
  leaseId : Nat
  generated : List String
  skipped : List String

def addFollowup (followups : Followups) (target identifier : String) : Followups :=
  followups.insert target (((followups[target]?).getD ∅).insert identifier)

/-- Adds the follow-up of a path to the host it belongs to. -/
def HostMutationBatch.followup (batch : HostMutationBatch) (path : SecretPath) :
    Checked String HostMutationBatch := do
  let target ← Checked.orRefuse "host mutation has no target" path.parts.head?
  return { batch with followups := addFollowup batch.followups target path.display }

section

variable (libs : Libraries)

def fingerprints (value : String) : List String :=
  match libs.sshKey value with
  | some key => [key.algorithm ++ " " ++ key.fingerprint]
  | none => ["invalid existing public key"]

def knownHostFingerprint (line : List Char) : String :=
  match fields line with
  | [name, algorithm, encoded] => String.ofList name ++ " " ++
      ", ".intercalate (fingerprints libs (String.ofList (algorithm ++ ' ' :: encoded)))
  | _ => "invalid existing host identity"

def knownHostFingerprints (value : String) : List String :=
  (HostKey.lines value.toList).map (knownHostFingerprint libs)

def namedKeyFingerprint (line : List Char) : String :=
  let parts := (splitOnceText [' '] line).getD ("invalid".toList, [])
  String.ofList parts.1 ++ " " ++ ", ".intercalate (fingerprints libs (String.ofList parts.2))

def namedKeyFingerprints (value : String) : List String :=
  (HostKey.lines value.toList).map (namedKeyFingerprint libs)

/-- What the operator is shown of a replacement; a value that was unset is not shown. -/
def HostMutation.review : HostMutation → Option Tui.HostMutationReview
  | .generated path (some previous) proposed => some ⟨path.display, "generated public key",
      fingerprints libs previous.publicKey, fingerprints libs proposed.publicKey⟩
  | .attached path _ (some previous) proposed => some ⟨path.display, "Storage Box public-key metadata",
      fingerprints libs previous, fingerprints libs proposed⟩
  | .inventory path (some _) previousKeys _ proposedKeys =>
    some ⟨path.display, "authorized reporter keys", previousKeys, proposedKeys⟩
  | .identity path _ (some previous) (some problem) proposed _ => some ⟨path.display,
      "report receiver SSH host identity; the stored value is invalid under the current schema (" ++ problem ++
        ") and is replaced",
      knownHostFingerprints libs previous.value, knownHostFingerprints libs proposed.value⟩
  | .identity path _ (some previous) none proposed _ => some ⟨path.display,
      "report receiver SSH host identity", knownHostFingerprints libs previous.value,
      knownHostFingerprints libs proposed.value⟩
  | _ => none

def HostMutationBatch.reviews (batch : HostMutationBatch) : List Tui.HostMutationReview :=
  batch.mutations.filterMap (HostMutation.review libs)

/-- The version of a public value is the digest of its text. -/
def contentVersion (value : String) : String := String.join ((libs.sha256 (utf8Bytes value.toList)).map hexByte)

def sharedName (leaf : Inventory.SecretLeaf) : String := leaf.sharedPublicId.getD "public information"

def identityLines (leaf : Inventory.SecretLeaf) (port : UInt16) (identity : HostKey.HostIdentity) :
    List String → BTreeSet String → Checked String (BTreeSet String)
  | [], lines => .ok lines
  | host :: rest, lines => do
    if let some kind ← localOnlySshHost libs.toLibraries host.toList then
      Checked.refuse ("refusing to publish the host identity for " ++ sharedName leaf ++ " under " ++ host ++
        ": it is " ++ kind)
    let name := if port = 22 then host else String.ofList (sshName host.toList port)
    identityLines leaf port identity rest (identity.keys.foldl (fun lines key =>
      lines.insert (name ++ " " ++ key.algorithm ++ " " ++ key.encoded)) lines)

def renderIdentity (identity : HostKey.HostIdentity) (leaf : Inventory.SecretLeaf) : Checked String String := do
  let port ← Checked.orRefuse "host identity destination has no SSH port" leaf.expectedSshPort
  let lines ← identityLines libs leaf port identity leaf.sshHosts ∅
  let value := String.join (lines.toList.map (· ++ "\n"))
  (validateSshKnownHosts libs.toLibraries leaf.sshHosts port value).mapRefusal fun error =>
    "the host identity rendered for " ++ sharedName leaf ++ ": " ++ error
  return value

def identityKeysOf (value : String) (leaf : Inventory.SecretLeaf) (port : UInt16) :
    List String → Checked String (List (String × String))
  | [] => .ok []
  | host :: rest => do
    let keys ← (Preflight.knownHostsKeys libs value leaf.sshHosts port host).mapRefusal fun error =>
      sharedName leaf ++ ": " ++ error
    let others ← identityKeysOf value leaf port rest
    return keys.map (host, ·) ++ others

def identityKeys (value : String) (leaf : Inventory.SecretLeaf) (port : UInt16) :
    Checked String (List (String × String)) :=
  identityKeysOf libs value leaf port leaf.sshHosts

end

def validStamp (stamp : List Char) : Bool :=
  stamp.length = 19 && stamp.zipIdx.all fun item =>
    if item.2 = 8 then item.1 = 'T' else if item.2 = 18 then item.1 = 'Z' else item.1.isDigit

def ed25519Blob (blob : List UInt8) : Bool :=
  blob.length = 51 && blob.take 15 = [0, 0, 0, 11] ++ utf8Bytes "ssh-ed25519".toList &&
    (blob.drop 15).take 4 = [0, 0, 0, 32]

/-- Removes the pattern from the front as often as it stands there. -/
def trimStartMatches (pattern : List Char) : Nat → List Char → List Char
  | 0, text => text
  | fuel + 1, text =>
    match strip pattern text with
    | some rest => trimStartMatches pattern fuel rest
    | none => text

/-- The time stamp and the key that a target returns for a local key. -/
def parseDatedKey (libs : Libraries) (value : String) : Checked String (String × String) := do
  let parts := fields value.toList
  let stamp ← Checked.orRefuse "missing target key timestamp" parts[0]?
  let algorithm ← Checked.orRefuse "missing public key algorithm" parts[1]?
  let material ← Checked.orRefuse "missing public key material" parts[2]?
  Checked.refuseIf (parts[3]? ≠ none ∨ ¬ validStamp stamp ∨ algorithm ≠ "ssh-ed25519".toList ∨
      utf8Length material ≠ 68 ∨ ¬ (libs.decodeBase64 material).any ed25519Blob)
    "invalid target generated public key"
  return (String.ofList stamp,
    String.ofList (trim (trimStartMatches stamp value.toList.length value.toList)))

def ownsNamedLine (line host : List Char) : Bool :=
  ((fields line).head?.bind (HostKey.rsplitOnce ['-'])).any (·.1 = host)

/-- The key of a named line, after the first space. -/
def namedLineKey (line : List Char) : Option (List Char) :=
  match line.dropWhile (!isWhitespace ·) with
  | [] => none
  | _ :: key => some (trim key)

/-- Whether both texts are keys, and the same. -/
def sameKeyData (libs : Libraries) (one other : String) : Bool :=
  match libs.sshKey one, libs.sshKey other with
  | some one, some other => one.keyData = other.keyData
  | _, _ => false

/-- Puts the host's key in place of its lines, unless its only line has that key. -/
def mergeNamedKey (libs : Libraries) (text host name publicKey : String) : String :=
  let lines := HostKey.lines text.toList
  let kept := match lines.filter (ownsNamedLine · host.toList) with
    | [existing] => (namedLineKey existing).any fun key => sameKeyData libs (String.ofList key) publicKey
    | _ => false
  if kept then text
  else
    let others := ['\n'].intercalate (lines.filter fun line => !ownsNamedLine line host.toList)
    String.ofList (others ++ (if others = [] then [] else ['\n'])) ++ name ++ " " ++ publicKey ++ "\n"

/-- The key material without its comment. -/
def canonicalKey (openssh : String) : String :=
  " ".intercalate (((fields openssh.toList).take 2).map String.ofList)

end NixSecrets.Manager
