import NixSecrets.HostKeyApproval
import NixSecrets.ManifestSchema

namespace NixSecrets.HostKey

structure Metadata where
  isFile : Bool
  isDir : Bool
  uid : Nat
  nlink : Nat
  mode : Nat
  len : Nat
  inode : Nat × Nat
  deriving DecidableEq, Repr

/-- How a configured file opens when links are not followed. -/
inductive Opened
  | missing
  | link
  | file
  deriving DecidableEq, Repr

/-- How much of an addition reaches the file. -/
inductive Appended
  | all
  | cut (count : Nat) (error : HostKeyError)
  deriving DecidableEq, Repr

/-- What the file system and `ssh-keygen -F` answer while an identity is saved. -/
structure Surroundings where
  uid : Nat
  createDir : Except HostKeyError Bool
  setPermissions : Except HostKeyError Unit
  parent : Except HostKeyError Metadata
  canonicalParent : Except HostKeyError (List String)
  openParent : Except HostKeyError Metadata
  openTarget : Except HostKeyError Unit
  lock : Except String Unit
  target : Except HostKeyError Metadata
  openOther : String → Except HostKeyError Opened
  openManaged : String → Except HostKeyError Unit
  metadata : String → Except HostKeyError Metadata
  text : String → List Char
  keygen : String → List Char → Except HostKeyError Output
  validUtf8 : List Char → Bool
  readable : Bool
  parentNow : Except HostKeyError Metadata
  pathNow : Except HostKeyError Metadata
  pinned : Except HostKeyError Metadata
  append : Appended
  sync : Except HostKeyError Unit

def fileLimit : Nat := 4 * 1024 * 1024

def refusal (message : String) : HostKeyError := .tool ("cannot save accepted SSH host key: " ++ message)

def refuseWhen (c : Prop) [Decidable c] (message : String) : Except HostKeyError Unit :=
  if c then .error (refusal message) else .ok ()

/-- Whether the group or others may write. -/
def writableByOthers (mode : Nat) : Bool := mode &&& 0o022 != 0

def safeFile (metadata : Metadata) (owner : Nat) : Except HostKeyError Unit :=
  refuseWhen (¬ metadata.isFile ∨ metadata.uid ≠ owner ∨ metadata.nlink ≠ 1 ∨
      writableByOthers metadata.mode ∨ fileLimit < metadata.len)
    ("known_hosts must be a bounded, owned regular file without writable group or other access")

section

variable (w : Surroundings)

/-- Opens and locks the first known_hosts file. -/
def lockTarget (path : String) : Except HostKeyError Unit := do
  let parsed := PathText.parse path
  refuseWhen (path = "" ∨ parsed.absolute ∧ parsed.parent = none) "known_hosts has no parent"
  refuseWhen (¬ parsed.absolute ∨ ".." ∈ parsed.names.dropLast)
    "known_hosts path must be absolute without traversal"
  if ← w.createDir then w.setPermissions
  let metadata ← w.parent
  let canonical ← w.canonicalParent
  refuseWhen (¬ metadata.isDir ∨ metadata.uid ≠ w.uid ∨ writableByOthers metadata.mode ∨
      canonical ≠ parsed.names.dropLast)
    "known_hosts parent must be an owned directory without symlinks or untrusted writes"
  let opened ← w.openParent
  refuseWhen (opened.inode ≠ metadata.inode) "known_hosts parent changed"
  refuseWhen (parsed.fileName = none) "known_hosts filename absent"
  w.openTarget
  match w.lock with
  | .error message => .error (refusal message)
  | .ok () =>
    let target ← w.target
    safeFile target w.uid

def hostChar (c : Char) : Bool := !(isAsciiWhitespace c || c.toNat == 0 || ",*?!|".toList.contains c)

def savedAlgorithms : List String :=
  ["ssh-ed25519", "ssh-rsa", "ecdsa-sha2-nistp256", "ecdsa-sha2-nistp384", "ecdsa-sha2-nistp521",
    "sk-ssh-ed25519@openssh.com", "sk-ecdsa-sha2-nistp256@openssh.com", "ssh-mldsa-44"]

def encodedChar (c : Char) : Bool := c.isAlphanum || "+/=".toList.contains c

def PresentedKey.savable (key : PresentedKey) : Bool :=
  savedAlgorithms.contains key.algorithm && key.encoded != "" && key.encoded.toList.all encodedChar

def checkIdentity (identity : HostIdentity) : Except HostKeyError Unit := do
  refuseWhen (identity.keys = [] ∨ identity.host = "" ∨ ¬ identity.host.toList.all hostChar)
    "invalid approved host identity"
  refuseWhen (¬ identity.keys.all PresentedKey.savable) "invalid approved public key"

/-- The text of a configured file, if there is such a file. -/
def openConfigured (path : String) (text : List Char) (configured : String) :
    Except HostKeyError (Option (List Char)) := do
  let contents ← if configured = path then pure (some text) else do
    match ← w.openOther configured with
    | .missing => pure none
    | .link => do
      w.openManaged configured
      pure (some (w.text configured))
    | .file => pure (some (w.text configured))
  match contents with
  | none => pure none
  | some contents => do
    let metadata ← w.metadata configured
    refuseWhen (¬ metadata.isFile ∨ fileLimit < metadata.len ∨ writableByOthers metadata.mode ∨
        metadata.uid ∉ [0, w.uid])
      "unsafe configured known_hosts file"
    return some contents

/-- The keys that are found for the host; they must be among those that were accepted. -/
def inspectFound (identity : HostIdentity) (output : Output) : Except HostKeyError (List PresentedKey) :=
  if output.success then do
    refuseWhen (¬ w.validUtf8 output.stdout) "known_hosts output is not UTF-8"
    refuseWhen ((lines output.stdout).any fun line => line.head? == some '@')
      "host has a revoked or certificate-authority entry; refusing to alter trust"
    let found := parseKeyLines output.stdout
    refuseWhen (found = []) "matching known_hosts entry could not be validated"
    refuseWhen (found.any fun line => !identity.keys.contains line.presented)
      "a different host key is already recorded; refusing to replace it"
    return found.map (·.presented)
  else do
    refuseWhen (output.diagnostic ≠ "exit status: 1") "cannot inspect existing host trust"
    return []

def recordedFor (lookup path : String) (text : List Char) (identity : HostIdentity) :
    List String → Except HostKeyError (List PresentedKey)
  | [] => pure []
  | configured :: rest => do
    match ← openConfigured w path text configured with
    | none => recordedFor lookup path text identity rest
    | some contents => do
      let output ← w.keygen lookup contents
      let here ← inspectFound w identity output
      let later ← recordedFor lookup path text identity rest
      return here ++ later

def keyLine (lookup : String) (key : PresentedKey) : List Char :=
  (lookup ++ " " ++ key.algorithm ++ " " ++ key.encoded).toList ++ ['\n']

/-- The lines that are missing from the file, on lines of their own. -/
def addition (lookup : String) (text : List Char) (missing : List PresentedKey) : List Char :=
  let added := missing.flatMap (keyLine lookup)
  if added ≠ [] ∧ text ≠ [] ∧ text.getLast? ≠ some '\n' then '\n' :: added else added

/-- Checks the identity and the files, and says what is to be added. -/
def prepareAddition (verifier : HostKeyVerifier) (identity : HostIdentity) (text : List Char) :
    Except HostKeyError (List Char) := do
  match verifier.knownHosts.head? with
  | none => .error (refusal "no client known_hosts file is configured")
  | some path => do
    lockTarget w path
    checkIdentity identity
    let lookup := lookupName identity.host identity.port
    let recorded ← recordedFor w lookup path text identity verifier.knownHosts
    refuseWhen (¬ w.readable) "known_hosts is not bounded UTF-8"
    refuseWhen (fileLimit < utf8Length text) "known_hosts exceeds size limit"
    let added := addition lookup text (identity.keys.filter (· ∉ recorded))
    if added = [] then return []
    else do
      refuseWhen (fileLimit < utf8Length text + utf8Length added) "known_hosts exceeds size limit"
      let opened ← w.openParent
      let parentNow ← w.parentNow
      refuseWhen (parentNow.inode ≠ opened.inode) "known_hosts parent changed while saving trust"
      let now ← w.pathNow
      let pinned ← w.pinned
      refuseWhen (now.inode ≠ pinned.inode) "known_hosts changed while saving trust"
      return added

/-- Saves an accepted identity; the second part is the file afterwards. -/
def persistAccepted (verifier : HostKeyVerifier) (identity : HostIdentity) (text : List Char) :
    Except HostKeyError Unit × List Char :=
  match prepareAddition w verifier identity text with
  | .error error => (.error error, text)
  | .ok added =>
    if added = [] then (.ok (), text)
    else
      match w.append with
      | .cut count error => (.error error, text ++ added.take count)
      | .all => (w.sync, text ++ added)

end

end NixSecrets.HostKey
