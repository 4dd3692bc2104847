import NixSecrets.HostKeys
import NixSecrets.InnerFormat
import NixSecrets.Traversal

namespace NixSecrets.Crypto

structure EncryptedSecret where
  formatVersion : Nat
  versionId : List UInt8
  recipientIds : List String
  ageCiphertext : List UInt8
  deriving DecidableEq, Repr

def formatVersion : Nat := 1

/-- Names the operation of a failed run of age. -/
def CryptoError.during (operation : String) : CryptoError → CryptoError
  | .ageFailed failure => .ageFailed { failure with operation := failure.operation.or (some operation) }
  | error => error

def validateRecord (record : EncryptedSecret) : Checked CryptoError Unit :=
  Checked.refuseIf (record.formatVersion ≠ formatVersion ∨ record.versionId.length ≠ versionIdSize ∨
    record.recipientIds = [] ∨ "" ∈ record.recipientIds ∨ record.ageCiphertext = [] ∨
    maxCiphertextSize < record.ageCiphertext.length) .invalidRecord

structure CryptoProvider where
  decrypt : List UInt8 → Checked CryptoError (List UInt8)
  decryptBatch : List (List UInt8) → Checked CryptoError (List (List UInt8))

def decryptSecret (provider : CryptoProvider) (identifier : String) (record : EncryptedSecret) :
    Checked CryptoError (List UInt8) := do
  validateIdentifier identifier
  validateRecord record
  let inner ← Checked.mapRefusal (CryptoError.during ("decrypting " ++ identifier))
    (provider.decrypt record.ageCiphertext)
  decodeInner identifier record.versionId inner

def decryptSecrets (provider : CryptoProvider) (records : List (String × EncryptedSecret)) :
    Checked CryptoError (List (List UInt8)) := do
  Checked.each (fun entry => do validateIdentifier entry.1; validateRecord entry.2) records
  let inner ← Checked.mapRefusal (CryptoError.during ("decrypting " ++ ", ".intercalate (records.map (·.1))))
    (provider.decryptBatch (records.map (·.2.ageCiphertext)))
  (records.zip inner).mapM fun entry => decodeInner entry.1.1 entry.1.2.versionId entry.2

/-- The status of a program that exited, or that a signal ended. -/
inductive ExitStatus
  | exited (code : UInt8)
  | signaled (signal : Fin 128)
  deriving DecidableEq, Repr

def describeStatus : ExitStatus → String
  | .exited code => "exit code " ++ toString code.toNat
  | .signaled signal => "signal " ++ toString signal.val

/-- The code with which the launcher hands a status on. -/
def exitCode : ExitStatus → UInt8
  | .exited code => code
  | .signaled signal => UInt8.ofNat (128 + signal.val)

def shownCharacters : Nat := 600

def mentions (text : List Char) (pattern : String) : Bool := (splitOnceText pattern.toList text).isSome

def redactWord (word : List Char) : List Char :=
  if "AGE-SECRET-KEY-".toList.isPrefixOf word ∨ "AGE-PLUGIN-".toList.isPrefixOf word then "[redacted]".toList
  else word

def redactLine (line : List Char) : List Char :=
  if mentions line "PRIVATE KEY" then "[redacted key material]".toList
  else [' '].intercalate ((line.splitOn ' ').map redactWord)

/-- Bounds, flattens, and redacts what a program wrote, for display. -/
def clean (text : List Char) : String :=
  let lines := ((HostKey.lines text).map trim).filter fun line =>
    line ≠ [] ∧ ¬ mentions line "report unexpected or unhelpful errors"
  let flat := (" | ".toList.intercalate (lines.map redactLine)).map fun c => if isControl c then ' ' else c
  String.ofList (if shownCharacters < flat.length then flat.take shownCharacters ++ ['…'] else flat)

def AgeFailure.new (status : ExitStatus) (stderr : List Char) : AgeFailure :=
  ⟨none, describeStatus status, clean stderr⟩

/-- How a program ended, with what it wrote; of its messages, as much as is kept. -/
structure Exit where
  stdout : List UInt8
  stderr : List Char
  status : ExitStatus
  deriving DecidableEq, Repr

def Exit.success (exit : Exit) : Prop := exit.status = .exited 0

instance (exit : Exit) : Decidable exit.success := inferInstanceAs (Decidable (exit.status = .exited 0))

def Exit.failed (code : UInt8) (message : String) : Exit :=
  ⟨[], ("nix-secrets-1password: " ++ message ++ "\n").toList, .exited code⟩

def Exit.after (exit : Exit) (log : List Char) : Exit := { exit with stderr := log ++ exit.stderr }

/-- Where age takes the private key from. -/
inductive Identity
  | onePassword
  | file (path : String)
  | key (bytes : List UInt8)
  deriving DecidableEq, Repr

/-- A key of the 1Password account. -/
structure Item where
  vault : String
  id : String
  title : String
  fingerprint : String
  deriving DecidableEq, Repr

/-- The programs that decryption starts, and what is read off an age header. -/
structure Programs where
  age : Identity → List UInt8 → Exit
  authorize : Except String Unit
  list : Except String (List Item)
  read : Item → Except String (List UInt8)
  stanzaTags : List UInt8 → Option (List (List UInt8))
  fingerprintTag : String → Option (List UInt8)
  /-- What the launcher and the runs of a batch write to standard error. -/
  batchLog : Identity → List (List UInt8) → List Char
  workers : Nat

inductive DecryptionMode
  | onePassword
  | identityFile (path : String)
  deriving DecidableEq, Repr

structure AgeCommandProvider where
  launcher : Bool
  decryption : DecryptionMode
  deriving DecidableEq, Repr

namespace Launcher

/-- Most inputs one batch may carry. -/
def maxBatch : Nat := 256

def maxInput : Nat := 64 * 1024 * 1024

def maxBatchBytes : Nat := 256 * 1024 * 1024

/-- Reads inputs behind their lengths until the end of the bytes. -/
def readFrames : Nat → List (List UInt8) → Nat → List UInt8 → Except String (List (List UInt8))
  | 0, inputs, _, _ => .ok inputs
  | fuel + 1, inputs, total, rest =>
    match byteRange rest 0 4 with
    | none => .ok inputs
    | some length =>
      let length := readBigEndian length
      let total := total + length
      if maxInput < length ∨ inputs.length = maxBatch ∨ maxBatchBytes < total then
        .error "the batch is too large"
      else
        match byteRange rest 4 (4 + length) with
        | none => .error "cannot read the batch: failed to fill whole buffer"
        | some body => readFrames fuel (inputs ++ [body]) total (rest.drop (4 + length))

def readBatch (input : List UInt8) : Except String (List (List UInt8)) := do
  let inputs ← readFrames input.length [] 0 input
  if inputs = [] then throw "the batch is empty"
  return inputs

/-- The code of `ExitCode::FAILURE`. -/
def failureCode : UInt8 := 1

/-- The outputs behind their lengths, or the code with which the launcher gives up. -/
def outputsAppend : List UInt8 → List (List UInt8) → Except UInt8 (List UInt8)
  | outputs, [] => .ok outputs
  | outputs, output :: values =>
    if 256 ^ 4 ≤ output.length then .error failureCode
    else if maxBatchBytes < outputs.length + output.length + 4 then .error failureCode
    else outputsAppend (outputs ++ prefixed 4 output) values

section

variable (programs : Programs)

def runInput (identity : Identity) (input : List UInt8) : Except UInt8 (List UInt8) :=
  let exit := programs.age identity input
  if ¬ exit.success then .error (exitCode exit.status)
  else if maxCiphertextSize < exit.stdout.length then .error failureCode
  else .ok exit.stdout

def runWaves (identity : Identity) : List UInt8 → List (List (List UInt8)) → Except UInt8 (List UInt8)
  | outputs, [] => .ok outputs
  | outputs, wave :: waves => do
    let values ← orderedParallel programs.workers (runInput programs identity) wave
    let outputs ← outputsAppend outputs values
    runWaves identity outputs waves

def runBatch (identity : Identity) (inputs : List (List UInt8)) : Exit :=
  match runWaves programs identity [] (chunks programs.workers inputs) with
  | .error code => ⟨[], programs.batchLog identity inputs, .exited code⟩
  | .ok outputs => ⟨outputs, programs.batchLog identity inputs, .exited 0⟩

def lists (item : Item) (tags : List (List UInt8)) : Bool :=
  match programs.fingerprintTag item.fingerprint with
  | none => false
  | some tag => tags.contains tag

def sshStanzaTags (input : List UInt8) : Except String (List (List UInt8)) :=
  match programs.stanzaTags input with
  | none => .error "an input is not an age file"
  | some tags => .ok tags

/-- The one key every input can be decrypted with. -/
def choose (items : List Item) (inputs : List (List UInt8)) : Except String Item := do
  let stanzas ← inputs.mapM (sshStanzaTags programs)
  match items.find? fun item => stanzas.all (lists programs item) with
  | none => .error ("no SSH key in your 1Password account can decrypt every requested value; " ++
      "add the recipient key to 1Password")
  | some item => .ok item

def oneKey (inputs : List (List UInt8)) : Except String Identity := do
  let items ← programs.list
  let item ← choose programs items inputs
  let key ← programs.read item
  return .key key

def authorized (path : String) : Except String Identity := do
  programs.authorize
  return .file path

/-- Where the keys of a batch come from: the one key of all of it, or the file after one prompt. -/
def identityOf (mode : DecryptionMode) (inputs : List (List UInt8)) : Except String Identity :=
  match mode with
  | .onePassword => oneKey programs inputs
  | .identityFile path => authorized programs path

def notAuthorized (message : String) : Exit := Exit.failed 77 message

/-- The line on standard error before 1Password is asked for the one key. -/
def oneKeyProgress (mode : DecryptionMode) (inputs : List (List UInt8)) : List Char :=
  match mode with
  | .onePassword => ("NIX_SECRETS_PROGRESS 0 " ++ toString inputs.length ++ " one-password\n").toList
  | .identityFile _ => []

def batch (mode : DecryptionMode) (input : List UInt8) : Exit :=
  match readBatch input with
  | .error message => Exit.failed 2 message
  | .ok inputs =>
    match identityOf programs mode inputs with
    | .error message => (notAuthorized message).after (oneKeyProgress mode inputs)
    | .ok identity => runBatch programs identity inputs

def single (identity : Identity) (input : List UInt8) : Exit :=
  match programs.authorize with
  | .error message => notAuthorized message
  | .ok () =>
    let exit := programs.age identity input
    { exit with status := .exited (exitCode exit.status) }

end

end Launcher

namespace AgeCommandProvider

def runWith (exit : Exit) (outputLimit : Nat) : Checked CryptoError (List UInt8) := do
  Checked.refuseIf (outputLimit < exit.stdout.length) .ageOutputTooLarge
  Checked.refuseIf (¬ exit.success) (.ageFailed (.new exit.status exit.stderr))
  return exit.stdout

/-- Takes apart what the launcher wrote. -/
def readOutputs : Nat → List UInt8 → Checked CryptoError (List (List UInt8))
  | 0, _ => .ok []
  | fuel + 1, rest =>
    if rest = [] then .ok []
    else do
      let length ← Checked.orRefuse (.ageIo "malformed batch output") (byteRange rest 0 4)
      let length := readBigEndian length
      let value ← Checked.orRefuse (.ageIo "malformed batch output") (byteRange rest 4 (4 + length))
      let rest ← Checked.orPanic (bytesFrom rest (4 + length))
      let values ← readOutputs fuel rest
      return value :: values

variable (programs : Programs) (provider : AgeCommandProvider)

def identity : Identity :=
  match provider.decryption with
  | .onePassword => .onePassword
  | .identityFile path => .file path

def launcherBatch (ciphertexts : List (List UInt8)) : Checked CryptoError (List (List UInt8)) := do
  let exit := Launcher.batch programs provider.decryption (prefixedAll 4 ciphertexts)
  let output ← runWith exit (ciphertexts.length * (maxPlaintextSize + 4))
  let plaintexts ← readOutputs output.length output
  Checked.refuseIf (plaintexts.length ≠ ciphertexts.length)
    (.ageIo "the launcher returned a different number of values")
  return plaintexts

def decrypt (ciphertext : List UInt8) : Checked CryptoError (List UInt8) := do
  Checked.refuseIf (maxCiphertextSize < ciphertext.length) .secretTooLarge
  if provider.launcher = true ∧ provider.decryption = .onePassword then
    let plaintexts ← launcherBatch programs provider [ciphertext]
    Checked.orRefuse (.ageIo "no output") plaintexts.getLast?
  else
    let exit := if provider.launcher then Launcher.single programs provider.identity ciphertext
      else programs.age provider.identity ciphertext
    runWith exit maxPlaintextSize

def decryptBatch (ciphertexts : List (List UInt8)) : Checked CryptoError (List (List UInt8)) := do
  Checked.refuseIf (∃ ciphertext ∈ ciphertexts, maxCiphertextSize < ciphertext.length) .secretTooLarge
  if ciphertexts = [] then return []
  else if provider.launcher = false then
    if provider.decryption = .onePassword then ciphertexts.mapM (decrypt programs provider)
    else orderedParallel programs.workers (decrypt programs provider) ciphertexts
  else launcherBatch programs provider ciphertexts

def cryptoProvider : CryptoProvider := ⟨decrypt programs provider, decryptBatch programs provider⟩

end AgeCommandProvider

end NixSecrets.Crypto
