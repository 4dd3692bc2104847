import NixSecrets.KnownHosts
import NixSecrets.LengthPrefixed

namespace NixSecrets.SshAuth

open Inventory

structure SignatureRequest where
  publicKey : String
  destination : String
  message : List UInt8
  deriving DecidableEq, Repr

structure LoginGrantRequest where
  publicKey : String
  destination : String
  deriving DecidableEq, Repr

/-- The longest message an SSH agent takes. -/
def maxMessage : Nat := 256 * 1024

def fromBigEndian (bytes : List UInt8) : Option Nat :=
  if bytes.length = 4 then some (readBigEndian bytes) else none

/-- The string at the start of the input, and the input behind it. -/
def string (input : List UInt8) : Checked String (List UInt8 × List UInt8) := do
  let length ← Checked.orRefuse "truncated SSH string" (byteRange input 0 4)
  let length ← Checked.orPanic (fromBigEndian length)
  let value ← Checked.orRefuse "truncated SSH string" (byteRange input 4 (4 + length))
  let input ← Checked.orPanic (bytesFrom input (4 + length))
  return (value, input)

def bytes (text : String) : List UInt8 := text.toUTF8.data.toList

/-- The rest of a message behind the byte that says what it is. -/
def behind (kind : UInt8) (message : String) (input : List UInt8) : Checked String (List UInt8) := do
  Checked.refuseIf (input.head? ≠ some kind) message
  Checked.orPanic (bytesFrom input 1)

def splitWhitespace (text : String) : List (List Char) :=
  (text.toList.splitOnP isWhitespace).filter (· ≠ [])

def splitAtSign (destination : String) : Option (List Char × List Char) :=
  splitOnceText ['@'] destination.toList

/-- The user of a `user@host` destination. -/
def destinationUser (destination : String) : Checked String (List Char) := do
  let (user, host) ← Checked.orRefuse "destination must be user@host" (splitAtSign destination)
  Checked.refuseIf (user = [] ∨ 64 < utf8Length user ∨ host = [] ∨ 253 < utf8Length host ∨
      ¬ user.all (fun c => c.isAlphanum || ['_', '.', '-'].contains c) ∨
      ¬ host.all (fun c => c.isAlphanum || ['_', '.', ':', '-'].contains c))
    "invalid SSH destination"
  return user

section

variable (libs : Libraries)

def keyBlob (publicKey : String) : Checked String (List UInt8) := do
  let fields := splitWhitespace publicKey
  Checked.refuseIf (fields.head? ≠ some "ssh-ed25519".toList)
    "SSH authentication relay currently requires an Ed25519 key"
  let encoded ← Checked.orRefuse "missing public key" fields[1]?
  let blob ← Checked.orRefuse "invalid public key encoding" (libs.decodeBase64 encoded)
  let (name, input) ← string blob
  Checked.refuseIf (name ≠ bytes "ssh-ed25519") "invalid Ed25519 public key"
  let (key, input) ← string input
  Checked.refuseIf (key.length ≠ 32 ∨ input ≠ []) "invalid Ed25519 public key"
  return blob

def LoginGrantRequest.validate (request : LoginGrantRequest) : Checked String Unit := do
  let _ ← destinationUser request.destination
  let _ ← keyBlob libs request.publicKey
  return ()

/-- What is signed: the session, the user and how it authenticates. -/
def signedMethod (user : List Char) (data : List UInt8) : Checked String (Bool × List UInt8) := do
  let (session, data) ← string data
  Checked.refuseIf (session.length ≠ 32 ∧ session.length ≠ 64) "invalid SSH session identifier"
  let data ← behind 50 "only SSH user authentication may be signed" data
  let (name, data) ← string data
  Checked.refuseIf (name ≠ bytes (String.ofList user))
    "SSH authentication destination or method differs"
  let (service, data) ← string data
  Checked.refuseIf (service ≠ bytes "ssh-connection")
    "SSH authentication destination or method differs"
  let (method, data) ← string data
  Checked.refuseIf (method ≠ bytes "publickey" ∧ method ≠ bytes "publickey-hostbound-v00@openssh.com")
    "only SSH public-key authentication may be signed"
  let data ← behind 1 "SSH authentication must request a signature" data
  return (method ≠ bytes "publickey", data)

/-- `isHostKey` is what the key library accepts as the key of a server. -/
def SignatureRequest.validate (isHostKey : List UInt8 → Bool) (request : SignatureRequest) :
    Checked String Unit := do
  let user ← destinationUser request.destination
  Checked.refuseIf (maxMessage < request.message.length) "SSH agent request is too large"
  let key ← keyBlob libs request.publicKey
  let input ← behind 13 "only an SSH signing request is accepted" request.message
  let (asked, input) ← string input
  Checked.refuseIf (asked ≠ key) "request asks for another SSH key"
  let (data, input) ← string input
  Checked.refuseIf (input ≠ [0, 0, 0, 0]) "unsupported SSH signing flags"
  let (hostBound, data) ← signedMethod user data
  let (algorithm, data) ← string data
  Checked.refuseIf (algorithm ≠ bytes "ssh-ed25519") "SSH authentication key differs"
  let (signer, data) ← string data
  Checked.refuseIf (signer ≠ key) "SSH authentication key differs"
  if hostBound then
    let (server, data) ← string data
    Checked.refuseIf (isHostKey server = false) "malformed SSH server host key"
    Checked.refuseIf (data ≠ []) "SSH authentication key differs or has trailing data"
  else
    Checked.refuseIf (data ≠ []) "SSH authentication key differs or has trailing data"

end

def validateReply (reply : List UInt8) : Checked String Unit := do
  let input ← behind 14 "client SSH agent refused the authentication signature" reply
  let (signature, input) ← string input
  Checked.refuseIf (input ≠ []) "malformed SSH signature reply"
  let (algorithm, signature) ← string signature
  Checked.refuseIf (algorithm ≠ bytes "ssh-ed25519") "malformed SSH signature reply"
  let (value, signature) ← string signature
  Checked.refuseIf (value.length ≠ 64 ∨ signature ≠ []) "malformed SSH signature reply"

/-- The length that was read and the string itself are inside the input. -/
theorem string_answers (input : List UInt8) : (string input).Answers := by
  refine Checked.answers_found fun length hlength => ?_
  have hfour : (fromBigEndian length).isSome := by
    rw [fromBigEndian, if_pos (byteRange_length hlength).1]
    rfl
  refine Checked.answers_seq (Checked.answers_orPanic.mpr hfour) fun size => ?_
  refine Checked.answers_found fun value hvalue => ?_
  have hrest := bytesFrom_isSome (byteRange_length hvalue).2
  exact Checked.answers_seq (Checked.answers_orPanic.mpr hrest) fun _ => Checked.answers_pure _

theorem behind_answers (kind : UInt8) (message : String) (input : List UInt8) :
    (behind kind message input).Answers := by
  refine Checked.answers_check fun hkind => ?_
  have hhead := Classical.not_not.mp hkind
  apply Checked.answers_orPanic.mpr
  cases input with
  | nil => cases hhead
  | cons byte input => exact bytesFrom_isSome (by simp)

theorem destinationUser_answers (destination : String) : (destinationUser destination).Answers :=
  Checked.answers_found fun _ _ => Checked.answers_check fun _ => Checked.answers_pure _

theorem keyBlob_answers (libs : Libraries) (publicKey : String) : (keyBlob libs publicKey).Answers := by
  apply Checked.answers_check
  intro _
  refine Checked.answers_found fun encoded _ => ?_
  refine Checked.answers_found fun blob _ => ?_
  refine Checked.answers_seq (string_answers blob) fun name => Checked.answers_check fun _ => ?_
  refine Checked.answers_seq (string_answers name.2) fun key => Checked.answers_check fun _ => ?_
  exact Checked.answers_pure _

theorem LoginGrantRequest.validate_answers (libs : Libraries) (request : LoginGrantRequest) :
    (request.validate libs).Answers := by
  refine Checked.answers_seq (destinationUser_answers _) fun _ => ?_
  exact Checked.answers_seq (keyBlob_answers libs _) fun _ => Checked.answers_pure _

theorem signedMethod_answers (user : List Char) (data : List UInt8) : (signedMethod user data).Answers := by
  refine Checked.answers_seq (string_answers data) fun session => Checked.answers_check fun _ => ?_
  refine Checked.answers_seq (behind_answers _ _ _) fun data => ?_
  refine Checked.answers_seq (string_answers data) fun name => Checked.answers_check fun _ => ?_
  refine Checked.answers_seq (string_answers name.2) fun service => Checked.answers_check fun _ => ?_
  refine Checked.answers_seq (string_answers service.2) fun method => Checked.answers_check fun _ => ?_
  exact Checked.answers_seq (behind_answers _ _ _) fun _ => Checked.answers_pure _

theorem SignatureRequest.validate_answers (libs : Libraries) (isHostKey : List UInt8 → Bool)
    (request : SignatureRequest) : (request.validate libs isHostKey).Answers := by
  refine Checked.answers_seq (destinationUser_answers _) fun user => Checked.answers_check fun _ => ?_
  refine Checked.answers_seq (keyBlob_answers libs _) fun key => ?_
  refine Checked.answers_seq (behind_answers _ _ _) fun input => ?_
  refine Checked.answers_seq (string_answers input) fun asked => Checked.answers_check fun _ => ?_
  refine Checked.answers_seq (string_answers asked.2) fun data => Checked.answers_check fun _ => ?_
  refine Checked.answers_seq (signedMethod_answers user _) fun method => ?_
  refine Checked.answers_seq (string_answers method.2) fun algorithm => Checked.answers_check fun _ => ?_
  refine Checked.answers_seq (string_answers algorithm.2) fun signer => Checked.answers_check fun _ => ?_
  by_cases hbound : method.1 = true
  · rw [if_pos hbound]
    refine Checked.answers_seq (string_answers signer.2) fun server => Checked.answers_check fun _ => ?_
    exact Checked.answers_refuseIf _
  · rw [if_neg hbound]
    exact Checked.answers_refuseIf _

theorem validateReply_answers (reply : List UInt8) : (validateReply reply).Answers := by
  refine Checked.answers_seq (behind_answers _ _ _) fun input => ?_
  refine Checked.answers_seq (string_answers input) fun signature => Checked.answers_check fun _ => ?_
  refine Checked.answers_seq (string_answers signature.1) fun algorithm => Checked.answers_check fun _ => ?_
  exact Checked.answers_seq (string_answers algorithm.2) fun _ => Checked.answers_refuseIf _

end NixSecrets.SshAuth
