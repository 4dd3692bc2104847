import NixSecrets.Base64
import NixSecrets.SigningScopes

namespace NixSecrets.LoginSigner

open Inventory SshAuth

/-- In milliseconds. -/
def loginGrantWindow : Nat := 30 * 60 * 1000

def loginGrantSignatures : Nat := 256

def failure : List UInt8 := [0, 0, 0, 1, 5]

structure Config where
  login : LoginGrantRequest
  grant : String
  deriving DecidableEq, Repr

/-- What the signer asks the agent to sign. -/
inductive Asked
  | confirmation (message : List UInt8)
  | login (time : Nat) (message : List UInt8)
  deriving DecidableEq, Repr

/-- A message on a connection: when it is answered, what the agent would reply, and whether the answer can
be written. -/
structure Arrived where
  time : Nat
  message : List UInt8
  agent : Except String (List UInt8)
  writable : Bool

structure Connection where
  peerAllowed : Bool
  timeoutSet : Bool
  arrived : List Arrived

inductive Accepted
  | nothing
  | failed
  | connection (connection : Connection)

/-- One turn of the loop: the time and whether the end of stdin is noticed, and what `accept` then returns. -/
structure Turn where
  time : Nat
  stdinClosed : Bool
  accepted : Accepted

section

variable (libs : Libraries) (isHostKey : List UInt8 → Bool) (sha512 : List UInt8 → Digest512)

def identities (publicKey : String) : Checked String (List UInt8) := do
  let key ← keyBlob libs publicKey
  return [12, 0, 0, 0, 1] ++ prefixedAll 4 [key, bytes "nix-secrets approved SSH authentication key"]

/-- The checked reply of the agent. -/
def agentSign (agent : Except String (List UInt8)) : Checked String (List UInt8) := do
  let reply ← Checked.ofExcept agent
  validateReply reply
  return reply

def sign (request : SignatureRequest) (agent : Except String (List UInt8)) : Checked String (List UInt8) := do
  request.validate libs isHostKey
  agentSign agent

def Config.request (config : Config) (message : List UInt8) : SignatureRequest :=
  ⟨config.login.publicKey, config.login.destination, message⟩

def found {α : Type} : Checked String α → Option α
  | .ok a => some a
  | .error _ => none

structure Answered where
  remaining : Nat
  asked : List Asked
  reply : Option (List UInt8)
  deriving DecidableEq, Repr

/-- Lists the one key, or signs one login for the approved user and key. -/
def answer (config : Config) (remaining : Nat) (arrived : Arrived) : Answered :=
  if arrived.message = [11] then ⟨remaining, [], found (identities libs config.login.publicKey)⟩
  else if remaining = 0 then ⟨remaining, [], none⟩
  else if (config.request arrived.message).validate libs isHostKey ≠ .ok () then ⟨remaining, [], none⟩
  else ⟨remaining - 1, [.login arrived.time arrived.message],
    found (sign libs isHostKey (config.request arrived.message) arrived.agent)⟩

def readable (message : List UInt8) : Bool := message ≠ [] ∧ message.length ≤ maxMessage

/-- The messages of a connection, up to one that is not read or whose answer is not written. -/
def serveMessages (config : Config) : Nat → List Arrived → Nat × List Asked
  | remaining, [] => (remaining, [])
  | remaining, arrived :: rest =>
    if readable arrived.message then
      let answered := answer libs isHostKey config remaining arrived
      let reply := answered.reply.getD (failure.drop 4)
      if arrived.writable ∧ reply.length ≤ maxMessage then
        let later := serveMessages config answered.remaining rest
        (later.1, answered.asked ++ later.2)
      else (answered.remaining, answered.asked)
    else (remaining, [])

def serveConnection (config : Config) (remaining : Nat) (connection : Connection) : Nat × List Asked :=
  if ¬ connection.peerAllowed ∨ ¬ connection.timeoutSet then (remaining, [])
  else serveMessages libs isHostKey config remaining connection.arrived

/-- A request that may be signed. -/
def Signable (config : Config) (arrived : Arrived) : Prop :=
  arrived.message ≠ [11] ∧ (config.request arrived.message).validate libs isHostKey = .ok ()

instance (config : Config) (arrived : Arrived) : Decidable (Signable libs isHostKey config arrived) :=
  inferInstanceAs (Decidable (_ ∧ _))

/-- The messages of a connection that are answered, while signatures remain. -/
def heard (config : Config) : List Arrived → List Arrived
  | [] => []
  | arrived :: rest =>
    if readable arrived.message then
      if arrived.writable ∧ ((answer libs isHostKey config 1 arrived).reply.getD (failure.drop 4)).length ≤ maxMessage
      then arrived :: heard config rest
      else [arrived]
    else []

def requests (config : Config) (connection : Connection) : List Arrived :=
  if ¬ connection.peerAllowed ∨ ¬ connection.timeoutSet then []
  else (heard libs isHostKey config connection.arrived).filter (Signable libs isHostKey config ·)

def Turn.requests (config : Config) (turn : Turn) : List Arrived :=
  match turn.accepted with
  | .connection connection => LoginSigner.requests libs isHostKey config connection
  | _ => []

variable {libs isHostKey sha512} {config : Config} {arrived : Arrived} {remaining deadline : Nat}

end

section

variable (libs : Libraries) (isHostKey : List UInt8 → Bool) (sha512 : List UInt8 → Digest512)

variable {libs isHostKey sha512}

end

def keyData : List UInt8 := prefixed 4 (bytes "ssh-ed25519") ++ prefixed 4 (List.replicate 32 0)

def loginConfig : Config :=
  ⟨⟨String.ofList ("ssh-ed25519 ".toList ++ base64Encode keyData), "root@web"⟩, "grant-1"⟩

def signerLibraries : Libraries where
  parseIp _ := none
  decodeBase64 := base64Decode
  opensshKey _ := none
  regexError _ := none

def agentReply : List UInt8 :=
  14 :: prefixed 4 (prefixed 4 (bytes "ssh-ed25519") ++ prefixed 4 (List.replicate 64 0))

def loginMessage : List UInt8 :=
  signingRequest keyData (authenticationData ['r', 'o', 'o', 't'] keyData (List.replicate 32 0) none) [0, 0, 0, 0]

end NixSecrets.LoginSigner
