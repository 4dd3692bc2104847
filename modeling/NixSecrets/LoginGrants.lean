import Mathlib.Logic.Function.Basic
import NixSecrets.LoginSigner
import NixSecrets.OperatorChannel

namespace NixSecrets.LoginGrants

open Inventory SshAuth LoginSigner

/-- Why a check refuses, if it does. -/
def refusal {α : Type} : Checked String α → Option String
  | .ok _ => none
  | .error (.refused reason) => some reason
  | .error .panicked => some ""

/-- What a requester's call asks the operator, by the login approval it names. -/
inductive Ask
  | login (request : LoginGrantRequest)
  | signature (request : SignatureRequest) (grant : Option Nat)
  deriving DecidableEq, Repr

/-- A request with the connection that made it; its number is its id, and that of the grant it gets. -/
structure Call where
  connection : Nat
  asked : Ask
  deriving DecidableEq, Repr

/-- Where the wait for the operator stands. -/
inductive CallPhase
  | waiting
  | answered (answer : SecretAnswer)
  | finished
  deriving DecidableEq, Repr

/-- A requester connection: the call it waits for, and the login approvals given on it. -/
structure Connection where
  call : Option Nat := none
  grants : List Nat := []
  ended : Bool := false
  deriving DecidableEq, Repr

/-- What the thread that serves the TUI finds in its inbox. -/
inductive Message
  | job (id : Nat)
  | withdraw (id : Nat)
  | grantEnded (grant : Nat)
  | answer (id : Nat) (answer : SecretAnswer)
  deriving DecidableEq, Repr

/-- What that thread writes to the TUI. -/
inductive Frame
  | secretRequested (id : Nat)
  | secretRequestWithdrawn (id : Nat)
  | sshLoginGrantEnded (grant : Nat)
  deriving DecidableEq, Repr

/-- Where the TUI's thread for a request stands. -/
inductive Handler
  | prompting
  | spawning
  | admitting
  | signing
  deriving DecidableEq, Repr

/-- A login approval with its signer. -/
structure Grant where
  login : LoginGrantRequest
  expires : Nat
  remaining : Nat
  deriving DecidableEq, Repr

/-- A signature that was taken to the signer of a grant. -/
structure Signed where
  grant : Nat
  request : Nat
  signature : SignatureRequest
  time : Nat
  deriving DecidableEq, Repr

/-- Backend and TUI with what is under way between them. The last two fields are no part of the program:
the grants as they were made, and the signatures taken to their signers. -/
structure World where
  now : Nat := 0
  nextRequest : Nat := 0
  calls : Nat → Option Call := fun _ => none
  phases : Nat → CallPhase := fun _ => .finished
  connections : Nat → Connection := fun _ => {}
  inbox : List Message := []
  waiting : List Nat := []
  frames : List Frame := []
  answers : List (Nat × SecretAnswer) := []
  handlers : Nat → Option Handler := fun _ => none
  grants : Nat → Option Grant := fun _ => none
  made : Nat → Option Grant := fun _ => none
  log : List Signed := []

inductive Act
  | ask (connection : Nat) (asked : Ask)
  | handle
  | deliver
  | hear
  | decide (id : Nat) (approved : Bool)
  | refuse (id : Nat) (reason : String)
  | spawned (id : Nat) (signer : Except String Unit)
  | charge (id : Nat)
  | reply (id : Nat) (reply : Except String (List UInt8))
  | receive (id : Nat)
  | abandon (id : Nat)
  | close (connection : Nat)
  | tick (duration : Nat)

/-- How much less than the window a grant lasts: the signer started its own clock a little earlier. -/
def clockSkew : Nat := 5 * 1000

def grantAnswer : SecretAnswer := .loginGranted ((loginGrantWindow - clockSkew) / 1000) loginGrantSignatures

section

variable (libs : Libraries) (isHostKey : List UInt8 → Bool)

def covers (login : LoginGrantRequest) (signature : SignatureRequest) : Bool :=
  signature.destination = login.destination ∧
    LoginSigner.found (keyBlob libs signature.publicKey) = LoginSigner.found (keyBlob libs login.publicKey)

/-- The checks before the operator is asked. -/
def Ask.valid (connection : Connection) : Ask → Bool
  | .login request => refusal (request.validate libs) = none
  | .signature request grant =>
    refusal (request.validate libs isHostKey) = none ∧ ∀ g ∈ grant, g ∈ connection.grants

end

namespace World

def setPhase (w : World) (id : Nat) (phase : CallPhase) : World :=
  { w with phases := Function.update w.phases id phase }

def setConnection (w : World) (c : Nat) (connection : Connection) : World :=
  { w with connections := Function.update w.connections c connection }

def setHandler (w : World) (id : Nat) (handler : Option Handler) : World :=
  { w with handlers := Function.update w.handlers id handler }

def setGrant (w : World) (id : Nat) (grant : Option Grant) : World :=
  { w with grants := Function.update w.grants id grant }

/-- The handler answers its request and ends. -/
def finish (w : World) (id : Nat) (answer : SecretAnswer) : World :=
  { w.setHandler id none with answers := w.answers ++ [(id, answer)] }

/-- One round of the loop that serves the TUI. -/
def take (w : World) : Message → World
  | .job id => { w with frames := w.frames ++ [.secretRequested id], waiting := w.waiting ++ [id] }
  | .withdraw id =>
    if id ∈ w.waiting then
      { w with waiting := w.waiting.erase id, frames := w.frames ++ [.secretRequestWithdrawn id] }
    else w
  | .grantEnded grant => { w with frames := w.frames ++ [.sshLoginGrantEnded grant] }
  | .answer id answer =>
    if id ∈ w.waiting then
      let w := { w with waiting := w.waiting.erase id }
      if w.phases id = .waiting then w.setPhase id (.answered answer) else w
    else w

/-- One round of the dispatcher of the TUI. -/
def dispatch (w : World) : Frame → World
  | .secretRequested id =>
    match w.calls id with
    | some ⟨_, .login _⟩ => w.setHandler id (some .prompting)
    | some ⟨_, .signature _ _⟩ => w.setHandler id (some .admitting)
    | none => w
  | .secretRequestWithdrawn id =>
    if w.handlers id = some .prompting then
      w.finish id (.denied "the SSH logins was withdrawn by the backend")
    else w
  | .sshLoginGrantEnded grant => w.setGrant grant none

def madeGrant (w : World) (login : LoginGrantRequest) : Grant :=
  ⟨login, w.now + (loginGrantWindow - clockSkew), loginGrantSignatures⟩

/-- The signer has asked the agent; the grant counts from now. -/
def grant (w : World) (id : Nat) (login : LoginGrantRequest) : World :=
  { w.setGrant id (some (w.madeGrant login)) with
    made := Function.update w.made id (some (w.madeGrant login)) }.finish id grantAnswer

section

variable (libs : Libraries) (isHostKey : List UInt8 → Bool)

def ask (w : World) (c : Nat) (asked : Ask) : Option World :=
  let connection := w.connections c
  if connection.ended = true ∨ connection.call ≠ none then none
  else if asked.valid libs isHostKey connection = false then some w
  else
    some { (w.setPhase w.nextRequest .waiting).setConnection c { connection with call := some w.nextRequest } with
      nextRequest := w.nextRequest + 1
      calls := Function.update w.calls w.nextRequest (some ⟨c, asked⟩)
      inbox := w.inbox ++ [.job w.nextRequest] }

/-- Checks the grant a signature names and takes one signature off it. -/
def charge (w : World) (id : Nat) (signature : SignatureRequest) (named : Option Nat) : World :=
  match refusal (signature.validate libs isHostKey) with
  | some reason => w.finish id (.denied reason)
  | none =>
    match named with
    | none => w.finish id (.denied ("SSH logins need an approval before the requester connects; " ++
        "this requester did not ask for one"))
    | some grant =>
      match w.grants grant with
      | none => w.finish id (.denied "the SSH login approval ended; ask for a new one before connecting")
      | some live =>
        if live.expires ≤ w.now ∨ live.remaining = 0 then
          (w.setGrant grant none).finish id
            (.denied "the SSH login approval ran out; ask for a new one before connecting")
        else if covers libs live.login signature = false then
          w.finish id (.denied "the SSH login approval covers another key or destination")
        else
          { (w.setGrant grant (some { live with remaining := live.remaining - 1 })).setHandler id (some .signing) with
            log := w.log ++ [⟨grant, id, signature, w.now⟩] }

end

/-- The requester's thread takes the answer; a login approval is remembered for the connection. -/
def receive (w : World) (id : Nat) (call : Call) (answer : SecretAnswer) : World :=
  let connection := { w.connections call.connection with call := none }
  let connection := match call.asked, answer with
    | .login _, .loginGranted _ _ => { connection with grants := connection.grants ++ [id] }
    | _, _ => connection
  (w.setPhase id .finished).setConnection call.connection connection

/-- The requester left or its time is up: the TUI is told, and whatever answer comes is not read. -/
def abandon (w : World) (id : Nat) (call : Call) : World :=
  { (w.setPhase id .finished).setConnection call.connection
      { w.connections call.connection with call := none } with
    inbox := w.inbox ++ [.withdraw id] }

/-- The connection is over, and so are its login approvals. -/
def close (w : World) (c : Nat) : World :=
  { w.setConnection c { w.connections c with ended := true } with
    inbox := w.inbox ++ (w.connections c).grants.map .grantEnded }

variable (libs : Libraries) (isHostKey : List UInt8 → Bool)

def step (w : World) : Act → Option World
  | .ask c asked => w.ask libs isHostKey c asked
  | .handle =>
    match w.inbox with
    | message :: rest => some ({ w with inbox := rest }.take message)
    | [] => none
  | .deliver =>
    match w.frames with
    | frame :: rest => some ({ w with frames := rest }.dispatch frame)
    | [] => none
  | .hear =>
    match w.answers with
    | (id, answer) :: rest => some { w with answers := rest, inbox := w.inbox ++ [.answer id answer] }
    | [] => none
  | .decide id approved =>
    if w.handlers id = some .prompting then
      if approved then some (w.setHandler id (some .spawning))
      else some (w.finish id (.denied "the operator denied the SSH logins"))
    else none
  | .refuse id reason =>
    if w.handlers id = some .prompting then some (w.finish id (.denied reason)) else none
  | .spawned id signer =>
    if w.handlers id = some .spawning then
      match signer, w.calls id with
      | .error reason, _ => some (w.finish id (.denied reason))
      | .ok _, some ⟨_, .login login⟩ => some (w.grant id login)
      | .ok _, _ => none
    else none
  | .charge id =>
    if w.handlers id = some .admitting then
      match w.calls id with
      | some ⟨_, .signature signature named⟩ => some (w.charge libs isHostKey id signature named)
      | _ => none
    else none
  | .reply id reply =>
    if w.handlers id = some .signing then
      match reply with
      | .ok reply => some (w.finish id (.signed reply))
      | .error reason => some (w.finish id (.denied reason))
    else none
  | .receive id =>
    match w.calls id, w.phases id with
    | some call, .answered answer => some (w.receive id call answer)
    | _, _ => none
  | .abandon id =>
    match w.calls id with
    | some call => if w.phases id = .finished then none else some (w.abandon id call)
    | none => none
  | .close c =>
    if (w.connections c).ended = true ∨ (w.connections c).call ≠ none then none else some (w.close c)
  | .tick duration => some { w with now := w.now + duration }

def run (w : World) : List Act → Option World
  | [] => some w
  | act :: rest => (w.step libs isHostKey act).bind (·.run rest)

end World

end NixSecrets.LoginGrants
