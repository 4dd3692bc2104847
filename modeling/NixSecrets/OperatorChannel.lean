import NixSecrets.ApprovalBroker

namespace NixSecrets

def maxPending : Nat := 16
def maxRequestReasonBytes : Nat := 4096

def noOperator : String :=
  "no nix-secrets TUI is attached to this backend; open the nix-secrets TUI and retry"

structure SecretValue where
  identifier : String
  valueBase64 : String
  deriving DecidableEq, Repr

/-- The signature bundles are those of the artifact and closure protocols, unread here. -/
inductive SecretAnswer
  | approved (values : List SecretValue)
  | signed (reply : List UInt8)
  | loginGranted (expiresInSeconds signatures : Nat)
  | artifactsSigned (signatures : List UInt8)
  | closureSigned (signatures : List UInt8)
  | confirmed
  | denied (reason : String)
  deriving DecidableEq, Repr

inductive Outcome
  | answer (answer : Except String SecretAnswer)
  | countdownCancelled
  deriving DecidableEq, Repr

def Outcome.isAnswer : Outcome → Bool
  | .answer _ => true
  | .countdownCancelled => false

/-- A job carries the request's id and the requester whose reply channel it answers on. -/
inductive Inbox
  | job (request : String) (reply : Nat)
  | withdraw (requestId : String)
  | step (procedure : ProcedureStep)
  | ended (id : String) (exitCode : Option Int)
  | grantEnded (grant : String)
  | answer (requestId : String) (answer : SecretAnswer)
  | cancelCountdown (requestId : String)
  | closed
  deriving DecidableEq, Repr

/-- How far the thread that serves a TUI has come: in its loop, out of it, off the
registry, returned with its inbox dropped. -/
inductive Serving
  | running | left | unregistered | gone
  deriving DecidableEq, Repr

/-- An attached TUI with everything ever sent to its inbox; the first `read` messages
have been taken out. -/
structure Tui where
  inbox : List Inbox := []
  read : Nat := 0
  reading : Bool := true
  serving : Serving := .running
  waiting : BTreeMap String Nat := ∅
  deriving DecidableEq

namespace Tui

def opened : Tui := {}

def handled (tui : Tui) : List Inbox := tui.inbox.take tui.read

def push (message : Inbox) (tui : Tui) : Tui :=
  if tui.serving = .gone then tui else { tui with inbox := tui.inbox ++ [message] }

/-- A failed write ends the loop. -/
def wrote (written : Bool) (tui : Tui) : Tui :=
  if written then tui else { tui with serving := .left }

/-- One round of the attach loop, with what it sends to a waiting requester. -/
def take (tui : Tui) (written : Bool) : Inbox → Tui × Option (Nat × Outcome)
  | .job request reply =>
    (if written then { tui with waiting := tui.waiting.insert request reply }
      else { tui with serving := .left }, none)
  | .withdraw requestId =>
    if requestId ∈ tui.waiting then
      (wrote written { tui with waiting := tui.waiting.erase requestId }, none)
    else (tui, none)
  | .step _ | .ended _ _ | .grantEnded _ => (tui.wrote written, none)
  | .answer requestId answer =>
    match tui.waiting[requestId]? with
    | some reply =>
      ({ tui with waiting := tui.waiting.erase requestId }, some (reply, .answer (.ok answer)))
    | none => (tui, none)
  | .cancelCountdown requestId =>
    (tui, tui.waiting[requestId]?.map (·, .countdownCancelled))
  | .closed => ({ tui with serving := .left }, none)

def handle (tui : Tui) (written : Bool) : Option (Tui × Option (Nat × Outcome)) :=
  if tui.serving = .running then
    tui.inbox[tui.read]?.map fun message => { tui with read := tui.read + 1 }.take written message
  else none

/-- The reader thread turns what the TUI writes into inbox messages until it closes. -/
def hear (tui : Tui) (message : Inbox) : Option Tui :=
  if tui.reading = true ∧ tui.serving ≠ .gone then
    match message with
    | .answer _ _ | .cancelCountdown _ => some (tui.push message)
    | .closed => some { tui.push message with reading := false }
    | _ => none
  else none

end Tui

/-- What a requester asks with, as far as the wait for the operator reads it. -/
structure Ask where
  reason : Option String := none
  procedure : Option String := none
  confirmation : Bool := false
  sshGrant : Bool := false
  closureSignature : Bool := false
  stream : Bool := true
  progress : Bool := false
  deriving DecidableEq, Repr

/-- Where the call of a requester stands. The sessions are those of the TUI it found,
sent its job to or waits on; `deadline` says whether a deadline is set. -/
inductive Phase
  | asked
  | refused (message : String)
  | looking
  | unserved
  | building (session : Nat)
  | sending (session : Nat)
  | waiting (session : Nat) (deadline : Bool)
  | timedOut (session : Nat) (deadline : Bool)
  | checking (session : Nat) (deadline : Bool)
  | abandoned
  | stopped (result : Except String SecretAnswer)
  | closed (result : Except String SecretAnswer)
  | finished (result : Except String SecretAnswer)
  deriving DecidableEq, Repr

namespace Phase

/-- The call still owns its pending slot. -/
def holdsClaim : Phase → Bool
  | .asked | .refused _ | .finished _ => false
  | _ => true

/-- The receiver of the reply channel is alive. -/
def listens : Phase → Bool
  | .closed _ | .finished _ | .refused _ => false
  | _ => true

/-- The TUI whose answer the requester waits for. -/
def servedBy : Phase → Option Nat
  | .waiting session _ | .timedOut session _ | .checking session _ => some session
  | _ => none

def result : Phase → Option (Except String SecretAnswer)
  | .stopped result | .closed result | .finished result => some result
  | _ => none

end Phase

/-- One call of a requester: its request once it has an id, and the reply channel. -/
structure Requester where
  ask : Ask
  id : Option String := none
  countdown : Bool := false
  phase : Phase
  reply : List Outcome := []
  deriving DecidableEq, Repr

def Requester.deliver (outcome : Outcome) (q : Requester) : Requester :=
  if q.phase.listens then { q with reply := q.reply ++ [outcome] } else q

structure Operators where
  attached : List Nat := []
  pending : Nat := 0
  nextRequest : Nat := 0
  tuis : List Tui := []
  requesters : List Requester := []
  deriving DecidableEq

namespace Operators

def latest (o : Operators) : Option Nat := o.attached.getLast?

def isAttached (o : Operators) (session : Nat) : Bool := o.attached.contains session

def detach (o : Operators) (session : Nat) : Operators :=
  { o with attached := o.attached.filter (· != session) }

def tell (o : Operators) (session : Nat) (message : Inbox) : Operators :=
  { o with tuis := o.tuis.modify session (Tui.push message) }

def listening (o : Operators) (session : Nat) : Bool :=
  o.tuis[session]?.any (·.serving != .gone)

def broadcast (o : Operators) (message : Inbox) : Operators :=
  o.attached.foldl (·.tell · message) o

def put (o : Operators) (r : Nat) (q : Requester) : Operators :=
  { o with requesters := o.requesters.set r q }

def send (o : Operators) : Option (Nat × Outcome) → Operators
  | some (r, outcome) => { o with requesters := o.requesters.modify r (Requester.deliver outcome) }
  | none => o

/-- The checks a call makes before it claims a slot. -/
def arrival (o : Operators) (ask : Ask) : Phase :=
  if ask.reason.any (maxRequestReasonBytes < ·.utf8ByteSize) then
    .refused "request reason exceeds 4096 bytes"
  else if ask.confirmation ∧ ask.procedure.isNone then
    .refused "a confirmation must come from inside a procedure"
  else if ask.confirmation ∧ o.latest.isNone then .refused noOperator
  else .asked

end Operators

end NixSecrets
