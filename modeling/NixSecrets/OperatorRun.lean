import NixSecrets.OperatorChannel
import NixSecrets.RustText

namespace NixSecrets

def secretId (number : Nat) (random : List UInt8) : String :=
  "secret-" ++ toString number ++ "-" ++ String.join (random.map hexByte)

/-- The steps of a waiting call between two accesses to shared state. `written` is the
outcome of a progress frame, `refuse` a step outside this channel that failed. -/
inductive Move
  | claim
  | look
  | pause
  | leave
  | refuse (message : String)
  | build (random : List UInt8) (step : ProcedureStep)
  | send
  | receive (written : Bool)
  | timeout
  | check
  | giveUp
  | expire
  | again
  | retry
  | close
  | release
  deriving DecidableEq, Repr

inductive Action
  | arrive (ask : Ask)
  | move (r : Nat) (move : Move)
  | attach
  | hear (session : Nat) (message : Inbox)
  | handle (session : Nat) (written : Bool)
  | fail (session : Nat)
  | unregister (session : Nat)
  | hangUp (session : Nat)
  | announce (message : Inbox)
  deriving DecidableEq, Repr

def Requester.stop (q : Requester) (result : Except String SecretAnswer) : Requester :=
  { q with phase := .stopped result }

def Requester.build (q : Requester) (number : Nat) (random : List UInt8) (step : ProcedureStep)
    (session : Nat) : Requester :=
  let procedure := if q.ask.procedure.isSome ∧ ¬ q.ask.sshGrant then some step else none
  { q with
    id := some (secretId number random)
    countdown := !q.ask.sshGrant && !q.ask.confirmation && procedure.all (·.step ≤ 1)
    phase := .sending session }

namespace Operators

/-- The request no longer waits; the TUI is told to drop it. -/
def withdraw (o : Operators) (r : Nat) (q : Requester) (session : Nat) (reason : String) :
    Operators :=
  (q.id.elim o (o.tell session <| .withdraw ·)).put r (q.stop (.error reason))

def claim (o : Operators) (r : Nat) (q : Requester) : Operators :=
  if o.pending < maxPending then
    { o with pending := o.pending + 1 }.put r { q with phase := .looking }
  else
    o.put r { q with
      phase := .refused
        "16 requests are already waiting for the operator; retry when one is answered" }

def look (o : Operators) (r : Nat) (q : Requester) : Operators :=
  o.put r { q with
    phase := match o.latest with
      | some session => if q.id.isSome then .sending session else .building session
      | none => .unserved }

def sendJob (o : Operators) (r : Nat) (q : Requester) (session : Nat) (id : String) : Operators :=
  if o.listening session then
    (o.tell session (.job id r)).put r { q with phase := .waiting session q.countdown }
  else (o.detach session).put r { q with phase := .abandoned }

def receive (o : Operators) (r : Nat) (q : Requester) (session : Nat) (written : Bool) :
    Outcome → Operators
  | .answer answer => o.put r (q.stop answer)
  | .countdownCancelled =>
    if q.ask.stream && q.ask.progress && !written then
      o.withdraw r q session "the requester disconnected"
    else o.put r { q with phase := .waiting session false }

def check (o : Operators) (r : Nat) (q : Requester) (session : Nat) (deadline : Bool) : Operators :=
  o.put r { q with
    phase := if o.isAttached session then .checking session deadline else .abandoned }

def retry (o : Operators) (r : Nat) (q : Requester) : Operators :=
  o.put r (if q.ask.confirmation then
      q.stop (.error "the nix-secrets TUI went away before the operator answered")
    else { q with phase := .looking })

/-- `fetch_sub` on a 64-bit counter. -/
def release (o : Operators) (r : Nat) (q : Requester) (result : Except String SecretAnswer) :
    Operators :=
  { o with pending := (o.pending + (2 ^ 64 - 1)) % 2 ^ 64 }.put r
    { q with phase := .finished result }

def move (o : Operators) (r : Nat) (q : Requester) : Move → Option Operators
  | .claim => match q.phase with
    | .asked => some (o.claim r q)
    | _ => none
  | .look => match q.phase with
    | .looking => some (o.look r q)
    | _ => none
  | .pause => match q.phase with
    | .unserved => some (o.put r { q with phase := .looking })
    | _ => none
  | .leave => match q.phase with
    | .unserved =>
      if q.ask.stream then some (o.put r (q.stop (.error "the requester disconnected"))) else none
    | _ => none
  | .refuse message => match q.phase with
    | .building _ => some (o.put r (q.stop (.error message)))
    | .sending _ =>
      if q.ask.closureSignature then some (o.put r (q.stop (.error message))) else none
    | _ => none
  | .build random step => match q.phase, q.id with
    | .building session, none => some ({ o with nextRequest := (o.nextRequest + 1) % 2 ^ 64 }.put r
        (q.build o.nextRequest random step session))
    | _, _ => none
  | .send => match q.phase, q.id with
    | .sending session, some id => some (o.sendJob r q session id)
    | _, _ => none
  | .receive written => match q.phase, q.reply with
    | .waiting session _, outcome :: rest =>
      some (o.receive r { q with reply := rest } session written outcome)
    | _, _ => none
  | .timeout => match q.phase, q.reply with
    | .waiting session deadline, [] => some (o.put r { q with phase := .timedOut session deadline })
    | _, _ => none
  | .check => match q.phase with
    | .timedOut session deadline => some (o.check r q session deadline)
    | _ => none
  | .giveUp => match q.phase with
    | .checking session _ =>
      if q.ask.stream then some (o.withdraw r q session "the requester disconnected") else none
    | _ => none
  | .expire => match q.phase with
    | .checking session true =>
      some (o.withdraw r q session "the nix-secrets TUI did not answer in time")
    | _ => none
  | .again => match q.phase with
    | .checking session deadline => some (o.put r { q with phase := .waiting session deadline })
    | _ => none
  | .retry => match q.phase with
    | .abandoned => some (o.retry r q)
    | _ => none
  | .close => match q.phase with
    | .stopped result => some (o.put r { q with phase := .closed result, reply := [] })
    | _ => none
  | .release => match q.phase with
    | .closed result => some (o.release r q result)
    | _ => none

def step (o : Operators) : Action → Option Operators
  | .arrive ask =>
    some { o with requesters := o.requesters ++ [{ ask, phase := o.arrival ask }] }
  | .move r move => o.requesters[r]?.bind (o.move r · move)
  | .attach => some { o with
      attached := o.attached ++ [o.tuis.length], tuis := o.tuis ++ [.opened] }
  | .hear session message => o.tuis[session]?.bind fun tui =>
      (tui.hear message).map fun tui => { o with tuis := o.tuis.set session tui }
  | .handle session written => o.tuis[session]?.bind fun tui =>
      (tui.handle written).map fun (tui, out) =>
        { o with tuis := o.tuis.set session tui }.send out
  | .fail session => o.tuis[session]?.bind fun tui =>
      if tui.serving = .running then
        some { o with tuis := o.tuis.set session { tui with serving := .left } }
      else none
  | .unregister session => o.tuis[session]?.bind fun tui =>
      if tui.serving = .left then
        some { o.detach session with
          tuis := o.tuis.set session { tui with serving := .unregistered } }
      else none
  | .hangUp session => o.tuis[session]?.bind fun tui =>
      if tui.serving = .unregistered then
        some { o with
          tuis := o.tuis.set session { tui with serving := .gone, reading := false, waiting := ∅ } }
      else none
  | .announce message => match message with
    | .step _ | .ended _ _ | .grantEnded _ => some (o.broadcast message)
    | _ => none

end Operators

/-- The actions of a run, each with the state it was taken in. -/
inductive OperatorRun : Operators → List (Operators × Action) → Operators → Prop
  | start {o : Operators} : OperatorRun o [] o
  | step {o o₁ o₂ : Operators} {trace : List (Operators × Action)} {a : Action}
      (run : OperatorRun o trace o₁) (next : o₁.step a = some o₂) :
      OperatorRun o (trace ++ [(o₁, a)]) o₂

def Operators.stepAll (o : Operators) : List Action → Option (List (Operators × Action) × Operators)
  | [] => some ([], o)
  | a :: rest => do
    let o₁ ← o.step a
    let (trace, o') ← o₁.stepAll rest
    return ((o, a) :: trace, o')

theorem OperatorRun.cons {o o₁ o₂ : Operators} {trace : List (Operators × Action)} {a : Action}
    (next : o.step a = some o₁) (run : OperatorRun o₁ trace o₂) :
    OperatorRun o ((o, a) :: trace) o₂ := by
  induction run with
  | start => exact .step .start next
  | step run hn ih => exact .step ih hn

theorem Operators.stepAll_run {o o' : Operators} {actions : List Action}
    {trace : List (Operators × Action)} (h : o.stepAll actions = some (trace, o')) :
    OperatorRun o trace o' := by
  induction actions generalizing o trace with
  | nil => cases h; exact .start
  | cons a rest ih =>
    simp only [Operators.stepAll, Option.bind_eq_bind, Option.bind_eq_some_iff] at h
    obtain ⟨o₁, hs, ⟨tail, o₂⟩, hr, h⟩ := h
    cases h
    exact .cons hs (ih hr)

end NixSecrets
