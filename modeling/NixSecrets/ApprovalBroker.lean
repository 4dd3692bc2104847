import Mathlib.Algebra.Order.Ring.Nat
import Mathlib.Data.List.Basic

namespace NixSecrets

abbrev BTreeMap (κ ν : Type) [Ord κ] := Std.ExtTreeMap κ ν compare
abbrev BTreeSet (κ : Type) [Ord κ] := Std.ExtTreeSet κ compare

structure StepProgress where
  text : String
  percent : Option Nat
  deriving DecidableEq, Repr

/-- Where a prompt sits in its procedure, as the backend numbered it. -/
structure ProcedureStep where
  id : String
  title : String
  step : Nat
  steps : Option Nat
  label : String
  deployment : Bool
  failure : Option String
  warning : Option String
  progress : Option StepProgress
  deriving DecidableEq, Repr

structure ApprovalRequest where
  id : String
  target : String
  secrets : List String
  allowPartial : Bool
  deriving DecidableEq, Repr

def maxRequestId : Nat := 128
def maxApprovalItems : Nat := 4096

def requestIdChar (c : Char) : Bool :=
  c.isAlphanum || c == '-' || c == '_' || c == '.' || c == ':'

def ApprovalRequest.validate (r : ApprovalRequest) : Except String Unit :=
  if r.id.utf8ByteSize = 0 ∨ maxRequestId < r.id.utf8ByteSize then
    .error "request id has an invalid length"
  else if !r.id.toList.all requestIdChar then
    .error "request id contains invalid characters"
  else if r.target.utf8ByteSize = 0 ∨ 512 < r.target.utf8ByteSize then
    .error "target has an invalid length"
  else if r.secrets = [] ∨ maxApprovalItems < r.secrets.length then
    .error "secret list has an invalid length"
  else if r.secrets.any (fun item => item.utf8ByteSize == 0 || 1024 < item.utf8ByteSize) then
    .error "secret identifier has an invalid length"
  else .ok ()

inductive Decision
  | approved | rejected
  deriving DecidableEq, Repr

inductive ApprovalStatus
  | pending
  | claimed (leaseId expiresInMs : Nat)
  | resolved (decision : Decision) (message : Option String)
  | cancelled
  deriving DecidableEq, Repr

structure Claim where
  leaseId : Nat
  expiresInMs : Nat
  deriving DecidableEq, Repr

inductive BrokerError
  | invalid (reason : String)
  | full | unknown | unavailable | wrongLease
  deriving DecidableEq, Repr

def maxRequests : Nat := 4096
def maxFrontends : Nat := 128
def maxQueue : Nat := 4096
def maxMessage : Nat := 64 * 1024
/-- Instants and durations are nanoseconds. -/
def maxLease : Nat := 15 * 60 * 10 ^ 9

structure Lease where
  id : Nat
  owner : Nat
  expires : Nat
  deriving DecidableEq, Repr

def Lease.expired (lease : Lease) (now : Nat) : Bool := decide (lease.expires ≤ now)

inductive EntryState
  | pending
  | claimed (lease : Lease)
  | resolved (decision : Decision) (message : Option String)
  | cancelled
  deriving DecidableEq, Repr

def EntryState.leased (p : Lease → Bool) : EntryState → Bool
  | .claimed lease => p lease
  | _ => false

/-- A claimed request becomes pending again when its lease is selected. -/
def EntryState.reopen (p : Lease → Bool) (s : EntryState) : EntryState :=
  if s.leased p then .pending else s

structure Entry where
  request : ApprovalRequest
  state : EntryState
  procedure : Option ProcedureStep
  deriving DecidableEq, Repr

structure Frontend where
  queued : List String := []
  known : BTreeSet String := ∅

structure ApprovalBroker where
  entries : BTreeMap String Entry := ∅
  frontends : BTreeMap Nat Frontend := ∅
  nextLease : Nat := 1

def millis (duration : Nat) : Nat := min (duration / 10 ^ 6) (2 ^ 64 - 1)

def status (entry : Entry) (now : Nat) : ApprovalStatus :=
  match entry.state with
  | .pending => .pending
  | .claimed lease => .claimed lease.id (millis (lease.expires - now))
  | .resolved decision message => .resolved decision message
  | .cancelled => .cancelled

def queue (frontend : Frontend) (id : String) : Frontend :=
  if id ∈ frontend.known then frontend
  else if frontend.queued.length = maxQueue then
    match frontend.queued with
    | old :: rest => ⟨rest ++ [id], (frontend.known.insert id).erase old⟩
    | [] => ⟨[id], frontend.known.insert id⟩
  else ⟨frontend.queued ++ [id], frontend.known.insert id⟩

namespace ApprovalBroker

def broadcast (b : ApprovalBroker) (id : String) : ApprovalBroker :=
  { b with frontends := b.frontends.map fun _ frontend => queue frontend id }

def setState (b : ApprovalBroker) (id : String) (entry : Entry) (state : EntryState) :
    ApprovalBroker :=
  { b with entries := b.entries.insert id { entry with state } }

/-- The loop `disconnect` and `reclaim` share: the selected leases end, then
their requests are offered to every registered frontend again. -/
def reopen (b : ApprovalBroker) (p : Lease → Bool) : ApprovalBroker :=
  let ids := (b.entries.toList.filter fun item => item.2.state.leased p).map Prod.fst
  let entries := b.entries.map fun _ entry => { entry with state := entry.state.reopen p }
  ids.foldl broadcast { b with entries }

def reclaim (b : ApprovalBroker) (now : Nat) : ApprovalBroker := b.reopen (·.expired now)

def disconnect (b : ApprovalBroker) (session : Nat) : ApprovalBroker :=
  { b with frontends := b.frontends.erase session }.reopen fun lease => lease.owner == session

def register (b : ApprovalBroker) (now session : Nat) : ApprovalBroker × Except BrokerError Unit :=
  let b := b.reclaim now
  if ¬ session ∈ b.frontends ∧ maxFrontends ≤ b.frontends.size then (b, .error .full)
  else
    let pending := (b.entries.toList.filter fun item => item.2.state = .pending).map Prod.fst
    let frontend := pending.foldl queue (b.frontends.getD session {})
    ({ b with frontends := b.frontends.insert session frontend }, .ok ())

def submitInProcedure (b : ApprovalBroker) (now later : Nat) (request : ApprovalRequest)
    (procedure : Option ProcedureStep) : ApprovalBroker × Except BrokerError ApprovalStatus :=
  match request.validate with
  | .error reason => (b, .error (.invalid reason))
  | .ok () =>
    let b := b.reclaim now
    match b.entries[request.id]? with
    | some entry =>
      if entry.request ≠ request then (b, .error (.invalid "request id collision"))
      else (b, .ok (status entry later))
    | none =>
      if maxRequests ≤ b.entries.size then (b, .error .full)
      else
        ({ b with entries := b.entries.insert request.id ⟨request, .pending, procedure⟩ }.broadcast
          request.id, .ok .pending)

def submit (b : ApprovalBroker) (now later : Nat) (request : ApprovalRequest) :
    ApprovalBroker × Except BrokerError ApprovalStatus :=
  b.submitInProcedure now later request none

/-- Reading availability keeps the queue, less what is no longer pending. -/
def pending (b : ApprovalBroker) (now session : Nat) :
    ApprovalBroker × Except BrokerError (List ApprovalRequest) :=
  let b := b.reclaim now
  match b.frontends[session]? with
  | none => (b, .error .unavailable)
  | some frontend =>
    let queued := frontend.queued.filter fun id =>
      (b.entries[id]?).any fun entry => entry.state = .pending
    ({ b with frontends := b.frontends.insert session ⟨queued, Std.ExtTreeSet.ofList queued⟩ },
      .ok ((queued.filterMap fun id => b.entries[id]?).map Entry.request))

/-- Reading the clock again for the expiry may find a later instant. -/
def claim (b : ApprovalBroker) (now later session : Nat) (id : String) (lease : Nat) :
    ApprovalBroker × Except BrokerError Claim :=
  let b := b.reclaim now
  if ¬ session ∈ b.frontends then (b, .error .unavailable)
  else if lease = 0 ∨ maxLease < lease then (b, .error (.invalid "invalid lease duration"))
  else match b.entries[id]? with
    | none => (b, .error .unknown)
    | some entry =>
      if entry.state ≠ .pending then (b, .error .unavailable)
      else
        let next := if b.nextLease + 1 < 2 ^ 64 then b.nextLease + 1 else 1
        ({ b with nextLease := next }.setState id entry
            (.claimed ⟨b.nextLease, session, later + lease⟩),
          .ok ⟨b.nextLease, millis lease⟩)

def resolve (b : ApprovalBroker) (now session : Nat) (id : String) (leaseId : Nat)
    (decision : Decision) (message : Option String) : ApprovalBroker × Except BrokerError Unit :=
  let b := b.reclaim now
  if message.any fun text => maxMessage < text.utf8ByteSize then
    (b, .error (.invalid "resolution message is too long"))
  else match b.entries[id]? with
    | none => (b, .error .unknown)
    | some entry =>
      match entry.state with
      | .claimed lease =>
        if lease.owner = session ∧ lease.id = leaseId then
          (b.setState id entry (.resolved decision message), .ok ())
        else (b, .error .wrongLease)
      | _ => (b, .error .wrongLease)

def renew (b : ApprovalBroker) (now later session : Nat) (id : String) (leaseId duration : Nat) :
    ApprovalBroker × Except BrokerError Nat :=
  let b := b.reclaim now
  if ¬ session ∈ b.frontends then (b, .error .unavailable)
  else if duration = 0 ∨ maxLease < duration then (b, .error (.invalid "invalid lease duration"))
  else match b.entries[id]? with
    | none => (b, .error .unknown)
    | some entry =>
      match entry.state with
      | .claimed lease =>
        if lease.owner = session ∧ lease.id = leaseId then
          (b.setState id entry (.claimed { lease with expires := later + duration }),
            .ok (millis duration))
        else (b, .error .wrongLease)
      | _ => (b, .error .wrongLease)

def cancel (b : ApprovalBroker) (now : Nat) (id : String) :
    ApprovalBroker × Except BrokerError Unit :=
  let b := b.reclaim now
  match b.entries[id]? with
  | none => (b, .error .unknown)
  | some entry =>
    (b.setState id entry .cancelled, .ok ())

def statusOf (b : ApprovalBroker) (now later : Nat) (id : String) :
    ApprovalBroker × Except BrokerError ApprovalStatus :=
  let b := b.reclaim now
  match b.entries[id]? with
  | none => (b, .error .unknown)
  | some entry => (b, .ok (status entry later))

def procedures (b : ApprovalBroker) (requests : List ApprovalRequest) :
    BTreeMap String ProcedureStep :=
  Std.ExtTreeMap.ofList (requests.filterMap fun request => do
    let entry ← b.entries[request.id]?
    let step ← entry.procedure
    pure (request.id, step))

def hasPending (b : ApprovalBroker) : Bool :=
  b.entries.toList.any fun item => item.2.state = .pending

def hasFrontends (b : ApprovalBroker) : Bool := !b.frontends.isEmpty

end ApprovalBroker

end NixSecrets
