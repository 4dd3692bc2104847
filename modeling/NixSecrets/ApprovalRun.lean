import NixSecrets.ApprovalBroker

namespace NixSecrets

inductive Call
  | register (session : Nat)
  | submit (request : ApprovalRequest) (procedure : Option ProcedureStep)
  | pending (session : Nat)
  | claim (session : Nat) (id : String) (lease : Nat)
  | renew (session : Nat) (id : String) (leaseId duration : Nat)
  | resolve (session : Nat) (id : String) (leaseId : Nat) (decision : Decision)
      (message : Option String)
  | cancel (id : String)
  | status (id : String)
  | disconnect (session : Nat)
  deriving DecidableEq, Repr

inductive Reply
  | done (result : Except BrokerError Unit)
  | status (result : Except BrokerError ApprovalStatus)
  | requests (result : Except BrokerError (List ApprovalRequest))
  | claim (result : Except BrokerError Claim)
  | renewed (result : Except BrokerError Nat)
  deriving DecidableEq, Repr

/-- One call with its two clock readings and its answer. -/
structure Event where
  now : Nat
  later : Nat
  call : Call
  reply : Reply
  deriving DecidableEq, Repr

def ApprovalBroker.serve (b : ApprovalBroker) (now later : Nat) : Call → ApprovalBroker × Reply
  | .register session => (b.register now session).map id .done
  | .submit request procedure => (b.submitInProcedure now later request procedure).map id .status
  | .pending session => (b.pending now session).map id .requests
  | .claim session rid lease => (b.claim now later session rid lease).map id .claim
  | .renew session rid leaseId duration =>
    (b.renew now later session rid leaseId duration).map id .renewed
  | .resolve session rid leaseId decision message =>
    (b.resolve now session rid leaseId decision message).map id .done
  | .cancel rid => (b.cancel now rid).map id .done
  | .status rid => (b.statusOf now later rid).map id .status
  | .disconnect session => (b.disconnect session, .done (.ok ()))

/-- Every call sequence, each call at a clock reading no earlier than the one before. -/
inductive BrokerRun : ApprovalBroker → Nat → ApprovalBroker → Nat → List Event → Prop
  | start {b t} : BrokerRun b t b t []
  | next {b t b₁ t₁ trace b₂ now later call reply} : BrokerRun b t b₁ t₁ trace →
      t₁ ≤ now → now ≤ later → b₁.serve now later call = (b₂, reply) →
      BrokerRun b t b₂ later (trace ++ [⟨now, later, call, reply⟩])


/-- Serves a list of calls, each with its two clock readings. -/
def ApprovalBroker.serveAll (b : ApprovalBroker) : List (Nat × Nat × Call) → ApprovalBroker × List Event
  | [] => (b, [])
  | (now, later, call) :: rest =>
    let (b₁, reply) := b.serve now later call
    let (b₂, trace) := b₁.serveAll rest
    (b₂, ⟨now, later, call, reply⟩ :: trace)

/-- The instant after the calls, when their clock readings never go back. -/
def clockAfter (t : Nat) : List (Nat × Nat × Call) → Option Nat
  | [] => some t
  | (now, later, _) :: rest => if t ≤ now ∧ now ≤ later then clockAfter later rest else none

theorem BrokerRun.trans {b b₁ b₂ : ApprovalBroker} {t t₁ t₂ : Nat} {trace trace' : List Event}
    (h : BrokerRun b t b₁ t₁ trace) (h' : BrokerRun b₁ t₁ b₂ t₂ trace') :
    BrokerRun b t b₂ t₂ (trace ++ trace') := by
  induction h' with
  | start => simpa using h
  | next _ ht hl hs ih => simpa using BrokerRun.next ih ht hl hs

theorem ApprovalBroker.serveAll_run {b : ApprovalBroker} {t t' : Nat}
    {calls : List (Nat × Nat × Call)} (h : clockAfter t calls = some t') :
    BrokerRun b t (b.serveAll calls).1 t' (b.serveAll calls).2 := by
  induction calls generalizing b t with
  | nil => cases h; exact .start
  | cons call rest ih =>
    obtain ⟨now, later, call⟩ := call
    simp only [clockAfter] at h
    split at h
    next ht =>
      have first : BrokerRun b t (b.serve now later call).1 later
          ([] ++ [⟨now, later, call, (b.serve now later call).2⟩]) :=
        BrokerRun.next .start ht.1 ht.2 rfl
      exact first.trans (ih h)
    next => cases h

/-- What an answered call means for one request. -/
inductive Effect
  | ignored
  | reclaims
  | drops (session : Nat)
  | claims (lease : Lease)
  | renews (expires : Nat)
  | resolves (decision : Decision) (message : Option String)
  | cancels
  deriving DecidableEq, Repr

/-- Every call reclaims expired leases first, except a disconnect and a malformed submission. -/
def Event.effect (x : Event) (rid : String) : Effect :=
  match x.call, x.reply with
  | .disconnect session, _ => .drops session
  | .submit request _, _ =>
    match request.validate with
    | .error _ => .ignored
    | .ok () => .reclaims
  | .claim session id lease, .claim (.ok c) =>
    if id = rid then .claims ⟨c.leaseId, session, x.later + lease⟩ else .reclaims
  | .renew _ id _ duration, .renewed (.ok _) =>
    if id = rid then .renews (x.later + duration) else .reclaims
  | .resolve _ id _ decision message, .done (.ok _) =>
    if id = rid then .resolves decision message else .reclaims
  | .cancel id, .done (.ok _) => if id = rid then .cancels else .reclaims
  | _, _ => .reclaims

def EntryState.renewed (expires : Nat) : EntryState → EntryState
  | .claimed lease => .claimed { lease with expires }
  | s => s

def Event.onState (x : Event) (rid : String) (s : EntryState) : EntryState :=
  match x.effect rid with
  | .ignored => s
  | .reclaims => s.reopen (·.expired x.now)
  | .drops session => s.reopen (·.owner == session)
  | .claims lease => .claimed lease
  | .renews expires => s.renewed expires
  | .resolves decision message => .resolved decision message
  | .cancels => .cancelled

namespace ApprovalBroker

@[simp] theorem broadcast_entries (b : ApprovalBroker) (id : String) :
    (b.broadcast id).entries = b.entries := rfl

@[simp] theorem broadcast_nextLease (b : ApprovalBroker) (id : String) :
    (b.broadcast id).nextLease = b.nextLease := rfl

theorem foldl_broadcast_entries (ids : List String) (b : ApprovalBroker) :
    (ids.foldl broadcast b).entries = b.entries ∧
      (ids.foldl broadcast b).nextLease = b.nextLease := by
  induction ids generalizing b with
  | nil => exact ⟨rfl, rfl⟩
  | cons id ids ih => simpa using ih (b.broadcast id)

@[simp] theorem reopen_entries (b : ApprovalBroker) (p : Lease → Bool) (id : String) :
    (b.reopen p).entries[id]? =
      (b.entries[id]?).map fun e => { e with state := e.state.reopen p } := by
  simp [reopen, (foldl_broadcast_entries _ _).1, Std.ExtTreeMap.getElem?_map]

@[simp] theorem reopen_nextLease (b : ApprovalBroker) (p : Lease → Bool) :
    (b.reopen p).nextLease = b.nextLease := by
  simp [reopen, (foldl_broadcast_entries _ _).2]

@[simp] theorem reclaim_entries (b : ApprovalBroker) (now : Nat) (id : String) :
    (b.reclaim now).entries[id]? =
      (b.entries[id]?).map fun e => { e with state := e.state.reopen (·.expired now) } :=
  reopen_entries b _ id

@[simp] theorem reclaim_nextLease (b : ApprovalBroker) (now : Nat) :
    (b.reclaim now).nextLease = b.nextLease := reopen_nextLease b _

@[simp] theorem setState_entries (b : ApprovalBroker) (id rid : String) (entry : Entry)
    (s : EntryState) : (b.setState id entry s).entries[rid]? =
      if id = rid then some { entry with state := s } else b.entries[rid]? := by
  simp [setState, Std.ExtTreeMap.getElem?_insert]

@[simp] theorem setState_nextLease (b : ApprovalBroker) (id : String) (entry : Entry)
    (s : EntryState) : (b.setState id entry s).nextLease = b.nextLease := rfl

end ApprovalBroker

end NixSecrets
