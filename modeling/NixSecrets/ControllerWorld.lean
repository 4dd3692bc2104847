import NixSecrets.ApprovalRun
import NixSecrets.DeploymentClient
import NixSecrets.HostMutations
import NixSecrets.Outcome
import NixSecrets.StorePersistence

namespace NixSecrets.Manager

open Inventory

/-- A claimed request until it is decided. -/
structure ActiveApproval where
  request : ApprovalRequest
  leaseId : Nat
  expected : Transport.ExpectedTarget
  identity : HostKey.HostIdentity
  /-- The open connection, by the state that the target sent over it. -/
  prepared : Option Transport.TargetState := none
  targetApproved : Bool
  hostKeyKnown : Bool
  lastError : Option String := none
  unchecked : List String := []
  procedure : Option ProcedureStep

/-- What the last deployment did, for the result notice. -/
structure DeploySummary where
  target : String
  sent : Nat
  generated : Nat
  leftOut : List String
  missing : List String
  quarantined : List String
  deriving DecidableEq

structure Controller where
  active : Option ActiveApproval := none
  hostMutations : Option PendingHostMutations := none
  identityPublication : Option IdentityPublication := none
  /-- A worker listens for requests; it has heard of one. -/
  background : Bool := false
  approvalsReady : Bool := false
  followupProcedures : BTreeMap String ProcedureStep := ∅
  stalePublic : BTreeMap String String := ∅
  lastGenerated : List String := []
  lastSkipped : List String := []
  lastSummary : Option DeploySummary := none

/-- A call that the caller sees fail, after the backend acted on it or not. -/
structure Failure where
  message : String
  performed : Bool

/-- How one call to the backend goes: what others do before it, and how it is answered. -/
structure Turn where
  writes : List StoreCall := []
  calls : List (Nat × Nat × Call) := []
  now : Nat := 0
  later : Nat := 0
  schema : Except String Inventory.Schema
  failure : Option Failure := none

/-- What the controller meets outside of itself, by the number of the question. -/
structure Surroundings where
  turn : Nat → Turn
  /-- The claim was renewed less than a minute ago. -/
  renewedRecently : Nat → Bool
  /-- The worker that listens has heard of a request. -/
  heard : Nat → Bool
  random : Nat → Except String String
  contribution : Nat → Except String String
  clock : Nat → UInt64
  encrypt : Nat → String → List UInt8 → List Crypto.Recipient → Except String Crypto.EncryptedSecret
  decrypt : Nat → List (String × Crypto.EncryptedSecret) → Except String (List (List UInt8))
  decryptOne : Nat → String → Crypto.EncryptedSecret → Except String (List UInt8)
  preflight : Nat → Except String HostKey.HostKeyPreflight
  /-- Scans the approved keys of an unknown host again, and records them. -/
  trust : Nat → Except String Unit
  login : Nat → Except String Transport.TargetState
  send : Nat → WireBatch → Except String Transport.DeploymentResult

/-- What the operator is told at the end of an operation. -/
inductive Report
  | showed (approval : Tui.ApprovalRequest)
  | nothing
  | deployed (generated skipped : List String) (summary : Option DeploySummary)
  | finished
  | declined (beforeDeploy : Bool)
  | failed (error : String)
  | died

inductive Operation
  | pollApproval
  | approval (accepted : Bool)
  | approvalWith (accepted : Bool) (unchecked : List String)
  | approveHostMutations (accepted : Bool) (token : String)
  /-- The broken connection is replaced by one of another session. -/
  | reconnect (session : Nat)
  deriving DecidableEq

/-- What a run leaves behind, in order. -/
inductive Occurrence
  | began (operation : Operation)
  | ended (report : Report)
  | asked (call : Call)
  | claimed (id : String) (leaseId : Nat)
  | renewed (broker : ApprovalBroker) (session : Nat) (id : String) (leaseId : Nat)
  | wrote (call : StoreCall) (before after : StoreDocument)
  /-- An answer that ends what it was asked for, be it a write. -/
  | hindered (write : Option StoreOp) (error : String)
  | returned (output : AppliedOutput)
  /-- Everything returned is stored, quarantined, staged or among the warnings. -/
  | kept (warnings : List String)

structure World where
  controller : Controller := {}
  session : Nat := 0
  document : StoreDocument := {}
  broker : ApprovalBroker := {}
  tick : Nat := 0
  log : List Occurrence := []
  /-- The thread of the controller has not panicked. -/
  alive : Bool := true

abbrev Program := ExceptT (Stop String) (StateM World)

namespace Program

variable {α : Type}

def check (x : Checked String α) : Program α := fun w => (x, w)

def fail (error : String) : Program α := check (Checked.refuse error)

def controller : Program Controller := fun w => (.ok w.controller, w)

def update (f : Controller → Controller) : Program Unit :=
  fun w => (.ok (), { w with controller := f w.controller })

def note (occurrence : Occurrence) : Program Unit := fun w => (.ok (), { w with log := w.log ++ [occurrence] })

/-- Asks something outside, which may answer otherwise the next time. -/
def question (answer : Nat → α) : Program α := fun w => (.ok (answer w.tick), { w with tick := w.tick + 1 })

def hindered (write : Option StoreOp) (error : String) : Program α := fun w =>
  (.error (.refused error), { w with log := w.log ++ [.hindered write error] })

def answered (answer : Nat → Except String α) : Program α := do
  match ← question answer with
  | .ok value => return value
  | .error error => hindered none error

/-- Hands an error to the caller instead of passing it on; a panic is passed on. -/
def attempt (m : Program α) : Program (Except String α) := fun w =>
  match m w with
  | (.ok a, w') => (.ok (.ok a), w')
  | (.error (.refused e), w') => (.ok (.error e), w')
  | (.error .panicked, w') => (.error .panicked, w')

def mapRefusal (f : String → String) (m : Program α) : Program α := fun w =>
  match m w with
  | (.ok a, w') => (.ok a, w')
  | (.error e, w') => (.error (e.map f), w')

def each {β : Type} (body : β → Program Unit) : List β → Program Unit
  | [] => pure ()
  | x :: xs => do
    body x
    each body xs

def collect {β γ : Type} (body : β → Program γ) : List β → Program (List γ)
  | [] => pure []
  | x :: xs => do
    let y ← body x
    let ys ← collect body xs
    return y :: ys

/-- A loop that hands a value from one round to the next. -/
def carry {β γ : Type} (body : γ → β → Program γ) : γ → List β → Program γ
  | c, [] => pure c
  | c, x :: xs => do
    let c ← body c x
    carry body c xs

end Program

def storeErrorText (libs : Libraries) : StoreError → String
  | .io error => "I/O error: " ++ error
  | .decode error => "invalid TOML: " ++ error
  | .encode error => "cannot encode TOML: " ++ error
  | .schema error => error.display libs.debug
  | .recipientMismatch => "envelope recipient does not match the evaluated schema"
  | .invalidRecord => "stored age record metadata is invalid"
  | .invalidPublicKey => "public key metadata does not match the evaluated secret type"
  | .invalidRecipientRegistry => "recipient registry reference is missing or inconsistent"
  | .invalidPublicInfo => "public-info value or schema is invalid"
  | .invalidQuarantine => "quarantined value is invalid or the quarantine is full"
  | .versionConflict => "secret version changed during update"
  | .derived => "this value is derived from another secret and is never stored"

/-- A panic takes the connection down with it. -/
def storeStopText (libs : Libraries) : Stop StoreError → String
  | .refused error => storeErrorText libs error
  | .panicked => "the backend closed the connection"

def brokerErrorText : BrokerError → String
  | .invalid reason => reason
  | .full => "approval broker capacity reached"
  | .unknown => "unknown approval request"
  | .unavailable => "approval request is unavailable"
  | .wrongLease => "approval lease is invalid"

/-- The document after the writes of other clients. -/
def writtenBy (libs : Libraries) (document : StoreDocument) (calls : List StoreCall) : StoreDocument :=
  calls.foldl (fun document call => match call.act libs.toLibraries document with
    | .ok result => result.2
    | .error _ => document) document

namespace Client

open Program

variable (libs : Libraries) (s : Surroundings)

def read {α : Type} (action : Inventory.Action α) : Program α := fun w =>
  let turn := s.turn w.tick
  let document := writtenBy libs w.document turn.writes
  let w := { w with tick := w.tick + 1, document := document }
  match turn.failure with
  | some failure => hindered none failure.message w
  | none =>
    match action document with
    | .ok result => (.ok result.1, w)
    | .error stop => hindered none (storeStopText libs stop) w

/-- What the backend does with a write: the result of the operation under the schema it evaluates. -/
def act (turn : Turn) (op : StoreOp) (document : StoreDocument) :
    Except String (StoreCall × StoreReply × StoreDocument) := do
  let schema ← turn.schema.mapError ("reloading repository schema failed: " ++ ·)
  let result ← (StoreCall.act libs.toLibraries ⟨schema, op, []⟩ document).mapError (storeStopText libs)
  return (⟨schema, op, []⟩, result)

def write (op : StoreOp) : Program StoreReply := fun w =>
  let turn := s.turn w.tick
  let document := writtenBy libs w.document turn.writes
  let w := { w with tick := w.tick + 1, document := document }
  match act libs turn op document, turn.failure with
  | .ok (call, reply, document'), none =>
    (.ok reply, { w with document := document', log := w.log ++ [.wrote call document document'] })
  | .ok (call, _, document'), some failure =>
    hindered (some op) failure.message (if failure.performed then
      { w with document := document', log := w.log ++ [.wrote call document document'] } else w)
  | .error _, some failure => hindered (some op) failure.message w
  | .error error, none => hindered (some op) error w

def set (op : StoreOp) : Program Unit := do
  let _ ← write libs s op
  return ()

def unexpected {α : Type} : Program α := fail "unexpected backend response"

def quarantine (value : QuarantinedValue) : Program String := do
  let random ← question s.random
  match ← write libs s (.quarantine value random) with
  | .quarantined id => return id
  | _ => unexpected

def ask (call : Nat → Call) : Program Reply := fun w =>
  let turn := s.turn w.tick
  let broker := (w.broker.serveAll turn.calls).1
  let served := broker.serve turn.now turn.later (call w.session)
  let w := { w with tick := w.tick + 1, log := w.log ++ [Occurrence.asked (call w.session)] }
  match turn.failure with
  | some failure =>
    hindered none failure.message { w with broker := if failure.performed then served.1 else broker }
  | none => (.ok served.2, { w with broker := served.1 })

def resolve (id : String) (leaseId : Nat) (approved : Bool) (message : Option String) : Program Unit := do
  let decision := if approved then Decision.approved else .rejected
  match ← ask s (.resolve · id leaseId decision message) with
  | .done (.ok ()) => return ()
  | .done (.error error) => hindered none (brokerErrorText error)
  | _ => unexpected

def noteRenewed (id : String) (leaseId : Nat) : Program Unit := fun w =>
  (.ok (), { w with log := w.log ++ [.renewed w.broker w.session id leaseId] })

/-- Leases are asked for in milliseconds. -/
def renewFor (id : String) (leaseId leaseMs : Nat) : Program Unit := do
  match ← ask s (.renew · id leaseId (leaseMs * 10 ^ 6)) with
  | .renewed (.ok _) => noteRenewed id leaseId
  | .renewed (.error error) => hindered none (brokerErrorText error)
  | _ => unexpected

def renew (id : String) (leaseId : Nat) : Program Unit := renewFor s id leaseId 300000

def submitApproval (request : ApprovalRequest) : Program Unit := do
  match ← ask s (fun _ => .submit request none) with
  | .status (.ok _) => return ()
  | .status (.error error) => hindered none (brokerErrorText error)
  | _ => unexpected

/-- Claims the first request that no other frontend has claimed meanwhile. -/
def claimFirst (procedures : BTreeMap String ProcedureStep) :
    List ApprovalRequest → Program (Option (ApprovalRequest × Nat × Option ProcedureStep))
  | [] => return none
  | request :: rest => do
    match ← ask s (.claim · request.id (300000 * 10 ^ 6)) with
    | .claim (.ok claim) =>
      note (.claimed request.id claim.leaseId)
      return some (request, claim.leaseId, procedures[request.id]?)
    | .claim (.error .unavailable) => claimFirst procedures rest
    | .claim (.error error) => hindered none (brokerErrorText error)
    | _ => unexpected

def proceduresOf (requests : List ApprovalRequest) : Program (BTreeMap String ProcedureStep) :=
  fun w => (.ok (w.broker.procedures requests), w)

def pollAndClaimStep : Program (Option (ApprovalRequest × Nat × Option ProcedureStep)) := do
  match ← ask s .pending with
  | .requests (.ok requests) =>
    let procedures ← proceduresOf requests
    claimFirst s procedures requests
  | .requests (.error error) => hindered none (brokerErrorText error)
  | _ => unexpected

end Client

end NixSecrets.Manager
