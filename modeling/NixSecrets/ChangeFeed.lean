import NixSecrets.StoreVersions

namespace NixSecrets.Inventory

inductive BackendEvent
  | secretChanged (path : String) (set : Bool)
  | publicInfoChanged (sharedId : String) (set : Bool)
  | approvalRequested (request : ApprovalRequest)
  | profilesChanged
  deriving DecidableEq, Repr

def publicInfoEvent (schema : Schema) (path : SecretPath) (set : Bool) :
    Checked SchemaError (Option BackendEvent) :=
  match schema.leaf path with
  | .ok (.stored _ spec) => .ok (spec.sharedPublicId.map (.publicInfoChanged · set))
  | .ok _ | .error (.refused _) => .ok none
  | .error .panicked => .panic

/-- What is published if the operation succeeds; it is made up before the store is asked. -/
def eventAfterSuccess (schema : Schema) : StoreOp → Checked SchemaError (Option BackendEvent)
  | .set path _ | .setIfVersion path _ _ => .ok (some (.secretChanged path.display true))
  | .remove path | .removeIfVersion path _ => .ok (some (.secretChanged path.display false))
  | .setPublicInfoIfVersion path _ _ => publicInfoEvent schema path true
  | .removePublicInfoIfVersion path _ => publicInfoEvent schema path false
  | _ => .ok none

def feedCapacity : Nat := 64

/-- A subscription with everything ever sent to it. `listed` says that the feed still has
its sender, `alive` that the thread which passes the events on runs. -/
structure Subscriber where
  sent : List BackendEvent := []
  received : Nat := 0
  listed : Bool := true
  alive : Bool := true
  deriving DecidableEq

namespace Subscriber

def connected (subscriber : Subscriber) : Bool := subscriber.listed && subscriber.alive

/-- A subscriber that hung up or whose channel is full is dropped. -/
def offer (event : BackendEvent) (subscriber : Subscriber) : Subscriber :=
  if ¬ subscriber.listed then subscriber
  else if subscriber.alive ∧ subscriber.sent.length - subscriber.received < feedCapacity then
    { subscriber with sent := subscriber.sent ++ [event] }
  else { subscriber with listed := false }

def receive (written : Bool) (subscriber : Subscriber) : Subscriber :=
  { subscriber with received := subscriber.received + 1, alive := written }

end Subscriber

/-- The store, the connections whose request is done and whose event is not yet published,
and the subscriptions. -/
structure FeedState where
  disk : StoreDisk := {}
  publishing : List (Nat × BackendEvent) := []
  subscribers : List Subscriber := []
  deriving DecidableEq

inductive FeedStep
  | serve (client : Nat) (call : StoreCall)
  | other (client : Nat) (event : BackendEvent)
  | publish (client : Nat)
  | subscribe
  | receive (subscriber : Nat) (written : Bool)

def BackendEvent.isSecret : BackendEvent → Bool
  | .secretChanged _ _ => true
  | _ => false

namespace FeedState

variable (libs : Libraries)

def busy (s : FeedState) (client : Nat) : Bool := s.publishing.any (·.1 == client)

/-- A request on the store, up to the point where its event is to be published. -/
def serve (s : FeedState) (client : Nat) (call : StoreCall) : Option FeedState :=
  match eventAfterSuccess call.schema call.op with
  | .error _ => some s
  | .ok event =>
    match call.exec libs s.disk with
    | (.done _, disk) =>
      some { s with disk, publishing := s.publishing ++ event.toList.map (client, ·) }
    | (.failed _, disk) => some { s with disk }
    | (.crashed, _) => none

def publish (s : FeedState) (client : Nat) : Option FeedState :=
  match s.publishing.lookup client with
  | some event => some { s with
      publishing := s.publishing.erase (client, event)
      subscribers := s.subscribers.map (Subscriber.offer event) }
  | none => none

/-- One move of a thread of the backend; a crash ends the run. -/
def step (s : FeedState) : FeedStep → Option FeedState
  | .serve client call => if s.busy client then none else s.serve libs client call
  | .other client event =>
    if s.busy client ∨ event.isSecret then none
    else some { s with publishing := s.publishing ++ [(client, event)] }
  | .publish client => s.publish client
  | .subscribe => some { s with subscribers := s.subscribers ++ [{}] }
  | .receive k written =>
    match s.subscribers[k]? with
    | some subscriber =>
      if subscriber.alive ∧ subscriber.received < subscriber.sent.length then
        some { s with subscribers := s.subscribers.set k (subscriber.receive written) }
      else none
    | none => none

def run (s : FeedState) : List FeedStep → Option FeedState
  | [] => some s
  | step :: steps => (s.step libs step).bind fun s' => run s' steps

theorem run_append {s s' : FeedState} {steps steps' : List FeedStep}
    (h : s.run libs (steps ++ steps') = some s') :
    ∃ mid, s.run libs steps = some mid ∧ mid.run libs steps' = some s' := by
  induction steps generalizing s with
  | nil => exact ⟨s, rfl, h⟩
  | cons step steps ih =>
    obtain ⟨next, hstep, hrest⟩ := Option.bind_eq_some_iff.mp h
    obtain ⟨mid, hmid, hend⟩ := ih hrest
    exact ⟨mid, by rw [run, hstep]; exact hmid, hend⟩

end FeedState

/-- What a step does, with every guard it passed. -/
inductive FeedMove (libs : Libraries) (s : FeedState) : FeedStep → FeedState → Prop
  | panicked {client call} : FeedMove libs s (.serve client call) s
  | done {client call event reply}
      (he : eventAfterSuccess call.schema call.op = .ok event)
      (hd : (call.exec libs s.disk).1 = .done reply) :
      FeedMove libs s (.serve client call) { s with
        disk := (call.exec libs s.disk).2
        publishing := s.publishing ++ event.toList.map (client, ·) }
  | failed {client call error} (hf : (call.exec libs s.disk).1 = .failed error) :
      FeedMove libs s (.serve client call) { s with disk := (call.exec libs s.disk).2 }
  | other {client event} (he : event.isSecret = false) :
      FeedMove libs s (.other client event)
        { s with publishing := s.publishing ++ [(client, event)] }
  | publish {client event} (he : (client, event) ∈ s.publishing) :
      FeedMove libs s (.publish client) { s with
        publishing := s.publishing.erase (client, event)
        subscribers := s.subscribers.map (Subscriber.offer event) }
  | subscribe : FeedMove libs s .subscribe { s with subscribers := s.subscribers ++ [{}] }
  | receive {k written subscriber} (hk : s.subscribers[k]? = some subscriber)
      (ha : subscriber.alive = true) :
      FeedMove libs s (.receive k written)
        { s with subscribers := s.subscribers.set k (subscriber.receive written) }

theorem step_move {libs : Libraries} {s s' : FeedState} {step : FeedStep}
    (h : s.step libs step = some s') : FeedMove libs s step s' := by
  cases step with
  | serve client call =>
    simp only [FeedState.step] at h
    split at h
    next => cases h
    next =>
      unfold FeedState.serve at h
      split at h
      next => cases h; exact .panicked
      next event he =>
        split at h
        next reply disk hx =>
          cases h
          have hd : disk = (call.exec libs s.disk).2 := by rw [hx]
          rw [hd]
          exact .done he (by rw [hx])
        next error disk hx =>
          cases h
          have hd : disk = (call.exec libs s.disk).2 := by rw [hx]
          rw [hd]
          exact .failed (by rw [hx])
        next => cases h
  | other client event =>
    simp only [FeedState.step] at h
    split at h
    next => cases h
    next hn =>
      cases h
      exact .other (by simpa using fun he => hn (Or.inr he))
  | publish client =>
    simp only [FeedState.step, FeedState.publish] at h
    split at h
    next event he =>
      cases h
      obtain ⟨front, rest, hp, _⟩ := List.lookup_eq_some_iff.mp he
      exact .publish (by rw [hp]; simp)
    next => cases h
  | subscribe => cases h; exact .subscribe
  | receive k written =>
    simp only [FeedState.step] at h
    split at h
    next subscriber hk =>
      split at h
      next ha => cases h; exact .receive hk ha.1
      next => cases h
    next => cases h

end NixSecrets.Inventory
