import NixSecrets.KeyedOrder
import NixSecrets.ProcedureIds

namespace NixSecrets

/-- What a TUI is told about a procedure. -/
inductive ProcedureEvent
  | update (procedure : ProcedureStep)
  | ended (id : String) (exitCode : Option Int)
  deriving DecidableEq, Repr

namespace ProcedureEvent

def id : ProcedureEvent → String
  | .update procedure => procedure.id
  | .ended id _ => id

def isEnded : ProcedureEvent → Bool
  | .update _ => false
  | .ended _ _ => true

end ProcedureEvent

/-- An attached TUI: everything sent to its inbox, the registry as its thread read it after
attaching, and how many messages of the inbox it was written. -/
structure Viewer where
  attached : Bool := true
  inbox : List ProcedureEvent := []
  snapshot : Option (List ProcedureStep) := none
  written : Nat := 0
  deriving DecidableEq

def Viewer.delivered (viewer : Viewer) : List ProcedureEvent :=
  match viewer.snapshot with
  | none => []
  | some steps => steps.map ProcedureEvent.update ++ viewer.inbox.take viewer.written

def Viewer.offer (event : ProcedureEvent) (viewer : Viewer) : Viewer :=
  if viewer.attached then { viewer with inbox := viewer.inbox ++ [event] } else viewer

/-- The backend between two steps of its threads. `pending` holds what a thread changed in
the registry and has not broadcast yet, in the order of the changes; `serving` the
procedure that ends with the connection of a thread. -/
structure ProcedureFeed where
  registry : Procedures := {}
  pending : List (Nat × ProcedureEvent) := []
  serving : List (Nat × String) := []
  viewers : List Viewer := []

inductive ProcedureAct
  | call (thread : Nat) (call : ProcedureCall)
  | finish (thread : Nat) (exitCode : Option Int)
  | broadcast (thread : Nat)
  | attach
  | snapshot (session : Nat)
  | write (session : Nat)
  | leave (session : Nat)

def ProcedureOp.isFinish : ProcedureOp → Bool
  | .finish _ => true
  | _ => false

/-- The steps a call broadcasts: an annotated step is only shown with its prompt. -/
def announced (op : ProcedureOp) (reply : ProcedureReply) : Option ProcedureStep :=
  match op, reply with
  | .annotate _ _ _, _ => none
  | _, .begun step _ => some step
  | _, .stepped step => some step
  | _, _ => none

def begunId : ProcedureReply → Option String
  | .begun step _ => some step.id
  | _ => none

namespace ProcedureFeed

def busy (f : ProcedureFeed) (thread : Nat) : Bool := f.pending.any (·.1 == thread)

def serves (f : ProcedureFeed) (thread : Nat) : Bool := f.serving.any (·.1 == thread)

def call (f : ProcedureFeed) (thread : Nat) (call : ProcedureCall) : ProcedureFeed :=
  let (registry, reply) := f.registry.exec call
  { f with
    registry
    pending := f.pending ++ (announced call.op reply).toList.map fun step => (thread, .update step)
    serving := f.serving ++ (begunId reply).toList.map fun id => (thread, id) }

def setViewer (f : ProcedureFeed) (session : Nat) (change : Viewer → Option Viewer) :
    Option ProcedureFeed :=
  (f.viewers[session]?.bind change).map fun viewer =>
    { f with viewers := f.viewers.set session viewer }

/-- One step of a thread; `none` where the thread is not at such a step. -/
def step (f : ProcedureFeed) : ProcedureAct → Option ProcedureFeed
  | .call thread call =>
    if f.busy thread ∨ f.serves thread ∨ call.op.isFinish then none else some (f.call thread call)
  | .finish thread exitCode =>
    if f.busy thread then none
    else (f.serving.lookup thread).map fun id => { f with
      registry := f.registry.finish id
      pending := f.pending ++ [(thread, .ended id exitCode)]
      serving := f.serving.erase (thread, id) }
  | .broadcast thread => (f.pending.lookup thread).map fun event => { f with
      pending := f.pending.erase (thread, event)
      viewers := f.viewers.map (Viewer.offer event) }
  | .attach => some { f with viewers := f.viewers ++ [{}] }
  | .snapshot session => f.setViewer session fun viewer =>
    if viewer.attached ∧ viewer.snapshot = none then
      some { viewer with snapshot := some f.registry.snapshot }
    else none
  | .write session => f.setViewer session fun viewer =>
    if viewer.snapshot.isSome ∧ viewer.written < viewer.inbox.length then
      some { viewer with written := viewer.written + 1 }
    else none
  | .leave session => f.setViewer session fun viewer => some { viewer with attached := false }

def run (f : ProcedureFeed) : List ProcedureAct → Option ProcedureFeed
  | [] => some f
  | act :: acts => (f.step act).bind fun f' => run f' acts

/-- What was changed before the change a thread is about to broadcast, and still waits. -/
def earlier (f : ProcedureFeed) (thread : Nat) : List ProcedureEvent :=
  (f.pending.takeWhile (·.1 != thread)).map Prod.snd

/-- A step is broadcast before every later change of its procedure, and the counter of the
registry does not overflow. -/
def orderly (f : ProcedureFeed) : ProcedureAct → Bool
  | .call _ call => !call.op.isBegin || f.registry.next + 1 < 2 ^ 64
  | .broadcast thread => (f.pending.lookup thread).all fun event =>
    (f.earlier thread).all fun other => other.id ≠ event.id
  | _ => true

def orderlyRun (f : ProcedureFeed) : List ProcedureAct → Bool
  | [] => true
  | act :: acts => f.orderly act && (f.step act).all fun f' => orderlyRun f' acts

/-- Everything one step can do. -/
inductive Move (f : ProcedureFeed) : ProcedureAct → ProcedureFeed → Prop
  | call {thread : Nat} {call : ProcedureCall} (hop : call.op.isFinish = false) :
      f.Move (.call thread call) (f.call thread call)
  | finish {thread : Nat} {exitCode : Option Int} {id : String} (hserving : (thread, id) ∈ f.serving) :
      f.Move (.finish thread exitCode) { f with
        registry := f.registry.finish id
        pending := f.pending ++ [(thread, .ended id exitCode)]
        serving := f.serving.erase (thread, id) }
  | broadcast {thread : Nat} {event : ProcedureEvent} {front rest : List (Nat × ProcedureEvent)}
      (hpending : f.pending = front ++ (thread, event) :: rest)
      (hearlier : f.earlier thread = front.map Prod.snd)
      (hlookup : f.pending.lookup thread = some event) :
      f.Move (.broadcast thread) { f with
        pending := front ++ rest
        viewers := f.viewers.map (Viewer.offer event) }
  | attach : f.Move .attach { f with viewers := f.viewers ++ [{}] }
  | snapshot {session : Nat} {viewer : Viewer} (hv : f.viewers[session]? = some viewer)
      (hattached : viewer.attached = true) :
      f.Move (.snapshot session) { f with
        viewers := f.viewers.set session { viewer with snapshot := some f.registry.snapshot } }
  | write {session : Nat} {viewer : Viewer} (hv : f.viewers[session]? = some viewer) :
      f.Move (.write session) { f with
        viewers := f.viewers.set session { viewer with written := viewer.written + 1 } }
  | leave {session : Nat} {viewer : Viewer} (hv : f.viewers[session]? = some viewer) :
      f.Move (.leave session) { f with
        viewers := f.viewers.set session { viewer with attached := false } }

theorem setViewer_some {f f' : ProcedureFeed} {session : Nat} {change : Viewer → Option Viewer}
    (h : f.setViewer session change = some f') : ∃ viewer viewer',
      f.viewers[session]? = some viewer ∧ change viewer = some viewer' ∧
      f' = { f with viewers := f.viewers.set session viewer' } := by
  obtain ⟨viewer', hchange, rfl⟩ := Option.map_eq_some_iff.mp h
  obtain ⟨viewer, hv, hchange⟩ := Option.bind_eq_some_iff.mp hchange
  exact ⟨viewer, viewer', hv, hchange, rfl⟩

theorem step_move {f f' : ProcedureFeed} {act : ProcedureAct} (h : f.step act = some f') :
    f.Move act f' := by
  cases act with
  | call thread call =>
    simp only [ProcedureFeed.step] at h
    split at h
    next => cases h
    next hfree =>
      cases h
      exact .call (by simpa using fun hfinish => hfree (.inr (.inr hfinish)))
  | finish thread exitCode =>
    simp only [ProcedureFeed.step] at h
    split at h
    next => cases h
    next =>
      obtain ⟨id, hlookup, rfl⟩ := Option.map_eq_some_iff.mp h
      obtain ⟨front, rest, hserving, -⟩ := List.lookup_eq_some_iff.mp hlookup
      exact .finish (by rw [hserving]; simp)
  | broadcast thread =>
    obtain ⟨event, hlookup, rfl⟩ := Option.map_eq_some_iff.mp h
    obtain ⟨front, rest, hpending, hfront⟩ := List.lookup_eq_some_iff.mp hlookup
    have hother : ∀ entry ∈ front, (entry.1 != thread) = true := by
      intro entry he
      have hne := hfront entry he
      rw [bne_iff_ne] at hne ⊢
      exact hne.symm
    have hearlier : f.earlier thread = front.map Prod.snd := by
      rw [ProcedureFeed.earlier, hpending, List.takeWhile_append_of_pos hother]
      simp
    have hnot : (thread, event) ∉ front := by
      intro hmem
      simpa using hother _ hmem
    have herase : f.pending.erase (thread, event) = front ++ rest := by
      rw [hpending, List.erase_append_right _ hnot, List.erase_cons_head]
    rw [herase]
    exact .broadcast hpending hearlier hlookup
  | attach =>
    cases h
    exact .attach
  | snapshot session =>
    obtain ⟨viewer, viewer', hv, hchange, rfl⟩ := setViewer_some h
    split at hchange
    next hattached =>
      cases hchange
      exact .snapshot hv hattached.1
    next => cases hchange
  | write session =>
    obtain ⟨viewer, viewer', hv, hchange, rfl⟩ := setViewer_some h
    split at hchange
    next =>
      cases hchange
      exact .write hv
    next => cases hchange
  | leave session =>
    obtain ⟨viewer, viewer', hv, hchange, rfl⟩ := setViewer_some h
    cases hchange
    exact .leave hv

end ProcedureFeed

end NixSecrets
