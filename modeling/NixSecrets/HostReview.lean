import Mathlib.Algebra.Order.Ring.Nat
import Mathlib.Data.List.Basic

namespace NixSecrets.HostReview

/-- Scroll offsets have 16 bits. -/
def maxScroll : Nat := 65535

inductive NoticeSeverity
  | info | failure
  deriving DecidableEq, Repr

structure Notice where
  text : String
  severity : NoticeSeverity
  deriving DecidableEq, Repr

/-- A review is a deployment request with host mutations; of the other dialogs only counts
which input they take. -/
inductive Mode
  | browse
  | review (token : Option String)
  | approval
  | other (passesThrough arrows edits : Bool)
  deriving DecidableEq, Repr

def Mode.isApproval : Mode → Bool
  | .review _ | .approval => true
  | .browse | .other _ _ _ => false

def Mode.token : Mode → Option String
  | .review token => token
  | .browse | .approval | .other _ _ _ => none

/-- A key that dismissed a notice keeps its usual meaning here. -/
def Mode.passesThrough : Mode → Bool
  | .browse => true
  | .review _ | .approval => false
  | .other passesThrough _ _ => passesThrough

def Mode.edits : Mode → Bool
  | .other _ _ edits => edits
  | .browse | .review _ | .approval => false

structure Model where
  mode : Mode := .browse
  message : Option Notice := none
  notifications : List Notice := []
  /-- A secret request is shown, which takes every key. -/
  prompt : Bool := false
  modalScroll : Nat := 0
  scrollLimit : Nat := maxScroll
  hostReview : Option (String × Bool) := none
  hostReviewRendered : Option String := none
  deriving DecidableEq, Repr

/-- A dialog body at a window size: the line that each of its rows belongs to, and how many rows
are displayed at once. -/
structure Layout where
  rows : List Nat
  height : Nat
  deriving DecidableEq, Repr

def Layout.limit (layout : Layout) : Nat := min (layout.rows.length - layout.height) maxScroll

/-- The size of the window: what it makes of the review of each batch, and how far the other
dialogs can scroll that may be drawn. -/
structure Window where
  empty : Bool
  review : String → Layout
  notice : Nat
  dialog : Option Nat
  prompt : Option Nat

/-- A review as a render displayed it. -/
structure Frame where
  batch : String
  layout : Layout
  scroll : Nat
  deriving DecidableEq, Repr

def Frame.top (frame : Frame) : Nat := min frame.scroll frame.layout.limit

def Frame.displayed (frame : Frame) : List Nat := (frame.layout.rows.drop frame.top).take frame.layout.height

inductive Key
  | up | down | yes | no | escape | enter | other
  deriving DecidableEq, Repr

def Key.isArrow : Key → Bool
  | .up | .down => true
  | .yes | .no | .escape | .enter | .other => false

/-- What the writer makes of a decision. -/
inductive Reply
  | next (mode : Mode)
  | done
  | queued
  | failed (message : String)
  deriving DecidableEq, Repr

namespace Model

def pushNotice (m : Model) (notice : Notice) : Model :=
  if m.message = some notice ∨ m.notifications.getLast? = some notice then m
  else match m.message with
    | some displaced =>
      if m.mode = .browse ∧ notice.severity = .failure ∧ displaced.severity = .info then
        { m with message := some notice, notifications := displaced :: m.notifications }
      else { m with notifications := m.notifications ++ [notice] }
    | none =>
      if m.mode.isApproval ∨ notice.severity = .info ∧ m.mode.edits then
        { m with notifications := m.notifications ++ [notice] }
      else { m with message := some notice }

/-- Another dialog may open right after, see `showPending`. -/
def acknowledge (m : Model) : Model :=
  { m with message := m.notifications.head?, notifications := m.notifications.tail, modalScroll := 0 }

/-- `show_pending_approval`, where `mode` waits to be shown. -/
def showPending (m : Model) (mode : Mode) : Model :=
  if m.mode = .browse then
    { m with mode, message := none, notifications := m.message.toList ++ m.notifications }
  else m

/-- `own` says that the open deployment request is of the procedure in the foreground. An
unfinished review is read again from its top once it is restored. -/
def minimise (m : Model) (own : Bool) : Model :=
  if own ∧ m.mode.isApproval then
    { m with
      mode := .browse
      hostReview := m.hostReview.filter fun review => review.2 || m.mode.token != some review.1
      modalScroll := 0 }
  else { m with modalScroll := 0 }

def restore (m : Model) : Model := { m with modalScroll := 0 }

def scrolled (m : Model) (scroll : Nat) (down : Bool) : Nat :=
  let scroll := min scroll m.scrollLimit
  if down then min (min (scroll + 1) maxScroll) m.scrollLimit else scroll - 1

/-- The offset counts only for the batch it belongs to. -/
def reviewScroll (m : Model) (batch : String) : Nat :=
  if m.hostReview.map Prod.fst = some batch then m.modalScroll else 0

def hostReviewAtEnd (m : Model) (batch : String) : Bool :=
  m.hostReviewRendered = some batch && m.scrollLimit != maxScroll && m.scrollLimit ≤ m.reviewScroll batch

def hostReviewSeen (m : Model) (batch : String) : Bool :=
  m.hostReview = some (batch, true) || m.hostReviewAtEnd batch

/-- A batch that the review was not about is read from its top. -/
def openReview (m : Model) (batch : String) : Model :=
  if m.hostReview.map Prod.fst = some batch then m
  else { m with hostReview := some (batch, false), modalScroll := 0 }

def scrollReview (m : Model) (key : Key) : Model :=
  if key.isArrow then { m with modalScroll := m.scrolled m.modalScroll (key = .down) } else m

def markReview (m : Model) (batch : String) : Model :=
  if m.hostReviewAtEnd batch then { m with hostReview := some (batch, true) } else m

/-- The part of a key in a review that comes before the decision. -/
def readReview (m : Model) (batch : String) (key : Key) : Model :=
  ((m.openReview batch).scrollReview key).markReview batch

/-- Takes the decision to the writer; the batch that was sent, if one was. -/
def decide (m : Model) (token : Option String) (accepted : Bool) (reply : Reply) : Model × Option (Bool × String) :=
  match token.filter (· ≠ "") with
  | none =>
    ({ { m with mode := .browse }.pushNotice
        ⟨"This replacement review has no batch identifier; no values were changed.", .failure⟩ with
      mode := .review token }, none)
  | some batch =>
    let m := { m with mode := .browse }
    match reply with
    | .next mode => ({ m with mode }, some (accepted, batch))
    | .done | .queued => (m, some (accepted, batch))
    | .failed message =>
      ({ m.pushNotice ⟨message, .failure⟩ with mode := .review token }, some (accepted, batch))

def hostMutations (m : Model) (token : Option String) (key : Key) (reply : Reply) :
    Model × Option (Bool × String) :=
  let batch := token.getD ""
  let m := m.readReview batch key
  match key with
  | .yes => if m.hostReviewSeen batch then m.decide token true reply else (m, none)
  | .no | .escape => m.decide token false reply
  | .up | .down | .enter | .other => (m, none)

def noticeInput (m : Model) (severity : NoticeSeverity) (key : Key) : Model :=
  match severity with
  | .info => m.acknowledge
  | .failure =>
    if key = .enter then m.acknowledge
    else if key.isArrow then { m with modalScroll := m.scrolled m.modalScroll (key = .down) }
    else m

/-- A key; `cursor` is the row the cursor of a deployment request moves to. -/
def reduce (m : Model) (key : Key) (cursor : Nat) (reply : Reply) : Model × Option (Bool × String) :=
  if m.prompt then (m, none)
  else match m.message with
    | some notice => (m.noticeInput notice.severity key, none)
    | none =>
      match m.mode with
      | .review token => m.hostMutations token key reply
      | .approval => (if key.isArrow then { m with modalScroll := cursor - 3 } else m, none)
      | .other _ true _ =>
        (if key.isArrow then { m with modalScroll := m.scrolled m.modalScroll (key = .down) } else m, none)
      | .browse | .other _ false _ => (m, none)

/-- The batch of the review that takes the next key, if one does. -/
def reads (m : Model) : Option (Option String) :=
  if m.prompt ∨ m.message.isSome then none
  else match m.mode with
    | .review token => some token
    | .browse | .approval | .other _ _ _ => none

/-- The scroll limit by which a key finds the end of a batch on screen, if it does. -/
def counts (m : Model) (key : Key) : Option (String × Nat) :=
  m.reads.bind fun token =>
    let batch := token.getD ""
    if (m.readReview batch key).hostReviewAtEnd batch then some (batch, m.scrollLimit) else none

def measureHostReview (m : Model) (window : Window) : Model :=
  match m.mode with
  | .review (some batch) =>
    { m with scrollLimit := (window.review batch).limit, hostReviewRendered := some batch }
  | .review none | .browse | .approval | .other _ _ _ => m

/-- Only dialogs that are no selector record how far they scroll. -/
def drawDialog (m : Model) (window : Window) (limit : Option Nat) : Model :=
  if window.empty then m else { m with scrollLimit := limit.getD m.scrollLimit }

def renderModeModal (m : Model) (window : Window) : Model × Option Frame :=
  match m.mode with
  | .browse => (m, none)
  | .review token =>
    let batch := token.getD ""
    let scroll := if token.isSome then m.reviewScroll batch else m.modalScroll
    (m.drawDialog window (some (window.review batch).limit),
      if window.empty then none else some ⟨batch, window.review batch, scroll⟩)
  | .approval | .other _ _ _ => (m.drawDialog window window.dialog, none)

def renderModal (m : Model) (window : Window) : Model × Option Frame :=
  match m.message with
  | some notice =>
    if notice.severity = .failure ∨ !m.mode.passesThrough then (m.drawDialog window (some window.notice), none)
    else m.renderModeModal window
  | none => m.renderModeModal window

/-- A secret request is drawn above everything else. -/
def render (m : Model) (window : Window) : Model × Option Frame :=
  let (m, frame) := (m.measureHostReview window).renderModal window
  if m.prompt then (m.drawDialog window window.prompt, none) else (m, frame)

end Model

/-- What happens to the screen. A change of mode stands for the code that opens and closes
dialogs. -/
inductive Event
  | render (window : Window)
  | key (key : Key) (cursor : Nat) (reply : Reply)
  | notice (notice : Notice)
  | showPending (mode : Mode)
  | becomes (mode : Mode)
  | prompt (shown : Bool)
  | minimise (own : Bool)
  | restore

/-- The model with every review that was displayed, every decision that was sent and every limit
that counted, newest first. `onScreen` is the review that nothing has happened to since it was
displayed; `ahead` says that the last key scrolled to the end of a batch and no render followed. -/
structure World where
  model : Model := {}
  frames : List Frame := []
  sent : List (Bool × String) := []
  counted : List (String × Nat) := []
  onScreen : Option Frame := none
  ahead : Bool := false

namespace World

def change (w : World) (m : Model) : World := { w with model := m, onScreen := none }

def step (w : World) : Event → World
  | .render window =>
    let (m, frame) := w.model.render window
    { w with model := m, frames := frame.toList ++ w.frames, onScreen := frame, ahead := false }
  | .key key cursor reply =>
    let (m, sent) := w.model.reduce key cursor reply
    { w.change m with
      sent := sent.toList ++ w.sent
      counted := (w.model.counts key).toList ++ w.counted
      ahead := key.isArrow && m.hostReview.any (·.2) && m.hostReview != w.model.hostReview }
  | .notice notice => w.change (w.model.pushNotice notice)
  | .showPending mode => w.change (w.model.showPending mode)
  | .becomes mode => w.change { w.model with mode }
  | .prompt shown => w.change { w.model with prompt := shown }
  | .minimise own => w.change (w.model.minimise own)
  | .restore => w.change w.model.restore

def run (w : World) (events : List Event) : World := events.foldl step w

end World

end NixSecrets.HostReview
