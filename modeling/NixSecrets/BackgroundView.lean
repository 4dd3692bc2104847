import Mathlib.Logic.Relation
import NixSecrets.FeedAgreement
import NixSecrets.InventoryRows

namespace NixSecrets.Inventory

/-- Where the listener stands: it waits for a change, is about to list the values, or has listed them. -/
inductive ListenStage
  | waiting
  | refreshing
  | listed
  | ended
  deriving DecidableEq

/-- The feed and one listener of it: how many changes it took, the values it listed last, and the rows it passed
on last. -/
structure ListenState where
  feed : FeedState
  stage : ListenStage
  taken : Nat
  listing : BTreeSet String
  rows : Option (List Tui.Row)

def FeedState.listed (s : FeedState) : BTreeSet String := .ofList s.disk.document.secrets.keys compare

/-- How many changes reached the listener. -/
def Subscriber.delivered (subscriber : Subscriber) : Nat :=
  if subscriber.alive then subscriber.received else subscriber.received - 1

/-- What the listener does about a change; the others only tell the view of approvals or profiles. -/
def BackendEvent.stage : BackendEvent → ListenStage
  | .secretChanged _ _ | .publicInfoChanged _ _ => .refreshing
  | .approvalRequested _ | .profilesChanged => .waiting

/-- What was listed last says whether the record is there, unless it is about to be listed anew. -/
def Seen (identifier : String) (s : ListenState) : Prop :=
  s.stage ≠ .refreshing → s.stage ≠ .ended → s.listing.contains identifier = s.feed.stored identifier

/-- The listener knows of the record, or a change of it is still to come. -/
structure Current (schema : Schema) (identifier : String) (k : Nat) (s : ListenState) : Prop where
  subscribed : ∃ subscriber, s.feed.subscribers[k]? = some subscriber ∧ s.taken ≤ subscriber.sent.length
  known : Announced identifier k s.taken s.feed ∨ Seen identifier s
  passed : s.stage = .waiting → ∃ publicIds, s.rows = some (Tui.rowsWithPublic s.listing publicIds schema)

section

variable {libs : Libraries} {schema : Schema} {identifier : String} {k : Nat} {s s' : ListenState}

end

def listening : ListenState := ⟨{ subscribers := [{}] }, .refreshing, 0, ∅, none⟩

end NixSecrets.Inventory
