import NixSecrets.Attention

namespace NixSecrets.Attention

/-- A method call on the notification daemon. -/
inductive BusCall
  | notify (replaces : Nat) (summary body : List Char) (desktopEntry : Option String)
  | close (id : Nat)

/-- The session bus: whether it opens, and what it makes of a call while these notifications are up: the id
in the reply, if it holds one, or an error, and those that are up then. -/
structure Bus where
  opens : Nat → Bool
  call : Nat → BusCall → List Nat → Except String (Option Nat) × List Nat

/-- The thread that sends the calls, and the ids of its notifications that are up. -/
structure Desktop where
  connected : Bool := false
  shown : BTreeMap String Nat := ∅
  up : List Nat := []
  tick : Nat := 0

namespace Desktop

section

variable (bus : Bus) (desktopEntry : Option String)

def connect (d : Desktop) : Desktop :=
  if d.connected then d else { d with connected := bus.opens d.tick, tick := d.tick + 1 }

def call (d : Desktop) (message : BusCall) : Except String (Option Nat) × Desktop :=
  let reply := bus.call d.tick message d.up
  (reply.1, { d with up := reply.2, tick := d.tick + 1 })

/-- Whether the call succeeded, and what it leaves. -/
def apply (d : Desktop) : DesktopCall → Bool × Desktop
  | .notify key summary body =>
    let reply := d.call bus (.notify (d.shown[key]?.getD 0) summary body desktopEntry)
    match reply.1 with
    | .ok (some id) => (true, { reply.2 with shown := reply.2.shown.insert key id })
    | .ok none => (false, reply.2)
    | .error _ => (false, reply.2)
  | .close key =>
    match d.shown[key]? with
    | none => (true, d)
    | some id =>
      -- The key goes before the call is made: a close that fails is not made again.
      let reply := { d with shown := d.shown.erase key }.call bus (.close id)
      (reply.1.toOption.isSome, reply.2)

def attempt (d : Desktop) (message : DesktopCall) : Nat → Desktop
  | 0 => d
  | tries + 1 =>
    let d := d.connect bus
    if d.connected then
      let tried := d.apply bus desktopEntry message
      if tried.1 then tried.2 else attempt { tried.2 with connected := false } message tries
    else d

/-- One reconnect for each call. -/
def run (d : Desktop) (calls : List DesktopCall) : Desktop :=
  calls.foldl (fun d message => d.attempt bus desktopEntry message 2) d

end

end Desktop

/-- A session bus that is always there, with a daemon that does as documented: it answers a notification with its
id, a notification that is replaced or closed is up no more, and nobody else raises one of ours. Notifications may
go at any time, and closing one that is gone may be an error. -/
structure Bus.Documented (bus : Bus) : Prop where
  opens : ∀ tick, bus.opens tick = true
  notify : ∀ tick replaces summary body entry up, ∃ id,
    (bus.call tick (.notify replaces summary body entry) up).1 = .ok (some id) ∧
      ∀ i ∈ (bus.call tick (.notify replaces summary body entry) up).2, i = id ∨ i ∈ up ∧ i ≠ replaces
  close : ∀ tick id up, ∀ i ∈ (bus.call tick (.close id) up).2, i ∈ up ∧ i ≠ id

/-- Every notification that is up is the one remembered for a key of these. -/
def Desktop.Held (d : Desktop) (keys : List String) : Prop :=
  ∀ i ∈ d.up, ∃ key ∈ keys, d.shown[key]? = some i

namespace Desktop

variable {bus : Bus} (desktopEntry : Option String) {d : Desktop} {keys : List String}

theorem Held.connect (bus : Bus) (h : d.Held keys) : (d.connect bus).Held keys := by
  unfold Desktop.connect
  split
  · exact h
  · exact h

theorem connected_of_documented (hbus : bus.Documented) (d : Desktop) : (d.connect bus).connected = true := by
  unfold Desktop.connect
  split
  next hconnected => exact hconnected
  next => exact hbus.opens d.tick

theorem Held.notify (hbus : bus.Documented) (h : d.Held keys) (key : String) (summary body : List Char) :
    (d.apply bus desktopEntry (.notify key summary body)).1 = true ∧
      (d.apply bus desktopEntry (.notify key summary body)).2.Held (key :: keys) := by
  obtain ⟨id, hreply, hup⟩ :=
    hbus.notify d.tick (d.shown[key]?.getD 0) summary body desktopEntry d.up
  simp only [apply, call, hreply, true_and]
  intro i hi
  rcases hup i hi with rfl | ⟨hold, hkept⟩
  · exact ⟨key, List.mem_cons_self, Std.ExtTreeMap.getElem?_insert_self⟩
  · obtain ⟨other, hother, hshown⟩ := h i hold
    have hne : key ≠ other := by
      rintro rfl
      rw [hshown] at hkept
      exact hkept rfl
    refine ⟨other, List.mem_cons_of_mem key hother, ?_⟩
    rw [Std.ExtTreeMap.getElem?_insert, if_neg (by simpa using hne)]
    exact hshown

/-- A close takes the key away whatever the daemon answers. -/
theorem Held.close (hbus : bus.Documented) (h : d.Held keys) (key : String) :
    (d.apply bus desktopEntry (.close key)).2.Held (keys.filter fun other => other ≠ key) := by
  cases hkey : d.shown[key]? with
  | none =>
    simp only [apply, hkey]
    intro i hi
    obtain ⟨other, hother, hshown⟩ := h i hi
    have hne : other ≠ key := by
      rintro rfl
      rw [hkey] at hshown
      cases hshown
    exact ⟨other, List.mem_filter.mpr ⟨hother, by simpa using hne⟩, hshown⟩
  | some id =>
    simp only [apply, hkey, call]
    intro i hi
    obtain ⟨hold, hkept⟩ := hbus.close d.tick id d.up i hi
    obtain ⟨other, hother, hshown⟩ := h i hold
    have hne : other ≠ key := by
      rintro rfl
      rw [hkey] at hshown
      exact hkept (Option.some.inj hshown).symm
    refine ⟨other, List.mem_filter.mpr ⟨hother, by simpa using hne⟩, ?_⟩
    rw [Std.ExtTreeMap.getElem?_erase, if_neg (by simpa using hne.symm)]
    exact hshown

theorem Held.closing (hbus : bus.Documented) {key : String} (hgone : ∀ other ∈ keys, other ≠ key) (tries : Nat)
    (h : d.Held keys) : (d.attempt bus desktopEntry (.close key) tries).Held keys := by
  induction tries generalizing d with
  | zero => exact h
  | succ tries ih =>
    have hclosed := (h.connect bus).close desktopEntry hbus key
    have hsame : keys.filter (fun other => other ≠ key) = keys :=
      List.filter_eq_self.mpr fun other hother => decide_eq_true (hgone other hother)
    rw [hsame] at hclosed
    rw [Desktop.attempt, if_pos (connected_of_documented hbus d)]
    dsimp only
    split
    · exact hclosed
    · exact ih hclosed

theorem Held.attempt (hbus : bus.Documented) (h : d.Held keys) (message : DesktopCall) (tries : Nat) :
    (d.attempt bus desktopEntry message (tries + 1)).Held (outstanding [message] keys) := by
  have hconnected := h.connect bus
  rw [Desktop.attempt, if_pos (connected_of_documented hbus d)]
  cases message with
  | notify key summary body =>
    obtain ⟨hdone, hheld⟩ := hconnected.notify desktopEntry hbus key summary body
    dsimp only
    rw [if_pos hdone]
    exact hheld
  | close key =>
    have hclosed := hconnected.close desktopEntry hbus key
    dsimp only
    split
    · exact hclosed
    · -- The connection is dropped, and the next attempt finds the key gone.
      refine Held.closing desktopEntry hbus (fun other hother => ?_) tries hclosed
      exact of_decide_eq_true (List.mem_filter.mp hother).2

theorem Held.run (hbus : bus.Documented) (h : d.Held keys) (calls : List DesktopCall) :
    (d.run bus desktopEntry calls).Held (outstanding calls keys) := by
  induction calls generalizing d keys with
  | nil => exact h
  | cons message calls ih => exact ih (h.attempt desktopEntry hbus message 1)

end Desktop

end NixSecrets.Attention
