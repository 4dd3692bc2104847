import Mathlib.Logic.Function.Basic
import Mathlib.Logic.Relation

namespace NixSecrets

open Relation

/-- What a path names: a socket of the user whose processes share the path, or anything else. -/
structure PathNode where
  inode : Nat
  own : Bool
deriving DecidableEq, Repr

/-- A lock file, the path it guards, and the sockets that processes listen on.
Processes and inodes are numbers, and no inode number is given out twice. -/
structure PathSockets where
  lockFile : Bool := false
  exclusive : Option Nat := none
  shared : List Nat := []
  node : Option PathNode := none
  listener : Nat → Option Nat := fun _ => none
  fresh : Nat := 0

namespace PathSockets

/-- The system calls of a process; `ask` sends a request over a connection to
the socket of that inode, and `work` is anything away from the path. -/
inductive Call
  | openLock
  | lockExclusive
  | lockShared
  | closeLock
  | stat
  | connect
  | ask (inode : Nat)
  | chmod
  | remove
  | bind
  | work
deriving DecidableEq, Repr

inductive Answer
  | done
  | wouldBlock
  | absent
  | refused
  | broken
  | inUse
  | failed
  | found (node : PathNode)
  | connected (inode : Nat)
  | bound (inode : Nat)
deriving DecidableEq, Repr

/-- A process closes its handle of the lock file. -/
def unlock (k : PathSockets) (p : Nat) : PathSockets :=
  { k with
    exclusive := if k.exclusive = some p then none else k.exclusive
    shared := k.shared.filter (· ≠ p) }

/-- A process ends: its locks are dropped and its sockets are closed, and the path keeps its node. -/
def exit (k : PathSockets) (p : Nat) : PathSockets :=
  { k.unlock p with listener := fun inode => if k.listener inode = some p then none else k.listener inode }

/-- What the kernel may answer a process, and what it does. A call may fail and change nothing. -/
inductive Serves (answering : Nat → Prop) (p : Nat) (k : PathSockets) :
    Call → Answer → PathSockets → Prop
  | opened : Serves answering p k .openLock .done { k with lockFile := true }
  | locked (hexclusive : k.exclusive = none) (hshared : k.shared = []) :
      Serves answering p k .lockExclusive .done { k with exclusive := some p }
  | busy (h : k.exclusive ≠ none ∨ k.shared ≠ []) :
      Serves answering p k .lockExclusive .wouldBlock k
  | sharing (hfile : k.lockFile = true) (h : k.exclusive = none) :
      Serves answering p k .lockShared .done { k with shared := p :: k.shared }
  | held (h : k.exclusive ≠ none) : Serves answering p k .lockShared .wouldBlock k
  | noLock (h : k.lockFile = false) : Serves answering p k .lockShared .absent k
  | closed : Serves answering p k .closeLock .done (k.unlock p)
  | nothing (h : k.node = none) : Serves answering p k .stat .absent k
  | shown {node} (h : k.node = some node) : Serves answering p k .stat (.found node) k
  | unreached (h : k.node = none) : Serves answering p k .connect .absent k
  | reached {node q} (h : k.node = some node) (hown : node.own = true)
      (hlistener : k.listener node.inode = some q) :
      Serves answering p k .connect (.connected node.inode) k
  | stale {node} (h : k.node = some node) (hlistener : k.listener node.inode = none) :
      Serves answering p k .connect .refused k
  | answered {inode q} (hlistener : k.listener inode = some q) (h : answering q) :
      Serves answering p k (.ask inode) .done k
  | broken {inode} : Serves answering p k (.ask inode) .broken k
  | unnamed (h : k.node = none) : Serves answering p k .chmod .absent k
  | moded {node} (h : k.node = some node) : Serves answering p k .chmod .done k
  | gone (h : k.node = none) : Serves answering p k .remove .absent k
  | removed {node} (h : k.node = some node) :
      Serves answering p k .remove .done { k with node := none }
  | inUse {node} (h : k.node = some node) : Serves answering p k .bind .inUse k
  | bound (h : k.node = none) : Serves answering p k .bind (.bound k.fresh)
      { k with
        node := some ⟨k.fresh, true⟩
        listener := Function.update k.listener k.fresh (some p)
        fresh := k.fresh + 1 }
  | worked : Serves answering p k .work .done k
  | failed {call} (h : call ≠ .closeLock) : Serves answering p k call .failed k

/-- A program: in each state the call it makes, and what it does with the
answer; `none` ends the process. -/
structure Program where
  State : Type
  starts : State → Prop
  call : State → Call
  next : State → Answer → Option State
  answering : State → Bool

/-- The kernel and the running processes of a program. -/
structure World (P : Program) where
  kernel : PathSockets
  process : Nat → Option P.State

variable {P : Program}

def World.answering (w : World P) (p : Nat) : Prop :=
  ∃ st, w.process p = some st ∧ P.answering st = true

/-- Where a process is after the kernel answered it. -/
def World.after (w : World P) (p : Nat) (k : PathSockets) : Option P.State → World P
  | some st => ⟨k, Function.update w.process p (some st)⟩
  | none => ⟨k.exit p, Function.update w.process p none⟩

/-- What can happen: a process makes a call, one starts, one ends for whatever
reason, and anybody removes the path or puts something else there. -/
inductive Move
  | call (p : Nat) (answer : Answer)
  | start (p : Nat)
  | ends (p : Nat)
  | unlink
  | place

inductive Step (w : World P) : Move → World P → Prop
  | call {p st answer k} (hp : w.process p = some st)
      (hk : Serves w.answering p w.kernel (P.call st) answer k) :
      Step w (.call p answer) (w.after p k (P.next st answer))
  | start {p st} (hp : w.process p = none) (hst : P.starts st) :
      Step w (.start p) (w.after p w.kernel (some st))
  | ends {p st} (hp : w.process p = some st) : Step w (.ends p) (w.after p w.kernel none)
  | unlink : Step w .unlink { w with kernel := { w.kernel with node := none } }
  | place (h : w.kernel.node = none) : Step w .place
      { w with kernel := { w.kernel with
        node := some ⟨w.kernel.fresh, false⟩
        fresh := w.kernel.fresh + 1 } }

/-- A step whose move is among those allowed. -/
def StepIn (allowed : Move → Prop) (w w' : World P) : Prop :=
  ∃ move, allowed move ∧ Step w move w'

/-- No process runs yet; the path may hold what an earlier run left. -/
structure World.Starts (w : World P) : Prop where
  exclusive : w.kernel.exclusive = none
  shared : w.kernel.shared = []
  listener : w.kernel.listener = fun _ => none
  process : w.process = fun _ => none
  node : ∀ node, w.kernel.node = some node → node.inode < w.kernel.fresh

def World.Reachable (w : World P) : Prop :=
  ∃ w₀ : World P, w₀.Starts ∧ ReflTransGen (StepIn fun _ => True) w₀ w

theorem World.Reachable.step {w w' : World P} {move : Move} (h : w.Reachable) (hs : Step w move w') :
    w'.Reachable := by
  obtain ⟨w₀, hw₀, hrun⟩ := h
  exact ⟨w₀, hw₀, hrun.tail ⟨move, trivial, hs⟩⟩

/-- What holds at the start and is kept by every step holds in every reachable world. -/
theorem World.Reachable.invariant {I : World P → Prop} (hstart : ∀ w : World P, w.Starts → I w)
    (hstep : ∀ {w w' : World P} {move}, I w → Step w move w' → I w') {w : World P} (h : w.Reachable) :
    I w := by
  obtain ⟨w₀, hw₀, hrun⟩ := h
  induction hrun with
  | refl => exact hstart w₀ hw₀
  | tail _ hs ih =>
    obtain ⟨move, -, hs⟩ := hs
    exact hstep ih hs

/-- Whether a process holds the exclusive lock after a call. -/
def heldAfter (held : Bool) : Call → Answer → Bool
  | .lockExclusive, .done => true
  | .closeLock, .done => false
  | _, _ => held

/-- The socket a process listens on after a call. -/
def boundAfter (bound : Option Nat) : Call → Answer → Option Nat
  | .bind, .bound inode => some inode
  | _, _ => bound

/-- A program that binds a socket only while it holds the exclusive lock, and
keeps the lock for as long as the socket. -/
structure Disciplined (P : Program) where
  holds : P.State → Bool
  bound : P.State → Option Nat
  starts : ∀ {st}, P.starts st → holds st = false ∧ bound st = none
  next : ∀ {st answer st'}, P.next st answer = some st' →
    holds st' = heldAfter (holds st) (P.call st) answer ∧
      bound st' = boundAfter (bound st) (P.call st) answer
  binding : ∀ {st}, P.call st = .bind → holds st = true ∧ bound st = none
  closing : ∀ {st}, P.call st = .closeLock → bound st = none

theorem exit_exclusive {k : PathSockets} {p q : Nat} :
    (k.exit p).exclusive = some q ↔ q ≠ p ∧ k.exclusive = some q := by
  by_cases h : k.exclusive = some p
  · have hnone : (k.exit p).exclusive = none := by simp [exit, unlock, h]
    rw [hnone, h]
    constructor
    · intro hq
      cases hq
    · rintro ⟨hne, hq⟩
      exact absurd (Option.some.inj hq).symm hne
  · have hsame : (k.exit p).exclusive = k.exclusive := by simp [exit, unlock, h]
    rw [hsame]
    refine ⟨fun hq => ⟨?_, hq⟩, fun hq => hq.2⟩
    rintro rfl
    exact h hq

theorem exit_listener {k : PathSockets} {p q inode : Nat} :
    (k.exit p).listener inode = some q ↔ q ≠ p ∧ k.listener inode = some q := by
  by_cases h : k.listener inode = some p
  · simp only [exit, h, ↓reduceIte]
    constructor
    · intro hq
      cases hq
    · rintro ⟨hne, hq⟩
      exact absurd (Option.some.inj hq).symm hne
  · simp only [exit, unlock, h, ↓reduceIte]
    refine ⟨fun hq => ⟨?_, hq⟩, fun hq => hq.2⟩
    rintro rfl
    exact h hq

section

variable {answering : Nat → Prop} {p : Nat} {k k' : PathSockets} {call : Call} {answer : Answer}

/-- A call moves the exclusive lock only to and from its caller. -/
theorem Serves.exclusive_other (h : Serves answering p k call answer k') {q : Nat} (hq : q ≠ p) :
    k'.exclusive = some q ↔ k.exclusive = some q := by
  cases h with
  | locked hexclusive =>
    have hne : ¬ p = q := fun h => hq h.symm
    simp [hexclusive, hne]
  | closed =>
    by_cases hk : k.exclusive = some p
    · have hne : ¬ p = q := fun h => hq h.symm
      simp [unlock, hk, hne]
    · simp [unlock, hk]
  | _ => exact Iff.rfl

theorem Serves.exclusive_self (h : Serves answering p k call answer k') {held : Bool}
    (hheld : k.exclusive = some p ↔ held = true) :
    k'.exclusive = some p ↔ heldAfter held call answer = true := by
  cases h with
  | locked => simp [heldAfter]
  | closed => by_cases hk : k.exclusive = some p <;> simp [unlock, hk, heldAfter]
  | failed => cases call <;> exact hheld
  | _ => exact hheld

/-- Away from binding, no socket is opened or closed and the path names nothing new. -/
theorem Serves.kept (h : Serves answering p k call answer k') (hc : call ≠ .bind) :
    k'.listener = k.listener ∧ k'.fresh = k.fresh ∧ (k'.node = k.node ∨ k'.node = none) := by
  cases h with
  | inUse => exact absurd rfl hc
  | bound => exact absurd rfl hc
  | removed => exact ⟨rfl, rfl, Or.inr rfl⟩
  | _ => exact ⟨rfl, rfl, Or.inl rfl⟩

theorem Serves.bind_cases (h : Serves answering p k .bind answer k') :
    (k' = k ∧ ∀ inode, answer ≠ .bound inode) ∨
      (k.node = none ∧ answer = .bound k.fresh ∧ k' = { k with
        node := some ⟨k.fresh, true⟩
        listener := Function.update k.listener k.fresh (some p)
        fresh := k.fresh + 1 }) := by
  cases h with
  | inUse => exact Or.inl ⟨rfl, fun _ h => by cases h⟩
  | failed => exact Or.inl ⟨rfl, fun _ h => by cases h⟩
  | bound hnode => exact Or.inr ⟨hnode, rfl, rfl⟩

/-- Who shares the lock after a call shared it before, or is the caller that just did. -/
theorem Serves.shared (h : Serves answering p k call answer k') {q : Nat} (hq : q ∈ k'.shared) :
    (q ∈ k.shared ∧ (q = p → call ≠ .closeLock)) ∨ (q = p ∧ call = .lockShared ∧ answer = .done) := by
  cases h with
  | sharing =>
    rcases List.mem_cons.mp hq with rfl | hq
    · exact Or.inr ⟨rfl, rfl, rfl⟩
    · exact Or.inl ⟨hq, fun _ h => by cases h⟩
  | closed =>
    obtain ⟨hq, hne⟩ := List.mem_filter.mp hq
    exact Or.inl ⟨hq, fun h => absurd h (by simpa using hne)⟩
  | failed hclose => exact Or.inl ⟨hq, fun _ => hclose⟩
  | _ => exact Or.inl ⟨hq, fun _ h => by cases h⟩

theorem boundAfter_kept {bound : Option Nat} (hc : call ≠ .bind) :
    boundAfter bound call answer = bound := by
  cases call with
  | bind => exact absurd rfl hc
  | _ => rfl

theorem boundAfter_unbound {bound : Option Nat} (h : ∀ inode, answer ≠ .bound inode) :
    boundAfter bound call answer = bound := by
  cases call with
  | bind =>
    cases answer with
    | bound inode => exact absurd rfl (h inode)
    | _ => rfl
  | _ => rfl

end

section

variable (D : Disciplined P)

/-- The kernel and the processes agree on who holds the lock and who listens;
whoever listens holds the lock, and a socket of the user at the path is theirs. -/
structure Agrees (w : World P) : Prop where
  exclusive : ∀ p, w.kernel.exclusive = some p ↔ ∃ st, w.process p = some st ∧ D.holds st = true
  listener : ∀ inode p, w.kernel.listener inode = some p ↔
    ∃ st, w.process p = some st ∧ D.bound st = some inode
  locked : ∀ p st, w.process p = some st → D.bound st ≠ none → D.holds st = true
  fresh : ∀ inode p, w.kernel.listener inode = some p → inode < w.kernel.fresh
  node : ∀ node, w.kernel.node = some node → node.inode < w.kernel.fresh
  path : ∀ inode p node, w.kernel.listener inode = some p → w.kernel.node = some node →
    node.own = true → node.inode = inode

variable {D} {w w' : World P}

/-- Two listening sockets are one socket, of the process that holds the lock. -/
theorem Agrees.one_listener (h : Agrees D w) {i j p q : Nat} (hi : w.kernel.listener i = some p)
    (hj : w.kernel.listener j = some q) : i = j ∧ p = q ∧ w.kernel.exclusive = some p := by
  obtain ⟨st, hst, hbound⟩ := (h.listener i p).mp hi
  obtain ⟨st', hst', hbound'⟩ := (h.listener j q).mp hj
  have hp : w.kernel.exclusive = some p :=
    (h.exclusive p).mpr ⟨st, hst, h.locked p st hst (by simp [hbound])⟩
  have hq : w.kernel.exclusive = some q :=
    (h.exclusive q).mpr ⟨st', hst', h.locked q st' hst' (by simp [hbound'])⟩
  have hpq : p = q := Option.some.inj (hp.symm.trans hq)
  subst hpq
  have hsame : st = st' := Option.some.inj (hst.symm.trans hst')
  subst hsame
  exact ⟨Option.some.inj (hbound.symm.trans hbound'), rfl, hp⟩

/-- While the lock is held by a process that listens on nothing, nobody listens. -/
theorem Agrees.nobody_listens (h : Agrees D w) {p : Nat} {st : P.State} (hp : w.process p = some st)
    (hheld : D.holds st = true) (hbound : D.bound st = none) (inode : Nat) :
    w.kernel.listener inode = none := by
  by_contra hne
  obtain ⟨q, hq⟩ := Option.ne_none_iff_exists'.mp hne
  obtain ⟨-, -, hlock⟩ := h.one_listener hq hq
  have hlocked : w.kernel.exclusive = some p := (h.exclusive p).mpr ⟨st, hp, hheld⟩
  have hpq : q = p := Option.some.inj (hlock.symm.trans hlocked)
  subst hpq
  obtain ⟨st', hst', hbound'⟩ := (h.listener inode q).mp hq
  have hsame : st' = st := Option.some.inj (hst'.symm.trans hp)
  rw [hsame, hbound] at hbound'
  cases hbound'

/-- A process takes its next state in a kernel that changed only what is its own. -/
theorem Agrees.after (h : Agrees D w) {p : Nat} {k : PathSockets} {next : Option P.State}
    (hexclusive : ∀ q ≠ p, k.exclusive = some q ↔ w.kernel.exclusive = some q)
    (hlistener : ∀ inode, ∀ q ≠ p, k.listener inode = some q ↔ w.kernel.listener inode = some q)
    (hnext : ∀ st, next = some st → (k.exclusive = some p ↔ D.holds st = true) ∧
      (∀ inode, k.listener inode = some p ↔ D.bound st = some inode) ∧
      (D.bound st ≠ none → D.holds st = true))
    (hfresh : ∀ inode q, k.listener inode = some q → inode < k.fresh)
    (hnode : ∀ node, k.node = some node → node.inode < k.fresh)
    (hpath : ∀ inode q node, k.listener inode = some q → k.node = some node → node.own = true →
      node.inode = inode) :
    Agrees D (w.after p k next) := by
  cases next with
  | none =>
    have hother {q : Nat} (hq : q ≠ p) : (Function.update w.process p none) q = w.process q :=
      Function.update_of_ne hq _ _
    refine ⟨fun q => ?_, fun inode q => ?_, fun q st hst hbound => ?_, fun inode q hq => ?_,
      hnode, fun inode q node hq => ?_⟩
    · simp only [World.after, exit_exclusive]
      by_cases hq : q = p
      · simp [hq]
      · simp only [ne_eq, hq, not_false_eq_true, true_and, hexclusive q hq, hother hq, h.exclusive q]
    · simp only [World.after, exit_listener]
      by_cases hq : q = p
      · simp [hq]
      · simp only [ne_eq, hq, not_false_eq_true, true_and, hlistener inode q hq, hother hq,
          h.listener inode q]
    · by_cases hq : q = p
      · simp [World.after, hq] at hst
      · simp only [World.after, hother hq] at hst
        exact h.locked q st hst hbound
    · exact hfresh inode q (exit_listener.mp hq).2
    · exact hpath inode q node (exit_listener.mp hq).2
  | some st' =>
    obtain ⟨hself, hown, hkeeps⟩ := hnext st' rfl
    have hother {q : Nat} (hq : q ≠ p) :
        (Function.update w.process p (some st')) q = w.process q :=
      Function.update_of_ne hq _ _
    refine ⟨fun q => ?_, fun inode q => ?_, fun q st hst hbound => ?_, hfresh, hnode, hpath⟩
    · by_cases hq : q = p
      · subst hq
        simp [World.after, hself]
      · simp only [World.after, hexclusive q hq, hother hq, h.exclusive q]
    · by_cases hq : q = p
      · subst hq
        simp [World.after, hown]
      · simp only [World.after, hlistener inode q hq, hother hq, h.listener inode q]
    · by_cases hq : q = p
      · subst hq
        simp only [World.after, Function.update_self, Option.some.injEq] at hst
        subst hst
        exact hkeeps hbound
      · simp only [World.after, hother hq] at hst
        exact h.locked q st hst hbound

/-- A call keeps the agreement. -/
theorem Agrees.call (h : Agrees D w) {p : Nat} {st : P.State} {answer : Answer} {k : PathSockets}
    (hp : w.process p = some st)
    (hk : Serves w.answering p w.kernel (P.call st) answer k) :
    Agrees D (w.after p k (P.next st answer)) := by
  have hheld : w.kernel.exclusive = some p ↔ D.holds st = true := by
    rw [h.exclusive p]
    simp [hp]
  have hlistens (inode : Nat) : w.kernel.listener inode = some p ↔ D.bound st = some inode := by
    rw [h.listener inode p]
    simp [hp]
  have hself := hk.exclusive_self hheld
  by_cases hc : P.call st = .bind
  · obtain ⟨hholds, hunbound⟩ := D.binding hc
    rw [hc] at hk hself
    rcases hk.bind_cases with ⟨rfl, hanswer⟩ | ⟨hnode, rfl, rfl⟩
    · refine h.after (fun _ _ => Iff.rfl) (fun _ _ _ => Iff.rfl) (fun st' hst' => ?_) h.fresh h.node
        h.path
      obtain ⟨hholds', hbound'⟩ := D.next hst'
      rw [boundAfter_unbound hanswer] at hbound'
      rw [hc] at hholds'
      refine ⟨by rw [hself, hholds'], fun inode => by rw [hlistens inode, hbound'], fun hne => ?_⟩
      rw [hbound', hunbound] at hne
      exact absurd rfl hne
    · have hnobody := h.nobody_listens hp hholds hunbound
      have hlistener (inode q : Nat) : Function.update w.kernel.listener w.kernel.fresh (some p) inode =
          some q ↔ inode = w.kernel.fresh ∧ q = p := by
        by_cases hi : inode = w.kernel.fresh
        · subst hi
          simp [eq_comm]
        · simp [hnobody inode, hi]
      refine h.after (fun _ _ => Iff.rfl) (fun inode q hq => ?_) (fun st' hst' => ?_)
        (fun inode q hq => ?_) (fun node hn => ?_) (fun inode q node hq hn _ => ?_)
      · simp [hlistener, hnobody inode, hq]
      · obtain ⟨hholds', hbound'⟩ := D.next hst'
        rw [hc] at hholds' hbound'
        have hheld' : D.holds st' = true := by simpa [heldAfter, hholds] using hholds'
        refine ⟨by rw [hself, hholds'], fun inode => ?_, fun _ => hheld'⟩
        simp [hlistener, hbound', boundAfter, eq_comm]
      · have hi := ((hlistener inode q).mp hq).1
        simp only
        omega
      · cases hn
        simp
      · cases hn
        exact ((hlistener inode q).mp hq).1.symm
  · obtain ⟨hlistener, hfresh, hnode⟩ := hk.kept hc
    have hkept {node : PathNode} (hn : k.node = some node) : w.kernel.node = some node := by
      rcases hnode with hsame | hnone
      · rw [← hsame, hn]
      · rw [hnone] at hn
        cases hn
    refine h.after (fun q hq => hk.exclusive_other hq) (fun inode q _ => by rw [hlistener])
      (fun st' hst' => ?_) (fun inode q hq => ?_) (fun node hn => ?_) (fun inode q node hq hn => ?_)
    · obtain ⟨hholds', hbound'⟩ := D.next hst'
      rw [boundAfter_kept hc] at hbound'
      refine ⟨by rw [hself, hholds'], fun inode => by rw [hlistener, hlistens inode, hbound'],
        fun hne => ?_⟩
      rw [hbound'] at hne
      have hholds := h.locked p st hp hne
      -- a process that listens does not close its lock
      have hopen : P.call st ≠ .closeLock := fun hclose => hne (D.closing hclose)
      rw [hholds', hholds]
      cases hcall : P.call st with
      | closeLock => exact absurd hcall hopen
      | lockExclusive => cases answer <;> rfl
      | _ => rfl
    · rw [hlistener] at hq
      rw [hfresh]
      exact h.fresh inode q hq
    · rw [hfresh]
      exact h.node node (hkept hn)
    · rw [hlistener] at hq
      exact h.path inode q node hq (hkept hn)

theorem Agrees.start {w : World P} (h : w.Starts) : Agrees D w := by
  have hlistener (inode : Nat) : w.kernel.listener inode = none := by rw [h.listener]
  have hprocess (p : Nat) : w.process p = none := by rw [h.process]
  refine ⟨fun p => ?_, fun inode p => ?_, fun p st hst => ?_, fun inode p hp => ?_, h.node,
    fun inode p node hp => ?_⟩
  · simp [h.exclusive, hprocess]
  · simp [hlistener, hprocess]
  · rw [hprocess] at hst
    cases hst
  · rw [hlistener] at hp
    cases hp
  · rw [hlistener] at hp
    cases hp

theorem Agrees.step {move : Move} (h : Agrees D w) (hs : Step w move w') : Agrees D w' := by
  cases hs with
  | call hp hk => exact h.call hp hk
  | @start p st hp hst =>
    obtain ⟨hholds, hbound⟩ := D.starts hst
    refine h.after (fun _ _ => Iff.rfl) (fun _ _ _ => Iff.rfl) (fun st' hst' => ?_) h.fresh h.node h.path
    cases hst'
    refine ⟨?_, fun inode => ?_, fun hne => absurd hbound hne⟩
    · rw [h.exclusive p]
      simp [hp, hholds]
    · rw [h.listener inode p]
      simp [hp, hbound]
  | ends =>
    exact h.after (fun _ _ => Iff.rfl) (fun _ _ _ => Iff.rfl) (fun _ hst => by cases hst) h.fresh h.node h.path
  | unlink =>
    refine ⟨h.exclusive, h.listener, h.locked, h.fresh, fun node hn => ?_, fun inode q node _ hn => ?_⟩
    · cases hn
    · cases hn
  | place hnode =>
    refine ⟨h.exclusive, h.listener, h.locked, fun inode q hq => ?_, fun node hn => ?_,
      fun inode q node _ hn hown => ?_⟩
    · have hlt := h.fresh inode q hq
      simp only
      omega
    · cases hn
      simp
    · cases hn
      cases hown

theorem World.after_other {w : World P} {p q : Nat} {k : PathSockets} {next : Option P.State} (hq : q ≠ p) :
    (w.after p k next).process q = w.process q := by
  cases next <;> exact Function.update_of_ne hq _ _

theorem World.after_self {w : World P} {p : Nat} {k : PathSockets} {next : Option P.State} :
    (w.after p k next).process p = next := by
  cases next <;> exact Function.update_self _ _ _

/-- There is always a process number that nobody has. -/
theorem World.Reachable.absent (h : w.Reachable) : ∃ p, w.process p = none := by
  have hbounded : ∃ bound, ∀ p, bound ≤ p → w.process p = none := by
    refine h.invariant (I := fun w => ∃ bound, ∀ p, bound ≤ p → w.process p = none) ?_ ?_
    · intro w hw
      exact ⟨0, fun p _ => by rw [hw.process]⟩
    · rintro w w' move ⟨bound, hbound⟩ hs
      have hafter (p : Nat) (k : PathSockets) (next : Option P.State) :
          ∃ bound, ∀ q, bound ≤ q → (w.after p k next).process q = none := by
        refine ⟨max bound (p + 1), fun q hq => ?_⟩
        have hne : q ≠ p := by omega
        rw [World.after_other hne]
        exact hbound q (by omega)
      cases hs with
      | call => exact hafter _ _ _
      | start => exact hafter _ _ _
      | ends => exact hafter _ _ _
      | unlink => exact ⟨bound, hbound⟩
      | place => exact ⟨bound, hbound⟩
  obtain ⟨bound, hbound⟩ := hbounded
  exact ⟨bound, hbound bound (Nat.le_refl bound)⟩

/-- With the lock free nobody listens. -/
theorem Agrees.unlocked (h : Agrees D w) (hexclusive : w.kernel.exclusive = none) (inode : Nat) :
    w.kernel.listener inode = none := by
  by_contra hne
  obtain ⟨p, hp⟩ := Option.ne_none_iff_exists'.mp hne
  obtain ⟨-, -, hlock⟩ := h.one_listener hp hp
  rw [hexclusive] at hlock
  cases hlock

theorem World.Reachable.agrees (D : Disciplined P) (h : w.Reachable) : Agrees D w :=
  h.invariant (fun _ => Agrees.start) Agrees.step

end

end PathSockets

end NixSecrets
