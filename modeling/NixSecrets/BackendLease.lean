import NixSecrets.PathSockets

namespace NixSecrets.BackendLease

open PathSockets Relation

/-- A look at the socket path, a connection to what is there, and the request
for the list over it: the stages of every probe of a backend. -/
inductive Probe
  | inspecting
  | connecting
  | asking (inode : Nat)
deriving DecidableEq, Repr

def Probe.call : Probe → PathSockets.Call
  | .inspecting => .stat
  | .connecting => .connect
  | .asking inode => .ask inode

/-- What a probe comes to: its next stage, or whether a backend lives there. -/
inductive Probed
  | going (probe : Probe)
  | dead
  | live (inode : Nat)
deriving DecidableEq, Repr

/-- `live_backend`; `none` is an error. -/
def liveBackend : Probe → Answer → Option Probed
  | .inspecting, .absent => some .dead
  | .inspecting, .found node => if node.own then some (.going .connecting) else none
  | .connecting, .absent => some .dead
  | .connecting, .refused => some .dead
  | .connecting, .connected inode => some (.going (.asking inode))
  | .asking inode, .done => some (.live inode)
  | _, _ => none

/-- `connect_ready`, with `dead` for an error that `retryable` accepts. -/
def connectReady : Probe → Answer → Option Probed
  | .asking _, .broken => some .dead
  | probe, answer => liveBackend probe answer

/-- Where a backend process is in `run`: opening and taking its lock
(`acquire_or_attach`), attached to another backend (`watch_existing`), or on
its way to its own socket (`Backend::bind` over `prepare_socket_path`), which
`watch_socket` watches while it serves. -/
inductive Backend
  | opening
  | locking
  | probing (locked : Bool) (probe : Probe)
  | attaching (locked : Bool)
  | watching (probe : Probe)
  | evaluating
  | preparing (probe : Probe)
  | removing
  | binding
  | permitting (inode : Nat)
  | arming (inode : Nat)
  | serving (inode watched : Nat)
deriving DecidableEq, Repr

def Backend.call : Backend → PathSockets.Call
  | .opening => .openLock
  | .locking => .lockExclusive
  | .probing _ probe => probe.call
  | .attaching _ => .closeLock
  | .watching probe => probe.call
  | .evaluating => .work
  | .preparing probe => probe.call
  | .removing => .remove
  | .binding => .bind
  | .permitting _ => .chmod
  | .arming _ => .stat
  | .serving _ _ => .stat

def Backend.next : Backend → Answer → Option Backend
  | .opening, .done => some .locking
  | .locking, .done => some (.probing true .inspecting)
  | .locking, .wouldBlock => some (.probing false .inspecting)
  | .probing locked probe, answer =>
    match liveBackend probe answer with
    | some (.going probe) => some (.probing locked probe)
    | some (.live _) => some (.attaching locked)
    | some .dead => if locked then some .evaluating else some .locking
    | none => none
  | .attaching _, .done => some (.watching .inspecting)
  | .watching probe, answer =>
    match liveBackend probe answer with
    | some (.going probe) => some (.watching probe)
    | some (.live _) => some (.watching .inspecting)
    | some .dead => none
    | none => none
  | .evaluating, .done => some (.preparing .inspecting)
  | .preparing .inspecting, .absent => some .binding
  | .preparing .inspecting, .found node => if node.own then some (.preparing .connecting) else none
  -- a live backend at the path, and a peer that answers otherwise, are both errors
  | .preparing .connecting, .connected inode => some (.preparing (.asking inode))
  | .preparing .connecting, .refused => some .removing
  | .removing, .done => some .binding
  | .binding, .bound inode => some (.permitting inode)
  | .permitting inode, .done => some (.arming inode)
  | .arming inode, .found node => some (.serving inode node.inode)
  -- the watcher's tick: any other node, no node and a failed look end the process
  | .serving inode watched, .found node =>
    if node.inode = watched then some (.serving inode watched) else none
  | _, _ => none

/-- Whether the process holds the exclusive lock of its lease. -/
def Backend.locked : Backend → Bool
  | .opening => false
  | .locking => false
  | .probing locked _ => locked
  | .attaching locked => locked
  | .watching _ => false
  | _ => true

def Backend.socket : Backend → Option Nat
  | .permitting inode => some inode
  | .arming inode => some inode
  | .serving inode _ => some inode
  | _ => none

/-- Where a terminal is in `connect_or_start`: its first attempt, the check of
the lock, the removal of a stale socket, the launch, and the attempts after it. -/
inductive Starter
  | trying (probe : Probe)
  | checking
  | releasing
  | clearing
  | removing
  | launching
  | polling (launched : Bool) (probe : Probe)
  | connected (inode : Nat)
deriving DecidableEq, Repr

def Starter.call : Starter → PathSockets.Call
  | .trying probe => probe.call
  | .checking => .lockShared
  | .releasing => .closeLock
  | .clearing => .stat
  | .removing => .remove
  | .launching => .work
  | .polling _ probe => probe.call
  | .connected _ => .work

def Starter.next : Starter → Answer → Option Starter
  | .trying probe, answer =>
    match connectReady probe answer with
    | some (.going probe) => some (.trying probe)
    | some (.live inode) => some (.connected inode)
    | some .dead => some .checking
    | none => none
  | .checking, .done => some .releasing
  | .checking, .absent => some .clearing
  | .checking, .wouldBlock => some (.polling false .inspecting)
  | .releasing, .done => some .clearing
  | .clearing, .absent => some .launching
  | .clearing, .found node => if node.own then some .removing else none
  | .removing, .done => some .launching
  | .launching, .done => some (.polling true .inspecting)
  | .polling launched probe, answer =>
    match connectReady probe answer with
    | some (.going probe) => some (.polling launched probe)
    | some (.live inode) => some (.connected inode)
    | some .dead => some (.polling launched .inspecting)
    | none => none
  | .connected inode, .done => some (.connected inode)
  | _, _ => none

inductive Process
  | backend (state : Backend)
  | starter (state : Starter)
deriving DecidableEq, Repr

def Process.call : Process → PathSockets.Call
  | .backend b => b.call
  | .starter s => s.call

def Process.next : Process → Answer → Option Process
  | .backend b, answer => (b.next answer).map .backend
  | .starter s, answer => (s.next answer).map .starter

/-- The processes of one socket: backends, and terminals that look for one. -/
def program : Program where
  State := Process
  starts st := st = .backend .opening ∨ st = .starter (.trying .inspecting)
  call := Process.call
  next := Process.next
  answering st := match st with
    | .backend (.serving _ _) => true
    | _ => false

@[simp] theorem call_backend (b : Backend) : program.call (.backend b) = b.call := rfl

@[simp] theorem call_starter (s : Starter) : program.call (.starter s) = s.call := rfl

@[simp] theorem next_backend (b : Backend) (answer : Answer) :
    program.next (.backend b) answer = (b.next answer).map .backend := rfl

@[simp] theorem next_starter (s : Starter) (answer : Answer) :
    program.next (.starter s) answer = (s.next answer).map .starter := rfl

/-- A probe only looks, connects and asks. -/
theorem Probe.call_cases (probe : Probe) :
    probe.call = .stat ∨ probe.call = .connect ∨ ∃ inode, probe.call = .ask inode := by
  cases probe with
  | inspecting => exact Or.inl rfl
  | connecting => exact Or.inr (Or.inl rfl)
  | asking inode => exact Or.inr (Or.inr ⟨inode, rfl⟩)

theorem Probe.held (probe : Probe) (held : Bool) (answer : Answer) :
    heldAfter held probe.call answer = held := by
  cases probe <;> rfl

theorem Probe.bound (probe : Probe) (bound : Option Nat) (answer : Answer) :
    boundAfter bound probe.call answer = bound := by
  cases probe <;> rfl

/-- Every transition of a backend takes and drops the lock, and binds its socket, by its calls alone. -/
theorem Backend.next_disciplined {b b' : Backend} {answer : Answer} (h : b.next answer = some b') :
    b'.locked = heldAfter b.locked b.call answer ∧ b'.socket = boundAfter b.socket b.call answer := by
  cases b with
  | probing locked probe =>
    simp only [Backend.call, Probe.held, Probe.bound]
    simp only [Backend.next] at h
    split at h
    · cases h
      exact ⟨rfl, rfl⟩
    · cases h
      exact ⟨rfl, rfl⟩
    · cases locked <;> (cases h; exact ⟨rfl, rfl⟩)
    · cases h
  | watching probe =>
    simp only [Backend.call, Probe.held, Probe.bound]
    simp only [Backend.next] at h
    split at h <;> cases h <;> exact ⟨rfl, rfl⟩
  | preparing probe =>
    simp only [Backend.call, Probe.held, Probe.bound]
    cases probe <;> cases answer <;> simp only [Backend.next] at h <;>
      first
      | (cases h <;> exact ⟨rfl, rfl⟩)
      | (split at h <;> cases h <;> exact ⟨rfl, rfl⟩)
  | serving inode watched =>
    cases answer <;> simp only [Backend.next] at h <;>
      first
      | cases h
      | (split at h <;> cases h <;> exact ⟨rfl, rfl⟩)
  | _ => cases answer <;> cases h <;> exact ⟨rfl, rfl⟩

/-- A terminal never holds the exclusive lock. -/
theorem Starter.held (s : Starter) (answer : Answer) : heldAfter false s.call answer = false := by
  cases s with
  | trying probe => exact probe.held _ _
  | polling _ probe => exact probe.held _ _
  | _ => cases answer <;> rfl

theorem Starter.bound (s : Starter) (answer : Answer) : boundAfter none s.call answer = none := by
  cases s with
  | trying probe => exact probe.bound _ _
  | polling _ probe => exact probe.bound _ _
  | _ => rfl

/-- The lease: a backend holds the lock from before it binds its socket until it ends. -/
def disciplined : Disciplined program where
  holds
    | .backend b => b.locked
    | .starter _ => false
  bound
    | .backend b => b.socket
    | .starter _ => none
  starts := by
    rintro st (rfl | rfl) <;> exact ⟨rfl, rfl⟩
  next := by
    rintro (b | s) answer st' h
    · obtain ⟨b', hb', rfl⟩ := Option.map_eq_some_iff.mp h
      exact Backend.next_disciplined hb'
    · obtain ⟨s', -, rfl⟩ := Option.map_eq_some_iff.mp h
      exact ⟨(s.held answer).symm, (s.bound answer).symm⟩
  binding := by
    rintro (b | s) h
    · cases b with
      | binding => exact ⟨rfl, rfl⟩
      | probing _ probe => cases probe <;> cases h
      | watching probe => cases probe <;> cases h
      | preparing probe => cases probe <;> cases h
      | _ => cases h
    · cases s with
      | trying probe => cases probe <;> cases h
      | polling _ probe => cases probe <;> cases h
      | _ => cases h
  closing := by
    rintro (b | s) h
    · cases b with
      | permitting => cases h
      | arming => cases h
      | serving => cases h
      | _ => rfl
    · rfl

section

/-- Before any process runs. -/
def idle : World program := ⟨{}, fun _ => none⟩

theorem idle_reachable : idle.Reachable :=
  ⟨idle, ⟨rfl, rfl, rfl, rfl, fun _ h => by cases h⟩, .refl⟩

/-- One backend runs, as process 0. -/
def running (k : PathSockets) (b : Backend) : World program :=
  ⟨k, Function.update (fun _ => none) 0 (some (.backend b))⟩

theorem running_call {k k' : PathSockets} {b b' : Backend} {answer : Answer} (h : (running k b).Reachable)
    (hk : Serves (running k b).answering 0 k b.call answer k') (hnext : b.next answer = some b') :
    (running k' b').Reachable := by
  have hp : (running k b).process 0 = some (Process.backend b) := rfl
  have hs : Step (running k b) (.call 0 answer) _ := .call hp hk
  rw [next_backend, hnext] at hs
  have hafter : (running k b).after 0 k' (some (.backend b')) = running k' b' := by
    simp only [World.after, running, Function.update_idem]
  exact hafter ▸ h.step hs

/-- The kernel once the first backend serves. -/
def servedKernel : PathSockets where
  lockFile := true
  exclusive := some 0
  node := some ⟨0, true⟩
  listener := Function.update (fun _ => none) 0 (some 0)
  fresh := 1

theorem running_locking : (running { lockFile := true } .locking).Reachable := by
  have hstart : (running {} .opening).Reachable :=
    idle_reachable.step (.start (P := program) rfl (Or.inl rfl))
  exact running_call hstart .opened rfl

theorem running_probing :
    (running { lockFile := true, exclusive := some 0 } (.probing true .inspecting)).Reachable :=
  running_call running_locking (.locked rfl rfl) rfl

theorem running_serving : (running servedKernel (.serving 0 0)).Reachable := by
  have hevaluating := running_call running_probing (.nothing rfl) rfl
  have hbinding := running_call (running_call hevaluating .worked rfl) (.nothing rfl) rfl
  have hpermitting := running_call hbinding (.bound rfl) rfl
  exact running_call (running_call hpermitting (.moded rfl) rfl) (.shown rfl) rfl

/-- Beside the first backend a terminal runs, as process 1. -/
def joined (s : Starter) : World program :=
  ⟨servedKernel, Function.update (running servedKernel (.serving 0 0)).process 1 (some (.starter s))⟩

/-- The path is removed under the backend that serves it. -/
def lostKernel : PathSockets := { servedKernel with node := none }

theorem running_lost : (running lostKernel (.serving 0 0)).Reachable := running_serving.step .unlink

end

section

variable {w : World program}

/-- A process waits for an answer, or has one, over the connection to a socket. -/
def Process.connection : Process → Option Nat
  | .backend (.probing _ (.asking inode)) => some inode
  | .backend (.watching (.asking inode)) => some inode
  | .backend (.preparing (.asking inode)) => some inode
  | .starter (.trying (.asking inode)) => some inode
  | .starter (.polling _ (.asking inode)) => some inode
  | .starter (.connected inode) => some inode
  | _ => none

/-- A probe under the lock has no answer to wait for, and nothing attaches under the lock. -/
def Backend.Alone : Backend → Prop
  | .probing true (.asking _) => False
  | .attaching true => False
  | .preparing (.asking _) => False
  | _ => True

theorem liveBackend_going {probe : Probe} {answer : Answer} {inode : Nat}
    (h : liveBackend probe answer = some (.going (.asking inode))) :
    probe = .connecting ∧ answer = .connected inode := by
  cases probe <;> cases answer <;> simp only [liveBackend] at h <;>
    first
    | cases h
    | (split at h <;> cases h)
  exact ⟨rfl, rfl⟩

theorem liveBackend_live {probe : Probe} {answer : Answer} {inode : Nat}
    (h : liveBackend probe answer = some (.live inode)) : probe = .asking inode ∧ answer = .done := by
  cases probe <;> cases answer <;> simp only [liveBackend] at h <;>
    first
    | cases h
    | (split at h <;> cases h)
  exact ⟨rfl, rfl⟩

/-- Alone in its state, a backend is alone in the next one unless a socket answered its connection. -/
theorem Backend.Alone.next {b b' : Backend} {answer : Answer} (h : b.Alone) (hn : b.next answer = some b')
    (hanswer : b.locked = true → b.socket = none → ∀ inode, answer ≠ .connected inode) : b'.Alone := by
  cases b with
  | probing locked probe =>
    simp only [Backend.next] at hn
    split at hn
    · next probe' hprobe =>
      cases hn
      cases locked with
      | false => trivial
      | true =>
        cases probe' with
        | asking inode => exact (hanswer rfl rfl inode (liveBackend_going hprobe).2).elim
        | _ => trivial
    · next inode hprobe =>
      cases hn
      cases locked with
      | false => trivial
      | true =>
        rw [(liveBackend_live hprobe).1] at h
        exact h.elim
    · split at hn <;> cases hn <;> trivial
    · cases hn
  | watching probe =>
    simp only [Backend.next] at hn
    split at hn <;> cases hn <;> trivial
  | preparing probe =>
    cases probe <;> cases answer <;> simp only [Backend.next] at hn <;>
      first
      | (cases hn <;> trivial)
      | (split at hn <;> cases hn <;> trivial)
      | (cases hn; exact hanswer rfl rfl _ rfl)
  | serving inode watched =>
    cases answer <;> simp only [Backend.next] at hn <;>
      first
      | cases hn
      | (split at hn <;> cases hn <;> trivial)
  | _ => cases answer <;> cases hn <;> trivial

/-- Every backend is alone. -/
def AllAlone (w : World program) : Prop :=
  Agrees disciplined w ∧ ∀ p b, w.process p = some (.backend b) → b.Alone

theorem AllAlone.step {w' : World program} {move : PathSockets.Move} (h : AllAlone w) (hs : Step w move w') :
    AllAlone w' := by
  obtain ⟨hagrees, halone⟩ := h
  refine ⟨hagrees.step hs, ?_⟩
  have hafter {p : Nat} {k : PathSockets} {next : Option program.State}
      (hnext : ∀ b, next = some (.backend b) → b.Alone) (q : Nat) (b : Backend)
      (hb : (w.after p k next).process q = some (.backend b)) : b.Alone := by
    by_cases hq : q = p
    · subst hq
      rw [World.after_self] at hb
      exact hnext b hb
    · rw [World.after_other hq] at hb
      exact halone q b hb
  cases hs with
  | @call p st answer k hp hk =>
    refine hafter fun b' hb' => ?_
    cases st with
    | starter s =>
      obtain ⟨_, _, hs⟩ := Option.map_eq_some_iff.mp hb'
      cases hs
    | backend b =>
      obtain ⟨b'', hnext, hb''⟩ := Option.map_eq_some_iff.mp hb'
      cases hb''
      refine (halone p b hp).next hnext fun hlocked hsocket inode hanswer => ?_
      subst hanswer
      have hnobody := hagrees.nobody_listens hp hlocked hsocket
      -- only a listening socket answers a connection
      cases hcall : program.call (.backend b) with
      | connect =>
        rw [hcall] at hk
        cases hk with
        | reached _ _ hlistener => simp [hnobody] at hlistener
      | _ =>
        rw [hcall] at hk
        cases hk
  | start hp hst =>
    refine hafter fun b hb => ?_
    rcases hst with rfl | rfl <;> cases hb
    trivial
  | ends => exact hafter fun b hb => by cases hb
  | unlink => exact halone
  | place => exact halone

theorem reachable_alone (h : w.Reachable) : AllAlone w :=
  h.invariant (fun _ hw => ⟨Agrees.start hw, fun p b hb => by rw [hw.process] at hb; cases hb⟩) AllAlone.step

/-- Under the lock the probe of `acquire_or_attach` never finds a live backend,
and the check of `prepare_socket_path` never finds that one owns the socket. -/
theorem locked_probe_unanswered (h : w.Reachable) {p : Nat} {b : Backend}
    (hp : w.process p = some (.backend b)) :
    b ≠ .attaching true ∧ (∀ inode, b ≠ .probing true (.asking inode)) ∧
      ∀ inode, b ≠ .preparing (.asking inode) := by
  have halone := (reachable_alone h).2 p b hp
  refine ⟨?_, fun inode => ?_, fun inode => ?_⟩ <;>
  · rintro rfl
    exact halone

theorem first_probe_unanswered : Backend.probing true .inspecting ≠ .attaching true ∧
    (∀ inode, Backend.probing true .inspecting ≠ .probing true (.asking inode)) ∧
      ∀ inode, Backend.probing true .inspecting ≠ .preparing (.asking inode) :=
  locked_probe_unanswered (p := 0) running_probing rfl

/-- A backend whose socket the path no longer names ends at the next tick of
its watcher and frees the lock, unless the path names what the watch was set on. -/
theorem stranded_backend_exits (h : w.Reachable) {p inode watched : Nat}
    (hp : w.process p = some (.backend (.serving inode watched)))
    (hlost : w.kernel.node ≠ some ⟨inode, true⟩) (hwatched : w.kernel.node ≠ some ⟨watched, false⟩)
    {w' : World program} {answer : Answer} (hs : Step w (.call p answer) w') :
    w'.process p = none ∧ w'.kernel.exclusive = none ∧ ∀ other, w'.kernel.listener other = none := by
  have hagrees := h.agrees disciplined
  have hlistens : w.kernel.listener inode = some p := (hagrees.listener inode p).mpr ⟨_, hp, rfl⟩
  have hheld : w.kernel.exclusive = some p := (hagrees.exclusive p).mpr ⟨_, hp, rfl⟩
  obtain ⟨k, hk, hends⟩ : ∃ k, k = w.kernel ∧ w' = World.after (P := program) w p k none := by
    cases hs with
    | call hp' hk =>
      cases hp.symm.trans hp'
      cases hk with
      | nothing => exact ⟨_, rfl, rfl⟩
      | failed => exact ⟨_, rfl, rfl⟩
      | @shown node hnode =>
        refine ⟨_, rfl, ?_⟩
        have hne : node.inode ≠ watched := by
          rintro hsame
          cases hown : node.own with
          | true =>
            have hinode := hagrees.path inode p node hlistens hnode hown
            exact hlost (by rw [hnode, ← hinode, ← hown])
          | false => exact hwatched (by rw [hnode, ← hsame, ← hown])
        simp only [next_backend, Backend.next, hne, ↓reduceIte]
        rfl
  subst hk hends
  refine ⟨Function.update_self _ _ _, ?_, fun other => ?_⟩
  · simp [World.after, exit, unlock, hheld]
  · by_contra hne
    obtain ⟨q, hq⟩ := Option.ne_none_iff_exists'.mp hne
    obtain ⟨hqp, hq⟩ := exit_listener.mp hq
    obtain ⟨-, hsame, -⟩ := hagrees.one_listener hq hlistens
    exact hqp hsame

theorem lost_backend_exits :
    ((running lostKernel (.serving 0 0)).after 0 lostKernel none).kernel.exclusive = none := by
  have hp : (running lostKernel (.serving 0 0)).process 0 = some (Process.backend (.serving 0 0)) := rfl
  exact (stranded_backend_exits running_lost hp (by simp [running, lostKernel])
    (by simp [running, lostKernel]) (.call hp (.nothing rfl))).2.1

/-- A start, or a call that the kernel did not fail. -/
def Calm : PathSockets.Move → Prop
  | .call _ answer => answer ≠ .failed ∧ answer ≠ .broken
  | .start _ => True
  | _ => False

/-- A backend serves the socket that the path names. -/
def Served (w : World program) : Prop :=
  ∃ p inode watched, w.process p = some (.backend (.serving inode watched)) ∧
    w.kernel.node = some ⟨inode, true⟩

/-- Calm steps lead to a served path. -/
def CanServe (w : World program) : Prop := ∃ w', ReflTransGen (StepIn Calm) w w' ∧ Served w'

theorem CanServe.step {w' : World program} {move : PathSockets.Move} (hs : Step w move w') (hcalm : Calm move)
    (h : CanServe w') : CanServe w := by
  obtain ⟨served, hrun, hserved⟩ := h
  exact ⟨served, ReflTransGen.head ⟨move, hcalm, hs⟩ hrun, hserved⟩

/-- A backend's call leads to a served path when what it does next does. -/
theorem CanServe.call {p : Nat} {b b' : Backend} {answer : Answer} {k : PathSockets}
    (hp : w.process p = some (.backend b)) (hk : Serves w.answering p w.kernel b.call answer k)
    (hnext : b.next answer = some b') (hcalm : answer ≠ .failed ∧ answer ≠ .broken)
    (h : ∀ w' : World program, w'.process p = some (.backend b') → w'.kernel = k → CanServe w') :
    CanServe w := by
  have hs : Step w (.call p answer) _ := .call hp hk
  rw [next_backend, hnext] at hs
  exact CanServe.step hs hcalm (h _ (Function.update_self _ _ _) rfl)

theorem canServe_arming {p inode : Nat} (hp : w.process p = some (.backend (.arming inode)))
    (hnode : w.kernel.node = some ⟨inode, true⟩) : CanServe w := by
  refine .call hp (.shown hnode) rfl (by simp) fun w' hp' hk => ?_
  exact ⟨w', .refl, p, inode, inode, hp', by rw [hk, hnode]⟩

theorem canServe_permitting {p inode : Nat} (hp : w.process p = some (.backend (.permitting inode)))
    (hnode : w.kernel.node = some ⟨inode, true⟩) : CanServe w := by
  refine .call hp (.moded hnode) rfl (by simp) fun w' hp' hk => ?_
  exact canServe_arming hp' (by rw [hk, hnode])

theorem canServe_binding {p : Nat} (hp : w.process p = some (.backend .binding))
    (hnode : w.kernel.node = none) : CanServe w := by
  refine .call hp (.bound hnode) rfl (by simp) fun w' hp' hk => ?_
  exact canServe_permitting hp' (by rw [hk])

theorem canServe_removing {p : Nat} {node : PathNode} (hp : w.process p = some (.backend .removing))
    (hnode : w.kernel.node = some node) : CanServe w := by
  refine .call hp (.removed hnode) rfl (by simp) fun w' hp' hk => ?_
  exact canServe_binding hp' (by rw [hk])

/-- A stale socket at the path is removed on the way to a new one. -/
theorem canServe_connecting {p : Nat} {node : PathNode}
    (hp : w.process p = some (.backend (.preparing .connecting))) (hnode : w.kernel.node = some node)
    (hnobody : ∀ inode, w.kernel.listener inode = none) : CanServe w := by
  refine .call hp (.stale hnode (hnobody node.inode)) rfl (by simp) fun w' hp' hk => ?_
  exact canServe_removing hp' (by rw [hk, hnode])

/-- The path holds nothing that the backend refuses to touch. -/
def Ours (k : PathSockets) : Prop := ∀ node, k.node = some node → node.own = true

theorem canServe_preparing {p : Nat} (hp : w.process p = some (.backend (.preparing .inspecting)))
    (hours : Ours w.kernel) (hnobody : ∀ inode, w.kernel.listener inode = none) : CanServe w := by
  cases hnode : w.kernel.node with
  | none =>
    refine .call hp (.nothing hnode) rfl (by simp) fun w' hp' hk => ?_
    exact canServe_binding hp' (by rw [hk, hnode])
  | some node =>
    have hnext : (Backend.preparing .inspecting).next (.found node) = some (.preparing .connecting) := by
      simp [Backend.next, hours node hnode]
    refine .call hp (.shown hnode) hnext (by simp) fun w' hp' hk => ?_
    exact canServe_connecting hp' (by rw [hk, hnode]) (by rw [hk]; exact hnobody)

theorem canServe_evaluating {p : Nat} (hp : w.process p = some (.backend .evaluating))
    (hours : Ours w.kernel) (hnobody : ∀ inode, w.kernel.listener inode = none) : CanServe w := by
  refine .call hp .worked rfl (by simp) fun w' hp' hk => ?_
  exact canServe_preparing hp' (by rwa [hk]) (by rwa [hk])

/-- The probe under the lock finds nobody, and the backend goes on to its own socket. -/
theorem canServe_probing {p : Nat} {probe : Probe} (hp : w.process p = some (.backend (.probing true probe)))
    (hprobe : ∀ inode, probe ≠ .asking inode) (hours : Ours w.kernel)
    (hnobody : ∀ inode, w.kernel.listener inode = none) : CanServe w := by
  have hconnecting (w' : World program) (hp' : w'.process p = some (.backend (.probing true .connecting)))
      (hk : w'.kernel = w.kernel) : CanServe w' := by
    have hgoes (w'' : World program) (hp'' : w''.process p = some (.backend .evaluating))
        (hk' : w''.kernel = w'.kernel) : CanServe w'' :=
      canServe_evaluating hp'' (by rwa [hk', hk]) (by rwa [hk', hk])
    cases hnode : w'.kernel.node with
    | none => exact .call hp' (.unreached hnode) rfl (by simp) hgoes
    | some node =>
      have hlistener : w'.kernel.listener node.inode = none := by rw [hk, hnobody]
      exact .call hp' (.stale hnode hlistener) rfl (by simp) hgoes
  cases probe with
  | inspecting =>
    cases hnode : w.kernel.node with
    | none =>
      refine .call hp (.nothing hnode) rfl (by simp) fun w' hp' hk => ?_
      exact canServe_evaluating hp' (by rwa [hk]) (by rwa [hk])
    | some node =>
      have hnext : (Backend.probing true .inspecting).next (.found node) =
          some (.probing true .connecting) := by
        simp [Backend.next, liveBackend, hours node hnode]
      exact .call hp (.shown hnode) hnext (by simp) hconnecting
  | connecting => exact hconnecting w hp rfl
  | asking inode => exact absurd rfl (hprobe inode)

/-- With the lock free, a new backend takes it and comes to serve the path. -/
theorem canServe_unlocked {p : Nat} (hp : w.process p = none) (hexclusive : w.kernel.exclusive = none)
    (hshared : w.kernel.shared = []) (hours : Ours w.kernel)
    (hnobody : ∀ inode, w.kernel.listener inode = none) : CanServe w := by
  have hs : Step w (.start p) _ := .start hp (Or.inl rfl)
  refine CanServe.step hs trivial ?_
  refine .call (Function.update_self _ _ _) .opened rfl (by simp) fun w' hp' hk => ?_
  have hfree : w'.kernel.exclusive = none := by rw [hk]; exact hexclusive
  have hunshared : w'.kernel.shared = [] := by rw [hk]; exact hshared
  refine .call hp' (.locked hfree hunshared) rfl (by simp) fun w'' hp'' hk' => ?_
  refine canServe_probing hp'' (by simp) ?_ fun inode => ?_
  · rw [hk', hk]
    exact hours
  · rw [hk', hk]
    exact hnobody inode

/-- Whoever shares the lock is a terminal about to let it go. -/
def SharedBriefly (w : World program) : Prop :=
  ∀ p ∈ w.kernel.shared, w.process p = some (.starter .releasing)

theorem call_lockShared {st : Process} (h : st.call = .lockShared) : st = .starter .checking := by
  cases st with
  | backend b =>
    cases b with
    | probing _ probe => cases probe <;> cases h
    | watching probe => cases probe <;> cases h
    | preparing probe => cases probe <;> cases h
    | _ => cases h
  | starter s =>
    cases s with
    | checking => rfl
    | trying probe => cases probe <;> cases h
    | polling _ probe => cases probe <;> cases h
    | _ => cases h

theorem SharedBriefly.step {w' : World program} {move : PathSockets.Move} (h : SharedBriefly w)
    (hs : Step w move w') :
    SharedBriefly w' := by
  cases hs with
  | @call p st answer k hp hk =>
    intro q hq
    have hshared : q ∈ k.shared := by
      cases hnext : program.next st answer with
      | none =>
        rw [hnext] at hq
        exact (List.mem_filter.mp hq).1
      | some st' =>
        rw [hnext] at hq
        exact hq
    rcases hk.shared hshared with ⟨hq', hclose⟩ | ⟨rfl, hcall, rfl⟩
    · by_cases hqp : q = p
      · subst hqp
        -- a process that shares the lock has only one call to make
        have hst : st = .starter .releasing := Option.some.inj (hp.symm.trans (h q hq'))
        subst hst
        exact absurd rfl (hclose rfl)
      · rw [World.after_other hqp]
        exact h q hq'
    · rw [call_lockShared hcall]
      exact World.after_self
  | @start p st hp hst =>
    intro q hq
    have hq' : q ∈ w.kernel.shared := hq
    have hqp : q ≠ p := by
      rintro rfl
      rw [h q hq'] at hp
      cases hp
    rw [World.after_other hqp]
    exact h q hq'
  | @ends p st hp =>
    intro q hq
    obtain ⟨hq', hqp⟩ := List.mem_filter.mp hq
    rw [World.after_other (by simpa using hqp)]
    exact h q hq'
  | unlink => exact h
  | place => exact h

theorem reachable_sharedBriefly (h : w.Reachable) : SharedBriefly w :=
  h.invariant (fun _ hw p hp => by rw [hw.shared] at hp; cases hp) SharedBriefly.step

/-- With the lock held by nobody, those that share it let it go and a new backend serves. -/
theorem canServe_free (h : w.Reachable) (hexclusive : w.kernel.exclusive = none) (hours : Ours w.kernel) :
    CanServe w := by
  induction hn : w.kernel.shared.length using Nat.strongRecOn generalizing w with
  | ind n ih =>
    cases hshared : w.kernel.shared with
    | nil =>
      obtain ⟨p, hp⟩ := h.absent
      exact canServe_unlocked hp hexclusive hshared hours ((h.agrees disciplined).unlocked hexclusive)
    | cons p rest =>
      have hp : w.process p = some (.starter .releasing) :=
        reachable_sharedBriefly h p (by rw [hshared]; exact List.mem_cons_self)
      have hs : Step w (.call p .done) (World.after (P := program) w p (w.kernel.unlock p)
          (some (.starter .clearing))) := .call hp .closed
      refine CanServe.step hs (by simp [Calm]) (ih _ ?_ (h.step hs) ?_ hours rfl)
      · have hfewer := List.length_filter_le (· ≠ p) rest
        simp only [World.after, unlock, hshared, ne_eq, not_true_eq_false, decide_false, Bool.false_eq_true,
          not_false_eq_true, List.filter_cons_of_neg] at hn ⊢
        simp only [List.length_cons] at hn
        simp only [ne_eq] at hfewer
        omega
      · simp [World.after, unlock, hexclusive]

/-- A backend that ends by a calm call leaves the lock free. -/
theorem canServe_ends (h : w.Reachable) {p : Nat} {b : Backend} {answer : Answer}
    (hp : w.process p = some (.backend b)) (hlocked : b.locked = true)
    (hk : Serves w.answering p w.kernel b.call answer w.kernel) (hnext : b.next answer = none)
    (hcalm : answer ≠ .failed ∧ answer ≠ .broken) (hours : Ours w.kernel) : CanServe w := by
  have hs : Step w (.call p answer) _ := .call hp hk
  rw [next_backend, hnext] at hs
  have hheld : w.kernel.exclusive = some p := ((h.agrees disciplined).exclusive p).mpr ⟨_, hp, hlocked⟩
  refine CanServe.step hs hcalm (canServe_free (h.step hs) ?_ hours)
  have hfree : (w.kernel.exit p).exclusive = none := by simp [exit, unlock, hheld]
  exact hfree

/-- From every reachable world in which the path holds nothing foreign, calls
that do not fail and starts lead to a backend that serves the path. -/
theorem backend_can_serve (h : w.Reachable) (hours : Ours w.kernel) : CanServe w := by
  cases hexclusive : w.kernel.exclusive with
  | none => exact canServe_free h hexclusive hours
  | some p =>
    have hagrees := h.agrees disciplined
    obtain ⟨st, hp, hheld⟩ := (hagrees.exclusive p).mp hexclusive
    cases st with
    | starter s => cases hheld
    | backend b =>
      obtain ⟨hattach, hprobe, hprepare⟩ := locked_probe_unanswered h hp
      have hnobody (hsocket : b.socket = none) := hagrees.nobody_listens hp hheld hsocket
      have hown {inode : Nat} (hsocket : b.socket = some inode) {node : PathNode}
          (hnode : w.kernel.node = some node) : node = ⟨inode, true⟩ := by
        have hlistens := (hagrees.listener inode p).mpr ⟨_, hp, hsocket⟩
        have hinode := hagrees.path inode p node hlistens hnode (hours node hnode)
        rw [← hinode, ← hours node hnode]
      cases b with
      | opening => cases hheld
      | locking => cases hheld
      | watching => cases hheld
      | attaching locked =>
        have hlocked : locked = true := hheld
        exact absurd (by rw [hlocked]) hattach
      | probing locked probe =>
        have hlocked : locked = true := hheld
        subst hlocked
        exact canServe_probing hp (fun inode h => hprobe inode (by rw [h])) hours (hnobody rfl)
      | evaluating => exact canServe_evaluating hp hours (hnobody rfl)
      | preparing probe =>
        cases probe with
        | inspecting => exact canServe_preparing hp hours (hnobody rfl)
        | connecting =>
          cases hnode : w.kernel.node with
          | none => exact canServe_ends h hp rfl (.unreached hnode) rfl (by simp) hours
          | some node => exact canServe_connecting hp hnode (hnobody rfl)
        | asking inode => exact absurd rfl (hprepare inode)
      | removing =>
        cases hnode : w.kernel.node with
        | none => exact canServe_ends h hp rfl (.gone hnode) rfl (by simp) hours
        | some node => exact canServe_removing hp hnode
      | binding =>
        cases hnode : w.kernel.node with
        | none => exact canServe_binding hp hnode
        | some node => exact canServe_ends h hp rfl (.inUse hnode) rfl (by simp) hours
      | permitting inode =>
        cases hnode : w.kernel.node with
        | none => exact canServe_ends h hp rfl (.unnamed hnode) rfl (by simp) hours
        | some node => exact canServe_permitting hp (by rw [hnode, hown rfl hnode])
      | arming inode =>
        cases hnode : w.kernel.node with
        | none => exact canServe_ends h hp rfl (.nothing hnode) rfl (by simp) hours
        | some node => exact canServe_arming hp (by rw [hnode, hown rfl hnode])
      | serving inode watched =>
        cases hnode : w.kernel.node with
        | none => exact canServe_ends h hp rfl (.nothing hnode) rfl (by simp) hours
        | some node => exact ⟨w, .refl, p, inode, watched, hp, by rw [hnode, hown rfl hnode]⟩

/-- Calm steps lead to a terminal that is connected to the backend of the path. -/
def CanConnect (w : World program) : Prop :=
  ∃ w' p a inode watched, ReflTransGen (StepIn Calm) w w' ∧
    w'.process p = some (.starter (.connected inode)) ∧
    w'.process a = some (.backend (.serving inode watched)) ∧ w'.kernel.node = some ⟨inode, true⟩

theorem CanConnect.step {w' : World program} {move : PathSockets.Move} (hs : Step w move w') (hcalm : Calm move)
    (h : CanConnect w') : CanConnect w := by
  obtain ⟨last, p, a, inode, watched, hrun, hlast⟩ := h
  exact ⟨last, p, a, inode, watched, ReflTransGen.head ⟨move, hcalm, hs⟩ hrun, hlast⟩

/-- A terminal's call that leaves the kernel as it is leads to a connection when what it does next does. -/
theorem CanConnect.call {p a : Nat} {s s' : Starter} {answer : Answer} {st : Process}
    (hp : w.process p = some (.starter s)) (ha : w.process a = some st) (hap : a ≠ p)
    (hk : Serves w.answering p w.kernel s.call answer w.kernel) (hnext : s.next answer = some s')
    (hcalm : answer ≠ .failed ∧ answer ≠ .broken)
    (h : ∀ w' : World program, w'.process p = some (.starter s') → w'.process a = some st →
      w'.kernel = w.kernel → CanConnect w') : CanConnect w := by
  have hs : Step w (.call p answer) _ := .call hp hk
  rw [next_starter, hnext] at hs
  refine CanConnect.step hs hcalm (h _ World.after_self ?_ rfl)
  rw [World.after_other hap]
  exact ha

/-- A new terminal's look, connection and request at a served path succeed. -/
theorem served_connects (h : w.Reachable) (hserved : Served w) : CanConnect w := by
  obtain ⟨a, inode, watched, ha, hnode⟩ := hserved
  obtain ⟨p, hp⟩ := h.absent
  have hlistener : w.kernel.listener inode = some a :=
    ((h.agrees disciplined).listener inode a).mpr ⟨_, ha, rfl⟩
  have hap : a ≠ p := by
    rintro rfl
    rw [ha] at hp
    cases hp
  have hs : Step w (.start p) _ := .start hp (Or.inr rfl)
  refine CanConnect.step hs trivial ?_
  have hstarted : (World.after w p w.kernel (some (.starter (.trying .inspecting)))).process a = w.process a :=
    World.after_other hap
  refine .call World.after_self (hstarted.trans ha) hap (.shown hnode) rfl (by simp)
    fun w₁ hp₁ ha₁ hk₁ => ?_
  refine .call hp₁ ha₁ hap (.reached (by rw [hk₁]; exact hnode) rfl (by rw [hk₁]; exact hlistener)) rfl
    (by simp) fun w₂ hp₂ ha₂ hk₂ => ?_
  have hkernel : w₂.kernel = w.kernel := hk₂.trans hk₁
  refine .call hp₂ ha₂ hap (.answered (by rw [hkernel]; exact hlistener) ⟨_, ha₂, rfl⟩) rfl (by simp)
    fun w₃ hp₃ ha₃ hk₃ => ?_
  exact ⟨w₃, p, a, inode, watched, .refl, hp₃, ha₃, by rw [hk₃, hkernel, hnode]⟩

theorem StepIn.reachable {w' : World program} (h : w.Reachable) (hrun : ReflTransGen (StepIn Calm) w w') :
    w'.Reachable := by
  induction hrun with
  | refl => exact h
  | tail _ hs ih =>
    obtain ⟨_, -, hs⟩ := hs
    exact ih.step hs

/-- From every reachable world in which the path holds nothing foreign, starts
and calls that do not fail lead to a terminal connected to the backend that
serves the path: nothing that happened before keeps the path unserved. -/
theorem terminal_can_connect (h : w.Reachable) (hours : Ours w.kernel) : CanConnect w := by
  obtain ⟨w', hrun, hserved⟩ := backend_can_serve h hours
  obtain ⟨last, p, a, inode, watched, hrun', hlast⟩ := served_connects (StepIn.reachable h hrun) hserved
  exact ⟨last, p, a, inode, watched, hrun.trans hrun', hlast⟩

theorem lost_path_can_connect : CanConnect (running lostKernel (.serving 0 0)) :=
  terminal_can_connect running_lost fun _ h => by cases h

end

end NixSecrets.BackendLease
