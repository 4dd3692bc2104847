import NixSecrets.LoginGrants

namespace NixSecrets.LoginGrants

open Inventory SshAuth LoginSigner

def Message.answers (id : Nat) : Message → Bool
  | .answer id' _ => id' == id
  | _ => false

namespace World

def handled (w : World) (id : Nat) : Nat := if (w.handlers id).isSome then 1 else 0

/-- How often a request is on its way to its answer. -/
def unheard (w : World) (id : Nat) : Nat :=
  w.inbox.count (.job id) + w.frames.count (.secretRequested id) + w.handled id

def replied (w : World) (id : Nat) : Nat :=
  w.answers.countP (fun entry => entry.1 == id) + w.inbox.countP (Message.answers id)

def load (w : World) (id : Nat) : Nat := w.unheard id + w.replied id

def signedBy (w : World) (id : Nat) : Nat := w.log.countP (fun signed => signed.grant == id)

/-- Each request is in one place, and a grant is made when its request is answered. -/
structure Queued (w : World) : Prop where
  fresh : ∀ id, w.nextRequest ≤ id → w.calls id = none ∧ w.load id = 0 ∧ w.made id = none
  once : ∀ id, w.load id ≤ 1
  early : ∀ id, w.made id ≠ none → w.unheard id = 0

theorem Queued.of_load {w w' : World} (h : w.Queued) (hnext : w'.nextRequest = w.nextRequest)
    (hcalls : w'.calls = w.calls) (hmade : w'.made = w.made) (hload : ∀ id, w'.load id ≤ w.load id)
    (hunheard : ∀ id, w'.unheard id ≤ w.unheard id) : w'.Queued := by
  constructor
  · intro id hid
    rw [hnext] at hid
    obtain ⟨hcall, hzero, hnone⟩ := h.fresh id hid
    have hle := hload id
    refine ⟨by rw [hcalls]; exact hcall, by omega, by rw [hmade]; exact hnone⟩
  · intro id
    exact Nat.le_trans (hload id) (h.once id)
  · intro id hid
    rw [hmade] at hid
    have hle := hunheard id
    have hzero := h.early id hid
    omega

theorem finish_unheard {w : World} {id : Nat} {answer : SecretAnswer} (h : w.handlers id ≠ none) (id' : Nat) :
    (w.finish id answer).unheard id' + (if id = id' then 1 else 0) = w.unheard id' := by
  have hsome : (w.handlers id).isSome = true := Option.isSome_iff_ne_none.mpr h
  simp only [unheard, handled, finish, setHandler, Function.update_apply]
  grind

theorem finish_replied {w : World} {id : Nat} {answer : SecretAnswer} (id' : Nat) :
    (w.finish id answer).replied id' = w.replied id' + if id = id' then 1 else 0 := by
  simp only [replied, finish, setHandler, List.countP_append, List.countP_singleton]
  grind

/-- A handler that ends hands its request on as an answer. -/
theorem Queued.finish {w : World} (h : w.Queued) {id : Nat} {answer : SecretAnswer} (hid : w.handlers id ≠ none) :
    (w.finish id answer).Queued := by
  have hunheard (id' : Nat) := @finish_unheard w id answer hid id'
  have hreplied (id' : Nat) := @finish_replied w id answer id'
  refine h.of_load rfl rfl rfl (fun id' => ?_) fun id' => ?_
  · have hmoved := hunheard id'
    have hadded := hreplied id'
    rw [load, load]
    omega
  · have hmoved := hunheard id'
    omega

/-- What serving the TUI leaves as it was. -/
structure SameTables (w w' : World) : Prop where
  now : w'.now = w.now
  nextRequest : w'.nextRequest = w.nextRequest
  calls : w'.calls = w.calls
  connections : w'.connections = w.connections
  inbox : w'.inbox = w.inbox
  answers : w'.answers = w.answers
  handlers : w'.handlers = w.handlers
  grants : w'.grants = w.grants
  made : w'.made = w.made
  log : w'.log = w.log

theorem take_same (w : World) (message : Message) : SameTables w (w.take message) := by
  cases message with
  | job id => exact ⟨rfl, rfl, rfl, rfl, rfl, rfl, rfl, rfl, rfl, rfl⟩
  | withdraw id =>
    show SameTables w (if id ∈ w.waiting then _ else w)
    by_cases hid : id ∈ w.waiting
    · rw [if_pos hid]
      exact ⟨rfl, rfl, rfl, rfl, rfl, rfl, rfl, rfl, rfl, rfl⟩
    · rw [if_neg hid]
      exact ⟨rfl, rfl, rfl, rfl, rfl, rfl, rfl, rfl, rfl, rfl⟩
  | grantEnded grant => exact ⟨rfl, rfl, rfl, rfl, rfl, rfl, rfl, rfl, rfl, rfl⟩
  | answer id answer =>
    show SameTables w (if id ∈ w.waiting then (if w.phases id = .waiting then _ else _) else w)
    by_cases hid : id ∈ w.waiting
    · rw [if_pos hid]
      by_cases hphase : w.phases id = .waiting
      · rw [if_pos hphase]
        exact ⟨rfl, rfl, rfl, rfl, rfl, rfl, rfl, rfl, rfl, rfl⟩
      · rw [if_neg hphase]
        exact ⟨rfl, rfl, rfl, rfl, rfl, rfl, rfl, rfl, rfl, rfl⟩
    · rw [if_neg hid]
      exact ⟨rfl, rfl, rfl, rfl, rfl, rfl, rfl, rfl, rfl, rfl⟩

theorem take_requested (w : World) (message : Message) (id : Nat) :
    (w.take message).frames.count (.secretRequested id) =
      w.frames.count (.secretRequested id) + if message = .job id then 1 else 0 := by
  cases message with
  | job id' => simp [World.take, List.count_append, List.count_cons]
  | withdraw id' =>
    show (if id' ∈ w.waiting then _ else w : World).frames.count _ = _
    by_cases hid : id' ∈ w.waiting
    · rw [if_pos hid]
      simp [List.count_append]
    · rw [if_neg hid]
      simp
  | grantEnded grant => simp [World.take, List.count_append]
  | answer id' answer =>
    show (if id' ∈ w.waiting then (if w.phases id' = .waiting then _ else _) else w : World).frames.count _ = _
    by_cases hid : id' ∈ w.waiting
    · rw [if_pos hid]
      by_cases hphase : w.phases id' = .waiting
      · rw [if_pos hphase]
        simp [setPhase]
      · rw [if_neg hphase]
        simp
    · rw [if_neg hid]
      simp

theorem Queued.take {w : World} {message : Message} {rest : List Message} (h : w.Queued)
    (hinbox : w.inbox = message :: rest) : ({ w with inbox := rest }.take message).Queued := by
  have hsame := take_same { w with inbox := rest } message
  have hrequested := take_requested { w with inbox := rest } message
  refine h.of_load hsame.nextRequest hsame.calls hsame.made (fun id => ?_) fun id => ?_
  · have hframes := hrequested id
    simp only [load, unheard, replied, handled, hsame.inbox, hsame.answers, hsame.handlers, hinbox, hframes,
      List.count_cons, List.countP_cons, beq_iff_eq]
    omega
  · have hframes := hrequested id
    simp only [unheard, handled, hsame.inbox, hsame.handlers, hinbox, hframes, List.count_cons, beq_iff_eq]
    omega

/-- A request that arrives at the TUI has its handler from then on. -/
theorem Queued.handler {w : World} {id : Nat} {rest : List Frame} {handler : Handler} (h : w.Queued)
    (hframes : w.frames = .secretRequested id :: rest) :
    ({ w with frames := rest }.setHandler id (some handler)).Queued := by
  have hmoved (id' : Nat) : ({ w with frames := rest }.setHandler id (some handler)).unheard id' ≤ w.unheard id' := by
    simp only [unheard, handled, setHandler, Function.update_apply, hframes, List.count_cons]
    grind
  refine h.of_load rfl rfl rfl (fun id' => ?_) hmoved
  have hle := hmoved id'
  have hreplied : ({ w with frames := rest }.setHandler id (some handler)).replied id' = w.replied id' := rfl
  rw [load, load, hreplied]
  omega

theorem Queued.drop {w : World} {frame : Frame} {rest : List Frame} (h : w.Queued)
    (hframes : w.frames = frame :: rest) : { w with frames := rest }.Queued := by
  have hle (id : Nat) : { w with frames := rest }.unheard id ≤ w.unheard id := by
    simp only [unheard, handled, hframes, List.count_cons]
    omega
  refine h.of_load rfl rfl rfl (fun id => ?_) hle
  have hunheard := hle id
  have hreplied : { w with frames := rest }.replied id = w.replied id := rfl
  rw [load, load, hreplied]
  omega

theorem Queued.dispatch {w : World} {frame : Frame} {rest : List Frame} (h : w.Queued)
    (hframes : w.frames = frame :: rest) : ({ w with frames := rest }.dispatch frame).Queued := by
  have hrest := h.drop hframes
  cases frame with
  | secretRequested id =>
    cases hcall : w.calls id with
    | none =>
      simp only [World.dispatch, hcall]
      exact hrest
    | some call =>
      obtain ⟨c, asked⟩ := call
      cases asked with
      | login request =>
        simp only [World.dispatch, hcall]
        exact h.handler hframes
      | signature request grant =>
        simp only [World.dispatch, hcall]
        exact h.handler hframes
  | secretRequestWithdrawn id =>
    show (if w.handlers id = some .prompting then _ else { w with frames := rest } : World).Queued
    by_cases hprompting : w.handlers id = some .prompting
    · rw [if_pos hprompting]
      have hsome : { w with frames := rest }.handlers id ≠ none := by
        show w.handlers id ≠ none
        rw [hprompting]
        exact nofun
      exact hrest.finish hsome
    · rw [if_neg hprompting]
      exact hrest
  | sshLoginGrantEnded grant =>
    exact hrest.of_load rfl rfl rfl (fun _ => Nat.le_refl _) fun _ => Nat.le_refl _

theorem Queued.hear {w : World} {id : Nat} {answer : SecretAnswer} {rest : List (Nat × SecretAnswer)} (h : w.Queued)
    (hanswers : w.answers = (id, answer) :: rest) :
    { w with answers := rest, inbox := w.inbox ++ [Message.answer id answer] }.Queued := by
  refine h.of_load rfl rfl rfl (fun id' => ?_) fun id' => ?_
  · simp only [load, unheard, replied, handled, hanswers, List.count_append, List.count_cons, List.count_nil,
      List.countP_append, List.countP_cons, List.countP_nil, Message.answers]
    grind
  · simp only [unheard, handled, List.count_append, List.count_cons, List.count_nil]
    grind

/-- A grant is made as its request is answered, and never again. -/
theorem Queued.grant {w : World} {id : Nat} {login : LoginGrantRequest} (h : w.Queued)
    (hid : w.handlers id = some .spawning) : (w.grant id login).Queued := by
  have hsome : w.handlers id ≠ none := by
    rw [hid]
    exact nofun
  have hfinish : (w.finish id grantAnswer).Queued := h.finish hsome
  have hload (id' : Nat) : (w.grant id login).load id' = (w.finish id grantAnswer).load id' := rfl
  have hunheard (id' : Nat) : (w.grant id login).unheard id' = (w.finish id grantAnswer).unheard id' := rfl
  have hmade (id' : Nat) : (w.grant id login).made id' = if id' = id then some (w.madeGrant login) else w.made id' :=
    Function.update_apply ..
  have hone : w.handled id = 1 := if_pos (Option.isSome_iff_ne_none.mpr hsome)
  constructor
  · intro id' hid'
    obtain ⟨hcall, hzero, hnone⟩ := hfinish.fresh id' hid'
    have hne : id' ≠ id := by
      intro heq
      have hfresh := (h.fresh id' hid').2.1
      rw [load, unheard, heq] at hfresh
      omega
    exact ⟨hcall, hzero, by rw [hmade, if_neg hne]; exact hnone⟩
  · intro id'
    rw [hload]
    exact hfinish.once id'
  · intro id' hid'
    rw [hunheard]
    by_cases heq : id' = id
    · have hmoved := @finish_unheard w id grantAnswer hsome id'
      have honce := h.once id'
      rw [if_pos heq.symm] at hmoved
      rw [load] at honce
      have hunit : 1 ≤ w.unheard id' := by
        rw [heq, unheard]
        omega
      omega
    · rw [hmade, if_neg heq] at hid'
      exact hfinish.early id' hid'

section

variable {libs : Libraries} {isHostKey : List UInt8 → Bool}

theorem Queued.ask {w w' : World} {c : Nat} {asked : Ask} (h : w.Queued)
    (hstep : w.ask libs isHostKey c asked = some w') : w'.Queued := by
  rw [World.ask] at hstep
  simp only at hstep
  split at hstep
  next => cases hstep
  next =>
    split at hstep
    next =>
      cases hstep
      exact h
    next =>
      cases hstep
      obtain ⟨hcall, hzero, hnone⟩ := h.fresh w.nextRequest (Nat.le_refl _)
      constructor
      · intro id hid
        simp only at hid
        obtain ⟨hcall', hzero', hnone'⟩ := h.fresh id (by omega)
        have hne : w.nextRequest ≠ id := by omega
        refine ⟨?_, ?_, hnone'⟩
        · simp only [Function.update_of_ne (Ne.symm hne)]
          exact hcall'
        · simp only [load, unheard, replied, handled, setPhase, setConnection, List.count_append, List.count_cons,
            List.count_nil, List.countP_append, List.countP_cons, List.countP_nil, Message.answers] at hzero' ⊢
          grind
      · intro id
        have honce := h.once id
        simp only [load, unheard, replied, handled, setPhase, setConnection, List.count_append, List.count_cons,
          List.count_nil, List.countP_append, List.countP_cons, List.countP_nil, Message.answers] at honce hzero ⊢
        grind
      · intro id hid
        have hne : w.nextRequest ≠ id := fun heq => hid (heq ▸ hnone)
        have hearly := h.early id hid
        simp only [unheard, handled, setPhase, setConnection, List.count_append, List.count_cons,
          List.count_nil] at hearly ⊢
        grind

theorem Queued.charge {w : World} {id : Nat} {signature : SignatureRequest} {named : Option Nat} (h : w.Queued)
    (hid : w.handlers id = some .admitting) : (w.charge libs isHostKey id signature named).Queued := by
  have hsome : w.handlers id ≠ none := by
    rw [hid]
    exact nofun
  unfold World.charge
  split
  next => exact h.finish hsome
  next =>
    split
    next => exact h.finish hsome
    next grant =>
      split
      next => exact h.finish hsome
      next live _ =>
        split
        next =>
          have hgone : (w.setGrant grant none).Queued :=
            h.of_load rfl rfl rfl (fun _ => Nat.le_refl _) fun _ => Nat.le_refl _
          exact hgone.finish hsome
        next =>
          split
          next => exact h.finish hsome
          next =>
            have hunheard (id' : Nat) : (w.setHandler id (some .signing)).unheard id' = w.unheard id' := by
              simp only [unheard, handled, setHandler, Function.update_apply]
              grind
            refine h.of_load rfl rfl rfl (fun id' => ?_) fun id' => Nat.le_of_eq (hunheard id')
            have hsame := hunheard id'
            show (w.setHandler id (some .signing)).unheard id' + w.replied id' ≤ w.unheard id' + w.replied id'
            omega

theorem Queued.step {w w' : World} {act : Act} (h : w.Queued) (hstep : w.step libs isHostKey act = some w') :
    w'.Queued := by
  have hsame (v : World) (hnext : v.nextRequest = w.nextRequest) (hcalls : v.calls = w.calls)
      (hmade : v.made = w.made) (hload : ∀ id, v.load id = w.load id) (hunheard : ∀ id, v.unheard id = w.unheard id) :
      v.Queued :=
    h.of_load hnext hcalls hmade (fun id => Nat.le_of_eq (hload id)) fun id => Nat.le_of_eq (hunheard id)
  cases act with
  | ask c asked => exact h.ask hstep
  | handle =>
    cases hinbox : w.inbox with
    | nil => simp only [World.step, hinbox] at hstep; cases hstep
    | cons message rest =>
      simp only [World.step, hinbox] at hstep
      cases hstep
      exact h.take hinbox
  | deliver =>
    cases hframes : w.frames with
    | nil => simp only [World.step, hframes] at hstep; cases hstep
    | cons frame rest =>
      simp only [World.step, hframes] at hstep
      cases hstep
      exact h.dispatch hframes
  | hear =>
    cases hanswers : w.answers with
    | nil => simp only [World.step, hanswers] at hstep; cases hstep
    | cons entry rest =>
      simp only [World.step, hanswers] at hstep
      cases hstep
      exact h.hear hanswers
  | decide id approved =>
    simp only [World.step] at hstep
    split at hstep
    next hprompting =>
      have hsome : w.handlers id ≠ none := by
        rw [hprompting]
        exact nofun
      split at hstep
      next =>
        cases hstep
        have hunheard (id' : Nat) : (w.setHandler id (some .spawning)).unheard id' = w.unheard id' := by
          simp only [unheard, handled, setHandler, Function.update_apply]
          grind
        have hreplied (id' : Nat) : (w.setHandler id (some .spawning)).replied id' = w.replied id' := rfl
        exact hsame _ rfl rfl rfl (fun id' => by rw [load, load, hunheard, hreplied]) hunheard
      next =>
        cases hstep
        exact h.finish hsome
    next => cases hstep
  | refuse id reason =>
    simp only [World.step] at hstep
    split at hstep
    next hprompting =>
      cases hstep
      have hsome : w.handlers id ≠ none := by
        rw [hprompting]
        exact nofun
      exact h.finish hsome
    next => cases hstep
  | spawned id signer =>
    simp only [World.step] at hstep
    split at hstep
    next hspawning =>
      have hsome : w.handlers id ≠ none := by
        rw [hspawning]
        exact nofun
      split at hstep
      next =>
        cases hstep
        exact h.finish hsome
      next =>
        cases hstep
        exact h.grant hspawning
      next => cases hstep
    next => cases hstep
  | charge id =>
    simp only [World.step] at hstep
    split at hstep
    next hadmitting =>
      split at hstep
      next =>
        cases hstep
        exact h.charge hadmitting
      next => cases hstep
    next => cases hstep
  | reply id reply =>
    simp only [World.step] at hstep
    split at hstep
    next hsigning =>
      have hsome : w.handlers id ≠ none := by
        rw [hsigning]
        exact nofun
      split at hstep
      next =>
        cases hstep
        exact h.finish hsome
      next =>
        cases hstep
        exact h.finish hsome
    next => cases hstep
  | receive id =>
    simp only [World.step] at hstep
    split at hstep
    next =>
      cases hstep
      exact hsame _ rfl rfl rfl (fun _ => rfl) fun _ => rfl
    next => cases hstep
  | abandon id =>
    simp only [World.step] at hstep
    split at hstep
    next call _ =>
      split at hstep
      next => cases hstep
      next =>
        cases hstep
        refine hsame _ rfl rfl rfl (fun id' => ?_) fun id' => ?_
        · simp [World.abandon, setPhase, setConnection, load, unheard, replied, handled, Message.answers]
          rfl
        · simp [World.abandon, setPhase, setConnection, unheard, handled]
          rfl
    next => cases hstep
  | close c =>
    simp only [World.step] at hstep
    split at hstep
    next => cases hstep
    next =>
      cases hstep
      have hjobs (id : Nat) : ((w.connections c).grants.map Message.grantEnded).count (.job id) = 0 :=
        List.count_eq_zero.mpr (by simp)
      have hanswers (id : Nat) : ((w.connections c).grants.map Message.grantEnded).countP (Message.answers id) = 0 :=
        List.countP_eq_zero.mpr (by simp [Message.answers])
      refine hsame _ rfl rfl rfl (fun id => ?_) fun id => ?_
      · simp only [World.close, setConnection, load, unheard, replied, handled, List.count_append,
          List.countP_append, hjobs, hanswers, Nat.add_zero]
        rfl
      · simp only [World.close, setConnection, unheard, handled, List.count_append, hjobs, Nat.add_zero]
        rfl
  | tick duration =>
    cases hstep
    exact hsame _ rfl rfl rfl (fun _ => rfl) fun _ => rfl

/-- A connection names only grants whose requests are its own. -/
structure Owned (w : World) : Prop where
  grants : ∀ c g, g ∈ (w.connections c).grants → ∃ call, w.calls g = some call ∧ call.connection = c
  named : ∀ id c signature g, w.calls id = some ⟨c, .signature signature (some g)⟩ →
    ∃ call, w.calls g = some call ∧ call.connection = c

theorem Owned.of_same {w w' : World} (h : w.Owned) (hcalls : w'.calls = w.calls)
    (hgrants : ∀ c, (w'.connections c).grants = (w.connections c).grants) : w'.Owned := by
  constructor
  · intro c g hg
    rw [hgrants] at hg
    rw [hcalls]
    exact h.grants c g hg
  · intro id c signature g hid
    rw [hcalls] at hid ⊢
    exact h.named id c signature g hid

theorem Owned.ask {w w' : World} {c : Nat} {asked : Ask} (h : w.Owned) (hqueued : w.Queued)
    (hstep : w.ask libs isHostKey c asked = some w') : w'.Owned := by
  rw [World.ask] at hstep
  simp only at hstep
  split at hstep
  next => cases hstep
  next =>
    split at hstep
    next =>
      cases hstep
      exact h
    next hvalid =>
      cases hstep
      have hfresh := (hqueued.fresh w.nextRequest (Nat.le_refl _)).1
      have hkept {g : Nat} {c' : Nat} (hg : ∃ call, w.calls g = some call ∧ call.connection = c') :
          ∃ call, Function.update w.calls w.nextRequest (some ⟨c, asked⟩) g = some call ∧ call.connection = c' := by
        obtain ⟨call, hcall, hconnection⟩ := hg
        have hne : g ≠ w.nextRequest := by
          intro heq
          rw [heq, hfresh] at hcall
          cases hcall
        exact ⟨call, by rw [Function.update_of_ne hne, hcall], hconnection⟩
      constructor
      · intro c' g hg
        apply hkept
        by_cases heq : c' = c
        · subst heq
          simp only [setConnection, setPhase, Function.update_self] at hg
          exact h.grants c' g hg
        · simp only [setConnection, setPhase, Function.update_of_ne heq] at hg
          exact h.grants c' g hg
      · intro id c' signature g hid
        apply hkept
        by_cases heq : id = w.nextRequest
        · subst heq
          simp only [Function.update_self] at hid
          cases hid
          simp only [Ask.valid, Bool.not_eq_false, decide_eq_true_eq] at hvalid
          exact h.grants c g (hvalid.2 g rfl)
        · simp only [Function.update_of_ne heq] at hid
          exact h.named id c' signature g hid

theorem Owned.receive {w : World} {id : Nat} {call : Call} {answer : SecretAnswer} (h : w.Owned)
    (hcall : w.calls id = some call) : (w.receive id call answer).Owned := by
  have hgrants (c g : Nat) (hg : g ∈ ((w.receive id call answer).connections c).grants) :
      g ∈ (w.connections c).grants ∨ (g = id ∧ c = call.connection) := by
    by_cases heq : c = call.connection
    · subst heq
      simp only [World.receive, setConnection, Function.update_self] at hg
      split at hg
      next =>
        rcases List.mem_append.mp hg with hg | hg
        · exact .inl hg
        · exact .inr ⟨List.mem_singleton.mp hg, rfl⟩
      next => exact .inl hg
    · simp only [World.receive, setConnection, Function.update_of_ne heq] at hg
      exact .inl hg
  constructor
  · intro c g hg
    rcases hgrants c g hg with hg | ⟨rfl, rfl⟩
    · exact h.grants c g hg
    · exact ⟨call, hcall, rfl⟩
  · intro id' c signature g hid
    exact h.named id' c signature g hid

/-- A step that makes no grant and takes no signature to one. -/
structure Kept (w w' : World) : Prop where
  calls : w'.calls = w.calls
  connections : ∀ c, (w'.connections c).grants = (w.connections c).grants
  grants : ∀ id, w'.grants id = w.grants id ∨ w'.grants id = none
  made : w'.made = w.made
  log : w'.log = w.log

theorem Kept.finish {w w' : World} (h : Kept w w') (id : Nat) (answer : SecretAnswer) :
    Kept w (w'.finish id answer) := ⟨h.calls, h.connections, h.grants, h.made, h.log⟩

theorem Kept.refl (w : World) : Kept w w := ⟨rfl, fun _ => rfl, fun _ => .inl rfl, rfl, rfl⟩

theorem Kept.ended {w w' : World} (h : Kept w w') (grant : Nat) : Kept w (w'.setGrant grant none) := by
  refine ⟨h.calls, h.connections, fun id => ?_, h.made, h.log⟩
  simp only [setGrant, Function.update_apply]
  split
  next => exact .inr rfl
  next => exact h.grants id

theorem dispatch_kept (w : World) (frame : Frame) : Kept w (w.dispatch frame) := by
  cases frame with
  | secretRequested id =>
    cases hcall : w.calls id with
    | none =>
      simp only [World.dispatch, hcall]
      exact .refl w
    | some call =>
      obtain ⟨c, asked⟩ := call
      cases asked with
      | login request =>
        simp only [World.dispatch, hcall]
        exact ⟨rfl, fun _ => rfl, fun _ => .inl rfl, rfl, rfl⟩
      | signature request grant =>
        simp only [World.dispatch, hcall]
        exact ⟨rfl, fun _ => rfl, fun _ => .inl rfl, rfl, rfl⟩
  | secretRequestWithdrawn id =>
    simp only [World.dispatch]
    split
    next => exact (Kept.refl w).finish id _
    next => exact .refl w
  | sshLoginGrantEnded grant => exact (Kept.refl w).ended grant

/-- A signature is taken to the signer of a live grant that covers it, and counted. -/
structure Charged (libs : Libraries) (w : World) (id : Nat) (signature : SignatureRequest) (grant : Nat)
    (w' : World) : Prop where
  live : ∃ live, w.grants grant = some live ∧ w.now < live.expires ∧ live.remaining ≠ 0 ∧
    covers libs live.login signature = true ∧
    w'.grants = Function.update w.grants grant (some { live with remaining := live.remaining - 1 })
  calls : w'.calls = w.calls
  connections : w'.connections = w.connections
  made : w'.made = w.made
  log : w'.log = w.log ++ [⟨grant, id, signature, w.now⟩]

theorem charge_cases (w : World) (id : Nat) (signature : SignatureRequest) (named : Option Nat) :
    Kept w (w.charge libs isHostKey id signature named) ∨
      ∃ grant, named = some grant ∧ Charged libs w id signature grant (w.charge libs isHostKey id signature named) := by
  unfold World.charge
  split
  next => exact .inl ((Kept.refl w).finish id _)
  next =>
    split
    next => exact .inl ((Kept.refl w).finish id _)
    next grant =>
      split
      next => exact .inl ((Kept.refl w).finish id _)
      next live hlive =>
        split
        next => exact .inl (((Kept.refl w).ended grant).finish id _)
        next hgood =>
          rw [not_or] at hgood
          split
          next => exact .inl ((Kept.refl w).finish id _)
          next hcovers =>
            have hcovered : covers libs live.login signature = true := by simpa using hcovers
            exact .inr ⟨grant, rfl, ⟨live, hlive, Nat.lt_of_not_le hgood.1, hgood.2, hcovered, rfl⟩, rfl, rfl, rfl, rfl⟩

/-- What a grant has left, and what was taken to its signer. -/
structure Counted (libs : Libraries) (w : World) : Prop where
  live : ∀ id grant, w.grants id = some grant → ∃ first, w.made id = some first ∧ grant.login = first.login ∧
    grant.expires = first.expires ∧ grant.remaining + w.signedBy id = loginGrantSignatures
  unmade : ∀ id, w.made id = none → w.signedBy id = 0
  bound : ∀ id, w.signedBy id ≤ loginGrantSignatures
  honest : ∀ signed ∈ w.log, ∃ first, w.made signed.grant = some first ∧ signed.time < first.expires ∧
    covers libs first.login signed.signature = true ∧
    ∃ c, w.calls signed.request = some ⟨c, .signature signed.signature (some signed.grant)⟩

theorem Counted.of_kept {w w' : World} (h : w.Counted libs)
    (hcalls : ∀ id call, w.calls id = some call → w'.calls id = some call)
    (hgrants : ∀ id, w'.grants id = w.grants id ∨ w'.grants id = none) (hmade : w'.made = w.made)
    (hlog : w'.log = w.log) : w'.Counted libs := by
  have hsigned (id : Nat) : w'.signedBy id = w.signedBy id := by rw [signedBy, hlog, signedBy]
  constructor
  · intro id grant hgrant
    rcases hgrants id with hsame | hnone
    · rw [hsame] at hgrant
      rw [hmade, hsigned]
      exact h.live id grant hgrant
    · rw [hnone] at hgrant
      cases hgrant
  · intro id hnone
    rw [hmade] at hnone
    rw [hsigned]
    exact h.unmade id hnone
  · intro id
    rw [hsigned]
    exact h.bound id
  · intro signed hmem
    rw [hlog] at hmem
    obtain ⟨first, hfirst, htime, hcovers, c, hcall⟩ := h.honest signed hmem
    exact ⟨first, by rw [hmade]; exact hfirst, htime, hcovers, c, hcalls _ _ hcall⟩

theorem Counted.grant {w : World} {id : Nat} {login : LoginGrantRequest} (h : w.Counted libs)
    (hid : w.made id = none) : (w.grant id login).Counted libs := by
  have hmade (id' : Nat) (hne : id' ≠ id) : (w.grant id login).made id' = w.made id' := Function.update_of_ne hne ..
  have hself : (w.grant id login).made id = some (w.madeGrant login) := Function.update_self ..
  have hsigned (id' : Nat) : (w.grant id login).signedBy id' = w.signedBy id' := rfl
  constructor
  · intro id' grant hgrant
    by_cases heq : id' = id
    · subst heq
      have hgranted : (w.grant id' login).grants id' = some (w.madeGrant login) := Function.update_self ..
      rw [hgranted] at hgrant
      cases hgrant
      have hzero := h.unmade id' hid
      refine ⟨_, hself, rfl, rfl, ?_⟩
      rw [hsigned, hzero]
      rfl
    · have hsame : (w.grant id login).grants id' = w.grants id' := Function.update_of_ne heq ..
      rw [hsame] at hgrant
      rw [hmade id' heq, hsigned]
      exact h.live id' grant hgrant
  · intro id' hnone
    by_cases heq : id' = id
    · rw [heq, hself] at hnone
      cases hnone
    · rw [hmade id' heq] at hnone
      exact h.unmade id' hnone
  · exact h.bound
  · intro signed hmem
    obtain ⟨first, hfirst, htime, hcovers, hcall⟩ := h.honest signed hmem
    have hne : signed.grant ≠ id := by
      intro heq
      rw [heq, hid] at hfirst
      cases hfirst
    exact ⟨first, by rw [hmade _ hne]; exact hfirst, htime, hcovers, hcall⟩

theorem Counted.charge {w w' : World} {id grant c : Nat} {signature : SignatureRequest} (h : w.Counted libs)
    (hcall : w.calls id = some ⟨c, .signature signature (some grant)⟩)
    (hcharged : Charged libs w id signature grant w') : w'.Counted libs := by
  obtain ⟨⟨live, hlive, htime, hleft, hcovers, hgrants⟩, hcalls, _, hmade, hlog⟩ := hcharged
  obtain ⟨first, hfirst, hlogin, hexpires, hsum⟩ := h.live grant live hlive
  have hsigned (id' : Nat) : w'.signedBy id' = w.signedBy id' + if grant = id' then 1 else 0 := by
    rw [signedBy, hlog, List.countP_append, List.countP_singleton, signedBy]
    simp only [beq_iff_eq]
  constructor
  · intro id' live' hlive'
    rw [hgrants] at hlive'
    rw [hmade, hsigned]
    by_cases heq : grant = id'
    · subst heq
      rw [Function.update_self] at hlive'
      cases hlive'
      refine ⟨first, hfirst, hlogin, hexpires, ?_⟩
      rw [if_pos rfl]
      show live.remaining - 1 + _ = _
      omega
    · rw [Function.update_of_ne (Ne.symm heq)] at hlive'
      rw [if_neg heq]
      exact h.live id' live' hlive'
  · intro id' hnone
    rw [hmade] at hnone
    have hne : grant ≠ id' := by
      intro heq
      rw [← heq, hfirst] at hnone
      cases hnone
    rw [hsigned, if_neg hne]
    exact h.unmade id' hnone
  · intro id'
    rw [hsigned]
    by_cases heq : grant = id'
    · subst heq
      rw [if_pos rfl]
      omega
    · rw [if_neg heq]
      exact h.bound id'
  · intro signed hmem
    rw [hlog] at hmem
    rw [hmade, hcalls]
    rcases List.mem_append.mp hmem with hmem | hmem
    · exact h.honest signed hmem
    · rw [List.mem_singleton.mp hmem]
      exact ⟨first, hfirst, by rw [← hexpires]; exact htime, by rw [← hlogin]; exact hcovers, c, hcall⟩

theorem Kept.connection {w w' : World} {c : Nat} {connection : Connection} (h : Kept w w')
    (hgrants : connection.grants = (w.connections c).grants) : Kept w (w'.setConnection c connection) := by
  refine ⟨h.calls, fun c' => ?_, h.grants, h.made, h.log⟩
  simp only [setConnection, Function.update_apply]
  split
  next heq =>
    rw [heq]
    exact hgrants
  next => exact h.connections c'

/-- What a step can do, as far as calls, grants and log are concerned. -/
inductive Did (libs : Libraries) (isHostKey : List UInt8 → Bool) (w : World) : World → Prop
  | asked {c : Nat} {asked : Ask} {w' : World} : w.ask libs isHostKey c asked = some w' → Did libs isHostKey w w'
  | kept {w' : World} : Kept w w' → Did libs isHostKey w w'
  | received {id : Nat} {call : Call} {answer : SecretAnswer} : w.calls id = some call →
    w.phases id = .answered answer → Did libs isHostKey w (w.receive id call answer)
  | granted {id c : Nat} {login : LoginGrantRequest} : w.handlers id = some .spawning →
    w.calls id = some ⟨c, .login login⟩ → Did libs isHostKey w (w.grant id login)
  | charged {id c grant : Nat} {signature : SignatureRequest} {w' : World} :
    w.calls id = some ⟨c, .signature signature (some grant)⟩ → Charged libs w id signature grant w' →
    Did libs isHostKey w w'

theorem step_did {w w' : World} {act : Act} (hstep : w.step libs isHostKey act = some w') :
    Did libs isHostKey w w' := by
  cases act with
  | ask c asked => exact .asked hstep
  | handle =>
    cases hinbox : w.inbox with
    | nil => simp only [World.step, hinbox] at hstep; cases hstep
    | cons message rest =>
      simp only [World.step, hinbox] at hstep
      cases hstep
      have hsame := take_same { w with inbox := rest } message
      exact .kept ⟨hsame.calls, fun c => by rw [hsame.connections], fun id => .inl (by rw [hsame.grants]), hsame.made,
        hsame.log⟩
  | deliver =>
    cases hframes : w.frames with
    | nil => simp only [World.step, hframes] at hstep; cases hstep
    | cons frame rest =>
      simp only [World.step, hframes] at hstep
      cases hstep
      have hkept := dispatch_kept { w with frames := rest } frame
      exact .kept ⟨hkept.calls, hkept.connections, hkept.grants, hkept.made, hkept.log⟩
  | hear =>
    cases hanswers : w.answers with
    | nil => simp only [World.step, hanswers] at hstep; cases hstep
    | cons entry rest =>
      simp only [World.step, hanswers] at hstep
      cases hstep
      exact .kept ⟨rfl, fun _ => rfl, fun _ => .inl rfl, rfl, rfl⟩
  | decide id approved =>
    simp only [World.step] at hstep
    split at hstep
    next =>
      split at hstep
      next =>
        cases hstep
        exact .kept ⟨rfl, fun _ => rfl, fun _ => .inl rfl, rfl, rfl⟩
      next =>
        cases hstep
        exact .kept ((Kept.refl w).finish id _)
    next => cases hstep
  | refuse id reason =>
    simp only [World.step] at hstep
    split at hstep
    next =>
      cases hstep
      exact .kept ((Kept.refl w).finish id _)
    next => cases hstep
  | spawned id signer =>
    simp only [World.step] at hstep
    split at hstep
    next hspawning =>
      split at hstep
      next =>
        cases hstep
        exact .kept ((Kept.refl w).finish id _)
      next hcall =>
        cases hstep
        exact .granted hspawning hcall
      next => cases hstep
    next => cases hstep
  | charge id =>
    simp only [World.step] at hstep
    split at hstep
    next =>
      split at hstep
      next c signature named hcall =>
        cases hstep
        rcases charge_cases w id signature named with hkept | ⟨grant, rfl, hcharged⟩
        · exact .kept hkept
        · exact .charged hcall hcharged
      next => cases hstep
    next => cases hstep
  | reply id reply =>
    simp only [World.step] at hstep
    split at hstep
    next =>
      split at hstep
      next =>
        cases hstep
        exact .kept ((Kept.refl w).finish id _)
      next =>
        cases hstep
        exact .kept ((Kept.refl w).finish id _)
    next => cases hstep
  | receive id =>
    simp only [World.step] at hstep
    split at hstep
    next hcall hphase =>
      cases hstep
      exact .received hcall hphase
    next => cases hstep
  | abandon id =>
    simp only [World.step] at hstep
    split at hstep
    next call _ =>
      split at hstep
      next => cases hstep
      next =>
        cases hstep
        have hkept : Kept w (w.setPhase id .finished) := ⟨rfl, fun _ => rfl, fun _ => .inl rfl, rfl, rfl⟩
        have hconnection : Kept w ((w.setPhase id .finished).setConnection call.connection
            { w.connections call.connection with call := none }) := hkept.connection rfl
        exact .kept ⟨rfl, hconnection.connections, fun _ => .inl rfl, rfl, rfl⟩
    next => cases hstep
  | close c =>
    simp only [World.step] at hstep
    split at hstep
    next => cases hstep
    next =>
      cases hstep
      have hconnection : Kept w (w.setConnection c { w.connections c with ended := true }) :=
        (Kept.refl w).connection rfl
      exact .kept ⟨rfl, hconnection.connections, fun _ => .inl rfl, rfl, rfl⟩
  | tick duration =>
    cases hstep
    exact .kept ⟨rfl, fun _ => rfl, fun _ => .inl rfl, rfl, rfl⟩

structure Sound (libs : Libraries) (w : World) : Prop where
  queued : w.Queued
  owned : w.Owned
  counted : w.Counted libs

theorem Sound.step {w w' : World} {act : Act} (h : w.Sound libs) (hstep : w.step libs isHostKey act = some w') :
    w'.Sound libs := by
  have hqueued := h.queued.step hstep
  cases step_did hstep with
  | asked hask =>
    refine ⟨hqueued, h.owned.ask h.queued hask, ?_⟩
    rw [World.ask] at hask
    simp only at hask
    split at hask
    next => cases hask
    next =>
      split at hask
      next =>
        cases hask
        exact h.counted
      next =>
        cases hask
        refine h.counted.of_kept (fun id call hcall => ?_) (fun _ => .inl rfl) rfl rfl
        have hne : id ≠ w.nextRequest := by
          intro heq
          rw [heq, (h.queued.fresh _ (Nat.le_refl _)).1] at hcall
          cases hcall
        exact (Function.update_of_ne hne ..).trans hcall
  | kept hkept =>
    refine ⟨hqueued, h.owned.of_same hkept.calls hkept.connections, ?_⟩
    exact h.counted.of_kept (fun _ _ hcall => by rw [hkept.calls]; exact hcall) hkept.grants hkept.made hkept.log
  | received hcall hphase =>
    exact ⟨hqueued, h.owned.receive hcall, h.counted.of_kept (fun _ _ h => h) (fun _ => .inl rfl) rfl rfl⟩
  | @granted id _ login hspawning hcall =>
    refine ⟨hqueued, h.owned.of_same rfl fun _ => rfl, h.counted.grant ?_⟩
    by_contra hmade
    have hzero := h.queued.early id hmade
    have hone : w.handled id = 1 := by rw [handled, hspawning]; rfl
    rw [unheard] at hzero
    omega
  | charged hcall hcharged =>
    exact ⟨hqueued, h.owned.of_same hcharged.calls fun c => by rw [hcharged.connections],
      h.counted.charge hcall hcharged⟩

theorem Sound.start : ({} : World).Sound libs := by
  refine ⟨⟨fun id _ => ⟨rfl, rfl, rfl⟩, fun id => Nat.zero_le 1, fun id _ => rfl⟩, ⟨?_, ?_⟩, ⟨?_, fun _ _ => rfl,
    fun _ => Nat.zero_le _, ?_⟩⟩
  · intro c g hg
    cases hg
  · intro id c signature g h
    cases h
  · intro id grant h
    cases h
  · intro signed h
    cases h

theorem Sound.run {w w' : World} {acts : List Act} (h : w.Sound libs)
    (hrun : w.run libs isHostKey acts = some w') : w'.Sound libs := by
  induction acts generalizing w with
  | nil =>
    cases hrun
    exact h
  | cons act rest ih =>
    obtain ⟨next, hstep, hrun⟩ := Option.bind_eq_some_iff.mp hrun
    exact ih (h.step hstep) hrun

end

end World

end NixSecrets.LoginGrants
