import NixSecrets.GrantsBounded

namespace NixSecrets.LoginGrants

open Inventory SshAuth LoginSigner

namespace World

/-- A grant is made only for a request that is still waited for, and none whose grant is made is abandoned. -/
def InTime (w : World) : Act → Prop
  | .spawned id (.ok _) => w.phases id = .waiting
  | .abandon id => w.grants id = none
  | _ => True

def Heeds (libs : Libraries) (isHostKey : List UInt8 → Bool) (w : World) : List Act → Prop
  | [] => True
  | act :: rest => w.InTime act ∧ ∀ w', w.step libs isHostKey act = some w' → w'.Heeds libs isHostKey rest

instance decidableInTime (w : World) : ∀ act, Decidable (w.InTime act)
  | .spawned id (.ok _) => inferInstanceAs (Decidable (w.phases id = .waiting))
  | .abandon id => inferInstanceAs (Decidable (w.grants id = none))
  | .ask _ _ | .handle | .deliver | .hear | .decide _ _ | .refuse _ _ | .spawned _ (.error _) | .charge _
  | .reply _ _ | .receive _ | .close _ | .tick _ => isTrue trivial

def decidableHeeds (libs : Libraries) (isHostKey : List UInt8 → Bool) : ∀ (w : World) (acts : List Act),
    Decidable (w.Heeds libs isHostKey acts)
  | _, [] => isTrue trivial
  | w, act :: rest =>
    match h : w.step libs isHostKey act with
    | none => decidable_of_iff (w.InTime act) (by simp [Heeds, h])
    | some next =>
      have := decidableHeeds libs isHostKey next rest
      decidable_of_iff (w.InTime act ∧ next.Heeds libs isHostKey rest) (by simp [Heeds, h])

instance (libs : Libraries) (isHostKey : List UInt8 → Bool) (w : World) (acts : List Act) :
    Decidable (w.Heeds libs isHostKey acts) := decidableHeeds libs isHostKey w acts

/-- The way a grant goes to its connection, and its end to the TUI. -/
inductive Reaches (w : World) (id c : Nat) : Prop
  | written : w.phases id = .waiting → (id, grantAnswer) ∈ w.answers → Reaches w id c
  | read : w.phases id = .waiting → .answer id grantAnswer ∈ w.inbox → Reaches w id c
  | answered : w.phases id = .answered grantAnswer → Reaches w id c
  | held : w.phases id = .finished → id ∈ (w.connections c).grants → (w.connections c).ended = false → Reaches w id c
  | ending : w.phases id = .finished → .grantEnded id ∈ w.inbox → Reaches w id c
  | told : w.phases id = .finished → .sshLoginGrantEnded id ∈ w.frames → Reaches w id c

structure Heard (w : World) : Prop where
  waits : ∀ id, w.phases id = .waiting → .job id ∈ w.inbox ∨ id ∈ w.waiting
  withdrawn : ∀ id, .withdraw id ∈ w.inbox → w.phases id = .finished ∧ w.calls id ≠ none
  busy : ∀ id, w.phases id ≠ .finished → ∃ call, w.calls id = some call ∧
    (w.connections call.connection).call = some id ∧ (w.connections call.connection).ended = false
  reached : ∀ id, w.grants id ≠ none → ∃ c login, w.calls id = some ⟨c, .login login⟩ ∧ w.Reaches id c

/-- What a step must keep of the messages about a request for its grant to be still on its way. -/
theorem Reaches.move {w w' : World} {id c : Nat} (h : w.Reaches id c) (hphase : w'.phases id = w.phases id)
    (hconnection : id ∈ (w.connections c).grants → (w.connections c).ended = false →
      w'.Reaches id c ∨ id ∈ (w'.connections c).grants ∧ (w'.connections c).ended = false)
    (hanswers : (id, grantAnswer) ∈ w.answers → (id, grantAnswer) ∈ w'.answers ∨ .answer id grantAnswer ∈ w'.inbox)
    (hinbox : ∀ message ∈ w.inbox, message = .answer id grantAnswer → message ∈ w'.inbox)
    (hended : .grantEnded id ∈ w.inbox → .grantEnded id ∈ w'.inbox ∨ .sshLoginGrantEnded id ∈ w'.frames)
    (hframes : .sshLoginGrantEnded id ∈ w.frames → .sshLoginGrantEnded id ∈ w'.frames) : w'.Reaches id c := by
  cases h with
  | written hwaiting hmem =>
    rw [← hphase] at hwaiting
    rcases hanswers hmem with hmem | hmem
    · exact .written hwaiting hmem
    · exact .read hwaiting hmem
  | read hwaiting hmem =>
    rw [← hphase] at hwaiting
    exact .read hwaiting (hinbox _ hmem rfl)
  | answered hphased =>
    rw [← hphase] at hphased
    exact .answered hphased
  | held hfinished hmem hopen =>
    rw [← hphase] at hfinished
    rcases hconnection hmem hopen with hreaches | ⟨hmem, hopen⟩
    · exact hreaches
    · exact .held hfinished hmem hopen
  | ending hfinished hmem =>
    rw [← hphase] at hfinished
    rcases hended hmem with hmem | hmem
    · exact .ending hfinished hmem
    · exact .told hfinished hmem
  | told hfinished hmem =>
    rw [← hphase] at hfinished
    exact .told hfinished (hframes hmem)

/-- A step of the TUI that adds no grant, and whose messages only grow. -/
theorem Heard.of_more {w w' : World} (h : w.Heard) (hcalls : w'.calls = w.calls) (hphases : w'.phases = w.phases)
    (hconnections : w'.connections = w.connections) (hinbox : w'.inbox = w.inbox) (hwaiting : w'.waiting = w.waiting)
    (hanswers : ∀ entry ∈ w.answers, entry ∈ w'.answers) (hframes : w'.frames = w.frames)
    (hgrants : ∀ id, w'.grants id ≠ none → w.grants id ≠ none) : w'.Heard := by
  constructor
  · intro id hid
    rw [hphases] at hid
    rw [hinbox, hwaiting]
    exact h.waits id hid
  · intro id hid
    rw [hinbox] at hid
    rw [hphases, hcalls]
    exact h.withdrawn id hid
  · intro id hid
    rw [hphases] at hid
    rw [hcalls, hconnections]
    exact h.busy id hid
  · intro id hid
    obtain ⟨c, login, hcall, hreaches⟩ := h.reached id (hgrants id hid)
    refine ⟨c, login, by rw [hcalls]; exact hcall, hreaches.move (by rw [hphases]) ?_ ?_ ?_ ?_ ?_⟩
    · intro hmem hopen
      rw [hconnections]
      exact .inr ⟨hmem, hopen⟩
    · intro hmem
      exact .inl (hanswers _ hmem)
    · intro message hmem _
      rw [hinbox]
      exact hmem
    · intro hmem
      rw [hinbox]
      exact .inl hmem
    · intro hmem
      rw [hframes]
      exact hmem

theorem Heard.finish {w : World} (h : w.Heard) (id : Nat) (answer : SecretAnswer) : (w.finish id answer).Heard :=
  h.of_more rfl rfl rfl rfl rfl (fun _ hmem => List.mem_append_left _ hmem) rfl fun _ hgrant => hgrant

section

variable {w : World} {rest : List Message}

theorem mem_rest {message other : Message} (hinbox : w.inbox = message :: rest) (hmem : other ∈ w.inbox)
    (hne : other ≠ message) : other ∈ rest := by
  rw [hinbox] at hmem
  rcases List.mem_cons.mp hmem with heq | hmem
  · exact absurd heq hne
  · exact hmem

theorem Heard.take_job {id : Nat} (h : w.Heard) (hinbox : w.inbox = .job id :: rest) :
    ({ w with inbox := rest }.take (.job id)).Heard := by
  have hback : ∀ message ∈ rest, message ∈ w.inbox := fun message hmem => hinbox ▸ List.mem_cons_of_mem _ hmem
  constructor
  · intro id' hid'
    rcases h.waits id' hid' with hmem | hmem
    · by_cases heq : id' = id
      · exact .inr (List.mem_append_right _ (List.mem_singleton.mpr heq))
      · exact .inl (mem_rest hinbox hmem fun hsame => heq (Message.job.inj hsame))
    · exact .inr (List.mem_append_left _ hmem)
  · intro id' hmem
    exact h.withdrawn id' (hback _ hmem)
  · exact h.busy
  · intro id' hgrant
    obtain ⟨c, login, hcall, hreaches⟩ := h.reached id' hgrant
    refine ⟨c, login, hcall, hreaches.move rfl (fun hmem hopen => .inr ⟨hmem, hopen⟩) .inl ?_ ?_ ?_⟩
    · intro message hmem hanswer
      exact mem_rest hinbox hmem (by rw [hanswer]; exact fun hsame => by cases hsame)
    · intro hmem
      exact .inl (mem_rest hinbox hmem (fun hsame => by cases hsame))
    · intro hmem
      exact List.mem_append_left _ hmem

theorem Heard.take_withdraw {id : Nat} (h : w.Heard) (hinbox : w.inbox = .withdraw id :: rest) :
    ({ w with inbox := rest }.take (.withdraw id)).Heard := by
  have hback : ∀ message ∈ rest, message ∈ w.inbox := fun message hmem => hinbox ▸ List.mem_cons_of_mem _ hmem
  have hfinished : w.phases id = .finished := (h.withdrawn id (hinbox ▸ List.mem_cons_self)).1
  show (if id ∈ w.waiting then _ else { w with inbox := rest } : World).Heard
  by_cases hwaiting : id ∈ w.waiting
  · rw [if_pos hwaiting]
    constructor
    · intro id' hid'
      have hne : id' ≠ id := by
        intro heq
        rw [heq] at hid'
        exact absurd (hfinished.symm.trans hid') (fun hsame => by cases hsame)
      rcases h.waits id' hid' with hmem | hmem
      · exact .inl (mem_rest hinbox hmem (fun hsame => by cases hsame))
      · exact .inr ((List.mem_erase_of_ne hne).mpr hmem)
    · intro id' hmem
      exact h.withdrawn id' (hback _ hmem)
    · exact h.busy
    · intro id' hgrant
      obtain ⟨c, login, hcall, hreaches⟩ := h.reached id' hgrant
      refine ⟨c, login, hcall, hreaches.move rfl (fun hmem hopen => .inr ⟨hmem, hopen⟩) .inl ?_ ?_ ?_⟩
      · intro message hmem hanswer
        exact mem_rest hinbox hmem (by rw [hanswer]; exact fun hsame => by cases hsame)
      · intro hmem
        exact .inl (mem_rest hinbox hmem (fun hsame => by cases hsame))
      · intro hmem
        exact List.mem_append_left _ hmem
  · rw [if_neg hwaiting]
    constructor
    · intro id' hid'
      rcases h.waits id' hid' with hmem | hmem
      · exact .inl (mem_rest hinbox hmem (fun hsame => by cases hsame))
      · exact .inr hmem
    · intro id' hmem
      exact h.withdrawn id' (hback _ hmem)
    · exact h.busy
    · intro id' hgrant
      obtain ⟨c, login, hcall, hreaches⟩ := h.reached id' hgrant
      refine ⟨c, login, hcall, hreaches.move rfl (fun hmem hopen => .inr ⟨hmem, hopen⟩) .inl ?_ ?_ fun hmem => hmem⟩
      · intro message hmem hanswer
        exact mem_rest hinbox hmem (by rw [hanswer]; exact fun hsame => by cases hsame)
      · intro hmem
        exact .inl (mem_rest hinbox hmem (fun hsame => by cases hsame))

theorem Heard.take_grantEnded {grant : Nat} (h : w.Heard) (hinbox : w.inbox = .grantEnded grant :: rest) :
    ({ w with inbox := rest }.take (.grantEnded grant)).Heard := by
  have hback : ∀ message ∈ rest, message ∈ w.inbox := fun message hmem => hinbox ▸ List.mem_cons_of_mem _ hmem
  constructor
  · intro id hid
    rcases h.waits id hid with hmem | hmem
    · exact .inl (mem_rest hinbox hmem (fun hsame => by cases hsame))
    · exact .inr hmem
  · intro id hmem
    exact h.withdrawn id (hback _ hmem)
  · exact h.busy
  · intro id hgrant
    obtain ⟨c, login, hcall, hreaches⟩ := h.reached id hgrant
    refine ⟨c, login, hcall, hreaches.move rfl (fun hmem hopen => .inr ⟨hmem, hopen⟩) .inl ?_ ?_ ?_⟩
    · intro message hmem hanswer
      exact mem_rest hinbox hmem (by rw [hanswer]; exact fun hsame => by cases hsame)
    · intro hmem
      by_cases heq : id = grant
      · rw [heq]
        exact .inr (List.mem_append_right _ (List.mem_singleton.mpr rfl))
      · exact .inl (mem_rest hinbox hmem fun hsame => heq (Message.grantEnded.inj hsame))
    · intro hmem
      exact List.mem_append_left _ hmem

/-- The answer that a made grant waits for is the only one to its request. -/
theorem Queued.only_answer {id : Nat} {answer : SecretAnswer} (h : w.Queued)
    (hinbox : w.inbox = .answer id answer :: rest) :
    (id, grantAnswer) ∉ w.answers ∧ (.answer id grantAnswer ∈ w.inbox → answer = grantAnswer) := by
  have honce := h.once id
  rw [load, replied, hinbox] at honce
  simp only [List.countP_cons, Message.answers, beq_self_eq_true, if_true] at honce
  constructor
  · intro hmem
    have hpos : 0 < w.answers.countP fun entry => entry.1 == id := List.countP_pos_iff.mpr ⟨_, hmem, by simp⟩
    omega
  · intro hmem
    by_contra hne
    have hmem' := mem_rest hinbox hmem fun hsame => hne (Message.answer.inj hsame).2.symm
    have hpos : 0 < rest.countP (Message.answers id) :=
      List.countP_pos_iff.mpr ⟨_, hmem', by simp [Message.answers]⟩
    omega

/-- An answer that no grant waits for can be dropped. -/
theorem Heard.drop_unread {id : Nat} {answer : SecretAnswer} {waiting : List Nat} (h : w.Heard)
    (hinbox : w.inbox = .answer id answer :: rest) (hphase : w.grants id ≠ none → w.phases id ≠ .waiting)
    (hwaiting : ∀ id', w.phases id' = .waiting → id' ∈ w.waiting → id' ∈ waiting) :
    { w with inbox := rest, waiting := waiting }.Heard := by
  have hback : ∀ message ∈ rest, message ∈ w.inbox := fun message hmem => hinbox ▸ List.mem_cons_of_mem _ hmem
  constructor
  · intro id' hid'
    rcases h.waits id' hid' with hmem | hmem
    · exact .inl (mem_rest hinbox hmem (fun hsame => by cases hsame))
    · exact .inr (hwaiting id' hid' hmem)
  · intro id' hmem
    exact h.withdrawn id' (hback _ hmem)
  · exact h.busy
  · intro id' hgrant
    obtain ⟨c, login, hcall, hreaches⟩ := h.reached id' hgrant
    refine ⟨c, login, hcall, ?_⟩
    cases hreaches with
    | written hphased hmem => exact .written hphased hmem
    | read hphased hmem =>
      have hne : id' ≠ id := fun heq => hphase (heq ▸ hgrant) (heq ▸ hphased)
      exact .read hphased (mem_rest hinbox hmem fun hsame => hne (Message.answer.inj hsame).1)
    | answered hphased => exact .answered hphased
    | held hfinished hmem hopen => exact .held hfinished hmem hopen
    | ending hfinished hmem => exact .ending hfinished (mem_rest hinbox hmem (fun hsame => by cases hsame))
    | told hfinished hmem => exact .told hfinished hmem

theorem Heard.take_answer {id : Nat} {answer : SecretAnswer} (h : w.Heard) (hqueued : w.Queued)
    (hmade : ∀ id, w.grants id ≠ none → w.made id ≠ none) (hinbox : w.inbox = .answer id answer :: rest) :
    ({ w with inbox := rest }.take (.answer id answer)).Heard := by
  have hback : ∀ message ∈ rest, message ∈ w.inbox := fun message hmem => hinbox ▸ List.mem_cons_of_mem _ hmem
  have honly := hqueued.only_answer hinbox
  have hnojob {id' : Nat} (hgrant : w.grants id' ≠ none) : .job id' ∉ w.inbox := by
    intro hmem
    have hzero := hqueued.early id' (hmade id' hgrant)
    have hpos : 0 < w.inbox.count (.job id') := List.count_pos_iff.mpr hmem
    rw [unheard] at hzero
    omega
  show (if id ∈ w.waiting then (if w.phases id = .waiting then _ else _) else { w with inbox := rest } : World).Heard
  by_cases hwaiting : id ∈ w.waiting
  · rw [if_pos hwaiting]
    by_cases hphase : w.phases id = .waiting
    · rw [if_pos hphase]
      have hother {id' : Nat} (hne : id' ≠ id) : Function.update w.phases id (.answered answer) id' = w.phases id' :=
        Function.update_of_ne hne ..
      constructor
      · intro id' hid'
        by_cases heq : id' = id
        · rw [heq] at hid'
          exact absurd ((Function.update_self ..).symm.trans hid') (fun hsame => by cases hsame)
        · rcases h.waits id' ((hother heq).symm.trans hid') with hmem | hmem
          · exact .inl (mem_rest hinbox hmem (fun hsame => by cases hsame))
          · exact .inr ((List.mem_erase_of_ne heq).mpr hmem)
      · intro id' hmem
        obtain ⟨hfinished, hknown⟩ := h.withdrawn id' (hback _ hmem)
        have hne : id' ≠ id := by
          intro heq
          rw [heq, hphase] at hfinished
          cases hfinished
        exact ⟨(hother hne).trans hfinished, hknown⟩
      · intro id' hid'
        by_cases heq : id' = id
        · rw [heq]
          exact h.busy id (by rw [hphase]; exact fun hsame => by cases hsame)
        · exact h.busy id' fun hfinished => hid' ((hother heq).trans hfinished)
      · intro id' hgrant
        obtain ⟨c, login, hcall, hreaches⟩ := h.reached id' hgrant
        refine ⟨c, login, hcall, ?_⟩
        by_cases heq : id' = id
        · subst heq
          have hanswer : answer = grantAnswer := by
            cases hreaches with
            | written _ hmem => exact absurd hmem honly.1
            | read _ hmem => exact honly.2 hmem
            | answered hphased => exact absurd (hphase.symm.trans hphased) (fun hsame => by cases hsame)
            | held hfinished _ _ => exact absurd (hphase.symm.trans hfinished) (fun hsame => by cases hsame)
            | ending hfinished _ => exact absurd (hphase.symm.trans hfinished) (fun hsame => by cases hsame)
            | told hfinished _ => exact absurd (hphase.symm.trans hfinished) (fun hsame => by cases hsame)
          exact .answered ((Function.update_self ..).trans (congrArg _ hanswer))
        · refine hreaches.move (hother heq) (fun hmem hopen => .inr ⟨hmem, hopen⟩) .inl ?_ ?_ fun hmem => hmem
          · intro message hmem hmessage
            refine mem_rest hinbox hmem ?_
            rw [hmessage]
            exact fun hsame => heq (Message.answer.inj hsame).1
          · intro hmem
            exact .inl (mem_rest hinbox hmem (fun hsame => by cases hsame))
    · rw [if_neg hphase]
      refine h.drop_unread hinbox (fun _ => hphase) fun id' hid' hmem => ?_
      have hne : id' ≠ id := fun heq => hphase (heq ▸ hid')
      exact (List.mem_erase_of_ne hne).mpr hmem
  · rw [if_neg hwaiting]
    refine h.drop_unread hinbox (fun hgrant hphase => ?_) fun _ _ hmem => hmem
    rcases h.waits id hphase with hmem | hmem
    · exact hnojob hgrant hmem
    · exact hwaiting hmem

theorem Heard.drop_frame {frame : Frame} {frames : List Frame} (h : w.Heard) (hframes : w.frames = frame :: frames)
    (hgone : ∀ grant, frame = .sshLoginGrantEnded grant → w.grants grant = none) :
    { w with frames := frames }.Heard := by
  refine ⟨h.waits, h.withdrawn, h.busy, fun id hgrant => ?_⟩
  obtain ⟨c, login, hcall, hreaches⟩ := h.reached id hgrant
  refine ⟨c, login, hcall, hreaches.move rfl (fun hmem hopen => .inr ⟨hmem, hopen⟩) .inl
    (fun message hmem _ => hmem) .inl fun hmem => ?_⟩
  rw [hframes] at hmem
  rcases List.mem_cons.mp hmem with heq | hmem
  · exact absurd (hgone id heq.symm) hgrant
  · exact hmem

theorem Heard.gone (h : w.Heard) (grant : Nat) : (w.setGrant grant none).Heard := by
  refine h.of_more rfl rfl rfl rfl rfl (fun _ hmem => hmem) rfl fun id hid heq => hid ?_
  simp only [setGrant, Function.update_apply]
  split
  next => rfl
  next => exact heq

theorem Heard.handler (h : w.Heard) (id : Nat) (handler : Option Handler) : (w.setHandler id handler).Heard :=
  h.of_more rfl rfl rfl rfl rfl (fun _ hmem => hmem) rfl fun _ hgrant => hgrant

theorem Heard.dispatch {frame : Frame} {frames : List Frame} (h : w.Heard) (hframes : w.frames = frame :: frames) :
    ({ w with frames := frames }.dispatch frame).Heard := by
  cases frame with
  | secretRequested id =>
    have hrest := h.drop_frame hframes fun _ heq => by cases heq
    cases hcall : w.calls id with
    | none =>
      simp only [World.dispatch, hcall]
      exact hrest
    | some call =>
      obtain ⟨c, asked⟩ := call
      cases asked with
      | login request =>
        simp only [World.dispatch, hcall]
        exact hrest.handler id _
      | signature request grant =>
        simp only [World.dispatch, hcall]
        exact hrest.handler id _
  | secretRequestWithdrawn id =>
    have hrest := h.drop_frame hframes fun _ heq => by cases heq
    simp only [World.dispatch]
    split
    next => exact hrest.finish id _
    next => exact hrest
  | sshLoginGrantEnded grant =>
    refine (h.gone grant).drop_frame hframes fun grant' heq => ?_
    cases heq
    exact Function.update_self ..

theorem Heard.hear {id : Nat} {answer : SecretAnswer} {answers : List (Nat × SecretAnswer)} (h : w.Heard)
    (hanswers : w.answers = (id, answer) :: answers) :
    { w with answers := answers, inbox := w.inbox ++ [Message.answer id answer] }.Heard := by
  constructor
  · intro id' hid'
    rcases h.waits id' hid' with hmem | hmem
    · exact .inl (List.mem_append_left _ hmem)
    · exact .inr hmem
  · intro id' hmem
    rcases List.mem_append.mp hmem with hmem | hmem
    · exact h.withdrawn id' hmem
    · cases List.mem_singleton.mp hmem
  · exact h.busy
  · intro id' hgrant
    obtain ⟨c, login, hcall, hreaches⟩ := h.reached id' hgrant
    refine ⟨c, login, hcall, hreaches.move rfl (fun hmem hopen => .inr ⟨hmem, hopen⟩) ?_
      (fun message hmem _ => List.mem_append_left _ hmem) (fun hmem => .inl (List.mem_append_left _ hmem))
      fun hmem => hmem⟩
    intro hmem
    rw [hanswers] at hmem
    rcases List.mem_cons.mp hmem with heq | hmem
    · cases heq
      exact .inr (List.mem_append_right _ (List.mem_singleton.mpr rfl))
    · exact .inl hmem

theorem Heard.grant {id c : Nat} {login : LoginGrantRequest} (h : w.Heard) (hphase : w.phases id = .waiting)
    (hcall : w.calls id = some ⟨c, .login login⟩) : (w.grant id login).Heard := by
  refine ⟨h.waits, h.withdrawn, h.busy, fun id' hgrant => ?_⟩
  by_cases heq : id' = id
  · subst heq
    exact ⟨c, login, hcall, .written hphase (List.mem_append_right _ (List.mem_singleton.mpr rfl))⟩
  · have hother : (w.grant id login).grants id' = w.grants id' := Function.update_of_ne heq ..
    rw [hother] at hgrant
    obtain ⟨c', login', hcall', hreaches⟩ := h.reached id' hgrant
    exact ⟨c', login', hcall', hreaches.move rfl (fun hmem hopen => .inr ⟨hmem, hopen⟩)
      (fun hmem => .inl (List.mem_append_left _ hmem)) (fun message hmem _ => hmem) .inl fun hmem => hmem⟩

theorem Heard.receive {id : Nat} {call : Call} {answer : SecretAnswer} (h : w.Heard) (hcall : w.calls id = some call)
    (hphase : w.phases id = .answered answer) : (w.receive id call answer).Heard := by
  have hother {id' : Nat} (hne : id' ≠ id) : (w.receive id call answer).phases id' = w.phases id' :=
    Function.update_of_ne hne ..
  have hself : (w.receive id call answer).phases id = .finished := Function.update_self ..
  obtain ⟨call', hcall', hbusy, hopen⟩ := h.busy id (by rw [hphase]; exact fun hsame => by cases hsame)
  have hsame : call' = call := Option.some.inj (hcall'.symm.trans hcall)
  subst hsame
  have hconnection (c : Nat) : ((w.receive id call' answer).connections c).ended = (w.connections c).ended ∧
      ∀ g ∈ (w.connections c).grants, g ∈ ((w.receive id call' answer).connections c).grants := by
    by_cases heq : c = call'.connection
    · subst heq
      simp only [World.receive, setConnection, Function.update_self]
      split
      · exact ⟨rfl, fun g hg => List.mem_append_left _ hg⟩
      · exact ⟨rfl, fun g hg => hg⟩
    · have hkept : (w.receive id call' answer).connections c = w.connections c := Function.update_of_ne heq ..
      rw [hkept]
      exact ⟨rfl, fun g hg => hg⟩
  constructor
  · intro id' hid'
    have hne : id' ≠ id := by
      intro heq
      rw [heq, hself] at hid'
      cases hid'
    exact h.waits id' ((hother hne).symm.trans hid')
  · intro id' hmem
    obtain ⟨hfinished, hknown⟩ := h.withdrawn id' hmem
    refine ⟨?_, hknown⟩
    by_cases heq : id' = id
    · rw [heq]
      exact hself
    · exact (hother heq).trans hfinished
  · intro id' hid'
    have hne : id' ≠ id := fun heq => hid' (heq ▸ hself)
    obtain ⟨call, hcall, hwaits, hopen⟩ := h.busy id' fun hfinished => hid' ((hother hne).trans hfinished)
    have hapart : call.connection ≠ call'.connection := by
      intro heq
      rw [heq, hbusy] at hwaits
      exact hne (Option.some.inj hwaits).symm
    refine ⟨call, hcall, ?_⟩
    have hkept : (w.receive id call' answer).connections call.connection = w.connections call.connection :=
      Function.update_of_ne hapart ..
    rw [hkept]
    exact ⟨hwaits, hopen⟩
  · intro id' hgrant
    obtain ⟨c, login, hlogin, hreaches⟩ := h.reached id' hgrant
    refine ⟨c, login, hlogin, ?_⟩
    by_cases heq : id' = id
    · subst heq
      have hanswer : answer = grantAnswer := by
        cases hreaches with
        | written hphased _ => exact absurd (hphase.symm.trans hphased) (fun hsame => by cases hsame)
        | read hphased _ => exact absurd (hphase.symm.trans hphased) (fun hsame => by cases hsame)
        | answered hphased => exact CallPhase.answered.inj (hphase.symm.trans hphased)
        | held hphased _ _ => exact absurd (hphase.symm.trans hphased) (fun hsame => by cases hsame)
        | ending hphased _ => exact absurd (hphase.symm.trans hphased) (fun hsame => by cases hsame)
        | told hphased _ => exact absurd (hphase.symm.trans hphased) (fun hsame => by cases hsame)
      rw [hlogin] at hcall
      cases hcall
      refine .held hself ?_ ((hconnection c).1.trans hopen)
      rw [hanswer]
      simp [World.receive, grantAnswer, setConnection]
    · refine hreaches.move (hother heq) (fun hmem hopen => .inr ?_) .inl (fun message hmem _ => hmem) .inl
        fun hmem => hmem
      exact ⟨(hconnection c).2 id' hmem, (hconnection c).1.trans hopen⟩

theorem Heard.abandon {id : Nat} {call : Call} (h : w.Heard) (hcall : w.calls id = some call)
    (hphase : w.phases id ≠ .finished) (hgrant : w.grants id = none) : (w.abandon id call).Heard := by
  have hother {id' : Nat} (hne : id' ≠ id) : (w.abandon id call).phases id' = w.phases id' :=
    Function.update_of_ne hne ..
  have hself : (w.abandon id call).phases id = .finished := Function.update_self ..
  obtain ⟨call', hcall', hbusy, _⟩ := h.busy id hphase
  have hsame : call' = call := Option.some.inj (hcall'.symm.trans hcall)
  subst hsame
  have hconnection (c : Nat) : ((w.abandon id call').connections c).ended = (w.connections c).ended ∧
      ((w.abandon id call').connections c).grants = (w.connections c).grants := by
    simp only [World.abandon, setConnection, Function.update_apply]
    split
    next heq => exact ⟨congrArg (fun c => (w.connections c).ended) heq.symm, congrArg (fun c => (w.connections c).grants) heq.symm⟩
    next => exact ⟨rfl, rfl⟩
  constructor
  · intro id' hid'
    have hne : id' ≠ id := by
      intro heq
      rw [heq, hself] at hid'
      cases hid'
    rcases h.waits id' ((hother hne).symm.trans hid') with hmem | hmem
    · exact .inl (List.mem_append_left _ hmem)
    · exact .inr hmem
  · intro id' hmem
    by_cases heq : id' = id
    · rw [heq]
      exact ⟨hself, fun hnone => absurd (hcall.symm.trans hnone) (fun hsame => by cases hsame)⟩
    · rcases List.mem_append.mp hmem with hmem | hmem
      · exact ⟨(hother heq).trans (h.withdrawn id' hmem).1, (h.withdrawn id' hmem).2⟩
      · exact absurd (Message.withdraw.inj (List.mem_singleton.mp hmem)) heq
  · intro id' hid'
    have hne : id' ≠ id := fun heq => hid' (heq ▸ hself)
    obtain ⟨call, hcall, hwaits, hopen⟩ := h.busy id' fun hfinished => hid' ((hother hne).trans hfinished)
    have hapart : call.connection ≠ call'.connection := by
      intro heq
      rw [heq, hbusy] at hwaits
      exact hne (Option.some.inj hwaits).symm
    have hkept : (w.abandon id call').connections call.connection = w.connections call.connection :=
      Function.update_of_ne hapart ..
    refine ⟨call, hcall, ?_⟩
    rw [hkept]
    exact ⟨hwaits, hopen⟩
  · intro id' hgranted
    obtain ⟨c, login, hlogin, hreaches⟩ := h.reached id' hgranted
    have hne : id' ≠ id := fun heq => hgranted (heq ▸ hgrant)
    refine ⟨c, login, hlogin, hreaches.move (hother hne) (fun hmem hopen => .inr ?_) .inl
      (fun message hmem _ => List.mem_append_left _ hmem) (fun hmem => .inl (List.mem_append_left _ hmem))
      fun hmem => hmem⟩
    rw [(hconnection c).1, (hconnection c).2]
    exact ⟨hmem, hopen⟩

/-- The grants of a connection that ends are told to the TUI. -/
theorem Heard.close {c : Nat} (h : w.Heard) (hidle : (w.connections c).call = none) : (w.close c).Heard := by
  have hother {c' : Nat} (hne : c' ≠ c) : (w.close c).connections c' = w.connections c' := Function.update_of_ne hne ..
  constructor
  · intro id hid
    rcases h.waits id hid with hmem | hmem
    · exact .inl (List.mem_append_left _ hmem)
    · exact .inr hmem
  · intro id hmem
    rcases List.mem_append.mp hmem with hmem | hmem
    · exact h.withdrawn id hmem
    · obtain ⟨grant, _, heq⟩ := List.mem_map.mp hmem
      cases heq
  · intro id hid
    obtain ⟨call, hcall, hwaits, hopen⟩ := h.busy id hid
    have hne : call.connection ≠ c := by
      intro heq
      rw [heq, hidle] at hwaits
      cases hwaits
    refine ⟨call, hcall, ?_⟩
    rw [hother hne]
    exact ⟨hwaits, hopen⟩
  · intro id hgrant
    obtain ⟨c', login, hcall, hreaches⟩ := h.reached id hgrant
    refine ⟨c', login, hcall, ?_⟩
    cases hreaches with
    | written hphase hmem => exact .written hphase hmem
    | read hphase hmem => exact .read hphase (List.mem_append_left _ hmem)
    | answered hphase => exact .answered hphase
    | held hphase hmem hopen =>
      by_cases heq : c' = c
      · rw [heq] at hmem
        exact .ending hphase (List.mem_append_right _ (List.mem_map_of_mem hmem))
      · refine .held hphase ?_ ?_
        · rw [hother heq]
          exact hmem
        · rw [hother heq]
          exact hopen
    | ending hphase hmem => exact .ending hphase (List.mem_append_left _ hmem)
    | told hphase hmem => exact .told hphase hmem

end

section

variable {libs : Libraries} {isHostKey : List UInt8 → Bool} {w w' : World}

theorem Heard.ask {c : Nat} {asked : Ask} (h : w.Heard) (hqueued : w.Queued)
    (hstep : w.ask libs isHostKey c asked = some w') : w'.Heard := by
  rw [World.ask] at hstep
  simp only at hstep
  split at hstep
  next => cases hstep
  next hready =>
    rw [not_or, not_not] at hready
    obtain ⟨hopen, hidle⟩ := hready
    split at hstep
    next =>
      cases hstep
      exact h
    next =>
      cases hstep
      have hfresh := (hqueued.fresh w.nextRequest (Nat.le_refl _)).1
      have hphase {id : Nat} (hne : id ≠ w.nextRequest) :
          Function.update w.phases w.nextRequest .waiting id = w.phases id := Function.update_of_ne hne ..
      have hcalls {id : Nat} (hne : id ≠ w.nextRequest) :
          Function.update w.calls w.nextRequest (some ⟨c, asked⟩) id = w.calls id := Function.update_of_ne hne ..
      have hknown {id : Nat} (hid : w.calls id ≠ none) : id ≠ w.nextRequest := fun heq => hid (heq ▸ hfresh)
      constructor
      · intro id hid
        by_cases heq : id = w.nextRequest
        · rw [heq]
          exact .inl (List.mem_append_right _ (List.mem_singleton.mpr rfl))
        · rcases h.waits id ((hphase heq).symm.trans hid) with hmem | hmem
          · exact .inl (List.mem_append_left _ hmem)
          · exact .inr hmem
      · intro id hmem
        rcases List.mem_append.mp hmem with hmem | hmem
        · obtain ⟨hfinished, hcall⟩ := h.withdrawn id hmem
          exact ⟨(hphase (hknown hcall)).trans hfinished, fun hnone => hcall ((hcalls (hknown hcall)).symm.trans hnone)⟩
        · cases List.mem_singleton.mp hmem
      · intro id hid
        by_cases heq : id = w.nextRequest
        · refine ⟨⟨c, asked⟩, ?_, ?_⟩
          · rw [heq]
            exact Function.update_self ..
          · simp only [setConnection, setPhase, Function.update_self, heq]
            exact ⟨trivial, by simpa using hopen⟩
        · obtain ⟨call, hcall, hwaits, hopened⟩ := h.busy id fun hfinished => hid ((hphase heq).trans hfinished)
          have hne : call.connection ≠ c := by
            intro hsame
            rw [hsame, hidle] at hwaits
            cases hwaits
          have hkept : Function.update w.connections c { w.connections c with call := some w.nextRequest }
              call.connection = w.connections call.connection := Function.update_of_ne hne ..
          refine ⟨call, (hcalls heq).trans hcall, ?_⟩
          simp only [setConnection, setPhase, hkept]
          exact ⟨hwaits, hopened⟩
      · intro id hgrant
        obtain ⟨c', login, hcall, hreaches⟩ := h.reached id hgrant
        have hne : id ≠ w.nextRequest := hknown (by rw [hcall]; exact fun hsame => by cases hsame)
        refine ⟨c', login, (hcalls hne).trans hcall, hreaches.move (hphase hne) (fun hmem hopened => .inr ?_) .inl
          (fun message hmem _ => List.mem_append_left _ hmem) (fun hmem => .inl (List.mem_append_left _ hmem))
          fun hmem => hmem⟩
        simp only [setConnection, setPhase, Function.update_apply]
        split
        next heq => exact heq ▸ ⟨hmem, hopened⟩
        next => exact ⟨hmem, hopened⟩

theorem Heard.charge (h : w.Heard) (id : Nat) (signature : SignatureRequest) (named : Option Nat) :
    (w.charge libs isHostKey id signature named).Heard := by
  unfold World.charge
  split
  next => exact h.finish id _
  next =>
    split
    next => exact h.finish id _
    next grant =>
      split
      next => exact h.finish id _
      next live hlive =>
        split
        next => exact (h.gone grant).finish id _
        next =>
          split
          next => exact h.finish id _
          next =>
            refine h.of_more rfl rfl rfl rfl rfl (fun _ hmem => hmem) rfl fun id' hid' => ?_
            by_cases heq : id' = grant
            · rw [heq, hlive]
              exact fun hsame => by cases hsame
            · exact fun hnone => hid' ((Function.update_of_ne heq ..).trans hnone)

theorem Heard.step {act : Act} (h : w.Heard) (hsound : w.Sound libs) (htime : w.InTime act)
    (hstep : w.step libs isHostKey act = some w') : w'.Heard := by
  cases act with
  | ask c asked => exact h.ask hsound.queued hstep
  | handle =>
    cases hinbox : w.inbox with
    | nil => simp only [World.step, hinbox] at hstep; cases hstep
    | cons message rest =>
      simp only [World.step, hinbox] at hstep
      cases hstep
      cases message with
      | job id => exact h.take_job hinbox
      | withdraw id => exact h.take_withdraw hinbox
      | grantEnded grant => exact h.take_grantEnded hinbox
      | answer id answer =>
        refine h.take_answer hsound.queued (fun id hgrant => ?_) hinbox
        obtain ⟨grant, hgrant⟩ := Option.ne_none_iff_exists'.mp hgrant
        obtain ⟨first, hfirst, _⟩ := hsound.counted.live id grant hgrant
        rw [hfirst]
        exact fun hsame => by cases hsame
  | deliver =>
    cases hframes : w.frames with
    | nil => simp only [World.step, hframes] at hstep; cases hstep
    | cons frame rest =>
      simp only [World.step, hframes] at hstep
      cases hstep
      exact h.dispatch hframes
  | hear =>
    cases hanswers : w.answers with
    | nil => simp only [World.step, hanswers] at hstep; cases hstep
    | cons entry rest =>
      simp only [World.step, hanswers] at hstep
      cases hstep
      exact h.hear hanswers
  | decide id approved =>
    simp only [World.step] at hstep
    split at hstep
    next =>
      split at hstep
      next =>
        cases hstep
        exact h.handler id _
      next =>
        cases hstep
        exact h.finish id _
    next => cases hstep
  | refuse id reason =>
    simp only [World.step] at hstep
    split at hstep
    next =>
      cases hstep
      exact h.finish id _
    next => cases hstep
  | spawned id signer =>
    simp only [World.step] at hstep
    split at hstep
    next =>
      split at hstep
      next =>
        cases hstep
        exact h.finish id _
      next hcall =>
        cases hstep
        exact h.grant htime hcall
      next => cases hstep
    next => cases hstep
  | charge id =>
    simp only [World.step] at hstep
    split at hstep
    next =>
      split at hstep
      next =>
        cases hstep
        exact h.charge id _ _
      next => cases hstep
    next => cases hstep
  | reply id reply =>
    simp only [World.step] at hstep
    split at hstep
    next =>
      split at hstep
      next =>
        cases hstep
        exact h.finish id _
      next =>
        cases hstep
        exact h.finish id _
    next => cases hstep
  | receive id =>
    simp only [World.step] at hstep
    split at hstep
    next hcall hphase =>
      cases hstep
      exact h.receive hcall hphase
    next => cases hstep
  | abandon id =>
    simp only [World.step] at hstep
    split at hstep
    next hcall =>
      split at hstep
      next => cases hstep
      next hphase =>
        cases hstep
        exact h.abandon hcall hphase htime
    next => cases hstep
  | close c =>
    simp only [World.step] at hstep
    split at hstep
    next => cases hstep
    next hready =>
      cases hstep
      rw [not_or, not_not] at hready
      exact h.close hready.2
  | tick duration =>
    cases hstep
    exact h.of_more rfl rfl rfl rfl rfl (fun _ hmem => hmem) rfl fun _ hgrant => hgrant

theorem Heard.start : ({} : World).Heard := by
  refine ⟨fun _ h => ?_, fun _ h => ?_, fun _ h => ?_, fun _ h => ?_⟩
  · cases h
  · cases h
  · exact absurd rfl h
  · exact absurd rfl h

theorem Heard.run {acts : List Act} (h : w.Heard) (hsound : w.Sound libs) (hheeds : w.Heeds libs isHostKey acts)
    (hrun : w.run libs isHostKey acts = some w') : w'.Heard := by
  induction acts generalizing w with
  | nil =>
    cases hrun
    exact h
  | cons act rest ih =>
    obtain ⟨next, hstep, hrun⟩ := Option.bind_eq_some_iff.mp hrun
    exact ih (h.step hsound hheeds.1 hstep) (hsound.step hstep) (hheeds.2 next hstep) hrun

end

/-- A grant signs for its connection, as often as it may, before it expires and what it covers. -/
structure Bounded (libs : Libraries) (w : World) : Prop where
  count : ∀ id, w.signedBy id ≤ loginGrantSignatures
  honest : ∀ signed ∈ w.log, ∃ first, w.made signed.grant = some first ∧ signed.time < first.expires ∧
    covers libs first.login signed.signature = true
  connection : ∀ signed ∈ w.log, ∃ call asker, w.calls signed.grant = some call ∧
    w.calls signed.request = some asker ∧ asker.connection = call.connection

/-- With all messages to the TUI delivered, a connection that is over has no grant there. -/
def Released (w : World) : Prop :=
  ∀ id call, w.calls id = some call → (w.connections call.connection).ended = true → w.inbox = [] → w.frames = [] →
    w.grants id = none

theorem Sound.bounded {libs : Libraries} {w : World} (h : w.Sound libs) : w.Bounded libs := by
  refine ⟨h.counted.bound, fun signed hmem => ?_, fun signed hmem => ?_⟩
  · obtain ⟨first, hfirst, htime, hcovers, _⟩ := h.counted.honest signed hmem
    exact ⟨first, hfirst, htime, hcovers⟩
  · obtain ⟨_, _, _, _, c, hasker⟩ := h.counted.honest signed hmem
    obtain ⟨call, hcall, hconnection⟩ := h.owned.named _ _ _ _ hasker
    exact ⟨call, _, hcall, hasker, hconnection.symm⟩

theorem Heard.released {w : World} (h : w.Heard) : w.Released := by
  intro id call hcall hended hinbox hframes
  by_contra hgrant
  obtain ⟨c, login, hlogin, hreaches⟩ := h.reached id hgrant
  rw [hlogin] at hcall
  cases hcall
  have hbusy (hphase : w.phases id ≠ .finished) : False := by
    obtain ⟨call, hcall, _, hopen⟩ := h.busy id hphase
    rw [hlogin] at hcall
    cases hcall
    exact absurd (hended.symm.trans hopen) (fun hsame => by cases hsame)
  cases hreaches with
  | written hphase _ => exact hbusy (by rw [hphase]; exact fun hsame => by cases hsame)
  | read hphase _ => exact hbusy (by rw [hphase]; exact fun hsame => by cases hsame)
  | answered hphase => exact hbusy (by rw [hphase]; exact fun hsame => by cases hsame)
  | held _ _ hopen => exact absurd (hended.symm.trans hopen) (fun hsame => by cases hsame)
  | ending _ hmem =>
    rw [hinbox] at hmem
    cases hmem
  | told _ hmem =>
    rw [hframes] at hmem
    cases hmem

end World

/-- Whatever the order of events, a grant keeps its bounds; and it ends with its connection in every run in
which grants are made in time. -/
theorem run_bounded (libs : Libraries) (isHostKey : List UInt8 → Bool) (acts : List Act) (w : World)
    (hrun : ({} : World).run libs isHostKey acts = some w) :
    w.Bounded libs ∧ (({} : World).Heeds libs isHostKey acts → w.Released) :=
  ⟨(World.Sound.start.run hrun).bounded, fun hheeds => (World.Heard.start.run .start hheeds hrun).released⟩

def loginAsk : Ask := .login loginConfig.login

def signatureAsk : Ask := .signature ⟨loginConfig.login.publicKey, loginConfig.login.destination, loginMessage⟩ (some 0)

def grantedRun : List Act :=
  [.ask 0 loginAsk, .handle, .deliver, .decide 0 true, .spawned 0 (.ok ()), .hear, .handle, .receive 0,
    .ask 0 signatureAsk, .handle, .deliver, .charge 1, .reply 1 (.ok agentReply), .hear, .handle, .receive 1,
    .close 0, .handle, .deliver]

/-- The requester leaves while its signer starts. -/
def leavingRun : List Act :=
  [.ask 0 loginAsk, .handle, .deliver, .decide 0 true, .abandon 0, .close 0, .spawned 0 (.ok ()), .handle, .deliver,
    .hear, .handle]

theorem run_bounded_granted : ∃ w, ({} : World).run signerLibraries (fun _ => true) grantedRun = some w ∧
    w.Bounded signerLibraries ∧ w.Released ∧ w.signedBy 0 = 1 := by
  have hruns : (({} : World).run signerLibraries (fun _ => true) grantedRun).map (·.signedBy 0) = some 1 := by
    decide +kernel
  obtain ⟨w, hrun, hone⟩ := Option.map_eq_some_iff.mp hruns
  have hheeds : ({} : World).Heeds signerLibraries (fun _ => true) grantedRun := by decide +kernel
  obtain ⟨hbounded, hreleased⟩ := run_bounded signerLibraries (fun _ => true) grantedRun w hrun
  exact ⟨w, hrun, hbounded, hreleased hheeds, hone⟩

/-- Its grant stays with the TUI, though nobody can use it. -/
theorem leavingRun_kept : ∃ w, ({} : World).run signerLibraries (fun _ => true) leavingRun = some w ∧
    w.grants 0 = some ⟨loginConfig.login, 1795000, loginGrantSignatures⟩ ∧ w.now = 0 ∧ w.answers = [] ∧ ¬ w.Released := by
  have hruns : ∃ w ∈ ({} : World).run signerLibraries (fun _ => true) leavingRun,
      w.grants 0 = some ⟨loginConfig.login, 1795000, loginGrantSignatures⟩ ∧ w.now = 0 ∧ w.answers = [] ∧
        w.calls 0 = some ⟨0, loginAsk⟩ ∧ (w.connections 0).ended = true ∧ w.inbox = [] ∧ w.frames = [] := by
    decide
  obtain ⟨w, hrun, hgrant, hnow, hanswers, hcall, hended, hinbox, hframes⟩ := hruns
  refine ⟨w, hrun, hgrant, hnow, hanswers, fun hreleased => ?_⟩
  rw [hreleased 0 _ hcall hended hinbox hframes] at hgrant
  cases hgrant

end NixSecrets.LoginGrants
