import NixSecrets.OperatorWired

namespace NixSecrets

/-- The TUI took the job and answered it afterwards. -/
def Tui.Answered (tui : Tui) (id : String) (r : Nat) : Prop :=
  ∃ a, [Inbox.job id r, Inbox.answer id a].Sublist tui.handled

/-- The TUI was sent a withdrawal after the job. -/
def Tui.Withdrawn (tui : Tui) (id : String) (r : Nat) : Prop :=
  [Inbox.job id r, Inbox.withdraw id].Sublist tui.inbox

namespace Operators

/-- No attached TUI is left with a request that stopped waiting. -/
def NoOrphan (o : Operators) : Prop :=
  ∀ r q id s tui, o.requesters[r]? = some q → q.id = some id → q.phase.result.isSome →
    s ∈ o.attached → o.tuis[s]? = some tui → Inbox.job id r ∈ tui.inbox →
    tui.Answered id r ∨ tui.Withdrawn id r

/-- A request is sent to a TUI while its reply channel still holds an answer. -/
def sendsAnswered (o : Operators) : Action → Bool
  | .move r .send => o.requesters[r]?.any (·.reply.any Outcome.isAnswer)
  | _ => false

end Operators

theorem Phase.result_none_of_servedBy {p : Phase} {s : Nat} (h : p.servedBy = some s) :
    p.result = none := by
  cases p <;> simp_all [Phase.servedBy, Phase.result]

theorem Tui.handled_sublist_push (m : Inbox) (tui : Tui) :
    tui.handled.Sublist (tui.push m).handled := by
  rw [handled, handled, push_inbox, push_read, List.take_append]
  exact List.sublist_append_left _ _

theorem Tui.inbox_sublist_push (m : Inbox) (tui : Tui) :
    tui.inbox.Sublist (tui.push m).inbox := by
  rw [push_inbox]
  exact List.sublist_append_left _ _

namespace Operators

/-- The prompts of stopped requests are settled, and an answer still in a reply channel
came from the TUI its requester waits on. -/
structure Settled (o : Operators) : Prop where
  closed : o.NoOrphan
  current : ∀ (r : Nat) (q : Requester) (s : Nat) (a : Except String SecretAnswer),
    o.requesters[r]? = some q → q.phase.servedBy = some s → Outcome.answer a ∈ q.reply →
    ∃ (tui : Tui) (id : String), o.tuis[s]? = some tui ∧ q.id = some id ∧ tui.Answered id r

theorem Settled.empty : ({} : Operators).Settled where
  closed := by intro r q id s tui hq; simp at hq
  current := by intro r q s a hq; simp at hq

theorem Settled.counters {o : Operators} (h : o.Settled) (pending nextRequest : Nat) :
    { o with pending, nextRequest }.Settled :=
  ⟨h.closed, h.current⟩

theorem Settled.put {o : Operators} {r : Nat} {q q' : Requester} (h : o.Settled)
    (hq : o.requesters[r]? = some q)
    (hc : ∀ id s tui, q'.id = some id → q'.phase.result.isSome → s ∈ o.attached →
      o.tuis[s]? = some tui → Inbox.job id r ∈ tui.inbox → tui.Answered id r ∨ tui.Withdrawn id r)
    (hr : ∀ s a, q'.phase.servedBy = some s → Outcome.answer a ∈ q'.reply →
      ∃ tui id, o.tuis[s]? = some tui ∧ q'.id = some id ∧ tui.Answered id r) :
    (o.put r q').Settled where
  closed := by
    intro r' p id s tui hp hi hs
    rcases (put_requesters hq).mp hp with ⟨rfl, rfl⟩ | ⟨_, hp⟩
    · exact hc id s tui hi hs
    · exact h.closed r' p id s tui hp hi hs
  current := by
    intro r' p s a hp hs hm
    rcases (put_requesters hq).mp hp with ⟨rfl, rfl⟩ | ⟨_, hp⟩
    · exact hr s a hs hm
    · exact h.current r' p s a hp hs hm

theorem answered_tell {o : Operators} {s s' : Nat} {m : Inbox} {tui : Tui} {id : String} {r : Nat}
    (ht : o.tuis[s']? = some tui) (h : tui.Answered id r) :
    ∃ tui', (o.tell s m).tuis[s']? = some tui' ∧ tui'.Answered id r := by
  obtain ⟨a, ha⟩ := h
  by_cases he : s = s'
  · refine ⟨tui.push m, ?_, a, ha.trans (tui.handled_sublist_push m)⟩
    simp [tell, ht, he]
  · refine ⟨tui, ?_, a, ha⟩
    simp [tell, ht, he]

theorem Settled.tell {o : Operators} {s : Nat} {m : Inbox} (h : o.Settled)
    (hj : ∀ id r q, m = .job id r → o.requesters[r]? = some q → q.phase.result = none) :
    (o.tell s m).Settled where
  closed := by
    intro r q id s' tui' hq hi hs ha ht hm
    obtain ⟨tui, hold, rfl⟩ := tell_tuis ht
    split at hm
    next he =>
      rw [if_pos he]
      rcases mem_push hm with hm | hm
      · rcases h.closed r q id s' tui hq hi hs ha hold hm with ⟨a, hans⟩ | hw
        · exact Or.inl ⟨a, hans.trans (tui.handled_sublist_push m)⟩
        · exact Or.inr (hw.trans (tui.inbox_sublist_push m))
      · rw [hj id r q hm.symm hq] at hs
        cases hs
    next he =>
      rw [if_neg he]
      exact h.closed r q id s' tui hq hi hs ha hold hm
  current := by
    intro r q s' a hq hs hm
    obtain ⟨tui, id, ht, hi, hans⟩ := h.current r q s' a hq hs hm
    obtain ⟨tui', ht', hans'⟩ := answered_tell ht hans
    exact ⟨tui', id, ht', hi, hans'⟩

theorem Settled.tell_other {o : Operators} {s : Nat} {m : Inbox} (h : o.Settled)
    (hm : ∀ id r, m ≠ .job id r) : (o.tell s m).Settled :=
  h.tell fun id r _ he => absurd he (hm id r)

theorem Settled.broadcast {o : Operators} {m : Inbox} (h : o.Settled)
    (hm : ∀ id r, m ≠ .job id r) : (o.broadcast m).Settled := by
  unfold Operators.broadcast
  generalize o.attached = sessions
  induction sessions generalizing o with
  | nil => exact h
  | cons s sessions ih => exact ih (h.tell_other hm)

theorem Settled.detach {o : Operators} (h : o.Settled) (s : Nat) : (o.detach s).Settled where
  closed := fun r q id s' tui hq hi hs ha => h.closed r q id s' tui hq hi hs (mem_detach.mp ha).1
  current := h.current

theorem Settled.serve {o : Operators} {s : Nat} {tui tui' : Tui} (h : o.Settled)
    (ht : o.tuis[s]? = some tui)
    (hj : ∀ id r, Inbox.job id r ∈ tui'.inbox → Inbox.job id r ∈ tui.inbox)
    (hi : tui.inbox.Sublist tui'.inbox) (hh : tui.handled.Sublist tui'.handled) :
    { o with tuis := o.tuis.set s tui' }.Settled where
  closed := by
    intro r q id s' t hq hid hs ha hget hm
    rcases set_tuis hget with ⟨rfl, rfl⟩ | ⟨_, hold⟩
    · rcases h.closed r q id s tui hq hid hs ha ht (hj id r hm) with ⟨a, hans⟩ | hw
      · exact Or.inl ⟨a, hans.trans hh⟩
      · exact Or.inr (hw.trans hi)
    · exact h.closed r q id s' t hq hid hs ha hold hm
  current := by
    intro r q s' a hq hs hm
    obtain ⟨t, id, hold, hid, b, hans⟩ := h.current r q s' a hq hs hm
    by_cases he : s = s'
    · subst he
      rw [ht] at hold
      cases hold
      have hlt := (List.getElem?_eq_some_iff.mp ht).1
      exact ⟨tui', id, by simp [hlt], hid, b, hans.trans hh⟩
    · exact ⟨t, id, by simpa [List.getElem?_set, he] using hold, hid, b, hans⟩

theorem Settled.moved {o o' : Operators} {r : Nat} {q : Requester} {m : Move} (h : o.Settled)
    (hw : o.Wired) (hq : o.requesters[r]? = some q) (hm : Moved o r q m o')
    (ha : m = .send → ∀ a, Outcome.answer a ∉ q.reply) : o'.Settled := by
  -- a request that no TUI serves and that has no result was sent to no attached TUI
  have unsent {id : String} {s : Nat} {tui : Tui} (hs : q.phase.servedBy ≠ some s)
      (hr : q.phase.result = none) (hat : s ∈ o.attached) (ht : o.tuis[s]? = some tui) :
      Inbox.job id r ∉ tui.inbox := by
    intro hj
    obtain ⟨p, hp, _, hsent⟩ := hw.sent s tui id r ht hj
    rw [hq] at hp
    cases hp
    rcases hsent hat with hv | hv
    · exact hs hv
    · rw [hr] at hv; cases hv
  cases hm with
  | @keeps q' pending hi hs hr hm _ =>
    refine (h.counters pending o.nextRequest).put hq ?_ ?_
    · rw [hi, hr]
      exact fun id s tui => h.closed r q id s tui hq
    · intro s a hv hx
      rw [hi]
      exact h.current r q s a hq (hs ▸ hv) (hm _ hx)
  | builds hi _ hp' _ =>
    refine (h.counters _ _).put hq ?_ ?_
    · intro id s tui _ hv
      rw [hp'] at hv
      cases hv
    · intro s a hv
      rw [hp'] at hv
      cases hv
  | @sends session id hsend hp hi hl =>
    have hput : (o.put r { q with phase := .waiting session q.countdown }).Settled := by
      refine h.put hq ?_ ?_
      · intro id s tui _ hv
        cases hv
      · intro s a _ hx
        exact absurd hx (ha hsend a)
    refine hput.tell fun id' r' p he hget => ?_
    cases he
    rcases (put_requesters hq).mp hget with ⟨_, rfl⟩ | ⟨hne, _⟩
    · rfl
    · exact absurd rfl hne
  | @loses session hp hl =>
    refine (h.detach session).put hq ?_ ?_
    · intro id s tui _ hv
      cases hv
    · intro s a hv
      cases hv
  | abandons hs hat =>
    refine h.put hq ?_ ?_
    · intro id s tui _ hv
      cases hv
    · intro s a hv
      cases hv
  | @answered session deadline answer rest _ hp hm =>
    have hs : q.phase.servedBy = some session := by rw [hp]; rfl
    refine h.put hq ?_ ?_
    · intro id s tui hi _ hat ht hj
      obtain ⟨tui', id', ht', hi', hans⟩ := h.current r q session answer hq hs (by simp [hm])
      by_cases he : session = s
      · subst he
        rw [ht] at ht'
        cases ht'
        rw [hi'] at hi
        cases hi
        exact Or.inl hans
      · have hne : q.phase.servedBy ≠ some s := by
          rw [hs]
          exact fun h => he (Option.some.inj h)
        exact absurd hj (unsent hne (Phase.result_none_of_servedBy hs) hat ht)
    · intro s a hv
      cases hv
  | @withdraws session reason rest hs =>
    have hr := Phase.result_none_of_servedBy hs
    have unsent_other {id : String} {s : Nat} {tui : Tui} (he : session ≠ s)
        (hat : s ∈ o.attached) (ht : o.tuis[s]? = some tui) : Inbox.job id r ∉ tui.inbox := by
      refine unsent ?_ hr hat ht
      rw [hs]
      exact fun h => he (Option.some.inj h)
    unfold withdraw
    cases hi : q.id with
    | none =>
      refine h.put hq ?_ ?_
      · intro id s tui hid
        cases hid
      · intro s a hv
        cases hv
    | some id =>
      have htell : (o.tell session (.withdraw id)).Settled := h.tell_other (by simp)
      refine htell.put hq ?_ ?_
      · intro id' s tui' hid _ hat ht hj
        cases hid
        obtain ⟨tui, hold, rfl⟩ := tell_tuis ht
        by_cases he : session = s
        · rw [if_pos he] at hj ⊢
          rcases mem_push hj with hj | hj
          · have hg : tui.serving ≠ .gone := by
              rcases hw.serving s tui hold hat with hv | hv <;> simp [hv]
            refine Or.inr ?_
            rw [Tui.Withdrawn, Tui.push_inbox, if_neg hg]
            exact (List.singleton_sublist.mpr hj).append (List.Sublist.refl [Inbox.withdraw id])
          · cases hj
        · rw [if_neg he] at hj
          exact absurd hj (unsent_other he hat hold)
      · intro s a hv
        cases hv
  | refuses hs hr _ =>
    refine h.put hq ?_ ?_
    · intro id s tui _ _ hat ht hj
      exact absurd hj (unsent (by simp [hs]) hr hat ht)
    · intro s a hv
      cases hv

theorem Settled.handled {o : Operators} {s : Nat} {tui tui' : Tui} {w : Bool}
    {out : Option (Nat × Outcome)} (h : o.Settled) (hw : o.Wired) (ht : o.tuis[s]? = some tui)
    (hh : tui.handle w = some (tui', out)) :
    ({ o with tuis := o.tuis.set s tui' }.send out).Settled := by
  obtain ⟨hrun, m, hm, hk⟩ := Tui.handle_cases hh
  obtain ⟨m', hm', hd⟩ := Tui.handle_handled hh
  rw [hm] at hm'
  cases hm'
  have hin : tui'.inbox = tui.inbox := (Tui.take_same hk).1
  have hset : { o with tuis := o.tuis.set s tui' }.Settled := by
    refine h.serve ht (fun id r hj => hin ▸ hj) (hin ▸ List.Sublist.refl _) ?_
    rw [hd]
    exact List.sublist_append_left _ _
  constructor
  · intro r q' id s' t hq' hid hs ha hget
    obtain ⟨q, hq, hi, hp, _⟩ := send_requesters hq'
    rw [send_attached] at ha
    rw [send_tuis] at hget
    exact hset.closed r q id s' t hq (hi ▸ hid) (hp ▸ hs) ha hget
  · intro r q' s' a hq' hs hx
    obtain ⟨q, hq, hi, hp, hreply⟩ := send_requesters hq'
    rw [send_tuis, hi]
    rw [hp] at hs
    rcases hreply with hreply | ⟨outcome, rfl, hreply⟩
    · exact hset.current r q s' a hq hs (hreply ▸ hx)
    · rw [hreply, List.mem_append, List.mem_singleton] at hx
      rcases hx with hx | rfl
      · exact hset.current r q s' a hq hs hx
      · -- the answer just taken is that of the TUI the requester waits on
        obtain ⟨id, hopen, hcase⟩ := Tui.take_out hk
        have hjob := hw.shown s tui id r ht hopen
        obtain ⟨p, hget, hid, hsent⟩ := hw.sent s tui id r ht (List.mem_of_mem_take hjob)
        have hpq : p = q := Option.some.inj (hget.symm.trans hq)
        subst hpq
        have hserved : s = s' := by
          rcases hsent (hw.registered s tui ht hrun) with hv | hv
          · exact Option.some.inj (hv.symm.trans hs)
          · rw [Phase.result_none_of_servedBy hs] at hv
            cases hv
        subst hserved
        have hlt := (List.getElem?_eq_some_iff.mp ht).1
        rcases hcase with ⟨b, rfl, _⟩ | ⟨_, hc⟩
        · refine ⟨tui', id, by simp [hlt], hid, b, ?_⟩
          rw [hd]
          exact (List.singleton_sublist.mpr hjob).append (List.Sublist.refl [Inbox.answer id b])
        · cases hc

theorem Settled.arrive {o : Operators} {q₀ : Requester} (h : o.Settled)
    (hs : q₀.phase.servedBy = none) (hr : q₀.phase.result = none) :
    { o with requesters := o.requesters ++ [q₀] }.Settled := by
  have old {r : Nat} {q : Requester} (hq : (o.requesters ++ [q₀])[r]? = some q) :
      o.requesters[r]? = some q ∨ q = q₀ := by
    rw [List.getElem?_append] at hq
    split at hq
    next => exact Or.inl hq
    next =>
      rw [List.getElem?_singleton] at hq
      split at hq
      next => cases hq; exact Or.inr rfl
      next => cases hq
  constructor
  · intro r q id s tui hq hid hres
    rcases old hq with hq | rfl
    · exact h.closed r q id s tui hq hid hres
    · rw [hr] at hres
      cases hres
  · intro r q s a hq hv
    rcases old hq with hq | rfl
    · exact h.current r q s a hq hv
    · rw [hs] at hv
      cases hv

theorem Settled.attach {o : Operators} (h : o.Settled) :
    { o with attached := o.attached ++ [o.tuis.length], tuis := o.tuis ++ [Tui.opened] }.Settled := by
  constructor
  · intro r q id s tui hq hid hres ha ht hj
    rcases attach_tuis ht with ht | ⟨rfl, rfl⟩
    · have hlt := (List.getElem?_eq_some_iff.mp ht).1
      have ha : s ∈ o.attached := by
        rcases List.mem_append.mp ha with ha | ha
        · exact ha
        · rw [List.mem_singleton.mp ha] at hlt
          omega
      exact h.closed r q id s tui hq hid hres ha ht hj
    · simp [Tui.opened] at hj
  · intro r q s a hq hv hx
    obtain ⟨tui, id, ht, hid, hans⟩ := h.current r q s a hq hv hx
    have hlt := (List.getElem?_eq_some_iff.mp ht).1
    exact ⟨tui, id, by rw [List.getElem?_append_left hlt]; exact ht, hid, hans⟩

theorem Settled.step {o o' : Operators} {a : Action} (h : o.Settled) (hw : o.Wired)
    (hs : o.step a = some o') (ha : o.sendsAnswered a = false) : o'.Settled := by
  cases step_cases hs with
  | arrives hp =>
    rcases hp with rfl | ⟨m, rfl⟩
    · exact h.arrive rfl rfl
    · exact h.arrive rfl rfl
  | @moves r q m o' hq hm =>
    refine h.moved hw hq (move_cases hm) fun hsend answer hx => ?_
    subst hsend
    simp only [sendsAnswered, hq, Option.any_some, List.any_eq_false] at ha
    exact absurd rfl (ha _ hx)
  | attaches => exact h.attach
  | @hears s tui m reading ht hm =>
    refine h.serve ht ?_ (tui.inbox_sublist_push m) (tui.handled_sublist_push m)
    intro id r hj
    rcases mem_push hj with hj | hj
    · exact hj
    · exact absurd hj.symm (hm id r)
  | handles ht hh => exact h.handled hw ht hh
  | fails ht _ =>
    exact h.serve ht (fun _ _ hj => hj) (List.Sublist.refl _) (List.Sublist.refl _)
  | unregisters ht _ =>
    exact (h.detach _).serve ht (fun _ _ hj => hj) (List.Sublist.refl _) (List.Sublist.refl _)
  | hangsUp ht _ =>
    exact h.serve ht (fun _ _ hj => hj) (List.Sublist.refl _) (List.Sublist.refl _)
  | announces hm => exact h.broadcast hm

theorem run_settled {o₀ o : Operators} {trace : List (Operators × Action)}
    (run : OperatorRun o₀ trace o) (h : o₀.Settled) (hw : o₀.Wired)
    (ha : ∀ x ∈ trace, x.1.sendsAnswered x.2 = false) : o.Settled := by
  induction run with
  | start => exact h
  | step run next ih =>
    have ih := ih fun x hx => ha x (List.mem_append_left _ hx)
    exact ih.step (run_wired run hw) next
      (ha _ (List.mem_append_right _ (List.mem_singleton.mpr rfl)))

/-- As long as no request is sent on while its channel still holds an answer, no attached
TUI is left with a request that stopped waiting. -/
theorem run_noOrphan {o : Operators} {trace : List (Operators × Action)}
    (run : OperatorRun {} trace o) (ha : ∀ x ∈ trace, x.1.sendsAnswered x.2 = false) :
    o.NoOrphan :=
  (run_settled run .empty .empty ha).closed

/-- A confirmed answer of the first TUI is still unread when that TUI detaches; the request
goes to a second TUI and is then answered by the first. -/
def handedOver : List Action :=
  [.arrive {}, .move 0 .claim, .attach, .move 0 .look,
    .move 0 (.build (List.replicate 8 0) ⟨"", "", 1, none, "", false, none, none, none⟩),
    .move 0 .send, .handle 0 true, .move 0 .timeout,
    .hear 0 (.answer "secret-0-0000000000000000" .confirmed), .handle 0 true, .hear 0 .closed,
    .handle 0 true, .unregister 0, .attach, .move 0 .check, .move 0 .retry, .move 0 .look,
    .move 0 .send, .handle 1 true, .move 0 (.receive true)]

theorem handedOver_runs : (stepAll {} handedOver).isSome := by decide

theorem handedOver_orphan : ∃ trace o, stepAll {} handedOver = some (trace, o) ∧
    OperatorRun {} trace o ∧ ¬ o.NoOrphan := by
  have he := (Option.some_get handedOver_runs).symm
  refine ⟨_, _, he, stepAll_run he, fun h => ?_⟩
  have requester : ((stepAll {} handedOver).get handedOver_runs).2.requesters[0]? = some
      ⟨{}, some "secret-0-0000000000000000", true, .stopped (.ok .confirmed), []⟩ := by
    decide
  have second : ((stepAll {} handedOver).get handedOver_runs).2.tuis[1]? = some
      ⟨[.job "secret-0-0000000000000000" 0], 1, true, .running,
        (∅ : BTreeMap String Nat).insert "secret-0-0000000000000000" 0⟩ := by
    decide
  rcases h 0 _ _ 1 _ requester rfl rfl (by decide) second (by simp) with ⟨a, hc⟩ | hc
  · have hle := hc.length_le
    simp [Tui.handled] at hle
  · have hle := hc.length_le
    simp at hle

def gaveUp : List Action :=
  [.arrive {}, .move 0 .claim, .attach, .move 0 .look,
    .move 0 (.build (List.replicate 8 0) ⟨"", "", 1, none, "", false, none, none, none⟩),
    .move 0 .send, .handle 0 true, .move 0 .timeout, .move 0 .check, .move 0 .giveUp]

theorem gaveUp_noOrphan : ∃ trace o, stepAll {} gaveUp = some (trace, o) ∧ o.NoOrphan := by
  have hs : (stepAll {} gaveUp).isSome := by decide
  have he := (Option.some_get hs).symm
  exact ⟨_, _, he, run_noOrphan (stepAll_run he) (by decide)⟩

end Operators

end NixSecrets
