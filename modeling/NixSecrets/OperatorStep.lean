import NixSecrets.OperatorRun

namespace NixSecrets

namespace Tui

@[simp] theorem push_serving (m : Inbox) (tui : Tui) : (tui.push m).serving = tui.serving := by
  unfold push
  split <;> rfl

@[simp] theorem push_waiting (m : Inbox) (tui : Tui) : (tui.push m).waiting = tui.waiting := by
  unfold push
  split <;> rfl

@[simp] theorem push_read (m : Inbox) (tui : Tui) : (tui.push m).read = tui.read := by
  unfold push
  split <;> rfl

theorem push_inbox (m : Inbox) (tui : Tui) :
    (tui.push m).inbox = tui.inbox ++ if tui.serving = .gone then [] else [m] := by
  unfold push
  split <;> simp

@[simp] theorem wrote_inbox (w : Bool) (tui : Tui) : (tui.wrote w).inbox = tui.inbox := by
  unfold wrote
  split <;> rfl

@[simp] theorem wrote_read (w : Bool) (tui : Tui) : (tui.wrote w).read = tui.read := by
  unfold wrote
  split <;> rfl

@[simp] theorem wrote_waiting (w : Bool) (tui : Tui) : (tui.wrote w).waiting = tui.waiting := by
  unfold wrote
  split <;> rfl

theorem wrote_serving (w : Bool) (tui : Tui) :
    (tui.wrote w).serving = tui.serving ∨ (tui.wrote w).serving = .left := by
  unfold wrote
  split
  next => exact Or.inl rfl
  next => exact Or.inr rfl

theorem handled_push_subset {m message : Inbox} {tui : Tui} (h : m ∈ tui.handled) :
    m ∈ (tui.push message).handled := by
  rw [handled, push_inbox, push_read, List.take_append, List.mem_append]
  exact Or.inl h

/-- What one message does to the jobs a TUI still has to answer. -/
theorem take_waiting {tui tui' : Tui} {w : Bool} {m : Inbox} {out : Option (Nat × Outcome)}
    (h : tui.take w m = (tui', out)) {id : String} {r : Nat} (hw : tui'.waiting[id]? = some r) :
    tui.waiting[id]? = some r ∨ m = .job id r := by
  cases m with
  | job request reply =>
    simp only [take, Prod.mk.injEq] at h
    obtain ⟨rfl, rfl⟩ := h
    split at hw
    next =>
      rw [Std.ExtTreeMap.getElem?_insert] at hw
      split at hw
      next he =>
        cases hw
        exact Or.inr (by rw [Std.LawfulEqOrd.eq_of_compare he])
      next => exact Or.inl hw
    next => exact Or.inl hw
  | withdraw requestId =>
    simp only [take] at h
    split at h
    next =>
      cases h
      rw [wrote_waiting, Std.ExtTreeMap.getElem?_erase] at hw
      split at hw
      next => cases hw
      next => exact Or.inl hw
    next => cases h; exact Or.inl hw
  | answer requestId answer =>
    simp only [take] at h
    split at h
    next =>
      cases h
      rw [Std.ExtTreeMap.getElem?_erase] at hw
      split at hw
      next => cases hw
      next => exact Or.inl hw
    next => cases h; exact Or.inl hw
  | step _ | ended _ _ | grantEnded _ =>
    cases h
    rw [wrote_waiting] at hw
    exact Or.inl hw
  | cancelCountdown _ | closed => cases h; exact Or.inl hw

theorem take_same {tui tui' : Tui} {w : Bool} {m : Inbox} {out : Option (Nat × Outcome)}
    (h : tui.take w m = (tui', out)) : tui'.inbox = tui.inbox ∧ tui'.read = tui.read ∧
      (tui'.serving = tui.serving ∨ tui'.serving = .left) := by
  cases m with
  | job request reply =>
    simp only [take, Prod.mk.injEq] at h
    obtain ⟨rfl, rfl⟩ := h
    split <;> simp
  | withdraw requestId =>
    simp only [take] at h
    split at h
    next =>
      cases h
      exact ⟨wrote_inbox _ _, wrote_read _ _, wrote_serving _ _⟩
    next => cases h; exact ⟨rfl, rfl, Or.inl rfl⟩
  | answer requestId answer =>
    simp only [take] at h
    split at h <;> cases h <;> exact ⟨rfl, rfl, Or.inl rfl⟩
  | step _ | ended _ _ | grantEnded _ =>
    cases h
    exact ⟨wrote_inbox _ _, wrote_read _ _, wrote_serving _ _⟩
  | cancelCountdown _ => cases h; exact ⟨rfl, rfl, Or.inl rfl⟩
  | closed => cases h; exact ⟨rfl, rfl, Or.inr rfl⟩

/-- Only an answer or a cancelled countdown sends something, to the requester the id
is open for. -/
theorem take_out {tui tui' : Tui} {w : Bool} {m : Inbox} {r : Nat} {outcome : Outcome}
    (h : tui.take w m = (tui', some (r, outcome))) : ∃ id, tui.waiting[id]? = some r ∧
      ((∃ a, m = .answer id a ∧ outcome = .answer (.ok a)) ∨
        m = .cancelCountdown id ∧ outcome = .countdownCancelled) := by
  cases m with
  | withdraw requestId =>
    simp only [take] at h
    split at h <;> cases h
  | answer requestId answer =>
    simp only [take] at h
    split at h
    next hw => cases h; exact ⟨requestId, hw, Or.inl ⟨answer, rfl, rfl⟩⟩
    next => cases h
  | cancelCountdown requestId =>
    simp only [take, Prod.mk.injEq, Option.map_eq_some_iff] at h
    obtain ⟨_, reply, hw, rfl, rfl⟩ := h
    exact ⟨requestId, hw, Or.inr ⟨rfl, rfl⟩⟩
  | job _ _ | step _ | ended _ _ | grantEnded _ | closed => simp [take] at h

theorem handle_cases {tui tui' : Tui} {w : Bool} {out : Option (Nat × Outcome)}
    (h : tui.handle w = some (tui', out)) : tui.serving = .running ∧ ∃ m,
      tui.inbox[tui.read]? = some m ∧ { tui with read := tui.read + 1 }.take w m = (tui', out) := by
  unfold handle at h
  split at h
  next hr =>
    obtain ⟨m, hm, ht⟩ := Option.map_eq_some_iff.mp h
    exact ⟨hr, m, hm, ht⟩
  next => cases h

theorem handle_handled {tui tui' : Tui} {w : Bool} {out : Option (Nat × Outcome)}
    (h : tui.handle w = some (tui', out)) : ∃ m, tui.inbox[tui.read]? = some m ∧
      tui'.handled = tui.handled ++ [m] := by
  obtain ⟨_, m, hm, ht⟩ := handle_cases h
  obtain ⟨hi, hr, _⟩ := take_same ht
  refine ⟨m, hm, ?_⟩
  rw [handled, hi, hr, List.take_add_one, hm]
  rfl

end Tui

namespace Operators

@[simp] theorem put_attached (o : Operators) (r : Nat) (q : Requester) :
    (o.put r q).attached = o.attached := rfl

@[simp] theorem put_tuis (o : Operators) (r : Nat) (q : Requester) :
    (o.put r q).tuis = o.tuis := rfl

theorem put_requesters {o : Operators} {r r' : Nat} {q q₀ q' : Requester}
    (hq : o.requesters[r]? = some q₀) :
    (o.put r q).requesters[r']? = some q' ↔
      (r = r' ∧ q' = q) ∨ (r ≠ r' ∧ o.requesters[r']? = some q') := by
  obtain ⟨hr, _⟩ := List.getElem?_eq_some_iff.mp hq
  rw [put, List.getElem?_set]
  by_cases he : r = r'
  · subst he
    simp [hr, eq_comm]
  · simp [he]

@[simp] theorem tell_attached (o : Operators) (s : Nat) (m : Inbox) :
    (o.tell s m).attached = o.attached := rfl

@[simp] theorem tell_requesters (o : Operators) (s : Nat) (m : Inbox) :
    (o.tell s m).requesters = o.requesters := rfl

theorem tell_tuis {o : Operators} {s s' : Nat} {m : Inbox} {tui' : Tui}
    (h : (o.tell s m).tuis[s']? = some tui') : ∃ tui, o.tuis[s']? = some tui ∧
      tui' = if s = s' then tui.push m else tui := by
  rw [tell, List.getElem?_modify] at h
  obtain ⟨tui, ht, rfl⟩ := Option.map_eq_some_iff.mp h
  refine ⟨tui, ht, ?_⟩
  split <;> rfl

theorem set_tuis {o : Operators} {s s' : Nat} {tui tui' : Tui}
    (h : (o.tuis.set s tui)[s']? = some tui') :
    (s = s' ∧ tui' = tui) ∨ (s ≠ s' ∧ o.tuis[s']? = some tui') := by
  rw [List.getElem?_set] at h
  split at h
  next he =>
    split at h
    next => cases h; exact Or.inl ⟨he, rfl⟩
    next => cases h
  next he => exact Or.inr ⟨he, h⟩

/-- How a move from phase `p` to phase `p'` accounts for the slot of its call. -/
def Slot (p p' : Phase) (pending pending' : Nat) : Prop :=
  (p'.holdsClaim = p.holdsClaim ∧ pending' = pending) ∨
  (p.holdsClaim = false ∧ p'.holdsClaim = true ∧ pending < maxPending ∧ pending' = pending + 1) ∨
  (p.holdsClaim = true ∧ p'.holdsClaim = false ∧ pending' = (pending + (2 ^ 64 - 1)) % 2 ^ 64)

/-- What a move of the request `q` can do, up to the request counter. -/
inductive Moved (o : Operators) (r : Nat) (q : Requester) (m : Move) : Operators → Prop
  | keeps {q' : Requester} {pending : Nat} (hi : q'.id = q.id)
      (hs : q'.phase.servedBy = q.phase.servedBy) (hr : q'.phase.result = q.phase.result)
      (hx : ∀ x ∈ q'.reply, x ∈ q.reply) (hc : Slot q.phase q'.phase o.pending pending) :
      Moved o r q m ({ o with pending }.put r q')
  | builds {q' : Requester} {session nextRequest : Nat} (hi : q.id = none)
      (hp : q.phase = .building session) (hp' : q'.phase = .sending session)
      (hx : q'.reply = q.reply) : Moved o r q m ({ o with nextRequest }.put r q')
  | sends {session : Nat} {id : String} (hm : m = .send) (hp : q.phase = .sending session)
      (hi : q.id = some id) (hl : o.listening session = true) : Moved o r q m
        ((o.tell session (.job id r)).put r { q with phase := .waiting session q.countdown })
  | loses {session : Nat} (hp : q.phase = .sending session) (hl : o.listening session = false) :
      Moved o r q m ((o.detach session).put r { q with phase := .abandoned })
  | abandons {session : Nat} (hs : q.phase.servedBy = some session)
      (ha : session ∉ o.attached) : Moved o r q m (o.put r { q with phase := .abandoned })
  | answered {session : Nat} {deadline : Bool} {answer : Except String SecretAnswer}
      {rest : List Outcome} (hm : ∃ written, m = .receive written)
      (hp : q.phase = .waiting session deadline)
      (hx : q.reply = .answer answer :: rest) :
      Moved o r q m (o.put r { q with phase := .stopped answer, reply := rest })
  | withdraws {session : Nat} {reason : String} {rest : List Outcome}
      (hs : q.phase.servedBy = some session) :
      Moved o r q m (o.withdraw r { q with reply := rest } session reason)
  | refuses {reason : String} (hs : q.phase.servedBy = none) (hr : q.phase.result = none)
      (hc : q.phase.holdsClaim = true) : Moved o r q m (o.put r (q.stop (.error reason)))

theorem Moved.to {o : Operators} {r : Nat} {q : Requester} {m : Move} {p p' : Phase}
    (hp : q.phase = p) (hs : p'.servedBy = p.servedBy) (hr : p'.result = p.result)
    (hc : p'.holdsClaim = p.holdsClaim) : Moved o r q m (o.put r { q with phase := p' }) := by
  subst hp
  exact .keeps rfl hs hr (fun _ h => h) (Or.inl ⟨hc, rfl⟩)

theorem move_cases {o o' : Operators} {r : Nat} {q : Requester} {m : Move}
    (h : o.move r q m = some o') : Moved o r q m o' := by
  cases m with
  | claim =>
    simp only [move] at h
    split at h
    next hp =>
      cases h
      unfold claim
      split
      next hl =>
        exact .keeps rfl (by rw [hp]; rfl) (by rw [hp]; rfl) (fun _ h => h)
          (Or.inr (Or.inl ⟨by rw [hp]; rfl, rfl, hl, rfl⟩))
      next => exact .to hp rfl rfl rfl
    next => cases h
  | look =>
    simp only [move] at h
    split at h
    next hp =>
      cases h
      refine .to hp ?_ ?_ ?_
      all_goals
        split
        next => split <;> rfl
        next => rfl
    next => cases h
  | pause =>
    simp only [move] at h
    split at h
    next hp => cases h; exact .to hp rfl rfl rfl
    next => cases h
  | leave =>
    simp only [move] at h
    split at h
    next hp =>
      split at h
      next => cases h; exact .refuses (by rw [hp]; rfl) (by rw [hp]; rfl) (by rw [hp]; rfl)
      next => cases h
    next => cases h
  | refuse message =>
    simp only [move] at h
    split at h
    next hp => cases h; exact .refuses (by rw [hp]; rfl) (by rw [hp]; rfl) (by rw [hp]; rfl)
    next hp =>
      split at h
      next => cases h; exact .refuses (by rw [hp]; rfl) (by rw [hp]; rfl) (by rw [hp]; rfl)
      next => cases h
    next => cases h
  | build random step =>
    simp only [move] at h
    split at h
    next hp hi => cases h; exact .builds hi hp rfl rfl
    next => cases h
  | send =>
    simp only [move] at h
    split at h
    next hp hi =>
      cases h
      unfold sendJob
      split
      next hl => exact .sends rfl hp hi hl
      next hl => exact .loses hp (by simpa using hl)
    next => cases h
  | receive written =>
    simp only [move] at h
    split at h
    next session deadline outcome rest hp hm =>
      cases h
      cases outcome with
      | answer answer => exact .answered ⟨written, rfl⟩ hp hm
      | countdownCancelled =>
        unfold receive
        simp only
        split
        next => exact .withdraws (by rw [hp]; rfl)
        next =>
          refine .keeps rfl (by rw [hp]; rfl) (by rw [hp]; rfl) ?_ (Or.inl ⟨by rw [hp]; rfl, rfl⟩)
          intro x hx
          rw [hm]
          exact List.mem_cons_of_mem _ hx
    next => cases h
  | timeout =>
    simp only [move] at h
    split at h
    next hp _ => cases h; exact .to hp rfl rfl rfl
    next => cases h
  | check =>
    simp only [move] at h
    split at h
    next session deadline hp =>
      cases h
      unfold check
      split
      next => exact .to hp rfl rfl rfl
      next ha => exact .abandons (by rw [hp]; rfl) (by simpa [isAttached] using ha)
    next => cases h
  | giveUp =>
    simp only [move] at h
    split at h
    next hp =>
      split at h
      next => cases h; exact .withdraws (by rw [hp]; rfl)
      next => cases h
    next => cases h
  | expire =>
    simp only [move] at h
    split at h
    next hp => cases h; exact .withdraws (by rw [hp]; rfl)
    next => cases h
  | again =>
    simp only [move] at h
    split at h
    next hp => cases h; exact .to hp rfl rfl rfl
    next => cases h
  | retry =>
    simp only [move] at h
    split at h
    next hp =>
      cases h
      unfold retry
      split
      next => exact .refuses (by rw [hp]; rfl) (by rw [hp]; rfl) (by rw [hp]; rfl)
      next => exact .to hp rfl rfl rfl
    next => cases h
  | close =>
    simp only [move] at h
    split at h
    next hp =>
      cases h
      exact .keeps rfl (by rw [hp]; rfl) (by rw [hp]; rfl) (fun _ h => by cases h)
        (Or.inl ⟨by rw [hp]; rfl, rfl⟩)
    next => cases h
  | release =>
    simp only [move] at h
    split at h
    next hp =>
      cases h
      exact .keeps rfl (by rw [hp]; rfl) (by rw [hp]; rfl) (fun _ h => h)
        (Or.inr (Or.inr ⟨by rw [hp]; rfl, rfl, rfl⟩))
    next => cases h

@[simp] theorem send_attached (o : Operators) (out : Option (Nat × Outcome)) :
    (o.send out).attached = o.attached := by
  cases out <;> rfl

@[simp] theorem send_tuis (o : Operators) (out : Option (Nat × Outcome)) :
    (o.send out).tuis = o.tuis := by
  cases out <;> rfl

theorem send_requesters {o : Operators} {out : Option (Nat × Outcome)} {r : Nat} {q' : Requester}
    (h : (o.send out).requesters[r]? = some q') : ∃ q, o.requesters[r]? = some q ∧
      q'.id = q.id ∧ q'.phase = q.phase ∧ (q'.reply = q.reply ∨
        ∃ outcome, out = some (r, outcome) ∧ q'.reply = q.reply ++ [outcome]) := by
  cases out with
  | none => exact ⟨q', h, rfl, rfl, Or.inl rfl⟩
  | some x =>
    obtain ⟨r', outcome⟩ := x
    simp only [send, List.getElem?_modify] at h
    obtain ⟨q, hq, rfl⟩ := Option.map_eq_some_iff.mp h
    refine ⟨q, hq, ?_⟩
    by_cases he : r' = r
    · subst he
      simp only [if_true, Requester.deliver]
      split
      next => exact ⟨rfl, rfl, Or.inr ⟨outcome, rfl, rfl⟩⟩
      next => exact ⟨rfl, rfl, Or.inl rfl⟩
    · simp [he]

/-- One step of the channel: who acted, and on what. -/
inductive Stepped (o : Operators) : Action → Operators → Prop
  | arrives {ask : Ask} {p : Phase} (hp : p = .asked ∨ ∃ m, p = .refused m) :
      Stepped o (.arrive ask) { o with requesters := o.requesters ++ [{ ask, phase := p }] }
  | moves {r : Nat} {q : Requester} {m : Move} {o' : Operators} (hq : o.requesters[r]? = some q)
      (hm : o.move r q m = some o') : Stepped o (.move r m) o'
  | attaches : Stepped o .attach { o with
      attached := o.attached ++ [o.tuis.length], tuis := o.tuis ++ [.opened] }
  | hears {s : Nat} {tui : Tui} {m : Inbox} {reading : Bool} (ht : o.tuis[s]? = some tui)
      (hm : ∀ id r, m ≠ .job id r) :
      Stepped o (.hear s m) { o with tuis := o.tuis.set s { tui.push m with reading } }
  | handles {s : Nat} {tui tui' : Tui} {w : Bool} {out : Option (Nat × Outcome)}
      (ht : o.tuis[s]? = some tui) (hh : tui.handle w = some (tui', out)) :
      Stepped o (.handle s w) ({ o with tuis := o.tuis.set s tui' }.send out)
  | fails {s : Nat} {tui : Tui} (ht : o.tuis[s]? = some tui) (hs : tui.serving = .running) :
      Stepped o (.fail s) { o with tuis := o.tuis.set s { tui with serving := .left } }
  | unregisters {s : Nat} {tui : Tui} (ht : o.tuis[s]? = some tui) (hs : tui.serving = .left) :
      Stepped o (.unregister s) { o.detach s with
        tuis := o.tuis.set s { tui with serving := .unregistered } }
  | hangsUp {s : Nat} {tui : Tui} (ht : o.tuis[s]? = some tui)
      (hs : tui.serving = .unregistered) : Stepped o (.hangUp s) { o with
        tuis := o.tuis.set s { tui with serving := .gone, reading := false, waiting := ∅ } }
  | announces {m : Inbox} (hm : ∀ id r, m ≠ .job id r) : Stepped o (.announce m) (o.broadcast m)

theorem arrival_cases (o : Operators) (ask : Ask) :
    o.arrival ask = .asked ∨ ∃ m, o.arrival ask = .refused m := by
  unfold arrival
  split
  next => exact Or.inr ⟨_, rfl⟩
  next =>
    split
    next => exact Or.inr ⟨_, rfl⟩
    next =>
      split
      next => exact Or.inr ⟨_, rfl⟩
      next => exact Or.inl rfl

theorem hear_cases {tui tui' : Tui} {m : Inbox} (h : tui.hear m = some tui') :
    (∀ id r, m ≠ .job id r) ∧ ∃ reading, tui' = { tui.push m with reading } := by
  unfold Tui.hear at h
  split at h
  next =>
    cases m with
    | answer _ _ | cancelCountdown _ => cases h; exact ⟨by simp, _, rfl⟩
    | closed => cases h; exact ⟨by simp, false, rfl⟩
    | job _ _ | withdraw _ | step _ | ended _ _ | grantEnded _ => cases h
  next => cases h

theorem step_cases {o o' : Operators} {a : Action} (h : o.step a = some o') : Stepped o a o' := by
  cases a with
  | arrive ask => cases h; exact .arrives (arrival_cases o ask)
  | move r m =>
    obtain ⟨q, hq, hm⟩ := Option.bind_eq_some_iff.mp h
    exact .moves hq hm
  | attach => cases h; exact .attaches
  | hear s m =>
    obtain ⟨tui, ht, hh⟩ := Option.bind_eq_some_iff.mp h
    obtain ⟨tui', hr, rfl⟩ := Option.map_eq_some_iff.mp hh
    obtain ⟨hm, reading, rfl⟩ := hear_cases hr
    exact .hears ht hm
  | handle s w =>
    obtain ⟨tui, ht, hh⟩ := Option.bind_eq_some_iff.mp h
    obtain ⟨⟨tui', out⟩, hr, rfl⟩ := Option.map_eq_some_iff.mp hh
    exact .handles ht hr
  | fail s =>
    obtain ⟨tui, ht, hh⟩ := Option.bind_eq_some_iff.mp h
    split at hh
    next hs => cases hh; exact .fails ht hs
    next => cases hh
  | unregister s =>
    obtain ⟨tui, ht, hh⟩ := Option.bind_eq_some_iff.mp h
    split at hh
    next hs => cases hh; exact .unregisters ht hs
    next => cases hh
  | hangUp s =>
    obtain ⟨tui, ht, hh⟩ := Option.bind_eq_some_iff.mp h
    split at hh
    next hs => cases hh; exact .hangsUp ht hs
    next => cases hh
  | announce m =>
    cases m with
    | step _ | ended _ _ | grantEnded _ => cases h; exact .announces (by simp)
    | job _ _ | withdraw _ | answer _ _ | cancelCountdown _ | closed => cases h

end Operators

end NixSecrets
