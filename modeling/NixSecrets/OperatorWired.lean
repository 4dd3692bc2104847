import NixSecrets.OperatorStep

namespace NixSecrets

namespace Operators

/-- How jobs, reply channels and the registry fit together in every reachable state. -/
structure Wired (o : Operators) : Prop where
  registered : ∀ s tui, o.tuis[s]? = some tui → tui.serving = .running → s ∈ o.attached
  serving : ∀ s tui, o.tuis[s]? = some tui → s ∈ o.attached →
    tui.serving = .running ∨ tui.serving = .left
  shown : ∀ (s : Nat) (tui : Tui) (id : String) (r : Nat), o.tuis[s]? = some tui →
    tui.waiting[id]? = some r → Inbox.job id r ∈ tui.handled
  sent : ∀ s tui id r, o.tuis[s]? = some tui → Inbox.job id r ∈ tui.inbox →
    ∃ q, o.requesters[r]? = some q ∧ q.id = some id ∧
      (s ∈ o.attached → q.phase.servedBy = some s ∨ q.phase.result.isSome)

theorem Wired.empty : ({} : Operators).Wired where
  registered := by simp
  serving := by simp
  shown := by simp
  sent := by simp

theorem Wired.counters {o : Operators} (h : o.Wired) (pending nextRequest : Nat) :
    { o with pending, nextRequest }.Wired :=
  ⟨h.registered, h.serving, h.shown, h.sent⟩

theorem Wired.put {o : Operators} {r : Nat} {q q' : Requester} (h : o.Wired)
    (hq : o.requesters[r]? = some q) (hi : q.id = none ∨ q'.id = q.id)
    (hs : ∀ s ∈ o.attached, q.phase.servedBy = some s ∨ q.phase.result.isSome →
      q'.phase.servedBy = some s ∨ q'.phase.result.isSome) : (o.put r q').Wired where
  registered := h.registered
  serving := h.serving
  shown := h.shown
  sent := by
    intro s tui id r' ht hj
    obtain ⟨p, hp, hid, ha⟩ := h.sent s tui id r' ht hj
    by_cases he : r = r'
    · subst he
      rw [hq] at hp
      cases hp
      have hid' : q'.id = some id := by
        rcases hi with hn | hk
        · rw [hn] at hid; cases hid
        · exact hk.trans hid
      exact ⟨q', (put_requesters hq).mpr (Or.inl ⟨rfl, rfl⟩), hid', fun hm => hs s hm (ha hm)⟩
    · exact ⟨p, (put_requesters hq).mpr (Or.inr ⟨he, hp⟩), hid, ha⟩

theorem mem_push {m message : Inbox} {tui : Tui} (h : message ∈ (tui.push m).inbox) :
    message ∈ tui.inbox ∨ message = m := by
  rw [Tui.push_inbox, List.mem_append] at h
  rcases h with h | h
  · exact Or.inl h
  · split at h
    next => cases h
    next => exact Or.inr (List.mem_singleton.mp h)

/-- A job may be sent once its requester waits on that TUI; any other message always. -/
theorem Wired.tell {o : Operators} {s : Nat} {m : Inbox} (h : o.Wired)
    (hj : ∀ id r, m = .job id r → ∃ q, o.requesters[r]? = some q ∧ q.id = some id ∧
      q.phase.servedBy = some s) : (o.tell s m).Wired where
  registered := by
    intro s' tui' ht hr
    obtain ⟨tui, hs, rfl⟩ := tell_tuis ht
    refine h.registered s' tui hs ?_
    split at hr
    next => simpa using hr
    next => exact hr
  serving := by
    intro s' tui' ht ha
    obtain ⟨tui, hs, rfl⟩ := tell_tuis ht
    have hg := h.serving s' tui hs ha
    split
    next => simpa using hg
    next => exact hg
  shown := by
    intro s' tui' id r ht hw
    obtain ⟨tui, hs, rfl⟩ := tell_tuis ht
    split at hw
    next he =>
      rw [if_pos he]
      exact Tui.handled_push_subset (h.shown s' tui id r hs (by simpa using hw))
    next he =>
      rw [if_neg he]
      exact h.shown s' tui id r hs hw
  sent := by
    intro s' tui' id r ht hm
    obtain ⟨tui, hs, rfl⟩ := tell_tuis ht
    split at hm
    next he =>
      rcases mem_push hm with hm | hm
      · exact h.sent s' tui id r hs hm
      · obtain ⟨q, hq, hid, hq'⟩ := hj id r hm.symm
        exact ⟨q, hq, hid, fun _ => Or.inl (he ▸ hq')⟩
    next => exact h.sent s' tui id r hs hm

theorem Wired.tell_other {o : Operators} {s : Nat} {m : Inbox} (h : o.Wired)
    (hm : ∀ id r, m ≠ .job id r) : (o.tell s m).Wired :=
  h.tell fun id r he => absurd he (hm id r)

theorem Wired.broadcast {o : Operators} {m : Inbox} (h : o.Wired) (hm : ∀ id r, m ≠ .job id r) :
    (o.broadcast m).Wired := by
  unfold Operators.broadcast
  generalize o.attached = sessions
  induction sessions generalizing o with
  | nil => exact h
  | cons s sessions ih => exact ih (h.tell_other hm)

theorem mem_detach {o : Operators} {s s' : Nat} :
    s' ∈ (o.detach s).attached ↔ s' ∈ o.attached ∧ s' ≠ s := by
  simp [detach]

theorem Wired.detach {o : Operators} {s : Nat} (h : o.Wired)
    (hs : ∀ tui, o.tuis[s]? = some tui → tui.serving ≠ .running) : (o.detach s).Wired where
  registered := by
    intro s' tui ht hr
    refine mem_detach.mpr ⟨h.registered s' tui ht hr, ?_⟩
    rintro rfl
    exact hs tui ht hr
  serving := fun s' tui ht ha => h.serving s' tui ht (mem_detach.mp ha).1
  shown := h.shown
  sent := by
    intro s' tui id r ht hm
    obtain ⟨q, hq, hid, ha⟩ := h.sent s' tui id r ht hm
    exact ⟨q, hq, hid, fun hd => ha (mem_detach.mp hd).1⟩

theorem Wired.serve {o : Operators} {s : Nat} {tui tui' : Tui} (h : o.Wired)
    (ht : o.tuis[s]? = some tui)
    (hi : ∀ id r, Inbox.job id r ∈ tui'.inbox → Inbox.job id r ∈ tui.inbox)
    (hw : ∀ (id : String) (r : Nat), tui'.waiting[id]? = some r → Inbox.job id r ∈ tui'.handled)
    (hr : tui'.serving = .running → tui.serving = .running)
    (hg : s ∈ o.attached → tui'.serving = .running ∨ tui'.serving = .left) :
    { o with tuis := o.tuis.set s tui' }.Wired where
  registered := by
    intro s' t hs hrun
    rcases set_tuis hs with ⟨rfl, rfl⟩ | ⟨_, hs⟩
    · exact h.registered s tui ht (hr hrun)
    · exact h.registered s' t hs hrun
  serving := by
    intro s' t hs ha
    rcases set_tuis hs with ⟨rfl, rfl⟩ | ⟨_, hs⟩
    · exact hg ha
    · exact h.serving s' t hs ha
  shown := by
    intro s' t id r hs hwt
    rcases set_tuis hs with ⟨rfl, rfl⟩ | ⟨_, hs⟩
    · exact hw id r hwt
    · exact h.shown s' t id r hs hwt
  sent := by
    intro s' t id r hs hm
    rcases set_tuis hs with ⟨rfl, rfl⟩ | ⟨_, hs⟩
    · exact h.sent s tui id r ht (hi id r hm)
    · exact h.sent s' t id r hs hm

theorem send_requesters_of {o : Operators} {r : Nat} {q : Requester}
    (h : o.requesters[r]? = some q) (out : Option (Nat × Outcome)) :
    ∃ q', (o.send out).requesters[r]? = some q' ∧ q'.id = q.id ∧ q'.phase = q.phase := by
  cases out with
  | none => exact ⟨q, h, rfl, rfl⟩
  | some x =>
    obtain ⟨r', outcome⟩ := x
    refine ⟨if r' = r then q.deliver outcome else q, ?_, ?_⟩
    · simp [send, List.getElem?_modify, h]
    · unfold Requester.deliver
      split
      next => split <;> exact ⟨rfl, rfl⟩
      next => exact ⟨rfl, rfl⟩

theorem Wired.send {o : Operators} (h : o.Wired) (out : Option (Nat × Outcome)) :
    (o.send out).Wired where
  registered := by simpa using h.registered
  serving := by simpa using h.serving
  shown := by simpa using h.shown
  sent := by
    intro s tui id r ht hm
    rw [send_tuis] at ht
    obtain ⟨q, hq, hid, ha⟩ := h.sent s tui id r ht hm
    obtain ⟨q', hq', hi, hp⟩ := send_requesters_of hq out
    exact ⟨q', hq', hi.trans hid, by rw [hp, send_attached]; exact ha⟩

theorem withdraw_cases (o : Operators) (r : Nat) (q : Requester) (session : Nat) (reason : String) :
    o.withdraw r q session reason = o.put r (q.stop (.error reason)) ∨
      ∃ id, q.id = some id ∧ o.withdraw r q session reason =
        (o.put r (q.stop (.error reason))).tell session (.withdraw id) := by
  unfold withdraw
  cases hi : q.id with
  | none => exact Or.inl rfl
  | some id => exact Or.inr ⟨id, rfl, rfl⟩

theorem not_running_of_not_listening {o : Operators} {s : Nat} {tui : Tui}
    (hl : o.listening s = false) (ht : o.tuis[s]? = some tui) : tui.serving = .gone := by
  simpa [listening, ht] using hl

theorem Wired.moved {o o' : Operators} {r : Nat} {q : Requester} {m : Move} (h : o.Wired)
    (hq : o.requesters[r]? = some q) (hm : Moved o r q m o') : o'.Wired := by
  cases hm with
  | keeps hi hs hr _ _ =>
    exact (h.counters _ _).put hq (Or.inr hi) fun s _ ha => by rwa [hs, hr]
  | builds hi hp _ _ =>
    refine (h.counters _ _).put hq (Or.inl hi) fun s _ ha => ?_
    rw [hp] at ha
    rcases ha with ha | ha <;> cases ha
  | @sends session id _ hp hi hl =>
    have hput : (o.put r { q with phase := .waiting session q.countdown }).Wired := by
      refine h.put hq (Or.inr rfl) fun s _ ha => ?_
      rw [hp] at ha
      rcases ha with ha | ha <;> cases ha
    refine hput.tell fun id' r' he => ?_
    cases he
    exact ⟨_, (put_requesters hq).mpr (Or.inl ⟨rfl, rfl⟩), hi, rfl⟩
  | @loses session hp hl =>
    have hd : (o.detach session).Wired := h.detach fun tui ht hr => by
      rw [not_running_of_not_listening hl ht] at hr
      cases hr
    refine hd.put hq (Or.inr rfl) fun s _ ha => ?_
    rw [hp] at ha
    rcases ha with ha | ha <;> cases ha
  | abandons hs ha =>
    refine h.put hq (Or.inr rfl) fun s hs' hq' => ?_
    rcases hq' with hq' | hq'
    · rw [hs] at hq'
      cases hq'
      exact absurd hs' ha
    · revert hs hq'
      cases q.phase <;> simp [Phase.servedBy, Phase.result]
  | answered _ _ _ => exact h.put hq (Or.inr rfl) fun _ _ _ => Or.inr rfl
  | @withdraws session reason rest hs =>
    have hput : (o.put r ({ q with reply := rest }.stop (.error reason))).Wired :=
      h.put hq (Or.inr rfl) fun _ _ _ => Or.inr rfl
    rcases withdraw_cases o r { q with reply := rest } session reason with he | ⟨id, _, he⟩
    · rwa [he]
    · rw [he]
      exact hput.tell_other (by simp)
  | refuses _ _ _ => exact h.put hq (Or.inr rfl) fun _ _ _ => Or.inr rfl

theorem Wired.arrive {o : Operators} (h : o.Wired) (q : Requester) :
    { o with requesters := o.requesters ++ [q] }.Wired where
  registered := h.registered
  serving := h.serving
  shown := h.shown
  sent := by
    intro s tui id r ht hm
    obtain ⟨p, hp, hid, ha⟩ := h.sent s tui id r ht hm
    have hr := (List.getElem?_eq_some_iff.mp hp).1
    exact ⟨p, by rw [List.getElem?_append_left hr]; exact hp, hid, ha⟩

theorem attach_tuis {o : Operators} {s : Nat} {tui : Tui}
    (h : (o.tuis ++ [Tui.opened])[s]? = some tui) :
    o.tuis[s]? = some tui ∨ (s = o.tuis.length ∧ tui = .opened) := by
  rw [List.getElem?_append] at h
  split at h
  next => exact Or.inl h
  next hs =>
    rw [List.getElem?_singleton] at h
    split at h
    next => cases h; exact Or.inr ⟨by omega, rfl⟩
    next => cases h

theorem Wired.attach {o : Operators} (h : o.Wired) :
    { o with attached := o.attached ++ [o.tuis.length], tuis := o.tuis ++ [Tui.opened] }.Wired where
  registered := by
    intro s tui ht hr
    rcases attach_tuis ht with ht | ⟨rfl, rfl⟩
    · exact List.mem_append_left _ (h.registered s tui ht hr)
    · exact List.mem_append_right _ (List.mem_singleton.mpr rfl)
  serving := by
    intro s tui ht ha
    rcases attach_tuis ht with ht | ⟨rfl, rfl⟩
    · rcases List.mem_append.mp ha with ha | ha
      · exact h.serving s tui ht ha
      · have hs := (List.getElem?_eq_some_iff.mp ht).1
        rw [List.mem_singleton.mp ha] at hs
        omega
    · exact Or.inl rfl
  shown := by
    intro s tui id r ht hw
    rcases attach_tuis ht with ht | ⟨rfl, rfl⟩
    · exact h.shown s tui id r ht hw
    · simp [Tui.opened] at hw
  sent := by
    intro s tui id r ht hm
    rcases attach_tuis ht with ht | ⟨rfl, rfl⟩
    · obtain ⟨q, hq, hid, ha⟩ := h.sent s tui id r ht hm
      refine ⟨q, hq, hid, fun hs => ?_⟩
      rcases List.mem_append.mp hs with hs | hs
      · exact ha hs
      · have hlt := (List.getElem?_eq_some_iff.mp ht).1
        rw [List.mem_singleton.mp hs] at hlt
        omega
    · simp [Tui.opened] at hm

theorem Wired.step {o o' : Operators} {a : Action} (h : o.Wired) (hs : o.step a = some o') :
    o'.Wired := by
  cases step_cases hs with
  | arrives _ => exact h.arrive _
  | moves hq hm => exact h.moved hq (move_cases hm)
  | attaches => exact h.attach
  | @hears s tui m reading ht hm =>
    refine h.serve ht ?_ ?_ ?_ ?_
    · intro id r hj
      rcases mem_push hj with hj | hj
      · exact hj
      · exact absurd hj.symm (hm id r)
    · intro id r hw
      exact Tui.handled_push_subset (h.shown s tui id r ht (by simpa using hw))
    · simp
    · simpa using h.serving s tui ht
  | @handles s tui tui' w out ht hh =>
    obtain ⟨hr, m, hm, hk⟩ := Tui.handle_cases hh
    obtain ⟨hi, _, hv⟩ := Tui.take_same hk
    refine (h.serve ht (fun id r hj => hi ▸ hj) ?_ ?_ ?_).send out
    · intro id r hw
      obtain ⟨m', hm', hd⟩ := Tui.handle_handled hh
      rw [hm] at hm'
      cases hm'
      rw [hd, List.mem_append]
      rcases Tui.take_waiting hk hw with hw | rfl
      · exact Or.inl (h.shown s tui id r ht hw)
      · exact Or.inr (List.mem_singleton.mpr rfl)
    · exact fun _ => hr
    · intro _
      rcases hv with hv | hv
      · exact Or.inl (hv.trans hr)
      · exact Or.inr hv
  | @fails s tui ht hr =>
    exact h.serve ht (fun _ _ hj => hj) (fun id r => h.shown s tui id r ht) (fun _ => hr)
      (fun _ => Or.inr rfl)
  | @unregisters s tui ht hl =>
    have hd : (o.detach s).Wired := h.detach fun t hs hr => by
      rw [ht] at hs
      cases hs
      rw [hl] at hr
      cases hr
    refine hd.serve ht (fun _ _ hj => hj) (fun id r => h.shown s tui id r ht) (by simp) fun ha => ?_
    exact absurd rfl (mem_detach.mp ha).2
  | @hangsUp s tui ht hu =>
    refine h.serve ht (fun _ _ hj => hj) (by simp) (by simp) fun ha => ?_
    have hv := h.serving s tui ht ha
    rw [hu] at hv
    rcases hv with hv | hv <;> cases hv
  | announces hm => exact h.broadcast hm

theorem run_wired {o₀ o : Operators} {trace : List (Operators × Action)}
    (run : OperatorRun o₀ trace o) (h : o₀.Wired) : o.Wired := by
  induction run with
  | start => exact h
  | step _ next ih => exact ih.step next

end Operators

end NixSecrets
