import NixSecrets.OperatorStep

namespace NixSecrets

/-- The call returned, or was refused before it claimed a slot. -/
def Phase.over : Phase → Bool
  | .finished _ | .refused _ => true
  | _ => false

namespace Operators

def liveClaims (o : Operators) : Nat := o.requesters.countP (·.phase.holdsClaim)

/-- The slot counter is the number of calls that own one. -/
def Accounted (o : Operators) : Prop := o.pending = o.liveClaims ∧ o.pending ≤ maxPending

theorem withdraw_requesters (o : Operators) (r : Nat) (q : Requester) (s : Nat) (reason : String) :
    (o.withdraw r q s reason).requesters = o.requesters.set r (q.stop (.error reason)) ∧
      (o.withdraw r q s reason).pending = o.pending := by
  unfold withdraw
  cases q.id <;> exact ⟨rfl, rfl⟩

theorem holdsClaim_of_servedBy {p : Phase} {s : Nat} (h : p.servedBy = some s) :
    p.holdsClaim = true := by
  cases p <;> simp_all [Phase.servedBy, Phase.holdsClaim]

/-- A move changes the call it belongs to and no other; a result it has is kept. -/
theorem moved_requesters {o o' : Operators} {r : Nat} {q : Requester} {m : Move}
    (h : Moved o r q m o') : ∃ q', o'.requesters = o.requesters.set r q' ∧
      Slot q.phase q'.phase o.pending o'.pending ∧ (q.id = none ∨ q'.id = q.id) ∧
      (∀ result, q.phase.result = some result → q'.phase.result = some result) ∧
      (q'.phase.result = none → ∀ x ∈ q'.reply, x ∈ q.reply) := by
  have kept {p p' : Phase} {pending : Nat} (hp : p.holdsClaim = true) (hp' : p'.holdsClaim = true) :
      Slot p p' pending pending := Or.inl ⟨hp'.trans hp.symm, rfl⟩
  cases h with
  | keeps hi hs hr hx hc =>
    exact ⟨_, rfl, hc, Or.inr hi, fun _ h => hr.trans h, fun _ => hx⟩
  | builds hi hp hp' hx =>
    refine ⟨_, rfl, ?_, Or.inl hi, ?_, fun _ x hm => hx ▸ hm⟩
    · rw [hp, hp']
      exact kept rfl rfl
    · intro result hr
      rw [hp] at hr
      cases hr
  | sends hm hp hi hl =>
    refine ⟨_, rfl, ?_, Or.inr rfl, ?_, fun _ x hm => hm⟩
    · rw [hp]
      exact kept rfl rfl
    · intro result hr
      rw [hp] at hr
      cases hr
  | loses hp hl =>
    refine ⟨_, rfl, ?_, Or.inr rfl, ?_, fun _ x hm => hm⟩
    · rw [hp]
      exact kept rfl rfl
    · intro result hr
      rw [hp] at hr
      cases hr
  | abandons hs ha =>
    refine ⟨_, rfl, kept (holdsClaim_of_servedBy hs) rfl, Or.inr rfl, ?_, fun _ x hm => hm⟩
    intro result hr
    revert hs hr
    cases q.phase <;> simp [Phase.servedBy, Phase.result]
  | answered hm hp hx =>
    refine ⟨_, rfl, ?_, Or.inr rfl, ?_, fun hr => ?_⟩
    · rw [hp]
      exact kept rfl rfl
    · intro result hr
      rw [hp] at hr
      cases hr
    · cases hr
  | @withdraws session reason rest hs =>
    obtain ⟨hreq, hpend⟩ := withdraw_requesters o r { q with reply := rest } session reason
    refine ⟨_, hreq, ?_, Or.inr rfl, ?_, fun hr => ?_⟩
    · rw [hpend]
      exact kept (holdsClaim_of_servedBy hs) rfl
    · intro result hr
      revert hs hr
      cases q.phase <;> simp [Phase.servedBy, Phase.result]
    · cases hr
  | refuses hs hr hc =>
    refine ⟨_, rfl, kept hc rfl, Or.inr rfl, ?_, fun hr => ?_⟩
    · intro result hres
      rw [hr] at hres
      cases hres
    · cases hr

theorem send_phases (o : Operators) (out : Option (Nat × Outcome)) :
    (o.send out).requesters.map Requester.phase = o.requesters.map Requester.phase := by
  cases out with
  | none => rfl
  | some x =>
    obtain ⟨r, outcome⟩ := x
    refine List.ext_getElem? fun i => ?_
    simp only [send, List.getElem?_map, List.getElem?_modify]
    cases o.requesters[i]? with
    | none => rfl
    | some q =>
      by_cases he : r = i
      · simp only [he, if_true, Option.map_some, Option.map_eq_map, Requester.deliver]
        split <;> rfl
      · simp [he]

@[simp] theorem send_pending (o : Operators) (out : Option (Nat × Outcome)) :
    (o.send out).pending = o.pending := by
  cases out <;> rfl

theorem broadcast_same (o : Operators) (m : Inbox) :
    (o.broadcast m).requesters = o.requesters ∧ (o.broadcast m).pending = o.pending := by
  unfold broadcast
  generalize o.attached = sessions
  induction sessions generalizing o with
  | nil => exact ⟨rfl, rfl⟩
  | cons s sessions ih => exact ih (o.tell s m)

theorem Accounted.moved {o o' : Operators} {r : Nat} {q : Requester} {m : Move} (h : o.Accounted)
    (hq : o.requesters[r]? = some q) (hm : Moved o r q m o') : o'.Accounted := by
  obtain ⟨q', hreq, hslot, _⟩ := moved_requesters hm
  obtain ⟨hlt, hget⟩ := List.getElem?_eq_some_iff.mp hq
  obtain ⟨hcount, hmax⟩ := h
  have hset : o'.liveClaims = o.liveClaims - (if q.phase.holdsClaim then 1 else 0) +
      (if q'.phase.holdsClaim then 1 else 0) := by
    rw [liveClaims, hreq, List.countP_set hlt, hget, liveClaims]
  have hpos : q.phase.holdsClaim = true → 0 < o.liveClaims := by
    intro hc
    rw [liveClaims, List.countP_pos_iff]
    exact ⟨q, List.mem_of_getElem? hq, hc⟩
  unfold Accounted
  rw [hset]
  unfold maxPending at *
  rcases hslot with ⟨hc, hp⟩ | ⟨hc, hc', hl, hp⟩ | ⟨hc, hc', hp⟩
  · rw [hc, hp]
    cases hcq : q.phase.holdsClaim with
    | true =>
      have := hpos hcq
      simp only [if_true]
      omega
    | false =>
      simp only [Bool.false_eq_true, if_false]
      omega
  · simp only [hc, hc', hp, Bool.false_eq_true, if_false, if_true]
    unfold maxPending at hl
    omega
  · have := hpos hc
    simp only [hc, hc', hp, Bool.false_eq_true, if_false, if_true]
    omega

theorem liveClaims_phases (o : Operators) :
    o.liveClaims = (o.requesters.map Requester.phase).countP Phase.holdsClaim := by
  rw [liveClaims, List.countP_map]
  rfl

theorem Accounted.step {o o' : Operators} {a : Action} (h : o.Accounted)
    (hs : o.step a = some o') : o'.Accounted := by
  cases step_cases hs with
  | arrives hp =>
    refine ⟨?_, h.2⟩
    rw [liveClaims, List.countP_append]
    rcases hp with rfl | ⟨m, rfl⟩
    · exact h.1
    · exact h.1
  | moves hq hm => exact h.moved hq (move_cases hm)
  | handles ht hh =>
    refine ⟨?_, by rw [send_pending]; exact h.2⟩
    rw [send_pending, liveClaims_phases, send_phases, ← liveClaims_phases]
    exact h.1
  | announces hm =>
    obtain ⟨hr, hp⟩ := broadcast_same o _
    refine ⟨?_, by rw [hp]; exact h.2⟩
    rw [hp, liveClaims, hr]
    exact h.1
  | attaches => exact h
  | hears ht hm => exact h
  | fails ht hr => exact h
  | unregisters ht hr => exact h
  | hangsUp ht hr => exact h

theorem run_accounted {o₀ o : Operators} {trace : List (Operators × Action)}
    (run : OperatorRun o₀ trace o) (h : o₀.Accounted) : o.Accounted := by
  induction run with
  | start => exact h
  | step _ next ih => exact ih.step next

theorem Accounted.empty : ({} : Operators).Accounted := ⟨rfl, Nat.zero_le _⟩

/-- Once every call is over no slot is taken. -/
theorem Accounted.over {o : Operators} (h : o.Accounted)
    (hover : ∀ q ∈ o.requesters, q.phase.over = true) : o.pending = 0 := by
  rw [h.1, liveClaims, List.countP_eq_zero]
  intro q hq
  have hp := hover q hq
  revert hp
  cases q.phase <;> simp [Phase.over, Phase.holdsClaim]

end Operators

end NixSecrets
