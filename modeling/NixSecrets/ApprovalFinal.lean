import NixSecrets.ApprovalExclusive

namespace NixSecrets

/-- The status of a decided request. -/
def EntryState.decided : EntryState → Option ApprovalStatus
  | .resolved decision message => some (.resolved decision message)
  | .cancelled => some .cancelled
  | _ => none

theorem decided_status {entry : Entry} {st : ApprovalStatus} (h : entry.state.decided = some st)
    (now : Nat) : status entry now = st := by
  unfold EntryState.decided at h
  unfold status
  split at h <;> simp_all

theorem decided_reopen {s : EntryState} {st : ApprovalStatus} (h : s.decided = some st)
    (p : Lease → Bool) : s.reopen p = s := by
  apply ApprovalBroker.reopen_of_not_leased
  cases s with
  | resolved _ _ | cancelled => rfl
  | pending | claimed _ => cases h

namespace ApprovalBroker

/-- Every known request passed its validation and is filed under its own id. -/
def WellFiled (b : ApprovalBroker) : Prop :=
  ∀ (rid : String) (entry : Entry), b.entries[rid]? = some entry →
    entry.request.id = rid ∧ entry.request.validate = .ok ()

theorem serve_wellFiled {b b' : ApprovalBroker} {now later : Nat} {call : Call} {reply : Reply}
    (h : b.serve now later call = (b', reply)) (hw : b.WellFiled) : b'.WellFiled := by
  intro rid entry he
  cases ho : b.entries[rid]? with
  | some old =>
    rw [serve_entry h ho] at he
    cases he
    exact hw rid old ho
  | none =>
    rcases serve_new_entry h ho with hn | ⟨request, procedure, rfl, hid, hn⟩
    · simp [hn] at he
    · rw [hn] at he
      cases he
      refine ⟨hid, ?_⟩
      obtain ⟨r, hc, _⟩ := map_prod_eq h
      rcases submit_cases hc with ⟨_, _, rfl, _⟩ | ⟨hv, _⟩
      · simp [ho] at hn
      · exact hv

theorem run_wellFiled {b b' : ApprovalBroker} {t t' : Nat} {trace : List Event}
    (h : BrokerRun b t b' t' trace) (hw : b.WellFiled) : b'.WellFiled := by
  induction h with
  | start => exact hw
  | next _ _ _ hs ih => exact serve_wellFiled hs ih

theorem wellFiled_empty : ({} : ApprovalBroker).WellFiled := by
  intro rid entry he
  simp at he

theorem serve_cancel_known {b b' : ApprovalBroker} {now later : Nat} {reply : Reply} {rid : String}
    {entry : Entry} (h : b.serve now later (.cancel rid) = (b', reply))
    (he : b.entries[rid]? = some entry) :
    (Event.mk now later (.cancel rid) reply).effect rid = .cancels := by
  obtain ⟨r, hc, rfl⟩ := map_prod_eq h
  rcases cancel_cases hc with ⟨_, _, _, hn⟩ | ⟨_, _, rfl, _⟩
  · simp [he] at hn
  · simp [Event.effect]

theorem effect_resolves_claimed {b b' : ApprovalBroker} {now later : Nat} {call : Call}
    {reply : Reply} {rid : String} {d : Decision} {m : Option String}
    (h : b.serve now later call = (b', reply))
    (he : (Event.mk now later call reply).effect rid = .resolves d m) :
    ∃ lease, b.Claimed rid lease := by
  cases call with
  | resolve session id leaseId decision message =>
    obtain ⟨r, hc, rfl⟩ := map_prod_eq h
    rcases resolve_cases hc with ⟨e, rfl, rfl⟩ | ⟨entry, lease, ho, hl, _, _, rfl, rfl⟩
    · simp [Event.effect] at he
    · simp only [Event.effect] at he
      split at he
      next hid =>
        subst id
        exact ⟨lease, (reclaim_claimed ho hl).1⟩
      next => cases he
  | submit request procedure =>
    cases hv : request.validate <;> simp [Event.effect, hv] at he
  | claim session id duration =>
    rcases reply with _ | _ | _ | (e | c) | _ <;> simp [Event.effect] at he
    split at he <;> cases he
  | renew session id leaseId duration =>
    rcases reply with _ | _ | _ | _ | (e | c) <;> simp [Event.effect] at he
    split at he <;> cases he
  | cancel id =>
    rcases reply with (e | c) | _ | _ | _ | _ <;> simp [Event.effect] at he
    split at he <;> cases he
  | register _ | pending _ | status _ | disconnect _ => simp [Event.effect] at he

theorem effect_cancels_call {x : Event} {rid : String} (h : x.effect rid = .cancels) :
    x.call = .cancel rid := by
  obtain ⟨now, later, call, reply⟩ := x
  cases call with
  | cancel id =>
    rcases reply with (e | c) | _ | _ | _ | _ <;> simp [Event.effect] at h
    simp [h]
  | submit request procedure =>
    cases hv : request.validate <;> simp [Event.effect, hv] at h
  | claim session id duration =>
    rcases reply with _ | _ | _ | (e | c) | _ <;> simp [Event.effect] at h
    split at h <;> cases h
  | renew session id leaseId duration =>
    rcases reply with _ | _ | _ | _ | (e | c) <;> simp [Event.effect] at h
    split at h <;> cases h
  | resolve session id leaseId decision message =>
    rcases reply with (e | c) | _ | _ | _ | _ <;> simp [Event.effect] at h
    split at h <;> cases h
  | register _ | pending _ | status _ | disconnect _ => simp [Event.effect] at h

/-- The only call that changes a decided request is its cancellation. -/
theorem serve_decided {b b' : ApprovalBroker} {now later : Nat} {call : Call} {reply : Reply}
    {rid : String} {entry : Entry} {st : ApprovalStatus}
    (h : b.serve now later call = (b', reply)) (he : b.entries[rid]? = some entry)
    (hd : entry.state.decided = some st) :
    b'.entries[rid]? = some { entry with
      state := if call = .cancel rid then .cancelled else entry.state } := by
  rw [serve_entry h he]
  congr 2
  have notClaimed (lease : Lease) : ¬ b.Claimed rid lease := by
    rintro ⟨e, ho, hs⟩
    rw [he] at ho
    cases ho
    rw [hs] at hd
    cases hd
  by_cases hcall : call = .cancel rid
  · subst hcall
    simp [Event.onState, serve_cancel_known h he]
  · rw [if_neg hcall]
    unfold Event.onState
    cases hx : (Event.mk now later call reply).effect rid with
    | ignored => rfl
    | reclaims => exact decided_reopen hd _
    | drops session => exact decided_reopen hd _
    | claims lease =>
      obtain ⟨_, e, ho, hp⟩ := serve_grants h (effect_claims.mp hx)
      rw [he] at ho
      cases ho
      rw [decided_reopen hd] at hp
      rw [hp] at hd
      cases hd
    | renews expires =>
      obtain ⟨lease, hc, _⟩ := serve_renews h hx
      exact absurd hc (notClaimed lease)
    | resolves d m =>
      obtain ⟨lease, hc⟩ := effect_resolves_claimed h hx
      exact absurd hc (notClaimed lease)
    | cancels => exact absurd (effect_cancels_call hx) hcall

theorem run_decided {b b' : ApprovalBroker} {t t' : Nat} {calls : List Event} {rid : String}
    {entry : Entry} {st : ApprovalStatus} (h : BrokerRun b t b' t' calls)
    (he : b.entries[rid]? = some entry) (hd : entry.state.decided = some st) :
    b'.entries[rid]? = some { entry with
      state := if ∃ y ∈ calls, y.call = .cancel rid then .cancelled else entry.state } := by
  induction h with
  | start => simpa using he
  | @next b₁ t₁ trace b₂ now later call reply run _ _ hs ih =>
    have hmid := ih
    by_cases hc : ∃ y ∈ trace, y.call = .cancel rid
    · rw [if_pos hc] at hmid
      rw [serve_decided hs hmid rfl]
      have : ∃ y ∈ trace ++ [⟨now, later, call, reply⟩], y.call = Call.cancel rid := by
        obtain ⟨y, hy, hyc⟩ := hc
        exact ⟨y, List.mem_append_left _ hy, hyc⟩
      simp only [if_pos this, ite_self]
    · rw [if_neg hc] at hmid
      rw [serve_decided hs hmid hd]
      have : (∃ y ∈ trace ++ [⟨now, later, call, reply⟩], y.call = Call.cancel rid) ↔
          call = .cancel rid := by
        constructor
        · rintro ⟨y, hy, hyc⟩
          rcases List.mem_append.mp hy with hy | hy
          · exact absurd ⟨y, hy, hyc⟩ hc
          · cases List.mem_singleton.mp hy
            exact hyc
        · exact fun hcall => ⟨_, List.mem_append_right _ (List.mem_singleton.mpr rfl), hcall⟩
      simp only [this]

theorem status_reply {b : ApprovalBroker} {rid : String} {entry : Entry} {st : ApprovalStatus}
    (he : b.entries[rid]? = some entry) (hd : entry.state.decided = some st) (now later : Nat) :
    (b.serve now later (.status rid)).2 = .status (.ok st) := by
  have hr : (b.reclaim now).entries[rid]? = some entry := by
    simp [he, decided_reopen hd]
  simp [serve, statusOf, hr, decided_status hd]

theorem resubmit_reply {b : ApprovalBroker} {rid : String} {entry : Entry} {st : ApprovalStatus}
    (hw : b.WellFiled) (he : b.entries[rid]? = some entry) (hd : entry.state.decided = some st)
    (now later : Nat) (procedure : Option ProcedureStep) :
    (b.serve now later (.submit entry.request procedure)).2 = .status (.ok st) := by
  obtain ⟨hid, hv⟩ := hw rid entry he
  have hr : (b.reclaim now).entries[entry.request.id]? = some entry := by
    simp [hid, he, decided_reopen hd]
  simp [serve, submitInProcedure, hv, hr, decided_status hd]

/-- A decision stays what status calls and resubmissions report exactly as long as nobody
cancels the request after it was resolved: `cancel` overwrites any state. -/
theorem decided_final_iff {t₀ t t' : Nat} {b b' : ApprovalBroker} {trace calls : List Event}
    {rid : String} {entry : Entry} {st : ApprovalStatus} (run : BrokerRun {} t₀ b t trace)
    (he : b.entries[rid]? = some entry) (hd : entry.state.decided = some st)
    (later : BrokerRun b t b' t' calls) :
    (∀ now after procedure, t' ≤ now → now ≤ after →
      (b'.serve now after (.status rid)).2 = .status (.ok st) ∧
      (b'.serve now after (.submit entry.request procedure)).2 = .status (.ok st)) ↔
      (st = .cancelled ∨ ∀ y ∈ calls, y.call ≠ .cancel rid) := by
  have hb' := run_decided later he hd
  have hw := run_wellFiled later (run_wellFiled run wellFiled_empty)
  by_cases hc : ∃ y ∈ calls, y.call = .cancel rid
  · rw [if_pos hc] at hb'
    constructor
    · intro h
      have hs := (h t' t' none (Nat.le_refl _) (Nat.le_refl _)).1
      rw [status_reply hb' rfl] at hs
      cases hs
      exact Or.inl rfl
    · rintro (rfl | hn)
      · intro now after procedure _ _
        exact ⟨status_reply hb' rfl now after, resubmit_reply hw hb' rfl now after procedure⟩
      · obtain ⟨y, hy, hyc⟩ := hc
        exact absurd hyc (hn y hy)
  · rw [if_neg hc] at hb'
    constructor
    · exact fun _ => Or.inr fun y hy hyc => hc ⟨y, hy, hyc⟩
    · intro _ now after procedure _ _
      exact ⟨status_reply hb' hd now after, resubmit_reply hw hb' hd now after procedure⟩

/-- One frontend approves request "a"; a later cancellation of the approved request succeeds. -/
def approvedCalls : List (Nat × Nat × Call) :=
  [(0, 0, .register 7), (1, 1, .submit ⟨"a", "host", ["host.services.s.x"], false⟩ none),
    (2, 2, .claim 7 "a" 1000), (3, 3, .resolve 7 "a" 1 .approved none)]

theorem resolved_then_cancelled :
    ((serveAll {} approvedCalls).1.serve 4 4 (.status "a")).2 =
      .status (.ok (.resolved .approved none)) ∧
    ((serveAll {} (approvedCalls ++ [(5, 5, .cancel "a")])).1.serve 6 6 (.status "a")).2 =
      .status (.ok .cancelled) := by decide

theorem decided_final_without_cancel :
    (((serveAll {} approvedCalls).1.serveAll [(5, 5, .disconnect 7)]).1.serve 6 6 (.status "a")).2 =
      .status (.ok (.resolved .approved none)) := by
  let approved := (serveAll {} approvedCalls).1
  let calls : List (Nat × Nat × Call) := [(5, 5, .disconnect 7)]
  have run : BrokerRun {} 0 approved 3 (serveAll {} approvedCalls).2 := serveAll_run rfl
  have next : BrokerRun approved 3 (approved.serveAll calls).1 5 (approved.serveAll calls).2 :=
    serveAll_run rfl
  have known : approved.entries["a"]? =
      some ⟨⟨"a", "host", ["host.services.s.x"], false⟩, .resolved .approved none, none⟩ := by
    decide
  refine ((decided_final_iff run known rfl next).mpr (Or.inr ?_) 6 6 none (by decide) (by decide)).1
  decide

end ApprovalBroker

end NixSecrets
