import NixSecrets.ApprovalRun

namespace NixSecrets
namespace ApprovalBroker

def leaseAfter (n : Nat) : Nat := if n + 1 < 2 ^ 64 then n + 1 else 1

theorem claim_cases {b b' : ApprovalBroker} {now later session lease : Nat} {id : String}
    {r : Except BrokerError Claim} (h : b.claim now later session id lease = (b', r)) :
    (∃ e, r = .error e ∧ b' = b.reclaim now) ∨
      ∃ entry, (b.reclaim now).entries[id]? = some entry ∧ entry.state = .pending ∧
        session ∈ (b.reclaim now).frontends ∧ r = .ok ⟨b.nextLease, millis lease⟩ ∧
        b' = { b.reclaim now with nextLease := leaseAfter b.nextLease }.setState id entry
          (.claimed ⟨b.nextLease, session, later + lease⟩) := by
  simp only [claim] at h
  split at h
  next => cases h; exact Or.inl ⟨_, rfl, rfl⟩
  next hs =>
    split at h
    next => cases h; exact Or.inl ⟨_, rfl, rfl⟩
    next =>
      split at h
      next => cases h; exact Or.inl ⟨_, rfl, rfl⟩
      next entry he =>
        split at h
        next => cases h; exact Or.inl ⟨_, rfl, rfl⟩
        next hp =>
          cases h
          refine Or.inr ⟨entry, he, not_not.mp hp, not_not.mp hs, ?_, ?_⟩
          · simp
          · simp [leaseAfter]

theorem resolve_cases {b b' : ApprovalBroker} {now session leaseId : Nat} {id : String}
    {decision : Decision} {message : Option String} {r : Except BrokerError Unit}
    (h : b.resolve now session id leaseId decision message = (b', r)) :
    (∃ e, r = .error e ∧ b' = b.reclaim now) ∨
      ∃ entry lease, (b.reclaim now).entries[id]? = some entry ∧ entry.state = .claimed lease ∧
        lease.owner = session ∧ lease.id = leaseId ∧ r = .ok () ∧
        b' = (b.reclaim now).setState id entry (.resolved decision message) := by
  simp only [resolve] at h
  split at h
  next => cases h; exact Or.inl ⟨_, rfl, rfl⟩
  next =>
    split at h
    next => cases h; exact Or.inl ⟨_, rfl, rfl⟩
    next entry he =>
      split at h
      next lease hl =>
        split at h
        next ho => cases h; exact Or.inr ⟨entry, lease, he, hl, ho.1, ho.2, rfl, rfl⟩
        next => cases h; exact Or.inl ⟨_, rfl, rfl⟩
      next => cases h; exact Or.inl ⟨_, rfl, rfl⟩

theorem renew_cases {b b' : ApprovalBroker} {now later session leaseId duration : Nat}
    {id : String} {r : Except BrokerError Nat}
    (h : b.renew now later session id leaseId duration = (b', r)) :
    (∃ e, r = .error e ∧ b' = b.reclaim now) ∨
      ∃ entry lease, (b.reclaim now).entries[id]? = some entry ∧ entry.state = .claimed lease ∧
        lease.owner = session ∧ lease.id = leaseId ∧ r = .ok (millis duration) ∧
        b' = (b.reclaim now).setState id entry
          (.claimed { lease with expires := later + duration }) := by
  simp only [renew] at h
  split at h
  next => cases h; exact Or.inl ⟨_, rfl, rfl⟩
  next =>
    split at h
    next => cases h; exact Or.inl ⟨_, rfl, rfl⟩
    next =>
      split at h
      next => cases h; exact Or.inl ⟨_, rfl, rfl⟩
      next entry he =>
        split at h
        next lease hl =>
          split at h
          next ho => cases h; exact Or.inr ⟨entry, lease, he, hl, ho.1, ho.2, rfl, rfl⟩
          next => cases h; exact Or.inl ⟨_, rfl, rfl⟩
        next => cases h; exact Or.inl ⟨_, rfl, rfl⟩

theorem cancel_cases {b b' : ApprovalBroker} {now : Nat} {id : String}
    {r : Except BrokerError Unit} (h : b.cancel now id = (b', r)) :
    (∃ e, r = .error e ∧ b' = b.reclaim now ∧ (b.reclaim now).entries[id]? = none) ∨
      ∃ entry, (b.reclaim now).entries[id]? = some entry ∧ r = .ok () ∧
        b' = (b.reclaim now).setState id entry .cancelled := by
  simp only [cancel] at h
  split at h
  next hn => cases h; exact Or.inl ⟨_, rfl, rfl, hn⟩
  next entry he => cases h; exact Or.inr ⟨entry, he, rfl, rfl⟩

theorem statusOf_cases {b b' : ApprovalBroker} {now later : Nat} {id : String}
    {r : Except BrokerError ApprovalStatus} (h : b.statusOf now later id = (b', r)) :
    b' = b.reclaim now ∧
      r = ((b.reclaim now).entries[id]?).elim (.error .unknown) fun e => .ok (NixSecrets.status e later) := by
  simp only [statusOf] at h
  split at h
  next hn => cases h; simp [hn]
  next entry he => cases h; simp [he]

theorem submit_cases {b b' : ApprovalBroker} {now later : Nat} {request : ApprovalRequest}
    {procedure : Option ProcedureStep} {r : Except BrokerError ApprovalStatus}
    (h : b.submitInProcedure now later request procedure = (b', r)) :
    (∃ reason, request.validate = .error reason ∧ b' = b ∧ r = .error (.invalid reason)) ∨
      request.validate = .ok () ∧
      ((∃ e, r = .error e ∧ b' = b.reclaim now ∧
          ∀ entry, (b.reclaim now).entries[request.id]? = some entry → entry.request ≠ request) ∨
        (∃ entry, (b.reclaim now).entries[request.id]? = some entry ∧ entry.request = request ∧
          r = .ok (NixSecrets.status entry later) ∧ b' = b.reclaim now) ∨
        ((b.reclaim now).entries[request.id]? = none ∧ (b.reclaim now).entries.size < maxRequests ∧
          r = .ok .pending ∧
          b' = ((b.reclaim now).setState request.id ⟨request, .pending, procedure⟩ .pending).broadcast
            request.id)) := by
  simp only [submitInProcedure] at h
  split at h
  next reason hv => cases h; exact Or.inl ⟨reason, hv, rfl, rfl⟩
  next hv =>
    refine Or.inr ⟨hv, ?_⟩
    split at h
    next entry he =>
      split at h
      next hne => cases h; exact Or.inl ⟨_, rfl, rfl, fun e hh => by simp_all⟩
      next heq => cases h; exact Or.inr (Or.inl ⟨entry, he, not_not.mp heq, rfl, rfl⟩)
    next hn =>
      split at h
      next => cases h; exact Or.inl ⟨_, rfl, rfl, fun e hh => by simp [hn] at hh⟩
      next hs => cases h; exact Or.inr (Or.inr ⟨hn, Nat.not_le.mp hs, rfl, rfl⟩)

theorem register_cases {b b' : ApprovalBroker} {now session : Nat} {r : Except BrokerError Unit}
    (h : b.register now session = (b', r)) :
    b' = b.reclaim now ∨ b' = { b.reclaim now with
      frontends := (b.reclaim now).frontends.insert session
        ((((b.reclaim now).entries.toList.filter fun item => item.2.state = .pending).map
          Prod.fst).foldl queue ((b.reclaim now).frontends.getD session {})) } := by
  simp only [register] at h
  split at h
  next => cases h; exact Or.inl rfl
  next => cases h; exact Or.inr rfl

theorem pending_cases {b b' : ApprovalBroker} {now session : Nat}
    {r : Except BrokerError (List ApprovalRequest)} (h : b.pending now session = (b', r)) :
    b'.entries = (b.reclaim now).entries ∧ b'.nextLease = b.nextLease := by
  simp only [pending] at h
  split at h
  next => cases h; exact ⟨rfl, reclaim_nextLease b now⟩
  next => cases h; exact ⟨rfl, reclaim_nextLease b now⟩

theorem register_entries {b b' : ApprovalBroker} {now session : Nat} {r : Except BrokerError Unit}
    (h : b.register now session = (b', r)) :
    b'.entries = (b.reclaim now).entries ∧ b'.nextLease = b.nextLease := by
  rcases register_cases h with rfl | rfl <;> exact ⟨rfl, reclaim_nextLease b now⟩

theorem reopen_of_not_leased {p : Lease → Bool} {s : EntryState} (h : s.leased p = false) :
    s.reopen p = s := by simp [EntryState.reopen, h]

theorem reopen_claimed {p : Lease → Bool} {s : EntryState} {lease : Lease}
    (h : s.reopen p = .claimed lease) : s = .claimed lease ∧ p lease = false := by
  unfold EntryState.reopen at h
  split at h
  next => cases h
  next hp =>
    subst s
    exact ⟨rfl, by simpa [EntryState.leased] using hp⟩

theorem map_prod_eq {α β γ : Type} {x : α × β} {f : β → γ} {a : α} {c : γ}
    (h : x.map id f = (a, c)) : ∃ d, x = (a, d) ∧ c = f d := by
  obtain ⟨y, d⟩ := x
  cases h
  exact ⟨d, rfl, rfl⟩

/-- Each call changes a known request exactly as `Event.onState` says. -/
theorem serve_entry {b b' : ApprovalBroker} {now later : Nat} {call : Call} {reply : Reply}
    {rid : String} {entry : Entry} (h : b.serve now later call = (b', reply))
    (he : b.entries[rid]? = some entry) :
    b'.entries[rid]? = some { entry with
      state := (Event.mk now later call reply).onState rid entry.state } := by
  have hr : (b.reclaim now).entries[rid]? =
      some { entry with state := entry.state.reopen (·.expired now) } := by simp [he]
  cases call with
  | register session =>
    obtain ⟨r, hc, rfl⟩ := map_prod_eq h
    rw [(register_entries hc).1, hr]; rfl
  | pending session =>
    obtain ⟨r, hc, rfl⟩ := map_prod_eq h
    rw [(pending_cases hc).1, hr]; rfl
  | submit request procedure =>
    obtain ⟨r, hc, rfl⟩ := map_prod_eq h
    rcases submit_cases hc with ⟨reason, hv, rfl, rfl⟩ | ⟨hv, hh⟩
    · simp [Event.onState, Event.effect, hv, he]
    · rcases hh with ⟨e, rfl, rfl, _⟩ | ⟨e, _, _, rfl, rfl⟩ | ⟨hn, _, rfl, rfl⟩
      · rw [hr]; simp [Event.onState, Event.effect, hv]
      · rw [hr]; simp [Event.onState, Event.effect, hv]
      · have hne : request.id ≠ rid := by
          rintro rfl
          simp [he] at hn
        simp [Event.onState, Event.effect, hv, hne, he]
  | claim session id lease =>
    obtain ⟨r, hc, rfl⟩ := map_prod_eq h
    rcases claim_cases hc with ⟨e, rfl, rfl⟩ | ⟨old, ho, _, _, rfl, rfl⟩
    · rw [hr]; rfl
    · by_cases hid : id = rid
      · subst id
        have : old.request = entry.request ∧ old.procedure = entry.procedure := by
          rw [hr] at ho; cases ho; exact ⟨rfl, rfl⟩
        simp [Event.onState, Event.effect, this]
      · simp [Event.onState, Event.effect, hid, he]
  | renew session id leaseId duration =>
    obtain ⟨r, hc, rfl⟩ := map_prod_eq h
    rcases renew_cases hc with ⟨e, rfl, rfl⟩ | ⟨old, lease, ho, hl, _, _, rfl, rfl⟩
    · rw [hr]; rfl
    · by_cases hid : id = rid
      · subst id
        rw [hr] at ho
        cases ho
        obtain ⟨hs, _⟩ := reopen_claimed hl
        simp [Event.onState, Event.effect, EntryState.renewed, hs]
      · simp [Event.onState, Event.effect, hid, he]
  | resolve session id leaseId decision message =>
    obtain ⟨r, hc, rfl⟩ := map_prod_eq h
    rcases resolve_cases hc with ⟨e, rfl, rfl⟩ | ⟨old, lease, ho, hl, _, _, rfl, rfl⟩
    · rw [hr]; rfl
    · by_cases hid : id = rid
      · subst id
        rw [hr] at ho
        cases ho
        simp [Event.onState, Event.effect]
      · simp [Event.onState, Event.effect, hid, he]
  | cancel id =>
    obtain ⟨r, hc, rfl⟩ := map_prod_eq h
    rcases cancel_cases hc with ⟨e, rfl, rfl, _⟩ | ⟨old, ho, rfl, rfl⟩
    · rw [hr]; rfl
    · by_cases hid : id = rid
      · subst id
        rw [hr] at ho
        cases ho
        simp [Event.onState, Event.effect]
      · simp [Event.onState, Event.effect, hid, he]
  | status id =>
    obtain ⟨r, hc, rfl⟩ := map_prod_eq h
    rw [(statusOf_cases hc).1, hr]; rfl
  | disconnect session =>
    cases h
    simp [disconnect, Event.onState, Event.effect, he]

/-- Only an accepted submission makes a request known, and it starts pending. -/
theorem serve_new_entry {b b' : ApprovalBroker} {now later : Nat} {call : Call} {reply : Reply}
    {rid : String} (h : b.serve now later call = (b', reply)) (he : b.entries[rid]? = none) :
    b'.entries[rid]? = none ∨ ∃ request procedure, call = .submit request procedure ∧
      request.id = rid ∧ b'.entries[rid]? = some ⟨request, .pending, procedure⟩ := by
  have hr : (b.reclaim now).entries[rid]? = none := by simp [he]
  cases call with
  | register session =>
    obtain ⟨r, hc, rfl⟩ := map_prod_eq h
    exact Or.inl (by rw [(register_entries hc).1, hr])
  | pending session =>
    obtain ⟨r, hc, rfl⟩ := map_prod_eq h
    exact Or.inl (by rw [(pending_cases hc).1, hr])
  | submit request procedure =>
    obtain ⟨r, hc, rfl⟩ := map_prod_eq h
    rcases submit_cases hc with ⟨reason, _, rfl, _⟩ | ⟨_, hh⟩
    · exact Or.inl he
    · rcases hh with ⟨_, _, rfl, _⟩ | ⟨_, _, _, _, rfl⟩ | ⟨_, _, _, rfl⟩
      · exact Or.inl hr
      · exact Or.inl hr
      · by_cases hid : request.id = rid
        · exact Or.inr ⟨request, procedure, rfl, hid, by simp [hid]⟩
        · exact Or.inl (by simp [hid, he])
  | claim session id lease =>
    obtain ⟨r, hc, rfl⟩ := map_prod_eq h
    rcases claim_cases hc with ⟨e, _, rfl⟩ | ⟨old, ho, _, _, _, rfl⟩
    · exact Or.inl hr
    · have hid : id ≠ rid := by rintro rfl; simp [hr] at ho
      exact Or.inl (by simp [hid, he])
  | renew session id leaseId duration =>
    obtain ⟨r, hc, rfl⟩ := map_prod_eq h
    rcases renew_cases hc with ⟨e, _, rfl⟩ | ⟨old, lease, ho, _, _, _, _, rfl⟩
    · exact Or.inl hr
    · have hid : id ≠ rid := by rintro rfl; simp [hr] at ho
      exact Or.inl (by simp [hid, he])
  | resolve session id leaseId decision message =>
    obtain ⟨r, hc, rfl⟩ := map_prod_eq h
    rcases resolve_cases hc with ⟨e, _, rfl⟩ | ⟨old, lease, ho, _, _, _, _, rfl⟩
    · exact Or.inl hr
    · have hid : id ≠ rid := by rintro rfl; simp [hr] at ho
      exact Or.inl (by simp [hid, he])
  | cancel id =>
    obtain ⟨r, hc, rfl⟩ := map_prod_eq h
    rcases cancel_cases hc with ⟨e, _, rfl, _⟩ | ⟨old, ho, _, rfl⟩
    · exact Or.inl hr
    · have hid : id ≠ rid := by rintro rfl; simp [hr] at ho
      exact Or.inl (by simp [hid, he])
  | status id =>
    obtain ⟨r, hc, rfl⟩ := map_prod_eq h
    exact Or.inl (by rw [(statusOf_cases hc).1, hr])
  | disconnect session =>
    cases h
    exact Or.inl (by simp [disconnect, he])

end ApprovalBroker

end NixSecrets
