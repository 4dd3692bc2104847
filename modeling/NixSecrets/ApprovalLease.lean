import NixSecrets.ApprovalStep
import NixSecrets.History

namespace NixSecrets

/-- The request and lease a successful claim grants. -/
def Event.grants (x : Event) : Option (String × Lease) :=
  match x.call, x.reply with
  | .claim session id lease, .claim (.ok c) => some (id, ⟨c.leaseId, session, x.later + lease⟩)
  | _, _ => none

/-- What one answered call leaves of a lease on the request `rid`, read off the
calls and their answers alone. -/
def Event.onLease (rid : String) (lease : Lease) (x : Event) : Option Lease :=
  if lease.expired x.now then none
  else match x.effect rid with
    | .drops session => if lease.owner = session then none else some lease
    | .resolves _ _ => none
    | .cancels => none
    | .renews expires => some { lease with expires }
    | _ => some lease

def leaseLife (rid : String) (granted : Lease) (calls : List Event) : Option Lease :=
  calls.foldlM (Event.onLease rid) granted

/-- A lease on `rid` that some claim of the history granted is still live at `t`. -/
def Held (trace : List Event) (rid : String) (t : Nat) (lease : Lease) : Prop :=
  ∃ before x granted after, trace = before ++ x :: after ∧ x.grants = some (rid, granted) ∧
    leaseLife rid granted after = some lease ∧ t < lease.expires

theorem leaseLife_concat {rid : String} {granted lease : Lease} {calls : List Event} {x : Event} :
    leaseLife rid granted (calls ++ [x]) = some lease ↔
      ∃ l, leaseLife rid granted calls = some l ∧ x.onLease rid l = some lease := by
  simp [leaseLife, List.foldlM_append, Option.bind_eq_some_iff]

theorem onLease_unexpired {rid : String} {l lease : Lease} {x : Event}
    (h : x.onLease rid l = some lease) : x.now < l.expires := by
  unfold Event.onLease at h
  split at h
  next => cases h
  next hx => simpa [Lease.expired] using hx

theorem onLease_same {rid : String} {l lease : Lease} {x : Event}
    (h : x.onLease rid l = some lease) : lease.id = l.id ∧ lease.owner = l.owner := by
  unfold Event.onLease at h
  split at h
  next => cases h
  next =>
    split at h
    all_goals try (split at h)
    all_goals first | (cases h; exact ⟨rfl, rfl⟩) | cases h

theorem leaseLife_same {rid : String} {granted lease : Lease} {calls : List Event}
    (h : leaseLife rid granted calls = some lease) :
    lease.id = granted.id ∧ lease.owner = granted.owner := by
  induction calls using List.reverseRecOn generalizing lease with
  | nil => cases h; exact ⟨rfl, rfl⟩
  | append_singleton calls x ih =>
    obtain ⟨l, hl, hx⟩ := leaseLife_concat.mp h
    obtain ⟨hi, ho⟩ := ih hl
    obtain ⟨hi', ho'⟩ := onLease_same hx
    exact ⟨hi'.trans hi, ho'.trans ho⟩

theorem held_concat {trace : List Event} {x : Event} {rid : String} {t : Nat} {lease : Lease} :
    Held (trace ++ [x]) rid t lease ↔ t < lease.expires ∧
      (x.grants = some (rid, lease) ∨
        ∃ l, Held trace rid x.now l ∧ x.onLease rid l = some lease) := by
  constructor
  · rintro ⟨before, y, granted, after, he, hg, hl, ht⟩
    refine ⟨ht, ?_⟩
    rcases history_concat_split he with ⟨rfl, rfl, rfl⟩ | ⟨rest, rfl, rfl⟩
    · cases hl
      exact Or.inl hg
    · obtain ⟨l, hl, hx⟩ := leaseLife_concat.mp hl
      exact Or.inr ⟨l, ⟨before, y, granted, rest, rfl, hg, hl, onLease_unexpired hx⟩, hx⟩
  · rintro ⟨ht, hg | ⟨l, ⟨before, y, granted, after, rfl, hg, hl, _⟩, hx⟩⟩
    · exact ⟨trace, x, lease, [], rfl, hg, rfl, ht⟩
    · exact ⟨before, y, granted, after ++ [x], by simp, hg, leaseLife_concat.mpr ⟨l, hl, hx⟩, ht⟩

namespace ApprovalBroker

def Claimed (b : ApprovalBroker) (rid : String) (lease : Lease) : Prop :=
  ∃ entry, b.entries[rid]? = some entry ∧ entry.state = .claimed lease

theorem reclaim_entry {b : ApprovalBroker} {now : Nat} {rid : String} {entry : Entry}
    (h : (b.reclaim now).entries[rid]? = some entry) :
    ∃ old, b.entries[rid]? = some old ∧ entry.state = old.state.reopen (·.expired now) := by
  rw [reclaim_entries] at h
  obtain ⟨old, ho, rfl⟩ := Option.map_eq_some_iff.mp h
  exact ⟨old, ho, rfl⟩

theorem reclaim_claimed {b : ApprovalBroker} {now : Nat} {rid : String} {entry : Entry}
    {lease : Lease} (h : (b.reclaim now).entries[rid]? = some entry)
    (hs : entry.state = .claimed lease) : b.Claimed rid lease ∧ now < lease.expires := by
  obtain ⟨old, ho, he⟩ := reclaim_entry h
  obtain ⟨hc, hx⟩ := reopen_claimed (he.symm.trans hs)
  exact ⟨⟨old, ho, hc⟩, by simpa [Lease.expired] using hx⟩

/-- A claim succeeds only while no lease on the request is live. -/
theorem serve_grants {b b' : ApprovalBroker} {now later : Nat} {call : Call} {reply : Reply}
    {rid : String} {granted : Lease} (h : b.serve now later call = (b', reply))
    (hg : (Event.mk now later call reply).grants = some (rid, granted)) :
    granted.id = b.nextLease ∧ ∃ entry, b.entries[rid]? = some entry ∧
      entry.state.reopen (·.expired now) = .pending := by
  unfold Event.grants at hg
  split at hg
  next session id lease c hcall hreply =>
    cases hg
    simp only at hcall hreply
    subst call reply
    obtain ⟨r, hc, hr⟩ := map_prod_eq h
    cases hr
    rcases claim_cases hc with ⟨e, he, _⟩ | ⟨entry, he, hp, _, hr, _⟩
    · cases he
    · cases hr
      obtain ⟨old, ho, hs⟩ := reclaim_entry he
      exact ⟨rfl, old, ho, hs.symm.trans hp⟩
  next => cases hg

theorem serve_nextLease {b b' : ApprovalBroker} {now later : Nat} {call : Call} {reply : Reply}
    (h : b.serve now later call = (b', reply)) :
    b'.nextLease = if (Event.mk now later call reply).grants.isSome then leaseAfter b.nextLease
      else b.nextLease := by
  cases call with
  | register session =>
    obtain ⟨r, hc, rfl⟩ := map_prod_eq h
    exact (register_entries hc).2
  | pending session =>
    obtain ⟨r, hc, rfl⟩ := map_prod_eq h
    exact (pending_cases hc).2
  | submit request procedure =>
    obtain ⟨r, hc, rfl⟩ := map_prod_eq h
    rcases submit_cases hc with ⟨_, _, rfl, _⟩ | ⟨_, hh⟩
    · rfl
    · rcases hh with ⟨_, _, rfl, _⟩ | ⟨_, _, _, _, rfl⟩ | ⟨_, _, _, rfl⟩ <;>
        simp [Event.grants]
  | claim session id lease =>
    obtain ⟨r, hc, rfl⟩ := map_prod_eq h
    rcases claim_cases hc with ⟨e, rfl, rfl⟩ | ⟨_, _, _, _, rfl, rfl⟩ <;> simp [Event.grants]
  | renew session id leaseId duration =>
    obtain ⟨r, hc, rfl⟩ := map_prod_eq h
    rcases renew_cases hc with ⟨e, rfl, rfl⟩ | ⟨_, _, _, _, _, _, rfl, rfl⟩ <;> simp [Event.grants]
  | resolve session id leaseId decision message =>
    obtain ⟨r, hc, rfl⟩ := map_prod_eq h
    rcases resolve_cases hc with ⟨e, rfl, rfl⟩ | ⟨_, _, _, _, _, _, rfl, rfl⟩ <;>
      simp [Event.grants]
  | cancel id =>
    obtain ⟨r, hc, rfl⟩ := map_prod_eq h
    rcases cancel_cases hc with ⟨e, rfl, rfl, _⟩ | ⟨_, _, rfl, rfl⟩ <;> simp [Event.grants]
  | status id =>
    obtain ⟨r, hc, rfl⟩ := map_prod_eq h
    simp [(statusOf_cases hc).1, Event.grants]
  | disconnect session =>
    cases h
    simp [disconnect, Event.grants]

theorem effect_claims {x : Event} {rid : String} {lease : Lease} :
    x.effect rid = .claims lease ↔ x.grants = some (rid, lease) := by
  obtain ⟨now, later, call, reply⟩ := x
  cases call with
  | claim session id duration =>
    rcases reply with _ | _ | _ | (e | c) | _ <;> simp [Event.effect, Event.grants]
    split <;> simp_all
  | submit request procedure =>
    cases hv : request.validate <;> simp [Event.effect, Event.grants, hv]
  | renew session id leaseId duration =>
    rcases reply with _ | _ | _ | _ | (e | c) <;> simp [Event.effect, Event.grants]
    split <;> simp
  | resolve session id leaseId decision message =>
    rcases reply with (e | c) | _ | _ | _ | _ <;> simp [Event.effect, Event.grants]
    split <;> simp
  | cancel id =>
    rcases reply with (e | c) | _ | _ | _ | _ <;> simp [Event.effect, Event.grants]
    split <;> simp
  | register _ | pending _ | status _ | disconnect _ => simp [Event.effect, Event.grants]

theorem reopen_eq_claimed {s : EntryState} {p : Lease → Bool} {lease : Lease} :
    s.reopen p = .claimed lease ↔ s = .claimed lease ∧ p lease = false := by
  refine ⟨reopen_claimed, ?_⟩
  rintro ⟨rfl, hp⟩
  exact reopen_of_not_leased hp

/-- A request is claimed after a call because the call claimed it, or because a live
lease outlasted the call. -/
theorem onState_claimed {x : Event} {rid : String} {s : EntryState} {lease : Lease}
    (hx : x.now < lease.expires)
    (hg : ∀ granted, x.grants = some (rid, granted) → s.reopen (·.expired x.now) = .pending)
    (hr : ∀ expires, x.effect rid = .renews expires →
      ∃ l, s = .claimed l ∧ x.now < l.expires) :
    x.onState rid s = .claimed lease ↔ x.grants = some (rid, lease) ∨
      ∃ l, s = .claimed l ∧ x.onLease rid l = some lease := by
  have kept (he : ∀ l, x.now < l.expires → (x.onLease rid l = some lease ↔ l = lease)) :
      (∃ l, s = .claimed l ∧ x.onLease rid l = some lease) ↔ s = .claimed lease := by
    constructor
    · rintro ⟨l, rfl, hl⟩
      rw [(he l (onLease_unexpired hl)).mp hl]
    · rintro rfl
      exact ⟨lease, rfl, (he lease hx).mpr rfl⟩
  rw [← effect_claims]
  cases he : x.effect rid with
  | ignored =>
    rw [kept (fun l hl => by simp [Event.onLease, he, Lease.expired, hl])]
    simp [Event.onState, he]
  | reclaims =>
    rw [kept (fun l hl => by simp [Event.onLease, he, Lease.expired, hl])]
    simp [Event.onState, he, reopen_eq_claimed, Lease.expired, hx]
  | drops session =>
    simp only [Event.onState, he, reopen_eq_claimed, reduceCtorEq, false_or]
    constructor
    · rintro ⟨rfl, ho⟩
      exact ⟨lease, rfl, by simpa [Event.onLease, he, Lease.expired, hx] using ho⟩
    · rintro ⟨l, rfl, hl⟩
      have hn := onLease_unexpired hl
      simp only [Event.onLease, he, Lease.expired, decide_eq_true_eq, Nat.not_le.mpr hn,
        if_false] at hl
      split at hl
      next => cases hl
      next ho => cases hl; exact ⟨rfl, by simpa using ho⟩
  | claims granted =>
    have hp := hg granted (effect_claims.mp he)
    simp only [Event.onState, he, EntryState.claimed.injEq, Effect.claims.injEq]
    refine ⟨Or.inl, ?_⟩
    rintro (h | ⟨l, rfl, hl⟩)
    · exact h
    · have hn := onLease_unexpired hl
      rw [reopen_eq_claimed.mpr ⟨rfl, by simpa [Lease.expired] using hn⟩] at hp
      cases hp
  | renews expires =>
    obtain ⟨l, rfl, hl⟩ := hr expires he
    simp [Event.onState, he, EntryState.renewed, Event.onLease, Lease.expired, hl]
  | resolves d m =>
    simp only [Event.onState, he, reduceCtorEq, false_or, false_iff]
    rintro ⟨l, rfl, hl⟩
    simp [Event.onLease, he] at hl
  | cancels =>
    simp only [Event.onState, he, reduceCtorEq, false_or, false_iff]
    rintro ⟨l, rfl, hl⟩
    simp [Event.onLease, he] at hl

theorem serve_renews {b b' : ApprovalBroker} {now later : Nat} {call : Call} {reply : Reply}
    {rid : String} {expires : Nat} (h : b.serve now later call = (b', reply))
    (he : (Event.mk now later call reply).effect rid = .renews expires) :
    ∃ lease, b.Claimed rid lease ∧ now < lease.expires := by
  cases call with
  | renew session id leaseId duration =>
    obtain ⟨r, hc, rfl⟩ := map_prod_eq h
    rcases renew_cases hc with ⟨e, rfl, rfl⟩ | ⟨entry, lease, ho, hl, _, _, rfl, rfl⟩
    · simp [Event.effect] at he
    · simp only [Event.effect] at he
      split at he
      next hid =>
        subst id
        exact ⟨lease, reclaim_claimed ho hl⟩
      next => cases he
  | submit request procedure =>
    cases hv : request.validate <;> simp [Event.effect, hv] at he
  | claim session id duration =>
    rcases reply with _ | _ | _ | (e | c) | _ <;> simp [Event.effect] at he
    split at he <;> cases he
  | resolve session id leaseId decision message =>
    rcases reply with (e | c) | _ | _ | _ | _ <;> simp [Event.effect] at he
    split at he <;> cases he
  | cancel id =>
    rcases reply with (e | c) | _ | _ | _ | _ <;> simp [Event.effect] at he
    split at he <;> cases he
  | register _ | pending _ | status _ | disconnect _ => simp [Event.effect] at he

/-- One call keeps the broker's leases in step with the history. -/
theorem serve_claimed {b b' : ApprovalBroker} {now later : Nat} {call : Call} {reply : Reply}
    {rid : String} {lease : Lease} (h : b.serve now later call = (b', reply))
    (hl : now < lease.expires) :
    b'.Claimed rid lease ↔ (Event.mk now later call reply).grants = some (rid, lease) ∨
      ∃ l, b.Claimed rid l ∧ (Event.mk now later call reply).onLease rid l = some lease := by
  cases he : b.entries[rid]? with
  | none =>
    have hn : ∀ l, ¬ b.Claimed rid l := by
      rintro l ⟨entry, hh, _⟩
      simp [he] at hh
    have hg : (Event.mk now later call reply).grants ≠ some (rid, lease) := by
      intro hg
      obtain ⟨_, entry, hh, _⟩ := serve_grants h hg
      simp [he] at hh
    simp only [hg, hn, false_and, exists_false, or_false, iff_false]
    rintro ⟨entry, hh, hs⟩
    rcases serve_new_entry h he with ho | ⟨request, procedure, _, _, ho⟩
    · simp [ho] at hh
    · rw [ho] at hh
      cases hh
      cases hs
  | some entry =>
    have hb' := serve_entry h he
    have hs (l : Lease) : b.Claimed rid l ↔ entry.state = .claimed l := by
      constructor
      · rintro ⟨e, hh, hs⟩
        rw [he] at hh
        cases hh
        exact hs
      · exact fun hs => ⟨entry, he, hs⟩
    have hg (granted : Lease) (hg : (Event.mk now later call reply).grants = some (rid, granted)) :
        entry.state.reopen (·.expired now) = .pending := by
      obtain ⟨_, e, hh, hp⟩ := serve_grants h hg
      rw [he] at hh
      cases hh
      exact hp
    have hr (expires : Nat) (hx : (Event.mk now later call reply).effect rid = .renews expires) :
        ∃ l, entry.state = .claimed l ∧ now < l.expires := by
      obtain ⟨l, hc, hn⟩ := serve_renews h hx
      exact ⟨l, (hs l).mp hc, hn⟩
    have hiff := onState_claimed (x := ⟨now, later, call, reply⟩) (s := entry.state) hl hg hr
    simp only [hs]
    rw [← hiff]
    constructor
    · rintro ⟨e, hh, hc⟩
      rw [hb'] at hh
      cases hh
      exact hc
    · exact fun hc => ⟨_, hb', hc⟩

/-- The broker's unexpired leases are exactly those the history of calls and answers
leaves live. -/
theorem held_iff_claimed {t₀ t : Nat} {b : ApprovalBroker} {trace : List Event}
    (h : BrokerRun {} t₀ b t trace) {rid : String} {now : Nat} {lease : Lease} (hn : t ≤ now) :
    Held trace rid now lease ↔ b.Claimed rid lease ∧ now < lease.expires := by
  generalize hb : ({} : ApprovalBroker) = b₀ at h
  induction h generalizing now lease with
  | start =>
    subst hb
    constructor
    · rintro ⟨before, x, _, after, he, _⟩
      simp at he
    · rintro ⟨⟨entry, he, _⟩, _⟩
      simp at he
  | next run ht hl hs ih =>
    rw [held_concat]
    constructor
    · rintro ⟨he, hg⟩
      refine ⟨(serve_claimed hs (by omega)).mpr ?_, he⟩
      exact hg.imp id fun ⟨l, hh, ho⟩ => ⟨l, ((ih ht).mp hh).1, ho⟩
    · rintro ⟨hc, he⟩
      refine ⟨he, ((serve_claimed hs (by omega)).mp hc).imp id ?_⟩
      exact fun ⟨l, hh, ho⟩ => ⟨l, (ih ht).mpr ⟨hh, onLease_unexpired ho⟩, ho⟩

end ApprovalBroker

end NixSecrets
