import NixSecrets.ApprovalLease

namespace NixSecrets

/-- The session, request and lease id a lease holder's call presents. -/
def Call.presents : Call → Option (Nat × String × Nat)
  | .renew session id leaseId _ => some (session, id, leaseId)
  | .resolve session id leaseId _ _ => some (session, id, leaseId)
  | _ => none

def Reply.accepted : Reply → Bool
  | .done result => result.isOk
  | .status result => result.isOk
  | .requests result => result.isOk
  | .claim result => result.isOk
  | .renewed result => result.isOk

def grantCount (trace : List Event) : Nat := trace.countP (·.grants.isSome)

theorem leaseLife_uninterrupted {rid : String} {granted lease : Lease} {calls : List Event}
    (h : leaseLife rid granted calls = some lease) {y : Event} (hy : y ∈ calls) :
    y.effect rid ≠ .drops granted.owner ∧ (∀ d m, y.effect rid ≠ .resolves d m) ∧
      y.effect rid ≠ .cancels := by
  induction calls using List.reverseRecOn generalizing lease with
  | nil => cases hy
  | append_singleton calls x ih =>
    obtain ⟨l, hl, hx⟩ := leaseLife_concat.mp h
    rcases List.mem_append.mp hy with hy | hy
    · exact ih hl hy
    · cases List.mem_singleton.mp hy
      have ho := (leaseLife_same hl).2
      have hn := onLease_unexpired hx
      refine ⟨fun he => ?_, fun d m he => ?_, fun he => ?_⟩ <;>
        simp [Event.onLease, he, ho, Lease.expired, Nat.not_le.mpr hn] at hx

namespace ApprovalBroker

/-- A live lease was granted by the most recent successful claim of its request. -/
theorem leaseLife_most_recent {t₀ t : Nat} {b : ApprovalBroker} {trace : List Event}
    (h : BrokerRun {} t₀ b t trace) {before after : List Event} {x : Event} {rid : String}
    {granted lease : Lease} (he : trace = before ++ x :: after)
    (hg : x.grants = some (rid, granted)) (hl : leaseLife rid granted after = some lease) :
    ∀ y ∈ after, ∀ other, y.grants ≠ some (rid, other) := by
  generalize hb : ({} : ApprovalBroker) = b₀ at h
  induction h generalizing after lease with
  | start => simp at he
  | next run ht _ hs ih =>
    subst hb
    rcases history_concat_split he with ⟨rfl, _, _⟩ | ⟨rest, rfl, hrest⟩
    · simp
    · obtain ⟨l, hl, hy⟩ := leaseLife_concat.mp hl
      intro y hm other ho
      rcases List.mem_append.mp hm with hm | hm
      · exact ih hrest hl y hm other ho
      · cases List.mem_singleton.mp hm
        have held : Held _ rid _ l := ⟨before, x, granted, rest, hrest, hg, hl, onLease_unexpired hy⟩
        obtain ⟨⟨entry, hen, hc⟩, hlt⟩ := (held_iff_claimed run ht).mp held
        obtain ⟨_, e, hen', hp⟩ := serve_grants hs ho
        rw [hen] at hen'
        cases hen'
        rw [hc, reopen_eq_claimed.mpr ⟨rfl, by simpa [Lease.expired] using hlt⟩] at hp
        cases hp

theorem nextLease_count {t₀ t : Nat} {b : ApprovalBroker} {trace : List Event}
    (h : BrokerRun {} t₀ b t trace) (hc : grantCount trace + 1 < 2 ^ 64) :
    b.nextLease = grantCount trace + 1 := by
  generalize hb : ({} : ApprovalBroker) = b₀ at h
  induction h with
  | start => subst hb; rfl
  | next run _ _ hs ih =>
    rw [grantCount, List.countP_append] at hc ⊢
    rw [serve_nextLease hs, ih (by rw [grantCount]; omega)]
    simp only [List.countP_cons, List.countP_nil, grantCount] at hc ⊢
    split at hc <;> simp_all [leaseAfter]

/-- The nth successful claim gets lease id n, until the counter wraps. -/
theorem grant_id_eq {t₀ t : Nat} {b : ApprovalBroker} {trace : List Event}
    (h : BrokerRun {} t₀ b t trace) (hc : grantCount trace < 2 ^ 64)
    {before after : List Event} {x : Event} {rid : String} {granted : Lease}
    (he : trace = before ++ x :: after) (hg : x.grants = some (rid, granted)) :
    granted.id = grantCount before + 1 := by
  generalize hb : ({} : ApprovalBroker) = b₀ at h
  induction h generalizing after with
  | start => simp at he
  | next run _ _ hs ih =>
    subst hb
    rw [grantCount, List.countP_append] at hc
    rcases history_concat_split he with ⟨rfl, rfl, rfl⟩ | ⟨rest, rfl, hrest⟩
    · rw [(serve_grants hs hg).1]
      apply nextLease_count run
      simp only [List.countP_singleton, hg, Option.isSome_some, if_true] at hc
      exact hc
    · exact ih (by rw [grantCount]; omega) hrest

theorem presents_accepted {b b' : ApprovalBroker} {now later : Nat} {call : Call} {reply : Reply}
    {session leaseId : Nat} {rid : String} (h : b.serve now later call = (b', reply))
    (hp : call.presents = some (session, rid, leaseId)) (ha : reply.accepted = true) :
    ∃ lease, b.Claimed rid lease ∧ now < lease.expires ∧ lease.owner = session ∧
      lease.id = leaseId := by
  cases call with
  | renew s id l duration =>
    cases hp
    obtain ⟨r, hc, rfl⟩ := map_prod_eq h
    rcases renew_cases hc with ⟨e, rfl, _⟩ | ⟨entry, lease, he, hs, ho, hi, _, _⟩
    · cases ha
    · obtain ⟨hcl, hn⟩ := reclaim_claimed he hs
      exact ⟨lease, hcl, hn, ho, hi⟩
  | resolve s id l decision message =>
    cases hp
    obtain ⟨r, hc, rfl⟩ := map_prod_eq h
    rcases resolve_cases hc with ⟨e, rfl, _⟩ | ⟨entry, lease, he, hs, ho, hi, _, _⟩
    · cases ha
    · obtain ⟨hcl, hn⟩ := reclaim_claimed he hs
      exact ⟨lease, hcl, hn, ho, hi⟩
  | register _ | submit _ _ | pending _ | claim _ _ _ | cancel _ | status _ | disconnect _ =>
    cases hp

theorem presents_accepted_granted {t₀ t : Nat} {b b' : ApprovalBroker} {trace : List Event}
    (run : BrokerRun {} t₀ b t trace) {now later : Nat} (hn : t ≤ now) {call : Call}
    {reply : Reply} {session leaseId : Nat} {rid : String}
    (h : b.serve now later call = (b', reply))
    (hp : call.presents = some (session, rid, leaseId)) (ha : reply.accepted = true) :
    ∃ before x granted after lease, trace = before ++ x :: after ∧
      x.grants = some (rid, granted) ∧ granted.id = leaseId ∧ granted.owner = session ∧
      leaseLife rid granted after = some lease ∧ now < lease.expires := by
  obtain ⟨lease, hc, hlt, ho, hi⟩ := presents_accepted h hp ha
  obtain ⟨before, x, granted, after, he, hg, hl, _⟩ := (held_iff_claimed run hn).mpr ⟨hc, hlt⟩
  obtain ⟨hid, how⟩ := leaseLife_same hl
  exact ⟨before, x, granted, after, lease, he, hg, hid.symm.trans hi, how.symm.trans ho, hl, hlt⟩

theorem grants_claim {x : Event} {rid : String} {granted : Lease}
    (h : x.grants = some (rid, granted)) :
    ∃ duration c, x.call = .claim granted.owner rid duration ∧ x.reply = .claim (.ok c) ∧
      c.leaseId = granted.id ∧ granted.expires = x.later + duration := by
  unfold Event.grants at h
  split at h
  next session id duration c hc hr =>
    cases h
    exact ⟨duration, c, hc, hr, rfl, rfl⟩
  next => cases h

/-- Lease exclusivity over every history of calls and every next call. -/
theorem lease_exclusive {t₀ t now later : Nat} {b : ApprovalBroker} {trace : List Event}
    (run : BrokerRun {} t₀ b t trace) (hn : t ≤ now) :
    (∀ rid l l', Held trace rid now l → Held trace rid now l' → l = l') ∧
    (∀ session rid duration c b',
      b.serve now later (.claim session rid duration) = (b', .claim (.ok c)) →
      ∀ l, ¬ Held trace rid now l) ∧
    (∀ call reply b' session rid leaseId, call.presents = some (session, rid, leaseId) →
      b.serve now later call = (b', reply) → reply.accepted = true →
      ∃ before x after duration c lease, trace = before ++ x :: after ∧
        x.call = .claim session rid duration ∧ x.reply = .claim (.ok c) ∧ c.leaseId = leaseId ∧
        (∀ y ∈ after, (∀ other, y.grants ≠ some (rid, other)) ∧
          y.effect rid ≠ .drops session ∧ (∀ d m, y.effect rid ≠ .resolves d m) ∧
          y.effect rid ≠ .cancels) ∧
        leaseLife rid ⟨leaseId, session, x.later + duration⟩ after = some lease ∧
        now < lease.expires) ∧
    (grantCount trace < 2 ^ 64 →
      ∀ before x after rid₀ granted, trace = before ++ x :: after →
      x.grants = some (rid₀, granted) →
      (∀ lease, leaseLife rid₀ granted after = some lease → lease.expires ≤ now) →
      ∀ call reply b' session rid, call.presents = some (session, rid, granted.id) →
      b.serve now later call = (b', reply) → reply.accepted = false) := by
  refine ⟨?_, ?_, ?_, ?_⟩
  · intro rid l l' h h'
    obtain ⟨⟨e, he, hs⟩, _⟩ := (held_iff_claimed run hn).mp h
    obtain ⟨⟨e', he', hs'⟩, _⟩ := (held_iff_claimed run hn).mp h'
    rw [he] at he'
    cases he'
    rw [hs] at hs'
    exact EntryState.claimed.inj hs'
  · intro session rid duration c b' h l hh
    obtain ⟨⟨e, he, hs⟩, hlt⟩ := (held_iff_claimed run hn).mp hh
    obtain ⟨_, e', he', hp⟩ :=
      serve_grants h (show Event.grants _ = some (rid, _) from rfl)
    rw [he] at he'
    cases he'
    rw [hs, reopen_eq_claimed.mpr ⟨rfl, by simpa [Lease.expired] using hlt⟩] at hp
    cases hp
  · intro call reply b' session rid leaseId hp h ha
    obtain ⟨before, x, granted, after, lease, he, hg, hi, ho, hl, hlt⟩ :=
      presents_accepted_granted run hn h hp ha
    obtain ⟨duration, c, hc, hr, hid, hx⟩ := grants_claim hg
    have recent := leaseLife_most_recent run he hg hl
    have hgr : granted = ⟨leaseId, session, x.later + duration⟩ := by
      cases granted
      simp_all
    subst ho
    refine ⟨before, x, after, duration, c, lease, he, hc, hr, hid.trans hi, ?_, hgr ▸ hl, hlt⟩
    exact fun y hy => ⟨recent y hy, leaseLife_uninterrupted hl hy⟩
  · intro hcount before x after rid₀ granted he hg hend call reply b' session rid hp h
    by_contra ha
    obtain ⟨before', x', granted', after', lease, he', hg', hi, _, hl, hlt⟩ :=
      presents_accepted_granted run hn h hp (by simpa using ha)
    have hid := grant_id_eq run hcount he hg
    have hid' := grant_id_eq run hcount he' hg'
    obtain ⟨rfl, rfl, rfl⟩ := history_split_unique (p := (·.grants.isSome)) (he.symm.trans he')
      (by simp [hg]) (by simp [hg']) (by simp only [grantCount] at hid hid'; omega)
    rw [hg] at hg'
    cases hg'
    have := hend lease hl
    omega

/-- A lease taken before a cancellation resolves nothing afterwards. -/
theorem lease_exclusive_after_cancel :
    let calls : List (Nat × Nat × Call) := [(0, 0, .register 7),
      (1, 1, .submit ⟨"a", "host", ["host.services.s.x"], false⟩ none),
      (2, 2, .claim 7 "a" 1000), (3, 3, .cancel "a")]
    ((serveAll {} calls).1.serve 4 4 (.resolve 7 "a" 1 .approved none)).2.accepted = false := by
  intro calls
  have run : BrokerRun {} 0 (serveAll {} calls).1 3 (serveAll {} calls).2 := serveAll_run rfl
  exact (lease_exclusive run (show 3 ≤ 4 by decide)).2.2.2 (by decide)
    ((serveAll {} calls).2.take 2) ⟨2, 2, .claim 7 "a" 1000, .claim (.ok ⟨1, 0⟩)⟩
    ((serveAll {} calls).2.drop 3) "a" ⟨1, 7, 1002⟩ (by decide) rfl
    (fun lease h => by
      have hn : leaseLife "a" ⟨1, 7, 1002⟩ ((serveAll {} calls).2.drop 3) = none := by
        decide
      rw [hn] at h
      cases h)
    (.resolve 7 "a" 1 .approved none) _ _ 7 "a" rfl (Prod.eta _).symm

end ApprovalBroker

end NixSecrets
