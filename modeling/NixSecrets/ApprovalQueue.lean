import Mathlib.Data.List.Perm.Subperm
import NixSecrets.ApprovalFinal

namespace NixSecrets

/-- A frontend's two copies of its queue agree, list nothing twice and name known requests. -/
structure Frontend.Tidy (entries : BTreeMap String Entry) (f : Frontend) : Prop where
  nodup : f.queued.Nodup
  known : ∀ id, id ∈ f.known ↔ id ∈ f.queued
  stored : ∀ id ∈ f.queued, id ∈ entries

theorem nodup_length_le_size {entries : BTreeMap String Entry} {ids : List String}
    (hn : ids.Nodup) (hs : ∀ id ∈ ids, id ∈ entries) : ids.length ≤ entries.size := by
  rw [← Std.ExtTreeMap.length_keys]
  apply (List.subperm_of_subset hn _).length_le
  intro id hid
  exact Std.ExtTreeMap.mem_keys.mpr (hs id hid)

/-- The queue bound never evicts: the broker knows no more requests than a queue holds. -/
theorem queue_tidy {entries : BTreeMap String Entry} {f : Frontend} {id : String}
    (hsize : entries.size ≤ maxRequests) (hf : f.Tidy entries) (hid : id ∈ entries) :
    (queue f id).Tidy entries ∧ ∀ j, j ∈ (queue f id).queued ↔ j ∈ f.queued ∨ j = id := by
  by_cases hk : id ∈ f.known
  · have hq := (hf.known id).mp hk
    simp only [queue, hk, if_true]
    refine ⟨hf, fun j => ⟨Or.inl, ?_⟩⟩
    rintro (hj | rfl)
    · exact hj
    · exact hq
  · have hq : id ∉ f.queued := fun h => hk ((hf.known id).mpr h)
    have hroom : f.queued.length ≠ maxQueue := by
      have hle : (id :: f.queued).length ≤ entries.size :=
        nodup_length_le_size (List.nodup_cons.mpr ⟨hq, hf.nodup⟩) (fun j hj => by
          rcases List.mem_cons.mp hj with rfl | hj
          · exact hid
          · exact hf.stored j hj)
      simp only [List.length_cons, maxRequests] at hle hsize
      simp only [maxQueue]
      omega
    simp only [queue, hk, if_false, hroom]
    refine ⟨⟨?_, ?_, ?_⟩, fun j => by simp⟩
    · exact List.nodup_append.mpr ⟨hf.nodup, by simp, by
        rintro a ha b hb rfl
        exact hq (by simpa [List.mem_singleton.mp hb] using ha)⟩
    · intro j
      simp only [Std.ExtTreeSet.mem_insert, List.mem_append, List.mem_singleton, hf.known,
        Std.LawfulEqCmp.compare_eq_iff_eq]
      constructor
      · rintro (rfl | h)
        · exact Or.inr rfl
        · exact Or.inl h
      · rintro (h | rfl)
        · exact Or.inr h
        · exact Or.inl rfl
    · intro j hj
      rcases List.mem_append.mp hj with hj | hj
      · exact hf.stored j hj
      · exact List.mem_singleton.mp hj ▸ hid

theorem foldl_queue_tidy {entries : BTreeMap String Entry} {f : Frontend} {ids : List String}
    (hsize : entries.size ≤ maxRequests) (hf : f.Tidy entries) (hids : ∀ id ∈ ids, id ∈ entries) :
    (ids.foldl queue f).Tidy entries ∧
      ∀ j, j ∈ (ids.foldl queue f).queued ↔ j ∈ f.queued ∨ j ∈ ids := by
  induction ids generalizing f with
  | nil => exact ⟨hf, by simp⟩
  | cons id ids ih =>
    obtain ⟨ht, hm⟩ := queue_tidy hsize hf (hids id (by simp))
    obtain ⟨ht', hm'⟩ := ih ht (fun j hj => hids j (List.mem_cons_of_mem _ hj))
    refine ⟨ht', fun j => ?_⟩
    rw [List.foldl_cons, hm', hm, List.mem_cons, or_assoc]

theorem Frontend.Tidy.of_keys {entries entries' : BTreeMap String Entry} {f : Frontend}
    (hf : f.Tidy entries) (h : ∀ id, id ∈ entries → id ∈ entries') : f.Tidy entries' :=
  ⟨hf.nodup, hf.known, fun id hid => h id (hf.stored id hid)⟩

theorem Frontend.empty_tidy (entries : BTreeMap String Entry) : ({} : Frontend).Tidy entries :=
  ⟨List.nodup_nil, by simp, by simp⟩

namespace ApprovalBroker

/-- Every registered frontend is offered every pending request. -/
structure Offering (b : ApprovalBroker) : Prop where
  bounded : b.entries.size ≤ maxRequests
  tidy : ∀ (session : Nat) (f : Frontend), b.frontends[session]? = some f → f.Tidy b.entries
  offered : ∀ (session : Nat) (f : Frontend) (rid : String) (entry : Entry),
    b.frontends[session]? = some f → b.entries[rid]? = some entry → entry.state = .pending →
    rid ∈ f.queued

theorem foldl_broadcast_frontends (ids : List String) (b : ApprovalBroker) (session : Nat) :
    (ids.foldl broadcast b).frontends[session]? =
      (b.frontends[session]?).map fun f => ids.foldl queue f := by
  induction ids generalizing b with
  | nil => simp
  | cons id ids ih =>
    rw [List.foldl_cons, ih]
    simp [broadcast, Std.ExtTreeMap.getElem?_map, Function.comp_def]

theorem reopen_frontends (b : ApprovalBroker) (p : Lease → Bool) (session : Nat) :
    (b.reopen p).frontends[session]? = (b.frontends[session]?).map fun f =>
      ((b.entries.toList.filter fun item => item.2.state.leased p).map Prod.fst).foldl queue f := by
  simp only [reopen, foldl_broadcast_frontends]

theorem mem_reopened {b : ApprovalBroker} {p : Lease → Bool} {rid : String} :
    rid ∈ (b.entries.toList.filter fun item => item.2.state.leased p).map Prod.fst ↔
      ∃ entry, b.entries[rid]? = some entry ∧ entry.state.leased p = true := by
  constructor
  · intro h
    obtain ⟨⟨id, entry⟩, hm, rfl⟩ := List.mem_map.mp h
    obtain ⟨hl, hp⟩ := List.mem_filter.mp hm
    exact ⟨entry, Std.ExtTreeMap.mem_toList_iff_getElem?_eq_some.mp hl, hp⟩
  · rintro ⟨entry, he, hp⟩
    exact List.mem_map.mpr ⟨(rid, entry), List.mem_filter.mpr
      ⟨Std.ExtTreeMap.mem_toList_iff_getElem?_eq_some.mpr he, hp⟩, rfl⟩

theorem reopen_size (b : ApprovalBroker) (p : Lease → Bool) :
    (b.reopen p).entries.size = b.entries.size := by
  simp [reopen, (foldl_broadcast_entries _ _).1]

theorem reopen_mem (b : ApprovalBroker) (p : Lease → Bool) (id : String) :
    id ∈ (b.reopen p).entries ↔ id ∈ b.entries := by
  simp [reopen, (foldl_broadcast_entries _ _).1]

theorem reopen_offering {b : ApprovalBroker} {p : Lease → Bool} (h : b.Offering) :
    (b.reopen p).Offering := by
  have hids : ∀ id ∈ (b.entries.toList.filter fun item => item.2.state.leased p).map Prod.fst,
      id ∈ b.entries := by
    intro id hid
    obtain ⟨entry, he, _⟩ := mem_reopened.mp hid
    exact Std.ExtTreeMap.mem_iff_isSome_getElem?.mpr (by rw [he]; rfl)
  refine ⟨by rw [reopen_size]; exact h.bounded, ?_, ?_⟩
  · intro session f hf
    rw [reopen_frontends] at hf
    obtain ⟨old, ho, rfl⟩ := Option.map_eq_some_iff.mp hf
    exact (foldl_queue_tidy h.bounded (h.tidy session old ho) hids).1.of_keys
      fun id hid => (reopen_mem b p id).mpr hid
  · intro session f rid entry hf he hp
    rw [reopen_frontends] at hf
    obtain ⟨old, ho, rfl⟩ := Option.map_eq_some_iff.mp hf
    rw [(foldl_queue_tidy h.bounded (h.tidy session old ho) hids).2]
    rw [reopen_entries] at he
    obtain ⟨e, hoe, rfl⟩ := Option.map_eq_some_iff.mp he
    cases hl : e.state.leased p with
    | true => exact Or.inr (mem_reopened.mpr ⟨e, hoe, hl⟩)
    | false =>
      rw [reopen_of_not_leased hl] at hp
      exact Or.inl (h.offered session old rid e ho hoe hp)

theorem reclaim_offering {b : ApprovalBroker} (h : b.Offering) (now : Nat) :
    (b.reclaim now).Offering := reopen_offering h

theorem setState_size {b : ApprovalBroker} {id : String} {entry old : Entry} {s : EntryState}
    (ho : b.entries[id]? = some old) : (b.setState id entry s).entries.size = b.entries.size := by
  have hm : id ∈ b.entries := Std.ExtTreeMap.mem_iff_isSome_getElem?.mpr (by rw [ho]; rfl)
  simp [setState, Std.ExtTreeMap.size_insert, hm]

theorem setState_mem {b : ApprovalBroker} {id rid : String} {entry : Entry} {s : EntryState}
    (h : rid ∈ b.entries) : rid ∈ (b.setState id entry s).entries := by
  simp [setState, h]

/-- Leaving the pending state asks nothing of the queues. -/
theorem setState_offering {b : ApprovalBroker} {id : String} {entry old : Entry} {s : EntryState}
    (h : b.Offering) (ho : b.entries[id]? = some old) (hs : s ≠ .pending) :
    (b.setState id entry s).Offering := by
  refine ⟨by rw [setState_size ho]; exact h.bounded, ?_, ?_⟩
  · exact fun session f hf => (h.tidy session f hf).of_keys fun _ hid => setState_mem hid
  · intro session f rid e hf he hp
    rw [setState_entries] at he
    split at he
    next => cases he; exact absurd hp hs
    next => exact h.offered session f rid e hf he hp

theorem nextLease_offering {b : ApprovalBroker} (h : b.Offering) (n : Nat) :
    { b with nextLease := n }.Offering := ⟨h.bounded, h.tidy, h.offered⟩

theorem erase_offering {b : ApprovalBroker} (h : b.Offering) (session : Nat) :
    { b with frontends := b.frontends.erase session }.Offering := by
  have old {s : Nat} {f : Frontend} (hf : (b.frontends.erase session)[s]? = some f) :
      b.frontends[s]? = some f := by
    rw [Std.ExtTreeMap.getElem?_erase] at hf
    split at hf
    next => cases hf
    next => exact hf
  exact ⟨h.bounded, fun s f hf => h.tidy s f (old hf),
    fun s f rid e hf => h.offered s f rid e (old hf)⟩

/-- Replacing one frontend keeps the broker offering, if the new queue is tidy and complete. -/
theorem insert_offering {b : ApprovalBroker} {session : Nat} {f : Frontend} (h : b.Offering)
    (ht : f.Tidy b.entries) (ho : ∀ (rid : String) (entry : Entry), b.entries[rid]? = some entry →
      entry.state = .pending → rid ∈ f.queued) :
    { b with frontends := b.frontends.insert session f }.Offering := by
  have cases {s : Nat} {g : Frontend} (hg : (b.frontends.insert session f)[s]? = some g) :
      g = f ∨ b.frontends[s]? = some g := by
    rw [Std.ExtTreeMap.getElem?_insert] at hg
    split at hg
    next => cases hg; exact Or.inl rfl
    next => exact Or.inr hg
  refine ⟨h.bounded, ?_, ?_⟩
  · intro s g hg
    rcases cases hg with rfl | hg
    · exact ht
    · exact h.tidy s g hg
  · intro s g rid entry hg he hp
    rcases cases hg with rfl | hg
    · exact ho rid entry he hp
    · exact h.offered s g rid entry hg he hp

theorem mem_pendingIds {b : ApprovalBroker} {rid : String} :
    rid ∈ (b.entries.toList.filter fun item => item.2.state = .pending).map Prod.fst ↔
      ∃ entry, b.entries[rid]? = some entry ∧ entry.state = .pending := by
  constructor
  · intro h
    obtain ⟨⟨id, entry⟩, hm, rfl⟩ := List.mem_map.mp h
    obtain ⟨hl, hp⟩ := List.mem_filter.mp hm
    exact ⟨entry, Std.ExtTreeMap.mem_toList_iff_getElem?_eq_some.mp hl, by simpa using hp⟩
  · rintro ⟨entry, he, hp⟩
    exact List.mem_map.mpr ⟨(rid, entry), List.mem_filter.mpr
      ⟨Std.ExtTreeMap.mem_toList_iff_getElem?_eq_some.mpr he, by simpa using hp⟩, rfl⟩

theorem register_offering {b b' : ApprovalBroker} {now session : Nat} {r : Except BrokerError Unit}
    (h : b.Offering) (hr : b.register now session = (b', r)) : b'.Offering := by
  have hb := reclaim_offering h now
  rcases register_cases hr with rfl | rfl
  · exact hb
  · have hold : ((b.reclaim now).frontends.getD session {}).Tidy (b.reclaim now).entries := by
      rw [Std.ExtTreeMap.getD_eq_getD_getElem?]
      cases hf : (b.reclaim now).frontends[session]? with
      | none => exact Frontend.empty_tidy _
      | some f => exact hb.tidy session f hf
    have hids : ∀ id ∈ ((b.reclaim now).entries.toList.filter fun item =>
        item.2.state = .pending).map Prod.fst, id ∈ (b.reclaim now).entries := by
      intro id hid
      obtain ⟨entry, he, _⟩ := mem_pendingIds.mp hid
      exact Std.ExtTreeMap.mem_iff_isSome_getElem?.mpr (by rw [he]; rfl)
    obtain ⟨ht, hm⟩ := foldl_queue_tidy hb.bounded hold hids
    exact insert_offering hb ht fun rid entry he hp =>
      (hm rid).mpr (Or.inr (mem_pendingIds.mpr ⟨entry, he, hp⟩))

theorem broadcast_offering {b : ApprovalBroker} {id : String} {procedure : Option ProcedureStep}
    {request : ApprovalRequest} (h : b.Offering) (hn : b.entries[id]? = none)
    (hs : b.entries.size < maxRequests) :
    ((b.setState id ⟨request, .pending, procedure⟩ .pending).broadcast id).Offering := by
  have hnm : ¬ id ∈ b.entries := by
    rw [Std.ExtTreeMap.mem_iff_isSome_getElem?, hn]
    simp
  have hsize : (b.setState id ⟨request, .pending, procedure⟩ .pending).entries.size ≤
      maxRequests := by
    simp [setState, Std.ExtTreeMap.size_insert, hnm]
    omega
  have hid : id ∈ (b.setState id ⟨request, .pending, procedure⟩ .pending).entries := by
    simp [setState]
  have front {session : Nat} {f : Frontend}
      (hf : ((b.setState id ⟨request, .pending, procedure⟩ .pending).broadcast id).frontends[session]?
        = some f) : ∃ old, b.frontends[session]? = some old ∧ f = queue old id := by
    simp only [broadcast, Std.ExtTreeMap.getElem?_map, Option.map_eq_some_iff] at hf
    obtain ⟨old, ho, rfl⟩ := hf
    exact ⟨old, ho, rfl⟩
  refine ⟨hsize, ?_, ?_⟩
  · intro session f hf
    obtain ⟨old, ho, rfl⟩ := front hf
    exact (queue_tidy hsize ((h.tidy session old ho).of_keys fun _ => setState_mem) hid).1
  · intro session f rid e hf he hp
    obtain ⟨old, ho, rfl⟩ := front hf
    rw [(queue_tidy hsize ((h.tidy session old ho).of_keys fun _ => setState_mem) hid).2]
    rw [broadcast_entries, setState_entries] at he
    split at he
    next hid => exact Or.inr hid.symm
    next => exact Or.inl (h.offered session old rid e ho he hp)

/-- What a registered frontend's poll keeps queued. -/
def pollQueue (b : ApprovalBroker) (f : Frontend) : List String :=
  f.queued.filter fun id => (b.entries[id]?).any fun entry => entry.state = .pending

theorem mem_pollQueue {b : ApprovalBroker} {session : Nat} {f : Frontend} {rid : String}
    (h : b.Offering) (hf : b.frontends[session]? = some f) :
    rid ∈ b.pollQueue f ↔ ∃ entry, b.entries[rid]? = some entry ∧ entry.state = .pending := by
  simp only [pollQueue, List.mem_filter]
  constructor
  · rintro ⟨_, hp⟩
    cases he : b.entries[rid]? with
    | none => simp [he] at hp
    | some entry => exact ⟨entry, rfl, by simpa [he] using hp⟩
  · rintro ⟨entry, he, hp⟩
    exact ⟨h.offered session f rid entry hf he hp, by simpa [he] using hp⟩

theorem pollQueue_tidy {b : ApprovalBroker} {session : Nat} {f : Frontend} (h : b.Offering)
    (hf : b.frontends[session]? = some f) :
    (⟨b.pollQueue f, Std.ExtTreeSet.ofList (b.pollQueue f)⟩ : Frontend).Tidy b.entries := by
  refine ⟨(h.tidy session f hf).nodup.filter _, ?_, ?_⟩
  · intro id
    simp [Std.ExtTreeSet.mem_ofList]
  · intro id hid
    exact (h.tidy session f hf).stored id (List.mem_filter.mp hid).1

theorem pending_registered {b : ApprovalBroker} {now session : Nat} {f : Frontend}
    (hf : (b.reclaim now).frontends[session]? = some f) :
    b.pending now session = ({ b.reclaim now with
      frontends := (b.reclaim now).frontends.insert session
        ⟨(b.reclaim now).pollQueue f, Std.ExtTreeSet.ofList ((b.reclaim now).pollQueue f)⟩ },
      .ok ((((b.reclaim now).pollQueue f).filterMap fun id =>
        (b.reclaim now).entries[id]?).map Entry.request)) := by
  simp only [pending, hf, pollQueue]

theorem pending_offering {b b' : ApprovalBroker} {now session : Nat}
    {r : Except BrokerError (List ApprovalRequest)} (h : b.Offering)
    (hp : b.pending now session = (b', r)) : b'.Offering := by
  have hb := reclaim_offering h now
  cases hf : (b.reclaim now).frontends[session]? with
  | none =>
    simp only [pending, hf] at hp
    cases hp
    exact hb
  | some f =>
    rw [pending_registered hf] at hp
    cases hp
    exact insert_offering hb (pollQueue_tidy hb hf) fun rid entry he hs =>
      (mem_pollQueue hb hf).mpr ⟨entry, he, hs⟩

theorem serve_offering {b b' : ApprovalBroker} {now later : Nat} {call : Call} {reply : Reply}
    (h : b.serve now later call = (b', reply)) (ho : b.Offering) : b'.Offering := by
  have hb := reclaim_offering ho now
  cases call with
  | register session =>
    obtain ⟨r, hc, rfl⟩ := map_prod_eq h
    exact register_offering ho hc
  | pending session =>
    obtain ⟨r, hc, rfl⟩ := map_prod_eq h
    exact pending_offering ho hc
  | submit request procedure =>
    obtain ⟨r, hc, rfl⟩ := map_prod_eq h
    rcases submit_cases hc with ⟨_, _, rfl, _⟩ | ⟨_, hh⟩
    · exact ho
    · rcases hh with ⟨_, _, rfl, _⟩ | ⟨_, _, _, _, rfl⟩ | ⟨hn, hs, _, rfl⟩
      · exact hb
      · exact hb
      · exact broadcast_offering hb hn hs
  | claim session id lease =>
    obtain ⟨r, hc, rfl⟩ := map_prod_eq h
    rcases claim_cases hc with ⟨_, _, rfl⟩ | ⟨entry, he, _, _, _, rfl⟩
    · exact hb
    · exact setState_offering (nextLease_offering hb _) he (by simp)
  | renew session id leaseId duration =>
    obtain ⟨r, hc, rfl⟩ := map_prod_eq h
    rcases renew_cases hc with ⟨_, _, rfl⟩ | ⟨entry, _, he, _, _, _, _, rfl⟩
    · exact hb
    · exact setState_offering hb he (by simp)
  | resolve session id leaseId decision message =>
    obtain ⟨r, hc, rfl⟩ := map_prod_eq h
    rcases resolve_cases hc with ⟨_, _, rfl⟩ | ⟨entry, _, he, _, _, _, _, rfl⟩
    · exact hb
    · exact setState_offering hb he (by simp)
  | cancel id =>
    obtain ⟨r, hc, rfl⟩ := map_prod_eq h
    rcases cancel_cases hc with ⟨_, _, rfl, _⟩ | ⟨entry, he, _, rfl⟩
    · exact hb
    · exact setState_offering hb he (by simp)
  | status id =>
    obtain ⟨r, hc, rfl⟩ := map_prod_eq h
    exact (statusOf_cases hc).1 ▸ hb
  | disconnect session =>
    cases h
    exact reopen_offering (erase_offering ho session)

theorem run_offering {b b' : ApprovalBroker} {t t' : Nat} {trace : List Event}
    (h : BrokerRun b t b' t' trace) (ho : b.Offering) : b'.Offering := by
  induction h with
  | start => exact ho
  | next _ _ _ hs ih => exact serve_offering hs ih

theorem empty_offering : ({} : ApprovalBroker).Offering :=
  ⟨by simp, fun _ _ hf => by simp at hf, fun _ _ _ _ hf => by simp at hf⟩

theorem reclaim_registered {b : ApprovalBroker} {session : Nat} (h : session ∈ b.frontends)
    (now : Nat) :
    ∃ f, (b.reclaim now).frontends[session]? = some f := by
  rw [Std.ExtTreeMap.mem_iff_isSome_getElem?, Option.isSome_iff_exists] at h
  obtain ⟨f, hf⟩ := h
  exact ⟨_, by rw [reclaim, reopen_frontends, hf]; rfl⟩

/-- A registered frontend's poll returns every pending request once, and nothing else. -/
theorem pending_complete {t₀ t now session : Nat} {b : ApprovalBroker} {trace : List Event}
    (run : BrokerRun {} t₀ b t trace) (hs : session ∈ b.frontends) :
    ∃ b' requests, b.pending now session = (b', .ok requests) ∧
      (requests.map ApprovalRequest.id).Nodup ∧
      ∀ request, request ∈ requests ↔ ∃ entry, b.entries[request.id]? = some entry ∧
        entry.request = request ∧ entry.state.reopen (·.expired now) = .pending := by
  have hb := reclaim_offering (run_offering run empty_offering) now
  have hw := run_wellFiled run wellFiled_empty
  have filed : ∀ (id : String) (e : Entry), (b.reclaim now).entries[id]? = some e →
      e.request.id = id := by
    intro id e he
    rw [reclaim_entries] at he
    obtain ⟨old, ho, rfl⟩ := Option.map_eq_some_iff.mp he
    exact (hw id old ho).1
  obtain ⟨f, hf⟩ := reclaim_registered hs now
  refine ⟨_, _, pending_registered hf, ?_, ?_⟩
  · -- the ids of the answer are the polled queue itself
    have hids : ((((b.reclaim now).pollQueue f).filterMap fun id =>
        (b.reclaim now).entries[id]?).map Entry.request).map ApprovalRequest.id =
        (b.reclaim now).pollQueue f := by
      have hall : ∀ id ∈ (b.reclaim now).pollQueue f, ∃ e, (b.reclaim now).entries[id]? = some e :=
        fun id hid => ((mem_pollQueue hb hf).mp hid).imp fun _ h => h.1
      generalize (b.reclaim now).pollQueue f = ids at hall
      induction ids with
      | nil => rfl
      | cons id ids ih =>
        obtain ⟨e, he⟩ := hall id (by simp)
        simp only [List.filterMap_cons, he, List.map_cons, filed id e he, List.cons.injEq, true_and]
        exact ih fun j hj => hall j (List.mem_cons_of_mem _ hj)
    rw [hids]
    exact (pollQueue_tidy hb hf).nodup
  · intro request
    simp only [List.mem_map, List.mem_filterMap]
    constructor
    · rintro ⟨e, ⟨id, hid, he⟩, rfl⟩
      obtain ⟨e', he', hp⟩ := (mem_pollQueue hb hf).mp hid
      rw [he] at he'
      cases he'
      rw [filed id e he]
      obtain ⟨old, ho, hst⟩ := reclaim_entry he
      rw [reclaim_entries, ho] at he
      cases he
      exact ⟨old, ho, rfl, hp⟩
    · rintro ⟨e, he, rfl, hp⟩
      refine ⟨{ e with state := e.state.reopen (·.expired now) }, ⟨e.request.id, ?_, ?_⟩, rfl⟩
      · exact (mem_pollQueue hb hf).mpr ⟨_, by rw [reclaim_entries, he]; rfl, hp⟩
      · rw [reclaim_entries, he]; rfl

/-- After a lease of request "a" expired, a poll offers it again. -/
theorem pending_complete_after_expiry :
    let calls : List (Nat × Nat × Call) := [(0, 0, .register 7),
      (1, 1, .submit ⟨"a", "host", ["host.services.s.x"], false⟩ none), (2, 2, .claim 7 "a" 10)]
    ∃ b' requests, (serveAll {} calls).1.pending 20 7 = (b', .ok requests) ∧
      ⟨"a", "host", ["host.services.s.x"], false⟩ ∈ requests := by
  intro calls
  have run : BrokerRun {} 0 (serveAll {} calls).1 2 (serveAll {} calls).2 := serveAll_run rfl
  have registered : 7 ∈ (serveAll {} calls).1.frontends := by decide
  obtain ⟨b', requests, hp, _, hm⟩ := pending_complete run registered
  refine ⟨b', requests, hp, (hm _).mpr
    ⟨⟨⟨"a", "host", ["host.services.s.x"], false⟩, .claimed ⟨1, 7, 12⟩, none⟩, ?_, rfl, rfl⟩⟩
  decide

end ApprovalBroker

end NixSecrets
