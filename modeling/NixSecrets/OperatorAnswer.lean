import NixSecrets.OperatorClaims
import NixSecrets.OperatorWired
import NixSecrets.History

namespace NixSecrets

/-- The job of `id` a TUI still has to answer after it took these messages. -/
def openJob (id : String) (messages : List Inbox) : Option Nat :=
  messages.foldl (fun waiting m => match m with
    | .job request r => if request = id then some r else waiting
    | .withdraw request => if request = id then none else waiting
    | .answer request _ => if request = id then none else waiting
    | _ => waiting) none

/-- The answer a step hands to a requester. -/
def received (x : Operators × Action) : Option (Nat × Except String SecretAnswer) :=
  match x.2 with
  | .move r (.receive _) => x.1.requesters[r]?.bind fun q =>
    match q.phase, q.reply with
    | .waiting _ _, .answer a :: _ => some (r, a)
    | _, _ => none
  | _ => none

/-- The answer a step takes from a TUI: its session, the id it names, the requester that
id is open for, and the answer. -/
def answered (x : Operators × Action) : Option (Nat × String × Nat × SecretAnswer) :=
  match x.2 with
  | .handle s _ => x.1.tuis[s]?.bind fun tui =>
    match tui.inbox[tui.read]? with
    | some (.answer id a) => tui.waiting[id]?.map fun r => (s, id, r, a)
    | _ => none
  | _ => none

/-- A running TUI waits for exactly the jobs that are open in what it took. -/
structure Tui.Tracks (tui : Tui) : Prop where
  read : tui.read ≤ tui.inbox.length
  waiting : tui.serving = .running → ∀ id : String, tui.waiting[id]? = openJob id tui.handled

theorem openJob_concat (id : String) (messages : List Inbox) (m : Inbox) :
    openJob id (messages ++ [m]) = match m with
      | .job request r => if request = id then some r else openJob id messages
      | .withdraw request => if request = id then none else openJob id messages
      | .answer request _ => if request = id then none else openJob id messages
      | _ => openJob id messages := by
  simp [openJob, List.foldl_append]

namespace Tui

theorem Tracks.push {tui : Tui} (h : tui.Tracks) (m : Inbox) : (tui.push m).Tracks where
  read := by
    rw [push_read, push_inbox, List.length_append]
    exact Nat.le_add_right_of_le h.read
  waiting := by
    intro hr id
    rw [push_waiting, handled, push_inbox, push_read, List.take_append_of_le_length h.read]
    exact h.waiting (by simpa using hr) id

/-- Taking a message keeps the waiting jobs in step with the messages taken. -/
theorem take_tracks {tui tui' : Tui} {w : Bool} {m : Inbox} {out : Option (Nat × Outcome)}
    {before : List Inbox} (h : tui.take w m = (tui', out))
    (hw : ∀ id : String, tui.waiting[id]? = openJob id before) (hr : tui'.serving = .running)
    (id : String) : tui'.waiting[id]? = openJob id (before ++ [m]) := by
  have erased (request : String) : (tui.waiting.erase request)[id]? =
      if request = id then none else openJob id before := by
    rw [Std.ExtTreeMap.getElem?_erase, hw id]
    simp
  have absent {request : String} (hn : tui.waiting[request]? = none) :
      tui.waiting[id]? = if request = id then none else openJob id before := by
    by_cases he : request = id
    · rw [if_pos he, ← he, hn]
    · rw [if_neg he, hw id]
  rw [openJob_concat]
  cases m with
  | job request reply =>
    simp only [take, Prod.mk.injEq] at h
    obtain ⟨rfl, rfl⟩ := h
    split
    next => rw [Std.ExtTreeMap.getElem?_insert, hw id]; simp
    next hn => simp [hn] at hr
  | withdraw request =>
    simp only [take] at h
    split at h
    next =>
      cases h
      rw [wrote_waiting, erased]
    next hn =>
      cases h
      exact absent (Std.ExtTreeMap.getElem?_eq_none hn)
  | answer request a =>
    simp only [take] at h
    split at h
    next =>
      cases h
      rw [erased]
    next hn =>
      cases h
      exact absent hn
  | step _ | ended _ _ | grantEnded _ =>
    cases h
    rw [wrote_waiting, hw id]
  | cancelCountdown _ | closed =>
    cases h
    exact hw id

theorem Tracks.handle {tui tui' : Tui} {w : Bool} {out : Option (Nat × Outcome)} (h : tui.Tracks)
    (hh : tui.handle w = some (tui', out)) : tui'.Tracks := by
  obtain ⟨hrun, m, hm, hk⟩ := handle_cases hh
  obtain ⟨m', hm', hd⟩ := handle_handled hh
  rw [hm] at hm'
  cases hm'
  obtain ⟨hi, hread, _⟩ := take_same hk
  have hlt := (List.getElem?_eq_some_iff.mp hm).1
  constructor
  · rw [hi, hread]
    exact hlt
  · intro hr id
    rw [hd]
    exact take_tracks hk (h.waiting hrun) hr id

end Tui

namespace Operators

def Tracks (o : Operators) : Prop := ∀ (s : Nat) (tui : Tui), o.tuis[s]? = some tui → tui.Tracks

theorem Tracks.tell {o : Operators} (h : o.Tracks) (s : Nat) (m : Inbox) : (o.tell s m).Tracks := by
  intro s' tui' ht
  obtain ⟨tui, hold, rfl⟩ := tell_tuis ht
  split
  next => exact (h s' tui hold).push m
  next => exact h s' tui hold

theorem Tracks.serve {o : Operators} {s : Nat} {tui' : Tui} (h : o.Tracks) (ht : tui'.Tracks) :
    { o with tuis := o.tuis.set s tui' }.Tracks := by
  intro s' tui hget
  rcases set_tuis hget with ⟨rfl, rfl⟩ | ⟨_, hold⟩
  · exact ht
  · exact h s' tui hold

theorem Tracks.moved {o o' : Operators} {r : Nat} {q : Requester} {m : Move} (h : o.Tracks)
    (hm : Moved o r q m o') : o'.Tracks := by
  cases hm with
  | keeps | builds | loses | abandons | answered | refuses => exact h
  | sends => exact h.tell _ _
  | withdraws =>
    unfold withdraw
    cases q.id with
    | none => exact h
    | some id => exact h.tell _ _

theorem Tracks.step {o o' : Operators} {a : Action} (h : o.Tracks) (hs : o.step a = some o') :
    o'.Tracks := by
  cases step_cases hs with
  | arrives _ => exact h
  | moves hq hm => exact h.moved (move_cases hm)
  | attaches =>
    intro s tui ht
    rcases attach_tuis ht with ht | ⟨rfl, rfl⟩
    · exact h s tui ht
    · exact ⟨Nat.zero_le _, fun _ id => by simp [Tui.opened, Tui.handled, openJob]⟩
  | hears ht hm =>
    have hp := (h _ _ ht).push
    exact h.serve ⟨(hp _).read, (hp _).waiting⟩
  | handles ht hh =>
    intro s tui hget
    rw [send_tuis] at hget
    exact h.serve ((h _ _ ht).handle hh) s tui hget
  | fails ht _ => exact h.serve ⟨(h _ _ ht).read, by simp⟩
  | unregisters ht _ => exact h.serve ⟨(h _ _ ht).read, by simp⟩
  | hangsUp ht _ => exact h.serve ⟨(h _ _ ht).read, by simp⟩
  | announces hm =>
    unfold broadcast
    generalize o.attached = sessions
    clear hs
    induction sessions generalizing o with
    | nil => exact h
    | cons s sessions ih => exact ih (h.tell s _)

theorem run_tracks {o₀ o : Operators} {trace : List (Operators × Action)}
    (run : OperatorRun o₀ trace o) (h : o₀.Tracks) : o.Tracks := by
  induction run with
  | start => exact h
  | step _ next ih => exact ih.step next

/-- A step keeps a call and the result it has. -/
theorem step_result {o o' : Operators} {a : Action} {r : Nat} {q : Requester}
    {result : Except String SecretAnswer} (hs : o.step a = some o')
    (hq : o.requesters[r]? = some q) (hr : q.phase.result = some result) :
    ∃ q', o'.requesters[r]? = some q' ∧ q'.phase.result = some result := by
  cases step_cases hs with
  | arrives _ =>
    have hlt := (List.getElem?_eq_some_iff.mp hq).1
    exact ⟨q, by rw [List.getElem?_append_left hlt]; exact hq, hr⟩
  | @moves r' q₀ m o' hq₀ hm =>
    obtain ⟨q', hreq, _, _, hres, _⟩ := moved_requesters (move_cases hm)
    rw [hreq]
    by_cases he : r' = r
    · subst he
      rw [hq] at hq₀
      cases hq₀
      have hlt := (List.getElem?_eq_some_iff.mp hq).1
      exact ⟨q', by simp [hlt], hres result hr⟩
    · exact ⟨q, by simpa [List.getElem?_set, he] using hq, hr⟩
  | @handles s tui tui' w out ht hh =>
    have hset : { o with tuis := o.tuis.set s tui' }.requesters[r]? = some q := hq
    obtain ⟨q', hq', _, hp⟩ := send_requesters_of hset out
    exact ⟨q', hq', hp ▸ hr⟩
  | announces hm => exact ⟨q, by rw [(broadcast_same o _).1]; exact hq, hr⟩
  | attaches => exact ⟨q, hq, hr⟩
  | hears ht hm => exact ⟨q, hq, hr⟩
  | fails ht hr' => exact ⟨q, hq, hr⟩
  | unregisters ht hr' => exact ⟨q, hq, hr⟩
  | hangsUp ht hr' => exact ⟨q, hq, hr⟩

theorem run_result {o o' : Operators} {trace : List (Operators × Action)} {r : Nat}
    {q : Requester} {result : Except String SecretAnswer} (run : OperatorRun o trace o')
    (hq : o.requesters[r]? = some q) (hr : q.phase.result = some result) :
    ∃ q', o'.requesters[r]? = some q' ∧ q'.phase.result = some result := by
  induction run with
  | start => exact ⟨q, hq, hr⟩
  | step _ next ih =>
    obtain ⟨q', hq', hr'⟩ := ih
    exact step_result next hq' hr'

theorem received_cases {o : Operators} {action : Action} {r : Nat} {a : Except String SecretAnswer}
    (h : received (o, action) = some (r, a)) : ∃ w q s deadline rest,
      action = .move r (.receive w) ∧ o.requesters[r]? = some q ∧
      q.phase = .waiting s deadline ∧ q.reply = .answer a :: rest := by
  unfold received at h
  split at h
  next r' w he =>
    obtain ⟨q, hq, h⟩ := Option.bind_eq_some_iff.mp h
    split at h
    next s deadline a' rest hp hr =>
      cases h
      exact ⟨w, q, s, deadline, rest, he, hq, hp, hr⟩
    next => cases h
  next => cases h

theorem received_result {o o' : Operators} {action : Action} {r : Nat}
    {a : Except String SecretAnswer} (h : received (o, action) = some (r, a))
    (hs : o.step action = some o') :
    ∃ q', o'.requesters[r]? = some q' ∧ q'.phase.result = some a := by
  obtain ⟨w, q, s, deadline, rest, rfl, hq, hp, hr⟩ := received_cases h
  simp only [step, hq, Option.bind_some, move, hp, hr, receive, Option.some.injEq] at hs
  subst hs
  exact ⟨_, (put_requesters hq).mpr (Or.inl ⟨rfl, rfl⟩), rfl⟩

def receipts (r : Nat) (trace : List (Operators × Action)) : Nat :=
  (trace.filterMap received).countP (·.1 == r)

theorem receipts_concat (r : Nat) (trace : List (Operators × Action)) (x : Operators × Action) :
    receipts r (trace ++ [x]) =
      receipts r trace + if (received x).any (·.1 == r) then 1 else 0 := by
  simp only [receipts, List.filterMap_append, List.countP_append]
  cases hx : received x with
  | none => simp [hx]
  | some y => simp [hx]

/-- A call gets an answer at most once, and then has its result. -/
theorem run_receipts {o₀ o : Operators} {trace : List (Operators × Action)}
    (run : OperatorRun o₀ trace o) (r : Nat) : receipts r trace = 0 ∨
      receipts r trace = 1 ∧ ∃ q a, o.requesters[r]? = some q ∧ q.phase.result = some a := by
  induction run with
  | start => exact Or.inl rfl
  | @step o₁ o₂ trace action run next ih =>
    rw [receipts_concat]
    by_cases hx : (received (o₁, action)).any (·.1 == r) = true
    · obtain ⟨⟨r', a⟩, hrec, he⟩ := (Option.any_eq_true _ _).mp hx
      have he : r' = r := by simpa using he
      subst he
      obtain ⟨w, q, s, deadline, rest, _, hq, hp, _⟩ := received_cases hrec
      obtain ⟨q', hq', hr'⟩ := received_result hrec next
      rcases ih with h0 | ⟨_, p, b, hp', hb⟩
      · exact Or.inr ⟨by rw [h0, if_pos hx], q', a, hq', hr'⟩
      · rw [hq] at hp'
        cases hp'
        rw [hp] at hb
        cases hb
    · rw [if_neg hx, Nat.add_zero]
      rcases ih with h0 | ⟨h1, p, b, hp, hb⟩
      · exact Or.inl h0
      · obtain ⟨q', hq', hr'⟩ := step_result next hp hb
        exact Or.inr ⟨h1, q', b, hq', hr'⟩

/-- Every answer in the channel of a call without a result was taken from the TUI the call
waited on, and named its request. -/
def Sourced (trace : List (Operators × Action)) (o : Operators) : Prop :=
  ∀ r q a, o.requesters[r]? = some q → q.phase.result = none → Outcome.answer a ∈ q.reply →
    ∃ y ∈ trace, ∃ s id b, a = .ok b ∧ answered y = some (s, id, r, b) ∧ q.id = some id ∧
      ∃ p, y.1.requesters[r]? = some p ∧ p.phase.servedBy = some s

theorem Sourced.mono {trace : List (Operators × Action)} {o o' : Operators} (h : Sourced trace o)
    (x : Operators × Action)
    (hold : ∀ (r : Nat) (q' : Requester), o'.requesters[r]? = some q' → q'.phase.result = none →
      ∀ a, Outcome.answer a ∈ q'.reply → ∃ q : Requester, o.requesters[r]? = some q ∧
        q.phase.result = none ∧ Outcome.answer a ∈ q.reply ∧ (q.id = none ∨ q'.id = q.id)) :
    Sourced (trace ++ [x]) o' := by
  intro r q' a hq' hr' hm'
  obtain ⟨q, hq, hr, hm, hid⟩ := hold r q' hq' hr' a hm'
  obtain ⟨y, hy, s, id, b, ha, hans, hi, hp⟩ := h r q a hq hr hm
  refine ⟨y, List.mem_append_left _ hy, s, id, b, ha, hans, ?_, hp⟩
  rcases hid with hn | hid
  · rw [hn] at hi
    cases hi
  · exact hid.trans hi

theorem answered_handle {o : Operators} {s r : Nat} {tui : Tui} {w : Bool} {id : String}
    {a : SecretAnswer} (ht : o.tuis[s]? = some tui)
    (hm : tui.inbox[tui.read]? = some (.answer id a)) (hw : tui.waiting[id]? = some r) :
    answered (o, .handle s w) = some (s, id, r, a) := by
  simp [answered, ht, hm, hw]

theorem Sourced.handled {trace : List (Operators × Action)} {o : Operators} {s : Nat}
    {tui tui' : Tui} {w : Bool} {out : Option (Nat × Outcome)} (h : Sourced trace o) (hw : o.Wired)
    (ht : o.tuis[s]? = some tui) (hh : tui.handle w = some (tui', out)) :
    Sourced (trace ++ [(o, .handle s w)]) ({ o with tuis := o.tuis.set s tui' }.send out) := by
  intro r q' a hq' hr' hm'
  obtain ⟨q, hq, hi, hp, hreply⟩ := send_requesters hq'
  have old (hm : Outcome.answer a ∈ q.reply) := h r q a hq (hp ▸ hr') hm
  rw [hi]
  rcases hreply with hreply | ⟨outcome, rfl, hreply⟩
  · obtain ⟨y, hy, hrest⟩ := old (hreply ▸ hm')
    exact ⟨y, List.mem_append_left _ hy, hrest⟩
  · rw [hreply, List.mem_append, List.mem_singleton] at hm'
    rcases hm' with hm' | rfl
    · obtain ⟨y, hy, hrest⟩ := old hm'
      exact ⟨y, List.mem_append_left _ hy, hrest⟩
    · obtain ⟨hrun, m, hm, hk⟩ := Tui.handle_cases hh
      obtain ⟨id, hopen, hcase⟩ := Tui.take_out hk
      obtain ⟨p, hget, hid, hsent⟩ :=
        hw.sent s tui id r ht (List.mem_of_mem_take (hw.shown s tui id r ht hopen))
      have hpq : p = q := Option.some.inj (hget.symm.trans hq)
      subst hpq
      rcases hcase with ⟨b, rfl, hb⟩ | ⟨_, hc⟩
      · cases hb
        have hserved : p.phase.servedBy = some s := by
          rcases hsent (hw.registered s tui ht hrun) with hv | hv
          · exact hv
          · rw [← hp, hr'] at hv
            cases hv
        exact ⟨(o, .handle s w), List.mem_append_right _ (List.mem_singleton.mpr rfl), s, id, b, rfl,
          answered_handle ht hm hopen, hid, p, hq, hserved⟩
      · cases hc

theorem Sourced.step {trace : List (Operators × Action)} {o o' : Operators} {action : Action}
    (h : Sourced trace o) (hw : o.Wired) (hs : o.step action = some o') :
    Sourced (trace ++ [(o, action)]) o' := by
  have same (he : o'.requesters = o.requesters) : Sourced (trace ++ [(o, action)]) o' :=
    h.mono _ fun r q' hq' hr' a hm' => ⟨q', he ▸ hq', hr', hm', Or.inr rfl⟩
  cases step_cases hs with
  | arrives hp =>
    refine h.mono _ fun r q' hq' hr' a hm' => ?_
    rw [List.getElem?_append] at hq'
    split at hq'
    next => exact ⟨q', hq', hr', hm', Or.inr rfl⟩
    next =>
      rw [List.getElem?_singleton] at hq'
      split at hq'
      next => cases hq'; cases hm'
      next => cases hq'
  | @moves r q m o' hq hm =>
    obtain ⟨p, hreq, _, hid, hres, hx⟩ := moved_requesters (move_cases hm)
    have hlt := (List.getElem?_eq_some_iff.mp hq).1
    refine h.mono _ fun r' q' hq' hr' a hm' => ?_
    rw [hreq, List.getElem?_set, if_pos hlt] at hq'
    split at hq'
    next he =>
      subst he
      cases hq'
      refine ⟨q, hq, ?_, hx hr' _ hm', hid⟩
      cases hr : q.phase.result with
      | none => rfl
      | some result =>
        rw [hres result hr] at hr'
        cases hr'
    next => exact ⟨q', hq', hr', hm', Or.inr rfl⟩
  | handles ht hh => exact h.handled hw ht hh
  | announces hm => exact same (broadcast_same o _).1
  | attaches => exact same rfl
  | hears ht hm => exact same rfl
  | fails ht hr => exact same rfl
  | unregisters ht hr => exact same rfl
  | hangsUp ht hr => exact same rfl

theorem run_sourced {o₀ o : Operators} {trace : List (Operators × Action)}
    (run : OperatorRun o₀ trace o) (h : Sourced [] o₀) (hw : o₀.Wired) : Sourced trace o := by
  induction run with
  | start => exact h
  | step run next ih => exact ih.step (run_wired run hw) next

theorem Sourced.empty : Sourced [] {} := by
  intro r q a hq
  simp at hq

theorem Tracks.empty : ({} : Operators).Tracks := by
  intro s tui ht
  simp at ht

theorem run_before {o o' : Operators} {before after : List (Operators × Action)}
    {x : Operators × Action} (run : OperatorRun o (before ++ x :: after) o') :
    OperatorRun o before x.1 := by
  generalize htrace : before ++ x :: after = trace at run
  induction run generalizing after with
  | start => simp at htrace
  | step run next ih =>
    rcases history_concat_split htrace.symm with ⟨_, rfl, rfl⟩ | ⟨rest, _, hrest⟩
    · exact run
    · exact ih hrest.symm

/-- An answer changes nobody but the requester whose request it names, and nobody at all
when the TUI has no such job open. -/
theorem handle_answer {o o' : Operators} {s : Nat} {tui : Tui} {w : Bool} {id : String}
    {a : SecretAnswer} (hw : o.Wired) (hk : o.Tracks) (ht : o.tuis[s]? = some tui)
    (hm : tui.inbox[tui.read]? = some (.answer id a)) (hs : o.step (.handle s w) = some o') :
    (openJob id tui.handled = none → o'.requesters = o.requesters) ∧
      ∀ (r : Nat) (q : Requester), o.requesters[r]? = some q → q.id ≠ some id →
        o'.requesters[r]? = some q := by
  simp only [step, ht, Option.bind_some, Option.map_eq_some_iff] at hs
  obtain ⟨⟨tui', out⟩, hh, rfl⟩ := hs
  obtain ⟨hrun, m, hm', htake⟩ := Tui.handle_cases hh
  rw [hm] at hm'
  cases hm'
  have hopen := (hk s tui ht).waiting hrun id
  simp only [Tui.take] at htake
  split at htake
  next r hr =>
    cases htake
    have hr : tui.waiting[id]? = some r := hr
    refine ⟨fun hn => ?_, fun r' q hq hne => ?_⟩
    · rw [hopen, hn] at hr
      cases hr
    · obtain ⟨p, hp, hid, _⟩ :=
        hw.sent s tui id r ht (List.mem_of_mem_take (hw.shown s tui id r ht hr))
      have he : r ≠ r' := by
        rintro rfl
        rw [hq] at hp
        cases hp
        exact hne hid
      simpa [Operators.send, List.getElem?_modify, he] using hq
  next =>
    cases htake
    exact ⟨fun _ => rfl, fun r q hq _ => hq⟩

/-- Answers reach the requester they name, once and while it waits, and every slot is
accounted for. -/
theorem run_answers_matched {o : Operators} {trace : List (Operators × Action)}
    (run : OperatorRun {} trace o) :
    (∀ r, receipts r trace ≤ 1) ∧
    (∀ before x after r a, trace = before ++ x :: after → received x = some (r, a) →
      ∃ (q : Requester) (s : Nat) (deadline : Bool) (id : String) (b : SecretAnswer),
        x.1.requesters[r]? = some q ∧ q.phase = .waiting s deadline ∧
        q.id = some id ∧ a = .ok b ∧ ∃ y ∈ before, ∃ s', answered y = some (s', id, r, b) ∧
          ∃ p : Requester, y.1.requesters[r]? = some p ∧ p.phase.servedBy = some s') ∧
    (∀ s (tui : Tui) w id a o', o.tuis[s]? = some tui → tui.inbox[tui.read]? = some (.answer id a) →
      o.step (.handle s w) = some o' →
      (openJob id tui.handled = none → o'.requesters = o.requesters) ∧
      ∀ (r : Nat) (q : Requester), o.requesters[r]? = some q → q.id ≠ some id →
        o'.requesters[r]? = some q) ∧
    (∀ (r : Nat) (q : Requester) result later o', o.requesters[r]? = some q →
      q.phase.result = some result → OperatorRun o later o' →
      ∃ q' : Requester, o'.requesters[r]? = some q' ∧ q'.phase.result = some result) ∧
    o.pending = o.liveClaims ∧ o.pending ≤ maxPending ∧
    ((∀ q ∈ o.requesters, q.phase.over = true) → o.pending = 0) := by
  have hacc := run_accounted run .empty
  refine ⟨fun r => ?_, ?_, ?_, ?_, hacc.1, hacc.2, hacc.over⟩
  · rcases run_receipts run r with h | ⟨h, _⟩ <;> omega
  · intro before x after r a htrace hrec
    subst htrace
    obtain ⟨w, q, s, deadline, rest, _, hq, hp, hreply⟩ := received_cases hrec
    obtain ⟨y, hy, s', id, b, ha, hans, hid, hserved⟩ :=
      run_sourced (run_before run) .empty .empty r q a hq (by rw [hp]; rfl) (by simp [hreply])
    exact ⟨q, s, deadline, id, b, hq, hp, hid, ha, y, hy, s', hans, hserved⟩
  · intro s tui w id a o' ht hm hs
    exact handle_answer (run_wired run .empty) (run_tracks run .empty) ht hm hs
  · intro r q result later o' hq hr hlater
    exact run_result hlater hq hr

/-- The operator's TUI answers the same request twice. -/
def replayed : List Action :=
  [.arrive {}, .move 0 .claim, .attach, .move 0 .look,
    .move 0 (.build (List.replicate 8 0) ⟨"", "", 1, none, "", false, none, none, none⟩),
    .move 0 .send, .handle 0 true, .hear 0 (.answer "secret-0-0000000000000000" .confirmed),
    .hear 0 (.answer "secret-0-0000000000000000" (.denied "again")), .handle 0 true,
    .handle 0 true, .move 0 (.receive true), .move 0 .close, .move 0 .release]

theorem replayed_runs : (stepAll {} replayed).isSome := by decide

theorem replayed_answers_matched : ∃ trace o, stepAll {} replayed = some (trace, o) ∧
    receipts 0 trace ≤ 1 ∧ o.pending = 0 := by
  have he := (Option.some_get replayed_runs).symm
  have matched := run_answers_matched (stepAll_run he)
  exact ⟨_, _, he, matched.1 0, matched.2.2.2.2.2.2 (by decide)⟩

end Operators

end NixSecrets
