import NixSecrets.ProcedureFeed
import NixSecrets.ProcedureAdmission

namespace NixSecrets

/-- Once a procedure ended, nothing but its end is told about it. -/
def Concluded (events : List ProcedureEvent) : Prop :=
  events.Pairwise fun a b => a.id = b.id → a.isEnded = true → b.isEnded = true

instance (events : List ProcedureEvent) : Decidable (Concluded events) :=
  inferInstanceAs (Decidable (List.Pairwise _ _))

/-- What a TUI was and will be sent agrees with the registry. -/
structure Told (p : Procedures) (events : List ProcedureEvent) : Prop where
  settled : Concluded events
  ended : ∀ event ∈ events, event.isEnded = true → p.live[event.id]? = none
  current : ∀ (id : String) (procedure : Live), p.live[id]? = some procedure →
    about ProcedureEvent.id id events = [] ∨
      (about ProcedureEvent.id id events).getLast? = some (.update procedure.step)
  issued : ∀ event ∈ events, p.IssuedId event.id

namespace Told

variable {p q : Procedures} {events : List ProcedureEvent}

theorem nil (p : Procedures) : Told p [] where
  settled := .nil
  ended := by simp
  current := fun _ _ _ => .inl rfl
  issued := by simp

theorem of_about {sent : List ProcedureEvent} (h : Told p events)
    (hsame : ∀ id, about ProcedureEvent.id id sent = about ProcedureEvent.id id events) : Told p sent where
  settled := by
    refine (pairwise_iff_about ProcedureEvent.id).mpr fun id => ?_
    rw [hsame id]
    exact (pairwise_iff_about ProcedureEvent.id).mp h.settled id
  ended := fun event he => h.ended event (mem_of_about ProcedureEvent.id hsame he)
  current := by
    intro id procedure hget
    rw [hsame id]
    exact h.current id procedure hget
  issued := fun event he => h.issued event (mem_of_about ProcedureEvent.id hsame he)

theorem tail {event : ProcedureEvent} (h : Told p (event :: events)) : Told p events where
  settled := (List.pairwise_cons.mp h.settled).2
  ended := fun other ho => h.ended other (List.mem_cons_of_mem event ho)
  current := by
    intro id procedure hget
    have hcurrent := h.current id procedure hget
    rw [← List.singleton_append, about_append, about_singleton] at hcurrent
    cases hrest : about ProcedureEvent.id id events with
    | nil => exact .inl rfl
    | cons first rest =>
      rw [hrest] at hcurrent
      simpa [List.getLast?_append] using hcurrent
  issued := fun other ho => h.issued other (List.mem_cons_of_mem event ho)

/-- Nothing is registered or ended, and the counter may grow. -/
theorem kept (h : Told p events) (hlive : q.live = p.live) (hnext : p.next ≤ q.next) : Told q events where
  settled := h.settled
  ended := by
    rw [hlive]
    exact h.ended
  current := by
    rw [hlive]
    exact h.current
  issued := fun event he => (h.issued event he).of_le hnext

/-- A procedure that did not end changes, and its new step is to be sent. -/
theorem changed {id : String} {procedure : Live} (h : Told p events)
    (hlive : q.live = p.live.insert id procedure) (hnext : p.next ≤ q.next)
    (hkey : procedure.step.id = id) (hissued : q.IssuedId id)
    (hrunning : ∀ event ∈ events, event.id = id → event.isEnded = false) :
    Told q (events ++ [.update procedure.step]) where
  settled := by
    refine List.pairwise_append.mpr ⟨h.settled, List.pairwise_singleton _ _, ?_⟩
    intro a ha b hb hid hended
    cases List.mem_singleton.mp hb
    rw [hrunning a ha (hid.trans hkey)] at hended
    cases hended
  ended := by
    intro event he hended
    rcases List.mem_append.mp he with he | he
    · have hne : id ≠ event.id := by
        intro heq
        rw [hrunning event he heq.symm] at hended
        cases hended
      rw [hlive, Std.ExtTreeMap.getElem?_insert, if_neg (by simpa using hne)]
      exact h.ended event he hended
    · cases List.mem_singleton.mp he
      cases hended
  current := by
    intro other found hget
    rw [about_append, about_singleton]
    rw [hlive, Std.ExtTreeMap.getElem?_insert] at hget
    split at hget
    next heq =>
      have hother := Std.LawfulEqCmp.eq_of_compare heq
      cases Option.some.inj hget
      have hid : (ProcedureEvent.update procedure.step).id = other := hkey.trans hother
      rw [if_pos hid]
      exact .inr (by simp)
    next hne =>
      have hid : ¬ (ProcedureEvent.update procedure.step).id = other := by
        intro heq
        exact hne (by rw [← heq, ← hkey]; simp [ProcedureEvent.id])
      rw [if_neg hid, List.append_nil]
      exact h.current other found hget
  issued := by
    intro event he
    rcases List.mem_append.mp he with he | he
    · exact (h.issued event he).of_le hnext
    · cases List.mem_singleton.mp he
      show q.IssuedId procedure.step.id
      rwa [hkey]

theorem finished {id : String} (h : Told p events) (hissued : p.IssuedId id) (exitCode : Option Int) :
    Told (p.finish id) (events ++ [.ended id exitCode]) where
  settled := by
    refine List.pairwise_append.mpr ⟨h.settled, List.pairwise_singleton _ _, ?_⟩
    intro a _ b hb _ _
    cases List.mem_singleton.mp hb
    rfl
  ended := by
    intro event he hended
    simp only [Procedures.finish, Std.ExtTreeMap.getElem?_erase]
    split
    next => rfl
    next hne =>
      rcases List.mem_append.mp he with he | he
      · exact h.ended event he hended
      · cases List.mem_singleton.mp he
        exact absurd (Std.ReflCmp.compare_self) hne
  current := by
    intro other found hget
    simp only [Procedures.finish, Std.ExtTreeMap.getElem?_erase] at hget
    split at hget
    next => cases hget
    next hne =>
      have hid : ¬ (ProcedureEvent.ended id exitCode).id = other := by
        intro heq
        exact hne (by rw [← heq]; simp [ProcedureEvent.id])
      rw [about_append, about_singleton, if_neg hid, List.append_nil]
      exact h.current other found hget
  issued := by
    intro event he
    rcases List.mem_append.mp he with he | he
    · exact h.issued event he
    · cases List.mem_singleton.mp he
      exact hissued

end Told

/-- The frames a call is about to send, once it returned. -/
def announcements (p : Procedures) (call : ProcedureCall) : List ProcedureEvent :=
  (announced call.op (p.exec call).2).toList.map ProcedureEvent.update

theorem announced_request {op : ProcedureOp} {token : String} {peer : Nat} {request : StepRequest}
    (h : op.request = some (token, peer, request)) (step : ProcedureStep) :
    announced op (.stepped step) = some step := by
  cases op with
  | annotate => cases h
  | nextStep | failStep | warnStep | begin | progressStep | finish | snapshot => rfl

/-- A call changes one procedure and announces it, or changes none. -/
theorem call_cases {p : Procedures} {call : ProcedureCall} (hsound : p.Sound) (hissued : p.Issued)
    (hop : call.op.isFinish = false) (hroom : call.op.isBegin = true → p.next + 1 < 2 ^ 64) :
    ((p.exec call).1.live = p.live ∧ announcements p call = []) ∨
    ∃ (id : String) (procedure : Live), (p.exec call).1.live = p.live.insert id procedure ∧
      announcements p call = [.update procedure.step] ∧ procedure.step.id = id ∧
      (p.exec call).1.IssuedId id ∧ ((∃ before, p.live[id]? = some before) ∨ ¬ p.IssuedId id) := by
  have hnext := (Procedures.exec_next hroom).1
  have hafter := Procedures.exec_issued hissued hroom
  have hsound' := Procedures.exec_sound hsound call
  have hnew {id : String} (h : (p.exec call).2.begins id = true) := Procedures.begins_unissued h
  have hmove := Procedures.exec_move p call
  unfold announcements
  generalize (p.exec call).1 = q at hmove hnext hafter hsound'
  generalize (p.exec call).2 = reply at hmove hnew
  have hinserted {id : String} {procedure : Live} {next : Nat}
      (hq : q = { live := p.live.insert id procedure, next }) :
      procedure.step.id = id ∧ q.IssuedId id := by
    have hget : q.live[id]? = some procedure := by
      rw [hq]
      simp
    exact ⟨(hsound'.live id procedure hget).key, hafter id procedure hget⟩
  cases hmove with
  | refused | unbegun | listed => exact .inl ⟨rfl, by cases call.op <;> rfl⟩
  | begun hbegin =>
    obtain ⟨hkey, hid⟩ := hinserted rfl
    exact .inr ⟨_, _, rfl, by rw [hbegin]; rfl, hkey, hid,
      .inr (hnew (by simp [ProcedureReply.begins]))⟩
  | numbered hrequest henter =>
    obtain ⟨hkey, hid⟩ := hinserted rfl
    exact .inr ⟨_, _, rfl, by rw [announced_request hrequest]; rfl, hkey, hid,
      .inl ⟨_, (Procedures.enter_ok henter).2.1⟩⟩
  | progressed hprogress henter =>
    obtain ⟨hkey, hid⟩ := hinserted rfl
    exact .inr ⟨_, _, rfl, by rw [hprogress]; rfl, hkey, hid,
      .inl ⟨_, (Procedures.enter_ok henter).2.1⟩⟩
  | annotated hannotate => exact .inl ⟨rfl, by rw [hannotate]; rfl⟩
  | ended hend => simp [hend, ProcedureOp.isFinish] at hop

theorem Told.called {p : Procedures} {call : ProcedureCall} {events : List ProcedureEvent}
    (h : Told p events) (hsound : p.Sound) (hissued : p.Issued) (hop : call.op.isFinish = false)
    (hroom : call.op.isBegin = true → p.next + 1 < 2 ^ 64) :
    Told (p.exec call).1 (events ++ announcements p call) := by
  have hnext := (Procedures.exec_next hroom).1
  obtain ⟨hlive, hnone⟩ | ⟨id, procedure, hlive, hone, hkey, hid, hold⟩ :=
    call_cases hsound hissued hop hroom
  · rw [hnone, List.append_nil]
    exact h.kept hlive hnext
  · rw [hone]
    refine h.changed hlive hnext hkey hid fun event he hevent => ?_
    cases hended : event.isEnded with
    | false => rfl
    | true =>
      exfalso
      have hgone := h.ended event he hended
      rw [hevent] at hgone
      rcases hold with ⟨before, hbefore⟩ | hunissued
      · rw [hgone] at hbefore
        cases hbefore
      · exact hunissued (hevent ▸ h.issued event he)

/-- A procedure about which a call announces nothing is as it was. -/
theorem called_same {p : Procedures} {call : ProcedureCall} (hsound : p.Sound) (hissued : p.Issued)
    (hop : call.op.isFinish = false) (hroom : call.op.isBegin = true → p.next + 1 < 2 ^ 64) {id : String}
    (hquiet : about ProcedureEvent.id id (announcements p call) = []) :
    (p.exec call).1.live[id]? = p.live[id]? := by
  obtain ⟨hlive, -⟩ | ⟨other, procedure, hlive, hone, hkey, -, -⟩ :=
    call_cases hsound hissued hop hroom
  · rw [hlive]
  · rw [hone, about_singleton] at hquiet
    have hne : ¬ (ProcedureEvent.update procedure.step).id = id := by
      intro heq
      rw [if_pos heq] at hquiet
      cases hquiet
    have hother : other ≠ id := fun heq => hne (hkey.trans heq)
    rw [hlive, Std.ExtTreeMap.getElem?_insert, if_neg (by simpa using hother)]

namespace ProcedureFeed

def waiting (f : ProcedureFeed) : List ProcedureEvent := f.pending.map Prod.snd

/-- What a TUI was shown when it attached is the current step of every procedure that
nothing was or will be sent about. -/
def Shown (p : Procedures) (viewer : Viewer) (events : List ProcedureEvent) : Prop :=
  ∀ steps, viewer.snapshot = some steps → ∀ (id : String) (procedure : Live),
    p.live[id]? = some procedure → about ProcedureEvent.id id events = [] →
    procedure.step ∈ steps ∧ ∀ step ∈ steps, step.id = id → step = procedure.step

/-- The invariant of a feed whose broadcasts keep the order of the changes. -/
structure Valid (f : ProcedureFeed) : Prop where
  sound : f.registry.Sound
  issued : f.registry.Issued
  serving : ∀ entry ∈ f.serving, f.registry.IssuedId entry.2
  told : Told f.registry f.waiting
  attached : ∀ viewer ∈ f.viewers, viewer.attached = true →
    Told f.registry (viewer.inbox ++ f.waiting) ∧ Shown f.registry viewer (viewer.inbox ++ f.waiting)
  settled : ∀ viewer ∈ f.viewers, Concluded viewer.inbox

theorem empty_valid : Valid {} where
  sound := Procedures.empty_sound
  issued := fun id procedure hget => by simp at hget
  serving := by simp
  told := Told.nil _
  attached := by simp
  settled := by simp

theorem begunId_begins {reply : ProcedureReply} {id : String} (h : id ∈ (begunId reply).toList) :
    reply.begins id = true := by
  cases reply with
  | begun step token =>
    cases List.mem_singleton.mp h
    simp [ProcedureReply.begins]
  | stepped | ended | listed | refused => cases h

theorem call_valid {f : ProcedureFeed} (h : f.Valid) {thread : Nat} {call : ProcedureCall}
    (hop : call.op.isFinish = false) (hroom : call.op.isBegin = true → f.registry.next + 1 < 2 ^ 64) :
    (f.call thread call).Valid := by
  have hnext := (Procedures.exec_next hroom).1
  have hwaiting : (f.call thread call).waiting = f.waiting ++ announcements f.registry call := by
    simp [waiting, ProcedureFeed.call, announcements, Function.comp_def]
  have hissued := Procedures.exec_issued h.issued hroom
  exact
    { sound := Procedures.exec_sound h.sound call
      issued := hissued
      serving := by
        intro entry he
        rcases List.mem_append.mp he with he | he
        · exact (h.serving entry he).of_le hnext
        · obtain ⟨id, hid, rfl⟩ := List.mem_map.mp he
          have hbegins := begunId_begins hid
          obtain ⟨-, random, hrandom⟩ := Procedures.begins_id hbegins
          exact ⟨_, random, Procedures.begins_next hroom hbegins, hrandom⟩
      told := by
        rw [hwaiting]
        exact h.told.called h.sound h.issued hop hroom
      attached := by
        intro viewer hv hattached
        obtain ⟨htold, hshown⟩ := h.attached viewer hv hattached
        rw [hwaiting, ← List.append_assoc]
        refine ⟨htold.called h.sound h.issued hop hroom, ?_⟩
        intro steps hsteps id procedure hget hquiet
        rw [about_append, List.append_eq_nil_iff] at hquiet
        have hsame := called_same h.sound h.issued hop hroom hquiet.2
        exact hshown steps hsteps id procedure (hsame ▸ hget) hquiet.1
      settled := h.settled }

theorem finish_valid {f : ProcedureFeed} (h : f.Valid) {thread : Nat} {exitCode : Option Int} {id : String}
    (hserving : (thread, id) ∈ f.serving) :
    Valid { f with
      registry := f.registry.finish id
      pending := f.pending ++ [(thread, .ended id exitCode)]
      serving := f.serving.erase (thread, id) } := by
  have hid : f.registry.IssuedId id := h.serving (thread, id) hserving
  have hwaiting : (f.pending ++ [(thread, ProcedureEvent.ended id exitCode)]).map Prod.snd =
      f.waiting ++ [.ended id exitCode] := by
    simp [waiting]
  have hlive (other : String) (procedure : Live)
      (hget : (f.registry.finish id).live[other]? = some procedure) :
      id ≠ other ∧ f.registry.live[other]? = some procedure := by
    simp only [Procedures.finish, Std.ExtTreeMap.getElem?_erase] at hget
    split at hget
    next => cases hget
    next hne => exact ⟨fun heq => hne (by simp [heq]), hget⟩
  exact
    { sound := h.sound.of_live h.sound.next fun other procedure hget => (hlive other procedure hget).2
      issued := fun other procedure hget => h.issued other procedure (hlive other procedure hget).2
      serving := fun entry he => h.serving entry (List.mem_of_mem_erase he)
      told := by
        rw [waiting, hwaiting]
        exact h.told.finished hid exitCode
      attached := by
        intro viewer hv hattached
        obtain ⟨htold, hshown⟩ := h.attached viewer hv hattached
        rw [waiting, hwaiting, ← List.append_assoc]
        refine ⟨htold.finished hid exitCode, ?_⟩
        intro steps hsteps other procedure hget hquiet
        rw [about_append, List.append_eq_nil_iff] at hquiet
        exact hshown steps hsteps other procedure (hlive other procedure hget).2 hquiet.1
      settled := h.settled }

theorem broadcast_valid {f : ProcedureFeed} (h : f.Valid) {thread : Nat} {event : ProcedureEvent}
    {front rest : List (Nat × ProcedureEvent)} (hpending : f.pending = front ++ (thread, event) :: rest)
    (hfirst : ∀ other ∈ front.map Prod.snd, other.id ≠ event.id) :
    Valid { f with
      pending := front ++ rest
      viewers := f.viewers.map (Viewer.offer event) } := by
  have hwaiting : f.waiting = front.map Prod.snd ++ event :: rest.map Prod.snd := by
    rw [waiting, hpending, List.map_append, List.map_cons]
  have hmove (id : String) := @about_move _ _ _ ProcedureEvent.id _ (rest.map Prod.snd) _ hfirst id
  -- The event leaves the queue for the inbox: the order of each procedure's events is kept.
  have hsent (inbox : List ProcedureEvent) (id : String) :
      about ProcedureEvent.id id (inbox ++ [event] ++ (front ++ rest).map Prod.snd) =
        about ProcedureEvent.id id (inbox ++ f.waiting) := by
    rw [List.append_assoc, List.singleton_append, List.map_append, hwaiting, about_append, hmove id,
      ← about_append]
  exact
    { sound := h.sound
      issued := h.issued
      serving := h.serving
      told := by
        have hcons : Told f.registry (event :: (front.map Prod.snd ++ rest.map Prod.snd)) := by
          refine h.told.of_about fun id => ?_
          rw [hwaiting, hmove id]
        rw [waiting, List.map_append]
        exact hcons.tail
      attached := by
        intro viewer hv hattached
        obtain ⟨before, hbefore, rfl⟩ := List.mem_map.mp hv
        unfold Viewer.offer at hattached ⊢
        split at hattached
        next hon =>
          rw [if_pos hon]
          obtain ⟨htold, hshown⟩ := h.attached before hbefore hon
          refine ⟨htold.of_about (hsent before.inbox), ?_⟩
          intro steps hsteps id procedure hget hquiet
          rw [waiting, hsent before.inbox id] at hquiet
          exact hshown steps hsteps id procedure hget hquiet
        next hoff => exact absurd hattached hoff
      settled := by
        intro viewer hv
        obtain ⟨before, hbefore, rfl⟩ := List.mem_map.mp hv
        unfold Viewer.offer
        split
        next hon =>
          have htold := (h.attached before hbefore hon).1.of_about (hsent before.inbox)
          exact htold.settled.sublist (List.sublist_append_left _ _)
        next => exact h.settled before hbefore }

theorem snapshot_shown {p : Procedures} (hsound : p.Sound) {id : String} {procedure : Live}
    (hget : p.live[id]? = some procedure) :
    procedure.step ∈ p.snapshot ∧ ∀ step ∈ p.snapshot, step.id = id → step = procedure.step := by
  have hmem {other : String} {found : Live} :
      (other, found) ∈ p.live.toList ↔ p.live[other]? = some found :=
    Std.ExtTreeMap.mem_toList_iff_getElem?_eq_some
  constructor
  · exact List.mem_map.mpr ⟨(id, procedure), hmem.mpr hget, rfl⟩
  · intro step hstep hid
    obtain ⟨⟨other, found⟩, hentry, rfl⟩ := List.mem_map.mp hstep
    have hfound := hmem.mp hentry
    have hkey := (hsound.live other found hfound).key
    have hsame : other = id := hkey.symm.trans hid
    rw [hsame, hget] at hfound
    rw [Option.some.inj hfound]

theorem set_valid {f : ProcedureFeed} (h : f.Valid) {session : Nat} {viewer : Viewer}
    (hattached : viewer.attached = true → Told f.registry (viewer.inbox ++ f.waiting) ∧
      Shown f.registry viewer (viewer.inbox ++ f.waiting)) (hsettled : Concluded viewer.inbox) :
    Valid { f with viewers := f.viewers.set session viewer } :=
  { h with
    attached := by
      intro other ho hon
      rcases List.mem_or_eq_of_mem_set ho with ho | rfl
      · exact h.attached other ho hon
      · exact hattached hon
    settled := by
      intro other ho
      rcases List.mem_or_eq_of_mem_set ho with ho | rfl
      · exact h.settled other ho
      · exact hsettled }

theorem step_valid {f f' : ProcedureFeed} {act : ProcedureAct} (h : f.Valid)
    (horderly : f.orderly act = true) (hstep : f.step act = some f') : f'.Valid := by
  cases step_move hstep with
  | @call thread call hop =>
    refine call_valid h hop fun hbegin => ?_
    simpa [orderly, hbegin] using horderly
  | finish hserving => exact finish_valid h hserving
  | broadcast hpending hearlier hlookup =>
    refine broadcast_valid h hpending ?_
    simpa only [orderly, hlookup, hearlier, Option.all_some, List.all_eq_true,
      decide_eq_true_eq] using horderly
  | attach =>
    exact
      { h with
        attached := by
          intro viewer hv hon
          rcases List.mem_append.mp hv with hv | hv
          · exact h.attached viewer hv hon
          · cases List.mem_singleton.mp hv
            exact ⟨h.told, nofun⟩
        settled := by
          intro viewer hv
          rcases List.mem_append.mp hv with hv | hv
          · exact h.settled viewer hv
          · cases List.mem_singleton.mp hv
            exact .nil }
  | @snapshot session viewer hv hattached =>
    have hmem := List.mem_of_getElem? hv
    refine set_valid h (fun hon => ?_) (h.settled viewer hmem)
    refine ⟨(h.attached viewer hmem hattached).1, ?_⟩
    intro steps hsteps id procedure hget _
    cases Option.some.inj hsteps
    exact snapshot_shown h.sound hget
  | @write session viewer hv =>
    have hmem := List.mem_of_getElem? hv
    exact set_valid h (h.attached viewer hmem) (h.settled viewer hmem)
  | @leave session viewer hv =>
    exact set_valid h (fun hon => nomatch hon) (h.settled viewer (List.mem_of_getElem? hv))

theorem run_valid {f f' : ProcedureFeed} {acts : List ProcedureAct} (h : f.Valid)
    (horderly : f.orderlyRun acts = true) (hrun : f.run acts = some f') : f'.Valid := by
  induction acts generalizing f with
  | nil => exact Option.some.inj hrun ▸ h
  | cons act acts ih =>
    obtain ⟨next, hstep, hrest⟩ := Option.bind_eq_some_iff.mp hrun
    rw [orderlyRun, Bool.and_eq_true, hstep] at horderly
    exact ih (step_valid h horderly.1 hstep) horderly.2 hrest

theorem delivered_settled {f : ProcedureFeed} (h : f.Valid) {viewer : Viewer} (hv : viewer ∈ f.viewers) :
    Concluded viewer.delivered := by
  unfold Viewer.delivered
  split
  next => exact .nil
  next steps _ =>
    have hwritten := (h.settled viewer hv).sublist (List.take_sublist viewer.written _)
    refine List.pairwise_append.mpr ⟨?_, hwritten, ?_⟩
    · refine List.pairwise_map.mpr (List.pairwise_of_forall fun _ _ _ hended => ?_)
      cases hended
    · intro a ha b _ _ hended
      obtain ⟨step, -, rfl⟩ := List.mem_map.mp ha
      cases hended

theorem delivered_current {f : ProcedureFeed} (h : f.Valid) (hquiet : f.pending = []) {viewer : Viewer}
    (hv : viewer ∈ f.viewers) (hattached : viewer.attached = true) {steps : List ProcedureStep}
    (hsteps : viewer.snapshot = some steps) (hwritten : viewer.written = viewer.inbox.length) {id : String}
    {procedure : Live} (hget : f.registry.live[id]? = some procedure) :
    (about ProcedureEvent.id id viewer.delivered).getLast? = some (.update procedure.step) := by
  obtain ⟨htold, hshown⟩ := h.attached viewer hv hattached
  have hwaiting : viewer.inbox ++ f.waiting = viewer.inbox := by simp [waiting, hquiet]
  rw [hwaiting] at htold hshown
  have hdelivered : viewer.delivered = steps.map ProcedureEvent.update ++ viewer.inbox := by
    simp [Viewer.delivered, hsteps, hwritten]
  rw [hdelivered, about_append]
  rcases htold.current id procedure hget with hnone | hlast
  · obtain ⟨hmem, hunique⟩ := hshown steps hsteps id procedure hget hnone
    have hkey := (h.sound.live id procedure hget).key
    have hall : ∀ event ∈ about ProcedureEvent.id id (steps.map ProcedureEvent.update),
        event = .update procedure.step := by
      intro event he
      obtain ⟨hsent, hid⟩ := (mem_about ProcedureEvent.id).mp he
      obtain ⟨step, hstep, rfl⟩ := List.mem_map.mp hsent
      rw [hunique step hstep hid]
    have hone : ProcedureEvent.update procedure.step ∈
        about ProcedureEvent.id id (steps.map ProcedureEvent.update) :=
      (mem_about ProcedureEvent.id).mpr ⟨List.mem_map_of_mem hmem, hkey⟩
    rw [hnone, List.append_nil]
    have hne := List.ne_nil_of_mem hone
    rw [List.getLast?_eq_some_getLast hne, hall _ (List.getLast_mem hne)]
  · rw [List.getLast?_append, hlast]
    rfl

/-- If each change is broadcast before the next one of its procedure, nothing follows the end
of a procedure, and a TUI that was sent everything shows the current steps. -/
theorem orderly_feed (acts : List ProcedureAct) (f : ProcedureFeed)
    (horderly : orderlyRun {} acts = true) (hrun : run {} acts = some f) :
    (∀ viewer ∈ f.viewers, Concluded viewer.delivered) ∧
    (f.pending = [] → ∀ viewer ∈ f.viewers, viewer.attached = true → ∀ steps,
      viewer.snapshot = some steps → viewer.written = viewer.inbox.length →
      ∀ (id : String) (procedure : Live), f.registry.live[id]? = some procedure →
        (about ProcedureEvent.id id viewer.delivered).getLast? = some (.update procedure.step)) := by
  have hvalid := run_valid empty_valid horderly hrun
  refine ⟨fun viewer hv => delivered_settled hvalid hv, ?_⟩
  intro hquiet viewer hv hattached steps hsteps hwritten id procedure hget
  exact delivered_current hvalid hquiet hv hattached hsteps hwritten hget

/-- A TUI attaches to a procedure that reports a step. -/
def watched : List ProcedureAct :=
  [.call 0 Procedures.update, .broadcast 0, .attach, .snapshot 0, .call 1 Procedures.switchFailed]

theorem watched_settled : ∃ f, run {} (watched ++ [.broadcast 1, .write 0]) = some f ∧
    ∀ viewer ∈ f.viewers, Concluded viewer.delivered := by
  have hruns : orderlyRun {} (watched ++ [.broadcast 1, .write 0]) = true ∧
      (run {} (watched ++ [.broadcast 1, .write 0])).isSome = true := by decide +kernel
  obtain ⟨f, hrun⟩ := Option.isSome_iff_exists.mp hruns.2
  exact ⟨f, hrun, (orderly_feed _ f hruns.1 hrun).1⟩

/-- The procedure ends before its last step is broadcast. -/
theorem update_after_end :
    ¬ ∀ (acts : List ProcedureAct) (f : ProcedureFeed), run {} acts = some f →
      ∀ viewer ∈ f.viewers, Concluded viewer.delivered := by
  intro hall
  have hcrossed : ((run {} (watched ++ [.finish 0 none, .broadcast 0, .broadcast 1, .write 0,
      .write 0])).any fun f => f.viewers.any fun viewer => !decide (Concluded viewer.delivered)) = true := by
    decide +kernel
  obtain ⟨f, hrun, hviewer⟩ := (Option.any_eq_true _ _).mp hcrossed
  obtain ⟨viewer, hv, hnot⟩ := List.any_eq_true.mp hviewer
  exact absurd (hall _ f hrun viewer hv) (by simpa using hnot)

end ProcedureFeed

end NixSecrets
