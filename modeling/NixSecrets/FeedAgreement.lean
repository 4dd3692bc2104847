import NixSecrets.ChangeFeed

namespace NixSecrets.Inventory

/-- What the event says about the record of an identifier, if it is about it. -/
def BackendEvent.flagOf (identifier : String) : BackendEvent → Option Bool
  | .secretChanged path set => if path = identifier then some set else none
  | _ => none

def lastFlag (identifier : String) (events : List BackendEvent) : Option Bool :=
  (events.filterMap (BackendEvent.flagOf identifier)).getLast?

def FeedState.stored (s : FeedState) (identifier : String) : Bool :=
  s.disk.document.secrets.contains identifier

namespace Subscriber

variable {event : BackendEvent} {subscriber : Subscriber}

theorem offer_connected (h : (subscriber.offer event).connected = true) :
    subscriber.connected = true ∧ (subscriber.offer event).sent = subscriber.sent ++ [event] := by
  unfold offer at h ⊢
  split
  next hn =>
    rw [if_pos hn] at h
    simp [connected, hn] at h
  next hl =>
    rw [if_neg hl] at h
    split
    next hroom =>
      rw [if_pos hroom] at h
      exact ⟨h, rfl⟩
    next hroom =>
      rw [if_neg hroom] at h
      simp [connected] at h

theorem offer_sent (event : BackendEvent) (subscriber : Subscriber) :
    subscriber.sent <+: (subscriber.offer event).sent := by
  unfold offer
  split
  next => exact List.prefix_rfl
  next =>
    split
    next => exact List.prefix_append _ _
    next => exact List.prefix_rfl

theorem receive_connected {written : Bool} (hl : (subscriber.receive written).connected = true)
    (ha : subscriber.alive = true) : subscriber.connected = true := by
  simp only [connected, receive, Bool.and_eq_true] at hl ⊢
  exact ⟨hl.1, ha⟩

end Subscriber

/-- While the subscriber is connected, an event about the identifier still waits to be
published or came after its first `n` events. -/
def Announced (identifier : String) (k n : Nat) (s : FeedState) : Prop :=
  ∃ subscriber, s.subscribers[k]? = some subscriber ∧ n ≤ subscriber.sent.length ∧
    (subscriber.connected = true →
      (∃ entry ∈ s.publishing, (entry.2.flagOf identifier).isSome) ∨
      ∃ event ∈ subscriber.sent.drop n, (event.flagOf identifier).isSome)

section

variable {libs : Libraries} {identifier : String} {s s' : FeedState} {step : FeedStep}

theorem announced_append {k n : Nat} {disk : StoreDisk} {more : List (Nat × BackendEvent)}
    (h : Announced identifier k n s) : Announced identifier k n
      { s with disk, publishing := s.publishing ++ more } := by
  obtain ⟨subscriber, hk, hn, hc⟩ := h
  refine ⟨subscriber, hk, hn, fun hconnected => (hc hconnected).imp_left ?_⟩
  rintro ⟨entry, he, hflag⟩
  exact ⟨entry, List.mem_append_left more he, hflag⟩

theorem announced_step {k n : Nat} (hm : FeedMove libs s step s')
    (h : Announced identifier k n s) : Announced identifier k n s' := by
  cases hm with
  | panicked => exact h
  | done _ _ | other _ => exact announced_append h
  | failed _ => exact h
  | @publish client event he =>
    obtain ⟨subscriber, hk, hn, hc⟩ := h
    refine ⟨subscriber.offer event, by simp [hk], ?_, fun hconnected => ?_⟩
    · exact Nat.le_trans hn (subscriber.offer_sent event).length_le
    · obtain ⟨hold, hsent⟩ := Subscriber.offer_connected hconnected
      rcases hc hold with ⟨entry, hentry, hflag⟩ | ⟨old, hmem, hflag⟩
      · by_cases hsame : entry = (client, event)
        · refine Or.inr ⟨event, ?_, by rw [hsame] at hflag; exact hflag⟩
          rw [hsent, List.drop_append_of_le_length hn]
          simp
        · exact Or.inl ⟨entry, (List.mem_erase_of_ne hsame).mpr hentry, hflag⟩
      · refine Or.inr ⟨old, ?_, hflag⟩
        rw [hsent, List.drop_append_of_le_length hn]
        exact List.mem_append_left _ hmem
  | subscribe =>
    obtain ⟨subscriber, hk, hn, hc⟩ := h
    refine ⟨subscriber, ?_, hn, hc⟩
    have hlength := (List.getElem?_eq_some_iff.mp hk).1
    simp only [List.getElem?_append_left hlength, hk]
  | @receive k' written taken hk' ha =>
    obtain ⟨subscriber, hk, hn, hc⟩ := h
    by_cases hsame : k' = k
    · subst hsame
      have htaken : subscriber = taken := Option.some.inj (hk.symm.trans hk')
      subst htaken
      have hlength := (List.getElem?_eq_some_iff.mp hk).1
      refine ⟨subscriber.receive written, by simp [hlength], hn, fun hconnected => ?_⟩
      exact hc (Subscriber.receive_connected hconnected ha)
    · exact ⟨subscriber, by simp [hsame, hk], hn, hc⟩

theorem announced_run {k n : Nat} {steps : List FeedStep} (hr : s.run libs steps = some s')
    (h : Announced identifier k n s) : Announced identifier k n s' := by
  induction steps generalizing s with
  | nil => cases hr; exact h
  | cons step steps ih =>
    obtain ⟨next, hstep, hrest⟩ := Option.bind_eq_some_iff.mp hr
    exact ih hrest (announced_step (step_move hstep) h)

end

/-- The flags that wait to be published are right and, once none waits, so is the last
one every connected subscriber was sent. -/
structure Agreed (identifier : String) (s : FeedState) : Prop where
  waiting : ∀ entry ∈ s.publishing, ∀ flag, entry.2.flagOf identifier = some flag →
    flag = s.stored identifier
  last : (∀ entry ∈ s.publishing, entry.2.flagOf identifier = none) →
    ∀ subscriber ∈ s.subscribers, subscriber.connected = true →
    ∀ flag, lastFlag identifier subscriber.sent = some flag → flag = s.stored identifier

/-- A request on the record is served while no event about it waits, and changes the
record only if it succeeds. -/
def Orderly (libs : Libraries) (identifier : String) (s : FeedState) : FeedStep → Prop
  | .serve _ call => call.op.target.map SecretPath.display = some identifier →
    (∀ entry ∈ s.publishing, entry.2.flagOf identifier = none) ∧
    ((∀ reply, (call.exec libs s.disk).1 ≠ .done reply) →
      (call.exec libs s.disk).2.document.secrets[identifier]? =
        s.disk.document.secrets[identifier]?)
  | _ => True

section

variable {libs : Libraries} {identifier : String} {s s' : FeedState} {step : FeedStep}

theorem stored_congr {disk disk' : StoreDisk}
    (h : disk'.document.secrets[identifier]? = disk.document.secrets[identifier]?) :
    disk'.document.secrets.contains identifier = disk.document.secrets.contains identifier := by
  rw [Std.ExtTreeMap.contains_eq_isSome_getElem?, Std.ExtTreeMap.contains_eq_isSome_getElem?, h]

theorem publicInfoEvent_flag {schema : Schema} {path : SecretPath} {set : Bool}
    {event : Option BackendEvent} (h : publicInfoEvent schema path set = .ok event) :
    event.bind (·.flagOf identifier) = none := by
  unfold publicInfoEvent at h
  split at h
  next spec _ =>
    cases h
    cases spec.sharedPublicId <;> rfl
  next => cases h; rfl
  next => cases h; rfl
  next => cases h

/-- An event about a record comes from an operation on it. -/
theorem eventAfterSuccess_flag {schema : Schema} {op : StoreOp} {event : Option BackendEvent}
    {flag : Bool} (h : eventAfterSuccess schema op = .ok event)
    (hf : event.bind (·.flagOf identifier) = some flag) :
    ∃ path, op.target = some path ∧ path.display = identifier := by
  have hpath {path : SecretPath} {set : Bool}
      (hf : (BackendEvent.secretChanged path.display set).flagOf identifier = some flag) :
      path.display = identifier := by
    simp only [BackendEvent.flagOf] at hf
    split at hf
    next he => exact he
    next => cases hf
  cases op with
  | set path _ | setIfVersion path _ _ | remove path | removeIfVersion path _ =>
    cases h
    exact ⟨path, rfl, hpath hf⟩
  | setPublicInfoIfVersion path _ _ | removePublicInfoIfVersion path _ =>
    rw [publicInfoEvent_flag h] at hf
    cases hf
  | setGeneratedPublicKeyIfVersion | setPublicKeyIfVersion | quarantine | removeQuarantined =>
    cases h
    cases hf

/-- After a success the record is there or not as the event says, or as before if the
event is about something else. -/
theorem done_stored {call : StoreCall} {event : Option BackendEvent} {reply : StoreReply}
    {d d' : StoreDocument} (he : eventAfterSuccess call.schema call.op = .ok event)
    (ha : call.act libs d = .ok (reply, d')) :
    d'.secrets.contains identifier =
      (event.bind (·.flagOf identifier)).getD (d.secrets.contains identifier) := by
  have hx := act_effect ha
  generalize call.op = op at he hx
  cases hx with
  | set h | setIfVersion h =>
    cases he
    obtain ⟨record, hs, _⟩ := h.stored
    rw [hs, Std.ExtTreeMap.contains_insert]
    simp only [Option.bind_some, BackendEvent.flagOf]
    split
    next hp => simp [hp]
    next hp => simp [hp]
  | remove h | removeIfVersion h =>
    cases he
    rw [h, Std.ExtTreeMap.contains_erase]
    simp only [Option.bind_some, BackendEvent.flagOf]
    split
    next hp => simp [hp]
    next hp => simp [hp]
  | setPublicKeyIfVersion hr h =>
    cases he
    rw [h, Std.ExtTreeMap.contains_insert]
    by_cases hp : identifier = SecretPath.display ‹_›
    · simp [hp, Std.ExtTreeMap.contains_eq_isSome_getElem?, hr]
    · simp [Ne.symm hp]
  | setPublicInfoIfVersion _ _ h | removePublicInfoIfVersion _ _ h =>
    rw [h, publicInfoEvent_flag he]
    rfl
  | setGeneratedPublicKeyIfVersion h | quarantine _ h | removeQuarantined h =>
    cases he
    rw [h]
    rfl

theorem failed_stored {call : StoreCall} {client : Nat} {error : Stop StoreError}
    (ho : Orderly libs identifier s (.serve client call))
    (hf : (call.exec libs s.disk).1 = .failed error) :
    (call.exec libs s.disk).2.document.secrets.contains identifier = s.stored identifier := by
  refine stored_congr ?_
  by_cases ht : call.op.target.map SecretPath.display = some identifier
  · exact (ho ht).2 fun reply hd => by rw [hf] at hd; cases hd
  · rcases @exec_document libs call s.disk with h | ⟨reply, ha⟩
    · rw [h]
    · exact effect_secrets_other (act_effect ha) fun path hp he => ht (by rw [hp, he]; rfl)

theorem lastFlag_append {events : List BackendEvent} {event : BackendEvent} :
    lastFlag identifier (events ++ [event]) =
      (event.flagOf identifier).or (lastFlag identifier events) := by
  unfold lastFlag
  rw [List.filterMap_append]
  cases hf : event.flagOf identifier with
  | none => simp [hf]
  | some flag => simp [hf]

theorem agreed_done {client : Nat} {call : StoreCall} {event : Option BackendEvent}
    {reply : StoreReply} (h : Agreed identifier s)
    (ho : Orderly libs identifier s (.serve client call))
    (he : eventAfterSuccess call.schema call.op = .ok event)
    (hd : (call.exec libs s.disk).1 = .done reply) :
    Agreed identifier { s with
      disk := (call.exec libs s.disk).2
      publishing := s.publishing ++ event.toList.map (client, ·) } := by
  obtain ⟨_, ha⟩ := succeeds_act ⟨reply, hd⟩
  have hstored := @done_stored libs identifier _ _ _ _ _ he ha
  have hnew : ∀ entry ∈ event.toList.map (client, ·), event.bind (·.flagOf identifier) =
      entry.2.flagOf identifier := by
    intro entry hentry
    obtain ⟨e, hmem, rfl⟩ := List.mem_map.mp hentry
    rw [Option.mem_toList.mp hmem]
    rfl
  cases hflag : event.bind (·.flagOf identifier) with
  | none =>
    rw [hflag] at hstored hnew
    refine ⟨fun entry hentry flag hf => ?_, fun hnone subscriber hsub hc flag hl => ?_⟩
    · rcases List.mem_append.mp hentry with hold | hnewly
      · exact (h.waiting entry hold flag hf).trans hstored.symm
      · rw [← hnew entry hnewly] at hf
        cases hf
    · have hold := fun entry hentry => hnone entry (List.mem_append_left _ hentry)
      exact (h.last hold subscriber hsub hc flag hl).trans hstored.symm
  | some flag' =>
    rw [hflag] at hstored hnew
    obtain ⟨path, hp, hpath⟩ := eventAfterSuccess_flag he hflag
    have hquiet := (ho (by rw [hp, Option.map_some, hpath])).1
    refine ⟨fun entry hentry flag hf => ?_, fun hnone => ?_⟩
    · rcases List.mem_append.mp hentry with hold | hnewly
      · rw [hquiet entry hold] at hf
        cases hf
      · rw [← hnew entry hnewly] at hf
        cases hf
        exact hstored.symm
    · cases event with
      | none => cases hflag
      | some event =>
        have hentry := hnone (client, event) (List.mem_append_right _ (by simp))
        rw [Option.bind_some, hentry] at hflag
        cases hflag

theorem agreed_publish {client : Nat} {event : BackendEvent} (h : Agreed identifier s)
    (he : (client, event) ∈ s.publishing) :
    Agreed identifier { s with
      publishing := s.publishing.erase (client, event)
      subscribers := s.subscribers.map (Subscriber.offer event) } := by
  refine ⟨fun entry hentry flag hf => ?_, fun hnone subscriber hsub hc flag hl => ?_⟩
  · exact h.waiting entry (List.mem_of_mem_erase hentry) flag hf
  · obtain ⟨old, hold, rfl⟩ := List.mem_map.mp hsub
    obtain ⟨hconnected, hsent⟩ := Subscriber.offer_connected hc
    rw [hsent, lastFlag_append] at hl
    cases hflag : event.flagOf identifier with
    | some flag' =>
      rw [hflag, Option.some_or] at hl
      cases hl
      exact h.waiting _ he flag hflag
    | none =>
      rw [hflag, Option.none_or] at hl
      refine h.last (fun entry hentry => ?_) old hold hconnected flag hl
      by_cases hsame : entry = (client, event)
      · rw [hsame]
        exact hflag
      · exact hnone entry ((List.mem_erase_of_ne hsame).mpr hentry)

theorem agreed_step (hm : FeedMove libs s step s') (ho : Orderly libs identifier s step)
    (h : Agreed identifier s) : Agreed identifier s' := by
  cases hm with
  | panicked => exact h
  | done he hd => exact agreed_done h ho he hd
  | failed hf =>
    have hstored := failed_stored ho hf
    refine ⟨fun entry hentry flag hflag => ?_, fun hnone subscriber hsub hc flag hl => ?_⟩
    · exact (h.waiting entry hentry flag hflag).trans hstored.symm
    · exact (h.last hnone subscriber hsub hc flag hl).trans hstored.symm
  | @other client event he =>
    have hflag : event.flagOf identifier = none := by
      cases event <;> simp_all [BackendEvent.isSecret, BackendEvent.flagOf]
    refine ⟨fun entry hentry flag hf => ?_, fun hnone subscriber hsub hc flag hl => ?_⟩
    · rcases List.mem_append.mp hentry with hold | hnew
      · exact h.waiting entry hold flag hf
      · rw [List.mem_singleton.mp hnew, hflag] at hf
        cases hf
    · exact h.last (fun entry hentry => hnone entry (List.mem_append_left _ hentry)) subscriber
        hsub hc flag hl
  | publish he => exact agreed_publish h he
  | subscribe =>
    refine ⟨h.waiting, fun hnone subscriber hsub hc flag hl => ?_⟩
    rcases List.mem_append.mp hsub with hold | hnew
    · exact h.last hnone subscriber hold hc flag hl
    · rw [List.mem_singleton.mp hnew] at hl
      cases hl
  | @receive k written taken hk ha =>
    refine ⟨h.waiting, fun hnone subscriber hsub hc flag hl => ?_⟩
    rcases List.mem_or_eq_of_mem_set hsub with hold | rfl
    · exact h.last hnone subscriber hold hc flag hl
    · exact h.last hnone taken (List.mem_of_getElem? hk) (Subscriber.receive_connected hc ha) flag hl

end

/-- Every step of the run is orderly where it is taken. -/
def OrderlyRun (libs : Libraries) (identifier : String) : FeedState → List FeedStep → Prop
  | _, [] => True
  | s, step :: steps => Orderly libs identifier s step ∧
    ∀ s', s.step libs step = some s' → OrderlyRun libs identifier s' steps

theorem agreed_run {libs : Libraries} {identifier : String} {s s' : FeedState}
    {steps : List FeedStep} (hr : s.run libs steps = some s')
    (ho : OrderlyRun libs identifier s steps) (h : Agreed identifier s) : Agreed identifier s' := by
  induction steps generalizing s with
  | nil => cases hr; exact h
  | cons step steps ih =>
    obtain ⟨next, hstep, hrest⟩ := Option.bind_eq_some_iff.mp hr
    exact ih hrest (ho.2 next hstep) (agreed_step (step_move hstep) ho.1 h)

/-- Once every event is published, a connected subscriber that took all its events has one
about the record from after each successful write, so that a read after the last of them
sees the final record; and if the requests on the record did not cross, the last one says
whether the record is there. -/
theorem feed_agrees (libs : Libraries) (steps : List FeedStep) (s : FeedState)
    (hr : FeedState.run libs {} steps = some s) (hquiet : s.publishing = []) (k : Nat)
    (subscriber : Subscriber) (hk : s.subscribers[k]? = some subscriber)
    (hc : subscriber.connected = true) (hall : subscriber.received = subscriber.sent.length)
    (identifier : String) :
    (∀ before client call after past old reply event, steps = before ++ .serve client call :: after →
      FeedState.run libs {} before = some past → past.subscribers[k]? = some old →
      eventAfterSuccess call.schema call.op = .ok (some event) →
      (event.flagOf identifier).isSome → (call.exec libs past.disk).1 = .done reply →
      ∃ event ∈ (subscriber.sent.take subscriber.received).drop old.sent.length,
        (event.flagOf identifier).isSome) ∧
    (OrderlyRun libs identifier {} steps → ∀ flag,
      lastFlag identifier (subscriber.sent.take subscriber.received) = some flag →
      flag = s.stored identifier) := by
  rw [hall, List.take_length]
  constructor
  · intro before client call after past old reply event hsteps hpast hold he hflag hdone
    rw [hsteps] at hr
    obtain ⟨mid, hmid, hrest⟩ := FeedState.run_append libs hr
    cases hpast.symm.trans hmid
    obtain ⟨next, hstep, hafter⟩ := Option.bind_eq_some_iff.mp hrest
    have hserved : Announced identifier k old.sent.length next := by
      cases step_move hstep with
      | panicked =>
        simp only [FeedState.step] at hstep
        split at hstep
        next => cases hstep
        next =>
          simp only [FeedState.serve, he] at hstep
          split at hstep
          next hx =>
            have hp := congrArg FeedState.publishing (Option.some.inj hstep)
            simp at hp
          next hx => rw [hx] at hdone; cases hdone
          next => cases hstep
      | done he' _ =>
        cases he.symm.trans he'
        exact ⟨old, hold, Nat.le_refl _, fun _ => Or.inl ⟨(client, event), by simp, hflag⟩⟩
      | failed hf => rw [hdone] at hf; cases hf
    obtain ⟨found, hfound, _, hannounced⟩ := announced_run hafter hserved
    cases hk.symm.trans hfound
    rcases hannounced hc with ⟨entry, hentry, _⟩ | hevent
    · rw [hquiet] at hentry
      cases hentry
    · exact hevent
  · intro ho flag hl
    have hstart : Agreed identifier ({} : FeedState) := by
      constructor <;> simp
    have hagreed := agreed_run hr ho hstart
    refine hagreed.last ?_ subscriber (List.mem_of_getElem? hk) hc flag hl
    rw [hquiet]
    simp

def tokenRemove : StoreCall where
  schema := webSchema
  op := .remove tokenPath

def oneWriter : List FeedStep :=
  [.subscribe, .serve 1 (tokenSet 1), .publish 1, .receive 0 true]

def oneWriterEnd : FeedState where
  disk := ((tokenSet 1).exec noLibraries {}).2
  subscribers := [{ sent := [.secretChanged tokenPath.display true], received := 1 }]

theorem oneWriter_orderly : OrderlyRun noLibraries tokenPath.display {} oneWriter := by
  refine ⟨trivial, fun subscribed hs => ⟨fun _ => ?_, fun _ _ => ⟨trivial, fun _ _ =>
    ⟨trivial, fun _ _ => trivial⟩⟩⟩⟩
  cases hs
  exact ⟨fun _ hentry => (nomatch hentry), fun hn => absurd (by decide) (hn .updated)⟩

theorem oneWriter_agrees : true = oneWriterEnd.stored tokenPath.display :=
  (feed_agrees noLibraries oneWriter oneWriterEnd (by decide) rfl 0 _ rfl rfl rfl
    tokenPath.display).2 oneWriter_orderly true (by decide)

/-- The second writer removes the record and publishes first. -/
def crossedWriters : List FeedStep :=
  [.subscribe, .serve 1 (tokenSet 1), .serve 2 tokenRemove, .publish 2, .publish 1,
    .receive 0 true, .receive 0 true]

/-- Every request is answered and every event received; the last one says that the record
is set, and it is not there. -/
theorem crossed_events_disagree :
    (FeedState.run noLibraries {} crossedWriters).map (fun s =>
      (s.publishing, s.subscribers, s.stored tokenPath.display)) =
    some ([], [{ sent := [.secretChanged tokenPath.display false,
      .secretChanged tokenPath.display true], received := 2 }], false) := by
  decide

end NixSecrets.Inventory
