import NixSecrets.ControllerSteps
import NixSecrets.StoreRecipients

namespace NixSecrets.Manager

open Inventory Program

/-- The broker was asked to resolve the claim. -/
def Resolved (session : Nat) (id : String) (leaseId : Nat) (log : List Occurrence) : Prop :=
  ∃ decision message, Occurrence.asked (.resolve session id leaseId decision message) ∈ log

/-- The broker was asked to renew the claim, which it did not. -/
def RenewalRefused (session : Nat) (id : String) (leaseId : Nat) (log : List Occurrence) : Prop :=
  (∃ duration, Occurrence.asked (.renew session id leaseId duration) ∈ log) ∧
    ∀ broker, Occurrence.renewed broker session id leaseId ∉ log

/-- The request that is claimed, and its lease. -/
def claimOf (w : World) : Option (String × Nat) :=
  w.controller.active.map fun active => (active.request.id, active.leaseId)

/-- Nothing else is claimed, and the claim is kept until the broker is asked to resolve it. -/
structure KeepsClaim (w w' : World) : Prop where
  session : w'.session = w.session
  log : ∃ new, w'.log = w.log ++ new ∧ (∀ id leaseId, Occurrence.claimed id leaseId ∉ new) ∧
    (claimOf w' = claimOf w ∨ claimOf w' = none ∧
      ∀ id leaseId, claimOf w = some (id, leaseId) → Resolved w.session id leaseId new)

theorem Resolved.append {session : Nat} {id : String} {leaseId : Nat} {log log' : List Occurrence}
    (h : Resolved session id leaseId log ∨ Resolved session id leaseId log') :
    Resolved session id leaseId (log ++ log') := by
  rcases h with ⟨decision, message, h⟩ | ⟨decision, message, h⟩
  · exact ⟨decision, message, List.mem_append_left log' h⟩
  · exact ⟨decision, message, List.mem_append_right log h⟩

variable {w w' w'' : World}

theorem KeepsClaim.of_eq {new : List Occurrence} (hsession : w'.session = w.session)
    (hlog : w'.log = w.log ++ new) (hnew : ∀ id leaseId, Occurrence.claimed id leaseId ∉ new)
    (hclaim : claimOf w' = claimOf w) : KeepsClaim w w' :=
  ⟨hsession, new, hlog, hnew, .inl hclaim⟩

instance : Std.Refl KeepsClaim :=
  ⟨fun _ => .of_eq rfl (List.append_nil _).symm (fun _ _ => List.not_mem_nil) rfl⟩

instance : IsTrans World KeepsClaim := by
  constructor
  intro w w' w'' h h'
  obtain ⟨new, hlog, hnew, hclaim⟩ := h.log
  obtain ⟨new', hlog', hnew', hclaim'⟩ := h'.log
  refine ⟨h'.session.trans h.session, new ++ new', by rw [hlog', hlog, List.append_assoc], ?_, ?_⟩
  · intro id leaseId hmem
    exact (List.mem_append.mp hmem).elim (hnew id leaseId) (hnew' id leaseId)
  · rcases hclaim with hclaim | ⟨hnone, hresolved⟩
    · rcases hclaim' with hclaim' | ⟨hnone', hresolved'⟩
      · exact .inl (hclaim'.trans hclaim)
      · refine .inr ⟨hnone', fun id leaseId hw => Resolved.append (.inr ?_)⟩
        rw [← h.session]
        exact hresolved' id leaseId (hclaim.trans hw)
    · have hnone' : claimOf w'' = none := by
        rcases hclaim' with hclaim' | ⟨hnone', _⟩
        · rw [hclaim', hnone]
        · exact hnone'
      exact .inr ⟨hnone', fun id leaseId hw => Resolved.append (.inl (hresolved id leaseId hw))⟩

variable {libs : Libraries} {schema : Inventory.Schema} {s : Surroundings}

theorem Trace.not_claimed {P : StoreOp → Prop} {C : Call → Prop} {new : List Occurrence}
    (h : ∀ o ∈ new, Trace libs P C o) (id : String) (leaseId : Nat) : Occurrence.claimed id leaseId ∉ new := by
  intro hmem
  cases h _ hmem

/-- Any write and any call. -/
abbrev Busy (libs : Libraries) {α : Type} (m : Program α) : Prop := Works libs (fun _ => True) (fun _ => True) m

theorem Leaves.keepsClaim {P : StoreOp → Prop} {C : Call → Prop} (h : Leaves (Trace libs P C) w w') :
    KeepsClaim w w' := by
  obtain ⟨new, hlog, hnew⟩ := h.log
  exact .of_eq h.session hlog (Trace.not_claimed hnew) (by rw [claimOf, h.active, claimOf])

theorem busy_keepsClaim (libs : Libraries) {α : Type} {m : Program α} (h : Busy libs m) : Moves KeepsClaim m :=
  h.imp fun _ _ => Leaves.keepsClaim

theorem note_keepsClaim {o : Occurrence} (ho : ∀ id leaseId, o ≠ .claimed id leaseId) :
    Moves KeepsClaim (note o) := by
  intro w
  refine .of_eq rfl rfl ?_ rfl
  intro id leaseId hmem
  exact ho id leaseId (List.mem_singleton.mp hmem).symm

theorem update_keepsClaim {f : Controller → Controller}
    (hf : ∀ c, (f c).active.map (fun active => (active.request.id, active.leaseId)) =
      c.active.map fun active => (active.request.id, active.leaseId)) :
    Moves KeepsClaim (update f) :=
  fun w => .of_eq rfl (List.append_nil _).symm (fun _ _ => List.not_mem_nil) (hf w.controller)

section

variable (libs s)

include libs

theorem ask_asks {α : Type} {call : Nat → Call} {f : Reply → Program α} (hf : ∀ reply, Busy libs (f reply))
    (w : World) :
    ∃ new, ((Client.ask s call >>= f) w).2.log = w.log ++ Occurrence.asked (call w.session) :: new := by
  have hask : ∃ new, (Client.ask s call w).2.log = w.log ++ Occurrence.asked (call w.session) :: new := by
    unfold Client.ask
    dsimp only
    cases (s.turn w.tick).failure with
    | none => exact ⟨[], rfl⟩
    | some failure => exact ⟨[.hindered none failure.message], by simp [hindered]⟩
  obtain ⟨new, hnew⟩ := hask
  rcases hrun : Client.ask s call w with ⟨e | reply, w'⟩
  · rw [run_bind_error hrun]
    rw [hrun] at hnew
    exact ⟨new, hnew⟩
  · rw [run_bind_ok hrun]
    rw [hrun] at hnew
    obtain ⟨more, hmore, _⟩ := (hf reply w').log
    exact ⟨new ++ more, by rw [hmore, hnew]; simp⟩

theorem resolve_asks (id : String) (leaseId : Nat) (approved : Bool) (message : Option String) (w : World) :
    ∃ new, (Client.resolve s id leaseId approved message w).2.log = w.log ++ new ∧
      Resolved w.session id leaseId new := by
  have hasks : ∃ new, (Client.resolve s id leaseId approved message w).2.log = w.log ++
      Occurrence.asked (.resolve w.session id leaseId (if approved then .approved else .rejected) message) ::
        new := by
    apply ask_asks libs
    intro reply
    split
    · exact Moves.pure ()
    · exact hindered_works _ _
    · exact fail_works _
  obtain ⟨new, hnew⟩ := hasks
  exact ⟨_, hnew, _, _, List.mem_cons_self⟩

/-- A claim that is dropped is resolved right after. -/
theorem resolve_drops {active : ActiveApproval} (hactive : w.controller.active = some active)
    {c : Controller} (hc : c.active = none) (approved : Bool) (message : Option String) :
    KeepsClaim w (Client.resolve s active.request.id active.leaseId approved message
      { w with controller := c }).2 ∧
    claimOf (Client.resolve s active.request.id active.leaseId approved message
      { w with controller := c }).2 = none := by
  have hnone : claimOf { w with controller := c } = none := by
    rw [claimOf, hc]
    rfl
  obtain ⟨asked, hasked, hresolved⟩ := resolve_asks libs s active.request.id active.leaseId approved message
    { w with controller := c }
  have hresolve : KeepsClaim { w with controller := c }
      (Client.resolve s active.request.id active.leaseId approved message { w with controller := c }).2 :=
    busy_keepsClaim libs (resolve_works libs s fun _ _ => trivial) _
  obtain ⟨new, hlog, hnew, hclaim⟩ := hresolve.log
  have heq : new = asked := List.append_cancel_left (hlog.symm.trans hasked)
  have hdropped : claimOf (Client.resolve s active.request.id active.leaseId approved message
      { w with controller := c }).2 = none := by
    rcases hclaim with hclaim | hclaim
    · rw [hclaim, hnone]
    · exact hclaim.1
  refine ⟨⟨hresolve.session, new, hlog, hnew, .inr ⟨hdropped, ?_⟩⟩, hdropped⟩
  intro id leaseId hw
  rw [claimOf, hactive] at hw
  cases hw
  rw [heq]
  exact hresolved

theorem resolve_keepsClaim {α : Type} {active : ActiveApproval} (hactive : w.controller.active = some active)
    {c : Controller} (hc : c.active = none) {approved : Bool} {message : Option String} {f : Unit → Program α}
    (hf : ∀ u, Moves KeepsClaim (f u)) :
    KeepsClaim w ((Client.resolve s active.request.id active.leaseId approved message >>= f)
      { w with controller := c }).2 := by
  have hdropped := (resolve_drops libs s hactive hc approved message).1
  rcases hrun : Client.resolve s active.request.id active.leaseId approved message { w with controller := c } with
    ⟨e | u, w'⟩
  · rw [run_bind_error hrun]
    rwa [hrun] at hdropped
  · rw [run_bind_ok hrun]
    rw [hrun] at hdropped
    exact IsTrans.trans _ _ _ hdropped (hf u w')

omit libs in
/-- What an operation does with the claim that it reads first. -/
theorem activeApproval_moves {α : Type} {R : World → World → Prop} [Std.Refl R] {f : ActiveApproval → Program α}
    (hf : ∀ w active, w.controller.active = some active → R w (f active w).2) :
    Moves R (activeApproval >>= f) := by
  intro w
  cases hactive : w.controller.active with
  | none =>
    rw [run_bind_error (activeApproval_none hactive)]
    exact Std.Refl.refl w
  | some active =>
    rw [run_bind_ok (activeApproval_some hactive)]
    exact hf w active hactive

theorem completeHostDeployment_keepsClaim (generated skipped : List String) :
    Moves KeepsClaim (completeHostDeployment s generated skipped) := by
  apply activeApproval_moves
  intro w active hactive
  exact resolve_keepsClaim libs s hactive rfl fun _ => update_keepsClaim fun _ => rfl

theorem rejectActive_keepsClaim : Moves KeepsClaim (rejectActive s) := by
  apply activeApproval_moves
  intro w active hactive
  exact resolve_keepsClaim libs s hactive rfl fun _ => Moves.pure none

theorem deploy_keepsClaim (expected : Transport.ExpectedTarget) (state : Transport.TargetState)
    (items : Transport.BatchItems) : Moves KeepsClaim (deploy libs s expected state items) := by
  apply (busy_keepsClaim libs (check_works _)).bind
  intro batch
  apply (busy_keepsClaim libs (answered_works _)).bind
  intro result
  cases result with
  | rejected message => exact busy_keepsClaim libs (fail_works _)
  | applied output => exact (note_keepsClaim (by simp)).bind fun _ => Moves.pure _

theorem awaitReview_keepsClaim (pending : PendingHostMutations) :
    Moves KeepsClaim (awaitReview libs schema s pending) := by
  apply (busy_keepsClaim libs (hostMutationReview_works libs s pending)).bind
  intro review
  exact Moves.bind (update_keepsClaim fun _ => rfl) fun _ => Moves.pure review

theorem settleBatch_keepsClaim (active : ActiveApproval) (batch : HostMutationBatch)
    (stored skipped : List String) : Moves KeepsClaim (settleBatch libs schema s active batch stored skipped) := by
  unfold settleBatch
  split
  · apply (busy_keepsClaim libs (answered_works s.random)).bind
    intro token
    exact (awaitReview_keepsClaim libs s _).bind fun _ => Moves.pure _
  · apply (busy_keepsClaim libs (mapRefusal_moves (renewFor_works libs s fun _ => trivial))).bind
    intro _
    apply (busy_keepsClaim libs (applyHostMutations_works libs s (fun _ => trivial) fun _ _ => trivial)).bind
    intro _
    exact (completeHostDeployment_keepsClaim libs s _ _).bind fun _ => Moves.pure none

theorem finishDeployment_keepsClaim (active : ActiveApproval) (selection : Selection)
    (items : Transport.BatchItems) (prefetched : Prefetched) (returned : Returned) :
    Moves KeepsClaim (finishDeployment libs schema s active selection items prefetched returned) := by
  apply (busy_keepsClaim libs (keepReturned_works libs s (fun _ _ => trivial) (fun _ _ => trivial) _ _ _ _)).bind
  intro kept
  apply (note_keepsClaim (by simp)).bind
  intro _
  apply (busy_keepsClaim libs (controller_works)).bind
  intro c
  refine Moves.bind (update_keepsClaim fun _ => rfl) fun _ => ?_
  apply (busy_keepsClaim libs (quarantinedBy_works libs s _)).bind
  intro quarantined
  refine Moves.bind (update_keepsClaim fun _ => rfl) fun _ => ?_
  exact settleBatch_keepsClaim libs s _ _ _ _

theorem deployActive_keepsClaim : Moves KeepsClaim (deployActive libs schema s) := by
  apply (busy_keepsClaim libs (activeApproval_works libs)).bind
  intro active
  apply (busy_keepsClaim libs (prepareBatch_works libs s (fun _ _ => trivial) active)).bind
  intro prepared
  apply (busy_keepsClaim libs (verifyIdentityPublication_works libs s _)).bind
  intro _
  apply Moves.bind
  · apply update_keepsClaim
    intro c
    cases c.active with
    | none => rfl
    | some active => rfl
  · intro _
    apply (busy_keepsClaim libs (check_works _)).bind
    intro state
    apply (deploy_keepsClaim libs s _ _ _).bind
    intro returned
    exact finishDeployment_keepsClaim libs s _ _ _ _ _

theorem prepareActive_keepsClaim : Moves KeepsClaim (prepareActive libs s) := by
  apply activeApproval_moves
  intro w active hactive
  have hlogin : Busy libs (Program.answered s.login) := answered_works s.login
  have hw := hlogin w
  rcases hrun : Program.answered s.login w with ⟨e | state, w'⟩
  · rw [run_bind_error hrun]
    rw [hrun] at hw
    exact hw.keepsClaim
  · rw [run_bind_ok hrun]
    rw [hrun] at hw
    have hsame : claimOf w' = some (active.request.id, active.leaseId) := by
      rw [claimOf, hw.active, hactive]
      rfl
    apply IsTrans.trans w w' _ hw.keepsClaim
    cases Transport.openDeployment libs.transport active.expected state with
    | error error => exact Std.Refl.refl w'
    | ok left => exact .of_eq rfl (List.append_nil _).symm (fun _ _ => List.not_mem_nil) hsame.symm

theorem prepareIdentityForActive_keepsClaim : Moves KeepsClaim (prepareIdentityForActive libs schema s) := by
  apply (busy_keepsClaim libs (activeApproval_works libs)).bind
  intro active
  dsimp only
  split
  · exact busy_keepsClaim libs (deploymentDetailsAfterIdentity_works libs s)
  · apply (busy_keepsClaim libs (check_works _)).bind
    intro _
    apply (busy_keepsClaim libs (mapRefusal_moves (renewFor_works libs s fun _ => trivial))).bind
    intro _
    apply (busy_keepsClaim libs (stageHostIdentity_works libs s _ _)).bind
    intro batch
    apply (busy_keepsClaim libs (check_works _)).bind
    intro path
    apply (busy_keepsClaim libs (check_works _)).bind
    intro spec
    apply (busy_keepsClaim libs (check_works _)).bind
    intro leaf
    apply (busy_keepsClaim libs (check_works _)).bind
    intro sharedId
    apply (busy_keepsClaim libs (publishedRecord_works libs s batch sharedId)).bind
    intro record
    split
    · apply (busy_keepsClaim libs (answered_works s.random)).bind
      intro token
      exact awaitReview_keepsClaim libs s _
    · apply (busy_keepsClaim libs (applyHostMutations_works libs s (fun _ => trivial) fun _ _ => trivial)).bind
      intro _
      refine Moves.bind (update_keepsClaim fun _ => rfl) fun _ => ?_
      exact busy_keepsClaim libs (deploymentDetailsAfterIdentity_works libs s)

theorem approveTarget_keepsClaim (active : ActiveApproval) : Moves KeepsClaim (approveTarget libs schema s active) := by
  have hprepare : Moves KeepsClaim (do
      prepareActive libs s
      update fun c => { c with active := c.active.map fun active => { active with targetApproved := true } }
      let review ← prepareIdentityForActive libs schema s
      return some review) := by
    apply (prepareActive_keepsClaim libs s).bind
    intro _
    refine Moves.bind (update_keepsClaim fun c => ?_) fun _ => ?_
    · cases c.active with
      | none => rfl
      | some active => rfl
    · exact (prepareIdentityForActive_keepsClaim libs s).bind fun _ => Moves.pure _
  unfold approveTarget
  split
  · exact hprepare
  · exact (busy_keepsClaim libs (answered_works s.trust)).bind fun _ => hprepare

end

/-- The claim was given up without a resolution, after the broker did not renew it. -/
structure LosesLease (w w' : World) : Prop where
  none : claimOf w' = none
  log : ∃ new, w'.log = w.log ++ new ∧ (∀ id leaseId, Occurrence.claimed id leaseId ∉ new) ∧
    ∀ id leaseId, claimOf w = some (id, leaseId) → RenewalRefused w.session id leaseId new

/-- Nothing is claimed any more, and every claim that was held or made was given back. -/
structure LetGo (w w' : World) : Prop where
  none : claimOf w' = none
  log : ∃ new, w'.log = w.log ++ new ∧
    (∀ id leaseId, claimOf w = some (id, leaseId) →
      Resolved w.session id leaseId new ∨ RenewalRefused w.session id leaseId new) ∧
    ∀ id leaseId, Occurrence.claimed id leaseId ∈ new → Resolved w.session id leaseId new

theorem KeepsClaim.letGo (h : KeepsClaim w w') (hnone : claimOf w' = none) : LetGo w w' := by
  obtain ⟨new, hlog, hnew, hclaim⟩ := h.log
  refine ⟨hnone, new, hlog, fun id leaseId hw => .inl ?_, fun id leaseId hmem => absurd hmem (hnew id leaseId)⟩
  rcases hclaim with hclaim | ⟨_, hresolved⟩
  · rw [hnone, hw] at hclaim
    cases hclaim
  · exact hresolved id leaseId hw

theorem LosesLease.letGo (h : LosesLease w w') : LetGo w w' := by
  obtain ⟨new, hlog, hnew, hrefused⟩ := h.log
  exact ⟨h.none, new, hlog, fun id leaseId hw => .inr (hrefused id leaseId hw),
    fun id leaseId hmem => absurd hmem (hnew id leaseId)⟩

/-- A renewal that fails leaves only the call and what hindered it. -/
theorem renewFor_refused {id : String} {leaseId leaseMs : Nat} {error : String}
    (h : Client.renewFor s id leaseId leaseMs w = (.error (.refused error), w')) :
    w'.session = w.session ∧ w'.controller = w.controller ∧ ∃ new,
      w'.log = w.log ++ Occurrence.asked (.renew w.session id leaseId (leaseMs * 10 ^ 6)) :: new ∧
      ∀ o ∈ new, ∃ write error, o = Occurrence.hindered write error := by
  rcases run_bind_eq_error h with h | ⟨reply, w₁, hask, h⟩
  · unfold Client.ask at h
    dsimp only at h
    cases hfailure : (s.turn w.tick).failure with
    | none =>
      rw [hfailure] at h
      cases h
    | some failure =>
      rw [hfailure] at h
      cases h
      refine ⟨rfl, rfl, [.hindered none failure.message], by simp, ?_⟩
      intro o ho
      exact ⟨_, _, List.mem_singleton.mp ho⟩
  · have hw₁ : w₁.session = w.session ∧ w₁.controller = w.controller ∧
        w₁.log = w.log ++ [Occurrence.asked (.renew w.session id leaseId (leaseMs * 10 ^ 6))] := by
      unfold Client.ask at hask
      dsimp only at hask
      cases hfailure : (s.turn w.tick).failure with
      | none =>
        rw [hfailure] at hask
        cases hask
        exact ⟨rfl, rfl, rfl⟩
      | some failure =>
        rw [hfailure] at hask
        cases hask
    obtain ⟨hsession, hcontroller, hlog⟩ := hw₁
    split at h
    · cases h
    next failed =>
      cases h
      refine ⟨hsession, hcontroller, [.hindered none (brokerErrorText failed)], by simp [hlog], ?_⟩
      intro o ho
      exact ⟨_, _, List.mem_singleton.mp ho⟩
    · cases h
      exact ⟨hsession, hcontroller, [], hlog, List.forall_mem_nil _⟩

/-- A claim that is dropped because its renewal failed. -/
theorem losesLease {active : ActiveApproval} (hactive : w.controller.active = some active) {leaseMs : Nat}
    {error : String} (h : Client.renewFor s active.request.id active.leaseId leaseMs w =
      (.error (.refused error), w')) {c : Controller} (hc : c.active = none) :
    LosesLease w { w' with controller := c } := by
  obtain ⟨_, _, new, hlog, hnew⟩ := renewFor_refused h
  have hhindered : ∀ o ∈ Occurrence.asked (.renew w.session active.request.id active.leaseId
      (leaseMs * 10 ^ 6)) :: new, o = .asked (.renew w.session active.request.id active.leaseId
      (leaseMs * 10 ^ 6)) ∨ ∃ write error, o = .hindered write error := by
    intro o ho
    rcases List.mem_cons.mp ho with rfl | ho
    · exact .inl rfl
    · exact .inr (hnew o ho)
  refine ⟨by rw [claimOf, hc]; rfl, _, hlog, ?_, ?_⟩
  · intro id leaseId hmem
    rcases hhindered _ hmem with h | ⟨_, _, h⟩ <;> cases h
  · intro id leaseId hw
    rw [claimOf, hactive] at hw
    cases hw
    refine ⟨⟨_, List.mem_cons_self⟩, ?_⟩
    intro broker hmem
    rcases hhindered _ hmem with h | ⟨_, _, h⟩ <;> cases h

/-- How a claim can end in an answer of the operator. -/
def Answers (w w' : World) : Prop := KeepsClaim w w' ∨ LosesLease w w'

instance : Std.Refl Answers := ⟨fun w => .inl (Std.Refl.refl w)⟩

theorem acceptActive_answers {active : ActiveApproval} (hactive : w.controller.active = some active) :
    Answers w (acceptActive libs schema s active w).2 := by
  unfold acceptActive
  split
  · have hrenew : Busy libs (attempt (Client.renewFor s active.request.id active.leaseId 900000)) :=
      attempt_moves (renewFor_works libs s fun _ => trivial)
    have hw := (hrenew w).keepsClaim
    rcases hrun : attempt (Client.renewFor s active.request.id active.leaseId 900000) w with ⟨e | result, w'⟩
    · rw [run_bind_error hrun]
      rw [hrun] at hw
      exact .inl hw
    · rw [run_bind_ok hrun]
      rw [hrun] at hw
      cases result with
      | error error => exact .inr (losesLease hactive (attempt_eq_error hrun) rfl)
      | ok _ => exact .inl (IsTrans.trans w w' _ hw (deployActive_keepsClaim libs s w'))
  · exact .inl (approveTarget_keepsClaim libs s active w)

theorem answerApproval_answers (accepted : Bool) : Moves Answers (answerApproval libs schema s accepted) := by
  intro w
  have hrun : Program.controller w = (.ok w.controller, w) := rfl
  unfold answerApproval
  rw [run_bind_ok hrun]
  split
  · exact Std.Refl.refl w
  · split
    · exact activeApproval_moves (fun _ _ => acceptActive_answers) w
    · exact .inl (rejectActive_keepsClaim libs s w)

theorem claimOf_none (h : claimOf w = none) : w.controller.active = none := Option.map_eq_none_iff.mp h

theorem giveUp_none {α : Type} (error : String) (h : w.controller.active = none) :
    (giveUp s error w : Checked String α × World) = (.error (.refused error), w) := by
  have hrun : Program.controller w = (.ok w.controller, w) := rfl
  unfold giveUp
  rw [run_bind_ok hrun, h]
  rfl

/-- A request that is given up is resolved. -/
theorem giveUp_keepsClaim (libs : Libraries) {α : Type} (error : String) (w : World) :
    KeepsClaim w (giveUp s error w : Checked String α × World).2 ∧
      claimOf (giveUp s error w : Checked String α × World).2 = none := by
  cases hactive : w.controller.active with
  | none =>
    rw [giveUp_none error hactive]
    exact ⟨Std.Refl.refl w, congrArg _ hactive⟩
  | some active =>
    have hrun : Program.controller w = (.ok w.controller, w) := rfl
    unfold giveUp
    rw [run_bind_ok hrun, hactive]
    have hupdate : update (fun c => { c with active := none }) w =
        (.ok (), { w with controller := { w.controller with active := none } }) := rfl
    have hdropped := resolve_drops libs s hactive (c := { w.controller with active := none }) rfl false (some error)
    rw [← attempt_state] at hdropped
    dsimp only
    rw [run_bind_ok hupdate]
    rcases hrun : attempt (Client.resolve s active.request.id active.leaseId false (some error))
      { w with controller := { w.controller with active := none } } with ⟨e | result, w'⟩
    · rw [run_bind_error hrun]
      rwa [hrun] at hdropped
    · rw [run_bind_ok hrun]
      rwa [hrun] at hdropped

theorem approvalInner_refused {accepted : Bool} {error : String}
    (h : approvalInner libs schema s accepted w = (.error (.refused error), w')) : LetGo w w' := by
  rcases run_bind_eq_error h with h | ⟨result, w₁, hattempt, h⟩
  · exact (attempt_not_refused h).elim
  · have hanswer : Answers w (answerApproval libs schema s accepted w).2 := answerApproval_answers accepted w
    rw [← attempt_state, hattempt] at hanswer
    cases result with
    | ok next => cases h
    | error failed =>
      have hupdate : update (fun c => { c with hostMutations := none, identityPublication := none }) w₁ =
          (.ok (), { w₁ with controller := { w₁.controller with
            hostMutations := none, identityPublication := none } }) := rfl
      dsimp only at h
      rw [run_bind_ok hupdate] at h
      have hcleared : KeepsClaim w₁ { w₁ with controller := { w₁.controller with
          hostMutations := none, identityPublication := none } } :=
        .of_eq rfl (List.append_nil _).symm (fun _ _ => List.not_mem_nil) rfl
      rcases hanswer with hkeeps | hloses
      · obtain ⟨hgiven, hnone⟩ := giveUp_keepsClaim libs (s := s) (α := Option Tui.ApprovalRequest) failed
          { w₁ with controller := { w₁.controller with hostMutations := none, identityPublication := none } }
        rw [h] at hgiven hnone
        have hkept : KeepsClaim w w' := IsTrans.trans _ _ _ hkeeps (IsTrans.trans _ _ _ hcleared hgiven)
        exact hkept.letGo hnone
      · have hactive : w₁.controller.active = none := claimOf_none hloses.none
        have hgiven := giveUp_none (s := s) (α := Option Tui.ApprovalRequest) failed
          (w := { w₁ with controller := { w₁.controller with
            hostMutations := none, identityPublication := none } }) hactive
        rw [hgiven] at h
        cases h
        exact LosesLease.letGo ⟨hloses.none, hloses.log⟩

/-- A program that claims, at most, what it gives back. -/
structure ClaimsOnly {α : Type} (given : α → String × Nat → Prop) (m : Program α) (w : World) : Prop where
  session : (m w).2.session = w.session
  controller : (m w).2.controller = w.controller
  log : ∃ new, (m w).2.log = w.log ++ new ∧ ∀ id leaseId, Occurrence.claimed id leaseId ∈ new →
    ∃ a, (m w).1 = .ok a ∧ given a (id, leaseId)

/-- The claim that was given. -/
def Claims : Option (ApprovalRequest × Nat × Option ProcedureStep) → String × Nat → Prop
  | some (request, leaseId, _), claim => claim = (request.id, leaseId)
  | none, _ => False

theorem ask_run (call : Nat → Call) (w : World) : (Client.ask s call w).2.session = w.session ∧
    (Client.ask s call w).2.controller = w.controller ∧
    ∃ new, (Client.ask s call w).2.log = w.log ++ new ∧ ∀ id leaseId, Occurrence.claimed id leaseId ∉ new := by
  unfold Client.ask
  dsimp only
  cases (s.turn w.tick).failure with
  | none => exact ⟨rfl, rfl, [.asked (call w.session)], rfl, by simp⟩
  | some failure =>
    exact ⟨rfl, rfl, [.asked (call w.session), .hindered none failure.message], by simp [hindered], by simp⟩

/-- A program after a call claims what it claims from there. -/
theorem claimsOnly_bind {α β : Type} {given : β → String × Nat → Prop} {m : Program α} {f : α → Program β}
    (hsession : (m w).2.session = w.session) (hcontroller : (m w).2.controller = w.controller)
    (hlog : ∃ new, (m w).2.log = w.log ++ new ∧ ∀ id leaseId, Occurrence.claimed id leaseId ∉ new)
    (hf : ∀ a w', m w = (.ok a, w') → ClaimsOnly given (f a) w') : ClaimsOnly given (m >>= f) w := by
  obtain ⟨new, hlog, hnew⟩ := hlog
  rcases hrun : m w with ⟨e | a, w'⟩
  · rw [hrun] at hsession hcontroller hlog
    refine ⟨?_, ?_, new, ?_, fun id leaseId hmem => absurd hmem (hnew id leaseId)⟩ <;>
      rw [run_bind_error hrun]
    · exact hsession
    · exact hcontroller
    · exact hlog
  · rw [hrun] at hsession hcontroller hlog
    have hrest := hf a w' hrun
    obtain ⟨more, hmore, hgiven⟩ := hrest.log
    have hbind := run_bind_ok (f := f) hrun
    refine ⟨by rw [hbind, hrest.session, hsession], by rw [hbind, hrest.controller, hcontroller], new ++ more,
      by rw [hbind, hmore, hlog, List.append_assoc], ?_⟩
    intro id leaseId hmem
    rw [hbind]
    exact (List.mem_append.mp hmem).elim (fun hmem => absurd hmem (hnew id leaseId)) (hgiven id leaseId)

theorem claimsOnly_refused {α : Type} {given : α → String × Nat → Prop} {m : Program α}
    (h : (m w).2.session = w.session ∧ (m w).2.controller = w.controller ∧
      ∃ new, (m w).2.log = w.log ++ new ∧ ∀ id leaseId, Occurrence.claimed id leaseId ∉ new) :
    ClaimsOnly given m w := by
  obtain ⟨hsession, hcontroller, new, hlog, hnew⟩ := h
  exact ⟨hsession, hcontroller, new, hlog, fun id leaseId hmem => absurd hmem (hnew id leaseId)⟩

theorem claimFirst_claims (procedures : BTreeMap String ProcedureStep) (requests : List ApprovalRequest)
    (w : World) : ClaimsOnly Claims (Client.claimFirst s procedures requests) w := by
  induction requests generalizing w with
  | nil => exact claimsOnly_refused ⟨rfl, rfl, [], (List.append_nil _).symm, by simp⟩
  | cons request rest ih =>
    obtain ⟨hsession, hcontroller, hlog⟩ := ask_run (s := s) (.claim · request.id (300000 * 10 ^ 6)) w
    apply claimsOnly_bind hsession hcontroller hlog
    intro reply w' _
    split
    next claim _ =>
      refine ⟨rfl, rfl, [.claimed request.id claim.leaseId], rfl, ?_⟩
      intro id leaseId hmem
      cases List.mem_singleton.mp hmem
      exact ⟨_, rfl, rfl⟩
    · exact ih w'
    next error _ _ =>
      exact claimsOnly_refused ⟨rfl, rfl, [.hindered none (brokerErrorText error)], rfl, by simp⟩
    · exact claimsOnly_refused ⟨rfl, rfl, [], (List.append_nil _).symm, by simp⟩

theorem pollAndClaimStep_claims (w : World) : ClaimsOnly Claims (Client.pollAndClaimStep s) w := by
  obtain ⟨hsession, hcontroller, hlog⟩ := ask_run (s := s) .pending w
  apply claimsOnly_bind hsession hcontroller hlog
  intro reply w' _
  split
  next requests _ =>
    apply claimsOnly_bind rfl rfl ⟨[], (List.append_nil _).symm, by simp⟩
    intro procedures w'' _
    exact claimFirst_claims procedures requests w''
  next error _ =>
    exact claimsOnly_refused ⟨rfl, rfl, [.hindered none (brokerErrorText error)], rfl, by simp⟩
  · exact claimsOnly_refused ⟨rfl, rfl, [], (List.append_nil _).symm, by simp⟩

/-- A failure of the program ends the claim that was just made. -/
def EndsClaim {α : Type} (id : String) (leaseId : Nat) (m : Program α) : Prop :=
  ∀ w error w', claimOf w = none → m w = (.error (.refused error), w') → KeepsClaim w w' ∧
    ∃ new, w'.log = w.log ++ new ∧ Resolved w.session id leaseId new

section

variable {α β : Type} {id : String} {leaseId : Nat}

theorem KeepsClaim.none (h : KeepsClaim w w') (hnone : claimOf w = none) : claimOf w' = none := by
  obtain ⟨_, _, _, hclaim⟩ := h.log
  rcases hclaim with hclaim | hclaim
  · rw [hclaim, hnone]
  · exact hclaim.1

theorem EndsClaim.bind {m : Program α} {f : α → Program β} (hm : EndsClaim id leaseId m)
    (hmoves : ∀ w, claimOf w = none → KeepsClaim w (m w).2) (hf : ∀ a, EndsClaim id leaseId (f a)) :
    EndsClaim id leaseId (m >>= f) := by
  intro w error w' hnone h
  rcases run_bind_eq_error h with h | ⟨a, w₁, ha, h⟩
  · exact hm w error w' hnone h
  · have hw := hmoves w hnone
    rw [ha] at hw
    obtain ⟨hkeeps, new, hlog, hresolved⟩ := hf a w₁ error w' (hw.none hnone) h
    obtain ⟨old, hold, _, _⟩ := hw.log
    refine ⟨IsTrans.trans _ _ _ hw hkeeps, old ++ new, by rw [hlog, hold, List.append_assoc], ?_⟩
    rw [← hw.session]
    exact Resolved.append (.inr hresolved)

/-- A program that does not fail ends no claim. -/
theorem endsClaim_of_ok {m : Program α} (h : ∀ w, ∃ a, (m w).1 = .ok a) : EndsClaim id leaseId m := by
  intro w error w' _ hrun
  obtain ⟨a, ha⟩ := h w
  rw [hrun] at ha
  cases ha

variable {request : ApprovalRequest}

section

variable (libs)

include libs

/-- A resolution, and whatever follows it, ends the claim. -/
theorem endsClaim_resolve {approved : Bool} {message : Option String} {m : Program Unit}
    (hm : ∀ w, (m w).2 = (Client.resolve s id leaseId approved message w).2) {f : Unit → Program α}
    (hf : ∀ u, Moves KeepsClaim (f u)) : EndsClaim id leaseId (m >>= f) := by
  intro w error w' _ h
  have hresolve : Busy libs (Client.resolve s id leaseId approved message) := resolve_works libs s fun _ _ => trivial
  have hmoves : Moves KeepsClaim m := fun w => hm w ▸ busy_keepsClaim libs hresolve w
  have hkeeps : KeepsClaim w w' := by
    have hbind := hmoves.bind hf w
    rwa [h] at hbind
  obtain ⟨asked, hasked, hresolved⟩ := resolve_asks libs s id leaseId approved message w
  rw [← hm] at hasked
  refine ⟨hkeeps, ?_⟩
  rcases hrun : m w with ⟨e | u, w₁⟩
  · rw [run_bind_error hrun] at h
    rw [hrun] at hasked
    cases h
    exact ⟨asked, hasked, hresolved⟩
  · rw [run_bind_ok hrun] at h
    rw [hrun] at hasked
    obtain ⟨more, hmore, _⟩ := (hf u w₁).log
    rw [h] at hmore
    exact ⟨asked ++ more, by rw [hmore, hasked, List.append_assoc], Resolved.append (.inl hresolved)⟩

theorem refuseClaim_endsClaim (error : String) :
    EndsClaim request.id leaseId (refuseClaim s request leaseId error : Program α) :=
  endsClaim_resolve libs (fun _ => rfl) fun _ => busy_keepsClaim libs (fail_works error)

end

theorem attempt_endsClaim (m : Program α) : EndsClaim id leaseId (attempt m) :=
  fun _ _ _ _ h => (attempt_not_refused h).elim

theorem orRefuseClaim_endsClaim (libs : Libraries) {m : Program α} (hm : Busy libs m) :
    EndsClaim request.id leaseId (orRefuseClaim s request leaseId m) := by
  apply (attempt_endsClaim m).bind fun w _ => busy_keepsClaim libs (attempt_moves hm) w
  intro result
  cases result with
  | ok value => exact endsClaim_of_ok fun _ => ⟨value, rfl⟩
  | error failed => exact refuseClaim_endsClaim libs failed

theorem orRefuseClaim_moves (libs : Libraries) {m : Program α} (hm : Busy libs m) :
    Moves KeepsClaim (orRefuseClaim s request leaseId m) := by
  apply (busy_keepsClaim libs (attempt_moves hm)).bind
  intro result
  cases result with
  | ok value => exact Moves.pure value
  | error failed =>
    exact (busy_keepsClaim libs (resolve_works libs s fun _ _ => trivial)).bind fun _ =>
      busy_keepsClaim libs (fail_works failed)

/-- What a failed setup clears, when nothing is claimed. -/
theorem clearSetup_keepsClaim (request : ApprovalRequest) (hnone : claimOf w = none) :
    KeepsClaim w (update (fun c => if c.active.any fun active => active.request.id = request.id then
      { c with active := none, hostMutations := none, identityPublication := none } else c) w).2 := by
  have hactive := claimOf_none hnone
  refine KeepsClaim.of_eq rfl (List.append_nil _).symm (fun _ _ => List.not_mem_nil) ?_
  change ((if w.controller.active.any fun active => active.request.id = request.id then
    { w.controller with active := none, hostMutations := none, identityPublication := none }
    else w.controller).active.map fun active => (active.request.id, active.leaseId)) = _
  rw [hactive, Option.any_none, if_neg Bool.false_ne_true]
  rfl

theorem finishClaimedSetup_endsClaim {setup : Program α} (hm : Busy libs setup) :
    EndsClaim request.id leaseId (finishClaimedSetup s request leaseId setup) := by
  apply (attempt_endsClaim setup).bind fun w _ => busy_keepsClaim libs (attempt_moves hm) w
  intro result
  cases result with
  | ok value => exact endsClaim_of_ok fun _ => ⟨value, rfl⟩
  | error failed =>
    apply EndsClaim.bind (endsClaim_of_ok fun _ => ⟨(), rfl⟩) fun w hnone => clearSetup_keepsClaim request hnone
    intro _
    exact endsClaim_resolve libs (mapRefusal_state _ _) fun _ => busy_keepsClaim libs (fail_works failed)

theorem finishClaimedSetup_keepsClaim {setup : Program α} (hm : Busy libs setup) (hnone : claimOf w = none) :
    KeepsClaim w (finishClaimedSetup s request leaseId setup w).2 := by
  have hw := busy_keepsClaim libs (attempt_moves hm) w
  rcases hrun : attempt setup w with ⟨e | result, w₁⟩
  · rw [finishClaimedSetup, run_bind_error hrun]
    rwa [hrun] at hw
  · rw [finishClaimedSetup, run_bind_ok hrun]
    rw [hrun] at hw
    cases result with
    | ok value => exact hw
    | error failed =>
      have hclear := clearSetup_keepsClaim request (hw.none hnone)
      have hrest : Moves KeepsClaim (do
          mapRefusal (fun resolving => failed ++ "; could not resolve failed approval setup: " ++ resolving)
            (Client.resolve s request.id leaseId false (some failed))
          fail failed : Program α) :=
        (busy_keepsClaim libs (mapRefusal_moves (resolve_works libs s fun _ _ => trivial))).bind fun _ =>
          busy_keepsClaim libs (fail_works failed)
      exact IsTrans.trans _ _ _ hw (IsTrans.trans _ _ _ hclear (hrest _))

theorem openClaimed_endsClaim (procedure : Option ProcedureStep) :
    EndsClaim request.id leaseId (openClaimed libs schema s request leaseId procedure) := by
  apply (finishClaimedSetup_endsClaim (planSet_works libs s request.secrets)).bind
  · intro w hnone
    exact finishClaimedSetup_keepsClaim (planSet_works libs s request.secrets) hnone
  intro set
  apply (orRefuseClaim_endsClaim libs (details_works libs request none set)).bind
    fun w _ => orRefuseClaim_moves libs (details_works libs request none set) w
  intro dialog
  split
  · exact refuseClaim_endsClaim libs _
  · split
    · exact refuseClaim_endsClaim libs _
    · apply EndsClaim.bind (endsClaim_of_ok fun w => ⟨w.controller, rfl⟩) fun w _ => Std.Refl.refl w
      intro c
      apply (orRefuseClaim_endsClaim libs (check_works _)).bind
        fun w _ => orRefuseClaim_moves libs (check_works _) w
      intro expected
      split
      · exact endsClaim_of_ok fun _ => ⟨_, rfl⟩
      · apply (orRefuseClaim_endsClaim libs (answered_works s.preflight)).bind
          fun w _ => orRefuseClaim_moves libs (answered_works s.preflight) w
        intro preflight
        exact endsClaim_of_ok fun _ => ⟨_, rfl⟩

end

theorem procedureOf_keepsClaim (id : String) (procedure : Option ProcedureStep) :
    Moves KeepsClaim (procedureOf id procedure) := by
  cases procedure with
  | some step => exact Moves.pure _
  | none =>
    intro w
    exact .of_eq rfl (List.append_nil _).symm (fun _ _ => List.not_mem_nil) rfl

theorem endsClaim_procedureOf {id : String} {leaseId : Nat} (name : String) (procedure : Option ProcedureStep) :
    EndsClaim id leaseId (procedureOf name procedure) := by
  cases procedure with
  | some step => exact endsClaim_of_ok fun _ => ⟨_, rfl⟩
  | none => exact endsClaim_of_ok fun _ => ⟨_, rfl⟩

theorem letGo_after (h : KeepsClaim w w') (hnone : claimOf w = none) (h' : LetGo w' w'') : LetGo w w'' := by
  obtain ⟨old, hold, hclaimed, _⟩ := h.log
  obtain ⟨new, hnew, _, hresolved⟩ := h'.log
  refine ⟨h'.none, old ++ new, by rw [hnew, hold, List.append_assoc], ?_, ?_⟩
  · intro id leaseId hw
    rw [hnone] at hw
    cases hw
  · intro id leaseId hmem
    rcases List.mem_append.mp hmem with hmem | hmem
    · exact absurd hmem (hclaimed id leaseId)
    · rw [← h.session]
      exact Resolved.append (.inr (hresolved id leaseId hmem))

theorem claimAndOpen_refused {error : String} (hnone : claimOf w = none)
    (h : claimAndOpen libs schema s w = (.error (.refused error), w')) : LetGo w w' := by
  have hclaims := pollAndClaimStep_claims (s := s) w
  obtain ⟨old, hold, hgiven⟩ := hclaims.log
  rcases run_bind_eq_error h with h | ⟨claim, w₁, hclaim, h⟩
  · rw [h] at hold hgiven
    refine ⟨?_, old, hold, ?_, ?_⟩
    · have hcontroller := hclaims.controller
      rw [h] at hcontroller
      rw [claimOf, hcontroller]
      exact hnone
    · intro id leaseId hw
      rw [hnone] at hw
      cases hw
    · intro id leaseId hmem
      obtain ⟨a, ha, _⟩ := hgiven id leaseId hmem
      cases ha
  · have hsession := hclaims.session
    have hcontroller := hclaims.controller
    rw [hclaim] at hold hgiven hsession hcontroller
    have hnone₁ : claimOf w₁ = none := by
      rw [claimOf, hcontroller]
      exact hnone
    cases claim with
    | none => cases h
    | some claim =>
      obtain ⟨request, leaseId, procedure⟩ := claim
      have hopen : ∀ procedure, EndsClaim request.id leaseId
          (openClaimed libs schema s request leaseId procedure) := fun procedure => openClaimed_endsClaim procedure
      obtain ⟨hkeeps, new, hnew, hresolved⟩ := EndsClaim.bind (endsClaim_procedureOf request.id procedure)
        (fun w _ => procedureOf_keepsClaim request.id procedure w) hopen w₁ error w' hnone₁ h
      obtain ⟨_, hmore, hclaimed, _⟩ := hkeeps.log
      cases List.append_cancel_left (hmore.symm.trans hnew)
      refine ⟨hkeeps.none hnone₁, old ++ new, by rw [hnew, hold, List.append_assoc], ?_, ?_⟩
      · intro id leaseId hw
        rw [hnone] at hw
        cases hw
      · intro id leaseId hmem
        rcases List.mem_append.mp hmem with hmem | hmem
        · obtain ⟨a, ha, hclaims⟩ := hgiven id leaseId hmem
          cases ha
          cases hclaims
          rw [← hsession]
          exact Resolved.append (.inr hresolved)
        · exact absurd hmem (hclaimed id leaseId)

theorem takeReady_run (w : World) : ∃ ready, (takeReady w).1 = .ok ready ∧
    KeepsClaim w (takeReady w).2 := by
  have hrun : Program.controller w = (.ok w.controller, w) := rfl
  unfold takeReady
  rw [run_bind_ok hrun]
  split
  · exact ⟨_, rfl, .of_eq rfl (List.append_nil _).symm (fun _ _ => List.not_mem_nil) rfl⟩
  · exact ⟨_, rfl, Std.Refl.refl w⟩

theorem claimNext_refused {error : String} (hnone : claimOf w = none)
    (h : claimNext libs schema s w = (.error (.refused error), w')) : LetGo w w' := by
  have hclear : KeepsClaim w { w with controller := { w.controller with
      hostMutations := none, identityPublication := none } } :=
    .of_eq rfl (List.append_nil _).symm (fun _ _ => List.not_mem_nil) rfl
  have hupdate : update (fun c => { c with hostMutations := none, identityPublication := none }) w =
      (.ok (), { w with controller := { w.controller with
        hostMutations := none, identityPublication := none } }) := rfl
  rw [claimNext, run_bind_ok hupdate] at h
  apply letGo_after hclear hnone
  rcases run_bind_eq_error h with h | ⟨ready, w₁, hready, h⟩
  · obtain ⟨ready, hok, _⟩ := takeReady_run { w with controller := { w.controller with
      hostMutations := none, identityPublication := none } }
    rw [h] at hok
    cases hok
  · obtain ⟨_, _, hkeeps⟩ := takeReady_run { w with controller := { w.controller with
      hostMutations := none, identityPublication := none } }
    rw [hready] at hkeeps
    apply letGo_after hkeeps (hclear.none hnone)
    cases ready with
    | false => cases h
    | true => exact claimAndOpen_refused (hkeeps.none (hclear.none hnone)) h

theorem renewActive_refused {active : ActiveApproval} {error : String} (hactive : w.controller.active = some active)
    (h : renewActive s active w = (.error (.refused error), w')) : LosesLease w w' := by
  have hquestion : question s.renewedRecently w =
      (.ok (s.renewedRecently w.tick), { w with tick := w.tick + 1 }) := rfl
  rw [renewActive, run_bind_ok hquestion] at h
  cases hrecent : s.renewedRecently w.tick with
  | true =>
    rw [hrecent] at h
    cases h
  | false =>
    rw [hrecent] at h
    rcases run_bind_eq_error h with h | ⟨result, w₁, hattempt, h⟩
    · exact (attempt_not_refused h).elim
    · cases result with
      | ok _ => cases h
      | error failed =>
        have hloses := losesLease (w := { w with tick := w.tick + 1 }) hactive (attempt_eq_error hattempt)
          (c := { w₁.controller with active := none, hostMutations := none, identityPublication := none }) rfl
        cases h
        exact ⟨hloses.none, hloses.log⟩

/-- An operation that starts by changing nothing of the claim. -/
theorem LetGo.of_same {w₁ : World} (hlog : w₁.log = w.log) (hsession : w₁.session = w.session)
    (hclaim : claimOf w₁ = claimOf w) (h : LetGo w₁ w') : LetGo w w' := by
  obtain ⟨new, hnew, hheld, hmade⟩ := h.log
  rw [hsession] at hheld hmade
  exact ⟨h.none, new, hlog ▸ hnew, fun id leaseId hw => hheld id leaseId (hclaim.trans hw), hmade⟩

theorem pollApprovalInner_refused {error : String}
    (h : pollApprovalInner libs schema s w = (.error (.refused error), w')) : LetGo w w' := by
  rcases run_bind_eq_error h with h | ⟨_, w₁, hdrain, h⟩
  · cases h
  · have hsame : w₁.log = w.log ∧ w₁.session = w.session ∧ w₁.controller.active = w.controller.active := by
      cases hdrain
      refine ⟨rfl, rfl, ?_⟩
      change (if w.controller.background then _ else w.controller : Controller).active = _
      split <;> rfl
    obtain ⟨hlog, hsession, hactive⟩ := hsame
    apply LetGo.of_same hlog hsession (by rw [claimOf, hactive, claimOf])
    have hrun : Program.controller w₁ = (.ok w₁.controller, w₁) := rfl
    rw [run_bind_ok hrun] at h
    cases hclaimed : w₁.controller.active with
    | some active =>
      rw [hclaimed] at h
      exact (renewActive_refused hclaimed h).letGo
    | none =>
      rw [hclaimed] at h
      exact claimNext_refused (congrArg _ hclaimed) h

theorem completeHostDeployment_drops (libs : Libraries) (generated skipped : List String) (w : World) :
    claimOf (completeHostDeployment s generated skipped w).2 = none := by
  unfold completeHostDeployment
  cases hactive : w.controller.active with
  | none =>
    rw [run_bind_error (activeApproval_none hactive)]
    exact congrArg _ hactive
  | some active =>
    rw [run_bind_ok (activeApproval_some hactive)]
    have hupdate : update (fun c => { c with active := none, identityPublication := none }) w =
        (.ok (), { w with controller := { w.controller with active := none, identityPublication := none } }) := rfl
    rw [run_bind_ok hupdate]
    apply KeepsClaim.none _ (w := { w with controller := { w.controller with
      active := none, identityPublication := none } }) rfl
    refine Moves.bind (busy_keepsClaim libs (resolve_works libs s fun _ _ => trivial)) (fun _ => ?_) _
    exact update_keepsClaim fun _ => rfl

/-- The decision is not on a review that waits for it. -/
def Undecided (operation : Operation) (w : World) : Prop :=
  ∃ accepted token, operation = .approveHostMutations accepted token ∧
    ¬ ∃ active pending, Awaits w token active pending

/-- The review was rejected, but a deployment that follows from what was already installed could
not be requested. -/
def RejectionCutShort (s : Surroundings) (operation : Operation) (w : World) (error : String) (w' : World) : Prop :=
  ∃ token pending w₁, operation = .approveHostMutations false token ∧
    w.controller.hostMutations = some pending ∧
    submitHostFollowups s pending.batch.committedFollowups w₁ = (.error (.refused error), w')

/-- The claim of the state is still the one of the start. -/
theorem giveUp_refused (libs : Libraries) {α : Type} {error failed : String} {w₁ : World} (h₁ : KeepsClaim w w₁)
    (h : (giveUp s failed w₁ : Checked String α × World) = (.error (.refused error), w')) : LetGo w w' := by
  obtain ⟨hgiven, hnone⟩ := giveUp_keepsClaim libs (s := s) (α := α) failed w₁
  rw [h] at hgiven hnone
  exact (IsTrans.trans _ _ _ h₁ hgiven : KeepsClaim w w').letGo hnone

theorem acceptHostMutations_refused {pending : PendingHostMutations} {error : String} {w₁ : World}
    (h₁ : KeepsClaim w w₁)
    (h : acceptHostMutations libs schema s pending w₁ = (.error (.refused error), w')) : LetGo w w' := by
  rcases run_bind_eq_error h with h | ⟨result, w₂, hattempt, h⟩
  · exact (attempt_not_refused h).elim
  · have happly : Busy libs (attempt (applyHostMutations libs s pending.batch)) :=
      attempt_moves (applyHostMutations_works libs s (fun _ => trivial) fun _ _ => trivial)
    have hw₂ := (happly w₁).keepsClaim
    rw [hattempt] at hw₂
    have h₂ : KeepsClaim w w₂ := IsTrans.trans _ _ _ h₁ hw₂
    cases result with
    | error failed => exact giveUp_refused libs h₂ h
    | ok _ =>
      dsimp only at h
      split at h
      · rcases run_bind_eq_error h with h | ⟨_, w₃, hupdate, h⟩
        · cases h
        · have h₃ : KeepsClaim w w₃ := by
            cases hupdate
            exact IsTrans.trans _ _ _ h₂ (.of_eq rfl (List.append_nil _).symm (fun _ _ => List.not_mem_nil) rfl)
          rcases run_bind_eq_error h with h | ⟨review, w₄, hdetails, h⟩
          · exact (attempt_not_refused h).elim
          · have hbusy : Busy libs (deploymentDetailsAfterIdentity libs schema s) :=
              deploymentDetailsAfterIdentity_works libs s
            have hw₄ := busy_keepsClaim libs (attempt_moves hbusy) w₃
            rw [hdetails] at hw₄
            cases review with
            | ok review => cases h
            | error failed =>
              rcases run_bind_eq_error h with h | ⟨_, w₅, hclear, h⟩
              · cases h
              · have hw₅ : KeepsClaim w₄ w₅ := by
                  cases hclear
                  exact .of_eq rfl (List.append_nil _).symm (fun _ _ => List.not_mem_nil) rfl
                exact giveUp_refused libs
                  (IsTrans.trans _ _ _ (IsTrans.trans _ _ _ h₃ hw₄) hw₅) h
      · rcases run_bind_eq_error h with h | ⟨_, w₃, _, h⟩
        · have hkeeps := completeHostDeployment_keepsClaim libs s pending.generated pending.skipped w₂
          have hnone := completeHostDeployment_drops libs (s := s) pending.generated pending.skipped w₂
          rw [h] at hkeeps hnone
          exact (IsTrans.trans _ _ _ h₂ hkeeps : KeepsClaim w w').letGo hnone
        · cases h

theorem quarantineRejected_ok (origin : Origin) (mutation : HostMutation) {error : String}
    (h : quarantineRejected libs s origin mutation w = (.error (.refused error), w')) : False := by
  have hvalue : ∀ identifier reason content fallback {w : World} {error : String},
      quarantineValue libs s origin identifier reason content fallback w = (.error (.refused error), w') → False := by
    intro identifier reason content fallback w error h
    rcases run_bind_eq_error h with h | ⟨now, w₁, _, h⟩
    · cases h
    · rcases run_bind_eq_error h with h | ⟨result, w₂, _, h⟩
      · exact attempt_not_refused h
      · cases result <;> cases h
  cases mutation with
  | generated path _ proposed =>
    rcases run_bind_eq_error h with h | ⟨_, _, _, h⟩
    · exact hvalue _ _ _ _ h
    · cases h
  | attached path _ _ proposed =>
    rcases run_bind_eq_error h with h | ⟨_, _, _, h⟩
    · exact hvalue _ _ _ _ h
    · cases h
  | inventory _ _ _ _ _ => cases h
  | identity _ _ _ _ _ _ => cases h

theorem collect_ok {β γ : Type} {body : β → Program γ}
    (hbody : ∀ x w w' error, body x w = (.error (.refused error), w') → False) {xs : List β} {error : String}
    (h : collect body xs w = (.error (.refused error), w')) : False := by
  induction xs generalizing w with
  | nil => cases h
  | cons x xs ih =>
    rcases run_bind_eq_error h with h | ⟨_, _, _, h⟩
    · exact hbody x _ _ _ h
    · rcases run_bind_eq_error h with h | ⟨_, _, _, h⟩
      · exact ih h
      · cases h

theorem rejectHostMutations_refused {active : ActiveApproval} {pending : PendingHostMutations} {error : String}
    {w₁ : World} (h₁ : KeepsClaim w w₁) (hactive : w₁.controller.active = some active)
    (h : rejectHostMutations libs s active pending w₁ = (.error (.refused error), w')) :
    LetGo w w' ∨ ∃ w₂, submitHostFollowups s pending.batch.committedFollowups w₂ = (.error (.refused error), w') := by
  rcases run_bind_eq_error h with h | ⟨quarantined, w₂, hcollect, h⟩
  · exact (collect_ok (fun _ _ _ _ => quarantineRejected_ok _ _) h).elim
  · have hbusy : Busy libs (collect (quarantineRejected libs s ⟨active.request.target, active.request.id⟩)
        pending.batch.mutations) :=
      collect_moves fun mutation _ => quarantineRejected_works libs s (fun _ _ => trivial) _ mutation
    have hw₂ := hbusy w₁
    rw [hcollect] at hw₂
    rcases run_bind_eq_error h with h | ⟨_, w₃, hsubmit, h⟩
    · exact .inr ⟨w₂, h⟩
    · have hw₃ := submitHostFollowups_works libs s (P := fun _ => True) (C := fun _ => True) (fun _ => trivial)
        pending.batch.committedFollowups w₂
      rw [hsubmit] at hw₃
      have hactive₃ : w₃.controller.active = some active := by rw [hw₃.active, hw₂.active, hactive]
      have h₃ : KeepsClaim w w₃ :=
        IsTrans.trans _ _ _ h₁ (IsTrans.trans _ _ _ hw₂.keepsClaim hw₃.keepsClaim)
      have hupdate : update (fun c => { c with active := none, identityPublication := none }) w₃ =
          (.ok (), { w₃ with controller := { w₃.controller with
            active := none, identityPublication := none } }) := rfl
      rw [run_bind_ok hupdate] at h
      rcases run_bind_eq_error h with h | ⟨_, _, _, h⟩
      · obtain ⟨hdropped, hnone⟩ := resolve_drops libs s hactive₃ (c := { w₃.controller with
          active := none, identityPublication := none }) rfl false
          (some (rejectedReason pending.beforeDeploy (quarantined.filterMap id)))
        rw [h] at hdropped hnone
        exact .inl ((IsTrans.trans _ _ _ h₃ hdropped : KeepsClaim w w').letGo hnone)
      · cases h

theorem decideReview_refused {accepted : Bool} {token error : String} {active : ActiveApproval}
    {pending : PendingHostMutations} (hactive : w.controller.active = some active)
    (hpending : w.controller.hostMutations = some pending)
    (h : decideReview libs schema s accepted active pending w = (.error (.refused error), w')) :
    RejectionCutShort s (.approveHostMutations accepted token) w error w' ∨ LetGo w w' := by
  have hrenew : Busy libs (attempt (Client.renewFor s active.request.id active.leaseId 900000)) :=
    attempt_moves (renewFor_works libs s fun _ => trivial)
  have hw₁ := hrenew w
  rcases run_bind_eq_error h with h | ⟨result, w₁, hattempt, h⟩
  · exact (attempt_not_refused h).elim
  rw [hattempt] at hw₁
  cases result with
  | error failed =>
    have hloses := losesLease hactive (attempt_eq_error hattempt) (c := { w₁.controller with
      active := none, hostMutations := none, identityPublication := none }) rfl
    cases h
    exact .inr hloses.letGo
  | ok _ =>
    have hupdate : update (fun c => { c with hostMutations := none }) w₁ =
        (.ok (), { w₁ with controller := { w₁.controller with hostMutations := none } }) := rfl
    dsimp only at h
    rw [run_bind_ok hupdate] at h
    have h₁ : KeepsClaim w { w₁ with controller := { w₁.controller with hostMutations := none } } :=
      IsTrans.trans _ _ _ hw₁.keepsClaim
        (.of_eq rfl (List.append_nil _).symm (fun _ _ => List.not_mem_nil) rfl)
    cases accepted with
    | true => exact .inr (acceptHostMutations_refused h₁ h)
    | false =>
      rcases rejectHostMutations_refused h₁ (hw₁.active.trans hactive) h with hlet | ⟨w₂, hcut⟩
      · exact .inr hlet
      · exact .inl ⟨token, pending, w₂, rfl, hpending, hcut⟩

theorem approveHostMutationsInner_refused {accepted : Bool} {token error : String}
    (h : approveHostMutationsInner libs schema s accepted token w = (.error (.refused error), w')) :
    Undecided (.approveHostMutations accepted token) w ∧ w' = w ∨
      RejectionCutShort s (.approveHostMutations accepted token) w error w' ∨ LetGo w w' := by
  rcases approveHostMutationsInner_run libs schema s accepted token w with
    ⟨active, pending, hawaits, hdecide⟩ | ⟨hnone, _, hrefused⟩
  · rw [hdecide] at h
    exact .inr (decideReview_refused hawaits.claimed hawaits.awaited h)
  · rw [hrefused] at h
    cases h
    exact .inl ⟨⟨accepted, token, rfl, hnone⟩, rfl⟩

theorem withProcedure_refused {m : Program (Option Tui.ApprovalRequest)} {error : String}
    (h : withProcedure m w = (.error (.refused error), w')) : m w = (.error (.refused error), w') := by
  rcases run_bind_eq_error h with h | ⟨_, _, _, h⟩
  · exact h
  · cases h

/-- An operation that fails holds no claim any more and has given back every claim that it held or made,
unless it decided on a review that does not wait for it, which changes nothing. -/
theorem perform_refused {operation : Operation} {error : String}
    (h : perform libs schema s operation w = (.error (.refused error), w')) :
    Undecided operation w ∧ w' = w ∨ RejectionCutShort s operation w error w' ∨ LetGo w w' := by
  cases operation with
  | pollApproval => exact .inr (.inr (pollApprovalInner_refused (withProcedure_refused h)))
  | approval accepted => exact .inr (.inr (approvalInner_refused (withProcedure_refused h)))
  | approvalWith accepted unchecked =>
    rcases run_bind_eq_error h with h | ⟨_, w₁, hupdate, h⟩
    · cases h
    · have hsame : w₁.log = w.log ∧ w₁.session = w.session ∧ claimOf w₁ = claimOf w := by
        cases hupdate
        refine ⟨rfl, rfl, ?_⟩
        change (w.controller.active.map _).map _ = w.controller.active.map _
        rw [Option.map_map]
        rfl
      obtain ⟨hlog, hsession, hclaim⟩ := hsame
      have hletGo := approvalInner_refused (withProcedure_refused h)
      exact .inr (.inr (hletGo.of_same hlog hsession hclaim))
  | approveHostMutations accepted token => exact approveHostMutationsInner_refused (withProcedure_refused h)
  | reconnect session => cases h

/-- The operator rejects a claimed request, and the backend cannot be told. -/
def heldWorld : World where
  controller := { active := some {
    request := ⟨"deploy-1", "ns1", [], false⟩, leaseId := 1, expected := ⟨"ns1", [], []⟩, identity := noIdentity,
    targetApproved := true, hostKeyKnown := true, procedure := none } }
  session := 7

def keyLeaf : Inventory.GeneratedSecretLeaf where
  recipientPublicKeys := [aliceKey]
  recipientIds := ["age1alice"]
  recipientNames := ["alice"]
  generatedSecret := {
    secretType := .localSshKey
    output := {
      path := "/persistent/secrets/web/service/key", category := "service", owner := "web", group := "web",
      mode := "0400" } }

def keyHost : Inventory.HostSchema := { webHost with
  serviceGroups := [("services", [("web", .branch [("key", .generated keyLeaf)])])] }

def keySchema : Inventory.Schema := [("ns1", keyHost)]

def keyPath : SecretPath := ⟨["ns1", "services", "web", "key"]⟩

/-- Keys whose material is one letter. -/
def letterKey (letter : Char) : String := "ssh-ed25519 " ++ String.ofList (List.replicate 68 letter)

/-- Libraries that read the keys of one letter. -/
def keyLibraries : Libraries where
  parseIp _ := none
  decodeBase64 text := some ([0, 0, 0, 11] ++ utf8Bytes "ssh-ed25519".toList ++ [0, 0, 0, 32] ++
    List.replicate 32 (UInt8.ofNat ((text.head?.map Char.toNat).getD 0)))
  opensshKey _ := some ⟨true, "ssh-ed25519"⟩
  regexError _ := none
  debug text := text
  transport := ⟨fun text => some (if text = "" then [] else List.replicate 32 0), fun _ => none, fun text => text⟩
  sshKey text := some ⟨"ssh-ed25519", utf8Bytes text.toList, text, .ok text⟩
  sha256 bytes := bytes
  readToml _ := none
  verifyHeader _ _ := .ok ()
  generatorText _ := ""
  derivationText _ := ""

/-- The state of a target with the one key task. -/
def keyState : Transport.TargetState where
  protocolVersion := 4
  hostname := "ns1"
  secrets := []
  tasks := [{
    identifier := "ns1.services.web.key"
    taskType := Transport.localSshKey
    recipientIds := ["age1alice"]
    output := transportDestination keyLeaf.generatedSecret.output [] }]

def keyOutput : AppliedOutput where
  versions := ∅
  generatedPublicKeys := Std.ExtTreeMap.ofList
    [("ns1.services.web.key", "20240101T000000000Z " ++ letterKey 'B')] compare
  generatedRecords := ∅
  notDeployed := ∅

/-- The host's key was registered before. -/
def oldDocument : StoreDocument where
  generatedPublicKeys := Std.ExtTreeMap.ofList [("ns1.services.web.key", ⟨"1", letterKey 'A'⟩)] compare

def keyRequest : ApprovalRequest := ⟨"deploy-1", "ns1", ["ns1.services.web.key"], false⟩

/-- A broker with one request and the operator's session. -/
def keyBroker : ApprovalBroker :=
  ((({} : ApprovalBroker).register 0 7).1.submitInProcedure 0 0 keyRequest none).1

/-- Surroundings in which nothing fails, apart from the calls of these numbers. -/
def calmSurroundings (failing : List Nat) : Surroundings where
  turn n := { schema := .ok keySchema, failure := if n ∈ failing then some ⟨"connection reset", false⟩ else none }
  renewedRecently _ := true
  heard _ := true
  random n := .ok ("token-" ++ toString n)
  contribution _ := .ok "AAAA"
  clock _ := 0
  encrypt _ _ _ _ := .error "no agent"
  decrypt _ _ := .error "no agent"
  decryptOne _ _ _ := .error "no agent"
  preflight _ := .ok ⟨⟨"ns1", 22, [], []⟩, .known, [], [], []⟩
  trust _ := .ok ()
  login _ := .ok keyState
  send _ _ := .ok (.applied keyOutput)

def keyWorld (document : StoreDocument) : World :=
  { session := 7, document := document, broker := keyBroker }

theorem heldWorld_letGo : perform keyLibraries keySchema (calmSurroundings [0]) (.approval false) heldWorld =
    (.error (.refused "connection reset"),
      (perform keyLibraries keySchema (calmSurroundings [0]) (.approval false) heldWorld).2) ∧
    LetGo heldWorld (perform keyLibraries keySchema (calmSurroundings [0]) (.approval false) heldWorld).2 := by
  have h : perform keyLibraries keySchema (calmSurroundings [0]) (.approval false) heldWorld =
      (.error (.refused "connection reset"),
        (perform keyLibraries keySchema (calmSurroundings [0]) (.approval false) heldWorld).2) := rfl
  refine ⟨h, ?_⟩
  rcases perform_refused h with ⟨⟨_, _, hoperation, _⟩, _⟩ | ⟨_, _, _, hoperation, _⟩ | hletGo
  · cases hoperation
  · cases hoperation
  · exact hletGo

/-- The host's key was registered before, and the deployment returned another. -/
def reviewedWorld : World :=
  run keyLibraries keySchema (calmSurroundings []) (keyWorld oldDocument) [.pollApproval, .approval true, .approval true]

/-- A decision with another token is refused, and the claim is still held. -/
theorem wrongToken_keepsClaim : ∃ error, perform keyLibraries keySchema (calmSurroundings [])
    (.approveHostMutations true "another") reviewedWorld = (.error (.refused error), reviewedWorld) ∧
    reviewedWorld.controller.active.isSome := by
  have hwaits : (reviewedWorld.controller.hostMutations.map (·.token), reviewedWorld.controller.active.isSome) =
      (some "token-20", true) := by decide +kernel
  obtain ⟨htoken, hactive⟩ := Prod.mk.inj hwaits
  rcases approveHostMutationsInner_run keyLibraries keySchema (calmSurroundings []) true "another" reviewedWorld with
    ⟨active, pending, hawaits, _⟩ | ⟨_, error, hrefused⟩
  · rw [hawaits.awaited, Option.map_some, hawaits.shown] at htoken
    simp at htoken
  · exact ⟨error, run_bind_error hrefused, hactive⟩

end NixSecrets.Manager
