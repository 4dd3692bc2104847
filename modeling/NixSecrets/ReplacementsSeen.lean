import NixSecrets.ApprovalStep
import NixSecrets.ReviewPresented

namespace NixSecrets.Manager

open Inventory Program

/-- The broker holds the claim for the session. -/
def Holds (broker : ApprovalBroker) (session : Nat) (id : String) (leaseId : Nat) : Prop :=
  ∃ entry lease, broker.entries[id]? = some entry ∧ entry.state = .claimed lease ∧ lease.owner = session ∧
    lease.id = leaseId

/-- The operator was shown what the mutation replaces, and accepted it by the token of the dialog
while the claim of the request was held. -/
def Consented (libs : Libraries) (mutation : HostMutation) (earlier : List Occurrence) : Prop :=
  ∃ (dialog : Tui.ApprovalRequest) (token : String) (line : Tui.HostMutationReview) (broker : ApprovalBroker)
    (session leaseId : Nat) (first shown accepted held : List Occurrence),
    earlier = first ++ .ended (.showed dialog) :: shown ++ .began (.approveHostMutations true token) :: accepted ++
      .renewed broker session dialog.id leaseId :: held ∧
    (∀ report, Occurrence.ended report ∉ accepted ++ held) ∧
    dialog.hostMutationToken = some token ∧ mutation.review libs = some line ∧ line ∈ dialog.hostMutations ∧
    Holds broker session dialog.id leaseId

/-- Every write of the log replaces nothing, or is that of a mutation the operator consented to. -/
def Seen (libs : Libraries) (s : Surroundings) (log : List Occurrence) : Prop :=
  ∀ earlier call before after later, log = earlier ++ .wrote call before after :: later →
    Keeps before after ∨ ∃ mutation : HostMutation, call.op = mutation.op ∧ Performed before after mutation ∧
      Sealed libs s mutation ∧ Consented libs mutation earlier

variable {w w' : World} {libs : Libraries} {schema : Inventory.Schema} {s : Surroundings}
  {mutations : List HostMutation} {α β : Type}

/-- A decision that renewed the claim and then wrote what the mutations allow, or that replaced nothing. -/
structure Decides (libs : Libraries) (mutations : List HostMutation) (id : String) (leaseId : Nat)
    (w w' : World) : Prop where
  log : ∃ new, w'.log = w.log ++ new ∧ ((∀ o ∈ new, Replaces libs [] o) ∨ ∃ accepted broker held,
    new = accepted ++ .renewed broker w.session id leaseId :: held ∧ (∀ o ∈ accepted, Replaces libs [] o) ∧
    Holds broker w.session id leaseId ∧ ∀ o ∈ held, Replaces libs mutations o)
  review : w'.controller.hostMutations = w.controller.hostMutations ∨ w'.controller.hostMutations = none

theorem Logs.decides {id : String} {leaseId : Nat} (h : Logs (Replaces libs []) w w') :
    Decides libs mutations id leaseId w w' := by
  obtain ⟨new, hnew, hquiet⟩ := h.log
  exact ⟨⟨new, hnew, .inl hquiet⟩, h.review⟩

section

variable (libs s)

/-- The broker renews only a claim that the session holds. -/
theorem renewFor_ok {id : String} {leaseId leaseMs : Nat}
    (h : Client.renewFor s id leaseId leaseMs w = (.ok (), w')) :
    w'.controller = w.controller ∧ Holds w'.broker w.session id leaseId ∧
      w'.log = w.log ++ [.asked (.renew w.session id leaseId (leaseMs * 10 ^ 6)),
        .renewed w'.broker w.session id leaseId] := by
  obtain ⟨reply, w₁, hask, h⟩ := run_bind_eq_ok h
  unfold Client.ask at hask
  dsimp only at hask
  cases hfailure : (s.turn w.tick).failure with
  | some failure =>
    rw [hfailure] at hask
    cases hask
  | none =>
    rw [hfailure] at hask
    obtain ⟨broker, r, hserve⟩ : ∃ broker r, (w.broker.serveAll (s.turn w.tick).calls).1.renew (s.turn w.tick).now
        (s.turn w.tick).later w.session id leaseId (leaseMs * 10 ^ 6) = (broker, r) := ⟨_, _, rfl⟩
    have hcall : (w.broker.serveAll (s.turn w.tick).calls).1.serve (s.turn w.tick).now (s.turn w.tick).later
        (.renew w.session id leaseId (leaseMs * 10 ^ 6)) = (broker, .renewed r) :=
      congrArg (Prod.map (fun broker => broker) Reply.renewed) hserve
    rw [hcall] at hask
    cases hask
    cases r with
    | error error => cases h
    | ok duration =>
      cases h
      refine ⟨rfl, ?_, by simp⟩
      rcases ApprovalBroker.renew_cases hserve with ⟨error, hfail, _⟩ | ⟨entry, lease, _, _, howner, hid, _, hbroker⟩
      · cases hfail
      · have hentry : broker.entries[id]? = some { entry with state := .claimed { lease with
            expires := (s.turn w.tick).later + leaseMs * 10 ^ 6 } } := by
          rw [hbroker, ApprovalBroker.setState_entries, if_pos rfl]
        exact ⟨_, _, hentry, rfl, howner, hid⟩

theorem acceptHostMutations_logs (pending : PendingHostMutations) :
    Moves (Logs (Replaces libs pending.batch.mutations)) (acceptHostMutations libs schema s pending) := by
  apply (moves_logs (safe_adds (attempt_moves (applyHostMutations_allowed libs s pending.batch)))).bind
  intro result
  cases result with
  | error error => exact giveUp_logs libs s error
  | ok _ =>
    dsimp only
    split
    · refine Moves.bind (update_logs fun _ => .inl rfl) fun _ => ?_
      apply (moves_logs (safe_adds (attempt_moves (deploymentDetailsAfterIdentity_works libs s)))).bind
      intro review
      cases review with
      | ok review => exact Moves.pure _
      | error error => exact Moves.bind (update_logs fun _ => .inl rfl) fun _ => giveUp_logs libs s error
    · exact (moves_logs (completeHostDeployment_adds libs s _ _)).bind fun _ => Moves.pure none

theorem rejectHostMutations_logs (active : ActiveApproval) (pending : PendingHostMutations) :
    Moves (Logs (Replaces libs [])) (rejectHostMutations libs s active pending) := by
  have hcollect : ∀ origin, Safe libs [] (collect (quarantineRejected libs s origin) pending.batch.mutations) :=
    fun origin => collect_moves fun mutation _ =>
      quarantineRejected_works libs s (fun value random => .inl (.quarantine value random)) origin mutation
  apply (moves_logs (safe_adds (hcollect _))).bind
  intro quarantined
  apply (moves_logs (safe_adds (submitHostFollowups_works libs s (fun _ => trivial) _))).bind
  intro _
  refine Moves.bind (update_logs fun _ => .inl rfl) fun _ => ?_
  exact (moves_logs (safe_adds (resolve_safe libs s))).bind fun _ => Moves.pure none

theorem decideReview_decides (accepted : Bool) (active : ActiveApproval) (pending : PendingHostMutations)
    (w : World) : Decides libs (if accepted then pending.batch.mutations else []) active.request.id active.leaseId w
      (decideReview libs schema s accepted active pending w).2 := by
  have hrenew : Moves (Logs (Replaces libs [])) (attempt (Client.renewFor s active.request.id active.leaseId 900000)) :=
    moves_logs (safe_adds (attempt_moves (renewFor_safe libs s)))
  have hw := hrenew w
  rcases hrun : attempt (Client.renewFor s active.request.id active.leaseId 900000) w with ⟨e | result, w₁⟩
  · rw [hrun] at hw
    rw [decideReview, run_bind_error hrun]
    exact hw.decides
  · rw [hrun] at hw
    rw [decideReview, run_bind_ok hrun]
    cases result with
    | error error =>
      have hdrop : Moves (Logs (Replaces libs [])) (do
          dropClaim
          fail ("host-provided change approval lease was lost: " ++ error) : Program (Option Tui.ApprovalRequest)) :=
        (moves_logs dropClaim_adds).bind fun _ => moves_logs (safe_adds (fail_works _))
      exact (IsTrans.trans _ _ _ hw (hdrop w₁) : Logs (Replaces libs []) w _).decides
    | ok _ =>
      obtain ⟨_, hholds, hlog⟩ := renewFor_ok s (attempt_eq_ok hrun)
      have hrest : Moves (Logs (Replaces libs (if accepted then pending.batch.mutations else []))) (do
          update fun c => { c with hostMutations := none }
          if accepted then acceptHostMutations libs schema s pending
          else rejectHostMutations libs s active pending) := by
        refine Moves.bind (update_logs fun _ => .inr rfl) fun _ => ?_
        cases accepted with
        | true => exact acceptHostMutations_logs libs s pending
        | false => exact rejectHostMutations_logs libs s active pending
      have hrest := hrest w₁
      obtain ⟨held, hheld, hreplaces⟩ := hrest.log
      refine ⟨⟨_, by rw [hheld, hlog, List.append_assoc]; rfl, .inr ⟨[_], w₁.broker, held, rfl, ?_, hholds, hreplaces⟩⟩, ?_⟩
      · intro o ho
        rw [List.mem_singleton.mp ho]
        trivial
      · rcases hrest.review with hreview | hreview
        · rw [hreview]
          exact hw.review
        · exact .inr hreview

end

/-- Every replacement of the log was seen, and a review that waits was shown. -/
structure Overseen (libs : Libraries) (s : Surroundings) (w : World) : Prop where
  seen : Seen libs s w.log
  shown : ∀ pending, w.controller.hostMutations = some pending →
    ∃ dialog, .ended (.showed dialog) ∈ w.log ∧ Shows libs s pending dialog

/-- An element of two parts is in the first, or in the second after all of the first. -/
theorem split_append {xs ys front back : List β} {x : β} (h : xs ++ ys = front ++ x :: back) :
    (∃ rest, xs = front ++ x :: rest) ∨ ∃ rest, front = xs ++ rest ∧ ys = rest ++ x :: back := by
  rcases List.append_eq_append_iff.mp h with ⟨rest, hfront, hys⟩ | ⟨rest, hxs, hback⟩
  · exact .inr ⟨rest, hfront, hys⟩
  · cases rest with
    | nil =>
      rw [List.append_nil] at hxs
      exact .inr ⟨[], by rw [hxs, List.append_nil], hback.symm⟩
    | cons y rest =>
      obtain ⟨rfl, _⟩ := List.cons.inj hback
      exact .inl ⟨rest, hxs⟩

theorem split_snoc {xs front back : List β} {x y : β} (h : xs ++ [y] = front ++ x :: back) (hne : x ≠ y) :
    ∃ rest, xs = front ++ x :: rest := by
  rcases split_append h with hxs | ⟨rest, _, hrest⟩
  · exact hxs
  · cases rest with
    | nil => exact absurd (List.cons.inj hrest).1.symm hne
    | cons z rest => simp at hrest

/-- A log goes on with writes that were consented to after what is before them. -/
theorem Seen.append {log new : List Occurrence} (h : Seen libs s log)
    (hnew : ∀ earlier call before after later, new = earlier ++ .wrote call before after :: later →
      Keeps before after ∨ ∃ mutation : HostMutation, call.op = mutation.op ∧ Performed before after mutation ∧
        Sealed libs s mutation ∧ Consented libs mutation (log ++ earlier)) : Seen libs s (log ++ new) := by
  intro earlier call before after later heq
  rcases split_append heq with ⟨rest, hlog⟩ | ⟨rest, hearlier, hrest⟩
  · exact h earlier call before after rest hlog
  · rw [hearlier]
    exact hnew rest call before after later hrest

theorem Seen.quiet {log new : List Occurrence} (h : Seen libs s log)
    (hnew : ∀ o ∈ new, ∀ call before after, o = .wrote call before after → Keeps before after) :
    Seen libs s (log ++ new) := by
  apply h.append
  intro earlier call before after later heq
  apply Or.inl
  apply hnew (.wrote call before after) _ call before after rfl
  rw [heq]
  exact List.mem_append_right earlier List.mem_cons_self

theorem Replaces.keeps {call : StoreCall} {before after : StoreDocument}
    (h : Replaces libs [] (.wrote call before after)) : Keeps before after := by
  rcases h with h | ⟨_, hmem, _⟩
  · exact h
  · cases hmem

section

variable (libs s)

/-- An operation that replaces nothing and shows the review it sets up. -/
theorem Overseen.presents {operation : Operation} {m : Program (Option Tui.ApprovalRequest)} {report : Report}
    {w₁ : World} (h : Overseen libs s w)
    (hm : Presents libs s id m { w with log := w.log ++ [.began operation] })
    (hlog : w₁.log = (m { w with log := w.log ++ [.began operation] }).2.log ++ [.ended report])
    (hcontroller : w₁.controller.hostMutations =
      (m { w with log := w.log ++ [.began operation] }).2.controller.hostMutations)
    (hshowed : ∀ dialog, (m { w with log := w.log ++ [.began operation] }).1 = .ok (some dialog) →
      report = .showed dialog) : Overseen libs s w₁ := by
  obtain ⟨new, hnew, hquiet⟩ := hm.log
  have hall : w₁.log = w.log ++ (.began operation :: new ++ [.ended report]) := by
    rw [hlog, hnew]
    simp
  constructor
  · rw [hall]
    apply h.seen.quiet
    intro o ho call before after heq
    rw [heq] at ho
    rcases List.mem_append.mp ho with ho | ho
    · rcases List.mem_cons.mp ho with ho | ho
      · cases ho
      · exact (hquiet _ ho).keeps
    · cases List.mem_singleton.mp ho
  · intro pending hpending
    rw [hcontroller] at hpending
    rcases hm.review with hreview | hreview | ⟨a, dialog, found, ha, hdialog, hfound, hshows⟩
    · rw [hreview] at hpending
      obtain ⟨dialog, hmem, hshows⟩ := h.shown pending hpending
      exact ⟨dialog, by rw [hall]; exact List.mem_append_left _ hmem, hshows⟩
    · rw [hreview] at hpending
      cases hpending
    · rw [hfound] at hpending
      cases hpending
      have heq : a = some dialog := hdialog
      rw [heq] at ha
      refine ⟨dialog, ?_, hshows⟩
      rw [hall, hshowed dialog ha]
      simp

/-- A decision on a review that was shown. -/
theorem Overseen.decides {accepted : Bool} {token : String} {active : ActiveApproval}
    {pending : PendingHostMutations} {report : Report} {w₁ w₂ : World} (h : Overseen libs s w)
    (hawaits : Awaits w token active pending)
    (hdecides : Decides libs (if accepted then pending.batch.mutations else []) active.request.id active.leaseId
      { w with log := w.log ++ [.began (.approveHostMutations accepted token)] } w₁)
    (hlog : w₂.log = w₁.log ++ [.ended report])
    (hcontroller : w₂.controller.hostMutations = w₁.controller.hostMutations) : Overseen libs s w₂ := by
  obtain ⟨new, hnew, hkind⟩ := hdecides.log
  have hall : w₂.log = w.log ++ (.began (.approveHostMutations accepted token) :: new ++ [.ended report]) := by
    rw [hlog, hnew]
    simp
  obtain ⟨dialog, hmem, hshows⟩ := h.shown pending hawaits.awaited
  constructor
  · rw [hall]
    rcases hkind with hquiet | ⟨before, broker, held, rfl, hquiet, hholds, hreplaces⟩
    · apply h.seen.quiet
      intro o ho call before after heq
      rw [heq] at ho
      rcases List.mem_append.mp ho with ho | ho
      · rcases List.mem_cons.mp ho with ho | ho
        · cases ho
        · exact (hquiet _ ho).keeps
      · cases List.mem_singleton.mp ho
    · apply h.seen.append
      intro earlier call first after later heq
      have heq : (.began (.approveHostMutations accepted token) :: before ++
          [.renewed broker w.session active.request.id active.leaseId]) ++ (held ++ [.ended report]) =
          earlier ++ .wrote call first after :: later := by
        rw [← heq]
        simp
      rcases split_append heq with ⟨rest, hfirst⟩ | ⟨done, hearlier, hrest⟩
      · have hwrote : Occurrence.wrote call first after ∈ .began (.approveHostMutations accepted token) :: before ++
            [.renewed broker w.session active.request.id active.leaseId] := by
          rw [hfirst]
          simp
        have hbefore : Occurrence.wrote call first after ∈ before := by simpa using hwrote
        exact .inl (hquiet _ hbefore).keeps
      · obtain ⟨later', hheld⟩ := split_snoc hrest (by simp)
        have hwrote : Replaces libs (if accepted then pending.batch.mutations else [])
            (.wrote call first after) := by
          apply hreplaces
          rw [hheld]
          simp
        cases accepted with
        | false => exact .inl hwrote.keeps
        | true =>
          rcases hwrote with hkeeps | ⟨mutation, hmutation, line, hline, hop, hperformed⟩
          · exact .inl hkeeps
          · refine .inr ⟨mutation, hop, hperformed, hshows.honest mutation hmutation, ?_⟩
            obtain ⟨old, shown, hshown⟩ := List.append_of_mem hmem
            refine ⟨dialog, token, line, broker, w.session, active.leaseId, old, shown, before, done, ?_, ?_, ?_,
              hline, ?_, ?_⟩
            · rw [hshown, hearlier, hshows.id, hawaits.request]
              simp
            · intro report' hended
              rcases List.mem_append.mp hended with hended | hended
              · exact hquiet _ hended
              · apply hreplaces (.ended report')
                rw [hheld]
                exact List.mem_append_left _ hended
            · rw [hshows.token, hawaits.shown]
            · rw [hshows.lines]
              exact List.mem_filterMap.mpr ⟨mutation, hmutation, hline⟩
            · rw [hshows.id, hawaits.request]
              exact hholds
  · intro found hfound
    rw [hcontroller] at hfound
    rcases hdecides.review with hreview | hreview
    · rw [hreview] at hfound
      obtain ⟨dialog, hmem, hshows⟩ := h.shown found hfound
      exact ⟨dialog, by rw [hall]; exact List.mem_append_left _ hmem, hshows⟩
    · rw [hreview] at hfound
      cases hfound

end

theorem approvalDone_showed {accepted : Bool} {dialog : Tui.ApprovalRequest} :
    (approvalDone accepted w (.ok (some dialog))).1 = .showed dialog := rfl

/-- How an operation is reported does not change the review or the log. -/
theorem reported_same (beforeDeploy : Bool) (w : World) (operation : Operation)
    (result : Checked String (Option Tui.ApprovalRequest)) :
    (reported beforeDeploy w operation result).2.controller.hostMutations = w.controller.hostMutations ∧
      (reported beforeDeploy w operation result).2.log = w.log := by
  have hdone : ∀ accepted, (approvalDone accepted w result).2.controller.hostMutations = w.controller.hostMutations ∧
      (approvalDone accepted w result).2.log = w.log := by
    intro accepted
    rcases result with (e | _) | (_ | next)
    · exact ⟨rfl, rfl⟩
    · exact ⟨rfl, rfl⟩
    · cases accepted <;> exact ⟨rfl, rfl⟩
    · exact ⟨rfl, rfl⟩
  unfold reported
  split
  · exact ⟨rfl, rfl⟩
  · exact ⟨rfl, rfl⟩
  · exact hdone _
  · exact hdone _
  · exact ⟨rfl, rfl⟩
  · exact hdone _
  · exact hdone _
  · exact hdone _

theorem reported_showed (beforeDeploy : Bool) (w : World) (operation : Operation) (dialog : Tui.ApprovalRequest) :
    (reported beforeDeploy w operation (.ok (some dialog))).1 = .showed dialog := by
  cases operation with
  | pollApproval => rfl
  | approval accepted => rfl
  | approvalWith accepted unchecked => rfl
  | approveHostMutations accepted token => cases accepted <;> rfl
  | reconnect session => rfl

section

variable (libs schema s)

theorem perform_presents (operation : Operation) (h : ∀ accepted token, operation ≠ .approveHostMutations accepted token)
    (w : World) : Presents libs s id (perform libs schema s operation) w := by
  cases operation with
  | pollApproval => exact withProcedure_presents libs s (.of_logs (pollApprovalInner_logs libs s w))
  | approval accepted => exact withProcedure_presents libs s (approvalInner_presents libs s accepted)
  | approvalWith accepted unchecked =>
    have hupdate : Moves (Logs (Replaces libs [])) (update fun c => { c with
        active := c.active.map fun active => { active with unchecked := unchecked } }) :=
      update_logs fun _ => .inl rfl
    apply Presents.bind (hupdate w)
    intro _ w' _
    exact withProcedure_presents libs s (approvalInner_presents libs s accepted)
  | approveHostMutations accepted token => exact absurd rfl (h accepted token)
  | reconnect session =>
    exact .of_logs ⟨⟨[], (List.append_nil _).symm, List.forall_mem_nil _⟩, .inr rfl⟩

theorem withProcedure_state (m : Program (Option Tui.ApprovalRequest)) (w : World) :
    (withProcedure m w).2 = (m w).2 := by
  rcases hrun : m w with ⟨e | next, w'⟩
  · rw [withProcedure, run_bind_error hrun]
  · rw [withProcedure, run_bind_ok hrun]
    rfl

theorem step_overseen {w : World} (h : Overseen libs s w) (operation : Operation) :
    Overseen libs s (step libs schema s w operation) := by
  unfold step
  split
  · obtain ⟨hcontroller, hlog⟩ := reported_same (w.controller.hostMutations.any (·.beforeDeploy))
      (perform libs schema s operation { w with log := w.log ++ [.began operation] }).2 operation
      (perform libs schema s operation { w with log := w.log ++ [.began operation] }).1
    by_cases hdecision : ∃ accepted token, operation = .approveHostMutations accepted token
    · obtain ⟨accepted, token, rfl⟩ := hdecision
      have hperform : (perform libs schema s (.approveHostMutations accepted token) { w with
          log := w.log ++ [.began (.approveHostMutations accepted token)] }).2 =
          (approveHostMutationsInner libs schema s accepted token { w with
            log := w.log ++ [.began (.approveHostMutations accepted token)] }).2 := withProcedure_state _ _
      rcases approveHostMutationsInner_run libs schema s accepted token { w with
          log := w.log ++ [.began (.approveHostMutations accepted token)] } with
        ⟨active, pending, hawaits, hdecide⟩ | ⟨_, error, hrefused⟩
      · have hawaits : Awaits w token active pending :=
          ⟨hawaits.claimed, hawaits.awaited, hawaits.request, hawaits.lease, hawaits.shown⟩
        have hdecides : ∀ w, Decides libs (if accepted then pending.batch.mutations else []) active.request.id
            active.leaseId w (decideReview libs schema s accepted active pending w).2 :=
          decideReview_decides libs s accepted active pending
        have hdecides := hdecides { w with log := w.log ++ [.began (.approveHostMutations accepted token)] }
        rw [← hdecide, ← hperform] at hdecides
        apply h.decides libs s hawaits hdecides
        · dsimp only
          rw [hlog]
        · exact hcontroller
      · have hpresents : Presents libs s id (perform libs schema s (.approveHostMutations accepted token)) { w with
            log := w.log ++ [.began (.approveHostMutations accepted token)] } := by
          apply Presents.of_logs
          rw [hperform, hrefused]
          exact Std.Refl.refl _
        apply h.presents libs s hpresents
        · dsimp only
          rw [hlog]
        · exact hcontroller
        · intro dialog hdialog
          rw [hdialog]
          exact reported_showed _ _ _ dialog
    · have hpresents := perform_presents libs schema s operation
        (fun accepted token heq => hdecision ⟨accepted, token, heq⟩) { w with log := w.log ++ [.began operation] }
      apply h.presents libs s hpresents
      · dsimp only
        rw [hlog]
      · exact hcontroller
      · intro dialog hdialog
        rw [hdialog]
        exact reported_showed _ _ operation dialog
  · exact h

end

/-- A host replaces a stored value only by a mutation that the operator was shown and accepted. -/
theorem replacements_seen (libs : Libraries) (schema : Inventory.Schema) (s : Surroundings)
    (document : StoreDocument) (broker : ApprovalBroker) (session : Nat) (operations : List Operation) :
    Seen libs s (run libs schema s { document := document, broker := broker, session := session } operations).log := by
  have hrun : ∀ (operations : List Operation) (w : World), Overseen libs s w →
      Overseen libs s (run libs schema s w operations) := by
    intro operations
    induction operations with
    | nil => exact fun _ h => h
    | cons operation rest ih => exact fun w h => ih _ (step_overseen libs schema s h operation)
  apply (hrun operations _ _).seen
  constructor
  · intro earlier call before after later heq
    simp at heq
  · intro pending hpending
    cases hpending

/-- An accepted review replaces the key that was registered before. -/
example : (run keyLibraries keySchema (calmSurroundings []) (keyWorld oldDocument) [.pollApproval, .approval true,
    .approval true, .approveHostMutations true "token-20"]).document.generatedPublicKeys["ns1.services.web.key"]? =
      some ⟨"local-generated-" ++ letterKey 'B', letterKey 'B'⟩ := by
  decide +kernel

end NixSecrets.Manager
