import NixSecrets.ClaimReleased
import NixSecrets.HostReplacements

namespace NixSecrets.Manager

open Inventory Program

/-- The keys that are shown of a proposed inventory are the keys of the text that was encrypted. -/
def Sealed (libs : Libraries) (s : Surroundings) : HostMutation → Prop
  | .inventory path _ _ proposed proposedKeys => ∃ n identifier text recipients encrypted,
      parsePath libs identifier = .ok path ∧
      s.encrypt n identifier (utf8Bytes text.toList) recipients = .ok encrypted ∧
      proposed = storedEnvelope encrypted ∧ proposedKeys = namedKeyFingerprints libs text
  | _ => True

/-- The writes that a batch allows. -/
def Allowed (mutations : List HostMutation) (op : StoreOp) : Prop :=
  Additive op ∨ ∃ mutation ∈ mutations, op = mutation.op

/-- What a part of an operation leaves: it replaces at most what the mutations show. -/
def Replaces (libs : Libraries) (mutations : List HostMutation) : Occurrence → Prop
  | .began _ | .ended _ => False
  | .wrote call before after => Keeps before after ∨ ∃ mutation ∈ mutations, ∃ line,
      mutation.review libs = some line ∧ call.op = mutation.op ∧ Performed before after mutation
  | _ => True

/-- A part of an operation that sets up no review. -/
structure Logs (K : Occurrence → Prop) (w w' : World) : Prop where
  log : ∃ new, w'.log = w.log ++ new ∧ ∀ o ∈ new, K o
  review : w'.controller.hostMutations = w.controller.hostMutations ∨ w'.controller.hostMutations = none

/-- A part of an operation that sets up no review and claims nothing else. -/
structure Adds (K : Occurrence → Prop) (w w' : World) : Prop extends Logs K w w' where
  claim : w'.controller.active.map (·.request.id) = w.controller.active.map (·.request.id) ∨
    w'.controller.active = none

variable {K K' : Occurrence → Prop} {w w' w'' : World}

instance : Std.Refl (Logs K) := ⟨fun w => ⟨⟨[], (List.append_nil w.log).symm, List.forall_mem_nil K⟩, .inl rfl⟩⟩

instance : IsTrans World (Logs K) := by
  constructor
  intro w w' w'' h h'
  obtain ⟨new, hnew, hK⟩ := h.log
  obtain ⟨new', hnew', hK'⟩ := h'.log
  refine ⟨⟨new ++ new', by rw [hnew', hnew, List.append_assoc], ?_⟩, ?_⟩
  · intro o ho
    exact (List.mem_append.mp ho).elim (hK o) (hK' o)
  · rcases h'.review with hreview | hreview
    · rw [hreview]
      exact h.review
    · exact .inr hreview

instance : Std.Refl (Adds K) := ⟨fun w => ⟨Std.Refl.refl w, .inl rfl⟩⟩

instance : IsTrans World (Adds K) := by
  constructor
  intro w w' w'' h h'
  refine ⟨IsTrans.trans w w' w'' h.toLogs h'.toLogs, ?_⟩
  rcases h'.claim with hclaim | hclaim
  · rcases h.claim with hbefore | hbefore
    · exact .inl (hclaim.trans hbefore)
    · rw [hbefore, Option.map_none] at hclaim
      exact .inr (Option.map_eq_none_iff.mp hclaim)
  · exact .inr hclaim

theorem Logs.imp (h : Logs K w w') (hK : ∀ o, K o → K' o) : Logs K' w w' := by
  obtain ⟨new, hnew, hall⟩ := h.log
  exact ⟨⟨new, hnew, fun o ho => hK o (hall o ho)⟩, h.review⟩

theorem Leaves.adds (h : Leaves K w w') : Adds K w w' :=
  ⟨⟨h.log, .inl h.hostMutations⟩, .inl (by rw [h.active])⟩

variable {libs : Libraries} {schema : Inventory.Schema} {s : Surroundings} {mutations : List HostMutation}
  {α β : Type}

theorem Trace.replaces {C : Call → Prop} {o : Occurrence} (h : Trace libs (Allowed mutations) C o) :
    Replaces libs mutations o := by
  cases h with
  | hindered write error => trivial
  | asked hcall => trivial
  | renewed broker hcall => trivial
  | wrote hop hact =>
    rcases hop with hop | ⟨mutation, hmem, hop⟩
    · exact .inl (additive_keeps hact hop)
    · cases hreview : mutation.review libs with
      | none => exact .inl (additive_keeps hact (hop ▸ additive_of_unshown hreview))
      | some line => exact .inr ⟨mutation, hmem, line, hreview, hop, mutation_performed hact hop⟩

theorem Replaces.weaken {o : Occurrence} (h : Replaces libs [] o) : Replaces libs mutations o := by
  cases o with
  | wrote call before after =>
    rcases h with h | ⟨mutation, hmem, _⟩
    · exact .inl h
    · cases hmem
  | began operation => exact h
  | ended report => exact h
  | asked call => trivial
  | claimed id leaseId => trivial
  | renewed broker session id leaseId => trivial
  | hindered write error => trivial
  | returned output => trivial
  | kept warnings => trivial

/-- A part of an operation that only writes what the mutations allow. -/
abbrev Safe (libs : Libraries) (mutations : List HostMutation) (m : Program α) : Prop :=
  Works libs (Allowed mutations) (fun _ => True) m

theorem safe_adds {m : Program α} (h : Safe libs mutations m) : Moves (Adds (Replaces libs mutations)) m :=
  h.imp fun _ _ hleaves => (hleaves.imp fun _ => Trace.replaces).adds

theorem update_adds {f : Controller → Controller}
    (hreview : ∀ c, (f c).hostMutations = c.hostMutations ∨ (f c).hostMutations = none)
    (hclaim : ∀ c, (f c).active.map (·.request.id) = c.active.map (·.request.id) ∨ (f c).active = none) :
    Moves (Adds K) (update f) :=
  fun w => ⟨⟨⟨[], (List.append_nil _).symm, List.forall_mem_nil K⟩, hreview w.controller⟩,
    hclaim w.controller⟩

theorem update_logs {f : Controller → Controller}
    (hreview : ∀ c, (f c).hostMutations = c.hostMutations ∨ (f c).hostMutations = none) :
    Moves (Logs K) (update f) :=
  fun w => ⟨⟨[], (List.append_nil _).symm, List.forall_mem_nil K⟩, hreview w.controller⟩

theorem note_adds {o : Occurrence} (ho : K o) : Moves (Adds K) (note o) := by
  intro w
  refine ⟨⟨⟨[o], rfl, ?_⟩, .inl rfl⟩, .inl rfl⟩
  intro o' hmem
  rwa [List.mem_singleton.mp hmem]

theorem moves_logs {m : Program α} (h : Moves (Adds K) m) : Moves (Logs K) m :=
  h.imp fun _ _ hadds => hadds.toLogs

/-- The dialog shows the review and asks for its token. -/
structure Shows (libs : Libraries) (s : Surroundings) (pending : PendingHostMutations)
    (dialog : Tui.ApprovalRequest) : Prop where
  id : dialog.id = pending.requestId
  token : dialog.hostMutationToken = some pending.token
  lines : dialog.hostMutations = pending.batch.reviews libs
  honest : ∀ mutation ∈ pending.batch.mutations, Sealed libs s mutation

/-- The program replaces nothing, and a review that it sets up is shown by the dialog it ends with. -/
structure Presents (libs : Libraries) (s : Surroundings) (dialog : α → Option Tui.ApprovalRequest)
    (m : Program α) (w : World) : Prop where
  log : ∃ new, (m w).2.log = w.log ++ new ∧ ∀ o ∈ new, Replaces libs [] o
  review : (m w).2.controller.hostMutations = w.controller.hostMutations ∨
    (m w).2.controller.hostMutations = none ∨
    ∃ a shown pending, (m w).1 = .ok a ∧ dialog a = some shown ∧
      (m w).2.controller.hostMutations = some pending ∧ Shows libs s pending shown

theorem Presents.of_logs {dialog : α → Option Tui.ApprovalRequest} {m : Program α}
    (h : Logs (Replaces libs []) w (m w).2) : Presents libs s dialog m w :=
  ⟨h.log, h.review.imp_right .inl⟩

theorem Presents.bind {dialog : β → Option Tui.ApprovalRequest} {m : Program α} {f : α → Program β}
    (hm : Logs (Replaces libs []) w (m w).2)
    (hf : ∀ a w', m w = (.ok a, w') → Presents libs s dialog (f a) w') : Presents libs s dialog (m >>= f) w := by
  rcases hrun : m w with ⟨e | a, w'⟩
  · rw [hrun] at hm
    apply Presents.of_logs
    rw [run_bind_error hrun]
    exact hm
  · rw [hrun] at hm
    obtain ⟨⟨new, hnew, hquiet⟩, hreview⟩ := hf a w' hrun
    obtain ⟨old, hold, hbefore⟩ := hm.log
    have hbind := run_bind_ok (f := f) hrun
    refine ⟨⟨old ++ new, ?_, ?_⟩, ?_⟩
    · rw [hbind, hnew, hold, List.append_assoc]
    · intro o ho
      exact (List.mem_append.mp ho).elim (hbefore o) (hquiet o)
    · rw [hbind]
      rcases hreview with hreview | hreview
      · rw [hreview]
        exact hm.review.imp_right .inl
      · exact .inr hreview

/-- No other request is claimed. -/
def OnlyClaim (request : String) (w : World) : Prop :=
  w.controller.active.map (·.request.id) = some request ∨ w.controller.active = none

theorem Adds.onlyClaim {request : String} (h : Adds K w w') (hw : OnlyClaim request w) : OnlyClaim request w' := by
  rcases h.claim with hclaim | hclaim
  · rcases hw with hw | hw
    · exact .inl (hclaim.trans hw)
    · rw [hw, Option.map_none] at hclaim
      exact .inr (Option.map_eq_none_iff.mp hclaim)
  · exact .inr hclaim

theorem Presents.after {dialog : β → Option Tui.ApprovalRequest} {request : String} {m : Program α}
    {f : α → Program β} (hclaim : OnlyClaim request w) (hm : Moves (Adds (Replaces libs [])) m)
    (hf : ∀ a w', m w = (.ok a, w') → OnlyClaim request w' → Presents libs s dialog (f a) w') :
    Presents libs s dialog (m >>= f) w := by
  have hadds := hm w
  apply Presents.bind hadds.toLogs
  intro a w' hrun
  rw [hrun] at hadds
  exact hf a w' hrun (hadds.onlyClaim hclaim)

/-- What follows a dialog passes it on. -/
theorem Presents.map {dialog : α → Option Tui.ApprovalRequest} {dialog' : β → Option Tui.ApprovalRequest}
    {m : Program α} {f : α → β} (h : Presents libs s dialog m w)
    (hf : ∀ a shown, dialog a = some shown → dialog' (f a) = some shown) :
    Presents libs s dialog' (do return f (← m)) w := by
  obtain ⟨hlog, hreview⟩ := h
  rcases hrun : m w with ⟨e | a, w'⟩
  · rw [hrun] at hlog hreview
    have hbind := run_bind_error (f := fun a => (pure (f a) : Program β)) hrun
    refine ⟨by rw [hbind]; exact hlog, ?_⟩
    rw [hbind]
    rcases hreview with hreview | hreview | ⟨a, _, _, ha, _⟩
    · exact .inl hreview
    · exact .inr (.inl hreview)
    · cases ha
  · rw [hrun] at hlog hreview
    have hbind := run_bind_ok (f := fun a => (pure (f a) : Program β)) hrun
    refine ⟨by rw [hbind]; exact hlog, ?_⟩
    rw [hbind]
    rcases hreview with hreview | hreview | ⟨b, shown, pending, hb, hshown, hpending, hshows⟩
    · exact .inl hreview
    · exact .inr (.inl hreview)
    · cases hb
      exact .inr (.inr ⟨f a, shown, pending, rfl, hf a shown hshown, hpending, hshows⟩)

section

variable (libs s)

theorem details_gives (request : ApprovalRequest) (state : Option Transport.TargetState) (set : BTreeSet String) :
    Gives (details libs schema request state set) fun dialog => dialog.id = request.id := by
  intro w dialog h
  obtain ⟨plan, _, h⟩ := Checked.bind_ok h
  obtain ⟨detailed, _, h⟩ := Checked.bind_ok h
  cases h
  rfl

/-- The review of the claimed request shows the batch. -/
theorem hostMutationReview_ok {pending : PendingHostMutations} {review : Tui.ApprovalRequest}
    (hclaim : OnlyClaim pending.requestId w)
    (hhonest : ∀ mutation ∈ pending.batch.mutations, Sealed libs s mutation)
    (h : hostMutationReview libs schema s pending w = (.ok review, w')) : Shows libs s pending review := by
  obtain ⟨active, w₁, hactive, h⟩ := run_bind_eq_ok h
  obtain ⟨set, w₂, _, h⟩ := run_bind_eq_ok h
  obtain ⟨dialog, w₃, hdetails, h⟩ := run_bind_eq_ok h
  have hid : dialog.id = active.request.id := by
    apply details_gives libs active.request none set w₂
    rw [hdetails]
  have hclaimed : w.controller.active = some active := by
    cases hfound : w.controller.active with
    | none =>
      rw [activeApproval_none hfound] at hactive
      cases hactive
    | some found =>
      rw [activeApproval_some hfound] at hactive
      cases hactive
      rfl
  unfold OnlyClaim at hclaim
  rw [hclaimed] at hclaim
  cases h
  refine ⟨?_, rfl, rfl, hhonest⟩
  rcases hclaim with hclaim | hclaim
  · exact hid.trans (Option.some.inj hclaim)
  · cases hclaim

theorem awaitReview_presents {pending : PendingHostMutations}
    (hclaim : OnlyClaim pending.requestId w)
    (hhonest : ∀ mutation ∈ pending.batch.mutations, Sealed libs s mutation) :
    Presents libs s some (awaitReview libs schema s pending) w := by
  have hquiet : Moves (Adds (Replaces libs [])) (hostMutationReview libs schema s pending) :=
    safe_adds (hostMutationReview_works libs s pending)
  apply Presents.bind (hquiet w).toLogs
  intro review w' hreview
  have hshows := hostMutationReview_ok libs s hclaim hhonest hreview
  exact ⟨⟨[], (List.append_nil _).symm, List.forall_mem_nil _⟩, .inr (.inr ⟨review, review, pending, rfl, rfl,
    rfl, hshows⟩)⟩

/-- A batch that shows nothing only adds. -/
theorem applyHostMutations_safe {batch : HostMutationBatch} (h : batch.reviews libs = []) :
    Safe libs [] (applyHostMutations libs s batch) :=
  applyHostMutations_works libs s (fun _ => trivial) fun _ hmem => .inl (additive_of_no_reviews h hmem)

theorem applyHostMutations_allowed (batch : HostMutationBatch) :
    Safe libs batch.mutations (applyHostMutations libs s batch) :=
  applyHostMutations_works libs s (fun _ => trivial) fun mutation hmem => .inr ⟨mutation, hmem, rfl⟩

theorem renewFor_safe {id : String} {leaseId leaseMs : Nat} :
    Safe libs mutations (Client.renewFor s id leaseId leaseMs) :=
  renewFor_works libs s fun _ => trivial

theorem resolve_safe {id : String} {leaseId : Nat} {approved : Bool} {message : Option String} :
    Safe libs mutations (Client.resolve s id leaseId approved message) :=
  resolve_works libs s fun _ _ => trivial

theorem completeHostDeployment_adds (generated skipped : List String) :
    Moves (Adds (Replaces libs mutations)) (completeHostDeployment s generated skipped) := by
  apply (safe_adds (activeApproval_works libs)).bind
  intro active
  refine Moves.bind (update_adds (fun _ => .inl rfl) fun _ => .inr rfl) fun _ => ?_
  apply (safe_adds (resolve_safe libs s)).bind
  intro _
  exact update_adds (fun _ => .inl rfl) fun _ => .inl rfl

theorem settleBatch_presents {active : ActiveApproval} {batch : HostMutationBatch} {stored skipped : List String}
    (hclaim : OnlyClaim active.request.id w)
    (hhonest : ∀ mutation ∈ batch.mutations, Sealed libs s mutation) :
    Presents libs s id (settleBatch libs schema s active batch stored skipped) w := by
  unfold settleBatch
  split
  · apply Presents.after hclaim (safe_adds (answered_works s.random))
    intro token w' _ hclaim
    apply Presents.map (awaitReview_presents libs s hclaim hhonest)
    intro review shown hshown
    exact hshown
  next hnone =>
    apply Presents.of_logs
    apply moves_logs
    apply (safe_adds (mapRefusal_moves (renewFor_safe libs s))).bind
    intro _
    apply (safe_adds (applyHostMutations_safe libs s (Classical.not_not.mp hnone))).bind
    intro _
    exact (completeHostDeployment_adds libs s stored skipped).bind fun _ => Moves.pure none

end

section

variable (libs s)

/-- Every proposed inventory of the batch is shown as it was encrypted. -/
def Honest (mutations : List HostMutation) : Prop := ∀ mutation ∈ mutations, Sealed libs s mutation

theorem Honest.append {more : List HostMutation} (h : Honest libs s mutations) (hmore : Honest libs s more) :
    Honest libs s (mutations ++ more) := by
  intro mutation hmem
  exact (List.mem_append.mp hmem).elim (h mutation) (hmore mutation)

theorem Honest.one {mutation : HostMutation} (h : Sealed libs s mutation) : Honest libs s [mutation] := by
  intro other hmem
  rw [List.mem_singleton.mp hmem]
  exact h

theorem carry_gives {γ : Type} {Q : γ → Prop} {body : γ → β → Program γ}
    (h : ∀ c x, Q c → Gives (body c x) Q) {c : γ} (hc : Q c) (xs : List β) : Gives (carry body c xs) Q := by
  induction xs generalizing c with
  | nil => exact Gives.pure hc
  | cons x xs ih => exact (h c x hc).bind fun c' hc' => ih hc'

theorem check_gives (x : Checked String α) : Gives (check x) fun a => x = .ok a := fun _ _ h => h

theorem fail_gives {Q : α → Prop} (error : String) : Gives (fail error : Program α) Q := by
  intro w a h
  cases h

theorem answered_gives (answer : Nat → Except String α) :
    Gives (Program.answered answer) fun a => ∃ n, answer n = .ok a := by
  intro w a h
  have hrun : question answer w = (.ok (answer w.tick), { w with tick := w.tick + 1 }) := rfl
  rw [Program.answered, run_bind_ok hrun] at h
  cases hanswer : answer w.tick with
  | ok value =>
    rw [hanswer] at h
    cases h
    exact ⟨w.tick, hanswer⟩
  | error error =>
    rw [hanswer] at h
    cases h

theorem stageGeneratedPublicKey_gives (path : SecretPath) (kind : GeneratedSecretType) (publicKey : String)
    {batch : HostMutationBatch} (h : Honest libs s batch.mutations) :
    Gives (stageGeneratedPublicKey libs s path kind publicKey batch) fun batch =>
      Honest libs s batch.mutations := by
  unfold stageGeneratedPublicKey
  refine Gives.any.bind fun key _ => ?_
  refine Gives.any.bind fun _ _ => ?_
  refine Gives.any.bind fun openssh _ => ?_
  dsimp only
  cases kind with
  | localSshKey =>
    refine Gives.any.bind fun previous _ => ?_
    split
    · exact Gives.pure h
    · exact Gives.pure (h.append libs s (.one libs s trivial))
  | storageBoxSshKey =>
    refine Gives.any.bind fun stored _ => ?_
    refine Gives.any.bind fun old _ => ?_
    split
    · exact Gives.pure h
    · exact Gives.pure (h.append libs s (.one libs s trivial))

theorem stageKey_gives (sourceHost : String) (staging : Staging) (item : String × String)
    (h : Honest libs s staging.1.mutations) :
    Gives (stageKey libs schema s sourceHost staging item) fun staging => Honest libs s staging.1.mutations := by
  refine Gives.any.bind fun source _ => ?_
  refine Gives.any.bind fun _ _ => ?_
  refine Gives.any.bind fun leaf _ => ?_
  cases leaf with
  | generated _ task =>
    refine Gives.any.bind fun dated _ => ?_
    refine (stageGeneratedPublicKey_gives libs s source _ _ h).bind fun batch hbatch => ?_
    cases task.generatedSecret.registerAt with
    | none => exact Gives.pure hbatch
    | some destination =>
      refine Gives.any.bind fun stamp _ => ?_
      exact Gives.pure hbatch
  | stored _ _ => exact fail_gives _
  | operator _ _ => exact fail_gives _

theorem followup_mutations {batch batch' : HostMutationBatch} {path : SecretPath}
    (h : batch.followup path = .ok batch') : batch'.mutations = batch.mutations := by
  obtain ⟨target, _, h⟩ := Checked.bind_ok h
  cases h
  rfl

theorem stageInventory_gives (sourceHost : String) (prefetched : Prefetched) (batch : HostMutationBatch)
    (item : String × List (String × String)) (h : Honest libs s batch.mutations) :
    Gives (stageInventory libs schema s sourceHost prefetched batch item) fun batch =>
      Honest libs s batch.mutations := by
  refine (check_gives _).bind fun path hpath => ?_
  refine Gives.any.bind fun leaf _ => ?_
  cases leaf with
  | stored _ leaf =>
    refine Gives.any.bind fun _ _ => ?_
    refine Gives.any.bind fun current _ => ?_
    refine Gives.any.bind fun lines _ => ?_
    dsimp only
    split
    · exact Gives.pure h
    · refine (answered_gives _).bind fun encrypted hencrypted => ?_
      obtain ⟨n, hencrypted⟩ := hencrypted
      refine Gives.imp (check_gives _) fun batch' hfollowup => ?_
      rw [followup_mutations hfollowup]
      exact h.append libs s (.one libs s ⟨n, item.1, _, _, encrypted, hpath, hencrypted, rfl, rfl⟩)
  | generated _ _ => exact fail_gives _
  | operator _ _ => exact fail_gives _

theorem stagePublicKeys_gives (sourceHost : String) (keys : BTreeMap String String) (prefetched : Prefetched) :
    Gives (stagePublicKeys libs schema s sourceHost keys prefetched) fun batch =>
      Honest libs s batch.mutations := by
  refine Gives.any.bind fun _ _ => ?_
  have hstart : Honest libs s (({}, ∅) : Staging).1.mutations := List.forall_mem_nil _
  refine (carry_gives (fun staging item => stageKey_gives libs s sourceHost staging item) hstart _).bind
    fun staging hstaging => ?_
  exact carry_gives (fun batch item => stageInventory_gives libs s sourceHost prefetched batch item) hstaging _

theorem keepReturned_gives (origin : Origin) (allowed : List String) (prefetched : Prefetched)
    (returned : Returned) : Gives (keepReturned libs schema s origin allowed prefetched returned) fun kept =>
      Honest libs s kept.batch.mutations := by
  refine Gives.any.bind fun unrequested _ => ?_
  refine Gives.any.bind fun records _ => ?_
  refine Gives.any.bind fun unexpected _ => ?_
  have hstaged : Gives (stageOrQuarantine libs schema s origin
      (returned.applied.generatedPublicKeys.filter fun id _ => allowed.contains id) prefetched) fun staged =>
      Honest libs s staged.1.mutations := by
    have hattempt : Gives (attempt (stagePublicKeys libs schema s origin.host
        (returned.applied.generatedPublicKeys.filter fun id _ => allowed.contains id) prefetched)) fun staged =>
        ∀ batch, staged = .ok batch → Honest libs s batch.mutations := by
      intro w staged hrun batch hbatch
      have hok : attempt (stagePublicKeys libs schema s origin.host
          (returned.applied.generatedPublicKeys.filter fun id _ => allowed.contains id) prefetched) w =
          (.ok (.ok batch), _) := Prod.ext (hrun.trans (congrArg _ hbatch)) rfl
      exact stagePublicKeys_gives libs s origin.host _ prefetched w batch (by rw [attempt_eq_ok hok])
    refine hattempt.bind fun staged hstaged => ?_
    cases staged with
    | ok batch => exact Gives.pure (hstaged batch rfl)
    | error error =>
      refine Gives.any.bind fun texts _ => ?_
      exact Gives.pure (List.forall_mem_nil _)
  refine hstaged.bind fun staged hstaged => ?_
  exact Gives.pure hstaged

theorem committedBatch_mutations (publication : Option IdentityPublication) (selected : List String)
    (notDeployed : BTreeMap String String) (batch : HostMutationBatch) :
    (committedBatch publication selected notDeployed batch).mutations = batch.mutations := by
  unfold committedBatch
  cases publication with
  | none => rfl
  | some publication =>
    dsimp only
    split <;> rfl

theorem identityConsumer_gives (source sharedId : String) (found : BTreeSet String × HostMutationBatch)
    (leaf : LeafSpec) (h : found.2.mutations = []) :
    Gives (identityConsumer libs schema s source sharedId found leaf) fun found => found.2.mutations = [] := by
  unfold identityConsumer
  split
  · split
    · refine Gives.any.bind fun reporter _ => ?_
      cases reporter with
      | true =>
        refine (check_gives _).bind fun batch hbatch => ?_
        exact Gives.pure ((followup_mutations hbatch).trans h)
      | false => exact Gives.pure h
    · exact Gives.pure h
  · exact Gives.pure h

theorem stageHostIdentity_gives (source : String) (identity : HostKey.HostIdentity) :
    Gives (stageHostIdentity libs schema s source identity) fun batch => Honest libs s batch.mutations := by
  have hnone : Honest libs s ({} : HostMutationBatch).mutations := List.forall_mem_nil _
  refine Gives.any.bind fun host _ => ?_
  cases host.metadata.deployment.publishHostIdentityTo with
  | none => exact Gives.pure hnone
  | some identifier =>
    refine Gives.any.bind fun _ _ => ?_
    refine Gives.any.bind fun path _ => ?_
    refine Gives.any.bind fun spec _ => ?_
    refine Gives.any.bind fun leaf _ => ?_
    refine Gives.any.bind fun sharedId _ => ?_
    refine Gives.any.bind fun value _ => ?_
    refine Gives.any.bind fun port _ => ?_
    refine Gives.any.bind fun previous _ => ?_
    refine Gives.any.bind fun problem _ => ?_
    cases problem with
    | none => exact Gives.pure hnone
    | some problem =>
      have hfound : Gives (carry (identityConsumer libs schema s source sharedId) (∅, {}) schema.leaves) fun found =>
          found.2.mutations = [] :=
        carry_gives (fun found leaf => identityConsumer_gives libs s source sharedId found leaf) rfl _
      refine hfound.bind fun found hfound => ?_
      apply Gives.pure
      show Honest libs s (found.2.mutations ++ _)
      rw [hfound]
      exact .one libs s trivial

end

section

variable (libs s)

theorem keepReturned_safe (origin : Origin) (allowed : List String) (prefetched : Prefetched)
    (returned : Returned) : Safe libs mutations (keepReturned libs schema s origin allowed prefetched returned) :=
  keepReturned_works libs s (fun value random => .inl (.quarantine value random))
    (fun path envelope => .inl (.envelope path envelope)) origin allowed prefetched returned

theorem prepareBatch_safe (active : ActiveApproval) : Safe libs mutations (prepareBatch libs schema s active) :=
  prepareBatch_works libs s (fun path record => .inl (.publicInfo path record)) active

theorem deploy_adds (expected : Transport.ExpectedTarget) (state : Transport.TargetState)
    (items : Transport.BatchItems) :
    Moves (Adds (Replaces libs mutations)) (deploy libs s expected state items) := by
  apply (safe_adds (check_works _)).bind
  intro batch
  apply (safe_adds (answered_works _)).bind
  intro result
  cases result with
  | rejected message => exact safe_adds (fail_works _)
  | applied output => exact Moves.bind (note_adds trivial) fun _ => Moves.pure _

theorem finishDeployment_presents {active : ActiveApproval} {selection : Selection}
    {items : Transport.BatchItems} {prefetched : Prefetched} {returned : Returned}
    (hclaim : OnlyClaim active.request.id w) :
    Presents libs s id (finishDeployment libs schema s active selection items prefetched returned) w := by
  apply Presents.after hclaim (safe_adds (keepReturned_safe libs s _ _ _ _))
  intro kept w₁ hkept hclaim
  have hhonest : Honest libs s kept.batch.mutations := by
    apply keepReturned_gives libs s active.origin (items.tasks.map (·.identifier)) prefetched returned w
    rw [hkept]
  refine Presents.after hclaim (note_adds trivial) fun _ w₂ _ hclaim => ?_
  apply Presents.after hclaim (safe_adds controller_works)
  intro c w₃ _ hclaim
  refine Presents.after hclaim (update_adds (fun _ => .inl rfl) fun _ => .inl rfl) fun _ w₄ _ hclaim => ?_
  apply Presents.after hclaim (safe_adds (quarantinedBy_works libs s _))
  intro quarantined w₅ _ hclaim
  refine Presents.after hclaim (update_adds (fun _ => .inl rfl) fun _ => .inl rfl) fun _ w₆ _ hclaim => ?_
  apply settleBatch_presents libs s hclaim
  rw [committedBatch_mutations]
  exact hhonest

/-- What an operation presents that reads its claim first. -/
theorem activeApproval_presents {dialog : β → Option Tui.ApprovalRequest} {f : ActiveApproval → Program β}
    (hf : ∀ active, w.controller.active = some active → OnlyClaim active.request.id w →
      Presents libs s dialog (f active) w) : Presents libs s dialog (activeApproval >>= f) w := by
  have hquiet : Moves (Adds (Replaces libs [])) activeApproval := safe_adds (activeApproval_works libs)
  apply Presents.bind (hquiet w).toLogs
  intro active w' hrun
  cases hactive : w.controller.active with
  | none =>
    rw [activeApproval_none hactive] at hrun
    cases hrun
  | some found =>
    rw [activeApproval_some hactive] at hrun
    cases hrun
    exact hf active hactive (.inl (congrArg _ hactive))

theorem deployActive_presents : Presents libs s id (deployActive libs schema s) w := by
  apply activeApproval_presents
  intro active _ hclaim
  apply Presents.after hclaim (safe_adds (prepareBatch_safe libs s active))
  intro prepared w₁ _ hclaim
  apply Presents.after hclaim (safe_adds (verifyIdentityPublication_works libs s _))
  intro _ w₂ _ hclaim
  apply Presents.after hclaim
  · refine update_adds (fun _ => .inl rfl) fun c => ?_
    cases c.active with
    | none => exact .inr rfl
    | some active => exact .inl rfl
  intro _ w₃ _ hclaim
  apply Presents.after hclaim (safe_adds (check_works _))
  intro state w₄ _ hclaim
  apply Presents.after hclaim (deploy_adds libs s _ _ _)
  intro returned w₅ _ hclaim
  exact finishDeployment_presents libs s hclaim

theorem prepareActive_logs : Moves (Logs (Replaces libs mutations)) (prepareActive libs s) := by
  apply (moves_logs (safe_adds (activeApproval_works libs))).bind
  intro active
  apply (moves_logs (safe_adds (answered_works s.login))).bind
  intro state
  apply (moves_logs (safe_adds (check_works _))).bind
  intro _
  exact update_logs fun _ => .inl rfl

theorem prepareIdentityForActive_presents : Presents libs s some (prepareIdentityForActive libs schema s) w := by
  apply activeApproval_presents
  intro active _ hclaim
  dsimp only
  split
  · have hquiet : Moves (Adds (Replaces libs [])) (deploymentDetailsAfterIdentity libs schema s) :=
      safe_adds (deploymentDetailsAfterIdentity_works libs s)
    exact .of_logs (hquiet w).toLogs
  · apply Presents.after hclaim (safe_adds (check_works _))
    intro _ w₁ _ hclaim
    apply Presents.after hclaim (safe_adds (mapRefusal_moves (renewFor_safe libs s)))
    intro _ w₂ _ hclaim
    apply Presents.after hclaim (safe_adds (stageHostIdentity_works libs s _ _))
    intro batch w₃ hbatch hclaim
    have hhonest : Honest libs s batch.mutations := by
      apply stageHostIdentity_gives libs s active.request.target active.identity w₂
      rw [hbatch]
    apply Presents.after hclaim (safe_adds (check_works _))
    intro path w₄ _ hclaim
    apply Presents.after hclaim (safe_adds (check_works _))
    intro spec w₅ _ hclaim
    apply Presents.after hclaim (safe_adds (check_works _))
    intro leaf w₆ _ hclaim
    apply Presents.after hclaim (safe_adds (check_works _))
    intro sharedId w₇ _ hclaim
    apply Presents.after hclaim (safe_adds (publishedRecord_works libs s batch sharedId))
    intro record w₈ _ hclaim
    split
    · apply Presents.after hclaim (safe_adds (answered_works s.random))
      intro token w₉ _ hclaim
      exact awaitReview_presents libs s hclaim hhonest
    next hnone =>
      apply Presents.of_logs
      apply moves_logs
      apply (safe_adds (applyHostMutations_safe libs s (Classical.not_not.mp hnone))).bind
      intro _
      refine Moves.bind (update_adds (fun _ => .inl rfl) fun _ => .inl rfl) fun _ => ?_
      exact safe_adds (deploymentDetailsAfterIdentity_works libs s)

theorem approveTarget_presents (active : ActiveApproval) :
    Presents libs s id (approveTarget libs schema s active) w := by
  have hprepare : ∀ w, Presents libs s id (do
      prepareActive libs s
      update fun c => { c with active := c.active.map fun active => { active with targetApproved := true } }
      let review ← prepareIdentityForActive libs schema s
      return some review) w := by
    intro w
    apply Presents.bind (prepareActive_logs libs s w)
    intro _ w₁ _
    have hupdate : Moves (Logs (Replaces libs [])) (update fun c => { c with
        active := c.active.map fun active => { active with targetApproved := true } }) :=
      update_logs fun _ => .inl rfl
    apply Presents.bind (hupdate w₁)
    intro _ w₂ _
    apply Presents.map (prepareIdentityForActive_presents libs s)
    intro review shown hshown
    exact hshown
  unfold approveTarget
  split
  · exact hprepare w
  · have htrust : Moves (Adds (Replaces libs [])) (Program.answered s.trust) := safe_adds (answered_works s.trust)
    apply Presents.bind (htrust w).toLogs
    intro _ w₁ _
    exact hprepare w₁

theorem dropClaim_adds : Moves (Adds K) dropClaim := update_adds (fun _ => .inr rfl) fun _ => .inr rfl

theorem acceptActive_presents (active : ActiveApproval) :
    Presents libs s id (acceptActive libs schema s active) w := by
  unfold acceptActive
  split
  · have hrenew : Moves (Adds (Replaces libs []))
        (attempt (Client.renewFor s active.request.id active.leaseId 900000)) :=
      safe_adds (attempt_moves (renewFor_safe libs s))
    apply Presents.bind (hrenew w).toLogs
    intro result w₁ _
    cases result with
    | error error =>
      have hdrop : Moves (Adds (Replaces libs [])) (do
          dropClaim
          fail ("approval lease was lost: " ++ error) : Program (Option Tui.ApprovalRequest)) :=
        dropClaim_adds.bind fun _ => safe_adds (fail_works _)
      exact .of_logs (hdrop w₁).toLogs
    | ok _ => exact deployActive_presents libs s
  · exact approveTarget_presents libs s active

theorem rejectActive_adds : Moves (Adds (Replaces libs mutations)) (rejectActive s) := by
  apply (safe_adds (activeApproval_works libs)).bind
  intro active
  refine Moves.bind (update_adds (fun _ => .inl rfl) fun _ => .inr rfl) fun _ => ?_
  exact (safe_adds (resolve_safe libs s)).bind fun _ => Moves.pure none

theorem answerApproval_presents (accepted : Bool) :
    Presents libs s id (answerApproval libs schema s accepted) w := by
  have hrun : Program.controller w = (.ok w.controller, w) := rfl
  unfold answerApproval
  apply Presents.bind (Std.Refl.refl w)
  intro c w' _
  split
  · have hfail : Moves (Adds (Replaces libs [])) (fail
        "host-provided changes require their displayed review token" : Program (Option Tui.ApprovalRequest)) :=
      safe_adds (fail_works _)
    exact .of_logs (hfail w').toLogs
  · split
    · apply activeApproval_presents
      intro active _ _
      exact acceptActive_presents libs s active
    · exact .of_logs (rejectActive_adds libs s w').toLogs

theorem giveUp_logs (error : String) : Moves (Logs (Replaces libs mutations)) (giveUp s error : Program α) := by
  apply (moves_logs (safe_adds controller_works)).bind
  intro c
  cases c.active with
  | none => exact moves_logs (safe_adds (fail_works _))
  | some active =>
    refine Moves.bind (update_logs fun _ => .inl rfl) fun _ => ?_
    apply (moves_logs (safe_adds (attempt_moves (resolve_safe libs s)))).bind
    intro _
    exact moves_logs (safe_adds (fail_works _))

end

theorem Presents.of_error {dialog : α → Option Tui.ApprovalRequest} {m : Program α} {e : Stop String}
    (h : Presents libs s dialog m w) (hrun : m w = (.error e, w')) : Logs (Replaces libs []) w w' := by
  obtain ⟨hlog, hreview⟩ := h
  rw [hrun] at hlog hreview
  refine ⟨hlog, ?_⟩
  rcases hreview with hreview | hreview | ⟨_, _, _, ha, _⟩
  · exact .inl hreview
  · exact .inr hreview
  · cases ha

section

variable (libs s)

theorem approvalInner_presents (accepted : Bool) :
    Presents libs s id (approvalInner libs schema s accepted) w := by
  have hanswer : Presents libs s id (answerApproval libs schema s accepted) w := answerApproval_presents libs s accepted
  have hgive : ∀ error, Moves (Logs (Replaces libs [])) (do
      update fun c => { c with hostMutations := none, identityPublication := none }
      giveUp s error : Program (Option Tui.ApprovalRequest)) :=
    fun error => Moves.bind (update_logs fun _ => .inr rfl) fun _ => giveUp_logs libs s error
  rcases hrun : attempt (answerApproval libs schema s accepted) w with ⟨e | result, w'⟩
  · apply Presents.of_logs
    rw [approvalInner, run_bind_error hrun]
    cases e with
    | refused error => exact (attempt_not_refused hrun).elim
    | panicked =>
      rcases hinner : answerApproval libs schema s accepted w with ⟨(e | _) | next, w''⟩
      · rw [attempt, hinner] at hrun
        cases hrun
      · rw [attempt, hinner] at hrun
        cases hrun
        exact hanswer.of_error hinner
      · rw [attempt, hinner] at hrun
        cases hrun
  · cases result with
    | ok next =>
      have hinner := attempt_eq_ok hrun
      have heq : approvalInner libs schema s accepted w = answerApproval libs schema s accepted w := by
        rw [approvalInner, run_bind_ok hrun, hinner]
        rfl
      exact ⟨heq ▸ hanswer.log, heq ▸ hanswer.review⟩
    | error error =>
      apply Presents.of_logs
      rw [approvalInner, run_bind_ok hrun]
      exact IsTrans.trans _ _ _ (hanswer.of_error (attempt_eq_error hrun)) (hgive error w')

theorem refuseClaim_logs (request : ApprovalRequest) (leaseId : Nat) (error : String) :
    Moves (Logs (Replaces libs mutations)) (refuseClaim s request leaseId error : Program α) :=
  (moves_logs (safe_adds (resolve_safe libs s))).bind fun _ => moves_logs (safe_adds (fail_works _))

theorem orRefuseClaim_logs {request : ApprovalRequest} {leaseId : Nat} {m : Program α} (hm : Safe libs mutations m) :
    Moves (Logs (Replaces libs mutations)) (orRefuseClaim s request leaseId m) := by
  apply (moves_logs (safe_adds (attempt_moves hm))).bind
  intro result
  cases result with
  | ok value => exact Moves.pure value
  | error error => exact refuseClaim_logs libs s request leaseId error

theorem finishClaimedSetup_logs {request : ApprovalRequest} {leaseId : Nat} {m : Program α}
    (hm : Safe libs mutations m) :
    Moves (Logs (Replaces libs mutations)) (finishClaimedSetup s request leaseId m) := by
  apply (moves_logs (safe_adds (attempt_moves hm))).bind
  intro result
  cases result with
  | ok value => exact Moves.pure value
  | error error =>
    have hclear : Moves (Logs (Replaces libs mutations)) (update fun c =>
        if c.active.any fun active => active.request.id = request.id then
          { c with active := none, hostMutations := none, identityPublication := none } else c) := by
      apply update_logs
      intro c
      split
      · exact .inr rfl
      · exact .inl rfl
    apply hclear.bind
    intro _
    apply (moves_logs (safe_adds (mapRefusal_moves (resolve_safe libs s)))).bind
    intro _
    exact moves_logs (safe_adds (fail_works _))

theorem openClaimed_logs (request : ApprovalRequest) (leaseId : Nat) (procedure : Option ProcedureStep) :
    Moves (Logs (Replaces libs mutations)) (openClaimed libs schema s request leaseId procedure) := by
  apply (finishClaimedSetup_logs libs s (planSet_works libs s _)).bind
  intro set
  apply (orRefuseClaim_logs libs s (details_works libs _ _ _)).bind
  intro dialog
  split
  · exact refuseClaim_logs libs s request leaseId _
  · split
    · exact refuseClaim_logs libs s request leaseId _
    · apply (moves_logs (safe_adds controller_works)).bind
      intro c
      apply (orRefuseClaim_logs libs s (check_works _)).bind
      intro expected
      split
      · exact Moves.bind (update_logs fun _ => .inl rfl) fun _ => Moves.pure _
      · apply (orRefuseClaim_logs libs s (answered_works s.preflight)).bind
        intro preflight
        exact Moves.bind (update_logs fun _ => .inl rfl) fun _ => Moves.pure _

theorem claimFirst_logs (procedures : BTreeMap String ProcedureStep) (requests : List ApprovalRequest) :
    Moves (Logs (Replaces libs mutations)) (Client.claimFirst s procedures requests) := by
  induction requests with
  | nil => exact Moves.pure none
  | cons request rest ih =>
    apply (moves_logs (safe_adds (ask_works libs s fun _ => trivial))).bind
    intro reply
    split
    · exact Moves.bind (moves_logs (note_adds trivial)) fun _ => Moves.pure _
    · exact ih
    · exact moves_logs (safe_adds (hindered_works _ _))
    · exact moves_logs (safe_adds (fail_works _))

theorem claimAndOpen_logs : Moves (Logs (Replaces libs mutations)) (claimAndOpen libs schema s) := by
  have hpoll : Moves (Logs (Replaces libs mutations)) (Client.pollAndClaimStep s) := by
    apply (moves_logs (safe_adds (ask_works libs s fun _ => trivial))).bind
    intro reply
    split
    · exact Moves.bind (fun w => Std.Refl.refl w) fun procedures => claimFirst_logs libs s procedures _
    · exact moves_logs (safe_adds (hindered_works _ _))
    · exact moves_logs (safe_adds (fail_works _))
  apply hpoll.bind
  intro claimed
  cases claimed with
  | none => exact Moves.pure none
  | some claimed =>
    obtain ⟨request, leaseId, procedure⟩ := claimed
    apply Moves.bind
    · cases procedure with
      | some step => exact Moves.pure _
      | none =>
        apply (moves_logs (safe_adds controller_works)).bind
        intro c
        exact Moves.bind (update_logs fun _ => .inl rfl) fun _ => Moves.pure _
    · intro procedure
      exact openClaimed_logs libs s request leaseId procedure

theorem claimNext_logs : Moves (Logs (Replaces libs mutations)) (claimNext libs schema s) := by
  refine Moves.bind (update_logs fun _ => .inr rfl) fun _ => ?_
  apply Moves.bind
  · apply (moves_logs (safe_adds controller_works)).bind
    intro c
    split
    · exact Moves.bind (update_logs fun _ => .inl rfl) fun _ => Moves.pure _
    · exact Moves.pure true
  · intro ready
    cases ready with
    | false => exact Moves.pure none
    | true => exact claimAndOpen_logs libs s

theorem renewActive_logs (active : ActiveApproval) :
    Moves (Logs (Replaces libs mutations)) (renewActive s active) := by
  apply (moves_logs (safe_adds (question_works _))).bind
  intro recent
  cases recent with
  | true => exact Moves.pure none
  | false =>
    apply (moves_logs (safe_adds (attempt_moves (renewFor_safe libs s)))).bind
    intro result
    cases result with
    | ok _ => exact Moves.pure none
    | error error => exact (moves_logs dropClaim_adds).bind fun _ => moves_logs (safe_adds (fail_works _))

theorem pollApprovalInner_logs : Moves (Logs (Replaces libs mutations)) (pollApprovalInner libs schema s) := by
  apply Moves.bind
  · apply (moves_logs (safe_adds (question_works _))).bind
    intro heard
    apply update_logs
    intro c
    split
    · exact .inl rfl
    · exact .inl rfl
  intro _
  apply (moves_logs (safe_adds controller_works)).bind
  intro c
  cases c.active with
  | none => exact claimNext_logs libs s
  | some active => exact renewActive_logs libs s active

theorem withProcedure_presents {m : Program (Option Tui.ApprovalRequest)} (h : Presents libs s id m w) :
    Presents libs s id (withProcedure m) w := by
  obtain ⟨hlog, hreview⟩ := h
  rcases hrun : m w with ⟨e | next, w'⟩
  · rw [hrun] at hlog hreview
    have hbind : withProcedure m w = (.error e, w') := run_bind_error hrun
    rw [← hbind] at hlog hreview
    refine ⟨hlog, ?_⟩
    rcases hreview with hreview | hreview | ⟨_, _, _, ha, _⟩
    · exact .inl hreview
    · exact .inr (.inl hreview)
    · rw [hbind] at ha
      cases ha
  · have hbind : withProcedure m w = (.ok (next.map fun dialog => { dialog with
        procedure := (w'.controller.active.filter (·.request.id = dialog.id)).bind (·.procedure) }), w') :=
      run_bind_ok hrun
    rw [hrun] at hlog hreview
    refine ⟨by rw [hbind]; exact hlog, ?_⟩
    rw [hbind]
    rcases hreview with hreview | hreview | ⟨a, shown, pending, ha, hshown, hpending, hshows⟩
    · exact .inl hreview
    · exact .inr (.inl hreview)
    · cases ha
      cases hshown
      exact .inr (.inr ⟨_, _, pending, rfl, rfl, hpending, ⟨hshows.id, hshows.token, hshows.lines, hshows.honest⟩⟩)

end

end NixSecrets.Manager
