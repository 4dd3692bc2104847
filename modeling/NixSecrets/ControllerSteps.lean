import NixSecrets.Controller

namespace NixSecrets.Manager

open Inventory Program

/-- What a part of an operation leaves in the log: writes of some kind, calls of some kind. -/
inductive Trace (libs : Libraries) (P : StoreOp → Prop) (C : Call → Prop) : Occurrence → Prop
  | hindered (write : Option StoreOp) (error : String) : Trace libs P C (.hindered write error)
  | wrote {call : StoreCall} {before after : StoreDocument} {reply : StoreReply} (hop : P call.op)
      (hact : call.act libs.toLibraries before = .ok (reply, after)) :
      Trace libs P C (.wrote call before after)
  | asked {call : Call} (hcall : C call) : Trace libs P C (.asked call)
  | renewed (broker : ApprovalBroker) {session : Nat} {id : String} {leaseId duration : Nat}
      (hcall : C (.renew session id leaseId duration)) :
      Trace libs P C (.renewed broker session id leaseId)

/-- A part of an operation that only leaves such occurrences: the claim, the review and the last
results stay. -/
structure Leaves (K : Occurrence → Prop) (w w' : World) : Prop where
  session : w'.session = w.session
  alive : w'.alive = w.alive
  controller : w'.controller = { w.controller with
    stalePublic := w'.controller.stalePublic, followupProcedures := w'.controller.followupProcedures }
  log : ∃ new, w'.log = w.log ++ new ∧ ∀ o ∈ new, K o

variable {K K' : Occurrence → Prop} {w w' w'' : World}

theorem Leaves.silent (hsession : w'.session = w.session) (halive : w'.alive = w.alive)
    (hcontroller : w'.controller = w.controller) (hlog : w'.log = w.log) : Leaves K w w' :=
  ⟨hsession, halive, by rw [hcontroller], [], by rw [hlog, List.append_nil], List.forall_mem_nil K⟩

theorem Leaves.one {o : Occurrence} (hsession : w'.session = w.session) (halive : w'.alive = w.alive)
    (hcontroller : w'.controller = w.controller) (hlog : w'.log = w.log ++ [o]) (ho : K o) : Leaves K w w' := by
  refine ⟨hsession, halive, by rw [hcontroller], [o], hlog, ?_⟩
  intro o' ho'
  rwa [List.mem_singleton.mp ho']

instance : Std.Refl (Leaves K) := ⟨fun _ => .silent rfl rfl rfl rfl⟩

instance : IsTrans World (Leaves K) := by
  constructor
  intro w w' w'' h h'
  obtain ⟨new, hnew, hK⟩ := h.log
  obtain ⟨new', hnew', hK'⟩ := h'.log
  refine ⟨h'.session.trans h.session, h'.alive.trans h.alive, ?_, new ++ new', ?_, ?_⟩
  · rw [h'.controller, h.controller]
  · rw [hnew', hnew, List.append_assoc]
  · intro o ho
    exact (List.mem_append.mp ho).elim (hK o) (hK' o)

theorem Leaves.imp (h : Leaves K w w') (hK : ∀ o, K o → K' o) : Leaves K' w w' := by
  obtain ⟨new, hnew, hall⟩ := h.log
  exact ⟨h.session, h.alive, h.controller, new, hnew, fun o ho => hK o (hall o ho)⟩

theorem Leaves.active (h : Leaves K w w') : w'.controller.active = w.controller.active := by
  rw [h.controller]

theorem Leaves.hostMutations (h : Leaves K w w') :
    w'.controller.hostMutations = w.controller.hostMutations := by
  rw [h.controller]

variable {libs : Libraries} {schema : Inventory.Schema} {s : Surroundings} {P : StoreOp → Prop} {C : Call → Prop}

/-- The program only makes writes and calls of these kinds, and keeps the claim and the review. -/
abbrev Works (libs : Libraries) (P : StoreOp → Prop) (C : Call → Prop) {α : Type} (m : Program α) : Prop :=
  Moves (Leaves (Trace libs P C)) m

section

variable {α β γ : Type}

theorem check_works (x : Checked String α) : Works libs P C (check x) := fun _ => Std.Refl.refl _

theorem fail_works (error : String) : Works libs P C (fail error : Program α) := check_works _

theorem controller_works : Works libs P C Program.controller := fun _ => Std.Refl.refl _

theorem question_works (answer : Nat → α) : Works libs P C (question answer) :=
  fun _ => .silent rfl rfl rfl rfl

theorem hindered_works (write : Option StoreOp) (error : String) :
    Works libs P C (hindered write error : Program α) :=
  fun _ => .one rfl rfl rfl rfl (.hindered write error)

theorem answered_works (answer : Nat → Except String α) : Works libs P C (Program.answered answer) := by
  apply (question_works answer).bind
  intro result
  cases result with
  | ok value => exact Moves.pure value
  | error error => exact hindered_works none error

theorem update_works {f : Controller → Controller} (h : ∀ c, f c = { c with
    stalePublic := (f c).stalePublic, followupProcedures := (f c).followupProcedures }) :
    Works libs P C (update f) :=
  fun w => ⟨rfl, rfl, h w.controller, [], (List.append_nil _).symm, List.forall_mem_nil _⟩

theorem check_refuseIf_pos {c : Prop} [Decidable c] {error : String} (h : c) :
    check (Checked.refuseIf c error) w = (.error (.refused error), w) := by
  rw [check, Checked.refuseIf, if_pos h]
  rfl

theorem check_refuseIf_neg {c : Prop} [Decidable c] {error : String} (h : ¬ c) :
    check (Checked.refuseIf c error) w = (.ok (), w) := by
  rw [check, Checked.refuseIf_of_not error h]

theorem attempt_eq_ok {m : Program α} {a : α} (h : attempt m w = (.ok (.ok a), w')) : m w = (.ok a, w') := by
  unfold attempt at h
  rcases hrun : m w with ⟨(e | _) | b, w''⟩
  · rw [hrun] at h
    cases h
  · rw [hrun] at h
    cases h
  · rw [hrun] at h
    cases h
    rfl

theorem attempt_eq_error {m : Program α} {error : String} (h : attempt m w = (.ok (.error error), w')) :
    m w = (.error (.refused error), w') := by
  unfold attempt at h
  rcases hrun : m w with ⟨(e | _) | b, w''⟩
  · rw [hrun] at h
    cases h
    rfl
  · rw [hrun] at h
    cases h
  · rw [hrun] at h
    cases h

/-- No error escapes an attempt. -/
theorem attempt_not_refused {m : Program α} {error : String} (h : attempt m w = (.error (.refused error), w')) :
    False := by
  unfold attempt at h
  rcases hrun : m w with ⟨(e | _) | b, w''⟩
  · rw [hrun] at h
    cases h
  · rw [hrun] at h
    cases h
  · rw [hrun] at h
    cases h

theorem attempt_state (m : Program α) (w : World) : (attempt m w).2 = (m w).2 := by
  unfold attempt
  rcases m w with ⟨(e | error) | a, w'⟩ <;> rfl

theorem mapRefusal_state (f : String → String) (m : Program α) (w : World) :
    (mapRefusal f m w).2 = (m w).2 := by
  unfold mapRefusal
  rcases m w with ⟨(e | error) | a, w'⟩ <;> rfl

theorem attempt_moves {R : World → World → Prop} {m : Program α} (h : Moves R m) : Moves R (attempt m) :=
  fun w => attempt_state m w ▸ h w

theorem mapRefusal_moves {R : World → World → Prop} {f : String → String} {m : Program α} (h : Moves R m) :
    Moves R (mapRefusal f m) :=
  fun w => mapRefusal_state f m w ▸ h w

section

variable {R : World → World → Prop} [Std.Refl R] [IsTrans World R]

theorem each_moves {body : β → Program Unit} {xs : List β} (h : ∀ x ∈ xs, Moves R (body x)) :
    Moves R (each body xs) := by
  induction xs with
  | nil => exact Moves.pure ()
  | cons x xs ih =>
    apply (h x List.mem_cons_self).bind
    intro _
    exact ih fun y hy => h y (List.mem_cons_of_mem x hy)

theorem collect_moves {body : β → Program γ} {xs : List β} (h : ∀ x ∈ xs, Moves R (body x)) :
    Moves R (collect body xs) := by
  induction xs with
  | nil => exact Moves.pure []
  | cons x xs ih =>
    apply (h x List.mem_cons_self).bind
    intro y
    apply (ih fun z hz => h z (List.mem_cons_of_mem x hz)).bind
    intro ys
    exact Moves.pure (y :: ys)

theorem carry_moves {body : γ → β → Program γ} {xs : List β} (h : ∀ c, ∀ x ∈ xs, Moves R (body c x)) (c : γ) :
    Moves R (carry body c xs) := by
  induction xs generalizing c with
  | nil => exact Moves.pure c
  | cons x xs ih =>
    apply (h c x List.mem_cons_self).bind
    intro c'
    exact ih (fun c'' y hy => h c'' y (List.mem_cons_of_mem x hy)) c'

end

end

section

variable (libs s)

theorem read_works {α : Type} (action : Inventory.Action α) : Works libs P C (Client.read libs s action) := by
  intro w
  have hw : Leaves (Trace libs P C) w { w with
      tick := w.tick + 1, document := writtenBy libs w.document (s.turn w.tick).writes } :=
    .silent rfl rfl rfl rfl
  unfold Client.read
  dsimp only
  cases (s.turn w.tick).failure with
  | some failure => exact IsTrans.trans _ _ _ hw (hindered_works (α := α) none failure.message _)
  | none =>
    dsimp only
    cases action (writtenBy libs w.document (s.turn w.tick).writes) with
    | ok result => exact hw
    | error stop => exact IsTrans.trans _ _ _ hw (hindered_works (α := α) none (storeStopText libs stop) _)

/-- A write that is acted on is one of the operation. -/
theorem act_ok {turn : Turn} {op : StoreOp} {document : StoreDocument} {call : StoreCall} {reply : StoreReply}
    {document' : StoreDocument} (h : Client.act libs turn op document = .ok (call, reply, document')) :
    call.op = op ∧ call.act libs.toLibraries document = .ok (reply, document') := by
  unfold Client.act at h
  cases hschema : turn.schema with
  | error error =>
    rw [hschema] at h
    cases h
  | ok schema =>
    rw [hschema] at h
    change ((StoreCall.act libs.toLibraries ⟨schema, op, []⟩ document).mapError (storeStopText libs) >>=
      fun result => pure ((⟨schema, op, []⟩ : StoreCall), result)) = .ok (call, reply, document') at h
    cases hact : StoreCall.act libs.toLibraries ⟨schema, op, []⟩ document with
    | error error =>
      rw [hact] at h
      cases h
    | ok result =>
      rw [hact] at h
      cases h
      exact ⟨rfl, hact⟩

theorem write_works {op : StoreOp} (hop : P op) : Works libs P C (Client.write libs s op) := by
  intro w
  have hw : Leaves (Trace libs P C) w { w with
      tick := w.tick + 1, document := writtenBy libs w.document (s.turn w.tick).writes } :=
    .silent rfl rfl rfl rfl
  unfold Client.write
  dsimp only
  cases hact : Client.act libs (s.turn w.tick) op (writtenBy libs w.document (s.turn w.tick).writes) with
  | error error =>
    cases (s.turn w.tick).failure with
    | some failure => exact IsTrans.trans _ _ _ hw (hindered_works (α := StoreReply) (some op) failure.message _)
    | none => exact IsTrans.trans _ _ _ hw (hindered_works (α := StoreReply) (some op) error _)
  | ok result =>
    obtain ⟨call, reply, document'⟩ := result
    obtain ⟨rfl, hdone⟩ := act_ok libs hact
    have hwrote : Leaves (Trace libs P C) w { w with
        tick := w.tick + 1, document := document'
        log := w.log ++ [.wrote call (writtenBy libs w.document (s.turn w.tick).writes) document'] } :=
      .one rfl rfl rfl rfl (.wrote hop hdone)
    cases (s.turn w.tick).failure with
    | none => exact hwrote
    | some failure =>
      dsimp only
      apply IsTrans.trans _ _ _ _ (hindered_works (α := StoreReply) (some call.op) failure.message _)
      split
      · exact hwrote
      · exact hw

theorem set_works {op : StoreOp} (hop : P op) : Works libs P C (Client.set libs s op) :=
  (write_works libs s hop).bind fun _ => Moves.pure ()

theorem quarantine_works {value : QuarantinedValue} (hop : ∀ random, P (.quarantine value random)) :
    Works libs P C (Client.quarantine libs s value) := by
  apply (question_works s.random).bind
  intro random
  apply (write_works libs s (hop random)).bind
  intro reply
  split
  · exact Moves.pure _
  · exact fail_works _

theorem ask_works {call : Nat → Call} (hcall : ∀ session, C (call session)) :
    Works libs P C (Client.ask s call) := by
  intro w
  unfold Client.ask
  dsimp only
  cases (s.turn w.tick).failure with
  | none => exact .one rfl rfl rfl rfl (.asked (hcall w.session))
  | some failure =>
    dsimp only
    apply IsTrans.trans _ _ _ _ (hindered_works (α := Reply) none failure.message _)
    exact .one rfl rfl rfl rfl (.asked (hcall w.session))

theorem resolve_works {id : String} {leaseId : Nat} {approved : Bool} {message : Option String}
    (hcall : ∀ session decision, C (.resolve session id leaseId decision message)) :
    Works libs P C (Client.resolve s id leaseId approved message) := by
  apply (ask_works libs s fun session => hcall session _).bind
  intro reply
  split
  · exact Moves.pure ()
  · exact hindered_works _ _
  · exact fail_works _

theorem renewFor_works {id : String} {leaseId leaseMs : Nat}
    (hcall : ∀ session, C (.renew session id leaseId (leaseMs * 10 ^ 6))) :
    Works libs P C (Client.renewFor s id leaseId leaseMs) := by
  apply (ask_works libs s hcall).bind
  intro reply
  split
  · exact fun w => .one rfl rfl rfl rfl (.renewed w.broker (hcall w.session))
  · exact hindered_works _ _
  · exact fail_works _

theorem submitApproval_works {request : ApprovalRequest} (hcall : C (.submit request none)) :
    Works libs P C (Client.submitApproval s request) := by
  apply (ask_works libs s fun _ => hcall).bind
  intro reply
  split
  · exact Moves.pure ()
  · exact hindered_works _ _
  · exact fail_works _

theorem planSet_works (identifiers : List String) : Works libs P C (planSet libs schema s identifiers) := by
  apply (read_works libs s SecretStore.list).bind
  intro entries
  apply (read_works libs s SecretStore.listPublicInfo).bind
  intro publicInfo
  apply (update_works fun _ => rfl).bind
  intro _
  apply (read_works libs s SecretStore.listQuarantine).bind
  intro _
  exact Moves.pure _

theorem stageGeneratedPublicKey_works (path : SecretPath) (kind : GeneratedSecretType) (publicKey : String)
    (batch : HostMutationBatch) :
    Works libs P C (stageGeneratedPublicKey libs s path kind publicKey batch) := by
  apply (check_works _).bind
  intro key
  apply (check_works _).bind
  intro _
  apply (check_works _).bind
  intro openssh
  cases kind with
  | localSshKey =>
    apply (read_works libs s (SecretStore.generatedPublicKey path)).bind
    intro previous
    split
    · exact Moves.pure _
    · exact Moves.pure _
  | storageBoxSshKey =>
    apply (read_works libs s (SecretStore.get path)).bind
    intro stored
    apply (check_works _).bind
    intro old
    split
    · exact Moves.pure _
    · exact Moves.pure _

theorem stageKey_works (sourceHost : String) (staging : Staging) (item : String × String) :
    Works libs P C (stageKey libs schema s sourceHost staging item) := by
  apply (check_works _).bind
  intro source
  apply (check_works _).bind
  intro _
  apply (check_works _).bind
  intro leaf
  cases leaf with
  | generated _ task =>
    apply (check_works _).bind
    intro dated
    apply (stageGeneratedPublicKey_works libs s source _ _ _).bind
    intro batch
    cases task.generatedSecret.registerAt with
    | none => exact Moves.pure _
    | some destination =>
      apply (check_works _).bind
      intro stamp
      exact Moves.pure _
  | stored _ _ => exact fail_works _
  | operator _ _ => exact fail_works _

theorem inventoryBytes_works (prefetched : Prefetched) (identifier : String)
    (stored : Inventory.EncryptedSecret) :
    Works libs P C (inventoryBytes s prefetched identifier stored) := by
  unfold inventoryBytes
  split
  · exact Moves.pure _
  · exact answered_works _

theorem inventoryLines_works (prefetched : Prefetched) (identifier : String)
    (current : Option Inventory.EncryptedSecret) :
    Works libs P C (inventoryLines s prefetched identifier current) := by
  cases current with
  | none => exact Moves.pure _
  | some stored =>
    apply (inventoryBytes_works libs s prefetched identifier stored).bind
    intro bytes
    apply (check_works _).bind
    intro text
    exact Moves.pure _

theorem stageInventory_works (sourceHost : String) (prefetched : Prefetched) (batch : HostMutationBatch)
    (item : String × List (String × String)) :
    Works libs P C (stageInventory libs schema s sourceHost prefetched batch item) := by
  apply (check_works _).bind
  intro path
  apply (check_works _).bind
  intro leaf
  cases leaf with
  | stored _ leaf =>
    apply (check_works _).bind
    intro _
    apply (read_works libs s (SecretStore.get path)).bind
    intro current
    apply (inventoryLines_works libs s prefetched item.1 current).bind
    intro lines
    dsimp only
    split
    · exact Moves.pure _
    · apply (answered_works _).bind
      intro encrypted
      exact check_works _
  | generated _ _ => exact fail_works _
  | operator _ _ => exact fail_works _

theorem stagePublicKeys_works (sourceHost : String) (keys : BTreeMap String String) (prefetched : Prefetched) :
    Works libs P C (stagePublicKeys libs schema s sourceHost keys prefetched) := by
  apply (check_works _).bind
  intro _
  apply (carry_moves (fun staging item _ => stageKey_works libs s sourceHost staging item) _).bind
  intro staging
  exact carry_moves (fun batch item _ => stageInventory_works libs s sourceHost prefetched batch item) _

theorem unchanged_works (mutation : HostMutation) : Works libs P C (unchanged libs s mutation) := by
  cases mutation with
  | generated path _ _ => exact (read_works libs s (SecretStore.generatedPublicKey path)).bind fun _ => Moves.pure _
  | attached path _ _ _ => exact (read_works libs s (SecretStore.get path)).bind fun _ => Moves.pure _
  | inventory path _ _ _ _ => exact (read_works libs s (SecretStore.get path)).bind fun _ => Moves.pure _
  | identity _ sharedId _ _ _ _ =>
    exact (read_works libs s (SecretStore.getPublicInfo sharedId)).bind fun _ => Moves.pure _

theorem readBack_works (mutation : HostMutation) : Works libs P C (readBack libs s mutation) := by
  cases mutation with
  | generated path _ _ => exact (read_works libs s (SecretStore.generatedPublicKey path)).bind fun _ => Moves.pure _
  | attached path _ _ _ => exact (read_works libs s (SecretStore.get path)).bind fun _ => Moves.pure _
  | inventory path _ _ _ _ => exact (read_works libs s (SecretStore.get path)).bind fun _ => Moves.pure _
  | identity _ sharedId _ _ _ _ =>
    exact (read_works libs s (SecretStore.getPublicInfo sharedId)).bind fun _ => Moves.pure _

theorem checkUnchanged_works (mutation : HostMutation) : Works libs P C (checkUnchanged libs s mutation) := by
  apply (unchanged_works libs s mutation).bind
  intro same
  cases same with
  | true => exact Moves.pure _
  | false => exact hindered_works _ _

theorem applyMutation_works {mutation : HostMutation} (hop : P mutation.op) :
    Works libs P C (applyMutation libs s mutation) := by
  apply (set_works libs s hop).bind
  intro _
  apply (readBack_works libs s mutation).bind
  intro same
  cases same with
  | true => exact Moves.pure _
  | false => exact hindered_works _ _

theorem applyMutations_works {mutations : List HostMutation} (hop : ∀ mutation ∈ mutations, P mutation.op)
    (changed : List String) : Works libs P C (applyMutations libs s changed mutations) := by
  induction mutations generalizing changed with
  | nil => exact Moves.pure _
  | cons mutation rest ih =>
    apply (attempt_moves (applyMutation_works libs s (hop mutation List.mem_cons_self))).bind
    intro result
    cases result with
    | ok more => exact ih (fun other h => hop other (List.mem_cons_of_mem mutation h)) _
    | error error => exact Moves.pure _

section

variable (hsubmit : ∀ request, C (.submit request none))

include hsubmit

theorem submitHostFollowups_works (followups : Followups) :
    Works libs P C (submitHostFollowups s followups) := by
  apply each_moves
  intro item _
  unfold submitHostFollowup
  split
  · exact Moves.pure ()
  · apply (answered_works s.random).bind
    intro token
    apply Moves.bind
    · apply update_works
      intro c
      cases c.active.bind (·.procedure) with
      | none => rfl
      | some step => rfl
    · intro _
      exact submitApproval_works libs s (hsubmit _)

theorem applyHostMutations_works {batch : HostMutationBatch} (hop : ∀ mutation ∈ batch.mutations, P mutation.op) :
    Works libs P C (applyHostMutations libs s batch) := by
  apply (attempt_moves (each_moves fun mutation _ => checkUnchanged_works libs s mutation)).bind
  intro checked
  cases checked with
  | error error =>
    apply (submitHostFollowups_works libs s hsubmit _).bind
    intro _
    exact fail_works _
  | ok _ =>
    apply (applyMutations_works libs s hop []).bind
    intro applied
    apply (submitHostFollowups_works libs s hsubmit _).bind
    intro _
    exact check_works _

end

theorem activeApproval_works : Works libs P C activeApproval :=
  controller_works.bind fun _ => check_works _

theorem details_works (request : ApprovalRequest) (state : Option Transport.TargetState) (set : BTreeSet String) :
    Works libs P C (details libs schema request state set) :=
  controller_works.bind fun _ => check_works _

theorem hostMutationReview_works (pending : PendingHostMutations) :
    Works libs P C (hostMutationReview libs schema s pending) := by
  apply (activeApproval_works libs).bind
  intro active
  apply (planSet_works libs s active.request.secrets).bind
  intro set
  apply (details_works libs active.request none set).bind
  intro review
  exact Moves.pure _

theorem deploymentDetailsAfterIdentity_works : Works libs P C (deploymentDetailsAfterIdentity libs schema s) := by
  apply (activeApproval_works libs).bind
  intro active
  apply (check_works _).bind
  intro state
  apply (planSet_works libs s active.request.secrets).bind
  intro set
  exact details_works libs active.request (some state) set

theorem anyReporter_works (identifiers : List String) : Works libs P C (anyReporter libs schema s identifiers) := by
  induction identifiers with
  | nil => exact Moves.pure false
  | cons identifier rest ih =>
    apply (check_works _).bind
    intro path
    split
    · apply (read_works libs s (SecretStore.generatedPublicKey path)).bind
      intro key
      split
      · exact Moves.pure true
      · exact ih
    · exact ih

theorem identityConsumer_works (source sharedId : String) (found : BTreeSet String × HostMutationBatch)
    (leaf : LeafSpec) : Works libs P C (identityConsumer libs schema s source sharedId found leaf) := by
  unfold identityConsumer
  split
  · split
    · apply Moves.bind
      · exact (check_works _).bind fun identifiers => anyReporter_works libs s identifiers
      · intro reporter
        cases reporter with
        | true => exact (check_works _).bind fun _ => Moves.pure _
        | false => exact Moves.pure _
    · exact Moves.pure _
  · exact Moves.pure _

theorem stageHostIdentity_works (source : String) (identity : HostKey.HostIdentity) :
    Works libs P C (stageHostIdentity libs schema s source identity) := by
  apply (check_works _).bind
  intro host
  cases host.metadata.deployment.publishHostIdentityTo with
  | none => exact Moves.pure _
  | some identifier =>
    apply (check_works _).bind
    intro _
    apply (check_works _).bind
    intro path
    apply (check_works _).bind
    intro spec
    apply (check_works _).bind
    intro leaf
    apply (check_works _).bind
    intro sharedId
    apply (check_works _).bind
    intro value
    apply (check_works _).bind
    intro port
    apply (read_works libs s (SecretStore.getPublicInfo sharedId)).bind
    intro previous
    apply (check_works _).bind
    intro problem
    cases problem with
    | none => exact Moves.pure _
    | some problem =>
      apply (carry_moves (fun found leaf _ => identityConsumer_works libs s source sharedId found leaf) _).bind
      intro found
      exact Moves.pure _

theorem publishedRecord_works (batch : HostMutationBatch) (sharedId : String) :
    Works libs P C (publishedRecord libs s batch sharedId) := by
  unfold publishedRecord
  split
  · exact Moves.pure _
  · exact (read_works libs s (SecretStore.getPublicInfo sharedId)).bind fun _ => check_works _

theorem verifyIdentityPublication_works (selected : List String) :
    Works libs P C (verifyIdentityPublication libs s selected) := by
  apply controller_works.bind
  intro c
  cases c.identityPublication with
  | none => exact Moves.pure ()
  | some publication =>
    apply (activeApproval_works libs).bind
    intro active
    apply (check_works _).bind
    intro _
    split
    · exact (read_works libs s (SecretStore.getPublicInfo publication.sharedId)).bind fun _ => check_works _
    · exact Moves.pure ()

theorem freshContribution_works : Works libs P C (freshContribution s) :=
  mapRefusal_moves (answered_works s.contribution)

theorem generateEntries_works (plan : UnsetPlan) : Works libs P C (generateEntries libs schema s plan) := by
  apply (collect_moves fun item _ => (freshContribution_works libs s).bind fun _ => Moves.pure _).bind
  intro own
  apply Moves.bind
  · apply collect_moves
    intro item _
    apply (check_works _).bind
    intro source
    exact (freshContribution_works libs s).bind fun _ => Moves.pure _
  · intro shared
    exact Moves.pure _

theorem decryptForDeployment_works (selection : Selection) (wanted : List String)
    (entries : BTreeMap String Inventory.EncryptedSecret) :
    Works libs P C (decryptForDeployment s selection wanted entries) := by
  apply (collect_moves fun identifier _ => (check_works _).bind fun _ => Moves.pure _).bind
  intro records
  split
  · exact Moves.pure _
  · exact (answered_works _).bind fun _ => Moves.pure _

section

variable (hinfo : ∀ path record, P (.setPublicInfoIfVersion path record none))

include hinfo

theorem materializePublicDefault_works (path : SecretPath) (leaf : Inventory.SecretLeaf) :
    Works libs P C (materializePublicDefault libs s path leaf) := by
  apply (check_works _).bind
  intro id
  apply (read_works libs s (SecretStore.getPublicInfo id)).bind
  intro stored
  cases stored with
  | some record => exact Moves.pure record
  | none =>
    apply (check_works _).bind
    intro record
    apply (check_works _).bind
    intro port
    apply (check_works _).bind
    intro _
    apply (attempt_moves (set_works libs s (hinfo path record))).bind
    intro written
    exact (read_works libs s (SecretStore.getPublicInfo id)).bind fun _ => check_works _

theorem materializeHostDefaults_works (requested hostDefaults : List String) :
    Works libs P C (materializeHostDefaults libs schema s requested hostDefaults) := by
  apply (check_works _).bind
  intro selected
  apply each_moves
  intro item _
  split
  · exact (materializePublicDefault_works libs s hinfo item.1 item.2).bind fun _ => Moves.pure ()
  · exact Moves.pure ()

theorem publicEntry_works (identifier : String) (path : SecretPath) (leaf : Inventory.SecretLeaf) :
    Works libs P C (publicEntry libs s identifier path leaf) := by
  apply (check_works _).bind
  intro id
  apply Moves.bind
  · apply controller_works.bind
    intro c
    split
    · exact Moves.pure _
    · exact materializePublicDefault_works libs s hinfo path leaf
  · intro record
    apply (check_works _).bind
    intro port
    apply (check_works _).bind
    intro _
    exact Moves.pure _

theorem buildLeaf_works (entries : BTreeMap String Inventory.EncryptedSecret)
    (plaintexts : BTreeMap String (List UInt8)) (items : Transport.BatchItems) (identifier : String) :
    Works libs P C (buildLeaf libs schema s entries plaintexts items identifier) := by
  apply (check_works _).bind
  intro path
  apply (check_works _).bind
  intro leaf
  cases leaf with
  | stored _ leaf =>
    dsimp only
    split
    · exact (publicEntry_works libs s hinfo identifier path leaf).bind fun _ => Moves.pure _
    · exact (check_works _).bind fun _ => Moves.pure _
  | generated _ task =>
    dsimp only
    split
    · exact (freshContribution_works libs s).bind fun _ => Moves.pure _
    · apply (check_works _).bind
      intro value
      exact (freshContribution_works libs s).bind fun _ => Moves.pure _
  | operator _ _ =>
    apply (check_works _).bind
    intro _
    exact fail_works _

theorem buildItem_works (selection : Selection) (entries : BTreeMap String Inventory.EncryptedSecret)
    (plaintexts : BTreeMap String (List UInt8)) (items : Transport.BatchItems) (identifier : String) :
    Works libs P C (buildItem libs schema s selection entries plaintexts items identifier) := by
  unfold buildItem
  split
  · exact Moves.pure _
  · split
    · exact (check_works _).bind fun _ => Moves.pure _
    · exact buildLeaf_works libs s hinfo entries plaintexts items identifier

theorem prepareBatch_works (active : ActiveApproval) : Works libs P C (prepareBatch libs schema s active) := by
  apply (planSet_works libs s active.request.secrets).bind
  intro set
  apply (read_works libs s SecretStore.list).bind
  intro entries
  apply controller_works.bind
  intro c
  apply (check_works _).bind
  intro plan
  apply (materializeHostDefaults_works libs s hinfo _ _).bind
  intro _
  apply (check_works _).bind
  intro selection
  apply (generateEntries_works libs s selection.plan).bind
  intro generate
  apply (decryptForDeployment_works libs s selection _ _).bind
  intro plaintexts
  apply (carry_moves (fun items identifier _ => buildItem_works libs s hinfo selection _ _ items identifier) _).bind
  intro items
  exact Moves.pure _

end

section

variable (hquarantine : ∀ value random, P (.quarantine value random))

include hquarantine

theorem quarantineValue_works (origin : Origin) (identifier reason : String) (content : QuarantinedContent)
    (fallback : String) : Works libs P C (quarantineValue libs s origin identifier reason content fallback) := by
  apply (question_works s.clock).bind
  intro now
  apply (attempt_moves (quarantine_works libs s (hquarantine _))).bind
  intro result
  cases result with
  | ok id => exact Moves.pure _
  | error error => exact Moves.pure _

theorem quarantineRejected_works (origin : Origin) (mutation : HostMutation) :
    Works libs P C (quarantineRejected libs s origin mutation) := by
  cases mutation with
  | generated path _ proposed =>
    exact (quarantineValue_works libs s hquarantine origin _ _ _ _).bind fun _ => Moves.pure _
  | attached path _ _ proposed =>
    exact (quarantineValue_works libs s hquarantine origin _ _ _ _).bind fun _ => Moves.pure _
  | inventory _ _ _ _ _ => exact Moves.pure none
  | identity _ _ _ _ _ _ => exact Moves.pure none

variable (hset : ∀ path envelope, P (.setIfVersion path envelope none))

include hset

theorem storeGenerated_works (origin : Origin) (records : StoredRecords) (item : String × GeneratedRecord) :
    Works libs P C (storeGenerated libs schema s origin records item) := by
  have haside : ∀ records reason, Works libs P C (setAside libs s origin item records reason) := by
    intro records reason
    exact (quarantineValue_works libs s hquarantine origin _ _ _ _).bind fun _ => Moves.pure _
  apply (attempt_moves (check_works _)).bind
  intro envelope
  cases envelope with
  | error error => exact haside _ _
  | ok envelope =>
    apply (attempt_moves (check_works _)).bind
    intro path
    cases path with
    | error error => exact haside _ _
    | ok path =>
      apply (attempt_moves (set_works libs s (hset path envelope))).bind
      intro stored
      cases stored with
      | ok _ => exact Moves.pure _
      | error error =>
        dsimp only
        split
        · exact haside _ _
        · exact haside _ _

theorem keepReturned_works (origin : Origin) (allowed : List String) (prefetched : Prefetched)
    (returned : Returned) : Works libs P C (keepReturned libs schema s origin allowed prefetched returned) := by
  have hkeys : ∀ reason (keys : List (String × String)), Works libs P C
      (collect (fun item => quarantinePublicKey libs s origin item.1 item.2 reason) keys) := by
    intro reason keys
    exact collect_moves fun item _ => quarantineValue_works libs s hquarantine origin _ _ _ _
  apply (collect_moves fun item _ => quarantineValue_works libs s hquarantine origin _ _ _ _).bind
  intro unrequested
  apply (carry_moves (fun records item _ => storeGenerated_works libs s hquarantine hset origin records item) _).bind
  intro records
  apply (hkeys _ _).bind
  intro unexpected
  apply Moves.bind
  · apply (attempt_moves (stagePublicKeys_works libs s origin.host _ prefetched)).bind
    intro staged
    cases staged with
    | ok batch => exact Moves.pure _
    | error error => exact (hkeys _ _).bind fun _ => Moves.pure _
  · intro staged
    exact Moves.pure _

end

theorem quarantinedBy_works (origin : Origin) : Works libs P C (quarantinedBy libs s origin) := by
  apply (attempt_moves (read_works libs s SecretStore.listQuarantine)).bind
  intro listed
  cases listed with
  | ok entries => exact Moves.pure _
  | error error => exact Moves.pure _

end

theorem activeApproval_none (h : w.controller.active = none) :
    activeApproval w = (.error (.refused "no claimed approval request"), w) := by
  change (Checked.orRefuse "no claimed approval request" w.controller.active, w) = _
  rw [h]
  rfl

theorem activeApproval_some {active : ActiveApproval} (h : w.controller.active = some active) :
    activeApproval w = (.ok active, w) := by
  change (Checked.orRefuse "no claimed approval request" w.controller.active, w) = _
  rw [h]
  rfl

/-- The review of the claimed request that waits for this token. -/
structure Awaits (w : World) (token : String) (active : ActiveApproval) (pending : PendingHostMutations) : Prop where
  claimed : w.controller.active = some active
  awaited : w.controller.hostMutations = some pending
  request : pending.requestId = active.request.id
  lease : pending.leaseId = active.leaseId
  shown : pending.token = token

/-- A decision is on the review that waits for its token, or it changes nothing. -/
theorem approveHostMutationsInner_run (libs : Libraries) (schema : Inventory.Schema) (s : Surroundings)
    (accepted : Bool) (token : String) (w : World) :
    (∃ active pending, Awaits w token active pending ∧
      approveHostMutationsInner libs schema s accepted token w =
        decideReview libs schema s accepted active pending w) ∨
    (¬ ∃ active pending, Awaits w token active pending) ∧
      ∃ error, approveHostMutationsInner libs schema s accepted token w = (.error (.refused error), w) := by
  cases hactive : w.controller.active with
  | none =>
    refine .inr ⟨?_, _, run_bind_error (activeApproval_none hactive)⟩
    rintro ⟨active, pending, h⟩
    rw [h.claimed] at hactive
    cases hactive
  | some active =>
    have hrun : Program.controller w = (.ok w.controller, w) := rfl
    rw [approveHostMutationsInner, run_bind_ok (activeApproval_some hactive), run_bind_ok hrun]
    cases hpending : w.controller.hostMutations with
    | none =>
      refine .inr ⟨?_, _, rfl⟩
      rintro ⟨active, pending, h⟩
      rw [h.awaited] at hpending
      cases hpending
    | some pending =>
      have hfound : check (Checked.orRefuse "no host-provided changes awaiting approval" (some pending)) w =
          (.ok pending, w) := rfl
      rw [run_bind_ok hfound]
      have hother : ¬ (pending.requestId = active.request.id ∧ pending.leaseId = active.leaseId ∧
          pending.token = token) → ¬ ∃ active pending, Awaits w token active pending := by
        rintro hne ⟨active', pending', h⟩
        cases hactive.symm.trans h.claimed
        cases hpending.symm.trans h.awaited
        exact hne ⟨h.request, h.lease, h.shown⟩
      by_cases hclaim : pending.requestId ≠ active.request.id ∨ pending.leaseId ≠ active.leaseId
      · refine .inr ⟨hother ?_, _, run_bind_error (check_refuseIf_pos hclaim)⟩
        rintro ⟨hid, hlease, _⟩
        exact hclaim.elim (fun hne => hne hid) fun hne => hne hlease
      rw [run_bind_ok (check_refuseIf_neg hclaim)]
      by_cases htoken : token ≠ pending.token
      · refine .inr ⟨hother ?_, _, run_bind_error (check_refuseIf_pos htoken)⟩
        rintro ⟨_, _, heq⟩
        exact htoken heq.symm
      rw [run_bind_ok (check_refuseIf_neg htoken)]
      obtain ⟨hid, hlease⟩ := not_or.mp hclaim
      exact .inl ⟨active, pending,
        ⟨hactive, hpending, Classical.not_not.mp hid, Classical.not_not.mp hlease, (Classical.not_not.mp htoken).symm⟩,
        rfl⟩

end NixSecrets.Manager
