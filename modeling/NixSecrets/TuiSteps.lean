import NixSecrets.TuiInput

namespace NixSecrets.Tui

namespace Model

variable {C L : String → Prop} {S : SecretPrompt → Prop}

/-- Opening what waits leaves the dialog of a procedure alone, or covers it. -/
theorem showPendingApproval_mode (m : Model) (h : m.showPendingApproval.mode = .browse) : m.mode = .browse := by
  unfold showPendingApproval at h
  dsimp only at h
  split at h
  next => cases h
  next => cases h
  next hmode _ _ => exact hmode
  next => exact h

theorem showPendingApproval_same (m : Model) : m.showPendingApproval.procedures = m.tidyProcedures.procedures ∧
    m.showPendingApproval.foreground = m.tidyProcedures.foreground := by
  unfold showPendingApproval
  dsimp only
  split
  next => exact ⟨rfl, rfl⟩
  next => exact ⟨rfl, rfl⟩
  next =>
    split
    next => exact ⟨rfl, rfl⟩
    next => exact ⟨rfl, rfl⟩
  next => exact ⟨rfl, rfl⟩

/-- What a notice that goes away uncovers was there before. -/
theorem acknowledge_between {m : Model} (hm : m.Inv) {p : Procedure} (h : m.acknowledge.betweenShown = some p) :
    m.betweenShown = some p := by
  obtain ⟨hmode, hforeground, hp, hsee, hprompts, hbetween⟩ := betweenShown_some h
  have hmode : m.mode = .browse := showPendingApproval_mode
    { m with message := m.notifications.head?, notifications := m.notifications.tail } hmode
  have hsame := showPendingApproval_same
    { m with message := m.notifications.head?, notifications := m.notifications.tail }
  have hforeground : m.foreground = some p.id := by
    unfold acknowledge at hforeground
    rw [hsame.2] at hforeground
    exact (tidyProcedures_foreground.mp hforeground).1
  have hmem : p ∈ m.procedures := by
    have hmem := (procedure_some hp).1
    unfold acknowledge at hmem
    rw [hsame.1] at hmem
    exact (tidyProcedures_mem.mp hmem).1
  unfold betweenShown
  simp [hmode, Mode.isBrowse, hforeground, procedure_mem hm.nodup hmem, hsee, hprompts, hbetween]

theorem acknowledge_shown {m : Model} (hm : m.Inv) (h : m.shownPrompt = none) :
    m.acknowledge.shownPrompt = none := by
  cases hshown : m.acknowledge.shownPrompt with
  | none => rfl
  | some prompt =>
    obtain ⟨p, hp, hforeground, hsee, hprompt⟩ := shownPrompt_some hshown
    have hsame := showPendingApproval_same
      { m with message := m.notifications.head?, notifications := m.notifications.tail }
    unfold acknowledge at hp hforeground
    rw [hsame.1] at hp
    rw [hsame.2] at hforeground
    have hbefore := shownPrompt_eq hm.nodup (tidyProcedures_mem.mp hp).1
      (tidyProcedures_foreground.mp hforeground).1 hsee
    rw [h, hprompt] at hbefore
    cases hbefore

theorem noticeInput_cases (m : Model) (severity : NoticeSeverity) (event : UiEvent) :
    (m.noticeInput severity event).2 = m ∧ (m.noticeInput severity event).1 = false ∨
    (m.noticeInput severity event).2 = m.acknowledge ∧ ((m.noticeInput severity event).1 = true →
      ∀ request, m.acknowledge.mode ≠ .approval request) := by
  have hpasses (b : Bool) (h : (b && passesThrough m.acknowledge.mode) = true) (request : ApprovalRequest) :
      m.acknowledge.mode ≠ .approval request := by
    intro hmode
    rw [hmode] at h
    simp [passesThrough] at h
  have hpaste (b : Bool) (h : (b && takesPaste m.acknowledge.mode) = true) (request : ApprovalRequest) :
      m.acknowledge.mode ≠ .approval request := by
    intro hmode
    rw [hmode] at h
    simp [takesPaste] at h
  unfold noticeInput
  split
  next => exact Or.inl ⟨rfl, rfl⟩
  next => exact Or.inr ⟨rfl, nofun⟩
  next => exact Or.inr ⟨rfl, nofun⟩
  next => exact Or.inl ⟨rfl, rfl⟩
  next => exact Or.inr ⟨rfl, nofun⟩
  next => exact Or.inr ⟨rfl, nofun⟩
  next => exact Or.inr ⟨rfl, hpaste _⟩
  next => exact Or.inr ⟨rfl, hpasses _⟩

theorem Evolves.reduce {m : Model} {event : UiEvent} (h : KeyScope C L S m event) (answers : Answers) :
    Evolves C L S m (m.reduce event answers) := by
  apply Evolves.ofInv
  intro hm
  unfold Model.reduce
  split
  next m' hinput => exact Evolves.intercept h hinput
  next hnone =>
    have hprompt : m.shownPrompt = none := by
      unfold Model.intercept at hnone
      split at hnone
      next hprompt => exact hprompt
      next => cases hnone
    split
    next => exact Evolves.refl m
    next request => exact Evolves.offerApproval m request (h.offers request rfl).1 (h.offers request rfl).2
    next hnotHover hnotOffer =>
      split
      next => exact Evolves.act h answers
      next notice _ =>
        have hcases := noticeInput_cases m notice.severity event
        split
        next m' hresult =>
          rw [hresult] at hcases
          rcases hcases with ⟨hsame, -⟩ | ⟨hsame, -⟩
          · have hsame : m' = m := hsame
            rw [hsame]
            exact Evolves.refl m
          · have hsame : m' = m.acknowledge := hsame
            rw [hsame]
            exact Evolves.acknowledge m
        next m' hresult =>
          rw [hresult] at hcases
          rcases hcases with ⟨-, hfalse⟩ | ⟨hsame, hmode⟩
          · cases hfalse
          · have hsame : m' = m.acknowledge := hsame
            rw [hsame]
            have hscope : KeyScope C L S m.acknowledge event := by
              refine ⟨?_, ?_, ?_, ?_, ?_, h.prompts⟩
              · rintro id ⟨-, -, request, hrequest, -⟩
                exact absurd hrequest (hmode rfl request)
              · exact fun request hrequest => absurd hrequest (hnotOffer request)
              · intro id _ hsome
                rw [acknowledge_shown hm hprompt] at hsome
                cases hsome
              · exact fun _ request hrequest => absurd hrequest (hmode rfl request)
              · exact fun henters p hp => h.dismisses henters p (acknowledge_between hm hp)
            refine (Evolves.acknowledge m).trans ?_
            cases hinput : m.acknowledge.intercept event answers with
            | none => exact Evolves.act hscope answers
            | some m'' => exact Evolves.intercept hscope hinput

theorem closeApproval_same (m : Model) :
    m.closeApproval.procedures = m.procedures ∧ m.closeApproval.foreground = m.foreground := by
  unfold closeApproval
  split
  next => exact ⟨rfl, rfl⟩
  next => exact ⟨rfl, rfl⟩

theorem Evolves.closeApproval (m : Model) : Evolves C L S m m.closeApproval :=
  Evolves.aside (closeApproval_same m).1 (closeApproval_same m).2

theorem outcomeCloses_same (m : Model) (completion : Completion Report) :
    (m.outcomeCloses completion).procedures = m.procedures ∧
      (m.outcomeCloses completion).foreground = m.foreground := by
  unfold outcomeCloses
  split
  next => exact ⟨rfl, rfl⟩
  next => exact closeApproval_same m
  next => exact closeApproval_same m

/-- What a completion may create, take away or take off the screen. -/
structure CompletionScope (C L : String → Prop) (S : SecretPrompt → Prop) (m : Model)
    (completion : Completion Report) : Prop where
  offers : ∀ request, completion = .approvalDone (some (.approval request)) →
    ((∀ p ∈ m.procedures, p.id ≠ approvalProcedure request) → C (approvalProcedure request)) ∧
      L (approvalProcedure request)
  settles : ∀ request text, m.procedureOutcome completion = some (request, .ok text) →
    ∀ id, m.Outdates request id → L id
  removes : ∀ request error, m.procedureOutcome completion = some (request, .error error) →
    ∀ prompt, prompt.id = request → S prompt

theorem Evolves.openDialog (m : Model) (dialog : Dialog) (asking : List Dialog) :
    Evolves C L S m (m.openDialog dialog asking) := by
  unfold Model.openDialog
  split
  next => exact Evolves.aside rfl rfl
  next =>
    split
    next => exact Evolves.aside rfl rfl
    next => exact Evolves.refl m
  next => exact Evolves.refl m

theorem Evolves.noticeCompletion (m : Model) (completion : Completion Report)
    (hoffers : ∀ request, completion = .approvalDone (some (.approval request)) →
      ((∀ p ∈ m.procedures, p.id ≠ approvalProcedure request) → C (approvalProcedure request)) ∧
        L (approvalProcedure request))
    (hremoves : ∀ kind id requester error, completion = .requestFinished kind id requester (.error error) →
      ∀ prompt, prompt.id = id → S prompt) : Evolves C L S m (m.noticeCompletion completion) := by
  have hclosed := Evolves.closeApproval (C := C) (L := L) (S := S) m
  have hnotice (text : String) (severity : NoticeSeverity) : Evolves C L S m
      (m.closeApproval.pushNotice text severity) := hclosed.trans (Evolves.pushNotice _ text severity)
  unfold Model.noticeCompletion
  split
  next => exact Evolves.pushNotice m _ .info
  next =>
    split
    next => exact Evolves.aside rfl rfl
    next => exact Evolves.aside rfl rfl
  next => exact Evolves.pushNotice m _ .failure
  next =>
    dsimp only
    have hdone : Evolves C L S m (if m.mode.isBulkProgress then { m with mode := .browse } else m) := by
      split
      next => exact Evolves.aside rfl rfl
      next => exact Evolves.refl m
    refine hdone.trans ?_
    generalize (if m.mode.isBulkProgress then { m with mode := .browse } else m) = m₁
    split
    next => exact Evolves.pushNotice m₁ _ .info
    next => exact Evolves.pushNotice m₁ _ .failure
  next =>
    split
    next => exact Evolves.aside rfl rfl
    next => exact Evolves.refl m
  next id => exact Evolves.finishApproval m id
  next request =>
    refine hclosed.trans (Evolves.offerApproval _ request ?_ (hoffers request rfl).2)
    rw [(closeApproval_same m).1]
    exact (hoffers request rfl).1
  next => exact hnotice _ .info
  next => exact hnotice _ .info
  next =>
    split
    next => exact hnotice _ .failure
    next => exact hnotice _ .info
  next => exact hclosed
  next message =>
    have hcleared : Evolves C L S m.closeApproval { m.closeApproval with pendingApprovals := [] } :=
      Evolves.aside rfl rfl
    exact (hclosed.trans hcleared).trans (Evolves.pushNotice _ message .failure)
  next => exact Evolves.pushNotice m _ .failure
  next dialog asking => exact Evolves.openDialog m dialog asking
  next text => exact Evolves.pushNotice m text .info
  next => exact Evolves.refl m
  next kind id requester result =>
    split
    next => exact Evolves.pushNotice m _ .info
    next => exact Evolves.pushNotice m _ .info
    next => exact Evolves.pushNotice m _ .info
    next => exact Evolves.pushNotice m _ .info
    all_goals
      refine (Evolves.removePrompt m id ?_).trans (Evolves.pushNotice _ _ .failure)
      exact hremoves _ _ _ _ rfl

theorem Evolves.applyCompletion {m : Model} {completion : Completion Report}
    (h : CompletionScope C L S m completion) (now : Nat) :
    Evolves C L S m (m.applyCompletion now completion) := by
  unfold Model.applyCompletion
  split
  next hnone =>
    refine Evolves.trans (Evolves.noticeCompletion m completion h.offers ?_) (Evolves.showPendingApproval _)
    rintro kind id requester error rfl
    cases hnone
  next request outcome houtcome =>
    dsimp only
    have hsame := outcomeCloses_same m completion
    have hcloses : Evolves C L S m (m.outcomeCloses completion) := Evolves.aside hsame.1 hsame.2
    have hnotOffered : ∀ request, completion ≠ .approvalDone (some (.approval request)) := by
      rintro request rfl
      cases houtcome
    have hnotice (m₂ : Model) (hm₂ : Evolves C L S m m₂)
        (hs : ∀ error, outcome = .error error → ∀ prompt, prompt.id = request → S prompt) :
        Evolves C L S m (m₂.noticeCompletion completion).showPendingApproval := by
      refine hm₂.trans (Evolves.trans (Evolves.noticeCompletion m₂ completion ?_ ?_)
        (Evolves.showPendingApproval _))
      · exact fun request hrequest => absurd hrequest (hnotOffered request)
      · rintro kind id requester error rfl prompt hprompt
        simp only [procedureOutcome, Option.some.injEq, Prod.mk.injEq] at houtcome
        exact hs error houtcome.2.symm prompt (hprompt.trans houtcome.1)
    cases outcome with
    | ok text =>
      have hsettles : ∀ text', (.ok text : Except String (Option String)) = .ok text' →
          ∀ id, (m.outcomeCloses completion).Outdates request id → L id := by
        rintro _ _ id ⟨p, hp, hrest⟩
        rw [hsame.1] at hp
        exact h.settles request text houtcome id ⟨p, hp, hrest⟩
      have hstep := hcloses.trans (Evolves.stepFinished (C := C) (S := S) _ now request (.ok text) hsettles)
      dsimp only
      split
      next m₃ hresult =>
        rw [hresult] at hstep
        exact hstep.trans (Evolves.showPendingApproval _)
      next m₃ hresult =>
        rw [hresult] at hstep
        exact hnotice m₃ hstep nofun
    | error error =>
      have hs := h.removes request error houtcome
      have hstep := (hcloses.trans (Evolves.removePrompt _ request hs)).trans
        (Evolves.stepFinished (C := C) (S := S) _ now request (.error error) nofun)
      dsimp only
      split
      next m₃ hresult =>
        rw [hresult] at hstep
        exact hstep.trans (Evolves.showPendingApproval _)
      next m₃ hresult =>
        rw [hresult] at hstep
        exact hnotice m₃ hstep fun _ _ => hs

end Model

namespace Ui

/-- The procedures that a step brings news of. -/
def brings (u : Ui) : UiAct → String → Prop
  | .procedureEvent, id => ∃ step, u.writer.procedureEvents.head? = some (.step step) ∧ step.id = id
  | .secretPrompt, id => ∃ prompt, u.writer.secretPrompts.head? = some prompt ∧ promptProcedure prompt = id
  | .completion _ completion, id => ∃ request, completion = .approvalDone (some (.approval request)) ∧
      approvalProcedure request = id
  | .approval request, id => approvalProcedure request = id
  | .key event _, id => u.model.Unowned id ∨ ∃ request, event = .approval request ∧ approvalProcedure request = id
  | _, _ => False

/-- The procedures that a step may create. -/
def creates (u : Ui) (act : UiAct) (id : String) : Prop :=
  (∀ p ∈ u.model.procedures, p.id ≠ id) ∧ u.brings act id

/-- The procedures of which a step may take a waiting result away. -/
def loses (u : Ui) : UiAct → String → Prop
  | .procedureEvent, id => ∃ step, u.writer.procedureEvents.head? = some (.step step) ∧ step.id = id ∧
      u.model.Rewarns step
  | .secretPrompt, id => ∃ prompt, u.writer.secretPrompts.head? = some prompt ∧ promptProcedure prompt = id
  | .completion _ completion, id =>
      (∃ request, completion = .approvalDone (some (.approval request)) ∧ approvalProcedure request = id) ∨
      ∃ request text, u.model.procedureOutcome completion = some (request, .ok text) ∧
        u.model.Outdates request id
  | .approval request, id => approvalProcedure request = id
  | .key event _, id => (∃ request, event = .approval request ∧ approvalProcedure request = id) ∨
      (u.model.shownPrompt.isSome = true ∧ u.model.foreground = some id) ∨
      event.decides = true ∧ ∃ request step, u.model.mode = .approval request ∧
        request.procedure = some step ∧ step.id = id
  | _, _ => False

/-- The operator closes the result of this procedure, which is on screen. -/
def acknowledges (u : Ui) : UiAct → String → Prop
  | .key event _, id => event.enters = true ∧ ∃ p, u.model.betweenShown = some p ∧ p.id = id
  | _, _ => False

/-- The prompts that go away by themselves, or that the operator may answer. -/
def goes (u : Ui) : UiAct → SecretPrompt → Prop
  | .procedureEvent, prompt => u.writer.procedureEvents.head? = some (.withdrawn prompt.id) ∨
      u.writer.procedureEvents.head? = some .disconnected
  | .endTick now _, prompt => ∃ p ∈ u.model.procedures, ∃ expired ∈ p.prompts,
      expired.deadline.any (· ≤ now) = true ∧ prompt.id = expired.id
  | .completion _ completion, prompt => ∃ error, u.model.procedureOutcome completion =
      some (prompt.id, .error error)
  | .key _ _, _ => True
  | _, _ => False

/-- What one step of the UI can do to the procedures. -/
theorem step_evolves (u : Ui) (act : UiAct) : Model.Evolves (u.creates act)
    (fun id => u.loses act id ∨ u.acknowledges act id) (u.goes act) u.model (u.step act).model := by
  cases act with
  | hear event => exact Model.Evolves.refl _
  | procedureEvent =>
    simp only [step]
    split
    next => exact Model.Evolves.refl _
    next event events hevents =>
      have hhead : u.writer.procedureEvents.head? = some event := by
        rw [hevents]
        rfl
      cases event with
      | step step =>
        apply Model.Evolves.procedureStep
        · exact fun hnew => ⟨hnew, step, hhead, rfl⟩
        · exact fun hrewarns => Or.inl ⟨step, hhead, rfl, hrewarns⟩
      | ended id exitCode => exact Model.Evolves.procedureEnded _ id exitCode
      | withdrawn id =>
        refine Model.Evolves.promptMissed u.model id .failed "withdrawn: its requester left" nofun ?_
        rintro prompt rfl
        exact Or.inl hhead
      | disconnected => exact Model.Evolves.connectionLost _ fun _ => Or.inr hhead
      | reconnected => exact Model.Evolves.pushNotice _ _ .info
      | synced live => exact Model.Evolves.proceduresSynced _ live
  | secretPrompt =>
    simp only [step]
    split
    next => exact Model.Evolves.refl _
    next prompt prompts hprompts =>
      have hhead : u.writer.secretPrompts.head? = some prompt := by
        rw [hprompts]
        rfl
      apply Model.Evolves.offerPrompt
      · exact fun hnew => ⟨hnew, prompt, hhead, rfl⟩
      · exact Or.inl ⟨prompt, hhead, rfl⟩
  | endTick now changed =>
    have hexpire := Model.Evolves.expirePrompts (C := u.creates (.endTick now changed))
      (L := fun id => u.loses (.endTick now changed) id ∨ u.acknowledges (.endTick now changed) id)
      (S := u.goes (.endTick now changed)) u.model now fun _ h => h
    simp only [step]
    split
    next => exact hexpire.trans (Model.Evolves.showPendingApproval _)
    next => exact hexpire
  | completion now completion =>
    apply Model.Evolves.applyCompletion
    refine ⟨?_, ?_, ?_⟩
    · exact fun request hrequest => ⟨fun hnew => ⟨hnew, request, hrequest, rfl⟩,
        Or.inl (Or.inl ⟨request, hrequest, rfl⟩)⟩
    · exact fun request text houtcome id hid => Or.inl (Or.inr ⟨request, text, houtcome, hid⟩)
    · rintro request error houtcome prompt rfl
      exact ⟨error, houtcome⟩
  | approval request => exact Model.Evolves.offerApproval _ request (fun hnew => ⟨hnew, rfl⟩) (Or.inl rfl)
  | key event answers =>
    refine Model.Evolves.trans (Model.Evolves.reduce ?_ answers) (Model.Evolves.showPendingApproval _)
    refine ⟨?_, ?_, ?_, ?_, ?_, fun _ => trivial⟩
    · exact fun id hid => ⟨hid.2.1, Or.inl hid⟩
    · exact fun request hrequest => ⟨fun hnew => ⟨hnew, Or.inr ⟨request, hrequest, rfl⟩⟩,
        Or.inl (Or.inl ⟨request, hrequest, rfl⟩)⟩
    · exact fun id hforeground hshown => Or.inl (Or.inr (Or.inl ⟨hshown, hforeground⟩))
    · exact fun hdecides request hmode step hstep =>
        Or.inl (Or.inr (Or.inr ⟨hdecides, request, step, hmode, hstep, rfl⟩))
    · exact fun henters p hp _ => Or.inr ⟨henters, p, hp, rfl⟩

theorem start_inv (onePassword : Bool) : (start onePassword).model.Inv := by
  refine ⟨List.nodup_nil, ?_, ?_⟩
  · intro id hid
    exact absurd hid (Option.some_ne_none id).symm
  · intro p hp
    exact absurd hp List.not_mem_nil

/-- The invariant holds after every run. -/
theorem run_inv {u : Ui} (h : u.model.Inv) (acts : List UiAct) : (u.run acts).model.Inv := by
  induction acts generalizing u with
  | nil => exact h
  | cons act acts ih => exact ih ((step_evolves u act).inv h)

/-- What holds of every act of a run, in the state in which it is done. -/
def Along (P : Ui → UiAct → Prop) (u : Ui) (acts : List UiAct) : Prop :=
  ∀ before act after, acts = before ++ act :: after → P (u.run before) act

theorem along_nil {P : Ui → UiAct → Prop} {u : Ui} : u.Along P [] := by
  intro before act after hnil
  simp at hnil

theorem along_cons_iff {P : Ui → UiAct → Prop} {u : Ui} {act : UiAct} {acts : List UiAct} :
    u.Along P (act :: acts) ↔ P u act ∧ (u.step act).Along P acts := by
  constructor
  · intro h
    refine ⟨h [] act acts rfl, ?_⟩
    intro before next after hacts
    exact h (act :: before) next after (by rw [hacts, List.cons_append])
  · rintro ⟨hfirst, hrest⟩ before next after hacts
    cases before with
    | nil =>
      obtain ⟨rfl, rfl⟩ := List.cons.inj hacts
      exact hfirst
    | cons first before =>
      obtain ⟨hact, htail⟩ := List.cons.inj hacts
      subst hact
      exact hrest before next after htail

end Ui

end NixSecrets.Tui
