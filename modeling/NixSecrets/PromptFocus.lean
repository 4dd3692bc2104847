import NixSecrets.TuiQuiet

namespace NixSecrets.Tui

namespace Model

/-- A dialog is open, and it is not the deployment dialog of this procedure. -/
def otherDialog (m : Model) (id : String) : Bool := !m.mode.isBrowse && !m.mode.isApprovalOf id

theorem inForeground_iff {m : Model} (hm : m.Inv) {id : String} :
    m.inForeground id = true ↔ m.foreground = some id := by
  constructor
  · intro hin
    unfold inForeground at hin
    simp only [Bool.and_eq_true, decide_eq_true_eq] at hin
    exact hin.1
  · intro hforeground
    obtain ⟨p, hp, rfl, -⟩ := hm.onScreen id hforeground
    exact (inForeground_of hm hp hforeground).1

theorem asked_same (prompt : SecretPrompt) (p : Procedure) : (p.asked prompt).minimised = p.minimised ∧
    (p.asked prompt).prompts = p.prompts ++ [prompt] := by
  unfold Procedure.asked
  split
  next => exact ⟨rfl, rfl⟩
  next => exact ⟨rfl, rfl⟩

/-- A procedure that is not in the foreground does not decide what is shown. -/
theorem shownPrompt_update {m : Model} {id : String} {f : Procedure → Procedure} (hf : ∀ p, (f p).id = p.id)
    (hforeground : m.foreground ≠ some id) : (m.update id f).shownPrompt = m.shownPrompt := by
  unfold shownPrompt
  show m.foreground.bind _ = m.foreground.bind _
  cases hid : m.foreground with
  | none => rfl
  | some other =>
    have hother : other ≠ id := by
      intro hsame
      exact hforeground (hsame ▸ hid)
    have hsame : (m.update id f).procedure other = m.procedure other := by
      unfold procedure update
      rw [List.find?_map]
      have hkey : (fun p : Procedure => Decidable.decide (p.id = other)) ∘ (fun p => if p.id = id then f p else p) =
          fun p => Decidable.decide (p.id = other) := by
        funext p
        simp only [Function.comp]
        split
        next => rw [hf p]
        next => rfl
      rw [hkey]
      cases hfind : m.procedures.find? fun p => Decidable.decide (p.id = other) with
      | none => rfl
      | some p =>
        have hpid : p.id = other := by simpa using List.find?_some hfind
        simp [hpid, hother]
    simp only [Option.bind_some, hsame]

theorem update_of_mem {m : Model} {id : String} {f : Procedure → Procedure} {p : Procedure}
    (hp : p ∈ m.procedures) (hid : p.id = id) : f p ∈ (m.update id f).procedures := by
  have hmem : (if p.id = id then f p else p) ∈ (m.update id f).procedures := update_mem hp
  rw [if_pos hid] at hmem
  exact hmem

/-- The places where a prompt that arrives can go: to the task bar, behind the prompt of its procedure that is
on screen, or on screen. -/
inductive Placed (m m' : Model) (prompt : SecretPrompt) : Prop
  | minimised (elsewhere : m.foreground ≠ some (promptProcedure prompt))
      (shown : m'.shownPrompt = m.shownPrompt)
      (kept : ∃ p ∈ m'.procedures, p.id = promptProcedure prompt ∧ prompt ∈ p.prompts ∧ p.minimised = true)
  | behind (own : m.foreground = some (promptProcedure prompt)) (busy : m.shownPrompt.isSome = true)
      (shown : m'.shownPrompt = m.shownPrompt)
      (kept : ∃ p ∈ m'.procedures, p.id = promptProcedure prompt ∧ prompt ∈ p.prompts)
  | onScreen (idle : m.shownPrompt = none) (shown : m'.shownPrompt = some prompt)
      (free : m.foreground = some (promptProcedure prompt) ∨ m.mode.isBrowse = true)

section

variable {m : Model} {prompt : SecretPrompt} {p : Procedure}

/-- A prompt of the procedure in the foreground stays there. -/
theorem placed_own (hm : m.Inv) (hp : p ∈ m.procedures) (hid : p.id = promptProcedure prompt)
    (hforeground : m.foreground = some p.id) :
    Placed m (m.update p.id (·.asked prompt)) prompt ∧
      (m.update p.id (·.asked prompt)).arrive p.id = m.update p.id (·.asked prompt) := by
  have hasked := update_of_mem (f := (·.asked prompt)) hp rfl
  obtain ⟨hminimised, hprompts⟩ := asked_same prompt p
  obtain ⟨-, hsee⟩ := inForeground_of hm hp hforeground
  have hids : ((m.update p.id (·.asked prompt)).procedures.map (·.id)).Nodup := by
    rw [update_procedures_ids (asked_id prompt)]
    exact hm.nodup
  have hshown : (m.update p.id (·.asked prompt)).shownPrompt = (p.prompts ++ [prompt]).head? := by
    rw [← hprompts]
    exact shownPrompt_eq hids hasked ((asked_id prompt p).symm ▸ hforeground) (hminimised.trans hsee)
  have hbefore : m.shownPrompt = p.prompts.head? := shownPrompt_eq hm.nodup hp hforeground hsee
  constructor
  · cases hcase : p.prompts with
    | nil =>
      rw [hcase] at hbefore hshown
      exact Placed.onScreen hbefore hshown (Or.inl (hid ▸ hforeground))
    | cons first rest =>
      rw [hcase] at hbefore hshown
      refine Placed.behind (hid ▸ hforeground) ?_ (hshown.trans hbefore.symm) ?_
      · rw [hbefore]
        rfl
      · refine ⟨_, hasked, (asked_id prompt p).trans hid, ?_⟩
        rw [hprompts]
        exact List.mem_append_right _ List.mem_cons_self
  · have hin : (m.update p.id (·.asked prompt)).inForeground p.id = true := by
      unfold inForeground
      rw [procedure_update (asked_id prompt), procedure_mem hm.nodup hp]
      simp [Model.update, hforeground, hminimised, hsee]
    rw [arrive_eq, hin, hshown]
    simp

/-- A procedure that arrives on a free screen shows its prompt. -/
theorem raised_shown (hp : p ∈ m.procedures) (hprompt : p.prompts = [prompt])
    (hinv : ({ m with foreground := some p.id }.update p.id raised).tidyProcedures.Inv) :
    ({ m with foreground := some p.id }.update p.id raised).tidyProcedures.shownPrompt = some prompt := by
  have hmem : raised p ∈ ({ m with foreground := some p.id }.update p.id raised).tidyProcedures.procedures := by
    apply tidyProcedures_mem.mpr
    refine ⟨update_of_mem (m := { m with foreground := some p.id }) hp rfl, prompts_waiting ?_⟩
    show p.prompts ≠ []
    rw [hprompt]
    exact List.cons_ne_nil _ _
  have hforeground : ({ m with foreground := some p.id }.update p.id raised).tidyProcedures.foreground =
      some (raised p).id := tidyProcedures_foreground.mpr ⟨rfl, raised p, hmem, rfl⟩
  rw [shownPrompt_eq hinv.nodup hmem hforeground rfl]
  show p.prompts.head? = some prompt
  rw [hprompt]
  rfl

/-- A prompt of a procedure that is not in the foreground and waits already. -/
theorem placed_waiting (hm : m.Inv) (hp : p ∈ m.procedures) (hid : p.id = promptProcedure prompt)
    (hforeground : m.foreground ≠ some p.id) (hprompts : p.prompts ≠ []) :
    Placed m (m.update p.id (·.asked prompt)) prompt := by
  obtain ⟨hsame, hall⟩ := asked_same prompt p
  refine Placed.minimised (hid ▸ hforeground) (shownPrompt_update (asked_id prompt) hforeground)
    ⟨_, update_of_mem hp rfl, (asked_id prompt p).trans hid, ?_, ?_⟩
  · rw [hall]
    exact List.mem_append_right _ List.mem_cons_self
  · rw [hsame]
    exact (hm.placed p hp hprompts).resolve_right hforeground

/-- A prompt of a procedure that is not in the foreground and had none. -/
theorem placed_arriving (hp : p ∈ m.procedures) (hid : p.id = promptProcedure prompt)
    (hforeground : m.foreground ≠ some p.id) (hprompts : p.prompts = [])
    (hinv : ((m.update p.id (·.asked prompt)).arrive p.id).Inv) :
    Placed m ((m.update p.id (·.asked prompt)).arrive p.id) prompt := by
  have hasked := update_of_mem (f := (·.asked prompt)) hp rfl
  have hall : (p.asked prompt).prompts = [prompt] := by
    rw [(asked_same prompt p).2, hprompts]
    rfl
  have hshown : (m.update p.id (·.asked prompt)).shownPrompt = m.shownPrompt :=
    shownPrompt_update (asked_id prompt) hforeground
  have hnot : (m.update p.id (·.asked prompt)).inForeground p.id = false := by
    unfold inForeground
    simp [Model.update, hforeground]
  cases hbusy : (m.update p.id (·.asked prompt)).foregroundBusy with
  | false =>
    have harrive : (m.update p.id (·.asked prompt)).arrive p.id =
        ({ m.update p.id (·.asked prompt) with foreground := some p.id }.update p.id raised).tidyProcedures := by
      rw [arrive_eq, hnot, hbusy]
      rfl
    simp only [foregroundBusy, Bool.or_eq_false_iff] at hbusy
    have hidle : m.shownPrompt = none := by
      rw [← hshown]
      simpa using hbusy.1.2
    have hbrowse : m.mode.isBrowse = true := by simpa [Model.update] using hbusy.1.1
    refine Placed.onScreen hidle ?_ (Or.inr hbrowse)
    rw [harrive] at hinv ⊢
    have hraised := raised_shown (m := m.update p.id (·.asked prompt)) hasked hall
    rw [asked_id prompt p] at hraised
    exact hraised hinv
  | true =>
    have harrive : (m.update p.id (·.asked prompt)).arrive p.id =
        (m.update p.id (·.asked prompt)).update p.id lowered := by
      rw [arrive_eq, hnot, hbusy]
      have hsame : (m.update p.id (·.asked prompt)).foreground ≠ some p.id := hforeground
      simp only [Bool.false_and, Bool.not_true, Bool.and_false, if_neg Bool.false_ne_true, if_neg hsame]
    rw [harrive]
    have hlowered := update_of_mem (f := lowered) hasked (asked_id prompt p)
    refine Placed.minimised (hid ▸ hforeground) ?_ ⟨_, hlowered, (asked_id prompt p).trans hid, ?_, rfl⟩
    · have hsame : (m.update p.id (·.asked prompt)).foreground ≠ some p.id := hforeground
      have hlower := shownPrompt_update (f := lowered) (fun _ => rfl) hsame
      exact hlower.trans hshown
    · show prompt ∈ (p.asked prompt).prompts
      rw [hall]
      exact List.mem_cons_self

end

theorem Placed.congr {m₁ m m' : Model} {prompt : SecretPrompt} (h : Placed m₁ m' prompt)
    (hforeground : m₁.foreground = m.foreground) (hmode : m₁.mode = m.mode)
    (hshown : m₁.shownPrompt = m.shownPrompt) : Placed m m' prompt := by
  cases h with
  | minimised elsewhere shown kept => exact .minimised (hforeground ▸ elsewhere) (hshown ▸ shown) kept
  | behind own busy shown kept => exact .behind (hforeground ▸ own) (hshown ▸ busy) (hshown ▸ shown) kept
  | onScreen idle shown free => exact .onScreen (hshown ▸ idle) shown (hforeground ▸ hmode ▸ free)

/-- Where a prompt that arrives goes. -/
theorem offerPrompt_placed {m : Model} (hm : m.Inv) (prompt : SecretPrompt) :
    Placed m (m.offerPrompt prompt) prompt := by
  have hinv : (m.offerPrompt prompt).Inv :=
    (Evolves.offerPrompt (C := fun _ => True) (L := fun _ => True) (S := fun _ => True) m prompt (fun _ => trivial)
      trivial).inv hm
  revert hinv
  unfold Model.offerPrompt
  dsimp only
  generalize (if (prompt.confirmation && _) = true then none else prompt.procedure) = step
  have hexists := ensureProcedure_exists m (promptProcedure prompt) prompt.title step
  have hsame := ensureProcedure_same m (promptProcedure prompt) prompt.title step
  have hquiet := Quiet.ensureProcedure m (promptProcedure prompt) prompt.title step
  have hensure := Evolves.ensureProcedure (C := fun _ => True) (L := fun _ => False) (S := fun _ => False) m
    (promptProcedure prompt) prompt.title step fun _ => trivial
  generalize m.ensureProcedure (promptProcedure prompt) prompt.title step = m₁ at *
  intro hinv
  have hm₁ : m₁.Inv := hensure.inv hm
  have hshown : m₁.shownPrompt = m.shownPrompt := by
    cases hbefore : m.shownPrompt with
    | none => exact hquiet.shownPrompt hm.nodup hbefore
    | some shown => exact (hensure.shown hm shown hbefore).resolve_right id
  refine Placed.congr ?_ hsame.2 hsame.1 hshown
  obtain ⟨p, hp, hid⟩ := hexists
  rw [← hid, procedure_mem hm₁.nodup hp] at hinv ⊢
  by_cases hforeground : m₁.foreground = some p.id
  · obtain ⟨hplaced, harrive⟩ := placed_own hm₁ hp hid hforeground
    rw [harrive, ite_self]
    exact hplaced
  · by_cases hprompts : p.prompts = []
    · have hidle : (some p).any (fun p => !p.prompts.isEmpty) = false := by simp [hprompts]
      rw [hidle, if_neg Bool.false_ne_true] at hinv ⊢
      exact placed_arriving hp hid hforeground hprompts hinv
    · have hwaiting : (some p).any (fun p => !p.prompts.isEmpty) = true := by simp [hprompts]
      rw [hwaiting, if_pos rfl]
      exact placed_waiting hm₁ hp hid hforeground hprompts

end Model

/-- What comes over the operator channel, or with time. -/
def UiAct.fromChannel : UiAct → Bool
  | .hear _ | .procedureEvent | .secretPrompt | .endTick _ _ => true
  | _ => false

def UiAct.isKey : UiAct → Bool
  | .key _ _ => true
  | _ => false

namespace Ui

/-- A step of the UI takes the keyboard from no dialog. -/
structure KeyboardKept (u : Ui) (act : UiAct) : Prop where
  /-- A prompt that arrives while a dialog of something else is open is not shown and starts minimised, unless a
  prompt of its own procedure is shown over that dialog: then it waits behind that one. -/
  minimised : act = .secretPrompt → ∀ prompt, u.writer.secretPrompts.head? = some prompt →
    u.model.otherDialog (promptProcedure prompt) = true →
    (u.step act).model.shownPrompt = u.model.shownPrompt ∧
    ∃ p ∈ (u.step act).model.procedures, p.id = promptProcedure prompt ∧ prompt ∈ p.prompts ∧
      (p.minimised = true ∨ u.model.shownPrompt.isSome = true ∧ u.model.foreground = some p.id)
  /-- The prompt that the next key would answer stays, unless it goes away itself. -/
  held : act.isKey = false → ∀ prompt, u.model.shownPrompt = some prompt →
    (u.step act).model.shownPrompt = some prompt ∨ u.goes act prompt
  /-- Where the next key would answer no prompt, it answers none or the one that arrived. -/
  idle : act.fromChannel = true → u.model.shownPrompt = none →
    (u.step act).model.shownPrompt = none ∨
      act = .secretPrompt ∧ (u.step act).model.shownPrompt = u.writer.secretPrompts.head?

/-- No prompt arrives for the procedure in the foreground while it shows none and another dialog is open. -/
def InTurn (u : Ui) (act : UiAct) : Prop :=
  act = .secretPrompt → ∀ prompt, u.writer.secretPrompts.head? = some prompt →
    u.model.otherDialog (promptProcedure prompt) = true →
    u.model.foreground = some (promptProcedure prompt) → u.model.shownPrompt.isSome = true

theorem step_secretPrompt {u : Ui} {prompt : SecretPrompt} (h : u.writer.secretPrompts.head? = some prompt) :
    (u.step .secretPrompt).model = u.model.offerPrompt prompt := by
  obtain ⟨prompts, hprompts⟩ := List.head?_eq_some_iff.mp h
  simp only [step]
  rw [hprompts]

theorem otherDialog_covered {m : Model} {id : String} (h : m.otherDialog id = true) : m.mode.isBrowse = false := by
  unfold Model.otherDialog at h
  simp only [Bool.and_eq_true, Bool.not_eq_true'] at h
  exact h.1

theorem step_idle {u : Ui} {act : UiAct} (hm : u.model.Inv) (hact : act.fromChannel = true)
    (hnone : u.model.shownPrompt = none) : (u.step act).model.shownPrompt = none ∨
      act = .secretPrompt ∧ (u.step act).model.shownPrompt = u.writer.secretPrompts.head? := by
  cases act with
  | hear event => exact Or.inl hnone
  | procedureEvent =>
    left
    simp only [step]
    split
    next => exact hnone
    next event events _ => exact (Model.Quiet.handle u.model event).shownPrompt hm.nodup hnone
  | secretPrompt =>
    cases hhead : u.writer.secretPrompts.head? with
    | none =>
      left
      have hnil := List.head?_eq_none_iff.mp hhead
      simp only [step]
      rw [hnil]
      exact hnone
    | some prompt =>
      rw [step_secretPrompt hhead]
      cases Model.offerPrompt_placed hm prompt with
      | minimised elsewhere shown kept => exact Or.inl (shown.trans hnone)
      | behind own busy shown kept => exact Or.inl (shown.trans hnone)
      | onScreen idle shown free => exact Or.inr ⟨rfl, shown⟩
  | endTick now changed =>
    left
    have hexpire := Model.Quiet.expirePrompts u.model now
    simp only [step]
    split
    next => exact (hexpire.trans (Model.Quiet.showPendingApproval _)).shownPrompt hm.nodup hnone
    next => exact hexpire.shownPrompt hm.nodup hnone
  | completion now completion => cases hact
  | approval request => cases hact
  | key event answers => cases hact

theorem step_held (u : Ui) (act : UiAct) (hm : u.model.Inv) (prompt : SecretPrompt)
    (hshown : u.model.shownPrompt = some prompt) :
    (u.step act).model.shownPrompt = some prompt ∨ u.goes act prompt :=
  (step_evolves u act).shown hm prompt hshown

/-- One step keeps the keyboard exactly when no prompt arrives out of turn. -/
theorem keyboardKept_iff {u : Ui} (hm : u.model.Inv) (act : UiAct) : u.KeyboardKept act ↔ u.InTurn act := by
  constructor
  · intro hkept hact prompt hhead hdialog hforeground
    have hminimised := (hkept.minimised hact prompt hhead hdialog).1
    rw [hact, step_secretPrompt hhead] at hminimised
    cases Model.offerPrompt_placed hm prompt with
    | minimised elsewhere shown kept => exact absurd hforeground elsewhere
    | behind own busy shown kept => exact busy
    | onScreen idle shown free =>
      rw [shown, idle] at hminimised
      cases hminimised
  · intro hturn
    refine ⟨?_, fun _ => step_held u act hm, step_idle hm⟩
    intro hact prompt hhead hdialog
    have hcovered := otherDialog_covered hdialog
    have hturn := hturn hact prompt hhead hdialog
    rw [hact, step_secretPrompt hhead]
    cases Model.offerPrompt_placed hm prompt with
    | minimised elsewhere shown kept =>
      obtain ⟨p, hp, hid, hprompt, hminimised⟩ := kept
      exact ⟨shown, p, hp, hid, hprompt, Or.inl hminimised⟩
    | behind own busy shown kept =>
      obtain ⟨p, hp, hid, hprompt⟩ := kept
      exact ⟨shown, p, hp, hid, hprompt, Or.inr ⟨busy, hid ▸ own⟩⟩
    | onScreen idle shown free =>
      rcases free with hforeground | hbrowse
      · have hsome := hturn hforeground
        rw [idle] at hsome
        cases hsome
      · rw [hbrowse] at hcovered
        cases hcovered

/-- Every run keeps the keyboard in all its steps exactly when no prompt arrives out of turn in it. -/
theorem run_keyboard_kept (onePassword : Bool) (acts : List UiAct) :
    (start onePassword).Along KeyboardKept acts ↔ (start onePassword).Along InTurn acts := by
  constructor
  · intro hkept before act after hacts
    exact (keyboardKept_iff (run_inv (start_inv onePassword) before) act).mp (hkept before act after hacts)
  · intro hturn before act after hacts
    exact (keyboardKept_iff (run_inv (start_inv onePassword) before) act).mpr (hturn before act after hacts)

/-- A prompt of the second or third step of an installation. -/
def installPrompt (id : String) (step : Nat) : SecretPrompt :=
  ⟨id, "sign", true, false, false, false, false, none,
    some ⟨"install", "Install web", step, some 3, "sign", false, none, none, none⟩⟩

/-- The operator answered a prompt and waits for the next one when a value typed before turns out not to be
saved: the failure opens its dialog. The next prompt of the procedure then comes. -/
def saveFailsBetweenPrompts : List UiAct :=
  [.hear (.prompt (installPrompt "p1" 1)), .secretPrompt,
    .key .confirmLoss ⟨.ok (), .ok none, false, none, none⟩,
    .completion 0 (.saveFailed "web.password" [104, 105] "1Password is locked"),
    .hear (.prompt (installPrompt "p2" 2))]

/-- The failed value's dialog is open, and the prompt takes the keyboard from it. -/
theorem prompt_over_failed_save : ¬ (start true).Along KeyboardKept (saveFailsBetweenPrompts ++ [.secretPrompt]) ∧
    ((start true).run saveFailsBetweenPrompts).model.mode =
      .dialog (.providerFailure "1Password is locked" "web.password" [104, 105]) ∧
    ((start true).run saveFailsBetweenPrompts).model.shownPrompt = none ∧
    ((start true).run (saveFailsBetweenPrompts ++ [.secretPrompt])).model.shownPrompt =
      some (installPrompt "p2" 2) := by
  refine ⟨?_, by decide, by decide, by decide⟩
  intro hkept
  have hlast := (hkept saveFailsBetweenPrompts .secretPrompt [] rfl).minimised rfl (installPrompt "p2" 2)
    (by decide) (by decide)
  have hnone : ((start true).run saveFailsBetweenPrompts).model.shownPrompt = none := by decide
  have hsome : (((start true).run saveFailsBetweenPrompts).step .secretPrompt).model.shownPrompt =
      some (installPrompt "p2" 2) := by decide
  rw [hnone, hsome] at hlast
  exact absurd hlast.1 (Option.some_ne_none _)

end Ui

end NixSecrets.Tui
