import NixSecrets.TuiOperations

namespace NixSecrets.Tui

namespace Model

variable {C L : String → Prop} {S : SecretPrompt → Prop}

theorem update_procedures_ids {m : Model} {id : String} {f : Procedure → Procedure} (hf : ∀ p, (f p).id = p.id) :
    (m.update id f).procedures.map (·.id) = m.procedures.map (·.id) := by
  show (m.procedures.map _).map _ = _
  rw [List.map_map]
  refine List.map_congr_left fun p _ => ?_
  simp only [Function.comp]
  split
  next => exact hf p
  next => rfl

theorem update_mem {m : Model} {id : String} {f : Procedure → Procedure} {p : Procedure} (hp : p ∈ m.procedures) :
    (if p.id = id then f p else p) ∈ (m.update id f).procedures := List.mem_map_of_mem hp

theorem update_comm {m : Model} {id : String} {f g : Procedure → Procedure} (hf : ∀ p, (f p).id = p.id)
    (hg : ∀ p, (g p).id = p.id) (h : ∀ p, f (g p) = g (f p)) :
    (m.update id f).update id g = (m.update id g).update id f := by
  unfold update
  simp only [List.map_map]
  congr 1
  refine List.map_congr_left fun p _ => ?_
  simp only [Function.comp]
  by_cases hid : p.id = id
  · simp [hid, hf, hg, h]
  · simp [hid]

/-- Puts a procedure on screen. -/
def raised (p : Procedure) : Procedure := { p with minimised := false, flashing := false }

theorem Evolves.raise {m : Model} {id : String} (hid : ∃ p ∈ m.procedures, p.id = id)
    (hclear : m.Inv → ∀ p ∈ m.procedures, m.foreground = some p.id → p.id ≠ id → p.prompts = []) :
    Evolves C L S m ({ m with foreground := some id }.update id raised) := by
  generalize hm' : { m with foreground := some id }.update id raised = m'
  have hforeground' : m'.foreground = some id := by
    rw [← hm']
    rfl
  have hids : m'.procedures.map (·.id) = m.procedures.map (·.id) := by
    rw [← hm']
    exact update_procedures_ids fun _ => rfl
  have hmem : ∀ p ∈ m.procedures, (if p.id = id then raised p else p) ∈ m'.procedures := by
    intro p hp
    rw [← hm']
    exact update_mem hp
  have hraised : ∀ p ∈ m.procedures, p.id = id → raised p ∈ m'.procedures := by
    intro p hp hpid
    have hp' := hmem p hp
    rw [if_pos hpid] at hp'
    exact hp'
  refine ⟨?_, ?_, ?_, ?_⟩
  · intro hm
    refine ⟨hids ▸ hm.nodup, ?_, ?_⟩
    · intro id' hid'
      rw [hforeground'] at hid'
      cases hid'
      obtain ⟨p, hp, hpid⟩ := hid
      exact ⟨raised p, hraised p hp hpid, hpid, rfl⟩
    · intro q' hq' hprompts
      rw [← hm'] at hq'
      obtain ⟨q, hq, rfl⟩ := List.mem_map.mp hq'
      by_cases hqid : q.id = id
      · right
        rw [if_pos hqid, hforeground']
        exact congrArg some hqid.symm
      · rw [if_neg hqid] at hprompts ⊢
        refine (hm.placed q hq hprompts).imp_right ?_
        exact fun hforeground => absurd (hclear hm q hq hforeground hqid) hprompts
  · intro _ q' hq'
    rw [← hm'] at hq'
    obtain ⟨q, hq, rfl⟩ := List.mem_map.mp hq'
    refine Or.inl ⟨q, hq, ?_⟩
    split
    next => exact ⟨rfl, fun h => h⟩
    next => exact ⟨rfl, fun h => h⟩
  · intro _ p hp hneeds
    refine Or.inl ⟨_, hmem p hp, ?_⟩
    split
    next => exact ⟨rfl, hneeds, fun h => h⟩
    next => exact ⟨rfl, hneeds, fun h => h⟩
  · intro hm prompt hshown
    left
    obtain ⟨p, hp, hforeground, -, hprompt⟩ := shownPrompt_some hshown
    by_cases hpid : p.id = id
    · have hshown' := shownPrompt_eq (hids ▸ hm.nodup) (hraised p hp hpid)
        (hforeground'.trans (congrArg some hpid.symm)) rfl
      exact hshown'.trans hprompt
    · rw [hclear hm p hp hforeground hpid] at hprompt
      cases hprompt

/-- Takes a procedure off the screen. -/
theorem Evolves.lower {m : Model} {id : String} {f : Procedure → Procedure}
    (hf : ∀ p, (f p).id = p.id ∧ (f p).minimised = true ∧ (f p).ended = p.ended)
    (hneeds : ∀ p, p.needsAcknowledgement = true →
      (f p).needsAcknowledgement = true ∧ (p.failed = true → (f p).failed = true))
    (hs : m.Inv → ∀ p ∈ m.procedures, p.id = id → m.foreground = some id → ∀ prompt,
      p.prompts.head? = some prompt → S prompt) :
    Evolves C L S m
      ({ m with foreground := if m.foreground = some id then none else m.foreground }.update id f) := by
  generalize hm' : { m with foreground := if m.foreground = some id then none else m.foreground }.update id f = m'
  have hforeground' : m'.foreground = if m.foreground = some id then none else m.foreground := by
    rw [← hm']
    rfl
  have hids : m'.procedures.map (·.id) = m.procedures.map (·.id) := by
    rw [← hm']
    exact update_procedures_ids fun p => (hf p).1
  have hmem : ∀ p ∈ m.procedures, (if p.id = id then f p else p) ∈ m'.procedures := by
    intro p hp
    rw [← hm']
    exact update_mem hp
  have hother : ∀ p ∈ m.procedures, p.id ≠ id → p ∈ m'.procedures := by
    intro p hp hpid
    have hp' := hmem p hp
    rw [if_neg hpid] at hp'
    exact hp'
  have hkeeps : ∀ p : Procedure, p.id ≠ id → m.foreground = some p.id → m'.foreground = some p.id := by
    intro p hpid hforeground
    rw [hforeground', hforeground]
    exact if_neg fun h => hpid (Option.some.inj h)
  refine ⟨?_, ?_, ?_, ?_⟩
  · intro hm
    refine ⟨hids ▸ hm.nodup, ?_, ?_⟩
    · intro id' hid'
      rw [hforeground'] at hid'
      split at hid'
      next => cases hid'
      next hnot =>
        obtain ⟨p, hp, rfl, hsee⟩ := hm.onScreen id' hid'
        refine ⟨p, hother p hp ?_, rfl, hsee⟩
        intro hpid
        rw [hpid] at hid'
        exact hnot hid'
    · intro q' hq' hprompts
      rw [← hm'] at hq'
      obtain ⟨q, hq, rfl⟩ := List.mem_map.mp hq'
      by_cases hqid : q.id = id
      · rw [if_pos hqid]
        exact Or.inl (hf q).2.1
      · rw [if_neg hqid] at hprompts ⊢
        exact (hm.placed q hq hprompts).imp_right (hkeeps q hqid)
  · intro _ q' hq'
    rw [← hm'] at hq'
    obtain ⟨q, hq, rfl⟩ := List.mem_map.mp hq'
    refine Or.inl ⟨q, hq, ?_⟩
    split
    next => exact ⟨(hf q).1.symm, fun h => (hf q).2.2.trans h⟩
    next => exact ⟨rfl, fun h => h⟩
  · intro _ p hp hneeds'
    refine Or.inl ⟨_, hmem p hp, ?_⟩
    split
    next => exact ⟨(hf p).1, hneeds p hneeds'⟩
    next => exact ⟨rfl, hneeds', fun h => h⟩
  · intro hm prompt hshown
    obtain ⟨p, hp, hforeground, hsee, hprompt⟩ := shownPrompt_some hshown
    by_cases hpid : p.id = id
    · right
      rw [hpid] at hforeground
      exact hs hm p hp hpid hforeground prompt hprompt
    · left
      rw [← hprompt]
      exact shownPrompt_eq (hids ▸ hm.nodup) (hother p hp hpid) (hkeeps p hpid hforeground) hsee

/-- With no dialog on screen the foreground procedure has no prompt. -/
theorem not_busy {m : Model} (hm : (m.procedures.map (·.id)).Nodup) (h : m.foregroundBusy = false) {p : Procedure}
    (hp : p ∈ m.procedures) (hforeground : m.foreground = some p.id) (hsee : p.minimised = false) :
    p.prompts = [] := by
  have hshown : m.shownPrompt = none := by
    simp only [foregroundBusy, Bool.or_eq_false_iff] at h
    simpa using h.1.2
  rw [shownPrompt_eq hm hp hforeground hsee] at hshown
  exact List.head?_eq_none_iff.mp hshown

def lowered (p : Procedure) : Procedure := { p with minimised := true, flashing := true }

/-- A procedure on screen, seen by `arrive`. -/
def inForeground (m : Model) (id : String) : Bool :=
  Decidable.decide (m.foreground = some id) && (m.procedure id).any fun p => !p.minimised

theorem inForeground_of {m : Model} (hm : m.Inv) {p : Procedure} (hp : p ∈ m.procedures)
    (hforeground : m.foreground = some p.id) : m.inForeground p.id = true ∧ p.minimised = false := by
  obtain ⟨q, hq, hqid, hsee⟩ := hm.onScreen p.id hforeground
  have hsame := List.inj_on_of_nodup_map hm.nodup hq hp hqid
  rw [hsame] at hsee
  refine ⟨?_, hsee⟩
  unfold inForeground
  rw [procedure_mem hm.nodup hp]
  simp [hforeground, hsee]

theorem arrive_eq (m : Model) (id : String) : m.arrive id =
    if m.inForeground id && (m.shownPrompt.isSome || m.mode.isApprovalOf id || m.mode.isBrowse) then m
    else if !m.inForeground id && !m.foregroundBusy then
      ({ m with foreground := some id }.update id raised).tidyProcedures
    else { m with foreground := if m.foreground = some id then none else m.foreground }.update id lowered := rfl

/-- A procedure without a new prompt arrives. -/
theorem Evolves.arrive {m : Model} {id : String} (hid : ∃ p ∈ m.procedures, p.id = id) :
    Evolves C L S m (m.arrive id) := by
  rw [arrive_eq]
  split
  next => exact Evolves.refl m
  next hnot =>
    split
    next hfree =>
      simp only [Bool.and_eq_true, Bool.not_eq_true'] at hfree
      refine Evolves.trans (Evolves.raise hid ?_) (Evolves.tidy _)
      intro hm p hp hforeground _
      exact not_busy hm.nodup hfree.2 hp hforeground (inForeground_of hm hp hforeground).2
    next =>
      apply Evolves.lower
      · exact fun _ => ⟨rfl, rfl, rfl⟩
      · exact fun _ h => ⟨h, fun h => h⟩
      · intro hm p hp hpid hforeground prompt hprompt
        rw [← hpid] at hforeground
        obtain ⟨hin, hsee⟩ := inForeground_of hm hp hforeground
        have hshown := shownPrompt_eq hm.nodup hp hforeground hsee
        rw [hprompt] at hshown
        rw [hpid] at hin
        simp [hin, hshown] at hnot

theorem Change.asked {m : Model} {p : Procedure} {prompt : SecretPrompt}
    (hplaced : p.prompts ≠ [] ∨ p.minimised = true ∨ m.foreground = some p.id) (hl : L p.id) :
    Change L S m p (p.asked prompt) := by
  have hasked : (p.asked prompt).id = p.id ∧ (p.asked prompt).ended = p.ended ∧
      (p.asked prompt).minimised = p.minimised ∧ (p.asked prompt).prompts = p.prompts ++ [prompt] := by
    unfold Procedure.asked
    split
    next => exact ⟨rfl, rfl, rfl, rfl⟩
    next => exact ⟨rfl, rfl, rfl, rfl⟩
  obtain ⟨hid, hended, hminimised, hprompts⟩ := hasked
  refine ⟨hid, fun h => hended.trans h, fun _ h => hminimised.trans h, ?_, fun _ => Or.inr hl, ?_⟩
  · intro _
    rw [hminimised]
    exact hplaced.imp_left fun h => ⟨h, fun h => h⟩
  · intro shown hsee hhead
    left
    refine ⟨hminimised.trans hsee, ?_⟩
    obtain ⟨rest, hrest⟩ := List.head?_eq_some_iff.mp hhead
    rw [hprompts, hrest]
    rfl

theorem asked_id (prompt : SecretPrompt) (p : Procedure) : (p.asked prompt).id = p.id := by
  unfold Procedure.asked
  split
  next => rfl
  next => rfl

theorem asked_raised (prompt : SecretPrompt) (p : Procedure) : (raised p).asked prompt = raised (p.asked prompt) := by
  cases himplicit : p.implicit with
  | true => simp [Procedure.asked, raised, himplicit]
  | false =>
    cases hstep : prompt.procedure with
    | none => simp [Procedure.asked, raised, hstep]
    | some step => simp [Procedure.asked, raised, himplicit, hstep]

theorem asked_lowered (prompt : SecretPrompt) (p : Procedure) :
    (lowered p).asked prompt = lowered (p.asked prompt) := by
  cases himplicit : p.implicit with
  | true => simp [Procedure.asked, lowered, himplicit]
  | false =>
    cases hstep : prompt.procedure with
    | none => simp [Procedure.asked, lowered, hstep]
    | some step => simp [Procedure.asked, lowered, himplicit, hstep]

/-- A procedure that had no prompt gets one, and arrives. -/
theorem Evolves.askArrive {m : Model} {id : String} {prompt : SecretPrompt} (hid : ∃ p ∈ m.procedures, p.id = id)
    (hidle : ∀ p ∈ m.procedures, p.id = id → p.prompts = []) (hl : L id) :
    Evolves C L S m ((m.update id (·.asked prompt)).arrive id) := by
  have hids : (m.update id (·.asked prompt)).procedures.map (·.id) = m.procedures.map (·.id) :=
    update_procedures_ids (asked_id prompt)
  rw [arrive_eq]
  split
  next hin =>
    simp only [Bool.and_eq_true] at hin
    have hforeground : m.foreground = some id := by
      have hin := hin.1
      unfold inForeground at hin
      simp only [Bool.and_eq_true, decide_eq_true_eq] at hin
      exact hin.1
    refine Evolves.update fun _ p _ hpid => Change.asked (Or.inr (Or.inr ?_)) (hpid ▸ hl)
    rw [hpid]
    exact hforeground
  next hnot =>
    split
    next hfree =>
      simp only [Bool.and_eq_true, Bool.not_eq_true'] at hfree
      have hcomm : { m.update id (·.asked prompt) with foreground := some id }.update id raised =
          ({ m with foreground := some id }.update id raised).update id (·.asked prompt) := by
        show ({ m with foreground := some id }.update id (·.asked prompt)).update id raised = _
        exact update_comm (asked_id prompt) (fun _ => rfl) (asked_raised prompt)
      rw [hcomm]
      refine Evolves.trans (Evolves.trans (Evolves.raise hid ?_) (Evolves.update ?_)) (Evolves.tidy _)
      · intro hm p hp hforeground hpid
        have hp' : p ∈ (m.update id (·.asked prompt)).procedures := by
          have hmem : (if p.id = id then p.asked prompt else p) ∈ (m.update id (·.asked prompt)).procedures :=
            update_mem hp
          rw [if_neg hpid] at hmem
          exact hmem
        exact not_busy (hids ▸ hm.nodup) hfree.2 hp' hforeground (inForeground_of hm hp hforeground).2
      · exact fun _ p _ hpid => Change.asked (Or.inr (Or.inr (congrArg some hpid.symm))) (hpid ▸ hl)
    next =>
      have hcomm : { m.update id (·.asked prompt) with
            foreground := if m.foreground = some id then none else m.foreground }.update id lowered =
          ({ m with foreground := if m.foreground = some id then none else m.foreground }.update id
            lowered).update id (·.asked prompt) := by
        show ({ m with foreground := if m.foreground = some id then none else m.foreground }.update id
          (·.asked prompt)).update id lowered = _
        exact update_comm (asked_id prompt) (fun _ => rfl) (asked_lowered prompt)
      show Evolves C L S m ({ m.update id (·.asked prompt) with
        foreground := if m.foreground = some id then none else m.foreground }.update id lowered)
      rw [hcomm]
      refine Evolves.trans (Evolves.lower ?_ ?_ ?_) (Evolves.update ?_)
      · exact fun _ => ⟨rfl, rfl, rfl⟩
      · exact fun _ h => ⟨h, fun h => h⟩
      · intro _ p hp hpid _ prompt hprompt
        rw [hidle p hp hpid] at hprompt
        cases hprompt
      · intro _ p hp hpid
        refine Change.asked (Or.inr (Or.inl ?_)) (hpid ▸ hl)
        obtain ⟨q, _, rfl⟩ := List.mem_map.mp hp
        by_cases hqid : q.id = id
        · rw [if_pos hqid]
          rfl
        · rw [if_neg hqid] at hpid
          exact absurd hpid hqid

end Model

end NixSecrets.Tui
