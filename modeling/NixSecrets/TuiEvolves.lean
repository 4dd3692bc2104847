import Mathlib.Data.List.Nodup
import NixSecrets.TuiRun

namespace NixSecrets.Tui

namespace Model

/-- What holds of the procedures between the things that the UI does. -/
structure Inv (m : Model) : Prop where
  nodup : (m.procedures.map (·.id)).Nodup
  onScreen : ∀ id, m.foreground = some id → ∃ p ∈ m.procedures, p.id = id ∧ p.minimised = false
  placed : ∀ p ∈ m.procedures, p.prompts ≠ [] → p.minimised = true ∨ m.foreground = some p.id

theorem procedure_some {m : Model} {id : String} {p : Procedure} (h : m.procedure id = some p) :
    p ∈ m.procedures ∧ p.id = id :=
  ⟨List.mem_of_find?_eq_some h, by simpa using List.find?_some h⟩

theorem procedure_mem {m : Model} (h : (m.procedures.map (·.id)).Nodup) {p : Procedure} (hp : p ∈ m.procedures) :
    m.procedure p.id = some p := by
  cases hfind : m.procedure p.id with
  | none =>
    have hnone := List.find?_eq_none.mp hfind p hp
    simp at hnone
  | some q =>
    obtain ⟨hq, hid⟩ := procedure_some hfind
    rw [List.inj_on_of_nodup_map h hq hp hid]

theorem procedure_none {m : Model} {id : String} (h : m.procedure id = none) :
    ∀ p ∈ m.procedures, p.id ≠ id := by
  intro p hp hid
  have hnone := List.find?_eq_none.mp h p hp
  simp [hid] at hnone

theorem shownPrompt_some {m : Model} {prompt : SecretPrompt} (h : m.shownPrompt = some prompt) :
    ∃ p ∈ m.procedures, m.foreground = some p.id ∧ p.minimised = false ∧ p.prompts.head? = some prompt := by
  obtain ⟨id, hforeground, hbind⟩ := Option.bind_eq_some_iff.mp h
  obtain ⟨p, hp, h⟩ := Option.bind_eq_some_iff.mp hbind
  obtain ⟨hmem, rfl⟩ := procedure_some hp
  by_cases hminimised : p.minimised = true
  · rw [if_pos hminimised] at h
    cases h
  · rw [if_neg hminimised] at h
    exact ⟨p, hmem, hforeground, by simpa using hminimised, h⟩

theorem shownPrompt_eq {m : Model} (h : (m.procedures.map (·.id)).Nodup) {p : Procedure}
    (hp : p ∈ m.procedures) (hforeground : m.foreground = some p.id) (hminimised : p.minimised = false) :
    m.shownPrompt = p.prompts.head? := by
  simp [shownPrompt, hforeground, procedure_mem h hp, hminimised]

/-- From one model to another: procedures appear only under ids of `C`, a result that waits goes away only
under ids of `L`, and a prompt leaves the screen only if it is one of `S`. -/
structure Evolves (C L : String → Prop) (S : SecretPrompt → Prop) (m m' : Model) : Prop where
  inv : m.Inv → m'.Inv
  old : m.Inv → ∀ p' ∈ m'.procedures,
    (∃ p ∈ m.procedures, p.id = p'.id ∧ (p.ended = true → p'.ended = true)) ∨ C p'.id
  kept : m.Inv → ∀ p ∈ m.procedures, p.needsAcknowledgement = true →
    (∃ p' ∈ m'.procedures, p'.id = p.id ∧ p'.needsAcknowledgement = true ∧
      (p.failed = true → p'.failed = true)) ∨ L p.id
  shown : m.Inv → ∀ prompt, m.shownPrompt = some prompt → m'.shownPrompt = some prompt ∨ S prompt

namespace Evolves

variable {C L : String → Prop} {S : SecretPrompt → Prop} {m m' m'' : Model}

theorem refl (m : Model) : Evolves C L S m m where
  inv := id
  old _ p hp := Or.inl ⟨p, hp, rfl, id⟩
  kept _ p hp hack := Or.inl ⟨p, hp, rfl, hack, id⟩
  shown _ _ h := Or.inl h

theorem trans (h : Evolves C L S m m') (h' : Evolves C L S m' m'') : Evolves C L S m m'' where
  inv hm := h'.inv (h.inv hm)
  old hm p'' hp'' := by
    rcases h'.old (h.inv hm) p'' hp'' with ⟨p', hp', hid', hended'⟩ | hc
    · rcases h.old hm p' hp' with ⟨p, hp, hid, hended⟩ | hc
      · exact Or.inl ⟨p, hp, hid.trans hid', fun he => hended' (hended he)⟩
      · exact Or.inr (hid' ▸ hc)
    · exact Or.inr hc
  kept hm p hp hack := by
    rcases h.kept hm p hp hack with ⟨p', hp', hid', hack', hfailed'⟩ | hl
    · rcases h'.kept (h.inv hm) p' hp' hack' with ⟨p'', hp'', hid'', hack'', hfailed''⟩ | hl
      · exact Or.inl ⟨p'', hp'', hid''.trans hid', hack'', fun hf => hfailed'' (hfailed' hf)⟩
      · exact Or.inr (hid' ▸ hl)
    · exact Or.inr hl
  shown hm prompt hshown := by
    rcases h.shown hm prompt hshown with hshown | hs
    · exact h'.shown (h.inv hm) prompt hshown
    · exact Or.inr hs

theorem mono {C' L' : String → Prop} {S' : SecretPrompt → Prop} (h : Evolves C L S m m')
    (hc : ∀ id, C id → C' id) (hl : ∀ id, L id → L' id) (hs : ∀ p, S p → S' p) :
    Evolves C' L' S' m m' where
  inv := h.inv
  old hm p' hp' := (h.old hm p' hp').imp_right (hc _)
  kept hm p hp hack := (h.kept hm p hp hack).imp_right (hl _)
  shown hm prompt hshown := (h.shown hm prompt hshown).imp_right (hs _)

/-- Nothing of the procedures changes. -/
theorem aside (hprocedures : m'.procedures = m.procedures) (hforeground : m'.foreground = m.foreground) :
    Evolves C L S m m' where
  inv hm := by
    refine ⟨?_, ?_, ?_⟩
    · rw [hprocedures]
      exact hm.nodup
    · rw [hprocedures, hforeground]
      exact hm.onScreen
    · rw [hprocedures, hforeground]
      exact hm.placed
  old _ p hp := Or.inl ⟨p, hprocedures ▸ hp, rfl, id⟩
  kept _ p hp hack := Or.inl ⟨p, hprocedures ▸ hp, rfl, hack, id⟩
  shown _ prompt hshown := by
    left
    rw [← hshown]
    unfold shownPrompt procedure
    rw [hprocedures, hforeground]

end Evolves

/-- A change of one procedure that the others need not know of. -/
structure Change (L : String → Prop) (S : SecretPrompt → Prop) (m : Model) (p p' : Procedure) : Prop where
  id : p'.id = p.id
  ended : p.ended = true → p'.ended = true
  minimised : m.foreground = some p.id → p.minimised = false → p'.minimised = false
  placed : p'.prompts ≠ [] → (p.prompts ≠ [] ∧ (p.minimised = true → p'.minimised = true)) ∨
    p'.minimised = true ∨ m.foreground = some p.id
  needs : p.needsAcknowledgement = true →
    (p'.needsAcknowledgement = true ∧ (p.failed = true → p'.failed = true)) ∨ L p.id
  shown : ∀ prompt, p.minimised = false → p.prompts.head? = some prompt →
    (p'.minimised = false ∧ p'.prompts.head? = some prompt) ∨ S prompt

theorem Change.refl {L : String → Prop} {S : SecretPrompt → Prop} (m : Model) (p : Procedure) :
    Change L S m p p :=
  ⟨rfl, fun h => h, fun _ h => h, fun h => Or.inl ⟨h, fun h => h⟩, fun h => Or.inl ⟨h, fun h => h⟩,
    fun _ h h' => Or.inl ⟨h, h'⟩⟩

theorem Evolves.map {C L : String → Prop} {S : SecretPrompt → Prop} {m : Model} {f : Procedure → Procedure}
    (h : m.Inv → ∀ p ∈ m.procedures, Change L S m p (f p)) :
    Evolves C L S m { m with procedures := m.procedures.map f } where
  inv hm := by
    have hids : (m.procedures.map f).map (·.id) = m.procedures.map (·.id) := by
      rw [List.map_map]
      exact List.map_congr_left fun p hp => (h hm p hp).id
    refine ⟨?_, ?_, ?_⟩
    · show ((m.procedures.map f).map (·.id)).Nodup
      rw [hids]
      exact hm.nodup
    · intro id hid
      obtain ⟨p, hp, rfl, hminimised⟩ := hm.onScreen id hid
      exact ⟨f p, List.mem_map_of_mem hp, (h hm p hp).id, (h hm p hp).minimised hid hminimised⟩
    · intro p' hp' hprompts
      obtain ⟨p, hp, rfl⟩ := List.mem_map.mp hp'
      rw [(h hm p hp).id]
      rcases (h hm p hp).placed hprompts with ⟨hbefore, hminimised⟩ | hplaced
      · exact (hm.placed p hp hbefore).imp_left hminimised
      · exact hplaced
  old hm p' hp' := by
    obtain ⟨p, hp, rfl⟩ := List.mem_map.mp hp'
    exact Or.inl ⟨p, hp, (h hm p hp).id.symm, (h hm p hp).ended⟩
  kept hm p hp hack := by
    refine ((h hm p hp).needs hack).imp_left ?_
    intro hneeds
    exact ⟨f p, List.mem_map_of_mem hp, (h hm p hp).id, hneeds⟩
  shown hm prompt hshown := by
    obtain ⟨p, hp, hforeground, hminimised, hprompt⟩ := shownPrompt_some hshown
    have hids : (m.procedures.map f).map (·.id) = m.procedures.map (·.id) := by
      rw [List.map_map]
      exact List.map_congr_left fun p hp => (h hm p hp).id
    refine ((h hm p hp).shown prompt hminimised hprompt).imp_left ?_
    rintro ⟨hminimised', hprompt'⟩
    rw [← hprompt']
    refine shownPrompt_eq ?_ (List.mem_map_of_mem hp) ?_ hminimised'
    · show ((m.procedures.map f).map (·.id)).Nodup
      rw [hids]
      exact hm.nodup
    · rw [(h hm p hp).id]
      exact hforeground

theorem Evolves.update {C L : String → Prop} {S : SecretPrompt → Prop} {m : Model} {id : String}
    {f : Procedure → Procedure}
    (h : m.Inv → ∀ p ∈ m.procedures, p.id = id → Change L S m p (f p)) : Evolves C L S m (m.update id f) := by
  apply Evolves.map
  intro hm p hp
  split
  next hid => exact h hm p hp hid
  next => exact Change.refl m p

/-- A change that keeps prompts, place and result. -/
theorem Change.calm {L : String → Prop} {S : SecretPrompt → Prop} {m : Model} {p p' : Procedure}
    (hid : p'.id = p.id) (hended : p'.ended = p.ended) (hprompts : p'.prompts = p.prompts)
    (hminimised : p'.minimised = p.minimised) (hbetween : p'.between = p.between)
    (hwarned : p.warned = true → p'.warned = true) : Change L S m p p' where
  id := hid
  ended h := hended.trans h
  minimised _ h := hminimised.trans h
  placed h := Or.inl ⟨hprompts ▸ h, fun h => hminimised.trans h⟩
  needs h := by
    left
    have hfailed : p'.failed = p.failed := by
      unfold Procedure.failed
      rw [hbetween]
    have hsucceeded : p'.hasSucceeded = p.hasSucceeded := by
      unfold Procedure.hasSucceeded
      rw [hbetween]
    refine ⟨?_, fun h => hfailed.trans h⟩
    unfold Procedure.needsAcknowledgement Procedure.succeededWithWarnings at h ⊢
    rw [hfailed, hsucceeded]
    simp only [Bool.or_eq_true, Bool.and_eq_true] at h ⊢
    exact h.imp_right fun h => ⟨h.1, hwarned h.2⟩
  shown prompt h h' := Or.inl ⟨hminimised.trans h, hprompts ▸ h'⟩

theorem needsAcknowledgement_waiting {m : Model} {p : Procedure} (h : p.needsAcknowledgement = true) :
    m.isOver p = false := by
  simp [isOver, procedureWaiting, h]

theorem prompts_waiting {m : Model} {p : Procedure} (h : p.prompts ≠ []) : m.isOver p = false := by
  simp [isOver, procedureWaiting, h]

theorem tidyProcedures_mem {m : Model} {p : Procedure} :
    p ∈ m.tidyProcedures.procedures ↔ p ∈ m.procedures ∧ m.isOver p = false := by
  simp [tidyProcedures, List.mem_filter]

theorem tidyProcedures_foreground {m : Model} {id : String} :
    m.tidyProcedures.foreground = some id ↔
      m.foreground = some id ∧ ∃ p ∈ m.tidyProcedures.procedures, p.id = id := by
  simp [tidyProcedures, Option.filter_eq_some_iff, and_assoc]

theorem Evolves.tidy {C L : String → Prop} {S : SecretPrompt → Prop} (m : Model) :
    Evolves C L S m m.tidyProcedures := by
  have hnodup : m.Inv → (m.tidyProcedures.procedures.map (·.id)).Nodup := fun hm =>
    hm.nodup.sublist (List.Sublist.map _ List.filter_sublist)
  refine ⟨?_, ?_, ?_, ?_⟩
  · intro hm
    refine ⟨hnodup hm, ?_, ?_⟩
    · intro id hid
      obtain ⟨hid, p, hp, rfl⟩ := tidyProcedures_foreground.mp hid
      obtain ⟨q, hq, hqid, hminimised⟩ := hm.onScreen p.id hid
      have hsame := List.inj_on_of_nodup_map hm.nodup hq (tidyProcedures_mem.mp hp).1 hqid
      exact ⟨p, hp, rfl, hsame ▸ hminimised⟩
    · intro p hp hprompts
      refine (hm.placed p (tidyProcedures_mem.mp hp).1 hprompts).imp_right ?_
      exact fun hforeground => tidyProcedures_foreground.mpr ⟨hforeground, p, hp, rfl⟩
  · exact fun _ p hp => Or.inl ⟨p, (tidyProcedures_mem.mp hp).1, rfl, fun h => h⟩
  · intro _ p hp hack
    exact Or.inl ⟨p, tidyProcedures_mem.mpr ⟨hp, needsAcknowledgement_waiting hack⟩, rfl, hack, fun h => h⟩
  · intro hm prompt hshown
    left
    obtain ⟨p, hp, hforeground, hminimised, hprompt⟩ := shownPrompt_some hshown
    have hprompts : p.prompts ≠ [] := by
      intro hnil
      rw [hnil] at hprompt
      cases hprompt
    have hp' := tidyProcedures_mem.mpr ⟨hp, prompts_waiting (m := m) hprompts⟩
    rw [← hprompt]
    exact shownPrompt_eq (hnodup hm) hp' (tidyProcedures_foreground.mpr ⟨hforeground, p, hp', rfl⟩) hminimised

/-- A procedure of a new id, with nothing to show yet. -/
theorem Evolves.append {C L : String → Prop} {S : SecretPrompt → Prop} {m : Model} {p : Procedure}
    (hnew : ∀ q ∈ m.procedures, q.id ≠ p.id) (hprompts : p.prompts = []) (hc : C p.id) :
    Evolves C L S m { m with procedures := m.procedures ++ [p] } where
  inv hm := by
    refine ⟨?_, ?_, ?_⟩
    · show ((m.procedures ++ [p]).map (·.id)).Nodup
      rw [List.map_append]
      refine List.nodup_append.mpr ⟨hm.nodup, List.nodup_singleton _, ?_⟩
      intro a ha b hb
      obtain ⟨q, hq, rfl⟩ := List.mem_map.mp ha
      obtain rfl := List.mem_singleton.mp hb
      exact hnew q hq
    · intro id hid
      obtain ⟨q, hq, hqid, hminimised⟩ := hm.onScreen id hid
      exact ⟨q, List.mem_append_left _ hq, hqid, hminimised⟩
    · intro q hq hqprompts
      rcases List.mem_append.mp hq with hq | hq
      · exact hm.placed q hq hqprompts
      · obtain rfl := List.mem_singleton.mp hq
        exact absurd hprompts hqprompts
  old _ q hq := by
    rcases List.mem_append.mp hq with hq | hq
    · exact Or.inl ⟨q, hq, rfl, fun h => h⟩
    · obtain rfl := List.mem_singleton.mp hq
      exact Or.inr hc
  kept _ q hq hack := Or.inl ⟨q, List.mem_append_left _ hq, rfl, hack, fun h => h⟩
  shown _ prompt hshown := by
    left
    obtain ⟨id, hforeground, hbind⟩ := Option.bind_eq_some_iff.mp hshown
    obtain ⟨q, hq, hprompt⟩ := Option.bind_eq_some_iff.mp hbind
    have hq' : procedure { m with procedures := m.procedures ++ [p] } id = some q := by
      unfold procedure at hq ⊢
      rw [List.find?_append, hq]
      rfl
    refine Option.bind_eq_some_iff.mpr ⟨id, hforeground, ?_⟩
    exact Option.bind_eq_some_iff.mpr ⟨q, hq', hprompt⟩

theorem Change.advance {L : String → Prop} {S : SecretPrompt → Prop} (m : Model) (p : Procedure)
    (step : ProcedureStep) : Change L S m p (p.advance step) := by
  unfold Procedure.advance
  split
  next => exact Change.calm rfl rfl rfl rfl rfl (fun h => h)
  next => exact Change.refl m p

theorem Evolves.ensureProcedure {C L : String → Prop} {S : SecretPrompt → Prop} (m : Model)
    (id title : String) (step : Option ProcedureStep)
    (hc : (∀ p ∈ m.procedures, p.id ≠ id) → C id) : Evolves C L S m (m.ensureProcedure id title step) := by
  unfold Model.ensureProcedure
  have hfirst : Evolves C L S m (if m.procedures.any (·.id = id) then m else { m with procedures :=
      m.procedures ++ [{ id, title := step.elim title (·.title), implicit := step.isNone }] }) := by
    split
    next => exact Evolves.refl m
    next hany =>
      have hnew : ∀ q ∈ m.procedures, q.id ≠ id := by simpa using hany
      exact Evolves.append hnew rfl (hc hnew)
  cases step with
  | none => exact hfirst
  | some step => exact hfirst.trans (Evolves.update fun _ p _ _ => Change.advance _ p step)

end Model

namespace Procedure

theorem needsAcknowledgement_result {p : Procedure} (h : p.needsAcknowledgement = true) :
    ∃ succeeded text, p.between = some (.result succeeded text) ∧ (succeeded = true → p.warned = true) := by
  simp only [needsAcknowledgement, failed, succeededWithWarnings, hasSucceeded] at h
  split at h
  next text hbetween => exact ⟨false, text, hbetween, nofun⟩
  next =>
    split at h
    next text hbetween => exact ⟨true, text, hbetween, fun _ => by simpa using h⟩
    next => cases h

theorem needsAcknowledgement_of_failed {p : Procedure} {text : String} (h : p.between = some (.result false text)) :
    p.needsAcknowledgement = true ∧ p.failed = true := by
  simp [needsAcknowledgement, failed, h]

theorem needsAcknowledgement_of_warned {p : Procedure} {succeeded : Bool} {text : String}
    (h : p.between = some (.result succeeded text)) (hwarned : p.warned = true) :
    p.needsAcknowledgement = true := by
  cases succeeded with
  | true => simp [needsAcknowledgement, succeededWithWarnings, hasSucceeded, h, hwarned]
  | false => exact (needsAcknowledgement_of_failed h).1

theorem failed_iff {p : Procedure} : p.failed = true ↔ ∃ text, p.between = some (.result false text) := by
  unfold failed
  split
  next text hbetween => exact ⟨fun _ => ⟨text, hbetween⟩, fun _ => rfl⟩
  next hother =>
    refine ⟨nofun, ?_⟩
    rintro ⟨text, hbetween⟩
    exact absurd hbetween (hother text)

/-- What the end of a procedure does to it. -/
theorem ending_keeps (shown : Bool) (exitCode : Option Int) (p : Procedure) :
    (p.ending shown exitCode).id = p.id ∧ (p.ending shown exitCode).ended = true ∧
    (p.ending shown exitCode).prompts = p.prompts ∧
    ((p.ending shown exitCode).minimised = p.minimised ∨
      p.prompts = [] ∧ (p.ending shown exitCode).minimised = true) := by
  unfold ending
  dsimp only
  split
  next => exact ⟨rfl, rfl, rfl, Or.inl rfl⟩
  next hplain =>
    have hprompts : p.prompts = [] := by
      cases hp : p.prompts with
      | nil => rfl
      | cons prompt prompts => simp [hp] at hplain
    split
    next => exact ⟨rfl, rfl, rfl, Or.inl rfl⟩
    next =>
      split
      next => exact ⟨rfl, rfl, rfl, Or.inr ⟨hprompts, rfl⟩⟩
      next => exact ⟨rfl, rfl, rfl, Or.inl rfl⟩

theorem ending_needs (shown : Bool) (exitCode : Option Int) {p : Procedure} (h : p.needsAcknowledgement = true) :
    (p.ending shown exitCode).needsAcknowledgement = true ∧
      (p.failed = true → (p.ending shown exitCode).failed = true) := by
  obtain ⟨succeeded, text, hbetween, hwarned⟩ := needsAcknowledgement_result h
  have hfailed : p.failed = true → succeeded = false := by
    intro hfailed
    obtain ⟨text', hbetween'⟩ := failed_iff.mp hfailed
    rw [hbetween] at hbetween'
    cases hbetween'
    rfl
  have hdone : ∀ p' : Procedure, p'.warned = p.warned → p'.between =
      some (.result (succeeded && Decidable.decide (exitCode = some 0)) (text ++ "\n" ++ exitText exitCode)) →
      p'.needsAcknowledgement = true ∧ (p.failed = true → p'.failed = true) := by
    intro p' hwarned' hbetween'
    cases hs : succeeded with
    | false =>
      rw [hs, Bool.false_and] at hbetween'
      obtain ⟨hneeds, hfail⟩ := needsAcknowledgement_of_failed hbetween'
      exact ⟨hneeds, fun _ => hfail⟩
    | true =>
      refine ⟨needsAcknowledgement_of_warned hbetween' (hwarned'.trans (hwarned hs)), ?_⟩
      intro hf
      rw [hfailed hf] at hs
      cases hs
  unfold ending
  dsimp only
  split
  next => exact ⟨h, fun hf => hf⟩
  next =>
    have hresult : result exitCode { p with ended := true, exitCode } =
        .result (succeeded && Decidable.decide (exitCode = some 0)) (text ++ "\n" ++ exitText exitCode) := by
      simp [result, hbetween]
    rw [hresult]
    split
    next hquiet =>
      -- Without a finished step there is no warning, so the result failed and is not taken away.
      simp only [Bool.and_eq_true, List.isEmpty_iff, Between.failed, Bool.not_not] at hquiet
      have hs := hwarned hquiet.2.1
      simp [warned, hquiet.1.1] at hs
    next =>
      split
      next => exact hdone _ rfl rfl
      next => exact hdone _ rfl rfl

end Procedure

namespace Model

theorem Evolves.clearForeground {C L : String → Prop} {S : SecretPrompt → Prop} {m : Model}
    (h : m.Inv → ∀ p ∈ m.procedures, m.foreground = some p.id → p.prompts = []) :
    Evolves C L S m { m with foreground := none } where
  inv hm := by
    refine ⟨hm.nodup, nofun, ?_⟩
    intro p hp hprompts
    refine (hm.placed p hp hprompts).imp_right ?_
    exact fun hforeground => absurd (h hm p hp hforeground) hprompts
  old _ p hp := Or.inl ⟨p, hp, rfl, fun h => h⟩
  kept _ p hp hack := Or.inl ⟨p, hp, rfl, hack, fun h => h⟩
  shown hm prompt hshown := by
    obtain ⟨p, hp, hforeground, -, hprompt⟩ := shownPrompt_some hshown
    rw [h hm p hp hforeground] at hprompt
    cases hprompt

theorem Change.ending {L : String → Prop} {S : SecretPrompt → Prop} {m : Model} {p : Procedure} {shown : Bool}
    {exitCode : Option Int} (hforeground : m.foreground = some p.id → p.minimised = false →
      (p.ending shown exitCode).minimised = false) : Change L S m p (p.ending shown exitCode) := by
  obtain ⟨hid, hended, hprompts, hminimised⟩ := Procedure.ending_keeps shown exitCode p
  refine ⟨hid, fun _ => hended, hforeground, ?_, fun h => Or.inl (Procedure.ending_needs shown exitCode h), ?_⟩
  · intro h
    rw [hprompts] at h
    rcases hminimised with hminimised | ⟨hnil, -⟩
    · exact Or.inl ⟨h, fun h => hminimised.trans h⟩
    · exact absurd hnil h
  · intro prompt hsee hprompt
    rcases hminimised with hminimised | ⟨hnil, -⟩
    · exact Or.inl ⟨hminimised.trans hsee, hprompts ▸ hprompt⟩
    · rw [hnil] at hprompt
      cases hprompt

theorem procedure_update {m : Model} {id : String} {f : Procedure → Procedure} (hf : ∀ p, (f p).id = p.id) :
    (m.update id f).procedure id = (m.procedure id).map f := by
  unfold procedure update
  rw [List.find?_map]
  have hkey : (fun p : Procedure => Decidable.decide (p.id = id)) ∘ (fun p => if p.id = id then f p else p) =
      fun p => Decidable.decide (p.id = id) := by
    funext p
    simp only [Function.comp]
    split
    next hid => rw [hf p]
    next => rfl
  rw [hkey]
  cases hfind : m.procedures.find? fun p => Decidable.decide (p.id = id) with
  | none => rfl
  | some p =>
    have hid : p.id = id := by simpa using List.find?_some hfind
    simp [hid]

theorem Evolves.procedureEnded {C L : String → Prop} {S : SecretPrompt → Prop} (m : Model) (id : String)
    (exitCode : Option Int) : Evolves C L S m (m.procedureEnded id exitCode) := by
  unfold Model.procedureEnded
  dsimp only
  refine Evolves.trans ?_ (Evolves.tidy _)
  generalize (m.mode.isBrowse && Decidable.decide (m.foreground = some id) && _) = shown
  have hprocedure : (m.update id (Procedure.ending shown exitCode)).procedure id = _ :=
    procedure_update fun p => (Procedure.ending_keeps shown exitCode p).1
  rw [hprocedure]
  split
  next hcond =>
    simp only [Bool.and_eq_true, decide_eq_true_eq] at hcond
    obtain ⟨hforeground, hany⟩ := hcond
    have hforeground : m.foreground = some id := hforeground
    have hcleared : Evolves C L S m { m with foreground := none } := by
      apply Evolves.clearForeground
      intro hm p hp hid
      rw [hforeground] at hid
      cases hid
      rw [procedure_mem hm.nodup hp] at hany
      obtain ⟨q, hq, hqid, hsee⟩ := hm.onScreen p.id hforeground
      have hsame := List.inj_on_of_nodup_map hm.nodup hq hp hqid
      rw [hsame] at hsee
      rcases (Procedure.ending_keeps shown exitCode p).2.2.2 with hsame | ⟨hnil, -⟩
      · simp [hsame, hsee] at hany
      · exact hnil
    exact hcleared.trans (Evolves.update fun _ p _ _ => Change.ending nofun)
  next hcond =>
    apply Evolves.update
    intro hm p hp hid
    apply Change.ending
    intro hforeground hsee
    rw [hid] at hforeground
    have hp' : m.procedure id = some p := hid ▸ procedure_mem hm.nodup hp
    rw [hp'] at hcond
    cases hmin : (p.ending shown exitCode).minimised with
    | false => rfl
    | true => exact absurd (by simp [Model.update, hforeground, hmin]) hcond

theorem Change.listed {L : String → Prop} {S : SecretPrompt → Prop} (m : Model) (p : Procedure)
    (step : FinishedStep) : Change L S m p (p.listed step) := by
  refine Change.calm rfl rfl rfl rfl rfl ?_
  intro hwarned
  show (p.finished ++ [step]).any FinishedStep.warned = true
  rw [List.any_append]
  exact Bool.or_eq_true_iff.mpr (Or.inl hwarned)

theorem Change.joined {L : String → Prop} {S : SecretPrompt → Prop} (m : Model) (p : Procedure)
    (succeeded : Bool) : Change L S m p (p.joined succeeded) := by
  cases hbetween : p.between with
  | none =>
    have hsame : p.joined succeeded = p := by simp [Procedure.joined, hbetween]
    rw [hsame]
    exact Change.refl m p
  | some between =>
    cases between with
    | result shown text =>
      have hjoined : p.joined succeeded = { p with between := some (.result (shown && succeeded) text) } := by
        simp [Procedure.joined, hbetween]
      rw [hjoined]
      refine ⟨rfl, fun h => h, fun _ h => h, fun h => Or.inl ⟨h, fun h => h⟩, ?_, fun _ h h' => Or.inl ⟨h, h'⟩⟩
      intro hneeds
      left
      obtain ⟨shown', text', hbetween', hwarned⟩ := Procedure.needsAcknowledgement_result hneeds
      rw [hbetween] at hbetween'
      cases hbetween'
      cases shown with
      | false =>
        obtain ⟨hneeds, hfail⟩ := Procedure.needsAcknowledgement_of_failed
          (p := { p with between := some (.result (false && succeeded) text) }) rfl
        exact ⟨hneeds, fun _ => hfail⟩
      | true =>
        refine ⟨Procedure.needsAcknowledgement_of_warned rfl (hwarned rfl), ?_⟩
        intro hf
        obtain ⟨text', hbetween'⟩ := Procedure.failed_iff.mp hf
        rw [hbetween] at hbetween'
        cases hbetween'
    | working =>
      have hsame : p.joined succeeded = p := by simp [Procedure.joined, hbetween]
      rw [hsame]
      exact Change.refl m p
    | waiting =>
      have hsame : p.joined succeeded = p := by simp [Procedure.joined, hbetween]
      rw [hsame]
      exact Change.refl m p

/-- The step is the last that was declared. -/
def isLast (step : FinishedStep) : Bool := step.step.steps.any (· ≤ step.step.step)

theorem Change.recorded {L : String → Prop} {S : SecretPrompt → Prop} {m : Model} {p : Procedure}
    {isOpen shown : Bool} {step : FinishedStep} (hopen : isOpen = false → p.prompts = [])
    (hshown : m.foreground = some p.id → p.minimised = false → shown = true)
    (hlast : p.finished.getLast? = some step)
    (hl : step.succeeded = true → isLast step = false → p.hasSucceeded = true → L p.id) :
    Change L S m p (p.recorded isOpen shown step) := by
  unfold Procedure.recorded
  dsimp only
  generalize (if step.reportedFailed = true then some step.reportedFailure else none) = reported
  split
  next hcond =>
    simp only [Bool.and_eq_true, Bool.not_eq_true'] at hcond
    obtain ⟨⟨hclosed, -⟩, hfailed⟩ := hcond
    have hprompts := hopen hclosed
    split
    next hsucceeded =>
      refine ⟨rfl, fun h => h, fun _ h => h, fun h => absurd hprompts h, ?_, ?_⟩
      · intro hneeds
        obtain ⟨succeeded, text, hbetween, hwarned⟩ := Procedure.needsAcknowledgement_result hneeds
        cases succeeded with
        | false =>
          rw [Procedure.failed_iff.mpr ⟨text, hbetween⟩] at hfailed
          cases hfailed
        | true =>
          simp only [Bool.and_eq_true] at hsucceeded
          cases hdone : p.lastStepDone with
          | true =>
            left
            refine ⟨Procedure.needsAcknowledgement_of_warned rfl (hwarned rfl), ?_⟩
            intro hf
            rw [hfailed] at hf
            cases hf
          | false =>
            right
            apply hl hsucceeded.1 _ (by simp [Procedure.hasSucceeded, hbetween])
            simpa [Procedure.lastStepDone, hlast, hsucceeded.1, isLast] using hdone
      · intro prompt _ hprompt
        rw [hprompts] at hprompt
        cases hprompt
    next =>
      refine ⟨rfl, fun h => h, ?_, fun h => absurd hprompts h, ?_, ?_⟩
      · intro hforeground hsee
        show (p.minimised || !shown) = false
        rw [hsee, hshown hforeground hsee]
        rfl
      · intro _
        left
        exact ⟨(Procedure.needsAcknowledgement_of_failed rfl).1,
          fun _ => (Procedure.needsAcknowledgement_of_failed rfl).2⟩
      · intro prompt _ hprompt
        rw [hprompts] at hprompt
        cases hprompt
  next =>
    split
    next =>
      split
      next => exact Change.refl m p
      next => exact Change.calm rfl rfl rfl rfl rfl (fun h => h)
    next => exact Change.refl m p

/-- Recording the step takes away a successful result: the procedure goes on, and the step is not its last. -/
def Overwrites (m : Model) (id : String) (step : FinishedStep) : Prop :=
  step.succeeded = true ∧ isLast step = false ∧
    ∃ p ∈ m.procedures, p.id = id ∧ p.ended = false ∧ p.hasSucceeded = true

theorem Evolves.recordStep {C L : String → Prop} {S : SecretPrompt → Prop} (m : Model) (id : String)
    (flight : InFlight) (outcome : StepOutcome) (text : String)
    (hl : m.Overwrites id ⟨flight.request, flight.step, flight.kind, text, outcome⟩ → L id) :
    Evolves C L S m (m.recordStep id flight outcome text) := by
  unfold Model.recordStep
  dsimp only
  generalize hstep : FinishedStep.mk flight.request flight.step flight.kind text outcome = step at hl
  have hlisted : Evolves C L S m (m.update id (Procedure.listed step)) :=
    Evolves.update fun _ p _ _ => Change.listed m p step
  split
  next => exact hlisted
  next p hp =>
    split
    next =>
      split
      next => exact hlisted.trans (Evolves.update fun _ p _ _ => Change.joined _ p _)
      next =>
        split
        next => exact hlisted
        next => exact hlisted.trans (Evolves.procedureEnded _ _ _)
    next hended =>
      refine hlisted.trans (Evolves.update ?_)
      intro hm q hq hid
      have hsame : some q = some p := by
        rw [← procedure_mem hm.nodup hq, hid]
        exact hp
      cases hsame
      obtain ⟨r, hr, hrq⟩ := List.mem_map.mp hq
      have hrid : r.id = id := by
        by_cases hrid : r.id = id
        · exact hrid
        · rw [if_neg hrid] at hrq
          rw [hrq]
          exact hid
      rw [if_pos hrid] at hrq
      subst hrq
      apply Change.recorded
      · intro hclosed
        simp only [Bool.or_eq_false_iff, Bool.not_eq_false', List.isEmpty_iff] at hclosed
        exact hclosed.1
      · intro hforeground hsee
        rw [hid] at hforeground
        simp [hforeground, hsee]
      · exact List.getLast?_concat
      · intro hsucceeded hnot hsuccess
        rw [hid]
        have hgoes : r.ended = false := Bool.eq_false_iff.mpr hended
        exact hl ⟨hsucceeded, hnot, r, hr, hrid, hgoes, hsuccess⟩

end Model

end NixSecrets.Tui
