import NixSecrets.TuiSteps

namespace NixSecrets.Tui

namespace Model

/-- Going round from any place comes to every place. -/
theorem round_covers {count current index : Nat} (hcurrent : current < count) (hindex : index < count) :
    ∃ offset < count, (current + (offset + 1)) % max count 1 = index := by
  have hmax : max count 1 = count := by omega
  refine ⟨(index + (count - current - 1)) % count, Nat.mod_lt _ (by omega), ?_⟩
  rw [hmax]
  calc (current + ((index + (count - current - 1)) % count + 1)) % count
      = ((current + 1) + (index + (count - current - 1)) % count) % count := by
        congr 1
        omega
    _ = ((current + 1) + (index + (count - current - 1))) % count := Nat.add_mod_mod _ _ _
    _ = (index + count) % count := by
        congr 1
        omega
    _ = index % count := Nat.add_mod_right _ _
    _ = index := Nat.mod_eq_of_lt hindex

/-- `M` goes through every procedure that waits and is not on screen. -/
theorem candidates_mem {m : Model} {p : Procedure} (hp : p ∈ m.procedures) (hwaiting : m.procedureWaiting p = true)
    (hforeground : m.foreground ≠ some p.id) : p ∈ m.candidates := by
  unfold candidates
  dsimp only
  generalize hcurrent : (m.foreground.bind fun id => m.procedures.findIdx? (·.id = id)) = current
  obtain ⟨index, hindex, rfl⟩ := List.mem_iff_getElem.mp hp
  have hbound : current.getD (m.procedures.length - 1) < m.procedures.length := by
    cases current with
    | none =>
      show m.procedures.length - 1 < m.procedures.length
      omega
    | some current =>
      obtain ⟨id, -, hfind⟩ := Option.bind_eq_some_iff.mp hcurrent
      exact (List.findIdx?_eq_some_iff_getElem.mp hfind).1
  have hother : some index ≠ current := by
    rintro rfl
    obtain ⟨id, hid, hfind⟩ := Option.bind_eq_some_iff.mp hcurrent
    obtain ⟨_, hat, -⟩ := List.findIdx?_eq_some_iff_getElem.mp hfind
    rw [of_decide_eq_true hat] at hforeground
    exact hforeground hid
  refine List.mem_filter.mpr ⟨List.mem_filterMap.mpr ⟨index, ?_, List.getElem?_eq_getElem hindex⟩, hwaiting⟩
  refine List.mem_filter.mpr ⟨List.mem_map.mpr ?_, by simpa using hother⟩
  obtain ⟨offset, hoffset, hround⟩ := round_covers hbound hindex
  exact ⟨offset, List.mem_range.mpr hoffset, hround⟩

theorem minimise_browse {m : Model} (h : m.mode = .browse) : m.minimise.mode = .browse := by
  have hown : m.ownApproval = m := by
    apply ownApproval_same
    rintro ⟨-, request, hmode⟩
    rw [h] at hmode
    cases hmode
  have hpark (id : String) : m.parkApproval id = m := by
    unfold parkApproval
    rw [h]
  unfold minimise
  rw [hown]
  dsimp only
  split
  next => exact h
  next id _ =>
    split
    next => exact h
    next =>
      rw [hpark id]
      exact h

/-- What is brought up and waits to be closed comes to the foreground. -/
theorem bringUp_foreground {m : Model} {p : Procedure} (hp : p ∈ m.procedures)
    (hneeds : p.needsAcknowledgement = true) : (m.bringUp p.id).foreground = some p.id := by
  unfold bringUp
  dsimp only
  split
  next =>
    rw [(showPendingApproval_same _).2]
    have hraised : raised p ∈ ({ m with foreground := some p.id }.update p.id raised).procedures := by
      have hmem : (if p.id = p.id then raised p else p) ∈
        ({ m with foreground := some p.id }.update p.id raised).procedures := update_mem hp
      rw [if_pos rfl] at hmem
      exact hmem
    refine tidyProcedures_foreground.mpr ⟨rfl, raised p, ?_, rfl⟩
    exact tidyProcedures_mem.mpr ⟨hraised, needsAcknowledgement_waiting hneeds⟩
  next => rfl

/-- In the tree, or over a procedure's dialog, a waiting result can be restored. -/
theorem restore_foreground {m : Model} (hm : m.Inv) {p : Procedure} (hp : p ∈ m.procedures)
    (hneeds : p.needsAcknowledgement = true) (hbrowse : m.mode = .browse) :
    (m.restore p.id).1 = none ∧ (m.restore p.id).2.foreground = some p.id := by
  have hthere : ¬ (m.procedure p.id).isNone = true := by
    rw [procedure_mem hm.nodup hp]
    exact Bool.false_ne_true
  have hclosed : ¬ (!m.mode.isBrowse && !m.mode.isApproval && m.shownPrompt.isNone && m.betweenShown.isNone) =
      true := by
    rw [hbrowse]
    exact Bool.false_ne_true
  unfold restore
  rw [if_neg hthere, if_neg hclosed]
  split
  next => exact ⟨rfl, bringUp_foreground hp hneeds⟩
  next =>
    have hminimise := Evolves.minimise (C := fun _ => True) (L := fun _ => False) (S := fun _ => True) m
      (fun _ _ => trivial) fun _ => trivial
    obtain ⟨q, hq, hid, hneeds', -⟩ := (hminimise.kept hm p hp hneeds).resolve_right id
    have hopen : ¬ m.minimise.mode.isApproval = true := by
      rw [minimise_browse hbrowse]
      exact Bool.false_ne_true
    have hthere : ¬ (m.minimise.procedure p.id).isNone = true := by
      rw [← hid, procedure_mem (hminimise.inv hm).nodup hq]
      exact Bool.false_ne_true
    dsimp only
    rw [if_neg hopen, if_neg hthere, ← hid]
    exact ⟨rfl, bringUp_foreground hq hneeds'⟩

/-- The operator's keys get to the procedure: it is in the foreground, or `M` goes through it and choosing it in
the task bar, while no other dialog is open, brings it to the foreground. -/
def AtHand (m : Model) (id : String) : Prop :=
  m.foreground = some id ∨ (∃ p ∈ m.candidates, p.id = id) ∧
    (m.mode = .browse → (m.restore id).1 = none ∧ (m.restore id).2.foreground = some id)

theorem atHand_of_needs {m : Model} (hm : m.Inv) {p : Procedure} (hp : p ∈ m.procedures)
    (hneeds : p.needsAcknowledgement = true) : m.AtHand p.id := by
  by_cases hforeground : m.foreground = some p.id
  · exact Or.inl hforeground
  · have hwaiting : m.procedureWaiting p = true := by
      unfold procedureWaiting
      simp [hneeds]
    exact Or.inr ⟨⟨p, candidates_mem hp hwaiting hforeground, rfl⟩, restore_foreground hm hp hneeds⟩

end Model

namespace Ui

/-- While a failed or warned result of a procedure waits, no prompt or deployment of it arrives or is answered,
and no success of a step that is not its last is recorded. -/
def Undisturbed (u : Ui) (act : UiAct) : Prop :=
  ∀ p ∈ u.model.procedures, p.needsAcknowledgement = true → ¬ u.loses act p.id

theorem run_needs {u : Ui} {acts : List UiAct} {p : Procedure} (hm : u.model.Inv) (hp : p ∈ u.model.procedures)
    (hneeds : p.needsAcknowledgement = true) (h : u.Along Undisturbed acts)
    (hopen : u.Along (fun u act => ¬ u.acknowledges act p.id) acts) :
    ∃ p' ∈ (u.run acts).model.procedures, p'.id = p.id ∧ p'.needsAcknowledgement = true ∧
      (p.failed = true → p'.failed = true) := by
  induction acts generalizing u p with
  | nil => exact ⟨p, hp, rfl, hneeds, fun h => h⟩
  | cons act acts ih =>
    obtain ⟨hundisturbed, hrest⟩ := along_cons_iff.mp h
    obtain ⟨hfirst, hopen⟩ := along_cons_iff.mp hopen
    have hevolves := step_evolves u act
    rcases hevolves.kept hm p hp hneeds with ⟨q, hq, hid, hneeds', hfailed⟩ | hlost
    · rw [← hid] at hopen
      obtain ⟨r, hr, hrid, hrneeds, hrfailed⟩ := ih (hevolves.inv hm) hq hneeds' hrest hopen
      exact ⟨r, hr, hrid.trans hid, hrneeds, fun h => hrfailed (hfailed h)⟩
    · rcases hlost with hloses | hcloses
      · exact absurd hloses (hundisturbed p hp hneeds)
      · exact absurd hcloses hfirst

/-- A failed or warned result stays in the model, at hand, until the operator closes it. -/
theorem waiting_result_kept (onePassword : Bool) (before acts : List UiAct) (p : Procedure)
    (hp : p ∈ ((start onePassword).run before).model.procedures) (hneeds : p.needsAcknowledgement = true)
    (h : ((start onePassword).run before).Along Undisturbed acts)
    (hopen : ((start onePassword).run before).Along (fun u act => ¬ u.acknowledges act p.id) acts) :
    (∃ p' ∈ (((start onePassword).run before).run acts).model.procedures, p'.id = p.id ∧
      p'.needsAcknowledgement = true ∧ (p.failed = true → p'.failed = true)) ∧
    (((start onePassword).run before).run acts).model.AtHand p.id := by
  have hinv := run_inv (start_inv onePassword) before
  obtain ⟨p', hp', hid, hneeds', hfailed⟩ := run_needs hinv hp hneeds h hopen
  refine ⟨⟨p', hp', hid, hneeds', hfailed⟩, ?_⟩
  rw [← hid]
  exact Model.atHand_of_needs (run_inv hinv acts) hp' hneeds'

def deployStep : ProcedureStep := ⟨"update", "Update web", 1, some 1, "deploy secrets", true, none, none, none⟩

def deployRequest : ApprovalRequest :=
  { id := "d1", target := "web", create := ["web.password"], procedure := some deployStep }

def queuedAnswers : Answers := ⟨.ok (), .error operationQueued, false, none, none⟩

/-- The command of a procedure queues a deployment and fails before the operator decides on it. -/
def failsBeforeDecision : List UiAct :=
  [.approval deployRequest, .hear (.procedureEnded "update" (some 1)), .procedureEvent]

/-- The failure of that run is still at hand after the next tick. -/
theorem failsBeforeDecision_kept :
    (((start true).run failsBeforeDecision).run [.hear .attached, .endTick 5 true]).model.AtHand "update" := by
  have hneeds : ((start true).run failsBeforeDecision).model.procedures.any (fun p =>
      p.id = "update" && p.needsAcknowledgement) = true := by decide
  obtain ⟨p, hp, hboth⟩ := List.any_eq_true.mp hneeds
  obtain ⟨hid, hneeds⟩ := (Bool.and_eq_true _ _).mp hboth
  have hundisturbed : ((start true).run failsBeforeDecision).Along Undisturbed [.hear .attached, .endTick 5 true] :=
    along_cons_iff.mpr ⟨fun _ _ _ => id, along_cons_iff.mpr ⟨fun _ _ _ => id, along_nil⟩⟩
  have hopen : ((start true).run failsBeforeDecision).Along (fun u act => ¬ u.acknowledges act p.id)
      [.hear .attached, .endTick 5 true] :=
    along_cons_iff.mpr ⟨id, along_cons_iff.mpr ⟨id, along_nil⟩⟩
  have hkept := (waiting_result_kept true failsBeforeDecision _ p hp hneeds hundisturbed hopen).2
  rw [of_decide_eq_true hid] at hkept
  exact hkept

/-- The failure waits in the task bar; the operator approves the deployment, and the failure is gone without
having been closed. -/
theorem failure_gone_after_decision :
    ((start true).run failsBeforeDecision).model.procedures.map (fun p => (p.id, p.implicit, p.between)) =
      [("update", false, some (.result false "The command failed with exit status 1."))] ∧
    ¬ ((start true).run failsBeforeDecision).acknowledges (.key (.character 'y') queuedAnswers) "update" ∧
    (((start true).run failsBeforeDecision).step (.key (.character 'y') queuedAnswers)).model.procedures = [] := by
  refine ⟨by decide, ?_, by decide⟩
  rintro ⟨henters, -⟩
  cases henters

end Ui

end NixSecrets.Tui
