import NixSecrets.ProcedureRegistry

namespace NixSecrets

namespace Procedures

/-- How one call changes a procedure that it neither ends nor registers anew. -/
inductive Change (p : Procedures) (call : ProcedureCall) (id : String) (before : Live) : Live → Prop
  | kept (hnumbers : p.numbers call id = false) : p.Change call id before before
  | numbered {token : String} {peer : Nat} {request : StepRequest}
      (hop : call.op.request = some (token, peer, request))
      (henter : p.enter call.parentPid token peer = .ok (id, before)) :
      p.Change call id before (before.take request)
  | progressed {token : String} {peer : Nat} {text : String} {percent : Option Nat}
      (hop : call.op = .progressStep token peer text percent) :
      p.Change call id before (before.setProgress (cleanText text maxReasonBytes) percent)

theorem insert_get {p : Procedures} {id k : String} {procedure found : Live} {next : Nat}
    (h : (Procedures.mk (p.live.insert id procedure) next).live[k]? = some found) :
    (id = k ∧ found = procedure) ∨ (id ≠ k ∧ p.live[k]? = some found) := by
  simp only [Std.ExtTreeMap.getElem?_insert] at h
  split at h
  next heq => exact .inl ⟨Std.LawfulEqCmp.eq_of_compare heq, (Option.some.inj h).symm⟩
  next hne => exact .inr ⟨fun heq => hne (by simp [heq]), h⟩

theorem exec_change {p : Procedures} {call : ProcedureCall} {id : String} {before after : Live}
    (hbefore : p.live[id]? = some before) (hafter : (p.exec call).1.live[id]? = some after)
    (hnew : (p.exec call).2.begins id = false) : p.Change call id before after := by
  have hmove := exec_move p call
  generalize (p.exec call).1 = q at hmove hafter
  generalize (p.exec call).2 = reply at hmove hnew
  have hsame (h : p.live[id]? = some after) : after = before :=
    Option.some.inj (h.symm.trans hbefore)
  cases hmove with
  | refused hnumbers => exact hsame hafter ▸ .kept (hnumbers id)
  | unbegun hop => exact hsame hafter ▸ .kept (numbers_none (by rw [hop]; rfl) id)
  | begun hop htitle hsteps hsize hrandom hsecret hstep =>
    obtain ⟨heq, -⟩ | ⟨-, hget⟩ := insert_get hafter
    · simp [ProcedureReply.begins, heq] at hnew
    · exact hsame hget ▸ .kept (numbers_none (by rw [hop]; rfl) id)
  | numbered hop henter =>
    obtain ⟨rfl, rfl⟩ | ⟨hne, hget⟩ := insert_get hafter
    · have hentered := (enter_ok henter).2.1
      cases Option.some.inj (hentered.symm.trans hbefore)
      exact .numbered hop henter
    · have hnot : p.numbers call id = false := by
        rw [numbers_entered hop henter]
        simp [hne]
      exact hsame hget ▸ .kept hnot
  | progressed hop henter htext hpercent =>
    obtain ⟨rfl, rfl⟩ | ⟨hne, hget⟩ := insert_get hafter
    · have hentered := (enter_ok henter).2.1
      cases Option.some.inj (hentered.symm.trans hbefore)
      exact .progressed hop
    · exact hsame hget ▸ .kept (numbers_none (by rw [hop]; rfl) id)
  | annotated hop => exact hsame hafter ▸ .kept (numbers_none (by rw [hop]; rfl) id)
  | ended hop =>
    simp only [finish, Std.ExtTreeMap.getElem?_erase] at hafter
    split at hafter
    next => cases hafter
    next => exact hsame hafter ▸ .kept (numbers_none (by rw [hop]; rfl) id)
  | listed hop => exact hsame hafter ▸ .kept (numbers_none (by rw [hop]; rfl) id)

/-- The number after one call: one more for a new step, up to the largest `u32`. -/
theorem Change.number {p : Procedures} {call : ProcedureCall} {id : String} {before after : Live}
    (h : p.Change call id before after) (hbefore : before.step.step ≤ maxStep) :
    after.step.step = min (before.step.step + (p.numbers call id).toNat) maxStep := by
  cases h with
  | kept hnumbers => simp [hnumbers, hbefore]
  | numbered hop henter =>
    rw [numbers_entered hop henter, Live.take_number]
    cases before.repeats _ _ with
    | true => simp [hbefore]
    | false => simp
  | progressed hop =>
    have hnot : p.numbers call id = false := numbers_none (by rw [hop]; rfl) id
    simp [hnot, hbefore, Live.setProgress]

/-- The calls neither end the procedure nor hand out its id again. -/
def remains (id : String) : Procedures → List ProcedureCall → Bool
  | _, [] => true
  | p, call :: calls => (p.exec call).1.live.contains id && !(p.exec call).2.begins id &&
    remains id (p.exec call).1 calls

/-- How many steps the calls add to a procedure. -/
def numbered (id : String) : Procedures → List ProcedureCall → Nat
  | _, [] => 0
  | p, call :: calls => (p.numbers call id).toNat + numbered id (p.exec call).1 calls

theorem run_number {p : Procedures} {calls : List ProcedureCall} {id : String} {before : Live}
    (hsound : p.Sound) (hbefore : p.live[id]? = some before) (hremains : p.remains id calls = true) :
    ∃ after, (p.run calls).live[id]? = some after ∧
      after.step.step = min (before.step.step + p.numbered id calls) maxStep := by
  induction calls generalizing p before with
  | nil => exact ⟨before, hbefore, by simp [numbered, (hsound.live id before hbefore).number]⟩
  | cons call calls ih =>
    simp only [remains, Bool.and_eq_true, Bool.not_eq_true'] at hremains
    obtain ⟨⟨hcontains, hnew⟩, hrest⟩ := hremains
    rw [Std.ExtTreeMap.contains_eq_isSome_getElem?] at hcontains
    obtain ⟨middle, hmiddle⟩ := Option.isSome_iff_exists.mp hcontains
    have hchange := (exec_change hbefore hmiddle hnew).number (hsound.live id before hbefore).number
    obtain ⟨after, hafter, hnumber⟩ := ih (exec_sound hsound call) hmiddle hrest
    refine ⟨after, hafter, ?_⟩
    rw [hnumber, hchange, numbered]
    omega

/-- Whether a call leaves a procedure's step alone, or only warns about it. -/
def warns (p : Procedures) (call : ProcedureCall) (id : String) : Bool :=
  match call.op.request with
  | none => true
  | some (token, peer, request) =>
    match p.enter call.parentPid token peer with
    | .error _ => true
    | .ok (entered, procedure) => entered != id ||
      (request.label == procedure.step.label && request.report matches some (.warning _))

def onlyWarned (id : String) : Procedures → List ProcedureCall → Bool
  | _, [] => true
  | p, call :: calls => p.warns call id && onlyWarned id (p.exec call).1 calls

theorem Change.failure {p : Procedures} {call : ProcedureCall} {id : String} {before after : Live}
    {reason : String} (h : p.Change call id before after) (hsound : before.Sound id)
    (hfailed : before.step.failure = some reason) (hwarns : p.warns call id = true) :
    after.step.failure = some reason := by
  cases h with
  | kept => exact hfailed
  | progressed => exact hfailed
  | numbered hop henter =>
    rename_i token peer request
    simp only [warns, hop, henter, bne_self_eq_false, Bool.false_or, Bool.and_eq_true,
      beq_iff_eq] at hwarns
    obtain ⟨hlabel, hreport⟩ := hwarns
    split at hreport
    next warning hwarning =>
      obtain ⟨hrepeatable, hpositive⟩ := hsound.failed (by simp [hfailed])
      have hrequest := ((ProcedureOp.request_wellFormed hop).warning warning hwarning).2
      have hrepeats : before.repeats request.label request.repeatable = true :=
        Live.repeats_iff.mpr ⟨hrequest, hrepeatable, hpositive, hlabel.symm⟩
      simp only [Live.take, Live.numberStep, hwarning, ProcedureStep.record, Live.advance, hrepeats,
        if_true]
      exact hfailed
    next => cases hreport

theorem run_failure {p : Procedures} {calls : List ProcedureCall} {id : String} {before after : Live}
    {reason : String} (hsound : p.Sound) (hbefore : p.live[id]? = some before)
    (hfailed : before.step.failure = some reason) (hremains : p.remains id calls = true)
    (hwarned : p.onlyWarned id calls = true) (hafter : (p.run calls).live[id]? = some after) :
    after.step.failure = some reason := by
  induction calls generalizing p before with
  | nil => exact Option.some.inj (hbefore.symm.trans hafter) ▸ hfailed
  | cons call calls ih =>
    simp only [remains, Bool.and_eq_true, Bool.not_eq_true'] at hremains
    rw [onlyWarned, Bool.and_eq_true] at hwarned
    obtain ⟨⟨hcontains, hnew⟩, hrest⟩ := hremains
    rw [Std.ExtTreeMap.contains_eq_isSome_getElem?] at hcontains
    obtain ⟨middle, hmiddle⟩ := Option.isSome_iff_exists.mp hcontains
    have hchange := exec_change hbefore hmiddle hnew
    exact ih (exec_sound hsound call) hmiddle
      (hchange.failure (hsound.live id before hbefore) hfailed hwarned.1) hrest hwarned.2 hafter

end Procedures

end NixSecrets
