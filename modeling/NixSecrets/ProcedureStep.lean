import NixSecrets.Procedures

namespace NixSecrets

/-- What a request asks of the step it is numbered as. -/
structure StepRequest where
  label : String
  deployment : Bool
  repeatable : Bool
  report : Option Report
  deriving DecidableEq, Repr

/-- The token, the peer and the step of an operation that numbers one. -/
def ProcedureOp.request : ProcedureOp → Option (String × Nat × StepRequest)
  | .nextStep token peer label deployment repeatable =>
    some (token, peer, ⟨cleanText label maxLabelBytes, deployment, repeatable, none⟩)
  | .failStep token peer label reason => (reported label reason).toOption.map fun reason =>
    (token, peer, ⟨cleanText label maxLabelBytes, false, true, some (.failure reason)⟩)
  | .warnStep token peer label reason => (reported label reason).toOption.map fun reason =>
    (token, peer, ⟨cleanText label maxLabelBytes, false, true, some (.warning reason)⟩)
  | _ => none

def Live.take (procedure : Live) (request : StepRequest) : Live :=
  procedure.numberStep request.label request.deployment request.repeatable request.report

def ProcedureReply.begins (id : String) : ProcedureReply → Bool
  | .begun step _ => step.id == id
  | _ => false

namespace Procedures

/-- Whether a call adds a step to a procedure. -/
def numbers (p : Procedures) (call : ProcedureCall) (id : String) : Bool :=
  match call.op.request with
  | none => false
  | some (token, peer, request) =>
    match p.enter call.parentPid token peer with
    | .error _ => false
    | .ok (entered, procedure) =>
      entered == id && !procedure.repeats request.label request.repeatable

/-- Everything one call can do. -/
inductive Move (p : Procedures) (call : ProcedureCall) : Procedures → ProcedureReply → Prop
  | refused {message : String} (hnumbers : ∀ id, p.numbers call id = false) :
      p.Move call p (.refused message)
  | unbegun {owner : Nat} {title : String} {steps : Option Nat} {idRandom : Random 6}
      {secretRandom : Random 32} {message : String}
      (hop : call.op = .begin owner title steps idRandom secretRandom) :
      p.Move call { p with next := (p.next + 1) % 2 ^ 64 } (.refused message)
  | begun {owner : Nat} {title : String} {steps : Option Nat} {idRandom : Random 6}
      {secretRandom : Random 32} {random secret : String} {step : ProcedureStep}
      (hop : call.op = .begin owner title steps idRandom secretRandom)
      (htitle : cleanText title maxTitleBytes ≠ "")
      (hsteps : ∀ count, steps = some count → 0 < count ∧ count ≤ maxDeclaredSteps)
      (hsize : p.live.size < maxProcedures) (hrandom : randomHex idRandom = .ok random)
      (hsecret : randomHex secretRandom = .ok secret)
      (hstep : step = ⟨"proc-" ++ toString p.next ++ "-" ++ random, cleanText title maxTitleBytes,
        0, steps, "starting", false, none, none, none⟩) :
      p.Move call
        { live := p.live.insert step.id ⟨secret, owner, step, false⟩
          next := (p.next + 1) % 2 ^ 64 } (.begun step (step.id ++ ":" ++ secret))
  | numbered {token : String} {peer : Nat} {request : StepRequest} {id : String} {procedure : Live}
      (hop : call.op.request = some (token, peer, request))
      (henter : p.enter call.parentPid token peer = .ok (id, procedure)) :
      p.Move call { p with live := p.live.insert id (procedure.take request) }
        (.stepped (procedure.take request).step)
  | progressed {token : String} {peer : Nat} {text : String} {percent : Option Nat} {id : String}
      {procedure : Live} (hop : call.op = .progressStep token peer text percent)
      (henter : p.enter call.parentPid token peer = .ok (id, procedure))
      (htext : cleanText text maxReasonBytes ≠ "")
      (hpercent : ∀ part, percent = some part → part ≤ 100) :
      p.Move call
        { p with
          live := p.live.insert id (procedure.setProgress (cleanText text maxReasonBytes) percent) }
        (.stepped (procedure.setProgress (cleanText text maxReasonBytes) percent).step)
  | annotated {token : String} {peer : Nat} {label : String} {id : String} {procedure : Live}
      (hop : call.op = .annotate token peer label)
      (henter : p.enter call.parentPid token peer = .ok (id, procedure)) :
      p.Move call p (.stepped (procedure.relabelled (cleanText label maxLabelBytes)))
  | ended {id : String} (hop : call.op = .finish id) : p.Move call (p.finish id) .ended
  | listed (hop : call.op = .snapshot) : p.Move call p (.listed p.snapshot)

theorem numbers_none {p : Procedures} {call : ProcedureCall} (h : call.op.request = none) (id : String) :
    p.numbers call id = false := by
  simp [numbers, h]

theorem numbers_kept_out {p : Procedures} {call : ProcedureCall} {token message : String} {peer : Nat}
    {request : StepRequest} (hop : call.op.request = some (token, peer, request))
    (henter : p.enter call.parentPid token peer = .error message) (id : String) :
    p.numbers call id = false := by
  simp [numbers, hop, henter]

theorem numbers_entered {p : Procedures} {call : ProcedureCall} {token : String} {peer : Nat}
    {request : StepRequest} {entered : String} {procedure : Live}
    (hop : call.op.request = some (token, peer, request))
    (henter : p.enter call.parentPid token peer = .ok (entered, procedure)) (id : String) :
    p.numbers call id =
      (entered == id && !procedure.repeats request.label request.repeatable) := by
  simp [numbers, hop, henter]

theorem enter_ok {p : Procedures} {parentPid : ParentPid} {token : String} {peer : Nat} {id : String}
    {procedure : Live} (h : p.enter parentPid token peer = .ok (id, procedure)) :
    splitToken token = some (id, procedure.secret) ∧ p.live[id]? = some procedure ∧
      isSameOrDescendant parentPid peer procedure.owner = true := by
  unfold enter at h
  split at h
  next => cases h
  next id' secret hsplit =>
    split at h
    next => cases h
    next procedure' hlive =>
      obtain ⟨hget, hsame⟩ := Option.filter_eq_some_iff.mp hlive
      split at h
      next hdescends =>
        cases h
        rw [sameSecret_iff] at hsame
        exact ⟨by rw [hsplit, hsame], hget, hdescends⟩
      next => cases h

theorem insert_same {p : Procedures} {id : String} {procedure : Live}
    (h : p.live[id]? = some procedure) : p.live.insert id procedure = p.live := by
  apply Std.ExtTreeMap.ext_getElem?
  intro k
  rw [Std.ExtTreeMap.getElem?_insert]
  split
  next heq => rw [← Std.LawfulEqCmp.eq_of_compare heq, h]
  next => rfl

theorem numberStep_move {p : Procedures} {call : ProcedureCall} {token label : String} {peer : Nat}
    {deployment repeatable : Bool} {report : Option Report}
    (hop : call.op.request =
      some (token, peer, ⟨cleanText label maxLabelBytes, deployment, repeatable, report⟩)) :
    p.Move call
      (stepped (p.numberStep call.parentPid token peer label deployment repeatable report)).1
      (stepped (p.numberStep call.parentPid token peer label deployment repeatable report)).2 := by
  unfold numberStep joined
  split
  next henter => exact .refused (numbers_kept_out hop henter)
  next henter =>
    have hmove := Move.numbered hop henter
    simpa only [stepped, Live.take] using hmove

theorem begin_move (p : Procedures) {call : ProcedureCall} {owner : Nat} {title : String}
    {steps : Option Nat} {idRandom : Random 6} {secretRandom : Random 32}
    (hop : call.op = .begin owner title steps idRandom secretRandom) :
    p.Move call (p.exec call).1 (p.exec call).2 := by
  have hrequest := numbers_none (p := p) (show call.op.request = none by rw [hop]; rfl)
  simp only [exec, hop, begin]
  split
  next => exact .refused hrequest
  next htitle =>
    split
    next => exact .refused hrequest
    next hsteps =>
      split
      next => exact .refused hrequest
      next hsize =>
        have hcount : ∀ count, steps = some count → 0 < count ∧ count ≤ maxDeclaredSteps := by
          intro count hcount
          simp only [hcount, Option.any_some, Bool.or_eq_true, decide_eq_true_eq] at hsteps
          omega
        split
        next => exact .unbegun hop
        next => exact .unbegun hop
        next random secret hrandom hsecret =>
          exact .begun hop htitle hcount (by omega) hrandom hsecret rfl

theorem exec_move (p : Procedures) (call : ProcedureCall) :
    p.Move call (p.exec call).1 (p.exec call).2 := by
  cases hop : call.op with
  | begin owner title steps idRandom secretRandom => exact begin_move p hop
  | nextStep token peer label deployment repeatable =>
    simp only [exec, hop, nextStep]
    exact numberStep_move (by simp [hop, ProcedureOp.request])
  | failStep token peer label reason =>
    simp only [exec, hop, failStep]
    split
    next hreport =>
      exact .refused (numbers_none (by simp [hop, ProcedureOp.request, hreport, Except.toOption]))
    next hreport => exact numberStep_move (by simp [hop, ProcedureOp.request, hreport, Except.toOption])
  | warnStep token peer label reason =>
    simp only [exec, hop, warnStep]
    split
    next hreport =>
      exact .refused (numbers_none (by simp [hop, ProcedureOp.request, hreport, Except.toOption]))
    next hreport => exact numberStep_move (by simp [hop, ProcedureOp.request, hreport, Except.toOption])
  | progressStep token peer text percent =>
    have hrequest := numbers_none (p := p) (show call.op.request = none by rw [hop]; rfl)
    simp only [exec, hop, progressStep]
    split
    next => exact .refused hrequest
    next htext =>
      split
      next => exact .refused hrequest
      next hpercent =>
        unfold joined
        split
        next => exact .refused hrequest
        next henter =>
          refine .progressed hop henter htext fun part hpart => ?_
          simpa [hpart] using hpercent
  | annotate token peer label =>
    have hrequest := numbers_none (p := p) (show call.op.request = none by rw [hop]; rfl)
    simp only [exec, hop, annotate]
    split
    next => exact .refused hrequest
    next =>
      unfold joined
      split
      next => exact .refused hrequest
      next henter =>
        have hsame := insert_same (enter_ok henter).2.1
        simp only [hsame]
        exact .annotated hop henter
  | finish id =>
    simp only [exec, hop]
    exact .ended hop
  | snapshot =>
    simp only [exec, hop]
    exact .listed hop

end Procedures

end NixSecrets
