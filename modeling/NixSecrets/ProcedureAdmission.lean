import NixSecrets.ProcedureNumbers

namespace NixSecrets

/-- From a process to its parent, its parent's parent and so on. -/
def Descends (parentPid : ParentPid) : Nat → Nat → Prop :=
  Relation.ReflTransGen fun child parent => parentPid child = some parent

theorem climb_descends {parentPid : ParentPid} {ancestor fuel current : Nat}
    (h : climb parentPid ancestor fuel current = true) : Descends parentPid current ancestor := by
  induction fuel generalizing current with
  | zero => cases h
  | succ fuel ih =>
    rw [climb] at h
    split at h
    next hsame => exact hsame ▸ .refl
    next =>
      split at h
      next parent hparent =>
        split at h
        next => exact .head hparent (ih h)
        next => cases h
      next => cases h

def ProcedureOp.credentials : ProcedureOp → Option (String × Nat)
  | .nextStep token peer _ _ _ => some (token, peer)
  | .failStep token peer _ _ => some (token, peer)
  | .warnStep token peer _ _ => some (token, peer)
  | .progressStep token peer _ _ => some (token, peer)
  | .annotate token peer _ => some (token, peer)
  | .begin .. | .finish _ | .snapshot => none

def ProcedureOp.reportsOnly : ProcedureOp → Bool
  | .progressStep .. | .annotate .. => true
  | _ => false

theorem ProcedureOp.request_credentials {op : ProcedureOp} {token : String} {peer : Nat}
    {request : StepRequest} (h : op.request = some (token, peer, request)) :
    op.credentials = some (token, peer) := by
  cases op with
  | nextStep => cases h; rfl
  | failStep =>
    rw [ProcedureOp.request, Option.map_eq_some_iff] at h
    obtain ⟨text, -, h⟩ := h
    cases h
    rfl
  | warnStep =>
    rw [ProcedureOp.request, Option.map_eq_some_iff] at h
    obtain ⟨text, -, h⟩ := h
    cases h
    rfl
  | begin | progressStep | annotate | finish | snapshot => cases h

namespace Procedures

/-- The token is the one a live procedure got, and the process descends from the one that
started it. -/
def Admits (p : Procedures) (parentPid : ParentPid) (token : String) (peer : Nat) : Prop :=
  ∃ (id : String) (procedure : Live), p.live[id]? = some procedure ∧
    token = id ++ ":" ++ procedure.secret ∧ Descends parentPid peer procedure.owner

theorem enter_admits {p : Procedures} {parentPid : ParentPid} {token : String} {peer : Nat} {id : String}
    {procedure : Live} (h : p.enter parentPid token peer = .ok (id, procedure)) :
    p.Admits parentPid token peer := by
  obtain ⟨hsplit, hget, hdescends⟩ := enter_ok h
  exact ⟨id, procedure, hget, splitToken_some hsplit, climb_descends hdescends⟩

theorem exec_refuses {p : Procedures} {call : ProcedureCall} {token : String} {peer : Nat}
    (hop : call.op.credentials = some (token, peer)) (h : ¬ p.Admits call.parentPid token peer) :
    ∃ message, p.exec call = (p, .refused message) := by
  have hout {token' : String} {peer' : Nat} {id : String} {procedure : Live}
      (hop' : call.op.credentials = some (token', peer'))
      (henter : p.enter call.parentPid token' peer' = .ok (id, procedure)) : False := by
    cases Option.some.inj (hop.symm.trans hop')
    exact h (enter_admits henter)
  have hmove := exec_move p call
  generalize p.exec call = result at hmove
  obtain ⟨q, reply⟩ := result
  change p.Move call q reply at hmove
  cases hmove with
  | refused hnumbers => exact ⟨_, rfl⟩
  | unbegun hbegin => simp [hbegin, ProcedureOp.credentials] at hop
  | begun hbegin => simp [hbegin, ProcedureOp.credentials] at hop
  | numbered hrequest henter => exact (hout (ProcedureOp.request_credentials hrequest) henter).elim
  | progressed hprogress henter => exact (hout (by rw [hprogress]; rfl) henter).elim
  | annotated hannotate henter => exact (hout (by rw [hannotate]; rfl) henter).elim
  | ended hend => simp [hend, ProcedureOp.credentials] at hop
  | listed hlist => simp [hlist, ProcedureOp.credentials] at hop

end Procedures

def ProcedureReply.steps : ProcedureReply → List ProcedureStep
  | .begun step _ => [step]
  | .stepped step => [step]
  | .listed steps => steps
  | .ended | .refused _ => []

namespace Procedures

theorem exec_steps {p : Procedures} (h : p.Sound) (call : ProcedureCall) :
    ∀ step ∈ (p.exec call).2.steps, step.validate = .ok () := by
  have hsound := exec_sound h call
  have hmove := exec_move p call
  generalize (p.exec call).1 = q at hmove hsound
  generalize (p.exec call).2 = reply at hmove
  have hinserted {id : String} {procedure : Live} {next : Nat}
      (hs : Sound { live := p.live.insert id procedure, next }) : procedure.step.WellFormed :=
    (hs.live id procedure (by simp)).step
  intro step hstep
  apply ProcedureStep.validate_ok
  cases hmove with
  | refused => cases hstep
  | unbegun => cases hstep
  | begun =>
    cases List.mem_singleton.mp hstep
    exact hinserted hsound
  | numbered =>
    cases List.mem_singleton.mp hstep
    exact hinserted hsound
  | progressed =>
    cases List.mem_singleton.mp hstep
    exact hinserted hsound
  | annotated hop henter =>
    cases List.mem_singleton.mp hstep
    exact Live.relabelled_wellFormed (h.live _ _ (enter_ok henter).2.1).step _
  | ended => cases hstep
  | listed =>
    obtain ⟨⟨id, procedure⟩, hentry, rfl⟩ := List.mem_map.mp hstep
    exact (h.live id procedure (Std.ExtTreeMap.mem_toList_iff_getElem?_eq_some.mp hentry)).step

end Procedures

namespace Procedures

/-- A request that leaves the number is a repeat of a repeatable step. -/
theorem request_number {p : Procedures} {call : ProcedureCall} {token : String} {peer : Nat}
    {request : StepRequest} {id : String} {before after : Live} (hsound : p.Sound)
    (hop : call.op.request = some (token, peer, request))
    (henter : p.enter call.parentPid token peer = .ok (id, before))
    (hafter : (p.exec call).1.live[id]? = some after) (hstays : after.step.step = before.step.step) :
    before.step.step = maxStep ∨ (request.repeatable = true ∧ before.repeatable = true ∧
      before.step.label = request.label) := by
  have hbefore := (enter_ok henter).2.1
  have hbound := (hsound.live id before hbefore).number
  have hnew : (p.exec call).2.begins id = false := by
    have hmove := exec_move p call
    generalize (p.exec call).1 = q at hmove
    generalize (p.exec call).2 = reply at hmove
    cases hmove with
    | begun hbegin => simp [hbegin, ProcedureOp.request] at hop
    | refused | unbegun | numbered | progressed | annotated | ended | listed => rfl
  have hnumber := (exec_change hbefore hafter hnew).number hbound
  rw [numbers_entered hop henter] at hnumber
  cases hrepeats : before.repeats request.label request.repeatable with
  | true =>
    obtain ⟨hrepeatable, hbefore', -, hlabel⟩ := Live.repeats_iff.mp hrepeats
    exact .inr ⟨hrepeatable, hbefore', hlabel⟩
  | false =>
    simp only [hrepeats, beq_self_eq_true, Bool.not_false, Bool.and_true, Bool.toNat_true] at hnumber
    exact .inl (by omega)

theorem reports_number {p : Procedures} {call : ProcedureCall} (hop : call.op.reportsOnly = true)
    (id : String) :
    (p.exec call).1.live[id]?.map (·.step.step) = p.live[id]?.map (·.step.step) := by
  have hmove := exec_move p call
  generalize (p.exec call).1 = q at hmove
  generalize (p.exec call).2 = reply at hmove
  cases hmove with
  | refused => rfl
  | unbegun => rfl
  | begun hbegin => simp [hbegin, ProcedureOp.reportsOnly] at hop
  | numbered hrequest henter =>
    cases hcall : call.op <;> simp [hcall, ProcedureOp.reportsOnly, ProcedureOp.request] at hop hrequest
  | progressed hprogress henter =>
    simp only [Std.ExtTreeMap.getElem?_insert]
    split
    next heq =>
      rw [← Std.LawfulEqCmp.eq_of_compare heq, (enter_ok henter).2.1]
      rfl
    next => rfl
  | annotated => rfl
  | ended hend => simp [hend, ProcedureOp.reportsOnly] at hop
  | listed => rfl

/-- Over every sequence of operations the step number of a procedure grows by one with each
numbered step, up to the largest `u32`, and only the processes of its owner change it. -/
theorem procedure_steps (calls : List ProcedureCall) :
    (∀ (more : List ProcedureCall) (id : String) (before : Live),
      (run {} calls).live[id]? = some before → (run {} calls).remains id more = true →
      ∃ after, ((run {} calls).run more).live[id]? = some after ∧
        before.step.step ≤ after.step.step ∧
        after.step.step = min (before.step.step + (run {} calls).numbered id more) maxStep ∧
        ∀ reason, before.step.failure = some reason →
          (run {} calls).onlyWarned id more = true → after.step.failure = some reason) ∧
    (∀ (call : ProcedureCall) (token : String) (peer : Nat) (request : StepRequest) (id : String)
      (before after : Live), call.op.request = some (token, peer, request) →
      (run {} calls).enter call.parentPid token peer = .ok (id, before) →
      ((run {} calls).exec call).1.live[id]? = some after →
      after.step.step = before.step.step → before.step.step = maxStep ∨
        (request.repeatable = true ∧ before.repeatable = true ∧ before.step.label = request.label)) ∧
    (∀ call : ProcedureCall, call.op.reportsOnly = true → ∀ id : String,
      ((run {} calls).exec call).1.live[id]?.map (·.step.step) =
        (run {} calls).live[id]?.map (·.step.step)) ∧
    (∀ call : ProcedureCall, ∀ step ∈ ((run {} calls).exec call).2.steps, step.validate = .ok ()) ∧
    ∀ (call : ProcedureCall) (token : String) (peer : Nat),
      call.op.credentials = some (token, peer) →
      ¬ (run {} calls).Admits call.parentPid token peer →
      ∃ message, (run {} calls).exec call = (run {} calls, .refused message) := by
  have hsound : (run {} calls).Sound := run_sound empty_sound calls
  refine ⟨?_, ?_, ?_, exec_steps hsound, ?_⟩
  · intro more id before hbefore hremains
    have hbound := (hsound.live id before hbefore).number
    obtain ⟨after, hafter, hnumber⟩ := run_number hsound hbefore hremains
    refine ⟨after, hafter, by omega, hnumber, ?_⟩
    intro reason hfailed hwarned
    exact run_failure hsound hbefore hfailed hremains hwarned hafter
  · intro call token peer request id before after hop henter hafter hstays
    exact request_number hsound hop henter hafter hstays
  · intro call hop id
    exact reports_number hop id
  · intro call token peer hop hout
    exact exec_refuses hop hout

/-- Process 1 begins a procedure and reports on it. -/
def zeros (bytes : Nat) : Random bytes := .ok ⟨List.replicate bytes 0, List.length_replicate⟩

def update : ProcedureCall := ⟨fun _ => none, .begin 1 "Update ns1" (some 3) (zeros 6) (zeros 32)⟩

def updateId : String := "proc-0-000000000000"

def updateToken : String := updateId ++ ":" ++ String.ofList (List.replicate 64 '0')

def switchFailed : ProcedureCall := ⟨fun _ => none, .failStep updateToken 1 "switch ns1" "rolled back"⟩

def switchWarned : ProcedureCall := ⟨fun _ => none, .warnStep updateToken 1 "switch ns1" "units failed"⟩

theorem switch_reported : (run {} [update, switchFailed]).remains updateId [switchWarned] = true ∧
    (run {} [update, switchFailed]).numbered updateId [switchWarned] = 0 ∧
    (run {} [update, switchFailed]).onlyWarned updateId [switchWarned] = true ∧
    ∃ before, (run {} [update, switchFailed]).live[updateId]? = some before ∧
      before.step.step = 1 ∧ before.step.failure = some "rolled back" := by decide

theorem switch_stays_failed :
    ∃ after, (run {} [update, switchFailed, switchWarned]).live[updateId]? = some after ∧
      after.step.step = 1 ∧ after.step.failure = some "rolled back" := by
  obtain ⟨hremains, hnumbered, hwarned, before, hbefore, hone, hfailed⟩ := switch_reported
  obtain ⟨after, hafter, -, hnumber, hkept⟩ :=
    (procedure_steps [update, switchFailed]).1 [switchWarned] updateId before hbefore hremains
  refine ⟨after, hafter, ?_, hkept "rolled back" hfailed hwarned⟩
  rw [hnumber, hnumbered, hone]
  decide

/-- A step that is numbered on its own each time. -/
def sign : ProcedureCall := ⟨fun _ => none, .nextStep updateToken 1 "sign" false false⟩

def zeroSecret : String := String.ofList (List.replicate 64 '0')

theorem sign_enters {p : Procedures} {before : Live} (hlive : p.live[updateId]? = some before)
    (hsecret : before.secret = zeroSecret) (howner : before.owner = 1) :
    p.enter sign.parentPid updateToken 1 = .ok (updateId, before) := by
  have hsplit : splitToken updateToken = some (updateId, zeroSecret) := by decide
  have hsame : sameSecret before.secret zeroSecret = true := sameSecret_iff.mpr hsecret
  have hdescends : isSameOrDescendant sign.parentPid 1 before.owner = true := by
    rw [howner]
    rfl
  simp only [enter, hsplit, hlive, Option.filter_some, hsame, if_true, hdescends]

theorem sign_exec {p : Procedures} {before : Live} (hlive : p.live[updateId]? = some before)
    (hsecret : before.secret = zeroSecret) (howner : before.owner = 1) :
    ∃ after, (p.exec sign).1.live[updateId]? = some after ∧ after.secret = zeroSecret ∧
      after.owner = 1 ∧ after.step.step = min (before.step.step + 1) maxStep ∧
      (p.exec sign).2.begins updateId = false ∧ p.numbers sign updateId = true := by
  have henter := sign_enters hlive hsecret howner
  have hrequest : sign.op.request = some (updateToken, 1, ⟨"sign", false, false, none⟩) := by
    decide
  have hexec : p.exec sign =
      ({ p with live := p.live.insert updateId (before.take ⟨"sign", false, false, none⟩) },
        .stepped (before.take ⟨"sign", false, false, none⟩).step) := by
    have hlabel : cleanText "sign" maxLabelBytes = "sign" := by decide
    simp only [exec, sign, nextStep, numberStep, joined, stepped, hlabel]
    rw [show p.enter (fun _ => none) updateToken 1 = .ok (updateId, before) from henter]
    rfl
  refine ⟨before.take ⟨"sign", false, false, none⟩, by rw [hexec]; simp, hsecret, howner, ?_, ?_, ?_⟩
  · rw [Live.take_number]
    rfl
  · rw [hexec]
    rfl
  · rw [numbers_entered hrequest henter]
    simp [Live.repeats]

theorem update_begun : ∃ begun, (run {} [update]).live[updateId]? = some begun ∧
    begun.secret = zeroSecret ∧ begun.owner = 1 ∧ begun.step.step = 0 := by decide

theorem signs_number (count : Nat) : ∃ calls before, (run {} calls).live[updateId]? = some before ∧
    before.secret = zeroSecret ∧ before.owner = 1 ∧ before.step.step = min count maxStep := by
  induction count with
  | zero => exact ⟨[update], update_begun⟩
  | succ count ih =>
    obtain ⟨calls, before, hlive, hsecret, howner, hcount⟩ := ih
    obtain ⟨after, hafter, hsecret', howner', hnumber, -⟩ := sign_exec hlive hsecret howner
    refine ⟨calls ++ [sign], after, ?_, hsecret', howner', by omega⟩
    rw [run, List.foldl_append]
    exact hafter

/-- The step after number 4294967295 has that number too. -/
theorem number_stays_at_maximum :
    ¬ ∀ (calls : List ProcedureCall) (call : ProcedureCall) (id : String) (before after : Live),
      (run {} calls).live[id]? = some before → ((run {} calls).exec call).1.live[id]? = some after →
      (run {} calls).remains id [call] = true → (run {} calls).numbers call id = true →
      after.step.step = before.step.step + 1 := by
  intro hall
  obtain ⟨calls, before, hbefore, hsecret, howner, hnumber⟩ := signs_number maxStep
  obtain ⟨after, hafter, -, -, hstays, hnew, hnumbers⟩ := sign_exec hbefore hsecret howner
  have hremains : (run {} calls).remains updateId [sign] = true := by
    simp only [remains, Std.ExtTreeMap.contains_eq_isSome_getElem?, hafter, hnew]
    rfl
  have hgrows := hall calls sign updateId before after hbefore hafter hremains hnumbers
  omega

end Procedures

end NixSecrets
