import NixSecrets.ProcedureStep

namespace NixSecrets

/-- What holds of a registered procedure. A failure is only ever reported for a step that a
further report about it stays on. -/
structure Live.Sound (id : String) (procedure : Live) : Prop where
  step : procedure.step.WellFormed
  key : procedure.step.id = id
  number : procedure.step.step ≤ maxStep
  failed : procedure.step.failure ≠ none → procedure.repeatable = true ∧ 0 < procedure.step.step

structure Procedures.Sound (p : Procedures) : Prop where
  next : p.next < 2 ^ 64
  live : ∀ (id : String) (procedure : Live), p.live[id]? = some procedure → procedure.Sound id

structure StepRequest.WellFormed (request : StepRequest) : Prop where
  label : request.label.utf8ByteSize ≤ maxLabelBytes
  failure : ∀ reason, request.report = some (.failure reason) →
    Bounded maxReasonBytes reason ∧ request.repeatable = true
  warning : ∀ reason, request.report = some (.warning reason) →
    Bounded maxReasonBytes reason ∧ request.repeatable = true

theorem reported_ok {label reason text : String} (h : reported label reason = .ok text) :
    Bounded maxReasonBytes text := by
  unfold reported at h
  split at h
  next => cases h
  next =>
    rw [← Except.ok.inj h]
    split
    next => decide
    next hne => exact ⟨hne, cleanText_length _ _⟩

theorem reported_toOption {label reason text : String}
    (h : (reported label reason).toOption = some text) : Bounded maxReasonBytes text := by
  cases hreport : reported label reason with
  | error => simp [hreport, Except.toOption] at h
  | ok text' =>
    simp only [hreport, Except.toOption, Option.some.injEq] at h
    exact h ▸ reported_ok hreport

theorem ProcedureOp.request_wellFormed {op : ProcedureOp} {token : String} {peer : Nat}
    {request : StepRequest} (h : op.request = some (token, peer, request)) : request.WellFormed := by
  cases op with
  | nextStep token' peer' label deployment repeatable =>
    cases Option.some.inj h
    exact ⟨cleanText_length _ _, by simp, by simp⟩
  | failStep token' peer' label reason =>
    rw [ProcedureOp.request, Option.map_eq_some_iff] at h
    obtain ⟨text, htext, h⟩ := h
    cases h
    exact ⟨cleanText_length _ _, by simp [reported_toOption htext], by simp⟩
  | warnStep token' peer' label reason =>
    rw [ProcedureOp.request, Option.map_eq_some_iff] at h
    obtain ⟨text, htext, h⟩ := h
    cases h
    exact ⟨cleanText_length _ _, by simp, by simp [reported_toOption htext]⟩
  | begin | progressStep | annotate | finish | snapshot => cases h

theorem ProcedureStep.record_step (step : ProcedureStep) (report : Option Report) :
    (step.record report).step = step.step := by
  rcases report with _ | (_ | _) <;> rfl

theorem ProcedureStep.record_id (step : ProcedureStep) (report : Option Report) :
    (step.record report).id = step.id := by
  rcases report with _ | (_ | _) <;> rfl

namespace Live

theorem take_number (procedure : Live) (request : StepRequest) :
    (procedure.take request).step.step =
      if procedure.repeats request.label request.repeatable then procedure.step.step
      else min (procedure.step.step + 1) maxStep := by
  rw [take, numberStep, ProcedureStep.record_step]
  show (procedure.advance request.label request.repeatable).step = _
  unfold advance
  split <;> rfl

theorem advance_wellFormed {procedure : Live} (h : procedure.step.WellFormed) (label : String)
    (repeatable : Bool) : (procedure.advance label repeatable).WellFormed := by
  unfold advance
  split
  next => exact h
  next => exact { h with
    failure := by simp
    warning := by simp
    progress := by simp }

theorem take_wellFormed {procedure : Live} {request : StepRequest} (h : procedure.step.WellFormed)
    (hrequest : request.WellFormed) : (procedure.take request).step.WellFormed := by
  have hnew := advance_wellFormed h request.label request.repeatable
  cases hreport : request.report with
  | none =>
    simp only [take, numberStep, ProcedureStep.record, hreport]
    exact { hnew with
      label := hrequest.label
      failure := by simp
      warning := by simp }
  | some report =>
    cases report with
    | failure reason =>
      simp only [take, numberStep, ProcedureStep.record, hreport]
      exact { hnew with
        label := hrequest.label
        failure := by simpa using (hrequest.failure reason hreport).1
        progress := by simp }
    | warning reason =>
      simp only [take, numberStep, ProcedureStep.record, hreport]
      exact { hnew with
        label := hrequest.label
        warning := by simpa using (hrequest.warning reason hreport).1
        progress := by simp }

theorem take_id (procedure : Live) (request : StepRequest) :
    (procedure.take request).step.id = procedure.step.id := by
  rw [take, numberStep, ProcedureStep.record_id]
  show (procedure.advance request.label request.repeatable).id = _
  unfold advance
  split <;> rfl

theorem take_repeatable (procedure : Live) (request : StepRequest) :
    (procedure.take request).repeatable = request.repeatable := rfl

theorem repeats_iff {procedure : Live} {label : String} {repeatable : Bool} :
    procedure.repeats label repeatable = true ↔ repeatable = true ∧ procedure.repeatable = true ∧
      0 < procedure.step.step ∧ procedure.step.label = label := by
  simp [repeats, and_assoc]

theorem take_positive {procedure : Live} (request : StepRequest) :
    0 < (procedure.take request).step.step := by
  rw [take_number]
  split
  next h => exact (repeats_iff.mp h).2.2.1
  next => exact Nat.lt_min.mpr ⟨by omega, by decide⟩

theorem Sound.take_sound {id : String} {procedure : Live} {request : StepRequest}
    (h : procedure.Sound id) (hrequest : request.WellFormed) : (procedure.take request).Sound id where
  step := take_wellFormed h.step hrequest
  key := (take_id procedure request).trans h.key
  number := by
    have hnumber := h.number
    rw [take_number]
    split
    next => exact hnumber
    next => exact Nat.min_le_right _ _
  failed := by
    intro hfailed
    have hrepeatable : request.repeatable = true := by
      cases hreport : request.report with
      | none => simp [take, numberStep, ProcedureStep.record, hreport] at hfailed
      | some report =>
        cases report with
        | failure reason => exact (hrequest.failure reason hreport).2
        | warning reason => exact (hrequest.warning reason hreport).2
    exact ⟨hrepeatable, take_positive request⟩

theorem Sound.setProgress_sound {id : String} {procedure : Live} {text : String} {percent : Option Nat}
    (h : procedure.Sound id) (htext : cleanText text maxReasonBytes ≠ "")
    (hpercent : ∀ part, percent = some part → part ≤ 100) :
    (procedure.setProgress (cleanText text maxReasonBytes) percent).Sound id where
  step := { h.step with
    progress := by
      intro progress hprogress
      cases Option.some.inj hprogress
      exact ⟨⟨htext, cleanText_length _ _⟩, hpercent⟩ }
  key := h.key
  number := h.number
  failed := h.failed

theorem relabelled_wellFormed {procedure : Live} (h : procedure.step.WellFormed) (label : String) :
    (procedure.relabelled (cleanText label maxLabelBytes)).WellFormed := by
  have hlabel := cleanText_length label maxLabelBytes
  generalize cleanText label maxLabelBytes = text at hlabel
  exact { h with
    label := hlabel
    failure := by simp [relabelled]
    warning := by simp [relabelled]
    progress := by simp [relabelled] }

end Live

def idChar (c : Char) : Bool := c.isAlphanum || c == '-'

theorem utf8Size_idChar {c : Char} (h : idChar c = true) : c.utf8Size = 1 := by
  have hval : c.toNat < 128 := by
    delta idChar Char.isAlphanum Char.isAlpha Char.isUpper Char.isLower Char.isDigit at h
    simp only [Bool.or_eq_true, Bool.and_eq_true, decide_eq_true_eq, beq_iff_eq] at h
    rcases h with ((h | h) | h) | h
    · have := UInt32.le_iff_toNat_le.mp h.2
      exact Nat.lt_of_le_of_lt this (by decide)
    · have := UInt32.le_iff_toNat_le.mp h.2
      exact Nat.lt_of_le_of_lt this (by decide)
    · have := UInt32.le_iff_toNat_le.mp h.2
      exact Nat.lt_of_le_of_lt this (by decide)
    · rw [h]
      decide
  exact Char.utf8Size_eq_one_iff.mpr (UInt32.le_iff_toNat_le.mpr (Nat.le_of_lt_succ hval))

theorem utf8Length_idChars {text : List Char} (h : text.all idChar = true) :
    utf8Length text = text.length := by
  induction text with
  | nil => rfl
  | cons c text ih =>
    rw [List.all_cons, Bool.and_eq_true] at h
    have hc := utf8Size_idChar h.1
    have hrest := ih h.2
    simp only [utf8Length, List.map_cons, List.sum_cons, List.length_cons] at hrest ⊢
    omega

theorem digitChar_idChar : ∀ d < 16, idChar (Nat.digitChar d) = true := by decide

theorem hexBytes_idChars (random : List UInt8) :
    (random.flatMap fun byte => (hexByte byte).toList).length = 2 * random.length ∧
      (random.flatMap fun byte => (hexByte byte).toList).all idChar = true := by
  induction random with
  | nil => exact ⟨rfl, rfl⟩
  | cons byte random ih =>
    have hbyte := byte.toNat_lt
    have hhigh := digitChar_idChar (byte.toNat / 16) (by omega)
    have hlow := digitChar_idChar (byte.toNat % 16) (by omega)
    have hhex : (hexByte byte).toList =
        [Nat.digitChar (byte.toNat / 16), Nat.digitChar (byte.toNat % 16)] := by simp [hexByte]
    rw [List.flatMap_cons, hhex, List.length_append, List.all_append, ih.1, ih.2]
    simp only [List.length_cons, List.length_nil, List.all_cons, List.all_nil, hhigh, hlow]
    exact ⟨by omega, rfl⟩

theorem randomHex_ok {bytes : Nat} {random : Random bytes} {text : String}
    (h : randomHex random = .ok text) :
    text.toList.length = 2 * bytes ∧ text.toList.all idChar = true := by
  cases random with
  | error => cases h
  | ok random =>
    obtain ⟨random, hlength⟩ := random
    cases h
    subst hlength
    rw [String.toList_join, List.flatMap_map]
    exact hexBytes_idChars random

def procedureId (next : Nat) (random : String) : List Char :=
  "proc-".toList ++ Nat.toDigits 10 next ++ ['-'] ++ random.toList

theorem procedureId_toList (next : Nat) (random : String) :
    ("proc-" ++ toString next ++ "-" ++ random).toList = procedureId next random := by
  have hdigits : (toString next).toList = Nat.toDigits 10 next := Nat.toList_repr
  rw [String.toList_append, String.toList_append, String.toList_append, hdigits]
  rfl

theorem procedureId_bounded {next : Nat} {random : Random 6} {text : String} (hnext : next < 2 ^ 64)
    (h : randomHex random = .ok text) :
    Bounded 128 ("proc-" ++ toString next ++ "-" ++ text) ∧
      ("proc-" ++ toString next ++ "-" ++ text).toList.all idChar = true := by
  obtain ⟨hlength, hrandom⟩ := randomHex_ok h
  have hdigits : (Nat.toDigits 10 next).all idChar = true := by
    refine List.all_eq_true.mpr fun c hc => ?_
    have hdigit := Nat.isDigit_of_mem_toDigits (by decide) (by decide) hc
    simp [idChar, Char.isAlphanum, hdigit]
  have hcount : (Nat.toDigits 10 next).length ≤ 20 :=
    (Nat.length_toDigits_le_iff (by decide) (by decide)).mpr (by omega)
  have hall : (procedureId next text).all idChar = true := by
    have hfront : "proc-".toList.all idChar = true := by decide
    show ("proc-".toList ++ Nat.toDigits 10 next ++ ['-'] ++ text.toList).all idChar = true
    rw [List.all_append, List.all_append, List.all_append, hfront, hdigits, hrandom]
    decide
  generalize hid : "proc-" ++ toString next ++ "-" ++ text = id
  have hlist : id.toList = procedureId next text := by rw [← hid, procedureId_toList]
  have hfront : "proc-".toList.length = 5 := by decide
  have hsize : id.utf8ByteSize = 5 + (Nat.toDigits 10 next).length + 1 + 12 := by
    rw [← String.ofList_toList (s := id), hlist, utf8ByteSize_text, utf8Length_idChars hall]
    show ("proc-".toList ++ Nat.toDigits 10 next ++ ['-'] ++ text.toList).length = _
    rw [List.length_append, List.length_append, List.length_append, hlength, hfront]
    rfl
  refine ⟨⟨?_, by omega⟩, by rwa [hlist]⟩
  intro hempty
  rw [hempty] at hsize
  have hzero : "".utf8ByteSize = 0 := rfl
  omega

namespace Procedures

theorem Sound.insert {p : Procedures} {id : String} {procedure : Live} {next : Nat}
    (h : p.Sound) (hnext : next < 2 ^ 64) (hprocedure : procedure.Sound id) :
    Sound { live := p.live.insert id procedure, next } where
  next := hnext
  live := by
    intro k found hfound
    simp only [Std.ExtTreeMap.getElem?_insert] at hfound
    split at hfound
    next heq =>
      cases Option.some.inj hfound
      rw [← Std.LawfulEqCmp.eq_of_compare heq]
      exact hprocedure
    next => exact h.live k found hfound

theorem Sound.of_live {p q : Procedures} (h : p.Sound) (hnext : q.next < 2 ^ 64)
    (hlive : ∀ (id : String) (procedure : Live), q.live[id]? = some procedure →
      p.live[id]? = some procedure) : q.Sound where
  next := hnext
  live := fun id procedure hget => h.live id procedure (hlive id procedure hget)

theorem exec_sound {p : Procedures} (h : p.Sound) (call : ProcedureCall) : (p.exec call).1.Sound := by
  have hmod : (p.next + 1) % 2 ^ 64 < 2 ^ 64 := Nat.mod_lt _ (by decide)
  generalize hafter : (p.exec call).1 = after
  generalize hreply : (p.exec call).2 = reply
  have hmove := exec_move p call
  rw [hafter, hreply] at hmove
  cases hmove with
  | refused => exact h
  | unbegun => exact h.of_live hmod fun _ _ hget => hget
  | begun hop htitle hsteps hsize hrandom hsecret hstep =>
    have hid := procedureId_bounded h.next hrandom
    apply h.insert hmod
    subst hstep
    exact
      { step :=
          { id := hid
            title := ⟨htitle, cleanText_length _ _⟩
            label := show "starting".utf8ByteSize ≤ maxLabelBytes by decide
            steps := hsteps
            failure := by simp
            warning := by simp
            progress := by simp }
        key := rfl
        number := Nat.zero_le _
        failed := by simp }
  | numbered hop henter =>
    obtain ⟨_, hget, _⟩ := enter_ok henter
    exact h.insert h.next ((h.live _ _ hget).take_sound (ProcedureOp.request_wellFormed hop))
  | progressed hop henter htext hpercent =>
    obtain ⟨_, hget, _⟩ := enter_ok henter
    exact h.insert h.next ((h.live _ _ hget).setProgress_sound htext hpercent)
  | annotated => exact h
  | ended =>
    refine h.of_live h.next fun id procedure hget => ?_
    simp only [finish, Std.ExtTreeMap.getElem?_erase] at hget
    split at hget
    next => cases hget
    next => exact hget
  | listed => exact h

theorem run_sound {p : Procedures} (h : p.Sound) (calls : List ProcedureCall) : (p.run calls).Sound := by
  induction calls generalizing p with
  | nil => exact h
  | cons call calls ih => exact ih (exec_sound h call)

theorem empty_sound : Sound {} where
  next := by decide
  live := by simp

end Procedures

end NixSecrets
