import NixSecrets.ProcedureNumbers

namespace NixSecrets

theorem procedureId_inj {m n : Nat} {left right : String}
    (h : procedureId m left = procedureId n right) : m = n := by
  have hdigits (k : Nat) (rest : List Char) :
      ((Nat.toDigits 10 k ++ ['-'] ++ rest).takeWhile Char.isDigit) = Nat.toDigits 10 k := by
    rw [List.append_assoc, List.takeWhile_append_of_pos]
    · simp
    · intro c hc
      exact Nat.isDigit_of_mem_toDigits (by decide) (by decide) hc
  have htail : Nat.toDigits 10 m ++ ['-'] ++ left.toList = Nat.toDigits 10 n ++ ['-'] ++ right.toList := by
    have h' : "proc-".toList ++ (Nat.toDigits 10 m ++ ['-'] ++ left.toList) =
        "proc-".toList ++ (Nat.toDigits 10 n ++ ['-'] ++ right.toList) := by
      rw [← List.append_assoc, ← List.append_assoc, ← List.append_assoc, ← List.append_assoc]
      exact h
    exact List.append_cancel_left h'
  have hsame := congrArg (List.takeWhile Char.isDigit) htail
  rw [hdigits, hdigits] at hsame
  have hvalue := congrArg (fun digits => Nat.ofDigitChars 10 digits 0) hsame
  simpa [Nat.ofDigitChars_toDigits] using hvalue

def ProcedureOp.isBegin : ProcedureOp → Bool
  | .begin .. => true
  | _ => false

def begins (calls : List ProcedureCall) : Nat := calls.countP fun call => call.op.isBegin

namespace Procedures

/-- The id was handed out, with the number the counter had then. -/
def IssuedId (p : Procedures) (id : String) : Prop :=
  ∃ (number : Nat) (random : String), number < p.next ∧ id.toList = procedureId number random

def Issued (p : Procedures) : Prop :=
  ∀ (id : String) (procedure : Live), p.live[id]? = some procedure → p.IssuedId id

theorem IssuedId.of_le {p q : Procedures} {id : String} (h : p.IssuedId id) (hnext : p.next ≤ q.next) :
    q.IssuedId id := by
  obtain ⟨number, random, hnumber, hid⟩ := h
  exact ⟨number, random, Nat.lt_of_lt_of_le hnumber hnext, hid⟩

/-- The counter counts registrations, as long as it does not overflow. -/
theorem exec_next {p : Procedures} {call : ProcedureCall}
    (hroom : call.op.isBegin = true → p.next + 1 < 2 ^ 64) :
    p.next ≤ (p.exec call).1.next ∧ (p.exec call).1.next ≤ p.next + call.op.isBegin.toNat := by
  have hmove := exec_move p call
  generalize (p.exec call).1 = q at hmove
  generalize (p.exec call).2 = reply at hmove
  cases hmove with
  | unbegun hop =>
    have hbegin : call.op.isBegin = true := by rw [hop]; rfl
    show p.next ≤ (p.next + 1) % 2 ^ 64 ∧ (p.next + 1) % 2 ^ 64 ≤ p.next + call.op.isBegin.toNat
    rw [Nat.mod_eq_of_lt (hroom hbegin), hbegin]
    exact ⟨Nat.le_succ _, Nat.le_refl _⟩
  | begun hop =>
    have hbegin : call.op.isBegin = true := by rw [hop]; rfl
    show p.next ≤ (p.next + 1) % 2 ^ 64 ∧ (p.next + 1) % 2 ^ 64 ≤ p.next + call.op.isBegin.toNat
    rw [Nat.mod_eq_of_lt (hroom hbegin), hbegin]
    exact ⟨Nat.le_succ _, Nat.le_refl _⟩
  | refused | numbered | progressed | annotated | ended | listed =>
    exact ⟨Nat.le_refl _, Nat.le_add_right _ _⟩

/-- What a call leaves registered was registered before or is the procedure it began. -/
theorem exec_live {p : Procedures} {call : ProcedureCall} {id : String} {after : Live}
    (h : (p.exec call).1.live[id]? = some after) :
    (∃ before, p.live[id]? = some before) ∨ (p.exec call).2.begins id = true := by
  have hmove := exec_move p call
  generalize (p.exec call).1 = q at hmove h
  generalize (p.exec call).2 = reply at hmove
  cases hmove with
  | refused | unbegun | annotated | listed => exact .inl ⟨after, h⟩
  | begun =>
    obtain ⟨heq, -⟩ | ⟨-, hget⟩ := insert_get h
    · exact .inr (by simp [ProcedureReply.begins, heq])
    · exact .inl ⟨after, hget⟩
  | numbered hop henter =>
    obtain ⟨heq, -⟩ | ⟨-, hget⟩ := insert_get h
    · exact .inl ⟨_, heq ▸ (enter_ok henter).2.1⟩
    · exact .inl ⟨after, hget⟩
  | progressed hop henter =>
    obtain ⟨heq, -⟩ | ⟨-, hget⟩ := insert_get h
    · exact .inl ⟨_, heq ▸ (enter_ok henter).2.1⟩
    · exact .inl ⟨after, hget⟩
  | ended =>
    simp only [finish, Std.ExtTreeMap.getElem?_erase] at h
    split at h
    next => cases h
    next => exact .inl ⟨after, h⟩

/-- A new procedure has the number that the counter had. -/
theorem begins_id {p : Procedures} {call : ProcedureCall} {id : String}
    (h : (p.exec call).2.begins id = true) :
    call.op.isBegin = true ∧ ∃ random, id.toList = procedureId p.next random := by
  have hmove := exec_move p call
  generalize (p.exec call).1 = q at hmove
  generalize (p.exec call).2 = reply at hmove h
  cases hmove with
  | begun hop htitle hsteps hsize hrandom hsecret hstep =>
    rw [← beq_iff_eq.mp h, hstep]
    exact ⟨by rw [hop]; rfl, _, procedureId_toList _ _⟩
  | refused | unbegun | numbered | progressed | annotated | ended | listed => cases h

theorem begins_unissued {p : Procedures} {call : ProcedureCall} {id : String}
    (h : (p.exec call).2.begins id = true) : ¬ p.IssuedId id := by
  rintro ⟨number, random, hnumber, hid⟩
  obtain ⟨-, random', hid'⟩ := begins_id h
  have hnext := procedureId_inj (hid.symm.trans hid')
  omega

theorem begins_next {p : Procedures} {call : ProcedureCall} {id : String}
    (hroom : call.op.isBegin = true → p.next + 1 < 2 ^ 64) (h : (p.exec call).2.begins id = true) :
    p.next < (p.exec call).1.next := by
  have hmove := exec_move p call
  generalize (p.exec call).1 = q at hmove
  generalize (p.exec call).2 = reply at hmove h
  cases hmove with
  | begun hop =>
    have hbegin : call.op.isBegin = true := by rw [hop]; rfl
    show p.next < (p.next + 1) % 2 ^ 64
    rw [Nat.mod_eq_of_lt (hroom hbegin)]
    exact Nat.lt_succ_self _
  | refused | unbegun | numbered | progressed | annotated | ended | listed => cases h

theorem exec_issued {p : Procedures} {call : ProcedureCall} (h : p.Issued)
    (hroom : call.op.isBegin = true → p.next + 1 < 2 ^ 64) : (p.exec call).1.Issued := by
  intro id procedure hget
  rcases exec_live hget with ⟨before, hbefore⟩ | hbegins
  · exact (h id before hbefore).of_le (exec_next hroom).1
  · obtain ⟨-, random, hid⟩ := begins_id hbegins
    exact ⟨p.next, random, begins_next hroom hbegins, hid⟩

theorem run_issued {p : Procedures} {calls : List ProcedureCall} (h : p.Issued)
    (hcount : p.next + begins calls < 2 ^ 64) : (p.run calls).Issued := by
  induction calls generalizing p with
  | nil => exact h
  | cons call calls ih =>
    have hbegins : begins (call :: calls) = call.op.isBegin.toNat + begins calls := by
      simp only [begins, List.countP_cons]
      cases call.op.isBegin with
      | true => exact Nat.add_comm _ _
      | false => exact (Nat.zero_add _).symm
    have hroom : call.op.isBegin = true → p.next + 1 < 2 ^ 64 := by
      intro hop
      rw [hbegins, hop, Bool.toNat_true] at hcount
      omega
    have hnext := Nat.add_le_add_right (exec_next hroom).2 (begins calls)
    have hrest : p.next + call.op.isBegin.toNat + begins calls < 2 ^ 64 := by omega
    exact ih (exec_issued h hroom) (Nat.lt_of_le_of_lt hnext hrest)

/-- Before the counter is used up, a new procedure gets an id that no live one has. -/
theorem begun_new {calls : List ProcedureCall} (h : begins calls < 2 ^ 64) {call : ProcedureCall}
    {id : String} (hbegins : ((run {} calls).exec call).2.begins id = true) :
    (run {} calls).live[id]? = none := by
  have hempty : Issued {} := fun id procedure hget => by simp at hget
  have hzero : Procedures.next {} + begins calls < 2 ^ 64 := by simpa using h
  have hissued := run_issued hempty hzero
  cases hget : (run {} calls).live[id]? with
  | none => rfl
  | some procedure => exact absurd (hissued id procedure hget) (begins_unissued hbegins)

end Procedures

end NixSecrets
