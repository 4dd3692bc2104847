import NixSecrets.HostKeys
import NixSecrets.Utf8Lossy

namespace NixSecrets.OnePassword

open Utf8Lossy

def messageBytes : Nat := 4096

/-- How a run of the 1Password CLI went, with the bytes it printed. -/
inductive Ran
  | notStarted (error : String)
  | notAwaited (error : String)
  | exited (success : Bool) (stdout stderr : List UInt8)
  deriving DecidableEq, Repr

/-- The CLI begins errors with `[ERROR] YYYY/MM/DD HH:MM:SS `. -/
def stripLogPrefix (line : List Char) : Checked String (List Char) :=
  match strip "[ERROR] ".toList line with
  | some rest =>
    if 20 < utf8Length rest then Checked.orPanic (sliceBytes rest 20 (utf8Length rest)) else return line
  | none => return line

def stripAll : List (List Char) → Checked String (List (List Char))
  | [] => return []
  | line :: rest => do
    let line ← stripLogPrefix (trim line)
    let rest ← stripAll rest
    return if line = [] then rest else line :: rest

/-- Why 1Password did not authorize, from what the CLI printed. -/
def refusal {α : Type} (stderr : List UInt8) : Checked String α := do
  let message ← stripAll (HostKey.lines (fromUtf8Lossy stderr))
  Checked.refuse ("1Password authorization failed: " ++ String.ofList ([' '].intercalate message))

def authorize : Ran → Checked String Unit
  | .notStarted error => Checked.refuse ("1Password CLI could not be started: op: " ++ error)
  | .notAwaited error => Checked.refuse ("1Password CLI failed: " ++ error)
  | .exited success _ stderr => if success then return () else refusal (stderr.take messageBytes)

def op : Ran → Checked String (List UInt8)
  | .notStarted error => Checked.refuse ("1Password CLI could not be started: op: " ++ error)
  | .notAwaited error => Checked.refuse ("1Password CLI could not be started: op: " ++ error)
  | .exited success stdout stderr => if success then return stdout else refusal stderr

/-- A character ends with the twentieth byte of the text. -/
def CutAtTwenty (text : List Char) : Prop := ∃ front back, text = front ++ back ∧ utf8Length front = 20

/-- Whatever follows the prefix of a log line, a character ends where its time stamp should. -/
def LogLine (line : List Char) : Prop :=
  ∀ rest, trim line = "[ERROR] ".toList ++ rest → 20 < utf8Length rest → CutAtTwenty rest

/-- A run that fails with this on stderr is reported with a message. -/
def Reported (stderr : List UInt8) : Prop :=
  ∀ stdout, (∃ message, authorize (.exited false stdout stderr) = Checked.refuse message) ∧
    ∃ message, op (.exited false stdout stderr) = Checked.refuse message

section

/-- A text is split at a byte exactly between two characters. -/
theorem splitAtByte_isSome {text : List Char} {offset : Nat} :
    (splitAtByte offset text).isSome ↔ ∃ front back, text = front ++ back ∧ utf8Length front = offset := by
  constructor
  · intro h
    obtain ⟨⟨front, back⟩, hsplit⟩ := Option.isSome_iff_exists.mp h
    clear h
    refine ⟨front, back, ?_⟩
    induction text generalizing offset front with
    | nil =>
      cases offset with
      | zero =>
        rw [splitAtByte] at hsplit
        cases hsplit
        exact ⟨rfl, rfl⟩
      | succ offset =>
        rw [splitAtByte] at hsplit
        cases hsplit
    | cons c text ih =>
      cases offset with
      | zero =>
        rw [splitAtByte] at hsplit
        cases hsplit
        exact ⟨rfl, rfl⟩
      | succ offset =>
        rw [splitAtByte] at hsplit
        split at hsplit
        next hfits =>
          obtain ⟨⟨front', back'⟩, hrest, hsplit⟩ := Option.map_eq_some_iff.mp hsplit
          cases hsplit
          obtain ⟨htext, hlength⟩ := ih front' hrest
          have hc : utf8Length (c :: front') = c.utf8Size + utf8Length front' := by simp [utf8Length]
          refine ⟨by rw [htext, List.cons_append], ?_⟩
          rw [hc, hlength]
          omega
        next => cases hsplit
  · intro h
    obtain ⟨front, back, htext, hlength⟩ := h
    rw [htext, ← hlength, splitAtByte_append]
    rfl

theorem slice_answers {rest : List Char} (hlong : 20 < utf8Length rest) :
    (sliceBytes rest 20 (utf8Length rest)).isSome ↔ CutAtTwenty rest := by
  have horder : ¬ utf8Length rest < 20 := by omega
  constructor
  · intro h
    apply splitAtByte_isSome.mp
    cases hsplit : splitAtByte 20 rest with
    | none =>
      simp only [sliceBytes, if_neg horder, hsplit] at h
      cases h
    | some parts => rfl
  · intro h
    obtain ⟨front, back, htext, hlength⟩ := h
    have hslice := sliceBytes_append front back []
    have hwhole : utf8Length rest = utf8Length front + utf8Length back := by rw [htext, utf8Length_append]
    rw [List.append_nil, ← htext, ← hwhole, hlength] at hslice
    rw [hslice]
    rfl

theorem stripLogPrefix_answers {line : List Char} : (stripLogPrefix (trim line)).Answers ↔ LogLine line := by
  unfold stripLogPrefix LogLine
  cases hstrip : strip "[ERROR] ".toList (trim line) with
  | none =>
    refine iff_of_true (Checked.answers_pure _) ?_
    intro rest htext
    rw [strip_eq_some.mpr htext] at hstrip
    cases hstrip
  | some rest =>
    have hline := strip_eq_some.mp hstrip
    dsimp only
    by_cases hlong : 20 < utf8Length rest
    · rw [if_pos hlong, Checked.answers_orPanic, slice_answers hlong]
      constructor
      · intro h rest' htext _
        have hrest : rest' = rest := List.append_cancel_left (htext.symm.trans hline)
        rw [hrest]
        exact h
      · intro h
        exact h rest hline hlong
    · rw [if_neg hlong]
      refine iff_of_true (Checked.answers_pure _) ?_
      intro rest' htext hlong'
      have hrest : rest' = rest := List.append_cancel_left (htext.symm.trans hline)
      rw [hrest] at hlong'
      exact absurd hlong' hlong

/-- Nothing that is stripped refuses a line. -/
theorem stripLogPrefix_accepts {line : List Char} (h : (stripLogPrefix line).Answers) :
    ∃ stripped, stripLogPrefix line = .ok stripped := by
  unfold stripLogPrefix at h ⊢
  cases hstrip : strip "[ERROR] ".toList line with
  | none => exact ⟨line, rfl⟩
  | some rest =>
    rw [hstrip] at h
    dsimp only at h ⊢
    by_cases hlong : 20 < utf8Length rest
    · rw [if_pos hlong] at h ⊢
      obtain ⟨slice, hslice⟩ := Option.isSome_iff_exists.mp (Checked.answers_orPanic.mp h)
      exact ⟨slice, by rw [hslice]; rfl⟩
    · rw [if_neg hlong]
      exact ⟨line, rfl⟩

theorem stripLogPrefix_error {line : List Char} {stop : Stop String} (h : stripLogPrefix line = .error stop) :
    stop = .panicked := by
  by_contra hstop
  have hanswers : (stripLogPrefix line).Answers := by
    intro hpanic
    rw [h] at hpanic
    cases hpanic
    exact hstop rfl
  obtain ⟨stripped, hstripped⟩ := stripLogPrefix_accepts hanswers
  rw [hstripped] at h
  cases h

theorem stripAll_error {ls : List (List Char)} {stop : Stop String} (h : stripAll ls = .error stop) :
    stop = .panicked := by
  induction ls with
  | nil => cases h
  | cons line rest ih =>
    rw [stripAll] at h
    cases hfirst : stripLogPrefix (trim line) with
    | error stop' =>
      rw [hfirst] at h
      cases h
      exact stripLogPrefix_error hfirst
    | ok first =>
      cases hothers : stripAll rest with
      | error stop' =>
        rw [hfirst, hothers] at h
        cases h
        exact ih hothers
      | ok others =>
        rw [hfirst, hothers] at h
        cases h

theorem stripAll_iff (ls : List (List Char)) :
    (∃ stripped, stripAll ls = .ok stripped) ↔ ∀ line ∈ ls, LogLine line := by
  induction ls with
  | nil => exact iff_of_true ⟨[], rfl⟩ (by simp)
  | cons line rest ih =>
    rw [List.forall_mem_cons, ← ih, ← stripLogPrefix_answers]
    constructor
    · intro h
      obtain ⟨stripped, h⟩ := h
      rw [stripAll] at h
      obtain ⟨first, hfirst, h⟩ := Checked.bind_ok h
      obtain ⟨others, hothers, _⟩ := Checked.bind_ok h
      exact ⟨by rw [hfirst]; exact Checked.answers_ok first, others, hothers⟩
    · intro h
      obtain ⟨hfirst, others, hothers⟩ := h
      obtain ⟨first, hfirst⟩ := stripLogPrefix_accepts hfirst
      rw [stripAll, hfirst, hothers]
      exact ⟨_, rfl⟩

theorem refusal_iff {α : Type} (stderr : List UInt8) :
    (∃ message, (refusal stderr : Checked String α) = Checked.refuse message) ↔
      ∀ line ∈ HostKey.lines (fromUtf8Lossy stderr), LogLine line := by
  rw [← stripAll_iff, refusal]
  constructor
  · intro h
    obtain ⟨message, h⟩ := h
    cases hstrip : stripAll (HostKey.lines (fromUtf8Lossy stderr)) with
    | ok stripped => exact ⟨stripped, rfl⟩
    | error stop =>
      rw [hstrip, stripAll_error hstrip] at h
      cases h
  · intro h
    obtain ⟨stripped, h⟩ := h
    rw [h]
    exact ⟨_, rfl⟩

end

/-- A failed run is reported with a message exactly if no line of what was read from it is cut within a character. -/
theorem reported_iff (stderr : List UInt8) : Reported stderr ↔
    (∀ line ∈ HostKey.lines (fromUtf8Lossy (stderr.take messageBytes)), LogLine line) ∧
      ∀ line ∈ HostKey.lines (fromUtf8Lossy stderr), LogLine line := by
  have hauthorize := refusal_iff (α := Unit) (stderr.take messageBytes)
  have hop := refusal_iff (α := List UInt8) stderr
  rw [← hauthorize, ← hop]
  constructor
  · intro h
    exact h []
  · intro h stdout
    exact h

/-- A log line with a character of two bytes where the blank after the time should be. -/
def cutLine : List Char := "[ERROR] 2026/09/25 14:18:04é refused".toList

/-- What the CLI prints may end the launcher itself. -/
theorem cutLine_unreported : authorize (.exited false [] (utf8Bytes cutLine)) = .error .panicked ∧
    op (.exited false [] (utf8Bytes cutLine)) = .error .panicked ∧ ¬ Reported (utf8Bytes cutLine) := by
  have hstrip : stripAll (HostKey.lines cutLine) = .error .panicked := by decide +kernel
  have hshort : (utf8Bytes cutLine).take messageBytes = utf8Bytes cutLine := by
    apply List.take_of_length_le
    decide +kernel
  have hop : op (.exited false [] (utf8Bytes cutLine)) = .error .panicked := by
    show refusal (utf8Bytes cutLine) = _
    rw [refusal, fromUtf8Lossy_utf8Bytes, hstrip]
    rfl
  refine ⟨?_, hop, ?_⟩
  · show refusal ((utf8Bytes cutLine).take messageBytes) = _
    rw [hshort, refusal, fromUtf8Lossy_utf8Bytes, hstrip]
    rfl
  · intro h
    obtain ⟨message, hmessage⟩ := (h []).2
    rw [hop] at hmessage
    cases hmessage

end NixSecrets.OnePassword
