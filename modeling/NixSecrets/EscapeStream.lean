import NixSecrets.RustText

namespace NixSecrets

/-- What a terminal is told by a stream of characters: to show one, to carry
out a control character, or a whole control sequence or string. -/
inductive TerminalCommand
  | print (c : Char)
  | control (c : Char)
  | escape (c : Char)
  | csi (text : List Char)
  | osc (text : List Char)
  | dcs (text : List Char)
deriving DecidableEq, Repr

namespace EscapeStream

def esc : Char := '\x1b'

def bel : Char := '\x07'

/-- Where a terminal stands between two characters, with what a sequence has so far. -/
inductive State
  | ground
  | escape
  | csi (text : List Char)
  | osc (text : List Char)
  | oscEscape (text : List Char)
  | dcs (text : List Char)
  | dcsEscape (text : List Char)
deriving DecidableEq, Repr

def afterEscape (c : Char) : State × List TerminalCommand :=
  if c = '[' then (.csi [], [])
  else if c = ']' then (.osc [], [])
  else if c = 'P' then (.dcs [], [])
  else if c = esc then (.escape, [])
  else (.ground, [.escape c])

/-- One character. A control character ends an operating system command early;
in a device control string an escape character takes the next one as it is. -/
def step : State → Char → State × List TerminalCommand
  | .ground, c =>
    if c = esc then (.escape, [])
    else if isControl c then (.ground, [.control c])
    else (.ground, [.print c])
  | .escape, c => afterEscape c
  | .csi text, c =>
    if c = esc then (.escape, [])
    else if isControl c then (.csi text, [.control c])
    else if 0x40 ≤ c.toNat then (.ground, [.csi (text ++ [c])])
    else (.csi (text ++ [c]), [])
  | .osc text, c =>
    if c = bel then (.ground, [.osc text])
    else if c = esc then (.oscEscape text, [])
    else if isControl c then (.ground, [.control c])
    else (.osc (text ++ [c]), [])
  | .oscEscape text, c => if c = '\\' then (.ground, [.osc text]) else afterEscape c
  | .dcs text, c => if c = esc then (.dcsEscape text, []) else (.dcs (text ++ [c]), [])
  | .dcsEscape text, c => if c = '\\' then (.ground, [.dcs text]) else (.dcs (text ++ [c]), [])

def read : State → List Char → State × List TerminalCommand
  | s, [] => (s, [])
  | s, c :: text =>
    let next := step s c
    let rest := read next.1 text
    (rest.1, next.2 ++ rest.2)

theorem read_append (s : State) (text more : List Char) :
    read s (text ++ more) =
      ((read (read s text).1 more).1, (read s text).2 ++ (read (read s text).1 more).2) := by
  induction text generalizing s with
  | nil => rfl
  | cons c text ih => simp [read, ih]

/-- Between sequences the text is exactly these commands. -/
def Reads (text : List Char) (commands : List TerminalCommand) : Prop :=
  read .ground text = (.ground, commands)

theorem Reads.nil : Reads [] [] := rfl

theorem Reads.append {text more : List Char} {commands rest : List TerminalCommand} (h : Reads text commands)
    (hmore : Reads more rest) : Reads (text ++ more) (commands ++ rest) := by
  have htext : read .ground text = (.ground, commands) := h
  have hrest : read .ground more = (.ground, rest) := hmore
  rw [Reads, read_append, htext, hrest]

theorem reads_bel : Reads [bel] [.control bel] := rfl

/-- A text that no control character interrupts. -/
def Unbroken (text : List Char) : Prop := ∀ c ∈ text, isControl c = false

theorem unbroken_of_all {text : List Char} (h : text.all (fun c => !isControl c) = true) : Unbroken text := by
  intro c hc
  have hclean : (!isControl c) = true := List.all_eq_true.mp h c hc
  simpa only [Bool.not_eq_true'] using hclean

theorem Unbroken.append {text more : List Char} (h : Unbroken text) (hmore : Unbroken more) :
    Unbroken (text ++ more) := by
  intro c hc
  rcases List.mem_append.mp hc with hc | hc
  · exact h c hc
  · exact hmore c hc

theorem isControl_esc : isControl esc = true := by decide

theorem isControl_bel : isControl bel = true := by decide

theorem read_osc {text : List Char} (h : Unbroken text) (front : List Char) :
    read (.osc front) text = (.osc (front ++ text), []) := by
  induction text generalizing front with
  | nil => simp [read]
  | cons c text ih =>
    have hc : isControl c = false := h c List.mem_cons_self
    have hbel : c ≠ bel := by
      rintro rfl
      rw [isControl_bel] at hc
      cases hc
    have hesc : c ≠ esc := by
      rintro rfl
      rw [isControl_esc] at hc
      cases hc
    have hrest := ih (fun x hx => h x (List.mem_cons_of_mem c hx)) (front ++ [c])
    simp only [read, step, hbel, hesc, hc, if_false, Bool.false_eq_true, hrest]
    simp

/-- An operating system command that ends with the bell. -/
theorem reads_osc_bel {text : List Char} (h : Unbroken text) :
    Reads (esc :: ']' :: (text ++ [bel])) [.osc text] := by
  have hopen : read .ground [esc, ']'] = (.osc [], []) := by decide
  have hend : read (.osc text) [bel] = (.ground, [.osc text]) := by simp [read, step]
  have hwhole : esc :: ']' :: (text ++ [bel]) = [esc, ']'] ++ (text ++ [bel]) := rfl
  rw [Reads, hwhole, read_append, hopen, read_append, read_osc h]
  simp [hend]

/-- An operating system command that ends with the string terminator. -/
theorem reads_osc_st {text : List Char} (h : Unbroken text) :
    Reads (esc :: ']' :: (text ++ [esc, '\\'])) [.osc text] := by
  have hopen : read .ground [esc, ']'] = (.osc [], []) := by decide
  have hend : read (.osc text) [esc, '\\'] = (.ground, [.osc text]) := by
    have hne : esc ≠ bel := by decide
    simp [read, step, hne]
  have hwhole : esc :: ']' :: (text ++ [esc, '\\']) = [esc, ']'] ++ (text ++ [esc, '\\']) := rfl
  rw [Reads, hwhole, read_append, hopen, read_append, read_osc h]
  simp [hend]

/-- Every escape character twice. -/
def doubled (text : List Char) : List Char := text.flatMap fun c => if c = esc then [esc, esc] else [c]

theorem read_dcs (text front : List Char) : read (.dcs front) (doubled text) = (.dcs (front ++ text), []) := by
  induction text generalizing front with
  | nil => simp [doubled, read]
  | cons c text ih =>
    have hone : read (.dcs front) (if c = esc then [esc, esc] else [c]) = (.dcs (front ++ [c]), []) := by
      by_cases hc : c = esc
      · have hne : ¬ esc = '\\' := by decide
        simp [hc, read, step, hne]
      · simp [hc, read, step]
    have hsplit : doubled (c :: text) = (if c = esc then [esc, esc] else [c]) ++ doubled text := by
      simp [doubled]
    rw [hsplit, read_append, hone, ih]
    simp

/-- Any text at all passes through a device control string once its escape characters are doubled. -/
theorem reads_dcs (text : List Char) : Reads (esc :: 'P' :: (doubled text ++ [esc, '\\'])) [.dcs text] := by
  have hopen : read .ground [esc, 'P'] = (.dcs [], []) := by decide
  have hend : read (.dcs text) [esc, '\\'] = (.ground, [.dcs text]) := by simp [read, step]
  have hwhole : esc :: 'P' :: (doubled text ++ [esc, '\\']) = [esc, 'P'] ++ (doubled text ++ [esc, '\\']) := rfl
  rw [Reads, hwhole, read_append, hopen, read_append, read_dcs]
  simp [hend]

end EscapeStream

end NixSecrets
