import NixSecrets.EscapeStream
import NixSecrets.KnownHosts

namespace NixSecrets.Attention

open EscapeStream

/-- Instants and durations are counted in nanoseconds. -/
def second : Nat := 1000000000

def reminderAt : Nat := 30 * second

def maxText : Nat := 240

def idleTitle : List Char := "nix-secrets".toList

def pushTitle : List Char := esc :: "[22;2t".toList

def popTitle : List Char := esc :: "[23;2t".toList

inductive Terminal
  | console | gnomeTerminal | kitty | foot | wezTerm | ghostty | konsole | iTerm2 | windowsTerminal | alacritty
  | unknown
deriving DecidableEq, Repr

inductive Sequence
  | none | osc777 | osc9 | osc99
deriving DecidableEq, Repr

structure Profile where
  terminal : Terminal
  sequence : Sequence
  tmux : Bool
  desktop : Bool

inductive DesktopCall
  | notify (key : String) (summary body : List Char)
  | close (key : String)
deriving DecidableEq, Repr

structure Tracked where
  deadline : Option Nat
  reminded : Bool
deriving DecidableEq, Repr

/-- What has been signalled so far. -/
structure State where
  known : BTreeMap String Tracked := ∅
  titled : Option String := none
  missed : BTreeSet String := ∅
  nextId : Nat := 0

/-- A request that waits for the operator. -/
structure Open where
  key : String
  what : String
  title : Option String
  deadline : Option Nat
  announce : Bool

/-- A procedure that shows a step which timed out or failed. -/
structure Missed where
  key : String
  summary : String
  body : String

/-- What a frame shows: its requests, each once, and its missed steps. -/
structure Frame where
  requests : List Open
  missed : List Missed

/-- The state within an update, and what is to be sent after the frame. -/
structure Sending where
  state : State
  terminal : List Char := []
  desktop : List DesktopCall := []

def clean (text : String) : List Char :=
  let plain := text.toList.filter fun c => !isControl c
  if maxText < plain.length then plain.take (maxText - 1) ++ ['…'] else plain

def setTitle (title : String) : List Char := pushTitle ++ esc :: ']' :: ("2;".toList ++ clean title ++ [bel])

def restore : List Char := esc :: ']' :: ("2;".toList ++ idleTitle ++ [bel]) ++ popTitle

/-- Wraps a sequence for tmux to hand on. -/
def passthrough (sequence : List Char) (tmux : Bool) : List Char :=
  if tmux then esc :: 'P' :: ("tmux;".toList ++ doubled sequence ++ [esc, '\\']) else sequence

def commas (text : List Char) : List Char := text.map fun c => if c = ';' then ',' else c

def notificationId (nextId : Nat) : List Char := "nix-secrets-".toList ++ Nat.toDigits 10 nextId

/-- The sequence that raises a notification; it is empty where the terminal has none. -/
def notification (sequence : Sequence) (nextId : Nat) (summary body : List Char) : List Char :=
  match sequence with
  | .none => []
  | .osc777 => esc :: ']' :: ("777;notify;".toList ++ commas summary ++ ';' :: commas body ++ [bel])
  | .osc9 => esc :: ']' :: ("9;".toList ++ summary ++ ": ".toList ++ body ++ [bel])
  | .osc99 =>
    esc :: ']' :: ("99;i=".toList ++ notificationId nextId ++ ":d=0:u=2;".toList ++ summary ++ [esc, '\\']) ++
      esc :: ']' :: ("99;i=".toList ++ notificationId nextId ++ ":p=body;".toList ++ body ++ [esc, '\\'])

def requestAttention : List Char := esc :: ']' :: ("1337;RequestAttention=yes".toList ++ [bel])

section

variable (profile : Profile)

def Sending.notify (s : Sending) (key summary body : String) : Sending :=
  let nextId := if profile.sequence = .osc99 then s.state.nextId + 1 else s.state.nextId
  let sequence := notification profile.sequence nextId (clean summary) (clean body)
  { state := { s.state with nextId := nextId }
    terminal := s.terminal ++ bel ::
      ((if sequence = [] then [] else passthrough sequence profile.tmux) ++
        if profile.terminal = .iTerm2 then passthrough requestAttention profile.tmux else [])
    desktop := if profile.desktop then s.desktop ++ [.notify key (clean summary) (clean body)] else s.desktop }

def ceilSeconds (duration : Nat) : Nat := (duration + (second - 1)) / second

def countdown (deadline : Option Nat) (now : Nat) : String :=
  match deadline with
  | some deadline => " · denies in " ++ toString (ceilSeconds (deadline - now)) ++ " s"
  | none => ""

def Sending.track (s : Sending) (key : String) (tracked : Tracked) : Sending :=
  { s with state := { s.state with known := s.state.known.insert key tracked } }

/-- Whether a countdown started, or started again, since it was last seen. -/
def countdownStarted : Option Nat → Option Nat → Bool
  | none, some _ => true
  | some old, some new => decide (old + second < new)
  | _, none => false

/-- The notifications of one request: when it opens, when its countdown starts and before it ends. -/
def Sending.announce (now : Nat) (s : Sending) (request : Open) : Sending :=
  let remaining := request.deadline.map (· - now)
  let late := remaining.any fun left => decide (left ≤ reminderAt)
  match s.state.known[request.key]? with
  | none =>
    if request.announce then
      (s.track request.key ⟨request.deadline, late⟩).notify profile request.key
        "nix-secrets: approval needed" (request.what ++ countdown request.deadline now)
    else s
  | some tracked =>
    if countdownStarted tracked.deadline request.deadline then
      (s.track request.key ⟨request.deadline, late⟩).notify profile request.key
        "nix-secrets: countdown started" (request.what ++ countdown request.deadline now)
    else if !tracked.reminded && late then
      (s.track request.key ⟨request.deadline, true⟩).notify profile request.key
        ("nix-secrets: " ++ toString (ceilSeconds (remaining.getD 0)) ++ " s left to answer") request.what
    else s.track request.key { tracked with deadline := request.deadline }

def Sending.entitle (s : Sending) (request : Open) : Sending :=
  match request.title with
  | some title =>
    if s.state.titled = none ∧ s.state.known.contains request.key then
      { s with
        state := { s.state with titled := some request.key }
        terminal := s.terminal ++ setTitle title }
    else s
  | none => s

def Sending.request (now : Nat) (s : Sending) (request : Open) : Sending :=
  (s.announce profile now request).entitle request

/-- A title whose request is no longer the one on screen is taken away. -/
def Sending.untitle (s : Sending) (onScreen : Option String) : Sending :=
  if s.state.titled ≠ none ∧ s.state.titled ≠ onScreen then
    { s with
      state := { s.state with titled := none }
      terminal := s.terminal ++ restore }
  else s

def Sending.closeAll (s : Sending) (keys : List String) : Sending :=
  if profile.desktop then { s with desktop := s.desktop ++ keys.map .close } else s

def Sending.forget (s : Sending) (stillOpen : List String) : Sending :=
  let closed := s.state.known.keys.filter fun key => !stillOpen.contains key
  ({ s with state := { s.state with known := closed.foldl (·.erase ·) s.state.known } }).closeAll profile closed

def Sending.miss (s : Sending) (missed : Missed) : Sending :=
  if s.state.missed.contains missed.key then s
  else ({ s with state := { s.state with missed := s.state.missed.insert missed.key } }).notify profile
    missed.key missed.summary missed.body

def Sending.updateMissed (s : Sending) (missed : List Missed) : Sending :=
  let s := missed.foldl (Sending.miss profile) s
  let gone := s.state.missed.toList.filter fun key => !(missed.map (·.key)).contains key
  ({ s with state := { s.state with missed := gone.foldl (·.erase ·) s.state.missed } }).closeAll profile gone

/-- What to send after a frame; the last frame, when the terminal is given back, shows nothing. -/
def update (state : State) (frame : Frame) (now : Nat) : Sending :=
  let onScreen := (frame.requests.find? (·.title.isSome)).map (·.key)
  let s : Sending := (⟨state, [], []⟩ : Sending).untitle onScreen
  let s := frame.requests.foldl (Sending.request profile now) s
  let s := s.forget profile (frame.requests.map (·.key))
  s.updateMissed profile frame.missed

end

/-- A command that raises a notification: its texts are fields of their own, and end no sequence. -/
inductive Notifies : TerminalCommand → Prop
  | osc777 {summary body} (hsummary : ';' ∉ summary) (hbody : ';' ∉ body) :
      Notifies (.osc ("777;notify;".toList ++ summary ++ ';' :: body))
  | osc9 {text} : Notifies (.osc ("9;".toList ++ text))
  | osc99 {text} : Notifies (.osc ("99;i=".toList ++ text))
  | attention : Notifies (.osc "1337;RequestAttention=yes".toList)

/-- All that an update may have the terminal do: ring, notify, and push, set and pop the title. -/
inductive Harmless : TerminalCommand → Prop
  | bell : Harmless (.control bel)
  | push : Harmless (.csi "22;2t".toList)
  | pop : Harmless (.csi "23;2t".toList)
  | title {text} : Harmless (.osc ("2;".toList ++ text))
  | notifies {command} (h : Notifies command) : Harmless command
  | passed {sequence commands} (h : Reads sequence commands) (hall : ∀ c ∈ commands, Notifies c) :
      Harmless (.dcs ("tmux;".toList ++ sequence))

/-- A window of a terminal that keeps a title stack. -/
structure Window where
  title : List Char
  stack : List (List Char)
deriving DecidableEq, Repr

def Window.pop (w : Window) : Window :=
  match w.stack with
  | title :: stack => ⟨title, stack⟩
  | [] => w

def Window.obey (w : Window) : TerminalCommand → Window
  | .csi text =>
    if text = "22;2t".toList then { w with stack := w.title :: w.stack }
    else if text = "23;2t".toList then w.pop
    else w
  | .osc ('2' :: ';' :: title) => { w with title := title }
  | _ => w

def Window.obeyAll (w : Window) (commands : List TerminalCommand) : Window := commands.foldl Window.obey w

/-- A text that says nothing about the title. -/
def Quiet (text : List Char) : Prop :=
  ∃ commands, Reads text commands ∧ (∀ c ∈ commands, Harmless c) ∧ ∀ w : Window, w.obeyAll commands = w

theorem Quiet.nil : Quiet [] := ⟨[], .nil, fun _ h => (List.not_mem_nil h).elim, fun _ => rfl⟩

theorem Quiet.append {text more : List Char} (h : Quiet text) (hmore : Quiet more) : Quiet (text ++ more) := by
  obtain ⟨commands, hreads, hall, hsame⟩ := h
  obtain ⟨rest, hreads', hall', hsame'⟩ := hmore
  refine ⟨commands ++ rest, hreads.append hreads', fun c hc => ?_, fun w => ?_⟩
  · rcases List.mem_append.mp hc with hc | hc
    · exact hall c hc
    · exact hall' c hc
  · have hboth : w.obeyAll (commands ++ rest) = (w.obeyAll commands).obeyAll rest := List.foldl_append
    rw [hboth, hsame, hsame']

theorem Notifies.obey {c : TerminalCommand} (h : Notifies c) (w : Window) : w.obey c = w := by
  cases h <;> rfl

theorem Notifies.obeyAll {commands : List TerminalCommand} (h : ∀ c ∈ commands, Notifies c) (w : Window) :
    w.obeyAll commands = w := by
  induction commands with
  | nil => rfl
  | cons c commands ih =>
    have hrest := ih fun x hx => h x (List.mem_cons_of_mem c hx)
    have hone : w.obeyAll (c :: commands) = (w.obey c).obeyAll commands := rfl
    rw [hone, (h c List.mem_cons_self).obey, hrest]

theorem clean_unbroken (text : String) : Unbroken (clean text) := by
  have hplain : Unbroken (text.toList.filter fun c => !isControl c) := by
    intro c hc
    simpa using (List.mem_filter.mp hc).2
  simp only [clean]
  split
  · refine Unbroken.append (fun c hc => hplain c (List.mem_of_mem_take hc)) fun c hc => ?_
    rw [List.mem_singleton.mp hc]
    decide
  · exact hplain

theorem commas_unbroken {text : List Char} (h : Unbroken text) : Unbroken (commas text) := by
  intro c hc
  obtain ⟨d, hd, rfl⟩ := List.mem_map.mp hc
  split
  · decide
  · exact h d hd

theorem not_mem_commas (text : List Char) : ';' ∉ commas text := by
  intro hc
  obtain ⟨d, -, hd⟩ := List.mem_map.mp hc
  split at hd
  · exact absurd hd (by decide)
  · contradiction

theorem notificationId_unbroken (nextId : Nat) : Unbroken (notificationId nextId) := by
  refine Unbroken.append (unbroken_of_all (by decide)) fun c hc => ?_
  have hdigit : c.isDigit = true := Nat.isDigit_of_mem_toDigits (by omega) (by omega) hc
  simp only [Char.isDigit, Bool.and_eq_true, decide_eq_true_eq, ge_iff_le, UInt32.le_iff_toNat_le] at hdigit
  have hlow : 48 ≤ c.toNat := hdigit.1
  have hhigh : c.toNat ≤ 57 := hdigit.2
  have hnot : ¬ (c.toNat < 32 ∨ 127 ≤ c.toNat ∧ c.toNat < 160) := by omega
  simpa [isControl] using hnot

/-- The sequence of a notification is read as notifications alone, whatever its texts. -/
theorem reads_notification (sequence : Sequence) (nextId : Nat) {summary body : List Char}
    (hsummary : Unbroken summary) (hbody : Unbroken body) :
    ∃ commands, Reads (notification sequence nextId summary body) commands ∧ ∀ c ∈ commands, Notifies c := by
  cases sequence with
  | none => exact ⟨[], .nil, fun _ h => (List.not_mem_nil h).elim⟩
  | osc777 =>
    have hplain : Unbroken ("777;notify;".toList ++ commas summary ++ ';' :: commas body) := by
      have hfront : Unbroken "777;notify;".toList := unbroken_of_all (by decide)
      have hmiddle : Unbroken [';'] := unbroken_of_all (by decide)
      have hfields := (hfront.append (commas_unbroken hsummary)).append (hmiddle.append (commas_unbroken hbody))
      exact hfields
    refine ⟨_, reads_osc_bel hplain, fun c hc => ?_⟩
    rw [List.mem_singleton.mp hc]
    exact .osc777 (not_mem_commas summary) (not_mem_commas body)
  | osc9 =>
    have hplain : Unbroken ("9;".toList ++ summary ++ ": ".toList ++ body) := by
      have hfront : Unbroken "9;".toList := unbroken_of_all (by decide)
      have hmiddle : Unbroken ": ".toList := unbroken_of_all (by decide)
      exact ((hfront.append hsummary).append hmiddle).append hbody
    refine ⟨_, reads_osc_bel hplain, fun c hc => ?_⟩
    rw [List.mem_singleton.mp hc, List.append_assoc, List.append_assoc]
    exact .osc9
  | osc99 =>
    have hfront : Unbroken ("99;i=".toList ++ notificationId nextId) :=
      Unbroken.append (unbroken_of_all (by decide)) (notificationId_unbroken nextId)
    have hpart : Unbroken ":d=0:u=2;".toList := unbroken_of_all (by decide)
    have hpart' : Unbroken ":p=body;".toList := unbroken_of_all (by decide)
    have htitle := reads_osc_st ((hfront.append hpart).append hsummary)
    have htext := reads_osc_st ((hfront.append hpart').append hbody)
    refine ⟨_, htitle.append htext, fun c hc => ?_⟩
    rcases List.mem_cons.mp hc with rfl | hc
    · rw [List.append_assoc, List.append_assoc]
      exact .osc99
    · rw [List.mem_singleton.mp hc, List.append_assoc, List.append_assoc]
      exact .osc99

theorem reads_requestAttention : Reads requestAttention [.osc "1337;RequestAttention=yes".toList] :=
  reads_osc_bel (unbroken_of_all (by decide))

/-- Handed on by tmux or not, notifications stay what they are. -/
theorem passthrough_quiet {sequence : List Char} {commands : List TerminalCommand} (tmux : Bool)
    (h : Reads sequence commands) (hall : ∀ c ∈ commands, Notifies c) : Quiet (passthrough sequence tmux) := by
  cases tmux with
  | false => exact ⟨commands, h, fun c hc => .notifies (hall c hc), Notifies.obeyAll hall⟩
  | true =>
    have hdoubled : doubled ("tmux;".toList ++ sequence) = "tmux;".toList ++ doubled sequence := by
      rw [doubled, List.flatMap_append]
      rfl
    have hreads := reads_dcs ("tmux;".toList ++ sequence)
    rw [hdoubled] at hreads
    refine ⟨_, hreads, fun c hc => ?_, fun w => rfl⟩
    rw [List.mem_singleton.mp hc]
    exact .passed h hall

/-- The title of the window, and what is under it, while a request is announced by it or not. -/
def Shows (original w : Window) : Option String → Prop
  | some _ => w.stack = original.title :: original.stack
  | none => w = original

/-- What is to be sent is harmless, and brings the window to where the state says it is. -/
def Told (original before : Window) (s : Sending) : Prop :=
  ∃ commands, Reads s.terminal commands ∧ (∀ c ∈ commands, Harmless c) ∧
    Shows original (before.obeyAll commands) s.state.titled

section

variable {original before : Window} {s : Sending} {profile : Profile}

/-- More of what the window does not hear. -/
theorem Told.more (h : Told original before s) {s' : Sending} {text : List Char} (hquiet : Quiet text)
    (hterminal : s'.terminal = s.terminal ++ text) (htitled : s'.state.titled = s.state.titled) :
    Told original before s' := by
  obtain ⟨commands, hreads, hall, hshows⟩ := h
  obtain ⟨rest, hreads', hall', hsame⟩ := hquiet
  refine ⟨commands ++ rest, by rw [hterminal]; exact hreads.append hreads', fun c hc => ?_, ?_⟩
  · rcases List.mem_append.mp hc with hc | hc
    · exact hall c hc
    · exact hall' c hc
  · have hboth : before.obeyAll (commands ++ rest) = (before.obeyAll commands).obeyAll rest := List.foldl_append
    rw [hboth, hsame, htitled]
    exact hshows

theorem Told.same (h : Told original before s) {s' : Sending} (hterminal : s'.terminal = s.terminal)
    (htitled : s'.state.titled = s.state.titled) : Told original before s' :=
  h.more Quiet.nil (by rw [hterminal, List.append_nil]) htitled

theorem Told.notify (h : Told original before s) (key summary body : String) :
    Told original before (s.notify profile key summary body) := by
  have hbell : Quiet [bel] := by
    refine ⟨_, reads_bel, fun c hc => ?_, fun w => rfl⟩
    rw [List.mem_singleton.mp hc]
    exact .bell
  have hsequence (nextId : Nat) : Quiet
      (if notification profile.sequence nextId (clean summary) (clean body) = [] then []
      else passthrough (notification profile.sequence nextId (clean summary) (clean body)) profile.tmux) := by
    obtain ⟨commands, hreads, hall⟩ :=
      reads_notification profile.sequence nextId (clean_unbroken summary) (clean_unbroken body)
    split
    · exact Quiet.nil
    · exact passthrough_quiet profile.tmux hreads hall
  have hattention : Quiet (if profile.terminal = .iTerm2 then passthrough requestAttention profile.tmux else []) := by
    split
    · refine passthrough_quiet profile.tmux reads_requestAttention fun c hc => ?_
      rw [List.mem_singleton.mp hc]
      exact .attention
    · exact Quiet.nil
  exact h.more (hbell.append ((hsequence _).append hattention)) rfl rfl

theorem Told.announce (h : Told original before s) (now : Nat) (request : Open) :
    Told original before (s.announce profile now request) := by
  have htrack (tracked : Tracked) : Told original before (s.track request.key tracked) := h.same rfl rfl
  simp only [Sending.announce]
  split
  · split
    · exact (htrack _).notify _ _ _
    · exact h
  · split
    · exact (htrack _).notify _ _ _
    · split
      · exact (htrack _).notify _ _ _
      · exact htrack _

theorem reads_setTitle (title : String) :
    Reads (setTitle title) [.csi "22;2t".toList, .osc ("2;".toList ++ clean title)] := by
  have hpush : Reads pushTitle [.csi "22;2t".toList] := rfl
  have hplain : Unbroken ("2;".toList ++ clean title) :=
    Unbroken.append (unbroken_of_all (by decide)) (clean_unbroken title)
  exact hpush.append (reads_osc_bel hplain)

theorem reads_restore : Reads restore [.osc ("2;".toList ++ idleTitle), .csi "23;2t".toList] := by
  have hpop : Reads popTitle [.csi "23;2t".toList] := rfl
  have hplain : Unbroken ("2;".toList ++ idleTitle) := unbroken_of_all (by decide)
  exact (reads_osc_bel hplain).append hpop

theorem Told.entitle (h : Told original before s) (request : Open) : Told original before (s.entitle request) := by
  unfold Sending.entitle
  split
  next title _ =>
    split
    next hfree =>
      obtain ⟨commands, hreads, hall, hshows⟩ := h
      rw [hfree.1] at hshows
      have hwindow : before.obeyAll commands = original := hshows
      refine ⟨_, hreads.append (reads_setTitle title), fun c hc => ?_, ?_⟩
      · rcases List.mem_append.mp hc with hc | hc
        · exact hall c hc
        · rcases List.mem_cons.mp hc with rfl | hc
          · exact .push
          · rw [List.mem_singleton.mp hc]
            exact .title
      · have hboth (rest : List TerminalCommand) :
            before.obeyAll (commands ++ rest) = (before.obeyAll commands).obeyAll rest := List.foldl_append
        rw [hboth, hwindow]
        rfl
    next => exact h
  next => exact h

theorem Told.untitle (h : Told original before s) (onScreen : Option String) :
    Told original before (s.untitle onScreen) := by
  unfold Sending.untitle
  split
  next htitled =>
    obtain ⟨commands, hreads, hall, hshows⟩ := h
    obtain ⟨key, hkey⟩ := Option.ne_none_iff_exists'.mp htitled.1
    rw [hkey] at hshows
    have hstack : (before.obeyAll commands).stack = original.title :: original.stack := hshows
    refine ⟨_, hreads.append reads_restore, fun c hc => ?_, ?_⟩
    · rcases List.mem_append.mp hc with hc | hc
      · exact hall c hc
      · rcases List.mem_cons.mp hc with rfl | hc
        · exact .title
        · rw [List.mem_singleton.mp hc]
          exact .pop
    · have hboth (rest : List TerminalCommand) :
          before.obeyAll (commands ++ rest) = (before.obeyAll commands).obeyAll rest := List.foldl_append
      have hpop (w : Window) : w.obeyAll [.osc ("2;".toList ++ idleTitle), .csi "23;2t".toList] =
          Window.pop { w with title := idleTitle } := rfl
      rw [hboth, hpop]
      simp only [Window.pop, hstack]
      rfl
  next => exact h

theorem Told.closeAll (h : Told original before s) (keys : List String) :
    Told original before (s.closeAll profile keys) := by
  unfold Sending.closeAll
  split
  · exact h.same rfl rfl
  · exact h

theorem Told.updateMissed (h : Told original before s) (missed : List Missed) :
    Told original before (s.updateMissed profile missed) := by
  have hfold : Told original before (missed.foldl (Sending.miss profile) s) := by
    induction missed generalizing s with
    | nil => exact h
    | cons step missed ih =>
      refine ih ?_
      unfold Sending.miss
      split
      · exact h
      · have hmarked : Told original before { s with
            state := { s.state with missed := s.state.missed.insert step.key } } := h.same rfl rfl
        exact hmarked.notify step.key step.summary step.body
  simp only [Sending.updateMissed]
  refine Told.closeAll ?_ _
  exact hfold.same rfl rfl

/-- One update of a state whose title is up or not as the window shows. -/
theorem update_told (profile : Profile) {state : State} (h : Shows original before state.titled) (frame : Frame)
    (now : Nat) :
    Told original before (update profile state frame now) := by
  have hstart : Told original before ⟨state, [], []⟩ :=
    ⟨[], .nil, fun _ hc => (List.not_mem_nil hc).elim, h⟩
  have hrequests (requests : List Open) {s : Sending} (hs : Told original before s) :
      Told original before (requests.foldl (Sending.request profile now) s) := by
    induction requests generalizing s with
    | nil => exact hs
    | cons request requests ih => exact ih ((hs.announce now request).entitle request)
  have hshown := hrequests frame.requests
    (hstart.untitle ((frame.requests.find? (·.title.isSome)).map (·.key)))
  simp only [update, Sending.forget]
  refine Told.updateMissed (Told.closeAll ?_ _) frame.missed
  exact hshown.same rfl rfl

end

/-- The updates of a session, frame by frame, and all they send. -/
def session (profile : Profile) : State → List (Frame × Nat) → Sending
  | state, [] => ⟨state, [], []⟩
  | state, (frame, now) :: frames =>
    let s := update profile state frame now
    let rest := session profile s.state frames
    ⟨rest.state, s.terminal ++ rest.terminal, s.desktop ++ rest.desktop⟩

theorem session_append (profile : Profile) (state : State) (frames more : List (Frame × Nat)) :
    session profile state (frames ++ more) =
      ⟨(session profile (session profile state frames).state more).state,
        (session profile state frames).terminal ++
          (session profile (session profile state frames).state more).terminal,
        (session profile state frames).desktop ++
          (session profile (session profile state frames).state more).desktop⟩ := by
  induction frames generalizing state with
  | nil => rfl
  | cons frame frames ih => simp [session, ih]

theorem session_told (profile : Profile) {original before : Window} (frames : List (Frame × Nat)) {state : State}
    (h : Shows original before state.titled) : Told original before (session profile state frames) := by
  induction frames generalizing state before with
  | nil => exact ⟨[], .nil, fun _ hc => (List.not_mem_nil hc).elim, h⟩
  | cons frame frames ih =>
    obtain ⟨commands, hreads, hall, hshows⟩ := update_told profile h frame.1 frame.2
    obtain ⟨rest, hreads', hall', hshows'⟩ := ih hshows
    refine ⟨commands ++ rest, hreads.append hreads', fun c hc => ?_, ?_⟩
    · rcases List.mem_append.mp hc with hc | hc
      · exact hall c hc
      · exact hall' c hc
    · have hboth : before.obeyAll (commands ++ rest) = (before.obeyAll commands).obeyAll rest :=
        List.foldl_append
      rw [hboth]
      exact hshows'

/-- Whatever the requests are called, on every terminal and through tmux or
not, what a session sends between frames is read as bells, notifications and
titles alone, and leaves the terminal between sequences. -/
theorem session_harmless (profile : Profile) (frames : List (Frame × Nat)) :
    ∃ commands, Reads (session profile {} frames).terminal commands ∧ ∀ c ∈ commands, Harmless c := by
  have hstart : Shows ⟨[], []⟩ ⟨[], []⟩ ({} : State).titled := rfl
  obtain ⟨commands, hreads, hall, -⟩ := session_told profile frames hstart
  exact ⟨commands, hreads, hall⟩

section

variable {profile : Profile} {s : Sending}

theorem announce_titled (now : Nat) (request : Open) :
    (s.announce profile now request).state.titled = s.state.titled := by
  simp only [Sending.announce]
  split
  · split <;> rfl
  · split
    · rfl
    · split <;> rfl

theorem closeAll_state (keys : List String) : (s.closeAll profile keys).state = s.state := by
  unfold Sending.closeAll
  split <;> rfl

theorem miss_titled (missed : Missed) : (s.miss profile missed).state.titled = s.state.titled := by
  unfold Sending.miss
  split <;> rfl

theorem updateMissed_titled (missed : List Missed) :
    (s.updateMissed profile missed).state.titled = s.state.titled := by
  have hfold : (missed.foldl (Sending.miss profile) s).state.titled = s.state.titled := by
    induction missed generalizing s with
    | nil => rfl
    | cons step missed ih => exact ih.trans (miss_titled step)
  simp only [Sending.updateMissed, closeAll_state]
  exact hfold

/-- A frame without a request on screen leaves no title up. -/
theorem update_untitled {state : State} {frame : Frame} (hframe : ∀ request ∈ frame.requests, request.title = none)
    (now : Nat) : (update profile state frame now).state.titled = none := by
  have hfind : frame.requests.find? (·.title.isSome) = none := by
    refine List.find?_eq_none.mpr fun request hrequest => ?_
    simp [hframe request hrequest]
  have huntitled : ((⟨state, [], []⟩ : Sending).untitle none).state.titled = none := by
    unfold Sending.untitle
    split
    · rfl
    next hnot =>
      by_contra hne
      exact hnot ⟨hne, hne⟩
  have hrequests (requests : List Open) (hall : ∀ request ∈ requests, request.title = none) {s : Sending}
      (hs : s.state.titled = none) : (requests.foldl (Sending.request profile now) s).state.titled = none := by
    induction requests generalizing s with
    | nil => exact hs
    | cons request requests ih =>
      refine ih (fun r hr => hall r (List.mem_cons_of_mem request hr)) ?_
      have hnone : request.title = none := hall request List.mem_cons_self
      simp only [Sending.request, Sending.entitle, hnone, announce_titled, hs]
  simp only [update, updateMissed_titled, Sending.forget, closeAll_state, hfind, Option.map_none]
  exact hrequests frame.requests hframe huntitled

end

/-- Whenever no request is on screen, as at the end of a session, a terminal
that keeps a title stack has the title and the stack it had before the session. -/
theorem title_restored (profile : Profile) (frames : List (Frame × Nat)) (frame : Frame) (now : Nat)
    (hframe : ∀ request ∈ frame.requests, request.title = none) (window : Window) :
    ∃ commands, Reads (session profile {} (frames ++ [(frame, now)])).terminal commands ∧
      window.obeyAll commands = window := by
  have hstart : Shows window window ({} : State).titled := rfl
  obtain ⟨commands, hreads, -, hshows⟩ :=
    session_told profile (frames ++ [(frame, now)]) hstart
  have htitled : (session profile {} (frames ++ [(frame, now)])).state.titled = none := by
    rw [session_append]
    exact update_untitled hframe now
  rw [htitled] at hshows
  exact ⟨commands, hreads, hshows⟩

theorem blank_title_restored :
    let window : Window := ⟨"shell".toList, []⟩
    ∃ commands, Reads (session ⟨.kitty, .osc99, true, false⟩ {} ([(⟨[⟨"secret:1", "\x1b]2;owned\x07", some "(!)", none,
      true⟩], []⟩, 0)] ++ [(⟨[], []⟩, 1)])).terminal commands ∧ window.obeyAll commands = window :=
  title_restored _ _ _ _ (fun _ h => (List.not_mem_nil h).elim) _

/-- The notifications that a desktop still shows after these calls. -/
def outstanding (calls : List DesktopCall) (shown : List String) : List String :=
  calls.foldl (fun shown call => match call with
    | .notify key _ _ => key :: shown
    | .close key => shown.filter fun other => other ≠ key) shown

theorem outstanding_append (calls more : List DesktopCall) (shown : List String) :
    outstanding (calls ++ more) shown = outstanding more (outstanding calls shown) := List.foldl_append

theorem mem_outstanding_closes {keys shown : List String} {key : String} :
    key ∈ outstanding (keys.map .close) shown ↔ key ∈ shown ∧ key ∉ keys := by
  induction keys generalizing shown with
  | nil => simp [outstanding]
  | cons closed keys ih =>
    have hone : outstanding (((closed :: keys)).map .close) shown =
        outstanding (keys.map .close) (shown.filter fun other => other ≠ closed) := rfl
    rw [hone, ih]
    simp only [List.mem_filter, ne_eq, decide_not, Bool.not_eq_true', decide_eq_false_iff_not, List.mem_cons, not_or]
    tauto

/-- Every notification that is still up is for a request or a step that the state knows. -/
def Accounted (before : List String) (s : Sending) : Prop :=
  ∀ key ∈ outstanding s.desktop before, key ∈ s.state.known ∨ key ∈ s.state.missed

section

variable {profile : Profile} {before : List String} {s : Sending}

theorem mem_foldl_erase_map {keys : List String} {m : BTreeMap String Tracked} {key : String} :
    key ∈ keys.foldl (·.erase ·) m ↔ key ∈ m ∧ key ∉ keys := by
  induction keys generalizing m with
  | nil => simp
  | cons other keys ih =>
    have herase : key ∈ m.erase other ↔ other ≠ key ∧ key ∈ m := by simp [Std.ExtTreeMap.mem_erase]
    rw [List.foldl_cons, ih, herase, List.mem_cons, not_or]
    constructor
    · intro h
      exact ⟨h.1.2, fun hsame => h.1.1 hsame.symm, h.2⟩
    · intro h
      exact ⟨⟨fun hsame => h.2.1 hsame.symm, h.1⟩, h.2.2⟩

theorem mem_foldl_erase_set {keys : List String} {m : BTreeSet String} {key : String} :
    key ∈ keys.foldl (·.erase ·) m ↔ key ∈ m ∧ key ∉ keys := by
  induction keys generalizing m with
  | nil => simp
  | cons other keys ih =>
    have herase : key ∈ m.erase other ↔ other ≠ key ∧ key ∈ m := by simp [Std.ExtTreeSet.mem_erase]
    rw [List.foldl_cons, ih, herase, List.mem_cons, not_or]
    constructor
    · intro h
      exact ⟨h.1.2, fun hsame => h.1.1 hsame.symm, h.2⟩
    · intro h
      exact ⟨⟨fun hsame => h.2.1 hsame.symm, h.1⟩, h.2.2⟩

theorem Accounted.notify (h : Accounted before s) {key : String} (summary body : String)
    (hkey : key ∈ s.state.known ∨ key ∈ s.state.missed) :
    Accounted before (s.notify profile key summary body) := by
  intro other hother
  simp only [Sending.notify] at hother
  split at hother
  · rw [outstanding_append] at hother
    rcases List.mem_cons.mp hother with rfl | hother
    · exact hkey
    · exact h other hother
  · exact h other hother

theorem Accounted.track (h : Accounted before s) (key : String) (tracked : Tracked) :
    Accounted before (s.track key tracked) := by
  intro other hother
  rcases h other hother with hknown | hmissed
  · exact Or.inl (Std.ExtTreeMap.mem_insert.mpr (Or.inr hknown))
  · exact Or.inr hmissed

theorem Accounted.announce (h : Accounted before s) (now : Nat) (request : Open) :
    Accounted before (s.announce profile now request) := by
  have htracked (tracked : Tracked) : request.key ∈ (s.track request.key tracked).state.known :=
    Std.ExtTreeMap.mem_insert_self
  simp only [Sending.announce]
  split
  · split
    · exact (h.track _ _).notify _ _ (Or.inl (htracked _))
    · exact h
  · split
    · exact (h.track _ _).notify _ _ (Or.inl (htracked _))
    · split
      · exact (h.track _ _).notify _ _ (Or.inl (htracked _))
      · exact h.track _ _

theorem Accounted.entitle (h : Accounted before s) (request : Open) : Accounted before (s.entitle request) := by
  unfold Sending.entitle
  split
  · split
    · exact h
    · exact h
  · exact h

theorem Accounted.untitle (h : Accounted before s) (onScreen : Option String) :
    Accounted before (s.untitle onScreen) := by
  unfold Sending.untitle
  split
  · exact h
  · exact h

theorem Accounted.miss (h : Accounted before s) (missed : Missed) : Accounted before (s.miss profile missed) := by
  unfold Sending.miss
  split
  · exact h
  · have hmarked : Accounted before { s with
        state := { s.state with missed := s.state.missed.insert missed.key } } := by
      intro other hother
      rcases h other hother with hknown | hmissed
      · exact Or.inl hknown
      · exact Or.inr (Std.ExtTreeSet.mem_insert.mpr (Or.inr hmissed))
    exact hmarked.notify _ _ (Or.inr Std.ExtTreeSet.mem_insert_self)

/-- Closed keys are neither known nor shown any more. -/
theorem Accounted.closeAll (h : Accounted before s) (hdesktop : profile.desktop = true) {keys : List String}
    {state : State} (hknown : ∀ key, key ∈ s.state.known → key ∉ keys → key ∈ state.known ∨ key ∈ state.missed)
    (hmissed : ∀ key, key ∈ s.state.missed → key ∉ keys → key ∈ state.known ∨ key ∈ state.missed) :
    Accounted before (({ s with state := state } : Sending).closeAll profile keys) := by
  intro key hkey
  simp only [Sending.closeAll, hdesktop, if_true, outstanding_append, mem_outstanding_closes] at hkey ⊢
  rcases h key hkey.1 with hold | hold
  · exact hknown key hold hkey.2
  · exact hmissed key hold hkey.2

theorem Accounted.forget (h : Accounted before s) (hdesktop : profile.desktop = true) (stillOpen : List String) :
    Accounted before (s.forget profile stillOpen) ∧
      ∀ key ∈ (s.forget profile stillOpen).state.known, key ∈ stillOpen := by
  simp only [Sending.forget, closeAll_state]
  refine ⟨h.closeAll hdesktop (fun key hkey hopen => ?_) fun key hkey _ => Or.inr hkey, fun key hkey => ?_⟩
  · exact Or.inl (mem_foldl_erase_map.mpr ⟨hkey, hopen⟩)
  · obtain ⟨hknown, hopen⟩ := mem_foldl_erase_map.mp hkey
    by_contra hgone
    refine hopen (List.mem_filter.mpr ⟨Std.ExtTreeMap.mem_keys.mpr hknown, ?_⟩)
    simpa using hgone

theorem Accounted.updateMissed (h : Accounted before s) (hdesktop : profile.desktop = true)
    (missed : List Missed) : Accounted before (s.updateMissed profile missed) ∧
      (s.updateMissed profile missed).state.known = s.state.known ∧
      ∀ key ∈ (s.updateMissed profile missed).state.missed, key ∈ missed.map (·.key) := by
  have hfold (steps : List Missed) {s : Sending} (hs : Accounted before s) :
      Accounted before (steps.foldl (Sending.miss profile) s) ∧
        (steps.foldl (Sending.miss profile) s).state.known = s.state.known := by
    induction steps generalizing s with
    | nil => exact ⟨hs, rfl⟩
    | cons step steps ih =>
      have hknown : (s.miss profile step).state.known = s.state.known := by
        unfold Sending.miss
        split <;> rfl
      obtain ⟨haccounted, hsame⟩ := ih (hs.miss step)
      exact ⟨haccounted, hsame.trans hknown⟩
  obtain ⟨haccounted, hsame⟩ := hfold missed h
  simp only [Sending.updateMissed, closeAll_state]
  refine ⟨haccounted.closeAll hdesktop (fun key hkey _ => Or.inl hkey) (fun key hkey hgone => ?_), hsame,
    fun key hkey => ?_⟩
  · exact Or.inr (mem_foldl_erase_set.mpr ⟨hkey, hgone⟩)
  · obtain ⟨hthere, hgone⟩ := mem_foldl_erase_set.mp hkey
    by_contra habsent
    refine hgone (List.mem_filter.mpr ⟨Std.ExtTreeSet.mem_toList.mpr hthere, ?_⟩)
    simpa using habsent

end

end NixSecrets.Attention
