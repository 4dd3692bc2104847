import NixSecrets.MergeLaw

namespace NixSecrets.StorageBox

open HostKey (lines lines_line not_mem_lines lines_newline_append)
open Inventory (fields)

/-- A call of `run`: its task and, on a retry, the private key it was given. -/
structure Job where
  task : StorageBoxTask
  existingPrivateKey : Option (List Char) := none
  deriving DecidableEq, Repr

inductive Phase
  | waiting
  | holding (key : GeneratedKey) (current : List UInt8)
  | returned (result : Except Error GeneratedKey)
  deriving DecidableEq

/-- How the replacement ends: it is done, it fails, or it is done and its answer is lost. -/
inductive Rename
  | done
  | failed (error : Error)
  | lost (error : Error)
  deriving DecidableEq, Repr

inductive Event (ι : Type)
  | read (job : ι) (generated : Except Error PrivateKey)
  | merge (job : ι) (date : Except Error (List Char)) (rename : Rename)
  | fail (job : ι) (error : Error)

structure State (ι : Type) where
  file : List UInt8
  phase : ι → Phase

def State.start {ι : Type} (file : List UInt8) : State ι := ⟨file, fun _ => .waiting⟩

section

variable {ι : Type} [DecidableEq ι] (libs : Keys) (jobs : ι → Job)

/-- The key of a run: the one it was given, or a new one. -/
def Job.key (job : Job) (generated : Except Error PrivateKey) : Except Error GeneratedKey := do
  job.task.validate libs
  match job.existingPrivateKey with
  | some value => GeneratedKey.fromPrivatePem libs value
  | none => generated >>= GeneratedKey.fromPrivateKey libs

def readAuthorizedKeys (file : List UInt8) : Except Error (List UInt8) :=
  if 1024 * 1024 < file.length then .error (.invalidAuthorizedKeys "file exceeds 1 MiB") else .ok file

def State.enter (s : State ι) (i : ι) (phase : Phase) : State ι := { s with phase := Function.update s.phase i phase }

def Job.opened (job : Job) (generated : Except Error PrivateKey) (file : List UInt8) :
    Except Error (GeneratedKey × List UInt8) := do
  let key ← job.key libs generated
  let current ← readAuthorizedKeys file
  return (key, current)

/-- From the start of a run until it has read the file. -/
def State.read (s : State ι) (i : ι) (generated : Except Error PrivateKey) : State ι :=
  match s.phase i, (jobs i).opened libs generated s.file with
  | .waiting, .ok (key, current) => s.enter i (.holding key current)
  | .waiting, .error error => s.enter i (.returned (.error error))
  | _, _ => s

/-- From the merge to the end of a run. -/
def State.merge (s : State ι) (i : ι) (date : Except Error (List Char)) (rename : Rename) : State ι :=
  match s.phase i with
  | .holding key current =>
    match date >>= mergeAuthorizedKeys (jobs i).task.markerPrefix key.publicKey current, rename with
    | .error error, _ => s.enter i (.returned (.error error))
    | .ok (.unchanged _), _ => s.enter i (.returned (.ok key))
    | .ok (.replaced contents), .done => { s.enter i (.returned (.ok key)) with file := contents }
    | .ok (.replaced _), .failed error => s.enter i (.returned (.error error))
    | .ok (.replaced contents), .lost error => { s.enter i (.returned (.error error)) with file := contents }
  | _ => s

def State.fail (s : State ι) (i : ι) (error : Error) : State ι :=
  match s.phase i with
  | .returned _ => s
  | _ => s.enter i (.returned (.error error))

def step (s : State ι) : Event ι → State ι
  | .read i generated => s.read libs jobs i generated
  | .merge i date rename => s.merge jobs i date rename
  | .fail i error => s.fail i error

def run (s : State ι) (events : List (Event ι)) : State ι := events.foldl (step libs jobs) s

/-- What one event may do to the file and to the runs. -/
theorem step_cases (s : State ι) (event : Event ι) :
    step libs jobs s event = s ∨
    (∃ i error, step libs jobs s event = s.enter i (.returned (.error error))) ∨
    (∃ i generated key, event = .read i generated ∧ (jobs i).key libs generated = .ok key ∧
      step libs jobs s event = s.enter i (.holding key s.file)) ∨
    (∃ i key current date same, s.phase i = .holding key current ∧
      mergeAuthorizedKeys (jobs i).task.markerPrefix key.publicKey current date = .ok (.unchanged same) ∧
      step libs jobs s event = s.enter i (.returned (.ok key))) ∨
    (∃ i key current date rename contents result, event = .merge i (.ok date) rename ∧
      s.phase i = .holding key current ∧
      mergeAuthorizedKeys (jobs i).task.markerPrefix key.publicKey current date = .ok (.replaced contents) ∧
      (∀ error, rename ≠ .failed error) ∧ (result = .ok key ∨ ∃ error, result = .error error) ∧
      step libs jobs s event = { s.enter i (.returned result) with file := contents }) := by
  cases event with
  | read i generated =>
    simp only [step, State.read]
    split
    next key current hphase hopened =>
      obtain ⟨key', hkey, hread⟩ := except_bind_ok.mp hopened
      obtain ⟨current', hcurrent, hpair⟩ := except_bind_ok.mp hread
      cases hpair
      unfold readAuthorizedKeys at hcurrent
      split at hcurrent
      next => cases hcurrent
      next =>
        cases hcurrent
        exact Or.inr (Or.inr (Or.inl ⟨i, generated, key, rfl, hkey, rfl⟩))
    next error _ _ => exact Or.inr (Or.inl ⟨i, error, rfl⟩)
    next => exact Or.inl rfl
  | merge i date rename =>
    simp only [step, State.merge]
    split
    next key current hphase =>
      split
      next _ error _ => exact Or.inr (Or.inl ⟨i, error, rfl⟩)
      next same hmerge =>
        obtain ⟨date', _, hmerge⟩ := except_bind_ok.mp hmerge
        exact Or.inr (Or.inr (Or.inr (Or.inl ⟨i, key, current, date', same, hphase, hmerge, rfl⟩)))
      next contents hmerge =>
        obtain ⟨date', rfl, hmerge⟩ := except_bind_ok.mp hmerge
        exact Or.inr (Or.inr (Or.inr (Or.inr
          ⟨i, key, current, date', _, contents, _, rfl, hphase, hmerge, nofun, Or.inl rfl, rfl⟩)))
      next error _ => exact Or.inr (Or.inl ⟨i, error, rfl⟩)
      next contents error hmerge =>
        obtain ⟨date', rfl, hmerge⟩ := except_bind_ok.mp hmerge
        exact Or.inr (Or.inr (Or.inr (Or.inr
          ⟨i, key, current, date', _, contents, _, rfl, hphase, hmerge, nofun, Or.inr ⟨error, rfl⟩, rfl⟩)))
    next => exact Or.inl rfl
  | fail i error =>
    simp only [step, State.fail]
    split
    next => exact Or.inl rfl
    next => exact Or.inr (Or.inl ⟨i, error, rfl⟩)

end

def fileLines (file : List UInt8) : List (List Char) := ((utf8Text file).map lines).getD []

/-- The file has a line with the mark and the key. -/
def Present (mark publicKey : List Char) (ls : List (List Char)) : Prop :=
  ∃ line ∈ ls, MarkedFor mark publicKey line ∨
    ∃ date, validateDate date = .ok () ∧ line = desired mark publicKey date

theorem fileLines_eq {file : List UInt8} {text : List Char} (h : utf8Text file = some text) :
    fileLines file = lines text := by
  rw [fileLines, h]
  rfl

theorem lines_ended {line rest : List Char} (hbreak : '\n' ∉ line) (hlast : line.getLast? ≠ some '\r') :
    lines (line ++ '\n' :: rest) = line :: lines rest := by
  have hsplit : line.splitOn '\n' = [line] := List.splitOn_eq_singleton hbreak
  have hstrip : stripEnd ['\r'] line = none := by
    refine if_neg fun hsuffix => hlast ?_
    obtain ⟨front, hfront⟩ := List.isSuffixOf_iff_suffix.mp hsuffix
    rw [← hfront]
    simp
  rw [lines_newline_append, hsplit, List.map_singleton, hstrip]
  rfl

theorem lines_unlines_append {ls : List (List Char)} (h : ∀ line ∈ ls, '\n' ∉ line ∧ '\r' ∉ line)
    (rest : List Char) : lines (unlines ls ++ rest) = ls ++ lines rest := by
  induction ls with
  | nil => rfl
  | cons line ls ih =>
    obtain ⟨hbreak, hreturn⟩ := h line List.mem_cons_self
    have hwhole : unlines (line :: ls) ++ rest = line ++ '\n' :: (unlines ls ++ rest) := by simp [unlines]
    rw [hwhole, lines_line hbreak hreturn, ih fun other hother => h other (List.mem_cons_of_mem line hother)]
    rfl

section

variable {mark publicKey date : List Char}

theorem desired_last (hdate : validateDate date = .ok ()) :
    (desired mark publicKey date).getLast? = date.getLast? := by
  have hne : date ≠ [] := by
    intro hempty
    have hsize := (validateDate_ok hdate).2
    rw [hempty] at hsize
    cases hsize
  obtain ⟨front, last, rfl⟩ := (List.eq_nil_or_concat' date).resolve_left hne
  have hline : desired mark publicKey (front ++ [last]) = (publicKey ++ ' ' :: (mark ++ front)) ++ [last] := by
    simp [desired]
  rw [hline, List.getLast?_concat, List.getLast?_concat]

/-- The new line ends in the mark and the date, whatever the key's text is. -/
theorem fields_desired_last (hmark : Visible mark) (hne : mark ≠ []) (hdate : validateDate date = .ok ()) :
    (fields (desired mark publicKey date)).getLast? = some (mark ++ date) := by
  have hline : desired mark publicKey date = publicKey ++ ' ' :: (mark ++ date) := by simp [desired]
  have hclean := (hmark.append (validateDate_ok hdate).1).clean
  rw [hline, fields, List.splitOnP_append_cons _ _ (by decide), List.splitOnP_eq_singleton hclean,
    List.filter_append]
  simp [hne]

/-- The lines of the file after a replacement: the others as they were, and the new one. -/
theorem fileLines_merged {contents out : List UInt8} {text : List Char} (hread : Readable contents text)
    (hmark : Visible mark) (hkey : '\n' ∉ publicKey) (hdate : validateDate date = .ok ())
    (hout : out = utf8Bytes (unlines (kept mark (lines text) ++ [desired mark publicKey date]))) :
    fileLines out = kept mark (fileLines contents) ++ [desired mark publicKey date] := by
  have hvisible := (validateDate_ok hdate).1
  have hbreak : '\n' ∉ desired mark publicKey date := by
    simp only [desired, List.mem_append, List.mem_cons, not_or]
    exact ⟨⟨hkey, by decide, hmark.not_mem (by decide)⟩, hvisible.not_mem (by decide)⟩
  have hlast : (desired mark publicKey date).getLast? ≠ some '\r' := by
    rw [desired_last hdate]
    intro hreturn
    exact hvisible.not_mem (by decide) (List.mem_of_getLast? hreturn)
  have hkept : ∀ line ∈ kept mark (lines text), '\n' ∉ line ∧ '\r' ∉ line := by
    intro line hline
    obtain ⟨hbreak, hreturn, _⟩ := hread.line (List.mem_filter.mp hline).1
    exact ⟨hbreak, hreturn⟩
  have hend : unlines [desired mark publicKey date] = desired mark publicKey date ++ '\n' :: [] := by
    simp [unlines]
  rw [fileLines_eq hread.text_eq, hout, fileLines_eq (utf8Text_bytes _), unlines_append,
    lines_unlines_append hkept, hend, lines_ended hbreak hlast, HostKey.lines_nil]

end

section

variable {ι : Type} {libs : Keys} {jobs : ι → Job}

/-- What the runs leave in the file, from the file they found. -/
structure Kept (jobs : ι → Job) (initial : List UInt8) (s : State ι) : Prop where
  keys : ∀ i key, s.phase i = .returned (.ok key) →
    Present (jobs i).task.markerPrefix key.publicKey (fileLines s.file)
  unrelated : ∀ ls : List (List Char), ls.Sublist (fileLines initial) →
    (∀ line ∈ ls, ∀ i, validateMarkedLine line (jobs i).task.markerPrefix ≠ .ok ()) →
    ls.Sublist (fileLines s.file)
  unread : utf8Text initial = none → s.file = initial

/-- A key on one line; and no other run has replaced the file between reading and replacing it. -/
def Undisturbed (libs : Keys) (jobs : ι → Job) (s : State ι) : Event ι → Prop
  | .read i generated => ∀ key, (jobs i).key libs generated = .ok key → '\n' ∉ key.publicKey
  | .merge i date rename => ∀ key current date' contents, s.phase i = .holding key current → date = .ok date' →
      mergeAuthorizedKeys (jobs i).task.markerPrefix key.publicKey current date' = .ok (.replaced contents) →
      (∀ error, rename ≠ .failed error) → s.file = current
  | .fail _ _ => True

/-- The invariant of the runs: also what a run that is under way has seen is still there. -/
structure Inv (jobs : ι → Job) (initial : List UInt8) (s : State ι) : Prop extends Kept jobs initial s where
  named : ∀ i, s.phase i ≠ .waiting → (∀ error, s.phase i ≠ .returned (.error error)) →
    Named (jobs i).task.targetHostname ∧ Named (jobs i).task.taskId
  plain : ∀ i key current, s.phase i = .holding key current → '\n' ∉ key.publicKey
  held : ∀ i key current, s.phase i = .holding key current →
    ∀ line ∈ fileLines current, MarkedFor (jobs i).task.markerPrefix key.publicKey line → line ∈ fileLines s.file

section

variable [DecidableEq ι] {initial : List UInt8} {s : State ι} {i : ι}

theorem enter_self (phase : Phase) : (s.enter i phase).phase i = phase := by
  unfold State.enter
  exact Function.update_self i phase s.phase

theorem enter_other {j : ι} (h : j ≠ i) (phase : Phase) : (s.enter i phase).phase j = s.phase j := by
  unfold State.enter
  exact Function.update_of_ne h phase s.phase

theorem enter_file (phase : Phase) : (s.enter i phase).file = s.file := rfl

omit [DecidableEq ι] in
theorem key_named {generated : Except Error PrivateKey} {key : GeneratedKey}
    (h : (jobs i).key libs generated = .ok key) :
    Named (jobs i).task.targetHostname ∧ Named (jobs i).task.taskId := by
  obtain ⟨_, hvalid, _⟩ := except_bind_ok.mp h
  exact validate_named hvalid

omit [DecidableEq ι] in
theorem MarkedFor.last {mark publicKey line : List Char} (h : MarkedFor mark publicKey line) :
    ∃ date, (fields line).getLast? = some (mark ++ date) := by
  obtain ⟨first, second, date, hfields, _⟩ := validateMarkedLine_ok.mp h.1
  exact ⟨date, by rw [hfields]; rfl⟩

theorem Inv.failed (h : Inv jobs initial s) (error : Error) :
    Inv jobs initial (s.enter i (.returned (.error error))) := by
  have hother : ∀ j phase, (s.enter i (.returned (.error error))).phase j = phase →
      (∀ error, phase ≠ .returned (.error error)) → s.phase j = phase := by
    intro j phase hphase hne
    by_cases hj : j = i
    · rw [hj, enter_self] at hphase
      exact absurd hphase.symm (hne error)
    · rwa [enter_other hj] at hphase
  refine ⟨⟨?_, h.unrelated, h.unread⟩, ?_, ?_, ?_⟩
  · exact fun j key hphase => h.keys j key (hother j _ hphase nofun)
  · intro j hwaiting herror
    exact h.named j (hother j _ rfl herror ▸ hwaiting) (hother j _ rfl herror ▸ herror)
  · exact fun j key current hphase => h.plain j key current (hother j _ hphase nofun)
  · exact fun j key current hphase => h.held j key current (hother j _ hphase nofun)

theorem Inv.opened (h : Inv jobs initial s) {key : GeneratedKey}
    (hnamed : Named (jobs i).task.targetHostname ∧ Named (jobs i).task.taskId) (hplain : '\n' ∉ key.publicKey) :
    Inv jobs initial (s.enter i (.holding key s.file)) := by
  have hother : ∀ j, j ≠ i → (s.enter i (.holding key s.file)).phase j = s.phase j := fun j hj => enter_other hj _
  refine ⟨⟨?_, h.unrelated, h.unread⟩, ?_, ?_, ?_⟩
  · intro j other hphase
    by_cases hj : j = i
    · rw [hj, enter_self] at hphase
      cases hphase
    · exact h.keys j other (hother j hj ▸ hphase)
  · intro j hwaiting herror
    by_cases hj : j = i
    · rw [hj]
      exact hnamed
    · rw [hother j hj] at hwaiting herror
      exact h.named j hwaiting herror
  · intro j other current hphase
    by_cases hj : j = i
    · rw [hj, enter_self] at hphase
      cases hphase
      exact hplain
    · exact h.plain j other current (hother j hj ▸ hphase)
  · intro j other current hphase
    by_cases hj : j = i
    · rw [hj, enter_self] at hphase
      cases hphase
      exact fun line hline _ => hline
    · exact h.held j other current (hother j hj ▸ hphase)

theorem Inv.unchanged (h : Inv jobs initial s) {key : GeneratedKey} {current same : List UInt8} {date : List Char}
    (hphase : s.phase i = .holding key current)
    (hmerge : mergeAuthorizedKeys (jobs i).task.markerPrefix key.publicKey current date = .ok (.unchanged same)) :
    Inv jobs initial (s.enter i (.returned (.ok key))) := by
  have hother : ∀ j, j ≠ i → (s.enter i (.returned (.ok key))).phase j = s.phase j := fun j hj => enter_other hj _
  have hpresent : Present (jobs i).task.markerPrefix key.publicKey (fileLines s.file) := by
    obtain ⟨text, hread, _, hclean, hresult⟩ := mergeAuthorizedKeys_ok.mp hmerge
    rcases hresult with ⟨⟨line, hline, hmark, htext⟩, _⟩ | ⟨_, heq⟩
    · have hmarked : MarkedFor (jobs i).task.markerPrefix key.publicKey line :=
        ⟨hclean.1 line hline hmark, htext⟩
      rw [← fileLines_eq hread.text_eq] at hline
      exact ⟨line, h.held i key current hphase line hline hmarked, Or.inl hmarked⟩
    · cases heq
  refine ⟨⟨?_, h.unrelated, h.unread⟩, ?_, ?_, ?_⟩
  · intro j other hreturned
    by_cases hj : j = i
    · subst hj
      rw [enter_self] at hreturned
      cases hreturned
      exact hpresent
    · exact h.keys j other (hother j hj ▸ hreturned)
  · intro j hwaiting herror
    by_cases hj : j = i
    · rw [hj]
      exact h.named i (by rw [hphase]; nofun) (by rw [hphase]; nofun)
    · rw [hother j hj] at hwaiting herror
      exact h.named j hwaiting herror
  · intro j other current' hholding
    by_cases hj : j = i
    · rw [hj, enter_self] at hholding
      cases hholding
    · exact h.plain j other current' (hother j hj ▸ hholding)
  · intro j other current' hholding
    by_cases hj : j = i
    · rw [hj, enter_self] at hholding
      cases hholding
    · exact h.held j other current' (hother j hj ▸ hholding)

/-- The tasks of different runs differ in their host or their id. -/
def Distinct (jobs : ι → Job) : Prop :=
  ∀ i j, i ≠ j → ((jobs i).task.targetHostname, (jobs i).task.taskId) ≠
    ((jobs j).task.targetHostname, (jobs j).task.taskId)

/-- A replacement keeps what is not marked for its own task. -/
theorem Inv.replaced (h : Inv jobs initial s) (hdistinct : Distinct jobs) {key : GeneratedKey}
    {contents : List UInt8} {date : List Char} {result : Except Error GeneratedKey}
    (hphase : s.phase i = .holding key s.file)
    (hmerge : mergeAuthorizedKeys (jobs i).task.markerPrefix key.publicKey s.file date = .ok (.replaced contents))
    (hresult : result = .ok key ∨ ∃ error, result = .error error) :
    Inv jobs initial { s.enter i (.returned result) with file := contents } := by
  have hother : ∀ j, j ≠ i → (s.enter i (.returned result)).phase j = s.phase j := fun j hj => enter_other hj _
  obtain ⟨hhost, hid⟩ := h.named i (by rw [hphase]; nofun) (by rw [hphase]; nofun)
  have hmark := markerPrefix_visible hhost hid
  obtain ⟨text, hread, hdate, hclean, hwritten⟩ := mergeAuthorizedKeys_ok.mp hmerge
  have hout : contents = utf8Bytes (unlines (kept (jobs i).task.markerPrefix (lines text) ++
      [desired (jobs i).task.markerPrefix key.publicKey date])) := by
    rcases hwritten with ⟨_, heq⟩ | ⟨_, heq⟩
    · cases heq
    · exact Merge.replaced.inj heq
  have hlines := fileLines_merged hread hmark (h.plain i key s.file hphase) hdate hout
  rw [← fileLines_eq hread.text_eq] at hclean
  have hkept : ∀ line ∈ fileLines s.file, validateMarkedLine line (jobs i).task.markerPrefix ≠ .ok () →
      line ∈ kept (jobs i).task.markerPrefix (fileLines s.file) := by
    intro line hline hnot
    rw [kept_of_sound hclean.1]
    exact List.mem_filter.mpr ⟨hline, decide_eq_true hnot⟩
  have hstays : ∀ line ∈ fileLines s.file, validateMarkedLine line (jobs i).task.markerPrefix ≠ .ok () →
      line ∈ fileLines contents := by
    intro line hline hnot
    rw [hlines]
    exact List.mem_append_left _ (hkept line hline hnot)
  have hforeign : ∀ j, j ≠ i → s.phase j ≠ .waiting → (∀ error, s.phase j ≠ .returned (.error error)) →
      ∀ line date', (fields line).getLast? = some ((jobs j).task.markerPrefix ++ date') →
        validateMarkedLine line (jobs i).task.markerPrefix ≠ .ok () := by
    intro j hj hwaiting herror line date' hlast
    obtain ⟨hhost', hid'⟩ := h.named j hwaiting herror
    exact not_marked_of_last hlast (hdistinct j i hj) hhost hid hhost' hid'
  refine ⟨⟨?_, ?_, ?_⟩, ?_, ?_, ?_⟩
  · intro j other hreturned
    by_cases hj : j = i
    · subst hj
      have hkey : other = key := by
        change (s.enter j (.returned result)).phase j = _ at hreturned
        rw [enter_self] at hreturned
        rcases hresult with rfl | ⟨error, rfl⟩
        · cases hreturned
          rfl
        · cases hreturned
      change Present _ _ (fileLines contents)
      rw [hkey, hlines]
      exact ⟨_, List.mem_append_right _ List.mem_cons_self, Or.inr ⟨date, hdate, rfl⟩⟩
    · have hbefore : s.phase j = .returned (.ok other) := (hother j hj).symm.trans hreturned
      obtain ⟨line, hline, hcarries⟩ := h.keys j other hbefore
      have hended : ∃ date', (fields line).getLast? = some ((jobs j).task.markerPrefix ++ date') := by
        rcases hcarries with hmarked | ⟨date', hdate', rfl⟩
        · exact hmarked.last
        · obtain ⟨hhost', hid'⟩ := h.named j (by rw [hbefore]; nofun) (by rw [hbefore]; nofun)
          exact ⟨date', fields_desired_last (markerPrefix_visible hhost' hid') (markerPrefix_ne_nil _) hdate'⟩
      obtain ⟨date', hlast⟩ := hended
      have hnot := hforeign j hj (by rw [hbefore]; nofun) (by rw [hbefore]; nofun) line date' hlast
      exact ⟨line, hstays line hline hnot, hcarries⟩
  · intro ls hls hunrelated
    change ls.Sublist (fileLines contents)
    have hbefore := h.unrelated ls hls hunrelated
    have hfilter := hbefore.filter fun line => decide (validateMarkedLine line (jobs i).task.markerPrefix ≠ .ok ())
    have hsame : (ls.filter fun line => decide (validateMarkedLine line (jobs i).task.markerPrefix ≠ .ok ())) = ls :=
      List.filter_eq_self.mpr fun line hline => decide_eq_true (hunrelated line hline i)
    rw [hsame, ← kept_of_sound hclean.1] at hfilter
    rw [hlines]
    exact hfilter.trans (List.sublist_append_left _ _)
  · intro hnone
    have hfile := h.unread hnone
    have htext := hread.text_eq
    rw [hfile, hnone] at htext
    cases htext
  · intro j hwaiting herror
    by_cases hj : j = i
    · rw [hj]
      exact ⟨hhost, hid⟩
    · exact h.named j (fun heq => hwaiting ((hother j hj).trans heq))
        fun error heq => herror error ((hother j hj).trans heq)
  · intro j other current hholding
    by_cases hj : j = i
    · subst hj
      exact absurd ((enter_self (.returned result)).symm.trans hholding) nofun
    · exact h.plain j other current ((hother j hj).symm.trans hholding)
  · intro j other current hholding line hline hmarked
    by_cases hj : j = i
    · subst hj
      exact absurd ((enter_self (.returned result)).symm.trans hholding) nofun
    · have hbefore : s.phase j = .holding other current := (hother j hj).symm.trans hholding
      obtain ⟨date', hlast⟩ := hmarked.last
      have hnot := hforeign j hj (by rw [hbefore]; nofun) (by rw [hbefore]; nofun) line date' hlast
      exact hstays line (h.held j other current hbefore line hline hmarked) hnot

/-- A step that no other replacement disturbs keeps the invariant. -/
theorem step_inv (h : Inv jobs initial s) (hdistinct : Distinct jobs) {event : Event ι}
    (hevent : Undisturbed libs jobs s event) : Inv jobs initial (step libs jobs s event) := by
  rcases step_cases libs jobs s event with heq | ⟨i, error, heq⟩ | ⟨i, generated, key, rfl, hkey, heq⟩ |
    ⟨i, key, current, date, same, hphase, hmerge, heq⟩ |
    ⟨i, key, current, date, rename, contents, result, rfl, hphase, hmerge, hrename, hresult, heq⟩
  · rw [heq]
    exact h
  · rw [heq]
    exact h.failed error
  · rw [heq]
    exact h.opened (key_named hkey) (hevent key hkey)
  · rw [heq]
    exact h.unchanged hphase hmerge
  · have hfile : s.file = current := hevent key current date contents hphase rfl hmerge hrename
    subst hfile
    rw [heq]
    exact h.replaced hdistinct hphase hmerge hresult

theorem run_inv (hdistinct : Distinct jobs) {events : List (Event ι)} (h : Inv jobs initial s)
    (hevents : ∀ front event rest, events = front ++ event :: rest →
      Undisturbed libs jobs (run libs jobs s front) event) :
    Inv jobs initial (run libs jobs s events) := by
  induction events generalizing s with
  | nil => exact h
  | cons event rest ih =>
    apply ih (step_inv h hdistinct (hevents [] event rest rfl))
    intro front later rest' heq
    exact hevents (event :: front) later rest' (by rw [heq]; rfl)

end

end

end NixSecrets.StorageBox
