import Mathlib.Data.List.Basic

namespace NixSecrets.Waiter

/-- Durations are counted in nanoseconds. -/
def seconds (n : Nat) : Nat := n * 1000000000

def asSecs (duration : Nat) : Nat := duration / 1000000000

def statusInterval : Nat := seconds 30
def logInterval : Nat := seconds 600
def maxListed : Nat := 8

structure Emit where
  status : Option String := none
  log : Option String := none
  deriving DecidableEq, Repr

structure Progress where
  missing : List String := []
  error : Option String := none
  lastStatus : Option Nat := none
  lastLog : Option Nat := none
  deriving DecidableEq, Repr

def waitingText (missing : List String) (elapsed : Nat) : String :=
  let listed := missing.take maxListed ++
    (if maxListed < missing.length then ["+" ++ toString (missing.length - maxListed) ++ " more"] else [])
  "still waiting for " ++ ", ".intercalate listed ++ " (" ++ toString (asSecs elapsed) ++ "s)"

def errorText (error : String) (elapsed : Nat) : String :=
  "still waiting: " ++ error ++ " (" ++ toString (asSecs elapsed) ++ "s)"

def due (last : Option Nat) (interval elapsed : Nat) : Bool := last.all fun last => interval ≤ elapsed - last

namespace Progress

def emit (p : Progress) (text : String) (changed logNow : Bool) (elapsed : Nat) : Emit × Progress :=
  let status := changed || due p.lastStatus statusInterval elapsed
  let log := logNow || due p.lastLog logInterval elapsed
  ({ status := if status then some text else none
     log := if log then some ("secrets-ready-waiter: " ++ text) else none },
   { p with
     lastStatus := if status then some elapsed else p.lastStatus
     lastLog := if log then some elapsed else p.lastLog })

def observe (p : Progress) (missing : List String) (elapsed : Nat) : Emit × Progress :=
  if missing = [] then ({}, p)
  else
    let differs := p.missing ≠ missing
    let changed := differs || p.error.isSome
    -- The error is taken only where the missing values are the same.
    let error := if differs then p.error else none
    let p := if changed then { p with missing, error } else { p with error }
    p.emit (waitingText missing elapsed) changed false elapsed

def observeError (p : Progress) (error : String) (elapsed : Nat) : Emit × Progress :=
  let changed := p.error ≠ some error
  let p := if changed then { p with error := some error, missing := [] } else p
  p.emit (errorText error elapsed) changed changed elapsed

end Progress

/-- What one poll sees. -/
inductive Seen
  | missing (paths : List String)
  | failed (error : String)
  deriving DecidableEq, Repr

def Seen.text : Seen → Nat → String
  | .missing paths, elapsed => waitingText paths elapsed
  | .failed error, elapsed => errorText error elapsed

inductive Polled
  | ready
  | waiting (emit : Emit) (progress : Progress)
  deriving DecidableEq, Repr

def pollOnce (p : Progress) (seen : Seen) (elapsed : Nat) : Polled :=
  match seen with
  | .missing paths =>
    if paths = [] then .ready
    else .waiting (p.observe paths elapsed).1 (p.observe paths elapsed).2
  | .failed error => .waiting (p.observeError error elapsed).1 (p.observeError error elapsed).2

/-- What was published so far: the status with its time, and when something was logged. -/
structure Published where
  last : Option Seen := none
  status : Option (Nat × String) := none
  log : Option Nat := none
  deriving DecidableEq, Repr

def Published.after (w : Published) (seen : Seen) (elapsed : Nat) (emit : Emit) : Published where
  last := some seen
  status := (emit.status.map (elapsed, ·)).or w.status
  log := (emit.log.map fun _ => elapsed).or w.log

/-- One poll of a run that does not end it: what was published, what was remembered, and what comes out. -/
structure Polling where
  before : Published
  progress : Progress
  seen : Seen
  elapsed : Nat
  emit : Emit
  deriving DecidableEq, Repr

/-- The polls of a run until the secrets are ready. -/
def pollings (w : Published) (p : Progress) : List (Nat × Seen) → List Polling
  | [] => []
  | (elapsed, seen) :: polls =>
    match pollOnce p seen elapsed with
    | .ready => []
    | .waiting emit p' => ⟨w, p, seen, elapsed, emit⟩ :: pollings (w.after seen elapsed emit) p' polls

namespace Polling

def published (x : Polling) : Published := x.before.after x.seen x.elapsed x.emit

/-- The status is about this poll, a new error is published and logged, and an unchanged poll is at most
a reminder. -/
structure Tells (x : Polling) : Prop where
  current : ∃ status, x.published.status = some status ∧ status.2 = x.seen.text status.1
  fresh : ∀ error, x.seen = .failed error → x.before.last ≠ some x.seen →
    x.emit.status.isSome = true ∧ x.emit.log.isSome = true
  quiet : x.before.last = some x.seen →
    (x.emit.status.isSome = true → due (x.before.status.map Prod.fst) statusInterval x.elapsed = true) ∧
    (x.emit.log.isSome = true → due x.before.log logInterval x.elapsed = true)

/-- The poll before this one saw missing values, but the error from before them is still remembered, and this
poll meets it again or sees the same values again, while no reminder is due. -/
def Misled (x : Polling) : Prop :=
  ∃ paths, x.before.last = some (.missing paths) ∧
    ((∃ error, x.seen = .failed error ∧ x.progress.error = some error ∧
      ¬ (due x.progress.lastStatus statusInterval x.elapsed = true ∧
        due x.progress.lastLog logInterval x.elapsed = true)) ∨
    (x.seen = .missing paths ∧ x.progress.error.isSome = true ∧
      due x.progress.lastStatus statusInterval x.elapsed = false))

end Polling

/-- What is remembered fits what was published. -/
structure Fits (w : Published) (p : Progress) : Prop where
  status : p.lastStatus = w.status.map Prod.fst
  log : p.lastLog = w.log
  start : w.last = none → p.error = none ∧ p.missing = []
  missing : ∀ paths, w.last = some (.missing paths) → p.missing = paths
  failed : ∀ error, w.last = some (.failed error) → p.error = some error
  current : ∀ seen, w.last = some seen → ∃ status, w.status = some status ∧ status.2 = seen.text status.1

namespace Progress

variable (p : Progress) (text : String) (changed logNow : Bool) (elapsed : Nat)

theorem emit_status : (p.emit text changed logNow elapsed).1.status =
    if changed || due p.lastStatus statusInterval elapsed then some text else none := rfl

theorem emit_log : (p.emit text changed logNow elapsed).1.log =
    if logNow || due p.lastLog logInterval elapsed then some ("secrets-ready-waiter: " ++ text) else none := rfl

theorem observe_eq {paths : List String} (hne : paths ≠ []) : ∃ q : Progress,
    p.observe paths elapsed =
      q.emit (waitingText paths elapsed) (p.missing ≠ paths || p.error.isSome) false elapsed ∧
    q.missing = paths ∧ q.lastStatus = p.lastStatus ∧ q.lastLog = p.lastLog := by
  unfold observe
  rw [if_neg hne]
  dsimp only
  split
  next => exact ⟨_, rfl, rfl, rfl, rfl⟩
  next hsame =>
    refine ⟨_, rfl, ?_, rfl, rfl⟩
    simp only [Bool.or_eq_true, decide_eq_true_eq, not_or, not_not] at hsame
    exact hsame.1

theorem observeError_eq (error : String) : ∃ q : Progress,
    p.observeError error elapsed =
      q.emit (errorText error elapsed) (p.error ≠ some error) (p.error ≠ some error) elapsed ∧
    q.error = some error ∧ q.lastStatus = p.lastStatus ∧ q.lastLog = p.lastLog := by
  unfold observeError
  dsimp only
  split
  next => exact ⟨_, rfl, rfl, rfl, rfl⟩
  next hsame =>
    refine ⟨_, rfl, ?_, rfl, rfl⟩
    simpa using hsame

end Progress

/-- What comes out of a poll, by whether it counts as changed and as news for the log. -/
structure Comes (w : Published) (p : Progress) (seen : Seen) (elapsed : Nat) (changed logNow : Bool) (emit : Emit)
    (p' : Progress) : Prop where
  comes : emit = (p.emit (seen.text elapsed) changed logNow elapsed).1
  lastStatus : p'.lastStatus = ((w.after seen elapsed emit).status).map Prod.fst
  lastLog : p'.lastLog = (w.after seen elapsed emit).log

variable {w : Published} {p q : Progress} {seen : Seen} {elapsed : Nat} {changed logNow : Bool}

theorem emit_comes (seen : Seen) (elapsed : Nat) (changed logNow : Bool) (hfits : Fits w p) (hstatus : q.lastStatus = p.lastStatus) (hlog : q.lastLog = p.lastLog) :
    Comes w p seen elapsed changed logNow (q.emit (seen.text elapsed) changed logNow elapsed).1
      (q.emit (seen.text elapsed) changed logNow elapsed).2 := by
  have hq : (q.emit (seen.text elapsed) changed logNow elapsed).1 =
      (p.emit (seen.text elapsed) changed logNow elapsed).1 := by
    simp only [Progress.emit, hstatus, hlog]
  refine ⟨hq, ?_, ?_⟩
  · simp only [Progress.emit, Published.after, hstatus, hfits.status]
    split
    next => rfl
    next => rfl
  · simp only [Progress.emit, Published.after, hlog, hfits.log]
    split
    next => rfl
    next => rfl

theorem Comes.current {emit : Emit} {p' : Progress} (hcomes : Comes w p seen elapsed changed logNow emit p')
    (h : (changed || due p.lastStatus statusInterval elapsed) = true ∨ w.last = some seen) (hfits : Fits w p) :
    ∃ status, (w.after seen elapsed emit).status = some status ∧ status.2 = seen.text status.1 := by
  have hstatus : emit.status =
      if changed || due p.lastStatus statusInterval elapsed then some (seen.text elapsed) else none := by
    rw [hcomes.comes, Progress.emit_status]
  unfold Published.after
  dsimp only
  rw [hstatus]
  by_cases hemit : (changed || due p.lastStatus statusInterval elapsed) = true
  · rw [if_pos hemit]
    exact ⟨_, rfl, rfl⟩
  · rw [if_neg hemit]
    exact hfits.current seen (h.resolve_left hemit)

theorem Comes.status_isSome {emit : Emit} {p' : Progress} (h : Comes w p seen elapsed changed logNow emit p') :
    emit.status.isSome = (changed || due p.lastStatus statusInterval elapsed) := by
  rw [h.comes, Progress.emit_status]
  split
  next hemit => exact hemit.symm
  next hemit => simpa using hemit

theorem Comes.log_isSome {emit : Emit} {p' : Progress} (h : Comes w p seen elapsed changed logNow emit p') :
    emit.log.isSome = (logNow || due p.lastLog logInterval elapsed) := by
  rw [h.comes, Progress.emit_log]
  split
  next hemit => exact hemit.symm
  next hemit => simpa using hemit

theorem Comes.tells {emit : Emit} {p' : Progress} (h : Comes w p seen elapsed changed logNow emit p')
    (hfits : Fits w p)
    (hcurrent : (changed || due p.lastStatus statusInterval elapsed) = true ∨ w.last = some seen)
    (hfresh : ∀ error, seen = .failed error → w.last ≠ some seen →
      (changed || due p.lastStatus statusInterval elapsed) = true ∧ (logNow || due p.lastLog logInterval elapsed) = true)
    (hquiet : w.last = some seen → (changed = true → due p.lastStatus statusInterval elapsed = true) ∧
      (logNow = true → due p.lastLog logInterval elapsed = true)) :
    Polling.Tells ⟨w, p, seen, elapsed, emit⟩ := by
  refine ⟨h.current hcurrent hfits, fun error hseen hlast => ?_, fun hlast => ?_⟩
  · rw [h.status_isSome, h.log_isSome]
    exact hfresh error hseen hlast
  · obtain ⟨hstatus, hlog⟩ := hquiet hlast
    rw [h.status_isSome, h.log_isSome, ← hfits.status, ← hfits.log, Bool.or_eq_true, Bool.or_eq_true]
    exact ⟨fun h => h.elim hstatus id, fun h => h.elim hlog id⟩

/-- A changed poll is published, and an error is logged then. -/
theorem Comes.tells_changed {emit : Emit} {p' : Progress} (h : Comes w p seen elapsed true logNow emit p')
    (hfits : Fits w p) (hlast : w.last ≠ some seen) (hlog : ∀ error, seen = .failed error → logNow = true) :
    Polling.Tells ⟨w, p, seen, elapsed, emit⟩ := by
  apply h.tells hfits
  · exact .inl rfl
  · intro error hseen _
    rw [hlog error hseen]
    exact ⟨rfl, rfl⟩
  · exact fun h => absurd h hlast

theorem missing_tells {paths : List String} {emit : Emit} {p' : Progress} (hfits : Fits w p) (hne : paths ≠ [])
    (h : Comes w p (.missing paths) elapsed (p.missing ≠ paths || p.error.isSome) false emit p') :
    Polling.Tells ⟨w, p, .missing paths, elapsed, emit⟩ ↔
      ¬ Polling.Misled ⟨w, p, .missing paths, elapsed, emit⟩ := by
  by_cases hlast : w.last = some (.missing paths)
  · have hmissing := hfits.missing paths hlast
    have hchanged : (decide (p.missing ≠ paths) || p.error.isSome) = p.error.isSome := by simp [hmissing]
    rw [hchanged] at h
    constructor
    · rintro htells ⟨paths', -, ⟨error, hseen, -⟩ | ⟨-, herror, hdue⟩⟩
      · cases hseen
      · change p.error.isSome = true at herror
        have hstatus := (htells.quiet hlast).1
        change emit.status.isSome = true → due (w.status.map Prod.fst) statusInterval elapsed = true at hstatus
        rw [h.status_isSome, herror, ← hfits.status] at hstatus
        exact absurd (hstatus rfl) (by rw [show due p.lastStatus statusInterval elapsed = false from hdue]; decide)
    · intro hled
      apply h.tells hfits
      · exact .inr hlast
      · exact fun error hseen => by cases hseen
      · intro _
        refine ⟨fun herror => ?_, nofun⟩
        by_contra hdue
        exact hled ⟨paths, hlast, .inr ⟨rfl, herror, Bool.eq_false_iff.mpr hdue⟩⟩
  · have hchanged : (decide (p.missing ≠ paths) || p.error.isSome) = true := by
      cases hw : w.last with
      | none =>
        obtain ⟨-, hmissing⟩ := hfits.start hw
        simp [hmissing, hne.symm]
      | some seen =>
        cases seen with
        | failed error => simp [hfits.failed error hw]
        | missing paths' =>
          have hmissing := hfits.missing paths' hw
          have hpaths : paths' ≠ paths := by
            rintro rfl
            exact hlast hw
          simp [hmissing, hpaths]
    rw [hchanged] at h
    constructor
    · rintro - ⟨paths', hlast', ⟨error, hseen, -⟩ | ⟨hseen, -⟩⟩
      · cases hseen
      · cases hseen
        exact hlast hlast'
    · intro _
      exact h.tells_changed hfits hlast fun error hseen => by cases hseen

theorem failed_tells {error : String} {emit : Emit} {p' : Progress} (hfits : Fits w p)
    (h : Comes w p (.failed error) elapsed (p.error ≠ some error) (p.error ≠ some error) emit p') :
    Polling.Tells ⟨w, p, .failed error, elapsed, emit⟩ ↔
      ¬ Polling.Misled ⟨w, p, .failed error, elapsed, emit⟩ := by
  by_cases hlast : w.last = some (.failed error)
  · have herror := hfits.failed error hlast
    constructor
    · rintro - ⟨paths, hpaths, -⟩
      exact absurd (hlast.symm.trans hpaths) nofun
    · intro _
      apply h.tells hfits
      · exact .inr hlast
      · exact fun _ _ hne => absurd hlast hne
      · intro _
        simp [herror]
  · by_cases herror : p.error = some error
    · have hsame : decide (p.error ≠ some error) = false := by simp [herror]
      rw [hsame] at h
      constructor
      · rintro htells ⟨paths, -, ⟨error', hseen, -, hdue⟩ | ⟨hseen, -⟩⟩
        · obtain ⟨hstatus, hlog⟩ := htells.fresh error rfl hlast
          change emit.status.isSome = true at hstatus
          change emit.log.isSome = true at hlog
          rw [h.status_isSome] at hstatus
          rw [h.log_isSome] at hlog
          exact hdue ⟨hstatus, hlog⟩
        · cases hseen
      · intro hled
        have hdue : due p.lastStatus statusInterval elapsed = true ∧ due p.lastLog logInterval elapsed = true := by
          by_contra hdue
          cases hw : w.last with
          | none =>
            rw [(hfits.start hw).1] at herror
            cases herror
          | some seen =>
            cases seen with
            | missing paths => exact hled ⟨paths, hw, .inl ⟨error, rfl, herror, hdue⟩⟩
            | failed error' =>
              have hboth := (hfits.failed error' hw).symm.trans herror
              cases hboth
              exact hlast hw
        apply h.tells hfits
        · exact .inl hdue.1
        · exact fun _ _ _ => hdue
        · exact fun h => absurd h hlast
    · have hchanged : decide (p.error ≠ some error) = true := by simp [herror]
      rw [hchanged] at h
      constructor
      · rintro - ⟨paths, -, ⟨error', hseen, hled, -⟩ | ⟨hseen, -⟩⟩
        · cases hseen
          exact herror hled
        · cases hseen
      · intro _
        exact h.tells_changed hfits hlast fun _ _ => rfl

/-- One poll tells what it should exactly if no stale error misleads it. -/
theorem pollOnce_tells {emit : Emit} {p' : Progress} (hfits : Fits w p)
    (h : pollOnce p seen elapsed = .waiting emit p') :
    (Polling.Tells ⟨w, p, seen, elapsed, emit⟩ ↔ ¬ Polling.Misled ⟨w, p, seen, elapsed, emit⟩) ∧
    (Polling.Tells ⟨w, p, seen, elapsed, emit⟩ → Fits (w.after seen elapsed emit) p') := by
  cases seen with
  | missing paths =>
    unfold pollOnce at h
    dsimp only at h
    split at h
    next => cases h
    next hne =>
      obtain ⟨q, hemit, hmissing, hstatus, hlog⟩ := p.observe_eq elapsed hne
      rw [hemit] at h
      cases h
      have hcomes := emit_comes (.missing paths) elapsed (p.missing ≠ paths || p.error.isSome) false hfits hstatus hlog
      refine ⟨missing_tells hfits hne hcomes, fun htells => ?_⟩
      refine ⟨hcomes.lastStatus, hcomes.lastLog, nofun, ?_, nofun, ?_⟩
      · intro paths' hlast
        cases hlast
        exact hmissing
      · intro seen hlast
        cases hlast
        exact htells.current
  | failed error =>
    obtain ⟨q, hemit, herror, hstatus, hlog⟩ := p.observeError_eq elapsed error
    unfold pollOnce at h
    dsimp only at h
    rw [hemit] at h
    cases h
    have hcomes := emit_comes (.failed error) elapsed (p.error ≠ some error) (p.error ≠ some error) hfits hstatus hlog
    refine ⟨failed_tells hfits hcomes, fun htells => ?_⟩
    refine ⟨hcomes.lastStatus, hcomes.lastLog, nofun, nofun, ?_, ?_⟩
    · intro error' hlast
      cases hlast
      exact herror
    · intro seen hlast
      cases hlast
      exact htells.current

theorem pollings_tell {w : Published} {p : Progress} (hfits : Fits w p) (polls : List (Nat × Seen)) :
    (∀ x ∈ pollings w p polls, x.Tells) ↔ ∀ x ∈ pollings w p polls, ¬ x.Misled := by
  induction polls generalizing w p with
  | nil => simp [pollings]
  | cons poll polls ih =>
    obtain ⟨elapsed, seen⟩ := poll
    unfold pollings
    cases hpoll : pollOnce p seen elapsed with
    | ready => simp
    | waiting emit p' =>
      dsimp only
      obtain ⟨hiff, hnext⟩ := pollOnce_tells hfits hpoll
      rw [List.forall_mem_cons, List.forall_mem_cons]
      constructor
      · rintro ⟨htells, hrest⟩
        exact ⟨hiff.mp htells, (ih (hnext htells)).mp hrest⟩
      · rintro ⟨hled, hrest⟩
        have htells := hiff.mpr hled
        exact ⟨htells, (ih (hnext htells)).mpr hrest⟩

/-- The published status is current in a run exactly if no poll of it meets an error that is still remembered
though missing values were seen since. -/
theorem status_current (polls : List (Nat × Seen)) :
    (∀ x ∈ pollings {} {} polls, x.Tells) ↔ ∀ x ∈ pollings {} {} polls, ¬ x.Misled := by
  have hnone (seen : Seen) : (none : Option Seen) ≠ some seen := nofun
  apply pollings_tell
  exact ⟨rfl, rfl, fun _ => ⟨rfl, rfl⟩, fun paths h => absurd h (hnone (.missing paths)),
    fun error h => absurd h (hnone (.failed error)), fun seen h => absurd h (hnone seen)⟩

/-- The same error comes back after the missing values were seen again. -/
def returningError : List (Nat × Seen) :=
  [(0, .missing ["/a"]), (seconds 5, .failed "cannot inspect /x: denied"), (seconds 7, .missing ["/a"]),
    (seconds 8, .failed "cannot inspect /x: denied")]

/-- Nothing says so: the status still names the missing values. -/
theorem returningError_silent : ∃ x ∈ pollings {} {} returningError,
    x.seen = .failed "cannot inspect /x: denied" ∧ x.emit = ⟨none, none⟩ ∧
    x.published.status = some (seconds 7, "still waiting for /a (7s)") ∧ ¬ x.Tells := by
  have hlast : (pollings {} {} returningError)[3]?.any fun x => x.seen = .failed "cannot inspect /x: denied" ∧
      x.emit = ⟨none, none⟩ ∧ x.published.status = some (seconds 7, "still waiting for /a (7s)") ∧
      x.before.last = some (.missing ["/a"]) := by decide
  obtain ⟨x, hx, hfacts⟩ := (Option.any_eq_true _ _).mp hlast
  simp only [decide_eq_true_eq] at hfacts
  obtain ⟨hseen, hemit, hstatus, hbefore⟩ := hfacts
  refine ⟨x, List.mem_of_getElem? hx, hseen, hemit, hstatus, fun htells => ?_⟩
  have hfresh := (htells.fresh _ hseen (by rw [hbefore, hseen]; nofun)).1
  rw [hemit] at hfresh
  cases hfresh

end NixSecrets.Waiter
