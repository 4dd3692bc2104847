import Mathlib.Data.List.Forall2
import NixSecrets.AsyncWriter

namespace NixSecrets.Tui

variable {ρ : Type}

/-- The outcome of a submitted value. -/
def Completion.isSave : Completion ρ → Bool
  | .saved _ | .saveFailed _ _ _ => true
  | _ => false

/-- The completion is the one of this value: saved under its path, or handed back. -/
def Settles (draft : String × Value) (completion : Completion ρ) : Prop :=
  completion = .saved draft.1 ∨ ∃ message, completion = .saveFailed draft.1 draft.2 message

theorem Settles.isSave {draft : String × Value} {completion : Completion ρ} (h : Settles draft completion) :
    completion.isSave = true := by
  rcases h with rfl | ⟨message, rfl⟩
  · rfl
  · rfl

/-- What the worker may answer to the command of a draft. -/
def FitsAnswer : Option (String × Value) → Completion ρ → Prop
  | some draft, completion => Settles draft completion ∨ ∃ message, completion = .failed message
  | none, completion => completion.isSave = false

/-- The answer to a command, if the event is one. -/
def Event.answer : Event ρ → Option (Completion ρ)
  | .completion (.bulkProgress _ _) => none
  | .completion result => some result
  | _ => none

def answers (events : List (Event ρ)) : List (Completion ρ) := events.filterMap Event.answer

/-- The event neither answers a command nor says that the worker stopped. -/
def Event.silent (event : Event ρ) : Prop := event.answer = none ∧ event ≠ .workerStopped

theorem News.silent (news : News ρ) : news.event.silent := by
  cases news <;> exact ⟨rfl, nofun⟩

theorem withDraft_some {draft : String × Value} {completion : Completion ρ}
    (h : FitsAnswer (some draft) completion) :
    Settles draft (AsyncWriter.withDraft (some (some draft)) completion) := by
  rcases h with (rfl | ⟨message, rfl⟩) | ⟨message, rfl⟩
  · exact Or.inl rfl
  · exact Or.inr ⟨message, rfl⟩
  · exact Or.inr ⟨message, rfl⟩

theorem withDraft_none {completion : Completion ρ} :
    AsyncWriter.withDraft (some none) completion = completion := rfl

theorem display_parse {path : String} {parsed : Inventory.SecretPath}
    (h : Inventory.SecretPath.parse path = .ok parsed) : parsed.display = path := by
  obtain ⟨_, _, h⟩ := Checked.bind_ok h
  obtain ⟨_, _, h⟩ := Checked.bind_ok h
  obtain ⟨_, _, h⟩ := Checked.bind_ok h
  obtain ⟨_, _, h⟩ := Checked.bind_ok h
  cases h
  have htext : ['.'].intercalate (path.toList.splitOn '.') = path.toList := List.intercalate_splitOn '.'
  rw [Inventory.SecretPath.display]
  apply String.toList_injective
  rw [String.toList_intercalate, List.map_map]
  have hid : String.toList ∘ String.ofList = id := funext fun _ => String.toList_ofList
  rw [hid, List.map_id]
  exact htext

/-- The worker answers a write with the outcome of its value, and no other command so. -/
theorem execute_fits (answer : Answer ρ) (command : Command) :
    FitsAnswer command.draft (execute answer command) ∧
      (Event.completion (execute answer command)).answer = some (execute answer command) := by
  have happroval (accepted : Bool) : (approvalDone answer accepted).isSave = false ∧
      (Event.completion (approvalDone answer accepted)).answer = some (approvalDone answer accepted) := by
    unfold approvalDone
    cases answer.next with
    | error message => exact ⟨rfl, rfl⟩
    | ok next =>
      cases next with
      | some next => exact ⟨rfl, rfl⟩
      | none => cases accepted <;> exact ⟨rfl, rfl⟩
  cases command with
  | write path value =>
    simp only [execute, controllerWrite, Command.draft]
    cases hparse : Inventory.SecretPath.parse path with
    | error e => exact ⟨Or.inl (Or.inr ⟨_, rfl⟩), rfl⟩
    | ok parsed =>
      cases answer.stored with
      | error message => exact ⟨Or.inl (Or.inr ⟨_, rfl⟩), rfl⟩
      | ok u =>
        refine ⟨Or.inl (Or.inl ?_), rfl⟩
        rw [← display_parse hparse]
  | bulkGenerate paths kind => exact ⟨rfl, rfl⟩
  | approval accepted => exact happroval accepted
  | approvalWith accepted unchecked => exact happroval accepted
  | hostMutations accepted token =>
    simp only [execute, Command.draft]
    split
    next =>
      split
      next => exact happroval accepted
      next => exact ⟨rfl, rfl⟩
    next => exact happroval accepted
  | _ =>
    simp only [execute, Command.draft]
    split
    next => exact ⟨rfl, rfl⟩
    next => exact ⟨rfl, rfl⟩

namespace AsyncWriter

theorem write_ok {w w' : AsyncWriter ρ} {listening : Bool} {path : String} {value : Value} {command : Command}
    (h : w.write listening path value = .ok (w', command)) :
    listening = true ∧ command = .write path value ∧ w'.drafts = w.drafts ++ [some (path, value)] ∧
      w'.completions = w.completions := by
  unfold write at h
  split at h
  next => cases h
  next =>
    split at h
    next => cases h
    next =>
      split at h
      next => cases h
      next hlistening =>
        cases h
        exact ⟨by simpa using hlistening, rfl, rfl, rfl⟩

theorem write_gone (w : AsyncWriter ρ) (path : String) (value : Value) :
    ∃ refusal, w.write Worker.gone.listening path value = .error refusal := by
  unfold write
  split
  next => exact ⟨_, rfl⟩
  next =>
    split
    next => exact ⟨_, rfl⟩
    next => exact ⟨_, rfl⟩

theorem queue_ok {w w' : AsyncWriter ρ} {listening : Bool} {command : Command}
    (h : w.queue listening command = .ok w') :
    listening = true ∧ w'.drafts = w.drafts ++ [none] ∧ w'.completions = w.completions := by
  unfold queue at h
  split at h
  next => cases h
  next =>
    split at h
    next => cases h
    next hlistening =>
      cases h
      exact ⟨by simpa using hlistening, rfl, rfl⟩

theorem hear_keeps (w : AsyncWriter ρ) (event : ChannelEvent) :
    (w.hear event).drafts = w.drafts ∧ ∃ new, (w.hear event).completions = w.completions ++ new ∧
      new.filter Completion.isSave = [] := by
  have hsame (w' : AsyncWriter ρ) (h : w'.completions = w.completions) :
      ∃ new, w'.completions = w.completions ++ new ∧ new.filter Completion.isSave = [] :=
    ⟨[], by rw [h, List.append_nil], rfl⟩
  cases event with
  | attached =>
    simp only [hear]
    split
    next => exact ⟨rfl, hsame _ rfl⟩
    next => exact ⟨rfl, hsame _ rfl⟩
  | finished kind id requester result => exact ⟨rfl, [.requestFinished kind id requester result], rfl, rfl⟩
  | _ => exact ⟨rfl, hsame _ rfl⟩

theorem receive_silent (w : AsyncWriter ρ) {event : Event ρ} (h : event.silent) :
    (w.receive event).drafts = w.drafts ∧ ∃ new, (w.receive event).completions = w.completions ++ new ∧
      new.filter Completion.isSave = [] := by
  have hsame (w' : AsyncWriter ρ) (h : w'.completions = w.completions) :
      ∃ new, w'.completions = w.completions ++ new ∧ new.filter Completion.isSave = [] :=
    ⟨[], by rw [h, List.append_nil], rfl⟩
  cases event with
  | workerStopped => exact absurd rfl h.2
  | completion result =>
    cases result with
    | bulkProgress done total => exact ⟨rfl, [.bulkProgress done total], rfl, rfl⟩
    | _ => cases h.1
  | progress done total waiting secret =>
    cases secret with
    | true => exact ⟨rfl, hsame _ rfl⟩
    | false => exact ⟨rfl, hsame _ rfl⟩
  | approvalTerminated id => exact ⟨rfl, [.approvalTerminated id], rfl, rfl⟩
  | error message => exact ⟨rfl, [.failed message], rfl, rfl⟩
  | approvalLost message => exact ⟨rfl, [.approvalLost message], rfl, rfl⟩
  | _ => exact ⟨rfl, hsame _ rfl⟩

theorem receive_answer (w : AsyncWriter ρ) {event : Event ρ} {completion : Completion ρ}
    (h : event.answer = some completion) : (w.receive event).drafts = w.drafts.tail ∧
      (w.receive event).completions = w.completions ++ [withDraft w.drafts.head? completion] := by
  cases event with
  | completion result =>
    cases result with
    | bulkProgress done total => cases h
    | _ =>
      cases h
      exact ⟨rfl, rfl⟩
  | _ => cases h

theorem workerStopped_saves (w : AsyncWriter ρ) : w.workerStopped.drafts = [] ∧
    ∃ new, w.workerStopped.completions = w.completions ++ new ∧
      List.Forall₂ Settles (w.drafts.filterMap id) (new.filter Completion.isSave) := by
  refine ⟨rfl, _, List.append_assoc _ _ _, ?_⟩
  rw [List.filter_append]
  have hidle : (if w.busy ∧ ¬ w.drafts.any Option.isSome then
      [(.failed "backend worker stopped" : Completion ρ)] else []).filter Completion.isSave = [] := by
    split
    next => rfl
    next => rfl
  rw [hidle, List.append_nil]
  generalize w.drafts.filterMap id = drafts
  induction drafts with
  | nil => exact List.Forall₂.nil
  | cons draft drafts ih => exact List.Forall₂.cons (Or.inr ⟨_, rfl⟩) ih

/-- Taking the first ready completion keeps the order of the outcomes of values, which are always ready. -/
theorem find_eraseP_saves {ready : Completion ρ → Bool} (hready : ∀ c, c.isSave = true → ready c = true)
    {completion : Completion ρ} {completions : List (Completion ρ)}
    (h : completions.find? ready = some completion) : completions.filter Completion.isSave =
      [completion].filter Completion.isSave ++ (completions.eraseP ready).filter Completion.isSave := by
  induction completions with
  | nil => cases h
  | cons c completions ih =>
    by_cases hc : ready c = true
    · rw [List.find?_cons_of_pos hc] at h
      cases h
      rw [List.eraseP_cons_of_pos hc]
      exact List.filter_append [completion] completions
    · rw [List.find?_cons_of_neg hc] at h
      have hsave : ¬ c.isSave = true := fun hsave => hc (hready c hsave)
      rw [List.eraseP_cons_of_neg hc, List.filter_cons_of_neg hsave, List.filter_cons_of_neg hsave, ih h]

theorem pollCompletion_saves {w w' : AsyncWriter ρ} {completion : Completion ρ}
    (h : w.pollCompletion = (some completion, w')) : w'.drafts = w.drafts ∧
      w.completions.filter Completion.isSave =
        [completion].filter Completion.isSave ++ w'.completions.filter Completion.isSave := by
  obtain ⟨hfind, hrest⟩ := Prod.mk.inj h
  subst hrest
  refine ⟨rfl, find_eraseP_saves ?_ hfind⟩
  intro c hc
  cases c with
  | saved path => rfl
  | saveFailed path value message => rfl
  | _ => cases hc

end AsyncWriter

namespace System

/-- The submitted values that are still held as drafts. -/
def held (s : System ρ) : List (String × Value) := s.writer.drafts.filterMap id

/-- The outcomes of submitted values, handed out or waiting to be. -/
def saves (s : System ρ) : List (Completion ρ) := (s.polled ++ s.writer.completions).filter Completion.isSave

/-- The commands that the worker has yet to answer. -/
def outstanding (s : System ρ) : List Command :=
  match s.worker with
  | .executing command => command :: s.commands
  | _ => s.commands

/-- The worker's answers on their way are those to the oldest drafts; once it stopped, the notice of that
comes after them. -/
def Flying (s : System ρ) : Prop :=
  if s.worker.running then
    s.stopSeen = false ∧ .workerStopped ∉ s.events ∧ ∃ front,
      s.writer.drafts = front ++ s.outstanding.map Command.draft ∧ List.Forall₂ FitsAnswer front (answers s.events)
  else
    (s.stopSeen = false ∧ ∃ before after front back, s.events = before ++ .workerStopped :: after ∧
      .workerStopped ∉ before ∧ answers after = [] ∧ s.writer.drafts = front ++ back ∧
      List.Forall₂ FitsAnswer front (answers before)) ∨
    s.stopSeen = true ∧ answers s.events = [] ∧ s.held = []

/-- Every queued value was answered, in order, or is still held. -/
structure Sound (s : System ρ) : Prop where
  accounted : ∃ done, s.queued = done ++ s.held ∧ List.Forall₂ Settles done s.saves
  flying : s.Flying

/-- No value is submitted after the UI saw the worker stop and before the worker let go of its queue. -/
def Respects (s : System ρ) : Act ρ → Prop
  | .write _ _ => s.stopSeen = true → s.worker = .gone
  | _ => True

def Careful (s : System ρ) : List (Act ρ) → Prop
  | [] => True
  | act :: acts => s.Respects act ∧ (s.step act).Careful acts

theorem answers_append (events events' : List (Event ρ)) :
    answers (events ++ events') = answers events ++ answers events' := List.filterMap_append

theorem answers_cons {event : Event ρ} (events : List (Event ρ)) :
    answers (event :: events) = event.answer.toList ++ answers events := by
  unfold answers
  cases h : event.answer with
  | none => rw [List.filterMap_cons_none h]; rfl
  | some completion => rw [List.filterMap_cons_some h]; rfl

/-- An event that answers nothing changes nothing for what is on its way. -/
theorem Flying.sends {s : System ρ} {event : Event ρ} (h : s.Flying) (hsilent : event.silent) :
    Flying { s with events := s.events ++ [event] } := by
  have hanswers (events : List (Event ρ)) : answers (events ++ [event]) = answers events := by
    rw [answers_append, answers_cons, hsilent.1]
    exact List.append_nil _
  unfold Flying at h ⊢
  split at h
  next hrunning =>
    obtain ⟨hseen, hstopped, front, hdrafts, hfits⟩ := h
    rw [if_pos hrunning]
    refine ⟨hseen, ?_, front, hdrafts, ?_⟩
    · intro hmem
      rcases List.mem_append.mp hmem with hmem | hmem
      · exact hstopped hmem
      · exact hsilent.2 (List.mem_singleton.mp hmem).symm
    · rw [hanswers]
      exact hfits
  next hrunning =>
    rw [if_neg hrunning]
    rcases h with ⟨hseen, before, after, front, back, hevents, hstopped, hafter, hdrafts, hfits⟩ | h
    · left
      refine ⟨hseen, before, after ++ [event], front, back, ?_, hstopped, ?_, hdrafts, hfits⟩
      · show s.events ++ [event] = _
        rw [hevents, List.append_assoc, List.cons_append]
      · rw [hanswers]
        exact hafter
    · right
      refine ⟨h.1, ?_, h.2.2⟩
      rw [hanswers]
      exact h.2.1

/-- Soundness speaks of these parts only. -/
theorem Sound.congr {s s' : System ρ} (h : s.Sound) (hqueued : s'.queued = s.queued)
    (hdrafts : s'.writer.drafts = s.writer.drafts) (hsaves : s'.saves = s.saves) (hflying : s'.Flying) :
    s'.Sound := by
  obtain ⟨done, hdone, hsettles⟩ := h.accounted
  refine ⟨⟨done, ?_, ?_⟩, hflying⟩
  · rw [hqueued, hdone, held, held, hdrafts]
  · rw [hsaves]
    exact hsettles

theorem saves_append {s : System ρ} {completions : List (Completion ρ)} {writer : AsyncWriter ρ}
    (h : writer.completions = s.writer.completions ++ completions) :
    saves { s with writer } = s.saves ++ completions.filter Completion.isSave := by
  show (s.polled ++ writer.completions).filter _ = (s.polled ++ s.writer.completions).filter _ ++ _
  rw [h, ← List.append_assoc, List.filter_append]

theorem Sound.write {s : System ρ} (h : s.Sound) {path : String} {value : Value}
    (hrespects : s.stopSeen = true → s.worker = .gone) : (s.step (.write path value)).Sound := by
  simp only [step]
  split
  next writer command hwrite =>
    obtain ⟨hlistening, rfl, hdrafts, hcompletions⟩ := AsyncWriter.write_ok hwrite
    obtain ⟨done, hdone, hsettles⟩ := h.accounted
    refine ⟨⟨done, ?_, ?_⟩, ?_⟩
    · show s.queued ++ [(path, value)] = done ++ writer.drafts.filterMap id
      rw [hdone, hdrafts, List.filterMap_append, List.append_assoc]
      rfl
    · have hsaves : saves { s with
          writer, commands := s.commands ++ [.write path value], queued := s.queued ++ [(path, value)] } =
          s.saves := by
        show (s.polled ++ writer.completions).filter _ = _
        rw [hcompletions]
        rfl
      rw [hsaves]
      exact hsettles
    · have hflying := h.flying
      unfold Flying at hflying ⊢
      split at hflying
      next hrunning =>
        obtain ⟨hseen, hstopped, front, hfront, hfits⟩ := hflying
        rw [if_pos hrunning]
        refine ⟨hseen, hstopped, front, ?_, hfits⟩
        show writer.drafts = _
        rw [hdrafts, hfront, List.append_assoc]
        congr 1
        unfold outstanding
        cases s.worker with
        | executing command => simp [Command.draft]
        | _ => simp [Command.draft]
      next hrunning =>
        rw [if_neg hrunning]
        rcases hflying with ⟨hseen, before, after, front, back, hevents, hstopped, hafter, hfront, hfits⟩ | hflying
        · left
          refine ⟨hseen, before, after, front, back ++ [some (path, value)], hevents, hstopped, hafter, ?_, hfits⟩
          show writer.drafts = _
          rw [hdrafts, hfront, List.append_assoc]
        · rw [hrespects hflying.1] at hlistening
          cases hlistening
  next => exact h

theorem Sound.queue {s : System ρ} (h : s.Sound) {command : Command} : (s.step (.queue command)).Sound := by
  simp only [step]
  split
  next => exact h
  next hcommand =>
    have hcommand : command.draft = none := by simpa using hcommand
    split
    next writer hqueue =>
      obtain ⟨_, hdrafts, hcompletions⟩ := AsyncWriter.queue_ok hqueue
      have hheld : writer.drafts.filterMap id = s.held := by
        rw [hdrafts, List.filterMap_append]
        exact List.append_nil _
      obtain ⟨done, hdone, hsettles⟩ := h.accounted
      refine ⟨⟨done, ?_, ?_⟩, ?_⟩
      · show s.queued = done ++ writer.drafts.filterMap id
        rw [hheld, hdone]
      · have hsaves : saves { s with writer, commands := s.commands ++ [command] } = s.saves := by
          show (s.polled ++ writer.completions).filter _ = _
          rw [hcompletions]
          rfl
        rw [hsaves]
        exact hsettles
      · have hflying := h.flying
        unfold Flying at hflying ⊢
        split at hflying
        next hrunning =>
          obtain ⟨hseen, hstopped, front, hfront, hfits⟩ := hflying
          rw [if_pos hrunning]
          refine ⟨hseen, hstopped, front, ?_, hfits⟩
          show writer.drafts = _
          rw [hdrafts, hfront, List.append_assoc]
          congr 1
          unfold outstanding
          cases s.worker with
          | executing other => simp [hcommand]
          | _ => simp [hcommand]
        next hrunning =>
          rw [if_neg hrunning]
          rcases hflying with ⟨hseen, before, after, front, back, hevents, hstopped, hafter, hfront, hfits⟩ |
            hflying
          · left
            refine ⟨hseen, before, after, front, back ++ [none], hevents, hstopped, hafter, ?_, hfits⟩
            show writer.drafts = _
            rw [hdrafts, hfront, List.append_assoc]
          · right
            exact ⟨hflying.1, hflying.2.1, hheld.trans hflying.2.2⟩
    next => exact h

/-- What is on its way is not touched by what the UI does with what it received. -/
theorem Flying.congr {s s' : System ρ} (h : s.Flying) (hdrafts : s'.writer.drafts = s.writer.drafts)
    (hrunning : s'.worker.running = s.worker.running) (houtstanding : s'.outstanding = s.outstanding)
    (hevents : s'.events = s.events) (hseen : s'.stopSeen = s.stopSeen) : s'.Flying := by
  have hheld : s'.held = s.held := congrArg (List.filterMap id) hdrafts
  unfold Flying at h ⊢
  rw [hrunning, houtstanding, hdrafts, hevents, hseen, hheld]
  exact h

theorem Sound.hear {s : System ρ} (h : s.Sound) : (s.step .hear).Sound := by
  simp only [step]
  split
  next event channel hchannel =>
    obtain ⟨hdrafts, new, hcompletions, hnew⟩ := AsyncWriter.hear_keeps s.writer event
    refine h.congr rfl hdrafts ?_ ?_
    · have hsaves := saves_append (s := s) hcompletions
      rw [hnew, List.append_nil] at hsaves
      exact hsaves
    · exact h.flying.congr hdrafts rfl rfl rfl rfl
  next => exact h

theorem Sound.poll {s : System ρ} (h : s.Sound) : (s.step .poll).Sound := by
  simp only [step]
  split
  next completion writer hpoll =>
    obtain ⟨hdrafts, hsaves⟩ := AsyncWriter.pollCompletion_saves hpoll
    refine h.congr rfl hdrafts ?_ ?_
    · show ((s.polled ++ [completion]) ++ writer.completions).filter _ = (s.polled ++ s.writer.completions).filter _
      rw [List.filter_append, List.filter_append, List.filter_append, hsaves, List.append_assoc]
    · exact h.flying.congr hdrafts rfl rfl rfl rfl
  next => exact h

theorem Sound.take {s : System ρ} (h : s.Sound) : (s.step .take).Sound := by
  simp only [step]
  split
  next command commands hworker hcommands =>
    refine h.congr rfl rfl rfl (h.flying.congr rfl ?_ ?_ rfl rfl)
    · rw [hworker]
      rfl
    · unfold outstanding
      rw [hworker, hcommands]
  next => exact h

/-- Any thread may tell what answers nothing. -/
theorem Sound.sends {s : System ρ} {event : Event ρ} (h : s.Sound) (hsilent : event.silent) :
    Sound { s with events := s.events ++ [event] } :=
  h.congr rfl rfl rfl (h.flying.sends hsilent)

theorem Sound.bulkProgress {s : System ρ} (h : s.Sound) {done total : Nat} :
    (s.step (.bulkProgress done total)).Sound := by
  simp only [step]
  split
  next => exact h.sends ⟨rfl, nofun⟩
  next => exact h

theorem Flying.answered {s : System ρ} {command : Command} {completion : Completion ρ} (h : s.Flying)
    (hworker : s.worker = .executing command) (hfits : FitsAnswer command.draft completion)
    (hanswer : (Event.completion completion).answer = some completion) :
    Flying { s with worker := .idle, events := s.events ++ [.completion completion] } := by
  unfold Flying at h ⊢
  have hexecuting : (Worker.executing command).running = true := rfl
  have hidle : Worker.idle.running = true := rfl
  rw [hworker, if_pos hexecuting] at h
  rw [if_pos hidle]
  obtain ⟨hseen, hstopped, front, hfront, hfront_fits⟩ := h
  refine ⟨hseen, ?_, front ++ [command.draft], ?_, ?_⟩
  · intro hmem
    rcases List.mem_append.mp hmem with hmem | hmem
    · exact hstopped hmem
    · cases List.mem_singleton.mp hmem
  · show s.writer.drafts = _
    rw [hfront]
    unfold outstanding
    rw [hworker]
    simp
  · rw [answers_append, answers_cons, hanswer]
    exact List.rel_append hfront_fits (List.Forall₂.cons hfits List.Forall₂.nil)

theorem Sound.finish {s : System ρ} (h : s.Sound) {answer : Answer ρ} {approvalId : Option String} :
    (s.step (.finish answer approvalId)).Sound := by
  simp only [step]
  split
  next command hworker =>
    obtain ⟨hfits, hanswer⟩ := execute_fits answer command
    cases approvalId with
    | none =>
      rw [Option.toList_none, List.map_nil, List.append_nil]
      exact h.congr rfl rfl rfl (h.flying.answered hworker hfits hanswer)
    | some id =>
      have hterminated : Flying { s with events := s.events ++ [.approvalTerminated id] } :=
        h.flying.sends ⟨rfl, nofun⟩
      exact h.congr rfl rfl rfl (hterminated.answered hworker hfits hanswer)
  next => exact h

theorem Sound.announce {s : System ρ} (h : s.Sound) : (s.step .announce).Sound := by
  simp only [step]
  split
  next hrunning =>
    refine h.congr rfl rfl rfl ?_
    have hflying := h.flying
    unfold Flying at hflying ⊢
    rw [if_pos hrunning] at hflying
    obtain ⟨hseen, hstopped, front, hfront, hfits⟩ := hflying
    have hannounced : ¬ Worker.announced.running = true := Bool.false_ne_true
    rw [if_neg hannounced]
    exact Or.inl ⟨hseen, s.events, [], front, _, rfl, hstopped, rfl, hfront, hfits⟩
  next => exact h

theorem Sound.letGo {s : System ρ} (h : s.Sound) : (s.step .letGo).Sound := by
  simp only [step]
  split
  next hworker =>
    refine h.congr rfl rfl rfl ?_
    have hflying := h.flying
    unfold Flying at hflying ⊢
    have hannounced : ¬ Worker.announced.running = true := Bool.false_ne_true
    have hgone : ¬ Worker.gone.running = true := Bool.false_ne_true
    rw [hworker, if_neg hannounced] at hflying
    rw [if_neg hgone]
    exact hflying
  next => exact h

/-- The answer to the oldest command settles the oldest draft, if that is a value. -/
theorem accounted_answer {s : System ρ} {event : Event ρ} {completion : Completion ρ}
    {draft : Option (String × Value)} {drafts : List (Option (String × Value))} {events : List (Event ρ)}
    (h : s.Sound) (hdrafts : s.writer.drafts = draft :: drafts) (hanswer : event.answer = some completion)
    (hfits : FitsAnswer draft completion) {seen : Bool} :
    ∃ done, s.queued = done ++ drafts.filterMap id ∧ List.Forall₂ Settles done
      (saves { s with writer := s.writer.receive event, events, stopSeen := seen }) := by
  obtain ⟨done, hdone, hsettles⟩ := h.accounted
  obtain ⟨-, hcompletions⟩ := AsyncWriter.receive_answer s.writer hanswer
  have hsaves : saves { s with writer := s.writer.receive event, events, stopSeen := seen } =
      s.saves ++ [AsyncWriter.withDraft (some draft) completion].filter Completion.isSave := by
    rw [hdrafts] at hcompletions
    exact saves_append (s := s) hcompletions
  rw [hsaves]
  rw [held, hdrafts] at hdone
  cases draft with
  | none =>
    refine ⟨done, hdone, ?_⟩
    have hother : completion.isSave = false := hfits
    rw [withDraft_none, List.filter_cons_of_neg (by simp [hother]), List.filter_nil, List.append_nil]
    exact hsettles
  | some value =>
    have hsettled := withDraft_some hfits
    refine ⟨done ++ [value], ?_, ?_⟩
    · rw [hdone, List.append_assoc]
      rfl
    · rw [List.filter_cons_of_pos hsettled.isSave]
      exact List.rel_append hsettles (List.Forall₂.cons hsettled List.Forall₂.nil)

theorem Sound.receive_silent {s : System ρ} (h : s.Sound) {event : Event ρ} {events : List (Event ρ)}
    (hevents : s.events = event :: events) (hsilent : event.silent) :
    Sound { s with writer := s.writer.receive event, events } := by
  obtain ⟨hdrafts, new, hcompletions, hnew⟩ := AsyncWriter.receive_silent s.writer hsilent
  have hanswers : answers s.events = answers events := by
    rw [hevents, answers_cons, hsilent.1]
    rfl
  refine h.congr rfl hdrafts ?_ ?_
  · have hsaves := saves_append (s := s) hcompletions
    rw [hnew, List.append_nil] at hsaves
    exact hsaves
  · have hflying := h.flying
    unfold Flying at hflying ⊢
    split at hflying
    next hrunning =>
      rw [if_pos hrunning]
      obtain ⟨hseen, hstopped, front, hfront, hfits⟩ := hflying
      refine ⟨hseen, ?_, front, hdrafts.trans hfront, hanswers ▸ hfits⟩
      intro hmem
      apply hstopped
      rw [hevents]
      exact List.mem_cons_of_mem event hmem
    next hrunning =>
      rw [if_neg hrunning]
      rcases hflying with ⟨hseen, before, after, front, back, hsplit, hstopped, hafter, hfront, hfits⟩ |
        ⟨hseen, hnone, hheld⟩
      · left
        cases before with
        | nil =>
          rw [hevents] at hsplit
          cases hsplit
          exact absurd rfl hsilent.2
        | cons first before =>
          rw [hevents] at hsplit
          obtain ⟨rfl, hrest⟩ := List.cons.inj hsplit
          rw [answers_cons, hsilent.1] at hfits
          exact ⟨hseen, before, after, front, back, hrest, fun hmem => hstopped (List.mem_cons_of_mem _ hmem),
            hafter, hdrafts.trans hfront, hfits⟩
      · right
        refine ⟨hseen, hanswers ▸ hnone, ?_⟩
        exact (congrArg (List.filterMap id) hdrafts).trans hheld

theorem Sound.receive_answer {s : System ρ} (h : s.Sound) {event : Event ρ} {events : List (Event ρ)}
    {completion : Completion ρ} (hevents : s.events = event :: events)
    (hanswer : event.answer = some completion) :
    Sound { s with writer := s.writer.receive event, events } := by
  have hanswers : answers s.events = completion :: answers events := by
    rw [hevents, answers_cons, hanswer]
    rfl
  have hflying := h.flying
  unfold Flying at hflying
  split at hflying
  next hrunning =>
    obtain ⟨hseen, hstopped, front, hfront, hfits⟩ := hflying
    rw [hanswers] at hfits
    obtain ⟨draft, front, hfit, hrestFits, rfl⟩ := List.forall₂_cons_right_iff.mp hfits
    obtain ⟨hdrafts, -⟩ := AsyncWriter.receive_answer s.writer hanswer
    rw [hfront] at hdrafts
    refine ⟨?_, ?_⟩
    · rw [held, hdrafts]
      exact accounted_answer h hfront hanswer hfit
    · unfold Flying
      rw [if_pos hrunning]
      refine ⟨hseen, ?_, front, hdrafts, hrestFits⟩
      intro hmem
      apply hstopped
      rw [hevents]
      exact List.mem_cons_of_mem event hmem
  next hrunning =>
    rcases hflying with ⟨hseen, before, after, front, back, hsplit, hstopped, hafter, hfront, hfits⟩ |
      ⟨hseen, hnone, hheld⟩
    · cases before with
      | nil =>
        rw [hevents] at hsplit
        cases hsplit
        cases hanswer
      | cons first before =>
        rw [hevents] at hsplit
        obtain ⟨rfl, hrest⟩ := List.cons.inj hsplit
        rw [answers_cons, hanswer] at hfits
        obtain ⟨draft, front, hfit, hrestFits, rfl⟩ := List.forall₂_cons_right_iff.mp hfits
        obtain ⟨hdrafts, -⟩ := AsyncWriter.receive_answer s.writer hanswer
        rw [hfront] at hdrafts
        refine ⟨?_, ?_⟩
        · rw [held, hdrafts]
          exact accounted_answer h hfront hanswer hfit
        · unfold Flying
          rw [if_neg hrunning]
          exact Or.inl ⟨hseen, before, after, front, back, hrest,
            fun hmem => hstopped (List.mem_cons_of_mem _ hmem), hafter, hdrafts, hrestFits⟩
    · rw [hanswers] at hnone
      cases hnone

/-- When the worker stopped every value that is still held is handed back. -/
theorem accounted_stopped {s : System ρ} (h : s.Sound) {events : List (Event ρ)} {seen : Bool} :
    ∃ done, s.queued = done ++ [] ∧ List.Forall₂ Settles done
      (saves { s with writer := s.writer.workerStopped, events, stopSeen := seen }) := by
  obtain ⟨done, hdone, hsettles⟩ := h.accounted
  obtain ⟨-, new, hcompletions, hnew⟩ := AsyncWriter.workerStopped_saves s.writer
  have hsaves : saves { s with writer := s.writer.workerStopped, events, stopSeen := seen } =
      s.saves ++ new.filter Completion.isSave := saves_append (s := s) hcompletions
  refine ⟨done ++ s.held, ?_, ?_⟩
  · rw [List.append_nil]
    exact hdone
  · rw [hsaves]
    exact List.rel_append hsettles hnew

theorem Sound.receive_stopped {s : System ρ} (h : s.Sound) {events : List (Event ρ)}
    (hevents : s.events = .workerStopped :: events) :
    Sound { s with writer := s.writer.workerStopped, events, stopSeen := true } := by
  refine ⟨accounted_stopped h, ?_⟩
  have hflying := h.flying
  unfold Flying at hflying ⊢
  split at hflying
  next hrunning =>
    refine absurd ?_ hflying.2.1
    rw [hevents]
    exact List.mem_cons_self
  next hrunning =>
    rw [if_neg hrunning]
    right
    refine ⟨rfl, ?_, rfl⟩
    rcases hflying with ⟨hseen, before, after, front, back, hsplit, hstopped, hafter, hfront, hfits⟩ |
      ⟨hseen, hnone, hheld⟩
    · cases before with
      | nil =>
        rw [hevents] at hsplit
        obtain ⟨-, rfl⟩ := List.cons.inj hsplit
        exact hafter
      | cons first before =>
        rw [hevents] at hsplit
        obtain ⟨rfl, -⟩ := List.cons.inj hsplit
        exact absurd List.mem_cons_self hstopped
    · rw [hevents] at hnone
      exact hnone

theorem Sound.receive {s : System ρ} (h : s.Sound) : s.receive.Sound := by
  unfold System.receive
  split
  next event events hevents =>
    cases event with
    | workerStopped =>
      simp only [Bool.or_true]
      exact h.receive_stopped hevents
    | completion result =>
      simp only [Bool.or_false]
      cases hanswer : (Event.completion result).answer with
      | none => exact h.receive_silent hevents ⟨hanswer, nofun⟩
      | some completion => exact h.receive_answer hevents hanswer
    | _ =>
      simp only [Bool.or_false]
      exact h.receive_silent hevents ⟨rfl, nofun⟩
  next hevents =>
    split
    next hgone =>
      refine ⟨accounted_stopped h, ?_⟩
      have hflying := h.flying
      have hstopped : ¬ Worker.gone.running = true := Bool.false_ne_true
      unfold Flying at hflying ⊢
      rw [hgone.1, if_neg hstopped] at hflying
      rw [hgone.1, if_neg hstopped]
      rcases hflying with ⟨hseen, before, after, front, back, hsplit, -⟩ | ⟨hseen, hnone, hheld⟩
      · rw [hevents] at hsplit
        cases before with
        | nil => cases hsplit
        | cons first before => cases hsplit
      · exact Or.inr ⟨hseen, hnone, rfl⟩
    next => exact h

theorem Sound.step {s : System ρ} (h : s.Sound) {act : Act ρ} (hrespects : s.Respects act) :
    (s.step act).Sound := by
  cases act with
  | write path value => exact h.write hrespects
  | queue command => exact h.queue
  | hear => exact h.hear
  | receive => exact h.receive
  | poll => exact h.poll
  | take => exact h.take
  | bulkProgress done total => exact h.bulkProgress
  | finish answer approvalId => exact h.finish
  | tell news =>
    simp only [System.step]
    split
    next => exact h.sends news.silent
    next => exact h
  | announce => exact h.announce
  | letGo => exact h.letGo
  | channelSends event =>
    simp only [System.step]
    split
    next => exact h.congr rfl rfl rfl (h.flying.congr rfl rfl rfl rfl rfl)
    next => exact h
  | channelProgress done total waiting =>
    simp only [System.step]
    split
    next => exact h.sends ⟨rfl, nofun⟩
    next => exact h
  | channelEnds => exact h.congr rfl rfl rfl (h.flying.congr rfl rfl rfl rfl rfl)

theorem Sound.run {s : System ρ} (h : s.Sound) {acts : List (Act ρ)} (hcareful : s.Careful acts) :
    (s.run acts).Sound := by
  induction acts generalizing s with
  | nil => exact h
  | cons act acts ih => exact ih (h.step hcareful.1) hcareful.2

theorem spawn_sound (onePassword : Bool) : (spawn onePassword : System ρ).Sound := by
  refine ⟨⟨[], rfl, List.Forall₂.nil⟩, ?_⟩
  have hidle : Worker.idle.running = true := rfl
  unfold Flying
  rw [spawn, if_pos hidle]
  exact ⟨rfl, List.not_mem_nil, [], rfl, List.Forall₂.nil⟩

theorem run_append (s : System ρ) (acts acts' : List (Act ρ)) : s.run (acts ++ acts') = (s.run acts).run acts' := by
  induction acts generalizing s with
  | nil => rfl
  | cons act acts ih => exact ih (s.step act)

theorem Careful.append {s : System ρ} {acts acts' : List (Act ρ)} (h : s.Careful (acts ++ acts')) :
    s.Careful acts ∧ (s.run acts).Careful acts' := by
  induction acts generalizing s with
  | nil => exact ⟨trivial, h⟩
  | cons act acts ih => exact ⟨⟨h.1, (ih h.2).1⟩, (ih h.2).2⟩

/-- The UI does not forget that the worker stopped. -/
theorem step_stopSeen {s : System ρ} (h : s.stopSeen = true) (act : Act ρ) : (s.step act).stopSeen = true := by
  cases act with
  | receive =>
    simp only [step, System.receive]
    split
    next => rw [h, Bool.true_or]
    next =>
      split
      next => exact h
      next => exact h
  | channelEnds => exact h
  | queue command =>
    simp only [step]
    split
    next => exact h
    next =>
      split
      next => exact h
      next => exact h
  | _ =>
    simp only [step]
    split
    next => exact h
    next => exact h

theorem run_stopSeen {s : System ρ} (h : s.stopSeen = true) (acts : List (Act ρ)) :
    (s.run acts).stopSeen = true := by
  induction acts generalizing s with
  | nil => exact h
  | cons act acts ih => exact ih (step_stopSeen h act)

/-- With the worker at rest and all its answers received, or with its end seen, no value is held. -/
theorem Sound.held_nil {s : System ρ} (h : s.Sound) (hevents : s.events = [])
    (hrest : s.worker.running = true → s.outstanding = []) : s.held = [] := by
  have hflying := h.flying
  unfold Flying at hflying
  split at hflying
  next hrunning =>
    obtain ⟨-, -, front, hfront, hfits⟩ := hflying
    rw [hevents] at hfits
    cases hfits
    rw [held, hfront, hrest hrunning]
    rfl
  next =>
    rcases hflying with ⟨-, before, after, front, back, hsplit, -⟩ | ⟨-, -, hheld⟩
    · rw [hevents] at hsplit
      cases before with
      | nil => cases hsplit
      | cons first before => cases hsplit
    · exact hheld

theorem Sound.held_stopSeen {s : System ρ} (h : s.Sound) (hseen : s.stopSeen = true) : s.held = [] := by
  have hflying := h.flying
  unfold Flying at hflying
  rw [hseen] at hflying
  split at hflying
  next => cases hflying.1
  next =>
    rcases hflying with hflying | hflying
    · cases hflying.1
    · exact hflying.2.2

/-- The UI sees the worker stop: each value that is held comes back as a failed save. -/
theorem receive_workerStopped {s : System ρ} (h : s.events.head? = some .workerStopped) :
    ∃ message, (s.step .receive).saves =
      s.saves ++ s.held.map fun draft => .saveFailed draft.1 draft.2 message := by
  refine ⟨"backend worker stopped; this submitted value was retained for retry", ?_⟩
  obtain ⟨events, hevents⟩ := List.head?_eq_some_iff.mp h
  simp only [step, System.receive, hevents, AsyncWriter.receive]
  have hcompletions : s.writer.workerStopped.completions = s.writer.completions ++ (_ ++ _) :=
    List.append_assoc _ _ _
  refine (saves_append (s := s) hcompletions).trans ?_
  rw [List.filter_append]
  have hidle : (if s.writer.busy ∧ ¬ s.writer.drafts.any Option.isSome then
      [(.failed "backend worker stopped" : Completion ρ)] else []).filter Completion.isSave = [] := by
    split
    next => rfl
    next => rfl
  rw [hidle, List.append_nil]
  congr 1
  apply List.filter_eq_self.mpr
  intro completion hmem
  obtain ⟨draft, -, rfl⟩ := List.mem_map.mp hmem
  rfl

/-- Reached from the start in a run that submits no value between the UI seeing the worker stop and the
worker letting go of its queue. -/
def Reached (s : System ρ) : Prop :=
  ∃ onePassword acts, (spawn onePassword).Careful acts ∧ s = (spawn onePassword).run acts

/-- Every queued value has its one outcome, in order, or is still held; it is settled once the worker is at
rest, or its stop is seen, and after that no value is queued any more. -/
theorem queued_values_settled {s : System ρ} (h : s.Reached) :
    (∃ done, s.queued = done ++ s.held ∧ List.Forall₂ Settles done s.saves) ∧
    (s.events = [] → (s.worker.running = true → s.outstanding = []) → s.held = []) ∧
    (s.events.head? = some .workerStopped → ∃ message, (s.step .receive).saves =
      s.saves ++ s.held.map fun draft => .saveFailed draft.1 draft.2 message) ∧
    (s.stopSeen = true → s.held = [] ∧ ∀ later path value, s.Careful (later ++ [.write path value]) →
      ∃ refusal, (s.run later).writer.write (s.run later).worker.listening path value = .error refusal) := by
  obtain ⟨onePassword, acts, hcareful, hs⟩ := h
  have hsound : s.Sound := by
    rw [hs]
    exact (spawn_sound onePassword).run hcareful
  refine ⟨hsound.accounted, hsound.held_nil, receive_workerStopped, ?_⟩
  intro hseen
  refine ⟨hsound.held_stopSeen hseen, ?_⟩
  intro later path value hlater
  have hgone : (s.run later).worker = .gone := hlater.append.2.1 (run_stopSeen hseen later)
  rw [hgone]
  exact AsyncWriter.write_gone _ path value

/-- Two values are submitted, the first one is saved, and the worker dies over the second. -/
def saveThenStop : List (Act Unit) :=
  [.write "web.token" [1], .write "web.key" [2], .take,
    .finish ⟨"", .ok (), .ok (), .ok none, (), false, 0, []⟩ none, .take, .announce, .receive, .receive, .letGo]

theorem saveThenStop_settled : ((spawn false).run saveThenStop).stopSeen = true ∧
    ((spawn false).run saveThenStop).queued = [("web.token", [1]), ("web.key", [2])] ∧
    ((spawn false).run saveThenStop).held = [] := by
  have hsubmits : (spawn false : System Unit).Careful saveThenStop := by
    refine ⟨?_, ?_, trivial, trivial, trivial, trivial, trivial, trivial, trivial, trivial⟩
    · exact fun hseen => absurd hseen (by decide)
    · exact fun hseen => absurd hseen (by decide)
  have hreached : ((spawn false).run saveThenStop).Reached := ⟨false, saveThenStop, hsubmits, rfl⟩
  have hseen : ((spawn false).run saveThenStop).stopSeen = true := by decide
  exact ⟨hseen, by decide, ((queued_values_settled hreached).2.2.2 hseen).1⟩

/-- A value submitted after the stop was seen is queued all the same, and nobody ever answers it while the
operator channel goes on. -/
theorem write_after_stop_queued :
    ((spawn false : System Unit).run [.announce, .receive]).stopSeen = true ∧
    ((spawn false : System Unit).run [.announce, .receive, .write "web.token" [1]]).queued =
      [("web.token", [1])] ∧
    ∀ n, ((spawn false : System Unit).run
      ([.announce, .receive, .write "web.token" [1], .letGo] ++ List.replicate n .receive)).saves = [] := by
  refine ⟨by decide, by decide, ?_⟩
  intro n
  rw [run_append]
  have hidle : ∀ s : System Unit, s.events = [] → s.channelThread = true →
      s.run (List.replicate n .receive) = s := by
    intro s hevents hchannel
    induction n with
    | zero => rfl
    | succ n ih =>
      have hreceive : s.step .receive = s := by
        simp [step, System.receive, hevents, hchannel]
      rw [List.replicate_succ, System.run, hreceive]
      exact ih
  rw [hidle _ (by rfl) (by rfl)]
  decide

end System

end NixSecrets.Tui
