import Mathlib.Data.List.Perm.Subperm
import NixSecrets.EntryDrafts

namespace NixSecrets.Tui

theorem Dialog.drafts_le_one (dialog : Dialog) : dialog.drafts = [] ∨ ∃ draft, dialog.drafts = [draft] := by
  unfold Dialog.drafts Entry.drafts
  split
  next => split <;> simp
  next => split <;> simp
  next => exact .inr ⟨_, rfl⟩
  next => exact .inl rfl

theorem Dialog.eq_edit {dialog : Dialog} (h : dialog.isEdit = true) :
    ∃ path value, dialog = .entry (.edit path value) := by
  unfold Dialog.isEdit at h
  split at h
  next path value => exact ⟨path, value, rfl⟩
  next => cases h

/-- The value that is handed to the writer. -/
def Deed.written : Deed → Option (String × Value)
  | .write path value => some (path, value)
  | _ => none

namespace Outcome

/-- The entered value that the next dialog holds. -/
def drafts (o : Outcome) : List (String × Value) := (o.next.map Dialog.drafts).getD []

def written (o : Outcome) : List (String × Value) := o.deeds.filterMap Deed.written

/-- Where the entered value of a dialog may be after a key. -/
def kept (o : Outcome) : List (String × Value) := o.drafts ++ o.written

theorem failUnlessQueued_same (o : Outcome) (error : String) : (o.failUnlessQueued error).next = o.next ∧
    (o.failUnlessQueued error).deeds = o.deeds := by
  unfold failUnlessQueued
  split
  next => exact ⟨rfl, rfl⟩
  next => exact ⟨rfl, rfl⟩

theorem failUnlessQueued_drafts (o : Outcome) (error : String) : (o.failUnlessQueued error).drafts = o.drafts := by
  rw [drafts, (o.failUnlessQueued_same error).1]
  rfl

theorem report_drafts (o : Outcome) (result : Except String Unit) (text : String) :
    (o.report result text).drafts = o.drafts := by
  cases result with
  | ok _ => rfl
  | error error => exact o.failUnlessQueued_drafts error

theorem mem_kept {o : Outcome} {draft : String × Value} (h : draft ∈ o.drafts) : draft ∈ o.kept :=
  List.mem_append_left _ h

theorem submit_deeds (o : Outcome) (r : Replies) (path : String) (value : Value) :
    (o.submit r path value).deeds = o.deeds ++ [.write path value] := by
  unfold submit
  dsimp only
  split
  next => rfl
  next => rfl
  next => rfl

/-- A value that is submitted is handed to the writer. -/
theorem submit_kept (o : Outcome) (r : Replies) (path : String) (value : Value) :
    (path, value) ∈ (o.submit r path value).kept := by
  apply List.mem_append_right
  refine List.mem_filterMap.mpr ⟨.write path value, ?_, rfl⟩
  rw [submit_deeds]
  exact List.mem_append_right _ List.mem_cons_self

theorem submitEntry_kept (o : Outcome) (r : Replies) (path : String) (value : Value) :
    (path, value) ∈ (o.submitEntry r path value).kept := by
  unfold submitEntry
  split
  next => exact mem_kept List.mem_cons_self
  next => exact submit_kept o r path value

theorem revealCurrent_kept (o : Outcome) (r : Replies) (entry : Entry) :
    ∀ draft ∈ entry.drafts, draft ∈ (o.revealCurrent r entry).kept := by
  intro draft hdraft
  apply mem_kept
  unfold revealCurrent
  split
  next => exact hdraft
  next =>
    split
    next => exact hdraft
    next =>
      rw [failUnlessQueued_drafts]
      exact hdraft

theorem replace_kept (o : Outcome) (r : Replies) (path : String) (value : Value) (commit : CommitState)
    (event : Input) : (path, value) ∈ (o.replace r path value commit event).kept := by
  unfold replace
  split
  next =>
    split
    next => exact submit_kept _ r path value
    next => exact mem_kept List.mem_cons_self
  next => exact submit_kept _ r path value
  next => exact mem_kept List.mem_cons_self
  next => exact mem_kept List.mem_cons_self
  next => exact mem_kept List.mem_cons_self
  next => exact mem_kept List.mem_cons_self
  next => exact revealCurrent_kept o r (.replace path value commit) _ List.mem_cons_self
  next => exact mem_kept List.mem_cons_self

theorem reveal_kept (o : Outcome) (r : Replies) (path : String) (value : Value) (entry : Entry) (event : Input) :
    ∀ draft ∈ entry.drafts, draft ∈ (o.reveal r path value (some entry) event).kept := by
  intro draft hdraft
  apply mem_kept
  unfold reveal
  split
  next =>
    rw [report_drafts]
    exact hdraft
  next =>
    split
    next =>
      rw [report_drafts]
      exact hdraft
    next =>
      rw [report_drafts]
      exact hdraft
  next => exact hdraft
  next => exact hdraft

theorem providerFailure_kept (o : Outcome) (r : Replies) (message path : String) (value : Value) (event : Input) :
    (path, value) ∈ (o.providerFailure r message path value event).kept := by
  unfold providerFailure
  split
  next => exact submit_kept o r path value
  next => exact submit_kept o r path value
  next => exact mem_kept List.mem_cons_self
  next => exact mem_kept List.mem_cons_self

end Outcome

/-- What the entry field makes of its value when the operator types, pastes or deletes. -/
def Input.typed (value : Value) : Input → Option Value
  | .character c => some (value ++ utf8Bytes [c])
  | .paste pasted => some (value ++ pasted)
  | .backspace => some (truncateCharacter value)
  | _ => none

namespace Outcome

/-- The entry field lets go of its value only where the operator cancels it, or enters more of it. -/
theorem edit_kept (o : Outcome) (r : Replies) (path : String) (value : Value) (event : Input) :
    (path, value) ∈ (o.edit r path value event).kept ∨ event = .escape ∨
      ∃ value', event.typed value = some value' ∧ (path, value') ∈ (o.edit r path value event).kept := by
  cases event with
  | character c => exact .inr (.inr ⟨_, rfl, mem_kept List.mem_cons_self⟩)
  | paste pasted =>
    refine .inr (.inr ⟨_, rfl, ?_⟩)
    unfold edit
    dsimp only
    split
    next => exact submit_kept o r path _
    next => exact mem_kept List.mem_cons_self
  | tab => exact .inl (mem_kept List.mem_cons_self)
  | backspace => exact .inr (.inr ⟨_, rfl, mem_kept List.mem_cons_self⟩)
  | enter =>
    left
    unfold edit
    dsimp only
    split
    next => exact submitEntry_kept o r path value
    next => exact mem_kept List.mem_cons_self
  | escape => exact .inr (.inl rfl)
  | revealCurrent => exact .inl (revealCurrent_kept o r (.edit path value) _ List.mem_cons_self)
  | up | down | pasteRequest | confirmLoss | other | approval | refresh | hover | click =>
    exact .inl (mem_kept List.mem_cons_self)

/-- Each dialog but the entry field keeps the value it holds, or hands it to the writer. -/
theorem dialog_kept (o : Outcome) (r : Replies) (event : Input) {dialog : Dialog} (hedit : dialog.isEdit = false) :
    ∀ draft ∈ dialog.drafts, draft ∈ (o.dialog r event dialog).kept := by
  intro draft hdraft
  cases dialog with
  | entry entry =>
    cases entry with
    | edit path value => cases hedit
    | replace path value commit =>
      cases List.mem_singleton.mp hdraft
      exact o.replace_kept r path value commit event
    | deleteConfirm path commit => cases hdraft
  | reveal path value underneath =>
    cases underneath with
    | none => cases hdraft
    | some entry => exact o.reveal_kept r path value entry event draft hdraft
  | providerFailure message path value =>
    cases List.mem_singleton.mp hdraft
    exact o.providerFailure_kept r message path value event
  | _ => cases hdraft

end Outcome

/-- The key that a click or a shortcut stands for. -/
def Input.effective (r : Replies) : Input → Input
  | .click (.shortcut key) => key.input
  | .click .autosaveToggle => .tab
  | .click .confirmLoss => .confirmLoss
  | .click .revealCurrent => .revealCurrent
  | .pasteRequest =>
    match r.clipboard with
    | .ok value => .paste value
    | .error _ => .pasteRequest
  | event => event

namespace Screen

/-- What was handed to the writer since. -/
def writtenSince (s s' : Screen) : List (String × Value) :=
  (s'.deeds.drop s.deeds.length).filterMap Deed.written

/-- The entered values that are still held, or were handed to the writer since. -/
def held (s s' : Screen) : List (String × Value) := s'.model.drafts ++ s.writtenSince s'

/-- No entered value is lost, and the waiting ones keep their order. -/
structure Keeps (s s' : Screen) : Prop where
  waiting : s.model.waitingDrafts.Sublist s'.model.drafts
  held : s.model.drafts.Subperm (s.held s')

/-- The operator cancels the entry field, or enters more into it; no other value is lost. -/
structure Enters (s s' : Screen) (event : Input) : Prop where
  waiting : s.model.waitingDrafts.Sublist s'.model.drafts
  entered : ∃ path value, s.model.mode = .dialog (.entry (.edit path value)) ∧
    (event = .escape ∨ ∃ value', event.typed value = some value' ∧
      ((path, value') :: s.model.waitingDrafts).Subperm (s.held s'))

theorem keeps_of_sublist {s s' : Screen} (h : s.model.drafts.Sublist s'.model.drafts) : s.Keeps s' :=
  ⟨(List.sublist_append_right _ _).trans h, (h.trans (List.sublist_append_left _ _)).subperm⟩

theorem keeps_of_same {s s' : Screen} (hdrafts : s'.model.drafts = s.model.drafts) : s.Keeps s' := by
  apply keeps_of_sublist
  rw [hdrafts]

theorem elsewhere_drafts (m : Model) (answers : Answers) : (m.elsewhere answers).drafts =
    ((answers.next.map Dialog.drafts).getD []) ++ m.waitingDrafts := by
  have hopened : { m with mode := answers.next.elim .browse .dialog }.drafts =
      ((answers.next.map Dialog.drafts).getD []) ++ m.waitingDrafts := by
    cases answers.next with
    | none => rfl
    | some dialog => rfl
  unfold Model.elsewhere
  cases answers.notice with
  | none => exact hopened
  | some notice => exact (Model.SameDialogs.pushNotice _ notice.text notice.severity).drafts.trans hopened

theorem apply_drafts (s : Screen) (o : Outcome) :
    (s.apply o).showPendingApproval.model.drafts = o.drafts ++ s.model.waitingDrafts := by
  show (s.apply o).model.showPendingApproval.drafts = _
  rw [Model.showPendingApproval_drafts]
  exact elsewhere_drafts s.model _

theorem apply_waiting (s : Screen) (o : Outcome) :
    s.model.waitingDrafts.Sublist (s.apply o).showPendingApproval.model.drafts := by
  rw [apply_drafts]
  exact List.sublist_append_right _ _

theorem apply_held (s : Screen) (o : Outcome) :
    (s.held (s.apply o).showPendingApproval).Perm (o.kept ++ s.model.waitingDrafts) := by
  have hwritten : s.writtenSince (s.apply o).showPendingApproval = o.written := by
    show ((s.deeds ++ o.deeds).drop s.deeds.length).filterMap Deed.written = o.written
    rw [List.drop_left]
    rfl
  unfold held Outcome.kept
  rw [apply_drafts, hwritten, List.append_assoc, List.append_assoc]
  exact List.Perm.append_left _ List.perm_append_comm

theorem apply_subperm {s : Screen} {o : Outcome} {drafts : List (String × Value)} (hdrafts : drafts.Subperm o.kept) :
    (drafts ++ s.model.waitingDrafts).Subperm (s.held (s.apply o).showPendingApproval) :=
  ((List.subperm_append_right _).mpr hdrafts).trans (s.apply_held o).symm.subperm

theorem apply_keeps {s : Screen} {o : Outcome} (hdrafts : s.model.mode.drafts.Subperm o.kept) :
    s.Keeps (s.apply o).showPendingApproval :=
  ⟨s.apply_waiting o, apply_subperm hdrafts⟩

theorem dispatch_keeps (s : Screen) (event : Input) (r : Replies) :
    s.Keeps (s.dispatch event r) ∨ s.Enters (s.dispatch event r) event := by
  have hcoarse (h : s.model.mode.isApproval = true ∨ s.model.mode = .browse ∧ event.coarse = .character 'M') :
      s.Keeps { s with model := s.model.dispatch event.coarse r.answers } :=
    keeps_of_same (s.model.dispatch_drafts event.coarse r.answers h)
  unfold dispatch
  cases hmode : s.model.mode with
  | approval request => exact .inl (hcoarse (.inl (by rw [hmode]; rfl)))
  | browse =>
    left
    dsimp only
    split
    next hevent => exact hcoarse (.inr ⟨hmode, by rw [hevent]; rfl⟩)
    next =>
      apply apply_keeps
      rw [hmode]
      exact List.nil_subperm
  | dialog dialog =>
    dsimp only
    cases hedit : dialog.isEdit with
    | false =>
      left
      apply apply_keeps
      rw [hmode]
      show dialog.drafts.Subperm _
      have hkept := s.outcome.dialog_kept r event hedit
      rcases dialog.drafts_le_one with hnone | ⟨draft, hdraft⟩
      · rw [hnone]
        exact List.nil_subperm
      · rw [hdraft] at hkept ⊢
        exact List.singleton_subperm_iff.mpr (hkept draft List.mem_cons_self)
    | true =>
      obtain ⟨path, value, rfl⟩ := dialog.eq_edit hedit
      rcases s.outcome.edit_kept r path value event with hkept | hescape | ⟨value', htyped, hkept⟩
      · left
        apply apply_keeps
        rw [hmode]
        exact List.singleton_subperm_iff.mpr hkept
      · right
        exact ⟨s.apply_waiting _, path, value, hmode, .inl hescape⟩
      · right
        have hheld := apply_subperm (s := s) (List.singleton_subperm_iff.mpr hkept)
        exact ⟨s.apply_waiting _, path, value, hmode, .inr ⟨value', htyped, hheld⟩⟩

/-- Input in another dialog than the entry field loses no value. -/
theorem dispatch_keeps_elsewhere {s : Screen} (event : Input) (r : Replies) (hedit : s.model.mode.isEdit = false) :
    s.Keeps (s.dispatch event r) := by
  rcases s.dispatch_keeps event r with hkeeps | ⟨-, path, value, hmode, -⟩
  · exact hkeeps
  · rw [hmode] at hedit
    cases hedit

theorem paste_keeps (s : Screen) (event : Input) (r : Replies) (hclick : ∀ target, event ≠ .click target) :
    s.Keeps (s.paste event r) ∨ s.Enters (s.paste event r) (event.effective r) := by
  unfold paste
  split
  next hrequest =>
    subst hrequest
    unfold Input.effective
    cases r.clipboard with
    | ok value => exact s.dispatch_keeps (.paste value) r
    | error error => exact .inl (keeps_of_same (Model.SameDialogs.pushNotice s.model error .failure).drafts)
  next hrequest =>
    have heffective : event.effective r = event := by
      cases event with
      | pasteRequest => exact absurd rfl hrequest
      | click target => exact absurd rfl (hclick target)
      | _ => rfl
    rw [heffective]
    exact s.dispatch_keeps event r

theorem shortcut_keeps (s : Screen) (key : Shortcut) (r : Replies) :
    s.Keeps (s.paste key.input r) ∨ s.Enters (s.paste key.input r) key.input := by
  have hplain : key.input.effective r = key.input ∧ ∀ target, key.input ≠ .click target := by
    cases key with
    | enter => exact ⟨rfl, fun _ => nofun⟩
    | escape => exact ⟨rfl, fun _ => nofun⟩
    | character c => exact ⟨rfl, fun _ => nofun⟩
  have hpasted := s.paste_keeps key.input r hplain.2
  rw [hplain.1] at hpasted
  exact hpasted

theorem clickTree_keeps {s : Screen} (index : Nat) (hbrowse : s.model.mode = .browse) :
    s.Keeps (s.clickTree index) := by
  apply keeps_of_sublist
  unfold clickTree
  split
  next => exact List.Sublist.refl _
  next =>
    dsimp only
    split
    next => exact List.Sublist.refl _
    next =>
      split
      next =>
        unfold Model.drafts Model.waitingDrafts
        rw [hbrowse]
        exact List.sublist_append_right _ _
      next => exact List.Sublist.refl _

theorem click_keeps (s : Screen) (target : Target) (r : Replies) :
    s.Keeps (s.click target r) ∨ s.Enters (s.click target r) ((Input.click target).effective r) := by
  have hrefl : s.Keeps s := keeps_of_same rfl
  cases target with
  | filter number =>
    left
    unfold click
    dsimp only
    split
    next hfilter =>
      simp only [Bool.and_eq_true] at hfilter
      apply dispatch_keeps_elsewhere
      rw [Mode.eq_browse hfilter.1]
      rfl
    next => exact hrefl
  | tree index =>
    left
    unfold click
    dsimp only
    split
    next hbrowse => exact clickTree_keeps index (Mode.eq_browse hbrowse)
    next => exact hrefl
  | modalItem index =>
    left
    unfold click
    dsimp only
    split
    next hmode =>
      have hopened : ({ s with model := { s.model with mode := .dialog (.settings index) } } : Screen).model.drafts =
          s.model.drafts := by
        apply Model.drafts_of_mode
        · rw [hmode]
          rfl
        · rfl
      have hkeeps := dispatch_keeps_elsewhere
        (s := { s with model := { s.model with mode := .dialog (.settings index) } }) .enter r rfl
      refine ⟨hkeeps.waiting, ?_⟩
      have hheld := hkeeps.held
      rw [hopened] at hheld
      exact hheld
    next dialog _ hmode =>
      split
      next hplain =>
        apply dispatch_keeps_elsewhere
        rw [hmode]
        cases dialog with
        | entry entry => cases hplain
        | _ => rfl
      next => exact hrefl
    next => exact hrefl
  | shortcut key => exact s.shortcut_keeps key r
  | autosaveToggle => exact s.dispatch_keeps .tab r
  | confirmLoss => exact s.dispatch_keeps .confirmLoss r
  | revealCurrent => exact s.dispatch_keeps .revealCurrent r
  | deployRow index =>
    left
    unfold click
    dsimp only
    split
    next request hmode =>
      apply keeps_of_same
      apply Model.approvalInput_drafts
      rw [hmode]
      rfl
    next => exact hrefl
  | procedure index => exact .inl (keeps_of_same (s.model.restoreAt_drafts index))
  | notice => exact .inl hrefl
  | elsewhere =>
    left
    unfold click
    dsimp only
    split
    next hmode =>
      apply dispatch_keeps_elsewhere
      rw [hmode]
      rfl
    next => exact hrefl

theorem input_keeps (s : Screen) (event : Input) (r : Replies) :
    s.Keeps (s.input event r) ∨ s.Enters (s.input event r) (event.effective r) := by
  cases event with
  | click target => exact s.click_keeps target r
  | _ => exact s.paste_keeps _ r fun _ => nofun

end Screen

namespace Model

/-- Reading a notice leaves the open dialog. -/
theorem acknowledge_same {m : Model} (hidle : m.Idle) : m.SameDialogs m.acknowledge ∨
    m.pendingDialogs = [] ∧ m.acknowledge.mode.isEdit = false ∧ m.acknowledge.pendingDialogs = [] := by
  have hread : m.SameDialogs
      (tidyProcedures { m with message := m.notifications.head?, notifications := m.notifications.tail }) := ⟨rfl, rfl⟩
  unfold acknowledge showPendingApproval
  generalize tidyProcedures { m with message := m.notifications.head?, notifications := m.notifications.tail } = read
    at hread
  have hpending := hread.idle hidle
  dsimp only
  split
  next dialogs hmode hwaiting =>
    have hnone := hpending hmode
    rw [hwaiting] at hnone
    cases hnone
  next hmode hwaiting _ =>
    right
    rw [← hread.pending]
    exact ⟨hwaiting, rfl, hwaiting⟩
  next hmode hwaiting _ =>
    left
    split
    next => exact ⟨hread.mode, hread.pending⟩
    next => exact hread
  next => exact .inl hread

theorem noticeInput_same (m : Model) (severity : NoticeSeverity) (event : UiEvent) :
    (m.noticeInput severity event).2 = m ∨ (m.noticeInput severity event).2 = m.acknowledge := by
  unfold noticeInput
  split
  all_goals first
    | exact .inl rfl
    | exact .inr rfl

end Model

namespace Screen

theorem Keeps.of_read {s s' : Screen} {read : Model} (hdrafts : read.drafts = s.model.drafts)
    (hwaiting : read.waitingDrafts = s.model.waitingDrafts) (h : { s with model := read }.Keeps s') :
    s.Keeps s' := by
  constructor
  · rw [← hwaiting]
    exact h.waiting
  · rw [← hdrafts]
    exact h.held

/-- Input after a notice was read. -/
theorem input_keeps_read {s : Screen} (hidle : s.model.Idle) {read : Model}
    (hread : read = s.model ∨ read = s.model.acknowledge) (event : Input) (r : Replies) :
    s.Keeps ({ s with model := read }.input event r) ∨
      s.Enters ({ s with model := read }.input event r) (event.effective r) := by
  have hinput := { s with model := read }.input_keeps event r
  have hsame : s.model.SameDialogs read ∨
      s.model.pendingDialogs = [] ∧ read.mode.isEdit = false ∧ read.pendingDialogs = [] := by
    rcases hread with rfl | rfl
    · exact .inl (Model.SameDialogs.refl _)
    · exact Model.acknowledge_same hidle
  have hdrafts : read.drafts = s.model.drafts := by
    rcases hread with rfl | rfl
    · rfl
    · exact Model.acknowledge_drafts _
  rcases hsame with hsame | ⟨hnone, hedit, hread⟩
  · have hwaiting : read.waitingDrafts = s.model.waitingDrafts := by
      unfold Model.waitingDrafts
      rw [hsame.pending]
    rcases hinput with hkeeps | ⟨hkept, path, value, hmode, hentered⟩
    · exact .inl (hkeeps.of_read hdrafts hwaiting)
    · right
      refine ⟨?_, path, value, ?_, ?_⟩
      · rw [← hwaiting]
        exact hkept
      · rw [← hsame.mode]
        exact hmode
      · rw [← hwaiting]
        exact hentered
  · have hwaiting : read.waitingDrafts = s.model.waitingDrafts := by
      unfold Model.waitingDrafts
      rw [hread, hnone]
    rcases hinput with hkeeps | ⟨-, path, value, hmode, -⟩
    · exact .inl (hkeeps.of_read hdrafts hwaiting)
    · change read.mode = _ at hmode
      rw [hmode] at hedit
      cases hedit

theorem reduce_keeps {s : Screen} (hidle : s.model.Idle) (event : Input) (r : Replies) :
    s.Keeps (s.reduce event r) ∨ s.Enters (s.reduce event r) (event.effective r) := by
  unfold reduce
  dsimp only
  have hview (view : View) {s' : Screen} {event : Input}
      (h : { s with view := view }.Keeps s' ∨ { s with view := view }.Enters s' event) :
      s.Keeps s' ∨ s.Enters s' event := by
    rcases h with h | h
    · exact .inl ⟨h.waiting, h.held⟩
    · exact .inr ⟨h.waiting, h.entered⟩
  split
  next hintercept => exact .inl (keeps_of_same (Model.intercept_drafts hintercept))
  next =>
    split
    next => exact .inl (keeps_of_same rfl)
    next request _ => exact .inl (keeps_of_same (s.model.offerApproval_drafts request))
    next =>
      split
      next => exact hview _ (input_keeps _ event r)
      next notice _ =>
        have hnotice := s.model.noticeInput_drafts notice.severity event.coarse
        have hread := s.model.noticeInput_same notice.severity event.coarse
        split
        next hstep =>
          rw [hstep] at hnotice
          exact .inl (keeps_of_same hnotice)
        next read hstep =>
          rw [hstep] at hnotice hread
          split
          next hintercept => exact .inl (keeps_of_same ((Model.intercept_drafts hintercept).trans hnotice))
          next =>
            apply hview
            apply input_keeps_read
            · exact hidle
            · exact hread

/-- A revealed value opens only over the dialog of its own path, and holds what that one held. -/
theorem report_careful (s : Screen) {completion : Completion Arrival} {seen : Completion Report}
    (h : completion.filterMap s.report = some seen) : Model.Careful seen := by
  cases completion with
  | reported arrival =>
    obtain ⟨opened, hreport, rfl⟩ := Option.map_eq_some_iff.mp h
    cases arrival with
    | revealed path value =>
      simp only [report] at hreport
      split at hreport
      next =>
        split at hreport
        next =>
          cases hreport
          exact List.forall_mem_singleton.mpr rfl
        next => cases hreport
      next =>
        split at hreport
        next =>
          cases hreport
          exact fun _ => nofun
        next => cases hreport
    | generated path value replacing =>
      simp only [report] at hreport
      split at hreport
      next =>
        cases hreport
        exact fun _ => nofun
      next => cases hreport
    | commitSummary =>
      cases hreport
      exact fun _ => nofun
    | rows rows => cases hreport
    | _ =>
      cases hreport
      exact trivial
  | approvalDone next =>
    cases next with
    | none =>
      cases h
      exact trivial
    | some next =>
      obtain ⟨opened, -, rfl⟩ := Option.map_eq_some_iff.mp h
      exact trivial
  | deployed report =>
    obtain ⟨opened, -, rfl⟩ := Option.map_eq_some_iff.mp h
    exact trivial
  | _ =>
    cases h
    exact trivial

theorem closeCommit_drafts (s : Screen) (completion : Completion Arrival) :
    (s.closeCommit completion).drafts = s.model.drafts := by
  unfold closeCommit
  split
  next =>
    split
    next hmode =>
      apply Model.drafts_of_mode
      · rw [hmode]
        rfl
      · rfl
    next => rfl
  next => rfl

theorem applyCompletion_keeps (s : Screen) (now : Nat) (completion : Completion Arrival) :
    s.Keeps (s.applyCompletion now completion) := by
  unfold applyCompletion
  split
  next seen hseen =>
    apply keeps_of_sublist
    rw [← s.closeCommit_drafts completion]
    exact Model.applyCompletion_drafts _ now seen (s.report_careful hseen)
  next => exact keeps_of_same (Model.showPendingApproval_drafts _)

theorem applyCompletion_idle (s : Screen) (now : Nat) (completion : Completion Arrival) :
    (s.applyCompletion now completion).model.Idle := by
  unfold applyCompletion
  split
  next => exact Model.applyCompletion_idle _ now _
  next => exact Model.showPendingApproval_idle _

theorem held_showPendingApproval (s s' : Screen) : s.held s'.showPendingApproval = s.held s' := by
  have hdrafts : s'.showPendingApproval.model.drafts = s'.model.drafts := Model.showPendingApproval_drafts _
  unfold held
  rw [hdrafts]
  rfl

theorem Keeps.shown {s s' : Screen} (h : s.Keeps s') : s.Keeps s'.showPendingApproval := by
  constructor
  · show s.model.waitingDrafts.Sublist s'.model.showPendingApproval.drafts
    rw [Model.showPendingApproval_drafts]
    exact h.waiting
  · rw [held_showPendingApproval]
    exact h.held

theorem Enters.shown {s s' : Screen} {event : Input} (h : s.Enters s' event) :
    s.Enters s'.showPendingApproval event := by
  constructor
  · show s.model.waitingDrafts.Sublist s'.model.showPendingApproval.drafts
    rw [Model.showPendingApproval_drafts]
    exact h.waiting
  · rw [held_showPendingApproval]
    exact h.entered

/-- Only the operator's input in the entry field changes an entered value. -/
theorem step_keeps {s : Screen} (hidle : s.model.Idle) (act : ScreenAct) : s.Keeps (s.step act) ∨
    ∃ event replies, act = .key event replies ∧ s.Enters (s.step act) (event.effective replies) := by
  cases act with
  | procedureEvent event => exact .inl (keeps_of_same (Model.SameDialogs.handle s.model event).drafts)
  | secretPrompt prompt => exact .inl (keeps_of_same (Model.SameDialogs.offerPrompt s.model prompt).drafts)
  | endTick now changed =>
    left
    apply keeps_of_same
    have hexpired := (Model.SameDialogs.expirePrompts s.model now).drafts
    cases changed with
    | true => exact (Model.showPendingApproval_drafts _).trans hexpired
    | false => exact hexpired
  | completion now completion => exact .inl (s.applyCompletion_keeps now completion)
  | refresh rows =>
    left
    apply keeps_of_same
    unfold step
    dsimp only
    split
    next => rfl
    next => rfl
  | approval request => exact .inl (keeps_of_same (s.model.offerApproval_drafts request))
  | key event replies =>
    rcases reduce_keeps hidle event replies with hkeeps | henters
    · exact .inl hkeeps.shown
    · exact .inr ⟨event, replies, rfl, henters.shown⟩

theorem step_idle {s : Screen} (hidle : s.model.Idle) (act : ScreenAct) : (s.step act).model.Idle := by
  cases act with
  | procedureEvent event => exact (Model.SameDialogs.handle s.model event).idle hidle
  | secretPrompt prompt => exact (Model.SameDialogs.offerPrompt s.model prompt).idle hidle
  | endTick now changed =>
    cases changed with
    | true => exact Model.showPendingApproval_idle _
    | false => exact (Model.SameDialogs.expirePrompts s.model now).idle hidle
  | completion now completion => exact s.applyCompletion_idle now completion
  | refresh rows =>
    unfold step
    dsimp only
    split
    next => exact hidle
    next => exact hidle
  | approval request => exact Model.offerApproval_idle hidle request
  | key event replies => exact Model.showPendingApproval_idle _

theorem run_idle {s : Screen} (hidle : s.model.Idle) (acts : List ScreenAct) : (s.run acts).model.Idle := by
  induction acts generalizing s with
  | nil => exact hidle
  | cons act acts ih => exact ih (step_idle hidle act)

theorem saveFailed_held (s : Screen) (now : Nat) (path message : String) (value : Value) :
    ((path, value) :: s.model.drafts).Perm
      (s.step (.completion now (.saveFailed path value message))).model.drafts :=
  s.model.applyCompletion_saveFailed now path message value

/-- In every run an entered value stays in the UI until it is handed to the writer or the operator cancels the
entry field. One that could not be saved comes back, and none waits while the tree is on screen. -/
theorem entry_kept (rows : List Row) (acts : List ScreenAct) :
    (∀ act, ((new rows).run acts).Keeps (((new rows).run acts).step act) ∨ ∃ event replies, act = .key event replies ∧
      ((new rows).run acts).Enters (((new rows).run acts).step act) (event.effective replies)) ∧
    (∀ now path value message, ((path, value) :: ((new rows).run acts).model.drafts).Perm
      (((new rows).run acts).step (.completion now (.saveFailed path value message))).model.drafts) ∧
    (((new rows).run acts).model.mode = .browse → ((new rows).run acts).model.pendingDialogs = []) := by
  have hidle : ((new rows).run acts).model.Idle := run_idle (s := new rows) (fun _ => rfl) acts
  refine ⟨fun act => step_keeps hidle act, fun now path value message => ?_, hidle⟩
  exact saveFailed_held _ now path message value

end Screen

end NixSecrets.Tui
