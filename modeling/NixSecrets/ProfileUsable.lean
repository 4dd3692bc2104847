import NixSecrets.Profiles

namespace NixSecrets.Profiles

open Faulty

/-- An error leaves the file as it was, and after a success the file is read. -/
def ProfileCall.KeepsUsable (toml : Toml) (call : ProfileCall) (disk : ProfileDisk) : Prop :=
  (∀ error, (call.exec toml disk).1 = .failed error → (call.exec toml disk).2.file = disk.file) ∧
  ∀ snapshot, (call.exec toml disk).1 = .done snapshot →
    (ProfileStore.read toml [] (call.exec toml disk).2).1.isDone = true

def ProfileOp.Overfills (snapshot : ProfileSnapshot) : ProfileOp → Prop
  | .save name _ _ => name ∉ snapshot.profiles ∧ 64 ≤ snapshot.profiles.size
  | .delete _ _ => False

/-- If the operation puts its text in place, it adds no profile to 64 others, and nothing is
refused after the rename unless the text is the old one. -/
def ProfileCall.Fits (toml : Toml) (call : ProfileCall) (disk : ProfileDisk) : Prop :=
  ∀ snapshot document content, current toml disk.file = .ok snapshot →
    call.op.writes toml disk.file = .ok (document, content) →
    (∀ e ∈ call.errors.take (reads disk.file + 6), e = none) →
    ¬ call.op.Overfills snapshot ∧
      (disk.file ≠ some content → ∀ e ∈ (call.errors.drop (reads disk.file + 6)).take 7, e = none)

theorem take_split {errors : List (Option String)} (m n : Nat)
    (h : ∀ e ∈ errors.take (m + n), e = none) :
    (∀ e ∈ errors.take m, e = none) ∧ ∀ e ∈ (errors.drop m).take n, e = none := by
  rw [List.take_add] at h
  exact ⟨fun e he => h e (List.mem_append_left _ he), fun e he => h e (List.mem_append_right _ he)⟩

theorem take_join {errors : List (Option String)} (m n : Nat) (hm : ∀ e ∈ errors.take m, e = none)
    (hn : ∀ e ∈ (errors.drop m).take n, e = none) : ∀ e ∈ errors.take (m + n), e = none := by
  intro e he
  rw [List.take_add] at he
  rcases List.mem_append.mp he with he | he
  · exact hm e he
  · exact hn e he

theorem take_shorter {errors : List (Option String)} {m n : Nat} (hmn : m ≤ n)
    (h : ∀ e ∈ errors.take n, e = none) : ∀ e ∈ errors.take m, e = none :=
  fun e he => h e (List.take_subset_take_left errors hmn he)

theorem take_met {errors : List (Option String)} {k n : Nat} {e : String}
    (he : errors[k]? = some (some e)) (hk : k < n) : ¬ ∀ e ∈ errors.take n, e = none := by
  intro hnone
  have hmem : some e ∈ errors.take n := by
    apply List.mem_of_getElem? (i := k)
    rw [List.getElem?_take_of_lt hk, he]
  cases hnone (some e) hmem

theorem ios_done (disk : ProfileDisk) {effects : List (ProfileDisk → ProfileDisk)}
    {errors : List (Option String)} (h : ∀ e ∈ errors.take effects.length, e = none) :
    ios effects (refusals errors) disk = (.done (), refusals (errors.drop effects.length),
      effects.foldl (fun disk effect => effect disk) disk) := steps_done h

theorem ios_failed (disk : ProfileDisk) {effects : List (ProfileDisk → ProfileDisk)}
    {errors : List (Option String)} (h : ¬ ∀ e ∈ errors.take effects.length, e = none) :
    ∃ k error rest, k < effects.length ∧ (∃ e, errors[k]? = some (some e)) ∧
      (∀ e ∈ errors.take k, e = none) ∧ ios effects (refusals errors) disk =
        (.failed error, refusals rest, (effects.take k).foldl (fun disk effect => effect disk) disk) := by
  obtain ⟨k, e, rest, hk, he, hnone, hrun⟩ := @steps_failed _ _ ProfileError.io effects errors disk h
  exact ⟨k, .io e, rest, hk, ⟨e, he⟩, hnone, hrun⟩

theorem ios_refused (disk : ProfileDisk) {effects : List (ProfileDisk → ProfileDisk)}
    {errors : List (Option String)} (hids : ∀ effect ∈ effects, effect = id)
    (h : ¬ ∀ e ∈ errors.take effects.length, e = none) : ∃ error rest,
    ios effects (refusals errors) disk = (.failed error, refusals rest, disk) := by
  obtain ⟨k, error, rest, -, -, -, hrun⟩ := ios_failed disk h
  refine ⟨error, rest, hrun.trans ?_⟩
  rw [foldl_id (fun effect he => hids effect (List.mem_of_mem_take he)) disk]

theorem accept_size {toml : Toml} {content : String} (h : maxBytes < content.utf8ByteSize) :
    accept toml content = .error (.invalid "profile file is too large") := if_pos h

theorem readText_cases (toml : Toml) (errors : List (Option String)) (disk : ProfileDisk)
    (content : String) :
    (∃ snapshot, accept toml content = .ok snapshot ∧ (∀ e ∈ errors.take 3, e = none) ∧
      ProfileStore.readText toml content (refusals errors) disk =
        (.done snapshot, refusals (errors.drop 3), disk)) ∨
    (((∃ error, accept toml content = .error error) ∨ ¬ ∀ e ∈ errors.take 3, e = none) ∧
      ∃ error faults, ProfileStore.readText toml content (refusals errors) disk =
        (.failed error, refusals faults, disk)) := by
  unfold ProfileStore.readText
  by_cases hmeta : ∀ e ∈ errors.take 2, e = none
  · have hseen : ios [id, id] (refusals errors) disk = (.done (), refusals (errors.drop 2), disk) :=
      ios_done disk hmeta
    rw [run_bind hseen]
    by_cases hsize : maxBytes < content.utf8ByteSize
    · rw [refuseIf, if_pos hsize]
      exact .inr ⟨.inl ⟨_, accept_size hsize⟩, _, errors.drop 2, rfl⟩
    · have hsmall : (refuseIf (maxBytes < content.utf8ByteSize)
          (ProfileError.invalid "profile path is not a regular file of acceptable size") :
          ProfileProgram Unit) (refusals (errors.drop 2)) disk =
            (.done (), refusals (errors.drop 2), disk) := by
        rw [refuseIf, if_neg hsize]
        rfl
      rw [run_bind hsmall]
      by_cases htext : ∀ e ∈ (errors.drop 2).take 1, e = none
      · have hread : ios [id] (refusals (errors.drop 2)) disk =
            (.done (), refusals (errors.drop 3), disk) := by
          have hdone := ios_done disk (show ∀ e ∈ (errors.drop 2).take [id].length, e = none
            from htext)
          rwa [List.drop_drop] at hdone
        rw [run_bind hread]
        cases haccept : accept toml content with
        | ok snapshot => exact .inl ⟨snapshot, rfl, take_join 2 1 hmeta htext, rfl⟩
        | error error => exact .inr ⟨.inl ⟨error, rfl⟩, error, _, rfl⟩
      · obtain ⟨error, faults, hrun⟩ := ios_refused disk
          (show ∀ effect ∈ [id], effect = id by simp) htext
        rw [run_bind_failed hrun]
        exact .inr ⟨.inr fun hall => htext (take_split 2 1 hall).2, error, faults, rfl⟩
  · obtain ⟨error, faults, hrun⟩ := ios_refused disk
      (show ∀ effect ∈ [id, id], effect = id by simp) hmeta
    rw [run_bind_failed hrun]
    exact .inr ⟨.inr fun hall => hmeta (take_split 2 1 hall).1, error, faults, rfl⟩

/-- A reading that meets no refusal says what the file holds; any other fails. -/
theorem read_cases (toml : Toml) (errors : List (Option String)) (disk : ProfileDisk) :
    (∃ snapshot, current toml disk.file = .ok snapshot ∧
      (∀ e ∈ errors.take (reads disk.file), e = none) ∧
      ProfileStore.read toml (refusals errors) disk =
        (.done snapshot, refusals (errors.drop (reads disk.file)), disk)) ∨
    (((∃ error, current toml disk.file = .error error) ∨
        ¬ ∀ e ∈ errors.take (reads disk.file), e = none) ∧
      ∃ error faults, ProfileStore.read toml (refusals errors) disk =
        (.failed error, refusals faults, disk)) := by
  have hread (faults : List Fault) :
      (Faulty.read : ProfileProgram ProfileDisk) faults disk = (.done disk, faults, disk) := rfl
  by_cases hopen : ∀ e ∈ errors.take 2, e = none
  · have hopened : ios [id, id] (refusals errors) disk = (.done (), refusals (errors.drop 2), disk) :=
      ios_done disk hopen
    unfold ProfileStore.read
    rw [run_bind hopened, run_bind (hread _)]
    cases hfile : disk.file with
    | none => exact .inl ⟨{}, rfl, hopen, rfl⟩
    | some content =>
      obtain ⟨snapshot, haccept, hnone, hrun⟩ | ⟨hwhy, error, faults, hrun⟩ :=
        readText_cases toml (errors.drop 2) disk content
      · refine .inl ⟨snapshot, haccept, take_join 2 3 hopen hnone, ?_⟩
        rwa [List.drop_drop] at hrun
      · refine .inr ⟨hwhy.imp id fun hnot hall => hnot (take_split 2 3 hall).2, error, faults, hrun⟩
  · obtain ⟨error, faults, hrun⟩ := ios_refused disk
      (show ∀ effect ∈ [id, id], effect = id by simp) hopen
    refine .inr ⟨.inr fun hall => hopen fun e he => hall e ?_, error, faults, ?_⟩
    · cases hfile : disk.file with
      | none => exact he
      | some content => exact (List.take_subset_take_left errors (by decide : 2 ≤ 5)) he
    · unfold ProfileStore.read
      rw [run_bind_failed hrun]

theorem removeTemp_file (errors : List (Option String)) (disk : ProfileDisk) : ∃ result rest disk',
    (ios [fun disk => { disk with temp := none }]).attempt (refusals errors) disk =
      (.done result, refusals rest, disk') ∧ disk'.file = disk.file := by
  match errors with
  | [] => exact ⟨_, [], _, rfl, rfl⟩
  | none :: rest => exact ⟨_, rest, _, rfl, rfl⟩
  | some e :: rest => exact ⟨_, rest, _, rfl, rfl⟩

/-- The new text is in place from the rename on. -/
theorem writing_file (content : String) (disk : ProfileDisk) {k : Nat} (hk : k < 7) :
    (((ProfileStore.writing content).take k).foldl (fun disk effect => effect disk) disk).file =
      if k < 5 then disk.file else some content := by
  match k, hk with
  | 0, _ | 1, _ | 2, _ | 3, _ | 4, _ | 5, _ | 6, _ => rfl

theorem atomicWrite_failed {content : String} {errors rest : List (Option String)} {error : ProfileError}
    {disk left : ProfileDisk} (hlook : ∀ e ∈ errors.take 1, e = none)
    (hrun : ios (ProfileStore.writing content) (refusals (errors.drop 1)) disk =
      (.failed error, refusals rest, left)) : ∃ faults disk',
    ProfileStore.atomicWrite content (refusals errors) disk =
      (.failed error, refusals faults, disk') ∧ disk'.file = left.file := by
  have hlooked : ios [id] (refusals errors) disk = (.done (), refusals (errors.drop 1), disk) :=
    ios_done disk hlook
  have htried : (ios (ProfileStore.writing content)).attempt (refusals (errors.drop 1)) disk =
      (.done (.error error), refusals rest, left) := by
    unfold attempt
    rw [hrun]
  obtain ⟨result, faults, disk', hremove, hfile⟩ := removeTemp_file rest left
  refine ⟨faults, disk', ?_, hfile⟩
  unfold ProfileStore.atomicWrite
  rw [run_bind hlooked, run_bind htried]
  exact run_bind hremove

theorem atomicWrite_cases (content : String) (errors : List (Option String)) (disk : ProfileDisk) :
    (∃ disk', (∀ e ∈ errors.take 8, e = none) ∧ disk'.file = some content ∧
      ProfileStore.atomicWrite content (refusals errors) disk =
        (.done (), refusals (errors.drop 8), disk')) ∨
    (∃ error rest disk', ProfileStore.atomicWrite content (refusals errors) disk =
        (.failed error, refusals rest, disk') ∧
      ((disk'.file = disk.file ∧ ¬ ∀ e ∈ errors.take 6, e = none) ∨
        (disk'.file = some content ∧ (∀ e ∈ errors.take 6, e = none) ∧
          ¬ ∀ e ∈ (errors.drop 6).take 2, e = none))) := by
  by_cases hlook : ∀ e ∈ errors.take 1, e = none
  · by_cases hall : ∀ e ∈ (errors.drop 1).take (ProfileStore.writing content).length, e = none
    · have hlooked : ios [id] (refusals errors) disk = (.done (), refusals (errors.drop 1), disk) :=
        ios_done disk hlook
      have hwritten := ios_done disk hall
      have htried : (ios (ProfileStore.writing content)).attempt (refusals (errors.drop 1)) disk =
          (.done (.ok ()), refusals (errors.drop 8), ⟨some content, none⟩) := by
        unfold attempt
        rw [hwritten, List.drop_drop]
        rfl
      refine .inl ⟨⟨some content, none⟩, take_join 1 7 hlook hall, rfl, ?_⟩
      unfold ProfileStore.atomicWrite
      rw [run_bind hlooked, run_bind htried]
      rfl
    · obtain ⟨k, error, rest, hk, ⟨e, he⟩, hnone, hrun⟩ := ios_failed disk hall
      obtain ⟨faults, disk', hwrite, hfile⟩ := atomicWrite_failed hlook hrun
      rw [writing_file content disk hk] at hfile
      refine .inr ⟨error, faults, disk', hwrite, ?_⟩
      by_cases hearly : k < 5
      · rw [if_pos hearly] at hfile
        refine .inl ⟨hfile, fun hnot => ?_⟩
        exact take_met he hearly (take_split 1 5 hnot).2
      · rw [if_neg hearly] at hfile
        have hbefore := take_shorter (Nat.not_lt.mp hearly) hnone
        have hlate : (errors.drop 6)[k - 5]? = some (some e) := by
          rw [List.getElem?_drop] at he ⊢
          rwa [show 6 + (k - 5) = 1 + k by omega]
        have hk' : k - 5 < 2 := by
          have hlength : (ProfileStore.writing content).length = 7 := rfl
          omega
        exact .inr ⟨hfile, take_join 1 5 hlook hbefore, take_met hlate hk'⟩
  · obtain ⟨error, faults, hrun⟩ := ios_refused disk
      (show ∀ effect ∈ [id], effect = id by simp) hlook
    refine .inr ⟨error, faults, disk, ?_, .inl ⟨rfl, fun hnot => hlook (take_split 1 5 hnot).1⟩⟩
    unfold ProfileStore.atomicWrite
    rw [run_bind_failed hrun]

theorem program_prepare (toml : Toml) (op : ProfileOp) : op.program toml =
    Faulty.ofExcept op.prepare >>= fun (expected, edit) => ProfileStore.change toml expected edit := by
  cases op with
  | save name profile expected =>
    show ProfileStore.save toml name profile expected = _
    simp only [ProfileStore.save, ProfileOp.prepare, ofExcept_bind, bind_assoc, ofExcept_pure, pure_bind]
  | delete name expected =>
    show ProfileStore.delete toml name expected = _
    simp only [ProfileStore.delete, ProfileOp.prepare, ofExcept_bind, bind_assoc, ofExcept_pure,
      pure_bind]

/-- Once the file is read, what follows depends on what may be written over it. -/
theorem change_written (toml : Toml) (expected : Nat) (edit : Document → Except ProfileError Document) :
    ProfileStore.change toml expected edit = ProfileStore.read toml >>= fun snapshot =>
      Faulty.ofExcept (written toml expected edit snapshot) >>= fun (_, content) =>
        ProfileStore.atomicWrite content >>= fun _ => ProfileStore.read toml := by
  unfold ProfileStore.change
  congr
  funext snapshot
  unfold written
  by_cases hrevision : snapshot.revision ≠ expected
  · rw [refuseIf, if_pos hrevision, if_pos hrevision]
    rfl
  · rw [refuseIf, if_neg hrevision, if_neg hrevision]
    simp only [ofExcept_bind, bind_assoc, pure_bind]
    congr
    funext document
    congr
    funext content
    by_cases hsize : maxBytes < content.utf8ByteSize
    · rw [refuseIf, if_pos hsize, if_pos hsize]
      rfl
    · rw [refuseIf, if_neg hsize, if_neg hsize]
      rfl

/-- How an operation ends once its new text is in place. -/
def Settled (toml : Toml) (content : String) (errors : List (Option String))
    (ended : Ended ProfileError ProfileSnapshot) : Prop :=
  (∃ snapshot, ended = .done snapshot ∧ accept toml content = .ok snapshot ∧
    ∀ e ∈ errors.take 7, e = none) ∨
  (∃ error, ended = .failed error) ∧
    ((∃ error, accept toml content = .error error) ∨ ¬ ∀ e ∈ errors.take 7, e = none)

theorem install_cases (toml : Toml) (content : String) (errors : List (Option String))
    (disk : ProfileDisk) : ∃ ended rest disk',
    (ProfileStore.atomicWrite content >>= fun _ => ProfileStore.read toml) (refusals errors) disk =
      (ended, rest, disk') ∧
    (((∃ error, ended = .failed error) ∧ disk'.file = disk.file ∧ ¬ ∀ e ∈ errors.take 6, e = none) ∨
      ((∀ e ∈ errors.take 6, e = none) ∧ disk'.file = some content ∧
        Settled toml content (errors.drop 6) ended)) := by
  obtain ⟨disk', hnone, hfile, hwrite⟩ | ⟨error, rest, disk', hwrite, hwhy⟩ :=
    atomicWrite_cases content errors disk
  · rw [run_bind hwrite]
    have hrename := take_split 6 2 hnone
    have hcurrent : current toml disk'.file = accept toml content := by rw [hfile, current]
    have hreads : reads disk'.file = 5 := by rw [hfile, reads]
    obtain ⟨snapshot, haccept, hread, hrun⟩ | ⟨hwhy, error, faults, hrun⟩ :=
      read_cases toml (errors.drop 8) disk'
    · rw [hcurrent] at haccept
      rw [hreads] at hread
      have hlast : ∀ e ∈ ((errors.drop 6).drop 2).take 5, e = none := by rwa [List.drop_drop]
      exact ⟨_, _, _, hrun, .inr ⟨hrename.1, hfile,
        .inl ⟨snapshot, rfl, haccept, take_join 2 5 hrename.2 hlast⟩⟩⟩
    · rw [hcurrent, hreads] at hwhy
      refine ⟨_, _, _, hrun, .inr ⟨hrename.1, hfile, .inr ⟨⟨error, rfl⟩, hwhy.imp id fun hnot hall => ?_⟩⟩⟩
      have hlast := (take_split 2 5 hall).2
      rw [List.drop_drop] at hlast
      exact hnot hlast
  · refine ⟨_, _, _, run_bind_failed hwrite, ?_⟩
    obtain ⟨hfile, hnot⟩ | ⟨hfile, hnone, hnot⟩ := hwhy
    · exact .inl ⟨⟨error, rfl⟩, hfile, hnot⟩
    · exact .inr ⟨hnone, hfile, .inr ⟨⟨error, rfl⟩, .inr fun hall => hnot (take_split 2 5 hall).1⟩⟩

/-- The operation fails before its new text is in place, or puts it in place. -/
def Written (toml : Toml) (result : Except ProfileError (Document × String)) (before : Nat)
    (errors : List (Option String)) (disk disk' : ProfileDisk)
    (ended : Ended ProfileError ProfileSnapshot) : Prop :=
  ((∃ error, ended = .failed error) ∧ disk'.file = disk.file ∧
    ∀ document content, result = .ok (document, content) → ¬ ∀ e ∈ errors.take before, e = none) ∨
  ∃ document content, result = .ok (document, content) ∧ (∀ e ∈ errors.take before, e = none) ∧
    disk'.file = some content ∧ Settled toml content (errors.drop before) ended

theorem written_cases (toml : Toml) (result : Except ProfileError (Document × String))
    (errors : List (Option String)) (disk : ProfileDisk) : ∃ ended rest disk',
    (Faulty.ofExcept result >>= fun (_, content) =>
        ProfileStore.atomicWrite content >>= fun _ => ProfileStore.read toml) (refusals errors) disk =
      (ended, rest, disk') ∧ Written toml result 6 errors disk disk' ended := by
  cases result with
  | error error => exact ⟨_, _, _, rfl, .inl ⟨⟨error, rfl⟩, rfl, fun _ _ h => nomatch h⟩⟩
  | ok pair =>
    obtain ⟨document, content⟩ := pair
    rw [run_bind (ofExcept_run _ _ _)]
    obtain ⟨ended, rest, disk', hrun, hcase⟩ := install_cases toml content errors disk
    refine ⟨ended, rest, disk', hrun, hcase.imp ?_ ?_⟩
    · exact fun ⟨hfailed, hfile, hnot⟩ => ⟨hfailed, hfile, fun _ _ _ => hnot⟩
    · exact fun ⟨hnone, hfile, hsettled⟩ => ⟨document, content, rfl, hnone, hfile, hsettled⟩

theorem change_cases (toml : Toml) (expected : Nat) (edit : Document → Except ProfileError Document)
    (errors : List (Option String)) (disk : ProfileDisk) : ∃ ended rest disk',
    ProfileStore.change toml expected edit (refusals errors) disk = (ended, rest, disk') ∧
      Written toml (current toml disk.file >>= written toml expected edit) (reads disk.file + 6)
        errors disk disk' ended := by
  rw [change_written]
  obtain ⟨snapshot, hcurrent, hnone, hread⟩ | ⟨hwhy, error, faults, hread⟩ :=
    read_cases toml errors disk
  · rw [run_bind hread, hcurrent]
    obtain ⟨ended, rest, disk', hrun, hcase⟩ :=
      written_cases toml (written toml expected edit snapshot) (errors.drop (reads disk.file)) disk
    refine ⟨ended, rest, disk', hrun, hcase.imp ?_ ?_⟩
    · exact fun ⟨hfailed, hfile, hnot⟩ =>
        ⟨hfailed, hfile, fun document content hok hall => hnot document content hok (take_split _ 6 hall).2⟩
    · rintro ⟨document, content, hok, hbefore, hfile, hsettled⟩
      rw [List.drop_drop] at hsettled
      exact ⟨document, content, hok, take_join _ 6 hnone hbefore, hfile, hsettled⟩
  · refine ⟨_, _, _, run_bind_failed hread, .inl ⟨⟨error, rfl⟩, rfl, fun document content hok => ?_⟩⟩
    obtain ⟨failure, hfailure⟩ | hnot := hwhy
    · rw [hfailure] at hok
      cases hok
    · exact fun hall => hnot (take_split _ 6 hall).1

theorem exec_cases (toml : Toml) (call : ProfileCall) (disk : ProfileDisk) :
    Written toml (call.op.writes toml disk.file) (reads disk.file + 6) call.errors disk
      (call.exec toml disk).2 (call.exec toml disk).1 := by
  have hwrites : call.op.writes toml disk.file = call.op.prepare >>= fun (expected, edit) =>
      current toml disk.file >>= written toml expected edit := rfl
  unfold ProfileCall.exec
  rw [program_prepare, hwrites]
  cases hprepare : call.op.prepare with
  | error error => exact .inl ⟨⟨error, rfl⟩, rfl, fun _ _ hok => nomatch hok⟩
  | ok pair =>
    obtain ⟨expected, edit⟩ := pair
    obtain ⟨ended, rest, disk', hrun, hcase⟩ := change_cases toml expected edit call.errors disk
    have hprogram : (Faulty.ofExcept (.ok (expected, edit)) >>= fun (expected, edit) =>
        ProfileStore.change toml expected edit) (refusals call.errors) disk = (ended, rest, disk') := hrun
    rw [hprogram]
    exact hcase

theorem validateAll_iff (entries : List (String × ViewProfile)) : validateAll entries = .ok () ↔
    ∀ entry ∈ entries, validateName entry.1 = .ok () ∧ entry.2.validate = .ok () := by
  induction entries with
  | nil => simp [validateAll]
  | cons entry rest ih =>
    obtain ⟨name, profile⟩ := entry
    rw [validateAll, List.forall_mem_cons, ← ih]
    cases hname : validateName name with
    | error error => exact ⟨fun h => (nomatch h), fun h => (nomatch h.1.1)⟩
    | ok =>
      cases hprofile : profile.validate with
      | error error => exact ⟨fun h => (nomatch h), fun h => (nomatch h.1.2)⟩
      | ok => exact ⟨fun h => ⟨⟨rfl, rfl⟩, h⟩, fun h => h.2⟩

theorem accept_ok {toml : Toml} {content : String} {snapshot : ProfileSnapshot}
    (h : accept toml content = .ok snapshot) :
    toml.decode content = .ok ⟨1, snapshot.profiles⟩ ∧ snapshot.profiles.size ≤ 64 ∧
      validateAll snapshot.profiles.toList = .ok () := by
  unfold accept at h
  split at h
  · cases h
  · cases hdecode : toml.decode content with
    | error error => rw [hdecode] at h; cases h
    | ok document =>
      rw [hdecode] at h
      dsimp only at h
      split at h
      · cases h
      · split at h
        · cases h
        next hversion hsize =>
          cases hvalid : validateAll document.profiles.toList with
          | error error => rw [hvalid] at h; cases h
          | ok =>
            rw [hvalid] at h
            cases Except.ok.inj h
            obtain ⟨version, profiles⟩ := document
            have hone : version = 1 := not_not.mp hversion
            subst hone
            exact ⟨rfl, Nat.not_lt.mp hsize, hvalid⟩

theorem accept_error_iff {toml : Toml} {content : String} {profiles : BTreeMap String ViewProfile}
    (hsize : content.utf8ByteSize ≤ maxBytes) (hdecode : toml.decode content = .ok ⟨1, profiles⟩)
    (hvalid : validateAll profiles.toList = .ok ()) :
    (∃ error, accept toml content = .error error) ↔ 64 < profiles.size := by
  rw [accept, if_neg (Nat.not_lt.mpr hsize), hdecode]
  dsimp only
  rw [if_neg (by simp)]
  by_cases hmany : 64 < profiles.size
  · rw [if_pos hmany]
    exact ⟨fun _ => hmany, fun _ => ⟨_, rfl⟩⟩
  · rw [if_neg hmany, hvalid]
    exact ⟨fun ⟨_, h⟩ => (nomatch h), fun h => absurd h hmany⟩

theorem current_valid {toml : Toml} {file : Option String} {snapshot : ProfileSnapshot}
    (h : current toml file = .ok snapshot) :
    snapshot.profiles.size ≤ 64 ∧ validateAll snapshot.profiles.toList = .ok () := by
  cases file with
  | some content => exact (accept_ok h).2
  | none =>
    cases Except.ok.inj h
    exact ⟨by simp, (validateAll_iff _).mpr (by simp)⟩

theorem validateAll_insert {profiles : BTreeMap String ViewProfile} {name : String}
    {profile : ViewProfile} (h : validateAll profiles.toList = .ok ())
    (hname : validateName name = .ok ()) (hprofile : profile.validate = .ok ()) :
    validateAll (profiles.insert name profile).toList = .ok () := by
  rw [validateAll_iff] at h ⊢
  rintro ⟨other, found⟩ hmem
  rw [Std.ExtTreeMap.mem_toList_iff_getElem?_eq_some, Std.ExtTreeMap.getElem?_insert] at hmem
  split at hmem
  next heq =>
    cases Option.some.inj hmem
    rw [← Std.LawfulEqCmp.eq_of_compare heq]
    exact ⟨hname, hprofile⟩
  next => exact h (other, found) (Std.ExtTreeMap.mem_toList_iff_getElem?_eq_some.mpr hmem)

theorem validateAll_erase {profiles : BTreeMap String ViewProfile} {name : String}
    (h : validateAll profiles.toList = .ok ()) : validateAll (profiles.erase name).toList = .ok () := by
  rw [validateAll_iff] at h ⊢
  rintro ⟨other, found⟩ hmem
  rw [Std.ExtTreeMap.mem_toList_iff_getElem?_eq_some, Std.ExtTreeMap.getElem?_erase] at hmem
  split at hmem
  · cases hmem
  · exact h (other, found) (Std.ExtTreeMap.mem_toList_iff_getElem?_eq_some.mpr hmem)

theorem written_ok {toml : Toml} {expected : Nat} {edit : Document → Except ProfileError Document}
    {snapshot : ProfileSnapshot} {document : Document} {content : String}
    (h : written toml expected edit snapshot = .ok (document, content)) :
    edit ⟨1, snapshot.profiles⟩ = .ok document ∧ toml.encode document = .ok content ∧
      content.utf8ByteSize ≤ maxBytes := by
  unfold written at h
  split at h
  · cases h
  · cases hedit : edit ⟨1, snapshot.profiles⟩ with
    | error error => rw [hedit] at h; cases h
    | ok edited =>
      rw [hedit] at h
      change ((toml.encode edited).mapError ProfileError.encode >>= _) = _ at h
      cases hencode : toml.encode edited with
      | error error => rw [hencode] at h; cases h
      | ok text =>
        rw [hencode] at h
        change (if maxBytes < text.utf8ByteSize then _ else _) = _ at h
        split at h
        · cases h
        next hsize =>
          cases Except.ok.inj h
          exact ⟨rfl, hencode, Nat.not_lt.mp hsize⟩

/-- What an operation would write is as the reader wants it, but for the number of profiles. -/
theorem writes_ok {toml : Toml} {op : ProfileOp} {file : Option String} {document : Document}
    {content : String} (h : op.writes toml file = .ok (document, content)) : ∃ snapshot,
    current toml file = .ok snapshot ∧ document.version = 1 ∧ toml.encode document = .ok content ∧
      content.utf8ByteSize ≤ maxBytes ∧ validateAll document.profiles.toList = .ok () ∧
      (64 < document.profiles.size ↔ op.Overfills snapshot) ∧
      (op.Overfills snapshot → document.profiles ≠ snapshot.profiles) := by
  obtain ⟨⟨expected, edit⟩, hprepare, h⟩ := except_bind_ok.mp h
  obtain ⟨snapshot, hcurrent, h⟩ := except_bind_ok.mp h
  obtain ⟨hedit, hencode, hsize⟩ := written_ok h
  obtain ⟨hfew, hvalid⟩ := current_valid hcurrent
  refine ⟨snapshot, hcurrent, ?_⟩
  cases op with
  | save name profile revision =>
    obtain ⟨_, hname, hprepare⟩ := except_bind_ok.mp hprepare
    obtain ⟨_, hprofile, hprepare⟩ := except_bind_ok.mp hprepare
    cases Except.ok.inj hprepare
    cases Except.ok.inj hedit
    refine ⟨rfl, hencode, hsize, validateAll_insert hvalid hname hprofile, ?_, ?_⟩
    · show 64 < (snapshot.profiles.insert name profile).size ↔ _ ∧ 64 ≤ snapshot.profiles.size
      rw [Std.ExtTreeMap.size_insert]
      split
      next hmem => exact ⟨fun h => absurd h (by omega), fun h => absurd hmem h.1⟩
      next hmem => exact ⟨fun h => ⟨hmem, by omega⟩, fun h => by omega⟩
    · intro ⟨habsent, _⟩ heq
      apply habsent
      rw [← heq]
      exact Std.ExtTreeMap.mem_insert_self
  | delete name revision =>
    obtain ⟨_, -, hprepare⟩ := except_bind_ok.mp hprepare
    cases Except.ok.inj hprepare
    unfold ProfileStore.removeProfile at hedit
    split at hedit
    · cases Except.ok.inj hedit
      have herase : (snapshot.profiles.erase name).size ≤ snapshot.profiles.size :=
        Std.ExtTreeMap.size_erase_le
      refine ⟨rfl, hencode, hsize, validateAll_erase hvalid, ?_, fun h => h.elim⟩
      show 64 < (snapshot.profiles.erase name).size ↔ False
      constructor
      · intro h
        omega
      · exact False.elim
    · cases hedit

theorem reads_back_iff {toml : Toml} {disk : ProfileDisk} :
    (ProfileStore.read toml [] disk).1.isDone = true ↔ ∃ snapshot, current toml disk.file = .ok snapshot := by
  obtain ⟨snapshot, hcurrent, -, hrun⟩ | ⟨hwhy, error, faults, hrun⟩ := read_cases toml [] disk
  · rw [show [] = refusals [] from rfl, hrun]
    exact ⟨fun _ => ⟨snapshot, hcurrent⟩, fun _ => rfl⟩
  · rw [show [] = refusals [] from rfl, hrun]
    refine ⟨fun hdone => (nomatch hdone), fun ⟨snapshot, hcurrent⟩ => ?_⟩
    obtain ⟨failure, hfailure⟩ | hnot := hwhy
    · rw [hfailure] at hcurrent
      cases hcurrent
    · exact absurd (fun e he => by simp at he) hnot

/-- An operation keeps the file usable exactly when what it writes fits. -/
theorem keepsUsable_iff {toml : Toml} (htoml : toml.RoundTrips) (call : ProfileCall)
    (disk : ProfileDisk) : call.KeepsUsable toml disk ↔ call.Fits toml disk := by
  unfold ProfileCall.KeepsUsable ProfileCall.Fits
  obtain ⟨⟨error, hfailed⟩, hfile, hnot⟩ | ⟨document, content, hwrites, hnone, hfile, hsettled⟩ :=
    exec_cases toml call disk
  · refine ⟨fun _ snapshot document content _ hwrites hall => ?_, fun _ => ⟨fun _ _ => hfile, ?_⟩⟩
    · exact absurd hall (hnot document content hwrites)
    · intro snapshot hdone
      rw [hfailed] at hdone
      cases hdone
  · obtain ⟨snapshot, hcurrent, hversion, hencode, hsize, hvalid, hmany, hnew⟩ := writes_ok hwrites
    have hdecode : toml.decode content = .ok ⟨1, document.profiles⟩ := by
      rw [htoml document content hencode, ← hversion]
    have haccept := accept_error_iff hsize hdecode hvalid
    have hsame {snapshot' : ProfileSnapshot} {document' : Document} {content' : String}
        (hc : current toml disk.file = .ok snapshot')
        (hw : call.op.writes toml disk.file = .ok (document', content')) :
        snapshot' = snapshot ∧ content' = content := by
      rw [hcurrent] at hc
      rw [hwrites] at hw
      exact ⟨(Except.ok.inj hc).symm, (Prod.mk.inj (Except.ok.inj hw)).2.symm⟩
    obtain ⟨shown, hdone, hshown, hquiet⟩ | ⟨⟨error, hfailed⟩, hwhy⟩ := hsettled
    · refine ⟨fun _ snapshot' document' content' hc hw _ => ?_, fun _ => ⟨?_, fun _ _ => ?_⟩⟩
      · rw [(hsame hc hw).1]
        refine ⟨fun hover => ?_, fun _ => hquiet⟩
        obtain ⟨failure, hfailure⟩ := haccept.mpr (hmany.mpr hover)
        rw [hshown] at hfailure
        cases hfailure
      · intro error hfailed
        rw [hdone] at hfailed
        cases hfailed
      · rw [reads_back_iff, hfile]
        exact ⟨shown, hshown⟩
    · constructor
      · rintro ⟨hkept, -⟩ snapshot' document' content' hc hw -
        obtain ⟨rfl, rfl⟩ := hsame hc hw
        have htext : disk.file = some content' := by rw [← hkept error hfailed, hfile]
        refine ⟨fun hover => hnew hover ?_, fun hchanged => absurd htext hchanged⟩
        rw [htext] at hcurrent
        have hread := (accept_ok hcurrent).1
        rw [hdecode] at hread
        exact congrArg Document.profiles (Except.ok.inj hread)
      · intro hfits
        obtain ⟨hroom, hquiet⟩ := hfits snapshot document content hcurrent hwrites hnone
        refine ⟨fun _ _ => ?_, fun shown hdone => ?_⟩
        · by_contra hchanged
          rw [hfile] at hchanged
          obtain hfailure | hnot := hwhy
          · exact hroom (hmany.mp (haccept.mp hfailure))
          · exact hnot (hquiet (Ne.symm hchanged))
        · rw [hfailed] at hdone
          cases hdone

end NixSecrets.Profiles
