import NixSecrets.HostKeyLines

namespace NixSecrets.HostKey

section

variable (w : Surroundings) (verifier : HostKeyVerifier) (path : String)

/-- The text of a configured file, if there is such a file. -/
def Surroundings.contents (text : List Char) (configured : String) : Option (List Char) :=
  if configured = path then some text
  else
    match w.openOther configured with
    | .ok .missing => none
    | _ => some (w.text configured)

/-- The known_hosts files are as ssh wants them, and no input or output fails before the file is written. -/
structure Surroundings.Usable (keygen : String → List Char → Output) : Prop where
  first : verifier.knownHosts.head? = some path
  locked : lockTarget w path = .ok ()
  opens : ∀ text, ∀ configured ∈ verifier.knownHosts,
    openConfigured w path text configured = .ok (w.contents path text configured)
  searches : ∀ lookup text, w.keygen lookup text = .ok (keygen lookup text)
  utf8 : ∀ text, w.validUtf8 text = true
  readable : w.readable = true
  unmoved : ∃ opened parentNow now pinned, w.openParent = .ok opened ∧ w.parentNow = .ok parentNow ∧
    w.pathNow = .ok now ∧ w.pinned = .ok pinned ∧ parentNow.inode = opened.inode ∧ now.inode = pinned.inode

/-- The scan looks at the same files. -/
structure Runner.Reads (runner : Runner) (keygen : String → List Char → Output) (text : List Char) : Prop where
  fileExists : ∀ now, ∀ configured ∈ verifier.knownHosts,
    runner.fileExists now configured = (w.contents path text configured).isSome
  run : ∀ now lookup, ∀ configured ∈ verifier.knownHosts, ∀ contents,
    w.contents path text configured = some contents →
      runner.run now verifier.sshKeygen ["-F", lookup, "-f", configured] = .ok (keygen lookup contents)

end

theorem foundTexts_mem {runner : Runner} {verifier : HostKeyVerifier} {lookup configured : String}
    {paths : List String} {output : Output} (hmem : configured ∈ paths)
    (hexists : ∀ now, runner.fileExists now configured = true)
    (hrun : ∀ now, runner.run now verifier.sshKeygen ["-F", lookup, "-f", configured] = .ok output)
    (hsuccess : output.success = true) (now : Nat) :
    output.stdout ∈ foundTexts runner verifier lookup now paths := by
  induction paths generalizing now with
  | nil => cases hmem
  | cons path paths ih =>
    rw [foundTexts]
    by_cases heq : configured = path
    · subst heq
      rw [if_pos (hexists now), hrun]
      dsimp only
      rw [if_pos hsuccess]
      exact List.mem_append_left _ List.mem_cons_self
    · have hrest := (List.mem_cons.mp hmem).resolve_left heq
      split
      next => exact List.mem_append_right _ (ih hrest _)
      next => exact ih hrest _

/-- What the claim asks of a saved identity. -/
def Recorded (names : List Char → String → Bool) (w : Surroundings) (verifier : HostKeyVerifier)
    (identity : HostIdentity) (text : List Char) : Prop :=
  ∃ text', persistAccepted w verifier identity text = (.ok (), text') ∧
    pinnedKeys names identity.lookup text' = identity.keys ∧ text <+: text' ∧ lines text <+: lines text' ∧
    persistAccepted w verifier identity text' = (.ok (), text')

/-- What the writer accepts. -/
structure Takes (names : List Char → String → Bool) (w : Surroundings) (verifier : HostKeyVerifier)
    (path : String) (identity : HostIdentity) (text : List Char) : Prop where
  host : identity.host ≠ "" ∧ ∀ c ∈ identity.host.toList, hostChar c = true
  name : identity.lookup.toList.head? ≠ some '#' ∧ identity.lookup.toList.head? ≠ some '@'
  keys : ∀ key ∈ identity.keys, key.savable = true
  absent : ∀ configured ∈ verifier.knownHosts, ∀ contents, w.contents path text configured = some contents →
    entriesFor names identity.lookup contents = []
  room : utf8Length text + utf8Length (addition identity.lookup text identity.keys) ≤ fileLimit

section

variable {names : List Char → String → Bool} {keygen : String → List Char → Output} {w : Surroundings}
  {verifier : HostKeyVerifier} {path : String} {identity : HostIdentity} {text : List Char}

theorem inspectFound_absent (hfinds : Finds names keygen) {contents : List Char}
    (habsent : entriesFor names identity.lookup contents = []) :
    inspectFound w identity (keygen identity.lookup contents) = .ok [] := by
  obtain ⟨hfails, hstatus⟩ := hfinds.absent identity.lookup contents habsent
  simp [inspectFound, hfails, hstatus, refuseWhen]

/-- Without an entry for the host nothing is recorded yet. -/
theorem recordedFor_absent (hfinds : Finds names keygen) (husable : w.Usable verifier path keygen)
    {paths : List String} (hpaths : ∀ configured ∈ paths, configured ∈ verifier.knownHosts)
    (habsent : ∀ configured ∈ paths, ∀ contents, w.contents path text configured = some contents →
      entriesFor names identity.lookup contents = []) :
    recordedFor w identity.lookup path text identity paths = .ok [] := by
  induction paths with
  | nil => rfl
  | cons configured paths ih =>
    have hrest := ih (fun other hother => hpaths other (List.mem_cons_of_mem _ hother))
      (fun other hother => habsent other (List.mem_cons_of_mem _ hother))
    simp only [recordedFor, except_bind_ok]
    refine ⟨_, husable.opens text configured (hpaths configured List.mem_cons_self), ?_⟩
    cases hcontents : w.contents path text configured with
    | none => exact hrest
    | some contents =>
      have hinspect := inspectFound_absent (w := w) hfinds
        (habsent configured List.mem_cons_self contents hcontents)
      simp only [except_bind_ok]
      exact ⟨_, husable.searches _ _, _, hinspect, _, hrest, rfl⟩

/-- Where no key is known, an entry for the host is a mark, and refused. -/
theorem recordedFor_ok_absent (hfinds : Finds names keygen) (husable : w.Usable verifier path keygen)
    {paths : List String} {recorded : List PresentedKey}
    (hpaths : ∀ configured ∈ paths, configured ∈ verifier.knownHosts)
    (hunknown : ∀ configured ∈ paths, ∀ contents, w.contents path text configured = some contents →
      (keygen identity.lookup contents).success = true →
        parseKeyLines (keygen identity.lookup contents).stdout = [])
    (h : recordedFor w identity.lookup path text identity paths = .ok recorded) :
    ∀ configured ∈ paths, ∀ contents, w.contents path text configured = some contents →
      entriesFor names identity.lookup contents = [] := by
  induction paths generalizing recorded with
  | nil => nofun
  | cons configured paths ih =>
    have hopens := husable.opens text configured (hpaths configured List.mem_cons_self)
    have hlater : ∀ {recorded'}, recordedFor w identity.lookup path text identity paths = .ok recorded' →
        ∀ other ∈ paths, ∀ contents, w.contents path text other = some contents →
          entriesFor names identity.lookup contents = [] := fun hrest =>
      ih (fun other hother => hpaths other (List.mem_cons_of_mem _ hother))
        (fun other hother => hunknown other (List.mem_cons_of_mem _ hother)) hrest
    simp only [recordedFor, except_bind_ok] at h
    obtain ⟨found, hfound, h⟩ := h
    rw [hopens] at hfound
    cases hfound
    intro other hother contents hcontents
    cases hhere : w.contents path text configured with
    | none =>
      rw [hhere] at h
      rcases List.mem_cons.mp hother with rfl | hmem
      · rw [hhere] at hcontents
        cases hcontents
      · exact hlater h other hmem contents hcontents
    | some contents' =>
      rw [hhere] at h
      simp only [except_bind_ok, husable.searches] at h
      obtain ⟨output, houtput, here, hinspect, later, hrest, _⟩ := h
      cases houtput
      rcases List.mem_cons.mp hother with rfl | hmem
      · rw [hhere] at hcontents
        cases hcontents
        by_contra hentries
        have hsuccess := hfinds.present identity.lookup contents hentries
        have hnone := hunknown other List.mem_cons_self contents hhere hsuccess
        rw [inspectFound, if_pos hsuccess] at hinspect
        simp only [except_bind_ok, refuseWhen_ok] at hinspect
        obtain ⟨_, _, _, _, _, hfound, _⟩ := hinspect
        exact hfound hnone
      · exact hlater hrest other hmem contents hcontents

theorem prepareAddition_ok (husable : w.Usable verifier path keygen) {added : List Char} :
    prepareAddition w verifier identity text = .ok added ↔ WellNamed identity ∧ ∃ recorded,
      recordedFor w identity.lookup path text identity verifier.knownHosts = .ok recorded ∧
      utf8Length text ≤ fileLimit ∧
      added = addition identity.lookup text (identity.keys.filter (· ∉ recorded)) ∧
      (added = [] ∨ utf8Length text + utf8Length added ≤ fileLimit) := by
  obtain ⟨opened, parentNow, now, pinned, hopened, hparent, hnow, hpinned, hsameParent, hsame⟩ := husable.unmoved
  rw [prepareAddition, husable.first]
  simp only [except_bind_ok, husable.locked, refuseWhen_ok, husable.readable, exists_const, true_and,
    not_true_eq_false, not_false_eq_true, Nat.not_lt, checkIdentity_ok]
  constructor
  · rintro ⟨hnamed, recorded, hrecorded, hbound, h⟩
    refine ⟨hnamed, recorded, hrecorded, hbound, ?_⟩
    split at h
    next hempty =>
      cases h
      exact ⟨hempty.symm, Or.inl rfl⟩
    next =>
      simp only [except_bind_ok, refuseWhen_ok, Nat.not_lt, exists_const] at h
      obtain ⟨hroom, _, _, _, _, _, _, _, _, _, _, h⟩ := h
      cases h
      exact ⟨rfl, Or.inr hroom⟩
  · rintro ⟨hnamed, recorded, hrecorded, hbound, hadded, hroom⟩
    refine ⟨hnamed, recorded, hrecorded, hbound, ?_⟩
    subst hadded
    split
    next hempty =>
      have hempty : addition identity.lookup text (identity.keys.filter (· ∉ recorded)) = [] := hempty
      rw [hempty]
      rfl
    next hne =>
      simp only [except_bind_ok, refuseWhen_ok, Nat.not_lt, hopened, hparent, hnow, hpinned, exists_const]
      exact ⟨hroom.resolve_left hne, opened, rfl, parentNow, rfl, fun hmoved => hmoved hsameParent,
        now, rfl, pinned, rfl, fun hmoved => hmoved hsame, rfl⟩

theorem pinnedKeys_absent {lookup : String} {contents : List Char}
    (h : entriesFor names lookup contents = []) : pinnedKeys names lookup contents = [] := by
  refine List.filterMap_eq_nil_iff.mpr fun line hline => ?_
  have hno := List.filter_eq_nil_iff.mp h line hline
  cases hentry : parseEntry line with
  | none => rfl
  | some entry =>
    rw [hentry, Option.any_some] at hno
    simp [hno]

theorem addition_ne_nil {lookup : String} {key : PresentedKey} {keys : List PresentedKey} :
    addition lookup text (key :: keys) ≠ [] := by
  have hline : (key :: keys).flatMap (keyLine lookup) ≠ [] := by
    rw [List.flatMap_cons, keyLine_eq]
    simp
  unfold addition
  dsimp only
  split
  next => exact List.cons_ne_nil _ _
  next => exact hline

namespace WellNamed

/-- The lines of the file after the keys were saved. -/
theorem lines_saved (hnamed : WellNamed identity) :
    lines (text ++ addition identity.lookup text identity.keys) =
      lines text ++ identity.keys.map (entryText identity.lookup) := by
  rw [lines_addition, lines_keyLines fun key hkey => hnamed.entryText_chars hkey]

theorem names_lookup (hnamed : WellNamed identity) (hfinds : Finds names keygen) :
    names identity.lookup.toList identity.lookup = true := by
  apply hfinds.plain
  · intro hempty
    exact lookupName_ne_nil hnamed.host (String.toList_eq_nil_iff.mpr hempty)
  · exact List.all_eq_true.mpr hnamed.lookup_chars

/-- The saved keys are those that the file pins, unless their lines look like marks or comments. -/
theorem pinnedKeys_saved (hnamed : WellNamed identity) (hfinds : Finds names keygen)
    (habsent : entriesFor names identity.lookup text = []) :
    pinnedKeys names identity.lookup (text ++ addition identity.lookup text identity.keys) =
      if identity.lookup.toList.head? = some '#' ∨ identity.lookup.toList.head? = some '@' then []
      else identity.keys := by
  have hbefore := pinnedKeys_absent habsent
  unfold pinnedKeys at hbefore ⊢
  rw [hnamed.lines_saved, List.filterMap_append, hbefore, List.nil_append, List.filterMap_map]
  split
  next hodd =>
    refine List.filterMap_eq_nil_iff.mpr fun key hkey => ?_
    rw [Function.comp_apply, hnamed.parseEntry_entryText hkey, if_pos hodd]
    rfl
  next hodd =>
    have hsome : ∀ key ∈ identity.keys, (parseEntry (entryText identity.lookup key)).bind (fun entry =>
        if !entry.marked && names entry.hosts identity.lookup then some entry.key else none) = some key := by
      intro key hkey
      rw [hnamed.parseEntry_entryText hkey, if_neg hodd, Option.bind_some]
      simp [hnamed.names_lookup hfinds]
    exact (List.filterMap_congr hsome).trans List.filterMap_some

theorem entriesFor_saved (hnamed : WellNamed identity) (hfinds : Finds names keygen)
    (habsent : entriesFor names identity.lookup text = [])
    (hcomment : identity.lookup.toList.head? ≠ some '#') (hmarker : identity.lookup.toList.head? ≠ some '@') :
    entriesFor names identity.lookup (text ++ addition identity.lookup text identity.keys) =
      identity.keys.map (entryText identity.lookup) := by
  have hodd := not_or.mpr ⟨hcomment, hmarker⟩
  unfold entriesFor at habsent ⊢
  rw [hnamed.lines_saved, List.filter_append, habsent, List.nil_append]
  refine List.filter_eq_self.mpr fun line hline => ?_
  obtain ⟨key, hkey, rfl⟩ := List.mem_map.mp hline
  rw [hnamed.parseEntry_entryText hkey, if_neg hodd, Option.any_some]
  exact hnamed.names_lookup hfinds

end WellNamed

/-- The lines of `ssh-keygen` that are no comments decide which keys are read. -/
theorem parseKeyLines_filter (output : List Char) :
    parseKeyLines output =
      ((lines output).filter fun line => line.head? ≠ some '#').filterMap parseKeyLine := by
  unfold parseKeyLines
  rw [List.filterMap_filter]
  refine List.filterMap_congr fun line _ => ?_
  by_cases hcomment : line.head? = some '#'
  · simp [parseKeyLine, hcomment]
  · simp [hcomment]

/-- Saved keys are found again, all of them and no others. -/
theorem inspectFound_saved (hnamed : WellNamed identity) (hfinds : Finds names keygen)
    (husable : w.Usable verifier path keygen) (hplain : ∀ c ∈ identity.host.toList, isWhitespace c = false)
    (hcomment : identity.lookup.toList.head? ≠ some '#') (hmarker : identity.lookup.toList.head? ≠ some '@')
    {contents : List Char}
    (hentries : entriesFor names identity.lookup contents = identity.keys.map (entryText identity.lookup)) :
    inspectFound w identity (keygen identity.lookup contents) = .ok identity.keys := by
  have hne : entriesFor names identity.lookup contents ≠ [] := by
    rw [hentries]
    exact mt List.map_eq_nil_iff.mp hnamed.keys
  have hsuccess := hfinds.present identity.lookup contents hne
  have hprints := hfinds.prints identity.lookup contents hne (by
    rw [hentries]
    intro line hline
    obtain ⟨key, hkey, rfl⟩ := List.mem_map.mp hline
    exact (hnamed.entryText_chars hkey).2)
  rw [hentries] at hprints
  have hparsed : parseKeyLines (keygen identity.lookup contents).stdout =
      identity.keys.map fun key => ⟨identity.lookup, key.algorithm, key.encoded⟩ := by
    rw [parseKeyLines_filter, hprints, List.filterMap_map, ← List.filterMap_eq_map]
    refine List.filterMap_congr fun key hkey => ?_
    exact hnamed.parseKeyLine_entryText hplain hcomment hmarker hkey
  have hshown : (parseKeyLines (keygen identity.lookup contents).stdout).map (·.presented) = identity.keys := by
    rw [hparsed, List.map_map]
    exact List.map_id _
  rw [inspectFound, if_pos hsuccess]
  simp only [except_bind_ok, refuseWhen_ok, exists_const]
  refine ⟨fun hutf8 => hutf8 (husable.utf8 _), ?_, ?_, ?_, ?_⟩
  · intro hmarked
    obtain ⟨line, hline, hhead⟩ := List.any_eq_true.mp hmarked
    have hhead := eq_of_beq hhead
    have hmem : line ∈ (lines (keygen identity.lookup contents).stdout).filter fun line =>
        line.head? ≠ some '#' := by
      refine List.mem_filter.mpr ⟨hline, ?_⟩
      rw [hhead]
      rfl
    rw [hprints] at hmem
    obtain ⟨key, _, rfl⟩ := List.mem_map.mp hmem
    have hfirst : (entryText identity.lookup key).head? = identity.lookup.toList.head? := by
      unfold entryText
      cases hlist : identity.lookup.toList with
      | nil => exact absurd hlist (lookupName_ne_nil hnamed.host)
      | cons c rest => rfl
    exact hmarker (hfirst.symm.trans hhead)
  · intro hempty
    rw [hempty] at hshown
    exact hnamed.keys hshown.symm
  · intro hother
    obtain ⟨line, hline, hunknown⟩ := List.any_eq_true.mp hother
    have hmem : line.presented ∈ identity.keys := by
      rw [← hshown]
      exact List.mem_map_of_mem hline
    simp [hmem] at hunknown
  · rw [hshown]
    rfl

theorem contents_other {text' : List Char} {configured : String} (h : configured ≠ path) :
    w.contents path text' configured = w.contents path text configured := by
  unfold Surroundings.contents
  rw [if_neg h, if_neg h]

theorem contents_path : w.contents path text path = some text := if_pos rfl

/-- After the keys were saved they are recorded. -/
theorem recordedFor_saved (hnamed : WellNamed identity) (hfinds : Finds names keygen)
    (husable : w.Usable verifier path keygen) (hplain : ∀ c ∈ identity.host.toList, isWhitespace c = false)
    (hcomment : identity.lookup.toList.head? ≠ some '#') (hmarker : identity.lookup.toList.head? ≠ some '@')
    {text' : List Char}
    (hentries : entriesFor names identity.lookup text' = identity.keys.map (entryText identity.lookup))
    {paths : List String} (hpaths : ∀ configured ∈ paths, configured ∈ verifier.knownHosts)
    (habsent : ∀ configured ∈ paths, ∀ contents, w.contents path text configured = some contents →
      entriesFor names identity.lookup contents = []) :
    ∃ recorded, recordedFor w identity.lookup path text' identity paths = .ok recorded ∧
      (path ∈ paths → ∀ key ∈ identity.keys, key ∈ recorded) := by
  induction paths with
  | nil => exact ⟨[], rfl, nofun⟩
  | cons configured paths ih =>
    obtain ⟨later, hlater, hall⟩ := ih (fun other hother => hpaths other (List.mem_cons_of_mem _ hother))
      (fun other hother => habsent other (List.mem_cons_of_mem _ hother))
    have hopens := husable.opens text' configured (hpaths configured List.mem_cons_self)
    by_cases hpath : configured = path
    · subst hpath
      refine ⟨identity.keys ++ later, ?_, fun _ key hkey => List.mem_append_left _ hkey⟩
      simp only [recordedFor, except_bind_ok]
      refine ⟨_, hopens, ?_⟩
      rw [contents_path]
      simp only [except_bind_ok, husable.searches]
      exact ⟨_, rfl, _, inspectFound_saved hnamed hfinds husable hplain hcomment hmarker hentries, _, hlater, rfl⟩
    · have hothers : recordedFor w identity.lookup path text' identity (configured :: paths) = .ok later := by
        simp only [recordedFor, except_bind_ok]
        refine ⟨_, hopens, ?_⟩
        rw [contents_other hpath]
        cases hcontents : w.contents path text configured with
        | none => exact hlater
        | some contents =>
          have hinspect := inspectFound_absent (w := w) hfinds
            (habsent configured List.mem_cons_self contents hcontents)
          simp only [except_bind_ok]
          exact ⟨_, husable.searches _ _, _, hinspect, _, hlater, rfl⟩
      refine ⟨later, hothers, fun hmem => hall ?_⟩
      exact (List.mem_cons.mp hmem).resolve_left fun heq => hpath heq.symm

/-- What is to be added for a host without entries. -/
theorem prepareAddition_fresh (hfinds : Finds names keygen) (husable : w.Usable verifier path keygen)
    (hkeys : identity.keys ≠ []) (htakes : Takes names w verifier path identity text) :
    prepareAddition w verifier identity text = .ok (addition identity.lookup text identity.keys) := by
  refine (prepareAddition_ok husable).mpr ⟨⟨hkeys, htakes.host.1, htakes.host.2, htakes.keys⟩, [],
    recordedFor_absent hfinds husable (fun _ hmem => hmem) htakes.absent, ?_, ?_, Or.inr htakes.room⟩
  · have hroom := htakes.room
    omega
  · simp

theorem addition_keys_ne_nil (hkeys : identity.keys ≠ []) :
    addition identity.lookup text identity.keys ≠ [] := by
  obtain ⟨key, keys, heq⟩ := List.exists_cons_of_ne_nil hkeys
  rw [heq]
  exact addition_ne_nil

/-- An identity that the writer takes is saved for good. -/
theorem Takes.recorded (hfinds : Finds names keygen) (husable : w.Usable verifier path keygen)
    (happend : w.append = .all) (hsync : w.sync = .ok ()) (hkeys : identity.keys ≠ [])
    (htakes : Takes names w verifier path identity text)
    (hplain : ∀ c ∈ identity.host.toList, isWhitespace c = false) : Recorded names w verifier identity text := by
  have hnamed : WellNamed identity := ⟨hkeys, htakes.host.1, htakes.host.2, htakes.keys⟩
  have hne : addition identity.lookup text identity.keys ≠ [] := addition_keys_ne_nil hkeys
  have hpath : path ∈ verifier.knownHosts := List.mem_of_mem_head? husable.first
  have habsent := htakes.absent path hpath text contents_path
  have hodd := not_or.mpr htakes.name
  refine ⟨text ++ addition identity.lookup text identity.keys, ?_, ?_, List.prefix_append _ _, ?_, ?_⟩
  · rw [persistAccepted, prepareAddition_fresh hfinds husable hkeys htakes]
    dsimp only
    rw [if_neg hne, happend]
    dsimp only
    rw [hsync]
  · rw [hnamed.pinnedKeys_saved hfinds habsent, if_neg hodd]
  · rw [hnamed.lines_saved]
    exact List.prefix_append _ _
  · have hentries := hnamed.entriesFor_saved hfinds habsent htakes.name.1 htakes.name.2
    obtain ⟨recorded, hrecorded, hall⟩ := recordedFor_saved hnamed hfinds husable hplain htakes.name.1
      htakes.name.2 hentries (fun _ hmem => hmem) htakes.absent
    have hmissing : identity.keys.filter (· ∉ recorded) = [] := by
      refine List.filter_eq_nil_iff.mpr fun key hkey => ?_
      simp [hall hpath key hkey]
    have hprepared : prepareAddition w verifier identity
        (text ++ addition identity.lookup text identity.keys) = .ok [] := by
      refine (prepareAddition_ok husable).mpr ⟨hnamed, recorded, hrecorded, ?_, ?_, Or.inl rfl⟩
      · rw [utf8Length_append]
        exact htakes.room
      · rw [hmissing]
        rfl
    rw [persistAccepted, hprepared]
    rfl

/-- An identity that was saved was one that the writer takes. -/
theorem Recorded.takes (hfinds : Finds names keygen) (husable : w.Usable verifier path keygen)
    (hkeys : identity.keys ≠ [])
    (hunknown : ∀ configured ∈ verifier.knownHosts, ∀ contents,
      w.contents path text configured = some contents → (keygen identity.lookup contents).success = true →
        parseKeyLines (keygen identity.lookup contents).stdout = [])
    (h : Recorded names w verifier identity text) : Takes names w verifier path identity text := by
  obtain ⟨text', hpersist, hpinned, _, _, _⟩ := h
  rw [persistAccepted] at hpersist
  split at hpersist
  next => cases hpersist
  next added hprepared =>
    obtain ⟨hnamed, recorded, hrecorded, hbound, hadded, hroom⟩ := (prepareAddition_ok husable).mp hprepared
    have habsent := recordedFor_ok_absent hfinds husable (fun _ hmem => hmem) hunknown hrecorded
    have hnone : recordedFor w identity.lookup path text identity verifier.knownHosts = .ok [] :=
      recordedFor_absent hfinds husable (fun _ hmem => hmem) habsent
    rw [hnone] at hrecorded
    cases hrecorded
    have hall : identity.keys.filter (· ∉ ([] : List PresentedKey)) = identity.keys := by simp
    rw [hall] at hadded
    have hne : added ≠ [] := hadded ▸ addition_keys_ne_nil hkeys
    rw [if_neg hne] at hpersist
    have htext : text' = text ++ addition identity.lookup text identity.keys := by
      rw [← hadded]
      split at hpersist
      next => cases hpersist
      next => exact (Prod.mk.inj hpersist).2.symm
    have hpath : path ∈ verifier.knownHosts := List.mem_of_mem_head? husable.first
    rw [htext, hnamed.pinnedKeys_saved hfinds (habsent path hpath text contents_path)] at hpinned
    refine ⟨⟨hnamed.host, hnamed.chars⟩, ?_, hnamed.savable, habsent, ?_⟩
    · split at hpinned
      next => exact absurd hpinned.symm hkeys
      next hodd => exact not_or.mp hodd
    · rw [← hadded]
      exact hroom.resolve_left hne

end

/-- The addition reaches the file in part, or is not known to have reached the disk. -/
def Surroundings.Interrupted (w : Surroundings) : Prop :=
  match w.append with
  | .cut count _ => count ≠ 0
  | .all => w.sync ≠ .ok ()

theorem persistAccepted_error {w : Surroundings} {verifier : HostKeyVerifier} {identity : HostIdentity}
    {text text' : List Char} {error : HostKeyError} (hwhole : ¬ w.Interrupted)
    (h : persistAccepted w verifier identity text = (.error error, text')) : text' = text := by
  rw [persistAccepted] at h
  split at h
  next => exact (Prod.mk.inj h).2.symm
  next added _ =>
    split at h
    next => cases h
    next =>
      unfold Surroundings.Interrupted at hwhole
      split at h
      next count _ happend =>
        rw [happend] at hwhole
        have hcount : count = 0 := Classical.not_not.mp hwhole
        rw [hcount, List.take_zero, List.append_nil] at h
        exact (Prod.mk.inj h).2.symm
      next happend =>
        rw [happend] at hwhole
        rw [Classical.not_not.mp hwhole] at h
        cases h

/-- The accepted keys of a host without known keys are saved exactly if the writer takes the host's name and
all key types, no line marks the host and the file has room; only an interrupted write changes the file and
fails. -/
theorem accepted_keys_saved_when_taken (names : List Char → String → Bool)
    (keygen : String → List Char → Output) (hfinds : Finds names keygen) (w : Surroundings)
    (verifier : HostKeyVerifier) (path : String) (husable : w.Usable verifier path keygen) (text : List Char)
    (runner : Runner) (hreads : runner.Reads w verifier path keygen text) (host : String) (port : Nat)
    (s t : Session) (preflight : HostKeyPreflight)
    (h : preflightSelected runner verifier host port none s = .ok (preflight, t))
    (hunknown : knownKeys runner verifier host port s.now = []) :
    (w.append = .all → w.sync = .ok () →
      (Takes names w verifier path preflight.identity text → (∀ c ∈ host.toList, isWhitespace c = false) →
        Recorded names w verifier preflight.identity text) ∧
      (Recorded names w verifier preflight.identity text →
        Takes names w verifier path preflight.identity text)) ∧
    (Takes names w verifier path preflight.identity text → w.Interrupted →
      ∃ error text', persistAccepted w verifier preflight.identity text = (.error error, text') ∧
        text' ≠ text) ∧
    ∀ (w' : Surroundings) (verifier' : HostKeyVerifier) identity text' error text'', ¬ w'.Interrupted →
      persistAccepted w' verifier' identity text' = (.error error, text'') → text'' = text' := by
  obtain ⟨scanned, new, _, hhost, hport, haccepts⟩ := preflightSelected_accepts h
  have hkeys : preflight.identity.keys ≠ [] := by
    obtain ⟨line, rest, hline⟩ := List.exists_cons_of_ne_nil haccepts.shown
    have hmem := (haccepts.keys line.presented).mpr ⟨by simp [hline], Or.inl hunknown⟩
    exact List.ne_nil_of_mem hmem
  have hlookup : preflight.identity.lookup = lookupName host port := by
    rw [HostIdentity.lookup, hhost, hport]
  have hnone : ∀ configured ∈ verifier.knownHosts, ∀ contents,
      w.contents path text configured = some contents →
      (keygen preflight.identity.lookup contents).success = true →
        parseKeyLines (keygen preflight.identity.lookup contents).stdout = [] := by
    intro configured hconfigured contents hcontents hsuccess
    have hexists (now : Nat) : runner.fileExists now configured = true := by
      rw [hreads.fileExists now configured hconfigured, hcontents]
      rfl
    have hfound := foundTexts_mem hconfigured hexists
      (fun now => hreads.run now preflight.identity.lookup configured hconfigured contents hcontents) hsuccess s.now
    rw [hlookup] at hfound ⊢
    exact List.flatMap_eq_nil_iff.mp hunknown _ hfound
  refine ⟨fun happend hsync => ⟨fun htakes hplain => ?_, ?_⟩, fun htakes hinterrupted => ?_, ?_⟩
  · exact htakes.recorded hfinds husable happend hsync hkeys (hhost ▸ hplain)
  · exact fun hrecorded => hrecorded.takes hfinds husable hkeys hnone
  · have hprepared := prepareAddition_fresh hfinds husable hkeys htakes
    obtain ⟨c, rest, hadded⟩ := List.exists_cons_of_ne_nil
      (addition_keys_ne_nil hkeys : addition preflight.identity.lookup text preflight.identity.keys ≠ [])
    rw [hadded] at hprepared
    rw [persistAccepted, hprepared]
    dsimp only
    rw [if_neg (List.cons_ne_nil c rest)]
    unfold Surroundings.Interrupted at hinterrupted
    cases happend : w.append with
    | cut count error =>
      rw [happend] at hinterrupted
      refine ⟨error, _, rfl, fun hsame => ?_⟩
      have htaken := List.append_right_eq_self.mp hsame
      rw [List.take_eq_nil_iff] at htaken
      rcases htaken with hzero | hempty
      · exact hinterrupted hzero
      · cases hempty
    | all =>
      rw [happend] at hinterrupted
      cases hsync : w.sync with
      | ok u => exact absurd hsync hinterrupted
      | error error =>
        refine ⟨error, _, rfl, fun hsame => ?_⟩
        exact List.cons_ne_nil c rest (List.append_right_eq_self.mp hsame)
  · intro w' verifier' identity text' error text'' hwhole hpersist
    exact persistAccepted_error hwhole hpersist

/-- Names that stand for themselves, and a search that lists their lines. -/
def sameName (hosts : List Char) (lookup : String) : Bool := hosts == lookup.toList

def listEntries (lookup : String) (text : List Char) : Output :=
  let found := entriesFor sameName lookup text
  if found = [] then ⟨false, [], "exit status: 1"⟩
  else ⟨true, found.flatMap (· ++ ['\n']), "exit status: 0"⟩

theorem listEntries_finds : Finds sameName listEntries where
  absent lookup text habsent := by simp [listEntries, habsent]
  present lookup text hpresent := by simp [listEntries, hpresent]
  prints lookup text hpresent hreturns := by
    have hbreaks : ∀ line ∈ entriesFor sameName lookup text, '\n' ∉ line := by
      intro line hline
      exact not_mem_lines (List.mem_filter.mp hline).1
    have hlines : lines (listEntries lookup text).stdout = entriesFor sameName lookup text := by
      simp only [listEntries, if_neg hpresent]
      generalize entriesFor sameName lookup text = found at hbreaks hreturns
      induction found with
      | nil => rfl
      | cons line found ih =>
        rw [List.flatMap_cons, List.append_assoc, List.singleton_append,
          lines_line (hbreaks line List.mem_cons_self) (hreturns line List.mem_cons_self),
          ih (fun other hother => hbreaks other (List.mem_cons_of_mem _ hother))
            (fun other hother => hreturns other (List.mem_cons_of_mem _ hother))]
    rw [hlines]
    refine List.filter_eq_self.mpr fun line hline => decide_eq_true fun hcomment => ?_
    have hentry := (List.mem_filter.mp hline).2
    rw [parseEntry_comment hcomment] at hentry
    cases hentry
  plain lookup _ _ := by simp [sameName]

def ownFile : Metadata := ⟨true, false, 1000, 1, 0o100600, 0, (1, 2)⟩

def ownDirectory : Metadata := ⟨false, true, 1000, 2, 0o40700, 0, (1, 1)⟩

/-- A home directory with an own known_hosts file, where nothing fails. -/
def quietHome : Surroundings where
  uid := 1000
  createDir := .ok false
  setPermissions := .ok ()
  parent := .ok ownDirectory
  canonicalParent := .ok ["home", "op", ".ssh"]
  openParent := .ok ownDirectory
  openTarget := .ok ()
  lock := .ok ()
  target := .ok ownFile
  openOther _ := .ok .missing
  openManaged _ := .ok ()
  metadata _ := .ok ownFile
  text _ := []
  keygen lookup text := .ok (listEntries lookup text)
  validUtf8 _ := true
  readable := true
  parentNow := .ok ownDirectory
  pathNow := .ok ownFile
  pinned := .ok ownFile
  append := .all
  sync := .ok ()

def homeVerifier : HostKeyVerifier := ⟨["/home/op/.ssh/known_hosts"], "ssh-keyscan", "ssh-keygen", false⟩

/-- A host with one key, which `ssh-keyscan` prints when it is asked for keys of its type. -/
def scannedHost (type line : String) : Runner where
  run _ _ arguments := .ok (listEntries (arguments.getD 1 "") [])
  runBounded _ _ arguments _ := .ok ⟨true, if type ∈ arguments then line.toList else [], ""⟩
  resolve _ _ _ := none
  elapsed _ _ := 0
  fileExists _ _ := true
  readFile _ _ := .ok (some [])
  endpoint _ _ _ := .error .noKeys
  fingerprint encoded := encoded

theorem quietHome_usable : quietHome.Usable homeVerifier "/home/op/.ssh/known_hosts" listEntries where
  first := rfl
  locked := by decide
  opens text configured hmem := by
    rw [List.mem_singleton.mp hmem]
    rfl
  searches _ _ := rfl
  utf8 _ := rfl
  readable := rfl
  unmoved := ⟨_, _, _, _, rfl, rfl, rfl, rfl, rfl, rfl⟩

theorem scannedHost_reads (type line : String) :
    (scannedHost type line).Reads quietHome homeVerifier "/home/op/.ssh/known_hosts" listEntries [] where
  fileExists _ configured hmem := by
    rw [List.mem_singleton.mp hmem]
    rfl
  run _ lookup configured hmem contents hcontents := by
    rw [List.mem_singleton.mp hmem, contents_path] at hcontents
    cases hcontents
    rfl

theorem ed25519_key_saved :
    ∃ preflight t, preflightSelected (scannedHost "ed25519" "web ssh-ed25519 AAAA\n") homeVerifier "web" 22 none
        ⟨0, []⟩ = .ok (preflight, t) ∧ Recorded sameName quietHome homeVerifier preflight.identity [] := by
  have hhost : "web".toList.all hostChar = true := by decide
  have hplain : "web".toList.all (fun c => !isWhitespace c) = true := by decide
  refine ⟨_, _, rfl, ?_⟩
  refine ((accepted_keys_saved_when_taken sameName listEntries listEntries_finds quietHome homeVerifier _
    quietHome_usable [] _ (scannedHost_reads "ed25519" "web ssh-ed25519 AAAA\n") "web" 22 ⟨0, []⟩ _ _ rfl
    (by decide)).1 rfl rfl).1 ?_ fun c hc => by simpa using List.all_eq_true.mp hplain c hc
  refine ⟨⟨by decide, List.all_eq_true.mp hhost⟩, by decide, by decide, ?_,
    by decide⟩
  intro configured hmem contents hcontents
  rw [List.mem_singleton.mp hmem, contents_path] at hcontents
  cases hcontents
  rfl

theorem exists_preflight {x : Except HostKeyError (HostKeyPreflight × Session)} {P : HostKeyPreflight → Prop}
    [DecidablePred P] (h : (x.toOption.any fun r => decide (P r.1)) = true) :
    ∃ preflight t, x = .ok (preflight, t) ∧ P preflight := by
  cases x with
  | error error => cases h
  | ok r => exact ⟨r.1, r.2, rfl, of_decide_eq_true h⟩

/-- A key of the last type that is scanned for is accepted, and cannot be saved. -/
theorem mldsa_key_refused :
    ∃ preflight t, preflightSelected
        (scannedHost "mldsa44-ed25519" "web ssh-mldsa44-ed25519@openssh.com AAAA\n") homeVerifier "web" 22 none
        ⟨0, []⟩ = .ok (preflight, t) ∧ preflight.status = .unknown ∧
      persistAccepted quietHome homeVerifier preflight.identity [] =
        (.error (.tool "cannot save accepted SSH host key: invalid approved public key"), []) := by
  apply exists_preflight
  decide +kernel

end NixSecrets.HostKey
