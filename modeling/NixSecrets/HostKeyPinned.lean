import NixSecrets.HostKeyNumbers
import NixSecrets.HostKeyRecorded

namespace NixSecrets.HostKey

section

variable (runner : Runner) (verifier : HostKeyVerifier) (host : String) (port : Nat)

/-- What `ssh-keygen -F` prints for the host is assumed to be the matching lines of the file. -/
structure Matches (matching : String → List (List Char)) : Prop where
  absent : ∀ now, ∀ path ∈ verifier.knownHosts, runner.fileExists now path = false → matching path = []
  printed : ∀ now, ∀ path ∈ verifier.knownHosts, ∀ output,
    runner.run now verifier.sshKeygen ["-F", lookupName host port, "-f", path] = .ok output →
      ((lines output.stdout).filter fun line => line.head? ≠ some '#') = matching path ∧
      (output.success = true ↔ matching path ≠ [])

/-- The keys that a file pins. -/
def pinnedIn (matching : String → List (List Char)) (path : String) : List PresentedKey :=
  ((matching path).filterMap parseKeyLine).map (·.presented)

/-- What preflight does up to the first scan that shows a key. -/
def firstShown : Run (List KeyLine × List KnownKey × List KeyLine) := do
  let (known, recorded) ← recordedKeys runner verifier (lookupName host port) verifier.knownHosts
  let requested ← answered (scanTypes (known.map (·.algorithm)))
  let (scanHost, scanPort) ← scanEndpoint runner verifier host port
  let started ← ask id
  let scanned ← discover runner verifier requested scanHost scanPort started maxDiscoveryAttempts 0
    "no scan completed"
  return (known, recorded, scanned)

/-- What preflight makes of that scan. -/
def judge (known : List KeyLine) (recorded : List KnownKey) (scanned : List KeyLine) : Run HostKeyPreflight := do
  let connectionWarnings ← tunnelWarnings runner verifier host port scanned
  let matching := scanned.filter fun candidate => known.any (·.sameKey candidate)
  if known ≠ [] ∧ matching = [] then
    refuse (.changed host port recorded ((sortKeys scanned).map (·.presented)))
  else
    let accepted := sortKeys (if known = [] then scanned else matching)
    let otherNames ← aliases runner accepted verifier.knownHosts
    return {
      identity := ⟨host, port, accepted.map (·.presented), sortedSet otherNames⟩
      status := if known = [] then .unknown else .known
      connectionWarnings
      known := recorded.filter fun entry => accepted.any fun key => key.presented = entry.key
      knownHostLines := accepted.map (·.forHost (lookupName host port)) }

end

theorem bind_of_ok {α β : Type} {x : Run α} {f : α → Run β} {s t : Session} {a : α} (h : x s = .ok (a, t)) :
    (x >>= f) s = f a t := by
  show (x s >>= fun p => f p.1 p.2) = _
  rw [h]
  rfl

section

variable {runner : Runner} {verifier : HostKeyVerifier} {host : String} {port : Nat}

theorem preflightSelected_eq :
    preflightSelected runner verifier host port none = (do
      let (known, recorded, scanned) ← firstShown runner verifier host port
      judge runner verifier host port known recorded scanned) := by
  unfold preflightSelected firstShown judge
  simp only [bind_assoc, pure_bind, Option.isSome_none, Bool.false_eq_true, or_false]

variable {matching : String → List (List Char)}

theorem parseKeyLines_printed {stdout : List Char} {found : List (List Char)}
    (h : ((lines stdout).filter fun line => line.head? ≠ some '#') = found) :
    parseKeyLines stdout = found.filterMap parseKeyLine := by
  rw [parseKeyLines_filter, h]

theorem recorded_keys (path : String) (text : List Char) :
    (Listing.recorded path text).map (fun entry => (entry.file, entry.key)) =
      (parseKeyLines text).map fun line => (path, line.presented) := by
  apply List.ext_getElem?
  intro i
  unfold Listing.recorded
  simp only [List.getElem?_map, List.getElem?_mapIdx, Option.map_map]
  rfl

/-- Every pinned key is known and is recorded with its file. -/
theorem recordedKeys_pinned (hmatches : Matches runner verifier host port matching) {paths : List String}
    (hpaths : ∀ path ∈ paths, path ∈ verifier.knownHosts) {s t : Session} {r : List KeyLine × List KnownKey}
    (h : recordedKeys runner verifier (lookupName host port) paths s = .ok (r, t)) :
    r.1.map (·.presented) = paths.flatMap (pinnedIn matching) ∧
      r.2.map (fun entry => (entry.file, entry.key)) =
        paths.flatMap fun path => (pinnedIn matching path).map fun key => (path, key) := by
  induction paths generalizing s t r with
  | nil =>
    cases h
    exact ⟨rfl, rfl⟩
  | cons path paths ih =>
    have hpath := hpaths path List.mem_cons_self
    have hrest := fun later hlater => hpaths later (List.mem_cons_of_mem _ hlater)
    obtain ⟨present, t₁, hask, h⟩ := bind_ok h
    cases hask
    rw [List.flatMap_cons, List.flatMap_cons]
    by_cases hpresent : runner.fileExists s.now path = true
    · rw [if_pos hpresent] at h
      obtain ⟨result, t₂, hrun, h⟩ := bind_ok h
      cases hrun
      obtain ⟨output, houtput, h⟩ := answered_bind_ok h
      obtain ⟨⟨known, recorded⟩, t₃, hlater, h⟩ := bind_ok h
      dsimp only at h
      obtain ⟨hknown, hrecorded⟩ := ih hrest hlater
      dsimp only at hknown hrecorded
      obtain ⟨hprinted, hsuccess⟩ := hmatches.printed _ path hpath output houtput
      have hparsed := parseKeyLines_printed hprinted
      by_cases hfound : output.success = true
      · rw [if_pos hfound] at h
        cases h
        constructor
        · rw [List.map_append, hparsed, hknown]
          rfl
        · have hkeys := recorded_keys path output.stdout
          rw [List.map_append, hrecorded, pinnedIn, List.map_map, ← hparsed]
          exact congrArg (· ++ _) hkeys
      · rw [if_neg hfound] at h
        cases h
        have hnone : matching path = [] := by
          by_contra hsome
          exact hfound (hsuccess.mpr hsome)
        have hpinned : pinnedIn matching path = [] := by rw [pinnedIn, hnone]; rfl
        rw [hpinned]
        exact ⟨hknown, hrecorded⟩
    · rw [if_neg hpresent] at h
      have hnone := hmatches.absent _ path hpath (Bool.not_eq_true _ ▸ hpresent)
      have hpinned : pinnedIn matching path = [] := by rw [pinnedIn, hnone]; rfl
      rw [hpinned]
      exact ih hrest h

/-- Before the scan that shows these keys, no scan showed one. -/
theorem discover_quiet {requested : List String} {scanHost : String} {scanPort began fuel attempts : Nat}
    {diagnostic : String} {scanned : List KeyLine} {s t : Session}
    (h : discover runner verifier requested scanHost scanPort began fuel attempts diagnostic s =
      .ok (scanned, t)) :
    ∃ quiet, s.Sees t (quiet ++ [⟨.scan, scanned⟩]) ∧ ∀ sighting ∈ quiet, sighting.keys = [] := by
  induction fuel generalizing attempts diagnostic s with
  | zero => cases h
  | succ fuel ih =>
    obtain ⟨elapsed, t₁, helapsed, h⟩ := bind_ok h
    have hfirst := ask_sees helapsed
    by_cases htime : discoveryBudget - elapsed < 2000
    · rw [if_pos htime] at h
      cases h
    · rw [if_neg htime] at h
      obtain ⟨result, t₂, hlook, h⟩ := bind_ok h
      obtain ⟨output, houtput, h⟩ := answered_bind_ok h
      rcases look_sees hlook with ⟨error, herror, _⟩ | ⟨output', hsame, hsees⟩
      · rw [houtput] at herror
        cases herror
      · rw [houtput] at hsame
        cases hsame
        by_cases hkeys : parseKeyLines output.stdout ≠ []
        · rw [if_pos hkeys] at h
          cases h
          exact ⟨[], hfirst.trans hsees, nofun⟩
        · rw [if_neg hkeys] at h
          obtain ⟨_, t₃, hpause, h⟩ := bind_ok h
          obtain ⟨quiet, hnew, hquiet⟩ := ih h
          refine ⟨⟨.scan, parseKeyLines output.stdout⟩ :: quiet,
            hfirst.trans (hsees.trans ((pauseScan_sees hpause).trans hnew)), ?_⟩
          intro sighting hmem
          rcases List.mem_cons.mp hmem with hmem | hmem
          · rw [hmem]
            exact Classical.not_not.mp hkeys
          · exact hquiet sighting hmem

theorem firstShown_ok (hmatches : Matches runner verifier host port matching)
    {known : List KeyLine} {recorded : List KnownKey} {scanned : List KeyLine} {s t : Session}
    (h : firstShown runner verifier host port s = .ok ((known, recorded, scanned), t)) :
    (∃ quiet, s.Sees t (quiet ++ [⟨.scan, scanned⟩]) ∧ ∀ sighting ∈ quiet, sighting.keys = []) ∧ scanned ≠ [] ∧
      known.map (·.presented) = verifier.knownHosts.flatMap (pinnedIn matching) ∧
      recorded.map (fun entry => (entry.file, entry.key)) =
        verifier.knownHosts.flatMap fun path => (pinnedIn matching path).map fun key => (path, key) := by
  obtain ⟨⟨known', recorded'⟩, t₁, hrecorded, h⟩ := bind_ok h
  obtain ⟨requested, _, h⟩ := answered_bind_ok h
  obtain ⟨⟨scanHost, scanPort⟩, t₂, hroute, h⟩ := bind_ok h
  obtain ⟨began, t₃, hbegan, h⟩ := bind_ok h
  obtain ⟨scanned', t₄, hscanned, h⟩ := bind_ok h
  cases h
  obtain ⟨hbefore, _⟩ := recordedKeys_ok hrecorded
  obtain ⟨quiet, hsees, hquiet⟩ := discover_quiet hscanned
  have hall := hbefore.trans ((scanEndpoint_sees hroute).trans ((ask_sees hbegan).trans hsees))
  exact ⟨⟨quiet, hall, hquiet⟩, discover_ne_nil hscanned, recordedKeys_pinned hmatches (fun _ => id) hrecorded⟩

theorem matching_eq_nil {known scanned : List KeyLine} :
    scanned.filter (fun candidate => known.any (·.sameKey candidate)) = [] ↔
      ∀ key ∈ scanned, key.presented ∉ known.map (·.presented) := by
  rw [List.filter_eq_nil_iff]
  refine forall₂_congr fun key _ => not_congr ?_
  rw [List.any_eq_true, List.mem_map]
  exact exists_congr fun other => and_congr_right fun _ => sameKey_iff

theorem judge_ok {known : List KeyLine} {recorded : List KnownKey} {scanned : List KeyLine}
    {preflight : HostKeyPreflight} {s t : Session}
    (h : judge runner verifier host port known recorded scanned s = .ok (preflight, t)) :
    (∃ later, s.Sees t later ∧ ∀ sighting ∈ later, sighting.probe = .direct) ∧
      (known ≠ [] → ∃ key ∈ scanned, key.presented ∈ known.map (·.presented)) ∧
      preflight.status = (if known = [] then .unknown else .known) ∧
      ∀ key, key ∈ preflight.identity.keys ↔ key ∈ scanned.map (·.presented) ∧
        (known = [] ∨ key ∈ known.map (·.presented)) := by
  obtain ⟨warnings, t₁, hwarnings, h⟩ := bind_ok h
  dsimp only at h
  obtain ⟨later, hlater, htunnels⟩ := tunnelWarnings_sees hwarnings
  have hmatch : ¬ (known ≠ [] ∧ scanned.filter (fun candidate => known.any (·.sameKey candidate)) = []) := by
    intro hchanged
    rw [if_pos hchanged] at h
    cases h
  rw [if_neg hmatch] at h
  obtain ⟨names, t₂, hnames, h⟩ := bind_ok h
  cases h
  have hsees := hlater.trans (aliases_sees hnames)
  rw [List.append_nil] at hsees
  refine ⟨⟨later, hsees, fun sighting hmem => (htunnels sighting hmem).1⟩, ?_, rfl, ?_⟩
  · intro hknown
    by_contra hnone
    apply hmatch
    refine ⟨hknown, matching_eq_nil.mpr fun key hkey hpinned => ?_⟩
    exact hnone ⟨key, hkey, hpinned⟩
  · intro key
    show key ∈ (sortKeys _).map (·.presented) ↔ _
    rw [mem_sortKeys]
    by_cases hknown : known = []
    · rw [if_pos hknown]
      simp [hknown]
    · rw [if_neg hknown, or_iff_right hknown]
      constructor
      · intro hkey
        obtain ⟨line, hline, hshown⟩ := List.mem_map.mp hkey
        obtain ⟨hscanned, hany⟩ := List.mem_filter.mp hline
        obtain ⟨entry, hentry, hsame⟩ := List.any_eq_true.mp hany
        rw [← hshown]
        exact ⟨List.mem_map_of_mem hscanned, List.mem_map.mpr ⟨entry, hentry, sameKey_iff.mp hsame⟩⟩
      · intro hkey
        obtain ⟨line, hline, hshown⟩ := List.mem_map.mp hkey.1
        obtain ⟨entry, hentry, hpinned⟩ := List.mem_map.mp hkey.2
        have hsame : entry.sameKey line = true := sameKey_iff.mpr (hpinned.trans hshown.symm)
        rw [← hshown]
        exact List.mem_map_of_mem (List.mem_filter.mpr ⟨hline, List.any_eq_true.mpr ⟨entry, hentry, hsame⟩⟩)

/-- A scan without a pinned key is refused, by the comparison with the direct probes or as a change. -/
theorem judge_changed {known : List KeyLine} {recorded : List KnownKey} {scanned : List KeyLine} {s : Session}
    (hknown : known ≠ []) (hother : ∀ key ∈ scanned, key.presented ∉ known.map (·.presented)) :
    judge runner verifier host port known recorded scanned s =
        .error (.changed host port recorded ((sortKeys scanned).map (·.presented))) ∨
      verifier.routed = true ∧ ∃ error, compareDirect runner verifier host port scanned s = .error error ∧
        judge runner verifier host port known recorded scanned s = .error error := by
  have hchanged := And.intro hknown (matching_eq_nil.mpr hother)
  cases hwarnings : tunnelWarnings runner verifier host port scanned s with
  | ok result =>
    left
    obtain ⟨warnings, t⟩ := result
    unfold judge
    rw [bind_of_ok hwarnings]
    dsimp only
    rw [if_pos hchanged]
    rfl
  | error error =>
    right
    have hrouted : verifier.routed = true := by
      by_contra hrouted
      rw [tunnelWarnings, if_neg hrouted] at hwarnings
      cases hwarnings
    have hdirect := hwarnings
    rw [tunnelWarnings, if_pos hrouted] at hdirect
    refine ⟨hrouted, error, hdirect, ?_⟩
    unfold judge
    show (tunnelWarnings runner verifier host port scanned s >>= _) = _
    rw [hwarnings]
    rfl

end

/-- A host that a file pins keys for is Known or refused. -/
theorem pinned_host_not_rekeyed (runner : Runner) (verifier : HostKeyVerifier) (host : String) (port : Nat)
    (matching : String → List (List Char)) (hmatches : Matches runner verifier host port matching) :
    (∀ preflight s t, preflightSelected runner verifier host port none s = .ok (preflight, t) →
      (∃ path ∈ verifier.knownHosts, pinnedIn matching path ≠ []) →
      preflight.status = .known ∧ preflight.identity.keys ≠ [] ∧
      ∃ quiet deciding later, t.log = s.log ++ quiet ++ [⟨.scan, deciding⟩] ++ later ∧
        (∀ sighting ∈ quiet, sighting.keys = []) ∧ (∀ sighting ∈ later, sighting.probe = .direct) ∧
        ∀ key ∈ preflight.identity.keys, (∃ path ∈ verifier.knownHosts, key ∈ pinnedIn matching path) ∧
          key ∈ deciding.map (·.presented)) ∧
    (∀ known recorded scanned s t,
      firstShown runner verifier host port s = .ok ((known, recorded, scanned), t) →
      (∃ quiet, t.log = s.log ++ quiet ++ [⟨.scan, scanned⟩] ∧ ∀ sighting ∈ quiet, sighting.keys = []) ∧
      ((∃ path ∈ verifier.knownHosts, pinnedIn matching path ≠ []) →
        (∀ path ∈ verifier.knownHosts, ∀ key ∈ pinnedIn matching path, key ∉ scanned.map (·.presented)) →
        (∃ expected offered, preflightSelected runner verifier host port none s =
            .error (.changed host port expected offered) ∧
          (∀ path key, (path, key) ∈ expected.map (fun entry => (entry.file, entry.key)) ↔
            path ∈ verifier.knownHosts ∧ key ∈ pinnedIn matching path) ∧
          ∀ key, key ∈ offered ↔ key ∈ scanned.map (·.presented)) ∨
        verifier.routed = true ∧ ∃ error, compareDirect runner verifier host port scanned t = .error error ∧
          preflightSelected runner verifier host port none s = .error error)) ∧
    ∀ preflight s t, preflightSelected runner verifier host port none s = .ok (preflight, t) →
      preflight.status = .unknown → ∀ path ∈ verifier.knownHosts, pinnedIn matching path = [] := by
  have hpins {known : List KeyLine}
      (hknown : known.map (·.presented) = verifier.knownHosts.flatMap (pinnedIn matching)) (key : PresentedKey) :
      key ∈ known.map (·.presented) ↔ ∃ path ∈ verifier.knownHosts, key ∈ pinnedIn matching path := by
    rw [hknown, List.mem_flatMap]
  have hempty {known : List KeyLine}
      (hknown : known.map (·.presented) = verifier.knownHosts.flatMap (pinnedIn matching)) :
      known = [] ↔ ∀ path ∈ verifier.knownHosts, pinnedIn matching path = [] := by
    rw [← List.map_eq_nil_iff (f := KeyLine.presented), hknown, List.flatMap_eq_nil_iff]
  refine ⟨?_, ?_, ?_⟩
  · intro preflight s t h hpinned
    rw [preflightSelected_eq] at h
    obtain ⟨⟨known, recorded, scanned⟩, t₁, hfirst, h⟩ := bind_ok h
    obtain ⟨⟨quiet, hquiet, hnone⟩, _, hknown, _⟩ := firstShown_ok hmatches hfirst
    obtain ⟨⟨later, hlater, hdirect⟩, hmatch, hstatus, hkeys⟩ := judge_ok h
    have hsome : known ≠ [] := by
      intro hnil
      obtain ⟨path, hpath, hne⟩ := hpinned
      exact hne ((hempty hknown).mp hnil path hpath)
    rw [if_neg hsome] at hstatus
    refine ⟨hstatus, ?_, quiet, scanned, later, ?_, hnone, hdirect, ?_⟩
    · obtain ⟨key, hkey, hin⟩ := hmatch hsome
      exact List.ne_nil_of_mem ((hkeys _).mpr ⟨List.mem_map_of_mem hkey, Or.inr hin⟩)
    · rw [hlater.log, hquiet.log]
      simp only [List.append_assoc]
    · intro key hkey
      obtain ⟨hshown, hnil | hin⟩ := (hkeys key).mp hkey
      · exact absurd hnil hsome
      · exact ⟨(hpins hknown key).mp hin, hshown⟩
  · intro known recorded scanned s t hfirst
    obtain ⟨⟨quiet, hquiet, hnone⟩, _, hknown, hrecorded⟩ := firstShown_ok hmatches hfirst
    refine ⟨⟨quiet, by rw [hquiet.log, List.append_assoc], hnone⟩, ?_⟩
    intro hpinned hother
    have hsome : known ≠ [] := by
      intro hnil
      obtain ⟨path, hpath, hne⟩ := hpinned
      exact hne ((hempty hknown).mp hnil path hpath)
    have hunknown : ∀ key ∈ scanned, key.presented ∉ known.map (·.presented) := by
      intro key hkey hin
      obtain ⟨path, hpath, hmem⟩ := (hpins hknown _).mp hin
      exact hother path hpath _ hmem (List.mem_map_of_mem hkey)
    rw [preflightSelected_eq, bind_of_ok hfirst]
    have hchanged := @judge_changed runner verifier host port known recorded scanned t hsome hunknown
    rcases hchanged with hjudge | ⟨hrouted, error, hdirect, hjudge⟩
    · left
      refine ⟨recorded, _, hjudge, ?_, fun key => mem_sortKeys⟩
      intro path key
      rw [hrecorded, List.mem_flatMap]
      constructor
      · intro hmem
        obtain ⟨path', hpath, hmem⟩ := hmem
        obtain ⟨key', hkey, hpair⟩ := List.mem_map.mp hmem
        cases hpair
        exact ⟨hpath, hkey⟩
      · intro hmem
        exact ⟨path, hmem.1, List.mem_map_of_mem hmem.2⟩
    · exact Or.inr ⟨hrouted, error, hdirect, hjudge⟩
  · intro preflight s t h hstatus
    rw [preflightSelected_eq] at h
    obtain ⟨⟨known, recorded, scanned⟩, t₁, hfirst, h⟩ := bind_ok h
    obtain ⟨_, _, hknown, _⟩ := firstShown_ok hmatches hfirst
    obtain ⟨_, _, hsame, _⟩ := judge_ok h
    apply (hempty hknown).mp
    by_contra hsome
    rw [if_neg hsome, hstatus] at hsame
    cases hsame

/-- A host with one pinned key that is scanned through a tunnel and probed beside it. -/
def pinnedHost (scan direct : String) : Runner where
  run _ _ _ := .ok ⟨true, "# Host web found: line 1 \nweb ssh-ed25519 A\n".toList, ""⟩
  runBounded _ _ arguments _ :=
    .ok ⟨true, if arguments.head? = some "-4" then direct.toList else scan.toList, ""⟩
  resolve _ _ _ := none
  elapsed _ _ := 0
  fileExists _ _ := true
  readFile _ _ := .ok none
  endpoint _ _ _ := .ok ("localhost", 4022)
  fingerprint encoded := encoded

def onePin : String → List (List Char) := fun _ => ["web ssh-ed25519 A".toList]

theorem pinnedHost_matches (scan direct : String) (routed : Bool) :
    Matches (pinnedHost scan direct) ⟨["known_hosts"], "ssh-keyscan", "ssh-keygen", routed⟩ "web" 22 onePin where
  absent _ _ _ h := by cases h
  printed now path _ output h := by
    cases h
    show _ = ["web ssh-ed25519 A".toList] ∧ (true = true ↔ ["web ssh-ed25519 A".toList] ≠ [])
    decide

theorem pinned_host_known :
    ∃ preflight t, preflightSelected (pinnedHost "web ssh-ed25519 A\nweb ssh-rsa B\n" "")
        ⟨["known_hosts"], "ssh-keyscan", "ssh-keygen", false⟩ "web" 22 none ⟨0, []⟩ = .ok (preflight, t) ∧
      preflight.status = .known ∧ preflight.identity.keys ≠ [] := by
  refine ⟨_, _, rfl, ?_⟩
  have hpinned := (pinned_host_not_rekeyed _ _ _ _ _
    (pinnedHost_matches "web ssh-ed25519 A\nweb ssh-rsa B\n" "" false)).1 _ ⟨0, []⟩ _ rfl
    ⟨"known_hosts", List.mem_cons_self, by decide⟩
  exact ⟨hpinned.1, hpinned.2.1⟩

/-- The changed key is scanned, and a direct probe shows a third one: the routes are compared first. -/
theorem route_compared_before_change :
    let runner := pinnedHost "web ssh-ed25519 B\n" "web ssh-ed25519 C\n"
    let verifier : HostKeyVerifier := ⟨["known_hosts"], "ssh-keyscan", "ssh-keygen", true⟩
    (∃ known recorded t, firstShown runner verifier "web" 22 ⟨0, []⟩ =
        .ok ((known, recorded, [⟨"web", "ssh-ed25519", "B"⟩]), t)) ∧
      pinnedIn onePin "known_hosts" = [⟨"ssh-ed25519", "A"⟩] ∧
      ∀ expected offered, preflightSelected runner verifier "web" 22 none ⟨0, []⟩ ≠
        .error (.changed "web" 22 expected offered) := by
  refine ⟨⟨_, _, _, rfl⟩, by decide, ?_⟩
  intro expected offered h
  cases h

end NixSecrets.HostKey
