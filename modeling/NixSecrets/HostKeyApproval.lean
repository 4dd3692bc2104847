import NixSecrets.HostKeys

namespace NixSecrets.HostKey

/-- The run went on and saw these. -/
structure Session.Sees (s s' : Session) (new : List Sighting) : Prop where
  log : s'.log = s.log ++ new

theorem Session.Sees.refl (s : Session) : s.Sees s [] := ⟨(List.append_nil _).symm⟩

theorem Session.Sees.trans {s t u : Session} {new new' : List Sighting} (h : s.Sees t new) (h' : t.Sees u new') :
    s.Sees u (new ++ new') := ⟨by rw [h'.log, h.log, List.append_assoc]⟩

theorem bind_ok {α β : Type} {x : Run α} {f : α → Run β} {s : Session} {r : β × Session}
    (h : (x >>= f) s = .ok r) : ∃ a t, x s = .ok (a, t) ∧ f a t = .ok r := by
  have h : (x s >>= fun p => f p.1 p.2) = .ok r := h
  cases hx : x s with
  | error e => rw [hx] at h; cases h
  | ok p =>
    rw [hx] at h
    exact ⟨p.1, p.2, rfl, h⟩

theorem ask_sees {α : Type} {answer : Nat → α} {s t : Session} {a : α} (h : ask answer s = .ok (a, t)) :
    s.Sees t [] := by
  cases h
  exact ⟨(List.append_nil _).symm⟩

theorem pauseIf_sees {c : Prop} [Decidable c] {s t : Session} {u : Unit} (h : pauseIf c s = .ok (u, t)) :
    s.Sees t [] := by
  unfold pauseIf at h
  split at h
  next => exact ask_sees h
  next =>
    cases h
    exact Session.Sees.refl _

theorem answered_bind_ok {α β : Type} {x : Except HostKeyError α} {f : α → Run β} {s : Session}
    {r : β × Session} (h : (answered x >>= f) s = .ok r) : ∃ a, x = .ok a ∧ f a s = .ok r := by
  cases x with
  | error e => cases h
  | ok a => exact ⟨a, rfl, h⟩

theorem look_sees {probe : Probe} {answer : Nat → Except HostKeyError Output} {s t : Session}
    {result : Except HostKeyError Output} (h : look probe answer s = .ok (result, t)) :
    (∃ error, result = .error error ∧ s.Sees t []) ∨
      ∃ output, result = .ok output ∧ s.Sees t [⟨probe, parseKeyLines output.stdout⟩] := by
  unfold look at h
  split at h
  next error _ =>
    cases h
    exact Or.inl ⟨error, rfl, ⟨(List.append_nil _).symm⟩⟩
  next output _ =>
    cases h
    exact Or.inr ⟨output, rfl, ⟨rfl⟩⟩

theorem sameKey_iff {key other : KeyLine} : key.sameKey other = true ↔ key.presented = other.presented := by
  simp [KeyLine.sameKey, KeyLine.presented]

theorem mem_dedupAfter {key : KeyLine} {keys : List KeyLine} {shown : PresentedKey} :
    shown ∈ (dedupAfter key keys).map (·.presented) ↔ shown ∈ (key :: keys).map (·.presented) := by
  induction keys generalizing key with
  | nil => rfl
  | cons next keys ih =>
    rw [dedupAfter]
    by_cases hsame : next.sameKey key = true
    · have hshown := sameKey_iff.mp hsame
      rw [if_pos hsame, ih]
      simp [hshown]
    · rw [if_neg hsame, List.map_cons, List.mem_cons, ih]
      simp

/-- Sorting loses no key and adds none. -/
theorem mem_sortKeys {keys : List KeyLine} {shown : PresentedKey} :
    shown ∈ (sortKeys keys).map (·.presented) ↔ shown ∈ keys.map (·.presented) := by
  have hperm := (List.perm_insertionSort KeyLine.before keys).map KeyLine.presented
  rw [← hperm.mem_iff, sortKeys]
  cases keys.insertionSort KeyLine.before with
  | nil => rfl
  | cons key keys => exact mem_dedupAfter

section

variable {runner : Runner} {verifier : HostKeyVerifier}

/-- What `ssh-keygen -F` prints about the host, file by file. -/
def foundTexts (runner : Runner) (verifier : HostKeyVerifier) (lookup : String) :
    Nat → List String → List (List Char)
  | _, [] => []
  | now, path :: paths =>
    if runner.fileExists now path then
      (match runner.run (now + 1) verifier.sshKeygen ["-F", lookup, "-f", path] with
        | .ok output => if output.success then [output.stdout] else []
        | .error _ => []) ++ foundTexts runner verifier lookup (now + 2) paths
    else foundTexts runner verifier lookup (now + 1) paths

/-- The known keys are those of the lines that are found without a marker. -/
theorem recordedKeys_ok {lookup : String} {paths : List String} {s t : Session}
    {r : List KeyLine × List KnownKey} (h : recordedKeys runner verifier lookup paths s = .ok (r, t)) :
    s.Sees t [] ∧ r.1 = (foundTexts runner verifier lookup s.now paths).flatMap parseKeyLines := by
  induction paths generalizing s t r with
  | nil =>
    cases h
    exact ⟨Session.Sees.refl _, rfl⟩
  | cons path paths ih =>
    obtain ⟨present, t₁, hask, h⟩ := bind_ok h
    have hfirst := ask_sees hask
    cases hask
    rw [foundTexts]
    by_cases hpresent : runner.fileExists s.now path = true
    · rw [if_pos hpresent] at h
      obtain ⟨result, t₂, hrun, h⟩ := bind_ok h
      have hsecond := ask_sees hrun
      cases hrun
      obtain ⟨output, houtput, h⟩ := answered_bind_ok h
      obtain ⟨⟨known, recorded⟩, t₄, hrest, h⟩ := bind_ok h
      dsimp only at h
      obtain ⟨hlater, hknown⟩ := ih hrest
      have hall := hfirst.trans (hsecond.trans hlater)
      have houtput : runner.run (s.now + 1) verifier.sshKeygen ["-F", lookup, "-f", path] = .ok output :=
        houtput
      rw [if_pos hpresent, houtput]
      dsimp only at hknown ⊢
      by_cases hsuccess : output.success = true
      · rw [if_pos hsuccess] at h
        cases h
        rw [if_pos hsuccess, List.singleton_append, List.flatMap_cons, ← hknown]
        exact ⟨hall, rfl⟩
      · rw [if_neg hsuccess] at h
        cases h
        rw [if_neg hsuccess]
        exact ⟨hall, hknown⟩
    · rw [if_neg hpresent] at h
      obtain ⟨hlater, hknown⟩ := ih h
      rw [if_neg hpresent]
      exact ⟨hfirst.trans hlater, hknown⟩

theorem aliases_sees {keys : List KeyLine} {paths : List String} {s t : Session} {names : List String}
    (h : aliases runner keys paths s = .ok (names, t)) : s.Sees t [] := by
  induction paths generalizing s t names with
  | nil =>
    cases h
    exact Session.Sees.refl _
  | cons path paths ih =>
    obtain ⟨result, t₁, hread, h⟩ := bind_ok h
    obtain ⟨contents, _, h⟩ := answered_bind_ok h
    obtain ⟨rest, t₃, hrest, h⟩ := bind_ok h
    cases h
    exact (ask_sees hread).trans (ih hrest)

/-- Every direct probe so far showed only keys that came through the tunnel, and these are kept. -/
structure Probed (tunneled : List KeyLine) (probes probes' : Probes) (new : List Sighting) : Prop where
  tunnels : ∀ sighting ∈ new, sighting.probe = .direct ∧
    ∀ key ∈ sighting.keys, key.presented ∈ tunneled.map (·.presented)
  seen : ∀ key ∈ probes'.direct, key ∈ probes.direct ∨ ∃ sighting ∈ new, key ∈ sighting.keys

theorem Probed.refl (tunneled : List KeyLine) (probes : Probes) : Probed tunneled probes probes [] :=
  ⟨nofun, fun _ hkey => Or.inl hkey⟩

theorem Probed.trans {tunneled : List KeyLine} {probes probes' probes'' : Probes} {new new' : List Sighting}
    (h : Probed tunneled probes probes' new) (h' : Probed tunneled probes' probes'' new') :
    Probed tunneled probes probes'' (new ++ new') := by
  constructor
  · intro sighting hmem
    rcases List.mem_append.mp hmem with hmem | hmem
    · exact h.tunnels sighting hmem
    · exact h'.tunnels sighting hmem
  · intro key hkey
    rcases h'.seen key hkey with hkey | ⟨sighting, hmem, hkey⟩
    · rcases h.seen key hkey with hkey | ⟨sighting, hmem, hkey⟩
      · exact Or.inl hkey
      · exact Or.inr ⟨sighting, List.mem_append_left _ hmem, hkey⟩
    · exact Or.inr ⟨sighting, List.mem_append_right _ hmem, hkey⟩

variable {host : String} {port : Nat} {tunneled : List KeyLine} {started total : Nat}

/-- One probe that is not refused showed no key from beside the tunnel. -/
theorem Probed.step {probes : Probes} {index : Nat} {output : Output}
    (h : (parseKeyLines output.stdout).find? (fun key => !tunneled.any (·.sameKey key)) = none) :
    Probed tunneled probes (if parseKeyLines output.stdout = [] then probes else
        ⟨index :: probes.observed, probes.direct ++ parseKeyLines output.stdout,
          probes.completeOutput || output.success⟩)
      [⟨.direct, parseKeyLines output.stdout⟩] := by
  constructor
  · intro sighting hmem
    rw [List.mem_singleton.mp hmem]
    refine ⟨rfl, fun key hkey => ?_⟩
    have hfound := List.find?_eq_none.mp h key hkey
    simp only [Bool.not_eq_true', Bool.not_eq_false] at hfound
    obtain ⟨other, hother, hsame⟩ := List.any_eq_true.mp hfound
    exact List.mem_map.mpr ⟨other, hother, sameKey_iff.mp hsame⟩
  · intro key hkey
    split at hkey
    next => exact Or.inl hkey
    next =>
      rcases List.mem_append.mp hkey with hkey | hkey
      · exact Or.inl hkey
      · exact Or.inr ⟨_, List.mem_cons_self, hkey⟩

theorem probeTargets_probed {types : String} {perProbe : Nat} {probes probes' : Probes}
    {targets : List (Nat × String × String)} {s t : Session}
    (h : probeTargets runner verifier host port tunneled started total types perProbe probes targets s =
      .ok (probes', t)) : ∃ new, s.Sees t new ∧ Probed tunneled probes probes' new := by
  induction targets generalizing probes s with
  | nil =>
    cases h
    exact ⟨[], Session.Sees.refl _, Probed.refl _ _⟩
  | cons entry targets ih =>
    obtain ⟨index, family, target⟩ := entry
    rw [probeTargets] at h
    by_cases hobserved : index ∈ probes.observed
    · rw [if_pos hobserved] at h
      exact ih h
    · rw [if_neg hobserved] at h
      obtain ⟨elapsed, t₁, helapsed, h⟩ := bind_ok h
      have hfirst := ask_sees helapsed
      by_cases htime : total - elapsed = 0
      · rw [if_pos htime] at h
        cases h
        exact ⟨[], hfirst, Probed.refl _ _⟩
      · rw [if_neg htime] at h
        obtain ⟨result, t₂, hlook, h⟩ := bind_ok h
        rcases look_sees hlook with ⟨error, rfl, hsees⟩ | ⟨output, rfl, hsees⟩
        · obtain ⟨new, hnew, hprobed⟩ := ih h
          exact ⟨new, hfirst.trans (hsees.trans hnew), hprobed⟩
        · cases hfind : (parseKeyLines output.stdout).find? fun key => !tunneled.any (·.sameKey key) with
          | some key =>
            simp only [hfind] at h
            cases h
          | none =>
            simp only [hfind] at h
            obtain ⟨new, hnew, hprobed⟩ := ih h
            exact ⟨_, hfirst.trans (hsees.trans hnew), (Probed.step hfind).trans hprobed⟩

theorem probeRounds_probed {probes probes' : Probes} {targets : List (Nat × String × String)}
    {rounds : List (String × Nat)} {s t : Session}
    (h : probeRounds runner verifier host port tunneled started total targets probes rounds s =
      .ok (probes', t)) : ∃ new, s.Sees t new ∧ Probed tunneled probes probes' new := by
  induction rounds generalizing probes s with
  | nil =>
    cases h
    exact ⟨[], Session.Sees.refl _, Probed.refl _ _⟩
  | cons round rounds ih =>
    obtain ⟨probes₁, t₁, hround, h⟩ := bind_ok h
    obtain ⟨new, hnew, hprobed⟩ := probeTargets_probed hround
    obtain ⟨new', hnew', hprobed'⟩ := ih h
    exact ⟨new ++ new', hnew.trans hnew', hprobed.trans hprobed'⟩

/-- Direct probes that are not refused showed only keys of the tunnel; without a warning, all of them. -/
theorem compareDirect_ok {warnings : List String} {s t : Session}
    (h : compareDirect runner verifier host port tunneled s = .ok (warnings, t)) :
    ∃ new, s.Sees t new ∧
      (∀ sighting ∈ new, sighting.probe = .direct ∧
        ∀ key ∈ sighting.keys, key.presented ∈ tunneled.map (·.presented)) ∧
      (warnings = [] → ∀ key ∈ tunneled, ∃ sighting ∈ new,
        key.presented ∈ sighting.keys.map (·.presented)) := by
  obtain ⟨selected, _, h⟩ := answered_bind_ok h
  obtain ⟨began, t₁, hbegan, h⟩ := bind_ok h
  obtain ⟨resolved, t₂, hresolved, h⟩ := bind_ok h
  obtain ⟨probes, t₃, hprobes, h⟩ := bind_ok h
  obtain ⟨new, hnew, hprobed⟩ := probeRounds_probed hprobes
  have hsees := (ask_sees hbegan).trans ((ask_sees hresolved).trans hnew)
  have hend : t₃ = t ∧ (warnings = [] → tunneled.all (fun key => probes.direct.any (·.sameKey key)) = true) := by
    by_cases hempty : probes.direct = []
    · rw [if_pos hempty] at h
      cases h
      exact ⟨rfl, nofun⟩
    · rw [if_neg hempty] at h
      by_cases hcomplete : (probes.completeOutput &&
          tunneled.all fun key => probes.direct.any (·.sameKey key)) = true
      · rw [if_pos hcomplete] at h
        cases h
        exact ⟨rfl, fun _ => (Bool.and_eq_true_iff.mp hcomplete).2⟩
      · rw [if_neg hcomplete] at h
        cases h
        exact ⟨rfl, nofun⟩
  rw [hend.1] at hsees
  refine ⟨new, hsees, hprobed.tunnels, ?_⟩
  intro hwarnings key hkey
  have hdirect := List.all_eq_true.mp (hend.2 hwarnings) key hkey
  obtain ⟨other, hother, hsame⟩ := List.any_eq_true.mp hdirect
  rcases hprobed.seen other hother with hnone | ⟨sighting, hmem, hseen⟩
  · cases hnone
  · exact ⟨sighting, hmem, List.mem_map.mpr ⟨other, hseen, sameKey_iff.mp hsame⟩⟩

theorem pauseScan_sees {began attempts : Nat} {s t : Session} {u : Unit}
    (h : pauseScan runner began attempts s = .ok (u, t)) : s.Sees t [] := by
  unfold pauseScan at h
  split at h
  next =>
    obtain ⟨elapsed, t₁, helapsed, h⟩ := bind_ok h
    exact (ask_sees helapsed).trans (pauseIf_sees h)
  next =>
    cases h
    exact Session.Sees.refl _

/-- Only the last scan showed keys, and it showed these. -/
theorem discover_ok {requested : List String} {scanHost : String} {scanPort began fuel attempts : Nat}
    {diagnostic : String} {scanned : List KeyLine} {s t : Session}
    (h : discover runner verifier requested scanHost scanPort began fuel attempts diagnostic s =
      .ok (scanned, t)) :
    ∃ new, s.Sees t new ∧ ⟨.scan, scanned⟩ ∈ new ∧
      ∀ sighting ∈ new, sighting.keys = [] ∨ sighting.keys = scanned := by
  induction fuel generalizing attempts diagnostic s with
  | zero => cases h
  | succ fuel ih =>
    obtain ⟨elapsed, t₁, helapsed, h⟩ := bind_ok h
    have hfirst := ask_sees helapsed
    by_cases htime : discoveryBudget - elapsed < 2000
    · rw [if_pos htime] at h
      cases h
    · rw [if_neg htime] at h
      obtain ⟨result, t₂, hlook, h⟩ := bind_ok h
      obtain ⟨output, houtput, h⟩ := answered_bind_ok h
      rcases look_sees hlook with ⟨error, herror, _⟩ | ⟨output', hsame, hsees⟩
      · rw [houtput] at herror
        cases herror
      · rw [houtput] at hsame
        cases hsame
        by_cases hkeys : parseKeyLines output.stdout ≠ []
        · rw [if_pos hkeys] at h
          cases h
          refine ⟨_, hfirst.trans hsees, List.mem_cons_self, ?_⟩
          intro sighting hmem
          rw [List.mem_singleton.mp hmem]
          exact Or.inr rfl
        · rw [if_neg hkeys] at h
          obtain ⟨_, t₃, hpause, h⟩ := bind_ok h
          obtain ⟨new, hnew, hscan, hkept⟩ := ih h
          refine ⟨_, hfirst.trans (hsees.trans ((pauseScan_sees hpause).trans hnew)), ?_, ?_⟩
          · exact List.mem_cons_of_mem _ hscan
          · intro sighting hmem
            rcases List.mem_cons.mp hmem with rfl | hmem
            · exact Or.inl (Classical.not_not.mp hkeys)
            · exact hkept sighting hmem

theorem discover_ne_nil {requested : List String} {scanHost : String} {scanPort began fuel attempts : Nat}
    {diagnostic : String} {scanned : List KeyLine} {s t : Session}
    (h : discover runner verifier requested scanHost scanPort began fuel attempts diagnostic s =
      .ok (scanned, t)) : scanned ≠ [] := by
  induction fuel generalizing attempts diagnostic s with
  | zero => cases h
  | succ fuel ih =>
    obtain ⟨elapsed, t₁, _, h⟩ := bind_ok h
    by_cases htime : discoveryBudget - elapsed < 2000
    · rw [if_pos htime] at h
      cases h
    · rw [if_neg htime] at h
      obtain ⟨result, t₂, _, h⟩ := bind_ok h
      obtain ⟨output, _, h⟩ := answered_bind_ok h
      by_cases hkeys : parseKeyLines output.stdout ≠ []
      · rw [if_pos hkeys] at h
        cases h
        exact hkeys
      · rw [if_neg hkeys] at h
        obtain ⟨_, t₃, _, h⟩ := bind_ok h
        exact ih h

theorem scanEndpoint_sees {endpoint : String × Nat} {s t : Session}
    (h : scanEndpoint runner verifier host port s = .ok (endpoint, t)) : s.Sees t [] := by
  unfold scanEndpoint at h
  split at h
  next =>
    obtain ⟨result, t₁, hask, h⟩ := bind_ok h
    have hsees := ask_sees hask
    cases result with
    | error e => cases h
    | ok value =>
      cases h
      exact hsees
  next =>
    cases h
    exact Session.Sees.refl _

theorem tunnelWarnings_sees {scanned : List KeyLine} {warnings : List String} {s t : Session}
    (h : tunnelWarnings runner verifier host port scanned s = .ok (warnings, t)) :
    ∃ new, s.Sees t new ∧ ∀ sighting ∈ new, sighting.probe = .direct ∧
      ∀ key ∈ sighting.keys, key.presented ∈ scanned.map (·.presented) := by
  unfold tunnelWarnings at h
  split at h
  next =>
    obtain ⟨new, hnew, htunnels, _⟩ := compareDirect_ok h
    exact ⟨new, hnew, htunnels⟩
  next =>
    cases h
    exact ⟨[], Session.Sees.refl _, nofun⟩

def Sighting.shows (sighting : Sighting) : List PresentedKey := sighting.keys.map (·.presented)

/-- The sightings of one scan with these keys: no other scan showed a key, and no probe another key. -/
structure ScannedOnce (keys : List PresentedKey) (new : List Sighting) : Prop where
  shown : ∃ sighting ∈ new, sighting.probe = .scan ∧ ∀ key, key ∈ sighting.shows ↔ key ∈ keys
  scans : ∀ sighting ∈ new, sighting.probe = .scan →
    sighting.shows = [] ∨ ∀ key, key ∈ sighting.shows ↔ key ∈ keys
  inside : ∀ sighting ∈ new, ∀ key ∈ sighting.shows, key ∈ keys

/-- The keys that preflight finds recorded for the host, without a marker. -/
def knownKeys (runner : Runner) (verifier : HostKeyVerifier) (host : String) (port now : Nat) : List KeyLine :=
  (foundTexts runner verifier (lookupName host port) now verifier.knownHosts).flatMap parseKeyLines

/-- What a preflight saw and what it accepts of it. -/
structure Accepts (known scanned : List KeyLine) (approved : Option (List PresentedKey))
    (new : List Sighting) (identity : HostIdentity) : Prop where
  shown : scanned ≠ []
  scan : ⟨.scan, scanned⟩ ∈ new
  scans : ∀ sighting ∈ new, sighting.probe = .scan → sighting.keys = [] ∨ sighting.keys = scanned
  direct : ∀ sighting ∈ new, ∀ key ∈ sighting.keys, key.presented ∈ scanned.map (·.presented)
  keys : ∀ key, key ∈ identity.keys ↔ key ∈ scanned.map (·.presented) ∧
    (known = [] ∨ approved.isSome ∨ key ∈ known.map (·.presented))

theorem preflightSelected_accepts {approved : Option (List PresentedKey)} {preflight : HostKeyPreflight}
    {s t : Session} (h : preflightSelected runner verifier host port approved s = .ok (preflight, t)) :
    ∃ scanned new, s.Sees t new ∧ preflight.identity.host = host ∧ preflight.identity.port = port ∧
      Accepts (knownKeys runner verifier host port s.now) scanned approved new preflight.identity := by
  obtain ⟨⟨known, recorded⟩, t₁, hrecorded, h⟩ := bind_ok h
  obtain ⟨requested, _, h⟩ := answered_bind_ok h
  obtain ⟨⟨scanHost, scanPort⟩, t₂, hroute, h⟩ := bind_ok h
  obtain ⟨began, t₃, hbegan, h⟩ := bind_ok h
  obtain ⟨scanned, t₄, hscanned, h⟩ := bind_ok h
  obtain ⟨warnings, t₅, hwarnings, h⟩ := bind_ok h
  dsimp only at h
  obtain ⟨hbefore, hknown⟩ := recordedKeys_ok hrecorded
  have hknown : known = knownKeys runner verifier host port s.now := hknown
  obtain ⟨earlier, hearlier, hscan, hkept⟩ := discover_ok hscanned
  obtain ⟨later, hlater, htunnels⟩ := tunnelWarnings_sees hwarnings
  have hmatch : ¬ (known ≠ [] ∧ scanned.filter (fun candidate => known.any (·.sameKey candidate)) = []) := by
    intro hchanged
    rw [if_pos hchanged] at h
    cases h
  rw [if_neg hmatch] at h
  obtain ⟨names, t₆, hnames, h⟩ := bind_ok h
  cases h
  have hsees := hbefore.trans ((scanEndpoint_sees hroute).trans ((ask_sees hbegan).trans
    (hearlier.trans (hlater.trans (aliases_sees hnames)))))
  rw [List.append_nil, List.nil_append, List.nil_append, List.nil_append] at hsees
  refine ⟨scanned, _, hsees, rfl, rfl, discover_ne_nil hscanned, List.mem_append_left _ hscan, ?_, ?_, ?_⟩
  · intro sighting hmem hprobe
    rcases List.mem_append.mp hmem with hmem | hmem
    · exact hkept sighting hmem
    · rw [(htunnels sighting hmem).1] at hprobe
      cases hprobe
  · intro sighting hmem key hkey
    rcases List.mem_append.mp hmem with hmem | hmem
    · rcases hkept sighting hmem with hnone | hall
      · rw [hnone] at hkey
        cases hkey
      · rw [hall] at hkey
        exact List.mem_map_of_mem hkey
    · exact (htunnels sighting hmem).2 key hkey
  · intro key
    show key ∈ (sortKeys _).map (·.presented) ↔ _
    rw [mem_sortKeys, ← hknown]
    by_cases hall : known = [] ∨ approved.isSome = true
    · rw [if_pos hall]
      constructor
      · intro hkey
        exact ⟨hkey, hall.imp_right Or.inl⟩
      · exact And.left
    · rw [if_neg hall]
      rw [not_or] at hall
      constructor
      · intro hkey
        obtain ⟨line, hline, rfl⟩ := List.mem_map.mp hkey
        obtain ⟨hscanned, hany⟩ := List.mem_filter.mp hline
        obtain ⟨entry, hentry, hsame⟩ := List.any_eq_true.mp hany
        refine ⟨List.mem_map_of_mem hscanned, Or.inr (Or.inr ?_)⟩
        exact List.mem_map.mpr ⟨entry, hentry, sameKey_iff.mp hsame⟩
      · rintro ⟨hkey, hnone | hsome | hentry⟩
        · exact absurd hnone hall.1
        · exact absurd hsome hall.2
        · obtain ⟨line, hline, rfl⟩ := List.mem_map.mp hkey
          obtain ⟨entry, hmem, heq⟩ := List.mem_map.mp hentry
          refine List.mem_map_of_mem (List.mem_filter.mpr ⟨hline, ?_⟩)
          exact List.any_eq_true.mpr ⟨entry, hmem, sameKey_iff.mpr heq⟩

theorem preflightSelected_ok {keys : List PresentedKey} {preflight : HostKeyPreflight} {s t : Session}
    (h : preflightSelected runner verifier host port (some keys) s = .ok (preflight, t)) :
    ∃ new, s.Sees t new ∧ ScannedOnce preflight.identity.keys new := by
  obtain ⟨scanned, new, hsees, _, _, haccepts⟩ := preflightSelected_accepts h
  have hidentity (key : PresentedKey) :
      key ∈ scanned.map (·.presented) ↔ key ∈ preflight.identity.keys := by
    rw [haccepts.keys]
    exact ⟨fun hkey => ⟨hkey, Or.inr (Or.inl rfl)⟩, And.left⟩
  refine ⟨new, hsees, ⟨_, haccepts.scan, rfl, hidentity⟩, ?_, ?_⟩
  · intro sighting hmem hprobe
    rcases haccepts.scans sighting hmem hprobe with hnone | hall
    · left
      rw [Sighting.shows, hnone, List.map_nil]
    · right
      rw [Sighting.shows, hall]
      exact hidentity
  · intro sighting hmem key hkey
    obtain ⟨line, hline, rfl⟩ := List.mem_map.mp hkey
    exact (hidentity _).mp (haccepts.direct sighting hmem line hline)

/-- Keys that were not approved were seen only in scans that showed all approved keys. -/
structure Approves (approved observed observed' : List PresentedKey) (new : List Sighting) : Prop where
  seen : ∀ key ∈ observed', key ∈ observed ∨ ∃ sighting ∈ new, sighting.probe = .scan ∧ key ∈ sighting.shows
  scans : ∀ sighting ∈ new, sighting.probe = .scan →
    (∀ key ∈ sighting.shows, key ∈ approved) ∨ ∀ key ∈ approved, key ∈ sighting.shows
  direct : ∀ sighting ∈ new, ∀ key ∈ sighting.shows, ∃ scan ∈ new, scan.probe = .scan ∧ key ∈ scan.shows

theorem Approves.trans {approved observed observed' observed'' : List PresentedKey} {new new' : List Sighting}
    (h : Approves approved observed observed' new) (h' : Approves approved observed' observed'' new') :
    Approves approved observed observed'' (new ++ new') := by
  constructor
  · intro key hkey
    rcases h'.seen key hkey with hkey | ⟨sighting, hmem, hseen⟩
    · rcases h.seen key hkey with hkey | ⟨sighting, hmem, hseen⟩
      · exact Or.inl hkey
      · exact Or.inr ⟨sighting, List.mem_append_left _ hmem, hseen⟩
    · exact Or.inr ⟨sighting, List.mem_append_right _ hmem, hseen⟩
  · intro sighting hmem
    rcases List.mem_append.mp hmem with hmem | hmem
    · exact h.scans sighting hmem
    · exact h'.scans sighting hmem
  · intro sighting hmem key hkey
    rcases List.mem_append.mp hmem with hmem | hmem
    · obtain ⟨scan, hscan, hshown⟩ := h.direct sighting hmem key hkey
      exact ⟨scan, List.mem_append_left _ hscan, hshown⟩
    · obtain ⟨scan, hscan, hshown⟩ := h'.direct sighting hmem key hkey
      exact ⟨scan, List.mem_append_right _ hscan, hshown⟩

theorem Approves.step {approved observed keys : List PresentedKey} {new : List Sighting}
    (h : ScannedOnce keys new)
    (hchanged : ¬ ((!approved.all (· ∈ keys)) && keys.any (· ∉ approved)) = true) :
    Approves approved observed (observed ++ keys.filter fun key => key ∈ approved ∧ key ∉ observed) new := by
  constructor
  · intro key hkey
    rcases List.mem_append.mp hkey with hkey | hkey
    · exact Or.inl hkey
    · obtain ⟨sighting, hmem, hprobe, hshows⟩ := h.shown
      exact Or.inr ⟨sighting, hmem, hprobe, (hshows key).mpr (List.mem_filter.mp hkey).1⟩
  · intro sighting hmem hprobe
    rcases h.scans sighting hmem hprobe with hnone | hshows
    · left
      rw [hnone]
      exact nofun
    · by_cases hcomplete : ∀ key ∈ approved, key ∈ keys
      · exact Or.inr fun key hkey => (hshows key).mpr (hcomplete key hkey)
      · left
        intro key hkey
        by_contra houtside
        apply hchanged
        have hmissing : approved.all (· ∈ keys) = false := by
          simpa using hcomplete
        have hextra : keys.any (· ∉ approved) = true :=
          List.any_eq_true.mpr ⟨key, (hshows key).mp hkey, decide_eq_true houtside⟩
        rw [hmissing, hextra]
        rfl
  · intro sighting hmem key hkey
    obtain ⟨scan, hscan, hprobe, hshows⟩ := h.shown
    exact ⟨scan, hscan, hprobe, (hshows key).mpr (h.inside sighting hmem key hkey)⟩

theorem approvedScans_ok {approved : HostIdentity} {fuel : Nat} {observed : List PresentedKey}
    {preflight : HostKeyPreflight} {s t : Session}
    (h : approvedScans runner verifier host port approved fuel observed s = .ok (preflight, t)) :
    preflight.identity = approved ∧ ∃ new observed', s.Sees t new ∧
      Approves approved.keys observed observed' new ∧ ∀ key ∈ approved.keys, key ∈ observed' := by
  induction fuel generalizing observed s with
  | zero => cases h
  | succ fuel ih =>
    obtain ⟨current, t₁, hcurrent, h⟩ := bind_ok h
    obtain ⟨new, hnew, honce⟩ := preflightSelected_ok hcurrent
    by_cases hchanged : ((!approved.keys.all (· ∈ current.identity.keys)) &&
        current.identity.keys.any (· ∉ approved.keys)) = true
    · rw [if_pos hchanged] at h
      cases h
    · rw [if_neg hchanged] at h
      have hstep := @Approves.step approved.keys observed _ _ honce hchanged
      split at h
      next hall =>
        cases h
        refine ⟨rfl, new, _, hnew, hstep, ?_⟩
        intro key hkey
        exact of_decide_eq_true (List.all_eq_true.mp hall key hkey)
      next =>
        obtain ⟨_, t₂, hpause, h⟩ := bind_ok h
        obtain ⟨hidentity, new', observed', hnew', happroves, hall⟩ := ih h
        have hsees := hnew.trans ((pauseIf_sees hpause).trans hnew')
        rw [List.nil_append] at hsees
        exact ⟨hidentity, _, observed', hsees, hstep.trans happroves, hall⟩

end

/-- An approved host was seen with all its keys, and with other keys only beside all of them; a direct
probe is refused when it shows a key the tunnel did not. -/
theorem preflight_approved_not_weakened (runner : Runner) (verifier : HostKeyVerifier) (host : String)
    (port : Nat) :
    (∀ approved preflight s t, preflightApproved runner verifier host port approved s = .ok (preflight, t) →
      preflight.identity = approved ∧ ∃ new, t.log = s.log ++ new ∧
        (∀ key ∈ approved.keys, ∃ scan ∈ new, scan.probe = .scan ∧ key ∈ scan.shows) ∧
        (∀ scan ∈ new, scan.probe = .scan →
          (∀ key ∈ scan.shows, key ∈ approved.keys) ∨ ∀ key ∈ approved.keys, key ∈ scan.shows) ∧
        ∀ probe ∈ new, ∀ key ∈ probe.shows, ∃ scan ∈ new, scan.probe = .scan ∧ key ∈ scan.shows) ∧
    ∀ tunneled warnings s t, compareDirect runner verifier host port tunneled s = .ok (warnings, t) →
      ∃ new, t.log = s.log ++ new ∧
        (∀ probe ∈ new, ∀ key ∈ probe.shows, key ∈ tunneled.map (·.presented)) ∧
        (warnings = [] → ∀ key ∈ tunneled.map (·.presented), ∃ probe ∈ new, key ∈ probe.shows) := by
  constructor
  · intro approved preflight s t h
    rw [preflightApproved] at h
    split at h
    next => cases h
    next =>
      split at h
      next => cases h
      next =>
        obtain ⟨hidentity, new, observed, hnew, happroves, hall⟩ := approvedScans_ok h
        refine ⟨hidentity, new, hnew.log, ?_, happroves.scans, happroves.direct⟩
        intro key hkey
        rcases happroves.seen key (hall key hkey) with hnone | hseen
        · cases hnone
        · exact hseen
  · intro tunneled warnings s t h
    obtain ⟨new, hnew, htunnels, hcomplete⟩ := compareDirect_ok h
    refine ⟨new, hnew.log, ?_, ?_⟩
    · intro probe hmem key hkey
      obtain ⟨line, hline, rfl⟩ := List.mem_map.mp hkey
      exact (htunnels probe hmem).2 line hline
    · intro hwarnings key hkey
      obtain ⟨line, hline, rfl⟩ := List.mem_map.mp hkey
      exact hcomplete hwarnings line hline

/-- A host that shows one more key than was approved. -/
def extraKey : Runner where
  run _ _ _ := .error .noKeys
  runBounded _ _ _ _ := .ok ⟨true, "web ssh-ed25519 A\nweb ssh-rsa B\n".toList, ""⟩
  resolve _ _ _ := none
  elapsed _ _ := 0
  fileExists _ _ := false
  readFile _ _ := .ok none
  endpoint _ _ _ := .error .noKeys
  fingerprint encoded := encoded

theorem extra_key_accepted :
    let approved : HostIdentity := ⟨"web", 22, [⟨"ssh-ed25519", "A"⟩], []⟩
    ∃ preflight t, preflightApproved extraKey ⟨[], "ssh-keyscan", "ssh-keygen", false⟩ "web" 22 approved
        ⟨0, []⟩ = .ok (preflight, t) ∧
      ∃ scan ∈ t.log, scan.probe = .scan ∧ ∃ key ∈ scan.shows, key ∉ approved.keys := by
  refine ⟨_, _, rfl, ?_⟩
  decide

end NixSecrets.HostKey

namespace NixSecrets.HostKey

/-- The key that a known_hosts line revokes. -/
def revokedKey (line : List Char) : Option PresentedKey :=
  match words line with
  | marker :: _ :: algorithm :: encoded :: _ =>
    if marker = "@revoked".toList then some ⟨String.ofList algorithm, String.ofList encoded⟩ else none
  | _ => none

/-- The keys that the lines found for the host revoke. -/
def revokedKeys (runner : Runner) (verifier : HostKeyVerifier) (host : String) (port now : Nat) :
    List PresentedKey :=
  (foundTexts runner verifier (lookupName host port) now verifier.knownHosts).flatMap fun text =>
    (lines text).filterMap revokedKey

/-- No revoked key is accepted. -/
def RefusesRevoked (revoked : List PresentedKey) (identity : HostIdentity) : Prop :=
  ∀ key ∈ revoked, key ∉ identity.keys

/-- A host shows a revoked key only beside recorded ones, and not as one of these. -/
def ShowsNoRevoked (revoked : List PresentedKey) (known : List KeyLine)
    (approved : Option (List PresentedKey)) (new : List Sighting) : Prop :=
  ∀ scan ∈ new, scan.probe = .scan → ∀ key ∈ revoked, key ∈ scan.shows →
    known ≠ [] ∧ approved = none ∧ key ∉ known.map (·.presented)

theorem Accepts.refusesRevoked_iff {known scanned : List KeyLine} {approved : Option (List PresentedKey)}
    {new : List Sighting} {identity : HostIdentity} {revoked : List PresentedKey}
    (h : Accepts known scanned approved new identity) :
    RefusesRevoked revoked identity ↔ ShowsNoRevoked revoked known approved new := by
  constructor
  · intro hrefuses scan hscan hprobe key hkey hshown
    have hscanned : key ∈ scanned.map (·.presented) := by
      rcases h.scans scan hscan hprobe with hnone | hall
      · rw [Sighting.shows, hnone] at hshown
        cases hshown
      · rw [Sighting.shows, hall] at hshown
        exact hshown
    have hnot := mt (h.keys key).mpr (hrefuses key hkey)
    refine ⟨?_, ?_, ?_⟩
    · intro hknown
      exact hnot ⟨hscanned, Or.inl hknown⟩
    · by_contra happroved
      exact hnot ⟨hscanned, Or.inr (Or.inl (Option.isSome_iff_ne_none.mpr happroved))⟩
    · intro hrecorded
      exact hnot ⟨hscanned, Or.inr (Or.inr hrecorded)⟩
  · intro hshows key hkey haccepted
    obtain ⟨hscanned, hcases⟩ := (h.keys key).mp haccepted
    obtain ⟨hknown, happroved, hrecorded⟩ := hshows _ h.scan rfl key hkey hscanned
    rcases hcases with hnone | hsome | hmem
    · exact hknown hnone
    · rw [happroved] at hsome
      cases hsome
    · exact hrecorded hmem

/-- Lines that revoke a key are skipped: a preflight refuses a revoked key only if the host does not show it,
or has other recorded keys; a preflight after an approval returns the approved keys, revoked or not. -/
theorem revoked_key_accepted_when_shown (runner : Runner) (verifier : HostKeyVerifier) (host : String)
    (port : Nat) :
    (∀ approved preflight s t, preflightSelected runner verifier host port approved s = .ok (preflight, t) →
      ∃ new, t.log = s.log ++ new ∧
        (RefusesRevoked (revokedKeys runner verifier host port s.now) preflight.identity ↔
          ShowsNoRevoked (revokedKeys runner verifier host port s.now)
            (knownKeys runner verifier host port s.now) approved new)) ∧
    ∀ approved preflight s t, preflightApproved runner verifier host port approved s = .ok (preflight, t) →
      (RefusesRevoked (revokedKeys runner verifier host port s.now) preflight.identity ↔
        ∀ key ∈ approved.keys, key ∉ revokedKeys runner verifier host port s.now) := by
  constructor
  · intro approved preflight s t h
    obtain ⟨scanned, new, hsees, _, _, haccepts⟩ := preflightSelected_accepts h
    exact ⟨new, hsees.log, haccepts.refusesRevoked_iff⟩
  · intro approved preflight s t h
    rw [preflightApproved] at h
    split at h
    next => cases h
    next =>
      split at h
      next => cases h
      next =>
        obtain ⟨hidentity, _⟩ := approvedScans_ok h
        rw [hidentity]
        exact ⟨fun hrefuses key hkey hrevoked => hrefuses key hrevoked hkey,
          fun happroved key hrevoked hkey => happroved key hkey hrevoked⟩

/-- A host whose only key is revoked. -/
def revokedHost : Runner where
  run _ _ _ := .ok ⟨true, "# Host web found: line 1 REVOKED\n@revoked web ssh-ed25519 A\n".toList, ""⟩
  runBounded _ _ _ _ := .ok ⟨true, "web ssh-ed25519 A\n".toList, ""⟩
  resolve _ _ _ := none
  elapsed _ _ := 0
  fileExists _ _ := true
  readFile _ _ := .ok (some "@revoked web ssh-ed25519 A\n".toList)
  endpoint _ _ _ := .error .noKeys
  fingerprint encoded := encoded

def operatorVerifier : HostKeyVerifier :=
  ⟨["/home/op/.ssh/known_hosts"], "ssh-keyscan", "ssh-keygen", false⟩

theorem revokedHost_revokes :
    revokedKeys revokedHost operatorVerifier "web" 22 0 = [⟨"ssh-ed25519", "A"⟩] := by
  decide

theorem revoked_key_offered :
    ∃ preflight t, preflightSelected revokedHost operatorVerifier "web" 22 none ⟨0, []⟩ = .ok (preflight, t) ∧
      ¬ RefusesRevoked (revokedKeys revokedHost operatorVerifier "web" 22 0) preflight.identity := by
  refine ⟨_, _, rfl, ?_⟩
  rw [revokedHost_revokes]
  intro hrefuses
  exact hrefuses _ List.mem_cons_self (by decide)

theorem revoked_key_shown :
    ∃ preflight t new, preflightSelected revokedHost operatorVerifier "web" 22 none ⟨0, []⟩ =
        .ok (preflight, t) ∧ t.log = new ∧
      ¬ ShowsNoRevoked (revokedKeys revokedHost operatorVerifier "web" 22 0)
        (knownKeys revokedHost operatorVerifier "web" 22 0) none new := by
  have hrun := (revoked_key_accepted_when_shown revokedHost operatorVerifier "web" 22).1 none _ ⟨0, []⟩ _ rfl
  obtain ⟨new, hlog, hiff⟩ := hrun
  refine ⟨_, _, new, rfl, hlog, mt hiff.mpr ?_⟩
  rw [revokedHost_revokes]
  intro hrefuses
  exact hrefuses _ List.mem_cons_self (by decide)

end NixSecrets.HostKey
