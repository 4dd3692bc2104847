import NixSecrets.AuthorizedKeys
import NixSecrets.DeploymentPlan
import NixSecrets.LocalHosts

namespace NixSecrets.Inventory

/-- One line of a known_hosts value. -/
structure HostLine where
  name : List Char
  algorithm : List Char
  encoded : List Char
  deriving DecidableEq

def HostLine.pin (line : HostLine) : List Char := line.algorithm ++ ' ' :: line.encoded

def HostLine.text (line : HostLine) : List Char := line.name ++ ' ' :: line.algorithm ++ ' ' :: line.encoded

/-- The name stands for the host on the port: in brackets, or on port 22 also as it is. -/
def Names (port : UInt16) (name host : List Char) : Prop := name = sshName host port ∨ port = 22 ∧ name = host

instance (port : UInt16) (name host : List Char) : Decidable (Names port name host) :=
  inferInstanceAs (Decidable (_ ∨ _))

/-- The first of the hosts for which the name stands. -/
def firstNamed (hosts : List String) (port : UInt16) (name : List Char) : Option String :=
  hosts.find? fun host => Names port name host.toList

structure HostLine.Allowed (libs : Libraries) (hosts : List String) (port : UInt16) (line : HostLine) : Prop where
  plain : ∀ field ∈ [line.name, line.algorithm, line.encoded], field ≠ [] ∧ ∀ c ∈ field, isAsciiWhitespace c = false
  unmarked : ∀ c ∈ line.text, c ∉ ['*', '?', ',', '@', '|', '#']
  host : ∃ host ∈ hosts, firstNamed hosts port line.name = some host
  remote : ∀ host, Names port line.name host → ¬ [']', ':'] <:+: host → ¬ LocalOnly host
  key : ∃ key, libs.opensshKey line.pin = some key ∧ key.supported ∧ key.name = String.ofList line.algorithm

section

variable {libs : Libraries} {hosts : List String} {port : UInt16}

/-- The host ends at the first of two marks when they are not within it. -/
theorem splitOnceText_two {a b : Char} (hne : a ≠ b) {front : List Char} (h : ¬ [a, b] <:+: front) (rest : List Char) :
    splitOnceText [a, b] (front ++ a :: b :: rest) = some (front, rest) := by
  induction front with
  | nil =>
    have hhere : [a, b].isPrefixOf (a :: b :: rest) = true := by simp
    rw [List.nil_append, splitOnceText, hhere]
    rfl
  | cons c front ih =>
    have hlater : ¬ [a, b] <:+: front := fun hin => h (hin.trans (List.suffix_cons c front).isInfix)
    have hnot : [a, b].isPrefixOf (c :: (front ++ a :: b :: rest)) = false := by
      by_contra hhere
      rw [Bool.not_eq_false] at hhere
      cases front with
      | nil =>
        have hpair : a = c ∧ b = a := by simpa using hhere
        exact hne hpair.2.symm
      | cons d front =>
        have hpair : a = c ∧ b = d := by simpa using hhere
        rw [← hpair.1, ← hpair.2] at h
        exact h ⟨[], front, rfl⟩
    rw [List.cons_append, splitOnceText, hnot, ih hlater]
    rfl

/-- The host that a line is refused for is the one that it names. -/
theorem bareName_eq {name host : List Char} (h : Names port name host) (hplain : ¬ [']', ':'] <:+: host) :
    ((strip ['['] name).bind (splitOnceText [']', ':'])).elim name Prod.fst = host := by
  cases h with
  | inl h =>
    have hstrip : strip ['['] name = some (host ++ ']' :: ':' :: (toString port.toNat).toList) := by
      rw [strip_eq_some, h, sshName]
      simp
    rw [hstrip, Option.bind_some, splitOnceText_two (by decide) hplain]
    rfl
  | inr h =>
    rw [h.2]
    cases hfound : (strip ['['] host).bind (splitOnceText [']', ':']) with
    | none => rfl
    | some parts =>
      obtain ⟨rest, hrest, hparts⟩ := Option.bind_eq_some_iff.mp hfound
      have hhost := strip_eq_some.mp hrest
      have hsplit := splitOnceText_some hparts
      exact absurd ⟨'[' :: parts.1, parts.2, by rw [hhost, hsplit]; rfl⟩ hplain

theorem find_map_toList (name : List Char) :
    ((hosts.map String.toList).find? fun host => name = sshName host port || (port = 22 && name = host)) =
      (firstNamed hosts port name).map String.toList := by
  rw [List.find?_map, firstNamed]
  congr 2
  funext host
  rw [Bool.eq_iff_iff, decide_eq_true_iff]
  simp [Names]

theorem firstNamed_names {name : List Char} {host : String} (h : firstNamed hosts port name = some host) :
    host ∈ hosts ∧ Names port name host.toList :=
  ⟨List.mem_of_find?_eq_some h, by simpa using List.find?_some h⟩

/-- On any other port than 22 a name stands for one host only. -/
theorem firstNamed_iff (hport : port ≠ 22) {name : List Char} {host : String} (hhost : host ∈ hosts) :
    firstNamed hosts port name = some host ↔ name = sshName host.toList port := by
  constructor
  · intro h
    cases (firstNamed_names h).2 with
    | inl h => exact h
    | inr h => exact absurd h.1 hport
  · intro h
    cases hfound : firstNamed hosts port name with
    | none =>
      have hnone := List.find?_eq_none.mp hfound host hhost
      exact absurd (decide_eq_true (Or.inl h)) hnone
    | some other =>
      cases (firstNamed_names hfound).2 with
      | inl hother =>
        rw [h, sshName, sshName, List.append_assoc, List.append_assoc] at hother
        have hsame : host.toList = other.toList := by simpa using hother
        rw [String.toList_inj.mp hsame]
      | inr hother => exact absurd hother.1 hport

theorem knownHostsLine_ok {number : Nat} {text name encoded host pin : List Char}
    (h : knownHostsLine libs.withAddresses hosts port number text = .ok (name, encoded, host, pin)) :
    ∃ line : HostLine, text = line.text ∧ line.Allowed libs hosts port ∧ name = line.name ∧
      encoded = line.encoded ∧ pin = line.pin ∧
      host = ((firstNamed hosts port line.name).getD "").toList := by
  unfold knownHostsLine at h
  obtain ⟨_, hmarks, h⟩ := Checked.bind_ok h
  have hmarks := Checked.refuseIf_ok hmarks
  split at h
  next first algorithm second hfields =>
    obtain ⟨_, hcanonical, h⟩ := Checked.bind_ok h
    have hcanonical := not_not.mp (Checked.refuseIf_ok hcanonical)
    obtain ⟨local', hlocal, h⟩ := Checked.bind_ok h
    have hplain : ∀ field ∈ [first, algorithm, second], field ≠ [] ∧ ∀ c ∈ field, isAsciiWhitespace c = false := by
      intro field hfield
      rw [← hfields] at hfield
      have hpiece := StorageBox.mem_fields hfield
      exact ⟨hpiece.2.2, hpiece.2.1⟩
    -- The two branches that show the host go on alike.
    have hkey {shown : List Char} (h : (do
        let key ← Checked.orRefuse ("known_hosts line " ++ toString number ++ " (" ++ String.ofList first ++
          ") has an invalid key") (libs.opensshKey (algorithm ++ ' ' :: second))
        Checked.refuseIf (¬ key.supported ∨ key.name ≠ String.ofList algorithm)
          ("known_hosts line " ++ toString number ++ " (" ++ String.ofList first ++
            "): the key must be Ed25519, ECDSA or RSA")
        pure (first, second, shown, algorithm ++ ' ' :: second) : Checked String _) =
          .ok (name, encoded, host, pin)) :
        (∃ key, libs.opensshKey (algorithm ++ ' ' :: second) = some key ∧ key.supported ∧
          key.name = String.ofList algorithm) ∧ first = name ∧ second = encoded ∧ shown = host ∧
          algorithm ++ ' ' :: second = pin := by
      obtain ⟨key, hread, h⟩ := Checked.bind_ok h
      obtain ⟨_, hsupported, h⟩ := Checked.bind_ok h
      have hchecked := Checked.refuseIf_ok hsupported
      rw [not_or, not_not, not_not] at hchecked
      cases h
      exact ⟨⟨key, Checked.orRefuse_ok hread, hchecked⟩, rfl, rfl, rfl, rfl⟩
    dsimp only at h
    split at h
    next kind =>
      obtain ⟨_, hrefused, _⟩ := Checked.bind_ok h
      cases hrefused
    next hlocal' =>
      obtain ⟨found, hfind, h⟩ := Checked.bind_ok h
      have hfind := Checked.orRefuse_ok hfind
      rw [find_map_toList] at hfind
      obtain ⟨chosen, hchosen, hsame⟩ := Option.map_eq_some_iff.mp hfind
      have hnames := firstNamed_names hchosen
      have hremote : ∀ host, Names port first host → ¬ [']', ':'] <:+: host → ¬ LocalOnly host := by
        intro host hname hplain hlocalOnly
        obtain ⟨kind, hkind⟩ := (localOnlySshHost_iff libs host).mpr hlocalOnly
        rw [bareName_eq hname hplain, hkind] at hlocal
        cases hlocal
        exact hlocal' kind rfl
      have hfields : (∃ key, libs.opensshKey (algorithm ++ ' ' :: second) = some key ∧ key.supported ∧
          key.name = String.ofList algorithm) ∧ first = name ∧ second = encoded ∧ found = host ∧
          algorithm ++ ' ' :: second = pin := by
        by_cases hwhole : first = found
        · rw [if_pos hwhole] at h
          obtain ⟨hread, hfirst, hsecond, hshown, hpin⟩ := hkey h
          exact ⟨hread, hfirst, hsecond, by rw [← hwhole, hshown], hpin⟩
        · rw [if_neg hwhole] at h
          obtain ⟨shown, hslice, h⟩ := Checked.bind_ok h
          have hbrackets : first = sshName found port := by
            rw [← hsame] at hwhole ⊢
            cases hnames.2 with
            | inl hname => exact hname
            | inr hname => exact absurd hname.2 hwhole
          have hslice := Checked.orPanic_ok hslice
          rw [hbrackets, sliceBytes_sshName] at hslice
          cases hslice
          exact hkey h
      obtain ⟨hread, hname, hencoded, hshown, hpin⟩ := hfields
      refine ⟨⟨first, algorithm, second⟩, hcanonical, ⟨hplain, ?_, ⟨chosen, hnames.1, hchosen⟩, hremote, hread⟩,
        hname.symm, hencoded.symm, hpin.symm, ?_⟩
      · intro c hc
        have hc : c ∈ text := by
          rw [hcanonical]
          exact hc
        intro hmark
        exact hmarks (List.any_eq_true.mpr ⟨c, hc, List.contains_iff_mem.mpr hmark⟩)
      · rw [← hshown, ← hsame, hchosen]
        rfl
  next => cases h

/-- Every line is canonical, and none repeats one before it. -/
theorem knownHostsBody_ok {number : Nat} {seen : List (List Char × List Char)} {texts : List (List Char)}
    {pins : List (String × String)} (h : knownHostsBody libs.withAddresses hosts port number seen texts = .ok pins) :
    ∃ lines : List HostLine, texts = lines.map HostLine.text ∧ (∀ line ∈ lines, line.Allowed libs hosts port) ∧
      (lines.map fun line => (line.name, line.encoded)).Nodup ∧
      (∀ line ∈ lines, (line.name, line.encoded) ∉ seen) ∧
      pins = lines.map fun line => ((firstNamed hosts port line.name).getD "", String.ofList line.pin) := by
  induction texts generalizing number seen pins with
  | nil =>
    cases h
    exact ⟨[], rfl, by simp, List.nodup_nil, by simp, rfl⟩
  | cons text rest ih =>
    unfold knownHostsBody at h
    obtain ⟨_, _, h⟩ := Checked.bind_ok h
    obtain ⟨found, hfound, h⟩ := Checked.bind_ok h
    obtain ⟨_, hnew, h⟩ := Checked.bind_ok h
    have hnew := Checked.refuseIf_ok hnew
    obtain ⟨later, hlater, h⟩ := Checked.bind_ok h
    cases h
    obtain ⟨line, htext, hallowed, hname, hencoded, hpin, hhost⟩ := knownHostsLine_ok hfound
    obtain ⟨lines, hrest, hlines, hnodup, hunseen, hpins⟩ := ih hlater
    rw [hname, hencoded] at hnew hunseen
    refine ⟨line :: lines, by rw [htext, hrest, List.map_cons], ?_, ?_, ?_, ?_⟩
    · intro other hother
      cases List.mem_cons.mp hother with
      | inl heq => rwa [heq]
      | inr hother => exact hlines other hother
    · rw [List.map_cons, List.nodup_cons]
      refine ⟨?_, hnodup⟩
      intro hmem
      obtain ⟨other, hother, hsame⟩ := List.mem_map.mp hmem
      apply hunseen other hother
      rw [hsame]
      exact List.mem_cons_self ..
    · intro other hother
      cases List.mem_cons.mp hother with
      | inl heq => rwa [heq]
      | inr hother => exact fun hmem => hunseen other hother (List.mem_cons_of_mem _ hmem)
    · rw [List.map_cons, hpins, hhost, hpin, String.ofList_toList]

theorem knownHostsLines_ok {value : String} {pins : List (String × String)}
    (h : knownHostsLines libs.withAddresses hosts port value = .ok pins) :
    ∃ lines : List HostLine, lines ≠ [] ∧
      (value.toList = ['\n'].intercalate (lines.map HostLine.text) ∨
        value.toList = ['\n'].intercalate (lines.map HostLine.text) ++ ['\n']) ∧
      (∀ line ∈ lines, line.Allowed libs hosts port) ∧
      (lines.map fun line => (line.name, line.encoded)).Nodup ∧
      pins = lines.map fun line => ((firstNamed hosts port line.name).getD "", String.ofList line.pin) := by
  obtain ⟨_, _, h⟩ := Checked.bind_ok h
  obtain ⟨_, _, h⟩ := Checked.bind_ok h
  obtain ⟨lines, htexts, hallowed, hnodup, _, hpins⟩ := knownHostsBody_ok h
  refine ⟨lines, ?_, ?_, hallowed, hnodup, hpins⟩
  · intro hnil
    rw [hnil] at htexts
    exact List.splitOn_ne_nil _ _ htexts
  · have hbody := (@bare_iff '\n' value.toList _).mpr rfl
    rw [← htexts, List.intercalate_splitOn]
    cases hbody with
    | inl hbody => exact .inr hbody
    | inr hbody => exact .inl hbody.1

end

end NixSecrets.Inventory

namespace NixSecrets.Manager

def Libraries.withAddresses (libs : Libraries) : Libraries := { libs with parseIp := Inventory.parseIp }

end NixSecrets.Manager

namespace NixSecrets.Inventory

open Manager.Preflight (knownHostsKeys)

theorem knownHostsKeys_eq (libs : Manager.Libraries) {hosts : List String} {port : UInt16} {value : String} {lines : List HostLine}
    (hallowed : ∀ line ∈ lines, line.Allowed libs.toLibraries hosts port)
    (h : knownHostsLines libs.withAddresses.toLibraries hosts port value =
      .ok (lines.map fun line => ((firstNamed hosts port line.name).getD "", String.ofList line.pin))) (host : String) :
    knownHostsKeys libs.withAddresses value hosts port host =
      .ok ((lines.filter fun line => firstNamed hosts port line.name = some host).map fun line =>
        String.ofList line.pin) := by
  rw [knownHostsKeys, h, Checked.ok_bind]
  have hchosen : lines.filter (fun line => decide ((firstNamed hosts port line.name).getD "" = host)) =
      lines.filter fun line => firstNamed hosts port line.name = some host := by
    apply List.filter_congr
    intro line hline
    obtain ⟨chosen, _, hfirst⟩ := (hallowed line hline).host
    rw [hfirst]
    simp
  rw [List.filter_map, List.map_map, ← hchosen]
  rfl

/-- Known hosts are read line by line, and none is this machine. -/
theorem known_hosts_exact (libs : Manager.Libraries) (hosts : List String) (port : UInt16) :
    (∀ value, validateSshKnownHosts libs.withAddresses.toLibraries hosts port value = .ok () →
      ∃ lines : List HostLine, lines ≠ [] ∧
        (value.toList = ['\n'].intercalate (lines.map HostLine.text) ∨
          value.toList = ['\n'].intercalate (lines.map HostLine.text) ++ ['\n']) ∧
        (∀ line ∈ lines, line.Allowed libs.toLibraries hosts port) ∧
        (lines.map fun line => (line.name, line.encoded)).Nodup ∧
        ∀ host, knownHostsKeys libs.withAddresses value hosts port host =
            .ok ((lines.filter fun line => firstNamed hosts port line.name = some host).map fun line =>
              String.ofList line.pin) ∧
          (port ≠ 22 → host ∈ hosts → ∀ line ∈ lines,
            firstNamed hosts port line.name = some host ↔ line.name = sshName host.toList port)) ∧
    (∀ value host keys, knownHostsKeys libs.withAddresses value hosts port host = .ok keys →
      validateSshKnownHosts libs.withAddresses.toLibraries hosts port value = .ok ()) ∧
    ∀ host, (∃ kind, (localOnlySshHost libs.withAddresses.toLibraries host : Checked String _) = .ok (some kind)) ↔
      LocalOnly host := by
  refine ⟨?_, ?_, fun host => localOnlySshHost_iff libs.toLibraries host⟩
  · intro value h
    obtain ⟨pins, hpins, _⟩ := Checked.bind_ok h
    obtain ⟨lines, hne, htext, hallowed, hnodup, heq⟩ := @knownHostsLines_ok libs.toLibraries _ _ _ _ hpins
    rw [heq] at hpins
    refine ⟨lines, hne, htext, hallowed, hnodup, ?_⟩
    intro host
    exact ⟨knownHostsKeys_eq libs hallowed hpins host, fun hport hhost line _ => firstNamed_iff hport hhost⟩
  · intro value host keys h
    obtain ⟨pins, hpins, _⟩ := Checked.bind_ok h
    rw [validateSshKnownHosts, hpins]
    rfl

def pinLibraries : Manager.Libraries where
  parseIp _ := none
  decodeBase64 _ := none
  opensshKey _ := some ⟨true, "ssh-ed25519"⟩
  regexError _ := none
  debug text := text
  transport := ⟨fun _ => none, fun _ => none, fun text => text⟩
  sshKey _ := none
  sha256 bytes := bytes
  readToml _ := none
  verifyHeader _ _ := .ok ()
  generatorText _ := ""
  derivationText _ := ""

/-- A zone after a name, the two spellings of a host on port 22, and a host that holds the mark after a host. -/
theorem host_spellings_passed :
    (localOnlySshHost pinLibraries.withAddresses.toLibraries "localhost%lo".toList : Checked String _) = .ok none ∧
    validateSshKnownHosts pinLibraries.withAddresses.toLibraries ["a"] 22 "a ssh-ed25519 K\n[a]:22 ssh-ed25519 K" =
      .ok () ∧
    knownHostsKeys pinLibraries.withAddresses "a ssh-ed25519 K\n[a]:22 ssh-ed25519 K" ["a"] 22 "a" =
      .ok ["ssh-ed25519 K", "ssh-ed25519 K"] ∧
    validateSshKnownHosts pinLibraries.withAddresses.toLibraries ["a]:b.localhost"] 23
      "[a]:b.localhost]:23 ssh-ed25519 K" = .ok () ∧
    (localOnlySshHost pinLibraries.withAddresses.toLibraries "a]:b.localhost".toList : Checked String _) =
      .ok (some "a loopback name") := by
  decide +kernel

end NixSecrets.Inventory
