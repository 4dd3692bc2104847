import Mathlib.Data.List.Sort
import NixSecrets.RustText

namespace NixSecrets.HostKey

structure PresentedKey where
  algorithm : String
  encoded : String
  deriving DecidableEq, Repr

/-- A key recorded in a known_hosts file. -/
structure KnownKey where
  file : String
  line : Option Nat
  key : PresentedKey
  deriving DecidableEq, Repr

structure HostIdentity where
  host : String
  port : Nat
  keys : List PresentedKey
  otherNamesWithKeys : List String
  deriving DecidableEq, Repr

inductive HostKeyStatus
  | known
  | unknown
  deriving DecidableEq, Repr

structure HostKeyPreflight where
  identity : HostIdentity
  status : HostKeyStatus
  connectionWarnings : List String
  known : List KnownKey
  knownHostLines : List String
  deriving DecidableEq, Repr

inductive HostKeyError
  | io (message : String)
  | tool (message : String)
  | noKeys
  | changed (host : String) (port : Nat) (expected : List KnownKey) (offered : List PresentedKey)
  | unknownRejected
  deriving DecidableEq, Repr

structure KeyLine where
  hosts : String
  algorithm : String
  encoded : String
  deriving DecidableEq, Repr

structure Output where
  success : Bool
  stdout : List Char
  diagnostic : String
  deriving DecidableEq, Repr

structure Address where
  isIpv4 : Bool
  text : String
  deriving DecidableEq, Repr

def KeyLine.sameKey (key other : KeyLine) : Bool :=
  key.algorithm == other.algorithm && key.encoded == other.encoded

def KeyLine.presented (key : KeyLine) : PresentedKey := ⟨key.algorithm, key.encoded⟩

def KeyLine.forHost (key : KeyLine) (host : String) : String :=
  host ++ " " ++ key.algorithm ++ " " ++ key.encoded

def KeyLine.before (a b : KeyLine) : Prop :=
  a.algorithm < b.algorithm ∨ a.algorithm = b.algorithm ∧ a.encoded ≤ b.encoded

instance (a b : KeyLine) : Decidable (a.before b) :=
  inferInstanceAs (Decidable (a.algorithm < b.algorithm ∨ a.algorithm = b.algorithm ∧ a.encoded ≤ b.encoded))

/-- What a tool prints when it is asked for keys: scans go to the host, probes go past the tunnel. -/
inductive Probe
  | scan
  | direct
  deriving DecidableEq, Repr

structure Sighting where
  probe : Probe
  keys : List KeyLine
  deriving DecidableEq, Repr

/-- What the surroundings answer at each moment of a run. -/
structure Runner where
  run : Nat → String → List String → Except HostKeyError Output
  runBounded : Nat → String → List String → Nat → Except HostKeyError Output
  resolve : Nat → String → Nat → Option (List Address)
  elapsed : Nat → Nat → Nat
  fileExists : Nat → String → Bool
  readFile : Nat → String → Except HostKeyError (Option (List Char))
  endpoint : Nat → String → Nat → Except HostKeyError (String × Nat)
  fingerprint : String → String

structure HostKeyVerifier where
  knownHosts : List String
  sshKeyscan : String
  sshKeygen : String
  routed : Bool
  deriving DecidableEq, Repr

/-- How far a run has come, and the keys it was shown. -/
structure Session where
  now : Nat
  log : List Sighting
  deriving DecidableEq, Repr

abbrev Run := StateT Session (Except HostKeyError)

def ask {α : Type} (answer : Nat → α) : Run α := fun s => .ok (answer s.now, { s with now := s.now + 1 })

def pauseIf (c : Prop) [Decidable c] : Run Unit := if c then ask fun _ => () else pure ()

def refuse {α : Type} (error : HostKeyError) : Run α := fun _ => .error error

def answered {α : Type} : Except HostKeyError α → Run α
  | .ok a => pure a
  | .error error => refuse error

def words (line : List Char) : List (List Char) := (line.splitOnP isWhitespace).filter (· ≠ [])

def lines (text : List Char) : List (List Char) :=
  let parts := text.splitOn '\n'
  let parts := if parts.getLast? = some [] then parts.dropLast else parts
  parts.map fun line => (stripEnd ['\r'] line).getD line

def parseKeyLine (line : List Char) : Option KeyLine :=
  if line.head? = some '#' then none
  else
    match words line with
    | hosts :: algorithm :: encoded :: _ =>
      if hosts.head? = some '@' then none
      else some ⟨String.ofList hosts, String.ofList algorithm, String.ofList encoded⟩
    | _ => none

def parseKeyLines (text : List Char) : List KeyLine := (lines text).filterMap parseKeyLine

/-- Runs a scan or a probe; what it prints is seen even when it fails in the end. -/
def look (probe : Probe) (answer : Nat → Except HostKeyError Output) : Run (Except HostKeyError Output) :=
  fun s =>
    match answer s.now with
    | .error error => .ok (.error error, { s with now := s.now + 1 })
    | .ok output => .ok (.ok output, ⟨s.now + 1, s.log ++ [⟨probe, parseKeyLines output.stdout⟩]⟩)

/-- The last occurrence of a pattern splits the text. -/
def rsplitOnce (pattern text : List Char) : Option (List Char × List Char) :=
  (splitOnceText pattern.reverse text.reverse).map fun x => (x.2.reverse, x.1.reverse)

def parseNumber (text : List Char) : Option Nat :=
  let digits := (strip ['+'] text).getD text
  if digits ≠ [] ∧ digits.all Char.isDigit ∧ Nat.ofDigitChars 10 digits 0 < 2 ^ 64 then
    some (Nat.ofDigitChars 10 digits 0)
  else none

/-- The line numbers `ssh-keygen -F` reports, one for each key it prints. -/
def foundLines (text : List Char) : List Nat :=
  (lines text).filterMap fun line => do
    let rest ← strip "# Host ".toList line
    let (_, number) ← rsplitOnce "found: line ".toList rest
    parseNumber (trim number)

def lookupName (host : String) (port : Nat) : String :=
  if port = 22 then host else "[" ++ host ++ "]:" ++ toString port

/-- A set of texts in their order. -/
def sortedSet (texts : List String) : List String := (texts.insertionSort (· ≤ ·)).dedup

def scanType : String → Option String
  | "ssh-ed25519" => some "ed25519"
  | "ssh-rsa" | "rsa-sha2-256" | "rsa-sha2-512" => some "rsa"
  | "ecdsa-sha2-nistp256" | "ecdsa-sha2-nistp384" | "ecdsa-sha2-nistp521" => some "ecdsa"
  | "sk-ssh-ed25519@openssh.com" => some "ed25519-sk"
  | "sk-ecdsa-sha2-nistp256@openssh.com" => some "ecdsa-sk"
  | "ssh-mldsa44-ed25519@openssh.com" => some "mldsa44-ed25519"
  | _ => none

def scanTypes (algorithms : List String) : Except HostKeyError (List String) := do
  let types ← algorithms.mapM fun algorithm =>
    match scanType algorithm with
    | none => .error (.tool ("unsupported recorded SSH host-key algorithm: " ++ algorithm))
    | some type => .ok type
  return sortedSet types

/-- The types that are tried on an unknown host, by preference. -/
def unknownScanTypes : List String :=
  ["ed25519", "ecdsa", "rsa", "ed25519-sk", "ecdsa-sk", "mldsa44-ed25519"]

def maxDiscoveryAttempts : Nat := 6

def discoveryBudget : Nat := 60000

def discoveryDelay : Nat := 2000

/-- The keys, without those that follow the same key. -/
def dedupAfter (key : KeyLine) : List KeyLine → List KeyLine
  | [] => [key]
  | next :: keys => if next.sameKey key then dedupAfter key keys else key :: dedupAfter next keys

def dedupKeys : List KeyLine → List KeyLine
  | [] => []
  | key :: keys => dedupAfter key keys

/-- The keys in a fixed order, each once. -/
def sortKeys (keys : List KeyLine) : List KeyLine := dedupKeys (keys.insertionSort KeyLine.before)

section

variable (runner : Runner) (verifier : HostKeyVerifier)

/-- What known_hosts records for the host. -/
def recordedKeys (lookup : String) : List String → Run (List KeyLine × List KnownKey)
  | [] => pure ([], [])
  | path :: paths => do
    let present ← ask (runner.fileExists · path)
    if present then
      let output ← answered (← ask (runner.run · verifier.sshKeygen ["-F", lookup, "-f", path]))
      let (known, recorded) ← recordedKeys lookup paths
      if output.success then
        let found := parseKeyLines output.stdout
        let numbers := foundLines output.stdout
        return (found ++ known,
          found.mapIdx (fun i line => ⟨path, numbers[i]?, line.presented⟩) ++ recorded)
      else return (known, recorded)
    else recordedKeys lookup paths

def aliases (keys : List KeyLine) : List String → Run (List String)
  | [] => pure []
  | path :: paths => do
    let contents ← answered (← ask (runner.readFile · path))
    let names ← aliases keys paths
    let here := match contents with
      | none => []
      | some text => (parseKeyLines text).filter fun line => keys.any (·.sameKey line)
    return (here.flatMap fun line =>
      (line.hosts.toList.splitOn ',').filterMap fun name =>
        if name.head? = some '|' then none else some (String.ofList name)) ++ names

structure Probes where
  observed : List Nat
  direct : List KeyLine
  completeOutput : Bool
  deriving DecidableEq, Repr

/-- Probes the targets that showed no key yet, as long as there is time. -/
def probeTargets (host : String) (port : Nat) (tunneled : List KeyLine) (started total : Nat)
    (types : String) (perProbe : Nat) : Probes → List (Nat × String × String) → Run Probes
  | probes, [] => pure probes
  | probes, (index, family, target) :: targets =>
    if index ∈ probes.observed then probeTargets host port tunneled started total types perProbe probes targets
    else do
      let elapsed ← ask (runner.elapsed started)
      let remaining := total - elapsed
      if remaining = 0 then pure probes
      else
        let timeout := min remaining perProbe
        let result ← look .direct (runner.runBounded · verifier.sshKeyscan
          [family, "-T", toString (max (timeout / 1000) 1), "-p", toString port, "-t", types, "--", target] timeout)
        match result with
        | .error _ => probeTargets host port tunneled started total types perProbe probes targets
        | .ok output =>
          let keys := parseKeyLines output.stdout
          match keys.find? fun key => !tunneled.any (·.sameKey key) with
          | some key => refuse (.tool ("SSH HOST KEY ROUTE MISMATCH for " ++ host ++ ":" ++ toString port ++
              ": direct and backend-tunneled " ++ key.algorithm ++
              " keys differ; no authenticated target connection was opened"))
          | none =>
            let probes := if keys = [] then probes else
              ⟨index :: probes.observed, probes.direct ++ keys, probes.completeOutput || output.success⟩
            probeTargets host port tunneled started total types perProbe probes targets

def probeRounds (host : String) (port : Nat) (tunneled : List KeyLine) (started total : Nat)
    (targets : List (Nat × String × String)) : Probes → List (String × Nat) → Run Probes
  | probes, [] => pure probes
  | probes, (types, perProbe) :: rounds => do
    let probes ← probeTargets runner verifier host port tunneled started total types perProbe probes targets
    probeRounds host port tunneled started total targets probes rounds

def compareDirect (host : String) (port : Nat) (tunneled : List KeyLine) : Run (List String) := do
  let selected ← answered (scanTypes (tunneled.map (·.algorithm)))
  let started ← ask id
  let resolved ← ask (runner.resolve · host port)
  let (targets, total, budgets) := match resolved with
    | some addresses => (addresses.map fun (address : Address) => (if address.isIpv4 then "-4" else "-6", address.text),
        10000, [3000, 2000, 1000, 1000])
    | none => ([("-4", host), ("-6", host)], 3000, [750, 500, 125, 125])
  let rounds := [",".intercalate selected, "ed25519,ecdsa,rsa", "ed25519-sk,ecdsa-sk", "mldsa44-ed25519"]
  let probes ← probeRounds runner verifier host port tunneled started total
    (targets.mapIdx fun i target => (i, target)) ⟨[], [], false⟩ (rounds.zip budgets)
  if probes.direct = [] then
    return ["Direct client host-key probe unavailable; discovery and deployment use the existing " ++
      "backend tunnel."]
  else if probes.completeOutput && tunneled.all fun key => probes.direct.any (·.sameKey key) then return []
  else
    return ["Direct client host-key probe was partial; observed keys match the tunnel, and deployment uses " ++
      "the existing backend tunnel."]

def pauseScan (started attempts : Nat) : Run Unit :=
  if attempts < maxDiscoveryAttempts then do
    let elapsed ← ask (runner.elapsed started)
    pauseIf (min discoveryDelay (discoveryBudget - elapsed) ≠ 0)
  else pure ()

/-- Scans until a scan shows a key. -/
def discover (requested : List String) (scanHost : String) (scanPort started : Nat) :
    Nat → Nat → String → Run (List KeyLine)
  | 0, attempts, diagnostic => refuse (.tool ("ssh-keyscan failed after " ++ toString attempts ++
      " attempts within the 60-second discovery budget: " ++ diagnostic))
  | fuel + 1, attempts, diagnostic => do
    let elapsed ← ask (runner.elapsed started)
    let remaining := discoveryBudget - elapsed
    if remaining < 2000 then
      refuse (.tool ("ssh-keyscan failed after " ++ toString attempts ++
        " attempts within the 60-second discovery budget: " ++ diagnostic))
    else
      let keyTypes := if requested = [] then unknownScanTypes.getD (attempts % unknownScanTypes.length) ""
        else ",".intercalate requested
      let timeout := min remaining 10000
      let scan ← answered (← look .scan (runner.runBounded · verifier.sshKeyscan
        ["-T", toString (timeout / 1000 - 1), "-p", toString scanPort, "-t", keyTypes, "--", scanHost] timeout))
      let scanned := parseKeyLines scan.stdout
      if scanned ≠ [] then return scanned
      else
        let diagnostic := if scan.success then "successful ssh-keyscan produced no host keys"
          else scan.diagnostic
        pauseScan runner started (attempts + 1)
        discover requested scanHost scanPort started fuel (attempts + 1) diagnostic

def scanEndpoint (host : String) (port : Nat) : Run (String × Nat) :=
  if verifier.routed then do answered (← ask (runner.endpoint · host port)) else pure (host, port)

def tunnelWarnings (host : String) (port : Nat) (scanned : List KeyLine) : Run (List String) :=
  if verifier.routed then compareDirect runner verifier host port scanned else pure []

def preflightSelected (host : String) (port : Nat) (approved : Option (List PresentedKey)) :
    Run HostKeyPreflight := do
  let lookup := lookupName host port
  let (known, recorded) ← recordedKeys runner verifier lookup verifier.knownHosts
  let requested ← answered (scanTypes (match approved with
    | some keys => keys.map (·.algorithm)
    | none => known.map (·.algorithm)))
  let (scanHost, scanPort) ← scanEndpoint runner verifier host port
  let started ← ask id
  let scanned ← discover runner verifier requested scanHost scanPort started maxDiscoveryAttempts 0
    "no scan completed"
  let connectionWarnings ← tunnelWarnings runner verifier host port scanned
  let matching := scanned.filter fun candidate => known.any (·.sameKey candidate)
  if known ≠ [] ∧ matching = [] then
    refuse (.changed host port recorded ((sortKeys scanned).map (·.presented)))
  else
    let accepted := sortKeys (if known = [] ∨ approved.isSome then scanned else matching)
    let otherNames ← aliases runner accepted verifier.knownHosts
    return {
      identity := ⟨host, port, accepted.map (·.presented), sortedSet otherNames⟩
      status := if known = [] then .unknown else .known
      connectionWarnings
      known := recorded.filter fun entry => accepted.any fun key => key.presented = entry.key
      knownHostLines := accepted.map (·.forHost lookup) }

/-- Repeats a scan that lacks approved keys; `observed` are those that were seen. -/
def approvedScans (host : String) (port : Nat) (approved : HostIdentity) :
    Nat → List PresentedKey → Run HostKeyPreflight
  | 0, observed => refuse (.tool (("could not read all approved SSH host keys after three scans; no " ++
      "connection was opened; missing approved keys: ") ++ ", ".intercalate
        ((approved.keys.filter (· ∉ observed)).map fun key =>
          key.algorithm ++ " " ++ runner.fingerprint key.encoded)))
  | fuel + 1, observed => do
    let current ← preflightSelected runner verifier host port (some approved.keys)
    let completeScan := approved.keys.all (· ∈ current.identity.keys)
    if !completeScan && current.identity.keys.any (· ∉ approved.keys) then
      refuse (.tool ("SSH host keys changed after approval; an approved key is missing or replaced; no " ++
        "connection was opened"))
    else
      let observed := observed ++ (current.identity.keys.filter fun key => key ∈ approved.keys ∧ key ∉ observed)
      if approved.keys.all (· ∈ observed) then
        return { current with
          identity := approved
          knownHostLines := approved.keys.map fun key =>
            lookupName host port ++ " " ++ key.algorithm ++ " " ++ key.encoded
          known := current.known.filter (·.key ∈ approved.keys) }
      else
        pauseIf (fuel ≠ 0)
        approvedScans host port approved fuel observed

def preflightApproved (host : String) (port : Nat) (approved : HostIdentity) : Run HostKeyPreflight := do
  if approved.host ≠ host ∨ approved.port ≠ port then
    refuse (.tool "approved host-key target mismatch")
  else if approved.keys = [] then refuse .noKeys
  else approvedScans runner verifier host port approved 3 []

end

end NixSecrets.HostKey
