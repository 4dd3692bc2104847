import NixSecrets.InventorySchema

namespace NixSecrets.Inventory

/-- Addresses as numbers of 32 and 128 bits. -/
inductive IpAddr
  | v4 (address : Nat)
  | v6 (address : Nat)
  deriving DecidableEq, Repr

structure KeyAlgorithm where
  supported : Bool
  name : String
  deriving DecidableEq, Repr

/-- What the checks take from the standard library and from other packages. -/
structure Libraries where
  parseIp : List Char → Option IpAddr
  decodeBase64 : List Char → Option (List UInt8)
  /-- The algorithm of an OpenSSH public key. -/
  opensshKey : List Char → Option KeyAlgorithm
  /-- Why a pattern is no regular expression. -/
  regexError : String → Option String

def fields (line : List Char) : List (List Char) :=
  (line.splitOnP isAsciiWhitespace).filter (· ≠ [])

def fromStrRadix (radix : Nat) (digits : List Char) : Option Nat := do
  let value ← digits.foldlM (fun value c => (hexValue c).bind fun digit =>
    if digit < radix then some (radix * value + digit) else none) 0
  if value < 2 ^ 32 then some value else none

section

variable {ε : Type}

def inetAtonPart (part : List Char) : Checked ε (Option Nat) := do
  let (digits, radix) ← match (strip ['0', 'x'] part).or (strip ['0', 'X'] part) with
    | some hex => pure (hex, 16)
    | none =>
      if 1 < utf8Length part ∧ part.head? = some '0' then do
        pure (← Checked.orPanic (sliceBytes part 1 (utf8Length part)), 8)
      else pure (part, 10)
  if digits = [] ∨ digits.any (hexValue · |>.isNone) then return none
  else return fromStrRadix radix digits

def inetAtonParts : List (List Char) → Checked ε (Option (List Nat))
  | [] => return some []
  | part :: rest => do
    match ← inetAtonPart part with
    | none => return none
    | some value => return (← inetAtonParts rest).map (value :: ·)

/-- The address of a numeric form that resolvers accept besides the dotted quad. -/
def inetAton (host : List Char) : Checked ε (Option Nat) := do
  let some parts ← inetAtonParts (host.splitOn '.') | return none
  let some last := parts.getLast? | return none
  let leading := parts.dropLast
  let lastBits := 8 * (4 - min leading.length 4)
  if 3 < leading.length ∨ leading.any (0xff < ·) ∨ 2 ^ lastBits ≤ last then return none
  else
    let high := leading.foldl (fun address part => address * 2 ^ 8 + part) 0
    return if high * 2 ^ lastBits + last < 2 ^ 32 then some (high * 2 ^ lastBits + last) else none

def IpAddr.unmapped : IpAddr → IpAddr
  | .v6 address => if address / 2 ^ 32 = 0xffff then .v4 (address % 2 ^ 32) else .v6 address
  | .v4 address => .v4 address

def IpAddr.localKind : IpAddr → Option String
  | .v4 address =>
    if address / 2 ^ 24 = 127 then some "a loopback address"
    else if address = 0 then some "the unspecified address"
    else if address / 2 ^ 16 = 0xa9fe then some "a link-local address"
    else none
  | .v6 address =>
    if address = 1 then some "a loopback address"
    else if address = 0 then some "the unspecified address"
    else if address / 2 ^ 118 = 0xfe80 / 2 ^ 6 then some "a link-local address"
    else none

variable (libs : Libraries)

/-- Why a pin may never name this host, if it may not. -/
def localOnlySshHost (host : List Char) : Checked ε (Option String) := do
  let host := (stripEnd ['.'] host).getD host
  let lower := host.map Char.toLower
  if lower = "localhost".toList ∨ ".localhost".toList.isSuffixOf lower then
    return some "a loopback name"
  else
    let literal := ((splitOnceText ['%'] host).map Prod.fst).getD host
    match libs.parseIp literal with
    | some address => return address.unmapped.localKind
    | none => return (← inetAton host).bind fun address => (IpAddr.v4 address).localKind

end

def maxKnownHostsBytes : Nat := 64 * 1024
def maxKnownHostsLines : Nat := 256

def sshName (host : List Char) (port : UInt16) : List Char :=
  '[' :: host ++ "]:".toList ++ (toString port.toNat).toList

section

variable (libs : Libraries) (hosts : List String) (port : UInt16)

/-- One line of a known_hosts value: the host it names and the pin. -/
def knownHostsLine (number : Nat) (line : List Char) :
    Checked String (List Char × List Char × List Char × List Char) := do
  let place := "known_hosts line " ++ toString number
  Checked.refuseIf (line.any ['*', '?', ',', '@', '|', '#'].contains)
    (place ++ ": markers, wildcards, and host lists are forbidden")
  match fields line with
  | [name, algorithm, encoded] =>
    Checked.refuseIf (line ≠ name ++ ' ' :: algorithm ++ ' ' :: encoded)
      (place ++ " is not a canonical `[host]:port algorithm key` line")
    let bare := ((strip ['['] name).bind (splitOnceText [']', ':'])).elim name Prod.fst
    if let some kind ← localOnlySshHost libs bare then
      Checked.refuse (place ++ " names " ++ String.ofList bare ++ ", which is " ++ kind ++
        " and is never pinned")
    let host ← Checked.orRefuse (place ++ " names " ++ String.ofList name ++
        ", but the schema allows only " ++ ", ".intercalate hosts ++ " on port " ++
        toString port.toNat)
      ((hosts.map String.toList).find? fun host => name = sshName host port || (port = 22 && name = host))
    let host ← if name = host then pure name
      else Checked.orPanic (sliceBytes name 1 (1 + utf8Length host))
    let key ← Checked.orRefuse (place ++ " (" ++ String.ofList name ++ ") has an invalid key")
      (libs.opensshKey (algorithm ++ ' ' :: encoded))
    Checked.refuseIf (¬ key.supported ∨ key.name ≠ String.ofList algorithm)
      (place ++ " (" ++ String.ofList name ++ "): the key must be Ed25519, ECDSA or RSA")
    return (name, encoded, host, algorithm ++ ' ' :: encoded)
  | _ => Checked.refuse (place ++ " is not a canonical `[host]:port algorithm key` line")

/-- The lines from number `number` on; `seen` are the names and keys before them. -/
def knownHostsBody : Nat → List (List Char × List Char) → List (List Char) →
    Checked String (List (String × String))
  | _, _, [] => return []
  | number, seen, line :: rest => do
    Checked.refuseIf (number = maxKnownHostsLines + 1) "known_hosts value has too many lines"
    let (name, encoded, host, pin) ← knownHostsLine libs hosts port number line
    Checked.refuseIf ((name, encoded) ∈ seen) ("known_hosts line " ++ toString number ++ " (" ++
      String.ofList name ++ ") repeats an earlier line")
    let lines ← knownHostsBody (number + 1) ((name, encoded) :: seen) rest
    return (String.ofList host, String.ofList pin) :: lines

def knownHostsLines (value : String) : Checked String (List (String × String)) := do
  Checked.refuseIf (maxKnownHostsBytes < value.utf8ByteSize ∨ '\r' ∈ value.toList)
    "known_hosts value is too large or contains carriage return"
  let body := (stripEnd ['\n'] value.toList).getD value.toList
  Checked.refuseIf (body = []) "known_hosts value is empty"
  knownHostsBody libs hosts port 1 [] (body.splitOn '\n')

def validateSshKnownHosts (value : String) : Checked String Unit := do
  let _ ← knownHostsLines libs hosts port value
  return ()

end

section

variable {ε : Type}

/-- The octal digits begin after a character of one byte. -/
theorem octal_answers {part : List Char} (h : part.head? = some '0') :
    (Checked.orPanic (sliceBytes part 1 (utf8Length part)) : Checked ε _).Answers := by
  rw [Checked.answers_orPanic]
  cases part with
  | nil => cases h
  | cons c rest =>
    cases Option.some.inj h
    have hone : utf8Length ['0'] = 1 := by decide
    have hslice := sliceBytes_append ['0'] rest []
    rw [List.append_nil, hone] at hslice
    have hstop : utf8Length ('0' :: rest) = 1 + utf8Length rest := by
      rw [← hone, ← utf8Length_append]
      rfl
    rw [hstop]
    show (sliceBytes (['0'] ++ rest) 1 (1 + utf8Length rest)).isSome = true
    rw [hslice]
    rfl

theorem inetAtonPart_answers (part : List Char) : (inetAtonPart part : Checked ε _).Answers := by
  have hdigits (found : List Char × Nat) : (if found.1 = [] ∨ found.1.any (hexValue · |>.isNone)
      then pure none else pure (fromStrRadix found.2 found.1) : Checked ε (Option Nat)).Answers := by
    split
    · exact Checked.answers_pure none
    · exact Checked.answers_pure _
  unfold inetAtonPart
  dsimp only
  split
  next => exact Checked.answers_bind.mpr ⟨Checked.answers_pure _, fun found _ => hdigits found⟩
  next =>
    split
    next hoctal =>
      refine Checked.answers_bind.mpr ⟨octal_answers hoctal.2, fun _ _ => ?_⟩
      exact Checked.answers_bind.mpr ⟨Checked.answers_pure _, fun found _ => hdigits found⟩
    next => exact Checked.answers_bind.mpr ⟨Checked.answers_pure _, fun found _ => hdigits found⟩

theorem inetAtonParts_answers (parts : List (List Char)) :
    (inetAtonParts parts : Checked ε _).Answers := by
  induction parts with
  | nil => exact Checked.answers_pure _
  | cons part rest ih =>
    refine Checked.answers_bind.mpr ⟨inetAtonPart_answers part, fun found _ => ?_⟩
    cases found with
    | none => exact Checked.answers_pure none
    | some value => exact Checked.answers_bind.mpr ⟨ih, fun _ _ => Checked.answers_pure _⟩

theorem inetAton_answers (host : List Char) : (inetAton host : Checked ε _).Answers := by
  refine Checked.answers_bind.mpr ⟨inetAtonParts_answers _, fun found _ => ?_⟩
  cases found with
  | none => exact Checked.answers_pure none
  | some parts =>
    dsimp only
    split
    next =>
      split
      · exact Checked.answers_pure none
      · exact Checked.answers_pure _
    next => exact Checked.answers_pure none

theorem localOnlySshHost_answers (libs : Libraries) (host : List Char) :
    (localOnlySshHost libs host : Checked ε _).Answers := by
  unfold localOnlySshHost
  dsimp only
  split
  · exact Checked.answers_pure _
  · split
    · exact Checked.answers_pure _
    · exact Checked.answers_bind.mpr ⟨inetAton_answers _, fun _ _ => Checked.answers_pure _⟩

end

section

variable (libs : Libraries) (hosts : List String) (port : UInt16)

/-- The host is found inside the brackets of its own name. -/
theorem sliceBytes_sshName (host : List Char) :
    sliceBytes (sshName host port) 1 (1 + utf8Length host) = some host := by
  have hone : utf8Length ['['] = 1 := by decide
  have hslice := sliceBytes_append ['['] host ("]:".toList ++ (toString port.toNat).toList)
  rw [hone] at hslice
  rw [sshName, List.append_assoc]
  exact hslice

theorem knownHostsLine_answers (number : Nat) (line : List Char) :
    (knownHostsLine libs hosts port number line).Answers := by
  unfold knownHostsLine
  refine Checked.answers_bind.mpr ⟨Checked.answers_refuseIf _, fun _ _ => ?_⟩
  split
  next name algorithm encoded _ =>
    refine Checked.answers_bind.mpr ⟨Checked.answers_refuseIf _, fun _ _ => ?_⟩
    refine Checked.answers_bind.mpr ⟨localOnlySshHost_answers libs _, fun kind _ => ?_⟩
    dsimp only
    split
    · exact Checked.answers_bind.mpr ⟨Checked.answers_refuse _, fun _ h => by cases h⟩
    · refine Checked.answers_bind.mpr ⟨Checked.answers_orRefuse _ _, fun host hhost => ?_⟩
      have hkey : ∀ shown : List Char, (do
          let key ← Checked.orRefuse ("known_hosts line " ++ toString number ++ " (" ++
            String.ofList name ++ ") has an invalid key") (libs.opensshKey (algorithm ++ ' ' :: encoded))
          Checked.refuseIf (¬ key.supported ∨ key.name ≠ String.ofList algorithm)
            ("known_hosts line " ++ toString number ++ " (" ++ String.ofList name ++
              "): the key must be Ed25519, ECDSA or RSA")
          pure (name, encoded, shown, algorithm ++ ' ' :: encoded) : Checked String _).Answers := by
        intro shown
        refine Checked.answers_bind.mpr ⟨Checked.answers_orRefuse _ _, fun key _ => ?_⟩
        exact Checked.answers_bind.mpr ⟨Checked.answers_refuseIf _, fun _ _ => Checked.answers_pure _⟩
      split
      next => exact Checked.answers_bind.mpr ⟨Checked.answers_pure _, fun shown _ => hkey shown⟩
      next hname =>
        have hfound := List.find?_some (Checked.orRefuse_ok hhost)
        have hbrackets : name = sshName host port := by simpa [hname] using hfound
        refine Checked.answers_bind.mpr ⟨?_, fun shown _ => hkey shown⟩
        rw [Checked.answers_orPanic, hbrackets, sliceBytes_sshName]
        rfl
  next => exact Checked.answers_refuse _

theorem knownHostsBody_answers (number : Nat) (seen : List (List Char × List Char))
    (lines : List (List Char)) : (knownHostsBody libs hosts port number seen lines).Answers := by
  induction lines generalizing number seen with
  | nil => exact Checked.answers_pure _
  | cons line rest ih =>
    unfold knownHostsBody
    refine Checked.answers_bind.mpr ⟨Checked.answers_refuseIf _, fun _ _ => ?_⟩
    refine Checked.answers_bind.mpr ⟨knownHostsLine_answers libs hosts port number line, fun _ _ => ?_⟩
    refine Checked.answers_bind.mpr ⟨Checked.answers_refuseIf _, fun _ _ => ?_⟩
    exact Checked.answers_bind.mpr ⟨ih _ _, fun _ _ => Checked.answers_pure _⟩

theorem validateSshKnownHosts_answers (value : String) :
    (validateSshKnownHosts libs hosts port value).Answers := by
  refine Checked.answers_bind.mpr ⟨?_, fun _ _ => Checked.answers_pure _⟩
  refine Checked.answers_bind.mpr ⟨Checked.answers_refuseIf _, fun _ _ => ?_⟩
  exact Checked.answers_bind.mpr ⟨Checked.answers_refuseIf _, fun _ _ =>
    knownHostsBody_answers libs hosts port 1 [] _⟩

end

def sshString (input : List UInt8) : Option (List UInt8 × List UInt8) := do
  if input.length < 4 then none
  else
    let length := (input.take 4).foldl (fun n b => n * 256 + b.toNat) 0
    if input.length < 4 + length then none
    else some ((input.drop 4).take length, input.drop (4 + length))

def validKeyBlob (algorithm : String) (input : List UInt8) : Bool :=
  if algorithm = "ssh-ed25519" then
    (sshString input).any fun (key, rest) => key.length = 32 && rest = []
  else if algorithm = "ssh-rsa" then
    (sshString input).any fun (exponent, rest) => exponent ≠ [] &&
      (sshString rest).any fun (modulus, tail) => modulus ≠ [] && tail = []
  else match strip "ecdsa-sha2-".toList algorithm.toList with
    | some name => (sshString input).any fun (curve, rest) => utf8Bytes name = curve &&
        (sshString rest).any fun (point, tail) => point ≠ [] && tail = []
    | none => false

def validSshPublicKey (libs : Libraries) (key : String) : Bool :=
  if trim key.toList ≠ key.toList ∨ '\r' ∈ key.toList ∨ '\n' ∈ key.toList then false
  else match fields key.toList with
    | algorithm :: encoded :: _ =>
      if String.ofList algorithm ∈ ["ssh-ed25519", "ssh-rsa", "ecdsa-sha2-nistp256",
          "ecdsa-sha2-nistp384", "ecdsa-sha2-nistp521"] then
        ((libs.decodeBase64 encoded).bind sshString).any fun (embedded, remainder) =>
          embedded = utf8Bytes algorithm && validKeyBlob (String.ofList algorithm) remainder
      else false
    | _ => false

end NixSecrets.Inventory
