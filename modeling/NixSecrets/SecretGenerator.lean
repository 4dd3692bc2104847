import NixSecrets.Base64
import NixSecrets.SchemaLeaves
import NixSecrets.ValueGeneration

namespace NixSecrets.Generator

inductive ByteEncoding
  | raw | hexLower | base64 | base64UrlUnpadded
  deriving DecidableEq, Repr

inductive GeneratorOptions
  | password (length : Nat) (alphabet : String)
  | passphrase (words : Nat) (separator : String) (wordList : List String)
  | bytes (length : Nat) (encoding : ByteEncoding)
  deriving DecidableEq, Repr

inductive GeneratorError
  | empty (field : String)
  | duplicateAlphabetCharacter
  | limit (field : String)
  | randomness
  | encoding
  deriving DecidableEq, Repr

def GeneratorError.display : GeneratorError → String
  | .empty field => field ++ " must not be empty"
  | .duplicateAlphabetCharacter => "password alphabet contains duplicate characters"
  | .limit field => field ++ " exceeds its safety limit"
  | .randomness => "operating-system randomness failed"
  | .encoding => "output encoding failed"

/-- Fills as many bytes as it is asked for, or fails. -/
structure RandomSource (σ : Type) where
  fill : (length : Nat) → σ → Except GeneratorError ({ bytes : List UInt8 // bytes.length = length } × σ)

/-- An error, or a loop that has not ended yet. -/
inductive Failure (ε : Type)
  | error (error : ε)
  | unfinished
  deriving DecidableEq, Repr

abbrev Draw (σ ε : Type) := StateT σ (Checked (Failure ε))

def maxOutputBytes : Nat := 1024 * 1024

def maxAlphabetChars : Nat := 4096

def maxWords : Nat := 8192

def maxWordBytes : Nat := 4096

section

variable {σ ε α : Type}

def check (x : Checked ε α) : Draw σ ε α := fun s =>
  match x.mapRefusal Failure.error with
  | .ok a => .ok (a, s)
  | .error stop => .error stop

def refuseIf (c : Prop) [Decidable c] (error : ε) : Draw σ ε Unit := check (Checked.refuseIf c error)

def orRefuse (error : ε) (x : Option α) : Draw σ ε α := check (Checked.orRefuse error x)

def mapError {ε' : Type} (f : ε → ε') (m : Draw σ ε α) : Draw σ ε' α := fun s =>
  (m s).mapRefusal fun failure =>
    match failure with
    | .error error => .error (f error)
    | .unfinished => .unfinished

/-- The draws below this are left out; division by zero panics. -/
def threshold (bound : UInt64) : Checked ε UInt64 :=
  if bound = 0 then Checked.panic else .ok (-bound % bound)

def pick (bound threshold value : UInt64) : Option UInt64 :=
  if threshold ≤ value then some (value % bound) else none

def fromLeBytes (bytes : List UInt8) : UInt64 := 
  UInt64.ofNat (bytes.foldr (fun byte value => byte.toNat + 256 * value) 0)

def checkedMul (a b : Nat) : Option Nat := if a * b < 2 ^ 64 then some (a * b) else none

def checkedAdd (a b : Nat) : Option Nat := if a + b < 2 ^ 64 then some (a + b) else none

def encodedLength (length : Nat) (encoding : ByteEncoding) : Checked GeneratorError Nat :=
  Checked.orRefuse (.limit "encoded output") (match encoding with
    | .raw => some length
    | .hexLower => checkedMul length 2
    | .base64 => (checkedAdd length 2).bind fun size => checkedMul (size / 3) 4
    | .base64UrlUnpadded => ((checkedMul length 4).bind (checkedAdd · 2)).map (· / 3))

def hexLower (raw : List UInt8) : List UInt8 :=
  utf8Bytes (raw.flatMap fun byte => [Nat.digitChar (byte.toNat / 16), Nat.digitChar (byte.toNat % 16)])

def urlSafe (c : Char) : Char := if c = '+' then '-' else if c = '/' then '_' else c

/-- What the encoder of the base64 package writes. -/
def engine : ByteEncoding → List UInt8 → List UInt8
  | .base64, raw => utf8Bytes (base64Encode raw)
  | .base64UrlUnpadded, raw => utf8Bytes ((base64EncodeNoPad raw).map urlSafe)
  | .raw, raw => raw
  | .hexLower, raw => hexLower raw

/-- The encoder refuses a slice that is too short for it. -/
def encodeBase64 (raw : List UInt8) (length : Nat) (encoding : ByteEncoding) : Checked GeneratorError (List UInt8) :=
  if (engine encoding raw).length ≤ length then .ok (engine encoding raw) else Checked.refuse .encoding

def requireNonzero (value : Nat) (field : String) : Draw σ GeneratorError Unit :=
  refuseIf (value = 0) (.empty field)

def requireOutputBound (length : Nat) : Draw σ GeneratorError Unit :=
  refuseIf (maxOutputBytes < length) (.limit "generated output")

variable (random : RandomSource σ) (rounds : Nat)

def fill (length : Nat) : Draw σ GeneratorError (List UInt8) := fun s =>
  match random.fill length s with
  | .ok (bytes, s) => .ok (bytes.1, s)
  | .error error => Checked.refuse (.error error)

/-- Draws until a draw is taken, as many times as there are rounds. -/
def drawIndex (bound threshold : UInt64) : Nat → Draw σ GeneratorError Nat
  | 0 => fun _ => Checked.refuse .unfinished
  | rounds + 1 => do
    let bytes ← fill random 8
    match pick bound threshold (fromLeBytes bytes) with
    | some index => return index.toNat
    | none => drawIndex bound threshold rounds

def uniformIndex (bound : Nat) : Draw σ GeneratorError Nat := do
  refuseIf (2 ^ 64 ≤ bound) (.limit "selection domain")
  let limit ← check (threshold (UInt64.ofNat bound))
  drawIndex random (UInt64.ofNat bound) limit rounds

def passwordChars (characters : List Char) : Nat → Draw σ GeneratorError (List UInt8)
  | 0 => return []
  | length + 1 => do
    let index ← uniformIndex random rounds characters.length
    let c ← check (Checked.index characters index)
    let output ← passwordChars characters length
    return utf8Bytes [c] ++ output

def password (length : Nat) (alphabet : String) : Draw σ GeneratorError (List UInt8) := do
  requireNonzero length "password length"
  let characters := alphabet.toList
  requireNonzero characters.length "password alphabet"
  refuseIf (maxAlphabetChars < characters.length) (.limit "password alphabet")
  refuseIf (¬ characters.Nodup) .duplicateAlphabetCharacter
  let maximum ← orRefuse (.limit "password output") (checkedMul length 4)
  requireOutputBound maximum
  passwordChars random rounds characters length

def passphraseWords (separator : String) (words : List String) : Nat → Nat → Draw σ GeneratorError (List UInt8)
  | _, 0 => return []
  | position, count + 1 => do
    let index ← uniformIndex random rounds words.length
    let word ← check (Checked.index words index)
    let output ← passphraseWords separator words (position + 1) count
    return (if position ≠ 0 then utf8Bytes separator.toList else []) ++ utf8Bytes word.toList ++ output

def passphrase (count : Nat) (separator : String) (words : List String) : Draw σ GeneratorError (List UInt8) := do
  requireNonzero count "passphrase word count"
  requireNonzero words.length "passphrase word list"
  refuseIf (maxWords < count ∨ maxWords < words.length) (.limit "passphrase words")
  refuseIf (words.any (· = "")) (.empty "passphrase word")
  refuseIf (words.any (maxWordBytes < ·.utf8ByteSize)) (.limit "passphrase word")
  let longest := (words.map (·.utf8ByteSize)).foldr max 0
  let maximum ← orRefuse (.limit "passphrase output") ((checkedMul count longest).bind fun size =>
    (checkedMul (count - 1) separator.utf8ByteSize).bind fun separators => checkedAdd size separators)
  requireOutputBound maximum
  passphraseWords random rounds separator words 0 count

def fixedBytes (length : Nat) (encoding : ByteEncoding) : Draw σ GeneratorError (List UInt8) := do
  requireNonzero length "byte length"
  let outputLength ← check (encodedLength length encoding)
  requireOutputBound outputLength
  let raw ← fill random length
  match encoding with
  | .raw => return raw
  | .hexLower => return hexLower raw
  | .base64 => check (encodeBase64 raw outputLength .base64)
  | .base64UrlUnpadded => check (encodeBase64 raw outputLength .base64UrlUnpadded)

def generateWith : GeneratorOptions → Draw σ GeneratorError (List UInt8)
  | .password length alphabet => password random rounds length alphabet
  | .passphrase words separator wordList => passphrase random rounds words separator wordList
  | .bytes length encoding => fixedBytes random length encoding

end

end NixSecrets.Generator

namespace NixSecrets.Inventory

open Generator

/-- What the checks of a value take from the regex package. -/
structure RegexLibrary where
  regexError : String → Option String
  isMatch : String → List Char → Bool

def ConsumerConstraints.accepts (libs : RegexLibrary) (constraints : ConsumerConstraints) (value : List Char) :
    Checked String Unit := do
  Checked.refuseIf (value.length < constraints.cannotHandleShorterThan.getD 0)
    "password is shorter than the consumer accepts"
  Checked.refuseIf (constraints.cannotHandleLongerThan.getD (2 ^ 64 - 1) < value.length)
    "password is longer than the consumer accepts"
  match constraints.matchingRegex with
  | none => .ok ()
  | some pattern =>
    let regex := "\\A(?:" ++ pattern ++ ")\\z"
    match libs.regexError regex with
    | some error => Checked.refuse ("invalid consumer matching regex: " ++ error)
    | none => Checked.refuseIf (libs.isMatch regex value = false) "password does not match the consumer format"

/-- Whether there are no constraints, or the bytes are a text that they accept. -/
def accepted (libs : RegexLibrary) (constraints : Option ConsumerConstraints) (value : List UInt8) : Bool :=
  match constraints with
  | none => true
  | some constraints =>
    match utf8Text value with
    | none => false
    | some text => (constraints.accepts libs text).toBool

def passwordAlphabets : List String := [
  "ABCDEFGHIJKLMNOPQRSTUVWXYZabcdefghijklmnopqrstuvwxyz0123456789!#$%&()*+,-./:;<=>?@[]^_\x7b|\x7d~",
  "ABCDEFGHIJKLMNOPQRSTUVWXYZabcdefghijklmnopqrstuvwxyz0123456789",
  "abcdefghijklmnopqrstuvwxyz",
  "ABCDEFGHIJKLMNOPQRSTUVWXYZ",
  "0123456789"]

inductive GenerateKind
  | password | passphrase
  deriving DecidableEq, Repr

section

variable {σ : Type} (libs : RegexLibrary) (random : RandomSource σ) (rounds : Nat)

def passwordLength (constraints : Option ConsumerConstraints) : Checked String Nat := do
  let minimum := ((constraints.bind (·.cannotHandleShorterThan)).getD 0)
  let maximum := ((constraints.bind (·.cannotHandleLongerThan)).getD (2 ^ 64 - 1))
  Checked.refuseIf (256 < minimum ∨ maximum = 0)
    "consumer length limits cannot be met by the password generator"
  return min (max 32 minimum) maximum

/-- Generates by each of the options until a value is taken. -/
def tryOptions (accept : List UInt8 → Option (List UInt8)) :
    List GeneratorOptions → Draw σ String (Option (List UInt8))
  | [] => return none
  | options :: rest => do
    let value ← mapError GeneratorError.display (generateWith random rounds options)
    match accept value with
    | some value => return some value
    | none => tryOptions accept rest

def attempts (candidates : List GeneratorOptions) : List GeneratorOptions := candidates.flatMap (List.replicate 16)

def password (constraints : Option ConsumerConstraints) : Draw σ String (List UInt8) := do
  let length ← check (passwordLength constraints)
  let made ← tryOptions random rounds (fun value => if accepted libs constraints value then some value else none)
    (attempts (passwordAlphabets.map fun alphabet => .password length alphabet))
  orRefuse "the password generator could not meet the consumer format" made

def RandomEncoding.byteEncoding : RandomEncoding → ByteEncoding
  | .base64 => .base64
  | .base64UrlUnpadded => .base64UrlUnpadded
  | .hexLower => .hexLower

def DeployGenerator.generateWith : DeployGenerator → Draw σ String (List UInt8)
  | .password constraints => Inventory.password libs random rounds constraints
  | .declared (.randomBytes bytes encoding front suffix) => do
    check (ValueGenerator.randomBytes bytes encoding front suffix).validateDefinition
    let encoded ← mapError GeneratorError.display (Generator.generateWith random rounds (.bytes bytes encoding.byteEncoding))
    return utf8Bytes front.toList ++ encoded ++ utf8Bytes suffix.toList

/-- The options that are tried for a value the operator generates. -/
def candidates (words : List String) (kind : GenerateKind) (constraints : Option ConsumerConstraints) :
    Checked String (List GeneratorOptions) :=
  match kind with
  | .password => do
    let length ← passwordLength constraints
    return passwordAlphabets.map fun alphabet => .password length alphabet
  | .passphrase => .ok ((8 :: (List.range' 2 23).filter (· ≠ 8)).map fun count => .passphrase count "-" words)

def suffixes : GenerateKind → List String
  | .passphrase => ["", "1", "!", "-1!", "A1!", "_A1!", ".A1!"]
  | .password => [""]

def generateCompatible (words : List String) (kind : GenerateKind) (constraints : Option ConsumerConstraints) :
    Draw σ String (List UInt8) := do
  let options ← check (candidates words kind constraints)
  let made ← tryOptions random rounds (fun value =>
      ((suffixes kind).map fun suffix => value ++ utf8Bytes suffix.toList).find? (accepted libs constraints))
    (attempts options)
  orRefuse "the selected generator could not meet the consumer format" made

end

end NixSecrets.Inventory
