import NixSecrets.HostKeyLines

namespace NixSecrets

namespace HostKey

/-- What follows the line number in a comment of `ssh-keygen -F`. -/
inductive Suffix
  | bare
  | blank
  | revoked
  | certAuthority
  deriving DecidableEq, Repr

def Suffix.text : Suffix → List Char
  | .bare => []
  | .blank => " ".toList
  | .revoked => " REVOKED".toList
  | .certAuthority => " CA".toList

def Suffix.marks : Suffix → Bool
  | .bare | .blank => false
  | .revoked | .certAuthority => true

/-- The line number a comment reports. -/
def foundLine (line : List Char) : Option Nat := do
  let rest ← strip "# Host ".toList line
  let (_, number) ← rsplitOnce "found: line ".toList rest
  parseNumber (trim number)

/-- A line without the return that ends it. -/
def chomp (line : List Char) : List Char := (stripEnd ['\r'] line).getD line

/-- One line that is found: its number in the file, what the comment adds to it, and the line. -/
structure Found where
  name : List Char
  number : Nat
  suffix : Suffix
  entry : List Char
  nameLine : '\n' ∉ name
  entryLine : '\n' ∉ entry
  numberBound : number < 2 ^ 64
  marked : suffix.marks = true → (words (chomp entry)).head?.any (·.head? = some '@') = true
  entryPlain : foundLine (chomp entry) = none

def Found.comment (found : Found) : List Char :=
  "# Host ".toList ++ found.name ++ " found: line ".toList ++ Nat.toDigits 10 found.number ++ found.suffix.text

def Found.text (found : Found) : List Char := found.comment ++ '\n' :: (found.entry ++ ['\n'])

/-- The key of the line, if it is read as one. -/
def Found.key (found : Found) : Option KeyLine := parseKeyLine (chomp found.entry)

/-- The number of the comment, if it is read as one. -/
def Found.shown (found : Found) : Option Nat := if found.suffix.marks then none else some found.number

/-- What `ssh-keygen -F` prints about one file, in the file's order. -/
structure Listing where
  founds : List Found
  ordered : founds.Pairwise fun earlier later => earlier.number < later.number

def Listing.text (listing : Listing) : List Char := listing.founds.flatMap Found.text

/-- The keys of a listing, each with the number of its own comment. -/
def Listing.keys (listing : Listing) (path : String) : List KnownKey :=
  listing.founds.filterMap fun found => found.key.map fun line => ⟨path, some found.number, line.presented⟩

namespace Found

variable (found : Found)

/-- What stands behind `line ` in the comment. -/
def tail : List Char := Nat.toDigits 10 found.number ++ found.suffix.text

end Found

namespace Listing

variable (listing : Listing)

/-- What preflight records about a file. -/
def recorded (path : String) (text : List Char) : List KnownKey :=
  (parseKeyLines text).mapIdx fun i line => ⟨path, (foundLines text)[i]?, line.presented⟩

end Listing

section

variable {runner : Runner} {verifier : HostKeyVerifier}

end

end HostKey

end NixSecrets
