import Mathlib.Data.List.Sort
import Mathlib.Data.Prod.Lex
import Mathlib.Data.String.Basic
import NixSecrets.Base64
import NixSecrets.DecryptBatch
import NixSecrets.KnownHosts

namespace NixSecrets.Crypto

open Inventory (fields)

def headerVersion : List Char := "age-encryption.org/v1".toList

def maxHeaderLines : Nat := 1024

/-- The type and the tag of a recipient stanza. -/
abbrev StanzaTag := String × String

def sortTags (tags : List StanzaTag) : List StanzaTag := tags.mergeSort fun a b => decide (toLex a ≤ toLex b)

abbrev Digest256 := { digest : List UInt8 // digest.length = 32 }

def isSshKind (kind : List Char) : Bool := kind = "ssh-ed25519".toList ∨ kind = "ssh-rsa".toList

def invalidHeader {α : Type} : Except CryptoError α := .error .invalidRecord

/-- The fields of a stanza line behind its arrow. -/
def stanzaFields (text : List Char) : Option (List (List Char)) :=
  (strip "-> ".toList text).map (·.splitOn ' ')

def isFooter (text : List Char) : Bool := "--- ".toList.isPrefixOf text

section

variable (sha256 : List UInt8 → Digest256)

def tagOf (blob : List UInt8) : String := String.ofList (base64EncodeNoPad ((sha256 blob).val.take 4))

def stanzaTag (sshPublicKey : List Char) : Except CryptoError StanzaTag :=
  match fields sshPublicKey with
  | [] => .error .invalidRecipient
  | kind :: rest =>
    if ¬ isSshKind kind then .error .invalidRecipient
    else
      match rest.head?.bind base64Decode with
      | none => .error .invalidRecipient
      | some blob => .ok (String.ofList kind, tagOf sha256 blob)

/-- What one stanza line adds to the tags. -/
def checkStanza (arguments : List (List Char)) : Except CryptoError StanzaTag :=
  match arguments with
  | kind :: rest =>
    if isSshKind kind then
      match rest with
      | tag :: _ => .ok (String.ofList kind, String.ofList tag)
      | [] => invalidHeader
    else .error .recipientMismatch
  | [] => .error .recipientMismatch

def verifyLines (expected : List StanzaTag) : Nat → List StanzaTag → List (List UInt8) → Except CryptoError Unit
  | _, _, [] => invalidHeader
  | index, actual, line :: rest =>
    if maxHeaderLines < index then invalidHeader
    else
      match utf8Text line with
      | none => invalidHeader
      | some text =>
        if isFooter text then
          if sortTags actual = expected then .ok () else .error .recipientMismatch
        else
          match stanzaFields text with
          | none => verifyLines expected (index + 1) actual rest
          | some arguments =>
            match checkStanza arguments with
            | .error error => .error error
            | .ok tag => verifyLines expected (index + 1) (actual ++ [tag]) rest

/-- The lines behind the version line. -/
def headerLines (ciphertext : List UInt8) : Except CryptoError (List (List UInt8)) :=
  match ciphertext.splitOn 10 with
  | first :: lines => if first = utf8Bytes headerVersion then .ok lines else invalidHeader
  | [] => invalidHeader

def verifySshRecipientHeader (ciphertext : List UInt8) (sshPublicKeys : List (List Char)) :
    Except CryptoError Unit := do
  if ciphertext = [] ∨ maxCiphertextSize < ciphertext.length then invalidHeader
  else
    let expected ← sshPublicKeys.mapM (stanzaTag sha256)
    let lines ← headerLines ciphertext
    verifyLines (sortTags expected) 0 [] lines

/-- The tag of a stanza line that is one of an SSH key. -/
def sshTag (arguments : List (List Char)) : Option StanzaTag :=
  match arguments with
  | kind :: tag :: _ => if isSshKind kind then some (String.ofList kind, String.ofList tag) else none
  | _ => none

def listLines : Nat → List StanzaTag → List (List UInt8) → Except CryptoError (List StanzaTag)
  | _, _, [] => invalidHeader
  | index, tags, line :: rest =>
    if maxHeaderLines < index then invalidHeader
    else
      match utf8Text line with
      | none => invalidHeader
      | some text =>
        if isFooter text then .ok tags
        else
          match stanzaFields text with
          | none => listLines (index + 1) tags rest
          | some arguments => listLines (index + 1) (tags ++ (sshTag arguments).toList) rest

def sshStanzaTags (ciphertext : List UInt8) : Except CryptoError (List StanzaTag) := do
  let lines ← headerLines ciphertext
  listLines 0 [] lines

def fingerprintStanzaTag (fingerprint : List Char) : Option String := do
  let digest ← base64DecodeNoPad (← strip "SHA256:".toList fingerprint)
  if digest.length = 32 then some (String.ofList (base64EncodeNoPad (digest.take 4))) else none

/-- The OpenSSH fingerprint of a key. -/
def fingerprintOf (blob : List UInt8) : List Char := "SHA256:".toList ++ base64EncodeNoPad (sha256 blob).val

end

/-- A stanza as the age format writes it. -/
structure Stanza where
  kind : List Char
  arguments : List (List Char)
  fullLines : List (List Char)
  lastLine : List Char
  deriving DecidableEq, Repr

/-- A visible character of ASCII. -/
def isVisible (c : Char) : Bool := 33 ≤ c.toNat ∧ c.toNat < 127

def isBase64Char (c : Char) : Bool := (base64Value c).isSome

structure Stanza.Wellformed (stanza : Stanza) : Prop where
  kind : stanza.kind ≠ [] ∧ stanza.kind.all isVisible = true
  arguments : ∀ argument ∈ stanza.arguments, argument ≠ [] ∧ argument.all isVisible = true
  fullLines : ∀ line ∈ stanza.fullLines, line.length = 64 ∧ line.all isBase64Char = true
  lastLine : stanza.lastLine.length < 64 ∧ stanza.lastLine.all isBase64Char = true

def Stanza.body (stanza : Stanza) : List (List Char) := stanza.fullLines ++ [stanza.lastLine]

def Stanza.line (stanza : Stanza) : List Char :=
  "-> ".toList ++ [' '].intercalate (stanza.kind :: stanza.arguments)

def Stanza.lines (stanza : Stanza) : List (List Char) := stanza.line :: stanza.body

/-- An age file, in its parts. -/
structure AgeFile where
  stanzas : List Stanza
  mac : List Char
  payload : List UInt8

structure AgeFile.Wellformed (file : AgeFile) : Prop where
  stanzas : ∀ stanza ∈ file.stanzas, stanza.Wellformed
  mac : file.mac.length = 43 ∧ file.mac.all isBase64Char = true

def AgeFile.footer (file : AgeFile) : List Char := "--- ".toList ++ file.mac

/-- The lines between the version line and the footer. -/
def AgeFile.stanzaLines (file : AgeFile) : List (List Char) := file.stanzas.flatMap Stanza.lines

def AgeFile.bytes (file : AgeFile) : List UInt8 :=
  (headerVersion :: file.stanzaLines ++ [file.footer]).flatMap (fun line => utf8Bytes line ++ [10]) ++ file.payload

/-- The type and tag of a stanza for an SSH key. -/
def Stanza.tag? (stanza : Stanza) : Option StanzaTag := sshTag (stanza.kind :: stanza.arguments)

end NixSecrets.Crypto
