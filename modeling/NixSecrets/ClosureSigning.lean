import NixSecrets.ArtifactSigning
import NixSecrets.Base64
import NixSecrets.KnownHosts

namespace NixSecrets.ClosureSigning

def version : Nat := 1
def maxManifestBytes : Nat := 4 * 1024 * 1024
def maxPaths : Nat := 4096
def maxNarBytes : Nat := 128 * 1024 * 1024 * 1024

def nix32 : List Char := "0123456789abcdfghijklmnpqrsvwxyz".toList

structure ManifestPath where
  path : String
  narHash : String
  narSize : Nat
  references : List String
  deriving DecidableEq, Repr

def storeNameChar (c : Char) : Bool := c.isAlphanum || "+-._?=".toList.contains c

def canonicalStorePath (path : String) : Bool :=
  match strip "/nix/store/".toList path.toList with
  | none => false
  | some name =>
    33 < utf8Length name && utf8Length name ≤ 244 && name[32]? = some '-' && (name.take 32).all nix32.contains &&
      name[33]? ≠ some '.' && (name.drop 33).all storeNameChar

def ManifestPath.validate (path : ManifestPath) : Except String Unit :=
  if ¬ canonicalStorePath path.path then .error "invalid canonical Nix store path"
  else
    match strip "sha256:".toList path.narHash.toList with
    | none => .error "NAR hash must use sha256"
    | some hash =>
      if utf8Length hash ≠ 52 ∨ ¬ (hash.head? = some '0' ∨ hash.head? = some '1') ∨ ¬ hash.all nix32.contains then
        .error "NAR hash must be canonical sha256 Nix base32"
      else if path.narSize = 0 ∨ maxNarBytes < path.narSize then .error "NAR size outside permitted bounds"
      else if maxPaths < path.references.length then .error "too many references"
      else if path.references.any (fun reference => !canonicalStorePath reference) ∨
          (path.references.zip path.references.tail).any (fun pair => !decide (pair.1 < pair.2)) then
        .error "references must be sorted unique canonical store paths"
      else .ok ()

/-- What is signed for a path. -/
def ManifestPath.fingerprint (path : ManifestPath) : String :=
  "1;" ++ path.path ++ ";" ++ path.narHash ++ ";" ++ toString path.narSize ++ ";" ++
    ",".intercalate path.references

structure Manifest where
  version : Nat
  paths : List ManifestPath
  deriving DecidableEq, Repr

/-- The loop over the paths, with those it has seen. -/
def validatePaths : List String → List ManifestPath → Except String Unit
  | _, [] => .ok ()
  | seen, path :: rest => do
    path.validate
    if path.path ∈ seen then .error "duplicate closure path" else validatePaths (path.path :: seen) rest

structure PathSignature where
  path : String
  signature : String
  deriving DecidableEq, Repr

structure Signatures where
  version : Nat
  signatures : List PathSignature
  deriving DecidableEq, Repr

/-- Key pairs of Ed25519 and the JSON texts of manifests. -/
structure Libraries where
  Keypair : Type
  manifestJson : Manifest → Except String (List UInt8)
  fromKeypairBytes : List UInt8 → Option Keypair
  verifyingKey : Keypair → List UInt8
  sign : Keypair → List UInt8 → List UInt8
  sign_length : ∀ key message, (sign key message).length = 64

def keyNameChar (c : Char) : Bool := c.isAlphanum || "-._".toList.contains c

def validateNamedBase64 (value : String) (size : Nat) : Except String Unit :=
  match splitOnceText [':'] value.toList with
  | none => .error "missing Nix key name"
  | some (name, encoded) =>
    if name = [] ∨ 253 < utf8Length name ∨ ¬ name.all keyNameChar then .error "invalid Nix key name"
    else if utf8Length encoded ≠ (size + 2) / 3 * 4 then .error "invalid Nix key encoded size"
    else
      match base64Decode encoded with
      | none => .error "invalid Nix key base64"
      | some decoded =>
        if decoded.length ≠ size ∨ base64Encode decoded ≠ encoded then .error "invalid Nix key size or encoding"
        else .ok ()

/-- The loop over the signatures, with the paths it has seen. -/
def validateSignatures (expected : List String) : List String → List PathSignature → Except String Unit
  | _, [] => .ok ()
  | seen, signature :: rest =>
    if signature.path ∉ expected ∨ signature.path ∈ seen then .error "duplicate or unasked closure signature"
    else do
      validateNamedBase64 signature.signature 64
      validateSignatures expected (signature.path :: seen) rest

section

variable (libs : Libraries)

def Manifest.validate (manifest : Manifest) : Except String Unit :=
  if manifest.version ≠ ClosureSigning.version then .error "unsupported closure manifest version"
  else if manifest.paths = [] ∨ maxPaths < manifest.paths.length then .error "closure requires 1..4096 paths"
  else do
    validatePaths [] manifest.paths
    let json ← libs.manifestJson manifest
    if maxManifestBytes < json.length then .error "closure manifest exceeds 4 MiB" else .ok ()

def Signatures.validate (signatures : Signatures) (manifest : Manifest) : Except String Unit := do
  manifest.validate libs
  if signatures.version ≠ ClosureSigning.version ∨ signatures.signatures.length ≠ manifest.paths.length then
    .error "missing, extra or unsupported closure signatures"
  else validateSignatures (manifest.paths.map (·.path)) [] signatures.signatures

def parseNamed (bytes : List UInt8) : Except String (List Char × List Char) :=
  match utf8Text bytes with
  | none => .error "Nix signing key must be text"
  | some text =>
    match splitOnceText [':'] ((stripEnd ['\n'] text).getD text) with
    | none => .error "Nix signing key requires name:base64"
    | some (name, key) =>
      if name = [] ∨ 253 < utf8Length name ∨ ¬ name.all keyNameChar ∨ key = [] ∨ key.any isAsciiWhitespace then
        .error "invalid named Nix signing key"
      else .ok (name, key)

/-- The signature of one path, under the name of the key. -/
def signPath (name : List Char) (key : libs.Keypair) (path : ManifestPath) : PathSignature where
  path := path.path
  signature := String.ofList (name ++ ':' :: base64Encode (libs.sign key (utf8Bytes path.fingerprint.toList)))

def sign (manifest : Manifest) (key : List UInt8) (expectedName : List Char) (expectedPublic : List UInt8) :
    Except String Signatures := do
  manifest.validate libs
  if 512 < key.length then .error "Nix secret key is oversized"
  else
    let (name, encoded) ← parseNamed key
    if name ≠ expectedName then .error "Nix secret key name differs from public record"
    else
      match base64Decode encoded with
      | none => .error "invalid Nix secret key"
      | some raw =>
        if raw.length ≠ 64 then .error "Nix secret key must be 64 bytes"
        else
          match libs.fromKeypairBytes raw with
          | none => .error "Nix secret key pair is inconsistent"
          | some key =>
            if libs.verifyingKey key ≠ expectedPublic then .error "Nix secret key differs from public record"
            else do
              let signatures : Signatures := ⟨ClosureSigning.version, manifest.paths.map (signPath libs name key)⟩
              signatures.validate libs manifest
              return signatures

end

end NixSecrets.ClosureSigning
