import Mathlib.Data.List.Perm.Subperm
import NixSecrets.JoinedText
import NixSecrets.FaultProgram
import NixSecrets.ClosureSigning

namespace NixSecrets.ArtifactSigning

structure DetachedSignature where
  role : String
  sha512 : String
  size : Nat
  signatureBase64 : String
  deriving DecidableEq, Repr

structure Signatures where
  signatures : List DetachedSignature
  deriving DecidableEq, Repr

/-- The loop over the signatures, with the roles it has seen. -/
def validateDetached (manifest : Manifest) : List String → List DetachedSignature → Except String Unit
  | _, [] => .ok ()
  | roles, signature :: rest =>
    if signature.role ∈ roles then .error "duplicate detached signature"
    else
      match manifest.artifacts.find? fun artifact => artifact.role = signature.role with
      | none => .error "unasked detached signature"
      | some artifact =>
        if artifact.sha512 ≠ signature.sha512 ∨ artifact.size ≠ signature.size then
          .error "detached signature does not match approved artifact"
        else if 8192 < signature.signatureBase64.utf8ByteSize then .error "oversized detached signature"
        else
          match base64Decode signature.signatureBase64.toList with
          | none => .error "malformed detached signature"
          | some decoded =>
            if ¬ (utf8Bytes "NMBLSIG1".toList).isPrefixOf decoded ∨ decoded.length < 3000 ∨ 6000 < decoded.length then
              .error "invalid detached NMBL sidecar"
            else validateDetached manifest (signature.role :: roles) rest

def Signatures.validate (signatures : Signatures) (manifest : Manifest) : Except String Unit :=
  if signatures.signatures.length ≠ manifest.artifacts.length then .error "missing or extra detached signature"
  else validateDetached manifest [] signatures.signatures

end NixSecrets.ArtifactSigning

namespace NixSecrets.ClosureSigning

open JoinedText

section

/-- What separates the parts of a fingerprint stands in none of them. -/
structure Plain (text : List Char) : Prop where
  semicolon : ';' ∉ text
  comma : ',' ∉ text

theorem Plain.append {xs ys : List Char} (hx : Plain xs) (hy : Plain ys) : Plain (xs ++ ys) := by
  constructor
  · intro h
    cases List.mem_append.mp h with
    | inl h => exact hx.semicolon h
    | inr h => exact hy.semicolon h
  · intro h
    cases List.mem_append.mp h with
    | inl h => exact hx.comma h
    | inr h => exact hy.comma h

/-- What the checks of a path leave of it. -/
structure ManifestPath.Canonical (entry : ManifestPath) : Prop where
  path : canonicalStorePath entry.path = true
  narHash : ∃ hash, entry.narHash.toList = "sha256:".toList ++ hash ∧ hash.all nix32.contains = true
  references : ∀ reference ∈ entry.references, canonicalStorePath reference = true

theorem ManifestPath.validate_ok {path : ManifestPath} (h : path.validate = .ok ()) : path.Canonical := by
  unfold ManifestPath.validate at h
  split at h
  next => cases h
  next hpath =>
    split at h
    next => cases h
    next hash hhash =>
      split at h
      next => cases h
      next hdigits =>
        split at h
        next => cases h
        next =>
          split at h
          next => cases h
          next =>
            split at h
            next => cases h
            next hreferences =>
              rw [not_or, not_or] at hdigits
              rw [not_or] at hreferences
              refine ⟨not_not.mp hpath, ⟨hash, strip_eq_some.mp hhash, not_not.mp hdigits.2.2⟩, ?_⟩
              intro reference hmem
              have hnone := hreferences.1
              rw [List.any_eq_true, not_exists] at hnone
              have hreference := hnone reference
              simpa [hmem] using hreference

example : (⟨"/nix/store/00000000000000000000000000000000-root",
    "sha256:0000000000000000000000000000000000000000000000000000", 7, []⟩ : ManifestPath).validate = .ok () := by
  decide

/-- The parts of a fingerprint between its semicolons. -/
def parts (path : ManifestPath) : List (List Char) :=
  ["1".toList, path.path.toList, path.narHash.toList, (toString path.narSize).toList,
    [','].intercalate (path.references.map String.toList)]

end

section

variable {libs : Libraries}

theorem bind_unit_ok {ε α : Type} {x : Except ε Unit} {f : Unit → Except ε α} {a : α}
    (h : (x >>= f) = .ok a) : x = .ok () ∧ f () = .ok a := by
  cases x with
  | error e => cases h
  | ok u => exact ⟨rfl, h⟩

theorem validatePaths_ok {seen : List String} {paths : List ManifestPath} (h : validatePaths seen paths = .ok ()) :
    (paths.map (·.path)).Nodup ∧ ∀ path ∈ paths, path.path ∉ seen ∧ path.Canonical := by
  induction paths generalizing seen with
  | nil => exact ⟨List.nodup_nil, by simp⟩
  | cons path rest ih =>
    rw [validatePaths] at h
    obtain ⟨hvalid, h⟩ := bind_unit_ok h
    split at h
    next => cases h
    next hnew =>
      obtain ⟨hnodup, hrest⟩ := ih h
      constructor
      · rw [List.map_cons, List.nodup_cons]
        refine ⟨?_, hnodup⟩
        intro hmem
        obtain ⟨other, hother, hpath⟩ := List.mem_map.mp hmem
        apply (hrest other hother).1
        rw [hpath]
        exact List.mem_cons_self ..
      · rw [List.forall_mem_cons]
        refine ⟨⟨hnew, ManifestPath.validate_ok hvalid⟩, ?_⟩
        intro other hother
        have hfacts := hrest other hother
        exact ⟨fun hseen => hfacts.1 (List.mem_cons_of_mem _ hseen), hfacts.2⟩

theorem Manifest.validate_ok {manifest : Manifest} (h : manifest.validate libs = .ok ()) :
    validatePaths [] manifest.paths = .ok () := by
  unfold Manifest.validate at h
  split at h
  next => cases h
  next =>
    split at h
    next => cases h
    next => exact (bind_unit_ok h).1

theorem validateSignatures_ok {expected seen : List String} {signatures : List PathSignature}
    (h : validateSignatures expected seen signatures = .ok ()) :
    (signatures.map (·.path)).Nodup ∧ ∀ signature ∈ signatures, signature.path ∈ expected ∧ signature.path ∉ seen := by
  induction signatures generalizing seen with
  | nil => exact ⟨List.nodup_nil, by simp⟩
  | cons signature rest ih =>
    rw [validateSignatures] at h
    split at h
    next => cases h
    next hknown =>
      rw [not_or, not_not] at hknown
      obtain ⟨hnodup, hrest⟩ := ih (bind_unit_ok h).2
      constructor
      · rw [List.map_cons, List.nodup_cons]
        refine ⟨?_, hnodup⟩
        intro hmem
        obtain ⟨other, hother, hpath⟩ := List.mem_map.mp hmem
        apply (hrest other hother).2
        rw [hpath]
        exact List.mem_cons_self ..
      · rw [List.forall_mem_cons]
        refine ⟨hknown, ?_⟩
        intro other hother
        have hfacts := hrest other hother
        exact ⟨hfacts.1, fun hseen => hfacts.2 (List.mem_cons_of_mem _ hseen)⟩

/-- Each path of the manifest has one signature, and every signature is of one path of it. -/
structure Covers (signatures : List PathSignature) (manifest : Manifest) : Prop where
  paths : (manifest.paths.map (·.path)).Nodup
  signatures : (signatures.map (·.path)).Perm (manifest.paths.map (·.path))

theorem perm_of_covers {α : Type} {xs ys : List α} (hxs : xs.Nodup) (hsub : ∀ x ∈ xs, x ∈ ys)
    (hlength : xs.length = ys.length) : xs.Perm ys :=
  (List.subperm_of_subset hxs hsub).perm_of_length_le (Nat.le_of_eq hlength.symm)

theorem Signatures.validate_ok {signatures : Signatures} {manifest : Manifest}
    (h : signatures.validate libs manifest = .ok ()) : Covers signatures.signatures manifest := by
  unfold Signatures.validate at h
  obtain ⟨hmanifest, h⟩ := bind_unit_ok h
  split at h
  next => cases h
  next hcount =>
    rw [not_or, not_not, not_not] at hcount
    obtain ⟨hnodup, hknown⟩ := validateSignatures_ok h
    refine ⟨(validatePaths_ok (Manifest.validate_ok hmanifest)).1, perm_of_covers hnodup ?_ ?_⟩
    · intro path hpath
      obtain ⟨signature, hsignature, rfl⟩ := List.mem_map.mp hpath
      exact (hknown signature hsignature).1
    · rw [List.length_map, List.length_map, hcount.2]

end

end NixSecrets.ClosureSigning

namespace NixSecrets.ArtifactSigning

section

theorem validateArtifacts_ok {roles found : List String} {artifacts : List Artifact}
    (h : validateArtifacts roles artifacts = .ok found) :
    (artifacts.map (·.role)).Nodup ∧ ∀ artifact ∈ artifacts, artifact.role ∉ roles := by
  induction artifacts generalizing roles with
  | nil => exact ⟨List.nodup_nil, by simp⟩
  | cons artifact rest ih =>
    rw [validateArtifacts] at h
    split at h
    next => cases h
    next =>
      split at h
      next => cases h
      next hnew =>
        split at h
        next => cases h
        next =>
          obtain ⟨hnodup, hrest⟩ := ih h
          rw [List.map_cons, List.nodup_cons, List.forall_mem_cons]
          refine ⟨⟨?_, hnodup⟩, hnew, ?_⟩
          · intro hmem
            obtain ⟨other, hother, hrole⟩ := List.mem_map.mp hmem
            apply hrest other hother
            rw [hrole]
            exact List.mem_cons_self ..
          · intro other hother hseen
            exact hrest other hother (List.mem_cons_of_mem _ hseen)

theorem Manifest.validate_nodup {manifest : Manifest} (h : manifest.validate = .ok ()) :
    (manifest.artifacts.map (·.role)).Nodup := by
  unfold Manifest.validate at h
  split at h
  next => cases h
  next =>
    split at h
    next => cases h
    next hroles => exact (validateArtifacts_ok hroles).1

/-- What a signature and its artifact agree in. -/
def DetachedSignature.content (signature : DetachedSignature) : String × String × Nat :=
  (signature.role, signature.sha512, signature.size)

def Artifact.content (artifact : Artifact) : String × String × Nat :=
  (artifact.role, artifact.sha512, artifact.size)

/-- Each artifact has one signature of its role, hash and size, and every signature is of one artifact. -/
structure Covers (signatures : List DetachedSignature) (manifest : Manifest) : Prop where
  roles : (manifest.artifacts.map (·.role)).Nodup
  signatures : (signatures.map (·.content)).Perm (manifest.artifacts.map (·.content))

theorem validateDetached_ok {manifest : Manifest} {roles : List String} {signatures : List DetachedSignature}
    (h : validateDetached manifest roles signatures = .ok ()) :
    (signatures.map (·.content)).Nodup ∧ ∀ signature ∈ signatures, signature.role ∉ roles ∧
      signature.content ∈ manifest.artifacts.map (·.content) := by
  induction signatures generalizing roles with
  | nil => exact ⟨List.nodup_nil, by simp⟩
  | cons signature rest ih =>
    rw [validateDetached] at h
    split at h
    next => cases h
    next hnew =>
      split at h
      next => cases h
      next artifact hfound =>
        split at h
        next => cases h
        next hsame =>
          split at h
          next => cases h
          next =>
            split at h
            next => cases h
            next =>
              split at h
              next => cases h
              next =>
                obtain ⟨hnodup, hrest⟩ := ih h
                rw [not_or, not_not, not_not] at hsame
                have hrole : artifact.role = signature.role := by simpa using List.find?_some hfound
                rw [List.map_cons, List.nodup_cons, List.forall_mem_cons]
                refine ⟨⟨?_, hnodup⟩, ⟨hnew, ?_⟩, ?_⟩
                · intro hmem
                  obtain ⟨other, hother, hcontent⟩ := List.mem_map.mp hmem
                  apply (hrest other hother).1
                  have hroles : other.role = signature.role := congrArg (·.1) hcontent
                  rw [hroles]
                  exact List.mem_cons_self ..
                · have hcontent : artifact.content = signature.content := by
                    rw [Artifact.content, DetachedSignature.content, hrole, hsame.1, hsame.2]
                  rw [← hcontent]
                  exact List.mem_map_of_mem (List.mem_of_find?_eq_some hfound)
                · intro other hother
                  have hfacts := hrest other hother
                  exact ⟨fun hseen => hfacts.1 (List.mem_cons_of_mem _ hseen), hfacts.2⟩

theorem Signatures.validate_ok {signatures : Signatures} {manifest : Manifest}
    (hmanifest : manifest.validate = .ok ()) (h : signatures.validate manifest = .ok ()) :
    Covers signatures.signatures manifest := by
  unfold Signatures.validate at h
  split at h
  next => cases h
  next hcount =>
    obtain ⟨hnodup, hknown⟩ := validateDetached_ok h
    refine ⟨Manifest.validate_nodup hmanifest, ClosureSigning.perm_of_covers hnodup ?_ ?_⟩
    · intro content hcontent
      obtain ⟨signature, hsignature, rfl⟩ := List.mem_map.mp hcontent
      exact (hknown signature hsignature).2
    · rw [List.length_map, List.length_map, not_not.mp hcount]

end

end NixSecrets.ArtifactSigning

namespace NixSecrets.ClosureSigning

end NixSecrets.ClosureSigning
