import NixSecrets.JsonSize
import NixSecrets.LengthPrefixed

namespace NixSecrets.Crypto

structure AgeFailure where
  operation : Option String
  status : String
  stderr : String
  deriving DecidableEq, Repr

inductive CryptoError
  | invalidIdentifier
  | invalidRecipient
  | invalidRecord
  | metadataMismatch
  | randomness
  | ageIo (message : String)
  | ageFailed (failure : AgeFailure)
  | ageOutputTooLarge
  | secretTooLarge
  | inputWorkerFailed
  | recipientMismatch
  deriving DecidableEq, Repr

def innerTag : List UInt8 := [78, 73, 88, 83, 69, 67, 82, 84]

def innerVersion : UInt8 := 1

def versionIdSize : Nat := 16

def maxIdentifierSize : Nat := 4096

def innerFixedSize : Nat := innerTag.length + 1 + 2 + versionIdSize

def maxSecretSize : Nat := 16 * 1024 * 1024

def maxPlaintextSize : Nat := maxSecretSize + maxIdentifierSize + innerFixedSize

def maxCiphertextSize : Nat := maxPlaintextSize + 1024 * 1024

abbrev VersionId := { id : List UInt8 // id.length = versionIdSize }

def validNamespace (space : List Char) : Bool :=
  space == "services".toList || ("user-".toList.isPrefixOf space && "-services".toList.isSuffixOf space)

def validComponent (component : List Char) : Bool :=
  component != [] && component.all fun c => c.isAlphanum || c == '-' || c == '_'

def validateIdentifier (identifier : String) : Checked CryptoError Unit :=
  let components := identifier.toList.splitOn '.'
  let space := components[1]?.getD []
  Checked.refuseIf (¬ (identifier.utf8ByteSize ≤ maxIdentifierSize ∧ 4 ≤ components.length ∧
    validNamespace space = true ∧ components.all validComponent = true)) .invalidIdentifier

def encodeInner (identifier : String) (versionId : VersionId) (secret : List UInt8) : List UInt8 :=
  innerTag ++ innerVersion :: (prefixed 2 (utf8Bytes identifier.toList) ++ (versionId.val ++ secret))

def decodeInner (requestedIdentifier : String) (outerVersionId inner : List UInt8) :
    Checked CryptoError (List UInt8) := do
  Checked.refuseIf (inner.length < innerFixedSize) .invalidRecord
  let tag ← Checked.orPanic (byteRange inner 0 innerTag.length)
  Checked.refuseIf (tag ≠ innerTag) .invalidRecord
  let cursor := innerTag.length
  let version ← Checked.index inner cursor
  Checked.refuseIf (version ≠ innerVersion) .invalidRecord
  let cursor := cursor + 1
  let high ← Checked.index inner cursor
  let low ← Checked.index inner (cursor + 1)
  let identifierSize := readBigEndian [high, low]
  let cursor := cursor + 2
  let versionStart := cursor + identifierSize
  let secretStart := versionStart + versionIdSize
  Checked.refuseIf (maxIdentifierSize < identifierSize ∨ inner.length < secretStart) .invalidRecord
  let authenticated ← Checked.orPanic (byteRange inner cursor versionStart)
  let authenticated ← Checked.orRefuse .invalidRecord (utf8Text authenticated)
  Checked.mapRefusal (fun _ => .invalidRecord) (validateIdentifier (String.ofList authenticated))
  let versionId ← Checked.orPanic (byteRange inner versionStart secretStart)
  Checked.refuseIf (String.ofList authenticated ≠ requestedIdentifier ∨ versionId ≠ outerVersionId)
    .metadataMismatch
  let secret ← Checked.orPanic (bytesFrom inner secretStart)
  Checked.refuseIf (maxSecretSize < secret.length) .secretTooLarge
  return secret

theorem bytes_utf8Text {bytes : List UInt8} {text : List Char} (h : utf8Text bytes = some text) :
    utf8Bytes text = bytes := by
  obtain ⟨value, hvalue, rfl⟩ := Option.map_eq_some_iff.mp h
  unfold String.fromUTF8? at hvalue
  split at hvalue
  next hvalid =>
    have hbytes : value.toUTF8 = ⟨bytes.toArray⟩ := by
      rw [← Option.some.inj hvalue]
      rfl
    rw [utf8Bytes, String.ofList_toList, hbytes]
  next => cases hvalue

theorem validateIdentifier_size {identifier : String} (h : validateIdentifier identifier = .ok ()) :
    (utf8Bytes identifier.toList).length ≤ maxIdentifierSize := by
  have hvalid := Classical.not_not.mp (Checked.refuseIf_ok h)
  have hsize := utf8Bytes_string_length identifier
  omega

/-- What decodes for an identifier and a version was encoded for them. -/
theorem decodeInner_ok {identifier : String} {versionId inner secret : List UInt8}
    (h : decodeInner identifier versionId inner = .ok secret) :
    ∃ hversion : versionId.length = versionIdSize,
      inner = encodeInner identifier ⟨versionId, hversion⟩ secret ∧
      validateIdentifier identifier = .ok () ∧ secret.length ≤ maxSecretSize := by
  obtain ⟨_, _, h⟩ := Checked.bind_ok h
  obtain ⟨tag, htag, h⟩ := Checked.bind_ok h
  obtain ⟨_, htagged, h⟩ := Checked.bind_ok h
  obtain ⟨version, hversion, h⟩ := Checked.bind_ok h
  obtain ⟨_, hcurrent, h⟩ := Checked.bind_ok h
  obtain ⟨high, hhigh, h⟩ := Checked.bind_ok h
  obtain ⟨low, hlow, h⟩ := Checked.bind_ok h
  obtain ⟨_, hsmall, h⟩ := Checked.bind_ok h
  obtain ⟨range, hrange, h⟩ := Checked.bind_ok h
  obtain ⟨text, htext, h⟩ := Checked.bind_ok h
  obtain ⟨_, hvalid, h⟩ := Checked.bind_ok h
  obtain ⟨outer, houter, h⟩ := Checked.bind_ok h
  obtain ⟨_, hsame, h⟩ := Checked.bind_ok h
  obtain ⟨value, hvalue, h⟩ := Checked.bind_ok h
  obtain ⟨_, hlarge, h⟩ := Checked.bind_ok h
  cases h
  have htagged : tag = innerTag := Classical.not_not.mp (Checked.refuseIf_ok htagged)
  have hcurrent : version = innerVersion := Classical.not_not.mp (Checked.refuseIf_ok hcurrent)
  have hsame := Checked.refuseIf_ok hsame
  simp only [not_or, Classical.not_not] at hsame
  have hrange := Checked.orPanic_ok hrange
  have houter := Checked.orPanic_ok houter
  have hbytes : utf8Bytes identifier.toList = range := by
    rw [← hsame.1, String.toList_ofList]
    exact bytes_utf8Text (Checked.orRefuse_ok htext)
  have hcount : range.length = readBigEndian [high, low] := by
    have hlength := (byteRange_length hrange).1
    omega
  have hwritten : bigEndian 2 range.length = [high, low] := by
    rw [hcount]
    exact bigEndian_readBigEndian [high, low]
  have hlong : outer.length = versionIdSize := by
    have hlength := (byteRange_length houter).1
    omega
  have hwhole := byteRange_drop (Checked.orPanic_ok htag)
  rw [List.drop_zero, htagged, drop_index (Checked.orPanic_ok hversion), hcurrent,
    drop_index (Checked.orPanic_ok hhigh), drop_index (Checked.orPanic_ok hlow), byteRange_drop hrange,
    byteRange_drop houter, bytesFrom_drop (Checked.orPanic_ok hvalue)] at hwhole
  refine ⟨hsame.2 ▸ hlong, ?_, ?_, Nat.le_of_not_lt (Checked.refuseIf_ok hlarge)⟩
  · rw [hwhole, encodeInner, prefixed, hbytes, hwritten]
    simp only [hsame.2]
    rfl
  · have hvalid := Checked.mapRefusal_ok hvalid
    rw [hsame.1] at hvalid
    exact hvalid

theorem decodeInner_encodeInner {identifier : String} {versionId : VersionId} {secret : List UInt8}
    (hvalid : validateIdentifier identifier = .ok ()) (hsmall : secret.length ≤ maxSecretSize) :
    decodeInner identifier versionId.val (encodeInner identifier versionId secret) = .ok secret := by
  have hsize := validateIdentifier_size hvalid
  have hversion := versionId.property
  obtain ⟨text, htext⟩ : ∃ text, utf8Bytes identifier.toList = text := ⟨_, rfl⟩
  have hread : utf8Text text = some identifier.toList := by rw [← htext, utf8Text_bytes]
  rw [htext] at hsize
  have hcount : readBigEndian (bigEndian 2 text.length) = text.length := by
    apply readBigEndian_bigEndian
    simp only [maxIdentifierSize] at hsize
    omega
  obtain ⟨inner, hinner⟩ : ∃ inner, encodeInner identifier versionId secret = inner := ⟨_, rfl⟩
  have hwhole : inner = (innerTag ++ innerVersion :: bigEndian 2 text.length) ++
      (text ++ (versionId.val ++ secret)) := by
    rw [← hinner, encodeInner, htext, prefixed]
    simp
  have htag : byteRange inner 0 innerTag.length = some innerTag := by
    have hfront := byteRange_append [] innerTag (innerVersion :: (bigEndian 2 text.length ++
      (text ++ (versionId.val ++ secret))))
    rw [hwhole, List.append_assoc]
    exact hfront
  have hfront : (innerTag ++ innerVersion :: bigEndian 2 text.length).length = innerTag.length + 1 + 2 := by
    simp [bigEndian_length]
  have hrange := byteRange_append (innerTag ++ innerVersion :: bigEndian 2 text.length) text
    (versionId.val ++ secret)
  rw [← hwhole, hfront] at hrange
  have houter := byteRange_append ((innerTag ++ innerVersion :: bigEndian 2 text.length) ++ text)
    versionId.val secret
  rw [List.append_assoc, ← hwhole, List.length_append, hfront, hversion] at houter
  have hsecret := bytesFrom_append ((innerTag ++ innerVersion :: bigEndian 2 text.length) ++
    (text ++ versionId.val)) secret
  rw [List.append_assoc, List.append_assoc text, ← hwhole, List.length_append, hfront, List.length_append,
    hversion, ← Nat.add_assoc] at hsecret
  have hlength : inner.length = innerTag.length + 1 + 2 + text.length + versionIdSize + secret.length := by
    rw [hwhole, List.length_append, hfront, List.length_append, List.length_append, hversion]
    omega
  have hlong : ¬ inner.length < innerFixedSize := by
    rw [hlength, innerFixedSize]
    omega
  have hfits : ¬ (maxIdentifierSize < text.length ∨
      inner.length < innerTag.length + 1 + 2 + text.length + versionIdSize) := by omega
  have hversion : inner[innerTag.length]? = some innerVersion := by rw [hwhole]; rfl
  have hhigh : inner[innerTag.length + 1]? = some (UInt8.ofNat (text.length / 256)) := by rw [hwhole]; rfl
  have hlow : inner[innerTag.length + 1 + 1]? = some (UInt8.ofNat text.length) := by rw [hwhole]; rfl
  have hcount : readBigEndian [UInt8.ofNat (text.length / 256), UInt8.ofNat text.length] = text.length :=
    hcount
  have hlarge := Nat.not_lt_of_le hsmall
  rw [hinner]
  simp only [decodeInner, Checked.index, Checked.refuseIf_of_not _ hlong, htag, hversion, hhigh, hlow, hcount,
    Checked.refuseIf_of_not _ hfits, hrange, hread, houter, hsecret, Checked.orPanic, Checked.orRefuse,
    Checked.ok_bind, String.ofList_toList, hvalid, Checked.mapRefusal, Checked.refuseIf_of_not _ hlarge]
  simp [Checked.refuseIf]

theorem encodeInner_length (identifier : String) (versionId : VersionId) (secret : List UInt8) :
    (encodeInner identifier versionId secret).length =
      innerFixedSize + identifier.utf8ByteSize + secret.length := by
  have hversion := versionId.property
  simp only [encodeInner, prefixed, List.length_append, List.length_cons, bigEndian_length,
    utf8Bytes_string_length, innerFixedSize]
  omega

theorem encodeInner_inj {identifier identifier' : String} {versionId versionId' : VersionId}
    {secret secret' : List UInt8} (hvalid : validateIdentifier identifier = .ok ())
    (hvalid' : validateIdentifier identifier' = .ok ())
    (h : encodeInner identifier versionId secret = encodeInner identifier' versionId' secret') :
    identifier = identifier' ∧ versionId = versionId' ∧ secret = secret' := by
  have hsize := validateIdentifier_size hvalid
  have hsize' := validateIdentifier_size hvalid'
  rw [maxIdentifierSize] at hsize hsize'
  have htail := (List.cons.inj (List.append_cancel_left h)).2
  obtain ⟨hidentifier, hrest⟩ := prefixed_append_inj (by omega) (by omega) htail
  have hlength : versionId.val.length = versionId'.val.length := by
    rw [versionId.property, versionId'.property]
  obtain ⟨hversion, hsecret⟩ := List.append_inj hrest hlength
  exact ⟨utf8Bytes_string_inj hidentifier, Subtype.ext hversion, hsecret⟩

theorem decodeInner_length {identifier : String} {versionId inner secret : List UInt8}
    (h : decodeInner identifier versionId inner = .ok secret) :
    inner.length = innerFixedSize + identifier.utf8ByteSize + secret.length ∧
      inner.length ≤ maxPlaintextSize := by
  obtain ⟨hversion, rfl, hvalid, hsmall⟩ := decodeInner_ok h
  have hsize := validateIdentifier_size hvalid
  rw [utf8Bytes_string_length] at hsize
  rw [encodeInner_length, maxPlaintextSize]
  exact ⟨rfl, by omega⟩

end NixSecrets.Crypto
