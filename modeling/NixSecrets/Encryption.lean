import NixSecrets.Decryption

namespace NixSecrets.Crypto

structure Recipient where
  id : String
  sshPublicKey : String
  deriving DecidableEq, Repr

def validateRecipients (recipients : List Recipient) : Checked CryptoError Unit :=
  Checked.refuseIf (recipients = [] ∨ ∃ entry ∈ recipients,
    entry.id = "" ∨ entry.id.toList.any isControl ∨ entry.sshPublicKey = "") .invalidRecipient

/-- Encrypts to the SSH keys of the recipients. -/
abbrev Encrypt := List String → List UInt8 → Checked CryptoError (List UInt8)

def encryptSecretWithVersion (encrypt : Encrypt) (identifier : String) (versionId : VersionId)
    (plaintext : List UInt8) (recipients : List Recipient) : Checked CryptoError EncryptedSecret := do
  validateIdentifier identifier
  validateRecipients recipients
  Checked.refuseIf (maxSecretSize < plaintext.length) .secretTooLarge
  let inner := encodeInner identifier versionId plaintext
  let ciphertext ← Checked.mapRefusal (CryptoError.during ("encrypting " ++ identifier ++
      " for recipients " ++ ", ".intercalate (recipients.map (·.id))))
    (encrypt (recipients.map (·.sshPublicKey)) inner)
  Checked.refuseIf (ciphertext = [] ∨ maxCiphertextSize < ciphertext.length) .invalidRecord
  return ⟨formatVersion, versionId.val, recipients.map (·.id), ciphertext⟩

/-- The provider has an identity that opens whatever was encrypted. -/
def CryptoProvider.Opens (provider : CryptoProvider) (encrypt : Encrypt) : Prop :=
  ∀ keys plaintext ciphertext, encrypt keys plaintext = .ok ciphertext →
    provider.decrypt ciphertext = .ok plaintext

/-- What was encrypted under a version is opened under it, and no other version is recorded. -/
theorem decryptSecret_encrypted {provider : CryptoProvider} {encrypt : Encrypt} {identifier : String}
    {versionId : VersionId} {plaintext : List UInt8} {recipients : List Recipient}
    {record : EncryptedSecret} (hopens : provider.Opens encrypt)
    (h : encryptSecretWithVersion encrypt identifier versionId plaintext recipients = .ok record) :
    record.formatVersion = formatVersion ∧ record.versionId = versionId.val ∧
      decryptSecret provider identifier record = .ok plaintext := by
  obtain ⟨_, hidentifier, h⟩ := Checked.bind_ok h
  obtain ⟨_, hrecipients, h⟩ := Checked.bind_ok h
  obtain ⟨_, hsmall, h⟩ := Checked.bind_ok h
  obtain ⟨ciphertext, hencrypted, h⟩ := Checked.bind_ok h
  obtain ⟨_, hciphertext, h⟩ := Checked.bind_ok h
  have hrecipients := Checked.refuseIf_ok hrecipients
  have hsmall := Checked.refuseIf_ok hsmall
  have hciphertext := Checked.refuseIf_ok hciphertext
  cases h
  have hnames : recipients.map (·.id) ≠ [] := by
    intro hnil
    exact hrecipients (Or.inl (List.map_eq_nil_iff.mp hnil))
  have hfilled : "" ∉ recipients.map (·.id) := by
    intro hempty
    obtain ⟨entry, hentry, hid⟩ := List.mem_map.mp hempty
    exact hrecipients (Or.inr ⟨entry, hentry, Or.inl hid⟩)
  have hvalid : validateRecord ⟨formatVersion, versionId.val, recipients.map (·.id), ciphertext⟩ =
      .ok () := by
    apply Checked.refuseIf_of_not
    rintro (hbad | hbad | hbad | hbad | hbad | hbad)
    · exact hbad rfl
    · exact hbad versionId.property
    · exact hnames hbad
    · exact hfilled hbad
    · exact hciphertext (Or.inl hbad)
    · exact hciphertext (Or.inr hbad)
  refine ⟨rfl, rfl, ?_⟩
  rw [decryptSecret, hidentifier, Checked.ok_bind, hvalid, Checked.ok_bind,
    hopens _ _ _ (Checked.mapRefusal_ok hencrypted)]
  exact decodeInner_encodeInner hidentifier (by omega)

end NixSecrets.Crypto
