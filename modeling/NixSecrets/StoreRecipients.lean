import NixSecrets.StoreStep

namespace NixSecrets.Inventory

/-- The path of the stored record an operation is about. -/
def StoreOp.target : StoreOp → Option SecretPath
  | .set path _ | .setIfVersion path _ _ | .remove path | .removeIfVersion path _ => some path
  | .setPublicKeyIfVersion path _ _ _ => some path
  | _ => none

/-- What reading the record under an identifier gives. -/
def hydrated (document : StoreDocument) (identifier : String) :
    Option (Except StoreError EncryptedSecret) :=
  document.secrets[identifier]?.map (hydrateRecord document)

def Hydrates (document : StoreDocument) : Prop :=
  ∀ (identifier : String) record, document.secrets[identifier]? = some record →
    ∃ envelope, hydrateRecord document record = .ok envelope

section

variable {d d' : StoreDocument} {op : StoreOp}

theorem effect_registry (h : StoreEffect d d' op) :
    Extends d.recipientRegistry d'.recipientRegistry := by
  cases h with
  | set h | setIfVersion h => exact h.registry
  | remove h | removeIfVersion h | setGeneratedPublicKeyIfVersion h | setPublicKeyIfVersion _ h
  | setPublicInfoIfVersion _ _ h | removePublicInfoIfVersion _ _ h | quarantine _ h
  | removeQuarantined h =>
    rw [h]
    exact Extends.rfl

theorem insert_other {secrets : BTreeMap String EncryptedSecret} {identifier other : String}
    {record : EncryptedSecret} (hne : other ≠ identifier) :
    (secrets.insert identifier record)[other]? = secrets[other]? := by
  rw [Std.ExtTreeMap.getElem?_insert, if_neg]
  exact fun hc => hne (Std.LawfulEqOrd.eq_of_compare hc).symm

theorem erase_other {secrets : BTreeMap String EncryptedSecret} {identifier other : String}
    (hne : other ≠ identifier) : (secrets.erase identifier)[other]? = secrets[other]? := by
  rw [Std.ExtTreeMap.getElem?_erase, if_neg]
  exact fun hc => hne (Std.LawfulEqOrd.eq_of_compare hc).symm

/-- The frame: only the record an operation is about can change. -/
theorem effect_secrets_other (h : StoreEffect d d' op) {other : String}
    (hne : ∀ path, op.target = some path → other ≠ path.display) :
    d'.secrets[other]? = d.secrets[other]? := by
  cases h with
  | set h | setIfVersion h =>
    obtain ⟨record, hs, _⟩ := h.stored
    rw [hs]
    exact insert_other (hne _ rfl)
  | remove h | removeIfVersion h =>
    rw [h]
    exact erase_other (hne _ rfl)
  | setPublicKeyIfVersion _ h =>
    rw [h]
    exact insert_other (hne _ rfl)
  | setGeneratedPublicKeyIfVersion h | setPublicInfoIfVersion _ _ h
  | removePublicInfoIfVersion _ _ h | quarantine _ h | removeQuarantined h =>
    rw [h]

theorem hydrated_extends {identifier : String} (he : Extends d.recipientRegistry d'.recipientRegistry)
    (hs : d'.secrets[identifier]? = d.secrets[identifier]?) (hd : Hydrates d) :
    hydrated d' identifier = hydrated d identifier := by
  unfold hydrated
  rw [hs]
  cases hr : d.secrets[identifier]? with
  | none => rfl
  | some record =>
    obtain ⟨envelope, hh⟩ := hd identifier record hr
    simp only [Option.map_some, hh, hydrateRecord_extends he hh]

theorem hydrateRecord_publicKey {record envelope : EncryptedSecret} (key : Option String)
    (h : hydrateRecord d record = .ok envelope) :
    ∃ envelope', hydrateRecord d { record with publicKey := key } = .ok envelope' := by
  unfold hydrateRecord at h ⊢
  split at h
  next hrefs => exact ⟨_, if_pos hrefs⟩
  next hrefs =>
    rw [if_neg hrefs]
    split at h
    next => cases h
    next hids =>
      rw [if_neg hids]
      cases hl : lookUp d.recipientRegistry record.recipientRefs with
      | error e => rw [hl] at h; cases h
      | ok ids => exact ⟨_, rfl⟩

/-- The record an accepted operation leaves under its own identifier can be read. -/
theorem effect_target_hydrates (h : StoreEffect d d' op) (hd : Hydrates d) {path : SecretPath}
    (hp : op.target = some path) {record : EncryptedSecret}
    (hr : d'.secrets[path.display]? = some record) :
    ∃ envelope, hydrateRecord d' record = .ok envelope := by
  cases h with
  | set h | setIfVersion h =>
    cases hp
    obtain ⟨stored, hs, _, hh⟩ := h.stored
    rw [hs, Std.ExtTreeMap.getElem?_insert_self] at hr
    cases hr
    exact ⟨_, hh⟩
  | remove h | removeIfVersion h =>
    cases hp
    rw [h, Std.ExtTreeMap.getElem?_erase_self] at hr
    cases hr
  | setPublicKeyIfVersion hold h =>
    cases hp
    obtain ⟨envelope, hh⟩ := hd _ _ hold
    have hregistry : Extends d.recipientRegistry d'.recipientRegistry := by
      rw [h]
      exact Extends.rfl
    rw [h, Std.ExtTreeMap.getElem?_insert_self] at hr
    cases hr
    exact hydrateRecord_publicKey _ (hydrateRecord_extends hregistry hh)
  | setGeneratedPublicKeyIfVersion _ | setPublicInfoIfVersion _ _ _
  | removePublicInfoIfVersion _ _ _ | quarantine _ _ | removeQuarantined _ => cases hp

theorem effect_hydrates (h : StoreEffect d d' op) (hd : Hydrates d) : Hydrates d' := by
  intro identifier record hr
  by_cases ht : ∃ path, op.target = some path ∧ identifier = path.display
  · obtain ⟨path, hp, rfl⟩ := ht
    exact effect_target_hydrates h hd hp hr
  · have hs := effect_secrets_other h fun path hp he => ht ⟨path, hp, he⟩
    rw [hs] at hr
    obtain ⟨envelope, hh⟩ := hd identifier record hr
    exact ⟨envelope, hydrateRecord_extends (effect_registry h) hh⟩

end

theorem diskAfter_hydrates (libs : Libraries) (calls : List StoreCall) :
    Hydrates (diskAfter libs {} calls).document := by
  refine diskAfter_keeps (fun identifier record hr => ?_) (fun call d reply d' hd ha => ?_) calls
  · simp at hr
  · exact effect_hydrates (act_effect ha) hd

theorem get_stored {path : SecretPath} {envelope : EncryptedSecret} {d d' : StoreDocument}
    (h : Stores path envelope d d') :
    ∃ refs, SecretStore.get path d' = .ok (some { envelope with recipientRefs := refs }, d') := by
  obtain ⟨record, hs, _, hh⟩ := h.stored
  refine ⟨record.recipientRefs, ?_⟩
  have hr : d'.secrets[path.display]? = some record := by
    rw [hs]
    exact Std.ExtTreeMap.getElem?_insert_self
  simp only [SecretStore.get, hr, hh]
  rfl

/-- In every run of the store, each record reads back, a set reads back as it was given
apart from the registry references it got, other paths and the meaning of registry
entries never change, and an operation that does not succeed leaves the file as it was
or holding all of the document it was to write. -/
theorem store_recipients (libs : Libraries) (calls : List StoreCall) (call : StoreCall) :
    let before := diskAfter libs {} calls
    let ended := (call.exec libs before).1
    let after := (call.exec libs before).2
    Hydrates before.document ∧
    (∀ path envelope reply, (call.op = .set path envelope ∨
        ∃ version, call.op = .setIfVersion path envelope version) → ended = .done reply →
      ∃ refs, SecretStore.get path after.document =
        .ok (some { envelope with recipientRefs := refs }, after.document)) ∧
    (∀ other : SecretPath, (∀ path, call.op.target = some path →
        other.display ≠ path.display ∨ other ≠ path ∧ other.Made ∧ path.Made) →
      hydrated after.document other.display = hydrated before.document other.display) ∧
    Extends before.document.recipientRegistry after.document.recipientRegistry ∧
    ((∀ reply, ended ≠ .done reply) → after.file = before.file ∨ ∃ reply document,
      call.act libs before.document = .ok (reply, document) ∧ after.file = some document) := by
  intro before ended after
  have hhydrates : Hydrates before.document := diskAfter_hydrates libs calls
  refine ⟨hhydrates, ?_, ?_, ?_, fun _ => exec_file call before⟩
  · intro path envelope reply hop hdone
    obtain ⟨document, ha, hf⟩ := exec_done hdone
    have hafter : after.document = document := by
      rw [StoreDisk.document, hf]
      rfl
    have heffect := act_effect ha
    rw [hafter]
    rcases hop with hop | ⟨version, hop⟩
    · rw [hop] at heffect
      cases heffect with
      | set h => exact get_stored h
    · rw [hop] at heffect
      cases heffect with
      | setIfVersion h => exact get_stored h
  · intro other hother
    have hne : ∀ path, call.op.target = some path → other.display ≠ path.display := by
      intro path hp
      rcases hother path hp with hne | ⟨hne, hmade, hmade'⟩
      · exact hne
      · exact fun hd => hne (display_inj hmade' hmade hd)
    rcases @exec_document libs call before with h | ⟨reply, ha⟩
    · rw [h]
    · have heffect := act_effect ha
      exact hydrated_extends (effect_registry heffect) (effect_secrets_other heffect hne) hhydrates
  · rcases @exec_document libs call before with h | ⟨reply, ha⟩
    · rw [h]
      exact Extends.rfl
    · exact effect_registry (act_effect ha)

def aliceKey : String := "ssh-ed25519 AAAAC3NzaC1lZDI1NTE5AAAAIGFsaWNl"

def webToken : SecretLeaf where
  kind := .secret
  recipientPublicKeys := [aliceKey]
  recipientIds := ["age1alice"]
  recipientNames := ["alice"]
  destination := {
    path := "/persistent/secrets/web/service/token", category := "service", owner := "web",
    group := "web", mode := "0400" }

def webHost : HostSchema where
  metadata := {
    socketPath := "/run/nix-secrets.sock"
    deployment := { host := "ns1", destination := "deploy@ns1", port := 22 }
    recipientPublicKeys := [("alice", aliceKey)] }
  serviceGroups := [("services", [("web", .branch [("token", .secret webToken)])])]

def webSchema : Schema := [("ns1", webHost)]

def tokenPath : SecretPath := ⟨["ns1", "services", "web", "token"]⟩

def tokenEnvelope (version : UInt8) : EncryptedSecret where
  versionId := List.replicate 16 version
  recipientIds := ["age1alice"]
  ageCiphertext := [97, 103, 101]

/-- Libraries that accept nothing; the examples never ask them. -/
def noLibraries : Libraries where
  parseIp _ := none
  decodeBase64 _ := none
  opensshKey _ := none
  regexError _ := none

def tokenSet (version : UInt8) : StoreCall where
  schema := webSchema
  op := .set tokenPath (tokenEnvelope version)

theorem tokenSet_reads_back : ∃ refs, SecretStore.get tokenPath
    ((tokenSet 1).exec noLibraries {}).2.document =
      .ok (some { tokenEnvelope 1 with recipientRefs := refs },
        ((tokenSet 1).exec noLibraries {}).2.document) :=
  (store_recipients noLibraries [] (tokenSet 1)).2.1 tokenPath (tokenEnvelope 1) .updated
    (Or.inl rfl) (by decide)

/-- The directory cannot be synced after the rename. -/
def unsyncedSet : StoreCall where
  schema := webSchema
  op := .set tokenPath (tokenEnvelope 1)
  faults := List.replicate 12 .none ++ [.fail "Input/output error"]

/-- The set fails, and yet the file holds its document. -/
theorem unsynced_set_changes_file :
    (unsyncedSet.exec noLibraries {}).1 = .failed (.refused (.io "Input/output error")) ∧
    (unsyncedSet.exec noLibraries {}).2.file ≠ (diskAfter noLibraries {} []).file := by
  decide

end NixSecrets.Inventory
