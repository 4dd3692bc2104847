import NixSecrets.ValueGeneration
import NixSecrets.Outcome

namespace NixSecrets.Generation

open Inventory Crypto

/-- A record as the operator reads it. -/
def envelope (record : GeneratedRecord) : Option Crypto.EncryptedSecret := do
  let version ← base64Decode record.versionIdBase64.toList
  let ciphertext ← base64Decode record.ageCiphertextBase64.toList
  some ⟨record.formatVersion.toNat, version, record.recipientIds, ciphertext⟩

def OpensTo (provider : CryptoProvider) (identifier : String) (record : GeneratedRecord)
    (value : List UInt8) : Prop :=
  ∃ encrypted, envelope record = some encrypted ∧
    decryptSecret provider identifier encrypted = .ok value

theorem base64Decode_encodeBase64 (bytes : List UInt8) :
    base64Decode (encodeBase64 bytes).toList = some bytes := by
  rw [encodeBase64, String.toList_ofList, base64Decode_encode]

theorem decodeVersion_encodeBase64 (version : VersionId) :
    decodeVersion (encodeBase64 version.val) = some version := by
  rw [decodeVersion, base64Decode_encodeBase64, Option.bind_some, dif_pos version.property]

theorem envelope_makeRecord {adopted : Bool} {encrypted : Crypto.EncryptedSecret} {version : VersionId}
    (hformat : encrypted.formatVersion = formatVersion) (hversion : encrypted.versionId = version.val) :
    envelope (makeRecord adopted encrypted version) = some encrypted := by
  simp only [envelope, makeRecord, base64Decode_encodeBase64, Option.bind_eq_bind, Option.bind_some]
  rw [hformat, ← hversion]
  have hsmall : (UInt16.ofNat formatVersion).toNat = formatVersion := by decide
  rw [hsmall, ← hformat]

section

variable {η α : Type} {s s' : η}

theorem check_ok {x : Checked GenerationError α} {a : α} :
    check x s = .ok (a, s') ↔ x = .ok a ∧ s = s' := by
  cases x with
  | error e => exact iff_of_false nofun (nomatch ·.1)
  | ok b =>
    constructor
    · intro h
      cases h
      exact ⟨rfl, rfl⟩
    · rintro ⟨h, rfl⟩
      cases h
      rfl

theorem onHost_ok {f : η → Except DeployError (α × η)} {a : α} (h : onHost f s = .ok (a, s')) :
    f s = .ok (a, s') := by
  unfold onHost at h
  cases hf : f s with
  | error e => rw [hf] at h; cases h
  | ok result => rw [hf] at h; cases h; rfl

variable {target : Target η}

/-- The record of an encrypted value names its version, and opens to it. -/
theorem encryptValue_opens {provider : CryptoProvider} {identifier : String} {version : VersionId}
    {value : List UInt8} {recipients : List Recipient} {encrypted : Crypto.EncryptedSecret} {adopted : Bool}
    (hopens : provider.Opens target.encrypt)
    (h : encryptValue target identifier version value recipients = .ok encrypted) :
    OpensTo provider identifier (makeRecord adopted encrypted version) value := by
  obtain ⟨hformat, hversion, hdecrypted⟩ := decryptSecret_encrypted hopens (Checked.mapRefusal_ok h)
  exact ⟨encrypted, envelope_makeRecord hformat hversion, hdecrypted⟩

/-- The leaf a generated value belongs to. -/
def generatedLeaf (target : Target η) (schema : Inventory.Schema) (identifier : String) :
    Checked GenerationError Inventory.SecretLeaf :=
  ownLeaf target schema "invalid generated identifier: " "generated value belongs to another host"
    "generated value is absent from manifest: " "target tasks cannot be generated as values" identifier

/-- What producing an own value has found on the target. -/
def OwnMade (target : Target η) (schema : Inventory.Schema) (versions : BTreeMap String String)
    (entry : GenerateEntry) (before after : η) (made : Made) : Prop :=
  ∃ leaf contribution generator installed encrypted,
    generatedLeaf target schema entry.identifier = .ok leaf ∧
    installedValue target versions entry.identifier leaf = .ok installed ∧
    versionAndValue target contribution generator installed before = .ok ((made.version, made.value), after) ∧
    encryptValue target entry.identifier made.version made.value
      (recipientsOf leaf.recipientIds leaf.recipientPublicKeys) = .ok encrypted ∧
    made.record = makeRecord installed.isSome encrypted made.version

theorem generateOwn_ok {schema : Inventory.Schema} {versions : BTreeMap String String}
    {entry : GenerateEntry} {made : Made}
    (h : generateOwn target schema versions entry s = .ok (made, s')) :
    OwnMade target schema versions entry s s' made := by
  simp only [generateOwn, stateT_bind_ok, check_ok] at h
  obtain ⟨leaf, _, ⟨hleaf, rfl⟩, generator, _, ⟨_, rfl⟩, contribution, _, ⟨_, rfl⟩, installed, _,
    ⟨hinstalled, rfl⟩, ⟨version, value⟩, s₁, hvalue, encrypted, _, ⟨hencrypted, rfl⟩, h⟩ := h
  cases h
  exact ⟨leaf, contribution, generator, installed, encrypted, hleaf, hinstalled, hvalue, hencrypted, rfl⟩

theorem generateShared_ok {schema : Inventory.Schema} {derive : List String} {entry : GenerateEntry}
    {shared : SharedSource} {made : Made}
    (h : generateShared target schema derive entry shared s = .ok (made, s')) :
    ∃ encrypted, encryptValue target entry.identifier made.version made.value
        (recipientsOf shared.recipientIds shared.recipientPublicKeys) = .ok encrypted ∧
      made.record = makeRecord false encrypted made.version := by
  simp only [generateShared, stateT_bind_ok, check_ok] at h
  obtain ⟨_, _, _, _, _, _, _, _, _, _, _, _, _, _, _, _, _, _, version, _, _, value, _, _, encrypted, _,
    ⟨hencrypted, rfl⟩, h⟩ := h
  cases h
  exact ⟨encrypted, hencrypted, rfl⟩

theorem generateEntry_opens {provider : CryptoProvider} {schema : Inventory.Schema}
    {versions : BTreeMap String String} {derive : List String} {entry : GenerateEntry} {made : Made}
    (hopens : provider.Opens target.encrypt)
    (h : generateEntry target schema versions derive entry s = .ok (made, s')) :
    made.record.versionIdBase64 = encodeBase64 made.version.val ∧
      OpensTo provider entry.identifier made.record made.value := by
  cases hshared : entry.shared with
  | some shared =>
    simp only [generateEntry, hshared] at h
    obtain ⟨encrypted, hencrypted, hrecord⟩ := generateShared_ok h
    rw [hrecord]
    exact ⟨rfl, encryptValue_opens hopens hencrypted⟩
  | none =>
    simp only [generateEntry, hshared] at h
    obtain ⟨leaf, contribution, generator, installed, encrypted, _, _, _, hencrypted, hrecord⟩ :=
      generateOwn_ok h
    rw [hrecord]
    exact ⟨rfl, encryptValue_opens hopens hencrypted⟩

/-- One item of a run, with the host before and after it. -/
structure Step (η : Type) where
  before : η
  entry : GenerateEntry
  made : Made
  after : η

/-- The items one after another. -/
def Chained (target : Target η) (schema : Inventory.Schema) (versions : BTreeMap String String)
    (derive : List String) : η → List (Step η) → η → Prop
  | s, [], s' => s = s'
  | s, step :: rest, s' => step.before = s ∧
      generateEntry target schema versions derive step.entry step.before = .ok (step.made, step.after) ∧
      Chained target schema versions derive step.after rest s'

theorem Chained.made {schema : Inventory.Schema} {versions : BTreeMap String String} {derive : List String}
    {steps : List (Step η)} (h : Chained target schema versions derive s steps s') :
    ∀ step ∈ steps,
      generateEntry target schema versions derive step.entry step.before = .ok (step.made, step.after) := by
  induction steps generalizing s with
  | nil => exact fun step hstep => (List.not_mem_nil hstep).elim
  | cons first rest ih =>
    obtain ⟨_, hfirst, hrest⟩ := h
    intro step hstep
    rcases List.mem_cons.mp hstep with rfl | hstep
    · exact hfirst
    · exact ih hrest step hstep

def Progress.addStep (progress : Progress) (step : Step η) : Progress := progress.add step.entry step.made

theorem generateAll_ok {schema : Inventory.Schema} {versions : BTreeMap String String}
    {derive : List String} {progress progress' : Progress} {entries : List GenerateEntry}
    (h : generateAll target schema versions derive progress entries s = .ok (progress', s')) :
    ∃ steps : List (Step η), steps.map (·.entry) = entries ∧
      Chained target schema versions derive s steps s' ∧ progress' = steps.foldl Progress.addStep progress := by
  induction entries generalizing progress s with
  | nil =>
    cases h
    exact ⟨[], rfl, rfl, rfl⟩
  | cons entry rest ih =>
    simp only [generateAll, stateT_bind_ok] at h
    obtain ⟨made, s₁, hmade, h⟩ := h
    obtain ⟨steps, hentries, hchained, hprogress⟩ := ih h
    refine ⟨⟨s, entry, made, s₁⟩ :: steps, ?_, ⟨rfl, hmade, hchained⟩, hprogress⟩
    rw [List.map_cons, hentries]

/-- What a list of items with distinct identifiers adds up to. -/
theorem foldl_addStep (steps : List (Step η)) (progress : Progress)
    (hdistinct : (steps.map (·.entry.identifier)).Nodup) :
    (steps.foldl Progress.addStep progress).deployments =
      progress.deployments ++ steps.flatMap (fun step => deploymentOf step.entry step.made) ∧
    (∀ step ∈ steps,
      (steps.foldl Progress.addStep progress).produced[step.entry.identifier]? =
        some (step.made.version, step.made.value) ∧
      (steps.foldl Progress.addStep progress).records[step.entry.identifier]? = some step.made.record) ∧
    ∀ k, k ∉ steps.map (·.entry.identifier) →
      (steps.foldl Progress.addStep progress).produced[k]? = progress.produced[k]? ∧
      (steps.foldl Progress.addStep progress).records[k]? = progress.records[k]? := by
  induction steps generalizing progress with
  | nil => simp
  | cons step rest ih =>
    rw [List.map_cons, List.nodup_cons] at hdistinct
    obtain ⟨hdeployments, hsteps, hothers⟩ := ih (progress.addStep step) hdistinct.2
    rw [List.foldl_cons]
    refine ⟨?_, fun step' hstep => ?_, fun k hk => ?_⟩
    · rw [hdeployments, List.flatMap_cons, ← List.append_assoc]
      rfl
    · rcases List.mem_cons.mp hstep with rfl | hstep
      · obtain ⟨hproduced, hrecord⟩ := hothers _ hdistinct.1
        rw [hproduced, hrecord]
        exact ⟨Std.ExtTreeMap.getElem?_insert_self, Std.ExtTreeMap.getElem?_insert_self⟩
      · exact hsteps step' hstep
    · rw [List.map_cons, List.mem_cons, not_or] at hk
      obtain ⟨hproduced, hrecord⟩ := hothers k hk.2
      have hne : step.entry.identifier ≠ k := fun he => hk.1 he.symm
      rw [hproduced, hrecord]
      simp [Progress.addStep, Progress.add, Std.ExtTreeMap.getElem?_insert, hne]

/-- The value and the version of the item are recorded, and deployed if the value is the target's own. -/
structure Recorded (provider : CryptoProvider) (values : GeneratedValues) (step : Step η) : Prop where
  record : values.records[step.entry.identifier]? = some step.made.record
  version : step.made.record.versionIdBase64 = encodeBase64 step.made.version.val
  opens : OpensTo provider step.entry.identifier step.made.record step.made.value
  deployed : step.entry.shared = none →
    ⟨step.entry.identifier, step.made.record.versionIdBase64, encodeBase64 step.made.value⟩ ∈
      values.deployments

/-- An installed value with a readable file is the one the item gives; the host is asked for a version
at most, and only if the installed one is none that a store can hold. -/
def KeepsInstalled (target : Target η) (schema : Inventory.Schema) (versions : BTreeMap String String)
    (step : Step η) : Prop :=
  ∀ leaf installed value, generatedLeaf target schema step.entry.identifier = .ok leaf →
    versions[step.entry.identifier]? = some installed →
    target.host.readInstalled leaf.destination.path = .ok (some value) →
    step.made.value = value ∧ step.made.record.adopted = true ∧
    ((decodeVersion installed = some step.made.version ∧ step.after = step.before) ∨
      (decodeVersion installed = none ∧
        target.host.freshVersion step.before = .ok (step.made.version, step.after)))

/-- The derived value is framed from what an item of this run gave. -/
def Framed (target : Target η) (schema : Inventory.Schema) (steps : List (Step η))
    (values : GeneratedValues) (identifier : String) : Prop :=
  ∃ leaf derived contents, ∃ source ∈ steps,
    ownLeaf target schema "invalid derived identifier: " "derived value belongs to another host"
      "derived value is absent from manifest: " "only stored values can be derived" identifier = .ok leaf ∧
    leaf.derivedFrom = some derived ∧ source.entry.identifier = derived.identifier ∧
    derived.frame target.readToml source.made.value = .ok contents ∧
    ⟨identifier, derived.version target.sha256 source.made.version.val, encodeBase64 contents⟩ ∈
      values.deployments

theorem generateOwn_keeps {schema : Inventory.Schema} {versions : BTreeMap String String}
    {step : Step η} (h : generateOwn target schema versions step.entry step.before =
      .ok (step.made, step.after)) : KeepsInstalled target schema versions step := by
  obtain ⟨leaf, contribution, generator, found, encrypted, hleaf, hfound, hvalue, _, hrecord⟩ :=
    generateOwn_ok h
  intro leaf' installed value hleaf' hversion hread
  cases hleaf.symm.trans hleaf'
  have hsome : found = some (installed, value) := by
    simp only [installedValue, hversion, hread] at hfound
    cases hfound
    rfl
  subst hsome
  rw [hrecord]
  cases hdecoded : decodeVersion installed with
  | some version =>
    simp only [versionAndValue, hdecoded] at hvalue
    obtain ⟨hpair, hafter⟩ := Prod.mk.inj (Except.ok.inj hvalue)
    obtain ⟨hmade, hkept⟩ := Prod.mk.inj hpair
    exact ⟨hkept.symm, rfl, Or.inl ⟨by rw [hmade], hafter.symm⟩⟩
  | none =>
    simp only [versionAndValue, hdecoded, stateT_bind_ok] at hvalue
    obtain ⟨version, s₁, hfresh, hvalue⟩ := hvalue
    obtain ⟨hpair, hafter⟩ := Prod.mk.inj (Except.ok.inj hvalue)
    obtain ⟨hmade, hkept⟩ := Prod.mk.inj hpair
    rw [hmade, hafter] at hfresh
    exact ⟨hkept.symm, rfl, Or.inr ⟨rfl, onHost_ok hfresh⟩⟩

theorem deriveValue_ok {schema : Inventory.Schema} {produced : BTreeMap String (VersionId × List UInt8)}
    {identifier : String} {deployment : SecretDeployment}
    (h : deriveValue target schema produced identifier = .ok deployment) :
    ∃ leaf derived version value contents,
      ownLeaf target schema "invalid derived identifier: " "derived value belongs to another host"
        "derived value is absent from manifest: " "only stored values can be derived" identifier = .ok leaf ∧
      leaf.derivedFrom = some derived ∧ produced[derived.identifier]? = some (version, value) ∧
      derived.frame target.readToml value = .ok contents ∧
      deployment = ⟨identifier, derived.version target.sha256 version.val, encodeBase64 contents⟩ := by
  obtain ⟨leaf, hleaf, h⟩ := Checked.bind_ok h
  obtain ⟨derived, hderived, h⟩ := Checked.bind_ok h
  obtain ⟨⟨version, value⟩, hsource, h⟩ := Checked.bind_ok h
  obtain ⟨contents, hcontents, h⟩ := Checked.bind_ok h
  cases h
  refine ⟨leaf, derived, version, value, contents, hleaf, Checked.orRefuse_ok hderived,
    Checked.orRefuse_ok hsource, ?_, rfl⟩
  have hcontents := Checked.mapRefusal_ok hcontents
  cases hframe : derived.frame target.readToml value with
  | error e => rw [hframe] at hcontents; cases hcontents
  | ok bytes => rw [hframe] at hcontents; cases hcontents; rfl

theorem deployments_identifiers (steps : List (Step η)) :
    (steps.flatMap fun step => deploymentOf step.entry step.made).map (·.identifier) =
      ((steps.map (·.entry)).filter (·.shared = none)).map (·.identifier) := by
  induction steps with
  | nil => rfl
  | cons step rest ih =>
    rw [List.flatMap_cons, List.map_append, ih, List.map_cons, List.filter_cons, deploymentOf]
    by_cases hshared : step.entry.shared = none
    · simp [hshared]
    · simp [hshared]

/-- What a run that succeeds returns. -/
structure Converged (target : Target η) (provider : CryptoProvider) (entries : List GenerateEntry)
    (derive : List String) (versions : BTreeMap String String) (values : GeneratedValues)
    (schema : Inventory.Schema) (steps : List (Step η)) : Prop where
  manifest : target.schema = .ok schema
  items : steps.map (·.entry) = entries
  records : ∀ k, k ∈ values.records ↔ k ∈ entries.map (·.identifier)
  deployments : values.deployments.map (·.identifier) =
    (entries.filter (·.shared = none)).map (·.identifier) ++ derive
  recorded : ∀ step ∈ steps, Recorded provider values step
  kept : ∀ step ∈ steps, step.entry.shared = none → KeepsInstalled target schema versions step
  framed : ∀ identifier ∈ derive, Framed target schema steps values identifier

theorem runValueGeneration_converged {provider : CryptoProvider} {entries : List GenerateEntry}
    {derive : List String} {versions : BTreeMap String String} {values : GeneratedValues}
    (hopens : provider.Opens target.encrypt) (hdistinct : (entries.map (·.identifier)).Nodup)
    (h : runValueGeneration target entries derive versions s = .ok (values, s')) :
    ∃ schema steps, Chained target schema versions derive s steps s' ∧
      Converged target provider entries derive versions values schema steps := by
  simp only [runValueGeneration, stateT_bind_ok, check_ok] at h
  obtain ⟨schema, _, ⟨hschema, rfl⟩, progress, s₁, hprogress, derived, _, ⟨hderived, rfl⟩, h⟩ := h
  cases h
  obtain ⟨steps, rfl, hchained, rfl⟩ := generateAll_ok hprogress
  rw [List.map_map] at hdistinct
  obtain ⟨hdeployments, hsteps, hothers⟩ := foldl_addStep steps {} hdistinct
  have hforall := mapM_ok_iff.mp hderived
  have hmade := hchained.made
  refine ⟨schema, steps, hchained, ?_, rfl, fun k => ?_, ?_, fun step hstep => ?_, fun step hstep hown => ?_,
    fun k hk => ?_⟩
  · cases hload : target.schema with
    | error e => rw [hload] at hschema; cases hschema
    | ok loaded => rw [hload] at hschema; cases hschema; rfl
  · rw [Std.ExtTreeMap.mem_iff_isSome_getElem?, List.map_map]
    constructor
    · intro hsome
      by_contra hnot
      rw [(hothers k hnot).2] at hsome
      simp at hsome
    · intro hk
      obtain ⟨step, hstep, rfl⟩ := List.mem_map.mp hk
      exact Option.isSome_iff_exists.mpr ⟨_, (hsteps step hstep).2⟩
  · rw [hdeployments, List.nil_append, List.map_append, deployments_identifiers]
    congr 1
    apply forall₂_map_eq hforall
    intro k deployment hdeployment
    obtain ⟨_, _, _, _, _, _, _, _, _, rfl⟩ := deriveValue_ok hdeployment
    rfl
  · obtain ⟨hversion, hopened⟩ := generateEntry_opens hopens (hmade step hstep)
    refine ⟨(hsteps step hstep).2, hversion, hopened, fun hown => ?_⟩
    apply List.mem_append_left
    rw [hdeployments, List.nil_append]
    apply List.mem_flatMap_of_mem hstep
    rw [deploymentOf, if_pos hown, hversion]
    exact List.mem_singleton_self _
  · have hstepMade := hmade step hstep
    simp only [generateEntry, hown] at hstepMade
    exact generateOwn_keeps hstepMade
  · obtain ⟨deployment, hmem, hdeployment⟩ := forall₂_mem_left hforall k hk
    obtain ⟨leaf, from', version, value, contents, hleaf, hfrom, hproduced, hframe, rfl⟩ :=
      deriveValue_ok hdeployment
    have hsource : from'.identifier ∈ steps.map (·.entry.identifier) := by
      by_contra hnot
      rw [(hothers _ hnot).1] at hproduced
      simp at hproduced
    obtain ⟨source, hstep, hsame⟩ := List.mem_map.mp hsource
    have hmade := (hsteps source hstep).1
    rw [hsame, hproduced] at hmade
    cases hmade
    exact ⟨leaf, from', contents, source, hstep, hleaf, hfrom, hsame, hframe, List.mem_append_right _ hmem⟩

theorem generatedLeaf_congr {again : Target η} (schema : Inventory.Schema) (identifier : String)
    (h : again.hostname = target.hostname) :
    generatedLeaf again schema identifier = generatedLeaf target schema identifier := by
  simp only [generatedLeaf, ownLeaf, h]

/-- The first attempt's value is installed when this one runs. -/
structure InstalledFor (target again : Target η) (schema : Inventory.Schema)
    (versions : BTreeMap String String) (step : Step η) : Prop where
  version : versions[step.entry.identifier]? = some step.made.record.versionIdBase64
  file : ∀ leaf, generatedLeaf target schema step.entry.identifier = .ok leaf →
    again.host.readInstalled leaf.destination.path = .ok (some step.made.value)

/-- A run that finds the value of an earlier one installed records that value under its version. -/
theorem retry_recorded {again : Target η} {provider : CryptoProvider} {schema : Inventory.Schema}
    {entries : List GenerateEntry} {derive : List String} {versions : BTreeMap String String}
    {values : GeneratedValues} {step : Step η} (hschema : target.schema = .ok schema)
    (hversion : step.made.record.versionIdBase64 = encodeBase64 step.made.version.val)
    (hsame : again.schema = target.schema) (hhost : again.hostname = target.hostname)
    (hopens : provider.Opens again.encrypt) (hdistinct : (entries.map (·.identifier)).Nodup)
    (h : runValueGeneration again entries derive versions s = .ok (values, s'))
    (hasked : ∃ entry ∈ entries, entry.identifier = step.entry.identifier ∧ entry.shared = none)
    (hinstalled : InstalledFor target again schema versions step) :
    ∃ record, values.records[step.entry.identifier]? = some record ∧
      record.versionIdBase64 = step.made.record.versionIdBase64 ∧ record.adopted = true ∧
      OpensTo provider step.entry.identifier record step.made.value := by
  obtain ⟨schema', steps, hchained, hconverged⟩ := runValueGeneration_converged hopens hdistinct h
  have hmanifest := hconverged.manifest
  rw [hsame, hschema] at hmanifest
  cases hmanifest
  obtain ⟨entry, hentry, hid, hown⟩ := hasked
  rw [← hconverged.items] at hentry
  obtain ⟨step', hstep', rfl⟩ := List.mem_map.mp hentry
  have hmade := hchained.made step' hstep'
  simp only [generateEntry, hown] at hmade
  obtain ⟨leaf, _, _, _, _, hleaf, _⟩ := generateOwn_ok hmade
  have hrecorded := hconverged.recorded step' hstep'
  have hkeeps := hconverged.kept step' hstep' hown
  rw [KeepsInstalled, hid] at hkeeps
  rw [hid] at hleaf
  have hleaf' := hleaf
  rw [generatedLeaf_congr schema _ hhost] at hleaf'
  obtain ⟨hvalue, hadopted, hkept⟩ := hkeeps leaf _ _ hleaf hinstalled.version (hinstalled.file leaf hleaf')
  rw [hversion, decodeVersion_encodeBase64] at hkept
  have hkeptVersion : step.made.version = step'.made.version := by
    rcases hkept with ⟨hsome, _⟩ | ⟨hnone, _⟩
    · exact Option.some.inj hsome
    · cases hnone
  refine ⟨step'.made.record, ?_, ?_, hadopted, ?_⟩
  · rw [← hid]
    exact hrecorded.record
  · rw [hrecorded.version, hversion, hkeptVersion]
  · rw [← hid, ← hvalue]
    exact hrecorded.opens

/-- A successful run has a record for each item and a deployment for each own item and each derived
value; it keeps what is installed, its records open to what it deploys, derived values are framed
from its own items, and a retry that finds its values installed records them again. -/
theorem value_generation_converges (target : Target η) (provider : CryptoProvider)
    (entries : List GenerateEntry) (derive : List String) (versions : BTreeMap String String) (s s' : η)
    (values : GeneratedValues) (hopens : provider.Opens target.encrypt)
    (hdistinct : (entries.map (·.identifier)).Nodup)
    (h : runValueGeneration target entries derive versions s = .ok (values, s')) :
    ∃ schema steps, Chained target schema versions derive s steps s' ∧
      Converged target provider entries derive versions values schema steps ∧
      ∀ (again : Target η) (entries' : List GenerateEntry) (derive' : List String)
        (versions' : BTreeMap String String) (s₁ s₁' : η) (values' : GeneratedValues),
        again.schema = target.schema → again.hostname = target.hostname → provider.Opens again.encrypt →
        (entries'.map (·.identifier)).Nodup →
        runValueGeneration again entries' derive' versions' s₁ = .ok (values', s₁') →
        ∀ step ∈ steps,
          (∃ entry ∈ entries', entry.identifier = step.entry.identifier ∧ entry.shared = none) →
          InstalledFor target again schema versions' step →
          ∃ record, values'.records[step.entry.identifier]? = some record ∧
            record.versionIdBase64 = step.made.record.versionIdBase64 ∧ record.adopted = true ∧
            OpensTo provider step.entry.identifier record step.made.value := by
  obtain ⟨schema, steps, hchained, hconverged⟩ := runValueGeneration_converged hopens hdistinct h
  refine ⟨schema, steps, hchained, hconverged, ?_⟩
  intro again entries' derive' versions' s₁ s₁' values' hsame hhost hopens' hdistinct' h' step hstep
    hasked hinstalled
  exact retry_recorded hconverged.manifest (hconverged.recorded step hstep).version hsame hhost hopens'
    hdistinct' h' hasked hinstalled

end

def appLeaf (name : String) : Inventory.SecretLeaf where
  kind := .secret
  recipientPublicKeys := ["ssh-ed25519 AAAA"]
  recipientIds := ["operator"]
  destination := ⟨"/persistent/secrets/app/service/" ++ name, "service", "root", "root", "0400", none, none⟩
  valueType := some .password

def appToken : String := "web.services.app.token"

def appFramed : String := "web.services.app.framed"

def appSchema : Inventory.Schema := [("web", {
  metadata := {
    socketPath := "/run/nix-secrets.sock"
    deployment := { host := "web", destination := "forward@web", port := 22 } }
  serviceGroups := [("services", [("app", .branch [
    ("framed", .secret { appLeaf "framed" with derivedFrom := some ⟨appToken, "pw=", "\n", [], none⟩ }),
    ("token", .secret (appLeaf "token"))])])] })]

/-- A target with one installed value, whose provider encrypts to the plaintext itself. -/
def appTarget : Target Unit where
  schema := .ok appSchema
  hostname := "web"
  host := {
    mix := fun _ s => .ok s
    generate := fun _ s => .ok ([110, 101, 119], s)
    freshVersion := fun s => .ok (⟨List.replicate 16 7, rfl⟩, s)
    readInstalled := fun path => .ok (if path = "/persistent/secrets/app/service/token" then
      some [111, 108, 100] else none) }
  encrypt _ plaintext := .ok plaintext
  sha256 _ := [136, 46, 2, 237, 34, 188, 64, 139, 159, 110, 111, 225, 51, 71, 164, 50, 48, 75, 165, 49, 251,
    204, 127, 157, 163, 5, 205, 100, 42, 206, 171, 195]
  readToml _ := none
  readGenerator text := if text = "\x7b\"kind\":\"password\"\x7d" then some (.password none) else none

def plainProvider : CryptoProvider := ⟨.ok, .ok⟩

theorem plainProvider_opens : plainProvider.Opens appTarget.encrypt := by
  intro keys plaintext ciphertext h
  cases h
  rfl

def appVersions : BTreeMap String String := (∅ : BTreeMap String String).insert appToken "CQkJCQkJCQkJCQkJCQkJCQ=="

def appEntry (shared : Option SharedSource) : GenerateEntry :=
  ⟨appToken, "BQUFBQUFBQUFBQUFBQUFBQUFBQUFBQUFBQUFBQUFBQU=", shared⟩

def appSource : SharedSource :=
  ⟨"\x7b\"kind\":\"password\"\x7d", ["operator"], ["ssh-ed25519 AAAA"]⟩

def appRun (shared : Option SharedSource) : Checked GenerationError (GeneratedValues × Unit) :=
  runValueGeneration appTarget [appEntry shared] [appFramed] appVersions ()

/-- What a run records of a value. -/
def recordOf (run : Checked GenerationError (GeneratedValues × Unit)) (identifier : String) :
    Option GeneratedRecord :=
  match run with
  | .ok (values, _) => values.records[identifier]?
  | .error _ => none

theorem run_of_recordOf {run : Checked GenerationError (GeneratedValues × Unit)} {identifier : String}
    (h : (recordOf run identifier).isSome) : ∃ values, run = .ok (values, ()) := by
  cases run with
  | error e => cases h
  | ok result => exact ⟨result.1, rfl⟩

theorem appRun_converges : ∃ values schema steps, appRun none = .ok (values, ()) ∧
    Converged appTarget plainProvider [appEntry none] [appFramed] appVersions values schema steps := by
  have hsome : (recordOf (appRun none) appToken).isSome := by decide
  obtain ⟨values, h⟩ := run_of_recordOf hsome
  obtain ⟨schema, steps, _, hconverged, _⟩ := value_generation_converges appTarget plainProvider
    [appEntry none] [appFramed] appVersions () () values plainProvider_opens (by simp) h
  exact ⟨values, schema, steps, h, hconverged⟩

/-- A shared source is new even where its value is installed. -/
theorem shared_source_not_kept :
    appVersions[appToken]? = some "CQkJCQkJCQkJCQkJCQkJCQ==" ∧
    generatedLeaf appTarget appSchema appToken = .ok (appLeaf "token") ∧
    appTarget.host.readInstalled (appLeaf "token").destination.path = .ok (some [111, 108, 100]) ∧
    ∃ record, recordOf (appRun (some appSource)) appToken = some record ∧ record.adopted = false ∧
      record.versionIdBase64 = "BwcHBwcHBwcHBwcHBwcHBw==" ∧
      OpensTo plainProvider appToken record [110, 101, 119] := by
  have hparts : (recordOf (appRun (some appSource)) appToken).map (fun record =>
      (record.adopted, record.versionIdBase64, (envelope record).map (decryptSecret plainProvider appToken))) =
        some (false, "BwcHBwcHBwcHBwcHBwcHBw==", some (.ok [110, 101, 119])) := by decide
  obtain ⟨record, hrecord, hparts⟩ := Option.map_eq_some_iff.mp hparts
  obtain ⟨hadopted, hparts⟩ := Prod.mk.inj hparts
  obtain ⟨hversion, hopened⟩ := Prod.mk.inj hparts
  refine ⟨by decide, by decide, by decide, record, hrecord, hadopted, hversion, ?_⟩
  obtain ⟨encrypted, hencrypted, hdecrypted⟩ := Option.map_eq_some_iff.mp hopened
  exact ⟨encrypted, hencrypted, hdecrypted⟩

end NixSecrets.Generation
