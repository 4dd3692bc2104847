import Mathlib.Algebra.BigOperators.Group.List.Basic
import NixSecrets.StoreRecipients
import NixSecrets.JsonSize

namespace NixSecrets.Inventory

def maxFrame : Nat := 8 * 1024 * 1024

def jsonNumber (n : Nat) : List Char := Nat.toDigits 10 n

def base64Bytes (bytes : List UInt8) : List Char := jsonString (String.ofList (base64Encode bytes))

def jsonList (items : List String) : List Char := jsonArray (items.map jsonString)

/-- A list that is left out of the JSON object when it is empty. -/
def listMember (name : String) (items : List String) : List (List Char) :=
  if items = [] then [] else [jsonMember name (jsonList items)]

def EncryptedSecret.json (record : EncryptedSecret) : List Char :=
  jsonObject ([jsonMember "format_version" (jsonNumber record.formatVersion.toNat),
      jsonMember "version_id" (base64Bytes record.versionId)] ++
    (listMember "recipient_ids" record.recipientIds ++
      (listMember "recipient_refs" record.recipientRefs ++
        (jsonMember "age_ciphertext" (base64Bytes record.ageCiphertext) ::
          (record.publicKey.map fun key => jsonMember "public_key" (jsonString key)).toList))))

def QuarantinedContent.json : QuarantinedContent → List Char
  | .generatedRecord formatVersion versionId recipientIds ageCiphertext adopted => jsonObject [
      jsonMember "kind" (jsonString "generated-record"),
      jsonMember "format_version" (jsonNumber formatVersion.toNat),
      jsonMember "version_id_base64" (jsonString versionId),
      jsonMember "recipient_ids" (jsonList recipientIds),
      jsonMember "age_ciphertext_base64" (jsonString ageCiphertext),
      jsonMember "adopted" (if adopted then "true".toList else "false".toList)]
  | .publicKey key => jsonObject [
      jsonMember "kind" (jsonString "public-key"),
      jsonMember "public_key" (jsonString key)]

def QuarantinedValue.json (value : QuarantinedValue) : List Char := jsonObject [
  jsonMember "identifier" (jsonString value.identifier),
  jsonMember "source_host" (jsonString value.sourceHost),
  jsonMember "deployment_id" (jsonString value.deploymentId),
  jsonMember "quarantined_at" (jsonNumber value.quarantinedAt.toNat),
  jsonMember "reason" (jsonString value.reason),
  jsonMember "content" value.content.json]

/-- A response with entries, each under its key. -/
def entriesJson {α : Type} (status : String) (json : α → List Char) (entries : List (String × α)) :
    List Char :=
  jsonObject [jsonMember "status" (jsonString status),
    jsonMember "entries" (jsonObject (entries.map fun entry => jsonMember entry.1 (json entry.2)))]

def secretsJson (entries : List (String × EncryptedSecret)) : List Char :=
  entriesJson "secrets" EncryptedSecret.json entries

def quarantineJson (entries : List (String × QuarantinedValue)) : List Char :=
  entriesJson "quarantine-entries" QuarantinedValue.json entries

def frameLength (length : Nat) : List UInt8 :=
  [UInt8.ofNat (length / 2 ^ 24), UInt8.ofNat (length / 2 ^ 16), UInt8.ofNat (length / 2 ^ 8),
    UInt8.ofNat length]

def writeJson (json : List Char) : Except String (List UInt8) :=
  let body := utf8Bytes json
  if maxFrame < body.length then .error "JSON frame is too large"
  else .ok (frameLength body.length ++ body)

/-- The listing of the store is answered, and the answer is written. -/
def Listed (document : StoreDocument) : Prop :=
  ∃ entries frame, SecretStore.list document = .ok (entries, document) ∧
    writeJson (secretsJson entries) = .ok frame

def QuarantineListed (document : StoreDocument) : Prop :=
  ∃ entries frame, SecretStore.listQuarantine document = .ok (entries, document) ∧
    writeJson (quarantineJson entries) = .ok frame

theorem writeJson_ok_iff (json : List Char) :
    (∃ frame, writeJson json = .ok frame) ↔ utf8Length json ≤ maxFrame := by
  rw [writeJson, length_utf8Bytes]
  by_cases hlarge : maxFrame < utf8Length json
  · rw [if_pos hlarge]
    exact ⟨fun ⟨_, h⟩ => (nomatch h), fun h => absurd hlarge (Nat.not_lt.mpr h)⟩
  · rw [if_neg hlarge]
    exact ⟨fun _ => Nat.not_lt.mp hlarge, fun _ => ⟨_, rfl⟩⟩

/-- The bytes of a list that is left out when it is empty, with its name and a comma. -/
def listMemberSize (name : Nat) (items : List String) : Nat :=
  if items = [] then 0 else name + jsonStringsSize items

def decimalSize (n : Nat) : Nat := (Nat.toDigits 10 n).length

def secretSize (formatVersion versionId : Nat) (recipientIds recipientRefs : List String)
    (ageCiphertext : Nat) (publicKey : Option String) : Nat :=
  55 + decimalSize formatVersion + base64Size versionId + listMemberSize 17 recipientIds +
    listMemberSize 18 recipientRefs + base64Size ageCiphertext +
    (publicKey.map fun key => 14 + jsonStringSize key).getD 0

def EncryptedSecret.size (record : EncryptedSecret) : Nat :=
  secretSize record.formatVersion.toNat record.versionId.length record.recipientIds
    record.recipientRefs record.ageCiphertext.length record.publicKey

theorem utf8Length_jsonNumber (n : Nat) : utf8Length (jsonNumber n) = decimalSize n := by
  refine utf8Length_ascii fun c hc => ?_
  have hdigit := Nat.isDigit_of_mem_toDigits (by decide) (by decide) hc
  rw [Char.isDigit, Bool.and_eq_true, decide_eq_true_iff, decide_eq_true_iff] at hdigit
  have hle : c.toNat ≤ '9'.toNat := hdigit.2
  have hnine : '9'.toNat = 57 := rfl
  omega

theorem utf8Length_base64Bytes (bytes : List UInt8) :
    utf8Length (base64Bytes bytes) = 2 + base64Size bytes.length := by
  rw [base64Bytes, utf8Length_jsonString, jsonStringSize_base64]

theorem listMember_size (name : String) (items : List String) :
    ((listMember name items).map fun m => 1 + utf8Length m).sum =
      listMemberSize (jsonStringSize name + 2) items := by
  unfold listMember listMemberSize
  split
  · rfl
  · simp only [List.map_cons, List.map_nil, List.sum_cons, List.sum_nil, utf8Length_jsonMember,
      jsonList, utf8Length_jsonStrings]
    omega

theorem EncryptedSecret.json_size (record : EncryptedSecret) : utf8Length record.json = record.size := by
  have hversion : jsonStringSize "format_version" = 16 := by decide
  have hid : jsonStringSize "version_id" = 12 := by decide
  have hids : jsonStringSize "recipient_ids" = 15 := by decide
  have hrefs : jsonStringSize "recipient_refs" = 16 := by decide
  have hage : jsonStringSize "age_ciphertext" = 16 := by decide
  have hkey : jsonStringSize "public_key" = 12 := by decide
  have hpublic : ((record.publicKey.map fun key =>
      jsonMember "public_key" (jsonString key)).toList.map fun m => 1 + utf8Length m).sum =
        (record.publicKey.map fun key => 14 + jsonStringSize key).getD 0 := by
    cases record.publicKey with
    | none => rfl
    | some key =>
      simp only [Option.map_some, Option.toList_some, List.map_cons, List.map_nil, List.sum_cons,
        List.sum_nil, Option.getD_some, utf8Length_jsonMember, utf8Length_jsonString, hkey]
      omega
  rw [EncryptedSecret.json, List.cons_append, utf8Length_jsonObject_cons]
  simp only [List.cons_append, List.nil_append, List.map_cons, List.map_append, List.sum_cons,
    List.sum_append, listMember_size, hpublic, utf8Length_jsonMember, utf8Length_jsonNumber,
    utf8Length_base64Bytes, hversion, hid, hids, hrefs, hage, Nat.reduceAdd]
  rw [EncryptedSecret.size, secretSize]
  omega

def QuarantinedContent.size : QuarantinedContent → Nat
  | .generatedRecord formatVersion versionId recipientIds ageCiphertext adopted =>
    119 + decimalSize formatVersion.toNat + jsonStringSize versionId + jsonStringsSize recipientIds +
      jsonStringSize ageCiphertext + if adopted then 4 else 5
  | .publicKey key => 35 + jsonStringSize key

def QuarantinedValue.size (value : QuarantinedValue) : Nat :=
  86 + jsonStringSize value.identifier + jsonStringSize value.sourceHost +
    jsonStringSize value.deploymentId + decimalSize value.quarantinedAt.toNat +
    jsonStringSize value.reason + value.content.size

theorem QuarantinedContent.json_size (content : QuarantinedContent) :
    utf8Length content.json = content.size := by
  have hkind : jsonStringSize "kind" = 6 := by decide
  have hrecord : jsonStringSize "generated-record" = 18 := by decide
  have hversion : jsonStringSize "format_version" = 16 := by decide
  have hid : jsonStringSize "version_id_base64" = 19 := by decide
  have hids : jsonStringSize "recipient_ids" = 15 := by decide
  have hage : jsonStringSize "age_ciphertext_base64" = 23 := by decide
  have hadopted : jsonStringSize "adopted" = 9 := by decide
  have hpublic : jsonStringSize "public-key" = 12 := by decide
  have hkey : jsonStringSize "public_key" = 12 := by decide
  have htrue : utf8Length "true".toList = 4 := by decide
  have hfalse : utf8Length "false".toList = 5 := by decide
  cases content with
  | generatedRecord formatVersion versionId recipientIds ageCiphertext adopted =>
    have hboth : utf8Length (if adopted then "true".toList else "false".toList) =
        if adopted then 4 else 5 := by
      cases adopted
      · exact hfalse
      · exact htrue
    rw [QuarantinedContent.json, utf8Length_jsonObject_cons]
    simp only [List.map_cons, List.map_nil, List.sum_cons, List.sum_nil, utf8Length_jsonMember,
      utf8Length_jsonNumber, utf8Length_jsonString, jsonList, utf8Length_jsonStrings, hkind, hrecord,
      hversion, hid, hids, hage, hadopted, hboth, QuarantinedContent.size]
    omega
  | publicKey key =>
    rw [QuarantinedContent.json, utf8Length_jsonObject_cons]
    simp only [List.map_cons, List.map_nil, List.sum_cons, List.sum_nil, utf8Length_jsonMember,
      utf8Length_jsonString, hkind, hpublic, hkey, QuarantinedContent.size]
    omega

theorem QuarantinedValue.json_size (value : QuarantinedValue) : utf8Length value.json = value.size := by
  have hidentifier : jsonStringSize "identifier" = 12 := by decide
  have hsource : jsonStringSize "source_host" = 13 := by decide
  have hdeployment : jsonStringSize "deployment_id" = 15 := by decide
  have hat : jsonStringSize "quarantined_at" = 16 := by decide
  have hreason : jsonStringSize "reason" = 8 := by decide
  have hcontent : jsonStringSize "content" = 9 := by decide
  rw [QuarantinedValue.json, utf8Length_jsonObject_cons]
  simp only [List.map_cons, List.map_nil, List.sum_cons, List.sum_nil, utf8Length_jsonMember,
    utf8Length_jsonNumber, utf8Length_jsonString, QuarantinedContent.json_size, hidentifier, hsource,
    hdeployment, hat, hreason, hcontent, QuarantinedValue.size]
  omega

/-- The bytes of the entries, each with its key and a colon, and the commas between them. -/
def entriesSize {α : Type} (size : α → Nat) (entries : List (String × α)) : Nat :=
  joinedSize (entries.map fun entry => jsonStringSize entry.1 + 1 + size entry.2)

theorem entriesJson_size {α : Type} (status : String) {json : α → List Char} {size : α → Nat}
    (hsize : ∀ a, utf8Length (json a) = size a) (entries : List (String × α)) :
    utf8Length (entriesJson status json entries) =
      24 + jsonStringSize status + entriesSize size entries := by
  have hstatus : jsonStringSize "status" = 8 := by decide
  have hentries : jsonStringSize "entries" = 9 := by decide
  have hmembers : (entries.map fun entry => jsonMember entry.1 (json entry.2)).map utf8Length =
      entries.map fun entry => jsonStringSize entry.1 + 1 + size entry.2 := by
    rw [List.map_map]
    refine List.map_congr_left fun entry _ => ?_
    rw [Function.comp_apply, utf8Length_jsonMember, hsize]
  rw [entriesJson, utf8Length_jsonObject_cons]
  simp only [List.map_cons, List.map_nil, List.sum_cons, List.sum_nil, utf8Length_jsonMember,
    utf8Length_jsonString, utf8Length_jsonObject, hmembers, hstatus, hentries, entriesSize]
  omega

/-- The fingerprints a record shows: its own, or those its references stand for. -/
def shownRecipients (document : StoreDocument) (record : EncryptedSecret) : List String :=
  if record.recipientRefs = [] then record.recipientIds
  else record.recipientRefs.filterMap (document.recipientRegistry[·]?)

/-- The bytes of one record of the listing. -/
def listedSize (document : StoreDocument) (record : EncryptedSecret) : Nat :=
  secretSize record.formatVersion.toNat record.versionId.length (shownRecipients document record)
    record.recipientRefs record.ageCiphertext.length record.publicKey

/-- The bytes of the listing of the store's records. -/
def listingSize (document : StoreDocument) : Nat :=
  33 + entriesSize (listedSize document) document.secrets.toList

def quarantineSize (document : StoreDocument) : Nat :=
  44 + entriesSize QuarantinedValue.size document.quarantine.toList

theorem lookUp_shown {registry : BTreeMap String String} {refs ids : List String}
    (h : lookUp registry refs = .ok ids) : refs.filterMap (registry[·]?) = ids := by
  induction refs generalizing ids with
  | nil =>
    cases Except.ok.inj h
    rfl
  | cons reference refs ih =>
    rw [lookUp] at h
    cases hget : registry[reference]? with
    | none => rw [hget] at h; cases h
    | some id =>
      rw [hget] at h
      cases hrest : lookUp registry refs with
      | error error => rw [hrest] at h; cases h
      | ok rest =>
        rw [hrest] at h
        cases Except.ok.inj h
        rw [List.filterMap_cons, hget]
        exact congrArg (id :: ·) (ih hrest)

theorem hydrateRecord_size {document : StoreDocument} {record shown : EncryptedSecret}
    (h : hydrateRecord document record = .ok shown) : shown.size = listedSize document record := by
  unfold hydrateRecord at h
  unfold listedSize shownRecipients
  split at h
  next hrefs =>
    cases Except.ok.inj h
    rw [if_pos hrefs]
    rfl
  next hrefs =>
    rw [if_neg hrefs]
    split at h
    · cases h
    · cases hids : lookUp document.recipientRegistry record.recipientRefs with
      | error error => rw [hids] at h; cases h
      | ok ids =>
        rw [hids] at h
        cases Except.ok.inj h
        rw [lookUp_shown hids]
        rfl

theorem hydrateAll_ok {document : StoreDocument} {records : List (String × EncryptedSecret)}
    (h : ∀ entry ∈ records, ∃ shown, hydrateRecord document entry.2 = .ok shown) : ∃ entries,
    SecretStore.hydrateAll document records = .ok entries ∧
      entriesSize EncryptedSecret.size entries = entriesSize (listedSize document) records := by
  suffices hentries : ∃ entries, SecretStore.hydrateAll document records = .ok entries ∧
      entries.map (fun entry => jsonStringSize entry.1 + 1 + entry.2.size) =
        records.map fun entry => jsonStringSize entry.1 + 1 + listedSize document entry.2 by
    obtain ⟨entries, hok, hsizes⟩ := hentries
    exact ⟨entries, hok, congrArg joinedSize hsizes⟩
  induction records with
  | nil => exact ⟨[], rfl, rfl⟩
  | cons entry records ih =>
    obtain ⟨path, record⟩ := entry
    obtain ⟨shown, hshown⟩ := h (path, record) List.mem_cons_self
    obtain ⟨entries, hok, hsizes⟩ := ih fun other ho => h other (List.mem_cons_of_mem _ ho)
    refine ⟨(path, shown) :: entries, ?_, ?_⟩
    · rw [SecretStore.hydrateAll, hshown]
      show (SecretStore.hydrateAll document records >>= _) = _
      rw [hok]
      rfl
    · rw [List.map_cons, List.map_cons, hsizes, hydrateRecord_size hshown]

theorem listed_iff {document : StoreDocument} (h : Hydrates document) :
    Listed document ↔ listingSize document ≤ maxFrame := by
  have hrecords : ∀ entry ∈ document.secrets.toList,
      ∃ shown, hydrateRecord document entry.2 = .ok shown := fun entry hentry =>
    h entry.1 entry.2 (Std.ExtTreeMap.mem_toList_iff_getElem?_eq_some.mp hentry)
  obtain ⟨entries, hok, hsizes⟩ := hydrateAll_ok hrecords
  have hlist : SecretStore.list document = .ok (entries, document) := by
    rw [SecretStore.list, hok]
    rfl
  have hsecrets : jsonStringSize "secrets" = 9 := by decide
  have hsize : utf8Length (secretsJson entries) = listingSize document := by
    rw [secretsJson, entriesJson_size "secrets" EncryptedSecret.json_size, hsizes, hsecrets]
    rfl
  rw [← hsize, ← writeJson_ok_iff]
  constructor
  · rintro ⟨shown, frame, hshown, hframe⟩
    rw [hlist] at hshown
    cases hshown
    exact ⟨frame, hframe⟩
  · rintro ⟨frame, hframe⟩
    exact ⟨entries, frame, hlist, hframe⟩

theorem quarantineListed_iff (document : StoreDocument) :
    QuarantineListed document ↔ quarantineSize document ≤ maxFrame := by
  have hstatus : jsonStringSize "quarantine-entries" = 20 := by decide
  have hsize : utf8Length (quarantineJson document.quarantine.toList) = quarantineSize document := by
    rw [quarantineJson, entriesJson_size "quarantine-entries" QuarantinedValue.json_size, hstatus]
    rfl
  rw [← hsize, ← writeJson_ok_iff]
  constructor
  · rintro ⟨shown, frame, hshown, hframe⟩
    cases hshown
    exact ⟨frame, hframe⟩
  · rintro ⟨frame, hframe⟩
    exact ⟨_, frame, rfl, hframe⟩

/-- In every run of the store, the listings can be written in each state as long as their
bytes fit the frame. -/
theorem listings_available_iff (libs : Libraries) (calls : List StoreCall) :
    (∀ before, before <+: calls → Listed (diskAfter libs {} before).document ∧
      QuarantineListed (diskAfter libs {} before).document) ↔
    ∀ before, before <+: calls → listingSize (diskAfter libs {} before).document ≤ maxFrame ∧
      quarantineSize (diskAfter libs {} before).document ≤ maxFrame := by
  refine forall₂_congr fun before _ => ?_
  rw [listed_iff (diskAfter_hydrates libs before), quarantineListed_iff]

def bulkLeaf (name : String) : SecretLeaf :=
  { webToken with
    recipientNames := []
    destination := { webToken.destination with path := "/persistent/secrets/web/service/" ++ name } }

def bulkSchema : Schema :=
  [("ns1", { webHost with serviceGroups := [("services", [("web", .branch
    [("key", .secret (bulkLeaf "key")), ("token", .secret (bulkLeaf "token"))])])] })]

def bulkPath (name : String) : SecretPath := ⟨["ns1", "services", "web", name]⟩

def bulkEnvelope (bytes : List UInt8) : EncryptedSecret :=
  { tokenEnvelope 1 with ageCiphertext := bytes }

def bulkSet (name : String) (bytes : List UInt8) : StoreCall where
  schema := bulkSchema
  op := .set (bulkPath name) (bulkEnvelope bytes)

theorem bulkSchema_leaf {name : String} (h : name = "key" ∨ name = "token") :
    bulkSchema.leaf (bulkPath name) = .ok (.stored (bulkPath name) (bulkLeaf name)) := by
  rcases h with rfl | rfl <;> rfl

theorem bulkSet_prepare {name : String} {bytes : List UInt8} (h : name = "key" ∨ name = "token")
    (hsome : bytes ≠ []) (hsize : bytes.length ≤ maxCiphertextBytes) :
    (bulkSet name bytes).op.prepare noLibraries bulkSchema = .ok fun document =>
      .ok (.updated, { document with
        secrets := document.secrets.insert (bulkPath name).display (bulkEnvelope bytes) }) := by
  have hrecord : validateRecord (bulkEnvelope bytes) = .ok () := by
    have hnot : ¬ ((bulkEnvelope bytes).formatVersion ≠ 1 ∨ (bulkEnvelope bytes).versionId.length ≠ 16 ∨
        (bulkEnvelope bytes).recipientIds = [] ∨ (bulkEnvelope bytes).ageCiphertext = [] ∨
        maxCiphertextBytes < (bulkEnvelope bytes).ageCiphertext.length) := by
      rintro (hversion | hid | hids | hage | hlarge)
      · exact hversion rfl
      · exact hid rfl
      · cases hids
      · exact hsome hage
      · exact Nat.not_lt.mpr hsize hlarge
    exact if_neg hnot
  have hchecked : SecretStore.setChecked noLibraries bulkSchema (bulkPath name) (bulkEnvelope bytes) none =
      .ok fun document => .ok ((), { document with
        secrets := document.secrets.insert (bulkPath name).display (bulkEnvelope bytes) }) := by
    rw [SecretStore.setChecked, bulkSchema_leaf h]
    show (validateRecord (bulkEnvelope bytes) >>= fun _ => _) = _
    rw [hrecord]
    rfl
  show (SecretStore.setChecked noLibraries bulkSchema _ _ none >>= _) = _
  rw [hchecked]
  rfl

theorem bulkSet_exec {name : String} {bytes : List UInt8} (h : name = "key" ∨ name = "token")
    (hsome : bytes ≠ []) (hsize : bytes.length ≤ maxCiphertextBytes) (disk : StoreDisk) :
    (bulkSet name bytes).exec noLibraries disk = (.done .updated, { file := some { disk.document with
      secrets := disk.document.secrets.insert (bulkPath name).display (bulkEnvelope bytes) } }) := by
  have hprepare : (bulkSet name bytes).op.prepare noLibraries (bulkSet name bytes).schema = .ok _ :=
    bulkSet_prepare h hsome hsize
  unfold StoreCall.exec
  rw [hprepare]
  rfl

/-- A client's request to store an envelope. -/
def setRequestJson (path : SecretPath) (envelope : EncryptedSecret) : List Char := jsonObject [
  jsonMember "operation" (jsonString "set"),
  jsonMember "path" (jsonList path.parts),
  jsonMember "envelope" envelope.json]

theorem setRequestJson_size (path : SecretPath) (envelope : EncryptedSecret) :
    utf8Length (setRequestJson path envelope) = 39 + jsonStringsSize path.parts + envelope.size := by
  have hoperation : jsonStringSize "operation" = 11 := by decide
  have hset : jsonStringSize "set" = 5 := by decide
  have hpath : jsonStringSize "path" = 6 := by decide
  have henvelope : jsonStringSize "envelope" = 10 := by decide
  rw [setRequestJson, utf8Length_jsonObject_cons]
  simp only [List.map_cons, List.map_nil, List.sum_cons, List.sum_nil, utf8Length_jsonMember,
    utf8Length_jsonString, jsonList, utf8Length_jsonStrings, EncryptedSecret.json_size, hoperation,
    hset, hpath, henvelope]
  omega

theorem add_le_sum {α : Type} [DecidableEq α] (f : α → Nat) {xs : List α} {a b : α} (ha : a ∈ xs)
    (hb : b ∈ xs) (hne : a ≠ b) : f a + f b ≤ (xs.map f).sum := by
  have hsum := List.sum_map_erase f ha
  have hsum' := List.sum_map_erase f ((List.mem_erase_of_ne hne.symm).mpr hb)
  omega

theorem listedSize_age (document : StoreDocument) (record : EncryptedSecret) :
    base64Size record.ageCiphertext.length ≤ listedSize document record := by
  rw [listedSize, secretSize]
  omega

theorem listingSize_two {document : StoreDocument} {path path' : String} {record record' : EncryptedSecret}
    (h : document.secrets[path]? = some record) (h' : document.secrets[path']? = some record')
    (hne : path ≠ path') : base64Size record.ageCiphertext.length +
      base64Size record'.ageCiphertext.length ≤ listingSize document := by
  have hsum := add_le_sum (fun entry : String × EncryptedSecret =>
      jsonStringSize entry.1 + 1 + listedSize document entry.2)
    (Std.ExtTreeMap.mem_toList_iff_getElem?_eq_some.mpr h)
    (Std.ExtTreeMap.mem_toList_iff_getElem?_eq_some.mpr h') fun he => hne (Prod.mk.inj he).1
  have hlisting : (document.secrets.toList.map fun entry =>
      jsonStringSize entry.1 + 1 + listedSize document entry.2).sum ≤ listingSize document := by
    rw [listingSize, entriesSize, joinedSize]
    omega
  have hage := listedSize_age document record
  have hage' := listedSize_age document record'
  dsimp only at hsum
  omega

def bulk : List UInt8 := List.replicate 3150000 0

theorem bulk_length : bulk.length = 3150000 := List.length_replicate

def bulkSets : List StoreCall := [bulkSet "key" bulk, bulkSet "token" bulk]

theorem bulk_stored : (diskAfter noLibraries {} bulkSets).document.secrets =
    ((∅ : BTreeMap String EncryptedSecret).insert (bulkPath "key").display (bulkEnvelope bulk)).insert
      (bulkPath "token").display (bulkEnvelope bulk) := by
  have hsome : bulk ≠ [] := List.ne_nil_of_length_pos (by rw [bulk_length]; decide)
  have hsize : bulk.length ≤ maxCiphertextBytes := by rw [bulk_length]; decide
  rw [bulkSets, diskAfter, List.foldl_cons, List.foldl_cons, List.foldl_nil,
    bulkSet_exec (Or.inl rfl) hsome hsize, bulkSet_exec (Or.inr rfl) hsome hsize]
  rfl

/-- Two records of three megabytes, each set by a request that fits the frame, make a
listing that does not. -/
theorem two_sets_unlisted :
    (∀ call ∈ bulkSets, ∃ path envelope frame, call.op = .set path envelope ∧
      writeJson (setRequestJson path envelope) = .ok frame) ∧
    (∀ disk, ∀ call ∈ bulkSets, (call.exec noLibraries disk).1 = .done .updated) ∧
    ¬ Listed (diskAfter noLibraries {} bulkSets).document := by
  have hsome : bulk ≠ [] := List.ne_nil_of_length_pos (by rw [bulk_length]; decide)
  have hsize : bulk.length ≤ maxCiphertextBytes := by rw [bulk_length]; decide
  have hage : base64Size bulk.length = 4200000 := by rw [bulk_length]; decide
  refine ⟨?_, ?_, ?_⟩
  · have hrequest (name : String) (hname : jsonStringsSize (bulkPath name).parts ≤ 100) :
        ∃ frame, writeJson (setRequestJson (bulkPath name) (bulkEnvelope bulk)) = .ok frame := by
      have hrest : secretSize 1 16 ["age1alice"] [] 3150000 none ≤ 5000000 := by decide
      have henvelope : (bulkEnvelope bulk).size = secretSize 1 16 ["age1alice"] [] bulk.length none := rfl
      rw [bulk_length] at henvelope
      have hmax : maxFrame = 8388608 := rfl
      rw [writeJson_ok_iff, setRequestJson_size, henvelope]
      omega
    intro call hcall
    rw [bulkSets, List.mem_cons, List.mem_singleton] at hcall
    obtain rfl | rfl := hcall
    · obtain ⟨frame, hframe⟩ := hrequest "key" (by decide)
      exact ⟨_, _, frame, rfl, hframe⟩
    · obtain ⟨frame, hframe⟩ := hrequest "token" (by decide)
      exact ⟨_, _, frame, rfl, hframe⟩
  · intro disk call hcall
    rw [bulkSets, List.mem_cons, List.mem_singleton] at hcall
    obtain rfl | rfl := hcall
    · rw [bulkSet_exec (Or.inl rfl) hsome hsize]
    · rw [bulkSet_exec (Or.inr rfl) hsome hsize]
  · rw [listed_iff (diskAfter_hydrates noLibraries bulkSets)]
    have hkey : (diskAfter noLibraries {} bulkSets).document.secrets[(bulkPath "key").display]? =
        some (bulkEnvelope bulk) := by
      rw [bulk_stored, Std.ExtTreeMap.getElem?_insert, if_neg (by decide),
        Std.ExtTreeMap.getElem?_insert_self]
    have htoken : (diskAfter noLibraries {} bulkSets).document.secrets[(bulkPath "token").display]? =
        some (bulkEnvelope bulk) := by
      rw [bulk_stored, Std.ExtTreeMap.getElem?_insert_self]
    have hlisting := listingSize_two hkey htoken (by decide)
    have henvelope : (bulkEnvelope bulk).ageCiphertext = bulk := rfl
    rw [henvelope, hage] at hlisting
    have hmax : maxFrame = 8388608 := rfl
    omega

end NixSecrets.Inventory
