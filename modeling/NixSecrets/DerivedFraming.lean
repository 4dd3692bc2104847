import NixSecrets.Controller
import NixSecrets.GenerationConverges
import NixSecrets.PasswordFile

namespace NixSecrets.Inventory

open Generation

namespace DerivedFrom

/-- What is framed: the source, or the field of it that is selected. -/
def selected (readToml : ReadToml) (derived : DerivedFrom) (source : List UInt8) : Except String (List UInt8) :=
  if derived.tomlPath = [] then .ok source
  else (derived.select readToml source).map fun field => utf8Bytes field.toList

/-- No NUL, carriage return or line feed. -/
def OnePassword (bytes : List UInt8) : Prop := ∀ byte ∈ bytes, byte ≠ 0 ∧ byte ≠ 13 ∧ byte ≠ 10

/-- Four fields of a password file, each with its colon, and one line feed after the password. -/
structure FramesPassword (derived : DerivedFrom) (front : List (List UInt8)) : Prop where
  encoding : derived.encoding = some "pgpass"
  count : front.length = 4
  fields : ∀ field ∈ front, PasswordFile.Field field
  framing : utf8Bytes derived.front.toList = front.flatMap (· ++ [PasswordFile.colon]) ∧ derived.suffix = "\n"

variable {readToml : ReadToml} {derived : DerivedFrom} {source framed : List UInt8}

theorem frame_selected (readToml : ReadToml) (derived : DerivedFrom) (source : List UInt8) :
    derived.frame readToml source = (derived.selected readToml source).bind derived.frameEncoded := by
  unfold frame selected
  split
  next => rfl
  next =>
    cases derived.select readToml source with
    | error error => rfl
    | ok field => rfl

theorem escapePgpass_eq : escapePgpass = PasswordFile.escape := rfl

theorem onePassword_iff (bytes : List UInt8) :
    (bytes.any fun byte => byte = 0 || byte = 13 || byte = 10) = false ↔ OnePassword bytes := by
  simp only [List.any_eq_false, Bool.or_eq_true, decide_eq_true_eq, not_or, and_assoc, OnePassword, ne_eq]

theorem frameEncoded_pgpass (hencoding : derived.encoding = some "pgpass") (bytes : List UInt8) :
    derived.frameEncoded bytes = .ok framed ↔
      OnePassword bytes ∧ framed = derived.frameBytes (PasswordFile.escape bytes) := by
  simp only [frameEncoded, hencoding]
  rw [← onePassword_iff, ← escapePgpass_eq]
  split
  next hbad =>
    constructor
    · exact nofun
    · intro h
      exact absurd (hbad.symm.trans h.1) nofun
  next hgood =>
    constructor
    · intro h
      cases h
      exact ⟨Bool.eq_false_iff.mpr hgood, rfl⟩
    · rintro ⟨-, rfl⟩
      rfl

theorem frame_pgpass (hencoding : derived.encoding = some "pgpass") : derived.frame readToml source = .ok framed ↔
    ∃ bytes, derived.selected readToml source = .ok bytes ∧ OnePassword bytes ∧
      framed = derived.frameBytes (PasswordFile.escape bytes) := by
  rw [frame_selected]
  cases derived.selected readToml source with
  | error error =>
    constructor
    · exact nofun
    · rintro ⟨bytes, hbytes, -⟩
      cases hbytes
  | ok bytes =>
    show derived.frameEncoded bytes = .ok framed ↔ _
    rw [frameEncoded_pgpass hencoding]
    constructor
    · exact fun h => ⟨bytes, rfl, h⟩
    · rintro ⟨bytes', hbytes, h⟩
      cases hbytes
      exact h

theorem frameBytes_record {front : List (List UInt8)} (h : derived.FramesPassword front) {bytes : List UInt8}
    (hone : OnePassword bytes) :
    let record := front.flatMap (· ++ [PasswordFile.colon]) ++ PasswordFile.escape bytes
    PasswordFile.records (derived.frameBytes (PasswordFile.escape bytes)) = [record] ∧
      PasswordFile.fields record = front ++ [PasswordFile.escape bytes] := by
  have hfield : PasswordFile.Field (PasswordFile.escape bytes) :=
    PasswordFile.escape_field fun hmem => (hone _ hmem).2.2 rfl
  have hsuffix : utf8Bytes derived.suffix.toList = [PasswordFile.lineFeed] := by
    rw [h.framing.2]
    decide
  have hne : front.flatMap (· ++ [PasswordFile.colon]) ++ PasswordFile.escape bytes ≠ [] := by
    have hcount := h.count
    cases front with
    | nil => cases hcount
    | cons field rest => simp
  refine ⟨?_, PasswordFile.fields_all h.fields hfield⟩
  rw [frameBytes, h.framing.1, hsuffix]
  exact PasswordFile.records_line hne (PasswordFile.no_line_all h.fields hfield)

theorem frame_plain (hencoding : derived.encoding = none) : derived.frame readToml source =
    (derived.selected readToml source).map fun bytes =>
      utf8Bytes derived.front.toList ++ bytes ++ utf8Bytes derived.suffix.toList := by
  have hencoded (bytes : List UInt8) : derived.frameEncoded bytes = .ok (derived.frameBytes bytes) := by
    simp only [frameEncoded, hencoding]
  rw [frame_selected]
  cases derived.selected readToml source with
  | error error => rfl
  | ok bytes => exact hencoded bytes

end DerivedFrom

/-- The operator sends the frame of the decrypted source. -/
theorem derivedEntry_frame {libs : Manager.Libraries} {schema : Schema} {identifier source : String}
    {entries : BTreeMap String EncryptedSecret} {plaintexts : BTreeMap String (List UInt8)}
    {sent : SecretDeployment} {path : SecretPath} {leaf : SecretLeaf} {derived : DerivedFrom}
    {value : List UInt8} (hleaf : Manager.leafOf libs schema identifier = .ok (.stored path leaf))
    (hderived : leaf.derivedFrom = some derived) (hvalue : plaintexts[source]? = some value)
    (h : Manager.derivedEntry libs schema identifier source entries plaintexts = .ok sent) :
    ∃ contents, derived.frame libs.readToml value = .ok contents ∧ sent.contentsBase64 = encodeBase64 contents := by
  obtain ⟨found, hfound, h⟩ := Checked.bind_ok h
  cases hleaf.symm.trans hfound
  obtain ⟨derived', hderived', hstored⟩ := Checked.bind_ok h
  cases hderived.symm.trans (Checked.orRefuse_ok hderived')
  obtain ⟨stored, -, hopened⟩ := Checked.bind_ok hstored
  obtain ⟨value', hvalue', hframed⟩ := Checked.bind_ok hopened
  cases hvalue.symm.trans (Checked.orRefuse_ok hvalue')
  obtain ⟨contents, hcontents, hsent⟩ := Checked.bind_ok hframed
  cases hsent
  refine ⟨contents, ?_, rfl⟩
  cases hframe : derived.frame libs.readToml value with
  | error error =>
    rw [hframe] at hcontents
    cases hcontents
  | ok bytes =>
    rw [hframe] at hcontents
    cases hcontents
    rfl

/-- The target makes the frame of the produced source. -/
theorem deriveValue_frame {η : Type} {target : Generation.Target η} {schema : Schema}
    {produced : BTreeMap String (Crypto.VersionId × List UInt8)} {identifier : String}
    {made : SecretDeployment} {leaf : SecretLeaf} {derived : DerivedFrom} {version : Crypto.VersionId}
    {value : List UInt8}
    (hleaf : ownLeaf target schema "invalid derived identifier: " "derived value belongs to another host"
      "derived value is absent from manifest: " "only stored values can be derived" identifier = .ok leaf)
    (hderived : leaf.derivedFrom = some derived) (hvalue : produced[derived.identifier]? = some (version, value))
    (h : deriveValue target schema produced identifier = .ok made) :
    ∃ contents, derived.frame target.readToml value = .ok contents ∧ made.contentsBase64 = encodeBase64 contents := by
  obtain ⟨leaf', derived', version', value', contents, hleaf', hderived', hvalue', hframe, rfl⟩ := deriveValue_ok h
  cases hleaf.symm.trans hleaf'
  cases hderived.symm.trans hderived'
  cases hvalue.symm.trans hvalue'
  exact ⟨contents, hframe, rfl⟩

/-- A framed password is one record that gives the password back; without an encoding the source is framed as it
is. The operator and the target frame alike. -/
theorem derived_framing :
    (∀ (readToml : ReadToml) (derived : DerivedFrom) (source : List UInt8) (front : List (List UInt8)),
      derived.FramesPassword front →
      ((∃ framed, derived.frame readToml source = .ok framed) ↔
        ∃ bytes, derived.selected readToml source = .ok bytes ∧ DerivedFrom.OnePassword bytes) ∧
      ∀ framed, derived.frame readToml source = .ok framed → ∃ record fifth,
        PasswordFile.records framed = [record] ∧ PasswordFile.fields record = front ++ [fifth] ∧
        derived.selected readToml source = .ok (PasswordFile.unescape fifth)) ∧
    (∀ (readToml : ReadToml) (derived : DerivedFrom) (source : List UInt8), derived.encoding = none →
      derived.frame readToml source = (derived.selected readToml source).map fun bytes =>
        utf8Bytes derived.front.toList ++ bytes ++ utf8Bytes derived.suffix.toList) ∧
    ∀ {η : Type} (libs : Manager.Libraries) (target : Generation.Target η) (schema manifest : Schema) (identifier source : String)
      (entries : BTreeMap String EncryptedSecret) (plaintexts : BTreeMap String (List UInt8))
      (produced : BTreeMap String (Crypto.VersionId × List UInt8)) (path : SecretPath) (leaf own : SecretLeaf)
      (derived : DerivedFrom) (version : Crypto.VersionId) (value : List UInt8) (sent made : SecretDeployment),
      target.readToml = libs.readToml → Manager.leafOf libs schema identifier = .ok (.stored path leaf) →
      ownLeaf target manifest "invalid derived identifier: " "derived value belongs to another host"
        "derived value is absent from manifest: " "only stored values can be derived" identifier = .ok own →
      leaf.derivedFrom = some derived → own.derivedFrom = some derived →
      plaintexts[source]? = some value → produced[derived.identifier]? = some (version, value) →
      Manager.derivedEntry libs schema identifier source entries plaintexts = .ok sent →
      deriveValue target manifest produced identifier = .ok made → sent.contentsBase64 = made.contentsBase64 := by
  refine ⟨fun readToml derived source front hframes => ⟨?_, fun framed hframe => ?_⟩,
    fun readToml derived source hencoding => DerivedFrom.frame_plain hencoding, ?_⟩
  · constructor
    · rintro ⟨framed, hframe⟩
      obtain ⟨bytes, hselected, hone, -⟩ := (DerivedFrom.frame_pgpass hframes.encoding).mp hframe
      exact ⟨bytes, hselected, hone⟩
    · rintro ⟨bytes, hselected, hone⟩
      exact ⟨_, (DerivedFrom.frame_pgpass hframes.encoding).mpr ⟨bytes, hselected, hone, rfl⟩⟩
  · obtain ⟨bytes, hselected, hone, rfl⟩ := (DerivedFrom.frame_pgpass hframes.encoding).mp hframe
    obtain ⟨hrecords, hfields⟩ := DerivedFrom.frameBytes_record hframes hone
    refine ⟨_, PasswordFile.escape bytes, hrecords, hfields, ?_⟩
    rw [PasswordFile.unescape_escape]
    exact hselected
  · intro η libs target schema manifest identifier source entries plaintexts produced path leaf own derived version
      value sent made htoml hleaf hown hderived hderived' hvalue hvalue' hsent hmade
    obtain ⟨contents, hframe, hcontents⟩ := derivedEntry_frame hleaf hderived hvalue hsent
    obtain ⟨contents', hframe', hcontents'⟩ := deriveValue_frame hown hderived' hvalue' hmade
    rw [htoml, hframe] at hframe'
    cases hframe'
    rw [hcontents, hcontents']

def replicator : DerivedFrom where
  identifier := "db.services.postgresql.password"
  front := "host:5432:replication:replicator:"
  suffix := "\n"
  tomlPath := []
  encoding := some "pgpass"

def replicatorFields : List (List UInt8) := ["host", "5432", "replication", "replicator"].map fun field => utf8Bytes field.toList

/-- A password with a colon in it that ends in a backslash. -/
theorem derived_framing_replicator : ∃ record fifth,
    PasswordFile.records (utf8Bytes "host:5432:replication:replicator:pass\\:word\\\\\n".toList) = [record] ∧
    PasswordFile.fields record = replicatorFields ++ [fifth] ∧
    PasswordFile.unescape fifth = utf8Bytes "pass:word\\".toList := by
  have hframes : replicator.FramesPassword replicatorFields := by
    have hplain : ∀ field ∈ replicatorFields, ∀ byte ∈ field,
        byte ≠ PasswordFile.colon ∧ byte ≠ PasswordFile.backslash ∧ byte ≠ PasswordFile.lineFeed := by decide +kernel
    refine ⟨rfl, rfl, fun field hfield => ?_, by decide⟩
    have hbytes := hplain field hfield
    clear hplain hfield
    induction field with
    | nil => exact .nil
    | cons byte rest ih =>
      have hbyte := hbytes byte List.mem_cons_self
      exact .plain hbyte.1 hbyte.2.1 hbyte.2.2 (ih fun byte hmem => hbytes byte (List.mem_cons_of_mem _ hmem))
  have hframe : replicator.frame (fun _ => none) (utf8Bytes "pass:word\\".toList) =
      .ok (utf8Bytes "host:5432:replication:replicator:pass\\:word\\\\\n".toList) := by decide
  obtain ⟨record, fifth, hrecords, hfields, hselected⟩ :=
    (derived_framing.1 (fun _ => none) replicator _ replicatorFields hframes).2 _ hframe
  refine ⟨record, fifth, hrecords, hfields, ?_⟩
  exact (Except.ok.inj hselected).symm

end NixSecrets.Inventory
