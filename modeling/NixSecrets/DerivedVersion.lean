import NixSecrets.InventorySchema
import NixSecrets.JsonSize
import NixSecrets.LengthPrefixed

namespace NixSecrets.Inventory

def maxDerivedAffixBytes : Nat := 1024

inductive DerivationError
  | identifier (error : SchemaError)
  | message (text : String)
  deriving DecidableEq, Repr

attribute [ext] DerivedFrom

namespace DerivedFrom

def checkAffix (affix : String) : Checked DerivationError Unit :=
  Checked.refuseIf (maxDerivedAffixBytes < affix.utf8ByteSize ∨ '\x00' ∈ affix.toList)
    (.message "derivedFrom prefix and suffix must be at most 1024 bytes without NUL")

def validateDefinition (derived : DerivedFrom) : Checked DerivationError SecretPath := do
  let source ← (SecretPath.parse derived.identifier).mapRefusal DerivationError.identifier
  Checked.refuseIf (8 < derived.tomlPath.length ∨
      ∃ key ∈ derived.tomlPath, key = "" ∨ 128 < key.utf8ByteSize ∨ '\x00' ∈ key.toList)
    (.message "derivedFrom.tomlPath must be at most 8 non-empty keys")
  Checked.refuseIf (derived.encoding.any (· ≠ "pgpass"))
    (.message "derivedFrom.encoding must be pgpass when set")
  Checked.each checkAffix [derived.front, derived.suffix]
  return source

/-- What goes into the version, part by part; without a selector and an encoding there is
nothing for them. -/
def hashedParts (derived : DerivedFrom) (sourceVersion : List UInt8) : List (List UInt8) :=
  [sourceVersion, utf8Bytes derived.identifier.toList, utf8Bytes derived.front.toList,
    utf8Bytes derived.suffix.toList] ++
  (if derived.tomlPath = [] then []
    else [utf8Bytes ("\x00".intercalate derived.tomlPath).toList]) ++
  (derived.encoding.map fun encoding => utf8Bytes ("encoding:" ++ encoding).toList).toList

/-- Every part is hashed behind its length in eight bytes. -/
def hashed (derived : DerivedFrom) (sourceVersion : List UInt8) : List UInt8 :=
  prefixedAll 8 (derived.hashedParts sourceVersion)

def version (sha256 : List UInt8 → List UInt8) (derived : DerivedFrom) (sourceVersion : List UInt8) :
    String :=
  "d-" ++ String.join (((sha256 (derived.hashed sourceVersion)).take 16).map hexByte)

end DerivedFrom

/-- A derivation as the program holds it: it was accepted, and its identifier fits into memory. -/
structure Derivation where
  derived : DerivedFrom
  source : SecretPath
  accepted : derived.validateDefinition = .ok source
  addressable : derived.identifier.utf8ByteSize < 2 ^ 63

structure SourceVersion where
  bytes : List UInt8
  addressable : bytes.length < 2 ^ 63

/-- Equal hashed bytes come from equal inputs. -/
def Derivation.PinsInputs (d d' : Derivation) (v v' : SourceVersion) : Prop :=
  d.derived.hashed v.bytes = d'.derived.hashed v'.bytes → d.derived = d'.derived ∧ v = v'

/-- The one TOML key that is spelled like the tag of the encoding. -/
def encodingTag : String := "encoding:pgpass"

/-- The first selects the field named like the tag, the second encodes the whole source. -/
def DerivedFrom.SelectsTag (selects encodes : DerivedFrom) : Prop :=
  selects = { encodes with
    tomlPath := [encodingTag]
    encoding := none } ∧ encodes.tomlPath = [] ∧ encodes.encoding = some "pgpass"

namespace DerivedFrom

theorem checkAffix_ok {affix : String} (h : checkAffix affix = .ok ()) : affix.utf8ByteSize ≤ 1024 := by
  have hnot := Checked.refuseIf_ok h
  rw [maxDerivedAffixBytes] at hnot
  omega

/-- What the check says about the parts that are hashed. -/
structure Accepted (derived : DerivedFrom) : Prop where
  keys : ∀ key ∈ derived.tomlPath, key ≠ "" ∧ key.utf8ByteSize ≤ 128 ∧ '\x00' ∉ key.toList
  count : derived.tomlPath.length ≤ 8
  encoding : ∀ encoding, derived.encoding = some encoding → encoding = "pgpass"
  front : derived.front.utf8ByteSize ≤ 1024
  suffix : derived.suffix.utf8ByteSize ≤ 1024

theorem validateDefinition_ok {derived : DerivedFrom} {source : SecretPath}
    (h : derived.validateDefinition = .ok source) : derived.Accepted := by
  obtain ⟨_, _, h⟩ := Checked.bind_ok h
  obtain ⟨_, hpath, h⟩ := Checked.bind_ok h
  obtain ⟨_, hencoding, h⟩ := Checked.bind_ok h
  obtain ⟨_, haffixes, _⟩ := Checked.bind_ok h
  have hpath := Checked.refuseIf_ok hpath
  have hencoding := Checked.refuseIf_ok hencoding
  have haffixes := Checked.each_ok haffixes
  constructor
  · intro key hkey
    have hnot : ¬ (key = "" ∨ 128 < key.utf8ByteSize ∨ '\x00' ∈ key.toList) :=
      fun hbad => hpath (Or.inr ⟨key, hkey, hbad⟩)
    simpa using hnot
  · have hshort : ¬ 8 < derived.tomlPath.length := fun hlong => hpath (Or.inl hlong)
    omega
  · intro encoding he
    simpa [he] using hencoding
  · exact checkAffix_ok (haffixes derived.front (by simp))
  · exact checkAffix_ok (haffixes derived.suffix (by simp))

end DerivedFrom

namespace DerivedFrom

theorem joined_length {keys : List String} {size : Nat} (h : ∀ key ∈ keys, key.utf8ByteSize ≤ size) :
    utf8Length ("\x00".intercalate keys).toList ≤ keys.length * (size + 1) := by
  have hlengths : ∀ key ∈ keys.map String.toList, utf8Length key ≤ size := by
    intro key hkey
    obtain ⟨text, htext, rfl⟩ := List.mem_map.mp hkey
    rw [← utf8ByteSize_text, String.ofList_toList]
    exact h text htext
  have hseparator : utf8Length "\x00".toList = 1 := by decide
  have hcount : keys.length = (keys.map String.toList).length := by simp
  rw [String.toList_intercalate, hcount]
  generalize keys.map String.toList = texts at hlengths ⊢
  induction texts with
  | nil => simp [utf8Length]
  | cons text texts ih =>
    have htext := hlengths text List.mem_cons_self
    cases texts with
    | nil =>
      rw [List.intercalate_singleton]
      simp
      omega
    | cons next rest =>
      have hrest := ih fun key hkey => hlengths key (List.mem_cons_of_mem text hkey)
      rw [List.intercalate_cons_cons, utf8Length_append, utf8Length_append, hseparator]
      simp only [List.length_cons] at hrest ⊢
      have hcount : (rest.length + 1 + 1) * (size + 1) = (rest.length + 1) * (size + 1) + (size + 1) := by
        rw [Nat.succ_mul]
      omega

theorem joined_split {keys : List String} (h : ∀ key ∈ keys, '\x00' ∉ key.toList) (hne : keys ≠ []) :
    ("\x00".intercalate keys).toList.splitOn '\x00' = keys.map String.toList := by
  have hclean : ∀ text ∈ keys.map String.toList, '\x00' ∉ text := by
    intro text htext
    obtain ⟨key, hkey, rfl⟩ := List.mem_map.mp htext
    exact h key hkey
  have hmap : keys.map String.toList ≠ [] := fun hnil => hne (List.map_eq_nil_iff.mp hnil)
  rw [String.toList_intercalate]
  exact List.splitOn_intercalate '\x00' hclean hmap

/-- Keys without NUL are told apart by the text they are joined to. -/
theorem joined_inj {keys keys' : List String} (h : ∀ key ∈ keys, '\x00' ∉ key.toList)
    (h' : ∀ key ∈ keys', '\x00' ∉ key.toList) (hne : keys ≠ []) (hne' : keys' ≠ [])
    (heq : "\x00".intercalate keys = "\x00".intercalate keys') : keys = keys' := by
  have hmaps : keys.map String.toList = keys'.map String.toList := by
    rw [← joined_split h hne, ← joined_split h' hne', heq]
  exact List.map_injective_iff.mpr (fun _ _ => String.toList_inj.mp) hmaps

end DerivedFrom

namespace Derivation

variable {d d' : Derivation} {v v' : SourceVersion}

theorem part_length {part : List UInt8} (h : part ∈ d.derived.hashedParts v.bytes) :
    part.length < 256 ^ 8 := by
  have haccepted := DerivedFrom.validateDefinition_ok d.accepted
  have hlimit : 256 ^ 8 = 2 ^ 64 := by decide
  rw [hlimit]
  simp only [DerivedFrom.hashedParts, List.mem_append, List.mem_cons, List.not_mem_nil, or_false] at h
  rcases h with ((h | h | h | h) | h) | h
  · have hv := v.addressable
    rw [h]
    omega
  · have hidentifier := d.addressable
    rw [h, utf8Bytes_string_length]
    omega
  · have hfront := haccepted.front
    rw [h, utf8Bytes_string_length]
    omega
  · have hsuffix := haccepted.suffix
    rw [h, utf8Bytes_string_length]
    omega
  · split at h
    · cases h
    · have hjoined := DerivedFrom.joined_length fun key hkey => (haccepted.keys key hkey).2.1
      have hcount := Nat.mul_le_mul_right (128 + 1) haccepted.count
      rw [List.mem_singleton.mp h, length_utf8Bytes]
      omega
  · cases hencoding : d.derived.encoding with
    | none => simp [hencoding] at h
    | some encoding =>
      rw [haccepted.encoding encoding hencoding] at hencoding
      rw [hencoding] at h
      rw [List.mem_singleton.mp h]
      decide

/-- The texts of the parts behind the four that are always there. -/
def optionalTexts (derived : DerivedFrom) : List String :=
  (if derived.tomlPath = [] then [] else ["\x00".intercalate derived.tomlPath]) ++
    (derived.encoding.map ("encoding:" ++ ·)).toList

theorem hashedParts_eq (derived : DerivedFrom) (sourceVersion : List UInt8) :
    derived.hashedParts sourceVersion = sourceVersion :: utf8Bytes derived.identifier.toList ::
      utf8Bytes derived.front.toList :: utf8Bytes derived.suffix.toList ::
        (optionalTexts derived).map fun text => utf8Bytes text.toList := by
  unfold DerivedFrom.hashedParts optionalTexts
  by_cases hpath : derived.tomlPath = []
  · cases derived.encoding <;> simp [hpath]
  · cases derived.encoding <;> simp [hpath]

theorem hashed_inj (h : d.derived.hashed v.bytes = d'.derived.hashed v'.bytes) :
    v = v' ∧ d.derived.identifier = d'.derived.identifier ∧ d.derived.front = d'.derived.front ∧
      d.derived.suffix = d'.derived.suffix ∧ optionalTexts d.derived = optionalTexts d'.derived := by
  have hparts := prefixedAll_inj (by decide) (fun _ hp => part_length hp) (fun _ hp => part_length hp) h
  rw [hashedParts_eq, hashedParts_eq] at hparts
  obtain ⟨hv, hparts⟩ := List.cons.inj hparts
  obtain ⟨hidentifier, hparts⟩ := List.cons.inj hparts
  obtain ⟨hfront, hparts⟩ := List.cons.inj hparts
  obtain ⟨hsuffix, hparts⟩ := List.cons.inj hparts
  refine ⟨?_, utf8Bytes_string_inj hidentifier, utf8Bytes_string_inj hfront,
    utf8Bytes_string_inj hsuffix, ?_⟩
  · cases v
    cases v'
    simpa using hv
  · exact List.map_injective_iff.mpr (fun _ _ => utf8Bytes_string_inj) hparts

theorem encoding_cases (d : Derivation) :
    d.derived.encoding = none ∨ d.derived.encoding = some "pgpass" := by
  cases he : d.derived.encoding with
  | none => exact Or.inl rfl
  | some encoding =>
    rw [(DerivedFrom.validateDefinition_ok d.accepted).encoding encoding he]
    exact Or.inr rfl

theorem keys_clean (d : Derivation) : ∀ key ∈ d.derived.tomlPath, '\x00' ∉ key.toList :=
  fun key hkey => ((DerivedFrom.validateDefinition_ok d.accepted).keys key hkey).2.2

theorem tagged_of_some (h : d.derived.encoding = some "pgpass") :
    (d.derived.encoding.map ("encoding:" ++ ·)).toList = [encodingTag] := by
  rw [h]
  rfl

/-- Selectors on both sides are told apart, and so are encodings. -/
theorem optionalTexts_inj (hpath : d.derived.tomlPath = [] ↔ d'.derived.tomlPath = [])
    (h : optionalTexts d.derived = optionalTexts d'.derived) :
    d.derived.tomlPath = d'.derived.tomlPath ∧ d.derived.encoding = d'.derived.encoding := by
  have hencoding (htags : (d.derived.encoding.map ("encoding:" ++ ·)).toList =
      (d'.derived.encoding.map ("encoding:" ++ ·)).toList) :
      d.derived.encoding = d'.derived.encoding := by
    rcases encoding_cases d with he | he <;> rcases encoding_cases d' with he' | he' <;>
      simp [he, he'] at htags ⊢
  unfold optionalTexts at h
  by_cases hnil : d.derived.tomlPath = []
  · have hnil' := hpath.mp hnil
    rw [if_pos hnil, if_pos hnil'] at h
    exact ⟨hnil.trans hnil'.symm, hencoding h⟩
  · have hnil' := fun hn => hnil (hpath.mpr hn)
    rw [if_neg hnil, if_neg hnil'] at h
    obtain ⟨hjoined, htags⟩ := List.cons.inj h
    exact ⟨DerivedFrom.joined_inj (keys_clean d) (keys_clean d') hnil hnil' hjoined, hencoding htags⟩

/-- A selector on one side only is the one that is spelled like the tag. -/
theorem optionalTexts_tag (hnil : d.derived.tomlPath = []) (hpath : d'.derived.tomlPath ≠ [])
    (h : optionalTexts d.derived = optionalTexts d'.derived) :
    d'.derived.tomlPath = [encodingTag] ∧ d'.derived.encoding = none ∧
      d.derived.encoding = some "pgpass" := by
  have hclean : ∀ key ∈ [encodingTag], '\x00' ∉ key.toList := by decide
  have halone : "\x00".intercalate [encodingTag] = encodingTag := by decide
  unfold optionalTexts at h
  rw [if_pos hnil, if_neg hpath] at h
  rcases encoding_cases d with he | he
  · rw [he] at h
    cases h
  · rw [tagged_of_some he] at h
    obtain ⟨htag, htags⟩ := List.cons.inj h
    have hkeys := DerivedFrom.joined_inj (keys_clean d') hclean hpath (by decide)
      (htag.symm.trans halone.symm)
    rcases encoding_cases d' with he' | he'
    · exact ⟨hkeys, he', he⟩
    · rw [tagged_of_some he'] at htags
      cases htags

theorem selectsTag_hashed {selects encodes : DerivedFrom} (h : selects.SelectsTag encodes)
    (sourceVersion : List UInt8) : selects.hashed sourceVersion = encodes.hashed sourceVersion := by
  obtain ⟨hselects, hnil, hsome⟩ := h
  have htexts : optionalTexts selects = optionalTexts encodes := by
    have hone : optionalTexts selects = [encodingTag] := by
      rw [hselects]
      rfl
    have htag : optionalTexts encodes = [encodingTag] := by
      rw [optionalTexts, if_pos hnil, hsome]
      rfl
    rw [hone, htag]
  unfold DerivedFrom.hashed
  rw [hashedParts_eq, hashedParts_eq, htexts, hselects]

theorem selectsTag_ne {selects encodes : DerivedFrom} (h : selects.SelectsTag encodes) :
    selects ≠ encodes := by
  intro heq
  have hkeys := congrArg DerivedFrom.tomlPath h.1
  rw [heq, h.2.1] at hkeys
  cases hkeys

/-- The hashed bytes pin a derivation and its source version unless the two differ only in
the selector that looks like the encoding. -/
theorem version_pins_inputs_iff (d d' : Derivation) (v v' : SourceVersion) :
    d.PinsInputs d' v v' ↔ ¬ (v = v' ∧
      (d.derived.SelectsTag d'.derived ∨ d'.derived.SelectsTag d.derived)) := by
  constructor
  · rintro hpins ⟨hv, htag | htag⟩
    · have hsame := selectsTag_hashed htag v.bytes
      exact selectsTag_ne htag (hpins (hv ▸ hsame)).1
    · have hsame := (selectsTag_hashed htag v.bytes).symm
      exact selectsTag_ne htag (hpins (hv ▸ hsame)).1.symm
  · intro hnot h
    obtain ⟨hv, hidentifier, hfront, hsuffix, htexts⟩ := hashed_inj h
    refine ⟨?_, hv⟩
    by_cases hpath : d.derived.tomlPath = [] ↔ d'.derived.tomlPath = []
    · obtain ⟨hkeys, hencoding⟩ := optionalTexts_inj hpath htexts
      exact DerivedFrom.ext hidentifier hfront hsuffix hkeys hencoding
    · exfalso
      apply hnot
      refine ⟨hv, ?_⟩
      by_cases hnil : d.derived.tomlPath = []
      · have hnil' : d'.derived.tomlPath ≠ [] := fun hn => hpath (iff_of_true hnil hn)
        obtain ⟨hkeys, hnone, hsome⟩ := optionalTexts_tag hnil hnil' htexts
        exact Or.inr ⟨DerivedFrom.ext hidentifier.symm hfront.symm hsuffix.symm hkeys hnone, hnil, hsome⟩
      · have hnil' : d'.derived.tomlPath = [] := by
          by_contra hn
          exact hpath (iff_of_false hnil hn)
        obtain ⟨hkeys, hnone, hsome⟩ := optionalTexts_tag hnil' hnil htexts.symm
        exact Or.inl ⟨DerivedFrom.ext hidentifier hfront hsuffix hkeys hnone, hnil', hsome⟩

end Derivation

def tokenSource : SecretPath := ⟨["ns1", "services", "web", "token"]⟩

/-- The field `encoding:pgpass` of a TOML source. -/
def selectedField : Derivation where
  derived := { identifier := "ns1.services.web.token", tomlPath := [encodingTag] }
  source := tokenSource
  accepted := by decide
  addressable := by decide

/-- The same source as a field of a PostgreSQL password file. -/
def encodedWhole : Derivation where
  derived := { identifier := "ns1.services.web.token", encoding := some "pgpass" }
  source := tokenSource
  accepted := by decide
  addressable := by decide

def firstVersion : SourceVersion := ⟨List.replicate 16 1, by decide⟩

/-- A selector and an encoding that are hashed alike. -/
theorem selector_hashed_as_encoding : ¬ selectedField.PinsInputs encodedWhole firstVersion firstVersion := by
  intro hpins
  have htag : selectedField.derived.SelectsTag encodedWhole.derived := ⟨rfl, rfl, rfl⟩
  have hsame := Derivation.selectsTag_hashed htag firstVersion.bytes
  exact Derivation.selectsTag_ne htag (hpins hsame).1

end NixSecrets.Inventory
