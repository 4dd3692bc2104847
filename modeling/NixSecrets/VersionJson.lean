import NixSecrets.GenerationTree
import NixSecrets.JsonText

namespace NixSecrets

theorem ofList_toList (m : BTreeMap String String) : Std.ExtTreeMap.ofList m.toList compare = m := by
  refine Std.ExtTreeMap.ext_getElem? fun k => ?_
  cases hk : m[k]? with
  | some v =>
    have hmem := Std.ExtTreeMap.mem_toList_iff_getElem?_eq_some.mpr hk
    exact Std.ExtTreeMap.getElem?_ofList_of_mem Std.ReflCmp.compare_self
      Std.ExtTreeMap.distinct_keys_toList hmem
  | none =>
    refine Std.ExtTreeMap.getElem?_ofList_of_contains_eq_false ?_
    have hn : k ∉ m := by
      rw [Std.ExtTreeMap.mem_iff_isSome_getElem?, hk]
      simp
    rw [Std.ExtTreeMap.map_fst_toList_eq_keys]
    simpa using hn

/-- Version maps as compact JSON objects. -/
def jsonVersions : VersionCodec where
  encode versions := utf8Bytes (jsonStrings versions.toList)
  decode bytes := match (utf8Text bytes).bind readObject with
    | some members => .ok (.ofList members compare)
    | none => .error "expected value"
  decode_encode versions := by
    rw [utf8Text_bytes, Option.bind_some, readObject_jsonStrings]
    exact congrArg Except.ok (ofList_toList versions)

/-- A map is written with at least the bytes of its values. -/
theorem jsonVersions_length {versions : BTreeMap String String} {version : String}
    (hv : ∀ (k : String) v, versions[k]? = some v → v = version) :
    versions.size * version.toList.length < (jsonVersions.encode versions).length := by
  have hitems : ∀ item ∈ versions.toList.map fun m => jsonMember m.1 (jsonString m.2),
      version.toList.length ≤ item.length := by
    intro item hi
    obtain ⟨m, hm, rfl⟩ := List.mem_map.mp hi
    have hvalue := hv m.1 m.2 (Std.ExtTreeMap.mem_toList_iff_getElem?_eq_some.mp hm)
    have hescaped := length_le_escaped version.toList
    simp only [jsonMember, jsonString, hvalue, List.length_append, List.length_cons]
    omega
  have htext := length_le_intercalate hitems
  rw [List.length_map, Std.ExtTreeMap.length_toList] at htext
  have hbytes := length_le_utf8Bytes (jsonStrings versions.toList)
  have hobject : (jsonStrings versions.toList).length = ([','].intercalate (versions.toList.map
      fun m => jsonMember m.1 (jsonString m.2))).length + 2 := by
    simp [jsonStrings, jsonObject]
  show _ < (utf8Bytes (jsonStrings versions.toList)).length
  omega

end NixSecrets
