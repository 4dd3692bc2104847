import Mathlib.Algebra.Order.Ring.Nat
import Mathlib.Data.List.Basic

namespace NixSecrets

/-- How a compact JSON writer spells one character inside a string. -/
def escapeChar (c : Char) : List Char :=
  if c = '"' then ['\\', '"']
  else if c = '\\' then ['\\', '\\']
  else if c = '\n' then ['\\', 'n']
  else if c = '\r' then ['\\', 'r']
  else if c = '\t' then ['\\', 't']
  else if c = '\x08' then ['\\', 'b']
  else if c = '\x0c' then ['\\', 'f']
  else if c.toNat < 0x20 then
    ['\\', 'u', '0', '0', Nat.digitChar (c.toNat / 16), Nat.digitChar (c.toNat % 16)]
  else [c]

def jsonString (s : String) : List Char := '"' :: s.toList.flatMap escapeChar ++ ['"']

def hexValue (c : Char) : Option Nat :=
  if '0' ≤ c ∧ c ≤ '9' then some (c.toNat - '0'.toNat)
  else if 'a' ≤ c ∧ c ≤ 'f' then some (c.toNat - 'a'.toNat + 10)
  else if 'A' ≤ c ∧ c ≤ 'F' then some (c.toNat - 'A'.toNat + 10)
  else none

def unescape (c : Char) : Option Char :=
  if c = '"' ∨ c = '\\' ∨ c = '/' then some c
  else if c = 'n' then some '\n'
  else if c = 'r' then some '\r'
  else if c = 't' then some '\t'
  else if c = 'b' then some '\x08'
  else if c = 'f' then some '\x0c'
  else none

/-- The character a four-digit escape names, unless it is half of a pair. -/
def codePoint (a b c d : Char) : Option Char := do
  let code := (← hexValue a) * 4096 + (← hexValue b) * 256 + (← hexValue c) * 16 + (← hexValue d)
  if 0xd800 ≤ code ∧ code < 0xe000 then none else some (Char.ofNat code)

/-- Reads a string after its opening quote: its characters and what follows. -/
def readString : List Char → Option (List Char × List Char)
  | [] => none
  | '"' :: rest => some ([], rest)
  | '\\' :: 'u' :: a :: b :: c :: d :: rest => do
    let first ← codePoint a b c d
    let (chars, rest) ← readString rest
    return (first :: chars, rest)
  | '\\' :: escaped :: rest => do
    let first ← unescape escaped
    let (chars, rest) ← readString rest
    return (first :: chars, rest)
  | c :: rest =>
    if c.toNat < 0x20 then none
    else do
      let (chars, rest) ← readString rest
      return (c :: chars, rest)

theorem hexValue_digitChar : ∀ d < 16, hexValue (Nat.digitChar d) = some d := by decide

theorem codePoint_control {c : Char} (h : c.toNat < 0x20) :
    codePoint '0' '0' (Nat.digitChar (c.toNat / 16)) (Nat.digitChar (c.toNat % 16)) = some c := by
  have hhigh := hexValue_digitChar (c.toNat / 16) (by omega)
  have hlow := hexValue_digitChar (c.toNat % 16) (by omega)
  have hzero : hexValue '0' = some 0 := by decide
  have hsum : 0 * 4096 + 0 * 256 + c.toNat / 16 * 16 + c.toNat % 16 = c.toNat := by omega
  simp only [codePoint, hzero, hhigh, hlow, Option.bind_eq_bind, Option.bind_some, hsum]
  rw [if_neg (by omega), Char.ofNat_toNat]

theorem readString_plain {c : Char} {rest : List Char} (hquote : c ≠ '"') (hslash : c ≠ '\\')
    (h : ¬ c.toNat < 0x20) :
    readString (c :: rest) = (readString rest).map fun x => (c :: x.1, x.2) := by
  rw [readString]
  · rw [if_neg h]
    cases readString rest <;> rfl
  · exact fun he => hquote he
  · exact fun _ _ _ _ _ he => absurd he hslash
  · exact fun _ _ he => absurd he hslash

theorem readString_unescape {e c : Char} {rest : List Char} (hu : e ≠ 'u')
    (h : unescape e = some c) :
    readString ('\\' :: e :: rest) = (readString rest).map fun x => (c :: x.1, x.2) := by
  rw [readString]
  · rw [h]
    cases readString rest <;> rfl
  · exact fun _ _ _ _ _ he => absurd he hu

/-- The reader takes back each character as the writer spells it. -/
theorem readString_escapeChar (c : Char) (rest : List Char) :
    readString (escapeChar c ++ rest) = (readString rest).map fun x => (c :: x.1, x.2) := by
  unfold escapeChar
  split_ifs with h1 h2 h3 h4 h5 h6 h7 h8
  · exact readString_unescape (by decide) (by rw [h1]; rfl)
  · exact readString_unescape (by decide) (by rw [h2]; rfl)
  · exact readString_unescape (by decide) (by rw [h3]; rfl)
  · exact readString_unescape (by decide) (by rw [h4]; rfl)
  · exact readString_unescape (by decide) (by rw [h5]; rfl)
  · exact readString_unescape (by decide) (by rw [h6]; rfl)
  · exact readString_unescape (by decide) (by rw [h7]; rfl)
  · simp only [List.cons_append, List.nil_append]
    rw [readString, codePoint_control h8]
    cases readString rest <;> rfl
  · exact readString_plain h1 h2 h8

theorem length_le_escaped (text : List Char) : text.length ≤ (text.flatMap escapeChar).length := by
  induction text with
  | nil => simp
  | cons c rest ih =>
    have hc : 0 < (escapeChar c).length := by
      unfold escapeChar
      split_ifs <;> simp
    rw [List.flatMap_cons, List.length_append, List.length_cons]
    omega

theorem readString_jsonString (s : String) (rest : List Char) :
    readString (s.toList.flatMap escapeChar ++ '"' :: rest) = some (s.toList, rest) := by
  induction s.toList with
  | nil => rfl
  | cons c chars ih =>
    rw [List.flatMap_cons, List.append_assoc, readString_escapeChar, ih]
    rfl

def jsonMember (name : String) (value : List Char) : List Char := jsonString name ++ ':' :: value

def jsonObject (members : List (List Char)) : List Char :=
  '\x7b' :: [','].intercalate members ++ ['\x7d']

def jsonArray (items : List (List Char)) : List Char := '[' :: [','].intercalate items ++ [']']

/-- Reads the members of an object of strings up to its end, at most `fuel` of them. -/
def readMembers : Nat → List Char → Option (List (String × String))
  | 0, _ => none
  | fuel + 1, '"' :: text => do
    let (name, text) ← readString text
    match text with
    | ':' :: '"' :: text => do
      let (value, text) ← readString text
      match text with
      | ['\x7d'] => some [(String.ofList name, String.ofList value)]
      | ',' :: text => do
        let members ← readMembers fuel text
        return (String.ofList name, String.ofList value) :: members
      | _ => none
    | _ => none
  | _, _ => none

/-- Reads an object whose values are strings. -/
def readObject : List Char → Option (List (String × String))
  | ['\x7b', '\x7d'] => some []
  | '\x7b' :: text => readMembers text.length text
  | _ => none

def jsonStrings (members : List (String × String)) : List Char :=
  jsonObject (members.map fun m => jsonMember m.1 (jsonString m.2))

theorem jsonMember_append (name value : String) (rest : List Char) :
    jsonMember name (jsonString value) ++ rest = '"' :: (name.toList.flatMap escapeChar ++
      '"' :: ':' :: '"' :: (value.toList.flatMap escapeChar ++ '"' :: rest)) := by
  simp [jsonMember, jsonString]

theorem readMembers_jsonMember (fuel : Nat) (name value : String) (rest : List Char) :
    readMembers (fuel + 1) (jsonMember name (jsonString value) ++ rest) = match rest with
      | ['\x7d'] => some [(name, value)]
      | ',' :: text => do
        let members ← readMembers fuel text
        return (name, value) :: members
      | _ => none := by
  rw [jsonMember_append, readMembers, readString_jsonString]
  simp only [Option.bind_eq_bind, Option.bind_some]
  rw [readString_jsonString]
  simp only [Option.bind_some, String.ofList_toList]

theorem readMembers_intercalate {fuel : Nat} {members : List (String × String)}
    (hm : members ≠ []) (hf : members.length ≤ fuel) :
    readMembers fuel ([','].intercalate (members.map fun m => jsonMember m.1 (jsonString m.2)) ++
      ['\x7d']) = some members := by
  induction members generalizing fuel with
  | nil => exact absurd rfl hm
  | cons m rest ih =>
    obtain ⟨fuel, rfl⟩ : ∃ k, fuel = k + 1 := ⟨fuel - 1, by simp at hf; omega⟩
    cases rest with
    | nil =>
      simp only [List.map_cons, List.map_nil, List.intercalate_singleton]
      exact readMembers_jsonMember fuel m.1 m.2 ['\x7d']
    | cons m' rest =>
      have hlength : (m' :: rest).length ≤ fuel := by
        simp only [List.length_cons] at hf ⊢
        omega
      have hrest := ih (by simp) hlength
      simp only [List.map_cons, List.intercalate_cons_cons, List.append_assoc,
        List.cons_append, List.nil_append] at hrest ⊢
      rw [readMembers_jsonMember]
      simp only [hrest]
      rfl

theorem jsonMember_ne_nil (name : String) (value : List Char) : jsonMember name value ≠ [] := by
  simp [jsonMember, jsonString]

theorem length_le_intercalate {items : List (List Char)} {least : Nat}
    (h : ∀ item ∈ items, least ≤ item.length) :
    items.length * least ≤ ([','].intercalate items).length := by
  induction items with
  | nil => simp
  | cons item rest ih =>
    have hrest := ih fun i hi => h i (List.mem_cons_of_mem _ hi)
    have hitem := h item List.mem_cons_self
    cases rest with
    | nil => simpa using hitem
    | cons next rest =>
      simp only [List.intercalate_cons_cons, List.length_append, List.length_cons, Nat.add_mul] at hrest ⊢
      omega

theorem readObject_jsonStrings (members : List (String × String)) :
    readObject (jsonStrings members) = some members := by
  have hitems : ∀ item ∈ members.map fun m => jsonMember m.1 (jsonString m.2), 1 ≤ item.length := by
    intro item hi
    obtain ⟨m, _, rfl⟩ := List.mem_map.mp hi
    exact List.length_pos_of_ne_nil (jsonMember_ne_nil m.1 (jsonString m.2))
  have hlength := length_le_intercalate hitems
  rw [List.length_map, Nat.mul_one] at hlength
  cases members with
  | nil => rfl
  | cons m rest =>
    rw [jsonStrings, jsonObject, List.cons_append, readObject]
    · exact readMembers_intercalate (by simp) (by rw [List.length_append]; omega)
    · intro he
      have h := congrArg List.length he
      simp only [List.length_append, List.length_cons, List.length_nil] at h hlength
      omega

def utf8Bytes (text : List Char) : List UInt8 := (String.ofList text).toUTF8.data.toList

def utf8Text (bytes : List UInt8) : Option (List Char) :=
  (String.fromUTF8? ⟨bytes.toArray⟩).map String.toList

theorem utf8Text_bytes (text : List Char) : utf8Text (utf8Bytes text) = some text := by
  have hbytes : (⟨(utf8Bytes text).toArray⟩ : ByteArray) = (String.ofList text).toUTF8 := by
    simp [utf8Bytes]
  have hvalid : (String.ofList text).toUTF8.IsValidUTF8 := (String.ofList text).isValidUTF8
  rw [utf8Text, hbytes, String.fromUTF8?, dif_pos hvalid]
  exact congrArg some String.toList_ofList

theorem utf8Bytes_flatMap (text : List Char) : utf8Bytes text = text.flatMap String.utf8EncodeChar := by
  simp [utf8Bytes, List.utf8Encode]

theorem length_le_utf8Bytes (text : List Char) : text.length ≤ (utf8Bytes text).length := by
  rw [utf8Bytes_flatMap]
  induction text with
  | nil => simp
  | cons c rest ih =>
    have hc : 0 < (String.utf8EncodeChar c).length :=
      List.length_pos_of_ne_nil String.utf8EncodeChar_ne_nil
    rw [List.flatMap_cons, List.length_append, List.length_cons]
    omega

end NixSecrets
