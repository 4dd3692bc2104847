import NixSecrets.JsonText
import NixSecrets.RustText

namespace NixSecrets

/-- How many bytes a character takes inside a JSON string. -/
def escapedSize (c : Char) : Nat :=
  if c = '"' ∨ c = '\\' ∨ c = '\n' ∨ c = '\r' ∨ c = '\t' ∨ c = '\x08' ∨ c = '\x0c' then 2
  else if c.toNat < 0x20 then 6
  else c.utf8Size

def jsonStringSize (s : String) : Nat := 2 + (s.toList.map escapedSize).sum

def joinedSize (sizes : List Nat) : Nat := sizes.sum + (sizes.length - 1)

def jsonStringsSize (items : List String) : Nat := 2 + joinedSize (items.map jsonStringSize)

theorem utf8Length_cons (c : Char) (text : List Char) :
    utf8Length (c :: text) = c.utf8Size + utf8Length text := by
  simp [utf8Length]

theorem utf8Length_ascii {text : List Char} (h : ∀ c ∈ text, c.toNat < 0x80) :
    utf8Length text = text.length := by
  induction text with
  | nil => rfl
  | cons c text ih =>
    have hc : c.utf8Size = 1 := by
      have hsmall := h c List.mem_cons_self
      rw [Char.utf8Size_eq_one_iff]
      exact Nat.le_of_lt_succ hsmall
    rw [utf8Length_cons, hc, ih fun x hx => h x (List.mem_cons_of_mem c hx), List.length_cons]
    omega

theorem digitChar_small : ∀ d < 16, (Nat.digitChar d).utf8Size = 1 := by decide

theorem utf8Length_escapeChar (c : Char) : utf8Length (escapeChar c) = escapedSize c := by
  have hpair (x : Char) (hx : x.utf8Size = 1) : utf8Length ['\\', x] = 2 := by
    have hslash : Char.utf8Size '\\' = 1 := by decide
    rw [utf8Length_cons, utf8Length_cons, hslash, hx]
    rfl
  by_cases hnamed : c = '"' ∨ c = '\\' ∨ c = '\n' ∨ c = '\r' ∨ c = '\t' ∨ c = '\x08' ∨ c = '\x0c'
  · rw [escapedSize, if_pos hnamed]
    rcases hnamed with rfl | rfl | rfl | rfl | rfl | rfl | rfl <;> exact hpair _ (by decide)
  · rw [escapedSize, if_neg hnamed]
    simp only [not_or] at hnamed
    obtain ⟨h1, h2, h3, h4, h5, h6, h7⟩ := hnamed
    rw [escapeChar, if_neg h1, if_neg h2, if_neg h3, if_neg h4, if_neg h5, if_neg h6, if_neg h7]
    split_ifs with hcontrol
    · have hhigh := digitChar_small (c.toNat / 16) (by omega)
      have hlow := digitChar_small (c.toNat % 16) (by omega)
      have hfront : utf8Length ['\\', 'u', '0', '0'] = 4 := by decide
      show utf8Length (['\\', 'u', '0', '0'] ++ [_, _]) = 6
      rw [utf8Length_append, hfront, utf8Length_cons, utf8Length_cons, hhigh, hlow]
      rfl
    · rw [utf8Length_cons]
      rfl

theorem utf8Length_jsonString (s : String) : utf8Length (jsonString s) = jsonStringSize s := by
  have hchars (chars : List Char) :
      utf8Length (chars.flatMap escapeChar) = (chars.map escapedSize).sum := by
    induction chars with
    | nil => rfl
    | cons c chars ih =>
      rw [List.flatMap_cons, utf8Length_append, utf8Length_escapeChar, ih]
      rfl
  have hquote : Char.utf8Size '"' = 1 := by decide
  have hend : utf8Length ['"'] = 1 := by decide
  rw [jsonString, List.cons_append, utf8Length_cons, utf8Length_append, hchars, hquote, hend,
    jsonStringSize]
  omega

theorem utf8Length_jsonMember (name : String) (value : List Char) :
    utf8Length (jsonMember name value) = jsonStringSize name + 1 + utf8Length value := by
  have hcolon : Char.utf8Size ':' = 1 := by decide
  rw [jsonMember, utf8Length_append, utf8Length_jsonString, utf8Length_cons, hcolon]
  omega

theorem utf8Length_intercalate (items : List (List Char)) :
    utf8Length ([','].intercalate items) = joinedSize (items.map utf8Length) := by
  have hcomma : utf8Length [','] = 1 := by decide
  induction items with
  | nil => rfl
  | cons item rest ih =>
    cases rest with
    | nil => simp [joinedSize]
    | cons next rest =>
      rw [List.intercalate_cons_cons, utf8Length_append, utf8Length_append, ih, hcomma]
      simp only [joinedSize, List.map_cons, List.sum_cons, List.length_cons]
      omega

theorem utf8Length_jsonObject (members : List (List Char)) :
    utf8Length (jsonObject members) = 2 + joinedSize (members.map utf8Length) := by
  have hopen : Char.utf8Size '\x7b' = 1 := by decide
  have hclose : utf8Length ['\x7d'] = 1 := by decide
  rw [jsonObject, List.cons_append, utf8Length_cons, utf8Length_append, utf8Length_intercalate, hopen,
    hclose]
  omega

/-- The bytes of an object of at least one member: each other one has its comma. -/
theorem utf8Length_jsonObject_cons (member : List Char) (members : List (List Char)) :
    utf8Length (jsonObject (member :: members)) =
      2 + utf8Length member + (members.map fun m => 1 + utf8Length m).sum := by
  have hcommas (sizes : List Nat) : (sizes.map (1 + ·)).sum = sizes.sum + sizes.length := by
    induction sizes with
    | nil => rfl
    | cons size sizes ih =>
      simp only [List.map_cons, List.sum_cons, List.length_cons, ih]
      omega
  have hmembers := hcommas (members.map utf8Length)
  rw [List.map_map] at hmembers
  rw [utf8Length_jsonObject, List.map_cons, joinedSize, List.sum_cons, List.length_cons]
  show _ = _ + (members.map ((1 + ·) ∘ utf8Length)).sum
  omega

theorem utf8Length_jsonArray (items : List (List Char)) :
    utf8Length (jsonArray items) = 2 + joinedSize (items.map utf8Length) := by
  have hopen : Char.utf8Size '[' = 1 := by decide
  have hclose : utf8Length [']'] = 1 := by decide
  rw [jsonArray, List.cons_append, utf8Length_cons, utf8Length_append, utf8Length_intercalate, hopen,
    hclose]
  omega

theorem utf8Length_jsonStrings (items : List String) :
    utf8Length (jsonArray (items.map jsonString)) = jsonStringsSize items := by
  rw [utf8Length_jsonArray, List.map_map, jsonStringsSize]
  congr 3
  funext s
  exact utf8Length_jsonString s

theorem length_utf8Bytes (text : List Char) : (utf8Bytes text).length = utf8Length text := by
  rw [utf8Bytes_flatMap]
  induction text with
  | nil => rfl
  | cons c text ih =>
    rw [List.flatMap_cons, List.length_append, ih, String.length_utf8EncodeChar, utf8Length_cons]

theorem ascii_mem_encode {c d : Char} (h : d.toNat < 128) :
    UInt8.ofNat d.toNat ∈ String.utf8EncodeChar c ↔ c = d := by
  have hvalue : c.val.toNat = c.toNat := rfl
  have hsame : c = d ↔ c.toNat = d.toNat := ⟨fun h => by rw [h], fun h => Char.toNat_inj.mp h⟩
  have hbyte : ∀ n < 256, (UInt8.ofNat d.toNat = UInt8.ofNat n ↔ d.toNat = n) := by
    intro n hn
    rw [← UInt8.toNat_inj, UInt8.toNat_ofNat', UInt8.toNat_ofNat', Nat.mod_eq_of_lt (by omega),
      Nat.mod_eq_of_lt (by omega)]
  unfold String.utf8EncodeChar
  rw [hvalue, hsame]
  dsimp only
  split
  next hone =>
    rw [List.mem_singleton, hbyte _ (by omega)]
    exact eq_comm
  next htwo =>
    split
    next =>
      simp only [List.mem_cons, List.not_mem_nil, or_false]
      rw [hbyte _ (by omega), hbyte _ (by omega)]
      omega
    next =>
      split
      next =>
        simp only [List.mem_cons, List.not_mem_nil, or_false]
        rw [hbyte _ (by omega), hbyte _ (by omega), hbyte _ (by omega)]
        omega
      next =>
        simp only [List.mem_cons, List.not_mem_nil, or_false]
        rw [hbyte _ (by omega), hbyte _ (by omega), hbyte _ (by omega), hbyte _ (by omega)]
        omega

/-- An ASCII byte of a text is one of its characters. -/
theorem ascii_mem_utf8Bytes {text : List Char} {d : Char} (h : d.toNat < 128) :
    UInt8.ofNat d.toNat ∈ utf8Bytes text ↔ d ∈ text := by
  rw [utf8Bytes_flatMap, List.mem_flatMap]
  constructor
  · rintro ⟨c, hc, hbyte⟩
    exact (ascii_mem_encode h).mp hbyte ▸ hc
  · intro hd
    exact ⟨d, hd, (ascii_mem_encode h).mpr rfl⟩

theorem utf8Bytes_inj {text text' : List Char} (h : utf8Bytes text = utf8Bytes text') : text = text' := by
  have hread := congrArg utf8Text h
  rw [utf8Text_bytes, utf8Text_bytes] at hread
  exact Option.some.inj hread

theorem utf8Bytes_string_inj {text text' : String} (h : utf8Bytes text.toList = utf8Bytes text'.toList) :
    text = text' := String.toList_inj.mp (utf8Bytes_inj h)

theorem utf8Bytes_string_length (text : String) :
    (utf8Bytes text.toList).length = text.utf8ByteSize := by
  rw [length_utf8Bytes, ← utf8ByteSize_text, String.ofList_toList]

/-- A character of the base64 alphabet. -/
def base64Char (n : Nat) : Char :=
  if n < 26 then Char.ofNat ('A'.toNat + n)
  else if n < 52 then Char.ofNat ('a'.toNat + (n - 26))
  else if n < 62 then Char.ofNat ('0'.toNat + (n - 52))
  else if n = 62 then '+'
  else '/'

def base64Encode : List UInt8 → List Char
  | [] => []
  | [a] => [base64Char (a.toNat / 4), base64Char (a.toNat % 4 * 16), '=', '=']
  | [a, b] => [base64Char (a.toNat / 4), base64Char (a.toNat % 4 * 16 + b.toNat / 16),
      base64Char (b.toNat % 16 * 4), '=']
  | a :: b :: c :: rest => base64Char (a.toNat / 4) :: base64Char (a.toNat % 4 * 16 + b.toNat / 16) ::
      base64Char (b.toNat % 16 * 4 + c.toNat / 64) :: base64Char (c.toNat % 64) :: base64Encode rest

example : base64Encode [77, 97, 110, 97] = "TWFuYQ==".toList := by decide

def base64Size (bytes : Nat) : Nat := 4 * ((bytes + 2) / 3)

theorem base64Encode_length (bytes : List UInt8) : (base64Encode bytes).length = base64Size bytes.length := by
  fun_induction base64Encode bytes with
  | case1 => rfl
  | case2 => simp [base64Size]
  | case3 => simp [base64Size]
  | case4 a b c rest ih =>
    simp only [List.length_cons, ih, base64Size]
    omega

theorem escapedSize_base64Char (n : Nat) : escapedSize (base64Char n) = 1 := by
  have hsmall : ∀ n < 64, escapedSize (base64Char n) = 1 := by decide
  by_cases hn : n < 64
  · exact hsmall n hn
  · have hlast : base64Char n = '/' := by
      rw [base64Char, if_neg (by omega), if_neg (by omega), if_neg (by omega), if_neg (by omega)]
    rw [hlast]
    decide

theorem jsonStringSize_base64 (bytes : List UInt8) :
    jsonStringSize (String.ofList (base64Encode bytes)) = 2 + base64Size bytes.length := by
  have hpad : escapedSize '=' = 1 := by decide
  have hchars : ∀ c ∈ base64Encode bytes, escapedSize c = 1 := by
    fun_induction base64Encode bytes with
    | case1 => simp
    | case2 | case3 => simp [escapedSize_base64Char, hpad]
    | case4 a b c rest ih => simpa [escapedSize_base64Char] using ih
  have hsum : ((base64Encode bytes).map escapedSize).sum = (base64Encode bytes).length := by
    rw [List.map_congr_left hchars]
    simp
  rw [jsonStringSize, String.toList_ofList, hsum, base64Encode_length]

end NixSecrets
