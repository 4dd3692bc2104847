import NixSecrets.JsonSize

namespace NixSecrets

def base64Value (c : Char) : Option Nat :=
  if 'A' ≤ c ∧ c ≤ 'Z' then some (c.toNat - 65)
  else if 'a' ≤ c ∧ c ≤ 'z' then some (c.toNat - 71)
  else if '0' ≤ c ∧ c ≤ '9' then some (c.toNat + 4)
  else if c = '+' then some 62
  else if c = '/' then some 63
  else none

/-- The last group, when it is padded; bits that fill up its last byte must be zero. -/
def base64Last (a b c : Char) : Option (List UInt8) := do
  let x ← base64Value a
  let y ← base64Value b
  if c = '=' then
    if y % 16 = 0 then some [UInt8.ofNat (x * 4 + y / 16)] else none
  else do
    let z ← base64Value c
    if z % 4 = 0 then some [UInt8.ofNat (x * 4 + y / 16), UInt8.ofNat (y % 16 * 16 + z / 4)] else none

/-- Reads the standard alphabet with its padding. -/
def base64Decode : List Char → Option (List UInt8)
  | [] => some []
  | a :: b :: c :: d :: rest =>
    if d = '=' then
      if rest = [] then base64Last a b c else none
    else do
      let x ← base64Value a
      let y ← base64Value b
      let z ← base64Value c
      let w ← base64Value d
      let bytes ← base64Decode rest
      some (UInt8.ofNat (x * 4 + y / 16) :: UInt8.ofNat (y % 16 * 16 + z / 4) ::
        UInt8.ofNat (z % 4 * 64 + w) :: bytes)
  | _ => none

theorem base64Value_char {n : Nat} (h : n < 64) : base64Value (base64Char n) = some n := by
  have hall : ∀ n < 64, base64Value (base64Char n) = some n := by decide
  exact hall n h

theorem base64Char_ne_pad {n : Nat} (h : n < 64) : base64Char n ≠ '=' := by
  have hall : ∀ n < 64, base64Char n ≠ '=' := by decide
  exact hall n h

theorem ofNat_eq_byte {n : Nat} {byte : UInt8} (h : n = byte.toNat) : UInt8.ofNat n = byte := by
  rw [h, UInt8.ofNat_toNat]

/-- What was encoded is read back. -/
theorem base64Decode_encode (bytes : List UInt8) : base64Decode (base64Encode bytes) = some bytes := by
  fun_induction base64Encode bytes with
  | case1 => rfl
  | case2 a =>
    have ha := a.toNat_lt
    have hhigh : a.toNat / 4 < 64 := by omega
    have hlow : a.toNat % 4 * 16 < 64 := by omega
    have hbyte : a.toNat / 4 * 4 + a.toNat % 4 * 16 / 16 = a.toNat := by omega
    have hzero : a.toNat % 4 * 16 % 16 = 0 := by omega
    rw [base64Decode, if_pos rfl, if_pos rfl, base64Last, base64Value_char hhigh, base64Value_char hlow]
    simp only [Option.bind_eq_bind, Option.bind_some, if_true, hzero, ofNat_eq_byte hbyte]
  | case3 a b =>
    have ha := a.toNat_lt
    have hb := b.toNat_lt
    have hfirst : a.toNat / 4 < 64 := by omega
    have hsecond : a.toNat % 4 * 16 + b.toNat / 16 < 64 := by omega
    have hthird : b.toNat % 16 * 4 < 64 := by omega
    have hbyte : a.toNat / 4 * 4 + (a.toNat % 4 * 16 + b.toNat / 16) / 16 = a.toNat := by omega
    have hbyte' : (a.toNat % 4 * 16 + b.toNat / 16) % 16 * 16 + b.toNat % 16 * 4 / 4 = b.toNat := by omega
    have hzero : b.toNat % 16 * 4 % 4 = 0 := by omega
    rw [base64Decode, if_pos rfl, if_pos rfl, base64Last, base64Value_char hfirst,
      base64Value_char hsecond]
    simp only [Option.bind_eq_bind, Option.bind_some, if_neg (base64Char_ne_pad hthird),
      base64Value_char hthird, if_true, hzero, ofNat_eq_byte hbyte, ofNat_eq_byte hbyte']
  | case4 a b c rest ih =>
    have ha := a.toNat_lt
    have hb := b.toNat_lt
    have hc := c.toNat_lt
    have hfirst : a.toNat / 4 < 64 := by omega
    have hsecond : a.toNat % 4 * 16 + b.toNat / 16 < 64 := by omega
    have hthird : b.toNat % 16 * 4 + c.toNat / 64 < 64 := by omega
    have hfourth : c.toNat % 64 < 64 := by omega
    have hbyte : a.toNat / 4 * 4 + (a.toNat % 4 * 16 + b.toNat / 16) / 16 = a.toNat := by omega
    have hbyte' : (a.toNat % 4 * 16 + b.toNat / 16) % 16 * 16 + (b.toNat % 16 * 4 + c.toNat / 64) / 4 =
        b.toNat := by omega
    have hbyte'' : (b.toNat % 16 * 4 + c.toNat / 64) % 4 * 64 + c.toNat % 64 = c.toNat := by omega
    rw [base64Decode, if_neg (base64Char_ne_pad hfourth), base64Value_char hfirst,
      base64Value_char hsecond, base64Value_char hthird, base64Value_char hfourth, ih]
    simp only [Option.bind_eq_bind, Option.bind_some, ofNat_eq_byte hbyte, ofNat_eq_byte hbyte',
      ofNat_eq_byte hbyte'']

/-- Without padding, as fingerprints and age tags are written. -/
def base64EncodeNoPad (bytes : List UInt8) : List Char := (base64Encode bytes).filter (· ≠ '=')

def base64DecodeNoPad : List Char → Option (List UInt8)
  | [] => some []
  | [a, b] => base64Last a b '='
  | [a, b, c] => if c = '=' then none else base64Last a b c
  | a :: b :: c :: d :: rest => do
    let x ← base64Value a
    let y ← base64Value b
    let z ← base64Value c
    let w ← base64Value d
    let bytes ← base64DecodeNoPad rest
    some (UInt8.ofNat (x * 4 + y / 16) :: UInt8.ofNat (y % 16 * 16 + z / 4) ::
      UInt8.ofNat (z % 4 * 64 + w) :: bytes)
  | _ => none

/-- What was encoded without padding is read back. -/
theorem base64DecodeNoPad_encode (bytes : List UInt8) :
    base64DecodeNoPad (base64EncodeNoPad bytes) = some bytes := by
  unfold base64EncodeNoPad
  fun_induction base64Encode bytes with
  | case1 => rfl
  | case2 a =>
    have ha := a.toNat_lt
    have hhigh : a.toNat / 4 < 64 := by omega
    have hlow : a.toNat % 4 * 16 < 64 := by omega
    have hplain : [base64Char (a.toNat / 4), base64Char (a.toNat % 4 * 16), '=', '='].filter (· ≠ '=') =
        [base64Char (a.toNat / 4), base64Char (a.toNat % 4 * 16)] := by
      simp [base64Char_ne_pad hhigh, base64Char_ne_pad hlow]
    have hwhole := base64Decode_encode [a]
    rw [base64Encode, base64Decode, if_pos rfl, if_pos rfl] at hwhole
    rw [hplain, base64DecodeNoPad]
    exact hwhole
  | case3 a b =>
    have ha := a.toNat_lt
    have hb := b.toNat_lt
    have hfirst : a.toNat / 4 < 64 := by omega
    have hsecond : a.toNat % 4 * 16 + b.toNat / 16 < 64 := by omega
    have hthird : b.toNat % 16 * 4 < 64 := by omega
    have hplain : [base64Char (a.toNat / 4), base64Char (a.toNat % 4 * 16 + b.toNat / 16),
        base64Char (b.toNat % 16 * 4), '='].filter (· ≠ '=') =
        [base64Char (a.toNat / 4), base64Char (a.toNat % 4 * 16 + b.toNat / 16), base64Char (b.toNat % 16 * 4)] := by
      simp [base64Char_ne_pad hfirst, base64Char_ne_pad hsecond, base64Char_ne_pad hthird]
    have hwhole := base64Decode_encode [a, b]
    rw [base64Encode, base64Decode, if_pos rfl, if_pos rfl] at hwhole
    rw [hplain, base64DecodeNoPad, if_neg (base64Char_ne_pad hthird)]
    exact hwhole
  | case4 a b c rest ih =>
    have ha := a.toNat_lt
    have hb := b.toNat_lt
    have hc := c.toNat_lt
    have hfirst : a.toNat / 4 < 64 := by omega
    have hsecond : a.toNat % 4 * 16 + b.toNat / 16 < 64 := by omega
    have hthird : b.toNat % 16 * 4 + c.toNat / 64 < 64 := by omega
    have hfourth : c.toNat % 64 < 64 := by omega
    have hone : (a.toNat / 4) * 4 + (a.toNat % 4 * 16 + b.toNat / 16) / 16 = a.toNat := by omega
    have htwo : (a.toNat % 4 * 16 + b.toNat / 16) % 16 * 16 + (b.toNat % 16 * 4 + c.toNat / 64) / 4 = b.toNat := by
      omega
    have hthree : (b.toNat % 16 * 4 + c.toNat / 64) % 4 * 64 + c.toNat % 64 = c.toNat := by omega
    simp only [List.filter_cons, base64Char_ne_pad hfirst, base64Char_ne_pad hsecond, base64Char_ne_pad hthird,
      base64Char_ne_pad hfourth, ne_eq, not_false_eq_true, decide_true, if_true]
    rw [base64DecodeNoPad, base64Value_char hfirst, base64Value_char hsecond, base64Value_char hthird,
      base64Value_char hfourth]
    simp only [Option.bind_eq_bind, Option.bind_some]
    rw [ih]
    simp only [Option.bind_some, hone, htwo, hthree, UInt8.ofNat_toNat]

end NixSecrets
