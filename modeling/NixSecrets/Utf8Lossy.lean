import NixSecrets.JsonText

namespace NixSecrets.Utf8Lossy

/-- The start of a character, with how many bytes are missing and what the next of them may be. -/
structure Pending where
  value : Nat
  missing : Nat
  low : Nat
  high : Nat
  deriving DecidableEq, Repr

def replacement : Char := Char.ofNat 0xfffd

/-- The characters that a first byte can begin. -/
def announce (byte : Nat) : Option Pending :=
  if 0xc2 ≤ byte ∧ byte ≤ 0xdf then some ⟨byte - 0xc0, 1, 0x80, 0xbf⟩
  else if byte = 0xe0 then some ⟨0, 2, 0xa0, 0xbf⟩
  else if byte = 0xed then some ⟨0xd, 2, 0x80, 0x9f⟩
  else if 0xe1 ≤ byte ∧ byte ≤ 0xef then some ⟨byte - 0xe0, 2, 0x80, 0xbf⟩
  else if byte = 0xf0 then some ⟨0, 3, 0x90, 0xbf⟩
  else if byte = 0xf4 then some ⟨4, 3, 0x80, 0x8f⟩
  else if 0xf1 ≤ byte ∧ byte ≤ 0xf3 then some ⟨byte - 0xf0, 3, 0x80, 0xbf⟩
  else none

def first (byte : Nat) : List Char × Option Pending :=
  if byte < 0x80 then ([Char.ofNat byte], none)
  else
    match announce byte with
    | some pending => ([], some pending)
    | none => ([replacement], none)

def next (pending : Option Pending) (byte : Nat) : List Char × Option Pending :=
  match pending with
  | none => first byte
  | some pending =>
    if pending.low ≤ byte ∧ byte ≤ pending.high then
      let value := pending.value * 64 + byte % 64
      if pending.missing = 1 then ([Char.ofNat value], none)
      else ([], some ⟨value, pending.missing - 1, 0x80, 0xbf⟩)
    else (replacement :: (first byte).1, (first byte).2)

def decodeFrom (pending : Option Pending) : List UInt8 → List Char
  | [] => if pending.isSome then [replacement] else []
  | byte :: rest => (next pending byte.toNat).1 ++ decodeFrom (next pending byte.toNat).2 rest

/-- The text of some bytes; each start of a character that the next byte does not continue is replaced. -/
def fromUtf8Lossy (bytes : List UInt8) : List Char := decodeFrom none bytes

theorem toNat_ofNat {n : Nat} (h : n < 256) : (UInt8.ofNat n).toNat = n := by
  rw [UInt8.toNat_ofNat']
  omega

theorem decodeFrom_cons {pending pending' : Option Pending} {byte : Nat} {out : List Char}
    (h : byte < 256) (hnext : next pending byte = (out, pending')) (rest : List UInt8) :
    decodeFrom pending (UInt8.ofNat byte :: rest) = out ++ decodeFrom pending' rest := by
  rw [decodeFrom, toNat_ofNat h, hnext]

/-- A byte in the middle of a character. -/
theorem next_middle {p : Pending} {b : Nat} (hlow : p.low ≤ b) (hhigh : b ≤ p.high)
    (hmissing : p.missing ≠ 1) :
    next (some p) b = ([], some ⟨p.value * 64 + b % 64, p.missing - 1, 0x80, 0xbf⟩) := by
  unfold next
  dsimp only
  rw [if_pos ⟨hlow, hhigh⟩, if_neg hmissing]

theorem next_last {p : Pending} {b : Nat} (hlow : p.low ≤ b) (hhigh : b ≤ p.high)
    (hmissing : p.missing = 1) :
    next (some p) b = ([Char.ofNat (p.value * 64 + b % 64)], none) := by
  unfold next
  dsimp only
  rw [if_pos ⟨hlow, hhigh⟩, if_pos hmissing]

theorem next_first {byte : Nat} {pending : Pending} (hbyte : 0x80 ≤ byte) (h : announce byte = some pending) :
    next none byte = ([], some pending) := by
  have hlarge : ¬ byte < 0x80 := by omega
  unfold next first
  dsimp only
  rw [if_neg hlarge, h]

/-- How a first byte of three begins a character. -/
theorem announce_three {n : Nat} (h : n < 16) :
    ∃ low up, announce (n + 0xe0) = some ⟨n, 2, low, up⟩ ∧ (low = 0x80 ∨ n = 0 ∧ low = 0xa0) ∧
      (up = 0xbf ∨ n = 13 ∧ up = 0x9f) := by
  unfold announce
  have hsecond : ¬ (0xc2 ≤ n + 0xe0 ∧ n + 0xe0 ≤ 0xdf) := by omega
  rw [if_neg hsecond]
  by_cases hzero : n = 0
  · subst hzero
    exact ⟨0xa0, 0xbf, rfl, .inr ⟨rfl, rfl⟩, .inl rfl⟩
  · have hlow : ¬ n + 0xe0 = 0xe0 := by omega
    rw [if_neg hlow]
    by_cases hgap : n = 13
    · subst hgap
      exact ⟨0x80, 0x9f, rfl, .inl rfl, .inr ⟨rfl, rfl⟩⟩
    · have hmiddle : ¬ n + 0xe0 = 0xed := by omega
      rw [if_neg hmiddle, if_pos (by omega), Nat.add_sub_cancel]
      exact ⟨0x80, 0xbf, rfl, .inl rfl, .inl rfl⟩

theorem announce_four {n : Nat} (h : n ≤ 4) :
    ∃ low up, announce (n + 0xf0) = some ⟨n, 3, low, up⟩ ∧ (low = 0x80 ∨ n = 0 ∧ low = 0x90) ∧
      (up = 0xbf ∨ n = 4 ∧ up = 0x8f) := by
  have hcases : n = 0 ∨ n = 1 ∨ n = 2 ∨ n = 3 ∨ n = 4 := by omega
  rcases hcases with rfl | rfl | rfl | rfl | rfl
  · exact ⟨0x90, 0xbf, rfl, .inr ⟨rfl, rfl⟩, .inl rfl⟩
  · exact ⟨0x80, 0xbf, rfl, .inl rfl, .inl rfl⟩
  · exact ⟨0x80, 0xbf, rfl, .inl rfl, .inl rfl⟩
  · exact ⟨0x80, 0xbf, rfl, .inl rfl, .inl rfl⟩
  · exact ⟨0x80, 0x8f, rfl, .inl rfl, .inr ⟨rfl, rfl⟩⟩

/-- An encoded character is read back. -/
theorem decodeFrom_char (c : Char) (rest : List UInt8) :
    decodeFrom none (String.utf8EncodeChar c ++ rest) = c :: decodeFrom none rest := by
  have hvalid : c.val.toNat < 0xd800 ∨ 0xdfff < c.val.toNat ∧ c.val.toNat < 0x110000 := c.valid
  have hback : Char.ofNat c.val.toNat = c := Char.ofNat_toNat c
  unfold String.utf8EncodeChar
  dsimp only
  generalize c.val.toNat = v at hvalid hback ⊢
  split
  next hone =>
    have hsmall : v < 0x80 := by omega
    have hfirst : next none v = ([Char.ofNat v], none) := by
      unfold next first
      dsimp only
      rw [if_pos hsmall]
    rw [List.singleton_append, decodeFrom_cons (by omega) hfirst, hback]
    rfl
  next hone =>
    split
    next htwo =>
      have hannounce : announce (v / 64 % 0x20 + 0xc0) = some ⟨v / 64 % 0x20, 1, 0x80, 0xbf⟩ := by
        unfold announce
        rw [if_pos (by omega), Nat.add_sub_cancel]
      have hfirst := next_first (by omega) hannounce
      have hlast := next_last (p := ⟨v / 64 % 0x20, 1, 0x80, 0xbf⟩) (b := v % 0x40 + 0x80)
        (by dsimp only; omega) (by dsimp only; omega) rfl
      have hvalue : v / 64 % 0x20 * 64 + (v % 0x40 + 0x80) % 64 = v := by omega
      rw [List.cons_append, List.singleton_append, decodeFrom_cons (by omega) hfirst, decodeFrom_cons (by omega) hlast]
      dsimp only
      rw [hvalue, hback]
      rfl
    next htwo =>
      split
      next hthree =>
        obtain ⟨low, up, hannounce, hlow, hup⟩ := announce_three (n := v / 4096 % 0x10) (by omega)
        have hfirst := next_first (by omega) hannounce
        have hmiddle : next (some ⟨v / 4096 % 0x10, 2, low, up⟩) (v / 64 % 0x40 + 0x80) =
            ([], some ⟨v / 4096 % 0x10 * 64 + (v / 64 % 0x40 + 0x80) % 64, 1, 0x80, 0xbf⟩) :=
          next_middle (by dsimp only; omega) (by dsimp only; omega) (by simp)
        have hlast := next_last (p := ⟨v / 4096 % 0x10 * 64 + (v / 64 % 0x40 + 0x80) % 64, 1, 0x80, 0xbf⟩)
          (b := v % 0x40 + 0x80) (by dsimp only; omega) (by dsimp only; omega) rfl
        have hvalue : (v / 4096 % 0x10 * 64 + (v / 64 % 0x40 + 0x80) % 64) * 64 + (v % 0x40 + 0x80) % 64 = v := by
          omega
        rw [List.cons_append, List.cons_append, List.singleton_append, decodeFrom_cons (by omega) hfirst,
          decodeFrom_cons (by omega) hmiddle, decodeFrom_cons (by omega) hlast]
        dsimp only
        rw [hvalue, hback]
        rfl
      next hthree =>
        obtain ⟨low, up, hannounce, hlow, hup⟩ := announce_four (n := v / 262144 % 0x08) (by omega)
        have hfirst := next_first (by omega) hannounce
        have hsecond : next (some ⟨v / 262144 % 0x08, 3, low, up⟩) (v / 4096 % 0x40 + 0x80) =
            ([], some ⟨v / 262144 % 0x08 * 64 + (v / 4096 % 0x40 + 0x80) % 64, 2, 0x80, 0xbf⟩) :=
          next_middle (by dsimp only; omega) (by dsimp only; omega) (by simp)
        have hthird : next (some ⟨v / 262144 % 0x08 * 64 + (v / 4096 % 0x40 + 0x80) % 64, 2, 0x80, 0xbf⟩)
            (v / 64 % 0x40 + 0x80) = ([], some ⟨(v / 262144 % 0x08 * 64 + (v / 4096 % 0x40 + 0x80) % 64) * 64 +
              (v / 64 % 0x40 + 0x80) % 64, 1, 0x80, 0xbf⟩) :=
          next_middle (by dsimp only; omega) (by dsimp only; omega) (by simp)
        have hlast := next_last
          (p := ⟨(v / 262144 % 0x08 * 64 + (v / 4096 % 0x40 + 0x80) % 64) * 64 +
            (v / 64 % 0x40 + 0x80) % 64, 1, 0x80, 0xbf⟩)
          (b := v % 0x40 + 0x80) (by dsimp only; omega) (by dsimp only; omega) rfl
        have hvalue : ((v / 262144 % 0x08 * 64 + (v / 4096 % 0x40 + 0x80) % 64) * 64 +
            (v / 64 % 0x40 + 0x80) % 64) * 64 + (v % 0x40 + 0x80) % 64 = v := by
          omega
        rw [List.cons_append, List.cons_append, List.cons_append, List.singleton_append,
          decodeFrom_cons (by omega) hfirst, decodeFrom_cons (by omega) hsecond, decodeFrom_cons (by omega) hthird,
          decodeFrom_cons (by omega) hlast]
        dsimp only
        rw [hvalue, hback]
        rfl

theorem fromUtf8Lossy_utf8Bytes (text : List Char) : fromUtf8Lossy (utf8Bytes text) = text := by
  rw [utf8Bytes_flatMap, fromUtf8Lossy]
  induction text with
  | nil => rfl
  | cons c text ih => rw [List.flatMap_cons, decodeFrom_char, ih]

end NixSecrets.Utf8Lossy
