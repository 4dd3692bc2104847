import Mathlib.Algebra.Order.Ring.Nat
import Mathlib.Data.List.Induction

namespace NixSecrets

/-- A number in `width` bytes, the most significant first; what does not fit is cut off. -/
def bigEndian : Nat → Nat → List UInt8
  | 0, _ => []
  | width + 1, n => bigEndian width (n / 256) ++ [UInt8.ofNat n]

def readBigEndian (bytes : List UInt8) : Nat := bytes.foldl (fun n byte => n * 256 + byte.toNat) 0

/-- The bytes with their number in front. -/
def prefixed (width : Nat) (bytes : List UInt8) : List UInt8 := bigEndian width bytes.length ++ bytes

def prefixedAll (width : Nat) (parts : List (List UInt8)) : List UInt8 := parts.flatMap (prefixed width)

def byteRange (bytes : List UInt8) (start stop : Nat) : Option (List UInt8) :=
  if start ≤ stop ∧ stop ≤ bytes.length then some ((bytes.take stop).drop start) else none

def bytesFrom (bytes : List UInt8) (start : Nat) : Option (List UInt8) :=
  if start ≤ bytes.length then some (bytes.drop start) else none

theorem byteRange_length {bytes range : List UInt8} {start stop : Nat}
    (h : byteRange bytes start stop = some range) : range.length = stop - start ∧ stop ≤ bytes.length := by
  unfold byteRange at h
  split at h
  next hrange =>
    cases h
    rw [List.length_drop, List.length_take]
    omega
  next => cases h

theorem byteRange_isSome {bytes : List UInt8} {start stop : Nat} (h : start ≤ stop)
    (h' : stop ≤ bytes.length) : (byteRange bytes start stop).isSome := by
  rw [byteRange, if_pos ⟨h, h'⟩]
  rfl

theorem bytesFrom_isSome {bytes : List UInt8} {start : Nat} (h : start ≤ bytes.length) :
    (bytesFrom bytes start).isSome := by
  rw [bytesFrom, if_pos h]
  rfl

theorem byteRange_append (front middle rest : List UInt8) :
    byteRange (front ++ (middle ++ rest)) front.length (front.length + middle.length) = some middle := by
  have hrange : front.length ≤ front.length + middle.length ∧
      front.length + middle.length ≤ (front ++ (middle ++ rest)).length := by
    simp
  rw [byteRange, if_pos hrange, ← List.append_assoc, ← List.length_append, List.take_left,
    List.drop_left]

/-- A range cuts the bytes into three. -/
theorem byteRange_split {bytes range : List UInt8} {start stop : Nat}
    (h : byteRange bytes start stop = some range) :
    bytes = bytes.take start ++ (range ++ bytes.drop stop) := by
  unfold byteRange at h
  split at h
  next hrange =>
    cases h
    have hfront : (bytes.take stop).take start = bytes.take start := by
      rw [List.take_take, Nat.min_eq_left hrange.1]
    rw [← List.append_assoc, ← hfront, List.take_append_drop, List.take_append_drop]
  next => cases h

theorem byteRange_drop {bytes range : List UInt8} {start stop : Nat}
    (h : byteRange bytes start stop = some range) : bytes.drop start = range ++ bytes.drop stop := by
  have hsplit := byteRange_split h
  have hwhole := (List.take_append_drop start bytes).trans hsplit
  exact List.append_cancel_left hwhole

theorem drop_index {bytes : List UInt8} {i : Nat} {byte : UInt8} (h : bytes[i]? = some byte) :
    bytes.drop i = byte :: bytes.drop (i + 1) := by
  obtain ⟨hi, hbyte⟩ := List.getElem?_eq_some_iff.mp h
  rw [List.drop_eq_getElem_cons hi, hbyte]

theorem bytesFrom_drop {bytes rest : List UInt8} {start : Nat} (h : bytesFrom bytes start = some rest) :
    bytes.drop start = rest := by
  unfold bytesFrom at h
  split at h
  next => exact Option.some.inj h
  next => cases h

theorem bytesFrom_append (front rest : List UInt8) :
    bytesFrom (front ++ rest) front.length = some rest := by
  have hrange : front.length ≤ (front ++ rest).length := by simp
  rw [bytesFrom, if_pos hrange, List.drop_left]

theorem bigEndian_length (width n : Nat) : (bigEndian width n).length = width := by
  induction width generalizing n with
  | zero => rfl
  | succ width ih => rw [bigEndian, List.length_append, ih, List.length_singleton]

theorem readBigEndian_append (bytes : List UInt8) (byte : UInt8) :
    readBigEndian (bytes ++ [byte]) = readBigEndian bytes * 256 + byte.toNat := by
  simp [readBigEndian]

theorem readBigEndian_bigEndian {width n : Nat} (h : n < 256 ^ width) :
    readBigEndian (bigEndian width n) = n := by
  induction width generalizing n with
  | zero =>
    have hn : n = 0 := by simpa using h
    rw [hn]
    rfl
  | succ width ih =>
    have hn : n / 256 < 256 ^ width := by
      rw [Nat.pow_succ] at h
      omega
    rw [bigEndian, readBigEndian_append, ih hn, UInt8.toNat_ofNat']
    omega

theorem bigEndian_readBigEndian (bytes : List UInt8) :
    bigEndian bytes.length (readBigEndian bytes) = bytes := by
  induction bytes using List.reverseRecOn with
  | nil => rfl
  | append_singleton bytes byte ih =>
    have hbyte := byte.toNat_lt
    have hhigh : (readBigEndian bytes * 256 + byte.toNat) / 256 = readBigEndian bytes := by omega
    have hlow : UInt8.ofNat (readBigEndian bytes * 256 + byte.toNat) = byte := by
      apply UInt8.toNat_inj.mp
      rw [UInt8.toNat_ofNat']
      omega
    rw [List.length_append, List.length_singleton, bigEndian, readBigEndian_append, hhigh, hlow, ih]

theorem readBigEndian_lt (bytes : List UInt8) : readBigEndian bytes < 256 ^ bytes.length := by
  induction bytes using List.reverseRecOn with
  | nil => decide
  | append_singleton bytes byte ih =>
    have hbyte := byte.toNat_lt
    rw [readBigEndian_append, List.length_append, List.length_singleton, Nat.pow_succ]
    omega

theorem bigEndian_inj {width n m : Nat} (hn : n < 256 ^ width) (hm : m < 256 ^ width)
    (h : bigEndian width n = bigEndian width m) : n = m := by
  rw [← readBigEndian_bigEndian hn, h, readBigEndian_bigEndian hm]

/-- What was put behind its length can be told from what follows it. -/
theorem prefixed_append_inj {width : Nat} {a b rest rest' : List UInt8}
    (ha : a.length < 256 ^ width) (hb : b.length < 256 ^ width)
    (h : prefixed width a ++ rest = prefixed width b ++ rest') : a = b ∧ rest = rest' := by
  rw [prefixed, prefixed, List.append_assoc, List.append_assoc] at h
  have hwidth : (bigEndian width a.length).length = (bigEndian width b.length).length := by
    rw [bigEndian_length, bigEndian_length]
  obtain ⟨hlength, hrest⟩ := List.append_inj h hwidth
  exact List.append_inj hrest (bigEndian_inj ha hb hlength)

theorem prefixed_ne_nil {width : Nat} (hwidth : 0 < width) (bytes : List UInt8) :
    prefixed width bytes ≠ [] := by
  intro h
  have hlength := congrArg List.length h
  rw [prefixed, List.length_append, bigEndian_length, List.length_nil] at hlength
  omega

/-- A list of parts can be told from every other list of parts. -/
theorem prefixedAll_inj {width : Nat} (hwidth : 0 < width) {parts parts' : List (List UInt8)}
    (h : ∀ part ∈ parts, part.length < 256 ^ width) (h' : ∀ part ∈ parts', part.length < 256 ^ width)
    (heq : prefixedAll width parts = prefixedAll width parts') : parts = parts' := by
  induction parts generalizing parts' with
  | nil =>
    cases parts' with
    | nil => rfl
    | cons part' rest' =>
      have hnil := (List.append_eq_nil_iff.mp heq.symm).1
      exact absurd hnil (prefixed_ne_nil hwidth part')
  | cons part rest ih =>
    cases parts' with
    | nil =>
      have hnil := (List.append_eq_nil_iff.mp heq).1
      exact absurd hnil (prefixed_ne_nil hwidth part)
    | cons part' rest' =>
      have hpart := h part List.mem_cons_self
      have hpart' := h' part' List.mem_cons_self
      obtain ⟨hsame, hrest⟩ := prefixed_append_inj hpart hpart' heq
      have htail := ih (fun p hp => h p (List.mem_cons_of_mem part hp))
        (fun p hp => h' p (List.mem_cons_of_mem part' hp)) hrest
      rw [hsame, htail]

end NixSecrets
