import Mathlib.Data.List.Basic
import NixSecrets.Checked

namespace NixSecrets

/-- The characters with the Unicode property `White_Space`. -/
def isWhitespace (c : Char) : Bool :=
  (9 ≤ c.toNat && c.toNat ≤ 13) || c.toNat == 0x20 || c.toNat == 0x85 || c.toNat == 0xa0 ||
  c.toNat == 0x1680 || (0x2000 ≤ c.toNat && c.toNat ≤ 0x200a) || c.toNat == 0x2028 ||
  c.toNat == 0x2029 || c.toNat == 0x202f || c.toNat == 0x205f || c.toNat == 0x3000

/-- The characters of the general category `Cc`. -/
def isControl (c : Char) : Bool := c.toNat < 0x20 || (0x7f ≤ c.toNat && c.toNat < 0xa0)

def hexByte (b : UInt8) : String :=
  String.ofList [Nat.digitChar (b.toNat / 16), Nat.digitChar (b.toNat % 16)]

def utf8Length (text : List Char) : Nat := (text.map Char.utf8Size).sum

def trim (text : List Char) : List Char :=
  ((text.dropWhile isWhitespace).reverse.dropWhile isWhitespace).reverse

/-- Splits a text at a byte offset, which must lie between two characters of it. -/
def splitAtByte : Nat → List Char → Option (List Char × List Char)
  | 0, text => some ([], text)
  | _ + 1, [] => none
  | offset + 1, c :: text =>
    if c.utf8Size ≤ offset + 1 then
      (splitAtByte (offset + 1 - c.utf8Size) text).map fun x => (c :: x.1, x.2)
    else none
  termination_by _ text => text.length

/-- The bytes of a text from one offset up to another. -/
def sliceBytes (text : List Char) (start stop : Nat) : Option (List Char) := do
  if stop < start then none
  else
    let (_, rest) ← splitAtByte start text
    let (middle, _) ← splitAtByte (stop - start) rest
    return middle

def splitOnceText (pattern : List Char) : List Char → Option (List Char × List Char)
  | [] => if pattern = [] then some ([], []) else none
  | c :: text =>
    if pattern.isPrefixOf (c :: text) then some ([], (c :: text).drop pattern.length)
    else (splitOnceText pattern text).map fun x => (c :: x.1, x.2)

theorem splitOnceText_some {pattern text front rest : List Char}
    (h : splitOnceText pattern text = some (front, rest)) : text = front ++ pattern ++ rest := by
  induction text generalizing front with
  | nil =>
    rw [splitOnceText] at h
    split at h
    next hempty =>
      cases h
      simp [hempty]
    next => cases h
  | cons c text ih =>
    rw [splitOnceText] at h
    split at h
    next hpattern =>
      cases h
      exact (List.prefix_iff_eq_append.mp (List.isPrefixOf_iff_prefix.mp hpattern)).symm
    next =>
      obtain ⟨⟨front', rest'⟩, hsplit, h⟩ := Option.map_eq_some_iff.mp h
      cases h
      rw [ih hsplit]
      rfl

/-- The prefix, removed if the text starts with it. -/
def strip (front text : List Char) : Option (List Char) :=
  if front.isPrefixOf text then some (text.drop front.length) else none

def stripEnd (suffix text : List Char) : Option (List Char) :=
  if suffix.isSuffixOf text then some (text.take (text.length - suffix.length)) else none

theorem strip_eq_some {front text rest : List Char} : strip front text = some rest ↔ text = front ++ rest := by
  unfold strip
  constructor
  · intro h
    split at h
    next hfront =>
      cases h
      exact (List.prefix_iff_eq_append.mp (List.isPrefixOf_iff_prefix.mp hfront)).symm
    next => cases h
  · intro h
    rw [h, if_pos (List.isPrefixOf_iff_prefix.mpr (List.prefix_append front rest)), List.drop_left]

theorem utf8Length_append (xs ys : List Char) :
    utf8Length (xs ++ ys) = utf8Length xs + utf8Length ys := by
  simp [utf8Length]

theorem utf8Length_sublist {xs ys : List Char} (h : xs.Sublist ys) : utf8Length xs ≤ utf8Length ys := by
  induction h with
  | slnil => exact Nat.le_refl _
  | cons c _ ih =>
    simp only [utf8Length, List.map_cons, List.sum_cons] at ih ⊢
    omega
  | cons_cons c _ ih =>
    simp only [utf8Length, List.map_cons, List.sum_cons] at ih ⊢
    omega

theorem splitAtByte_append (front rest : List Char) :
    splitAtByte (utf8Length front) (front ++ rest) = some (front, rest) := by
  induction front with
  | nil => simp [utf8Length, splitAtByte]
  | cons c front ih =>
    have hc : 0 < c.utf8Size := c.utf8Size_pos
    have hlength : utf8Length (c :: front) = (c.utf8Size - 1 + utf8Length front) + 1 := by
      simp only [utf8Length, List.map_cons, List.sum_cons]
      omega
    rw [hlength, List.cons_append, splitAtByte, if_pos (by omega)]
    have hrest : c.utf8Size - 1 + utf8Length front + 1 - c.utf8Size = utf8Length front := by omega
    rw [hrest, ih]
    rfl

/-- A slice that ends where it begins or later, between characters, is in range. -/
theorem sliceBytes_append (front middle rest : List Char) :
    sliceBytes (front ++ (middle ++ rest)) (utf8Length front) (utf8Length front + utf8Length middle) =
      some middle := by
  have hstop : ¬ utf8Length front + utf8Length middle < utf8Length front := by omega
  have hlength : utf8Length front + utf8Length middle - utf8Length front = utf8Length middle := by omega
  simp only [sliceBytes, if_neg hstop, splitAtByte_append, hlength, Option.bind_eq_bind,
    Option.bind_some, Option.pure_def]

theorem trim_sublist (text : List Char) : (trim text).Sublist text := by
  have hfirst := List.dropWhile_sublist isWhitespace (l := text)
  have hlast := List.dropWhile_sublist isWhitespace (l := (text.dropWhile isWhitespace).reverse)
  have hreverse := hlast.reverse
  rw [List.reverse_reverse] at hreverse
  exact hreverse.trans hfirst

theorem utf8Length_trim (text : List Char) : utf8Length (trim text) ≤ utf8Length text :=
  utf8Length_sublist (trim_sublist text)

theorem utf8ByteSize_text (text : List Char) : (String.ofList text).utf8ByteSize = utf8Length text := by
  induction text with
  | nil => rfl
  | cons c text ih =>
    rw [String.ofList_cons, String.utf8ByteSize_append, ih]
    simp [utf8Length]

end NixSecrets
