import NixSecrets.RustText
import NixSecrets.NumeralText
import NixSecrets.JoinedText

namespace NixSecrets.AddressText

open NumeralText JoinedText

/-- A number below 256 in decimal, without leading zeros. -/
def Octet (text : List Char) (n : Nat) : Prop :=
  Writes 10 text n ∧ n < 256 ∧ (text.head? = some '0' → text = ['0'])

/-- A dotted quad and its address. -/
def Quad (text : List Char) (address : Nat) : Prop :=
  ∃ texts octets, List.Forall₂ Octet texts octets ∧ octets.length = 4 ∧
    text = ['.'].intercalate texts ∧ address = joined 256 octets

/-- One part of a numeric address: hexadecimal after `0x`, octal after `0`, or else decimal. -/
inductive AtonPart : List Char → Nat → Prop
  | hexadecimal {digits : List Char} {n : Nat} (h : Writes 16 digits n) : AtonPart ('0' :: 'x' :: digits) n
  | upperHexadecimal {digits : List Char} {n : Nat} (h : Writes 16 digits n) :
      AtonPart ('0' :: 'X' :: digits) n
  | octal {digits : List Char} {n : Nat} (h : Writes 8 digits n) : AtonPart ('0' :: digits) n
  | decimal {text : List Char} {n : Nat} (h : Writes 10 text n)
      (hfirst : text.head? = some '0' → text = ['0']) : AtonPart text n

/-- One to four numeric parts: each but the last is one byte, and the last fills what they leave. -/
def Aton (text : List Char) (address : Nat) : Prop :=
  ∃ texts leading last, List.Forall₂ AtonPart texts (leading ++ [last]) ∧ leading.length ≤ 3 ∧
    (∀ n ∈ leading, n < 256) ∧ last < 256 ^ (4 - leading.length) ∧ text = ['.'].intercalate texts ∧
    address = joined 256 leading * 256 ^ (4 - leading.length) + last

/-- Sixteen bits in one to four hexadecimal digits. -/
def Group (text : List Char) (n : Nat) : Prop := Writes 16 text n ∧ text.length ≤ 4

/-- Groups between colons, of which the last two may be written as a dotted quad. -/
inductive Chunk : List (List Char) → List Nat → Prop
  | group {text : List Char} {n : Nat} (h : Group text n) : Chunk [text] [n]
  | quad {text : List Char} {address : Nat} (h : Quad text address) :
      Chunk [text] [address / 2 ^ 16, address % 2 ^ 16]
  | cons {text : List Char} {n : Nat} {texts : List (List Char)} {groups : List Nat} (h : Group text n)
      (hrest : Chunk texts groups) : Chunk (text :: texts) (n :: groups)

/-- An IPv6 address: eight groups, or fewer with `::` for the zeros left out. -/
inductive V6 : List Char → Nat → Prop
  | full {texts : List (List Char)} {groups : List Nat} (h : Chunk texts groups) (hlen : groups.length = 8) :
      V6 ([':'].intercalate texts) (joined (2 ^ 16) groups)
  | short {fronts backs : List (List Char)} {front back : List Nat} (hfront : List.Forall₂ Group fronts front)
      (hback : backs = [] ∧ back = [] ∨ Chunk backs back) (hlen : front.length + back.length ≤ 7) :
      V6 ([':'].intercalate fronts ++ "::".toList ++ [':'].intercalate backs)
        (joined (2 ^ 16) (front ++ List.replicate (8 - (front.length + back.length)) 0 ++ back))

def octet (text : List Char) : Option Nat :=
  if text.head? = some '0' ∧ text ≠ ['0'] then none
  else (numeral 10 text).bind fun n => if n < 256 then some n else none

/-- The address that a dotted quad names. -/
def quad (text : List Char) : Option Nat :=
  ((text.splitOn '.').mapM octet).bind fun octets =>
    if octets.length = 4 then some (joined 256 octets) else none

def atonPart (text : List Char) : Option Nat :=
  match (strip ['0', 'x'] text).or (strip ['0', 'X'] text) with
  | some digits => numeral 16 digits
  | none => if text.head? = some '0' ∧ text ≠ ['0'] then numeral 8 text.tail else numeral 10 text

/-- The address that a numeric form names. -/
def aton (text : List Char) : Option Nat :=
  ((text.splitOn '.').mapM atonPart).bind fun parts => parts.getLast?.bind fun last =>
    if 3 < parts.dropLast.length ∨ parts.dropLast.any (255 < ·) ∨ 256 ^ (4 - parts.dropLast.length) ≤ last then
      none
    else some (joined 256 parts.dropLast * 256 ^ (4 - parts.dropLast.length) + last)

def group (text : List Char) : Option Nat := if 4 < text.length then none else numeral 16 text

def chunk : List (List Char) → Option (List Nat)
  | [] => none
  | [text] => ((group text).map fun n => [n]).or
      ((quad text).map fun address => [address / 2 ^ 16, address % 2 ^ 16])
  | text :: rest => (group text).bind fun n => (chunk rest).map (n :: ·)

/-- The groups of a text that may be empty. -/
def side (run : List (List Char) → Option (List Nat)) (text : List Char) : Option (List Nat) :=
  if text = [] then some [] else run (text.splitOn ':')

/-- The address that an IPv6 text names. -/
def v6 (text : List Char) : Option Nat :=
  match splitOnceText "::".toList text with
  | none => (chunk (text.splitOn ':')).bind fun groups =>
      if groups.length = 8 then some (joined (2 ^ 16) groups) else none
  | some (before, after) => (side (·.mapM group) before).bind fun front => (side chunk after).bind fun back =>
      if front.length + back.length ≤ 7 then
        some (joined (2 ^ 16) (front ++ List.replicate (8 - (front.length + back.length)) 0 ++ back))
      else none

section

theorem octet_eq_some {text : List Char} {n : Nat} : octet text = some n ↔ Octet text n := by
  unfold octet Octet
  by_cases hzero : text.head? = some '0' ∧ text ≠ ['0']
  · rw [if_pos hzero]
    constructor
    · intro h
      cases h
    · intro h
      exact absurd (h.2.2 hzero.1) hzero.2
  · rw [if_neg hzero, Option.bind_eq_some_iff]
    constructor
    · intro h
      obtain ⟨m, hm, h⟩ := h
      split at h
      next hlt =>
        cases h
        refine ⟨numeral_eq_some.mp hm, hlt, ?_⟩
        intro hhead
        by_contra hne
        exact hzero ⟨hhead, hne⟩
      next => cases h
    · intro h
      exact ⟨n, numeral_eq_some.mpr h.1, by rw [if_pos h.2.1]⟩

theorem forall₂_octet {texts : List (List Char)} {octets : List Nat} :
    texts.mapM octet = some octets ↔ List.Forall₂ Octet texts octets := by
  have hsame : (fun x y => octet x = some y) = Octet := by
    funext text n
    exact propext octet_eq_some
  rw [mapM_eq_some, hsame]

theorem left_of_forall₂ {α β : Type} {R : α → β → Prop} {P : α → Prop} (hR : ∀ x y, R x y → P x)
    {xs : List α} {ys : List β} (h : List.Forall₂ R xs ys) : ∀ x ∈ xs, P x :=
  ((List.forall₂_and_left xs ys).mp (h.imp fun x y hxy => ⟨hR x y hxy, hxy⟩)).1

theorem right_of_forall₂ {α β : Type} {R : α → β → Prop} {P : β → Prop} (hR : ∀ x y, R x y → P y)
    {xs : List α} {ys : List β} (h : List.Forall₂ R xs ys) : ∀ y ∈ ys, P y :=
  left_of_forall₂ (fun y x hyx => hR x y hyx) (List.Forall₂.flip (R := flip R) h)

theorem ne_nil_of_length {R : List Char → Nat → Prop} {texts : List (List Char)} {values : List Nat}
    (h : List.Forall₂ R texts values) (hvalues : 0 < values.length) : texts ≠ [] := by
  intro hnil
  have hlength := h.length_eq
  rw [hnil, List.length_nil] at hlength
  omega

theorem quad_eq_some {text : List Char} {address : Nat} : quad text = some address ↔ Quad text address := by
  unfold quad
  rw [Option.bind_eq_some_iff]
  constructor
  · intro h
    obtain ⟨octets, hoctets, h⟩ := h
    split at h
    next hlen =>
      cases h
      exact ⟨text.splitOn '.', octets, forall₂_octet.mp hoctets, hlen,
        (List.intercalate_splitOn '.').symm, rfl⟩
    next => cases h
  · intro h
    obtain ⟨texts, octets, hoctets, hlen, htext, haddress⟩ := h
    have hplain := left_of_forall₂ (fun _ _ h => h.1.not_mem (c := '.') rfl) hoctets
    have hsplit : text.splitOn '.' = texts := by
      rw [htext]
      exact List.splitOn_intercalate '.' hplain (ne_nil_of_length hoctets (by omega))
    refine ⟨octets, ?_, ?_⟩
    · rw [hsplit]
      exact forall₂_octet.mpr hoctets
    · rw [if_pos hlen, haddress]

theorem strip_none {front text : List Char} (h : ∀ rest, text ≠ front ++ rest) : strip front text = none := by
  cases hstrip : strip front text with
  | none => rfl
  | some rest => exact absurd (strip_eq_some.mp hstrip) (h rest)

/-- A text without `x` has no hexadecimal mark. -/
theorem unmarked {text : List Char} (h : 'x' ∉ text ∧ 'X' ∉ text) :
    (strip ['0', 'x'] text).or (strip ['0', 'X'] text) = none := by
  have hlower : strip ['0', 'x'] text = none := strip_none fun rest heq => h.1 (by rw [heq]; simp)
  have hupper : strip ['0', 'X'] text = none := strip_none fun rest heq => h.2 (by rw [heq]; simp)
  rw [hlower, hupper]
  rfl

theorem atonPart_eq_some {text : List Char} {n : Nat} : atonPart text = some n ↔ AtonPart text n := by
  constructor
  · intro h
    unfold atonPart at h
    split at h
    next digits hmark =>
      cases hlower : strip ['0', 'x'] text with
      | some rest =>
        rw [hlower] at hmark
        cases hmark
        rw [strip_eq_some.mp hlower]
        exact AtonPart.hexadecimal (numeral_eq_some.mp h)
      | none =>
        rw [hlower] at hmark
        rw [strip_eq_some.mp hmark]
        exact AtonPart.upperHexadecimal (numeral_eq_some.mp h)
    next =>
      split at h
      next hzero =>
        cases text with
        | nil => cases hzero.1
        | cons c rest =>
          cases Option.some.inj hzero.1
          exact AtonPart.octal (numeral_eq_some.mp h)
      next hzero =>
        refine AtonPart.decimal (numeral_eq_some.mp h) ?_
        intro hhead
        by_contra hne
        exact hzero ⟨hhead, hne⟩
  · intro h
    cases h with
    | hexadecimal h =>
      show numeral 16 _ = some n
      exact numeral_eq_some.mpr h
    | upperHexadecimal h =>
      show numeral 16 _ = some n
      exact numeral_eq_some.mpr h
    | @octal digits n h =>
      have hplain : 'x' ∉ '0' :: digits ∧ 'X' ∉ '0' :: digits := by
        have hlower : 'x' ∉ digits := h.not_mem rfl
        have hupper : 'X' ∉ digits := h.not_mem rfl
        simp [hlower, hupper]
      have hlong : ('0' :: digits).head? = some '0' ∧ '0' :: digits ≠ ['0'] := by
        have hne := h.ne_nil
        simp [hne]
      unfold atonPart
      rw [unmarked hplain]
      dsimp only
      rw [if_pos hlong]
      exact numeral_eq_some.mpr h
    | decimal h hfirst =>
      unfold atonPart
      rw [unmarked ⟨h.not_mem rfl, h.not_mem rfl⟩]
      dsimp only
      have hshort : ¬ (text.head? = some '0' ∧ text ≠ ['0']) := fun hzero => hzero.2 (hfirst hzero.1)
      rw [if_neg hshort]
      exact numeral_eq_some.mpr h

theorem forall₂_atonPart {texts : List (List Char)} {values : List Nat} :
    texts.mapM atonPart = some values ↔ List.Forall₂ AtonPart texts values := by
  have hsame : (fun x y => atonPart x = some y) = AtonPart := by
    funext text n
    exact propext atonPart_eq_some
  rw [mapM_eq_some, hsame]

theorem AtonPart.not_mem {text : List Char} {n : Nat} (h : AtonPart text n) {c : Char}
    (hc : digit c = none) (hmark : c ≠ 'x' ∧ c ≠ 'X') : c ∉ text := by
  have hzero : c ≠ '0' := by
    intro heq
    rw [heq] at hc
    cases hc
  cases h with
  | hexadecimal h =>
    have hrest := h.not_mem hc
    simp [hzero, hmark, hrest]
  | upperHexadecimal h =>
    have hrest := h.not_mem hc
    simp [hzero, hmark, hrest]
  | octal h =>
    have hrest := h.not_mem hc
    simp [hzero, hrest]
  | decimal h _ => exact h.not_mem hc

theorem aton_eq_some {text : List Char} {address : Nat} : aton text = some address ↔ Aton text address := by
  unfold aton
  rw [Option.bind_eq_some_iff]
  constructor
  · intro h
    obtain ⟨parts, hparts, h⟩ := h
    obtain ⟨last, hlast, h⟩ := Option.bind_eq_some_iff.mp h
    have hsplit : parts.dropLast ++ [last] = parts := List.dropLast_append_getLast? last hlast
    split at h
    next => cases h
    next hfits =>
      cases h
      rw [not_or, not_or] at hfits
      refine ⟨text.splitOn '.', parts.dropLast, last, ?_, by omega, ?_, by omega,
        (List.intercalate_splitOn '.').symm, rfl⟩
      · rw [hsplit]
        exact forall₂_atonPart.mp hparts
      · intro n hn
        have hany := hfits.2.1
        rw [List.any_eq_true, not_exists] at hany
        have hsmall := hany n
        simp only [hn, decide_eq_true_eq, true_and] at hsmall
        omega
  · intro h
    obtain ⟨texts, leading, last, hparts, hlen, hleading, hlast, htext, haddress⟩ := h
    have hplain : ∀ text ∈ texts, '.' ∉ text :=
      left_of_forall₂ (R := AtonPart) (fun _ _ h => h.not_mem rfl ⟨by decide, by decide⟩) hparts
    have hsplit : text.splitOn '.' = texts := by
      rw [htext]
      exact List.splitOn_intercalate '.' hplain (ne_nil_of_length hparts (by simp))
    have hfits : ¬ (3 < (leading ++ [last]).dropLast.length ∨ (leading ++ [last]).dropLast.any (255 < ·) ∨
        256 ^ (4 - (leading ++ [last]).dropLast.length) ≤ last) := by
      rw [List.dropLast_concat, not_or, not_or]
      refine ⟨by omega, ?_, by omega⟩
      rw [List.any_eq_true, not_exists]
      intro n hn
      have hsmall := hleading n hn.1
      have hbig : 255 < n := of_decide_eq_true hn.2
      omega
    refine ⟨leading ++ [last], ?_, ?_⟩
    · rw [hsplit]
      exact forall₂_atonPart.mpr hparts
    · rw [List.getLast?_concat, Option.bind_some, if_neg hfits, List.dropLast_concat, haddress]

/-- Every reader of numeric addresses reads a dotted quad alike. -/
theorem Quad.aton {text : List Char} {address : Nat} (h : Quad text address) : Aton text address := by
  obtain ⟨texts, octets, hoctets, hlen, htext, haddress⟩ := h
  have hne : octets ≠ [] := by
    intro hnil
    rw [hnil] at hlen
    cases hlen
  have hsplit : octets.dropLast ++ [octets.getLast hne] = octets := List.dropLast_append_getLast hne
  have hsmall : ∀ n ∈ octets, n < 256 := right_of_forall₂ (fun _ _ h => h.2.1) hoctets
  have hleading : octets.dropLast.length = 3 := by
    rw [List.length_dropLast, hlen]
  refine ⟨texts, octets.dropLast, octets.getLast hne, ?_, by omega, ?_, ?_, htext, ?_⟩
  · rw [hsplit]
    exact hoctets.imp fun text n h => AtonPart.decimal h.1 h.2.2
  · intro n hn
    exact hsmall n (List.dropLast_subset octets hn)
  · rw [hleading]
    exact hsmall _ (List.getLast_mem hne)
  · rw [haddress, hleading]
    conv_lhs => rw [← hsplit, joined_snoc]
    rfl

theorem group_eq_some {text : List Char} {n : Nat} : group text = some n ↔ Group text n := by
  unfold group Group
  constructor
  · intro h
    split at h
    next => cases h
    next hshort => exact ⟨numeral_eq_some.mp h, by omega⟩
  · intro h
    have hshort : ¬ 4 < text.length := by omega
    rw [if_neg hshort]
    exact numeral_eq_some.mpr h.1

theorem forall₂_group {texts : List (List Char)} {groups : List Nat} :
    texts.mapM group = some groups ↔ List.Forall₂ Group texts groups := by
  have hsame : (fun x y => group x = some y) = Group := by
    funext text n
    exact propext group_eq_some
  rw [mapM_eq_some, hsame]

/-- A dotted quad contains a dot, and a group none. -/
theorem Quad.dot_mem {text : List Char} {address : Nat} (h : Quad text address) : '.' ∈ text := by
  obtain ⟨texts, octets, hoctets, hlen, htext, _⟩ := h
  have hlength := hoctets.length_eq
  cases texts with
  | nil =>
    rw [List.length_nil] at hlength
    omega
  | cons first rest =>
    cases rest with
    | nil =>
      rw [List.length_singleton] at hlength
      omega
    | cons second rest =>
      rw [htext, List.intercalate_cons_cons]
      simp

theorem Quad.group_eq_none {text : List Char} {address : Nat} (h : Quad text address) : group text = none := by
  cases hgroup : group text with
  | none => rfl
  | some n => exact absurd h.dot_mem ((group_eq_some.mp hgroup).1.not_mem rfl)

theorem chunk_eq_some {texts : List (List Char)} {groups : List Nat} :
    chunk texts = some groups ↔ Chunk texts groups := by
  constructor
  · intro h
    induction texts generalizing groups with
    | nil => cases h
    | cons text rest ih =>
      cases rest with
      | nil =>
        cases hgroup : group text with
        | some n =>
          simp only [chunk, hgroup, Option.map_some, Option.some_or, Option.some.injEq] at h
          rw [← h]
          exact Chunk.group (group_eq_some.mp hgroup)
        | none =>
          simp only [chunk, hgroup, Option.map_none, Option.none_or, Option.map_eq_some_iff] at h
          obtain ⟨address, hquad, h⟩ := h
          rw [← h]
          exact Chunk.quad (quad_eq_some.mp hquad)
      | cons second rest =>
        obtain ⟨n, hgroup, h⟩ := Option.bind_eq_some_iff.mp h
        obtain ⟨groups', hrest, h⟩ := Option.map_eq_some_iff.mp h
        rw [← h]
        exact Chunk.cons (group_eq_some.mp hgroup) (ih hrest)
  · intro h
    induction h with
    | group h => simp only [chunk, group_eq_some.mpr h, Option.map_some, Option.some_or]
    | quad h => simp only [chunk, h.group_eq_none, quad_eq_some.mpr h, Option.map_none, Option.map_some, Option.none_or]
    | @cons text n texts groups h hrest ih =>
      cases texts with
      | nil => cases hrest
      | cons second rest =>
        show (group text).bind _ = _
        rw [group_eq_some.mpr h, Option.bind_some, ih, Option.map_some]

/-- A piece between colons. -/
def Piece (text : List Char) : Prop := text ≠ [] ∧ ':' ∉ text

theorem Group.piece {text : List Char} {n : Nat} (h : Group text n) : Piece text :=
  ⟨h.1.ne_nil, h.1.not_mem rfl⟩

theorem Quad.piece {text : List Char} {address : Nat} (h : Quad text address) : Piece text := by
  have hdot := h.dot_mem
  obtain ⟨texts, octets, hoctets, _, htext, _⟩ := h
  constructor
  · intro hnil
    rw [hnil] at hdot
    cases hdot
  · rw [htext]
    exact not_mem_intercalate (by decide) (left_of_forall₂ (R := Octet) (fun _ _ h => h.1.not_mem rfl) hoctets)

theorem Chunk.pieces {texts : List (List Char)} {groups : List Nat} (h : Chunk texts groups) :
    texts ≠ [] ∧ ∀ text ∈ texts, Piece text := by
  refine ⟨by cases h <;> simp, ?_⟩
  induction h with
  | group h =>
    intro text htext
    rw [List.mem_singleton.mp htext]
    exact h.piece
  | quad h =>
    intro text htext
    rw [List.mem_singleton.mp htext]
    exact h.piece
  | cons h _ ih =>
    intro text htext
    cases List.mem_cons.mp htext with
    | inl heq => rw [heq]; exact h.piece
    | inr hrest => exact ih text hrest

theorem splitOnceText_plain {text : List Char} (h : ':' ∉ text) : splitOnceText "::".toList text = none := by
  induction text with
  | nil => rfl
  | cons c text ih =>
    have hc : ':' ≠ c ∧ ':' ∉ text := by simpa using h
    have hfront : "::".toList.isPrefixOf (c :: text) = false := by
      simp [List.isPrefixOf, hc.1]
    rw [splitOnceText, hfront, ih hc.2]
    rfl

/-- A piece before a single colon is passed over. -/
theorem splitOnceText_piece {text : List Char} (h : ':' ∉ text) {c : Char} (hc : c ≠ ':') (rest : List Char) :
    splitOnceText "::".toList (text ++ ':' :: c :: rest) =
      (splitOnceText "::".toList (c :: rest)).map fun x => (text ++ ':' :: x.1, x.2) := by
  induction text with
  | nil =>
    have hfront : "::".toList.isPrefixOf (':' :: c :: rest) = false := by
      simp [List.isPrefixOf, Ne.symm hc]
    rw [List.nil_append, splitOnceText, hfront]
    rfl
  | cons d text ih =>
    have hd : ':' ≠ d ∧ ':' ∉ text := by simpa using h
    have hfront : "::".toList.isPrefixOf (d :: (text ++ ':' :: c :: rest)) = false := by
      simp [List.isPrefixOf, hd.1]
    rw [List.cons_append, splitOnceText, hfront, ih hd.2]
    cases splitOnceText "::".toList (c :: rest) with
    | none => rfl
    | some x => rfl

theorem splitOnceText_colons {text : List Char} (h : ':' ∉ text) (rest : List Char) :
    splitOnceText "::".toList (text ++ ':' :: ':' :: rest) = some (text, rest) := by
  induction text with
  | nil =>
    have hfront : "::".toList.isPrefixOf (':' :: ':' :: rest) = true := by simp
    rw [List.nil_append, splitOnceText, hfront]
    rfl
  | cons d text ih =>
    have hd : ':' ≠ d ∧ ':' ∉ text := by simpa using h
    have hfront : "::".toList.isPrefixOf (d :: (text ++ ':' :: ':' :: rest)) = false := by
      simp [List.isPrefixOf, hd.1]
    rw [List.cons_append, splitOnceText, hfront, ih hd.2]
    rfl

theorem intercalate_head {texts : List (List Char)} (hne : texts ≠ []) (h : ∀ text ∈ texts, Piece text)
    (rest : List Char) : ∃ c tail, [':'].intercalate texts ++ rest = c :: tail ∧ c ≠ ':' := by
  cases texts with
  | nil => exact absurd rfl hne
  | cons text more =>
    have hpiece := h text (List.mem_cons_self ..)
    cases text with
    | nil => exact absurd rfl hpiece.1
    | cons c text =>
      have hc : ':' ≠ c ∧ ':' ∉ text := by simpa using hpiece.2
      cases more with
      | nil => exact ⟨c, text ++ rest, by simp, Ne.symm hc.1⟩
      | cons second more =>
        refine ⟨c, text ++ ([':'] ++ [':'].intercalate (second :: more)) ++ rest, ?_, Ne.symm hc.1⟩
        rw [List.intercalate_cons_cons]
        simp

/-- Pieces joined by single colons hold no `::`. -/
theorem splitOnceText_pieces {texts : List (List Char)} (h : ∀ text ∈ texts, Piece text) :
    splitOnceText "::".toList ([':'].intercalate texts) = none := by
  induction texts with
  | nil => rfl
  | cons text rest ih =>
    have hpiece := h text (List.mem_cons_self ..)
    have hrest : ∀ text ∈ rest, Piece text := fun x hx => h x (List.mem_cons_of_mem _ hx)
    cases rest with
    | nil =>
      rw [List.intercalate_singleton]
      exact splitOnceText_plain hpiece.2
    | cons second rest =>
      obtain ⟨c, tail, hhead, hc⟩ := intercalate_head (by simp) hrest []
      have hwhole := ih hrest
      rw [List.append_nil] at hhead
      rw [hhead] at hwhole
      rw [List.intercalate_cons_cons, List.append_assoc, hhead, List.singleton_append,
        splitOnceText_piece hpiece.2 hc, hwhole]
      rfl

/-- The first `::` after such pieces is the one that follows them. -/
theorem splitOnceText_short {texts : List (List Char)} (h : ∀ text ∈ texts, Piece text) (rest : List Char) :
    splitOnceText "::".toList ([':'].intercalate texts ++ "::".toList ++ rest) =
      some ([':'].intercalate texts, rest) := by
  induction texts with
  | nil => rfl
  | cons text more ih =>
    have hpiece := h text (List.mem_cons_self ..)
    have hmore : ∀ text ∈ more, Piece text := fun x hx => h x (List.mem_cons_of_mem _ hx)
    cases more with
    | nil =>
      rw [List.intercalate_singleton, List.append_assoc]
      exact splitOnceText_colons hpiece.2 rest
    | cons second more =>
      obtain ⟨c, tail, hhead, hc⟩ := intercalate_head (by simp) hmore ("::".toList ++ rest)
      have hwhole := ih hmore
      rw [List.append_assoc, hhead] at hwhole
      rw [List.intercalate_cons_cons, List.append_assoc, List.append_assoc, List.append_assoc, hhead,
        List.singleton_append, splitOnceText_piece hpiece.2 hc, hwhole]
      simp

theorem side_eq_some {run : List (List Char) → Option (List Nat)} {R : List (List Char) → List Nat → Prop}
    (hR : ∀ texts groups, run texts = some groups ↔ R texts groups)
    (hpieces : ∀ texts groups, R texts groups → ∀ text ∈ texts, Piece text) {text : List Char}
    {groups : List Nat} :
    side run text = some groups ↔ text = [] ∧ groups = [] ∨
      ∃ texts, texts ≠ [] ∧ R texts groups ∧ text = [':'].intercalate texts := by
  unfold side
  constructor
  · intro h
    split at h
    next hempty =>
      cases h
      exact .inl ⟨hempty, rfl⟩
    next =>
      exact .inr ⟨text.splitOn ':', List.splitOn_ne_nil ':' text, (hR _ _).mp h, (List.intercalate_splitOn ':').symm⟩
  · intro h
    rcases h with ⟨hempty, hgroups⟩ | ⟨texts, hne, htexts, htext⟩
    · rw [if_pos hempty, hgroups]
    · have hplain := hpieces texts groups htexts
      have hsplit : text.splitOn ':' = texts := by
        rw [htext]
        exact List.splitOn_intercalate ':' (fun piece hpiece => (hplain piece hpiece).2) hne
      obtain ⟨c, tail, hhead, _⟩ := intercalate_head hne hplain []
      have hfull : text ≠ [] := by
        rw [htext]
        rw [List.append_nil] at hhead
        rw [hhead]
        simp
      rw [if_neg hfull, hsplit]
      exact (hR texts groups).mpr htexts

theorem forall₂_pieces {texts : List (List Char)} {groups : List Nat} (h : List.Forall₂ Group texts groups) :
    ∀ text ∈ texts, Piece text :=
  left_of_forall₂ (fun _ _ h => h.piece) h

theorem v6_eq_some {text : List Char} {address : Nat} : v6 text = some address ↔ V6 text address := by
  unfold v6
  constructor
  · intro h
    split at h
    next =>
      obtain ⟨groups, hgroups, h⟩ := Option.bind_eq_some_iff.mp h
      split at h
      next hlen =>
        cases h
        have hfull := V6.full (chunk_eq_some.mp hgroups) hlen
        rw [List.intercalate_splitOn] at hfull
        exact hfull
      next => cases h
    next before after hsplit =>
      obtain ⟨front, hfront, h⟩ := Option.bind_eq_some_iff.mp h
      obtain ⟨back, hback, h⟩ := Option.bind_eq_some_iff.mp h
      split at h
      next hlen =>
        cases h
        rw [splitOnceText_some hsplit]
        have hfronts : ∃ fronts, List.Forall₂ Group fronts front ∧ before = [':'].intercalate fronts := by
          rcases (side_eq_some (fun _ _ => forall₂_group) fun _ _ => forall₂_pieces).mp hfront with
            ⟨hbefore, hnone⟩ | ⟨fronts, _, hfronts, hbefore⟩
          · exact ⟨[], by rw [hnone]; exact List.Forall₂.nil, by rw [hbefore]; rfl⟩
          · exact ⟨fronts, hfronts, hbefore⟩
        have hbacks : ∃ backs, (backs = [] ∧ back = [] ∨ Chunk backs back) ∧ after = [':'].intercalate backs := by
          rcases (side_eq_some (fun _ _ => chunk_eq_some) fun _ _ h => h.pieces.2).mp hback with
            ⟨hafter, hnone⟩ | ⟨backs, _, hbacks, hafter⟩
          · exact ⟨[], .inl ⟨rfl, hnone⟩, by rw [hafter]; rfl⟩
          · exact ⟨backs, .inr hbacks, hafter⟩
        obtain ⟨fronts, hfronts, hbefore⟩ := hfronts
        obtain ⟨backs, hbacks, hafter⟩ := hbacks
        rw [hbefore, hafter]
        exact V6.short hfronts hbacks hlen
      next => cases h
  · intro h
    cases h with
    | @full texts groups h hlen =>
      have hpieces := h.pieces
      have hsplit : ([':'].intercalate texts).splitOn ':' = texts :=
        List.splitOn_intercalate ':' (fun piece hpiece => (hpieces.2 piece hpiece).2) hpieces.1
      rw [splitOnceText_pieces hpieces.2]
      dsimp only
      rw [hsplit, chunk_eq_some.mpr h, Option.bind_some, if_pos hlen]
    | @short fronts backs front back hfront hback hlen =>
      have hbefore : side (·.mapM group) ([':'].intercalate fronts) = some front := by
        refine (side_eq_some (fun _ _ => forall₂_group) fun _ _ => forall₂_pieces).mpr ?_
        cases hfront with
        | nil => exact .inl ⟨rfl, rfl⟩
        | cons hfirst hrest => exact .inr ⟨_, by simp, List.Forall₂.cons hfirst hrest, rfl⟩
      have hafter : side chunk ([':'].intercalate backs) = some back := by
        refine (side_eq_some (fun _ _ => chunk_eq_some) fun _ _ h => h.pieces.2).mpr ?_
        rcases hback with ⟨hbacks, hnone⟩ | hbacks
        · exact .inl ⟨by rw [hbacks]; rfl, hnone⟩
        · exact .inr ⟨backs, hbacks.pieces.1, hbacks, rfl⟩
      rw [splitOnceText_short (forall₂_pieces hfront)]
      dsimp only
      rw [hbefore, Option.bind_some, hafter, Option.bind_some, if_pos hlen]

end

end NixSecrets.AddressText
