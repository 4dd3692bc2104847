import Mathlib.Data.Char
import NixSecrets.KnownHosts
import NixSecrets.AddressText

namespace NixSecrets.Inventory

open NumeralText AddressText JoinedText

/-- The address of a dotted quad or of an IPv6 text, as the standard library reads them. -/
def parseIp (text : List Char) : Option IpAddr :=
  ((quad text).map IpAddr.v4).or ((v6 text).map IpAddr.v6)

def Libraries.withAddresses (libs : Libraries) : Libraries := { libs with parseIp := Inventory.parseIp }

/-- Loopback, unspecified or link-local. -/
def LocalV4 (address : Nat) : Prop :=
  127 * 2 ^ 24 ≤ address ∧ address < 128 * 2 ^ 24 ∨ address = 0 ∨
    0xa9fe * 2 ^ 16 ≤ address ∧ address < 0xa9ff * 2 ^ 16

/-- Loopback, unspecified or link-local, or such an IPv4 address mapped into IPv6. -/
def LocalV6 (address : Nat) : Prop :=
  address = 1 ∨ address = 0 ∨ 0xfe80 * 2 ^ 112 ≤ address ∧ address < 0xfec0 * 2 ^ 112 ∨
    ∃ inner, inner < 2 ^ 32 ∧ LocalV4 inner ∧ address = 0xffff * 2 ^ 32 + inner

def LocalName (host : List Char) : Prop :=
  host.map Char.toLower = "localhost".toList ∨
    ∃ front, host.map Char.toLower = front ++ ".localhost".toList

/-- A host that reaches whatever listens on this machine or link. -/
inductive LocalHost : List Char → Prop
  | name {host : List Char} (h : LocalName host) : LocalHost host
  | v4 {literal zone : List Char} {address : Nat} (h : Quad literal address) (hlocal : LocalV4 address)
      (hzone : zone = [] ∨ zone.head? = some '%') : LocalHost (literal ++ zone)
  | v6 {literal zone : List Char} {address : Nat} (h : V6 literal address) (hlocal : LocalV6 address)
      (hzone : zone = [] ∨ zone.head? = some '%') : LocalHost (literal ++ zone)
  | numeric {host : List Char} {address : Nat} (h : Aton host address) (hlocal : LocalV4 address) : LocalHost host

/-- The host without the dot of a fully qualified name is local. -/
def LocalOnly (host : List Char) : Prop :=
  ∃ bare, (host = bare ++ ['.'] ∨ host = bare ∧ host.getLast? ≠ some '.') ∧ LocalHost bare

section

variable {ε : Type}

theorem octal_digits (rest : List Char) :
    sliceBytes ('0' :: rest) 1 (utf8Length ('0' :: rest)) = some rest := by
  have hone : utf8Length ['0'] = 1 := by decide
  have hslice := sliceBytes_append ['0'] rest []
  rw [List.append_nil, hone] at hslice
  have hstop : utf8Length ('0' :: rest) = 1 + utf8Length rest := by
    rw [← hone, ← utf8Length_append]
    rfl
  rw [hstop]
  exact hslice

/-- The lengths in bytes by which the code tells `0` from an octal part. -/
theorem one_lt_utf8Length {text : List Char} (h : text.head? = some '0') :
    1 < utf8Length text ↔ text ≠ ['0'] := by
  cases text with
  | nil => cases h
  | cons c rest =>
    cases Option.some.inj h
    have hone : ('0' : Char).utf8Size = 1 := by decide
    cases rest with
    | nil => simp [utf8Length, hone]
    | cons d rest =>
      have hd : 0 < d.utf8Size := d.utf8Size_pos
      have hlength : utf8Length ('0' :: d :: rest) = 1 + (d.utf8Size + utf8Length rest) := by
        simp [utf8Length, hone]
      rw [hlength]
      simp
      omega

/-- The numbers a part may have in the code, which reads them into 32 bits. -/
def atonWord (part : List Char) : Option Nat := (atonPart part).bind fun n => if n < 2 ^ 32 then some n else none

theorem fromStrRadix_eq {radix : Nat} {digits : List Char} (h : digits ≠ []) :
    fromStrRadix radix digits = (numeral radix digits).bind fun n => if n < 2 ^ 32 then some n else none := by
  unfold numeral
  rw [if_neg h]
  rfl

theorem readDigits_eq (radix : Nat) (digits : List Char) :
    (if digits = [] ∨ digits.any (hexValue · |>.isNone) then pure none
      else pure (fromStrRadix radix digits) : Checked ε (Option Nat)) =
      .ok ((numeral radix digits).bind fun n => if n < 2 ^ 32 then some n else none) := by
  by_cases hempty : digits = []
  · rw [if_pos (.inl hempty), hempty]
    rfl
  · by_cases hany : digits.any (hexValue · |>.isNone) = true
    · rw [if_pos (.inr hany)]
      cases hnumeral : numeral radix digits with
      | none => rfl
      | some n =>
        obtain ⟨c, hc, hnone⟩ := List.any_eq_true.mp hany
        obtain ⟨d, hd⟩ := (numeral_eq_some.mp hnumeral).digit_of_mem hc
        have hvalue : hexValue c = some d := hd
        rw [hvalue] at hnone
        cases hnone
    · rw [if_neg (by simp only [hempty, false_or]; exact hany), fromStrRadix_eq hempty]
      rfl

theorem inetAtonPart_eq (part : List Char) : (inetAtonPart part : Checked ε _) = .ok (atonWord part) := by
  unfold inetAtonPart atonWord atonPart
  cases hmark : (strip ['0', 'x'] part).or (strip ['0', 'X'] part) with
  | some digits => exact readDigits_eq 16 digits
  | none =>
    dsimp only
    by_cases hzero : part.head? = some '0' ∧ part ≠ ['0']
    · rw [if_pos hzero, if_pos ⟨(one_lt_utf8Length hzero.1).mpr hzero.2, hzero.1⟩]
      cases part with
      | nil => cases hzero.1
      | cons c rest =>
        cases Option.some.inj hzero.1
        rw [octal_digits]
        exact readDigits_eq 8 rest
    · have hcode : ¬ (1 < utf8Length part ∧ part.head? = some '0') := fun h =>
        hzero ⟨h.2, (one_lt_utf8Length h.2).mp h.1⟩
      rw [if_neg hzero, if_neg hcode]
      exact readDigits_eq 10 part

theorem inetAtonParts_eq (parts : List (List Char)) :
    (inetAtonParts parts : Checked ε _) = .ok (parts.mapM atonWord) := by
  induction parts with
  | nil => rfl
  | cons part rest ih =>
    rw [inetAtonParts, inetAtonPart_eq, List.mapM_cons]
    cases atonWord part with
    | none => rfl
    | some n =>
      show (inetAtonParts rest >>= fun found => pure (found.map (n :: ·)) : Checked ε _) = _
      rw [ih]
      cases rest.mapM atonWord with
      | none => rfl
      | some values => rfl

theorem atonWord_eq_some {part : List Char} {n : Nat} :
    atonWord part = some n ↔ atonPart part = some n ∧ n < 2 ^ 32 := by
  unfold atonWord
  rw [Option.bind_eq_some_iff]
  constructor
  · intro h
    obtain ⟨m, hm, h⟩ := h
    split at h
    next hsmall =>
      cases h
      exact ⟨hm, hsmall⟩
    next => cases h
  · intro h
    exact ⟨n, h.1, if_pos h.2⟩

/-- A part too large for 32 bits is too large for its place as well. -/
theorem aton_words {host : List Char} {address : Nat} (h : aton host = some address) :
    ∃ parts, (host.splitOn '.').mapM atonWord = some parts := by
  obtain ⟨parts, hparts, h⟩ := Option.bind_eq_some_iff.mp h
  obtain ⟨last, hlast, h⟩ := Option.bind_eq_some_iff.mp h
  split at h
  next => cases h
  next hfits =>
    rw [not_or, not_or, List.any_eq_true, not_exists] at hfits
    have hwords : ∀ n ∈ parts, n < 2 ^ 32 := by
      intro n hn
      rw [← List.dropLast_append_getLast? last hlast, List.mem_append, List.mem_singleton] at hn
      cases hn with
      | inl hn =>
        have hsmall := hfits.2.1 n
        simp only [hn, decide_eq_true_eq, true_and] at hsmall
        omega
      | inr hn =>
        have hplace : 256 ^ (4 - parts.dropLast.length) ≤ 256 ^ 4 :=
          Nat.pow_le_pow_right (by decide) (Nat.sub_le ..)
        omega
    refine ⟨parts, mapM_eq_some.mpr ?_⟩
    rw [mapM_eq_some] at hparts
    have hback : List.Forall₂ (fun n part => n < 2 ^ 32 ∧ atonPart part = some n) parts (host.splitOn '.') :=
      (List.forall₂_and_left ..).mpr ⟨hwords, hparts.flip⟩
    exact (hback.imp fun n part h => atonWord_eq_some.mpr ⟨h.2, h.1⟩).flip

/-- The bits of a place are its bytes. -/
theorem lastBits_eq {k : Nat} (h : k ≤ 3) : 2 ^ (8 * (4 - min k 4)) = 256 ^ (4 - k) := by
  have hmin : min k 4 = k := by omega
  rw [hmin, Nat.pow_mul]

theorem place_full {leading : List Nat} {last : Nat} (hlen : leading.length ≤ 3) (h : ∀ n ∈ leading, n < 256)
    (hlast : last < 256 ^ (4 - leading.length)) :
    joined 256 leading * 256 ^ (4 - leading.length) + last < 2 ^ 32 := by
  calc joined 256 leading * 256 ^ (4 - leading.length) + last
      < (joined 256 leading + 1) * 256 ^ (4 - leading.length) := by
        rw [Nat.add_mul]
        omega
    _ ≤ 256 ^ leading.length * 256 ^ (4 - leading.length) := Nat.mul_le_mul_right _ (joined_lt h)
    _ = 256 ^ 4 := by
        rw [← Nat.pow_add]
        congr 1
        omega
    _ = 2 ^ 32 := by decide

theorem inetAton_eq (host : List Char) : (inetAton host : Checked ε _) = .ok (aton host) := by
  rw [inetAton, inetAtonParts_eq, Checked.ok_bind]
  cases hwords : (host.splitOn '.').mapM atonWord with
  | none =>
    cases haton : aton host with
    | none => rfl
    | some address =>
      obtain ⟨parts, hparts⟩ := aton_words haton
      rw [hwords] at hparts
      cases hparts
  | some parts =>
    have hparts : (host.splitOn '.').mapM atonPart = some parts := by
      rw [mapM_eq_some] at hwords ⊢
      exact hwords.imp fun part n h => (atonWord_eq_some.mp h).1
    have haton : aton host = parts.getLast?.bind fun last =>
        if 3 < parts.dropLast.length ∨ parts.dropLast.any (255 < ·) ∨ 256 ^ (4 - parts.dropLast.length) ≤ last then
          none
        else some (joined 256 parts.dropLast * 256 ^ (4 - parts.dropLast.length) + last) := by
      rw [aton, hparts]
      rfl
    rw [haton]
    dsimp only
    cases parts.getLast? with
    | none => rfl
    | some last =>
      dsimp only [Option.bind_some]
      by_cases hlen : parts.dropLast.length ≤ 3
      · rw [lastBits_eq hlen]
        by_cases hover : 3 < parts.dropLast.length ∨ parts.dropLast.any (255 < ·) ∨
            256 ^ (4 - parts.dropLast.length) ≤ last
        · rw [if_pos hover, if_pos hover]
          rfl
        · rw [if_neg hover, if_neg hover]
          rw [not_or, not_or, List.any_eq_true, not_exists] at hover
          have hsmall : ∀ n ∈ parts.dropLast, n < 256 := by
            intro n hn
            have hbyte := hover.2.1 n
            simp only [hn, decide_eq_true_eq, true_and] at hbyte
            omega
          exact congrArg Except.ok (if_pos (place_full hlen hsmall (by omega)))
      · have hmany : 3 < parts.dropLast.length := by omega
        rw [if_pos (.inl hmany), if_pos (.inl hmany)]
        rfl

theorem localKind_v4 (address : Nat) : (∃ kind, (IpAddr.v4 address).localKind = some kind) ↔ LocalV4 address := by
  unfold IpAddr.localKind LocalV4
  dsimp only
  split
  next h => exact ⟨fun _ => by omega, fun _ => ⟨_, rfl⟩⟩
  next h =>
    split
    next h' => exact ⟨fun _ => .inr (.inl h'), fun _ => ⟨_, rfl⟩⟩
    next h' =>
      split
      next h'' => exact ⟨fun _ => by omega, fun _ => ⟨_, rfl⟩⟩
      next h'' =>
        constructor
        · intro hkind
          obtain ⟨kind, hkind⟩ := hkind
          cases hkind
        · intro hlocal
          omega

theorem localKind_v6 (address : Nat) :
    (∃ kind, (IpAddr.v6 address).unmapped.localKind = some kind) ↔ LocalV6 address := by
  unfold IpAddr.unmapped
  dsimp only
  by_cases hmapped : address / 2 ^ 32 = 0xffff
  · rw [if_pos hmapped, localKind_v4]
    constructor
    · intro h
      exact .inr (.inr (.inr ⟨address % 2 ^ 32, Nat.mod_lt _ (by decide), h, by omega⟩))
    · intro h
      rcases h with h | h | h | ⟨inner, hinner, hlocal, haddress⟩
      · omega
      · omega
      · omega
      · have hsame : address % 2 ^ 32 = inner := by omega
        rwa [hsame]
  · rw [if_neg hmapped]
    have hunmapped : LocalV6 address ↔
        address = 1 ∨ address = 0 ∨ 0xfe80 * 2 ^ 112 ≤ address ∧ address < 0xfec0 * 2 ^ 112 := by
      constructor
      · intro h
        rcases h with h | h | h | ⟨inner, hinner, _, haddress⟩
        · exact .inl h
        · exact .inr (.inl h)
        · exact .inr (.inr h)
        · omega
      · intro h
        rcases h with h | h | h
        · exact .inl h
        · exact .inr (.inl h)
        · exact .inr (.inr (.inl h))
    rw [hunmapped]
    unfold IpAddr.localKind
    dsimp only
    split
    next h => exact ⟨fun _ => .inl h, fun _ => ⟨_, rfl⟩⟩
    next h =>
      split
      next h' => exact ⟨fun _ => .inr (.inl h'), fun _ => ⟨_, rfl⟩⟩
      next h' =>
        split
        next h'' => exact ⟨fun _ => by omega, fun _ => ⟨_, rfl⟩⟩
        next h'' =>
          constructor
          · intro hkind
            obtain ⟨kind, hkind⟩ := hkind
            cases hkind
          · intro hlocal
            omega

/-- A character that is neither a digit nor a separator is in no address. -/
theorem quad_not_mem {text : List Char} {address : Nat} {c : Char} (h : Quad text address)
    (hdigit : digit c = none) (hdot : c ≠ '.') : c ∉ text := by
  obtain ⟨texts, octets, hoctets, _, htext, _⟩ := h
  rw [htext]
  exact not_mem_intercalate hdot (left_of_forall₂ (R := Octet) (fun _ _ h => h.1.not_mem hdigit) hoctets)

theorem chunk_not_mem {texts : List (List Char)} {groups : List Nat} {c : Char} (h : Chunk texts groups)
    (hdigit : digit c = none) (hdot : c ≠ '.') : ∀ text ∈ texts, c ∉ text := by
  induction h with
  | group h =>
    intro text htext
    rw [List.mem_singleton.mp htext]
    exact h.1.not_mem hdigit
  | quad h =>
    intro text htext
    rw [List.mem_singleton.mp htext]
    exact quad_not_mem h hdigit hdot
  | cons h _ ih =>
    intro text htext
    cases List.mem_cons.mp htext with
    | inl heq =>
      rw [heq]
      exact h.1.not_mem hdigit
    | inr hrest => exact ih text hrest

theorem v6_not_mem {text : List Char} {address : Nat} {c : Char} (h : V6 text address) (hdigit : digit c = none)
    (hdot : c ≠ '.') (hcolon : c ≠ ':') : c ∉ text := by
  cases h with
  | full h _ => exact not_mem_intercalate hcolon (chunk_not_mem h hdigit hdot)
  | @short fronts backs front back hfront hback _ =>
    have hfronts := not_mem_intercalate hcolon
      (left_of_forall₂ (R := Group) (fun _ _ h => h.1.not_mem hdigit) hfront)
    have hbacks : c ∉ [':'].intercalate backs := by
      rcases hback with ⟨hbacks, _⟩ | hbacks
      · rw [hbacks]
        exact List.not_mem_nil
      · exact not_mem_intercalate hcolon (chunk_not_mem hbacks hdigit hdot)
    simp only [List.mem_append, not_or]
    refine ⟨⟨hfronts, ?_⟩, hbacks⟩
    intro hmem
    simp at hmem
    exact hcolon hmem

theorem chunk_length_le {texts : List (List Char)} {groups : List Nat} (h : Chunk texts groups) :
    groups.length ≤ texts.length + 1 := by
  induction h with
  | group => simp
  | quad => simp
  | cons _ _ ih =>
    rw [List.length_cons, List.length_cons]
    omega

theorem colon_mem_v6 {text : List Char} {address : Nat} (h : V6 text address) : ':' ∈ text := by
  cases h with
  | @full texts groups h hlen =>
    have hlength := chunk_length_le h
    cases texts with
    | nil => cases h
    | cons first rest =>
      cases rest with
      | nil =>
        rw [List.length_singleton] at hlength
        omega
      | cons second rest =>
        rw [List.intercalate_cons_cons]
        simp
  | short => simp

theorem aton_not_mem {text : List Char} {address : Nat} {c : Char} (h : Aton text address) (hdigit : digit c = none)
    (hdot : c ≠ '.') (hmark : c ≠ 'x' ∧ c ≠ 'X') : c ∉ text := by
  obtain ⟨texts, leading, last, hparts, _, _, _, htext, _⟩ := h
  rw [htext]
  exact not_mem_intercalate hdot
    (left_of_forall₂ (R := AtonPart) (fun _ _ h => h.not_mem hdigit hmark) hparts)

/-- What the literal of a host denotes. -/
theorem parseIp_v4 {text : List Char} {address : Nat} (h : Quad text address) :
    parseIp text = some (.v4 address) := by
  rw [parseIp, quad_eq_some.mpr h]
  rfl

theorem parseIp_v6 {text : List Char} {address : Nat} (h : V6 text address) :
    parseIp text = some (.v6 address) := by
  have hnone : quad text = none := by
    cases hquad : quad text with
    | none => rfl
    | some inner => exact absurd (colon_mem_v6 h) (quad_not_mem (quad_eq_some.mp hquad) rfl (by decide))
  rw [parseIp, hnone, v6_eq_some.mpr h]
  rfl

theorem parseIp_some {text : List Char} {found : IpAddr} (h : parseIp text = some found) :
    (∃ address, found = .v4 address ∧ Quad text address) ∨ ∃ address, found = .v6 address ∧ V6 text address := by
  unfold parseIp at h
  cases hquad : quad text with
  | some address =>
    rw [hquad] at h
    cases h
    exact .inl ⟨address, rfl, quad_eq_some.mp hquad⟩
  | none =>
    rw [hquad, Option.map_none, Option.none_or] at h
    obtain ⟨address, hv6, hfound⟩ := Option.map_eq_some_iff.mp h
    exact .inr ⟨address, hfound.symm, v6_eq_some.mp hv6⟩

/-- The literal before a zone. -/
def literalOf (host : List Char) : List Char := ((splitOnceText ['%'] host).map Prod.fst).getD host

theorem literalOf_zone {literal zone : List Char} (h : '%' ∉ literal) (hzone : zone = [] ∨ zone.head? = some '%') :
    literalOf (literal ++ zone) = literal := by
  unfold literalOf
  cases zone with
  | nil => rw [List.append_nil, splitOnceText_not_mem h, Option.map_none, Option.getD_none]
  | cons c zone =>
    have hc : c = '%' := by simpa using hzone
    rw [hc, splitOnceText_mem h]
    rfl

theorem literalOf_append (host : List Char) :
    ∃ zone, host = literalOf host ++ zone ∧ (zone = [] ∨ zone.head? = some '%') := by
  unfold literalOf
  cases hsplit : splitOnceText ['%'] host with
  | none => exact ⟨[], (List.append_nil _).symm, .inl rfl⟩
  | some parts =>
    have hparts := splitOnceText_some hsplit
    refine ⟨['%'] ++ parts.2, ?_, .inr rfl⟩
    rw [← List.append_assoc]
    exact hparts

/-- One mark at the end of a text is taken off. -/
theorem bare_iff {mark : Char} {text bare : List Char} :
    (text = bare ++ [mark] ∨ text = bare ∧ text.getLast? ≠ some mark) ↔
      bare = (stripEnd [mark] text).getD text := by
  unfold stripEnd
  by_cases hmark : [mark].isSuffixOf text = true
  · obtain ⟨front, hfront⟩ := List.isSuffixOf_iff_suffix.mp hmark
    rw [if_pos hmark, ← hfront]
    simp
    exact eq_comm
  · rw [if_neg hmark, Option.getD_none]
    have hlast : text.getLast? ≠ some mark := by
      intro hlast
      obtain ⟨front, hfront⟩ := List.getLast?_eq_some_iff.mp hlast
      exact hmark (List.isSuffixOf_iff_suffix.mpr ⟨front, hfront.symm⟩)
    constructor
    · intro h
      cases h with
      | inl h => exact absurd (List.isSuffixOf_iff_suffix.mpr ⟨bare, h.symm⟩) hmark
      | inr h => exact h.1.symm
    · intro h
      exact .inr ⟨h.symm, hlast⟩

theorem localName_iff {host : List Char} :
    LocalName host ↔ host.map Char.toLower = "localhost".toList ∨
      ".localhost".toList.isSuffixOf (host.map Char.toLower) = true := by
  rw [List.isSuffixOf_iff_suffix]
  constructor
  · intro h
    exact h.imp id fun ⟨front, hfront⟩ => ⟨front, hfront.symm⟩
  · intro h
    exact h.imp id fun ⟨front, hfront⟩ => ⟨front, hfront.symm⟩

/-- The address of a host that is no name: of its literal, or else in numeric form. -/
theorem localHost_address {host : List Char} (hname : ¬ LocalName host) :
    LocalHost host ↔ ∃ kind, ((parseIp (literalOf host)).elim
      ((aton host).bind fun address => (IpAddr.v4 address).localKind) fun found => found.unmapped.localKind) =
        some kind := by
  constructor
  · intro h
    cases h with
    | name h => exact absurd h hname
    | @v4 literal zone address h hlocal hzone =>
      rw [literalOf_zone (quad_not_mem h rfl (by decide)) hzone, parseIp_v4 h]
      exact (localKind_v4 address).mpr hlocal
    | @v6 literal zone address h hlocal hzone =>
      rw [literalOf_zone (v6_not_mem h rfl (by decide) (by decide)) hzone, parseIp_v6 h]
      exact (localKind_v6 address).mpr hlocal
    | @numeric _ address h hlocal =>
      have hplain := aton_not_mem h (c := '%') rfl (by decide) ⟨by decide, by decide⟩
      have hliteral : literalOf host = host := by
        rw [literalOf, splitOnceText_not_mem hplain]
        rfl
      have haton := aton_eq_some.mpr h
      rw [hliteral, haton]
      cases hfound : parseIp host with
      | none => exact (localKind_v4 address).mpr hlocal
      | some found =>
        rcases parseIp_some hfound with ⟨address', hv4, hquad⟩ | ⟨address', _, hv6⟩
        · have hsame : some address = some address' := by rw [← haton, aton_eq_some.mpr hquad.aton]
          cases hsame
          rw [hv4]
          exact (localKind_v4 address).mpr hlocal
        · exact absurd (colon_mem_v6 hv6) (aton_not_mem h rfl (by decide) ⟨by decide, by decide⟩)
  · intro h
    obtain ⟨kind, h⟩ := h
    cases hfound : parseIp (literalOf host) with
    | some found =>
      rw [hfound] at h
      obtain ⟨zone, hhost, hzone⟩ := literalOf_append host
      rw [hhost]
      rcases parseIp_some hfound with ⟨address, hv4, hquad⟩ | ⟨address, hv6, htext⟩
      · rw [hv4] at h
        exact LocalHost.v4 hquad ((localKind_v4 address).mp ⟨kind, h⟩) hzone
      · rw [hv6] at h
        exact LocalHost.v6 htext ((localKind_v6 address).mp ⟨kind, h⟩) hzone
    | none =>
      rw [hfound] at h
      obtain ⟨address, haton, hkind⟩ := Option.bind_eq_some_iff.mp h
      exact LocalHost.numeric (aton_eq_some.mp haton) ((localKind_v4 address).mp ⟨kind, hkind⟩)

theorem localOnlySshHost_iff (libs : Libraries) (host : List Char) :
    (∃ kind, (localOnlySshHost libs.withAddresses host : Checked ε _) = .ok (some kind)) ↔ LocalOnly host := by
  have hbare : LocalOnly host ↔ LocalHost ((stripEnd ['.'] host).getD host) := by
    constructor
    · intro h
      obtain ⟨bare, hhost, h⟩ := h
      rwa [bare_iff.mp hhost] at h
    · intro h
      exact ⟨_, bare_iff.mpr rfl, h⟩
  rw [hbare, localOnlySshHost]
  dsimp only
  by_cases hname : LocalName ((stripEnd ['.'] host).getD host)
  · rw [if_pos (localName_iff.mp hname)]
    exact ⟨fun _ => LocalHost.name hname, fun _ => ⟨_, rfl⟩⟩
  · rw [if_neg (fun h => hname (localName_iff.mpr h)), localHost_address hname]
    have hliteral : (Option.map Prod.fst (splitOnceText ['%'] ((stripEnd ['.'] host).getD host))).getD
      ((stripEnd ['.'] host).getD host) = literalOf ((stripEnd ['.'] host).getD host) := rfl
    have hparse : libs.withAddresses.parseIp = parseIp := rfl
    rw [hliteral, hparse, inetAton_eq]
    cases parseIp (literalOf ((stripEnd ['.'] host).getD host)) with
    | some found =>
      show (∃ kind, (Except.ok found.unmapped.localKind : Checked ε _) = .ok (some kind)) ↔ _
      simp
    | none =>
      show (∃ kind, (Except.ok _ : Checked ε _) = .ok (some kind)) ↔ _
      simp

end

end NixSecrets.Inventory
