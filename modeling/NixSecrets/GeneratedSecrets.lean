import Mathlib.Data.Nat.Count
import Mathlib.Data.Nat.Periodic
import NixSecrets.Outcome
import NixSecrets.SecretGenerator

namespace NixSecrets

/-- As many numbers as there are whole periods have a residue. -/
theorem card_residue {n i : Nat} (hi : i < n) (r q : Nat) :
    ((Finset.Ico r (r + n * q)).filter fun value => value % n = i).card = q := by
  induction q with
  | zero => simp
  | succ q ih =>
    have hperiodic : Function.Periodic (fun value => value % n = i) n := by
      intro value
      simp
    have hlast := Nat.filter_Ico_card_eq_of_periodic (r + n * q) n (fun value => value % n = i) hperiodic
    have hone : n.count (fun value => value % n = i) = 1 := by
      rw [Nat.count_eq_card_filter_range, Finset.card_eq_one]
      refine ⟨i, ?_⟩
      ext value
      simp only [Finset.mem_filter, Finset.mem_range, Finset.mem_singleton]
      constructor
      · intro h
        rw [← h.2, Nat.mod_eq_of_lt h.1]
      · intro h
        rw [h]
        exact ⟨hi, Nat.mod_eq_of_lt hi⟩
    have hsplit : Finset.Ico r (r + n * (q + 1)) =
        Finset.Ico r (r + n * q) ∪ Finset.Ico (r + n * q) (r + n * q + n) := by
      rw [Finset.Ico_union_Ico_eq_Ico (Nat.le_add_right _ _) (Nat.le_add_right _ _)]
      rw [Nat.mul_succ, Nat.add_assoc]
    have hdisjoint : Disjoint ((Finset.Ico r (r + n * q)).filter fun value => value % n = i)
        ((Finset.Ico (r + n * q) (r + n * q + n)).filter fun value => value % n = i) :=
      Finset.disjoint_filter_filter (Finset.Ico_disjoint_Ico_consecutive _ _ _)
    rw [hsplit, Finset.filter_union, Finset.card_union_of_disjoint hdisjoint, ih, hlast, hone]

namespace Generator

theorem threshold_eq {n : Nat} (hpos : 1 ≤ n) (hn : n < 2 ^ 64) :
    ∃ limit : UInt64, (threshold (UInt64.ofNat n) : Checked GeneratorError UInt64) = .ok limit ∧
      limit.toNat = 2 ^ 64 % n := by
  have hvalue : (UInt64.ofNat n).toNat = n := by
    rw [UInt64.toNat_ofNat', Nat.mod_eq_of_lt hn]
  have hne : UInt64.ofNat n ≠ 0 := by
    intro hzero
    have hzero := congrArg UInt64.toNat hzero
    rw [hvalue] at hzero
    have : (0 : UInt64).toNat = 0 := rfl
    omega
  refine ⟨_, if_neg hne, ?_⟩
  have hsize : UInt64.size = 2 ^ 64 := rfl
  have hsmall : 2 ^ 64 - n < 2 ^ 64 := by omega
  rw [UInt64.toNat_mod, UInt64.toNat_neg, hvalue, hsize, Nat.mod_eq_of_lt hsmall]
  exact (Nat.mod_eq_sub_mod (by omega)).symm

/-- The draws that a loop takes and maps to an index. -/
def drawsOf (bound limit : UInt64) (i : Nat) : Finset Nat :=
  (Finset.range (2 ^ 64)).filter fun value => (pick bound limit (UInt64.ofNat value)).map UInt64.toNat = some i

theorem drawsOf_eq {n : Nat} (hn : n < 2 ^ 64) (limit : UInt64) (i : Nat) :
    drawsOf (UInt64.ofNat n) limit i =
      (Finset.Ico limit.toNat (2 ^ 64)).filter fun value => value % n = i := by
  have hbound : (UInt64.ofNat n).toNat = n := by
    rw [UInt64.toNat_ofNat', Nat.mod_eq_of_lt hn]
  ext value
  unfold drawsOf pick
  simp only [Finset.mem_filter, Finset.mem_range, Finset.mem_Ico]
  constructor
  · intro h
    obtain ⟨hvalue, htaken⟩ := h
    have htoNat : (UInt64.ofNat value).toNat = value := by
      rw [UInt64.toNat_ofNat', Nat.mod_eq_of_lt hvalue]
    split at htaken
    next hlimit =>
      have hlimit := UInt64.le_iff_toNat_le.mp hlimit
      rw [Option.map_some, Option.some.injEq, UInt64.toNat_mod, htoNat, hbound] at htaken
      rw [htoNat] at hlimit
      exact ⟨⟨hlimit, hvalue⟩, htaken⟩
    next => cases htaken
  · intro h
    obtain ⟨⟨hlimit, hvalue⟩, hindex⟩ := h
    have htoNat : (UInt64.ofNat value).toNat = value := by
      rw [UInt64.toNat_ofNat', Nat.mod_eq_of_lt hvalue]
    have hlimit : limit ≤ UInt64.ofNat value := by
      rw [UInt64.le_iff_toNat_le, htoNat]
      exact hlimit
    rw [if_pos hlimit, Option.map_some, UInt64.toNat_mod, htoNat, hbound, hindex]
    exact ⟨hvalue, rfl⟩

/-- Every index is taken for equally many draws, more than half of all draws are taken. -/
theorem uniform_draws {n : Nat} (hpos : 1 ≤ n) (hn : n < 2 ^ 64) :
    ∃ limit : UInt64, (threshold (UInt64.ofNat n) : Checked GeneratorError UInt64) = .ok limit ∧
      (∀ i < n, (drawsOf (UInt64.ofNat n) limit i).card = (2 ^ 64 - limit.toNat) / n) ∧
      n ∣ 2 ^ 64 - limit.toNat ∧ 2 ^ 63 ≤ 2 ^ 64 - limit.toNat := by
  obtain ⟨limit, hthreshold, hlimit⟩ := threshold_eq hpos hn
  have hmod : 2 ^ 64 % n < n := Nat.mod_lt _ (by omega)
  have hdiv : 2 ^ 64 % n + n * (2 ^ 64 / n) = 2 ^ 64 := Nat.mod_add_div _ _
  have hrest : 2 ^ 64 - limit.toNat = n * (2 ^ 64 / n) := by
    rw [hlimit]
    omega
  have hquotient : 1 ≤ 2 ^ 64 / n := Nat.div_pos (by omega) (by omega)
  refine ⟨limit, hthreshold, ?_, Dvd.intro _ hrest.symm, ?_⟩
  · intro i hi
    rw [drawsOf_eq hn, hrest, Nat.mul_div_cancel_left _ (by omega), hlimit]
    have hcard := card_residue hi (2 ^ 64 % n) (2 ^ 64 / n)
    rw [hdiv] at hcard
    exact hcard
  · have hat : n ≤ n * (2 ^ 64 / n) := Nat.le_mul_of_pos_right n hquotient
    omega

section

variable {σ ε α β : Type}

/-- The draws do not panic, and a value they give satisfies this. -/
def Yields (m : Draw σ ε α) (Q : α → Prop) : Prop :=
  ∀ s, (m s).Answers ∧ ∀ a s', m s = .ok (a, s') → Q a

theorem Yields.pure {Q : α → Prop} {a : α} (h : Q a) : Yields (Pure.pure a : Draw σ ε α) Q := by
  intro s
  refine ⟨Checked.answers_ok _, ?_⟩
  intro b s' hb
  cases hb
  exact h

theorem Yields.bind {m : Draw σ ε α} {f : α → Draw σ ε β} {P : α → Prop} {Q : β → Prop} (hm : Yields m P)
    (hf : ∀ a, P a → Yields (f a) Q) : Yields (m >>= f) Q := by
  intro s
  obtain ⟨hanswers, hvalue⟩ := hm s
  have hrun : (m >>= f) s = (m s >>= fun r => f r.1 r.2) := rfl
  rw [hrun]
  cases hms : m s with
  | error stop =>
    rw [hms] at hanswers
    refine ⟨?_, ?_⟩
    · intro hpanic
      cases hpanic
      exact hanswers rfl
    · intro b s' hb
      cases hb
  | ok r =>
    exact hf r.1 (hvalue r.1 r.2 hms) r.2

theorem Yields.imp {m : Draw σ ε α} {P Q : α → Prop} (hm : Yields m P) (h : ∀ a, P a → Q a) : Yields m Q :=
  fun s => ⟨(hm s).1, fun a s' ha => h a ((hm s).2 a s' ha)⟩

theorem yields_check {x : Checked ε α} (hx : x.Answers) : Yields (check x : Draw σ ε α) fun a => x = .ok a := by
  intro s
  unfold check
  cases x with
  | ok a =>
    refine ⟨Checked.answers_ok _, ?_⟩
    intro b s' hb
    cases hb
    rfl
  | error stop =>
    cases stop with
    | panicked => exact absurd rfl hx
    | refused e =>
      refine ⟨Checked.answers_refuse _, ?_⟩
      intro b s' hb
      cases hb

theorem yields_refuseIf {c : Prop} [Decidable c] (e : ε) : Yields (refuseIf c e : Draw σ ε Unit) fun _ => ¬ c :=
  (yields_check (Checked.answers_refuseIf e)).imp fun _ h => Checked.refuseIf_ok h

theorem yields_orRefuse (e : ε) (x : Option α) : Yields (orRefuse e x : Draw σ ε α) fun a => x = some a :=
  (yields_check (Checked.answers_orRefuse e x)).imp fun _ h => Checked.orRefuse_ok h

theorem Yields.mapError {ε' : Type} {m : Draw σ ε α} {Q : α → Prop} (hm : Yields m Q) (f : ε → ε') :
    Yields (Generator.mapError f m) Q := by
  intro s
  obtain ⟨hanswers, hvalue⟩ := hm s
  refine ⟨Checked.answers_mapRefusal.mpr hanswers, ?_⟩
  intro a s' h
  exact hvalue a s' (Checked.mapRefusal_ok h)

variable (random : RandomSource σ) (rounds : Nat)

theorem yields_fill (length : Nat) : Yields (fill random length) fun bytes => bytes.length = length := by
  intro s
  unfold fill
  cases random.fill length s with
  | ok r =>
    refine ⟨Checked.answers_ok _, ?_⟩
    intro bytes s' h
    cases h
    exact r.1.2
  | error e =>
    refine ⟨Checked.answers_refuse _, ?_⟩
    intro bytes s' h
    cases h

theorem yields_drawIndex {bound : UInt64} (hbound : 0 < bound.toNat) (limit : UInt64) :
    Yields (drawIndex random bound limit rounds) fun index => index < bound.toNat := by
  induction rounds with
  | zero =>
    intro s
    refine ⟨Checked.answers_refuse _, ?_⟩
    intro index s' h
    cases h
  | succ rounds ih =>
    rw [drawIndex]
    refine (yields_fill random 8).bind fun bytes _ => ?_
    unfold pick
    split
    next index hpick =>
      split at hpick
      next =>
        cases hpick
        apply Yields.pure
        rw [UInt64.toNat_mod]
        exact Nat.mod_lt _ hbound
      next => cases hpick
    next => exact ih

/-- The index is within the bound, whatever is drawn. -/
theorem yields_uniformIndex {bound : Nat} (hbound : bound ≠ 0) :
    Yields (uniformIndex random rounds bound) fun index => index < bound := by
  unfold uniformIndex
  refine (yields_refuseIf _).bind fun _ hsmall => ?_
  have hsmall : bound < 2 ^ 64 := by omega
  have hvalue : (UInt64.ofNat bound).toNat = bound := by
    rw [UInt64.toNat_ofNat', Nat.mod_eq_of_lt hsmall]
  obtain ⟨limit, hthreshold, _⟩ := threshold_eq (by omega) hsmall
  have hanswers : (threshold (UInt64.ofNat bound) : Checked GeneratorError UInt64).Answers := by
    rw [hthreshold]
    exact Checked.answers_ok _
  refine (yields_check hanswers).bind fun limit' _ => ?_
  have hpositive : 0 < (UInt64.ofNat bound).toNat := by omega
  have hindex := yields_drawIndex random rounds hpositive limit'
  rwa [hvalue] at hindex

end

theorem utf8Length_ascii {text : List Char} (h : ∀ c ∈ text, c.utf8Size = 1) : utf8Length text = text.length := by
  rw [utf8Length, List.map_congr_left h]
  simp

theorem utf8Size_base64Char (n : Nat) : (base64Char n).utf8Size = 1 := by
  have hsmall : ∀ n < 64, (base64Char n).utf8Size = 1 := by decide
  by_cases hn : n < 64
  · exact hsmall n hn
  · have hlast : base64Char n = '/' := by
      rw [base64Char, if_neg (by omega), if_neg (by omega), if_neg (by omega), if_neg (by omega)]
    rw [hlast]
    decide

theorem utf8Size_base64Encode (raw : List UInt8) : ∀ c ∈ base64Encode raw, c.utf8Size = 1 := by
  have hpad : '='.utf8Size = 1 := by decide
  fun_induction base64Encode raw with
  | case1 => simp
  | case2 | case3 => simp [utf8Size_base64Char, hpad]
  | case4 a b c rest ih => simpa [utf8Size_base64Char] using ih

theorem utf8Size_urlSafe {c : Char} (h : c.utf8Size = 1) : (urlSafe c).utf8Size = 1 := by
  unfold urlSafe
  split
  next => decide
  next =>
    split
    next => decide
    next => exact h

theorem base64EncodeNoPad_length (raw : List UInt8) :
    (base64EncodeNoPad raw).length = (4 * raw.length + 2) / 3 := by
  unfold base64EncodeNoPad
  fun_induction base64Encode raw with
  | case1 => rfl
  | case2 a =>
    have ha := a.toNat_lt
    have hfirst : base64Char (a.toNat / 4) ≠ '=' := base64Char_ne_pad (by omega)
    have hsecond : base64Char (a.toNat % 4 * 16) ≠ '=' := base64Char_ne_pad (by omega)
    simp [hfirst, hsecond]
  | case3 a b =>
    have ha := a.toNat_lt
    have hb := b.toNat_lt
    have hfirst : base64Char (a.toNat / 4) ≠ '=' := base64Char_ne_pad (by omega)
    have hsecond : base64Char (a.toNat % 4 * 16 + b.toNat / 16) ≠ '=' := base64Char_ne_pad (by omega)
    have hthird : base64Char (b.toNat % 16 * 4) ≠ '=' := base64Char_ne_pad (by omega)
    simp [hfirst, hsecond, hthird]
  | case4 a b c rest ih =>
    have ha := a.toNat_lt
    have hb := b.toNat_lt
    have hc := c.toNat_lt
    have hfirst : base64Char (a.toNat / 4) ≠ '=' := base64Char_ne_pad (by omega)
    have hsecond : base64Char (a.toNat % 4 * 16 + b.toNat / 16) ≠ '=' := base64Char_ne_pad (by omega)
    have hthird : base64Char (b.toNat % 16 * 4 + c.toNat / 64) ≠ '=' := base64Char_ne_pad (by omega)
    have hfourth : base64Char (c.toNat % 64) ≠ '=' := base64Char_ne_pad (by omega)
    rw [List.filter_cons_of_pos (by simpa using hfirst), List.filter_cons_of_pos (by simpa using hsecond),
      List.filter_cons_of_pos (by simpa using hthird), List.filter_cons_of_pos (by simpa using hfourth)]
    simp only [List.length_cons, ih]
    omega

theorem hexLower_length (raw : List UInt8) : (hexLower raw).length = 2 * raw.length := by
  have hdigit : ∀ n < 16, (Nat.digitChar n).utf8Size = 1 := by decide
  rw [hexLower, length_utf8Bytes, utf8Length_ascii]
  · induction raw with
    | nil => rfl
    | cons byte raw ih =>
      rw [List.flatMap_cons, List.length_append, ih, List.length_cons]
      simp only [List.length_cons, List.length_nil]
      omega
  · intro c hc
    obtain ⟨byte, _, hc⟩ := List.mem_flatMap.mp hc
    have hbyte := byte.toNat_lt
    simp only [List.mem_cons, List.not_mem_nil, or_false] at hc
    rcases hc with hc | hc
    · rw [hc]
      exact hdigit _ (by omega)
    · rw [hc]
      exact hdigit _ (by omega)

/-- The length that each encoder writes. -/
theorem engine_length (encoding : ByteEncoding) (raw : List UInt8) :
    (engine encoding raw).length = match encoding with
      | .raw => raw.length
      | .hexLower => 2 * raw.length
      | .base64 => (raw.length + 2) / 3 * 4
      | .base64UrlUnpadded => (4 * raw.length + 2) / 3 := by
  cases encoding with
  | raw => rfl
  | hexLower => exact hexLower_length raw
  | base64 =>
    show (utf8Bytes (base64Encode raw)).length = _
    rw [length_utf8Bytes, utf8Length_ascii (utf8Size_base64Encode raw), base64Encode_length, base64Size, Nat.mul_comm]
  | base64UrlUnpadded =>
    have hsize : ∀ c ∈ (base64EncodeNoPad raw).map urlSafe, c.utf8Size = 1 := by
      intro c hc
      obtain ⟨d, hd, hc⟩ := List.mem_map.mp hc
      rw [← hc]
      exact utf8Size_urlSafe (utf8Size_base64Encode raw d (List.mem_filter.mp hd).1)
    show (utf8Bytes ((base64EncodeNoPad raw).map urlSafe)).length = _
    rw [length_utf8Bytes, utf8Length_ascii hsize, List.length_map, base64EncodeNoPad_length]

/-- The products and sums of the formula fit its integers. -/
def Fits (length : Nat) : ByteEncoding → Prop
  | .raw => True
  | .hexLower => length * 2 < 2 ^ 64
  | .base64 => length + 2 < 2 ^ 64 ∧ (length + 2) / 3 * 4 < 2 ^ 64
  | .base64UrlUnpadded => length * 4 + 2 < 2 ^ 64

/-- The formula gives the length that the encoder writes, or is refused where it does not fit. -/
theorem encodedLength_eq (encoding : ByteEncoding) (raw : List UInt8) :
    (Fits raw.length encoding → encodedLength raw.length encoding = .ok (engine encoding raw).length) ∧
      (¬ Fits raw.length encoding →
        encodedLength raw.length encoding = Checked.refuse (.limit "encoded output")) := by
  rw [engine_length]
  unfold encodedLength Fits checkedMul checkedAdd
  cases encoding with
  | raw =>
    constructor
    · intro _
      rfl
    · intro h
      exact absurd trivial h
  | hexLower =>
    constructor
    · intro h
      dsimp only
      rw [if_pos h, Nat.mul_comm]
      rfl
    · intro h
      dsimp only
      rw [if_neg h]
      rfl
  | base64 =>
    constructor
    · intro h
      dsimp only
      rw [if_pos h.1, Option.bind_some, if_pos h.2]
      rfl
    · intro h
      dsimp only
      by_cases hsum : raw.length + 2 < 2 ^ 64
      · rw [if_pos hsum, Option.bind_some, if_neg fun hproduct => h ⟨hsum, hproduct⟩]
        rfl
      · rw [if_neg hsum]
        rfl
  | base64UrlUnpadded =>
    constructor
    · intro h
      have hproduct : raw.length * 4 < 2 ^ 64 := Nat.lt_of_le_of_lt (Nat.le_add_right _ 2) h
      dsimp only
      rw [if_pos hproduct, Option.bind_some, if_pos h, Nat.mul_comm]
      rfl
    · intro h
      dsimp only
      by_cases hproduct : raw.length * 4 < 2 ^ 64
      · rw [if_pos hproduct, Option.bind_some, if_neg h]
        rfl
      · rw [if_neg hproduct]
        rfl

theorem encodedLength_answers (length : Nat) (encoding : ByteEncoding) : (encodedLength length encoding).Answers :=
  Checked.answers_orRefuse _ _

section

variable {σ : Type} (random : RandomSource σ) (rounds : Nat)

theorem yields_index {α : Type} {xs : List α} {i : Nat} (h : i < xs.length) :
    Yields (check (Checked.index xs i) : Draw σ GeneratorError α) fun x => x ∈ xs := by
  refine (yields_check (Checked.answers_index.mpr h)).imp fun x hx => ?_
  exact List.mem_of_getElem? (Checked.orPanic_ok hx)

theorem yields_passwordChars {characters : List Char} (hne : characters.length ≠ 0) (length : Nat) :
    Yields (passwordChars random rounds characters length) fun value =>
      ∃ text : List Char, text.length = length ∧ (∀ c ∈ text, c ∈ characters) ∧ value = utf8Bytes text := by
  induction length with
  | zero =>
    apply Yields.pure
    exact ⟨[], rfl, nofun, rfl⟩
  | succ length ih =>
    rw [passwordChars]
    refine (yields_uniformIndex random rounds hne).bind fun index hindex => ?_
    refine (yields_index hindex).bind fun c hc => ih.bind fun output houtput => ?_
    obtain ⟨text, hlength, hall, hbytes⟩ := houtput
    apply Yields.pure
    refine ⟨c :: text, by rw [List.length_cons, hlength], ?_, ?_⟩
    · intro d hd
      rcases List.mem_cons.mp hd with hd | hd
      · rw [hd]
        exact hc
      · exact hall d hd
    · rw [hbytes, utf8Bytes_flatMap, utf8Bytes_flatMap, utf8Bytes_flatMap]
      simp

theorem yields_password (length : Nat) (alphabet : String) :
    Yields (password random rounds length alphabet) fun value =>
      ∃ text : List Char, text.length = length ∧ (∀ c ∈ text, c ∈ alphabet.toList) ∧ value = utf8Bytes text := by
  unfold password requireNonzero requireOutputBound
  refine (yields_refuseIf _).bind fun _ _ => (yields_refuseIf _).bind fun _ hne => ?_
  refine (yields_refuseIf _).bind fun _ _ => (yields_refuseIf _).bind fun _ _ => ?_
  refine (yields_orRefuse _ _).bind fun _ _ => (yields_refuseIf _).bind fun _ _ => ?_
  exact yields_passwordChars random rounds hne length

theorem yields_passphraseWords {separator : String} {words : List String} (hne : words.length ≠ 0)
    (position count : Nat) :
    Yields (passphraseWords random rounds separator words position count) fun value =>
      ∃ text : List Char, value = utf8Bytes text := by
  induction count generalizing position with
  | zero =>
    apply Yields.pure
    exact ⟨[], rfl⟩
  | succ count ih =>
    rw [passphraseWords]
    refine (yields_uniformIndex random rounds hne).bind fun index hindex => ?_
    refine (yields_index hindex).bind fun word _ => (ih (position + 1)).bind fun output houtput => ?_
    obtain ⟨text, htext⟩ := houtput
    apply Yields.pure
    by_cases hposition : position ≠ 0
    · refine ⟨separator.toList ++ word.toList ++ text, ?_⟩
      rw [if_pos hposition, htext]
      simp only [utf8Bytes_flatMap, List.flatMap_append]
    · refine ⟨word.toList ++ text, ?_⟩
      rw [if_neg hposition, htext, List.nil_append]
      simp only [utf8Bytes_flatMap, List.flatMap_append]

theorem yields_passphrase (count : Nat) (separator : String) (words : List String) :
    Yields (passphrase random rounds count separator words) fun value => ∃ text : List Char, value = utf8Bytes text := by
  unfold passphrase requireNonzero requireOutputBound
  refine (yields_refuseIf _).bind fun _ _ => (yields_refuseIf _).bind fun _ hne => ?_
  refine (yields_refuseIf _).bind fun _ _ => (yields_refuseIf _).bind fun _ _ => ?_
  refine (yields_refuseIf _).bind fun _ _ => (yields_orRefuse _ _).bind fun _ _ => ?_
  refine (yields_refuseIf _).bind fun _ _ => ?_
  exact yields_passphraseWords random rounds hne 0 count

/-- The encoder is given a slice of exactly the length it writes. -/
theorem encodeBase64_ok {length outputLength : Nat} {encoding : ByteEncoding} {raw : List UInt8}
    (hraw : raw.length = length) (hlength : encodedLength length encoding = .ok outputLength) :
    encodeBase64 raw outputLength encoding = .ok (engine encoding raw) := by
  rw [← hraw] at hlength
  have heq := encodedLength_eq encoding raw
  have hwritten : outputLength = (engine encoding raw).length := by
    by_cases hfits : Fits raw.length encoding
    · rw [heq.1 hfits] at hlength
      cases hlength
      rfl
    · rw [heq.2 hfits] at hlength
      cases hlength
  rw [encodeBase64, if_pos (Nat.le_of_eq hwritten.symm)]

theorem yields_fixedBytes (length : Nat) (encoding : ByteEncoding) :
    Yields (fixedBytes random length encoding) fun value =>
      ∃ raw : List UInt8, raw.length = length ∧ value = engine encoding raw := by
  unfold fixedBytes requireNonzero requireOutputBound
  refine (yields_refuseIf _).bind fun _ _ => ?_
  refine (yields_check (encodedLength_answers length encoding)).bind fun outputLength hlength => ?_
  refine (yields_refuseIf _).bind fun _ _ => (yields_fill random length).bind fun raw hraw => ?_
  cases encoding with
  | raw => exact Yields.pure ⟨raw, hraw, rfl⟩
  | hexLower => exact Yields.pure ⟨raw, hraw, rfl⟩
  | base64 =>
    dsimp only
    rw [encodeBase64_ok hraw hlength]
    exact (yields_check (Checked.answers_ok _)).imp fun value hvalue => ⟨raw, hraw, by cases hvalue; rfl⟩
  | base64UrlUnpadded =>
    dsimp only
    rw [encodeBase64_ok hraw hlength]
    exact (yields_check (Checked.answers_ok _)).imp fun value hvalue => ⟨raw, hraw, by cases hvalue; rfl⟩

theorem yields_generateWith (options : GeneratorOptions) :
    Yields (generateWith random rounds options) fun _ => True := by
  cases options with
  | password length alphabet => exact (yields_password random rounds length alphabet).imp fun _ _ => trivial
  | passphrase words separator wordList =>
    exact (yields_passphrase random rounds words separator wordList).imp fun _ _ => trivial
  | bytes length encoding => exact (yields_fixedBytes random length encoding).imp fun _ _ => trivial

end

end Generator

namespace Inventory

open Generator

theorem checkAffix_answers (affix : String) : (ValueGenerator.checkAffix affix).Answers :=
  Checked.answers_refuseIf _

theorem ValueGenerator.validateDefinition_answers (generator : ValueGenerator) :
    generator.validateDefinition.Answers := by
  cases generator with
  | randomBytes bytes encoding front suffix =>
    apply Checked.answers_seq (Checked.answers_refuseIf _)
    intro _
    exact Checked.answers_each fun affix _ => checkAffix_answers affix

theorem passwordLength_answers (constraints : Option ConsumerConstraints) : (passwordLength constraints).Answers :=
  Checked.answers_seq (Checked.answers_refuseIf _) fun _ => Checked.answers_ok _

/-- Accepted bytes are a text within the limits that the consumer accepts. -/
theorem accepted_some {libs : RegexLibrary} {constraints : ConsumerConstraints} {value : List UInt8}
    (h : accepted libs (some constraints) value = true) :
    ∃ text, utf8Text value = some text ∧ constraints.accepts libs text = .ok () ∧
      constraints.cannotHandleShorterThan.getD 0 ≤ text.length ∧
      text.length ≤ constraints.cannotHandleLongerThan.getD (2 ^ 64 - 1) := by
  unfold accepted at h
  cases htext : utf8Text value with
  | none =>
    rw [htext] at h
    cases h
  | some text =>
    rw [htext] at h
    dsimp only at h
    cases haccepts : constraints.accepts libs text with
    | error stop =>
      rw [haccepts] at h
      cases h
    | ok _ =>
      have hsteps := haccepts
      unfold ConsumerConstraints.accepts at hsteps
      obtain ⟨_, hshort, hsteps⟩ := Checked.bind_ok hsteps
      obtain ⟨_, hlong, _⟩ := Checked.bind_ok hsteps
      have hshort := Checked.refuseIf_ok hshort
      have hlong := Checked.refuseIf_ok hlong
      exact ⟨text, rfl, haccepts, Nat.le_of_not_lt hshort, Nat.le_of_not_lt hlong⟩

section

variable {σ : Type} (libs : RegexLibrary) (random : RandomSource σ) (rounds : Nat)

theorem yields_tryOptions {accept : List UInt8 → Option (List UInt8)} (options : List GeneratorOptions) :
    Yields (tryOptions random rounds accept options) fun made =>
      ∀ value, made = some value → ∃ candidate, accept candidate = some value := by
  induction options with
  | nil =>
    apply Yields.pure
    intro value h
    cases h
  | cons first rest ih =>
    rw [tryOptions]
    refine ((yields_generateWith random rounds first).mapError _).bind fun candidate _ => ?_
    cases haccept : accept candidate with
    | some value =>
      apply Yields.pure
      intro value' h
      cases h
      exact ⟨candidate, haccept⟩
    | none => exact ih

theorem yields_password (constraints : Option ConsumerConstraints) :
    Yields (Inventory.password libs random rounds constraints) fun value => accepted libs constraints value = true := by
  unfold Inventory.password
  refine (yields_check (passwordLength_answers constraints)).bind fun length _ => ?_
  refine (yields_tryOptions random rounds _).bind fun made hmade => (yields_orRefuse _ _).imp fun value hvalue => ?_
  obtain ⟨candidate, hcandidate⟩ := hmade value hvalue
  split at hcandidate
  next haccepted =>
    cases hcandidate
    exact haccepted
  next => cases hcandidate

theorem candidates_answers (words : List String) (kind : GenerateKind) (constraints : Option ConsumerConstraints) :
    (candidates words kind constraints).Answers := by
  cases kind with
  | password => exact Checked.answers_seq (passwordLength_answers constraints) fun _ => Checked.answers_ok _
  | passphrase => exact Checked.answers_ok _

theorem yields_generateCompatible (words : List String) (kind : GenerateKind)
    (constraints : Option ConsumerConstraints) :
    Yields (generateCompatible libs random rounds words kind constraints) fun value =>
      accepted libs constraints value = true := by
  unfold generateCompatible
  refine (yields_check (candidates_answers words kind constraints)).bind fun options _ => ?_
  refine (yields_tryOptions random rounds _).bind fun made hmade => (yields_orRefuse _ _).imp fun value hvalue => ?_
  obtain ⟨candidate, hcandidate⟩ := hmade value hvalue
  exact List.find?_some hcandidate

/-- A declared value is the two texts around an encoding of as many bytes as are declared. -/
def DeployGenerator.Conforms (libs : RegexLibrary) : DeployGenerator → List UInt8 → Prop
  | .password constraints, value => accepted libs constraints value = true
  | .declared (.randomBytes bytes encoding front suffix), value => ∃ raw : List UInt8, raw.length = bytes ∧
      value = utf8Bytes front.toList ++ engine encoding.byteEncoding raw ++ utf8Bytes suffix.toList

theorem yields_deployGenerator (generator : DeployGenerator) :
    Yields (generator.generateWith libs random rounds) (generator.Conforms libs) := by
  cases generator with
  | password constraints => exact yields_password libs random rounds constraints
  | declared generator =>
    cases generator with
    | randomBytes bytes encoding front suffix =>
      unfold DeployGenerator.generateWith
      refine (yields_check (ValueGenerator.validateDefinition_answers _)).bind fun _ _ => ?_
      refine ((yields_fixedBytes random bytes encoding.byteEncoding).mapError _).bind fun encoded hencoded => ?_
      obtain ⟨raw, hraw, hbytes⟩ := hencoded
      apply Yields.pure
      exact ⟨raw, hraw, by rw [hbytes]⟩

end

end Inventory

open Generator Inventory in
/-- Indices are drawn without bias, generated values are accepted by their consumer, and the computed lengths
are those the encoders write wherever their formulas fit. -/
theorem generated_secrets_conform :
    (∀ n, 1 ≤ n → n < 2 ^ 64 → ∃ limit : UInt64,
      (threshold (UInt64.ofNat n) : Checked GeneratorError UInt64) = .ok limit ∧
      (∀ i < n, (drawsOf (UInt64.ofNat n) limit i).card = (2 ^ 64 - limit.toNat) / n) ∧
      n ∣ 2 ^ 64 - limit.toNat ∧ 2 ^ 63 ≤ 2 ^ 64 - limit.toNat) ∧
    (∀ (σ : Type) (libs : RegexLibrary) (random : RandomSource σ) (rounds : Nat) (words : List String)
      (constraints : ConsumerConstraints) (s s' : σ) (value : List UInt8),
      ((∃ kind, generateCompatible libs random rounds words kind (some constraints) s = .ok (value, s')) ∨
        (DeployGenerator.password (some constraints)).generateWith libs random rounds s = .ok (value, s')) →
      ∃ text, utf8Text value = some text ∧ constraints.accepts libs text = .ok () ∧
        constraints.cannotHandleShorterThan.getD 0 ≤ text.length ∧
        text.length ≤ constraints.cannotHandleLongerThan.getD (2 ^ 64 - 1)) ∧
    (∀ (σ : Type) (libs : RegexLibrary) (random : RandomSource σ) (rounds : Nat) (words : List String)
      (constraints : Option ConsumerConstraints) (s : σ),
      (∀ kind, (generateCompatible libs random rounds words kind constraints s).Answers) ∧
      ∀ generator : DeployGenerator, (generator.generateWith libs random rounds s).Answers ∧
        ∀ value s', generator.generateWith libs random rounds s = .ok (value, s') → generator.Conforms libs value) ∧
    ∀ (encoding : ByteEncoding) (raw : List UInt8),
      (Fits raw.length encoding → encodedLength raw.length encoding = .ok (engine encoding raw).length) ∧
      (¬ Fits raw.length encoding →
        encodedLength raw.length encoding = Checked.refuse (.limit "encoded output")) := by
  refine ⟨fun n hpos hn => uniform_draws hpos hn, ?_, ?_, encodedLength_eq⟩
  · intro σ libs random rounds words constraints s s' value h
    apply accepted_some
    rcases h with ⟨kind, h⟩ | h
    · exact (yields_generateCompatible libs random rounds words kind (some constraints) s).2 value s' h
    · exact (yields_deployGenerator libs random rounds (.password (some constraints)) s).2 value s' h
  · intro σ libs random rounds words constraints s
    refine ⟨fun kind => (yields_generateCompatible libs random rounds words kind constraints s).1, ?_⟩
    intro generator
    exact yields_deployGenerator libs random rounds generator s

open Generator in
/-- The checked product overflows although the length of the encoding still fits. -/
theorem length_refused_early :
    encodedLength (2 ^ 62) .base64UrlUnpadded = Checked.refuse (.limit "encoded output") ∧
      ∀ raw : List UInt8, raw.length = 2 ^ 62 → (engine .base64UrlUnpadded raw).length < 2 ^ 64 := by
  refine ⟨by decide, ?_⟩
  intro raw hraw
  have hlength := engine_length .base64UrlUnpadded raw
  dsimp only at hlength
  omega

end NixSecrets
