import NixSecrets.ProcedureText

namespace NixSecrets

def maxConfirmationItems : Nat := 1000
def maxConfirmationItemBytes : Nat := 1024

/-- A risky step that the operator is asked to confirm. -/
@[ext]
structure Confirmation where
  label : String
  reason : String
  items : List String := []
  deriving DecidableEq, Repr

def Confirmation.cleaned (label reason : String) (items : List String) : Except String Confirmation :=
  let label := cleanText label maxLabelBytes
  if label = "" then .error "a confirmation needs a label"
  else if maxConfirmationItems < items.length then
    .error ("a confirmation lists at most " ++ toString maxConfirmationItems ++ " items")
  else
    let reason := cleanText reason maxReasonBytes
    .ok {
      label
      reason := if reason = "" then "no reason given" else reason
      items := (items.map (cleanText · maxConfirmationItemBytes)).filter (· ≠ "") }

/-- What `validate` asks of one text. -/
def Admitted (maxBytes : Nat) (text : String) : Prop := Bounded maxBytes text ∧ ¬ text.toList.any isControl

instance (maxBytes : Nat) (text : String) : Decidable (Admitted maxBytes text) :=
  inferInstanceAs (Decidable (_ ∧ _))

def Confirmation.validate (c : Confirmation) : Except String Unit :=
  if ¬ Admitted maxLabelBytes c.label ∨ ¬ Admitted maxReasonBytes c.reason ∨ maxConfirmationItems < c.items.length ∨
      ¬ ∀ item ∈ c.items, Admitted maxConfirmationItemBytes item then .error "the confirmation is malformed"
  else .ok ()

/-- What is shown for a character. -/
def shownChar (c : Char) : Char := if isControl c || isBidiControl c then ' ' else c

/-- No control character and no bidirectional control. -/
def Plain (text : List Char) : Prop := ∀ c ∈ text, isControl c = false ∧ isBidiControl c = false

instance (text : List Char) : Decidable (Plain text) :=
  inferInstanceAs (Decidable (∀ c ∈ text, isControl c = false ∧ isBidiControl c = false))

theorem shownChar_plain (c : Char) : isControl (shownChar c) = false ∧ isBidiControl (shownChar c) = false := by
  unfold shownChar
  split
  next => decide
  next hplain =>
    simp only [Bool.or_eq_true, not_or, Bool.not_eq_true] at hplain
    exact hplain

theorem shownChar_of_plain {c : Char} (h : isControl c = false ∧ isBidiControl c = false) : shownChar c = c := by
  unfold shownChar
  rw [h.1, h.2]
  rfl

theorem cleanChars_cons (room : Nat) (c : Char) (text : List Char) : cleanChars room (c :: text) =
    if room < (shownChar c).utf8Size then [] else shownChar c :: cleanChars (room - (shownChar c).utf8Size) text :=
  rfl

/-- The text is cut between two characters. -/
theorem cleanChars_front (room : Nat) (text : List Char) : cleanChars room text <+: text.map shownChar := by
  induction text generalizing room with
  | nil => exact List.prefix_rfl
  | cons c text ih =>
    rw [cleanChars_cons, List.map_cons]
    split
    next => exact List.nil_prefix
    next => exact List.cons_prefix_cons.mpr ⟨rfl, ih _⟩

theorem cleanChars_plain {room : Nat} {text : List Char} (hplain : Plain text) (hroom : utf8Length text ≤ room) :
    cleanChars room text = text := by
  induction text generalizing room with
  | nil => rfl
  | cons c text ih =>
    have hlength : utf8Length (c :: text) = c.utf8Size + utf8Length text := rfl
    have hc := shownChar_of_plain (hplain c List.mem_cons_self)
    rw [cleanChars_cons, hc, if_neg (by omega), ih (fun d hd => hplain d (List.mem_cons_of_mem c hd)) (by omega)]

theorem dropWhile_ne_head {p : Char → Bool} {text : List Char} (h : ∀ c, text.head? = some c → p c = false) :
    text.dropWhile p = text := by
  cases text with
  | nil => rfl
  | cons c rest => rw [List.dropWhile_cons, h c rfl]; rfl

theorem dropWhile_head {p : Char → Bool} {text : List Char} {c : Char} (h : (text.dropWhile p).head? = some c) :
    p c = false := by
  have hnot := List.head?_dropWhile_not p text
  rw [h] at hnot
  simpa using hnot

theorem trim_within (text : List Char) : trim text <:+: text := by
  have hfirst : text.dropWhile isWhitespace <:+ text := List.dropWhile_suffix isWhitespace
  have hlast : (text.dropWhile isWhitespace).reverse.dropWhile isWhitespace <:+
      (text.dropWhile isWhitespace).reverse := List.dropWhile_suffix isWhitespace
  have hfront : trim text <+: text.dropWhile isWhitespace := by
    rw [← List.reverse_suffix, trim, List.reverse_reverse]
    exact hlast
  exact hfront.isInfix.trans hfirst.isInfix

/-- A trimmed text starts and ends with no blank. -/
theorem trim_trim (text : List Char) : trim (trim text) = trim text := by
  have hlast : (trim text).reverse.dropWhile isWhitespace = (trim text).reverse := by
    apply dropWhile_ne_head
    intro c hc
    unfold trim at hc
    rw [List.reverse_reverse] at hc
    exact dropWhile_head hc
  have hfirst : (trim text).dropWhile isWhitespace = trim text := by
    apply dropWhile_ne_head
    intro c hc
    have hfront : trim text <+: text.dropWhile isWhitespace := by
      rw [← List.reverse_suffix, trim, List.reverse_reverse]
      exact List.dropWhile_suffix isWhitespace
    obtain ⟨rest, hrest⟩ := hfront
    apply @dropWhile_head _ text
    rw [← hrest, List.head?_append, hc]
    rfl
  rw [trim, hfirst, hlast, List.reverse_reverse]

theorem cleanText_toList (text : String) (maxBytes : Nat) :
    (cleanText text maxBytes).toList = trim (cleanChars maxBytes text.toList) := by
  rw [cleanText, String.toList_ofList]

theorem cleanText_within (text : String) (maxBytes : Nat) :
    (cleanText text maxBytes).toList <:+: text.toList.map shownChar := by
  rw [cleanText_toList]
  exact (trim_within _).trans (cleanChars_front maxBytes text.toList).isInfix

theorem cleanText_plain (text : String) (maxBytes : Nat) : Plain (cleanText text maxBytes).toList := by
  intro c hc
  obtain ⟨d, -, rfl⟩ := List.mem_map.mp ((cleanText_within text maxBytes).subset hc)
  exact shownChar_plain d

/-- The texts that cleaning leaves alone. -/
theorem cleanText_fixed (text : String) (maxBytes : Nat) : cleanText text maxBytes = text ↔
    text.utf8ByteSize ≤ maxBytes ∧ Plain text.toList ∧ trim text.toList = text.toList := by
  have hsize : text.utf8ByteSize = utf8Length text.toList := by
    rw [← utf8ByteSize_text, String.ofList_toList]
  constructor
  · intro h
    have hlength := cleanText_length text maxBytes
    have hplain := cleanText_plain text maxBytes
    have htrim := cleanText_toList text maxBytes
    rw [h] at hlength hplain htrim
    refine ⟨hlength, hplain, ?_⟩
    rw [htrim, trim_trim]
  · rintro ⟨hlength, hplain, htrim⟩
    rw [cleanText, cleanChars_plain hplain (by omega), htrim, String.ofList_toList]

theorem cleanText_idempotent (text : String) (maxBytes : Nat) :
    cleanText (cleanText text maxBytes) maxBytes = cleanText text maxBytes := by
  rw [cleanText_fixed]
  refine ⟨cleanText_length text maxBytes, cleanText_plain text maxBytes, ?_⟩
  rw [cleanText_toList, trim_trim]

/-- What cleaning adds to what `validate` asks. -/
def Untouched (text : String) : Prop := ¬ text.toList.any isBidiControl ∧ trim text.toList = text.toList

instance (text : String) : Decidable (Untouched text) := inferInstanceAs (Decidable (_ ∧ _))

theorem cleanText_clean {text : String} {maxBytes : Nat} (hne : text ≠ "") :
    cleanText text maxBytes = text ↔ Admitted maxBytes text ∧ Untouched text := by
  have hplain : Plain text.toList ↔ ¬ text.toList.any isControl ∧ ¬ text.toList.any isBidiControl := by
    simp only [Plain, List.any_eq_true, not_exists, not_and, Bool.not_eq_true]
    exact ⟨fun h => ⟨fun c hc => (h c hc).1, fun c hc => (h c hc).2⟩, fun h c hc => ⟨h.1 c hc, h.2 c hc⟩⟩
  rw [cleanText_fixed, hplain, Admitted, Bounded, Untouched]
  tauto

namespace Confirmation

/-- Its texts, each with its bound. -/
def texts (c : Confirmation) : List (Nat × String) :=
  (maxLabelBytes, c.label) :: (maxReasonBytes, c.reason) :: c.items.map ((maxConfirmationItemBytes, ·))

theorem validate_iff (c : Confirmation) : c.validate = .ok () ↔
    c.items.length ≤ maxConfirmationItems ∧ ∀ x ∈ c.texts, Admitted x.1 x.2 := by
  have htexts : (∀ x ∈ c.texts, Admitted x.1 x.2) ↔ Admitted maxLabelBytes c.label ∧ Admitted maxReasonBytes c.reason ∧
      ∀ item ∈ c.items, Admitted maxConfirmationItemBytes item := by
    simp only [texts, List.forall_mem_cons, List.forall_mem_map]
  rw [htexts, validate]
  split
  next hbad =>
    constructor
    · exact nofun
    · rintro ⟨hlength, hlabel, hreason, hitems⟩
      rcases hbad with h | h | h | h
      · exact absurd hlabel h
      · exact absurd hreason h
      · omega
      · exact absurd hitems h
  next hgood =>
    simp only [not_or, not_not, Nat.not_lt] at hgood
    exact ⟨fun _ => ⟨hgood.2.2.1, hgood.1, hgood.2.1, hgood.2.2.2⟩, fun _ => rfl⟩

theorem items_fixed (items : List String) :
    (items.map (cleanText · maxConfirmationItemBytes)).filter (· ≠ "") = items ↔
      ∀ item ∈ items, item ≠ "" ∧ cleanText item maxConfirmationItemBytes = item := by
  constructor
  · intro h
    have hlength := congrArg List.length h
    have hsame := List.filter_sublist (p := fun item => decide (item ≠ ""))
      (l := items.map (cleanText · maxConfirmationItemBytes))
    have hmap := hsame.eq_of_length (by rw [hlength, List.length_map])
    rw [hmap] at h
    intro item hitem
    have hfixed : cleanText item maxConfirmationItemBytes = item := by
      have heach : ∀ item ∈ items, cleanText item maxConfirmationItemBytes = id item :=
        List.map_inj_left.mp (h.trans (List.map_id items).symm)
      exact heach item hitem
    refine ⟨?_, hfixed⟩
    have hmem : item ∈ items.map (cleanText · maxConfirmationItemBytes) := by
      rw [h]
      exact hitem
    rw [← hmap] at hmem
    simpa using (List.mem_filter.mp hmem).2
  · intro h
    have hmap : items.map (cleanText · maxConfirmationItemBytes) = items :=
      (List.map_congr_left fun item hitem => (h item hitem).2).trans (List.map_id items)
    rw [hmap, List.filter_eq_self]
    intro item hitem
    simpa using (h item hitem).1

theorem reason_fixed (reason : String) :
    (if cleanText reason maxReasonBytes = "" then "no reason given" else cleanText reason maxReasonBytes) = reason ↔
      reason ≠ "" ∧ cleanText reason maxReasonBytes = reason := by
  have hgiven : cleanText "no reason given" maxReasonBytes = "no reason given" := by decide
  split
  next hempty =>
    constructor
    · rintro rfl
      exact absurd (hgiven.symm.trans hempty) (by decide)
    · rintro ⟨hne, hfixed⟩
      exact absurd (hfixed.symm.trans hempty) hne
  next hne =>
    constructor
    · intro h
      refine ⟨?_, h⟩
      rw [h] at hne
      exact hne
    · exact fun h => h.2

theorem cleaned_iff (c : Confirmation) : cleaned c.label c.reason c.items = .ok c ↔
    c.items.length ≤ maxConfirmationItems ∧ ∀ x ∈ c.texts, Admitted x.1 x.2 ∧ Untouched x.2 := by
  have htext (maxBytes : Nat) (text : String) :
      text ≠ "" ∧ cleanText text maxBytes = text ↔ Admitted maxBytes text ∧ Untouched text := by
    constructor
    · rintro ⟨hne, hfixed⟩
      exact (cleanText_clean hne).mp hfixed
    · intro h
      exact ⟨h.1.1.1, (cleanText_clean h.1.1.1).mpr h⟩
  have htexts : (∀ x ∈ c.texts, Admitted x.1 x.2 ∧ Untouched x.2) ↔
      (c.label ≠ "" ∧ cleanText c.label maxLabelBytes = c.label) ∧
      (c.reason ≠ "" ∧ cleanText c.reason maxReasonBytes = c.reason) ∧
      ∀ item ∈ c.items, item ≠ "" ∧ cleanText item maxConfirmationItemBytes = item := by
    simp only [texts, List.forall_mem_cons, List.forall_mem_map, htext]
  rw [htexts, ← reason_fixed, ← items_fixed, cleaned]
  dsimp only
  split
  next hempty =>
    constructor
    · exact nofun
    · rintro ⟨-, ⟨hne, hfixed⟩, -⟩
      exact absurd (hfixed.symm.trans hempty) hne
  next hne =>
    split
    next hlong =>
      constructor
      · exact nofun
      · intro h
        omega
    next hshort =>
      simp only [Except.ok.injEq, Confirmation.ext_iff]
      constructor
      · rintro ⟨hlabel, hreason, hitems⟩
        refine ⟨by omega, ⟨?_, hlabel⟩, hreason, hitems⟩
        rw [hlabel] at hne
        exact hne
      · rintro ⟨-, ⟨-, hlabel⟩, hreason, hitems⟩
        exact ⟨hlabel, hreason, hitems⟩

/-- Out of bounds: too many items, an empty or too long text, or a control character. -/
def Malformed (c : Confirmation) : Prop :=
  maxConfirmationItems < c.items.length ∨ ∃ x ∈ c.texts, ¬ Admitted x.1 x.2

/-- The validator accepts what cleaning leaves of a text, and more than that: it looks for neither bidirectional
controls nor surrounding blanks. -/
theorem validate_cleaned (c : Confirmation) (text : String) (maxBytes : Nat) :
    ((c.validate = .ok () ↔ cleaned c.label c.reason c.items = .ok c) ↔
      c.Malformed ∨ ∀ x ∈ c.texts, Untouched x.2) ∧
    cleanText (cleanText text maxBytes) maxBytes = cleanText text maxBytes ∧
      (cleanText text maxBytes).utf8ByteSize ≤ maxBytes ∧ Plain (cleanText text maxBytes).toList ∧
      (cleanText text maxBytes).toList <:+: text.toList.map shownChar := by
  refine ⟨?_, cleanText_idempotent text maxBytes, cleanText_length text maxBytes,
    cleanText_plain text maxBytes, cleanText_within text maxBytes⟩
  rw [validate_iff, cleaned_iff]
  by_cases hmalformed : c.Malformed
  · have hneither : ¬ (c.items.length ≤ maxConfirmationItems ∧ ∀ x ∈ c.texts, Admitted x.1 x.2) := by
      rintro ⟨hlength, hclean⟩
      rcases hmalformed with hlong | ⟨x, hx, hbad⟩
      · omega
      · exact hbad (hclean x hx)
    constructor
    · exact fun _ => .inl hmalformed
    · intro _
      refine ⟨fun h => absurd h hneither, fun h => absurd ⟨h.1, fun x hx => (h.2 x hx).1⟩ hneither⟩
  · have hlength : c.items.length ≤ maxConfirmationItems := Nat.le_of_not_lt fun h => hmalformed (.inl h)
    have hclean : ∀ x ∈ c.texts, Admitted x.1 x.2 := by
      intro x hx
      by_contra hbad
      exact hmalformed (.inr ⟨x, hx, hbad⟩)
    constructor
    · intro h
      exact .inr fun x hx => ((h.mp ⟨hlength, hclean⟩).2 x hx).2
    · rintro (h | h)
      · exact absurd h hmalformed
      · exact ⟨fun _ => ⟨hlength, fun x hx => ⟨hclean x hx, h x hx⟩⟩, fun _ => ⟨hlength, hclean⟩⟩

/-- A label that is read from right to left. -/
def reversed : Confirmation where
  label := String.ofList [Char.ofNat 0x202e, 'o', 'k']
  reason := "no reason given"

theorem reversed_accepted : reversed.validate = .ok () ∧
    cleaned reversed.label reversed.reason reversed.items ≠ .ok reversed := by
  decide

end Confirmation

end NixSecrets
