import NixSecrets.ApprovalBroker
import NixSecrets.RustText
import NixSecrets.JsonText

namespace NixSecrets

def maxTitleBytes : Nat := 256
def maxLabelBytes : Nat := 512
def maxReasonBytes : Nat := 2048
def maxDeclaredSteps : Nat := 1000
def maxProcedures : Nat := 64

def isBidiControl (c : Char) : Bool :=
  (0x202a ≤ c.toNat && c.toNat ≤ 0x202e) || (0x2066 ≤ c.toNat && c.toNat ≤ 0x2069) ||
  c.toNat == 0x200e || c.toNat == 0x200f || c.toNat == 0x061c

/-- The text up to `room` bytes, with a blank for each control character. -/
def cleanChars (room : Nat) : List Char → List Char
  | [] => []
  | c :: text =>
    let c := if isControl c || isBidiControl c then ' ' else c
    if room < c.utf8Size then [] else c :: cleanChars (room - c.utf8Size) text

def cleanText (text : String) (maxBytes : Nat) : String :=
  String.ofList (trim (cleanChars maxBytes text.toList))

theorem utf8Length_cleanChars (room : Nat) (text : List Char) :
    utf8Length (cleanChars room text) ≤ room := by
  induction text generalizing room with
  | nil => simp [cleanChars, utf8Length]
  | cons c text ih =>
    simp only [cleanChars]
    generalize (if (isControl c || isBidiControl c) = true then ' ' else c) = shown
    by_cases hroom : room < shown.utf8Size
    · simp [hroom, utf8Length]
    · have hrest := ih (room - shown.utf8Size)
      simp only [hroom, if_false, utf8Length, List.map_cons, List.sum_cons] at hrest ⊢
      omega

theorem cleanText_length (text : String) (maxBytes : Nat) :
    (cleanText text maxBytes).utf8ByteSize ≤ maxBytes := by
  rw [cleanText, utf8ByteSize_text]
  exact Nat.le_trans (utf8Length_trim _) (utf8Length_cleanChars _ _)

/-- A text that is reported is not empty and not too long. -/
def Bounded (maxBytes : Nat) (text : String) : Prop := text ≠ "" ∧ text.utf8ByteSize ≤ maxBytes

instance (maxBytes : Nat) (text : String) : Decidable (Bounded maxBytes text) :=
  inferInstanceAs (Decidable (_ ∧ _))

def ProcedureStep.validate (s : ProcedureStep) : Except String Unit :=
  if s.id = "" ∨ 128 < s.id.utf8ByteSize ∨ ¬ s.id.toList.all (fun c => c.isAlphanum || c == '-') then
    .error "procedure id is invalid"
  else if s.title = "" ∨ maxTitleBytes < s.title.utf8ByteSize then
    .error "procedure title has an invalid length"
  else if maxLabelBytes < s.label.utf8ByteSize then .error "procedure step label is too long"
  else if s.steps.any fun steps => steps = 0 || maxDeclaredSteps < steps then
    .error "procedure step count is invalid"
  else if s.failure.any fun text => text = "" || maxReasonBytes < text.utf8ByteSize then
    .error "procedure step failure has an invalid length"
  else if s.warning.any fun text => text = "" || maxReasonBytes < text.utf8ByteSize then
    .error "procedure step warning has an invalid length"
  else if s.progress.any fun progress => progress.text = "" ||
      maxReasonBytes < progress.text.utf8ByteSize || progress.percent.any (100 < ·) then
    .error "procedure step progress is invalid"
  else .ok ()

/-- What `validate` accepts. -/
structure ProcedureStep.WellFormed (s : ProcedureStep) : Prop where
  id : Bounded 128 s.id ∧ s.id.toList.all (fun c => c.isAlphanum || c == '-') = true
  title : Bounded maxTitleBytes s.title
  label : s.label.utf8ByteSize ≤ maxLabelBytes
  steps : ∀ steps, s.steps = some steps → 0 < steps ∧ steps ≤ maxDeclaredSteps
  failure : ∀ text, s.failure = some text → Bounded maxReasonBytes text
  warning : ∀ text, s.warning = some text → Bounded maxReasonBytes text
  progress : ∀ progress, s.progress = some progress → Bounded maxReasonBytes progress.text ∧
    ∀ percent, progress.percent = some percent → percent ≤ 100

theorem any_false {α : Type} {p : α → Bool} {x : Option α}
    (h : ∀ a, x = some a → p a = false) : x.any p = false := by
  cases x with
  | none => rfl
  | some a => exact h a rfl

theorem ProcedureStep.validate_ok {s : ProcedureStep} (h : s.WellFormed) : s.validate = .ok () := by
  have hreason {x : Option String} (hx : ∀ text, x = some text → Bounded maxReasonBytes text) :
      (x.any fun text => text = "" || maxReasonBytes < text.utf8ByteSize) = false := by
    refine any_false fun text ht => ?_
    obtain ⟨hne, hle⟩ := hx text ht
    simp [hne, hle]
  have hsteps : (s.steps.any fun steps => steps = 0 || maxDeclaredSteps < steps) = false := by
    refine any_false fun steps ht => ?_
    obtain ⟨hpos, hle⟩ := h.steps steps ht
    have hne : steps ≠ 0 := by omega
    simp [hne, hle]
  have hprogress : (s.progress.any fun progress => progress.text = "" ||
      maxReasonBytes < progress.text.utf8ByteSize || progress.percent.any (100 < ·)) = false := by
    refine any_false fun progress ht => ?_
    obtain ⟨⟨hne, hle⟩, hpercent⟩ := h.progress progress ht
    have hany : (progress.percent.any fun percent => decide (100 < percent)) = false :=
      any_false fun percent hp => by simpa using hpercent percent hp
    simp [hne, hle, hany]
  have hid : ¬ (s.id = "" ∨ 128 < s.id.utf8ByteSize ∨
      ¬ s.id.toList.all (fun c => c.isAlphanum || c == '-')) := by
    rintro (he | hlong | hchar)
    · exact h.id.1.1 he
    · exact absurd h.id.1.2 (by omega)
    · exact hchar h.id.2
  have htitle : ¬ (s.title = "" ∨ maxTitleBytes < s.title.utf8ByteSize) := by
    rintro (he | hlong)
    · exact h.title.1 he
    · exact absurd h.title.2 (by omega)
  have hlabel := Nat.not_lt.mpr h.label
  rw [validate, if_neg hid, if_neg htitle, if_neg hlabel, hsteps, hreason h.failure,
    hreason h.warning, hprogress]
  rfl

def splitToken (token : String) : Option (String × String) :=
  (splitOnceText [':'] token.toList).bind fun (id, secret) =>
    if id ≠ [] ∧ secret ≠ [] then some (String.ofList id, String.ofList secret) else none

theorem splitToken_some {token id secret : String} (h : splitToken token = some (id, secret)) :
    token = id ++ ":" ++ secret := by
  obtain ⟨⟨front, rest⟩, hsplit, h⟩ := Option.bind_eq_some_iff.mp h
  simp only [Option.ite_none_right_eq_some, Option.some.injEq, Prod.mk.injEq] at h
  obtain ⟨-, rfl, rfl⟩ := h
  apply String.toList_inj.mp
  have hcolon : ":".toList = [':'] := rfl
  simp only [splitOnceText_some hsplit, String.toList_append, String.toList_ofList, hcolon]

/-- Compares two secrets in full, wherever they differ. -/
def sameSecret (left right : String) : Bool :=
  left.utf8ByteSize == right.utf8ByteSize &&
  ((utf8Bytes left.toList).zip (utf8Bytes right.toList)).foldl
    (fun difference (a, b) => difference ||| (a ^^^ b)) 0 == (0 : UInt8)

theorem foldl_or_eq_zero {pairs : List (UInt8 × UInt8)} {start : UInt8} :
    pairs.foldl (fun difference (a, b) => difference ||| (a ^^^ b)) start = 0 ↔
      start = 0 ∧ ∀ pair ∈ pairs, pair.1 = pair.2 := by
  induction pairs generalizing start with
  | nil => simp
  | cons pair pairs ih =>
    rw [List.foldl_cons, ih]
    simp only [UInt8.or_eq_zero_iff, UInt8.xor_eq_zero_iff, List.mem_cons, forall_eq_or_imp, and_assoc]

theorem zip_all_eq {α : Type} {xs ys : List α} (hl : xs.length = ys.length)
    (h : ∀ pair ∈ xs.zip ys, pair.1 = pair.2) : xs = ys := by
  induction xs generalizing ys with
  | nil => exact (List.length_eq_zero_iff.mp hl.symm).symm
  | cons x xs ih =>
    cases ys with
    | nil => cases hl
    | cons y ys =>
      have hxy := h (x, y) (by simp)
      have hrest := ih (by simpa using hl) fun pair hp => h pair (by simp [hp])
      rw [show x = y from hxy, hrest]

theorem zip_self_eq {α : Type} (xs : List α) : ∀ pair ∈ xs.zip xs, pair.1 = pair.2 := by
  induction xs with
  | nil => simp
  | cons x xs ih => simpa using ih

theorem sameSecret_iff {left right : String} : sameSecret left right = true ↔ left = right := by
  have hbytes (s : String) : (utf8Bytes s.toList).length = s.utf8ByteSize := by
    simp [utf8Bytes]
  constructor
  · intro h
    simp only [sameSecret, Bool.and_eq_true, beq_iff_eq, foldl_or_eq_zero, true_and] at h
    have hlength : (utf8Bytes left.toList).length = (utf8Bytes right.toList).length := by
      rw [hbytes, hbytes, h.1]
    have hsame := zip_all_eq hlength h.2
    have htext := congrArg utf8Text hsame
    rw [utf8Text_bytes, utf8Text_bytes] at htext
    exact String.toList_inj.mp (Option.some.inj htext)
  · rintro rfl
    simp only [sameSecret, beq_self_eq_true, Bool.true_and, beq_iff_eq, foldl_or_eq_zero, true_and]
    exact zip_self_eq _

end NixSecrets
