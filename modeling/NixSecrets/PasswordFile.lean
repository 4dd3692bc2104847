import Mathlib.Data.List.Basic

namespace PasswordFile

def backslash : UInt8 := 92
def colon : UInt8 := 58
def lineFeed : UInt8 := 10

/-- One record per line. -/
def records (bytes : List UInt8) : List (List UInt8) := (bytes.splitOn lineFeed).filter (· ≠ [])

/-- The first field as it is written, and the ones after it; a colon behind a backslash splits nothing. -/
def cut : Bool → List UInt8 → List UInt8 × List (List UInt8)
  | _, [] => ([], [])
  | escaped, byte :: rest =>
    if !escaped && byte == colon then ([], (cut false rest).1 :: (cut false rest).2)
    else (byte :: (cut (!escaped && byte == backslash) rest).1, (cut (!escaped && byte == backslash) rest).2)

def fields (record : List UInt8) : List (List UInt8) := (cut false record).1 :: (cut false record).2

def unescapeFrom : Bool → List UInt8 → List UInt8
  | _, [] => []
  | escaped, byte :: rest =>
    if !escaped && byte == backslash then unescapeFrom true rest else byte :: unescapeFrom false rest

def unescape (field : List UInt8) : List UInt8 := unescapeFrom false field

def escape (text : List UInt8) : List UInt8 :=
  text.flatMap fun byte => if byte = 58 ∨ byte = 92 then [92, byte] else [byte]

/-- A field as it is written: no bare colon, no bare backslash at its end, no line break. -/
inductive Field : List UInt8 → Prop
  | nil : Field []
  | plain {byte : UInt8} {rest : List UInt8} (hcolon : byte ≠ colon) (hbackslash : byte ≠ backslash)
      (hline : byte ≠ lineFeed) (hrest : Field rest) : Field (byte :: rest)
  | escaped {byte : UInt8} {rest : List UInt8} (hline : byte ≠ lineFeed) (hrest : Field rest) :
      Field (backslash :: byte :: rest)

theorem Field.no_line {field : List UInt8} (h : Field field) : lineFeed ∉ field := by
  induction h with
  | nil => exact List.not_mem_nil
  | plain hcolon hbackslash hline hrest ih =>
    rw [List.mem_cons, not_or]
    exact ⟨Ne.symm hline, ih⟩
  | escaped hline hrest ih =>
    rw [List.mem_cons, List.mem_cons, not_or, not_or]
    exact ⟨by decide, Ne.symm hline, ih⟩

/-- A written field never ends inside what follows it. -/
theorem Field.cut_append {field : List UInt8} (h : Field field) (rest : List UInt8) :
    cut false (field ++ rest) = (field ++ (cut false rest).1, (cut false rest).2) := by
  induction h with
  | nil => rfl
  | @plain byte tail hcolon hbackslash hline hrest ih =>
    have hc : (byte == colon) = false := beq_false_of_ne hcolon
    have hb : (byte == backslash) = false := beq_false_of_ne hbackslash
    rw [List.cons_append, cut, hc, hb]
    simp only [Bool.not_false, Bool.true_and, Bool.false_eq_true, if_false, ih, List.cons_append]
  | @escaped byte tail hline hrest ih =>
    have hc : (backslash == colon) = false := by decide
    rw [List.cons_append, List.cons_append, cut, hc]
    simp only [Bool.not_false, Bool.true_and, Bool.false_eq_true, if_false, beq_self_eq_true]
    rw [cut]
    simp only [Bool.not_true, Bool.false_and, Bool.false_eq_true, if_false, ih, List.cons_append]

theorem fields_cons {field : List UInt8} (h : Field field) (rest : List UInt8) :
    fields (field ++ colon :: rest) = field :: fields rest := by
  have hcut : cut false (colon :: rest) = ([], (cut false rest).1 :: (cut false rest).2) := rfl
  rw [fields, h.cut_append, hcut, List.append_nil]
  rfl

theorem fields_single {field : List UInt8} (h : Field field) : fields field = [field] := by
  have hcut := h.cut_append []
  rw [List.append_nil] at hcut
  rw [fields, hcut]
  exact congrArg (· :: []) (List.append_nil field)

/-- Fields that each end in a colon, and the last one. -/
theorem fields_all {front : List (List UInt8)} {last : List UInt8} (hfront : ∀ field ∈ front, Field field)
    (hlast : Field last) : fields (front.flatMap (· ++ [colon]) ++ last) = front ++ [last] := by
  induction front with
  | nil => exact fields_single hlast
  | cons field front ih =>
    rw [List.flatMap_cons, List.append_assoc, List.append_assoc]
    show fields (field ++ colon :: (front.flatMap (· ++ [colon]) ++ last)) = _
    rw [fields_cons (hfront field List.mem_cons_self), ih fun field hmem => hfront field (List.mem_cons_of_mem _ hmem)]
    rfl

theorem no_line_all {front : List (List UInt8)} {last : List UInt8} (hfront : ∀ field ∈ front, Field field)
    (hlast : Field last) : lineFeed ∉ front.flatMap (· ++ [colon]) ++ last := by
  intro hmem
  rcases List.mem_append.mp hmem with hmem | hmem
  · obtain ⟨field, hfield, hmem⟩ := List.mem_flatMap.mp hmem
    rcases List.mem_append.mp hmem with hmem | hmem
    · exact (hfront field hfield).no_line hmem
    · exact absurd (List.mem_singleton.mp hmem) (by decide)
  · exact hlast.no_line hmem

theorem escape_cons (byte : UInt8) (text : List UInt8) :
    escape (byte :: text) = (if byte = 58 ∨ byte = 92 then [92, byte] else [byte]) ++ escape text := rfl

theorem escape_field {text : List UInt8} (h : lineFeed ∉ text) : Field (escape text) := by
  induction text with
  | nil => exact .nil
  | cons byte text ih =>
    rw [List.mem_cons, not_or] at h
    rw [escape_cons]
    split
    next => exact .escaped (Ne.symm h.1) (ih h.2)
    next hplain =>
      rw [not_or] at hplain
      exact .plain hplain.1 hplain.2 (Ne.symm h.1) (ih h.2)

/-- Every text comes back, also one that ends in backslashes. -/
theorem unescape_escape (text : List UInt8) : unescape (escape text) = text := by
  induction text with
  | nil => rfl
  | cons byte text ih =>
    rw [escape_cons]
    split
    next =>
      show byte :: unescape (escape text) = _
      rw [ih]
    next hplain =>
      rw [not_or] at hplain
      have hb : (byte == backslash) = false := beq_false_of_ne hplain.2
      show unescapeFrom false (byte :: escape text) = _
      rw [unescapeFrom, hb]
      show byte :: unescape (escape text) = _
      rw [ih]

theorem records_line {line : List UInt8} (hne : line ≠ []) (h : lineFeed ∉ line) :
    records (line ++ [lineFeed]) = [line] := by
  rw [records, List.splitOn_append_cons_self_of_not_mem h, List.splitOn_nil]
  simp [hne]

end PasswordFile
