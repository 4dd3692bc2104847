import NixSecrets.AuthorizedKeys

namespace NixSecrets.StorageBox

open Crypto (bytes_utf8Text)
open HostKey (lines lines_line not_mem_lines lines_closed lines_open lines_nil splitOnP_three)
open Inventory (fields)

theorem readable_iff {text : List Char} :
    Readable (utf8Bytes text) text ↔ utf8Length text ≤ 1024 * 1024 ∧ '\x00' ∉ text ∧ '\r' ∉ text := by
  have hzero : (0 : UInt8) ∈ utf8Bytes text ↔ '\x00' ∈ text := ascii_mem_utf8Bytes (d := '\x00') (by decide)
  have hreturn : (13 : UInt8) ∈ utf8Bytes text ↔ '\r' ∈ text := ascii_mem_utf8Bytes (d := '\r') (by decide)
  constructor
  · intro h
    have hsize := h.size
    rw [length_utf8Bytes] at hsize
    exact ⟨hsize, fun hmem => h.zero (hzero.mpr hmem), fun hmem => h.returns (hreturn.mpr hmem)⟩
  · rintro ⟨hsize, hnozero, hnoreturn⟩
    refine ⟨utf8Text_bytes text, ?_, fun hmem => hnozero (hzero.mp hmem), fun hmem => hnoreturn (hreturn.mp hmem)⟩
    rw [length_utf8Bytes]
    exact hsize

theorem Readable.bytes {contents : List UInt8} {text : List Char} (h : Readable contents text) :
    contents = utf8Bytes text := (bytes_utf8Text h.text_eq).symm

theorem lines_unlines {ls : List (List Char)} (h : ∀ line ∈ ls, '\n' ∉ line ∧ '\r' ∉ line) :
    lines (unlines ls) = ls := by
  induction ls with
  | nil => rfl
  | cons line ls ih =>
    obtain ⟨hbreak, hreturn⟩ := h line List.mem_cons_self
    have hwhole : unlines (line :: ls) = line ++ '\n' :: unlines ls := by simp [unlines]
    rw [hwhole, lines_line hbreak hreturn, ih fun other hother => h other (List.mem_cons_of_mem line hother)]

/-- The visible characters of ASCII. -/
def Visible (text : List Char) : Prop := ∀ c ∈ text, 33 ≤ c.toNat ∧ c.toNat < 127

theorem Visible.append {xs ys : List Char} (hx : Visible xs) (hy : Visible ys) : Visible (xs ++ ys) := by
  intro c hc
  rcases List.mem_append.mp hc with hc | hc
  · exact hx c hc
  · exact hy c hc

theorem Visible.not_mem {text : List Char} {d : Char} (h : Visible text) (hd : d.toNat < 33) : d ∉ text := by
  intro hmem
  have := h d hmem
  omega

theorem Visible.clean {text : List Char} (h : Visible text) : ∀ c ∈ text, isAsciiWhitespace c = false := by
  intro c hc
  have hrange := h c hc
  have hne : ∀ d : Char, d.toNat < 33 → c ≠ d := by
    intro d hd heq
    rw [heq] at hrange
    omega
  simp [isAsciiWhitespace, hne ' ' (by decide), hne '\t' (by decide), hne '\n' (by decide),
    hne '\x0c' (by decide), hne '\r' (by decide)]

theorem visible_of_alphanum {c : Char} (h : c.isAlphanum = true) : 48 ≤ c.toNat ∧ c.toNat ≤ 122 ∧ c ≠ ':' := by
  have hvalue : c.val.toNat = c.toNat := rfl
  have hcolon : c.toNat ≠ 58 → c ≠ ':' := by
    intro hne heq
    rw [heq] at hne
    exact hne rfl
  have hrange : 48 ≤ c.toNat ∧ c.toNat ≤ 57 ∨ 65 ≤ c.toNat ∧ c.toNat ≤ 122 := by
    delta Char.isAlphanum Char.isAlpha Char.isUpper Char.isLower Char.isDigit at h
    simp only [Bool.or_eq_true, Bool.and_eq_true, decide_eq_true_eq, UInt32.le_iff_toNat_le, ge_iff_le,
      hvalue] at h
    rcases h with (h | h) | h
    · have hlow : 65 ≤ c.toNat := h.1
      have hhigh : c.toNat ≤ 90 := h.2
      omega
    · have hlow : 97 ≤ c.toNat := h.1
      have hhigh : c.toNat ≤ 122 := h.2
      omega
    · have hlow : 48 ≤ c.toNat := h.1
      have hhigh : c.toNat ≤ 57 := h.2
      omega
  exact ⟨by omega, by omega, hcolon (by omega)⟩

/-- The names of a task, as they stand in its mark. -/
structure Named (text : List Char) : Prop where
  visible : Visible text
  colon : ':' ∉ text

theorem named_of_chars {text : List Char}
    (h : ∀ c ∈ text, c.isAlphanum = true ∨ c = '.' ∨ c = '_' ∨ c = '-') : Named text := by
  have hchar : ∀ c ∈ text, (33 ≤ c.toNat ∧ c.toNat < 127) ∧ c ≠ ':' := by
    intro c hc
    rcases h c hc with hplain | hdot | hline | hdash
    · obtain ⟨hlow, hhigh, hcolon⟩ := visible_of_alphanum hplain
      exact ⟨⟨by omega, by omega⟩, hcolon⟩
    · rw [hdot]
      decide
    · rw [hline]
      decide
    · rw [hdash]
      decide
  exact ⟨fun c hc => (hchar c hc).1, fun hmem => (hchar ':' hmem).2 rfl⟩

theorem token_named {value : List Char} {field : String} (h : token value field = .ok ()) : Named value := by
  have hvalid := badIf_ok h
  simp only [not_or, Classical.not_not, List.all_eq_true] at hvalid
  have hlist : "._-".toList = ['.', '_', '-'] := by decide
  apply named_of_chars
  intro c hc
  have hchar := hvalid.2.2 c hc
  rw [hlist] at hchar
  simpa using hchar

theorem mem_splitOn_dot {text : List Char} {c : Char} (hc : c ∈ text) (hdot : c ≠ '.') :
    ∃ part ∈ text.splitOn '.', c ∈ part := by
  have htext : ['.'].intercalate (text.splitOn '.') = text := List.intercalate_splitOn '.'
  rw [← htext] at hc
  generalize text.splitOn '.' = parts at hc ⊢
  induction parts with
  | nil => simp at hc
  | cons part parts ih =>
    cases parts with
    | nil => exact ⟨part, List.mem_cons_self, by simpa using hc⟩
    | cons next rest =>
      rw [List.intercalate_cons_cons] at hc
      simp only [List.mem_append, List.mem_singleton] at hc
      rcases hc with (hc | hc) | hc
      · exact ⟨part, List.mem_cons_self, hc⟩
      · exact absurd hc hdot
      · obtain ⟨found, hfound, hmem⟩ := ih hc
        exact ⟨found, List.mem_cons_of_mem part hfound, hmem⟩

theorem taskIdentifier_named {value : List Char} (h : taskIdentifier value = .ok ()) : Named value := by
  have hvalid := badIf_ok h
  simp only [not_or, List.any_eq_true, not_exists, not_and] at hvalid
  apply named_of_chars
  intro c hc
  by_cases hdot : c = '.'
  · exact Or.inr (Or.inl hdot)
  · obtain ⟨part, hpart, hmem⟩ := mem_splitOn_dot hc hdot
    have hchars := hvalid.2.2 part hpart
    simp only [Bool.or_eq_true, not_or, Bool.not_eq_true, Bool.not_eq_false', List.all_eq_true] at hchars
    have hchar := hchars.2 c hmem
    simp only [beq_iff_eq] at hchar
    rcases hchar with (hchar | hchar) | hchar
    · exact Or.inl hchar
    · exact Or.inr (Or.inr (Or.inr hchar))
    · exact Or.inr (Or.inr (Or.inl hchar))

theorem validate_named {libs : Keys} {task : StorageBoxTask} (h : task.validate libs = .ok ()) :
    Named task.targetHostname ∧ Named task.taskId := by
  obtain ⟨_, _, h⟩ := except_bind_ok.mp h
  obtain ⟨_, hid, h⟩ := except_bind_ok.mp h
  obtain ⟨_, hhost, _⟩ := except_bind_ok.mp h
  obtain ⟨_, htoken, _⟩ := except_bind_ok.mp hhost
  exact ⟨token_named htoken, taskIdentifier_named hid⟩

theorem markerPrefix_visible {task : StorageBoxTask} (hhost : Named task.targetHostname)
    (hid : Named task.taskId) : Visible task.markerPrefix := by
  have hlabel : Visible markLabel := by
    rw [show markLabel = ['n', 'i', 'x', '-', 's', 'e', 'c', 'r', 'e', 't', 's', ':'] by decide]
    intro c hc
    simp only [List.mem_cons, List.not_mem_nil, or_false] at hc
    rcases hc with rfl | rfl | rfl | rfl | rfl | rfl | rfl | rfl | rfl | rfl | rfl | rfl <;> decide
  have hcolon : Visible [':'] := by
    intro c hc
    rw [List.mem_singleton.mp hc]
    decide
  have hrest : Visible (':' :: (task.taskId ++ [':'])) := hcolon.append (hid.visible.append hcolon)
  have hmark : task.markerPrefix = markLabel ++ (task.targetHostname ++ ':' :: (task.taskId ++ [':'])) := by
    simp only [StorageBoxTask.markerPrefix, List.append_assoc, List.cons_append]
  rw [hmark]
  exact hlabel.append (hhost.visible.append hrest)

theorem colon_unique {xs ys xs' ys' : List Char} (hx : ':' ∉ xs) (hy : ':' ∉ ys)
    (h : xs ++ ':' :: xs' = ys ++ ':' :: ys') : xs = ys ∧ xs' = ys' := by
  induction xs generalizing ys with
  | nil =>
    cases ys with
    | nil => exact ⟨rfl, List.tail_eq_of_cons_eq h⟩
    | cons y ys => exact absurd (List.head_eq_of_cons_eq h ▸ List.mem_cons_self) hy
  | cons x xs ih =>
    cases ys with
    | nil => exact absurd ((List.head_eq_of_cons_eq h).symm ▸ List.mem_cons_self) hx
    | cons y ys =>
      have hhead : x = y := List.head_eq_of_cons_eq h
      have htail : xs ++ ':' :: xs' = ys ++ ':' :: ys' := List.tail_eq_of_cons_eq h
      obtain ⟨hsame, hrest⟩ := ih (fun hmem => hx (List.mem_cons_of_mem x hmem))
        (fun hmem => hy (List.mem_cons_of_mem y hmem)) htail
      exact ⟨by rw [hhead, hsame], hrest⟩

/-- A mark says which host and which task it is for. -/
theorem markerPrefix_eq {task other : StorageBoxTask} {xs ys : List Char}
    (hhost : Named task.targetHostname) (hid : Named task.taskId) (hhost' : Named other.targetHostname)
    (hid' : Named other.taskId) (h : task.markerPrefix ++ xs = other.markerPrefix ++ ys) :
    task.targetHostname = other.targetHostname ∧ task.taskId = other.taskId := by
  have hform : ∀ task : StorageBoxTask, ∀ xs, task.markerPrefix ++ xs =
      markLabel ++ (task.targetHostname ++ ':' :: (task.taskId ++ ':' :: xs)) := by
    intro task xs
    simp only [StorageBoxTask.markerPrefix, List.append_assoc, List.cons_append, List.nil_append]
  rw [hform, hform] at h
  obtain ⟨hhosts, h⟩ := colon_unique hhost.colon hhost'.colon (List.append_cancel_left h)
  exact ⟨hhosts, (colon_unique hid.colon hid'.colon h).1⟩

theorem dateChar_visible {c : Char} {i : Nat} (h : dateChar c i = true) : 33 ≤ c.toNat ∧ c.toNat < 127 := by
  unfold dateChar at h
  split at h
  next =>
    rw [beq_iff_eq.mp h]
    decide
  next =>
    have halphanum : c.isAlphanum = true := by simp [Char.isAlphanum, h]
    obtain ⟨hlow, hhigh, _⟩ := visible_of_alphanum halphanum
    omega

theorem validateDate_ok {date : List Char} (h : validateDate date = .ok ()) :
    Visible date ∧ utf8Length date = 10 := by
  unfold validateDate at h
  split at h
  next => cases h
  next hvalid =>
    simp only [not_or, Classical.not_not, List.all_eq_true] at hvalid
    refine ⟨?_, hvalid.1⟩
    intro c hc
    obtain ⟨i, hi, rfl⟩ := List.mem_iff_getElem.mp hc
    have hindex : (date[i], i) ∈ date.zipIdx := by
      rw [List.mem_zipIdx_iff_getElem?]
      exact List.getElem?_eq_getElem hi
    exact dateChar_visible (hvalid.2 _ hindex)

theorem base64Char_visible (n : Nat) : 33 ≤ (base64Char n).toNat ∧ (base64Char n).toNat < 127 := by
  have hsmall : ∀ n < 64, 33 ≤ (base64Char n).toNat ∧ (base64Char n).toNat < 127 := by decide
  by_cases hn : n < 64
  · exact hsmall n hn
  · have hlast : base64Char n = '/' := by
      rw [base64Char, if_neg (by omega), if_neg (by omega), if_neg (by omega), if_neg (by omega)]
    rw [hlast]
    decide

theorem base64Encode_visible (bytes : List UInt8) : Visible (base64Encode bytes) := by
  unfold Visible
  fun_induction base64Encode bytes with
  | case1 => simp
  | case2 => simp [base64Char_visible]
  | case3 => simp [base64Char_visible]
  | case4 a b c rest ih =>
    intro d hd
    simp only [List.mem_cons] at hd
    rcases hd with rfl | rfl | rfl | rfl | hd
    · exact base64Char_visible _
    · exact base64Char_visible _
    · exact base64Char_visible _
    · exact base64Char_visible _
    · exact ih d hd

theorem base64Encode_blob_ne (key : PrivateKey) : base64Encode key.blob ≠ [] := by
  intro h
  have hlength := base64Encode_length key.blob
  have hblob : 4 ≤ key.blob.length := by
    simp [PrivateKey.blob, prefixed, bigEndian]
  rw [h, List.length_nil, base64Size] at hlength
  omega

def ed25519 : List Char := "ssh-ed25519".toList

theorem ed25519_visible : Visible ed25519 := by
  have hlist : ed25519 = ['s', 's', 'h', '-', 'e', 'd', '2', '5', '5', '1', '9'] := by decide
  rw [hlist]
  intro c hc
  simp only [List.mem_cons, List.not_mem_nil, or_false] at hc
  rcases hc with rfl | rfl | rfl | rfl | rfl | rfl | rfl | rfl | rfl | rfl | rfl <;> decide

section

variable {key : PrivateKey} {mark date : List Char}

theorem publicText_plain (hkey : key.algorithm = "ssh-ed25519") (hcomment : key.comment = []) :
    key.publicText = ed25519 ++ ' ' :: base64Encode key.blob := by
  have halgorithm : key.algorithm.toList = ed25519 := congrArg String.toList hkey
  rw [PrivateKey.publicText, halgorithm, if_pos hcomment, List.append_nil]

/-- The fields of the line that is added for a key without a comment. -/
theorem fields_desired (hkey : key.algorithm = "ssh-ed25519") (hcomment : key.comment = [])
    (hmark : Visible mark) (hne : mark ≠ []) (hdate : validateDate date = .ok ()) :
    fields (desired mark key.publicText date) = [ed25519, base64Encode key.blob, mark ++ date] := by
  have hline : desired mark key.publicText date =
      ed25519 ++ ' ' :: (base64Encode key.blob ++ ' ' :: (mark ++ date)) := by
    rw [desired, publicText_plain hkey hcomment]
    simp only [List.append_assoc, List.cons_append]
  have hlabel : ed25519 ≠ [] := by
    intro hempty
    have hlength : ed25519.length = 11 := by decide
    rw [hempty] at hlength
    cases hlength
  rw [hline]
  exact splitOnP_three (by decide) ed25519_visible.clean (base64Encode_visible key.blob).clean
    (hmark.append (validateDate_ok hdate).1).clean hlabel (base64Encode_blob_ne key) (by simp [hne])

theorem desired_marked (hkey : key.algorithm = "ssh-ed25519") (hcomment : key.comment = [])
    (hmark : Visible mark) (hne : mark ≠ []) (hdate : validateDate date = .ok ()) :
    validateMarkedLine (desired mark key.publicText date) mark = .ok () ∧
      keyText (desired mark key.publicText date) = key.publicText := by
  have hfields := fields_desired hkey hcomment hmark hne hdate
  have hssh : "ssh-".toList <+: ed25519 := by decide
  constructor
  · exact validateMarkedLine_ok.mpr ⟨ed25519, base64Encode key.blob, date, hfields, hssh, hdate⟩
  · rw [keyText, hfields, publicText_plain hkey hcomment]
    simp [List.intercalate]

/-- Two fields have one blank between them, so they never spell a key with its comment. -/
theorem keyText_ne (hcomment : key.comment ≠ []) (line : List Char) : keyText line ≠ key.publicText := by
  intro h
  have hblanks : (keyText line).count ' ' ≤ 1 := by
    have hfield : ∀ field ∈ fields line, field.count ' ' = 0 := by
      intro field hfield
      rw [List.count_eq_zero]
      intro hblank
      have hclean := (mem_fields hfield).2.1 ' ' hblank
      simp [isAsciiWhitespace] at hclean
    unfold keyText
    rcases hfields : fields line with _ | ⟨first, _ | ⟨second, rest⟩⟩
    · simp
    · simp [hfield first (by simp [hfields])]
    · have hfirst := hfield first (by simp [hfields])
      have hsecond := hfield second (by simp [hfields])
      simp [List.intercalate, hfirst, hsecond]
  rw [h, PrivateKey.publicText, if_neg hcomment] at hblanks
  simp only [List.count_append, List.count_cons_self] at hblanks
  omega

end

theorem splitOn_within {text part : List Char} {c : Char} (h : part ∈ text.splitOn c) : part <:+: text := by
  obtain ⟨first, rest, hparts, hfirst, _, hrest⟩ := splitOnP_parts (· == c) text
  have hsplit : text.splitOn c = first :: rest := hparts
  rw [hsplit] at h
  rcases List.mem_cons.mp h with rfl | h
  · exact hfirst.isInfix
  · exact (hrest part h).1

/-- The lines of a text, each with its end, are the text again, but for the end of the last line. -/
theorem unlines_lines {text : List Char} (h : '\r' ∉ text) :
    unlines (lines text) = text ∨ unlines (lines text) = text ++ ['\n'] := by
  have hplain : ∀ xs : List Char, '\r' ∉ xs →
      (xs.splitOn '\n').map (fun line => (stripEnd ['\r'] line).getD line) = xs.splitOn '\n' := by
    intro xs hxs
    have hid : ∀ part ∈ xs.splitOn '\n', (stripEnd ['\r'] part).getD part = id part := by
      intro part hpart
      have hreturn : '\r' ∉ part := fun hmem => hxs ((splitOn_within hpart).subset hmem)
      have hstrip : stripEnd ['\r'] part = none := by
        refine if_neg fun hsuffix => hreturn ?_
        exact (List.isSuffixOf_iff_suffix.mp hsuffix).subset List.mem_cons_self
      rw [hstrip]
      rfl
    rw [List.map_congr_left hid, List.map_id]
  have hjoin : ∀ xs : List Char, unlines (xs.splitOn '\n') = xs ++ ['\n'] := by
    intro xs
    have hwhole : ['\n'].intercalate (xs.splitOn '\n') = xs := List.intercalate_splitOn '\n'
    obtain ⟨front, last, hparts⟩ := (List.eq_nil_or_concat' (xs.splitOn '\n')).resolve_left
      (List.splitOn_ne_nil '\n' xs)
    rw [hparts, ← intercalate_unlines, ← hparts, hwhole]
  by_cases hempty : text = []
  · subst hempty
    exact Or.inl rfl
  · by_cases hlast : text.getLast? = some '\n'
    · obtain ⟨front, rfl⟩ := List.getLast?_eq_some_iff.mp hlast
      rw [lines_closed, hplain front fun hmem => h (List.mem_append_left _ hmem), hjoin]
      exact Or.inl rfl
    · rw [lines_open hempty hlast, hplain text h, hjoin]
      exact Or.inr rfl

theorem unlines_append (xs ys : List (List Char)) : unlines (xs ++ ys) = unlines xs ++ unlines ys := by
  simp [unlines]

theorem mem_unlines {ls : List (List Char)} {c : Char} (h : c ∈ unlines ls) : c = '\n' ∨ ∃ line ∈ ls, c ∈ line := by
  obtain ⟨line, hline, hmem⟩ := List.mem_flatMap.mp h
  rcases List.mem_append.mp hmem with hmem | hmem
  · exact Or.inr ⟨line, hline, hmem⟩
  · exact Or.inl (List.mem_singleton.mp hmem)

section

variable {contents : List UInt8} {text : List Char}

/-- The lines of a file have none of the bytes that it is refused for. -/
theorem Readable.line (h : Readable contents text) {line : List Char} (hline : line ∈ lines text) :
    '\n' ∉ line ∧ '\r' ∉ line ∧ '\x00' ∉ line := by
  have hread := h
  rw [h.bytes] at hread
  obtain ⟨_, hzero, hreturn⟩ := readable_iff.mp hread
  have hbreak := not_mem_lines hline
  have hmem : ∀ c ∈ line, c ∈ text ∨ c = '\n' := by
    intro c hc
    have hwhole : c ∈ unlines (lines text) :=
      List.mem_flatMap.mpr ⟨line, hline, List.mem_append_left _ hc⟩
    rcases unlines_lines hreturn with heq | heq
    · rw [heq] at hwhole
      exact Or.inl hwhole
    · rw [heq, List.mem_append, List.mem_singleton] at hwhole
      exact hwhole
  refine ⟨hbreak, fun hc => ?_, fun hc => ?_⟩
  · exact (hmem '\r' hc).elim hreturn (by decide)
  · exact (hmem '\x00' hc).elim hzero (by decide)

theorem mem_of_without {front rest : List (List Char)} {line other : List Char}
    (hlines : lines text = front ++ line :: rest) (hother : other ∈ front ++ rest) : other ∈ lines text := by
  rw [hlines]
  rcases List.mem_append.mp hother with hother | hother
  · exact List.mem_append_left _ hother
  · exact List.mem_append_right _ (List.mem_cons_of_mem line hother)

theorem Readable.lines_without (h : Readable contents text) {front rest : List (List Char)} {line : List Char}
    (hlines : lines text = front ++ line :: rest) : lines (unlines (front ++ rest)) = front ++ rest := by
  apply lines_unlines
  intro other hother
  obtain ⟨hbreak, hreturn, _⟩ := h.line (mem_of_without hlines hother)
  exact ⟨hbreak, hreturn⟩

/-- A file stays readable when a line is taken out of it. -/
theorem Readable.without (h : Readable contents text) {front rest : List (List Char)} {line : List Char}
    (hlines : lines text = front ++ line :: rest) :
    Readable (utf8Bytes (unlines (front ++ rest))) (unlines (front ++ rest)) := by
  have hread := h
  rw [h.bytes] at hread
  obtain ⟨hsize, _, hreturn⟩ := readable_iff.mp hread
  have hshort : utf8Length (unlines (front ++ rest)) + 1 ≤ utf8Length (unlines (lines text)) := by
    have hline : utf8Length (unlines (line :: rest)) = utf8Length line + 1 + utf8Length (unlines rest) := by
      have hunlines : unlines (line :: rest) = line ++ (['\n'] ++ unlines rest) := by simp [unlines]
      have hbreak : utf8Length ['\n'] = 1 := by decide
      rw [hunlines, utf8Length_append, utf8Length_append, hbreak]
      omega
    rw [hlines, unlines_append, unlines_append, utf8Length_append, utf8Length_append, hline]
    omega
  have hwhole : utf8Length (unlines (lines text)) ≤ utf8Length text + 1 := by
    rcases unlines_lines hreturn with heq | heq
    · rw [heq]
      omega
    · rw [heq, utf8Length_append]
      exact Nat.le_refl _
  have hother : ∀ c, c ≠ '\n' → (∀ other ∈ lines text, c ∉ other) → c ∉ unlines (front ++ rest) := by
    intro c hc hnone hmem'
    rcases mem_unlines hmem' with heq | ⟨other, hother, hmem'⟩
    · exact hc heq
    · exact hnone other (mem_of_without hlines hother) hmem'
  refine readable_iff.mpr ⟨by omega, ?_, ?_⟩
  · exact hother '\x00' (by decide) fun other hother => (h.line hother).2.2
  · exact hother '\r' (by decide) fun other hother => (h.line hother).2.1

end

section

variable {mark publicKey : List Char} {ls : List (List Char)}

theorem kept_of_sound (h : Sound mark ls) :
    kept mark ls = ls.filter fun line => validateMarkedLine line mark ≠ .ok () := by
  apply List.filter_congr
  intro line hline
  by_cases hmark : mark <:+: line
  · simp [hmark, h line hline hmark]
  · have hvalid : validateMarkedLine line mark ≠ .ok () := fun hvalid => hmark (infix_of_marked hvalid)
    simp [hmark, hvalid]

theorem marked_of_sound (h : Sound mark ls) :
    marked mark ls = ls.filter fun line => validateMarkedLine line mark = .ok () := by
  apply List.filter_congr
  intro line hline
  by_cases hmark : mark <:+: line
  · simp [hmark, h line hline hmark]
  · have hvalid : validateMarkedLine line mark ≠ .ok () := fun hvalid => hmark (infix_of_marked hvalid)
    simp [hmark, hvalid]

theorem marked_kept : marked mark (kept mark ls) = [] := by
  simp [marked, kept, List.filter_filter]

/-- The lines that the merge writes have just the new mark. -/
theorem clean_merged {line : List Char} (h : validateMarkedLine line mark = .ok ()) :
    Clean mark (kept mark ls ++ [line]) := by
  constructor
  · intro other hother hmark
    rcases List.mem_append.mp hother with hother | hother
    · have hnot := (List.mem_filter.mp hother).2
      simp [hmark] at hnot
    · rw [List.mem_singleton.mp hother]
      exact h
  · have hmarked : marked mark (kept mark ls ++ [line]) = marked mark (kept mark ls) ++ marked mark [line] :=
      List.filter_append _ _
    rw [hmarked, marked_kept, List.nil_append]
    exact List.length_filter_le _ _

theorem clean_insert {front rest : List (List Char)} {line : List Char} (h : Clean mark (front ++ rest))
    (hline : ¬ mark <:+: line) : Clean mark (front ++ line :: rest) := by
  constructor
  · intro other hother hmark
    apply h.1 other _ hmark
    rcases List.mem_append.mp hother with hother | hother
    · exact List.mem_append_left _ hother
    · rcases List.mem_cons.mp hother with rfl | hother
      · exact absurd hmark hline
      · exact List.mem_append_right _ hother
  · have hsame : marked mark (front ++ line :: rest) = marked mark (front ++ rest) := by
      simp [marked, List.filter_append, hline]
    rw [hsame]
    exact h.2

end

theorem merge_accepts {mark publicKey : List Char} {contents : List UInt8} {text date : List Char}
    (hread : Readable contents text) (hclean : Clean mark (lines text)) (hdate : validateDate date = .ok ()) :
    ∃ merge, mergeAuthorizedKeys mark publicKey contents date = .ok merge := by
  by_cases hcurrent : Current mark publicKey (lines text)
  · exact ⟨_, mergeAuthorizedKeys_ok.mpr ⟨text, hread, hdate, hclean, Or.inl ⟨hcurrent, rfl⟩⟩⟩
  · exact ⟨_, mergeAuthorizedKeys_ok.mpr ⟨text, hread, hdate, hclean, Or.inr ⟨hcurrent, rfl⟩⟩⟩

/-- A line that ends in the mark of another host or task. -/
def OfOther (libs : Keys) (task : StorageBoxTask) (line : List Char) : Prop :=
  ∃ (other : StorageBoxTask) (date : List Char), other.validate libs = .ok () ∧
    (other.targetHostname, other.taskId) ≠ (task.targetHostname, task.taskId) ∧
    validateDate date = .ok () ∧ (fields line).getLast? = some (other.markerPrefix ++ date)

/-- The marked line of a task, with a key. -/
def MarkedFor (mark publicKey line : List Char) : Prop :=
  validateMarkedLine line mark = .ok () ∧ keyText line = publicKey

section

variable (libs : Keys) (task : StorageBoxTask)

/-- What merging a key into a file promises. -/
structure MergeLaw (publicKey : List Char) (contents : List UInt8) : Prop where
  replaced : ∀ date out, mergeAuthorizedKeys task.markerPrefix publicKey contents date = .ok (.replaced out) →
    ∃ text outText line, utf8Text contents = some text ∧ utf8Text out = some outText ∧
      lines outText = ((lines text).filter fun line => validateMarkedLine line task.markerPrefix ≠ .ok ()) ++
        [line] ∧ MarkedFor task.markerPrefix publicKey line
  unchanged : ∀ date out, mergeAuthorizedKeys task.markerPrefix publicKey contents date = .ok (.unchanged out) →
    out = contents ∧ ∃ text line, utf8Text contents = some text ∧
      ((lines text).filter fun line => validateMarkedLine line task.markerPrefix = .ok ()) = [line] ∧
      MarkedFor task.markerPrefix publicKey line
  again : ∀ date merge, mergeAuthorizedKeys task.markerPrefix publicKey contents date = .ok merge →
    ∀ date', validateDate date' = .ok () →
      mergeAuthorizedKeys task.markerPrefix publicKey merge.contents date' = .ok (.unchanged merge.contents)
  others : ∀ date out, mergeAuthorizedKeys task.markerPrefix publicKey contents date = .ok (.replaced out) →
    ∀ text, utf8Text contents = some text → ∀ line ∈ lines text, OfOther libs task line →
      ∃ outText, utf8Text out = some outText ∧ line ∈ lines outText
  blameless : ∀ text front line rest date, Readable contents text → lines text = front ++ line :: rest →
    OfOther libs task line →
    (∃ merge, mergeAuthorizedKeys task.markerPrefix publicKey (utf8Bytes (unlines (front ++ rest))) date =
      .ok merge) →
    ∃ merge, mergeAuthorizedKeys task.markerPrefix publicKey contents date = .ok merge

/-- A key and a file for which the promise is kept. -/
structure Mergeable (key : PrivateKey) (contents : List UInt8) : Prop where
  fits : ∀ text, Readable contents text → Clean task.markerPrefix (lines text) →
    key.comment = [] ∧ (Current task.markerPrefix key.publicText (lines text) ∨
      utf8Length (unlines (kept task.markerPrefix (lines text))) +
        (utf8Length key.publicText + utf8Length task.markerPrefix + 12) ≤ 1024 * 1024)
  foreign : ∀ text front line rest, Readable contents text → lines text = front ++ line :: rest →
    OfOther libs task line → Clean task.markerPrefix (front ++ rest) → ¬ task.markerPrefix <:+: line

theorem utf8Length_desired {mark publicKey date : List Char} (hdate : validateDate date = .ok ()) :
    utf8Length (unlines [desired mark publicKey date]) = utf8Length publicKey + utf8Length mark + 12 := by
  have hline : unlines [desired mark publicKey date] = publicKey ++ ([' '] ++ (mark ++ (date ++ ['\n']))) := by
    simp [unlines, desired]
  have hblank : utf8Length [' '] = 1 := by decide
  have hbreak : utf8Length ['\n'] = 1 := by decide
  rw [hline, utf8Length_append, utf8Length_append, utf8Length_append, utf8Length_append, hblank, hbreak,
    (validateDate_ok hdate).2]
  omega

variable {libs task}

/-- The last field of a line says whose line it is. -/
theorem not_marked_of_last {other : StorageBoxTask} {line date : List Char}
    (hlast : (fields line).getLast? = some (other.markerPrefix ++ date))
    (hne : (other.targetHostname, other.taskId) ≠ (task.targetHostname, task.taskId))
    (hhost : Named task.targetHostname) (hid : Named task.taskId) (hhost' : Named other.targetHostname)
    (hid' : Named other.taskId) : validateMarkedLine line task.markerPrefix ≠ .ok () := by
  intro hmarked
  obtain ⟨first, second, date', hfields, _, _⟩ := validateMarkedLine_ok.mp hmarked
  rw [hfields] at hlast
  have hsame : task.markerPrefix ++ date' = other.markerPrefix ++ date := by simpa using hlast
  obtain ⟨hhosts, hids⟩ := markerPrefix_eq hhost hid hhost' hid' hsame
  exact hne (by rw [hhosts, hids])

theorem OfOther.not_marked {line : List Char} (h : OfOther libs task line) (hhost : Named task.targetHostname)
    (hid : Named task.taskId) : validateMarkedLine line task.markerPrefix ≠ .ok () := by
  obtain ⟨other, date, hvalid, hne, _, hlast⟩ := h
  obtain ⟨hhost', hid'⟩ := validate_named hvalid
  exact not_marked_of_last hlast hne hhost hid hhost' hid'

theorem markerPrefix_ne_nil (task : StorageBoxTask) : task.markerPrefix ≠ [] := by
  simp [StorageBoxTask.markerPrefix]

section

variable {key : PrivateKey} {contents : List UInt8} {text date : List Char}
  (hhost : Named task.targetHostname) (hid : Named task.taskId) (hkey : key.algorithm = "ssh-ed25519")

include hhost hid hkey

theorem not_mem_desired (hcomment : key.comment = []) (hdate : validateDate date = .ok ()) {d : Char}
    (hd : d.toNat < 32) : d ∉ desired task.markerPrefix key.publicText date := by
  have hmark := markerPrefix_visible hhost hid
  have hblank : d ≠ ' ' := by
    intro heq
    rw [heq] at hd
    exact absurd hd (by decide)
  rw [desired, publicText_plain hkey hcomment]
  simp only [List.mem_append, List.mem_cons, not_or]
  exact ⟨⟨⟨ed25519_visible.not_mem (by omega), hblank, (base64Encode_visible _).not_mem (by omega)⟩, hblank,
    hmark.not_mem (by omega)⟩, (validateDate_ok hdate).1.not_mem (by omega)⟩

/-- The lines that the merge writes have none of the bytes that a file is refused for. -/
theorem line_merged (hcomment : key.comment = []) (hread : Readable contents text)
    (hdate : validateDate date = .ok ()) {line : List Char}
    (hline : line ∈ kept task.markerPrefix (lines text) ++ [desired task.markerPrefix key.publicText date]) :
    '\n' ∉ line ∧ '\r' ∉ line ∧ '\x00' ∉ line := by
  rcases List.mem_append.mp hline with hline | hline
  · exact hread.line (List.mem_filter.mp hline).1
  · rw [List.mem_singleton.mp hline]
    have hnew : ∀ d : Char, d.toNat < 32 → d ∉ desired task.markerPrefix key.publicText date :=
      fun d hd => not_mem_desired hhost hid hkey hcomment hdate hd
    exact ⟨hnew '\n' (by decide), hnew '\r' (by decide), hnew '\x00' (by decide)⟩

theorem lines_merged (hcomment : key.comment = []) (hread : Readable contents text)
    (hdate : validateDate date = .ok ()) :
    lines (unlines (kept task.markerPrefix (lines text) ++ [desired task.markerPrefix key.publicText date])) =
      kept task.markerPrefix (lines text) ++ [desired task.markerPrefix key.publicText date] := by
  apply lines_unlines
  intro line hline
  obtain ⟨hbreak, hreturn, _⟩ := line_merged hhost hid hkey hcomment hread hdate hline
  exact ⟨hbreak, hreturn⟩

/-- The merged file is read again if it is not too large. -/
theorem readable_merged (hcomment : key.comment = []) (hread : Readable contents text)
    (hdate : validateDate date = .ok ())
    (hsize : utf8Length (unlines (kept task.markerPrefix (lines text))) +
        (utf8Length key.publicText + utf8Length task.markerPrefix + 12) ≤ 1024 * 1024) :
    Readable (utf8Bytes (unlines (kept task.markerPrefix (lines text) ++
        [desired task.markerPrefix key.publicText date])))
      (unlines (kept task.markerPrefix (lines text) ++ [desired task.markerPrefix key.publicText date])) := by
  have hnot : ∀ c, c ≠ '\n' → (∀ line ∈ kept task.markerPrefix (lines text) ++
      [desired task.markerPrefix key.publicText date], c ∉ line) →
      c ∉ unlines (kept task.markerPrefix (lines text) ++ [desired task.markerPrefix key.publicText date]) := by
    intro c hc hnone hmem
    rcases mem_unlines hmem with heq | ⟨line, hline, hmem⟩
    · exact hc heq
    · exact hnone line hline hmem
  refine readable_iff.mpr ⟨?_, ?_, ?_⟩
  · rw [unlines_append, utf8Length_append, utf8Length_desired hdate]
    exact hsize
  · exact hnot '\x00' (by decide) fun line hline => (line_merged hhost hid hkey hcomment hread hdate hline).2.2
  · exact hnot '\r' (by decide) fun line hline => (line_merged hhost hid hkey hcomment hread hdate hline).2.1

theorem Mergeable.replaced (h : Mergeable libs task key contents) {out : List UInt8}
    (hmerge : mergeAuthorizedKeys task.markerPrefix key.publicText contents date = .ok (.replaced out)) :
    ∃ text, utf8Text contents = some text ∧
      utf8Text out = some (unlines (kept task.markerPrefix (lines text) ++
        [desired task.markerPrefix key.publicText date])) ∧
      lines (unlines (kept task.markerPrefix (lines text) ++ [desired task.markerPrefix key.publicText date])) =
        ((lines text).filter fun line => validateMarkedLine line task.markerPrefix ≠ .ok ()) ++
          [desired task.markerPrefix key.publicText date] ∧
      MarkedFor task.markerPrefix key.publicText (desired task.markerPrefix key.publicText date) := by
  obtain ⟨text, hread, hdate, hclean, hresult⟩ := mergeAuthorizedKeys_ok.mp hmerge
  rcases hresult with ⟨_, heq⟩ | ⟨_, heq⟩
  · cases heq
  · cases heq
    obtain ⟨hcomment, _⟩ := h.fits text hread hclean
    refine ⟨text, hread.text_eq, utf8Text_bytes _, ?_, ?_⟩
    · rw [lines_merged hhost hid hkey hcomment hread hdate, kept_of_sound hclean.1]
    · exact desired_marked hkey hcomment (markerPrefix_visible hhost hid) (markerPrefix_ne_nil task) hdate

omit hhost hid hkey in
/-- A file that has the key already stays as it is. -/
theorem unchanged_holds {out : List UInt8}
    (hmerge : mergeAuthorizedKeys task.markerPrefix key.publicText contents date = .ok (.unchanged out)) :
    out = contents ∧ ∃ text line, utf8Text contents = some text ∧
      ((lines text).filter fun line => validateMarkedLine line task.markerPrefix = .ok ()) = [line] ∧
      MarkedFor task.markerPrefix key.publicText line := by
  obtain ⟨text, hread, _, hclean, hresult⟩ := mergeAuthorizedKeys_ok.mp hmerge
  rcases hresult with ⟨hcurrent, heq⟩ | ⟨_, heq⟩
  · cases heq
    obtain ⟨line, hline, hmark, htext⟩ := hcurrent
    refine ⟨rfl, text, line, hread.text_eq, ?_, hclean.1 line hline hmark, htext⟩
    rw [← marked_of_sound hclean.1]
    have hmem : line ∈ marked task.markerPrefix (lines text) := by simp [marked, hline, hmark]
    have hcount := hclean.2
    obtain ⟨other, hone⟩ := List.length_eq_one_iff.mp
      (show (marked task.markerPrefix (lines text)).length = 1 by
        have := List.length_pos_of_mem hmem
        omega)
    rw [hone] at hmem ⊢
    rw [List.mem_singleton.mp hmem]
  · cases heq

theorem Mergeable.again (h : Mergeable libs task key contents) {merge : Merge} {date' : List Char}
    (hmerge : mergeAuthorizedKeys task.markerPrefix key.publicText contents date = .ok merge)
    (hdate' : validateDate date' = .ok ()) :
    mergeAuthorizedKeys task.markerPrefix key.publicText merge.contents date' = .ok (.unchanged merge.contents) := by
  obtain ⟨text, hread, hdate, hclean, hresult⟩ := mergeAuthorizedKeys_ok.mp hmerge
  rcases hresult with ⟨hcurrent, rfl⟩ | ⟨hcurrent, rfl⟩
  · exact mergeAuthorizedKeys_ok.mpr ⟨text, hread, hdate', hclean, Or.inl ⟨hcurrent, rfl⟩⟩
  · obtain ⟨hcomment, hfits⟩ := h.fits text hread hclean
    have hsize := hfits.resolve_left hcurrent
    have hnew := desired_marked hkey hcomment (markerPrefix_visible hhost hid) (markerPrefix_ne_nil task) hdate
    refine mergeAuthorizedKeys_ok.mpr ⟨_, readable_merged hhost hid hkey hcomment hread hdate hsize, hdate', ?_⟩
    rw [lines_merged hhost hid hkey hcomment hread hdate]
    refine ⟨clean_merged hnew.1, Or.inl ⟨?_, rfl⟩⟩
    exact ⟨_, List.mem_append_right _ List.mem_cons_self, infix_of_marked hnew.1, hnew.2⟩

theorem Mergeable.mergeLaw (h : Mergeable libs task key contents) : MergeLaw libs task key.publicText contents := by
  constructor
  · intro date out hmerge
    obtain ⟨text, htext, hout, hlines, hmarked⟩ := h.replaced hhost hid hkey hmerge
    exact ⟨text, _, _, htext, hout, hlines, hmarked⟩
  · exact fun date out hmerge => unchanged_holds hmerge
  · exact fun date merge hmerge date' hdate' => h.again hhost hid hkey hmerge hdate'
  · intro date out hmerge text htext line hline hother
    obtain ⟨text', htext', hout, hlines, _⟩ := h.replaced hhost hid hkey hmerge
    rw [htext] at htext'
    cases htext'
    refine ⟨_, hout, ?_⟩
    rw [hlines]
    apply List.mem_append_left
    exact List.mem_filter.mpr ⟨hline, decide_eq_true (hother.not_marked hhost hid)⟩
  · rintro text front line rest date hread hlines hother ⟨merge, hmerge⟩
    obtain ⟨text', hread', hdate, hclean, _⟩ := mergeAuthorizedKeys_ok.mp hmerge
    have htext' : text' = unlines (front ++ rest) :=
      Option.some.inj (hread'.text_eq.symm.trans (utf8Text_bytes _))
    rw [htext', hread.lines_without hlines] at hclean
    have hwhole := clean_insert hclean (h.foreign text front line rest hread hlines hother hclean)
    rw [← hlines] at hwhole
    exact merge_accepts hread hwhole hdate

omit hkey in
theorem MergeLaw.mergeable (h : MergeLaw libs task key.publicText contents) : Mergeable libs task key contents := by
  have hdate : validateDate "2026-09-22".toList = .ok () := by decide
  constructor
  · intro text hread hclean
    by_cases hcurrent : Current task.markerPrefix key.publicText (lines text)
    · refine ⟨?_, Or.inl hcurrent⟩
      obtain ⟨line, _, _, htext⟩ := hcurrent
      by_contra hcomment
      exact keyText_ne hcomment line htext
    · have hmerge := mergeAuthorizedKeys_ok.mpr ⟨text, hread, hdate, hclean, Or.inr ⟨hcurrent, rfl⟩⟩
      obtain ⟨text', hread', _, _, hresult⟩ := mergeAuthorizedKeys_ok.mp (h.again _ _ hmerge _ hdate)
      rcases hresult with ⟨hnow, _⟩ | ⟨_, heq⟩
      · obtain ⟨line, _, _, htext⟩ := hnow
        refine ⟨?_, Or.inr ?_⟩
        · by_contra hcomment
          exact keyText_ne hcomment line htext
        · have hsize := hread'.size
          rw [Merge.contents, length_utf8Bytes, unlines_append, utf8Length_append, utf8Length_desired hdate] at hsize
          exact hsize
      · cases heq
  · intro text front line rest hread hlines hother hclean hmark
    have hreduced := hread.without hlines
    have hclean' : Clean task.markerPrefix (lines (unlines (front ++ rest))) := by
      rw [hread.lines_without hlines]
      exact hclean
    obtain ⟨merge, hmerge⟩ := h.blameless text front line rest _ hread hlines hother
      (merge_accepts hreduced hclean' hdate)
    obtain ⟨text', hread', _, hwhole, _⟩ := mergeAuthorizedKeys_ok.mp hmerge
    have htext' : text' = text := Option.some.inj (hread'.text_eq.symm.trans hread.text_eq)
    rw [htext', hlines] at hwhole
    exact hother.not_marked hhost hid (hwhole.1 line (by simp) hmark)

end

end

/-- Merging keeps its promise for a file exactly if the key has no comment, the merged file stays within the
limit for reading it, and no line of another task carries the mark of this one. -/
theorem mergeLaw_iff {libs : Keys} {task : StorageBoxTask} {key : PrivateKey} {generated : GeneratedKey}
    (htask : task.validate libs = .ok ()) (hkey : key.algorithm = "ssh-ed25519")
    (hgenerated : GeneratedKey.fromPrivateKey libs key = .ok generated) (contents : List UInt8) :
    MergeLaw libs task generated.publicKey contents ↔ Mergeable libs task key contents := by
  obtain ⟨hhost, hid⟩ := validate_named htask
  have hpublic : generated.publicKey = key.publicText := by
    unfold GeneratedKey.fromPrivateKey at hgenerated
    split at hgenerated
    next => cases hgenerated
    next =>
      cases hgenerated
      rfl
  rw [hpublic]
  exact ⟨fun h => h.mergeable hhost hid, fun h => h.mergeLaw hhost hid hkey⟩

def zeroKey (comment : List Char) : PrivateKey :=
  ⟨"ssh-ed25519", prefixed 4 (List.replicate 32 0), comment⟩

def sampleKeys : Keys where
  pinFingerprint _ := some "SHA256:kmYcvdi2GkPeWxB6XLjrZB8JHsy2Hm8luHMFp9GMvqk"
  fromOpenssh _ := some (zeroKey [])
  toOpenssh _ := some "-----".toList

def sampleTask (host : String) : StorageBoxTask where
  schemaVersion := 1
  taskId := "web.db.box.key".toList
  targetHostname := host.toList
  storageBoxHost := "u1.example".toList
  storageBoxUser := "u1".toList
  port := 23
  pinnedHostKeys := [(zeroKey []).publicText]
  output := ⟨"/box/key".toList, "root".toList, "root".toList, 0o400⟩

theorem mergeLaw_empty : MergeLaw sampleKeys (sampleTask "web") (zeroKey []).publicText [] := by
  have htask : (sampleTask "web").validate sampleKeys = .ok () := by decide
  have hlines : ∀ text, Readable [] text → lines text = [] := by
    intro text hread
    have htext : text = [] := Option.some.inj (hread.text_eq.symm.trans (utf8Text_bytes []))
    rw [htext]
    rfl
  have hgenerated : GeneratedKey.fromPrivateKey sampleKeys (zeroKey []) = .ok ⟨_, (zeroKey []).publicText⟩ := rfl
  refine (mergeLaw_iff htask rfl hgenerated []).mpr ⟨?_, ?_⟩
  · intro text hread _
    rw [hlines text hread]
    exact ⟨rfl, Or.inr (by decide)⟩
  · intro text front line rest hread hline
    rw [hlines text hread] at hline
    simp at hline

/-- The line that is written for a key with a comment. -/
def commentedLine : List Char :=
  desired (sampleTask "web").markerPrefix (zeroKey "root@web".toList).publicText "2026-09-22".toList

theorem fileText_bytes (text : List Char) : fileText (utf8Bytes text) = .ok text := by
  rw [fileText, utf8Text_bytes]

/-- A line that cannot be scanned refuses the file. -/
theorem mergeAuthorizedKeys_refused {mark publicKey text date : List Char} {e : Error}
    (hclean : ¬ (1024 * 1024 < (utf8Bytes text).length ∨ 0 ∈ utf8Bytes text ∨ 13 ∈ utf8Bytes text))
    (hdate : validateDate date = .ok ()) (hscan : (lines text).foldlM (scanLine mark publicKey) {} = .error e) :
    mergeAuthorizedKeys mark publicKey (utf8Bytes text) date = .error e := by
  unfold mergeAuthorizedKeys
  simp only [if_neg hclean, hdate, fileText_bytes, hscan, bind, Except.bind]

/-- A key that has a comment is not found again: the second merge refuses the line that the first one wrote. -/
theorem commented_notMerged :
    (sampleTask "web").validate sampleKeys = .ok () ∧
      mergeAuthorizedKeys (sampleTask "web").markerPrefix (zeroKey "root@web".toList).publicText []
        "2026-09-22".toList = .ok (.replaced (utf8Bytes (commentedLine ++ ['\n']))) ∧
      mergeAuthorizedKeys (sampleTask "web").markerPrefix (zeroKey "root@web".toList).publicText
        (utf8Bytes (commentedLine ++ ['\n'])) "2026-09-22".toList =
          .error (.invalidAuthorizedKeys "malformed task marker entry") ∧
      ¬ MergeLaw sampleKeys (sampleTask "web") (zeroKey "root@web".toList).publicText [] := by
  have hdate : validateDate "2026-09-22".toList = .ok () := by decide
  have hfirst : mergeAuthorizedKeys (sampleTask "web").markerPrefix (zeroKey "root@web".toList).publicText []
      "2026-09-22".toList = .ok (.replaced (utf8Bytes (commentedLine ++ ['\n']))) := by decide +kernel
  have hclean : ¬ (1024 * 1024 < (utf8Bytes (commentedLine ++ ['\n'])).length ∨
      0 ∈ utf8Bytes (commentedLine ++ ['\n']) ∨ 13 ∈ utf8Bytes (commentedLine ++ ['\n'])) := by
    rw [utf8Bytes_flatMap]
    decide +kernel
  have hlines : lines (commentedLine ++ ['\n']) = [commentedLine] := by
    rw [lines_line (by decide) (by decide), lines_nil]
  have hmark : (sampleTask "web").markerPrefix <:+: commentedLine :=
    ⟨(zeroKey "root@web".toList).publicText ++ [' '], "2026-09-22".toList, by
      simp only [commentedLine, desired, List.append_assoc, List.cons_append, List.nil_append]⟩
  have hbad : validateMarkedLine commentedLine (sampleTask "web").markerPrefix =
      .error (.invalidAuthorizedKeys "malformed task marker entry") := by decide
  have hscan : scanLine (sampleTask "web").markerPrefix (zeroKey "root@web".toList).publicText {} commentedLine =
      .error (.invalidAuthorizedKeys "malformed task marker entry") := by
    rw [scanLine, if_pos hmark, hbad]
    rfl
  have hsecond : mergeAuthorizedKeys (sampleTask "web").markerPrefix
      (zeroKey "root@web".toList).publicText (utf8Bytes (commentedLine ++ ['\n'])) "2026-09-22".toList =
        .error (.invalidAuthorizedKeys "malformed task marker entry") := by
    refine mergeAuthorizedKeys_refused hclean hdate ?_
    rw [hlines, List.foldlM_cons, hscan]
    rfl
  refine ⟨by decide, hfirst, hsecond, fun h => ?_⟩
  have hagain := h.again _ _ hfirst _ hdate
  rw [Merge.contents, hsecond] at hagain
  cases hagain

end NixSecrets.StorageBox
