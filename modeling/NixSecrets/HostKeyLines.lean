import NixSecrets.HostKeyPersist

namespace NixSecrets.HostKey

theorem refuseWhen_ok {c : Prop} [Decidable c] {message : String} {u : Unit} :
    refuseWhen c message = .ok u ↔ ¬ c := by
  unfold refuseWhen
  split
  next hc => simp [hc]
  next hc => simp [hc]

/-- Text after a line break starts a line of its own. -/
theorem lines_newline_append (front rest : List Char) :
    lines (front ++ '\n' :: rest) = (front.splitOn '\n').map (fun line => (stripEnd ['\r'] line).getD line) ++
      lines rest := by
  unfold lines
  rw [List.splitOn_append_cons_self]
  have hlast : (front.splitOn '\n' ++ rest.splitOn '\n').getLast? = (rest.splitOn '\n').getLast? := by
    rw [List.getLast?_append]
    cases hrest : (rest.splitOn '\n').getLast? with
    | none => exact absurd (List.getLast?_eq_none_iff.mp hrest) (List.splitOn_ne_nil '\n' rest)
    | some line => rfl
  dsimp only
  rw [hlast]
  split
  next => rw [List.dropLast_append_of_ne_nil (List.splitOn_ne_nil '\n' rest), List.map_append]
  next => rw [List.map_append]

theorem lines_nil : lines [] = [] := rfl

/-- A text that ends its last line. -/
theorem lines_closed {front : List Char} :
    lines (front ++ ['\n']) = (front.splitOn '\n').map fun line => (stripEnd ['\r'] line).getD line := by
  rw [lines_newline_append, lines_nil, List.append_nil]

/-- A text whose last line is still open. -/
theorem lines_open {text : List Char} (hne : text ≠ []) (hlast : text.getLast? ≠ some '\n') :
    lines text = (text.splitOn '\n').map fun line => (stripEnd ['\r'] line).getD line := by
  have hopen : (text.splitOn '\n').getLast? ≠ some [] := by
    intro hempty
    have htext : ['\n'].intercalate (text.splitOn '\n') = text := List.intercalate_splitOn '\n'
    obtain ⟨parts, hparts⟩ := List.getLast?_eq_some_iff.mp hempty
    rw [hparts] at htext
    cases parts with
    | nil => exact hne htext.symm
    | cons part parts =>
      apply hlast
      rw [← htext]
      have hend : ∃ front, ['\n'].intercalate (part :: parts ++ [[]]) = front ++ ['\n'] := by
        clear hparts hempty htext
        induction parts generalizing part with
        | nil => exact ⟨part, by simp [List.intercalate, List.intersperse]⟩
        | cons next parts ih =>
          obtain ⟨front, hfront⟩ := ih next
          refine ⟨part ++ '\n' :: front, ?_⟩
          rw [List.cons_append] at hfront ⊢
          rw [List.cons_append]
          simp only [List.intercalate, List.intersperse, List.flatten_cons] at hfront ⊢
          rw [hfront]
          simp
      obtain ⟨front, hfront⟩ := hend
      rw [hfront, List.getLast?_append]
      rfl
  unfold lines
  dsimp only
  rw [if_neg hopen]

theorem not_mem_lines {text line : List Char} (h : line ∈ lines text) : '\n' ∉ line := by
  have hparts : ∀ xs : List Char, ∀ part ∈ xs.splitOn '\n', '\n' ∉ part := by
    intro xs
    induction xs with
    | nil => simp
    | cons c xs ih =>
      intro part hpart
      rw [List.splitOn_cons_eq_if_modifyHead] at hpart
      split at hpart
      next =>
        rcases List.mem_cons.mp hpart with rfl | hpart
        · simp
        · exact ih part hpart
      next hc =>
        obtain ⟨first, rest, hsplit⟩ := List.exists_cons_of_ne_nil (List.splitOn_ne_nil '\n' xs)
        rw [hsplit] at hpart ih
        rcases List.mem_cons.mp hpart with rfl | hpart
        · intro hmem
          rcases List.mem_cons.mp hmem with heq | hmem
          · simp [← heq] at hc
          · exact ih first List.mem_cons_self hmem
        · exact ih part (List.mem_cons_of_mem _ hpart)
  obtain ⟨part, hpart, rfl⟩ := List.mem_map.mp h
  have hwhole : '\n' ∉ part := by
    apply hparts text part
    split at hpart
    next => exact (List.dropLast_sublist _).subset hpart
    next => exact hpart
  unfold stripEnd
  split
  next => exact fun hmem => hwhole (List.mem_of_mem_take hmem)
  next => exact hwhole

/-- What is added stands on lines of its own, and the earlier lines stay. -/
theorem lines_addition {lookup : String} {text : List Char} {missing : List PresentedKey} :
    lines (text ++ addition lookup text missing) = lines text ++ lines (missing.flatMap (keyLine lookup)) := by
  unfold addition
  dsimp only
  by_cases hopen : missing.flatMap (keyLine lookup) ≠ [] ∧ text ≠ [] ∧ text.getLast? ≠ some '\n'
  · rw [if_pos hopen, lines_newline_append, lines_open hopen.2.1 hopen.2.2]
  · rw [if_neg hopen]
    by_cases hadded : missing.flatMap (keyLine lookup) = []
    · rw [hadded, lines_nil, List.append_nil, List.append_nil]
    · by_cases htext : text = []
      · rw [htext, lines_nil, List.nil_append, List.nil_append]
      · have hlast : text.getLast? = some '\n' := by
          by_contra hlast
          exact hopen ⟨hadded, htext, hlast⟩
        obtain ⟨front, rfl⟩ := List.getLast?_eq_some_iff.mp hlast
        rw [List.append_assoc, List.singleton_append, lines_newline_append, lines_closed]

/-- A line without line breaks is read as it was written. -/
theorem lines_line {line rest : List Char} (hbreak : '\n' ∉ line) (hreturn : '\r' ∉ line) :
    lines (line ++ '\n' :: rest) = line :: lines rest := by
  have hsplit : line.splitOn '\n' = [line] := List.splitOn_eq_singleton hbreak
  have hstrip : stripEnd ['\r'] line = none := by
    refine if_neg fun hsuffix => hreturn ?_
    exact (List.isSuffixOf_iff_suffix.mp hsuffix).subset List.mem_cons_self
  rw [lines_newline_append, hsplit, List.map_singleton, hstrip]
  rfl

/-- The line of a key, without its end. -/
def entryText (lookup : String) (key : PresentedKey) : List Char :=
  lookup.toList ++ ' ' :: (key.algorithm.toList ++ ' ' :: key.encoded.toList)

theorem keyLine_eq (lookup : String) (key : PresentedKey) : keyLine lookup key = entryText lookup key ++ ['\n'] := by
  simp [keyLine, entryText, String.toList_append]

theorem lines_keyLines {lookup : String} {keys : List PresentedKey}
    (hclean : ∀ key ∈ keys, '\n' ∉ entryText lookup key ∧ '\r' ∉ entryText lookup key) :
    lines (keys.flatMap (keyLine lookup)) = keys.map (entryText lookup) := by
  induction keys with
  | nil => rfl
  | cons key keys ih =>
    obtain ⟨hbreak, hreturn⟩ := hclean key List.mem_cons_self
    rw [List.flatMap_cons, keyLine_eq, List.append_assoc, List.singleton_append, lines_line hbreak hreturn,
      ih fun other hother => hclean other (List.mem_cons_of_mem key hother), List.map_cons]

/-- Three words that are written with blanks between them are read back. -/
theorem splitOnP_three {p : Char → Bool} {a b c : List Char} (hblank : p ' ' = true)
    (ha : ∀ x ∈ a, p x = false) (hb : ∀ x ∈ b, p x = false) (hc : ∀ x ∈ c, p x = false)
    (ha' : a ≠ []) (hb' : b ≠ []) (hc' : c ≠ []) :
    ((a ++ ' ' :: (b ++ ' ' :: c)).splitOnP p).filter (· ≠ []) = [a, b, c] := by
  rw [List.splitOnP_append_cons_of_forall_mem ha _ hblank, List.splitOnP_append_cons_of_forall_mem hb _ hblank,
    List.splitOnP_eq_singleton hc]
  simp [ha', hb', hc']

/-- The fields of a line as ssh reads them. -/
def sshFields (line : List Char) : List (List Char) :=
  (line.splitOnP fun c => c = ' ' || c = '\t').filter (· ≠ [])

structure Entry where
  marked : Bool
  hosts : List Char
  key : PresentedKey
  deriving DecidableEq, Repr

/-- A known_hosts line as ssh reads it. -/
def parseEntry (line : List Char) : Option Entry :=
  match sshFields line with
  | first :: second :: third :: rest =>
    if first.head? = some '#' then none
    else if first.head? = some '@' then
      rest.head?.map fun encoded => ⟨true, second, ⟨String.ofList third, String.ofList encoded⟩⟩
    else some ⟨false, first, ⟨String.ofList second, String.ofList third⟩⟩
  | _ => none

theorem parseEntry_comment {line : List Char} (h : line.head? = some '#') : parseEntry line = none := by
  obtain ⟨rest, rfl⟩ := List.head?_eq_some_iff.mp h
  have hfields : ∃ first fields, sshFields ('#' :: rest) = ('#' :: first) :: fields := by
    unfold sshFields
    rw [List.splitOnP_cons_eq_if_modifyHead]
    obtain ⟨first, parts, hparts⟩ := List.exists_cons_of_ne_nil
      (List.splitOnP_ne_nil (fun c => decide (c = ' ') || decide (c = '\t')) rest)
    rw [hparts]
    exact ⟨first, parts.filter (· ≠ []), by simp⟩
  obtain ⟨first, fields, hfields⟩ := hfields
  unfold parseEntry
  rw [hfields]
  split
  next hlist =>
    cases hlist
    rfl
  next => rfl

section

variable (names : List Char → String → Bool)

/-- The lines that say something about a host, marked or not. -/
def entriesFor (lookup : String) (text : List Char) : List (List Char) :=
  (lines text).filter fun line => (parseEntry line).any fun entry => names entry.hosts lookup

/-- The keys that are pinned for a host. -/
def pinnedKeys (lookup : String) (text : List Char) : List PresentedKey :=
  (lines text).filterMap fun line => (parseEntry line).bind fun entry =>
    if !entry.marked && names entry.hosts lookup then some entry.key else none

/-- `ssh-keygen -F` prints the lines about a host, and exits with status 1 if there is none; a plain name is
one of its own patterns. -/
structure Finds (keygen : String → List Char → Output) : Prop where
  absent : ∀ lookup text, entriesFor names lookup text = [] →
    (keygen lookup text).success = false ∧ (keygen lookup text).diagnostic = "exit status: 1"
  present : ∀ lookup text, entriesFor names lookup text ≠ [] → (keygen lookup text).success = true
  prints : ∀ lookup text, entriesFor names lookup text ≠ [] →
    (∀ line ∈ entriesFor names lookup text, '\r' ∉ line) →
      ((lines (keygen lookup text).stdout).filter fun line => line.head? ≠ some '#') =
        entriesFor names lookup text
  plain : ∀ lookup : String, lookup ≠ "" → lookup.toList.all hostChar = true →
    names lookup.toList lookup = true

end

theorem hostChar_clean {c : Char} (h : hostChar c = true) : isAsciiWhitespace c = false := by
  simp only [hostChar, Bool.not_eq_true', Bool.or_eq_false_iff] at h
  exact h.1.1

theorem encodedChar_clean {c : Char} (h : encodedChar c = true) : isWhitespace c = false := by
  have hrange : 43 ≤ c.toNat ∧ c.toNat ≤ 122 := by
    delta encodedChar Char.isAlphanum Char.isAlpha Char.isUpper Char.isLower Char.isDigit at h
    simp only [Bool.or_eq_true, Bool.and_eq_true, decide_eq_true_eq, List.contains_eq_mem] at h
    rcases h with ((h | h) | h) | h
    · have hlow := UInt32.le_iff_toNat_le.mp h.1
      have hhigh := UInt32.le_iff_toNat_le.mp h.2
      exact ⟨Nat.le_trans (by decide) hlow, Nat.le_trans hhigh (by decide)⟩
    · have hlow := UInt32.le_iff_toNat_le.mp h.1
      have hhigh := UInt32.le_iff_toNat_le.mp h.2
      exact ⟨Nat.le_trans (by decide) hlow, Nat.le_trans hhigh (by decide)⟩
    · have hlow := UInt32.le_iff_toNat_le.mp h.1
      have hhigh := UInt32.le_iff_toNat_le.mp h.2
      exact ⟨Nat.le_trans (by decide) hlow, Nat.le_trans hhigh (by decide)⟩
    · have hlist : "+/=".toList = ['+', '/', '='] := rfl
      rw [hlist] at h
      simp only [List.mem_cons, List.not_mem_nil, or_false] at h
      rcases h with rfl | rfl | rfl
      · decide
      · decide
      · decide
  unfold isWhitespace
  simp only [Bool.or_eq_false_iff, Bool.and_eq_false_iff, decide_eq_false_iff_not, beq_eq_false_iff_ne]
  omega

theorem isWhitespace_ascii {c : Char} (h : isWhitespace c = false) : isAsciiWhitespace c = false := by
  by_contra hwhite
  simp only [isAsciiWhitespace, Bool.not_eq_false, Bool.or_eq_true, decide_eq_true_eq] at hwhite
  rcases hwhite with (((rfl | rfl) | rfl) | rfl) | rfl
  · exact absurd h (by decide)
  · exact absurd h (by decide)
  · exact absurd h (by decide)
  · exact absurd h (by decide)
  · exact absurd h (by decide)

/-- A key that is saved has no blank in it. -/
theorem PresentedKey.savable_clean {key : PresentedKey} (h : key.savable = true) :
    (key.algorithm.toList ≠ [] ∧ ∀ c ∈ key.algorithm.toList, isWhitespace c = false) ∧
      key.encoded.toList ≠ [] ∧ ∀ c ∈ key.encoded.toList, isWhitespace c = false := by
  simp only [PresentedKey.savable, Bool.and_eq_true, List.contains_eq_mem, decide_eq_true_eq, bne_iff_ne] at h
  obtain ⟨⟨halgorithm, hencoded⟩, hchars⟩ := h
  have hall : ∀ a ∈ savedAlgorithms, a.toList ≠ [] ∧ a.toList.all (fun c => !isWhitespace c) = true := by
    decide +kernel
  obtain ⟨hne, hclean⟩ := hall _ halgorithm
  refine ⟨⟨hne, fun c hc => ?_⟩, fun hempty => ?_, fun c hc => ?_⟩
  · simpa using List.all_eq_true.mp hclean c hc
  · exact hencoded (String.toList_eq_nil_iff.mp hempty)
  · exact encodedChar_clean (List.all_eq_true.mp hchars c hc)

theorem lookupName_chars {P : Char → Prop} {host : String} {port : Nat} (hhost : ∀ c ∈ host.toList, P c)
    (hbracket : ∀ c ∈ ['[', ']', ':'], P c) (hdigit : ∀ c, c.isDigit = true → P c) :
    ∀ c ∈ (lookupName host port).toList, P c := by
  intro c hc
  unfold lookupName at hc
  split at hc
  next => exact hhost c hc
  next =>
    have hopen : "[".toList = ['['] := rfl
    have hclose : "]:".toList = [']', ':'] := rfl
    simp only [String.toList_append, List.mem_append, hopen, hclose] at hc
    rcases hc with ((hc | hc) | hc) | hc
    · exact hbracket c (by simp_all)
    · exact hhost c hc
    · exact hbracket c (by simp_all)
    · have hdigits : (toString port).toList = Nat.toDigits 10 port := Nat.toList_repr
      rw [hdigits] at hc
      exact hdigit c (Nat.isDigit_of_mem_toDigits (by decide) (by decide) hc)

theorem isDigit_range {c : Char} (h : c.isDigit = true) : 48 ≤ c.toNat ∧ c.toNat ≤ 57 := by
  delta Char.isDigit at h
  simp only [Bool.and_eq_true, decide_eq_true_eq] at h
  exact ⟨UInt32.le_iff_toNat_le.mp h.1, UInt32.le_iff_toNat_le.mp h.2⟩

theorem isDigit_hostChar {c : Char} (h : c.isDigit = true) : hostChar c = true := by
  obtain ⟨hlow, hhigh⟩ := isDigit_range h
  have hne : ∀ d ∈ [' ', '\t', '\n', '\x0c', '\r', ',', '*', '?', '!', '|'], c ≠ d := by
    intro d hd heq
    subst heq
    have hall : ∀ d ∈ [' ', '\t', '\n', '\x0c', '\r', ',', '*', '?', '!', '|'],
        ¬ (48 ≤ d.toNat ∧ d.toNat ≤ 57) := by simp
    exact hall c hd ⟨hlow, hhigh⟩
  have hlist : ",*?!|".toList = [',', '*', '?', '!', '|'] := rfl
  simp only [hostChar, isAsciiWhitespace, hlist]
  simp only [List.mem_cons, List.not_mem_nil, or_false, forall_eq_or_imp, forall_eq] at hne
  obtain ⟨h1, h2, h3, h4, h5, h6, h7, h8, h9, h10⟩ := hne
  have hzero : c.toNat ≠ 0 := by omega
  simp [h1, h2, h3, h4, h5, h6, h7, h8, h9, h10, hzero]

theorem isDigit_clean {c : Char} (h : c.isDigit = true) : isWhitespace c = false := by
  obtain ⟨hlow, hhigh⟩ := isDigit_range h
  unfold isWhitespace
  simp only [Bool.or_eq_false_iff, Bool.and_eq_false_iff, decide_eq_false_iff_not, beq_eq_false_iff_ne]
  omega

theorem lookupName_ne_nil {host : String} {port : Nat} (h : host ≠ "") : (lookupName host port).toList ≠ [] := by
  unfold lookupName
  split
  next => exact mt String.toList_eq_nil_iff.mp h
  next =>
    have hopen : "[".toList = ['['] := rfl
    simp [String.toList_append, hopen]

def HostIdentity.lookup (identity : HostIdentity) : String := lookupName identity.host identity.port

/-- What the writer checks of an identity. -/
structure WellNamed (identity : HostIdentity) : Prop where
  keys : identity.keys ≠ []
  host : identity.host ≠ ""
  chars : ∀ c ∈ identity.host.toList, hostChar c = true
  savable : ∀ key ∈ identity.keys, key.savable = true

theorem checkIdentity_ok {identity : HostIdentity} {u : Unit} :
    checkIdentity identity = .ok u ↔ WellNamed identity := by
  simp only [checkIdentity, except_bind_ok, refuseWhen_ok, exists_const, not_or, Classical.not_not,
    List.all_eq_true]
  constructor
  · rintro ⟨⟨hkeys, hhost, hchars⟩, hsavable⟩
    exact ⟨hkeys, hhost, hchars, hsavable⟩
  · intro h
    exact ⟨⟨h.keys, h.host, h.chars⟩, h.savable⟩

namespace WellNamed

variable {identity : HostIdentity}

theorem lookup_chars (h : WellNamed identity) : ∀ c ∈ identity.lookup.toList, hostChar c = true :=
  lookupName_chars h.chars (by simp [hostChar, isAsciiWhitespace]) fun _ => isDigit_hostChar

theorem ascii_clean {c : Char} (h : isAsciiWhitespace c = false) :
    ((c = ' ' || c = '\t') = false) ∧ c ≠ '\n' ∧ c ≠ '\r' := by
  simp only [isAsciiWhitespace, Bool.or_eq_false_iff, decide_eq_false_iff_not] at h ⊢
  exact ⟨h.1.1.1, h.1.1.2, h.2⟩

theorem entryText_chars (h : WellNamed identity) {key : PresentedKey} (hkey : key ∈ identity.keys) :
    '\n' ∉ entryText identity.lookup key ∧ '\r' ∉ entryText identity.lookup key := by
  obtain ⟨⟨_, halgorithm⟩, _, hencoded⟩ := PresentedKey.savable_clean (h.savable key hkey)
  have hall : ∀ c ∈ entryText identity.lookup key, c ≠ '\n' ∧ c ≠ '\r' := by
    intro c hc
    simp only [entryText, List.mem_append, List.mem_cons] at hc
    rcases hc with hc | rfl | hc | rfl | hc
    · exact (ascii_clean (hostChar_clean (h.lookup_chars c hc))).2
    · decide
    · exact (ascii_clean (isWhitespace_ascii (halgorithm c hc))).2
    · decide
    · exact (ascii_clean (isWhitespace_ascii (hencoded c hc))).2
  exact ⟨fun hmem => (hall _ hmem).1 rfl, fun hmem => (hall _ hmem).2 rfl⟩

/-- A saved line is an entry for the host, unless its name looks like a marker or a comment. -/
theorem parseEntry_entryText (h : WellNamed identity) {key : PresentedKey} (hkey : key ∈ identity.keys) :
    parseEntry (entryText identity.lookup key) =
      if identity.lookup.toList.head? = some '#' ∨ identity.lookup.toList.head? = some '@' then none
      else some ⟨false, identity.lookup.toList, key⟩ := by
  obtain ⟨⟨halgorithm', halgorithm⟩, hencoded', hencoded⟩ := PresentedKey.savable_clean (h.savable key hkey)
  have hfields : sshFields (entryText identity.lookup key) =
      [identity.lookup.toList, key.algorithm.toList, key.encoded.toList] := by
    apply splitOnP_three (by decide)
    · intro c hc
      exact (ascii_clean (hostChar_clean (h.lookup_chars c hc))).1
    · intro c hc
      exact (ascii_clean (isWhitespace_ascii (halgorithm c hc))).1
    · intro c hc
      exact (ascii_clean (isWhitespace_ascii (hencoded c hc))).1
    · exact lookupName_ne_nil h.host
    · exact halgorithm'
    · exact hencoded'
  unfold parseEntry
  rw [hfields]
  dsimp only
  by_cases hcomment : identity.lookup.toList.head? = some '#'
  · rw [if_pos hcomment, if_pos (Or.inl hcomment)]
  · rw [if_neg hcomment]
    by_cases hmarker : identity.lookup.toList.head? = some '@'
    · rw [if_pos hmarker, if_pos (Or.inr hmarker)]
      rfl
    · rw [if_neg hmarker, if_neg (not_or.mpr ⟨hcomment, hmarker⟩), String.ofList_toList, String.ofList_toList]

/-- A saved line is read back as its key. -/
theorem parseKeyLine_entryText (h : WellNamed identity)
    (hplain : ∀ c ∈ identity.host.toList, isWhitespace c = false)
    (hcomment : identity.lookup.toList.head? ≠ some '#') (hmarker : identity.lookup.toList.head? ≠ some '@')
    {key : PresentedKey} (hkey : key ∈ identity.keys) :
    parseKeyLine (entryText identity.lookup key) = some ⟨identity.lookup, key.algorithm, key.encoded⟩ := by
  obtain ⟨⟨halgorithm', halgorithm⟩, hencoded', hencoded⟩ := PresentedKey.savable_clean (h.savable key hkey)
  have hlookup : ∀ c ∈ identity.lookup.toList, isWhitespace c = false :=
    lookupName_chars hplain (by simp [isWhitespace]) fun _ => isDigit_clean
  have hne : identity.lookup.toList ≠ [] := lookupName_ne_nil h.host
  have hwords : words (entryText identity.lookup key) =
      [identity.lookup.toList, key.algorithm.toList, key.encoded.toList] :=
    splitOnP_three (by decide) hlookup halgorithm hencoded hne halgorithm' hencoded'
  have hfirst : (entryText identity.lookup key).head? = identity.lookup.toList.head? := by
    unfold entryText
    cases hlist : identity.lookup.toList with
    | nil => exact absurd hlist hne
    | cons c rest => rfl
  unfold parseKeyLine
  rw [hfirst, if_neg hcomment, hwords]
  dsimp only
  rw [if_neg hmarker, String.ofList_toList, String.ofList_toList, String.ofList_toList]

end WellNamed

end NixSecrets.HostKey
