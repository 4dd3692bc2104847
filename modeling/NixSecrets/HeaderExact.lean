import NixSecrets.AgeHeader

namespace NixSecrets.Crypto

open Inventory (fields)

theorem sortTags_eq {xs ys : List StanzaTag} : sortTags xs = sortTags ys ↔ xs.Perm ys := by
  have htrans (a b c : StanzaTag) (hab : decide (toLex a ≤ toLex b) = true) (hbc : decide (toLex b ≤ toLex c) = true) :
      decide (toLex a ≤ toLex c) = true :=
    decide_eq_true (le_trans (of_decide_eq_true hab) (of_decide_eq_true hbc))
  have htotal (a b : StanzaTag) : (decide (toLex a ≤ toLex b) || decide (toLex b ≤ toLex a)) = true := by
    rcases le_total (toLex a) (toLex b) with h | h
    · simp [h]
    · simp [h]
  have hsame : ∀ zs : List StanzaTag, (sortTags zs).Perm zs := fun zs => List.mergeSort_perm zs _
  constructor
  · intro h
    exact (hsame xs).symm.trans (h ▸ hsame ys)
  · intro h
    have hperm : (sortTags xs).Perm (sortTags ys) := (hsame xs).trans (h.trans (hsame ys).symm)
    refine hperm.eq_of_pairwise (fun a b _ _ hab hba => ?_) (List.pairwise_mergeSort htrans htotal xs)
      (List.pairwise_mergeSort htrans htotal ys)
    exact toLex.injective (le_antisymm (of_decide_eq_true hab) (of_decide_eq_true hba))

theorem utf8Text_some {bytes : List UInt8} {text : List Char} (h : utf8Text bytes = some text) :
    bytes = utf8Bytes text := by
  obtain ⟨string, hread, rfl⟩ := Option.map_eq_some_iff.mp h
  rw [String.fromUTF8?] at hread
  split at hread
  next hvalid =>
    cases Option.some.inj hread
    rw [utf8Bytes, String.ofList_toList]
    rfl
  next => cases hread

theorem checkStanza_ok {arguments : List (List Char)} {tag : StanzaTag} :
    checkStanza arguments = .ok tag ↔ sshTag arguments = some tag := by
  cases arguments with
  | nil => simp [checkStanza, sshTag]
  | cons kind rest =>
    cases rest with
    | nil =>
      simp only [checkStanza, sshTag]
      split
      · simp [invalidHeader]
      · simp
    | cons tag' rest =>
      simp only [checkStanza, sshTag]
      split
      · simp
      · simp

/-- The arguments of the stanza lines among the lines. -/
def stanzaArguments (body : List (List Char)) : List (List (List Char)) := body.filterMap stanzaFields

theorem verifyLines_split {expected actual : List StanzaTag} {index : Nat} {lines : List (List UInt8)}
    (h : verifyLines expected index actual lines = .ok ()) :
    ∃ (body : List (List Char)) (footer : List Char) (rest : List (List UInt8)),
      lines = body.map utf8Bytes ++ utf8Bytes footer :: rest ∧
      (∀ line ∈ body, isFooter line = false) ∧ isFooter footer = true := by
  induction lines generalizing index actual with
  | nil => cases h
  | cons line lines ih =>
    rw [verifyLines] at h
    split at h
    next => cases h
    next =>
      cases htext : utf8Text line with
      | none =>
        simp only [htext] at h
        cases h
      | some text =>
        have hline := utf8Text_some htext
        simp only [htext] at h
        by_cases hfooter : isFooter text = true
        · exact ⟨[], text, lines, by rw [hline]; rfl, fun _ hmem => absurd hmem List.not_mem_nil, hfooter⟩
        · rw [if_neg hfooter] at h
          have hmore : ∃ tags, verifyLines expected (index + 1) tags lines = .ok () := by
            cases hfields : stanzaFields text with
            | none =>
              simp only [hfields] at h
              exact ⟨actual, h⟩
            | some arguments =>
              simp only [hfields] at h
              cases hcheck : checkStanza arguments with
              | error error =>
                simp only [hcheck] at h
                cases h
              | ok tag =>
                simp only [hcheck] at h
                exact ⟨actual ++ [tag], h⟩
          obtain ⟨tags, hmore⟩ := hmore
          obtain ⟨body, footer, rest, hlines, hbody, hend⟩ := ih hmore
          refine ⟨text :: body, footer, rest, by rw [hlines, hline]; rfl, ?_, hend⟩
          intro line' hmem
          rcases List.mem_cons.mp hmem with heq | hmem
          · rw [heq]
            exact eq_false_of_ne_true hfooter
          · exact hbody line' hmem

theorem verifyLines_header {expected actual : List StanzaTag} {index : Nat} {body : List (List Char)}
    {footer : List Char} {rest : List (List UInt8)} (hbody : ∀ line ∈ body, isFooter line = false)
    (hfooter : isFooter footer = true) :
    verifyLines expected index actual (body.map utf8Bytes ++ utf8Bytes footer :: rest) = .ok () ↔
      index + body.length ≤ maxHeaderLines ∧
        ∃ tags, (stanzaArguments body).mapM sshTag = some tags ∧ sortTags (actual ++ tags) = expected := by
  induction body generalizing index actual with
  | nil =>
    rw [List.map_nil, List.nil_append, verifyLines, utf8Text_bytes]
    simp only [hfooter, if_true, stanzaArguments, List.filterMap_nil, List.mapM_nil, List.length_nil]
    split
    next hlarge => simp [invalidHeader]; omega
    next hsmall =>
      split
      next hsame => simp [hsame]; omega
      next hother => simp [hother]
  | cons text body ih =>
    have hplain : isFooter text = false := hbody text List.mem_cons_self
    have hcount : index + 1 + body.length = index + (body.length + 1) := by omega
    have htail (tags : List StanzaTag) :
        verifyLines expected (index + 1) tags (body.map utf8Bytes ++ utf8Bytes footer :: rest) = .ok () ↔
          index + (body.length + 1) ≤ maxHeaderLines ∧
            ∃ more, (stanzaArguments body).mapM sshTag = some more ∧ sortTags (tags ++ more) = expected := by
      rw [← hcount]
      exact ih (fun line hline => hbody line (List.mem_cons_of_mem _ hline))
    rw [List.map_cons, List.cons_append, verifyLines, utf8Text_bytes]
    simp only [hplain, Bool.false_eq_true, if_false, List.length_cons]
    split
    next hlarge => simp [invalidHeader]; omega
    next hsmall =>
      cases hfields : stanzaFields text with
      | none =>
        have hsame : stanzaArguments (text :: body) = stanzaArguments body := List.filterMap_cons_none hfields
        simp only
        rw [htail, hsame]
      | some arguments =>
        have hsame : stanzaArguments (text :: body) = arguments :: stanzaArguments body :=
          List.filterMap_cons_some hfields
        simp only
        rw [hsame, List.mapM_cons]
        cases hcheck : checkStanza arguments with
        | error error =>
          have hnone : sshTag arguments = none := by
            cases htag : sshTag arguments with
            | none => rfl
            | some tag =>
              rw [checkStanza_ok.mpr htag] at hcheck
              cases hcheck
          simp [hnone]
        | ok tag =>
          simp only
          rw [htail, checkStanza_ok.mp hcheck]
          cases hmore : (stanzaArguments body).mapM sshTag with
          | none => simp
          | some tags => simp

theorem listLines_header {listed tags : List StanzaTag} {index : Nat} {body : List (List Char)}
    {footer : List Char} {rest : List (List UInt8)} (hbody : ∀ line ∈ body, isFooter line = false)
    (hfooter : isFooter footer = true) (hindex : index + body.length ≤ maxHeaderLines)
    (hlisted : listed = (stanzaArguments body).filterMap sshTag) :
    listLines index tags (body.map utf8Bytes ++ utf8Bytes footer :: rest) = .ok (tags ++ listed) := by
  induction body generalizing index tags listed with
  | nil =>
    have hsmall : ¬ maxHeaderLines < index := by
      simp only [List.length_nil] at hindex
      omega
    rw [List.map_nil, List.nil_append, listLines, utf8Text_bytes, if_neg hsmall]
    simp only [hfooter, if_true, hlisted, stanzaArguments, List.filterMap_nil, List.append_nil]
  | cons text body ih =>
    have hplain : isFooter text = false := hbody text List.mem_cons_self
    rw [List.length_cons] at hindex
    have hsmall : ¬ maxHeaderLines < index := by omega
    rw [List.map_cons, List.cons_append, listLines, utf8Text_bytes, if_neg hsmall]
    simp only [hplain, Bool.false_eq_true, if_false]
    have htail (known : List StanzaTag) :
        listLines (index + 1) known (body.map utf8Bytes ++ utf8Bytes footer :: rest) =
          .ok (known ++ (stanzaArguments body).filterMap sshTag) :=
      ih (fun line hline => hbody line (List.mem_cons_of_mem _ hline)) (by omega) rfl
    cases hfields : stanzaFields text with
    | none =>
      have hsame : stanzaArguments (text :: body) = stanzaArguments body := List.filterMap_cons_none hfields
      simp only
      rw [htail, hlisted, hsame]
    | some arguments =>
      have hsame : stanzaArguments (text :: body) = arguments :: stanzaArguments body :=
        List.filterMap_cons_some hfields
      simp only
      rw [htail, hlisted, hsame]
      cases htag : sshTag arguments with
      | none => simp [htag]
      | some tag => simp [htag]

theorem filterMap_of_mapM {arguments : List (List (List Char))} {tags : List StanzaTag}
    (h : arguments.mapM sshTag = some tags) : tags = arguments.filterMap sshTag := by
  induction arguments generalizing tags with
  | nil => exact (Option.some.inj h).symm
  | cons argument arguments ih =>
    rw [List.mapM_cons] at h
    obtain ⟨tag, htag, h⟩ := Option.bind_eq_some_iff.mp h
    obtain ⟨more, hmore, h⟩ := Option.bind_eq_some_iff.mp h
    rw [List.filterMap_cons_some htag, ← ih hmore]
    exact (Option.some.inj h).symm

theorem splitOn_lines {lines : List (List UInt8)} {rest : List UInt8} (h : ∀ line ∈ lines, (10 : UInt8) ∉ line) :
    (lines.flatMap (fun line => line ++ [10]) ++ rest).splitOn 10 = lines ++ rest.splitOn 10 := by
  induction lines with
  | nil => rfl
  | cons line lines ih =>
    have hfirst : (10 : UInt8) ∉ line := h line List.mem_cons_self
    have htail := ih (fun line' hmem => h line' (List.mem_cons_of_mem _ hmem))
    rw [List.flatMap_cons, List.append_assoc, List.append_assoc, List.singleton_append,
      List.splitOn_append_cons_self_of_not_mem hfirst, htail, List.cons_append]

theorem isBase64Char_ne {c : Char} (h : isBase64Char c = true) : c ≠ '-' ∧ c ≠ '\n' := by
  constructor
  · intro heq
    rw [heq] at h
    exact absurd h (by decide)
  · intro heq
    rw [heq] at h
    exact absurd h (by decide)

theorem isVisible_ne {c : Char} (h : isVisible c = true) : c ≠ ' ' ∧ c ≠ '\n' := by
  constructor
  · intro heq
    rw [heq] at h
    exact absurd h (by decide)
  · intro heq
    rw [heq] at h
    exact absurd h (by decide)

theorem isPrefixOf_arrow {line : List Char} {front : List Char} (h : '-' ∉ line) :
    ('-' :: front).isPrefixOf line = false := by
  cases line with
  | nil => rfl
  | cons c line =>
    have hc : '-' ≠ c := fun heq => h (heq ▸ List.mem_cons_self)
    simp [List.isPrefixOf, hc]

/-- A line of base64 is neither a footer nor the start of a stanza. -/
theorem base64Line_plain {line : List Char} (h : line.all isBase64Char = true) :
    isFooter line = false ∧ stanzaFields line = none ∧ '\n' ∉ line := by
  have hchars : ∀ c ∈ line, c ≠ '-' ∧ c ≠ '\n' := fun c hc => isBase64Char_ne (List.all_eq_true.mp h c hc)
  have hdash : '-' ∉ line := fun hmem => (hchars _ hmem).1 rfl
  refine ⟨isPrefixOf_arrow hdash, ?_, fun hmem => (hchars _ hmem).2 rfl⟩
  have harrow : "-> ".toList.isPrefixOf line = false := isPrefixOf_arrow hdash
  rw [stanzaFields, strip, harrow]
  rfl

theorem mem_intercalate {parts : List (List Char)} {c d : Char} (h : c ∈ [d].intercalate parts) :
    c = d ∨ ∃ part ∈ parts, c ∈ part := by
  induction parts with
  | nil => cases h
  | cons part parts ih =>
    cases parts with
    | nil =>
      rw [List.intercalate_singleton] at h
      exact .inr ⟨part, List.mem_cons_self, h⟩
    | cons next parts =>
      rw [List.intercalate_cons_cons, List.append_assoc, List.mem_append, List.mem_append,
        List.mem_singleton] at h
      rcases h with h | h | h
      · exact .inr ⟨part, List.mem_cons_self, h⟩
      · exact .inl h
      · rcases ih h with h | ⟨part', hpart, h⟩
        · exact .inl h
        · exact .inr ⟨part', List.mem_cons_of_mem _ hpart, h⟩

theorem Stanza.Wellformed.fields_visible {stanza : Stanza} (h : stanza.Wellformed) :
    ∀ part ∈ stanza.kind :: stanza.arguments, ∀ c ∈ part, c ≠ ' ' ∧ c ≠ '\n' := by
  intro part hpart c hc
  have hvisible : part.all isVisible = true := by
    rcases List.mem_cons.mp hpart with heq | hmem
    · rw [heq]
      exact h.kind.2
    · exact (h.arguments part hmem).2
  exact isVisible_ne (List.all_eq_true.mp hvisible c hc)

theorem Stanza.Wellformed.line_fields {stanza : Stanza} (h : stanza.Wellformed) :
    isFooter stanza.line = false ∧ stanzaFields stanza.line = some (stanza.kind :: stanza.arguments) ∧
      '\n' ∉ stanza.line := by
  refine ⟨rfl, ?_, ?_⟩
  · have hsplit := List.splitOn_intercalate ' '
      (fun part hpart hmem => (h.fields_visible part hpart _ hmem).1 rfl)
      (List.cons_ne_nil stanza.kind stanza.arguments)
    show some (([' '].intercalate (stanza.kind :: stanza.arguments)).splitOn ' ') = _
    rw [hsplit]
  · intro hmem
    rcases List.mem_append.mp hmem with hmem | hmem
    · exact absurd hmem (by decide)
    · rcases mem_intercalate hmem with heq | ⟨part, hpart, hmem⟩
      · cases heq
      · exact (h.fields_visible part hpart _ hmem).2 rfl

theorem Stanza.Wellformed.body_plain {stanza : Stanza} (h : stanza.Wellformed) :
    ∀ line ∈ stanza.body, isFooter line = false ∧ stanzaFields line = none ∧ '\n' ∉ line := by
  intro line hline
  rcases List.mem_append.mp hline with hmem | hmem
  · exact base64Line_plain (h.fullLines line hmem).2
  · rw [List.mem_singleton.mp hmem]
    exact base64Line_plain h.lastLine.2

theorem Stanza.Wellformed.stanzaArguments_lines {stanza : Stanza} (h : stanza.Wellformed) :
    stanzaArguments stanza.lines = [stanza.kind :: stanza.arguments] := by
  have hbody : stanzaArguments stanza.body = [] :=
    List.filterMap_eq_nil_iff.mpr fun line hline => (h.body_plain line hline).2.1
  rw [stanzaArguments, Stanza.lines, List.filterMap_cons_some h.line_fields.2.1]
  exact congrArg _ hbody

namespace AgeFile.Wellformed

variable {file : AgeFile}

theorem stanzaArguments_lines (h : file.Wellformed) :
    stanzaArguments file.stanzaLines = file.stanzas.map fun stanza => stanza.kind :: stanza.arguments := by
  rw [stanzaArguments, AgeFile.stanzaLines, List.filterMap_flatMap, List.map_eq_flatMap]
  exact List.flatMap_congr fun stanza hstanza => (h.stanzas stanza hstanza).stanzaArguments_lines

theorem stanzaLines_plain (h : file.Wellformed) :
    ∀ line ∈ file.stanzaLines, isFooter line = false ∧ '\n' ∉ line := by
  intro line hline
  obtain ⟨stanza, hstanza, hline⟩ := List.mem_flatMap.mp hline
  have hwell := h.stanzas stanza hstanza
  rcases List.mem_cons.mp hline with heq | hmem
  · rw [heq]
    exact ⟨hwell.line_fields.1, hwell.line_fields.2.2⟩
  · exact ⟨(hwell.body_plain line hmem).1, (hwell.body_plain line hmem).2.2⟩

theorem footer_plain (h : file.Wellformed) : isFooter file.footer = true ∧ '\n' ∉ file.footer := by
  refine ⟨rfl, fun hmem => ?_⟩
  rcases List.mem_append.mp hmem with hmem | hmem
  · exact absurd hmem (by decide)
  · exact (base64Line_plain h.mac.2).2.2 hmem

theorem headerLines_bytes (h : file.Wellformed) :
    headerLines file.bytes =
      .ok (file.stanzaLines.map utf8Bytes ++ utf8Bytes file.footer :: file.payload.splitOn 10) := by
  have hlines : ∀ line ∈ (headerVersion :: file.stanzaLines ++ [file.footer]).map utf8Bytes, (10 : UInt8) ∉ line := by
    intro line hline
    obtain ⟨text, htext, rfl⟩ := List.mem_map.mp hline
    have hplain : '\n' ∉ text := by
      rcases List.mem_append.mp htext with hmem | hmem
      · rcases List.mem_cons.mp hmem with heq | hmem
        · rw [heq]
          decide
        · exact (h.stanzaLines_plain text hmem).2
      · rw [List.mem_singleton.mp hmem]
        exact h.footer_plain.2
    exact fun hmem => hplain ((ascii_mem_utf8Bytes (d := '\n') (by decide)).mp hmem)
  have hsplit : (((headerVersion :: file.stanzaLines ++ [file.footer]).map utf8Bytes).flatMap
      (fun line => line ++ [10]) ++ file.payload).splitOn 10 = _ := splitOn_lines hlines
  rw [List.flatMap_map] at hsplit
  have hbytes : file.bytes.splitOn 10 = utf8Bytes headerVersion ::
      (file.stanzaLines.map utf8Bytes ++ utf8Bytes file.footer :: file.payload.splitOn 10) := by
    rw [AgeFile.bytes, hsplit]
    simp
  rw [headerLines, hbytes]
  simp

theorem bytes_ne_nil (file : AgeFile) : file.bytes ≠ [] := by
  rw [AgeFile.bytes, List.cons_append, List.flatMap_cons]
  simp

end AgeFile.Wellformed

section

variable {sha256 : List UInt8 → Digest256}

theorem verify_ok {ciphertext : List UInt8} {keys : List (List Char)} :
    verifySshRecipientHeader sha256 ciphertext keys = .ok () ↔
      ciphertext ≠ [] ∧ ciphertext.length ≤ maxCiphertextSize ∧
      ∃ expected lines, keys.mapM (stanzaTag sha256) = .ok expected ∧ headerLines ciphertext = .ok lines ∧
        verifyLines (sortTags expected) 0 [] lines = .ok () := by
  rw [verifySshRecipientHeader]
  by_cases hsize : ciphertext = [] ∨ maxCiphertextSize < ciphertext.length
  · rw [if_pos hsize]
    constructor
    · intro h
      cases h
    · rintro ⟨hempty, hlarge, _⟩
      rcases hsize with hsize | hsize
      · exact absurd hsize hempty
      · omega
  · rw [if_neg hsize]
    have hempty : ciphertext ≠ [] := fun h => hsize (.inl h)
    have hlarge : ciphertext.length ≤ maxCiphertextSize := by
      have hnot : ¬ maxCiphertextSize < ciphertext.length := fun h => hsize (.inr h)
      omega
    cases keys.mapM (stanzaTag sha256) with
    | error error => simp [bind, Except.bind]
    | ok expected =>
      cases headerLines ciphertext with
      | error error => simp [bind, Except.bind]
      | ok lines => simp [bind, Except.bind, hempty, hlarge]

/-- The key blob in the second field of a public key line. -/
def keyBlob (sshPublicKey : List Char) : Option (List UInt8) := (fields sshPublicKey)[1]?.bind base64Decode

theorem stanzaTag_ok {key : List Char} {tag : StanzaTag} (h : stanzaTag sha256 key = .ok tag) :
    ∃ blob, keyBlob key = some blob ∧ tag.2 = tagOf sha256 blob := by
  rw [stanzaTag] at h
  split at h
  next => cases h
  next kind rest hfields =>
    split at h
    next => cases h
    next =>
      split at h
      next => cases h
      next blob hblob =>
        cases h
        refine ⟨blob, ?_, rfl⟩
        rw [keyBlob, hfields, ← hblob]
        cases rest with
        | nil => rfl
        | cons text rest => rfl

theorem fingerprintStanzaTag_of (blob : List UInt8) :
    fingerprintStanzaTag (fingerprintOf sha256 blob) = some (tagOf sha256 blob) := by
  have hstrip : strip "SHA256:".toList (fingerprintOf sha256 blob) =
      some (base64EncodeNoPad (sha256 blob).val) := rfl
  have hlength := (sha256 blob).property
  rw [fingerprintStanzaTag, hstrip]
  simp [base64DecodeNoPad_encode, hlength, tagOf]

end

namespace AgeFile.Wellformed

variable {sha256 : List UInt8 → Digest256} {file : AgeFile}

theorem mapM_sshTag (h : file.Wellformed) :
    (stanzaArguments file.stanzaLines).mapM sshTag = file.stanzas.mapM Stanza.tag? := by
  rw [h.stanzaArguments_lines, List.mapM_map]
  rfl

theorem verify_iff (h : file.Wellformed) (keys : List (List Char)) :
    verifySshRecipientHeader sha256 file.bytes keys = .ok () ↔
      file.stanzaLines.length ≤ maxHeaderLines ∧ file.bytes.length ≤ maxCiphertextSize ∧
      ∃ expected tags, keys.mapM (stanzaTag sha256) = .ok expected ∧
        file.stanzas.mapM Stanza.tag? = some tags ∧ tags.Perm expected := by
  have hlines (expected : List StanzaTag) :
      verifyLines (sortTags expected) 0 [] (file.stanzaLines.map utf8Bytes ++
        utf8Bytes file.footer :: file.payload.splitOn 10) = .ok () ↔
      0 + file.stanzaLines.length ≤ maxHeaderLines ∧
        ∃ tags, (stanzaArguments file.stanzaLines).mapM sshTag = some tags ∧
          sortTags ([] ++ tags) = sortTags expected :=
    verifyLines_header (fun line hline => (h.stanzaLines_plain line hline).1) h.footer_plain.1
  rw [verify_ok]
  constructor
  · rintro ⟨_, hsize, expected, lines, hexpected, hheader, hverify⟩
    rw [h.headerLines_bytes] at hheader
    cases hheader
    obtain ⟨hcount, tags, htags, hsame⟩ := (hlines expected).mp hverify
    rw [h.mapM_sshTag] at htags
    exact ⟨by omega, hsize, expected, tags, hexpected, htags, sortTags_eq.mp hsame⟩
  · rintro ⟨hcount, hsize, expected, tags, hexpected, htags, hperm⟩
    have hverify := (hlines expected).mpr
      ⟨by omega, tags, h.mapM_sshTag.trans htags, sortTags_eq.mpr hperm⟩
    exact ⟨bytes_ne_nil file, hsize, expected, _, hexpected, h.headerLines_bytes, hverify⟩

theorem sshStanzaTags_bytes (h : file.Wellformed) (hcount : file.stanzaLines.length ≤ maxHeaderLines) :
    sshStanzaTags file.bytes = .ok (file.stanzas.filterMap Stanza.tag?) := by
  have hlisted : file.stanzas.filterMap Stanza.tag? = (stanzaArguments file.stanzaLines).filterMap sshTag := by
    rw [h.stanzaArguments_lines, List.filterMap_map]
    rfl
  have hlist : listLines 0 [] (file.stanzaLines.map utf8Bytes ++
      utf8Bytes file.footer :: file.payload.splitOn 10) = .ok ([] ++ file.stanzas.filterMap Stanza.tag?) :=
    listLines_header (fun line hline => (h.stanzaLines_plain line hline).1) h.footer_plain.1 (by omega) hlisted
  rw [sshStanzaTags, h.headerLines_bytes]
  exact hlist

end AgeFile.Wellformed

theorem headerLines_ok {ciphertext : List UInt8} {lines : List (List UInt8)} (h : headerLines ciphertext = .ok lines) :
    ciphertext.splitOn 10 = utf8Bytes headerVersion :: lines := by
  rw [headerLines] at h
  split at h
  next first rest hsplit =>
    split at h
    next hversion =>
      cases h
      rw [hsplit, hversion]
    next => cases h
  next => cases h

/-- The header of a byte string whose recipients can be told: the version line, lines that are no footer, the
footer. -/
structure Header (ciphertext : List UInt8) (body : List (List Char)) (footer : List Char) : Prop where
  lines : ∃ rest, ciphertext.splitOn 10 =
    utf8Bytes headerVersion :: (body.map utf8Bytes ++ utf8Bytes footer :: rest)
  plain : ∀ line ∈ body, isFooter line = false
  closed : isFooter footer = true
  count : body.length ≤ maxHeaderLines

theorem verify_header {sha256 : List UInt8 → Digest256} {ciphertext : List UInt8} {keys : List (List Char)}
    (h : verifySshRecipientHeader sha256 ciphertext keys = .ok ()) :
    ciphertext.length ≤ maxCiphertextSize ∧ ∃ body footer expected tags, Header ciphertext body footer ∧
      keys.mapM (stanzaTag sha256) = .ok expected ∧ (stanzaArguments body).mapM sshTag = some tags ∧
      tags.Perm expected ∧ sshStanzaTags ciphertext = .ok tags := by
  obtain ⟨_, hsize, expected, lines, hexpected, hheader, hverify⟩ := verify_ok.mp h
  obtain ⟨body, footer, rest, hlines, hbody, hfooter⟩ := verifyLines_split hverify
  rw [hlines] at hverify
  obtain ⟨hcount, tags, htags, hsame⟩ := (verifyLines_header hbody hfooter).mp hverify
  have hwhole : Header ciphertext body footer :=
    ⟨⟨rest, by rw [headerLines_ok hheader, hlines]⟩, hbody, hfooter, by omega⟩
  have hlist : listLines 0 [] (body.map utf8Bytes ++ utf8Bytes footer :: rest) = .ok ([] ++ tags) :=
    listLines_header hbody hfooter hcount (filterMap_of_mapM htags)
  refine ⟨hsize, body, footer, expected, tags, hwhole, hexpected, htags, sortTags_eq.mp hsame, ?_⟩
  rw [sshStanzaTags, hheader, hlines]
  exact hlist

/-- The check accepts an age file exactly when its stanzas are those of the keys, and what it accepts has a
header whose stanzas are. -/
theorem verifySshRecipientHeader_exact (sha256 : List UInt8 → Digest256) (keys : List (List Char)) :
    (∀ file : AgeFile, file.Wellformed →
      (verifySshRecipientHeader sha256 file.bytes keys = .ok () ↔
        file.stanzaLines.length ≤ maxHeaderLines ∧ file.bytes.length ≤ maxCiphertextSize ∧
        ∃ expected tags, keys.mapM (stanzaTag sha256) = .ok expected ∧
          file.stanzas.mapM Stanza.tag? = some tags ∧ tags.Perm expected) ∧
      (file.stanzaLines.length ≤ maxHeaderLines →
        sshStanzaTags file.bytes = .ok (file.stanzas.filterMap Stanza.tag?))) ∧
    (∀ ciphertext, verifySshRecipientHeader sha256 ciphertext keys = .ok () →
      ciphertext.length ≤ maxCiphertextSize ∧ ∃ body footer expected tags, Header ciphertext body footer ∧
        keys.mapM (stanzaTag sha256) = .ok expected ∧ (stanzaArguments body).mapM sshTag = some tags ∧
        tags.Perm expected ∧ sshStanzaTags ciphertext = .ok tags) ∧
    (∀ key tag, stanzaTag sha256 key = .ok tag →
      ∃ blob, keyBlob key = some blob ∧ fingerprintStanzaTag (fingerprintOf sha256 blob) = some tag.2) := by
  refine ⟨fun file hfile => ⟨hfile.verify_iff keys, hfile.sshStanzaTags_bytes⟩, fun _ h => verify_header h, ?_⟩
  intro key tag htag
  obtain ⟨blob, hblob, heq⟩ := stanzaTag_ok htag
  exact ⟨blob, hblob, heq ▸ fingerprintStanzaTag_of blob⟩

/-- The digest of three zero bytes. -/
def zerosDigest : List UInt8 :=
  [0x70, 0x9e, 0x80, 0xc8, 0x84, 0x87, 0xa2, 0x41, 0x1e, 0x1e, 0xe4, 0xdf, 0xb9, 0xf2, 0x2a, 0x86, 0x14, 0x92, 0xd2,
    0x0c, 0x47, 0x65, 0x15, 0x0c, 0x0c, 0x79, 0x4a, 0xbd, 0x70, 0xf8, 0x14, 0x7c]

def zerosKey : List Char := "ssh-rsa AAAA".toList

def zerosStanza : Stanza := ⟨"ssh-rsa".toList, ["cJ6AyA".toList], [], "YWJj".toList⟩

def zerosFile : AgeFile := ⟨[zerosStanza], List.replicate 43 'A', []⟩

theorem verifySshRecipientHeader_zeros :
    verifySshRecipientHeader (fun _ => ⟨zerosDigest, by decide⟩) zerosFile.bytes [zerosKey] = .ok () := by
  have hstanza : zerosStanza.Wellformed :=
    ⟨by decide, by decide, by decide, by decide⟩
  have hfile : zerosFile.Wellformed :=
    ⟨fun stanza hmem => List.mem_singleton.mp hmem ▸ hstanza, by decide⟩
  refine (((verifySshRecipientHeader_exact _ _).1 zerosFile hfile).1).mpr
    ⟨by decide, by decide, [("ssh-rsa", "cJ6AyA")], [("ssh-rsa", "cJ6AyA")], by decide, by decide, ?_⟩
  exact List.Perm.refl _

theorem footer_length_le (file : AgeFile) : 4 + file.mac.length + file.payload.length ≤ file.bytes.length := by
  have hfooter : file.footer.length ≤ (utf8Bytes file.footer).length := length_le_utf8Bytes _
  have hlength : file.footer.length = 4 + file.mac.length := by
    rw [AgeFile.footer, List.length_append]
    rfl
  rw [AgeFile.bytes, List.flatMap_append, List.flatMap_singleton, List.length_append, List.length_append,
    List.length_append]
  omega

/-- The version line, a line that is no part of a stanza, and a footer without its code. -/
def looseHeader : List UInt8 := utf8Bytes "age-encryption.org/v1\nx\n--- ".toList

def largeFile : AgeFile := ⟨[], List.replicate 43 'A', List.replicate maxCiphertextSize 0⟩

/-- Bytes that are no age file are accepted, and an age file over the size limit is not. -/
theorem looseHeader_accepted :
    (verifySshRecipientHeader (fun _ => ⟨zerosDigest, by decide⟩) looseHeader [] = .ok () ∧
      ∀ file : AgeFile, file.Wellformed → file.bytes ≠ looseHeader) ∧
    (largeFile.Wellformed ∧ largeFile.stanzaLines.length ≤ maxHeaderLines ∧
      largeFile.stanzas.mapM Stanza.tag? = some [] ∧
      verifySshRecipientHeader (fun _ => ⟨zerosDigest, by decide⟩) largeFile.bytes [] ≠ .ok ()) := by
  refine ⟨⟨by decide +kernel, fun file hfile heq => ?_⟩, ⟨fun _ hmem => absurd hmem List.not_mem_nil, by decide⟩,
    by decide, rfl, fun h => ?_⟩
  · have hlength := footer_length_le file
    have hloose : looseHeader.length = 28 := by decide
    have hmac := hfile.mac.1
    rw [heq] at hlength
    omega
  · have hsize := (verify_header h).1
    have hlength := footer_length_le largeFile
    have hmac : largeFile.mac.length = 43 := List.length_replicate
    have hpayload : largeFile.payload.length = maxCiphertextSize := List.length_replicate
    omega

end NixSecrets.Crypto
