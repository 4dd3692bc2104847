import NixSecrets.RustText

namespace NixSecrets.JoinedText

theorem not_mem_intercalate {c separator : Char} (hne : c ≠ separator) {texts : List (List Char)}
    (h : ∀ text ∈ texts, c ∉ text) : c ∉ [separator].intercalate texts := by
  induction texts with
  | nil => simp
  | cons text rest ih =>
    have hfirst := h text (List.mem_cons_self ..)
    have hrest := ih fun x hx => h x (List.mem_cons_of_mem _ hx)
    cases rest with
    | nil => simpa using hfirst
    | cons second rest =>
      rw [List.intercalate_cons_cons]
      simp only [List.mem_append, List.mem_singleton]
      intro hmem
      rcases hmem with (h | h) | h
      · exact hfirst h
      · exact hne h
      · exact hrest h

theorem splitOnceText_mem {c : Char} {front : List Char} (h : c ∉ front) (rest : List Char) :
    splitOnceText [c] (front ++ c :: rest) = some (front, rest) := by
  induction front with
  | nil =>
    have hfront : [c].isPrefixOf (c :: rest) = true := by simp [List.isPrefixOf]
    rw [List.nil_append, splitOnceText, hfront]
    rfl
  | cons d front ih =>
    have hd : c ≠ d ∧ c ∉ front := by simpa using h
    have hfront : [c].isPrefixOf (d :: (front ++ c :: rest)) = false := by
      simp [List.isPrefixOf, hd.1]
    rw [List.cons_append, splitOnceText, hfront, ih hd.2]
    rfl

theorem splitOnceText_not_mem {c : Char} {text : List Char} (h : c ∉ text) : splitOnceText [c] text = none := by
  induction text with
  | nil => rfl
  | cons d text ih =>
    have hd : c ≠ d ∧ c ∉ text := by simpa using h
    have hfront : [c].isPrefixOf (d :: text) = false := by
      simp [List.isPrefixOf, hd.1]
    rw [splitOnceText, hfront, ih hd.2]
    rfl

end NixSecrets.JoinedText
