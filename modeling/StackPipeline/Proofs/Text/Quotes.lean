import StackPipeline.Proofs.Text.Blanks
import StackPipeline.Text.Quoted

/-!
A quoted literal is cut off exactly where it ends, whatever follows it, and fits on one line.  On one
line it is the only literal that is read as its text; a line feed that stands raw is read as well.
-/

namespace StackPipeline.Text.Quoted

theorem splitBody_escape (c : Char) (rest : List Char) :
    splitBody (escape c ++ rest) = splitBody.prepend c (splitBody rest) := by
  rw [escape.eq_def]
  split
  · rfl
  · rfl
  · rfl
  · rename_i hquote hslash hfeed
    rw [List.cons_append, List.nil_append, splitBody.eq_def]
    split <;> simp_all

/-- Reading up to the closing quote undoes writing. -/
theorem splitBody_body (text rest : List Char) :
    splitBody (body text ++ '"' :: rest) = .ok (text, rest) := by
  induction text with
  | nil => rfl
  | cons c text ih =>
      rw [body, List.flatMap_cons, List.append_assoc, splitBody_escape]
      rw [body] at ih
      rw [ih]
      rfl

theorem split_literal (text : String) (rest : List Char) :
    split (literal text ++ rest) = .ok (text, rest) := by
  have hsplit := splitBody_body text.toList rest
  rw [literal, List.cons_append, List.append_assoc, List.singleton_append, split, hsplit]
  simp

theorem of_prepend_eq_ok {c : Char} {found : Except Problem (List Char × List Char)}
    {text rest : List Char} (h : splitBody.prepend c found = .ok (text, rest)) :
    ∃ tail, text = c :: tail ∧ found = .ok (tail, rest) := by
  cases found with
  | error problem => cases h
  | ok parts =>
      obtain ⟨tail, rest⟩ := parts
      cases h
      exact ⟨tail, rfl, rfl⟩

/-- A text and a rest are cut from `chars` at a closing quote.  A line feed of the text may be spelled
raw; where none is, the spelling is the written form. -/
def Cut (text rest chars : List Char) : Prop :=
  ∃ spelling, chars = spelling ++ '"' :: rest ∧ ('\n' ∉ spelling → spelling = body text)

namespace Cut

variable {text rest chars : List Char}

theorem nil (rest : List Char) : Cut [] rest ('"' :: rest) :=
  ⟨[], rfl, fun _ => rfl⟩

theorem escape (c : Char) (h : Cut text rest chars) : Cut (c :: text) rest (escape c ++ chars) := by
  obtain ⟨spelling, rfl, hspelling⟩ := h
  refine ⟨Quoted.escape c ++ spelling, (List.append_assoc _ _ _).symm, fun hfeed => ?_⟩
  rw [List.mem_append, not_or] at hfeed
  rw [hspelling hfeed.2, body, body, List.flatMap_cons]

theorem feed (h : Cut text rest chars) : Cut ('\n' :: text) rest ('\n' :: chars) := by
  obtain ⟨spelling, rfl, -⟩ := h
  exact ⟨'\n' :: spelling, rfl, fun hfeed => absurd List.mem_cons_self hfeed⟩

end Cut

theorem escape_of_ne {c : Char} (hquote : c ≠ '"') (hslash : c ≠ '\\') (hfeed : c ≠ '\n') :
    escape c = [c] := by
  rw [escape.eq_def]
  split
  · contradiction
  · contradiction
  · contradiction
  · rfl

theorem cut_of_splitBody {chars text rest : List Char} (h : splitBody chars = .ok (text, rest)) :
    Cut text rest chars := by
  induction chars using splitBody.induct generalizing text with
  | case1 | case3 => cases h
  | case2 rest =>
      cases h
      exact .nil rest
  | case4 chars ih | case5 chars ih | case6 chars ih =>
      rw [splitBody] at h
      obtain ⟨tail, rfl, htail⟩ := of_prepend_eq_ok h
      exact (ih htail).escape _
  | case7 other chars hquote hslash hfeed =>
      rw [splitBody] at h
      · cases h
      all_goals assumption
  | case8 c chars hquote hend hquoted hslashed hfed hother ih =>
      rw [splitBody] at h
      · obtain ⟨tail, rfl, htail⟩ := of_prepend_eq_ok h
        -- The cases before have dealt with a backslash, whatever follows it.
        have hslash : c ≠ '\\' := by
          rintro rfl
          cases chars with
          | nil => exact hend rfl rfl
          | cons next chars => exact hother next chars rfl rfl
        by_cases hfeed : c = '\n'
        · rw [hfeed]
          exact (ih htail).feed
        · have hcut := (ih htail).escape c
          rwa [escape_of_ne hquote hslash hfeed] at hcut
      all_goals assumption

/-- What is split is cut in two, and its first part is the literal unless it holds a raw line feed. -/
theorem exists_front_of_split {chars rest : List Char} {text : String}
    (h : split chars = .ok (text, rest)) :
    ∃ front, chars = front ++ rest ∧ ('\n' ∉ front → front = literal text) := by
  rw [split.eq_def] at h
  split at h
  · split at h
    · rename_i hbody
      cases h
      obtain ⟨spelling, rfl, hspelling⟩ := cut_of_splitBody hbody
      refine ⟨'"' :: (spelling ++ ['"']), by simp, fun hfeed => ?_⟩
      have hfeed : '\n' ∉ spelling := by
        intro hmem
        exact hfeed (List.mem_cons_of_mem _ (List.mem_append_left _ hmem))
      rw [literal, String.toList_ofList, ← hspelling hfeed]
    · cases h
  · cases h

/-- What follows a literal is part of the text it is cut off from. -/
theorem subset_of_split {chars rest : List Char} {text : String}
    (h : split chars = .ok (text, rest)) : rest ⊆ chars := by
  obtain ⟨front, rfl, -⟩ := exists_front_of_split h
  exact List.subset_append_right _ _

/-- A literal stands on one line. -/
theorem not_mem_literal (text : String) : '\n' ∉ literal text := by
  have hescape : ∀ c, '\n' ∉ escape c := by
    intro c
    rw [escape.eq_def]
    split
    · decide
    · decide
    · decide
    · rename_i hfeed
      simpa using Ne.symm hfeed
  simp [literal, body, hescape]

theorem getLast?_literal (text : String) : (literal text).getLast? = some '"' := by
  rw [literal, ← List.cons_append, List.getLast?_concat]

/-- A literal is no word, for its text may hold blanks, but none of these stands at an end. -/
theorem bare_literal (text : String) : Bare (literal text) := by
  refine ⟨?_, ?_⟩
  · rintro c ⟨⟩
    rfl
  · intro c hc
    rw [getLast?_literal] at hc
    cases hc
    rfl

/-- A one-line front that is split off as a text is the literal for that text. -/
theorem eq_literal_of_split {front rest : List Char} {text : String} (hfeed : '\n' ∉ front)
    (h : split (front ++ rest) = .ok (text, rest)) : front = literal text := by
  obtain ⟨cut, hcut, hliteral⟩ := exists_front_of_split h
  obtain rfl := List.append_cancel_right hcut
  exact hliteral hfeed

/-- **Literals are an exact code.**  Where no line feed stands raw, a text and a rest are split off
exactly when the literal for the text and then the rest were written.  Literals fit on one line, are
cut off from whatever follows them, and no other one-line literal is read as the same text. -/
theorem split_eq_ok_iff_literal :
    (∀ chars text rest, '\n' ∉ chars →
      (split chars = .ok (text, rest) ↔ chars = literal text ++ rest)) ∧
    (∀ text, '\n' ∉ literal text) ∧
    (∀ text rest, split (literal text ++ rest) = .ok (text, rest)) ∧
    (∀ left right text leftRest rightRest, '\n' ∉ left → '\n' ∉ right →
      split (left ++ leftRest) = .ok (text, leftRest) →
      split (right ++ rightRest) = .ok (text, rightRest) → left = right) := by
  refine ⟨?_, not_mem_literal, split_literal, ?_⟩
  · intro chars text rest hfeed
    constructor
    · intro h
      obtain ⟨front, rfl, hfront⟩ := exists_front_of_split h
      rw [hfront fun hmem => hfeed (List.mem_append_left _ hmem)]
    · rintro rfl
      exact split_literal text rest
  · intro left right text leftRest rightRest hleft hright hleftSplit hrightSplit
    rw [eq_literal_of_split hleft hleftSplit, eq_literal_of_split hright hrightSplit]

/-- A run of backslashes before a quote of the text and before the closing one, a character of several
bytes, and a rest that holds quotes and ends in a backslash. -/
def crowded : List Char :=
  "\"\\\\\\\"é\\n\\\\\", \"x\\\" \\".toList

/-- The literal whose text is a backslash and a letter that would together be an escape. -/
def slashed : List Char :=
  "\"\\\\n\"".toList

theorem split_eq_ok_iff_literal_crowded :
    '\n' ∉ crowded ∧ split crowded = .ok ("\\\"é\n\\", ", \"x\\\" \\".toList) ∧
      slashed = literal "\\n" ∧ split slashed ≠ .ok ("\n", []) := by
  obtain ⟨hiff, hline, -, hunique⟩ := split_eq_ok_iff_literal
  have hfeed : '\n' ∉ crowded := by decide
  have hslashed : '\n' ∉ slashed := by decide
  refine ⟨hfeed, (hiff _ _ _ hfeed).2 rfl, ?_, fun h => ?_⟩
  · exact hunique slashed (literal "\\n") "\\n" [] [] hslashed (hline _) rfl rfl
  · have hsame := hunique slashed (literal "\n") "\n" [] [] hslashed (hline _) h rfl
    exact absurd hsame (by decide)

/-- A raw line feed is read as well, though no literal is written with one. -/
example : split "\"\n\"".toList = .ok ("\n", []) ∧ "\"\n\"".toList ≠ literal "\n" :=
  ⟨rfl, by decide⟩

end StackPipeline.Text.Quoted
