import StackPipeline.Proofs.Listing.WrittenForm
import StackPipeline.Proofs.Pipeline.Compilation

/-!
What is read from a text is spelled well, whatever the text looked like.

Each form is taken apart: the instruction it makes is spelled well because of how the line was cut, and
because no earlier form claimed the line.  Then printing settles after one round, but for a keyword that
is assigned: `return=5` is an assignment, and its text `return = 5` is not.
-/

namespace StackPipeline.Listing

open Text

/-- A line as a text is cut into: no blank at an end, no line feed. -/
structure Line.IsCut (line : Line) : Prop where
  bare : Bare line.text
  no_feed : '\n' ∉ line.text

theorem isCut_of_mem_linesOf {text : List Char} {line : Line} (h : line ∈ linesOf text) :
    line.IsCut := by
  obtain ⟨hline, -⟩ := List.mem_filter.1 h
  obtain ⟨⟨number, row⟩, hrow, rfl⟩ := List.mem_map.1 hline
  have hfeed := not_mem_of_mem_lines (mem_of_mem_numbered hrow)
  exact ⟨bare_trim row, fun hmem => hfeed (mem_of_mem_trim hmem)⟩

section Forms

variable {line : Line} {instruction : Instruction}

/-- A line that is read is claimed by a form. -/
theorem Line.claimed_of_read (h : line.read = .ok instruction) :
    (commentForm line <|> wordForm line <|> returnForm line <|> printForm line <|> gotoForm line <|>
      branchForm line <|> labelForm line <|> assignForm line) = some (.ok instruction) := by
  rw [Line.read, Option.getD_eq_iff] at h
  rcases h with h | ⟨-, ⟨⟩⟩
  exact h

/-- What needs a word is made from one. -/
theorem Line.of_withWord {text : List Char} {make : List Char → Instruction}
    (h : line.withWord text make = .ok instruction) :
    IsWord (trim text) ∧ instruction = make (trim text) := by
  rw [Line.withWord] at h
  split at h
  · rename_i word hword
    obtain ⟨rfl, hisWord⟩ := singleWord?_eq_some_iff.1 hword
    cases h
    exact ⟨hisWord, rfl⟩
  · cases h

theorem wellSpelled_of_commentForm (hline : line.IsCut)
    (h : commentForm line = some (.ok instruction)) : instruction.WellSpelled := by
  rw [commentForm] at h
  split at h
  · rename_i text htext
    cases h
    rw [after?_eq_some_iff] at htext
    rw [Instruction.WellSpelled, String.toList_ofList]
    refine ⟨bare_trim text, fun hmem => hline.no_feed ?_⟩
    rw [htext]
    exact List.mem_append_right _ (mem_of_mem_trim hmem)
  · cases h

theorem wellSpelled_of_wordForm (h : wordForm line = some (.ok instruction)) :
    instruction.WellSpelled := by
  rw [wordForm] at h
  split at h
  · cases h
    trivial
  · split at h
    · cases h
      trivial
    · split at h
      · cases h
        trivial
      · cases h

theorem wellSpelled_of_returnForm (h : returnForm line = some (.ok instruction)) :
    instruction.WellSpelled := by
  rw [returnForm] at h
  split at h
  · obtain ⟨hword, rfl⟩ := Line.of_withWord (Option.some.inj h)
    exact Operand.isToken_ofToken hword
  · cases h

theorem wellSpelled_of_gotoForm (h : gotoForm line = some (.ok instruction)) :
    instruction.WellSpelled := by
  rw [gotoForm] at h
  split at h
  · obtain ⟨hword, rfl⟩ := Line.of_withWord (Option.some.inj h)
    rwa [Instruction.WellSpelled, String.toList_ofList]
  · cases h

theorem wellSpelled_of_branchForm (h : branchForm line = some (.ok instruction)) :
    instruction.WellSpelled := by
  rw [branchForm] at h
  split at h
  · cases h
  · split at h
    · rename_i rest _ condition keyword label hwords
      have hword : ∀ word ∈ [condition, keyword, label], IsWord word :=
        fun word hmem => isWord_of_mem_words (hwords ▸ hmem)
      split at h
      · cases h
        rw [Instruction.WellSpelled, String.toList_ofList]
        exact ⟨Operand.isToken_ofToken (hword condition (by simp)), hword label (by simp)⟩
      · cases h
    · cases h

/-- Arguments are cut at commas and trimmed, and what is empty then is none. -/
theorem isArgument_of_mem_printArguments {tail : List Char} (hfeed : '\n' ∉ tail) {argument : Operand}
    (h : argument ∈ printArguments tail) : argument.IsArgument := by
  obtain ⟨token, htoken, rfl⟩ := List.mem_map.1 h
  obtain ⟨hmem, hne⟩ := List.mem_filter.1 htoken
  obtain ⟨piece, hpiece, rfl⟩ := List.mem_map.1 hmem
  obtain ⟨hcomma, hsub⟩ := of_mem_pieces hpiece
  refine Operand.isArgument_ofToken (by simpa using hne) (bare_trim piece) ?_ ?_
  · exact fun hmem => hcomma (mem_of_mem_trim hmem)
  · exact fun hmem => hfeed (hsub (mem_of_mem_trim hmem))

theorem wellSpelled_of_printForm (hline : line.IsCut)
    (h : printForm line = some (.ok instruction)) : instruction.WellSpelled := by
  rw [printForm] at h
  split at h
  · rename_i rest hrest
    obtain ⟨behind, hbehind, htrim⟩ := Option.map_eq_some_iff.1 hrest
    rw [after?_eq_some_iff] at hbehind
    split at h
    · cases h
    · rename_i text tail hsplit
      split at h
      · cases h
        have hsub : tail ⊆ line.text := by
          have htail := Quoted.subset_of_split hsplit
          rw [← htrim] at htail
          rw [hbehind]
          exact List.subset_append_of_subset_right _
            (List.Subset.trans htail (List.dropWhile_subset isBlank))
        intro argument hmem
        exact isArgument_of_mem_printArguments (fun hfeed => hline.no_feed (hsub hfeed)) hmem
      · cases h
  · cases h

theorem wellSpelled_of_labelForm (hline : line.IsCut) (hcomment : commentForm line = none)
    (h : labelForm line = some (.ok instruction)) : instruction.WellSpelled := by
  rw [commentForm_eq_none_iff] at hcomment
  rw [labelForm] at h
  split at h
  · rename_i front hreverse
    have htext : line.text = front.reverse ++ [':'] := by
      rw [← List.reverse_reverse line.text, hreverse, List.reverse_cons]
    obtain ⟨hword, rfl⟩ := Line.of_withWord (Option.some.inj h)
    rw [Instruction.WellSpelled, String.toList_ofList]
    refine ⟨hword, ?_⟩
    rwa [head?_trim_append (htext ▸ hline.bare) hword.ne_nil, ← htext]
  · cases h

section Sources

variable {text : List Char} (hbare : Bare text)

include hbare

/-- If the first word opened a prompt, so would the text. -/
theorem not_opensPrompt_of_words (hread : readSource line text = none) {word : List Char}
    {more : List (List Char)} (hwords : words text = word :: more) :
    ¬(Operand.ofToken word).OpensPrompt := by
  rcases Operand.chars_ofToken_or word with hchars | ⟨value, hvalue⟩
  · obtain ⟨blanks, rest, heq, hblanks, hword, -⟩ := of_words_eq_cons hwords
    have hnil : blanks = [] := by
      cases blanks with
      | nil => rfl
      | cons c blanks =>
          have hc := hbare.front c (heq ▸ rfl)
          rw [hblanks c List.mem_cons_self] at hc
          cases hc
    rw [Operand.OpensPrompt, hchars]
    rintro ⟨tail, rfl⟩
    refine readSource_eq_none_iff.1 hread ('"' :: (tail ++ rest)) ?_ rfl
    rw [heq, hnil]
    rfl
  · rw [hvalue]
    exact Operand.not_opensPrompt_number value

/-- If the last word ended like a label, so would the text. -/
theorem getLast?_ofToken_ne (hlast : text.getLast? ≠ some ':') (front : List (List Char))
    {word : List Char} (hwords : words text = front ++ [word]) :
    (Operand.ofToken word).chars.getLast? ≠ some ':' := by
  rcases Operand.chars_ofToken_or word with hchars | ⟨value, hvalue⟩
  · rwa [hchars, ← getLast?_of_words hbare.back hwords]
  · rw [hvalue]
    exact Operand.getLast?_number_ne value

theorem wellSpelled_of_computedSource (hread : readSource line text = none)
    (hlast : text.getLast? ≠ some ':') {source : Source}
    (h : computedSource line text = .ok source) : source.WellSpelled := by
  have hword : ∀ word ∈ words text, IsWord word := fun _ => isWord_of_mem_words
  rw [computedSource] at h
  split at h
  · rename_i value hwords
    cases h
    rw [hwords] at hword
    exact ⟨Operand.isToken_ofToken (hword value (by simp)),
      not_opensPrompt_of_words hbare hread hwords,
      getLast?_ofToken_ne hbare hlast [] hwords⟩
  · rename_i left symbol right hwords
    rw [hwords] at hword
    split at h
    · cases h
      exact ⟨Operand.isToken_ofToken (hword left (by simp)),
        Operand.isToken_ofToken (hword right (by simp)),
        not_opensPrompt_of_words hbare hread hwords,
        getLast?_ofToken_ne hbare hlast [left, symbol] hwords⟩
    · cases h
  · cases h

end Sources

/-- A prompt that is read is the whole right side. -/
theorem exists_prompt_of_readSource {text : List Char} {source : Source}
    (h : readSource line text = some (.ok source)) : ∃ prompt, source = .read prompt := by
  rw [readSource] at h
  split at h
  · split at h
    · cases h
    · split at h
      · cases h
        exact ⟨_, rfl⟩
      · cases h
  · cases h

theorem wellSpelled_of_assignForm (hline : line.IsCut) (hcomment : commentForm line = none)
    (hlabel : labelForm line = none) (h : assignForm line = some (.ok instruction)) :
    instruction.WellSpelled := by
  rw [commentForm_eq_none_iff] at hcomment
  rw [labelForm_eq_none_iff] at hlabel
  rw [assignForm] at h
  split at h
  · cases h
  · rename_i left right hcut
    obtain ⟨equals, htext, -, hleft⟩ := of_cut?_eq_some hcut
    split at h
    · cases h
    · rename_i target hword
      obtain ⟨rfl, hword⟩ := singleWord?_eq_some_iff.1 hword
      split at h
      · rename_i source hsource
        cases h
        rw [Instruction.WellSpelled, String.toList_ofList]
        refine ⟨hword, ?_, ?_, ?_⟩
        · exact fun hmem => absurd (hleft '=' (mem_of_mem_trim hmem)) (by decide)
        · rwa [head?_trim_append (htext ▸ hline.bare) hword.ne_nil, ← htext]
        · cases hread : readSource line (trim right) with
          | some found =>
              rw [hread, Option.getD_some] at hsource
              obtain ⟨prompt, rfl⟩ := exists_prompt_of_readSource (hsource ▸ hread)
              trivial
          | none =>
              rw [hread, Option.getD_none] at hsource
              refine wellSpelled_of_computedSource (bare_trim right) hread ?_ hsource
              intro hlast
              have hne : trim right ≠ [] := by
                intro hnil
                rw [hnil] at hlast
                cases hlast
              have hside : line.text = (left ++ [equals]) ++ right := by
                simpa using htext
              rw [getLast?_trim_append (hside ▸ hline.bare) hne, ← hside] at hlast
              exact hlabel hlast
      · cases h

/-- What one line gives is spelled well. -/
theorem wellSpelled_of_lineRead (hline : line.IsCut) (h : line.read = .ok instruction) :
    instruction.WellSpelled := by
  have hclaimed := Line.claimed_of_read h
  simp only [Option.orElse_eq_orElse, Option.orElse_eq_or, Option.or_eq_some_iff] at hclaimed
  rcases hclaimed with h | ⟨hcomment, h | ⟨-, h | ⟨-, h | ⟨-, h | ⟨-, h | ⟨-, h | ⟨hlabel, h⟩⟩⟩⟩⟩⟩⟩
  · exact wellSpelled_of_commentForm hline h
  · exact wellSpelled_of_wordForm h
  · exact wellSpelled_of_returnForm h
  · exact wellSpelled_of_printForm hline h
  · exact wellSpelled_of_gotoForm h
  · exact wellSpelled_of_branchForm h
  · exact wellSpelled_of_labelForm hline hcomment h
  · exact wellSpelled_of_assignForm hline hcomment hlabel h

end Forms

theorem exists_line_of_readLines {rows : List Line} {listing : Listing}
    (h : readLines rows = .ok listing) :
    ∀ instruction ∈ listing, ∃ line ∈ rows, line.read = .ok instruction := by
  induction rows generalizing listing with
  | nil =>
      cases h
      exact fun instruction hmem => absurd hmem List.not_mem_nil
  | cons line rows ih =>
      rw [readLines] at h
      split at h
      · cases h
      · rename_i first hfirst
        split at h
        · cases h
        · rename_i rest hrest
          cases h
          refine List.forall_mem_cons.2 ⟨⟨line, List.mem_cons_self, hfirst⟩, ?_⟩
          intro instruction hmem
          obtain ⟨other, hother, hread⟩ := ih hrest instruction hmem
          exact ⟨other, List.mem_cons_of_mem line hother, hread⟩

/-- What is read from a text is spelled well. -/
theorem wellSpelled_of_read {text : String} {listing : Listing} (h : read text = .ok listing) :
    ∀ instruction ∈ listing, instruction.WellSpelled := by
  intro instruction hmem
  obtain ⟨line, hline, hread⟩ := exists_line_of_readLines h instruction hmem
  exact wellSpelled_of_lineRead (isCut_of_mem_linesOf hline) hread

section Optimized

open Optimizer

/-- Substituting puts numbers in place of names, and leaves all else as it is. -/
theorem substitute_keeps (kept : Operand → Prop) (hnumber : ∀ value, kept (.number value))
    (known : Known) {operand : Operand} (h : kept operand) : kept (known.substitute operand) := by
  cases operand with
  | number value => exact hnumber value
  | name x =>
      rw [Known.substitute]
      split
      · exact hnumber _
      · exact h

/-- A number needs no spelling. -/
theorem wellSpelled_foldSource (known : Known) {source : Source} (h : source.WellSpelled) :
    (known.foldSource source).WellSpelled := by
  have htoken : ∀ {operand : Operand}, operand.IsToken → (known.substitute operand).IsToken :=
    substitute_keeps Operand.IsToken (fun _ => trivial) known
  have hopens : ∀ {operand : Operand}, ¬operand.OpensPrompt →
      ¬(known.substitute operand).OpensPrompt :=
    substitute_keeps (¬ ·.OpensPrompt) Operand.not_opensPrompt_number known
  have hlast : ∀ {operand : Operand}, operand.chars.getLast? ≠ some ':' →
      (known.substitute operand).chars.getLast? ≠ some ':' :=
    substitute_keeps (·.chars.getLast? ≠ some ':') Operand.getLast?_number_ne known
  cases source with
  | read prompt => exact h
  | operand value => exact ⟨htoken h.1, hopens h.2.1, hlast h.2.2⟩
  | operation op left right =>
      rw [Known.foldSource]
      split
      · exact ⟨trivial, Operand.not_opensPrompt_number _, Operand.getLast?_number_ne _⟩
      · exact ⟨htoken h.1, htoken h.2.1, hopens h.2.2.1, hlast h.2.2.2⟩

theorem wellSpelled_optimize {listing : Listing} (passes : Passes)
    (h : ∀ instruction ∈ listing, instruction.WellSpelled) :
    ∀ instruction ∈ optimize passes listing, instruction.WellSpelled := by
  refine forall_mem_optimize ?_ passes h
  intro known target source hkept
  exact ⟨hkept.1, hkept.2.1, hkept.2.2.1, wellSpelled_foldSource known hkept.2.2.2⟩

/-- **What is read from a text and optimized is read back from its text exactly when it assigns no
keyword**; and if it assigns one, nothing is read back. -/
theorem read_render_optimize_iff {text : String} {listing : Listing}
    (hread : read text = .ok listing) (passes : Passes) :
    (read (render (optimize passes listing)) = .ok (optimize passes listing) ↔
        ∀ instruction ∈ optimize passes listing, ¬instruction.AssignsKeyword) ∧
      ((∃ other, read (render (optimize passes listing)) = .ok other) →
        read (render (optimize passes listing)) = .ok (optimize passes listing)) :=
  read_render_iff (wellSpelled_optimize passes (wellSpelled_of_read hread))

/-- Spread out and packed, with names that look like labels or numbers, and arguments with blanks
inside and with nothing between commas. -/
def untidy : String :=
  "  a:b=1e1\n\n.5.=READ\"=\\n\"  \na:b  = a:b\t* .5.\r\nprint  \"\" , a:b ,, c d,-0\nL:1:\nreturn  inf"

/-- What it says. -/
def tidied : Listing :=
  [.assign "a:b" (.operand (.number 10)), .assign ".5." (.read "=\n"),
    .assign "a:b" (.operation .mul (.name "a:b") (.name ".5.")),
    .print "" [.name "a:b", .name "c d", .number (-0)], .label "L:1",
    .ret (some (.name "inf"))]

theorem read_render_optimize_iff_untidy :
    read untidy = .ok tidied ∧
      read (render (optimize .all tidied)) = .ok (optimize .all tidied) := by
  have hread : read untidy = .ok tidied := by
    decide +kernel
  refine ⟨hread, (read_render_optimize_iff hread .all).1.2 ?_⟩
  decide +kernel

/-- Packed together, an assignment to a keyword is read.  Its text is a return that says too much. -/
theorem assigned_keyword_is_not_read_back :
    read "return=5" = .ok [.assign "return" (.operand (.number 5))] ∧
      render [.assign "return" (.operand (.number 5))] = "return = 5" ∧
      read "return = 5" = .error (.malformed 1 "return = 5") := by
  refine ⟨?_, ?_, ?_⟩
  all_goals decide +kernel

end Optimized

end StackPipeline.Listing
