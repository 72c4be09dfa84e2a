import StackPipeline.Proofs.Listing.Spelling

/-!
The line of each instruction is claimed by the form of that instruction.

The forms are tried in a fixed order, so for each line the earlier ones have to be ruled out.  Most of
them want a keyword and a space: the first word of the line decides about all of these at once.
-/

namespace StackPipeline

theorem Operator.ofSymbol?_symbol (op : Operator) : Operator.ofSymbol? op.symbol = some op := by
  cases op <;> decide

namespace Listing

open Text

/-- A keyword before a space claims exactly the lines whose first word it is. -/
theorem after?_keyword {word target : List Char} (hword : IsWord word) (htarget : IsWord target)
    (rest : List Char) :
    after? (word ++ [' ']) (target ++ ' ' :: rest) = if word = target then some rest else none :=
  after?_word_space hword.not_mem_space htarget.not_mem_space rest

theorem after?_keyword_self (word rest : List Char) :
    after? (word ++ [' ']) (word ++ ' ' :: rest) = some rest := by
  rw [after?_eq_some_iff, List.append_assoc, List.singleton_append]

/-- A form applies to the line and reads this instruction, and none that is tried earlier applies. -/
theorem Line.read_eq {line : Line} {instruction : Instruction}
    (h : (commentForm line <|> wordForm line <|> returnForm line <|> printForm line <|>
      gotoForm line <|> branchForm line <|> labelForm line <|> assignForm line) =
        some (.ok instruction)) : line.read = .ok instruction := by
  rw [Line.read, h]
  rfl

section Sources

variable {line : Line} {source : Source}

theorem Source.WellSpelled.chars_shape (h : source.WellSpelled) :
    source.chars ≠ [] ∧ Bare source.chars ∧ '\n' ∉ source.chars := by
  cases source with
  | operand value =>
      have hvalue := h.1.isWord
      exact ⟨hvalue.ne_nil, hvalue.bare, hvalue.not_mem_feed⟩
  | operation op left right =>
      have hleft := h.1.isWord
      have hright := h.2.1.isWord
      refine ⟨?_, ?_, ?_⟩
      · exact List.append_ne_nil_of_left_ne_nil hleft.ne_nil _
      · have hbare := hleft.bare.append hright.bare hleft.ne_nil hright.ne_nil
          (' ' :: (op.symbol.toList ++ [' ']))
        simpa [Source.chars] using hbare
      · have hop : '\n' ∉ op.symbol.toList := by
          cases op <;> decide
        simp [Source.chars, hleft.not_mem_feed, hright.not_mem_feed, hop]
  | read prompt =>
      refine ⟨by simp [Source.chars], ⟨?_, ?_⟩, ?_⟩
      · rintro c ⟨⟩
        rfl
      · intro c hc
        rw [Source.chars, List.getLast?_append, Quoted.getLast?_literal] at hc
        cases hc
        rfl
      · have hliteral := Quoted.not_mem_literal prompt
        simp [Source.chars, hliteral]

theorem Source.WellSpelled.getLast?_ne (h : source.WellSpelled) :
    source.chars.getLast? ≠ some ':' := by
  cases source with
  | operand value => exact h.2.2
  | operation op left right =>
      have hright := List.getLast?_eq_some_getLast h.2.1.isWord.ne_nil
      have hlast := h.2.2.2
      rw [hright] at hlast
      rw [Source.chars, List.getLast?_append, List.getLast?_cons, List.getLast?_append,
        List.getLast?_cons, hright]
      exact hlast
  | read prompt =>
      rw [Source.chars, List.getLast?_append, Quoted.getLast?_literal]
      decide

/-- A prompt is read back, with nothing behind it. -/
theorem readSource_read (line : Line) (prompt : String) :
    readSource line (Source.read prompt).chars = some (.ok (.read prompt)) := by
  have hsplit := Quoted.split_literal prompt []
  rw [List.append_nil] at hsplit
  have hafter : (after? "READ".toList (Source.read prompt).chars).map trimFront =
      some (Quoted.literal prompt) := rfl
  rw [readSource, hafter]
  rw [Quoted.literal] at hsplit ⊢
  simp only [hsplit]
  rfl

/-- Only a quote behind the keyword makes a prompt. -/
theorem readSource_eq_none_iff {text : List Char} :
    readSource line text = none ↔
      ∀ tail, text = "READ".toList ++ tail → (trimFront tail).head? ≠ some '"' := by
  rw [readSource]
  cases hafter : after? "READ".toList text with
  | none =>
      simp only [Option.map_none, true_iff]
      rintro tail rfl
      rw [after?_append] at hafter
      cases hafter
  | some tail =>
      rw [after?_eq_some_iff] at hafter
      subst hafter
      have hunique : (∀ other, "READ".toList ++ tail = "READ".toList ++ other →
          (trimFront other).head? ≠ some '"') ↔ (trimFront tail).head? ≠ some '"' := by
        refine ⟨fun h => h tail rfl, ?_⟩
        intro h other heq
        rwa [← List.append_cancel_left heq]
      rw [hunique, Option.map_some]
      cases htail : trimFront tail with
      | nil => simp
      | cons c rest =>
          by_cases hc : c = '"'
          · subst hc
            simp only [List.head?_cons, ne_eq, not_true_eq_false, iff_false]
            split
            · simp
            · split
              · simp
              · simp
          · simp [hc]

/-- A word that does not open a prompt itself is none, if no quote follows the blanks behind it. -/
theorem readSource_eq_none {word rest : List Char} (hword : IsWord word)
    (hopens : ¬"READ\"".toList <+: word) (hblank : ∀ c, rest.head? = some c → isBlank c = true)
    (hrest : (trimFront rest).head? ≠ some '"') : readSource line (word ++ rest) = none := by
  rw [readSource_eq_none_iff]
  intro tail htext
  rcases List.append_eq_append_iff.1 htext with ⟨more, hkeyword, rfl⟩ | ⟨more, rfl, rfl⟩
  · -- The word ends within the keyword, so it is the keyword: a blank is no part of that.
    cases more with
    | nil => exact hrest
    | cons c more =>
        have hmem : c ∈ "READ".toList := hkeyword ▸ List.mem_append_right word List.mem_cons_self
        have hc := hblank c rfl
        have hread : IsWord "READ".toList := by decide
        rw [hread.not_blank c hmem] at hc
        cases hc
  · cases more with
    | nil => exact hrest
    | cons c more =>
        have hc := hword.not_blank c (List.mem_append_right _ List.mem_cons_self)
        rw [List.cons_append, trimFront, List.dropWhile_cons_of_neg (by simp [hc])]
        rintro ⟨⟩
        exact hopens ⟨more, by simp⟩

/-- The right side of an assignment is read back. -/
theorem Source.WellSpelled.read (h : source.WellSpelled) :
    (readSource line source.chars).getD (computedSource line source.chars) = .ok source := by
  cases source with
  | read prompt => rw [readSource_read, Option.getD_some]
  | operand value =>
      have hword := h.1.isWord
      have hnone : readSource line (value.chars ++ []) = none :=
        readSource_eq_none hword h.2.1 (by simp) (by simp [trimFront])
      rw [List.append_nil] at hnone
      rw [Source.chars, hnone, Option.getD_none, computedSource, words_of_isWord hword]
      dsimp only
      rw [h.1.ofToken_chars]
  | operation op left right =>
      have hleft := h.1.isWord
      have hright := h.2.1.isWord
      have hsymbol : IsWord op.symbol.toList ∧ op.symbol.toList.head? ≠ some '"' := by
        cases op <;> decide
      have hnone : readSource line
          (left.chars ++ ' ' :: (op.symbol.toList ++ ' ' :: right.chars)) = none := by
        apply readSource_eq_none hleft h.2.2.1
        · rintro c ⟨⟩
          rfl
        · obtain ⟨c, rest, heq⟩ := List.exists_cons_of_ne_nil hsymbol.1.ne_nil
          have hc := hsymbol.1.not_blank c (heq ▸ List.mem_cons_self)
          have hquote := hsymbol.2
          rw [heq] at hquote ⊢
          rw [trimFront, List.dropWhile_cons_of_pos rfl, List.cons_append,
            List.dropWhile_cons_of_neg (by simp [hc])]
          exact hquote
      rw [Source.chars, hnone, Option.getD_none, computedSource, words_append_space hleft,
        words_append_space hsymbol.1, words_of_isWord hright]
      dsimp only
      rw [String.ofList_toList, Operator.ofSymbol?_symbol]
      dsimp only
      rw [h.1.ofToken_chars, h.2.1.ofToken_chars]

end Sources

section Chars

/-! The texts of instructions, cut where their first word ends. -/

theorem chars_assign {target : String} {source : Source} :
    (Instruction.assign target source).chars = target.toList ++ ' ' :: '=' :: ' ' :: source.chars := by
  unfold Instruction.chars
  rw [show " = ".toList = [' ', '=', ' '] from rfl]
  simp only [List.append_assoc, List.cons_append, List.nil_append]

theorem chars_goto {label : String} :
    (Instruction.goto label).chars = "goto".toList ++ ' ' :: label.toList := rfl

theorem chars_branch {condition : Operand} {label : String} :
    (Instruction.branch condition label).chars =
      "if".toList ++ ' ' :: (condition.chars ++ ' ' :: ("goto".toList ++ ' ' :: label.toList)) := by
  unfold Instruction.chars
  rw [show "if ".toList = "if".toList ++ [' '] from rfl,
    show " goto ".toList = ' ' :: ("goto".toList ++ [' ']) from rfl]
  simp only [List.append_assoc, List.cons_append, List.nil_append]

theorem chars_print {text : String} {arguments : List Operand} :
    (Instruction.print text arguments).chars = "print".toList ++ ' ' ::
      (Quoted.literal text ++ arguments.flatMap fun argument => ',' :: ' ' :: argument.chars) := by
  unfold Instruction.chars
  rw [show "print ".toList = "print".toList ++ [' '] from rfl]
  simp only [List.append_assoc, List.cons_append, List.nil_append]

theorem chars_ret {value : Operand} :
    (Instruction.ret (some value)).chars = "return".toList ++ ' ' :: value.chars := rfl

theorem chars_label {name : String} : (Instruction.label name).chars = name.toList ++ [':'] := rfl

theorem chars_comment {text : String} :
    (Instruction.comment text).chars = ['#'] ++ ([' '] ++ text.toList) := rfl

end Chars

section Lines

variable {number : Nat}

theorem wordForm_eq_none {text : List Char} {c : Char} (hmem : c ∈ text)
    (hbreak : c ∉ "break".toList) (hcontinue : c ∉ "continue".toList)
    (hreturn : c ∉ "return".toList) : wordForm ⟨number, text⟩ = none := by
  rw [wordForm, if_neg, if_neg, if_neg]
  all_goals
    rintro rfl
    contradiction

theorem commentForm_eq_none_iff {line : Line} :
    commentForm line = none ↔ line.text.head? ≠ some '#' := by
  rw [commentForm]
  cases line.text with
  | nil => simp [after?]
  | cons c text =>
      by_cases hc : c = '#'
      · simp [after?, hc]
      · simp [after?, hc, Ne.symm hc]

theorem labelForm_eq_none_iff {line : Line} :
    labelForm line = none ↔ line.text.getLast? ≠ some ':' := by
  rw [labelForm, ← List.head?_reverse]
  split
  · rename_i front hreverse
    simp [hreverse]
  · rename_i hreverse
    simp only [true_iff]
    intro hhead
    obtain ⟨front, hfront⟩ := List.head?_eq_some_iff.1 hhead
    exact hreverse front hfront

section FirstWord

variable {word : List Char} (hword : IsWord word) (rest : List Char)

theorem wordForm_firstWord (word : List Char) : wordForm ⟨number, word ++ ' ' :: rest⟩ = none := by
  apply wordForm_eq_none (c := ' ')
  · simp
  all_goals decide

include hword

theorem commentForm_firstWord (h : word.head? ≠ some '#') :
    commentForm ⟨number, word ++ ' ' :: rest⟩ = none := by
  rw [commentForm_eq_none_iff]
  obtain ⟨c, more, rfl⟩ := List.exists_cons_of_ne_nil hword.ne_nil
  exact h

theorem returnForm_firstWord (h : word ≠ "return".toList) :
    returnForm ⟨number, word ++ ' ' :: rest⟩ = none := by
  have hkeyword : IsWord "return".toList := by decide
  have hafter := after?_keyword hkeyword hword rest
  rw [if_neg (Ne.symm h)] at hafter
  rw [returnForm]
  dsimp only
  rw [show "return ".toList = "return".toList ++ [' '] from rfl, hafter]

theorem gotoForm_firstWord (h : word ≠ "goto".toList) :
    gotoForm ⟨number, word ++ ' ' :: rest⟩ = none := by
  have hkeyword : IsWord "goto".toList := by decide
  have hafter := after?_keyword hkeyword hword rest
  rw [if_neg (Ne.symm h)] at hafter
  rw [gotoForm]
  dsimp only
  rw [show "goto ".toList = "goto".toList ++ [' '] from rfl, hafter]

theorem branchForm_firstWord (h : word ≠ "if".toList) :
    branchForm ⟨number, word ++ ' ' :: rest⟩ = none := by
  have hkeyword : IsWord "if".toList := by decide
  have hafter := after?_keyword hkeyword hword rest
  rw [if_neg (Ne.symm h)] at hafter
  rw [branchForm]
  dsimp only
  rw [show "if ".toList = "if".toList ++ [' '] from rfl, hafter]

/-- Without a quote behind it the keyword does not claim the line. -/
theorem printForm_firstWord (h : word = "print".toList → (trimFront rest).head? ≠ some '"') :
    printForm ⟨number, word ++ ' ' :: rest⟩ = none := by
  have hkeyword : IsWord "print".toList := by decide
  have hafter := after?_keyword hkeyword hword rest
  rw [printForm]
  dsimp only
  rw [show "print ".toList = "print".toList ++ [' '] from rfl, hafter]
  by_cases heq : word = "print".toList
  · rw [if_pos heq.symm, Option.map_some]
    split
    · rename_i tail htail
      have hhead := h heq
      rw [Option.some.inj htail] at hhead
      exact absurd rfl hhead
    · rfl
  · rw [if_neg (Ne.symm heq), Option.map_none]

end FirstWord

/-- A label keeps its name: without a space in it no keyword claims the line. -/
theorem read_label {name : String} (hname : IsWord name.toList)
    (hhead : name.toList.head? ≠ some '#') :
    Line.read ⟨number, (Instruction.label name).chars⟩ = .ok (.label name) := by
  have hspace : ' ' ∉ name.toList ++ [':'] := by
    simpa using hname.not_mem_space
  have hcomment : commentForm ⟨number, name.toList ++ [':']⟩ = none := by
    rw [commentForm_eq_none_iff]
    obtain ⟨c, rest, heq⟩ := List.exists_cons_of_ne_nil hname.ne_nil
    rw [heq] at hhead ⊢
    exact hhead
  have hwords : wordForm ⟨number, name.toList ++ [':']⟩ = none := by
    apply wordForm_eq_none (c := ':')
    · simp
    all_goals decide
  have hkeyword : ∀ keyword : List Char, ' ' ∈ keyword →
      after? keyword (name.toList ++ [':']) = none := fun _ hmem => after?_eq_none hmem hspace
  apply Line.read_eq
  rw [chars_label, hcomment, hwords, returnForm, hkeyword _ (by decide), printForm,
    hkeyword _ (by decide), gotoForm, hkeyword _ (by decide), branchForm, hkeyword _ (by decide),
    labelForm]
  simp [Line.withWord, singleWord?_of_isWord hname]

theorem read_goto {label : String} (hlabel : IsWord label.toList) :
    Line.read ⟨number, (Instruction.goto label).chars⟩ = .ok (.goto label) := by
  have hgoto : IsWord "goto".toList := by decide
  have hclaim : gotoForm ⟨number, "goto".toList ++ ' ' :: label.toList⟩ =
      some (.ok (.goto label)) := by
    rw [gotoForm, show "goto ".toList = "goto".toList ++ [' '] from rfl, after?_keyword_self]
    simp [Line.withWord, singleWord?_of_isWord hlabel]
  apply Line.read_eq
  rw [chars_goto, commentForm_firstWord hgoto _ (by decide), wordForm_firstWord,
    returnForm_firstWord hgoto _ (by decide),
    printForm_firstWord hgoto _ (fun h => absurd h (by decide)), hclaim]
  simp

theorem read_ret {value : Operand} (hvalue : value.IsToken) :
    Line.read ⟨number, (Instruction.ret (some value)).chars⟩ = .ok (.ret (some value)) := by
  have hreturn : IsWord "return".toList := by decide
  have hclaim : returnForm ⟨number, "return".toList ++ ' ' :: value.chars⟩ =
      some (.ok (.ret (some value))) := by
    rw [returnForm, show "return ".toList = "return".toList ++ [' '] from rfl, after?_keyword_self]
    simp [Line.withWord, singleWord?_of_isWord hvalue.isWord, hvalue.ofToken_chars]
  apply Line.read_eq
  rw [chars_ret, commentForm_firstWord hreturn _ (by decide), wordForm_firstWord, hclaim]
  simp

theorem read_branch {condition : Operand} {label : String} (hcondition : condition.IsToken)
    (hlabel : IsWord label.toList) :
    Line.read ⟨number, (Instruction.branch condition label).chars⟩ =
      .ok (.branch condition label) := by
  have hif : IsWord "if".toList := by decide
  have hgoto : IsWord "goto".toList := by decide
  have hclaim : branchForm ⟨number, "if".toList ++
      ' ' :: (condition.chars ++ ' ' :: ("goto".toList ++ ' ' :: label.toList))⟩ =
        some (.ok (.branch condition label)) := by
    rw [branchForm, show "if ".toList = "if".toList ++ [' '] from rfl, after?_keyword_self]
    dsimp only
    rw [words_append_space hcondition.isWord, words_append_space hgoto, words_of_isWord hlabel]
    dsimp only
    rw [if_pos rfl, hcondition.ofToken_chars, String.ofList_toList]
  apply Line.read_eq
  rw [chars_branch, commentForm_firstWord hif _ (by decide), wordForm_firstWord,
    returnForm_firstWord hif _ (by decide), printForm_firstWord hif _ (fun h => absurd h (by decide)),
    gotoForm_firstWord hif _ (by decide), hclaim]
  simp

/-- Each argument is a piece of its own. -/
theorem pieces_arguments {arguments : List Operand}
    (h : ∀ argument ∈ arguments, argument.IsArgument) :
    pieces ',' (arguments.flatMap fun argument => ',' :: ' ' :: argument.chars) =
      [] :: arguments.map fun argument => ' ' :: argument.chars := by
  induction arguments with
  | nil => rfl
  | cons argument rest ih =>
      obtain ⟨hargument, hrest⟩ := List.forall_mem_cons.1 h
      have hcomma : ',' ∉ ' ' :: argument.chars := by
        simp [hargument.chars_shape.2.2.1]
      have htail := ih hrest
      rw [List.flatMap_cons, List.map_cons, List.cons_append, pieces, if_pos rfl]
      congr 1
      cases rest with
      | nil => rw [List.flatMap_nil, List.append_nil, pieces_of_not_mem hcomma, List.map_nil]
      | cons next rest =>
          rw [List.flatMap_cons, List.cons_append, pieces, if_pos rfl, List.cons.injEq] at htail
          have hpieces := pieces_append hcomma
            (' ' :: next.chars ++ rest.flatMap fun argument => ',' :: ' ' :: argument.chars)
          rw [htail.2] at hpieces
          exact hpieces

theorem printArguments_chars {arguments : List Operand}
    (h : ∀ argument ∈ arguments, argument.IsArgument) :
    printArguments (arguments.flatMap fun argument => ',' :: ' ' :: argument.chars) = arguments := by
  have htrim : (arguments.map fun argument => ' ' :: argument.chars).map trim =
      arguments.map Operand.chars := by
    rw [List.map_map]
    refine List.map_congr_left fun argument hmem => ?_
    exact (trim_blank_cons rfl _).trans (trim_of_bare (h argument hmem).chars_shape.2.1)
  have hfilter : ((arguments.map Operand.chars).filter fun token => !token.isEmpty) =
      arguments.map Operand.chars := by
    rw [List.filter_eq_self]
    intro text hmem
    obtain ⟨argument, hargument, rfl⟩ := List.mem_map.1 hmem
    simpa using (h argument hargument).chars_shape.1
  have htokens : (arguments.map Operand.chars).map Operand.ofToken = arguments := by
    rw [List.map_map, List.map_congr_left (g := id), List.map_id]
    exact fun argument hmem => (h argument hmem).ofToken_chars
  rw [printArguments, pieces_arguments h, List.map_cons, htrim, List.filter_cons_of_neg (by decide),
    hfilter, htokens]

theorem read_print {text : String} {arguments : List Operand}
    (h : ∀ argument ∈ arguments, argument.IsArgument) :
    Line.read ⟨number, (Instruction.print text arguments).chars⟩ = .ok (.print text arguments) := by
  have hprint : IsWord "print".toList := by decide
  have htail : isPrintTail (arguments.flatMap fun argument => ',' :: ' ' :: argument.chars) = true := by
    cases arguments with
    | nil => rfl
    | cons argument rest => rfl
  have hclaim : printForm ⟨number, "print".toList ++ ' ' ::
      (Quoted.literal text ++ arguments.flatMap fun argument => ',' :: ' ' :: argument.chars)⟩ =
        some (.ok (.print text arguments)) := by
    have htrim (rest : List Char) : trimFront (Quoted.literal text ++ rest) =
        Quoted.literal text ++ rest := rfl
    have hsplit := Quoted.split_literal text
      (arguments.flatMap fun argument => ',' :: ' ' :: argument.chars)
    rw [printForm, show "print ".toList = "print".toList ++ [' '] from rfl, after?_keyword_self,
      Option.map_some, htrim]
    rw [Quoted.literal, List.cons_append] at hsplit ⊢
    simp only [hsplit]
    rw [if_pos htail, printArguments_chars h]
  apply Line.read_eq
  rw [chars_print, commentForm_firstWord hprint _ (by decide), wordForm_firstWord,
    returnForm_firstWord hprint _ (by decide), hclaim]
  simp

/-- The text of a comment without a text loses its space, and still is that comment. -/
theorem trim_comment {text : String} (h : Bare text.toList) :
    ∃ rest, trim (Instruction.comment text).chars = '#' :: rest ∧ trim rest = text.toList := by
  by_cases hempty : text.toList = []
  · refine ⟨[], ?_, ?_⟩
    · rw [chars_comment, hempty]
      rfl
    · rw [hempty]
      rfl
  · have hbare : Bare (['#'] ++ ([' '] ++ text.toList)) :=
      (Bare.mk (by rintro c ⟨⟩; rfl) (by rintro c ⟨⟩; rfl)).append h (by simp) hempty [' ']
    refine ⟨' ' :: text.toList, ?_, ?_⟩
    · rw [chars_comment, trim_of_bare hbare]
      rfl
    · rw [trim_blank_cons rfl, trim_of_bare h]

/-- Whatever stands behind it, a number sign makes a comment. -/
theorem read_numberSign (rest : List Char) :
    Line.read ⟨number, '#' :: rest⟩ = .ok (.comment (String.ofList (trim rest))) := by
  have hafter : after? ['#'] ('#' :: rest) = some rest := after?_append ['#'] rest
  apply Line.read_eq
  rw [commentForm, hafter]
  simp

theorem read_comment {text : String} (h : Bare text.toList) :
    Line.read ⟨number, trim (Instruction.comment text).chars⟩ = .ok (.comment text) := by
  obtain ⟨rest, heq, hrest⟩ := trim_comment h
  rw [heq, read_numberSign, hrest, String.ofList_toList]

section Assignments

variable {target : String} {source : Source}

variable (hsource : source.WellSpelled)

include hsource

/-- What stands behind the target is no single word. -/
theorem singleWord?_rightSide : singleWord? ('=' :: ' ' :: source.chars) = none := by
  cases h : singleWord? ('=' :: ' ' :: source.chars) with
  | none => rfl
  | some word =>
      obtain ⟨hne, hbare, -⟩ := hsource.chars_shape
      have hequals : Bare ['='] := ⟨by rintro c ⟨⟩; rfl, by rintro c ⟨⟩; rfl⟩
      obtain ⟨hword, hblank⟩ := singleWord?_eq_some_iff.1 h
      have hside : Bare ('=' :: ' ' :: source.chars) :=
        hequals.append hbare (by decide) hne [' ']
      rw [trim_of_bare hside] at hword
      have hspace := hblank.not_blank ' ' (hword ▸ by simp)
      cases hspace

/-- Nor is it a condition, the word `goto` and a label. -/
theorem words_rightSide_ne (condition label : List Char) :
    words ('=' :: ' ' :: source.chars) ≠ [condition, "goto".toList, label] := by
  have hequals : IsWord ['='] := by decide
  have hwords : words ('=' :: ' ' :: source.chars) = ['='] :: words source.chars :=
    words_append_space hequals source.chars
  rw [hwords]
  intro h
  cases source with
  | operand value =>
      rw [Source.chars, words_of_isWord hsource.1.isWord] at h
      simp at h
  | operation op left right =>
      have hsymbol : IsWord op.symbol.toList := by
        cases op <;> decide
      rw [Source.chars, words_append_space hsource.1.isWord, words_append_space hsymbol,
        words_of_isWord hsource.2.1.isWord] at h
      simp at h
  | read prompt =>
      have hread : IsWord "READ".toList := by decide
      have hchars : (Source.read prompt).chars = "READ".toList ++ ' ' :: Quoted.literal prompt := rfl
      rw [hchars, words_append_space hread] at h
      have hgoto := (List.cons.inj (List.cons.inj h).2).1
      exact absurd hgoto (by decide)

variable (htarget : IsWord target.toList)

include htarget

theorem assignForm_chars (hequals : '=' ∉ target.toList) :
    assignForm ⟨number, target.toList ++ ' ' :: '=' :: ' ' :: source.chars⟩ =
      some (.ok (.assign target source)) := by
  have hcut : cut? (· == '=') (target.toList ++ ' ' :: '=' :: ' ' :: source.chars) =
      some (target.toList ++ [' '], ' ' :: source.chars) := by
    have hfront : ∀ c ∈ target.toList ++ [' '], (c == '=') = false := by
      intro c hc
      rcases List.mem_append.1 hc with hc | hc
      · simpa using ne_of_mem_of_not_mem hc hequals
      · obtain rfl := List.mem_singleton.1 hc
        rfl
    have hsplit := cut?_append (c := '=') hfront rfl (' ' :: source.chars)
    rwa [List.append_assoc] at hsplit
  have hword : singleWord? (target.toList ++ [' ']) = some target.toList := by
    rw [singleWord?_eq_some_iff, trim_append_blank rfl]
    exact ⟨htarget.trim_eq, htarget⟩
  rw [assignForm]
  dsimp only
  rw [hcut]
  dsimp only
  rw [hword]
  dsimp only
  rw [trim_blank_cons rfl, trim_of_bare hsource.chars_shape.2.1, hsource.read]
  dsimp only
  rw [String.ofList_toList]

theorem read_assign (hequals : '=' ∉ target.toList) (hhead : target.toList.head? ≠ some '#')
    (hkeyword : target ∉ keywords) :
    Line.read ⟨number, (Instruction.assign target source).chars⟩ = .ok (.assign target source) := by
  have hlast : (target.toList ++ ' ' :: '=' :: ' ' :: source.chars).getLast? ≠ some ':' := by
    have hsourceLast := hsource.getLast?_ne
    rw [List.getLast?_eq_some_getLast hsource.chars_shape.1] at hsourceLast
    simpa [List.getLast?_append, List.getLast?_cons,
      List.getLast?_eq_some_getLast hsource.chars_shape.1] using hsourceLast
  have hne : ∀ keyword ∈ keywords, target.toList ≠ keyword.toList := by
    intro keyword hmem heq
    rw [String.toList_inj] at heq
    exact hkeyword (heq ▸ hmem)
  have hquote : (trimFront ('=' :: ' ' :: source.chars)).head? ≠ some '"' := by
    rw [trimFront, List.dropWhile_cons_of_neg (by decide)]
    rintro ⟨⟩
  apply Line.read_eq
  rw [chars_assign, commentForm_firstWord htarget _ hhead, wordForm_firstWord,
    returnForm_firstWord htarget _ (hne "return" (by decide)),
    printForm_firstWord htarget _ (fun _ => hquote),
    gotoForm_firstWord htarget _ (hne "goto" (by decide)),
    branchForm_firstWord htarget _ (hne "if" (by decide)), labelForm_eq_none_iff.2 hlast,
    assignForm_chars hsource htarget hequals]
  simp

/-- After a keyword the line is malformed, whatever is assigned. -/
theorem read_assign_keyword (hkeyword : target ∈ keywords) :
    Line.read ⟨number, (Instruction.assign target source).chars⟩ =
      .error (Line.malformed ⟨number, (Instruction.assign target source).chars⟩) := by
  have hwithWord (line : Line) (make : List Char → Instruction) :
      line.withWord ('=' :: ' ' :: source.chars) make = .error line.malformed := by
    rw [Line.withWord, singleWord?_rightSide hsource]
  simp only [keywords, List.mem_cons, List.not_mem_nil, or_false] at hkeyword
  have hhead : target.toList.head? ≠ some '#' := by
    rcases hkeyword with rfl | rfl | rfl
    all_goals decide
  rw [chars_assign, Line.read, commentForm_firstWord htarget _ hhead, wordForm_firstWord]
  rcases hkeyword with rfl | rfl | rfl
  · rw [returnForm, show "return ".toList = "return".toList ++ [' '] from rfl, after?_keyword_self]
    dsimp only
    rw [hwithWord]
    simp
  · rw [returnForm_firstWord htarget _ (by decide),
      printForm_firstWord htarget _ (fun h => absurd h (by decide)), gotoForm,
      show "goto ".toList = "goto".toList ++ [' '] from rfl, after?_keyword_self]
    dsimp only
    rw [hwithWord]
    simp
  · have hbranch (line : Line) (hline : line.text = "if".toList ++ ' ' :: '=' :: ' ' :: source.chars) :
        branchForm line = some (.error line.malformed) := by
      rw [branchForm, hline, show "if ".toList = "if".toList ++ [' '] from rfl, after?_keyword_self]
      dsimp only
      split
      · rename_i condition keyword label hwords
        rw [if_neg]
        rintro rfl
        exact words_rightSide_ne hsource condition label hwords
      · rfl
    rw [returnForm_firstWord htarget _ (by decide),
      printForm_firstWord htarget _ (fun h => absurd h (by decide)),
      gotoForm_firstWord htarget _ (by decide), hbranch _ rfl]
    simp

end Assignments

end Lines

end Listing

end StackPipeline
