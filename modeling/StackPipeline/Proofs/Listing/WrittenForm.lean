import StackPipeline.Proofs.Listing.Forms

/-!
A listing is read back from its text if its names are spelled well and no keyword is assigned.  If one
is, the text is refused, however well all else is spelled.
-/

namespace StackPipeline.Listing

open Text

/-- The arguments of a print end without a blank. -/
theorem bare_printTail (text : String) {arguments : List Operand}
    (h : ∀ argument ∈ arguments, argument.IsArgument) :
    Bare (Quoted.literal text ++
      arguments.flatMap fun argument => ',' :: ' ' :: argument.chars) := by
  have hliteral := Quoted.bare_literal text
  rcases List.eq_nil_or_concat arguments with rfl | ⟨front, last, rfl⟩
  · rwa [List.flatMap_nil, List.append_nil]
  · obtain ⟨hne, hlast, -⟩ := (h last (by simp)).chars_shape
    have hbare := hliteral.append hlast (List.cons_ne_nil _ _) hne
      ((front.flatMap fun argument => ',' :: ' ' :: argument.chars) ++ [',', ' '])
    simpa using hbare

section Rows

variable {instruction : Instruction} (h : instruction.WellSpelled)

include h

/-- Only the text of a comment can end in a blank. -/
theorem bare_chars (hcomment : ∀ text, instruction ≠ .comment text) :
    instruction.chars ≠ [] ∧ Bare instruction.chars := by
  have hspaced : ∀ {front back : List Char}, IsWord front → back ≠ [] → Bare back →
      front ++ ' ' :: back ≠ [] ∧ Bare (front ++ ' ' :: back) := fun hfront hne hback =>
    ⟨List.append_ne_nil_of_left_ne_nil hfront.ne_nil _,
      hfront.bare.append hback hfront.ne_nil hne [' ']⟩
  cases instruction with
  | assign target source =>
      obtain ⟨htarget, -, -, hsource⟩ := h
      obtain ⟨hne, hbare, -⟩ := hsource.chars_shape
      have hequals : IsWord ['='] := by decide
      have hside := hspaced hequals hne hbare
      rw [chars_assign]
      exact hspaced htarget hside.1 hside.2
  | label name =>
      have hcolon : IsWord [':'] := by decide
      refine ⟨List.append_ne_nil_of_left_ne_nil h.1.ne_nil _, ?_⟩
      exact h.1.bare.append hcolon.bare h.1.ne_nil hcolon.ne_nil []
  | goto label =>
      rw [chars_goto]
      exact hspaced (by decide) h.ne_nil h.bare
  | branch condition label =>
      have hgoto : IsWord "goto".toList := by decide
      have htail := hspaced hgoto h.2.ne_nil h.2.bare
      have hrest := hspaced h.1.isWord htail.1 htail.2
      rw [chars_branch]
      exact hspaced (by decide) hrest.1 hrest.2
  | print text arguments =>
      rw [chars_print]
      exact hspaced (by decide) (List.cons_ne_nil _ _) (bare_printTail text h)
  | ret value =>
      cases value with
      | none => exact ⟨by decide, by decide⟩
      | some value =>
          rw [chars_ret]
          exact hspaced (by decide) h.isWord.ne_nil h.isWord.bare
  | breakLoop => exact ⟨by decide, by decide⟩
  | continueLoop => exact ⟨by decide, by decide⟩
  | comment text => exact absurd rfl (hcomment text)

theorem not_mem_feed_chars : '\n' ∉ instruction.chars := by
  cases instruction with
  | assign target source =>
      obtain ⟨htarget, -, -, hsource⟩ := h
      simp [chars_assign, htarget.not_mem_feed, hsource.chars_shape.2.2]
  | label name => simp [chars_label, h.1.not_mem_feed]
  | goto label => simp [chars_goto, IsWord.not_mem_feed h]
  | branch condition label => simp [chars_branch, h.1.isWord.not_mem_feed, h.2.not_mem_feed]
  | print text arguments =>
      have harguments : '\n' ∉ arguments.flatMap fun argument => ',' :: ' ' :: argument.chars := by
        intro hmem
        obtain ⟨argument, hargument, hmem⟩ := List.mem_flatMap.1 hmem
        simp [(h argument hargument).chars_shape.2.2.2] at hmem
      simp [chars_print, Quoted.not_mem_literal, harguments]
  | ret value =>
      cases value with
      | none => decide
      | some value => simp [chars_ret, h.isWord.not_mem_feed]
  | breakLoop => decide
  | continueLoop => decide
  | comment text => simp [chars_comment, h.2]

/-- The text of an instruction is a row of its own: it is not blank, has no line feed and does not end
in a carriage return. -/
theorem chars_shape :
    trim instruction.chars ≠ [] ∧ '\n' ∉ instruction.chars ∧
      instruction.chars.getLast? ≠ some '\r' := by
  by_cases hcomment : ∃ text, instruction = .comment text
  · obtain ⟨text, rfl⟩ := hcomment
    obtain ⟨rest, heq, -⟩ := trim_comment h.1
    refine ⟨heq ▸ List.cons_ne_nil _ _, not_mem_feed_chars h, ?_⟩
    intro hlast
    rw [chars_comment, ← List.append_assoc, List.getLast?_append] at hlast
    cases htext : text.toList.getLast? with
    | none =>
        rw [htext] at hlast
        cases hlast
    | some c =>
        rw [htext] at hlast
        cases hlast
        exact absurd (h.1.back _ htext) (by decide)
  · rw [not_exists] at hcomment
    obtain ⟨hne, hbare⟩ := bare_chars h hcomment
    refine ⟨(trim_of_bare hbare).symm ▸ hne, not_mem_feed_chars h, ?_⟩
    intro hlast
    exact absurd (hbare.back _ hlast) (by decide)

/-- The line of an instruction is read back, unless a keyword is assigned. -/
theorem read_chars (hkeyword : ¬instruction.AssignsKeyword) (number : Nat) :
    Line.read ⟨number, trim instruction.chars⟩ = .ok instruction := by
  by_cases hcomment : ∃ text, instruction = .comment text
  · obtain ⟨text, rfl⟩ := hcomment
    exact read_comment h.1
  · rw [not_exists] at hcomment
    rw [trim_of_bare (bare_chars h hcomment).2]
    cases instruction with
    | assign target source =>
        exact read_assign h.2.2.2 h.1 h.2.1 h.2.2.1 hkeyword
    | label name => exact read_label h.1 h.2
    | goto label => exact read_goto h
    | branch condition label =>
        exact read_branch h.1 h.2
    | print text arguments => exact read_print h
    | ret value =>
        cases value with
        | none => rfl
        | some value => exact read_ret h
    | breakLoop => rfl
    | continueLoop => rfl
    | comment text => exact absurd rfl (hcomment text)

/-- If one is, the line is refused. -/
theorem read_chars_of_assignsKeyword (hkeyword : instruction.AssignsKeyword) (number : Nat) :
    ∃ problem, Line.read ⟨number, trim instruction.chars⟩ = .error problem := by
  cases instruction with
  | assign target source =>
      have hbare := (bare_chars h (fun text heq => by cases heq)).2
      rw [trim_of_bare hbare]
      exact ⟨_, read_assign_keyword h.2.2.2 h.1 hkeyword⟩
  | _ => exact absurd hkeyword id

end Rows

section Listings

variable {listing : Listing}

/-- The lines of the text of a listing are the texts of its instructions. -/
theorem linesOf_chars (h : ∀ instruction ∈ listing, instruction.WellSpelled) :
    linesOf (chars listing) =
      (numbered 1 (listing.map Instruction.chars)).map fun line => ⟨line.1, trim line.2⟩ := by
  have hshape : ∀ row ∈ listing.map Instruction.chars,
      trim row ≠ [] ∧ '\n' ∉ row ∧ row.getLast? ≠ some '\r' := by
    intro row hrow
    obtain ⟨instruction, hmem, rfl⟩ := List.mem_map.1 hrow
    exact chars_shape (h instruction hmem)
  have hlines : lines (chars listing) = listing.map Instruction.chars := by
    refine lines_joinLines ?_ (fun row hrow => (hshape row hrow).2.1)
      (fun row hrow => (hshape row hrow).2.2)
    rintro row hrow rfl
    exact (hshape [] hrow).1 rfl
  rw [linesOf, hlines, List.filter_eq_self]
  intro line hline
  obtain ⟨⟨number, row⟩, hrow, rfl⟩ := List.mem_map.1 hline
  simpa using (hshape row (mem_of_mem_numbered hrow)).1

/-- Lines with the texts of instructions are read back, wherever they stand. -/
theorem readLines_chars (h : ∀ instruction ∈ listing, instruction.WellSpelled)
    (hkeyword : ∀ instruction ∈ listing, ¬instruction.AssignsKeyword) (start : Nat) :
    readLines ((numbered start (listing.map Instruction.chars)).map
      fun line => ⟨line.1, trim line.2⟩) = .ok listing := by
  induction listing generalizing start with
  | nil => rfl
  | cons instruction listing ih =>
      rw [List.forall_mem_cons] at h hkeyword
      rw [List.map_cons, numbered, List.map_cons, readLines, read_chars h.1 hkeyword.1]
      dsimp only
      rw [ih h.2 hkeyword.2]

/-- Where a keyword is assigned, reading stops with an error. -/
theorem not_assignsKeyword_of_readLines (h : ∀ instruction ∈ listing, instruction.WellSpelled)
    {start : Nat} {other : Listing}
    (hread : readLines ((numbered start (listing.map Instruction.chars)).map
      fun line => ⟨line.1, trim line.2⟩) = .ok other) :
    ∀ instruction ∈ listing, ¬instruction.AssignsKeyword := by
  induction listing generalizing start other with
  | nil => exact fun instruction hmem => absurd hmem List.not_mem_nil
  | cons instruction listing ih =>
      rw [List.forall_mem_cons] at h
      rw [List.map_cons, numbered, List.map_cons, readLines] at hread
      refine List.forall_mem_cons.2 ⟨?_, ?_⟩
      · intro hkeyword
        obtain ⟨problem, hproblem⟩ := read_chars_of_assignsKeyword h.1 hkeyword start
        rw [hproblem] at hread
        cases hread
      · cases hline : Line.read ⟨start, trim instruction.chars⟩ with
        | error problem =>
            rw [hline] at hread
            cases hread
        | ok first =>
            rw [hline] at hread
            dsimp only at hread
            split at hread
            · cases hread
            · rename_i rest hrest
              exact ih h.2 hrest

/-- A well-spelled listing is read back from its text exactly when it assigns no keyword; and if it
assigns one, nothing is read. -/
theorem read_render_iff (h : ∀ instruction ∈ listing, instruction.WellSpelled) :
    (read (render listing) = .ok listing ↔
        ∀ instruction ∈ listing, ¬instruction.AssignsKeyword) ∧
      ((∃ other, read (render listing) = .ok other) → read (render listing) = .ok listing) := by
  have hread : read (render listing) = readLines ((numbered 1 (listing.map Instruction.chars)).map
      fun line => ⟨line.1, trim line.2⟩) := by
    rw [read, render, String.toList_ofList, linesOf_chars h]
  rw [hread]
  refine ⟨⟨not_assignsKeyword_of_readLines h, fun hkeyword => readLines_chars h hkeyword 1⟩, ?_⟩
  rintro ⟨other, hother⟩
  exact readLines_chars h (not_assignsKeyword_of_readLines h hother) 1

end Listings

section Identifiers

def isIdentifierChar (c : Char) : Bool :=
  c.isAlphanum || c == '_'

/-- A letter or an underscore, and then letters, digits and underscores. -/
def isIdentifier (name : String) : Bool :=
  match name.toList with
  | [] => false
  | c :: rest => (c.isAlpha || c == '_') && rest.all isIdentifierChar

def Instruction.names : Instruction → List String
  | .assign target source => target :: source.operands.filterMap Operand.name?
  | .label name => [name]
  | .goto destination => [destination]
  | .branch condition destination => destination :: condition.name?.toList
  | .print _ arguments => arguments.filterMap Operand.name?
  | .ret value => value.toList.filterMap Operand.name?
  | .breakLoop | .continueLoop | .comment _ => []

/-- Letters and the underscore lie between `A` and `z`. -/
theorem toNat_of_isAlpha {c : Char} (h : (c.isAlpha || c == '_') = true) :
    65 ≤ c.toNat ∧ c.toNat ≤ 122 := by
  rw [Bool.or_eq_true, beq_iff_eq] at h
  rcases h with h | rfl
  · change (decide (65 ≤ c.val ∧ c.val ≤ 90) || (decide (97 ≤ c.val) && decide (c.val ≤ 122))) = true
      at h
    simp only [Bool.or_eq_true, Bool.and_eq_true, decide_eq_true_eq, UInt32.le_iff_toNat_le] at h
    rcases h with ⟨hlow, hhigh⟩ | ⟨hlow, hhigh⟩
    · exact ⟨hlow, Nat.le_trans hhigh (by decide)⟩
    · exact ⟨Nat.le_trans (by decide) hlow, hhigh⟩
  · decide

theorem isBlank_of_isIdentifierChar {c : Char} (h : isIdentifierChar c = true) :
    isBlank c = false := by
  rw [isIdentifierChar, Char.isAlphanum, Bool.or_right_comm, Bool.or_eq_true] at h
  rcases h with h | h
  · have hrange := toNat_of_isAlpha h
    simp only [isBlank, Bool.or_eq_false_iff, Bool.and_eq_false_iff, decide_eq_false_iff_not,
      beq_eq_false_iff_ne]
    omega
  · exact Number.isBlank_of_isDigit h

/-- Neither starts a literal. -/
theorem looksNumeric_of_isAlpha {c : Char} (h : (c.isAlpha || c == '_') = true) (rest : List Char) :
    looksNumeric (c :: rest) = false := by
  have hrange := toNat_of_isAlpha h
  have hdigit : c.isDigit = false := by
    rw [Bool.eq_false_iff, ne_eq, Char.isDigit_iff_toNat]
    have hcodes : '9'.toNat = 57 := by decide
    omega
  have hsigns : c ≠ '+' ∧ c ≠ '-' ∧ c ≠ '.' := by
    refine ⟨?_, ?_, ?_⟩
    all_goals
      rintro rfl
      exact absurd hrange (by decide)
  simp [looksNumeric, hdigit, hsigns]

variable {name : String} (h : isIdentifier name = true)

include h

theorem exists_of_isIdentifier :
    ∃ c rest, name.toList = c :: rest ∧ (c.isAlpha || c == '_') = true ∧
      ∀ d ∈ name.toList, isIdentifierChar d = true := by
  rw [isIdentifier] at h
  split at h
  · cases h
  · rename_i c rest heq
    rw [Bool.and_eq_true, List.all_eq_true] at h
    refine ⟨c, rest, heq, h.1, ?_⟩
    rw [heq]
    refine List.forall_mem_cons.2 ⟨?_, h.2⟩
    have hc := h.1
    simp only [Bool.or_eq_true] at hc
    rcases hc with hc | hc
    · simp [isIdentifierChar, Char.isAlphanum, hc]
    · simp [isIdentifierChar, hc]

theorem not_mem_of_isIdentifier {c : Char} (hc : isIdentifierChar c = false) : c ∉ name.toList := by
  obtain ⟨_, _, -, -, hall⟩ := exists_of_isIdentifier h
  intro hmem
  rw [hall c hmem] at hc
  cases hc

theorem isWord_of_isIdentifier : IsWord name.toList := by
  obtain ⟨c, rest, heq, -, hall⟩ := exists_of_isIdentifier h
  refine ⟨heq ▸ List.cons_ne_nil c rest, ?_⟩
  exact fun d hd => isBlank_of_isIdentifierChar (hall d hd)

/-- No identifier looks like a literal. -/
theorem ofToken_of_isIdentifier : Operand.ofToken name.toList = .name name := by
  obtain ⟨c, rest, heq, hc, -⟩ := exists_of_isIdentifier h
  have hlooks : looksNumeric name.toList = false := by
    rw [heq]
    exact looksNumeric_of_isAlpha hc rest
  rw [Operand.ofToken, hlooks, String.ofList_toList]
  rfl

end Identifiers

section Operands

variable {operand : Operand} (h : ∀ name, operand.name? = some name → isIdentifier name = true)

include h

theorem isToken_of_isIdentifier : operand.IsToken := by
  cases operand with
  | number value => trivial
  | name x => exact ⟨isWord_of_isIdentifier (h x rfl), ofToken_of_isIdentifier (h x rfl)⟩

theorem isArgument_of_isIdentifier : operand.IsArgument := by
  cases operand with
  | number value => trivial
  | name x =>
      have hx := h x rfl
      have hword := isWord_of_isIdentifier hx
      exact ⟨hword.ne_nil, hword.bare, not_mem_of_isIdentifier hx (by decide), hword.not_mem_feed,
        ofToken_of_isIdentifier hx⟩

theorem not_opensPrompt_of_isIdentifier : ¬operand.OpensPrompt := by
  cases operand with
  | number value => exact Operand.not_opensPrompt_number value
  | name x =>
      rintro ⟨rest, heq⟩
      have hquote : '"' ∈ x.toList := by
        rw [show x.toList = "READ\"".toList ++ rest from heq.symm]
        exact List.mem_append_left rest (by decide)
      exact not_mem_of_isIdentifier (h x rfl) (by decide) hquote

theorem getLast?_ne_of_isIdentifier : operand.chars.getLast? ≠ some ':' := by
  cases operand with
  | number value => exact Operand.getLast?_number_ne value
  | name x =>
      intro hlast
      exact not_mem_of_isIdentifier (h x rfl) (by decide) (List.mem_of_getLast? hlast)

end Operands

/-- Identifiers are spelled well in every instruction. -/
theorem wellSpelled_of_isIdentifier {instruction : Instruction}
    (hnames : ∀ name ∈ instruction.names, isIdentifier name = true)
    (hcomment : ∀ text, instruction = .comment text → Bare text.toList ∧ '\n' ∉ text.toList) :
    instruction.WellSpelled := by
  cases instruction with
  | assign target source =>
      rw [Instruction.names, List.forall_mem_cons] at hnames
      obtain ⟨htarget, hsource⟩ := hnames
      have hoperand : ∀ operand ∈ source.operands, ∀ name, operand.name? = some name →
          isIdentifier name = true :=
        fun operand hmem name hname => hsource name (List.mem_filterMap.2 ⟨operand, hmem, hname⟩)
      refine ⟨isWord_of_isIdentifier htarget, not_mem_of_isIdentifier htarget (by decide), ?_, ?_⟩
      · intro hhead
        exact not_mem_of_isIdentifier htarget (by decide) (List.mem_of_mem_head? hhead)
      · cases source with
        | operand value =>
            have hvalue := hoperand value List.mem_cons_self
            exact ⟨isToken_of_isIdentifier hvalue, not_opensPrompt_of_isIdentifier hvalue,
              getLast?_ne_of_isIdentifier hvalue⟩
        | operation op left right =>
            have hleft := hoperand left List.mem_cons_self
            have hright := hoperand right (List.mem_cons_of_mem left List.mem_cons_self)
            exact ⟨isToken_of_isIdentifier hleft, isToken_of_isIdentifier hright,
              not_opensPrompt_of_isIdentifier hleft, getLast?_ne_of_isIdentifier hright⟩
        | read prompt => trivial
  | label name =>
      have hname := hnames name List.mem_cons_self
      refine ⟨isWord_of_isIdentifier hname, ?_⟩
      intro hhead
      exact not_mem_of_isIdentifier hname (by decide) (List.mem_of_mem_head? hhead)
  | goto label => exact isWord_of_isIdentifier (hnames label List.mem_cons_self)
  | branch condition label =>
      rw [Instruction.names, List.forall_mem_cons] at hnames
      refine ⟨isToken_of_isIdentifier ?_, isWord_of_isIdentifier hnames.1⟩
      exact fun name hname => hnames.2 name (by simp [hname])
  | print text arguments =>
      intro argument hmem
      apply isArgument_of_isIdentifier
      exact fun name hname => hnames name (List.mem_filterMap.2 ⟨argument, hmem, hname⟩)
  | ret value =>
      cases value with
      | none => trivial
      | some value =>
          have hvalue : ∀ name, value.name? = some name → isIdentifier name = true :=
            fun name hname => hnames name (by simp [Instruction.names, hname])
          exact isToken_of_isIdentifier hvalue
  | breakLoop | continueLoop => trivial
  | comment text => exact hcomment text rfl

/-- **A listing with identifiers for names is read back from its text**, whatever texts it prints and
asks with, and also if a name is spelled like a keyword, a number or a prompt. -/
theorem read_render_of_identifiers {listing : Listing}
    (hnames : ∀ instruction ∈ listing, ∀ name ∈ instruction.names, isIdentifier name = true)
    (hkeyword : ∀ instruction ∈ listing, ¬instruction.AssignsKeyword)
    (hcomment : ∀ text, .comment text ∈ listing → Bare text.toList ∧ '\n' ∉ text.toList) :
    read (render listing) = .ok listing := by
  have hspelled : ∀ instruction ∈ listing, instruction.WellSpelled := by
    intro instruction hmem
    refine wellSpelled_of_isIdentifier (hnames instruction hmem) ?_
    rintro text rfl
    exact hcomment text hmem
  exact (read_render_iff hspelled).1.2 hkeyword

/-- Names that are keywords elsewhere, and texts that hold what separates instructions. -/
def homonyms : Listing :=
  [.comment "x = y:", .assign "inf" (.operand (.number (1 / 0))),
    .assign "READ" (.operation .div (.name "nan") (.number (-0))), .label "goto",
    .print "a \"b\" = c:, \\n\r\n" [.name "inf", .number (0 / 0), .name "break"],
    .assign "print" (.read "if x goto y\n"), .branch (.name "READ") "return", .goto "if",
    .ret (some (.number 0.1)), .ret none, .breakLoop]

theorem read_render_of_identifiers_homonyms : read (render homonyms) = .ok homonyms := by
  refine read_render_of_identifiers (by decide) (by decide) ?_
  intro text hmem
  obtain rfl : text = "x = y:" := by
    simpa [homonyms] using hmem
  decide

end StackPipeline.Listing
