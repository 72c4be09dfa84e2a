import StackPipeline.Bytecode.Printer
import StackPipeline.Bytecode.Reader
import StackPipeline.Proofs.Number.ReadBack
import StackPipeline.Proofs.Text.Quotes

/-!
Stack code is read back from its text exactly when its names are words.

A line of the text is the name of an opcode and, after one space, an operand that has no blank at
either end.  So trimming keeps the line, cutting at the first blank finds the operand, and no line is
blank or starts like a comment.
-/

namespace StackPipeline.Bytecode

open Text

def Instruction.name? : Instruction → Option String
  | .load name | .store name | .jumpIfNonzero name | .jump name | .label name => some name
  | _ => none

/-- Every name in the code is a word. -/
def WellNamed (code : Bytecode) : Prop :=
  ∀ instruction ∈ code, ∀ name, instruction.name? = some name → IsWord name.toList

instance (code : Bytecode) : Decidable (WellNamed code) :=
  inferInstanceAs (Decidable (∀ instruction ∈ code, ∀ name ∈ instruction.name?, IsWord name.toList))

@[simp] theorem Opcode.ofName?_name (opcode : Opcode) : ofName? opcode.name = some opcode := by
  cases opcode with
  | operate op => cases op <;> decide
  | _ => decide

theorem Opcode.isWord_name (opcode : Opcode) : IsWord opcode.name.toList := by
  cases opcode with
  | operate op => cases op <;> decide
  | _ => decide

theorem Opcode.head?_name_ne (opcode : Opcode) : opcode.name.toList.head? ≠ some '#' := by
  cases opcode with
  | operate op => cases op <;> decide
  | _ => decide

theorem quotedOperand?_literal (text : String) : quotedOperand? (Quoted.literal text) = some text := by
  have hsplit := Quoted.split_literal text []
  rw [List.append_nil] at hsplit
  rw [quotedOperand?, hsplit]
  rfl

section Line

variable {instruction : Instruction}
  (hname : ∀ name, instruction.name? = some name → IsWord name.toList)

include hname

/-- The text of an operand is not empty, stands on one line and has no blank at either end. -/
theorem operandChars_shape {operand : List Char} (h : instruction.operandChars = some operand) :
    operand ≠ [] ∧ Bare operand ∧ '\n' ∉ operand := by
  cases instruction with
  | push value =>
      cases h
      have hword := Number.isWord_plain value
      exact ⟨hword.ne_nil, hword.bare, hword.not_mem_feed⟩
  | load name | store name | jumpIfNonzero name | jump name | label name =>
      cases h
      have hword := hname name rfl
      exact ⟨hword.ne_nil, hword.bare, hword.not_mem_feed⟩
  | printText text | read text =>
      cases h
      exact ⟨List.cons_ne_nil _ _, Quoted.bare_literal text, Quoted.not_mem_literal text⟩
  | operate op | printTop | breakLoop | continueLoop | ret => cases h

/-- The text of an instruction has no blank at either end and stands on one line. -/
theorem chars_shape : Bare instruction.chars ∧ '\n' ∉ instruction.chars := by
  have hopcode := instruction.opcode.isWord_name
  cases h : instruction.operandChars with
  | none =>
      rw [Instruction.chars, h, List.append_nil]
      exact ⟨hopcode.bare, hopcode.not_mem_feed⟩
  | some operand =>
      obtain ⟨hne, hbare, hfeed⟩ := operandChars_shape hname h
      rw [Instruction.chars, h]
      refine ⟨hopcode.bare.append hbare hopcode.ne_nil hne [' '], ?_⟩
      simpa [hfeed] using hopcode.not_mem_feed

/-- Cutting the text of an instruction gives back the name of its opcode and its operand. -/
theorem splitLine_chars :
    splitLine instruction.chars =
      (instruction.opcode.name.toList, instruction.operandChars.getD []) := by
  have hopcode := instruction.opcode.isWord_name
  cases h : instruction.operandChars with
  | none =>
      rw [Instruction.chars, h, List.append_nil, splitLine, cut?_eq_none hopcode.not_blank]
      rfl
  | some operand =>
      obtain ⟨-, hbare, -⟩ := operandChars_shape hname h
      rw [Instruction.chars, h, splitLine, cut?_append hopcode.not_blank rfl]
      dsimp only
      rw [trim_of_bare hbare]
      rfl

/-- A line is read back from the text of its instruction. -/
theorem readLine_chars (line : Nat) :
    readLine line instruction.chars = .ok instruction := by
  have hword : ∀ name, instruction.name? = some name → (name.toList.any isBlank) = false := by
    intro name h
    simpa using (hname name h).not_blank
  have hoperand : ∀ operand, instruction.operandChars = some operand → operand ≠ [] :=
    fun _ h => (operandChars_shape hname h).1
  rw [readLine, trim_of_bare (chars_shape hname).1, splitLine_chars hname]
  dsimp only
  rw [String.ofList_toList, Opcode.ofName?_name]
  dsimp only
  cases instruction with
  | push value =>
      have hne := hoperand _ rfl
      simp only [Instruction.operandChars, Option.getD_some, List.isEmpty_iff, hne, ↓reduceIte,
        Instruction.opcode, withOperand?, Number.read?_plain, Option.map_some]
  | load name | store name | jumpIfNonzero name | jump name | label name =>
      have hne := hoperand _ rfl
      simp [Instruction.operandChars, hne, Instruction.opcode, withOperand?, hword name rfl,
        -String.toList_eq_nil_iff]
  | printText text | read text =>
      have hne := hoperand _ rfl
      simp [Instruction.operandChars, hne, Instruction.opcode, withOperand?,
        quotedOperand?_literal]
  | operate op | printTop | breakLoop | continueLoop | ret => rfl

theorem isCode_chars : isCode instruction.chars = true := by
  have hhead := instruction.opcode.head?_name_ne
  obtain ⟨c, rest, heq⟩ := List.exists_cons_of_ne_nil instruction.opcode.isWord_name.ne_nil
  rw [heq] at hhead
  rw [isCode, trim_of_bare (chars_shape hname).1, Instruction.chars, heq]
  simpa using hhead

end Line

/-- An operand that is taken for a name has no blanks. -/
theorem isWord_of_withOperand? {opcode : Opcode} {operand : List Char} (hne : operand ≠ [])
    {instruction : Instruction} (h : withOperand? opcode operand = some instruction) {name : String}
    (hname : instruction.name? = some name) : IsWord name.toList := by
  cases opcode with
  | load | store | jumpIfNonzero | jump | label =>
      simp only [withOperand?, Bool.not_eq_true', Option.ite_none_right_eq_some,
        Option.some.injEq] at h
      obtain ⟨hblank, rfl⟩ := h
      cases hname
      rw [String.toList_ofList]
      exact ⟨hne, by simpa using hblank⟩
  | push | print | read =>
      simp only [withOperand?, Option.map_eq_some_iff] at h
      obtain ⟨_, _, rfl⟩ := h
      cases hname
  | operate op | breakLoop | continueLoop | ret => cases h

theorem name?_of_withoutOperand? {opcode : Opcode} {instruction : Instruction}
    (h : withoutOperand? opcode = some instruction) : instruction.name? = none := by
  cases opcode with
  | push | load | store | jumpIfNonzero | jump | label | read => cases h
  | operate op | print | breakLoop | continueLoop | ret =>
      cases h
      rfl

/-- The name in a line that has been read is a word. -/
theorem isWord_of_readLine {line : Nat} {text : List Char} {instruction : Instruction}
    (h : readLine line text = .ok instruction) {name : String}
    (hname : instruction.name? = some name) : IsWord name.toList := by
  rw [readLine] at h
  dsimp only at h
  split at h
  · cases h
  · rename_i opcode _
    split at h
    · split at h
      · rename_i found hfound
        cases h
        rw [name?_of_withoutOperand? hfound] at hname
        cases hname
      · cases h
    · rename_i hoperand
      split at h
      · rename_i found hfound
        cases h
        refine isWord_of_withOperand? ?_ hfound hname
        simpa using hoperand
      · cases h

theorem wellNamed_of_readLines {rows : List (Nat × List Char)} {code : Bytecode}
    (h : readLines rows = .ok code) : WellNamed code := by
  induction rows generalizing code with
  | nil =>
      cases h
      exact fun instruction hmem => absurd hmem List.not_mem_nil
  | cons row rows ih =>
      rw [readLines] at h
      cases hline : readLine row.1 row.2 with
      | error problem => simp [hline] at h
      | ok instruction =>
          cases hrest : readLines rows with
          | error problem => simp [hline, hrest] at h
          | ok rest =>
              simp only [hline, hrest, Except.ok.injEq] at h
              subst h
              exact List.forall_mem_cons.2 ⟨fun name => isWord_of_readLine hline, ih hrest⟩

/-- All the names in code that has been read are words. -/
theorem wellNamed_of_read {text : String} {code : Bytecode} (h : read text = .ok code) :
    WellNamed code :=
  wellNamed_of_readLines h

/-- Lines with the texts of instructions are read back, wherever they stand. -/
theorem readLines_chars {code : Bytecode} (hnames : WellNamed code) (start : Nat) :
    readLines ((numbered start (code.map Instruction.chars)).filter fun line => isCode line.2) =
      .ok code := by
  induction code generalizing start with
  | nil => rfl
  | cons instruction code ih =>
      obtain ⟨hname, hnames⟩ := List.forall_mem_cons.1 hnames
      have hcode : isCode (start, instruction.chars).2 = true := isCode_chars hname
      rw [List.map_cons, numbered, List.filter_cons, if_pos hcode, readLines,
        readLine_chars hname]
      dsimp only
      rw [ih hnames]

theorem lines_chars {code : Bytecode} (hnames : WellNamed code) :
    lines (chars code) = code.map Instruction.chars := by
  have hshape : ∀ row ∈ code.map Instruction.chars, row ≠ [] ∧ Bare row ∧ '\n' ∉ row := by
    intro row hrow
    obtain ⟨instruction, hmem, rfl⟩ := List.mem_map.1 hrow
    refine ⟨?_, chars_shape (hnames instruction hmem)⟩
    exact List.append_ne_nil_of_left_ne_nil instruction.opcode.isWord_name.ne_nil _
  refine lines_joinLines (fun row hrow => (hshape row hrow).1) (fun row hrow => (hshape row hrow).2.2)
    ?_
  intro row hrow hlast
  exact absurd ((hshape row hrow).2.1.back _ hlast) (by decide)

theorem read_render_of_wellNamed {code : Bytecode} (hnames : WellNamed code) :
    read (render code) = .ok code := by
  rw [read, render, String.toList_ofList, lines_chars hnames]
  exact readLines_chars hnames 1

/-- **The text of stack code is exact**: it is read back as the same code exactly when every name is a
word.  So code that has been read is read back from its own text. -/
theorem read_render_eq_ok_iff (code : Bytecode) :
    (read (render code) = .ok code ↔ WellNamed code) ∧
      ∀ text, read text = .ok code → read (render code) = .ok code := by
  refine ⟨⟨wellNamed_of_read, fun hnames => read_render_of_wellNamed hnames⟩, ?_⟩
  intro text h
  exact read_render_of_wellNamed (wellNamed_of_read h)

/-- Numbers of every kind, names that look like something else, a print of nothing and a print of the
top of the stack. -/
def assorted : Bytecode :=
  [.push (-0), .push 0.1, .push (1 / 0), .push (0 / 0), .store "PRINT", .load "#", .label "\"",
    .jumpIfNonzero "=", .operate .le, .printText "", .printTop, .printText " a\\b\r\n\t\"",
    .read "# \x7b", .ret]

theorem read_render_eq_ok_iff_assorted :
    read (render assorted) = .ok assorted ∧
      read (render (.jump "a b" :: assorted)) ≠ .ok (.jump "a b" :: assorted) := by
  refine ⟨(read_render_eq_ok_iff assorted).1.2 (by decide), ?_⟩
  intro h
  have hnames := (read_render_eq_ok_iff (.jump "a b" :: assorted)).1.1 h
  exact absurd hnames (by decide)

end StackPipeline.Bytecode
