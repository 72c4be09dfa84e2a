import StackPipeline.Proofs.Bytecode.Blocks
import StackPipeline.Proofs.Listing.WrittenForm

/-!
Reading a listing row by row.

The number of a line is told in errors and matters for nothing else, so the rows of a text are read one
by one.  A comment is written with its text as it is.  If that text has a line feed then what stands
behind it is a row of its own, and is read as an instruction.  So the text of a listing has all of its
stack code, and in between that of such further rows.
-/

namespace StackPipeline

namespace Text

/-- The lines of a text that are not blank, without the blanks around them. -/
def rows (text : List Char) : List (List Char) :=
  ((pieces '\n' text).map trim).filter fun row => !row.isEmpty

theorem rows_append_feed (front rest : List Char) :
    rows (front ++ '\n' :: rest) = rows front ++ rows rest := by
  rw [rows, pieces_append_separator, List.map_append, List.filter_append]
  rfl

theorem rows_of_not_mem {text : List Char} (h : '\n' ∉ text) :
    rows text = [trim text].filter fun row => !row.isEmpty := by
  rw [rows, pieces_of_not_mem h]
  rfl

/-- Texts set one under the other have the rows of all of them. -/
theorem rows_joinLines (texts : List (List Char)) : rows (joinLines texts) = texts.flatMap rows := by
  induction texts with
  | nil => rfl
  | cons text texts ih =>
      cases texts with
      | nil => simp [joinLines]
      | cons next texts =>
          rw [joinLines, rows_append_feed, ih]
          · exact List.flatMap_cons.symm
          · exact List.cons_ne_nil next texts

/-- Lines and pieces differ in blanks only. -/
theorem filter_lines (text : List Char) :
    ((lines text).map trim).filter (fun row => !row.isEmpty) = rows text := by
  induction hlength : text.length using Nat.strongRecOn generalizing text with
  | ind length ih =>
      by_cases hmem : '\n' ∈ text
      · obtain ⟨front, rest, rfl, hfront⟩ := List.eq_append_cons_of_mem hmem
        have hshort : rest.length < length := by
          rw [← hlength, List.length_append, List.length_cons]
          omega
        -- The first line is the first piece, but for a carriage return.
        have hfirst : ∃ row, trim row = trim front ∧
            lines (front ++ '\n' :: rest) = row :: lines rest := by
          by_cases hreturn : front.getLast? = some '\r'
          · obtain ⟨row, rfl⟩ := List.getLast?_eq_some_iff.1 hreturn
            refine ⟨row, (trim_append_blank rfl row).symm, ?_⟩
            rw [List.append_assoc]
            exact lines_append_return (fun hrow => hfront (List.mem_append_left _ hrow)) rest
          · exact ⟨front, rfl, lines_append hfront hreturn rest⟩
        obtain ⟨row, htrim, hlines⟩ := hfirst
        rw [hlines, List.map_cons, htrim, rows_append_feed, rows_of_not_mem hfront,
          ← ih rest.length hshort rest rfl, ← List.filter_append]
        rfl
      · cases text with
        | nil => rfl
        | cons c text =>
            rw [lines_of_not_mem hmem (List.cons_ne_nil c text), rows_of_not_mem hmem]
            rfl

end Text

namespace Listing

open Text

theorem map_text_linesOf (text : List Char) : (linesOf text).map Line.text = rows text := by
  have hlines : (numbered 1 (lines text)).map (trim ∘ Prod.snd) = (lines text).map trim := by
    rw [← List.map_map, map_snd_numbered]
  rw [← filter_lines, linesOf, ← hlines, List.filter_map, List.filter_map, List.map_map]
  rfl

/-- The instruction on a row, if it is one. -/
def readRow? (row : List Char) : Option Instruction :=
  (Line.read ⟨1, row⟩).toOption

section Numbers

/-- Where the error is does not matter. -/
theorem toOption_withWord (line : Line) (text : List Char) (make : List Char → Instruction) :
    (line.withWord text make).toOption = (singleWord? text).map make := by
  rw [Line.withWord]
  cases singleWord? text <;> rfl

/-- A form that answers alike on all lines with the same text. -/
def Form.Numberless (form : Form) : Prop :=
  ∀ number other row, (form ⟨number, row⟩).map Except.toOption =
    (form ⟨other, row⟩).map Except.toOption

theorem numberless_orElse {first second : Form} (hfirst : first.Numberless)
    (hsecond : second.Numberless) : Form.Numberless fun line => first line <|> second line := by
  intro number other row
  have h := hfirst number other row
  dsimp only
  cases hnumber : first ⟨number, row⟩ with
  | none =>
      rw [hnumber] at h
      rw [Option.map_eq_none_iff.1 h.symm]
      exact hsecond number other row
  | some answer =>
      rw [hnumber] at h
      obtain ⟨same, hother, -⟩ := Option.map_eq_some_iff.1 h.symm
      rw [hother] at h ⊢
      exact h

theorem numberless_returnForm : returnForm.Numberless := by
  intro number other row
  simp only [returnForm]
  cases after? "return ".toList row with
  | none => rfl
  | some rest => simp only [Option.map_some, toOption_withWord]

theorem numberless_gotoForm : gotoForm.Numberless := by
  intro number other row
  simp only [gotoForm]
  cases after? "goto ".toList row with
  | none => rfl
  | some rest => simp only [Option.map_some, toOption_withWord]

theorem numberless_labelForm : labelForm.Numberless := by
  intro number other row
  simp only [labelForm]
  split
  · simp only [Option.map_some, toOption_withWord]
  · rfl

theorem numberless_branchForm : branchForm.Numberless := by
  intro number other row
  simp only [branchForm]
  split
  · rfl
  · split
    · split <;> rfl
    · rfl

theorem numberless_printForm : printForm.Numberless := by
  intro number other row
  simp only [printForm]
  split
  · split
    · rfl
    · split <;> rfl
  · rfl

theorem toOption_readSource (number other : Nat) (row text : List Char) :
    (readSource ⟨number, row⟩ text).map Except.toOption =
      (readSource ⟨other, row⟩ text).map Except.toOption := by
  simp only [readSource]
  split
  · split
    · rfl
    · split <;> rfl
  · rfl

theorem toOption_computedSource (number other : Nat) (row text : List Char) :
    (computedSource ⟨number, row⟩ text).toOption = (computedSource ⟨other, row⟩ text).toOption := by
  simp only [computedSource]
  split
  · rfl
  · split <;> rfl
  · rfl

theorem numberless_assignForm : assignForm.Numberless := by
  intro number other row
  simp only [assignForm]
  split
  · rfl
  · rename_i left right _
    split
    · rfl
    · rename_i target _
      have hsource (number : Nat) :
          ((readSource ⟨number, row⟩ (trim right)).getD
              (computedSource ⟨number, row⟩ (trim right))).toOption =
            ((readSource ⟨number, row⟩ (trim right)).map Except.toOption).getD
              (computedSource ⟨number, row⟩ (trim right)).toOption := (Option.getD_map ..).symm
      have hsame := hsource number
      rw [toOption_readSource number other, toOption_computedSource number other, ← hsource other]
        at hsame
      generalize (readSource ⟨number, row⟩ (trim right)).getD
        (computedSource ⟨number, row⟩ (trim right)) = first at hsame ⊢
      generalize (readSource ⟨other, row⟩ (trim right)).getD
        (computedSource ⟨other, row⟩ (trim right)) = second at hsame ⊢
      cases first <;> cases second <;> simp_all [Except.toOption]

/-- The number of a line only shows in errors. -/
theorem toOption_lineRead (number other : Nat) (row : List Char) :
    (Line.read ⟨number, row⟩).toOption = (Line.read ⟨other, row⟩).toOption := by
  have hforms : Form.Numberless fun line =>
      commentForm line <|> wordForm line <|> returnForm line <|> printForm line <|>
        gotoForm line <|> branchForm line <|> labelForm line <|> assignForm line :=
    numberless_orElse (fun _ _ _ => rfl) <| numberless_orElse (fun _ _ _ => rfl) <|
      numberless_orElse numberless_returnForm <| numberless_orElse numberless_printForm <|
      numberless_orElse numberless_gotoForm <| numberless_orElse numberless_branchForm <|
      numberless_orElse numberless_labelForm numberless_assignForm
  have hread (line : Line) : line.read.toOption =
      ((commentForm line <|> wordForm line <|> returnForm line <|> printForm line <|>
        gotoForm line <|> branchForm line <|> labelForm line <|> assignForm line).map
          Except.toOption).getD none := (Option.getD_map ..).symm
  rw [hread, hread, hforms number other row]

end Numbers

/-- Lines are read if each of them is an instruction. -/
theorem toOption_readLines (lines : List Line) :
    (readLines lines).toOption = (lines.map Line.text).mapM readRow? := by
  induction lines with
  | nil => rfl
  | cons line rest ih =>
      rw [List.map_cons, List.mapM_cons, ← ih, readRow?, toOption_lineRead 1 line.number, readLines]
      cases line.read with
      | error problem => rfl
      | ok instruction => cases readLines rest <;> rfl

/-- A text is read row by row. -/
theorem read_eq_ok_iff {text : String} {listing : Listing} :
    read text = .ok listing ↔ (rows text.toList).mapM readRow? = some listing := by
  rw [← map_text_linesOf, ← toOption_readLines, read]
  cases readLines (linesOf text.toList) <;> simp [Except.toOption]

theorem mapM_cons_eq_some_iff {row : List Char} {rest : List (List Char)} {listing : Listing} :
    (row :: rest).mapM readRow? = some listing ↔ ∃ first more, readRow? row = some first ∧
      rest.mapM readRow? = some more ∧ listing = first :: more := by
  simp [List.mapM_cons, Option.bind_eq_some_iff, @eq_comm _ listing]

theorem mapM_append_eq_some_iff {front rest : List (List Char)} {listing : Listing} :
    (front ++ rest).mapM readRow? = some listing ↔ ∃ first more, front.mapM readRow? = some first ∧
      rest.mapM readRow? = some more ∧ listing = first ++ more := by
  simp [List.mapM_append, Option.bind_eq_some_iff, @eq_comm _ listing]

section Comments

/-- The rows that a text adds to the one it starts on. -/
def furtherRows (text : String) : List (List Char) :=
  ((pieces '\n' text.toList).tail.map trim).filter fun row => !row.isEmpty

theorem furtherRows_append {front : String} (h : '\n' ∉ front.toList) (text : String) :
    furtherRows (front ++ text) = furtherRows text := by
  obtain ⟨first, rest, htext⟩ := exists_pieces_eq_cons '\n' text.toList
  rw [furtherRows, furtherRows, String.toList_append, pieces_append_of_not_mem h htext, htext]
  rfl

/-- The first row of a comment is a comment, whatever its text; the others are not known. -/
theorem exists_rows_comment (text : String) :
    ∃ row same, rows (Instruction.comment text).chars = row :: furtherRows text ∧
      readRow? row = some (.comment same) := by
  obtain ⟨first, rest, htext⟩ := exists_pieces_eq_cons '\n' text.toList
  have hpieces : pieces '\n' (Instruction.comment text).chars = ("# ".toList ++ first) :: rest :=
    pieces_append_of_not_mem (by decide) htext
  have hmem : '#' ∈ trim ("# ".toList ++ first) :=
    mem_trim (List.mem_append_left first (by decide)) rfl
  obtain ⟨c, more, hrow⟩ := List.exists_cons_of_ne_nil (List.ne_nil_of_mem hmem)
  obtain rfl : c = '#' := by
    have hhead : (trim ("# ".toList ++ first)).head? = some '#' :=
      head?_trim (by rintro c ⟨⟩; rfl) (List.ne_nil_of_mem hmem)
    rw [hrow] at hhead
    exact Option.some.inj hhead
  refine ⟨'#' :: more, String.ofList (trim more), ?_, ?_⟩
  · rw [rows, hpieces, List.map_cons, hrow, List.filter_cons_of_pos rfl, furtherRows, htext]
    rfl
  · rw [readRow?, read_numberSign]
    rfl

end Comments

section Meaning

/-- The names of the instruction are spelled well and it assigns no keyword, or it is a comment. -/
def Instruction.WellNamed (instruction : Instruction) : Prop :=
  (∃ text, instruction = .comment text) ∨ instruction.WellSpelled ∧ ¬instruction.AssignsKeyword

/-- The rows that the text of an instruction adds to its own. -/
def Instruction.furtherRows : Instruction → List (List Char)
  | .comment text => Listing.furtherRows text
  | _ => []

/-- The row is read, and no stack code comes of it. -/
def Inert (row : List Char) : Prop :=
  ∃ instruction, readRow? row = some instruction ∧ Bytecode.ofInstruction instruction = []

instance (row : List Char) : Decidable (Inert row) :=
  decidable_of_iff (∃ instruction ∈ readRow? row, Bytecode.ofInstruction instruction = []) Iff.rfl

/-- The first row of the text of an instruction has the stack code of that instruction. -/
theorem exists_rows_chars {instruction : Instruction} (h : instruction.WellNamed) :
    ∃ row same, rows instruction.chars = row :: instruction.furtherRows ∧
      readRow? row = some same ∧
      Bytecode.ofInstruction same = Bytecode.ofInstruction instruction := by
  by_cases hcomment : ∃ text, instruction = .comment text
  · obtain ⟨text, rfl⟩ := hcomment
    obtain ⟨row, same, hrows, hread⟩ := exists_rows_comment text
    exact ⟨row, .comment same, hrows, hread, rfl⟩
  · obtain ⟨hspelled, hkeyword⟩ := h.resolve_left hcomment
    obtain ⟨hne, hfeed, -⟩ := chars_shape hspelled
    refine ⟨trim instruction.chars, instruction, ?_, ?_, rfl⟩
    · rw [rows_of_not_mem hfeed, List.filter_cons_of_pos (by simpa using hne)]
      cases instruction with
      | comment text => exact absurd ⟨text, rfl⟩ hcomment
      | _ => rfl
    · rw [readRow?, read_chars hspelled hkeyword]
      rfl

/-- Inert rows are read, and no stack code comes of them together. -/
theorem forall_inert_iff {texts : List (List Char)} :
    (∀ row ∈ texts, Inert row) ↔
      ∃ hidden, texts.mapM readRow? = some hidden ∧ Bytecode.ofListing hidden = [] := by
  induction texts with
  | nil => exact ⟨fun _ => ⟨[], rfl, rfl⟩, fun _ _ hmem => absurd hmem List.not_mem_nil⟩
  | cons row texts ih =>
      rw [List.forall_mem_cons, ih]
      constructor
      · rintro ⟨⟨first, hfirst, hnone⟩, hidden, hread, hnothing⟩
        refine ⟨first :: hidden, mapM_cons_eq_some_iff.2 ⟨first, hidden, hfirst, hread, rfl⟩, ?_⟩
        rw [Bytecode.ofListing_cons, hnone, hnothing, List.nil_append]
      · rintro ⟨hidden, hread, hnothing⟩
        obtain ⟨first, more, hfirst, hmore, rfl⟩ := mapM_cons_eq_some_iff.1 hread
        rw [Bytecode.ofListing_cons, List.append_eq_nil_iff] at hnothing
        exact ⟨⟨first, hfirst, hnothing.1⟩, more, hmore, hnothing.2⟩

variable {listing : Listing}

theorem rows_chars (listing : Listing) :
    rows (chars listing) = listing.flatMap fun instruction => rows instruction.chars := by
  rw [chars, rows_joinLines, List.flatMap_map]

/-- The rows of an instruction are one with its stack code, and then its further rows; the rows of the
instructions behind it follow. -/
theorem exists_mapM_rows_iff {instruction : Instruction} (h : instruction.WellNamed) :
    ∃ same, Bytecode.ofInstruction same = Bytecode.ofInstruction instruction ∧
      ∀ listing other, (rows (chars (instruction :: listing))).mapM readRow? = some other ↔
        ∃ hidden more, instruction.furtherRows.mapM readRow? = some hidden ∧
          (rows (chars listing)).mapM readRow? = some more ∧ other = same :: (hidden ++ more) := by
  obtain ⟨row, same, hrows, hread, hcode⟩ := exists_rows_chars h
  refine ⟨same, hcode, fun listing other => ?_⟩
  have hsplit : rows (chars (instruction :: listing)) =
      row :: (instruction.furtherRows ++ rows (chars listing)) := by
    rw [rows_chars, rows_chars, List.flatMap_cons, hrows, List.cons_append]
  rw [hsplit, mapM_cons_eq_some_iff]
  constructor
  · rintro ⟨first, rest, hfirst, hrest, rfl⟩
    obtain rfl := Option.some.inj (hread.symm.trans hfirst)
    obtain ⟨hidden, more, hhidden, hmore, rfl⟩ := mapM_append_eq_some_iff.1 hrest
    exact ⟨hidden, more, hhidden, hmore, rfl⟩
  · rintro ⟨hidden, more, hhidden, hmore, rfl⟩
    have hrest := mapM_append_eq_some_iff.2 ⟨hidden, more, hhidden, hmore, rfl⟩
    exact ⟨same, hidden ++ more, hread, hrest, rfl⟩

variable (h : ∀ instruction ∈ listing, instruction.WellNamed)

include h

/-- The text of a listing says no less than the listing. -/
theorem sublist_of_mapM_rows {other : Listing}
    (hread : (rows (chars listing)).mapM readRow? = some other) :
    (Bytecode.ofListing listing).Sublist (Bytecode.ofListing other) := by
  induction listing generalizing other with
  | nil => exact List.nil_sublist _
  | cons instruction listing ih =>
      rw [List.forall_mem_cons] at h
      obtain ⟨same, hcode, hsplit⟩ := exists_mapM_rows_iff h.1
      obtain ⟨hidden, more, -, hmore, rfl⟩ := (hsplit listing other).1 hread
      rw [Bytecode.ofListing_cons, Bytecode.ofListing_cons, hcode, Bytecode.ofListing_append]
      exact (List.Sublist.refl _).append ((ih h.2 hmore).trans (List.sublist_append_right _ _))

/-- If it says no more either then the further rows say nothing. -/
theorem inert_of_mapM_rows {other : Listing}
    (hread : (rows (chars listing)).mapM readRow? = some other)
    (heq : Bytecode.ofListing other = Bytecode.ofListing listing) :
    ∀ instruction ∈ listing, ∀ row ∈ instruction.furtherRows, Inert row := by
  induction listing generalizing other with
  | nil => exact fun instruction hmem => absurd hmem List.not_mem_nil
  | cons instruction listing ih =>
      rw [List.forall_mem_cons] at h
      obtain ⟨same, hcode, hsplit⟩ := exists_mapM_rows_iff h.1
      obtain ⟨hidden, more, hhidden, hmore, rfl⟩ := (hsplit listing other).1 hread
      rw [Bytecode.ofListing_cons, Bytecode.ofListing_cons, hcode, Bytecode.ofListing_append] at heq
      have hrest := List.append_cancel_left heq
      -- What follows is no shorter than before, so nothing can stand in front of it.
      have hlength := (sublist_of_mapM_rows h.2 hmore).length_le
      have hnothing : Bytecode.ofListing hidden = [] := by
        have hsum := congrArg List.length hrest
        rw [List.length_append] at hsum
        apply List.eq_nil_of_length_eq_zero
        omega
      rw [hnothing, List.nil_append] at hrest
      rw [List.forall_mem_cons]
      exact ⟨forall_inert_iff.2 ⟨hidden, hhidden, hnothing⟩, ih h.2 hmore hrest⟩

theorem exists_mapM_rows (hinert : ∀ instruction ∈ listing, ∀ row ∈ instruction.furtherRows,
    Inert row) : ∃ other, (rows (chars listing)).mapM readRow? = some other ∧
      Bytecode.ofListing other = Bytecode.ofListing listing := by
  induction listing with
  | nil => exact ⟨[], rfl, rfl⟩
  | cons instruction listing ih =>
      rw [List.forall_mem_cons] at h hinert
      obtain ⟨same, hcode, hsplit⟩ := exists_mapM_rows_iff h.1
      obtain ⟨hidden, hhidden, hnothing⟩ := forall_inert_iff.1 hinert.1
      obtain ⟨more, hmore, hrest⟩ := ih h.2 hinert.2
      refine ⟨_, (hsplit listing _).2 ⟨hidden, more, hhidden, hmore, rfl⟩, ?_⟩
      rw [Bytecode.ofListing_cons, Bytecode.ofListing_append, hnothing, hcode, hrest,
        Bytecode.ofListing_cons]
      rfl

/-- What is read from the text of a listing has the stack code of the listing, and more where a line
feed in a comment lets in a row with stack code.  It has just that code exactly when there is no such
row and all are read. -/
theorem read_render_code :
    (∀ other, read (render listing) = .ok other →
        (Bytecode.ofListing listing).Sublist (Bytecode.ofListing other)) ∧
      ((∃ other, read (render listing) = .ok other ∧
          Bytecode.ofListing other = Bytecode.ofListing listing) ↔
        ∀ instruction ∈ listing, ∀ row ∈ instruction.furtherRows, Inert row) := by
  have hread : ∀ other, read (render listing) = .ok other ↔
      (rows (chars listing)).mapM readRow? = some other := by
    intro other
    rw [read_eq_ok_iff, render, String.toList_ofList]
  simp only [hread]
  refine ⟨fun other => sublist_of_mapM_rows h, ?_, exists_mapM_rows h⟩
  rintro ⟨other, hother, heq⟩
  exact inert_of_mapM_rows h hother heq

end Meaning

end Listing

end StackPipeline
