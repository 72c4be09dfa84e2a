import StackPipeline.Proofs.Listing.Rereading
import StackPipeline.Proofs.Listing.Rows
import StackPipeline.Proofs.Lowering.Vocabulary

/-!
What the text of an optimized listing says, next to the stack code that was compiled from it.

Texts that a program prints and asks with are quoted, and do not leave their lines.  An import leaves a
comment with its path as it is.  What follows a line feed in that is read as instructions, unless it is
blank.
-/

namespace StackPipeline

namespace Listing

variable {instruction : Instruction}

theorem wellNamed_of_isPlain (h : ∀ name ∈ instruction.names, IsPlain name) :
    instruction.WellNamed := by
  by_cases hcomment : ∃ text, instruction = .comment text
  · exact .inl hcomment
  · rw [not_exists] at hcomment
    refine .inr ⟨?_, ?_⟩
    · exact wellSpelled_of_isIdentifier (fun name hname => (h name hname).1)
        fun text heq => absurd heq (hcomment text)
    · cases instruction with
      | assign target source => exact (h target List.mem_cons_self).2
      | _ => exact id

/-- Folding leaves names that are spelled well. -/
theorem Instruction.WellNamed.foldSource (known : Optimizer.Known) {target : String} {source : Source}
    (h : (Instruction.assign target source).WellNamed) :
    (Instruction.assign target (known.foldSource source)).WellNamed := by
  rcases h with ⟨text, heq⟩ | ⟨hspelled, hkeyword⟩
  · cases heq
  · refine .inr ⟨?_, hkeyword⟩
    exact ⟨hspelled.1, hspelled.2.1, hspelled.2.2.1, wellSpelled_foldSource known hspelled.2.2.2⟩

/-- Only comments have further rows. -/
theorem forall_furtherRows_iff {listing : Listing} {allowed : List Char → Prop} :
    (∀ instruction ∈ listing, ∀ row ∈ instruction.furtherRows, allowed row) ↔
      ∀ text ∈ comments listing, ∀ row ∈ furtherRows text, allowed row := by
  constructor
  · exact fun h text hmem => h _ (mem_comments_iff.1 hmem)
  · intro h instruction hmem
    cases instruction with
    | comment text => exact h text (mem_comments_iff.2 hmem)
    | _ => exact fun row hrow => absurd hrow List.not_mem_nil

end Listing

namespace Pipeline

open Listing (IsPlain)
open Lowering (lower)
open StackPipeline.Tree (Program)

/-- **The text of a compiled listing.**  Whatever a program with plain names prints and asks with, and
whichever passes are on, what is read from the text of its optimized listing has the compiled stack code,
in order, and maybe more.  It is read, and has just that code, exactly when each further line of an
imported path is blank or an instruction without stack code. -/
theorem read_optimized_iff {program : Program} {listing : Listing}
    (hlower : lower program = .ok listing) (hplain : ∀ name ∈ program.names, IsPlain name)
    (passes : Optimizer.Passes) :
    ∃ artifacts, compile passes program = .ok artifacts ∧
      (∀ other, Listing.read (Listing.render artifacts.optimized) = .ok other →
        artifacts.bytecode.Sublist (Bytecode.ofListing other)) ∧
      ((∃ other, Listing.read (Listing.render artifacts.optimized) = .ok other ∧
          Bytecode.ofListing other = artifacts.bytecode) ↔
        ∀ path ∈ program.imports, ∀ row ∈ Listing.furtherRows path, Listing.Inert row) := by
  refine ⟨.ofListing passes listing, by rw [compile, hlower], ?_⟩
  have hnamed : ∀ instruction ∈ Optimizer.optimize passes listing, instruction.WellNamed := by
    refine Optimizer.forall_mem_optimize ?_ passes ?_
    · exact fun known target source => Listing.Instruction.WellNamed.foldSource known
    · intro instruction hmem
      apply Listing.wellNamed_of_isPlain
      exact Lowering.isPlain_names_lower hlower hplain instruction hmem
  obtain ⟨hsublist, hcode⟩ := Listing.read_render_code hnamed
  refine ⟨hsublist, hcode.trans ?_⟩
  have hcomments : Listing.comments (Optimizer.optimize passes listing) =
      Lowering.importComments program.imports :=
    (Optimizer.filterMap_optimize (fun _ _ => rfl) passes listing).trans
      (Lowering.comments_lower hlower)
  have hfront (path : String) : Listing.furtherRows ("import " ++ path) = Listing.furtherRows path :=
    Listing.furtherRows_append (by decide) path
  rw [Listing.forall_furtherRows_iff, hcomments, Lowering.importComments, List.forall_mem_map]
  simp only [hfront]

/-- A program that prints, asks and imports with what separates instructions. -/
def chatter : Program :=
  ⟨[.importFile "lib\n\r\n # x = 5\nprint \"\"", .declare "x" (.read "goto L1\nx = 1\r\n"),
    .print "\"\nx = 2\n# " [.binary (.var "x") .add (.number 1)]]⟩

theorem read_optimized_iff_chatter :
    ∃ artifacts other, compile .all chatter = .ok artifacts ∧
      Listing.read (Listing.render artifacts.optimized) = .ok other ∧
      Bytecode.ofListing other = artifacts.bytecode := by
  obtain ⟨listing, hlower⟩ : ∃ listing, lower chatter = .ok listing := ⟨_, rfl⟩
  obtain ⟨artifacts, hcompile, -, hiff⟩ := read_optimized_iff hlower (by decide) .all
  obtain ⟨other, hread, hcode⟩ := hiff.2 (by decide +kernel)
  exact ⟨artifacts, other, hcompile, hread, hcode⟩

/-- A program that does nothing, with an assignment in the path of its import. -/
def smuggler : Program :=
  ⟨[.importFile "lib\nx = 5"]⟩

/-- No stack code is compiled, and the text of the listing sets a variable. -/
theorem import_path_adds_code :
    (∀ name ∈ smuggler.names, IsPlain name) ∧
      ∃ artifacts, compile .all smuggler = .ok artifacts ∧ artifacts.bytecode = [] ∧
        Listing.render artifacts.optimized = "# import lib\nx = 5" ∧
        Listing.read "# import lib\nx = 5" =
          .ok [.comment "import lib", .assign "x" (.operand (.number 5))] ∧
        ¬∃ other, Listing.read (Listing.render artifacts.optimized) = .ok other ∧
          Bytecode.ofListing other = artifacts.bytecode := by
  have hread : Listing.read "# import lib\nx = 5" =
      .ok [.comment "import lib", .assign "x" (.operand (.number 5))] := by
    decide +kernel
  refine ⟨by decide, _, rfl, rfl, rfl, hread, ?_⟩
  rintro ⟨other, hother, hcode⟩
  have hsame : Listing.read "# import lib\nx = 5" = .ok other := hother
  rw [hread] at hsame
  cases hsame
  cases hcode

end Pipeline

end StackPipeline
