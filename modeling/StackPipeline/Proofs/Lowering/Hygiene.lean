import StackPipeline.Proofs.Lowering.Assignments
import StackPipeline.Proofs.Lowering.Correctness

/-!
When temporaries stay out of a program's way.

Temporaries are numbered without a look at the program.  A program has its variables for itself as long
as none of them is called like a temporary that is handed out; else an operator, a line of input or a
loop sets the variable too.
-/

namespace StackPipeline.Lowering

open StackPipeline.Tree (Program Evaluates)
open Bytecode (ofListing)
open Machine (load)

/-- **Hygiene.**  Lowered code assigns the variables of the program as the program does, and at no
other place, exactly if no temporary that is handed out is a variable of the program. -/
theorem assigned_lower_eq_iff {program : Program} {listing : Listing}
    (h : lower program = .ok listing) :
    (Listing.assigned listing).filter (· ∈ program.names) = program.assigned ↔
      ∀ number < temporaryCount program, temporaryName number ∉ program.names := by
  have hwrites := writes_lower h
  constructor
  · intro heq number hnumber hmem
    have hlt := hwrites.count_lt _ ⟨number, Nat.zero_le number, hnumber, rfl⟩
    rw [← heq, List.count_filter] at hlt
    · exact Nat.lt_irrefl _ hlt
    · exact decide_eq_true hmem
  · intro hclean
    rw [hwrites.filter_eq]
    · exact List.filter_eq_self.2 fun name hname => decide_eq_true (program.assigned_subset hname)
    · rintro name ⟨number, -, hnumber, rfl⟩
      exact decide_eq_false (hclean number hnumber)

/-- A program with a variable that is called like a temporary, but none that is handed out. -/
def nearMiss : Program :=
  ⟨[.declare "t1" (.number 5), .declare "x" (.binary (.number 1) .add (.var "t1"))]⟩

theorem assigned_lower_eq_iff_nearMiss :
    ∃ listing, lower nearMiss = .ok listing ∧ temporaryCount nearMiss = 1 ∧
      Listing.assigned listing = ["t1", "t0", "x"] ∧
      (Listing.assigned listing).filter (· ∈ nearMiss.names) = nearMiss.assigned := by
  obtain ⟨listing, hlower⟩ : ∃ listing, lower nearMiss = .ok listing := ⟨_, rfl⟩
  refine ⟨listing, hlower, rfl, ?_, (assigned_lower_eq_iff hlower).2 (by decide)⟩
  cases hlower
  decide

/-- A program with a variable that is called like the temporary of its operator. -/
def clash : Program :=
  ⟨[.declare "t0" (.number 5), .declare "x" (.binary (.number 1) .add (.number 2)),
    .print "" [.var "t0"]]⟩

/-- The variable is set behind the program's back: the program prints 5, its code 3. -/
theorem temporary_captures_variable :
    ¬(∀ program listing, lower program = .ok listing →
        ∀ number < temporaryCount program, temporaryName number ∉ program.names) ∧
      ∃ listing loaded scene last, lower clash = .ok listing ∧
        load (ofListing listing) = .ok loaded ∧
        Evaluates clash (.ofBytes []) .unlimited (scene, .normal) ∧
        scene.world.sink.bytes.toList = [53, 10] ∧
        Machine.Ends loaded ⟨2, none⟩ (.start (.ofBytes []) .unlimited)
          (last, .completed .normal) ∧
        last.sink.bytes.toList = [51, 10] := by
  obtain ⟨listing, hlower⟩ : ∃ listing, lower clash = .ok listing := ⟨_, rfl⟩
  constructor
  · intro h
    exact h clash listing hlower 0 (by decide) (by decide)
  have hload : load (ofListing listing) = .ok ⟨(ofListing listing).toArray, .empty⟩ := by
    cases hlower
    rfl
  have heval : (Tree.execBlock clash.statements 1 (.start (.ofBytes []) .unlimited)).map
      (fun result => (result.1.world.sink.bytes.toList, result.2)) = some ([53, 10], .normal) := by
    decide +kernel
  have hrun : (Machine.run ⟨(ofListing listing).toArray, .empty⟩ ⟨2, none⟩ 11
      (.start (.ofBytes []) .unlimited)).map
      (fun ending => (ending.1.sink.bytes.toList, ending.2)) =
        some ([51, 10], .completed .normal) := by
    cases hlower
    decide +kernel
  obtain ⟨⟨scene, control⟩, hscene, hresult⟩ := Option.map_eq_some_iff.1 heval
  obtain ⟨⟨last, outcome⟩, hlast, hending⟩ := Option.map_eq_some_iff.1 hrun
  simp only [Prod.mk.injEq] at hresult hending
  obtain ⟨hprinted, rfl⟩ := hresult
  obtain ⟨hshown, rfl⟩ := hending
  exact ⟨listing, _, scene, last, hlower, hload, ⟨1, hscene⟩, hprinted, ⟨11, hlast⟩, hshown⟩

end StackPipeline.Lowering
