import StackPipeline.Pipeline.Compilation
import StackPipeline.Proofs.Bytecode.Blocks
import StackPipeline.Proofs.Lowering.Assignments
import StackPipeline.Proofs.Machine.Execution
import StackPipeline.Proofs.Optimizer.Knowledge
import StackPipeline.Proofs.Optimizer.LeastLiveness
import StackPipeline.Proofs.Optimizer.Survivors

/-!
Compiled programs load, and what they do to loops they do by jumps.

Lowering numbers labels and resolves loops; the optimizer and the translation to stack code keep both.
The machine complains about a break or a continue only where it finds one.
-/

namespace StackPipeline

namespace Optimizer

open Listing (Resolved)

variable {listing : Listing}

/-- What both passes keep the optimizer keeps, whatever is switched on. -/
theorem optimize_keeps (kept : Listing → Prop)
    (hfold : ∀ listing, kept listing → kept (foldConstants listing))
    (heliminate : ∀ listing, kept listing → kept (eliminateDead listing)) (passes : Passes)
    (h : kept listing) : kept (optimize passes listing) := by
  have hfirst : kept (passes.fold listing) := by
    rw [Passes.fold]
    split
    · exact hfold listing h
    · exact h
  rw [optimize, Passes.eliminate]
  split
  · exact heliminate _ hfirst
  · exact hfirst

/-- What holds of every instruction, and goes on to hold when the source of an assignment is folded, the
optimizer keeps. -/
theorem forall_mem_optimize {kept : Listing.Instruction → Prop}
    (hfold : ∀ (known : Known) target source, kept (.assign target source) →
      kept (.assign target (known.foldSource source)))
    (passes : Passes) (h : ∀ instruction ∈ listing, kept instruction) :
    ∀ instruction ∈ optimize passes listing, kept instruction := by
  refine optimize_keeps (∀ instruction ∈ ·, kept instruction) ?_ ?_ passes h
  · intro listing h folded hmem
    obtain ⟨position, hposition⟩ := List.mem_iff_getElem?.1 hmem
    rw [getElem?_foldConstants] at hposition
    obtain ⟨instruction, hinstruction, rfl⟩ := Option.map_eq_some_iff.1 hposition
    have hkept := h instruction (List.mem_of_getElem? hinstruction)
    cases instruction with
    | assign target source => exact hfold _ target source hkept
    | _ => exact hkept
  · exact fun listing h instruction hmem => h instruction ((keepLive_sublist listing _).subset hmem)

/-- What is not taken from an assignment the optimizer keeps. -/
theorem filterMap_optimize {α : Type} {f : Listing.Instruction → Option α}
    (hassign : ∀ target source, f (.assign target source) = none) (passes : Passes)
    (listing : Listing) : (optimize passes listing).filterMap f = listing.filterMap f := by
  refine optimize_keeps (·.filterMap f = listing.filterMap f) ?_ ?_ passes rfl
  · exact fun other h => (filterMap_foldListing .empty hassign other).trans h
  · exact fun other h => (filterMap_keepLive hassign (length_le_liveness other)).trans h

/-- The optimizer keeps loops resolved. -/
theorem resolved_optimize (passes : Passes) (h : Resolved listing) :
    Resolved (optimize passes listing) :=
  forall_mem_optimize (fun _ _ _ _ => ⟨nofun, nofun⟩) passes h

/-- The optimizer keeps labels and jumps. -/
theorem wellLabelled_optimize (passes : Passes) (h : Listing.WellLabelled listing) :
    Listing.WellLabelled (optimize passes listing) :=
  optimize_keeps Listing.WellLabelled (fun _ => wellLabelled_foldConstants)
    (fun listing => wellLabelled_keepLive (length_le_liveness listing)) passes h

end Optimizer

namespace Bytecode

/-- No loop is left or continued without a label. -/
def Resolved (code : Bytecode) : Prop :=
  ∀ instruction ∈ code, instruction ≠ .breakLoop ∧ instruction ≠ .continueLoop

theorem resolved_cons {instruction : Instruction} {rest : Bytecode} :
    Resolved (instruction :: rest) ↔
      (instruction ≠ .breakLoop ∧ instruction ≠ .continueLoop) ∧ Resolved rest :=
  List.forall_mem_cons

theorem resolved_append {front rest : Bytecode} :
    Resolved (front ++ rest) ↔ Resolved front ∧ Resolved rest :=
  List.forall_mem_append

theorem ofOperand_ne (operand : Listing.Operand) :
    ofOperand operand ≠ .breakLoop ∧ ofOperand operand ≠ .continueLoop := by
  cases operand <;> exact ⟨nofun, nofun⟩

/-- Only a break or continue of the listing becomes one of the stack code. -/
theorem resolved_ofInstruction {instruction : Listing.Instruction}
    (h : instruction ≠ .breakLoop ∧ instruction ≠ .continueLoop) :
    Resolved (ofInstruction instruction) := by
  have hnil : Resolved [] := fun _ hmem => absurd hmem List.not_mem_nil
  cases instruction with
  | assign target source =>
      cases source <;> simp [ofInstruction, ofSource, resolved_cons, ofOperand_ne, hnil]
  | print text arguments =>
      rw [ofInstruction, resolved_append, ofText]
      refine ⟨?_, ?_⟩
      · split <;> simp [resolved_cons, hnil]
      · intro inner hmem
        obtain ⟨argument, -, hmem⟩ := List.mem_flatMap.1 hmem
        rcases List.mem_pair.1 hmem with rfl | rfl
        · exact ofOperand_ne argument
        · simp
  | ret value => cases value <;> simp [ofInstruction, resolved_cons, ofOperand_ne, hnil]
  | breakLoop => exact absurd rfl h.1
  | continueLoop => exact absurd rfl h.2
  | _ => simp [ofInstruction, resolved_cons, ofOperand_ne, hnil]

theorem resolved_ofListing {listing : Listing} (h : Listing.Resolved listing) :
    Resolved (ofListing listing) := by
  intro inner hmem
  obtain ⟨instruction, hinstruction, hinner⟩ := List.mem_flatMap.1 hmem
  exact resolved_ofInstruction (h instruction hinstruction) inner hinner

end Bytecode

namespace Machine

open Bytecode (Instruction)

/-- A step that does not stop at an unresolved break or continue. -/
def Progress.IsResolved : Progress → Prop
  | .running _ => True
  | .stopped _ outcome => ∀ index instruction, outcome ≠ .failed (.unresolvedTransfer index instruction)

section Steps

variable (loaded : Loaded) (limits : Limits) (state : State)

theorem isResolved_push (index : Nat) (value : Value) :
    (state.push limits index value).IsResolved := by
  rw [State.push]
  split
  · rintro _ _ ⟨⟩
  · trivial

theorem isResolved_write (text : String) : (state.write text).IsResolved := by
  rw [State.write]
  split
  · trivial
  · rintro _ _ ⟨⟩

theorem isResolved_readLine (index : Nat) (prompt : String) :
    (state.readLine limits index prompt).IsResolved := by
  have hwrite := isResolved_write state prompt
  rw [State.readLine]
  cases hprogress : state.write prompt with
  | stopped last outcome => rwa [hprogress] at hwrite
  | running written =>
      rcases hline : written.input.takeLine with ⟨text | _ | error, input⟩
      · simp only [hline]
        exact isResolved_push limits _ index _
      · simp only [hline]
        rintro _ _ ⟨⟩
      · simp only [hline]
        rintro _ _ ⟨⟩

theorem isResolved_operate (index : Nat) (op : Operator) :
    (state.operate index op).IsResolved := by
  rw [State.operate]
  split
  · rintro _ _ ⟨⟩
  · split
    · rintro _ _ ⟨⟩
    · dsimp only
      split
      · trivial
      · rintro _ _ ⟨⟩

/-- Only a break or a continue is unresolved. -/
theorem isResolved_execute (index : Nat) {instruction : Instruction}
    (h : instruction ≠ .breakLoop ∧ instruction ≠ .continueLoop) :
    (execute loaded limits index state instruction).IsResolved := by
  cases instruction with
  | push value => exact isResolved_push limits state index _
  | load name => exact isResolved_push limits state index _
  | read prompt => exact isResolved_readLine limits state index prompt
  | operate op => exact isResolved_operate state index op
  | printText text => exact isResolved_write state _
  | jump label => trivial
  | label name => trivial
  | store name =>
      rw [execute]
      split
      · rintro _ _ ⟨⟩
      · trivial
  | jumpIfNonzero label =>
      rw [execute]
      split
      · rintro _ _ ⟨⟩
      · rintro _ _ ⟨⟩
      · split <;> trivial
  | printTop =>
      rw [execute]
      split
      · trivial
      · exact isResolved_write _ _
  | ret =>
      rw [execute]
      split
      · rintro _ _ ⟨⟩
      · rintro _ _ ⟨⟩
  | breakLoop => exact absurd rfl h.1
  | continueLoop => exact absurd rfl h.2

end Steps

/-- No run of resolved code stops at a break or a continue. -/
theorem ne_unresolvedTransfer_of_ends {code : Bytecode} {loaded : Loaded} {limits : Limits}
    (hload : load code = .ok loaded) (hresolved : Bytecode.Resolved code) {start last : State}
    {outcome : Outcome} (h : Ends loaded limits start (last, outcome)) (index : Nat)
    (instruction : Instruction) : outcome ≠ .failed (.unresolvedTransfer index instruction) := by
  obtain ⟨state, -, hstop⟩ := h.exists_reaches
  rw [step, code_of_load hload, List.getElem?_toArray] at hstop
  cases hfetch : code[state.pc]? with
  | none =>
      rw [hfetch] at hstop
      cases hstop
      simp
  | some found =>
      have hfound := hresolved found (List.mem_of_getElem? hfetch)
      simp only [hfetch] at hstop
      cases hlimit : limits.exhausted? state.steps with
      | some limit =>
          simp only [hlimit] at hstop
          cases hstop
          simp
      | none =>
          simp only [hlimit] at hstop
          have hsettled := isResolved_execute loaded limits
            { state with pc := state.pc + 1, steps := state.steps + 1 } state.pc hfound
          rw [hstop] at hsettled
          exact hsettled index instruction

end Machine

namespace Pipeline

open Lowering (lower)
open Machine (Ends load)
open StackPipeline.Tree (Program)

/-- **Compiled programs load.**  Whatever program is accepted and whichever passes are on, the stack
code has no break and no continue, no label twice and no jump without a label.  So it loads, and no run
of it meets a break or a continue outside of a loop. -/
theorem compiled_programs_load {program : Program} {listing : Listing}
    (hlower : lower program = .ok listing) (passes : Optimizer.Passes) :
    ∃ artifacts loaded, compile passes program = .ok artifacts ∧
      (∀ instruction ∈ artifacts.bytecode,
        instruction ≠ .breakLoop ∧ instruction ≠ .continueLoop) ∧
      Bytecode.WellLabelled artifacts.bytecode ∧
      load artifacts.bytecode = .ok loaded ∧
      ∀ limits input sink last outcome, Ends loaded limits (.start input sink) (last, outcome) →
        ∀ index instruction, outcome ≠ .failed (.unresolvedTransfer index instruction) := by
  have hresolved : Bytecode.Resolved (Artifacts.ofListing passes listing).bytecode :=
    Bytecode.resolved_ofListing
      (Optimizer.resolved_optimize passes (Lowering.writes_lower hlower).resolved)
  have hlabels : Bytecode.WellLabelled (Artifacts.ofListing passes listing).bytecode :=
    (Bytecode.wellLabelled_ofListing_iff _).2
      (Optimizer.wellLabelled_optimize passes (Lowering.wellLabelled_lower hlower))
  obtain ⟨loaded, hload⟩ := (Machine.load_isOk_iff _).2 hlabels
  refine ⟨.ofListing passes listing, loaded, ?_, hresolved, hlabels, hload, ?_⟩
  · rw [compile, hlower]
  · intro limits input sink last outcome hends
    exact Machine.ne_unresolvedTransfer_of_ends hload hresolved hends

/-- A program that leaves one loop from inside another and goes on with the first. -/
def nested : Program :=
  ⟨[.forLoop "i" (.number 3) [.whileLoop (.boolean true) [.breakLoop],
    .choose [.mk (.binary (.var "i") .lt (.number 1)) [.continueLoop]] (some [.ret none])]]⟩

theorem compiled_programs_load_nested :
    ∃ artifacts loaded, compile .all nested = .ok artifacts ∧
      Bytecode.labels artifacts.bytecode =
        ["L0", "L3", "L4", "L5", "L7", "L8", "L6", "L1", "L2"] ∧
      load artifacts.bytecode = .ok loaded ∧
      ∀ last outcome, Ends loaded ⟨2, none⟩ (.start (.ofBytes []) .unlimited) (last, outcome) →
        outcome ≠ .failed (.unresolvedTransfer 0 .breakLoop) := by
  have hlabels : (compile .all nested).toOption.map
      (fun artifacts => Bytecode.labels artifacts.bytecode) =
        some ["L0", "L3", "L4", "L5", "L7", "L8", "L6", "L1", "L2"] := by
    decide +kernel
  cases hlower : lower nested with
  | error error => simp [compile, hlower, Except.toOption] at hlabels
  | ok listing =>
      obtain ⟨artifacts, loaded, hcompile, -, -, hload, hruns⟩ :=
        compiled_programs_load hlower .all
      rw [hcompile] at hlabels
      refine ⟨artifacts, loaded, hcompile, Option.some.inj hlabels, hload, ?_⟩
      intro last outcome hends
      exact hruns _ _ _ last outcome hends 0 .breakLoop

end Pipeline

end StackPipeline
