import StackPipeline.Pipeline.Execution
import StackPipeline.Proofs.Machine.Executed
import StackPipeline.Proofs.Machine.Jumps
import StackPipeline.Settings.Basic

/-!
Which instruction a failed execution names.

It names the instruction before the one at which the machine is.  An instruction that fails is this one,
and so is the last one before the step limit unless it was a jump: behind a jump the machine is at a
label, and what stands before the label need not have been executed at all.
-/

namespace StackPipeline.Pipeline

open Bytecode (Instruction)
open Machine (Input Limits Loaded Sink State StandsOnlyAt executed load)

section Execute

variable {code : Bytecode} {loaded : Loaded} {fuel : Nat} {limits : Limits} {input : Input}
  {sink out : Sink} {failure : Failure}

/-- The failure of code that loads is about a run that has failed. -/
theorem run_of_execute_eq_error (hload : load code = .ok loaded)
    (h : execute fuel limits code input sink = some (.error failure, out)) :
    ∃ last fault, Machine.run loaded limits fuel (.start input sink) = some (last, .failed fault) ∧
      failure =
        (Cause.fault fault).during s!"Execution failed at instruction {last.pc - 1}" := by
  rw [execute, loadCode, hload] at h
  dsimp only at h
  cases hrun : Machine.run loaded limits fuel (.start input sink) with
  | none => simp [hrun] at h
  | some ending =>
      obtain ⟨last, outcome⟩ := ending
      simp only [hrun, Option.some.injEq, Prod.mk.injEq] at h
      cases outcome with
      | completed completion => cases h.1
      | failed fault =>
          cases h.1
          exact ⟨last, fault, rfl, rfl⟩

/-- A jump goes to the one index where its label stands, which is not the index of the jump. -/
theorem standsOnlyAt_of_jumpsTo (hload : load code = .ok loaded) {index place : Nat}
    (h : Machine.JumpsTo loaded index place) :
    place ≠ index ∧ ∃ instruction label, code[index]? = some instruction ∧
      instruction.target? = some label ∧ StandsOnlyAt code label place := by
  obtain ⟨instruction, label, hfetch, htarget, hplace⟩ := h
  rw [Machine.code_of_load hload, List.getElem?_toArray] at hfetch
  obtain ⟨target, hstands, hlabel⟩ := Machine.exists_standsOnlyAt hload hfetch htarget
  cases hplace.symm.trans hlabel
  refine ⟨?_, instruction, label, hfetch, htarget, hstands⟩
  rintro rfl
  cases hfetch.symm.trans hstands.fetch_eq
  cases htarget

/-- **Which instruction a failure names.**  Unless the step limit stops it, an execution that fails names
the instruction that it executed last, and a fault with an index has the same one.  If the step limit
stops it, it names this instruction too if that led to the next one.  But if that was a jump elsewhere,
it names what stands before the label to which the jump went, or the label itself at the start of the
code, and so another instruction. -/
theorem failure_names_instruction (hload : load code = .ok loaded)
    (h : execute fuel limits code input sink = some (.error failure, out)) {index : Nat}
    (hlast : (executed loaded limits fuel (.start input sink)).getLast? = some index) :
    ∃ last fault, Machine.run loaded limits fuel (.start input sink) = some (last, .failed fault) ∧
      failure = (Cause.fault fault).during s!"Execution failed at instruction {last.pc - 1}" ∧
      last.steps = (executed loaded limits fuel (.start input sink)).length ∧
      ((∀ limit, fault ≠ .stepLimit limit) →
        last.pc - 1 = index ∧ ∀ place, fault.index? = some place → place = index) ∧
      ∀ limit, fault = .stepLimit limit →
        last.pc = index + 1 ∧ last.pc - 1 = index ∨
        last.pc ≠ index + 1 ∧ last.pc - 1 ≠ index ∧
          ∃ instruction label, code[index]? = some instruction ∧
            instruction.target? = some label ∧ StandsOnlyAt code label last.pc := by
  obtain ⟨last, fault, hrun, hfailure⟩ := run_of_execute_eq_error hload h
  have hexecutes := Machine.executes_of_run hrun
  have hsteps : last.steps = 0 + _ := hexecutes.steps_eq
  rw [Nat.zero_add] at hsteps
  refine ⟨last, fault, hrun, hfailure, hsteps, ?_⟩
  cases hexecutes.failedAfter hlast with
  | within hpc hlimit hindex =>
      rw [hpc]
      exact ⟨fun _ => ⟨rfl, hindex⟩, fun limit hfault => absurd hfault (hlimit limit)⟩
  | behind limit hfault hpc =>
      refine ⟨fun hlimit => absurd hfault (hlimit limit), fun _ _ => ?_⟩
      by_cases hnext : last.pc = index + 1
      · exact .inl ⟨hnext, by omega⟩
      · obtain ⟨hne, hjumps⟩ := standsOnlyAt_of_jumpsTo hload (hpc.resolve_left hnext)
        exact .inr ⟨hnext, by omega, hjumps⟩

end Execute

/-- Code that jumps over a print. -/
def skipping : Bytecode := [.jump "end", .printText "skipped", .label "end", .read "? "]

def skippingLoaded : Loaded := ⟨skipping.toArray, ⟨[("end", 2)]⟩⟩

/-- Without input the read is executed last and named. -/
theorem failure_names_instruction_read :
    executed skippingLoaded MachineSettings.standard.limits 9 (.start (.ofBytes []) .unlimited) =
        [0, 2, 3] ∧
      ∃ last, Machine.run skippingLoaded MachineSettings.standard.limits 9
          (.start (.ofBytes []) .unlimited) = some (last, .failed (.inputClosed 3)) ∧
        last.pc - 1 = 3 := by
  have hexecuted : executed skippingLoaded MachineSettings.standard.limits 9
      (.start (.ofBytes []) .unlimited) = [0, 2, 3] := rfl
  have hload : load skipping = .ok skippingLoaded := rfl
  obtain ⟨failure, out, hexecute⟩ : ∃ failure out,
      execute 9 MachineSettings.standard.limits skipping (.ofBytes []) .unlimited =
        some (.error failure, out) := ⟨_, _, rfl⟩
  obtain ⟨last, fault, hrun, -, -, hwithin, -⟩ :=
    failure_names_instruction hload hexecute (congrArg List.getLast? hexecuted)
  cases hrun
  exact ⟨hexecuted, _, rfl, (hwithin (by simp)).1⟩

/-- With a limit of one step only the jump is executed, and the print is named. -/
theorem failure_can_name_skipped_instruction :
    load skipping = .ok skippingLoaded ∧
      executed skippingLoaded { MachineSettings.standard.limits with maxSteps := some 1 } 9
        (.start (.ofBytes []) .unlimited) = [0] ∧
      ∃ out, execute 9 { MachineSettings.standard.limits with maxSteps := some 1 } skipping
          (.ofBytes []) .unlimited =
        some (.error ((Cause.fault (.stepLimit 1)).during "Execution failed at instruction 1"), out) :=
  ⟨rfl, rfl, _, rfl⟩

end StackPipeline.Pipeline
