import StackPipeline.Pipeline.Compilation
import StackPipeline.Pipeline.Execution
import StackPipeline.Proofs.Machine.Limits
import StackPipeline.Proofs.Optimizer.KeptAssignments
import StackPipeline.Settings.Basic

/-!
What the report of a run says about the variables, with the optimizer and without.

A report is made at the end, when no instruction reads anything any more.  So an assignment that the
optimizer drops is missed there if it was the last one to its target: the report then has the value of
an earlier one.
-/

namespace StackPipeline.Pipeline

open Bytecode (Hosts ofListing)
open Listing (HasHistory Ending interpreter lastTo? lastValue?)
open Machine (Input Limits Sink load)
open Optimizer (Passes optimize)
open StackPipeline.Tree (Program)

/-- A report is about a run that has ended well. -/
theorem run_of_execute {fuel : Nat} {limits : Limits} {code : Bytecode} {input : Input}
    {sink out : Sink} {report : Report}
    (h : execute fuel limits code input sink = some (.ok report, out)) :
    ∃ loaded last, load code = .ok loaded ∧
      Machine.run loaded limits fuel (.start input sink) =
        some (last, .completed report.completion) ∧ report.store = last.store := by
  rw [execute, loadCode] at h
  cases hload : load code with
  | error error => simp [hload] at h
  | ok loaded =>
      simp only [hload] at h
      cases hrun : Machine.run loaded limits fuel (.start input sink) with
      | none => simp [hrun] at h
      | some ending =>
          obtain ⟨last, outcome⟩ := ending
          simp only [hrun, Option.some.injEq, Prod.mk.injEq] at h
          cases outcome with
          | failed fault => cases h.1
          | completed completion =>
              cases h.1
              exact ⟨loaded, last, rfl, hrun, rfl⟩

/-- The listing of code that has run to a report ends with the variables of the report, whatever the
limits were. -/
theorem interpreter_of_execute {listing : Listing} {fuel : Nat} {limits : Limits} {input : Input}
    {sink out : Sink} {report : Report}
    (h : execute fuel limits (ofListing listing) input sink = some (.ok report, out)) :
    Listing.WellLabelled listing ∧ ∃ last,
      (interpreter listing).Ends (.start input sink) (last, .completed report.completion) ∧
      report.store = last.world.store := by
  obtain ⟨loaded, last, hload, hrun, hstore⟩ := run_of_execute h
  have hlabels := (Bytecode.exists_load_ofListing_iff listing).1 ⟨loaded, hload⟩
  have hosts : Hosts loaded limits.loosened listing := ⟨hload, rfl, Nat.le_max_right _ _⟩
  have hends : Machine.Ends loaded limits.loosened (.start input sink)
      (last, .completed report.completion) :=
    ⟨fuel, Machine.run_of_looserThan limits.loosened_looserThan hrun⟩
  obtain ⟨⟨state, ending⟩, total, hmetered, hmatches, -⟩ := hosts.metered_of_ends hends
  have hcompleted : Bytecode.Shows listing (last, .completed report.completion) state.position
      (.completed report.completion) := rfl
  obtain rfl := hmatches.shows.ending_unique hcompleted
  refine ⟨hlabels, state, (System.ends_metered_iff _ _ 0 _).1 ⟨total, hmetered⟩, ?_⟩
  rw [hstore, hmatches.store_eq]

/-- **A report under the optimizer is up to date but for what the optimizer drops.**  Without the
optimizer each variable has the value that was assigned to it last in the run; with it, the value that
was assigned to it last in the same run by an assignment that is not dropped.  So the two reports agree
on each variable whose last assignment is not dropped. -/
theorem report_optimized {program : Program} {passes : Passes} {plain optimized : Artifacts}
    (hplain : compile .none program = .ok plain)
    (hoptimized : compile passes program = .ok optimized) {limits : Limits} {input : Input}
    {sink out other : Sink} {fuel more : Nat} {report stripped : Report}
    (hreport : execute fuel limits plain.bytecode input sink = some (.ok report, out))
    (hstripped : execute more limits optimized.bytecode input sink = some (.ok stripped, other)) :
    ∃ history, HasHistory plain.listing input sink history ∧ ∀ name,
      report.store.get? name = lastValue? history name ∧
      stripped.store.get? name = lastValue? (history.filter fun assignment =>
        !passes.drops plain.listing assignment.position) name ∧
      ((∀ assignment, lastTo? history name = some assignment →
          passes.drops plain.listing assignment.position = false) →
        stripped.store.get? name = report.store.get? name) := by
  cases hlower : Lowering.lower program with
  | error error => simp [compile, hlower] at hplain
  | ok listing =>
      simp only [compile, hlower, Except.ok.injEq] at hplain hoptimized
      subst hplain hoptimized
      change execute fuel limits (ofListing listing) input sink = _ at hreport
      change execute more limits (ofListing (optimize passes listing)) input sink = _ at hstripped
      obtain ⟨hlabels, last, ⟨steps, hrun⟩, hstore⟩ := interpreter_of_execute hreport
      obtain ⟨-, remaining, hends, hstoreOptimized⟩ := interpreter_of_execute hstripped
      obtain ⟨reached, hreached, hkept⟩ := Optimizer.run_optimize hlabels passes hrun
      obtain rfl : remaining = reached := congrArg Prod.fst (hends.unique hreached)
      have hall : ∀ name, report.store.get? name = lastValue?
          ((interpreter listing).history (Listing.assignment? listing) steps (.start input sink))
          name := by
        intro name
        rw [hstore, Listing.get?_of_run hrun]
        exact Option.or_none
      rw [← hstoreOptimized] at hkept
      refine ⟨_, ⟨steps, _, hrun, rfl⟩, fun name => ⟨hall name, hkept name, fun hlast => ?_⟩⟩
      rw [hall, hkept, lastValue?, lastValue?, Listing.lastTo?_filter]
      intro assignment hassignment
      rw [Bool.not_eq_true']
      exact hlast assignment hassignment

/-- The variables that are reported, with standard limits and no input, of a run of at most a hundred
steps. -/
def reported (passes : Passes) (program : Program) : Option (Store Machine.Value) :=
  match compile passes program with
  | .error _ => none
  | .ok artifacts =>
    match execute 100 MachineSettings.standard.limits artifacts.bytecode (.ofBytes []) .unlimited with
    | some (.ok report, _) => some report.store
    | _ => none

theorem exists_of_reported {passes : Passes} {program : Program} {store : Store Machine.Value}
    (h : reported passes program = some store) :
    ∃ artifacts report out, compile passes program = .ok artifacts ∧
      execute 100 MachineSettings.standard.limits artifacts.bytecode (.ofBytes []) .unlimited =
        some (.ok report, out) ∧ report.store = store := by
  rw [reported] at h
  split at h
  · cases h
  · rename_i artifacts hcompile
    split at h
    · rename_i report out hrun
      exact ⟨artifacts, report, out, hcompile, hrun, Option.some.inj h⟩
    · cases h

/-- A program that prints two variables and sets one of them again. -/
def outdated : Program :=
  ⟨[.declare "x" (.number 1), .declare "y" (.number 5), .print "" [.var "x", .var "y"],
    .assign "x" (.number 2)]⟩

theorem report_optimized_outdated :
    ∃ plain history, compile .none outdated = .ok plain ∧
      HasHistory plain.listing (.ofBytes []) .unlimited history ∧
      lastValue? history "x" = some (.number 2) ∧
      lastValue? (history.filter fun assignment =>
        !Passes.all.drops plain.listing assignment.position) "x" = some (.number 1) := by
  have hboth : reported .none outdated = some ⟨[("x", .number 2), ("y", .number 5)]⟩ ∧
      reported .all outdated = some ⟨[("x", .number 1), ("y", .number 5)]⟩ := by
    decide +kernel
  obtain ⟨plain, report, out, hplain, hreport, hstore⟩ := exists_of_reported hboth.1
  obtain ⟨optimized, stripped, other, hoptimized, hstripped, hstoreStripped⟩ :=
    exists_of_reported hboth.2
  obtain ⟨history, hcarries, hnames⟩ := report_optimized hplain hoptimized hreport hstripped
  obtain ⟨hlast, hkept, -⟩ := hnames "x"
  refine ⟨plain, history, hplain, hcarries, ?_, ?_⟩
  · rw [← hlast, hstore]
    rfl
  · rw [← hkept, hstoreStripped]
    rfl

/-- The optimizer leaves the second value of `x` out of the report, but not `x` itself. -/
theorem optimized_report_can_be_outdated :
    reported .none outdated = some ⟨[("x", .number 2), ("y", .number 5)]⟩ ∧
      reported .all outdated = some ⟨[("x", .number 1), ("y", .number 5)]⟩ := by
  decide +kernel

end StackPipeline.Pipeline
