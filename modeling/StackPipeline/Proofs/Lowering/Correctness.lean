import StackPipeline.Proofs.Bytecode.Refinement
import StackPipeline.Proofs.Lowering.Loops

/-!
Lowering keeps the meaning of every program: its code does on the machine what walking over the tree
does.
-/

namespace StackPipeline.Lowering

open StackPipeline.System (Walk)
open StackPipeline.Tree (Expr Stmt Branch Program Scene Control Result Evaluates execStmt execBlock
  namesOfStmt namesOfBlock namesOfBranches)
open Listing (Ending WellLabelled interpreter)
open Bytecode (Hosts Matches ofListing)
open Machine (Input Sink Limits Outcome load)

mutual

/-- The code of a statement carries it out. -/
theorem carriesOut_lowerStmt : (stmt : Stmt) → (∀ name ∈ namesOfStmt stmt, IsVariable name) →
    CarriesOut (lowerStmt stmt) (execStmt stmt)
  | .declare name value, hnames => by
      intro c c' code h whole hgood position hplaced fuel scene state hposition hmirrors
      obtain ⟨valueCode, operand, hvalue, rfl⟩ := lowerStmt_declare h
      rw [execStmt]
      exact carries_store hvalue hnames hplaced hposition hmirrors
  | .assign name value, hnames => by
      intro c c' code h whole hgood position hplaced fuel scene state hposition hmirrors
      obtain ⟨valueCode, operand, hvalue, rfl⟩ := lowerStmt_assign h
      rw [execStmt]
      exact carries_store hvalue hnames hplaced hposition hmirrors
  | .print text arguments, hnames => by
      intro c c' code h whole hgood position hplaced fuel scene state hposition hmirrors
      obtain ⟨argumentCode, operands, harguments, rfl⟩ := lowerStmt_print h
      exact carries_print harguments hnames hplaced hposition hmirrors
  | .choose branches none, hnames =>
      carriesOut_choose_none (carriesOut_lowerBranches branches hnames) hnames
  | .choose branches (some block), hnames => by
      rw [namesOfStmt] at hnames
      have hbranches : ∀ name ∈ namesOfBranches branches, IsVariable name :=
        fun name hname => hnames name (List.mem_append_left _ hname)
      exact carriesOut_choose_some (carriesOut_lowerBranches branches hbranches) hbranches
        (carriesOut_lowerBlock block (fun name hname => hnames name (List.mem_append_right _ hname)))
  | .whileLoop condition body, hnames => by
      rw [namesOfStmt] at hnames
      exact carriesOut_whileLoop
        (carriesOut_lowerBlock body (fun name hname => hnames name (List.mem_append_right _ hname)))
        (fun name hname => hnames name (List.mem_append_left _ hname))
  | .doWhile body condition, hnames => by
      rw [namesOfStmt] at hnames
      exact carriesOut_doWhile
        (carriesOut_lowerBlock body (fun name hname => hnames name (List.mem_append_left _ hname)))
        (fun name hname => hnames name (List.mem_append_right _ hname))
  | .forLoop name count body, hnames => by
      rw [namesOfStmt] at hnames
      have hrest := fun x hx => hnames x (List.mem_cons_of_mem name hx)
      exact carriesOut_forLoop
        (carriesOut_lowerBlock body (fun x hx => hrest x (List.mem_append_right _ hx)))
        (hnames name List.mem_cons_self) (fun x hx => hrest x (List.mem_append_left _ hx))
  | .breakLoop, _ => by
      intro c c' code h whole hgood position hplaced fuel scene state hposition hmirrors
      obtain ⟨loop, rest, hloops, rfl, -⟩ := lowerStmt_breakLoop h
      rw [execStmt, hloops]
      exact ⟨loop, rfl, arrivesAtLabel_goto hgood hposition hplaced.head hmirrors _⟩
  | .continueLoop, _ => by
      intro c c' code h whole hgood position hplaced fuel scene state hposition hmirrors
      obtain ⟨loop, rest, hloops, rfl, -⟩ := lowerStmt_continueLoop h
      rw [execStmt, hloops]
      exact ⟨loop, rfl, arrivesAtLabel_goto hgood hposition hplaced.head hmirrors _⟩
  | .ret none, _ => by
      intro c c' code h whole hgood position hplaced fuel scene state hposition hmirrors
      cases h
      subst hposition
      rw [execStmt]
      exact ⟨state, .of_stopped (Listing.interpreter_of_getElem? hplaced.head), hmirrors⟩
  | .ret (some value), hnames => by
      intro c c' code h whole hgood position hplaced fuel scene state hposition hmirrors
      obtain ⟨valueCode, operand, hvalue, rfl⟩ := lowerStmt_ret_some h
      exact carries_return hvalue hnames hplaced hposition hmirrors _
  | .block statements, hnames => by
      intro c c' code h whole hgood position hplaced fuel scene state hposition hmirrors
      rw [lowerStmt] at h
      rw [execStmt]
      exact carriesOut_lowerBlock statements hnames h hgood hplaced fuel hposition hmirrors
  | .importFile path, _ => by
      intro c c' code h whole hgood position hplaced fuel scene state hposition hmirrors
      cases h
      subst hposition
      rw [execStmt]
      exact ⟨1, _, .single (Listing.interpreter_of_getElem? hplaced.head), rfl,
        hmirrors.movedTo _, .refl _ _⟩

/-- The code of a block carries it out. -/
theorem carriesOut_lowerBlock :
    (block : List Stmt) → (∀ name ∈ namesOfBlock block, IsVariable name) →
      CarriesOut (lowerBlock block) (execBlock block)
  | [], _ => by
      intro c c' code h whole hgood position hplaced fuel scene state hposition hmirrors
      cases h
      rw [execBlock]
      exact ⟨0, state, .refl state, hposition, hmirrors, .refl _ _⟩
  | stmt :: rest, hnames => by
      intro c c' code h whole hgood position hplaced fuel scene state hposition hmirrors
      obtain ⟨first, c₁, restCode, hfirst, hrest, rfl⟩ := lowerBlock_cons h
      rw [namesOfBlock] at hnames
      have hfragment := fragment_lowerStmt stmt hfirst
      have hcarries := carriesOut_lowerStmt stmt
        (fun name hname => hnames name (List.mem_append_left _ hname)) hfirst hgood hplaced.left fuel
        hposition hmirrors
      rw [execBlock, List.length_append, ← Nat.add_assoc]
      apply carries_andThen hcarries
      intro middle next hnext hmiddle
      have hcarriesRest := carriesOut_lowerBlock rest
        (fun name hname => hnames name (List.mem_append_right _ hname)) hrest hgood hplaced.right fuel
        hnext hmiddle
      rw [hfragment.loops_eq] at hcarriesRest
      exact hcarriesRest.mono hfragment.temporaries_le

/-- The code of each branch's block carries it out. -/
theorem carriesOut_lowerBranches :
    (branches : List Branch) → (∀ name ∈ namesOfBranches branches, IsVariable name) →
      ∀ branch ∈ branches, CarriesOut (lowerBlock branch.body) (execBlock branch.body)
  | [], _, _, hmem => absurd hmem List.not_mem_nil
  | .mk condition body :: rest, hnames, branch, hmem => by
      rw [namesOfBranches] at hnames
      rcases List.mem_cons.1 hmem with rfl | hmem
      · exact carriesOut_lowerBlock body (fun name hname =>
          hnames name (List.mem_append_left _ (List.mem_append_right _ hname)))
      · exact carriesOut_lowerBranches rest
          (fun name hname => hnames name (List.mem_append_right _ hname)) branch hmem

end

/-- How a listing ends if control leaves the program like this. -/
def endingOf? : Control → Option Ending
  | .normal => some (.completed .normal)
  | .left => none
  | .continued => none
  | .returned value => some (.completed (.returned value))
  | .failed trouble => some (.failed trouble)

section Listings

variable {program : Program} {listing : Listing} (hlower : lower program = .ok listing)
  (hnames : ∀ name ∈ program.names, IsVariable name)

include hlower hnames

theorem carries_lower (input : Input) (sink : Sink) (fuel : Nat) :
    Carries listing 0 [] listing.length (.start input sink) fuel
      (execBlock program.statements fuel (.start input sink)) := by
  have hblock := lowerBlock_of_lower hlower
  have hmirrors : Mirrors (.start input sink) (.start input sink) :=
    ⟨⟨rfl, rfl, fun _ _ => rfl⟩, rfl⟩
  have hcarries := carriesOut_lowerBlock program.statements hnames hblock
    (wellLabelled_lower hlower) (Placed.whole listing) fuel rfl hmirrors
  rwa [Nat.zero_add] at hcarries

/-- A listing ends where the program that it was made from leaves off. -/
theorem ends_of_evaluates {input : Input} {sink : Sink} {scene : Scene} {control : Control}
    (h : Evaluates program input sink (scene, control)) :
    ∃ last ending, endingOf? control = some ending ∧
      (interpreter listing).Ends (.start input sink) (last, ending) ∧ Mirrors scene last := by
  obtain ⟨fuel, hfuel⟩ := h
  have hcarries := carries_lower hlower hnames input sink fuel
  rw [hfuel] at hcarries
  cases control with
  | normal =>
      obtain ⟨count, last, hwalk, hposition, hmirrors, -⟩ := hcarries
      refine ⟨last, .completed .normal, rfl, (hwalk.ends_iff _).2 (.of_stopped ?_), hmirrors⟩
      exact Listing.interpreter_of_length_le (Nat.le_of_eq hposition.symm)
  | left =>
      obtain ⟨loop, hloop, -⟩ := hcarries
      cases hloop
  | continued =>
      obtain ⟨loop, hloop, -⟩ := hcarries
      cases hloop
  | returned value =>
      obtain ⟨last, hends, hmirrors⟩ := hcarries
      exact ⟨last, _, rfl, hends, hmirrors⟩
  | failed trouble =>
      obtain ⟨last, hends, hmirrors⟩ := hcarries
      exact ⟨last, _, rfl, hends, hmirrors⟩

/-- If the listing ends, then as much fuel as it takes is enough for the program. -/
theorem evaluates_of_ends {input : Input} {sink : Sink} {ending : Listing.State × Ending}
    (h : (interpreter listing).Ends (.start input sink) ending) :
    ∃ result, Evaluates program input sink result := by
  obtain ⟨fuel, hfuel⟩ := h
  have hcarries := carries_lower hlower hnames input sink fuel
  cases hresult : execBlock program.statements fuel (.start input sink) with
  | some result => exact ⟨result, fuel, hresult⟩
  | none =>
      rw [hresult] at hcarries
      obtain ⟨count, last, hle, hwalk⟩ := hcarries
      exact absurd (hwalk.lt_of_run hfuel) (Nat.not_lt.2 hle)

end Listings

/-- The machine shows how control has left the program.  In trouble it stands at an instruction of
its code. -/
def Concludes (listing : Listing) (outcome : Outcome) : Control → Prop
  | .normal => outcome = .completed .normal
  | .left => False
  | .continued => False
  | .returned value => outcome = .completed (.returned value)
  | .failed trouble =>
    ∃ index instruction, (ofListing listing)[index]? = some instruction ∧
      outcome = .failed (.ofTrouble index instruction trouble)

/-- The machine ends with the input, the output and the variables of the scene, has divided by zero as
often, and ends as control has left the program. -/
structure Realizes (listing : Listing) (scene : Scene) (control : Control)
    (last : Machine.State × Outcome) : Prop where
  input_eq : last.1.input = scene.world.input
  sink_eq : last.1.sink = scene.world.sink
  get?_eq : ∀ name, looksTemporary name = false →
    last.1.store.get? name = scene.world.store.get? name
  divisions_eq : last.1.diagnostics.size = scene.divisions
  concludes : Concludes listing last.2 control

theorem realizes_of_matches {listing : Listing} {scene : Scene} {control : Control}
    {state : Listing.State} {ending : Ending} {last : Machine.State × Outcome}
    (hmirrors : Mirrors scene state) (hending : endingOf? control = some ending)
    (hmatches : Matches listing (state, ending) last) : Realizes listing scene control last := by
  refine ⟨hmatches.input_eq.trans hmirrors.agree.input_eq,
    hmatches.sink_eq.trans hmirrors.agree.sink_eq, ?_, ?_, ?_⟩
  · intro name hname
    rw [hmatches.store_eq]
    exact hmirrors.agree.get?_eq name (isVariable_of_looksTemporary_eq_false hname)
  · rw [hmatches.diagnostics_eq, Bytecode.diagnosticsOf, List.size_toArray, List.length_map]
    exact hmirrors.divisions_eq
  · have hshows := hmatches.shows
    cases control with
    | normal =>
        cases hending
        exact hshows
    | left => cases hending
    | continued => cases hending
    | returned value =>
        cases hending
        exact hshows
    | failed trouble =>
        cases hending
        obtain ⟨index, instruction, hfetch, -, -, hfailed⟩ := hshows
        exact ⟨index, instruction, hfetch, hfailed⟩

/-- **Lowering keeps the meaning of every program** that has no variables with the names of
temporaries.  The code of the lowered program loads; it ends exactly when the program does, and then
as the program does. -/
theorem machine_realizes_program {program : Program} {listing : Listing}
    (hlower : lower program = .ok listing)
    (hnames : ∀ name ∈ program.names, looksTemporary name = false) (limits : Limits)
    (hsteps : limits.maxSteps = none) (hdepth : 2 ≤ limits.maxStackDepth) :
    ∃ loaded, load (ofListing listing) = .ok loaded ∧
      ∀ input sink,
        ((∃ result, Evaluates program input sink result) ↔
          ∃ last, Machine.Ends loaded limits (.start input sink) last) ∧
        ∀ scene control last, Evaluates program input sink (scene, control) →
          Machine.Ends loaded limits (.start input sink) last →
            Realizes listing scene control last := by
  have hvariables : ∀ name ∈ program.names, IsVariable name :=
    fun name hname => isVariable_of_looksTemporary_eq_false (hnames name hname)
  obtain ⟨loaded, hload⟩ :=
    (Bytecode.exists_load_ofListing_iff listing).2 (wellLabelled_lower hlower)
  have hosts : Hosts loaded limits listing := ⟨hload, hsteps, hdepth⟩
  refine ⟨loaded, hload, ?_⟩
  intro input sink
  rw [← hosts.exists_ends_iff input sink]
  refine ⟨⟨?_, ?_⟩, ?_⟩
  · rintro ⟨⟨scene, control⟩, hevaluates⟩
    obtain ⟨state, ending, -, hends, -⟩ := ends_of_evaluates hlower hvariables hevaluates
    exact ⟨_, hends⟩
  · rintro ⟨ending, hends⟩
    exact evaluates_of_ends hlower hvariables hends
  · intro scene control last hevaluates hlast
    obtain ⟨state, ending, hending, hends, hmirrors⟩ :=
      ends_of_evaluates hlower hvariables hevaluates
    exact realizes_of_matches hmirrors hending (hosts.matches_of_ends hends hlast)

/-- A program that leaves a loop and hands back a line of input. -/
def echo : Program :=
  ⟨[.declare "x" (.read "? "), .doWhile [.print "" [.var "x"], .breakLoop] (.boolean true),
    .ret (some (.var "x"))]⟩

theorem machine_realizes_program_echo :
    ∃ listing loaded last, lower echo = .ok listing ∧ load (ofListing listing) = .ok loaded ∧
      Machine.Ends loaded ⟨2, none⟩ (.start (.ofBytes [104, 105, 10]) .unlimited) last ∧
      last.1.sink.bytes.toList = [63, 32, 104, 105, 10] ∧
      last.2 = .completed (.returned (some (.text "hi"))) := by
  obtain ⟨listing, hlower⟩ : ∃ listing, lower echo = .ok listing := ⟨_, rfl⟩
  obtain ⟨loaded, hload, hruns⟩ :=
    machine_realizes_program hlower (by decide) ⟨2, none⟩ rfl (Nat.le_refl 2)
  obtain ⟨hends, hrealizes⟩ := hruns (.ofBytes [104, 105, 10]) .unlimited
  have hrun : (execBlock echo.statements 1 (.start (.ofBytes [104, 105, 10]) .unlimited)).map
      (fun result => (result.1.world.sink.bytes.toList, result.2)) =
        some ([63, 32, 104, 105, 10], .returned (some (.text "hi"))) := by
    decide +kernel
  obtain ⟨⟨scene, control⟩, hevaluates, hresult⟩ := Option.map_eq_some_iff.1 hrun
  simp only [Prod.mk.injEq] at hresult
  obtain ⟨hsink, rfl⟩ := hresult
  obtain ⟨last, hlast⟩ := hends.1 ⟨_, 1, hevaluates⟩
  have hrealized := hrealizes scene _ last ⟨1, hevaluates⟩ hlast
  exact ⟨listing, loaded, last, hlower, hload, hlast, hrealized.sink_eq ▸ hsink,
    hrealized.concludes⟩

end StackPipeline.Lowering
