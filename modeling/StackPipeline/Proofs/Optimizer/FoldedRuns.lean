import StackPipeline.Proofs.Bytecode.Refinement
import StackPipeline.Proofs.Optimizer.Knowledge

/-!
A listing and its folded form run in lock step.  They stand at the same position and work on the same
world; only the notes of the folded listing can be fewer, for it has divided some numbers beforehand.
-/

namespace StackPipeline.Optimizer

open Bytecode (Hosts Shows Matches cost costAt diagnosticsOf locate ofListing sourceCost)
open Listing (Ending Operand Source Instruction execute interpreter)
open Machine (Limits Outcome Value load operate? dividesByZero)

/-- The folded listing is where the listing is, and has noted nothing else. -/
structure InStep (folded original : Listing.State) : Prop where
  position_eq : folded.position = original.position
  world_eq : folded.world = original.world
  notes_sublist : folded.notes.Sublist original.notes

/-- What is known where the listing is describes the variables, unless it is at a label. -/
def Informed (listing : Listing) (state : Listing.State) : Prop :=
  ∀ instruction, listing[state.position]? = some instruction → instruction.label? = none →
    (knownAt listing state.position).Describes state.world.store

/-- Both listings go on in step, or both end alike. -/
def NextInStep (listing : Listing) :
    Next Listing.State (Listing.State × Ending) → Next Listing.State (Listing.State × Ending) → Prop
  | .running folded, .running original => InStep folded original ∧ Informed listing original
  | .stopped folded, .stopped original => InStep folded.1 original.1 ∧ folded.2 = original.2
  | _, _ => False

variable {listing : Listing}

theorem NextInStep.of_running {next : Listing.State}
    {folded : Next Listing.State (Listing.State × Ending)}
    (h : NextInStep listing folded (.running next)) :
    ∃ after, folded = .running after ∧ InStep after next ∧ Informed listing next := by
  cases folded with
  | running after => exact ⟨after, rfl, h⟩
  | stopped ending => exact absurd h id

theorem NextInStep.of_stopped {ending : Listing.State × Ending}
    {folded : Next Listing.State (Listing.State × Ending)}
    (h : NextInStep listing folded (.stopped ending)) :
    ∃ other, folded = .stopped other ∧ InStep other.1 ending.1 ∧ other.2 = ending.2 := by
  cases folded with
  | running after => exact absurd h id
  | stopped other => exact ⟨other, rfl, h⟩

theorem informed_next {position : Nat} {instruction : Instruction}
    (h : listing[position]? = some instruction) {world : World}
    (hdescribes : ((knownAt listing position).next instruction).Describes world.store)
    (notes : List Nat) : Informed listing ⟨position + 1, world, notes⟩ := by
  intro _ _ _
  dsimp only
  rw [knownAt_succ h]
  exact hdescribes

/-- A jump goes to a label, where nothing has to be known. -/
theorem informed_jump (hlabels : Listing.WellLabelled listing) {instruction : Instruction}
    (hmem : instruction ∈ listing) {label : String} (htarget : instruction.target? = some label)
    (state : Listing.State) : Informed listing (state.jump listing label) := by
  obtain ⟨position, hposition, hfound⟩ := hlabels.exists_target hmem htarget
  intro other hother hlabel
  rw [Listing.State.jump, hfound] at hother
  obtain rfl := Option.some.inj (hposition.symm.trans hother)
  cases hlabel

theorem notes_sublist_notesIf (state : Listing.State) (divided : Bool) :
    state.notes.Sublist (state.notesIf divided) := by
  cases divided with
  | true => exact List.sublist_append_left _ _
  | false => exact List.Sublist.refl _

theorem notesIf_sublist {position : Nat} {world : World} {notes fewer : List Nat}
    (h : fewer.Sublist notes) (divided : Bool) :
    (Listing.State.notesIf ⟨position, world, fewer⟩ divided).Sublist
      (Listing.State.notesIf ⟨position, world, notes⟩ divided) := by
  cases divided with
  | true => exact h.append (List.Sublist.refl _)
  | false => exact h

section Step

variable {position : Nat} {world : World} {notes fewer : List Nat}

/-- An operator and what it is folded to. -/
theorem operation_inStep (hnotes : fewer.Sublist notes) {target : String} {op : Operator}
    {left right : Operand}
    (h : listing[position]? = some (.assign target (.operation op left right)))
    (hknown : (knownAt listing position).Describes world.store) :
    NextInStep listing
      (Listing.State.assign ⟨position, world, fewer⟩ target
        ((knownAt listing position).foldSource (.operation op left right)))
      (Listing.State.assign ⟨position, world, notes⟩ target (.operation op left right)) ∧
    sourceCost world ((knownAt listing position).foldSource (.operation op left right)) ≤
      sourceCost world (.operation op left right) := by
  have hleft := Known.value_substitute hknown left
  have hright := Known.value_substitute hknown right
  rcases Known.foldSource_operation op left right with ⟨a, b, ha, hb, hfold⟩ | hfold
  · -- The operator is computed beforehand, and a division by zero is not noted.
    have hresult : operate? op (left.value world) (right.value world) = some (op.apply a b) := by
      rw [← hleft, ← hright, ha, hb]
      rfl
    rw [hfold, Listing.State.assign_of_some hresult, sourceCost, sourceCost, hresult]
    refine ⟨⟨⟨rfl, rfl, hnotes.trans (notes_sublist_notesIf ⟨position, world, notes⟩ _)⟩, ?_⟩,
      (by decide : 2 ≤ 4)⟩
    apply informed_next h
    rw [Known.next, hfold]
    apply Known.describes_assign hknown
    intro number hnumber
    cases hnumber
    rfl
  · have hcost : sourceCost world (.operation op ((knownAt listing position).substitute left)
        ((knownAt listing position).substitute right)) =
          sourceCost world (.operation op left right) := by
      rw [sourceCost, sourceCost, hleft, hright]
    rw [hfold, hcost]
    refine ⟨?_, Nat.le_refl _⟩
    cases hresult : operate? op (left.value world) (right.value world) with
    | some result =>
        have hfolded := hresult
        rw [← hleft, ← hright] at hfolded
        rw [Listing.State.assign_of_some hfolded, Listing.State.assign_of_some hresult, hleft,
          hright]
        refine ⟨⟨rfl, rfl, notesIf_sublist hnotes _⟩, informed_next h ?_ _⟩
        rw [Known.next, hfold]
        apply Known.describes_assign hknown
        intro number hnumber
        cases hnumber
    | none =>
        have hfolded := hresult
        rw [← hleft, ← hright] at hfolded
        rw [Listing.State.assign_of_none hfolded, Listing.State.assign_of_none hresult, hleft,
          hright]
        exact ⟨⟨rfl, rfl, hnotes⟩, rfl⟩

/-- An assignment and the folded one give the target the same value. -/
theorem assign_inStep (hnotes : fewer.Sublist notes) {target : String} {source : Source}
    (h : listing[position]? = some (.assign target source))
    (hknown : (knownAt listing position).Describes world.store) :
    NextInStep listing
      (Listing.State.assign ⟨position, world, fewer⟩ target
        ((knownAt listing position).foldSource source))
      (Listing.State.assign ⟨position, world, notes⟩ target source) ∧
    sourceCost world ((knownAt listing position).foldSource source) ≤ sourceCost world source := by
  cases source with
  | operation op left right => exact operation_inStep hnotes h hknown
  | operand value =>
      have hvalue := Known.value_substitute hknown value
      refine ⟨⟨⟨rfl, ?_, hnotes⟩, informed_next h ?_ notes⟩, Nat.le_refl 2⟩
      · exact congrArg (world.assign target) hvalue
      · apply Known.describes_assign hknown
        intro number hnumber
        rw [← hvalue, Source.operand.inj hnumber]
        rfl
  | read prompt =>
      refine ⟨?_, Nat.le_refl _⟩
      rw [Known.foldSource, Listing.State.assign, Listing.State.assign]
      dsimp only
      cases hread : world.readLine prompt with
      | failed after trouble => exact ⟨⟨rfl, rfl, hnotes⟩, rfl⟩
      | done after value =>
          refine ⟨⟨rfl, rfl, hnotes⟩, informed_next h ?_ notes⟩
          rw [← World.store_of_readLine hread] at hknown
          apply Known.describes_assign hknown
          intro number hnumber
          cases hnumber

/-- An instruction that is no assignment stays as it is. -/
theorem unchanged_inStep (hlabels : Listing.WellLabelled listing) (hnotes : fewer.Sublist notes)
    {instruction : Instruction} (h : listing[position]? = some instruction)
    (hassign : ∀ target source, instruction ≠ .assign target source)
    (hinformed : Informed listing ⟨position, world, notes⟩) :
    NextInStep listing (execute (foldConstants listing) ⟨position, world, fewer⟩ instruction)
      (execute listing ⟨position, world, notes⟩ instruction) := by
  have hjump : ∀ label, instruction.target? = some label →
      NextInStep listing
        (.running (Listing.State.jump ⟨position, world, fewer⟩ (foldConstants listing) label))
        (.running (Listing.State.jump ⟨position, world, notes⟩ listing label)) := by
    intro label htarget
    refine ⟨⟨?_, rfl, hnotes⟩, informed_jump hlabels (List.mem_of_getElem? h) htarget _⟩
    rw [Listing.State.jump, Listing.State.jump, foldConstants, idxOf?_foldListing]
  have hnext : ∀ after : World, after.store = world.store → instruction.label? = none →
      NextInStep listing (.running ⟨position + 1, after, fewer⟩)
        (.running ⟨position + 1, after, notes⟩) := by
    intro after hstore hlabel
    refine ⟨⟨rfl, rfl, hnotes⟩, informed_next h ?_ notes⟩
    have hknown := hinformed instruction h hlabel
    rw [hstore]
    cases instruction with
    | assign target source => exact absurd rfl (hassign target source)
    | label name => cases hlabel
    | _ => exact hknown
  cases instruction with
  | assign target source => exact absurd rfl (hassign target source)
  | label name =>
      exact ⟨⟨rfl, rfl, hnotes⟩, informed_next h (Known.describes_empty world.store) notes⟩
  | goto label => exact hjump label rfl
  | branch condition label =>
      rw [execute, execute]
      dsimp only
      cases condition.value world with
      | text line => exact ⟨⟨rfl, rfl, hnotes⟩, rfl⟩
      | number x =>
          dsimp only
          by_cases hx : (x != 0) = true
          · rw [if_pos hx, if_pos hx]
            exact hjump label rfl
          · rw [if_neg hx, if_neg hx]
            exact hnext world rfl rfl
  | print text arguments =>
      rw [execute, execute]
      dsimp only
      cases hwrite : world.writeLines (printedLines text (arguments.map (Operand.value world))) with
      | done after => exact hnext after (World.store_of_writeLines hwrite) rfl
      | failed after trouble => exact ⟨⟨rfl, rfl, hnotes⟩, rfl⟩
  | comment text => exact hnext world rfl rfl
  | breakLoop => exact ⟨⟨rfl, rfl, hnotes⟩, rfl⟩
  | continueLoop => exact ⟨⟨rfl, rfl, hnotes⟩, rfl⟩
  | ret value => exact ⟨⟨rfl, rfl, hnotes⟩, rfl⟩

end Step

/-- One step of the folded listing is one step of the listing, and does not cost more. -/
theorem interpreter_inStep (hlabels : Listing.WellLabelled listing) {folded state : Listing.State}
    (hstep : InStep folded state) (hinformed : Informed listing state) :
    NextInStep listing (interpreter (foldConstants listing) folded) (interpreter listing state) ∧
      costAt (foldConstants listing) folded ≤ costAt listing state := by
  obtain ⟨position, world, notes⟩ := state
  obtain ⟨position', world', fewer⟩ := folded
  obtain ⟨rfl, rfl, hnotes⟩ := hstep
  dsimp only at hnotes
  rw [interpreter, interpreter, costAt, costAt]
  dsimp only
  rw [getElem?_foldConstants]
  cases h : listing[position']? with
  | none => exact ⟨⟨⟨rfl, rfl, hnotes⟩, rfl⟩, Nat.le_refl 0⟩
  | some instruction =>
      cases instruction with
      | assign target source => exact assign_inStep hnotes h (hinformed _ h rfl)
      | _ =>
          refine ⟨unchanged_inStep hlabels hnotes h ?_ hinformed, Nat.le_refl _⟩
          intro target source heq
          cases heq

/-- The folded listing goes in step, knows what holds, and has not spent more. -/
def Follows (listing : Listing) (original folded : Listing.State × Nat) : Prop :=
  InStep folded.1 original.1 ∧ Informed listing original.1 ∧ folded.2 ≤ original.2

/-- The folded listing simulates the listing step by step. -/
theorem simulation_foldConstants (hlabels : Listing.WellLabelled listing) :
    System.Simulation ((interpreter listing).metered (costAt listing))
      ((interpreter (foldConstants listing)).metered (costAt (foldConstants listing)))
      (Follows listing)
      (fun ending folded => ∃ other,
        ((interpreter (foldConstants listing)).metered (costAt (foldConstants listing))).Ends
          folded other ∧
        InStep other.1.1 ending.1.1 ∧ other.1.2 = ending.1.2 ∧ other.2 ≤ ending.2)
      (fun _ => 0) where
  advance := by
    rintro ⟨state, total⟩ ⟨next, total'⟩ ⟨folded, spent⟩ ⟨hstep, hinformed, hle⟩ hnext
    obtain ⟨hrunning, rfl⟩ := System.running_of_metered _ hnext
    obtain ⟨halike, hcost⟩ := interpreter_inStep hlabels hstep hinformed
    rw [hrunning] at halike
    obtain ⟨after, hfolded, hafter, hknown⟩ := halike.of_running
    refine ⟨1, _, .single (System.metered_of_running _ hfolded spent),
      ⟨hafter, hknown, Nat.add_le_add hle hcost⟩, ?_⟩
    intro hzero
    cases hzero
  finish := by
    rintro ⟨state, total⟩ ⟨folded, spent⟩ ⟨ending, total'⟩ ⟨hstep, hinformed, hle⟩ hstop
    obtain ⟨hstopped, rfl⟩ := System.stopped_of_metered _ hstop
    obtain ⟨halike, hcost⟩ := interpreter_inStep hlabels hstep hinformed
    rw [hstopped] at halike
    obtain ⟨other, hfolded, hlast, hending⟩ := halike.of_stopped
    exact ⟨_, .of_stopped (System.metered_of_stopped _ hfolded spent), hlast, hending,
      Nat.add_le_add hle hcost⟩

/-- A run and the run of the folded listing end alike.  A position is the same instruction in both
listings. -/
structure EndsAlike (listing : Listing) (original folded : Machine.State × Outcome) : Prop where
  store_eq : folded.1.store = original.1.store
  input_eq : folded.1.input = original.1.input
  sink_eq : folded.1.sink = original.1.sink
  /-- The same completion, or the same trouble at the same position. -/
  shows : ∃ position ending, Shows listing original position ending ∧
    Shows (foldConstants listing) folded position ending
  steps_le : folded.1.steps ≤ original.1.steps
  diagnostics_sublist :
    (folded.1.diagnostics.toList.map (locate (foldConstants listing))).Sublist
      (original.1.diagnostics.toList.map (locate listing))

/-- What the two interpreters say about the two machines. -/
theorem endsAlike_of_matches {input : Machine.Input} {sink : Machine.Sink}
    {ending other : Listing.State × Ending} {original folded : Machine.State × Outcome}
    (hending : (interpreter listing).Ends (.start input sink) ending)
    (hother : (interpreter (foldConstants listing)).Ends (.start input sink) other)
    (hstep : InStep other.1 ending.1) (heq : other.2 = ending.2)
    (horiginal : Matches listing ending original)
    (hfolded : Matches (foldConstants listing) other folded)
    (hsteps : folded.1.steps ≤ original.1.steps) : EndsAlike listing original folded := by
  refine ⟨?_, ?_, ?_, ⟨ending.1.position, ending.2, horiginal.shows, ?_⟩, hsteps, ?_⟩
  · rw [hfolded.store_eq, horiginal.store_eq, hstep.world_eq]
  · rw [hfolded.input_eq, horiginal.input_eq, hstep.world_eq]
  · rw [hfolded.sink_eq, horiginal.sink_eq, hstep.world_eq]
  · rw [← hstep.position_eq, ← heq]
    exact hfolded.shows
  · rw [hfolded.diagnostics_eq, horiginal.diagnostics_eq,
      Bytecode.locate_diagnosticsOf (Listing.notesOperators_of_ends hother),
      Bytecode.locate_diagnosticsOf (Listing.notesOperators_of_ends hending)]
    exact hstep.notes_sublist.map _

/-- **Constant folding preserves every run.**  Where the code of a listing loads, that of the folded
listing loads, ends exactly when the other does, and then ends like it. -/
theorem foldConstants_preserves_runs (listing : Listing) (limits : Limits)
    (hsteps : limits.maxSteps = none) (hdepth : 2 ≤ limits.maxStackDepth) {loaded : Machine.Loaded}
    (hload : load (ofListing listing) = .ok loaded) :
    ∃ folded, load (ofListing (foldConstants listing)) = .ok folded ∧
      ∀ input sink,
        ((∃ last, Machine.Ends loaded limits (.start input sink) last) ↔
          ∃ last, Machine.Ends folded limits (.start input sink) last) ∧
        ∀ original last, Machine.Ends loaded limits (.start input sink) original →
          Machine.Ends folded limits (.start input sink) last →
            EndsAlike listing original last := by
  have hlabels := (Bytecode.exists_load_ofListing_iff listing).1 ⟨loaded, hload⟩
  obtain ⟨folded, hfolded⟩ := (Bytecode.exists_load_ofListing_iff (foldConstants listing)).2
    (wellLabelled_foldConstants hlabels)
  have hosts : Hosts loaded limits listing := ⟨hload, hsteps, hdepth⟩
  have hostsFolded : Hosts folded limits (foldConstants listing) := ⟨hfolded, hsteps, hdepth⟩
  refine ⟨folded, hfolded, ?_⟩
  intro input sink
  have hstart : Follows listing (.start input sink, 0) (.start input sink, 0) :=
    ⟨⟨rfl, rfl, List.Sublist.refl _⟩, fun _ _ _ => Known.describes_empty _, Nat.le_refl 0⟩
  have hforward : ∀ original, Machine.Ends loaded limits (.start input sink) original →
      ∃ last, Machine.Ends folded limits (.start input sink) last ∧
        EndsAlike listing original last := by
    intro original horiginal
    obtain ⟨ending, total, hending, hmatches, rfl⟩ := hosts.metered_of_ends horiginal
    obtain ⟨count, after, hwalk, ⟨other, spent⟩, hother, hstep, heq, hle⟩ :=
      (simulation_foldConstants hlabels).forward hstart hending
    have hmetered := (hwalk.ends_iff _).2 hother
    obtain ⟨last, hlast, hmatchesLast, rfl⟩ := hostsFolded.ends_of_metered hmetered
    exact ⟨last, hlast, endsAlike_of_matches ((System.ends_metered_iff _ _ _ _).1 ⟨_, hending⟩)
      ((System.ends_metered_iff _ _ _ _).1 ⟨_, hmetered⟩) hstep heq hmatches hmatchesLast hle⟩
  refine ⟨⟨?_, ?_⟩, ?_⟩
  · rintro ⟨original, horiginal⟩
    obtain ⟨last, hlast, _⟩ := hforward original horiginal
    exact ⟨last, hlast⟩
  · rintro ⟨last, hlast⟩
    obtain ⟨ending, total, hending, _⟩ := hostsFolded.metered_of_ends hlast
    obtain ⟨⟨other, spent⟩, hother⟩ := (simulation_foldConstants hlabels).backward hstart hending
    obtain ⟨original, horiginal, _⟩ := hosts.ends_of_metered hother
    exact ⟨original, horiginal⟩
  · intro original last horiginal hlast
    obtain ⟨other, hother, halike⟩ := hforward original horiginal
    obtain rfl := hother.unique hlast
    exact halike

/-- A listing that divides by zero and jumps back and forth. -/
def foldable : Listing :=
  [.assign "a" (.operand (.number 1)), .assign "q" (.operation .div (.name "a") (.number 0)),
    .goto "on", .label "back", .ret (some (.name "s")), .label "on",
    .assign "s" (.operation .add (.name "a") (.number 1)), .branch (.name "s") "back"]

theorem foldConstants_preserves_runs_foldable :
    ∃ loaded folded original last, load (ofListing foldable) = .ok loaded ∧
      load (ofListing (foldConstants foldable)) = .ok folded ∧
      Machine.Ends loaded ⟨2, none⟩ (.start (.ofBytes []) .unlimited) original ∧
      Machine.Ends folded ⟨2, none⟩ (.start (.ofBytes []) .unlimited) last ∧
      original.2 = .completed (.returned (some (.number 2))) ∧ EndsAlike foldable original last := by
  obtain ⟨loaded, hload⟩ := (Bytecode.exists_load_ofListing_iff foldable).2 (by decide)
  obtain ⟨folded, hfolded, hruns⟩ :=
    foldConstants_preserves_runs foldable ⟨2, none⟩ rfl (Nat.le_refl 2) hload
  obtain ⟨hends, halike⟩ := hruns (.ofBytes []) .unlimited
  have hrun : (((interpreter foldable).metered (costAt foldable)).run 8
      (.start (.ofBytes []) .unlimited, 0)).map (fun ending => ending.1.2) =
        some (.completed (.returned (some (.number 2)))) := by
    decide +kernel
  obtain ⟨⟨ending, total⟩, hending, hresult⟩ := Option.map_eq_some_iff.1 hrun
  have hosts : Hosts loaded ⟨2, none⟩ foldable := ⟨hload, rfl, Nat.le_refl 2⟩
  obtain ⟨original, horiginal, hmatches, _⟩ := hosts.ends_of_metered ⟨8, hending⟩
  obtain ⟨last, hlast⟩ := hends.1 ⟨original, horiginal⟩
  have hshows := hmatches.shows
  rw [hresult] at hshows
  exact ⟨loaded, folded, original, last, hload, hfolded, horiginal, hlast, hshows,
    halike original last horiginal hlast⟩

end StackPipeline.Optimizer
