import StackPipeline.Proofs.Listing.Interpreter

/-!
What has been written stays written: into an output without limit a listing only ever adds.
-/

namespace StackPipeline

open Machine (Input Sink operate?)

/-- The output has no limit, and begins with what an earlier one holds. -/
def World.Continues (earlier : Sink) (world : World) : Prop :=
  world.sink.limit = none ∧ ∃ rest, world.sink.bytes = earlier.bytes ++ rest

/-- What has been done, whatever comes of it. -/
def Trial.state {σ α : Type} : Trial σ α → σ
  | .done state _ => state
  | .failed state _ => state

namespace World.Continues

variable {earlier : Sink} {world : World} (h : world.Continues earlier)

theorem refl (hlimit : world.sink.limit = none) : world.Continues world.sink :=
  ⟨hlimit, .empty, ByteArray.append_empty.symm⟩

include h

theorem write (text : String) : (world.write text).state.Continues earlier := by
  obtain ⟨hlimit, rest, hrest⟩ := h
  have hroom : world.sink.hasRoom text.utf8ByteSize = true := by
    rw [Sink.hasRoom, hlimit]
  have hwrite : world.sink.write text =
      { world.sink with bytes := world.sink.bytes ++ text.toUTF8 } := by
    simp only [Sink.write, hlimit]
  have hdone : world.write text = .done { world with sink := world.sink.write text } () :=
    if_pos hroom
  rw [hdone, hwrite]
  refine ⟨hlimit, rest ++ text.toUTF8, ?_⟩
  dsimp only [Trial.state]
  rw [hrest, ByteArray.append_assoc]

theorem writeLines (lines : List String) : (world.writeLines lines).state.Continues earlier := by
  induction lines generalizing world with
  | nil => exact h
  | cons line rest ih =>
      have hwrite := h.write (line ++ "\n")
      rw [World.writeLines]
      cases hworld : world.write (line ++ "\n") with
      | done after =>
          rw [hworld] at hwrite
          exact ih hwrite
      | failed after trouble =>
          rw [hworld] at hwrite
          exact hwrite

theorem readLine (prompt : String) : (world.readLine prompt).state.Continues earlier := by
  have hwrite := h.write prompt
  rw [World.readLine]
  cases hworld : world.write prompt with
  | failed after trouble =>
      rw [hworld] at hwrite
      exact hwrite
  | done after =>
      rw [hworld] at hwrite
      cases htake : after.input.takeLine with
      | mk result input =>
          cases result with
          | closed =>
              dsimp only
              rw [htake]
              exact hwrite
          | failed error =>
              dsimp only
              rw [htake]
              exact hwrite
          | line text =>
              dsimp only
              rw [htake]
              exact hwrite

end World.Continues

namespace Listing

variable {earlier : Sink} {listing : Listing} {state : State}

theorem continues_execute (h : state.world.Continues earlier) (instruction : Instruction) :
    (stateAfter (execute listing state instruction)).world.Continues earlier := by
  cases instruction with
  | assign target source =>
      cases source with
      | operand value => exact h
      | operation op left right =>
          rw [execute]
          cases hresult : operate? op (left.value state.world) (right.value state.world) with
          | none =>
              rw [State.assign_of_none hresult]
              exact h
          | some result =>
              rw [State.assign_of_some hresult]
              exact h
      | read prompt =>
          have hread := h.readLine prompt
          rw [execute, State.assign]
          cases hworld : state.world.readLine prompt with
          | done after value =>
              rw [hworld] at hread
              exact hread
          | failed after trouble =>
              rw [hworld] at hread
              exact hread
  | branch condition label =>
      rw [execute]
      cases condition.value state.world with
      | text line => exact h
      | number x =>
          dsimp only
          split
          · exact h
          · exact h
  | print text arguments =>
      have hwrite := h.writeLines
        (printedLines text (arguments.map (Operand.value state.world)))
      rw [execute]
      cases hworld : state.world.writeLines
          (printedLines text (arguments.map (Operand.value state.world))) with
      | done after =>
          rw [hworld] at hwrite
          exact hwrite
      | failed after trouble =>
          rw [hworld] at hwrite
          exact hwrite
  | _ => exact h

/-- However a listing ends, its output begins with what was there. -/
theorem continues_of_ends (h : state.world.Continues earlier) {ending : State × Ending}
    (hends : (interpreter listing).Ends state ending) : ending.1.world.Continues earlier := by
  refine kept_of_ends (fun state => state.world.Continues earlier) ?_ h hends
  intro state instruction _ hkept
  exact continues_execute hkept instruction

end Listing

end StackPipeline
