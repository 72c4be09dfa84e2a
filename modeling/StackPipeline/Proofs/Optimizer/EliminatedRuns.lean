import StackPipeline.Proofs.Bytecode.Refinement
import StackPipeline.Proofs.Listing.Output
import StackPipeline.Proofs.Optimizer.LiveSets
import StackPipeline.Proofs.Optimizer.Survivors

/-!
A listing and what is left of it after elimination, run side by side.

The two agree on the names that are live where the listing stands, on the input and on the output.
Where the listing comes to an assignment that is gone the other one waits, and the only thing that can
go wrong there is that an operator gets a text.
-/

namespace StackPipeline

/-- How far writing lines gets depends on the output alone. -/
theorem World.AgreeOn.linesBegun {names : String → Prop} {world other : World}
    (h : world.AgreeOn names other) (lines : List String) :
    other.linesBegun lines = world.linesBegun lines := by
  induction lines generalizing world other with
  | nil => rfl
  | cons line rest ih =>
      have hwrite := h.write (line ++ "\n")
      rw [World.linesBegun, World.linesBegun]
      cases hworld : world.write (line ++ "\n") with
      | done after =>
          rw [hworld] at hwrite
          obtain ⟨after', hother, hagree⟩ := hwrite.of_done
          rw [hother]
          exact congrArg (· + 1) (ih hagree)
      | failed after trouble =>
          rw [hworld] at hwrite
          obtain ⟨after', hother, _⟩ := hwrite.of_failed
          rw [hother]

namespace Listing

/-- An operand has the same value where its name does. -/
theorem Operand.value_of_agreeOn {names : String → Prop} {world other : World}
    (h : world.AgreeOn names other) {operand : Operand}
    (huses : ∀ name, operand.name? = some name → names name) :
    operand.value other = operand.value world := by
  cases operand with
  | number value => rfl
  | name x => exact h.value_eq x (huses x rfl)

end Listing

namespace Optimizer

open Bytecode (Hosts Shows Matches cost costAt ofListing sourceCost)
open Listing (Ending Operand Source Instruction execute interpreter)
open Machine (Limits Outcome Value load operate? dividesByZero)

theorem LiveSets.length_le {listing : Listing} {live : List Names} {before : Nat → Names}
    (h : LiveSets listing live before) : listing.length ≤ live.length := by
  apply Nat.le_of_not_lt
  intro hlt
  obtain ⟨after, hafter, _⟩ := h live.length listing[live.length] (List.getElem?_eq_getElem hlt)
  simp at hafter

/-- What is left of the listing stands where the next instruction that is kept does, and agrees with
the listing on the live names. -/
structure Trails (listing : Listing) (live : List Names) (before : Nat → Names)
    (original eliminated : Listing.State) : Prop where
  position_eq : eliminated.position = survivors listing live original.position
  agree : original.world.AgreeOn (· ∈ before original.position) eliminated.world

/-- Both go on side by side, or both end alike. -/
def NextTrails (listing : Listing) (live : List Names) (before : Nat → Names) :
    Next Listing.State (Listing.State × Ending) → Next Listing.State (Listing.State × Ending) → Prop
  | .running original, .running eliminated => Trails listing live before original eliminated
  | .stopped original, .stopped eliminated =>
    Trails listing live before original.1 eliminated.1 ∧ eliminated.2 = original.2
  | _, _ => False

theorem NextTrails.of_running {listing : Listing} {live : List Names} {before : Nat → Names}
    {next : Listing.State} {eliminated : Next Listing.State (Listing.State × Ending)}
    (h : NextTrails listing live before (.running next) eliminated) :
    ∃ after, eliminated = .running after ∧ Trails listing live before next after := by
  cases eliminated with
  | running after => exact ⟨after, rfl, h⟩
  | stopped ending => exact absurd h id

theorem NextTrails.of_stopped {listing : Listing} {live : List Names} {before : Nat → Names}
    {ending : Listing.State × Ending} {eliminated : Next Listing.State (Listing.State × Ending)}
    (h : NextTrails listing live before (.stopped ending) eliminated) :
    ∃ other, eliminated = .stopped other ∧ Trails listing live before ending.1 other.1 ∧
      other.2 = ending.2 := by
  cases eliminated with
  | running after => exact absurd h id
  | stopped other => exact ⟨other, rfl, h⟩

section Kept

variable {listing : Listing} {live : List Names} {before : Nat → Names} {position : Nat}
  {instruction : Instruction} {after : Names} {world other first last : World}
  {notes fewer : List Nat}

/-- An operand of an instruction that is kept has the same value on both sides. -/
theorem value_of_kept (hkept : isKept after instruction = true)
    (hbefore : before position = transfer after instruction)
    (hagree : world.AgreeOn (· ∈ before position) other) {operand : Operand}
    (huses : ∀ name, operand.name? = some name → name ∈ instruction.uses) :
    operand.value other = operand.value world := by
  apply Operand.value_of_agreeOn hagree
  intro name hname
  rw [hbefore, mem_transfer]
  exact .inr ⟨hkept, huses name hname⟩

theorem survivors_succ_of_kept (h : listing[position]? = some instruction)
    (hafter : live[position]? = some after) (hkept : isKept after instruction = true) :
    survivors listing live (position + 1) = survivors listing live position + 1 := by
  rw [survivors_succ h hafter, if_pos hkept]

/-- Operands of an assignment that is kept have the same values on both sides. -/
theorem assign_trails {target : String} {source : Source}
    (h : listing[position]? = some (.assign target source)) (hafter : live[position]? = some after)
    (hkept : isKept after (.assign target source) = true)
    (hbefore : before position = transfer after (.assign target source))
    (hnext : before (position + 1) ⊆ after)
    (hagree : world.AgreeOn (· ∈ before position) other) :
    NextTrails listing live before (Listing.State.assign ⟨position, world, notes⟩ target source)
      (Listing.State.assign ⟨survivors listing live position, other, fewer⟩ target source) ∧
    sourceCost other source = sourceCost world source := by
  have hvalue : ∀ operand : Operand, (∀ name, operand.name? = some name → name ∈ source.uses) →
      operand.value other = operand.value world :=
    fun _ huses => value_of_kept hkept hbefore hagree huses
  have hposition := (survivors_succ_of_kept h hafter hkept).symm
  have hassign : ∀ {first last : World} (value : Value),
      first.AgreeOn (· ∈ before position) last →
      (first.assign target value).AgreeOn (· ∈ before (position + 1))
        (last.assign target value) := by
    intro first last value hworlds
    apply (hworlds.assign target value).mono
    intro name hname
    rw [hbefore]
    exact .inr (subset_transfer _ _ (hnext hname))
  cases source with
  | operand value =>
      refine ⟨⟨hposition, ?_⟩, rfl⟩
      rw [hvalue value (fun name hname => by simp [Source.uses, hname])]
      exact hassign _ hagree
  | operation op left right =>
      have hleft := hvalue left (fun name hname => by simp [Source.uses, hname])
      have hright := hvalue right (fun name hname => by simp [Source.uses, hname])
      rw [sourceCost, sourceCost, hleft, hright]
      refine ⟨?_, rfl⟩
      cases hresult : operate? op (left.value world) (right.value world) with
      | some result =>
          have hother := hresult
          rw [← hleft, ← hright] at hother
          rw [Listing.State.assign_of_some hresult, Listing.State.assign_of_some hother]
          exact ⟨hposition, hassign _ hagree⟩
      | none =>
          have hother := hresult
          rw [← hleft, ← hright] at hother
          rw [Listing.State.assign_of_none hresult, Listing.State.assign_of_none hother, hleft,
            hright]
          exact ⟨⟨rfl, hagree⟩, rfl⟩
  | read prompt =>
      have hread := hagree.readLine prompt
      rw [Listing.State.assign, Listing.State.assign, sourceCost, sourceCost]
      dsimp only
      cases hworld : world.readLine prompt with
      | done first value =>
          rw [hworld] at hread
          obtain ⟨last, hother, hworlds⟩ := hread.of_done
          rw [hother]
          exact ⟨⟨hposition, hassign value hworlds⟩, rfl⟩
      | failed first trouble =>
          rw [hworld] at hread
          obtain ⟨last, hother, hworlds⟩ := hread.of_failed
          rw [hother]
          exact ⟨⟨⟨rfl, hworlds⟩, rfl⟩, rfl⟩

/-- Behind an instruction that is kept both go on, if they still agree on what was live before it. -/
theorem running_trails (h : listing[position]? = some instruction)
    (hafter : live[position]? = some after) (hkept : isKept after instruction = true)
    (hnext : before (position + 1) ⊆ before position)
    (hworlds : first.AgreeOn (· ∈ before position) last) :
    NextTrails listing live before (.running ⟨position + 1, first, notes⟩)
      (.running ⟨survivors listing live position + 1, last, fewer⟩) :=
  ⟨(survivors_succ_of_kept h hafter hkept).symm, hworlds.mono fun _ hname => hnext hname⟩

/-- Labels are kept, so a jump takes both sides to the same one. -/
theorem jump_trails (hlabels : Listing.WellLabelled listing)
    (hlive : LiveSets listing live before) (h : listing[position]? = some instruction)
    {label : String} (htarget : instruction.target? = some label)
    (hagree : world.AgreeOn (· ∈ before position) other) :
    NextTrails listing live before
      (.running (Listing.State.jump ⟨position, world, notes⟩ listing label))
      (.running (Listing.State.jump ⟨survivors listing live position, other, fewer⟩
        (keepLive listing live) label)) := by
  obtain ⟨after, _, hbefore, _, htargets⟩ := hlive position instruction h
  obtain ⟨target, hlabel, hfound⟩ := hlabels.exists_target (List.mem_of_getElem? h) htarget
  obtain ⟨names, hnames, _⟩ := hlive target _ hlabel
  have hkeptLabel := getElem?_keepLive hlabel hnames rfl
  have hfoundKept :=
    Listing.idxOf?_label (wellLabelled_keepLive hlive.length_le hlabels).nodup hkeptLabel
  rw [Listing.State.jump, Listing.State.jump, hfound, hfoundKept]
  refine ⟨rfl, hagree.mono fun name hname => ?_⟩
  rw [hbefore]
  exact subset_transfer _ _ (htargets label target htarget hlabel hname)

/-- Both sides print the same lines, and an output that fills up does so for both. -/
theorem print_trails {text : String} {arguments : List Operand}
    (h : listing[position]? = some (.print text arguments)) (hafter : live[position]? = some after)
    (hbefore : before position = transfer after (.print text arguments))
    (hnext : before (position + 1) ⊆ before position)
    (hagree : world.AgreeOn (· ∈ before position) other) :
    NextTrails listing live before
      (execute listing ⟨position, world, notes⟩ (.print text arguments))
      (execute (keepLive listing live) ⟨survivors listing live position, other, fewer⟩
        (.print text arguments)) ∧
    cost other (.print text arguments) = cost world (.print text arguments) := by
  have hkept : isKept after (.print text arguments) = true := rfl
  have harguments : arguments.map (Operand.value other) =
      arguments.map (Operand.value world) := by
    apply List.map_congr_left
    intro argument hmem
    apply value_of_kept hkept hbefore hagree
    intro name hname
    exact List.mem_filterMap.2 ⟨argument, hmem, hname⟩
  have hwrite := hagree.writeLines (printedLines text (arguments.map (Operand.value world)))
  rw [execute, execute, cost, cost, harguments, hagree.linesBegun]
  refine ⟨?_, rfl⟩
  dsimp only
  cases hworld : world.writeLines
      (printedLines text (arguments.map (Operand.value world))) with
  | done first =>
      rw [hworld] at hwrite
      obtain ⟨last, hother, hworlds⟩ := hwrite.of_done
      rw [hother]
      exact running_trails h hafter hkept hnext hworlds
  | failed first trouble =>
      rw [hworld] at hwrite
      obtain ⟨last, hother, hworlds⟩ := hwrite.of_failed
      rw [hother]
      exact ⟨⟨rfl, hworlds⟩, rfl⟩

/-- An instruction that is no assignment does the same on both sides. -/
theorem execute_trails (hlabels : Listing.WellLabelled listing)
    (hlive : LiveSets listing live before) (h : listing[position]? = some instruction)
    (hassign : ∀ target source, instruction ≠ .assign target source)
    (hagree : world.AgreeOn (· ∈ before position) other) :
    NextTrails listing live before (execute listing ⟨position, world, notes⟩ instruction)
      (execute (keepLive listing live) ⟨survivors listing live position, other, fewer⟩
        instruction) ∧
    cost other instruction = cost world instruction := by
  obtain ⟨after, hafter, hbefore, hsucc, _⟩ := hlive position instruction h
  have hkept : isKept after instruction = true := by
    cases instruction with
    | assign target source => exact absurd rfl (hassign target source)
    | _ => rfl
  have hnext : before (position + 1) ⊆ before position := by
    rw [hbefore]
    exact fun _ hname => subset_transfer _ _ (hsucc hname)
  cases instruction with
  | assign target source => exact absurd rfl (hassign target source)
  | label name => exact ⟨running_trails h hafter hkept hnext hagree, rfl⟩
  | goto label => exact ⟨jump_trails hlabels hlive h rfl hagree, rfl⟩
  | branch condition label =>
      refine ⟨?_, rfl⟩
      have hcondition : condition.value other = condition.value world :=
        value_of_kept hkept hbefore hagree fun name hname => by simp [Instruction.uses, hname]
      rw [execute, execute, hcondition]
      dsimp only
      cases condition.value world with
      | text line => exact ⟨⟨rfl, hagree⟩, rfl⟩
      | number x =>
          dsimp only
          by_cases hx : (x != 0) = true
          · rw [if_pos hx, if_pos hx]
            exact jump_trails hlabels hlive h rfl hagree
          · rw [if_neg hx, if_neg hx]
            exact running_trails h hafter hkept hnext hagree
  | print text arguments => exact print_trails h hafter hbefore hnext hagree
  | comment text => exact ⟨running_trails h hafter hkept hnext hagree, rfl⟩
  | breakLoop => exact ⟨⟨⟨rfl, hagree⟩, rfl⟩, rfl⟩
  | continueLoop => exact ⟨⟨⟨rfl, hagree⟩, rfl⟩, rfl⟩
  | ret value =>
      refine ⟨⟨⟨rfl, hagree⟩, ?_⟩, rfl⟩
      cases value with
      | none => rfl
      | some operand =>
          have hoperand : operand.value other = operand.value world :=
            value_of_kept hkept hbefore hagree fun name hname => by
              simp [Instruction.uses, hname]
          dsimp only [Option.map_some]
          rw [hoperand]

end Kept

/-- There is an instruction at the position that elimination drops. -/
def Removed (listing : Listing) (live : List Names) (position : Nat) : Prop :=
  ∃ instruction after, listing[position]? = some instruction ∧ live[position]? = some after ∧
    isKept after instruction = false

section Steps

variable {listing : Listing} {live : List Names} {before : Nat → Names}
  {state eliminated : Listing.State}

/-- Without an assignment that is gone the listing goes on, or has given an operator a text. -/
theorem interpreter_removed (hlive : LiveSets listing live before)
    (htrails : Trails listing live before state eliminated)
    (hremoved : Removed listing live state.position) :
    (∃ next, interpreter listing state = .running next ∧
      next.position = state.position + 1 ∧ Trails listing live before next eliminated) ∨
    ∃ trouble, interpreter listing state = .stopped (state, .failed trouble) ∧
      trouble.isTypeError = true := by
  obtain ⟨instruction, after, hinstruction, hafter, hnot⟩ := hremoved
  obtain ⟨live', hlive', hbefore, hsucc, _⟩ := hlive _ _ hinstruction
  obtain rfl := Option.some.inj (hafter.symm.trans hlive')
  cases instruction with
  | assign target source =>
      simp only [isKept, Bool.or_eq_false_iff, decide_eq_false_iff_not] at hnot
      obtain ⟨hread, htarget⟩ := hnot
      have hnotKept : ¬isKept after (.assign target source) = true := by
        simp [isKept, hread, htarget]
      have hnext : ∀ (value : Value) (notes : List Nat), Trails listing live before
          ⟨state.position + 1, state.world.assign target value, notes⟩ eliminated := by
        intro value notes
        refine ⟨?_, htrails.agree.input_eq, htrails.agree.sink_eq, ?_⟩
        · rw [survivors_succ hinstruction hafter, if_neg hnotKept]
          exact htrails.position_eq
        · intro name hname
          have hmem := hsucc hname
          have hne : target ≠ name := by
            rintro rfl
            exact htarget hmem
          rw [World.get?_assign, if_neg hne]
          apply htrails.agree.get?_eq
          rw [hbefore]
          exact subset_transfer _ _ hmem
      rw [Listing.interpreter_of_getElem? hinstruction, execute]
      cases source with
      | operand value => exact .inl ⟨_, rfl, rfl, hnext _ _⟩
      | operation op left right =>
          cases hresult : operate? op (left.value state.world) (right.value state.world) with
          | some result => exact .inl ⟨_, Listing.State.assign_of_some hresult target, rfl, hnext _ _⟩
          | none => exact .inr ⟨_, Listing.State.assign_of_none hresult target, rfl⟩
      | read prompt => cases hread
  | _ => cases hnot

/-- Everywhere else both do the same, at the same cost. -/
theorem interpreter_trails (hlabels : Listing.WellLabelled listing)
    (hlive : LiveSets listing live before)
    (htrails : Trails listing live before state eliminated)
    (hremoved : ¬Removed listing live state.position) :
    NextTrails listing live before (interpreter listing state)
      (interpreter (keepLive listing live) eliminated) ∧
    costAt (keepLive listing live) eliminated = costAt listing state := by
  obtain ⟨position, world, notes⟩ := state
  obtain ⟨position', other, fewer⟩ := eliminated
  obtain ⟨rfl, hagree⟩ := htrails
  rw [interpreter, interpreter, costAt, costAt]
  dsimp only at hagree hremoved ⊢
  cases hinstruction : listing[position]? with
  | none =>
      have hlength := List.getElem?_eq_none_iff.1 hinstruction
      rw [survivors_of_length_le hlive.length_le hlength, List.getElem?_eq_none (Nat.le_refl _)]
      exact ⟨⟨⟨(survivors_of_length_le hlive.length_le hlength).symm, hagree⟩, rfl⟩, rfl⟩
  | some instruction =>
      obtain ⟨after, hafter, hbefore, hsucc, _⟩ := hlive position instruction hinstruction
      have hkept : isKept after instruction = true := by
        cases hkept : isKept after instruction with
        | true => rfl
        | false => exact absurd ⟨instruction, after, hinstruction, hafter, hkept⟩ hremoved
      rw [getElem?_keepLive hinstruction hafter hkept]
      cases instruction with
      | assign target source => exact assign_trails hinstruction hafter hkept hbefore hsucc hagree
      | _ =>
          refine execute_trails hlabels hlive hinstruction ?_ hagree
          intro target source heq
          cases heq

end Steps

/-- How the simulation of a listing by what is left of it comes to its end: both end alike and the
same instructions are to blame, or the listing has failed at an instruction that is gone. -/
def Concludes (listing : Listing) (live : List Names) (before : Nat → Names)
    (ending : (Listing.State × Ending) × Nat) (eliminated : Listing.State × Nat) : Prop :=
  (¬Removed listing live ending.1.1.position ∧
    ∃ other, ((interpreter (keepLive listing live)).metered (costAt (keepLive listing live))).Ends
      eliminated other ∧
      Trails listing live before ending.1.1 other.1.1 ∧ other.1.2 = ending.1.2 ∧
      other.2 ≤ ending.2) ∨
  (Removed listing live ending.1.1.position ∧
    (∃ trouble, ending.1.2 = .failed trouble ∧ trouble.isTypeError = true) ∧
    Trails listing live before ending.1.1 eliminated.1)

/-- One trails the other and has not spent more. -/
def TrailsCheaply (listing : Listing) (live : List Names) (before : Nat → Names)
    (original eliminated : Listing.State × Nat) : Prop :=
  Trails listing live before original.1 eliminated.1 ∧ eliminated.2 ≤ original.2

/-- What is left of a listing simulates it.  It stands still only while the listing passes an
instruction that is gone, and so gets closer to its end. -/
theorem simulation_keepLive {listing : Listing} {live : List Names} {before : Nat → Names}
    (hlabels : Listing.WellLabelled listing) (hlive : LiveSets listing live before) :
    System.Simulation ((interpreter listing).metered (costAt listing))
      ((interpreter (keepLive listing live)).metered (costAt (keepLive listing live)))
      (TrailsCheaply listing live before) (Concludes listing live before)
      (fun original => listing.length - original.1.position) where
  advance := by
    rintro ⟨state, total⟩ ⟨next, total'⟩ ⟨eliminated, spent⟩ ⟨htrails, hle⟩ hstep
    obtain ⟨hnext, rfl⟩ := System.running_of_metered _ hstep
    by_cases hremoved : Removed listing live state.position
    · rcases interpreter_removed hlive htrails hremoved with
        ⟨other, hother, hposition, hstill⟩ | ⟨trouble, hstop, _⟩
      · rw [hnext] at hother
        cases hother
        refine ⟨0, _, .refl _, ⟨hstill, Nat.le_add_right_of_le hle⟩, ?_⟩
        intro _
        obtain ⟨_, _, hinstruction, _⟩ := hremoved
        have hlt := (List.getElem?_eq_some_iff.1 hinstruction).1
        dsimp only at hposition ⊢
        omega
      · cases hnext.symm.trans hstop
    · obtain ⟨hboth, hcost⟩ := interpreter_trails hlabels hlive htrails hremoved
      rw [hnext] at hboth
      obtain ⟨after, hother, hafter⟩ := hboth.of_running
      refine ⟨1, _, .single (System.metered_of_running _ hother spent),
        ⟨hafter, Nat.add_le_add hle (Nat.le_of_eq hcost)⟩, ?_⟩
      intro hzero
      cases hzero
  finish := by
    rintro ⟨state, total⟩ ⟨eliminated, spent⟩ ⟨ending, total'⟩ ⟨htrails, hle⟩ hstep
    obtain ⟨hstop, rfl⟩ := System.stopped_of_metered _ hstep
    by_cases hremoved : Removed listing live state.position
    · rcases interpreter_removed hlive htrails hremoved with
        ⟨other, hother, _⟩ | ⟨trouble, htrouble, htype⟩
      · cases hstop.symm.trans hother
      · rw [hstop] at htrouble
        cases htrouble
        exact .inr ⟨hremoved, ⟨trouble, rfl, htype⟩, htrails⟩
    · obtain ⟨hboth, hcost⟩ := interpreter_trails hlabels hlive htrails hremoved
      rw [hstop] at hboth
      obtain ⟨other, hother, hlast, hending⟩ := hboth.of_stopped
      refine .inl ⟨?_, _, .of_stopped (System.metered_of_stopped _ hother spent), hlast, hending,
        Nat.add_le_add hle (Nat.le_of_eq hcost)⟩
      rw [Listing.position_of_stopped hstop]
      exact hremoved

/-- Where an instruction of a listing stands after elimination. -/
def placeAfterElimination (listing : Listing) (position : Nat) : Nat :=
  survivors listing (liveness listing).1 position

/-- A run and the run without the dead assignments end alike. -/
structure EndsLike (listing : Listing) (original eliminated : Machine.State × Outcome) : Prop where
  input_eq : eliminated.1.input = original.1.input
  sink_eq : eliminated.1.sink = original.1.sink
  /-- The same completion, or the same trouble at the same instruction. -/
  shows : ∃ position ending, ¬Removed listing (liveness listing).1 position ∧
    Shows listing original position ending ∧
    Shows (eliminateDead listing) eliminated (placeAfterElimination listing position) ending
  steps_le : eliminated.1.steps ≤ original.1.steps

/-- A run has failed for the type of a value in an assignment that is dropped, and the run without it
writes all that this one has written. -/
structure FailsInDropped (listing : Listing) (limits : Limits) (eliminated : Machine.Loaded)
    (start : Machine.State) (original : Machine.State × Outcome) : Prop where
  shows : ∃ position trouble, Removed listing (liveness listing).1 position ∧
    trouble.isTypeError = true ∧ Shows listing original position (.failed trouble)
  /-- At some time the output is the same. -/
  written : ∃ count reached, (Machine.system eliminated limits).Walk count start reached ∧
    reached.sink = original.1.sink
  /-- In the end it begins with it. -/
  begins : ∀ last, Machine.Ends eliminated limits start last →
    ∃ rest, last.1.sink.bytes = original.1.sink.bytes ++ rest

/-- No run does both. -/
theorem EndsLike.not_failsInDropped {listing : Listing} {limits : Limits}
    {eliminated : Machine.Loaded} {start : Machine.State} {original last : Machine.State × Outcome}
    (hlike : EndsLike listing original last) :
    ¬FailsInDropped listing limits eliminated start original := by
  intro hfails
  obtain ⟨position, ending, hkept, hshows, _⟩ := hlike.shows
  obtain ⟨dropped, trouble, hremoved, _, hfailed⟩ := hfails.shows
  obtain rfl := hshows.ending_unique hfailed
  obtain rfl := hshows.position_unique hfailed
  exact hkept hremoved

section Conclusion

variable {listing : Listing} {limits : Limits} {eliminated : Machine.Loaded}
  {before : Nat → Names} {input : Machine.Input} {sink : Machine.Sink}
  {ending : Listing.State × Ending} {original : Machine.State × Outcome}
  (hosts : Hosts eliminated limits (eliminateDead listing))
  (hmatches : Matches listing ending original)

include hosts hmatches

/-- The machine ends like the original one if the instructions do. -/
theorem endsLike_of_ends {other : Listing.State × Ending} {spent : Nat}
    (hother : ((interpreter (eliminateDead listing)).metered
      (costAt (eliminateDead listing))).Ends (.start input sink, 0) (other, spent))
    (hkept : ¬Removed listing (liveness listing).1 ending.1.position)
    (htrails : Trails listing (liveness listing).1 before ending.1 other.1)
    (heq : other.2 = ending.2) (hle : spent ≤ original.1.steps) :
    ∃ last, Machine.Ends eliminated limits (.start input sink) last ∧
      EndsLike listing original last := by
  obtain ⟨last, hlast, hmatchesLast, rfl⟩ := hosts.ends_of_metered hother
  refine ⟨last, hlast, ?_, ?_, ⟨ending.1.position, ending.2, hkept, hmatches.shows, ?_⟩, hle⟩
  · rw [hmatchesLast.input_eq, hmatches.input_eq, htrails.agree.input_eq]
  · rw [hmatchesLast.sink_eq, hmatches.sink_eq, htrails.agree.sink_eq]
  · rw [placeAfterElimination, ← htrails.position_eq, ← heq]
    exact hmatchesLast.shows

/-- Where the original run has failed in an assignment that is dropped, the other one has written the
same and only adds to it. -/
theorem failsInDropped_of_walk {count : Nat} {after : Listing.State} {spent : Nat}
    (hwalk : ((interpreter (eliminateDead listing)).metered
      (costAt (eliminateDead listing))).Walk count (.start input sink, 0) (after, spent))
    (hlimit : ending.1.world.sink.limit = none)
    (hremoved : Removed listing (liveness listing).1 ending.1.position) {trouble : Trouble}
    (htrouble : ending.2 = .failed trouble) (htype : trouble.isTypeError = true)
    (htrails : Trails listing (liveness listing).1 before ending.1 after) :
    FailsInDropped listing limits eliminated (.start input sink) original := by
  have hsink : after.world.sink = original.1.sink := by
    rw [htrails.agree.sink_eq, hmatches.sink_eq]
  refine ⟨⟨ending.1.position, trouble, hremoved, htype, ?_⟩, ?_, ?_⟩
  · rw [← htrouble]
    exact hmatches.shows
  · obtain ⟨steps, hreached⟩ := hosts.walk_of_metered hwalk
    exact ⟨steps, _, hreached, hsink⟩
  · intro last hlast
    obtain ⟨other, total, hother, hmatchesLast, _⟩ := hosts.metered_of_ends hlast
    have hends := (System.ends_metered_iff _ _ _ _).1 ⟨total, (hwalk.ends_iff _).1 hother⟩
    rw [← htrails.agree.sink_eq] at hlimit
    obtain ⟨_, rest, hrest⟩ :=
      Listing.continues_of_ends (World.Continues.refl hlimit) hends
    refine ⟨rest, ?_⟩
    rw [hmatchesLast.sink_eq, ← hsink]
    exact hrest

end Conclusion

/-- **Dropping dead assignments preserves every run**, but for the type errors of the assignments that
are dropped.  Where the code of a listing loads, so does that without them; a run that ends does so
with it in the same way, unless it has failed in such an assignment; and it ends if that does. -/
theorem eliminateDead_preserves_runs (listing : Listing) (limits : Limits)
    (hsteps : limits.maxSteps = none) (hdepth : 2 ≤ limits.maxStackDepth) {loaded : Machine.Loaded}
    (hload : load (ofListing listing) = .ok loaded) :
    ∃ eliminated, load (ofListing (eliminateDead listing)) = .ok eliminated ∧
      ∀ input sink, sink.limit = none →
        (∀ original, Machine.Ends loaded limits (.start input sink) original →
          ((∃ last, Machine.Ends eliminated limits (.start input sink) last ∧
              EndsLike listing original last) ∨
            FailsInDropped listing limits eliminated (.start input sink) original) ∧
          ¬((∃ last, Machine.Ends eliminated limits (.start input sink) last ∧
              EndsLike listing original last) ∧
            FailsInDropped listing limits eliminated (.start input sink) original)) ∧
        ((∃ last, Machine.Ends eliminated limits (.start input sink) last) →
          ∃ original, Machine.Ends loaded limits (.start input sink) original) := by
  have hlabels := (Bytecode.exists_load_ofListing_iff listing).1 ⟨loaded, hload⟩
  obtain ⟨before, hlive⟩ := exists_liveSets hlabels.nodup
  obtain ⟨eliminated, heliminated⟩ :=
    (Bytecode.exists_load_ofListing_iff (eliminateDead listing)).2
      (wellLabelled_keepLive hlive.length_le hlabels)
  have hosts : Hosts loaded limits listing := ⟨hload, hsteps, hdepth⟩
  have hostsEliminated : Hosts eliminated limits (eliminateDead listing) :=
    ⟨heliminated, hsteps, hdepth⟩
  refine ⟨eliminated, heliminated, ?_⟩
  intro input sink hsink
  have hstart : TrailsCheaply listing (liveness listing).1 before (.start input sink, 0)
      (.start input sink, 0) :=
    ⟨⟨(survivors_zero _ _).symm, rfl, rfl, fun _ _ => rfl⟩, Nat.le_refl 0⟩
  have hsimulation := simulation_keepLive hlabels hlive
  refine ⟨?_, ?_⟩
  · intro original horiginal
    obtain ⟨ending, total, hending, hmatches, rfl⟩ := hosts.metered_of_ends horiginal
    obtain ⟨count, ⟨after, spent⟩, hwalk, hconcludes⟩ := hsimulation.forward hstart hending
    refine ⟨?_, fun ⟨⟨last, _, hlike⟩, hfails⟩ => hlike.not_failsInDropped hfails⟩
    rcases hconcludes with ⟨hkept, ⟨other, spent'⟩, hother, htrails, heq, hle⟩ |
      ⟨hremoved, ⟨trouble, htrouble, htype⟩, htrails⟩
    · exact .inl (endsLike_of_ends hostsEliminated hmatches ((hwalk.ends_iff _).2 hother) hkept
        htrails heq hle)
    · have hcontinues := Listing.continues_of_ends (World.Continues.refl hsink)
        ((System.ends_metered_iff _ _ _ _).1 ⟨_, hending⟩)
      exact .inr (failsInDropped_of_walk hostsEliminated hmatches hwalk hcontinues.1 hremoved
        htrouble htype htrails)
  · rintro ⟨last, hlast⟩
    obtain ⟨ending, total, hending, _⟩ := hostsEliminated.metered_of_ends hlast
    obtain ⟨⟨other, spent⟩, hother⟩ := hsimulation.backward hstart hending
    obtain ⟨original, horiginal, _⟩ := hosts.ends_of_metered hother
    exact ⟨original, horiginal⟩

/-- A listing that doubles a line of input for nothing. -/
def wasteful : Listing :=
  [.assign "x" (.read "? "), .assign "y" (.operation .mul (.name "x") (.number 2)),
    .print "" [.name "x"]]

theorem eliminateDead_preserves_runs_wasteful :
    ∃ loaded eliminated original, load (ofListing wasteful) = .ok loaded ∧
      load (ofListing (eliminateDead wasteful)) = .ok eliminated ∧
      Machine.Ends loaded ⟨2, none⟩ (.start (.ofBytes [104, 105, 10]) .unlimited) original ∧
      FailsInDropped wasteful ⟨2, none⟩ eliminated (.start (.ofBytes [104, 105, 10]) .unlimited)
        original := by
  obtain ⟨loaded, hload⟩ := (Bytecode.exists_load_ofListing_iff wasteful).2 (by decide)
  obtain ⟨eliminated, heliminated, hruns⟩ :=
    eliminateDead_preserves_runs wasteful ⟨2, none⟩ rfl (Nat.le_refl 2) hload
  obtain ⟨hends, _⟩ := hruns (.ofBytes [104, 105, 10]) .unlimited rfl
  have hrun : (((interpreter wasteful).metered (costAt wasteful)).run 2
      (.start (.ofBytes [104, 105, 10]) .unlimited, 0)).map
        (fun ending => (ending.1.1.position, ending.1.2)) =
          some (1, .failed (.textOperand .mul (.text "hi") (.number 2))) := by
    decide +kernel
  obtain ⟨⟨ending, total⟩, hending, hresult⟩ := Option.map_eq_some_iff.1 hrun
  simp only [Prod.mk.injEq] at hresult
  obtain ⟨hposition, htrouble⟩ := hresult
  have hosts : Hosts loaded ⟨2, none⟩ wasteful := ⟨hload, rfl, Nat.le_refl 2⟩
  obtain ⟨original, horiginal, hmatches, _⟩ := hosts.ends_of_metered ⟨2, hending⟩
  refine ⟨loaded, eliminated, original, hload, heliminated, horiginal, ?_⟩
  rcases (hends original horiginal).1 with ⟨_, _, hlike⟩ | hfails
  · -- The instruction that fails is dropped, so nothing can end like this run.
    have hshows := hmatches.shows
    rw [hposition, htrouble] at hshows
    obtain ⟨position, other, hkept, hother, _⟩ := hlike.shows
    obtain rfl := hshows.ending_unique hother
    obtain rfl := hshows.position_unique hother
    exact absurd ⟨_, ["x"], rfl, by decide +kernel, rfl⟩ hkept
  · exact hfails

end Optimizer

end StackPipeline
