import StackPipeline.Optimizer.Passes
import StackPipeline.Proofs.Listing.Assignments
import StackPipeline.Proofs.Optimizer.EliminatedRuns
import StackPipeline.Proofs.Optimizer.FoldedRuns

/-!
Which of its assignments a listing still carries out when it is optimized.

Folding keeps them all, with their values.  Elimination leaves some out, and each of the others still
gives its target the same value, even if that is not read any more.  So the variables end up with what
the last assignment that is kept has given them.
-/

namespace StackPipeline

namespace Listing

/-- A source has the same value where the names that it reads do. -/
theorem Source.value?_of_agreeOn {names : String → Prop} {world other : World}
    (h : world.AgreeOn names other) {source : Source} (huses : ∀ name ∈ source.uses, names name) :
    source.value? other = source.value? world := by
  cases source with
  | operand value =>
      have hvalue := value.value_of_agreeOn h fun name hname =>
        huses name (by simp [Source.uses, hname])
      rw [Source.value?, Source.value?, hvalue]
  | operation op left right =>
      have hleft := left.value_of_agreeOn h fun name hname =>
        huses name (by simp [Source.uses, hname])
      have hright := right.value_of_agreeOn h fun name hname =>
        huses name (by simp [Source.uses, hname])
      rw [Source.value?, Source.value?, hleft, hright]
  | read prompt =>
      have hread := h.readLine prompt
      rw [Source.value?, Source.value?]
      cases hworld : world.readLine prompt with
      | done first value =>
          rw [hworld] at hread
          obtain ⟨last, hother, -⟩ := hread.of_done
          rw [hother]
      | failed first trouble =>
          rw [hworld] at hread
          obtain ⟨last, hother, -⟩ := hread.of_failed
          rw [hother]

end Listing

namespace Optimizer

open Listing (Assignment Ending Instruction Source State assignment? interpreter lastValue?)
open Machine (Completion Value)

section Folded

variable {listing : Listing}

theorem value?_foldSource {known : Known} {world : World} (h : known.Describes world.store)
    (source : Source) : (known.foldSource source).value? world = source.value? world := by
  cases source with
  | read prompt => rfl
  | operand value => exact congrArg some (Known.value_substitute h value)
  | operation op left right =>
      have hleft := Known.value_substitute h left
      have hright := Known.value_substitute h right
      have hvalue : (Source.operation op left right).value? world =
          (Machine.operate? op (left.value world) (right.value world)).map .number := rfl
      rw [hvalue, ← hleft, ← hright]
      rcases Known.foldSource_operation op left right with ⟨a, b, ha, hb, hfold⟩ | hfold
      · rw [hfold, ha, hb]
        rfl
      · rw [hfold]
        rfl

/-- The folded listing carries out the same assignment. -/
theorem assignment?_foldConstants {folded state : State} (hstep : InStep folded state)
    (hinformed : Informed listing state) :
    assignment? (foldConstants listing) folded = assignment? listing state := by
  rw [assignment?, assignment?, hstep.position_eq, hstep.world_eq, getElem?_foldConstants]
  cases hinstruction : listing[state.position]? with
  | none => rfl
  | some instruction =>
      cases instruction with
      | assign target source =>
          have hvalue := value?_foldSource (hinformed _ hinstruction rfl) source
          exact congrArg (Option.map _) hvalue
      | _ => rfl

/-- The folded listing ends in step and has carried out the same assignments. -/
theorem run_foldConstants (hlabels : Listing.WellLabelled listing) {fuel : Nat}
    {folded state : State} {ending : State × Ending}
    (h : (interpreter listing).run fuel state = some ending) (hstep : InStep folded state)
    (hinformed : Informed listing state) :
    ∃ other, (interpreter (foldConstants listing)).run fuel folded = some other ∧
      InStep other.1 ending.1 ∧ other.2 = ending.2 ∧
      (interpreter (foldConstants listing)).history (assignment? (foldConstants listing)) fuel
        folded = (interpreter listing).history (assignment? listing) fuel state := by
  induction fuel generalizing folded state with
  | zero => cases h
  | succ fuel ih =>
      obtain ⟨halike, -⟩ := interpreter_inStep hlabels hstep hinformed
      cases hnext : interpreter listing state with
      | stopped other =>
          rw [System.run_succ_of_stopped hnext] at h
          obtain rfl := Option.some.inj h
          rw [hnext] at halike
          obtain ⟨last, hfolded, hlast, heq⟩ := halike.of_stopped
          rw [System.history_succ_of_stopped _ hnext, System.history_succ_of_stopped _ hfolded]
          exact ⟨last, System.run_succ_of_stopped hfolded fuel, hlast, heq, rfl⟩
      | running next =>
          rw [System.run_succ_of_running hnext] at h
          rw [hnext] at halike
          obtain ⟨after, hfolded, hafter, hknown⟩ := halike.of_running
          obtain ⟨other, hrun, hlast, heq, hhistory⟩ := ih h hafter hknown
          rw [System.history_succ_of_running _ hnext, System.history_succ_of_running _ hfolded,
            hhistory, assignment?_foldConstants hstep hinformed]
          exact ⟨other, (System.run_succ_of_running hfolded fuel).trans hrun, hlast, heq, rfl⟩

end Folded

section Eliminated

/-- Whether elimination drops the instruction at a position. -/
def isDropped (listing : Listing) (live : List Names) (position : Nat) : Bool :=
  match listing[position]?, live[position]? with
  | some instruction, some after => !isKept after instruction
  | _, _ => false

variable {listing : Listing} {live : List Names} {before : Nat → Names}
  {state eliminated : State}

theorem isDropped_iff {position : Nat} :
    isDropped listing live position = true ↔ Removed listing live position := by
  rw [isDropped, Removed]
  cases listing[position]? with
  | none => simp
  | some instruction =>
      cases live[position]? with
      | none => simp
      | some after => simp

/-- The assignments among these that elimination keeps. -/
def keptOf (listing : Listing) (live : List Names) (history : List Assignment) : List Assignment :=
  history.filter fun assignment => !isDropped listing live assignment.position

theorem keptOf_append (history more : List Assignment) :
    keptOf listing live (history ++ more) = keptOf listing live history ++ keptOf listing live more :=
  List.filter_append _ _

theorem position_of_assignment? {assignment : Assignment}
    (h : assignment? listing state = some assignment) : assignment.position = state.position := by
  rw [assignment?] at h
  split at h
  · obtain ⟨value, -, rfl⟩ := Option.map_eq_some_iff.1 h
    rfl
  · cases h

theorem keptOf_assignment? :
    keptOf listing live (assignment? listing state).toList =
      if isDropped listing live state.position then [] else (assignment? listing state).toList := by
  cases hassignment : assignment? listing state with
  | none => simp [keptOf]
  | some assignment =>
      rw [← position_of_assignment? hassignment, Option.toList_some, keptOf, List.filter_cons]
      cases isDropped listing live assignment.position <;> rfl

/-- An assignment that is kept gives its target the same value. -/
theorem lastValue?_assignment?_keepLive (hlive : LiveSets listing live before)
    (htrails : Trails listing live before state eliminated)
    (hkept : ¬Removed listing live state.position) (name : String) :
    lastValue? (assignment? (keepLive listing live) eliminated).toList name =
      lastValue? (assignment? listing state).toList name := by
  rw [assignment?, assignment?, htrails.position_eq]
  cases hinstruction : listing[state.position]? with
  | none =>
      have hlength := List.getElem?_eq_none_iff.1 hinstruction
      rw [survivors_of_length_le hlive.length_le hlength, List.getElem?_eq_none (Nat.le_refl _)]
  | some instruction =>
      obtain ⟨after, hafter, hbefore, -, -⟩ := hlive _ _ hinstruction
      have hisKept : isKept after instruction = true := by
        cases hisKept : isKept after instruction with
        | true => rfl
        | false => exact absurd ⟨instruction, after, hinstruction, hafter, hisKept⟩ hkept
      rw [getElem?_keepLive hinstruction hafter hisKept]
      cases instruction with
      | assign target source =>
          have hvalue : source.value? eliminated.world = source.value? state.world := by
            refine Source.value?_of_agreeOn htrails.agree fun name hname => ?_
            rw [hbefore, mem_transfer]
            exact .inr ⟨hisKept, hname⟩
          dsimp only
          rw [hvalue]
          cases source.value? state.world with
          | none => rfl
          | some value =>
              simp only [Option.map_some, Option.toList_some, Listing.lastValue?_singleton]
      | _ => rfl

/-- What is left of a listing ends as the listing does, and its variables have what was assigned to
them last by an assignment that is kept. -/
theorem run_keepLive (hlabels : Listing.WellLabelled listing) (hlive : LiveSets listing live before)
    {fuel : Nat} {last : State} {completion : Completion}
    (h : (interpreter listing).run fuel state = some (last, .completed completion))
    (htrails : Trails listing live before state eliminated) :
    ∃ other, (interpreter (keepLive listing live)).Ends eliminated (other, .completed completion) ∧
      ∀ name, other.world.store.get? name =
        (lastValue? (keptOf listing live
          ((interpreter listing).history (assignment? listing) fuel state)) name).or
            (eliminated.world.store.get? name) := by
  induction fuel generalizing state eliminated with
  | zero => cases h
  | succ fuel ih =>
      by_cases hremoved : Removed listing live state.position
      · -- The assignment is passed over on one side, and left out of the history.
        rcases interpreter_removed hlive htrails hremoved with
          ⟨next, hnext, -, hstill⟩ | ⟨trouble, hstop, -⟩
        · rw [System.run_succ_of_running hnext] at h
          obtain ⟨other, hends, hstore⟩ := ih h hstill
          refine ⟨other, hends, fun name => ?_⟩
          rw [System.history_succ_of_running _ hnext, keptOf_append, keptOf_assignment?,
            if_pos (isDropped_iff.2 hremoved), List.nil_append, hstore]
        · rw [System.run_succ_of_stopped hstop] at h
          cases h
      · obtain ⟨hboth, -⟩ := interpreter_trails hlabels hlive htrails hremoved
        cases hnext : interpreter listing state with
        | stopped ending =>
            rw [System.run_succ_of_stopped hnext] at h
            obtain rfl := Option.some.inj h
            rw [hnext] at hboth
            obtain ⟨⟨other, ending⟩, hother, -, rfl⟩ := hboth.of_stopped
            refine ⟨other, .of_stopped hother, fun name => ?_⟩
            rw [System.history_succ_of_stopped _ hnext, Listing.eq_of_completed hother]
            rfl
        | running next =>
            rw [System.run_succ_of_running hnext] at h
            rw [hnext] at hboth
            obtain ⟨after, hother, hafter⟩ := hboth.of_running
            obtain ⟨other, hends, hstore⟩ := ih h hafter
            refine ⟨other, ((System.Walk.single hother).ends_iff _).2 hends, fun name => ?_⟩
            rw [System.history_succ_of_running _ hnext, keptOf_append, keptOf_assignment?,
              if_neg (mt isDropped_iff.1 hremoved), Listing.lastValue?_append, hstore,
              Listing.get?_of_running hother,
              lastValue?_assignment?_keepLive hlive htrails hremoved, Option.or_assoc]

end Eliminated

/-- Whether the optimizer drops the instruction at a position.  Folding moves none, so that positions
are those of the listing before it. -/
def Passes.drops (passes : Passes) (listing : Listing) (position : Nat) : Bool :=
  passes.deadCodeElimination &&
    isDropped (passes.fold listing) (liveness (passes.fold listing)).1 position

/-- The first pass changes neither the ending nor the assignments. -/
theorem run_fold {listing : Listing} (hlabels : Listing.WellLabelled listing) (passes : Passes)
    {input : Machine.Input} {sink : Machine.Sink} {fuel : Nat} {last : State} {completion : Completion}
    (h : (interpreter listing).run fuel (.start input sink) = some (last, .completed completion)) :
    Listing.WellLabelled (passes.fold listing) ∧
    ∃ other, (interpreter (passes.fold listing)).run fuel (.start input sink) =
        some (other, .completed completion) ∧
      (interpreter (passes.fold listing)).history (assignment? (passes.fold listing)) fuel
          (.start input sink) =
        (interpreter listing).history (assignment? listing) fuel (.start input sink) := by
  rw [Passes.fold]
  split
  · obtain ⟨⟨other, ending⟩, hrun, -, rfl, hhistory⟩ := run_foldConstants hlabels h
      ⟨rfl, rfl, List.Sublist.refl _⟩ fun _ _ _ => Known.describes_empty _
    exact ⟨wellLabelled_foldConstants hlabels, other, hrun, hhistory⟩
  · exact ⟨hlabels, last, h, rfl⟩

/-- The optimized listing ends as the listing does, and its variables have what was assigned to them
last by an assignment that is not dropped. -/
theorem run_optimize {listing : Listing} (hlabels : Listing.WellLabelled listing) (passes : Passes)
    {input : Machine.Input} {sink : Machine.Sink} {fuel : Nat} {last : State} {completion : Completion}
    (h : (interpreter listing).run fuel (.start input sink) = some (last, .completed completion)) :
    ∃ other, (interpreter (optimize passes listing)).Ends (.start input sink)
        (other, .completed completion) ∧
      ∀ name, other.world.store.get? name =
        lastValue? (((interpreter listing).history (assignment? listing) fuel
          (.start input sink)).filter fun assignment =>
            !passes.drops listing assignment.position) name := by
  obtain ⟨hlabelsFolded, folded, hrun, hhistory⟩ := run_fold hlabels passes h
  rw [← hhistory, optimize, Passes.eliminate]
  by_cases heliminates : passes.deadCodeElimination = true
  · obtain ⟨before, hlive⟩ := exists_liveSets hlabelsFolded.nodup
    have htrails : Trails (passes.fold listing) (liveness (passes.fold listing)).1 before
        (.start input sink) (.start input sink) :=
      ⟨(survivors_zero _ _).symm, rfl, rfl, fun _ _ => rfl⟩
    obtain ⟨other, hends, hstore⟩ := run_keepLive hlabelsFolded hlive hrun htrails
    rw [if_pos heliminates]
    refine ⟨other, hends, fun name => ?_⟩
    rw [hstore, keptOf]
    simp only [Passes.drops, heliminates, Bool.true_and]
    exact Option.or_none
  · have hkept : ∀ position, passes.drops listing position = false := by
      intro position
      rw [Passes.drops, Bool.eq_false_iff.2 heliminates, Bool.false_and]
    rw [if_neg heliminates]
    refine ⟨folded, ⟨fuel, hrun⟩, fun name => ?_⟩
    simp only [hkept, Bool.not_false, List.filter_true]
    rw [Listing.get?_of_run hrun]
    exact Option.or_none

end Optimizer

end StackPipeline
