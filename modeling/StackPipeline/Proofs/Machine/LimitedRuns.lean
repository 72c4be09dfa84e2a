import StackPipeline.Proofs.Machine.Limits

/-!
A limit changes nothing about a run until the run comes up against it.

The run with the limit and the run without it go in lock step.  They part at the first instruction that
is one too many, or that puts one value too many on the stack.
-/

namespace StackPipeline.Machine

open Bytecode (Instruction)

/-- The machine with or without a limit on the stack and on the steps.  A stack without limit has room
for one more value at any time. -/
def limitedSystem (loaded : Loaded) (maxDepth? maxSteps? : Option Nat) :
    System State (State × Outcome) :=
  fun state => system loaded ⟨maxDepth?.getD (state.stack.depth + 1), maxSteps?⟩ state

/-- With a limit on the stack it is the machine with these limits. -/
theorem limitedSystem_some (loaded : Loaded) (depth : Nat) (maxSteps? : Option Nat) :
    limitedSystem loaded (some depth) maxSteps? = system loaded ⟨depth, maxSteps?⟩ := rfl

section Steps

variable (loaded : Loaded) (maxDepth? : Option Nat) (limit : Nat)

/-- Executing does not look at the limit on the steps. -/
theorem execute_maxSteps (depth : Nat) (maxSteps? other? : Option Nat) (index : Nat) (state : State)
    (instruction : Instruction) :
    execute loaded ⟨depth, maxSteps?⟩ index state instruction =
      execute loaded ⟨depth, other?⟩ index state instruction := by
  cases instruction <;> rfl

/-- With steps left, the limit on them does not matter. -/
theorem limitedSystem_of_steps_lt {state : State} (h : state.steps < limit) :
    limitedSystem loaded maxDepth? (some limit) state = limitedSystem loaded maxDepth? none state := by
  have hleft (depth : Nat) : Limits.exhausted? ⟨depth, some limit⟩ state.steps = none :=
    if_neg (Nat.not_le_of_lt h)
  have hfree (depth : Nat) : Limits.exhausted? ⟨depth, none⟩ state.steps = none := rfl
  simp only [limitedSystem, system, step, hleft, hfree, execute_maxSteps loaded _ (some limit) none]

/-- Without steps left the machine stops where it is if there is an instruction to execute. -/
theorem limitedSystem_of_steps_eq {state : State} {instruction : Instruction}
    (hfetch : loaded.code[state.pc]? = some instruction) (h : state.steps = limit) :
    limitedSystem loaded maxDepth? (some limit) state =
      .stopped (state, .failed (.stepLimit limit)) := by
  have hspent (depth : Nat) : Limits.exhausted? ⟨depth, some limit⟩ state.steps = some limit :=
    if_pos (Nat.le_of_eq h.symm)
  simp only [limitedSystem, system, step, hfetch, hspent]
  rfl

/-- At the end of the code no limit matters. -/
theorem limitedSystem_of_end {state : State} (hfetch : loaded.code[state.pc]? = none)
    (maxSteps? : Option Nat) :
    limitedSystem loaded maxDepth? maxSteps? state = .stopped (state, .completed .normal) := by
  simp only [limitedSystem, system, step, hfetch]
  rfl

/-- A run never counts backwards. -/
theorem steps_le_of_ends {state last : State} {outcome : Outcome}
    (h : (limitedSystem loaded maxDepth? none).Ends state (last, outcome)) :
    state.steps ≤ last.steps := by
  refine System.Ends.of_invariant (fun other => state.steps ≤ other.steps)
    (fun ending => state.steps ≤ ending.1.steps) ?_ ?_ (Nat.le_refl _) h
  · intro other next hle hnext
    have hstep := steps_eq_of_running (system_eq_running_iff.1 hnext)
    omega
  · rintro other ⟨last, outcome⟩ hle hstop
    have hstep := steps_le_step loaded ⟨maxDepth?.getD (other.stack.depth + 1), none⟩ other
    rw [system_eq_stopped_iff.1 hstop] at hstep
    exact Nat.le_trans hle hstep

/-- A run from an instruction counts it. -/
theorem steps_lt_of_ends {state last : State} {outcome : Outcome} {instruction : Instruction}
    (hfetch : loaded.code[state.pc]? = some instruction)
    (h : (limitedSystem loaded maxDepth? none).Ends state (last, outcome)) :
    state.steps < last.steps := by
  have hunlimited : Limits.maxSteps ⟨maxDepth?.getD (state.stack.depth + 1), none⟩ = none := rfl
  have hsteps := steps_eq_of_fetch hunlimited hfetch
  cases hstep : limitedSystem loaded maxDepth? none state with
  | running next =>
      rw [system_eq_running_iff.1 hstep] at hsteps
      have hlt : state.steps < next.steps := Nat.lt_of_succ_le (Nat.le_of_eq hsteps.symm)
      have hends := ((System.Walk.single hstep).ends_iff (last, outcome)).1 h
      exact Nat.lt_of_lt_of_le hlt (steps_le_of_ends loaded maxDepth? hends)
  | stopped ending =>
      obtain rfl := (System.Ends.of_stopped hstep).unique h
      rw [system_eq_stopped_iff.1 hstep] at hsteps
      exact Nat.lt_of_succ_le (Nat.le_of_eq hsteps.symm)

/-- Either the run ends within the limit and the limit does not matter, or it comes to a state with no
step left and stops there.  The induction is on the steps that are left. -/
theorem ends_within_or_at_limit {state : State} {left : Nat} (hleft : state.steps + left = limit) :
    (∃ last outcome, last.steps ≤ limit ∧
      (limitedSystem loaded maxDepth? none).Ends state (last, outcome) ∧
      (limitedSystem loaded maxDepth? (some limit)).Ends state (last, outcome)) ∨
    ∃ last, last.steps = limit ∧
      (limitedSystem loaded maxDepth? none).Walk left state last ∧
      (limitedSystem loaded maxDepth? (some limit)).Ends state (last, .failed (.stepLimit limit)) ∧
      ∀ other outcome, (limitedSystem loaded maxDepth? none).Ends state (other, outcome) →
        limit < other.steps := by
  induction left generalizing state with
  | zero =>
      rw [Nat.add_zero] at hleft
      cases hfetch : loaded.code[state.pc]? with
      | none =>
          have hend := limitedSystem_of_end loaded maxDepth? hfetch
          exact .inl ⟨state, _, Nat.le_of_eq hleft, .of_stopped (hend none), .of_stopped (hend _)⟩
      | some instruction =>
          have hstop := limitedSystem_of_steps_eq loaded maxDepth? limit hfetch hleft
          refine .inr ⟨state, hleft, .refl state, .of_stopped hstop, ?_⟩
          intro other outcome hends
          rw [← hleft]
          exact steps_lt_of_ends loaded maxDepth? hfetch hends
  | succ left ih =>
      have hlt : state.steps < limit := by omega
      have hsame := limitedSystem_of_steps_lt loaded maxDepth? limit hlt
      cases hstep : limitedSystem loaded maxDepth? none state with
      | stopped ending =>
          obtain ⟨last, outcome⟩ := ending
          have hsteps :=
            steps_step_le loaded ⟨maxDepth?.getD (state.stack.depth + 1), none⟩ state
          rw [system_eq_stopped_iff.1 hstep] at hsteps
          have hle : last.steps ≤ limit := Nat.le_trans hsteps (by omega)
          exact .inl ⟨last, outcome, hle, .of_stopped hstep, .of_stopped (hsame.trans hstep)⟩
      | running next =>
          have hnext := steps_eq_of_running (system_eq_running_iff.1 hstep)
          have hfree := System.Walk.single hstep
          have hlimited := System.Walk.single (hsame.trans hstep)
          have hrest : next.steps + left = limit := by omega
          rcases ih hrest with ⟨last, outcome, hle, hends, hother⟩ |
            ⟨last, hlast, hwalk, hother, hlonger⟩
          · exact .inl ⟨last, outcome, hle, (hfree.ends_iff _).2 hends, (hlimited.ends_iff _).2 hother⟩
          · refine .inr ⟨last, hlast, .step hstep hwalk, (hlimited.ends_iff _).2 hother, ?_⟩
            exact fun other outcome hends => hlonger other outcome ((hfree.ends_iff _).1 hends)

end Steps

section Depths

variable (loaded : Loaded) (depth : Nat) (maxSteps? : Option Nat)

/-- Here the next value is one too many for the stack.  The instruction that puts it there without the
limit has done all the rest when the machine fails. -/
structure Overflows (state next : State) : Prop where
  full : depth ≤ state.stack.depth
  next_depth : next.stack.depth = state.stack.depth + 1
  free_eq : limitedSystem loaded none maxSteps? state = .running next
  limited_eq : limitedSystem loaded (some depth) maxSteps? state =
    .stopped ({ next with stack := state.stack }, .failed (.stackOverflow state.pc depth))

/-- The limit on the stack matters only where a value is one too many. -/
theorem limitedSystem_eq_or_overflows (state : State) :
    limitedSystem loaded (some depth) maxSteps? state = limitedSystem loaded none maxSteps? state ∨
      ∃ next, Overflows loaded depth maxSteps? state next := by
  by_cases hfull : depth ≤ state.stack.depth
  · rcases step_sameUnlessFull (Nat.le_succ_of_le hfull) maxSteps? loaded state with
      heq | ⟨-, next, hnext, hfailed, hfree⟩
    · exact .inl (congrArg Progress.next heq)
    · right
      refine ⟨next, hfull, hnext, ?_, ?_⟩
      · exact system_eq_running_iff.2 (hfree (Nat.lt_succ_self _))
      · exact system_eq_stopped_iff.2 hfailed
  · -- There is room under either limit, so it does not matter which of them is the tight one.
    rcases step_sameUnlessFull (Nat.succ_le_of_lt (Nat.lt_of_not_le hfull)) maxSteps? loaded state with
      heq | ⟨hle, -⟩
    · exact .inl (congrArg Progress.next heq.symm)
    · exact absurd hle (Nat.not_succ_le_self _)

/-- Without the limit the stack comes to hold more values than these. -/
def Exceeds (start : State) : Prop :=
  ∃ count state, (limitedSystem loaded none maxSteps?).Walk count start state ∧
    depth < state.stack.depth

/-- As long as the stack stays within the limit, both machines take the same steps. -/
theorem limitedSystem_eq_of_not_exceeds {start : State} (h : ¬Exceeds loaded depth maxSteps? start)
    (count : Nat) (state : State)
    (hwalk : (limitedSystem loaded none maxSteps?).Walk count start state) :
    limitedSystem loaded (some depth) maxSteps? state =
      limitedSystem loaded none maxSteps? state := by
  rcases limitedSystem_eq_or_overflows loaded depth maxSteps? state with heq | ⟨next, hover⟩
  · exact heq
  · refine absurd ⟨count + 1, next, hwalk.trans (.single hover.free_eq), ?_⟩ h
    rw [hover.next_depth]
    exact Nat.lt_succ_of_le hover.full

/-- A walk that exceeds the limit comes to a step that does so, and up to there the limit does not
matter. -/
theorem exists_overflows {count : Nat} {first last : State}
    (hwalk : (limitedSystem loaded none maxSteps?).Walk count first last)
    (hfirst : first.stack.depth ≤ depth) (hlast : depth < last.stack.depth) :
    ∃ stop state next, (limitedSystem loaded none maxSteps?).Walk stop first state ∧
      (∀ earlier ≤ stop, ∀ other, (limitedSystem loaded (some depth) maxSteps?).Walk earlier first other ↔
        (limitedSystem loaded none maxSteps?).Walk earlier first other) ∧
      Overflows loaded depth maxSteps? state next := by
  induction hwalk with
  | refl => exact absurd hlast (Nat.not_lt_of_le hfirst)
  | @step count first second last hstep hrest ih =>
      rcases limitedSystem_eq_or_overflows loaded depth maxSteps? first with heq | ⟨next, hover⟩
      · have hlimited := heq.trans hstep
        have hsecond : second.stack.depth ≤ depth := by
          have hreaches : Reaches loaded ⟨depth, maxSteps?⟩ first second := ⟨1, .single hlimited⟩
          exact hreaches.depth_le hfirst
        obtain ⟨stop, state, next, hto, hsame, hover⟩ := ih hsecond hlast
        refine ⟨stop + 1, state, next, .step hstep hto, ?_, hover⟩
        intro earlier hearlier other
        cases earlier with
        | zero => rw [System.walk_zero_iff, System.walk_zero_iff]
        | succ earlier =>
            rw [System.walk_succ_iff, System.walk_succ_iff, heq]
            refine exists_congr fun next => and_congr_right fun hnext => ?_
            obtain rfl := Next.running.inj (hstep.symm.trans hnext)
            exact hsame earlier (Nat.le_of_succ_le_succ hearlier) other
      · refine ⟨0, first, next, .refl first, ?_, hover⟩
        intro earlier hearlier other
        obtain rfl := Nat.le_zero.1 hearlier
        rw [System.walk_zero_iff, System.walk_zero_iff]

end Depths

/-- **A limit changes nothing until it is exceeded.**  A run that ends within the steps allowed ends just
as it does without the limit on them; any other run is stopped after exactly as many steps, in the state
that it has then.  A stack never holds more values than allowed; a run that never needs more is the run
without the limit, and any other run is that run up to the first instruction that would hold one more,
where it fails. -/
theorem runs_agree_until_limit_exceeded (loaded : Loaded) (input : Input) (sink : Sink) :
    (∀ maxDepth? limit,
      (∀ last outcome, last.steps ≤ limit →
        (limitedSystem loaded maxDepth? none).Ends (.start input sink) (last, outcome) →
        (limitedSystem loaded maxDepth? (some limit)).Ends (.start input sink) (last, outcome)) ∧
      ((∀ last outcome,
          (limitedSystem loaded maxDepth? none).Ends (.start input sink) (last, outcome) →
          limit < last.steps) →
        ∃ state, (limitedSystem loaded maxDepth? none).Walk limit (.start input sink) state ∧
          state.steps = limit ∧
          (limitedSystem loaded maxDepth? (some limit)).Ends (.start input sink)
            (state, .failed (.stepLimit limit)))) ∧
    ∀ depth maxSteps?,
      (∀ state, Reaches loaded ⟨depth, maxSteps?⟩ (.start input sink) state →
        state.stack.depth ≤ depth) ∧
      (∀ last outcome, Ends loaded ⟨depth, maxSteps?⟩ (.start input sink) (last, outcome) →
        last.stack.depth ≤ depth) ∧
      (¬Exceeds loaded depth maxSteps? (.start input sink) →
        (∀ count state,
          (system loaded ⟨depth, maxSteps?⟩).Walk count (.start input sink) state ↔
            (limitedSystem loaded none maxSteps?).Walk count (.start input sink) state) ∧
        ∀ ending, Ends loaded ⟨depth, maxSteps?⟩ (.start input sink) ending ↔
          (limitedSystem loaded none maxSteps?).Ends (.start input sink) ending) ∧
      (Exceeds loaded depth maxSteps? (.start input sink) →
        ∃ stop state next,
          (∀ earlier ≤ stop, ∀ other,
            (system loaded ⟨depth, maxSteps?⟩).Walk earlier (.start input sink) other ↔
              (limitedSystem loaded none maxSteps?).Walk earlier (.start input sink) other) ∧
          (limitedSystem loaded none maxSteps?).Walk stop (.start input sink) state ∧
          limitedSystem loaded none maxSteps? state = .running next ∧
          state.stack.depth = depth ∧ next.stack.depth = depth + 1 ∧
          Ends loaded ⟨depth, maxSteps?⟩ (.start input sink)
            ({ next with stack := state.stack }, .failed (.stackOverflow state.pc depth))) := by
  have hempty (depth : Nat) : (State.start input sink).stack.depth ≤ depth := Nat.zero_le depth
  refine ⟨fun maxDepth? limit => ?_, fun depth maxSteps? => ⟨?_, ?_, ?_, ?_⟩⟩
  · have hstart : (State.start input sink).steps + limit = limit := Nat.zero_add limit
    have hcases := ends_within_or_at_limit loaded maxDepth? limit hstart
    refine ⟨?_, ?_⟩
    · intro last outcome hle hends
      rcases hcases with ⟨other, another, -, hother, hlimited⟩ | ⟨state, -, -, -, hlonger⟩
      · cases hother.unique hends
        exact hlimited
      · exact absurd (hlonger last outcome hends) (Nat.not_lt_of_le hle)
    · intro hlonger
      rcases hcases with ⟨last, outcome, hle, hends, -⟩ | ⟨state, hsteps, hwalk, hstop, -⟩
      · exact absurd (hlonger last outcome hends) (Nat.not_lt_of_le hle)
      · exact ⟨state, hwalk, hsteps, hstop⟩
  · exact fun state h => h.depth_le (hempty depth)
  · exact fun last outcome h => h.depth_le (hempty depth)
  · intro hwithin
    have hagree := limitedSystem_eq_of_not_exceeds loaded depth maxSteps? hwithin
    refine ⟨System.walk_iff_of_agree hagree, fun ending => ?_⟩
    rw [ends_iff, ← limitedSystem_some]
    exact System.ends_iff_of_agree hagree ending
  · rintro ⟨count, last, hwalk, hlast⟩
    obtain ⟨stop, state, next, hto, hsame, hover⟩ :=
      exists_overflows loaded depth maxSteps? hwalk (hempty depth) hlast
    have hreaches := (hsame stop (Nat.le_refl stop) state).2 hto
    have hstops : Reaches loaded ⟨depth, maxSteps?⟩ (.start input sink) state := ⟨stop, hreaches⟩
    have hfull : state.stack.depth = depth :=
      Nat.le_antisymm (hstops.depth_le (hempty depth)) hover.full
    refine ⟨stop, state, next, hsame, hto, hover.free_eq, hfull, ?_, ?_⟩
    · rw [hover.next_depth, hfull]
    · rw [ends_iff, ← limitedSystem_some]
      exact (hreaches.ends_iff _).2 (.of_stopped hover.limited_eq)

/-- A run that ends with the last step allowed has not come up against the limit. -/
example (input : Input) (sink : Sink) :
    run ⟨#[.label "a"], .empty⟩ ⟨0, some 1⟩ 2 (.start input sink) =
      some ({ State.start input sink with pc := 1, steps := 1 }, .completed .normal) := rfl

end StackPipeline.Machine
