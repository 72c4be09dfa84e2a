/-!
Systems that go step by step: what it means that one ends, and when another one ends the same way.

A simulation answers each step of one system by some steps of another.  It may answer with none at
all, but then a rank goes down, so that the first system cannot go on forever while the second stands
still.
-/

namespace StackPipeline

/-- What one step leads to. -/
inductive Next (σ ε : Type)
  | running (state : σ)
  | stopped (ending : ε)

/-- A system is what each of its states does next. -/
abbrev System (σ ε : Type) := σ → Next σ ε

namespace System

variable {σ τ ε ζ : Type}

/-- Go on until the system stops, at most `fuel` times. -/
def run (system : System σ ε) : Nat → σ → Option ε
  | 0, _ => none
  | fuel + 1, state =>
      match system state with
      | .running next => run system fuel next
      | .stopped ending => some ending

/-- The system stops with this ending, however long it takes. -/
def Ends (system : System σ ε) (state : σ) (ending : ε) : Prop :=
  ∃ fuel, system.run fuel state = some ending

/-- So many steps lead from one state to the other. -/
inductive Walk (system : System σ ε) : Nat → σ → σ → Prop
  | refl (state : σ) : Walk system 0 state state
  | step {count : Nat} {state next last : σ} :
      system state = .running next → Walk system count next last →
        Walk system (count + 1) state last

variable {system : System σ ε}

theorem Walk.single {state next : σ} (h : system state = .running next) :
    system.Walk 1 state next :=
  .step h (.refl next)

theorem Walk.trans {m n : Nat} {first middle last : σ}
    (hfirst : system.Walk m first middle) (hlast : system.Walk n middle last) :
    system.Walk (m + n) first last := by
  induction hfirst with
  | refl => simpa using hlast
  | step hstep _ ih =>
      rw [Nat.add_right_comm]
      exact .step hstep (ih hlast)

theorem run_succ_of_running {state next : σ} (h : system state = .running next) (fuel : Nat) :
    system.run (fuel + 1) state = system.run fuel next := by
  rw [run, h]

theorem run_succ_of_stopped {state : σ} {ending : ε} (h : system state = .stopped ending)
    (fuel : Nat) : system.run (fuel + 1) state = some ending := by
  rw [run, h]

/-- A walk of so many steps uses up so much fuel. -/
theorem Walk.run_eq {count : Nat} {state last : σ} (h : system.Walk count state last)
    (fuel : Nat) : system.run (count + fuel) state = system.run fuel last := by
  induction h with
  | refl => simp
  | step hstep _ ih => rw [Nat.add_right_comm, run_succ_of_running hstep, ih]

theorem run_mono {fuel : Nat} {state : σ} {ending : ε}
    (h : system.run fuel state = some ending) (more : Nat) :
    system.run (fuel + more) state = some ending := by
  induction fuel generalizing state with
  | zero => simp [run] at h
  | succ fuel ih =>
      rw [Nat.add_right_comm]
      cases hstep : system state with
      | running next =>
          rw [run_succ_of_running hstep] at h ⊢
          exact ih h
      | stopped other =>
          rw [run_succ_of_stopped hstep] at h ⊢
          exact h

/-- A system ends in one way only. -/
theorem Ends.unique {state : σ} {ending other : ε}
    (h : system.Ends state ending) (hother : system.Ends state other) : ending = other := by
  obtain ⟨fuel, hfuel⟩ := h
  obtain ⟨more, hmore⟩ := hother
  have hleft := run_mono hfuel more
  have hright := run_mono hmore fuel
  rw [Nat.add_comm] at hright
  exact Option.some.inj (hleft.symm.trans hright)

theorem Ends.of_stopped {state : σ} {ending : ε} (h : system state = .stopped ending) :
    system.Ends state ending :=
  ⟨1, run_succ_of_stopped h 0⟩

/-- A walk keeps the ending. -/
theorem Walk.ends_iff {count : Nat} {state last : σ} (h : system.Walk count state last)
    (ending : ε) : system.Ends state ending ↔ system.Ends last ending := by
  constructor
  · rintro ⟨fuel, hfuel⟩
    refine ⟨fuel, ?_⟩
    rw [← h.run_eq fuel, Nat.add_comm]
    exact run_mono hfuel count
  · rintro ⟨fuel, hfuel⟩
    exact ⟨count + fuel, (h.run_eq fuel).trans hfuel⟩

/-- A system that ends takes no walk longer than the fuel that suffices. -/
theorem Walk.lt_of_run {count fuel : Nat} {state last : σ} {ending : ε}
    (h : system.Walk count state last) (hrun : system.run fuel state = some ending) :
    count < fuel := by
  apply Nat.lt_of_not_le
  intro hle
  obtain ⟨rest, rfl⟩ := Nat.exists_eq_add_of_le hle
  have hlong := run_mono hrun rest
  have hend := h.run_eq 0
  rw [Nat.add_zero] at hend
  rw [hend] at hlong
  simp [run] at hlong

/-- What every step keeps holds all along a walk. -/
theorem Walk.keeps {kept : σ → Prop}
    (hrunning : ∀ state next, kept state → system state = .running next → kept next)
    {count : Nat} {first last : σ} (h : system.Walk count first last) (hfirst : kept first) :
    kept last := by
  induction h with
  | refl => exact hfirst
  | step hstep _ ih => exact ih (hrunning _ _ hfirst hstep)

/-- A system that ends walks to a state in which it stops. -/
theorem Ends.exists_walk {state : σ} {ending : ε} (h : system.Ends state ending) :
    ∃ count last, system.Walk count state last ∧ system last = .stopped ending := by
  obtain ⟨fuel, hfuel⟩ := h
  induction fuel generalizing state with
  | zero => simp [run] at hfuel
  | succ fuel ih =>
      cases hstep : system state with
      | running next =>
          rw [run_succ_of_running hstep] at hfuel
          obtain ⟨count, last, hwalk, hstop⟩ := ih hfuel
          exact ⟨count + 1, last, .step hstep hwalk, hstop⟩
      | stopped other =>
          rw [run_succ_of_stopped hstep] at hfuel
          obtain rfl : other = ending := Option.some.inj hfuel
          exact ⟨0, state, .refl state, hstep⟩

/-- What every step keeps holds until the end. -/
theorem Ends.of_invariant (kept : σ → Prop) (result : ε → Prop)
    (hrunning : ∀ state next, kept state → system state = .running next → kept next)
    (hstopped : ∀ state ending, kept state → system state = .stopped ending → result ending)
    {state : σ} {ending : ε} (hstart : kept state) (h : system.Ends state ending) :
    result ending := by
  obtain ⟨count, last, hwalk, hstop⟩ := h.exists_walk
  exact hstopped last ending (hwalk.keeps hrunning hstart) hstop

theorem walk_zero_iff {first last : σ} : system.Walk 0 first last ↔ first = last := by
  constructor
  · intro h
    cases h
    rfl
  · rintro rfl
    exact .refl first

/-- A walk of more than no step begins with the step that the system takes. -/
theorem walk_succ_iff {count : Nat} {first last : σ} :
    system.Walk (count + 1) first last ↔
      ∃ next, system first = .running next ∧ system.Walk count next last := by
  constructor
  · rintro (_ | ⟨hstep, hrest⟩)
    exact ⟨_, hstep, hrest⟩
  · rintro ⟨next, hstep, hrest⟩
    exact .step hstep hrest

/-- A walk of more than no step ends with a step from a state it comes to. -/
theorem Walk.eq_or_exists_last {count : Nat} {first last : σ} (h : system.Walk count first last) :
    first = last ∨
      ∃ fewer before, system.Walk fewer first before ∧ system before = .running last := by
  induction h with
  | refl => exact .inl rfl
  | step hstep _ ih =>
      rcases ih with rfl | ⟨fewer, before, hwalk, hlast⟩
      · exact .inr ⟨0, _, .refl _, hstep⟩
      · exact .inr ⟨fewer + 1, before, .step hstep hwalk, hlast⟩

/-- Of two states that a system walks to, one is on the way to the other. -/
theorem Walk.or_walk {m n : Nat} {first left right : σ} (hleft : system.Walk m first left)
    (hright : system.Walk n first right) :
    (∃ count, system.Walk count left right) ∨ ∃ count, system.Walk count right left := by
  induction hleft generalizing n with
  | refl => exact .inl ⟨n, hright⟩
  | step hstep hrest ih =>
      cases hright with
      | refl => exact .inr ⟨_, .step hstep hrest⟩
      | step hother hfurther =>
          cases hstep.symm.trans hother
          exact ih hfurther

/-- Where one system walks, a system that does the same there walks too, and only there. -/
theorem walk_iff_of_agree {other : System σ ε} {first : σ}
    (hagree : ∀ count state, system.Walk count first state → other state = system state)
    (count : Nat) (last : σ) : other.Walk count first last ↔ system.Walk count first last := by
  induction count generalizing first with
  | zero => rw [walk_zero_iff, walk_zero_iff]
  | succ count ih =>
      rw [walk_succ_iff, walk_succ_iff, hagree 0 first (.refl first)]
      refine exists_congr fun next => and_congr_right fun hstep => ?_
      exact ih fun more state hwalk => hagree (more + 1) state (.step hstep hwalk)

/-- A system that does the same wherever another one walks ends the same way. -/
theorem ends_iff_of_agree {other : System σ ε} {first : σ}
    (hagree : ∀ count state, system.Walk count first state → other state = system state)
    (ending : ε) : other.Ends first ending ↔ system.Ends first ending := by
  constructor
  · intro h
    obtain ⟨count, last, hwalk, hstop⟩ := h.exists_walk
    have hother := (walk_iff_of_agree hagree count last).1 hwalk
    rw [hagree count last hother] at hstop
    exact (hother.ends_iff ending).2 (.of_stopped hstop)
  · intro h
    obtain ⟨count, last, hwalk, hstop⟩ := h.exists_walk
    have hother := (walk_iff_of_agree hagree count last).2 hwalk
    exact (hother.ends_iff ending).2 (.of_stopped ((hagree count last hwalk).trans hstop))

/-- Each step of `left` is answered by steps of `right`, and whenever `left` stops the state of
`right` is a good one for that ending. -/
structure Simulation (left : System σ ε) (right : System τ ζ) (related : σ → τ → Prop)
    (good : ε → τ → Prop) (rank : σ → Nat) : Prop where
  advance : ∀ {a next : σ} {b : τ}, related a b → left a = .running next →
    ∃ count after, right.Walk count b after ∧ related next after ∧
      (count = 0 → rank next < rank a)
  finish : ∀ {a : σ} {b : τ} {ending : ε}, related a b → left a = .stopped ending →
    good ending b

section Simulation

variable {left : System σ ε} {right : System τ ζ} {related : σ → τ → Prop}
  {good : ε → τ → Prop} {rank : σ → Nat}

/-- A walk of `left` is answered by a walk of `right`. -/
theorem Simulation.walk (h : Simulation left right related good rank) {count : Nat} {a last : σ}
    {b : τ} (hrelated : related a b) (hwalk : left.Walk count a last) :
    ∃ steps after, right.Walk steps b after ∧ related last after := by
  induction hwalk generalizing b with
  | refl => exact ⟨0, b, .refl b, hrelated⟩
  | step hstep _ ih =>
      obtain ⟨steps, middle, hfirst, hnext, _⟩ := h.advance hrelated hstep
      obtain ⟨more, after, hrest, hlast⟩ := ih hnext
      exact ⟨steps + more, after, hfirst.trans hrest, hlast⟩

/-- If `left` ends then `right` comes to a good state. -/
theorem Simulation.forward (h : Simulation left right related good rank) {a : σ} {b : τ}
    (hrelated : related a b) {ending : ε} (hends : left.Ends a ending) :
    ∃ count after, right.Walk count b after ∧ good ending after := by
  obtain ⟨fuel, hfuel⟩ := hends
  induction fuel generalizing a b with
  | zero => simp [run] at hfuel
  | succ fuel ih =>
      cases hstep : left a with
      | stopped other =>
          rw [run_succ_of_stopped hstep] at hfuel
          obtain rfl : other = ending := Option.some.inj hfuel
          exact ⟨0, b, .refl b, h.finish hrelated hstep⟩
      | running next =>
          rw [run_succ_of_running hstep] at hfuel
          obtain ⟨count, middle, hwalk, hnext, _⟩ := h.advance hrelated hstep
          obtain ⟨more, after, hmore, hgood⟩ := ih hnext hfuel
          exact ⟨count + more, after, hwalk.trans hmore, hgood⟩

/-- If `right` ends then `left` ends.  The induction is on the steps that `right` has left and, while
`right` stands still, on the rank. -/
theorem Simulation.backward (h : Simulation left right related good rank) {a : σ} {b : τ}
    (hrelated : related a b) {other : ζ} (hends : right.Ends b other) :
    ∃ ending, left.Ends a ending := by
  obtain ⟨fuel, hfuel⟩ := hends
  induction fuel using Nat.strongRecOn generalizing a b with
  | ind fuel ihFuel =>
      induction hrank : rank a using Nat.strongRecOn generalizing a with
      | ind size ihRank =>
          cases hstep : left a with
          | stopped ending => exact ⟨ending, .of_stopped hstep⟩
          | running next =>
              obtain ⟨count, after, hwalk, hnext, hstill⟩ := h.advance hrelated hstep
              have hends : ∃ ending, left.Ends next ending := by
                by_cases hcount : count = 0
                · subst hcount
                  cases hwalk
                  exact ihRank (rank next) (hrank ▸ hstill rfl) hnext rfl
                · have hlt := hwalk.lt_of_run hfuel
                  obtain ⟨rest, rfl⟩ := Nat.exists_eq_add_of_le (Nat.le_of_lt hlt)
                  rw [hwalk.run_eq] at hfuel
                  exact ihFuel rest (by omega) hnext hfuel
              obtain ⟨ending, hending⟩ := hends
              exact ⟨ending, ((Walk.single hstep).ends_iff ending).2 hending⟩

end Simulation

/-- A system that counts what its steps cost. -/
def metered (system : System σ ε) (cost : σ → Nat) : System (σ × Nat) (ε × Nat) :=
  fun (state, spent) =>
    match system state with
    | .running next => .running (next, spent + cost state)
    | .stopped ending => .stopped (ending, spent + cost state)

section metered

variable (cost : σ → Nat) {state : σ}

theorem metered_of_running {next : σ} (h : system state = .running next) (spent : Nat) :
    system.metered cost (state, spent) = .running (next, spent + cost state) := by
  simp only [metered, h]

theorem metered_of_stopped {ending : ε} (h : system state = .stopped ending) (spent : Nat) :
    system.metered cost (state, spent) = .stopped (ending, spent + cost state) := by
  simp only [metered, h]

theorem running_of_metered {spent total : Nat} {next : σ}
    (h : system.metered cost (state, spent) = .running (next, total)) :
    system state = .running next ∧ total = spent + cost state := by
  cases hstep : system state with
  | running other =>
      rw [metered_of_running cost hstep] at h
      cases h
      exact ⟨rfl, rfl⟩
  | stopped ending =>
      rw [metered_of_stopped cost hstep] at h
      cases h

theorem stopped_of_metered {spent total : Nat} {ending : ε}
    (h : system.metered cost (state, spent) = .stopped (ending, total)) :
    system state = .stopped ending ∧ total = spent + cost state := by
  cases hstep : system state with
  | running next =>
      rw [metered_of_running cost hstep] at h
      cases h
  | stopped other =>
      rw [metered_of_stopped cost hstep] at h
      cases h
      exact ⟨rfl, rfl⟩

/-- Counting changes nothing about how a system ends. -/
theorem ends_metered_iff (state : σ) (spent : Nat) (ending : ε) :
    (∃ total, (system.metered cost).Ends (state, spent) (ending, total)) ↔
      system.Ends state ending := by
  constructor
  · rintro ⟨total, fuel, hfuel⟩
    refine ⟨fuel, ?_⟩
    induction fuel generalizing state spent with
    | zero => simp [run] at hfuel
    | succ fuel ih =>
        cases hstep : system state with
        | running next =>
            rw [run_succ_of_running (metered_of_running cost hstep spent)] at hfuel
            rw [run_succ_of_running hstep]
            exact ih next _ hfuel
        | stopped other =>
            rw [run_succ_of_stopped (metered_of_stopped cost hstep spent)] at hfuel
            rw [run_succ_of_stopped hstep]
            simp only [Option.some.injEq, Prod.mk.injEq] at hfuel
            rw [hfuel.1]
  · rintro ⟨fuel, hfuel⟩
    induction fuel generalizing state spent with
    | zero => simp [run] at hfuel
    | succ fuel ih =>
        cases hstep : system state with
        | running next =>
            rw [run_succ_of_running hstep] at hfuel
            obtain ⟨total, hends⟩ := ih next (spent + cost state) hfuel
            have hwalk := Walk.single (metered_of_running cost hstep spent)
            exact ⟨total, (hwalk.ends_iff _).2 hends⟩
        | stopped other =>
            rw [run_succ_of_stopped hstep] at hfuel
            obtain rfl : other = ending := Option.some.inj hfuel
            exact ⟨spent + cost state, .of_stopped (metered_of_stopped cost hstep spent)⟩

end metered

/-- What is noted of the states that the system goes on from, the first of them first. -/
def history {α : Type} (system : System σ ε) (note? : σ → Option α) : Nat → σ → List α
  | 0, _ => []
  | fuel + 1, state =>
      match system state with
      | .running next => (note? state).toList ++ history system note? fuel next
      | .stopped _ => []

section history

variable {α : Type} (note? : σ → Option α) {state : σ}

theorem history_succ_of_running {next : σ} (h : system state = .running next) (fuel : Nat) :
    system.history note? (fuel + 1) state =
      (note? state).toList ++ system.history note? fuel next := by
  rw [history, h]

theorem history_succ_of_stopped {ending : ε} (h : system state = .stopped ending) (fuel : Nat) :
    system.history note? (fuel + 1) state = [] := by
  rw [history, h]

/-- With the fuel that suffices the history is complete. -/
theorem history_mono {fuel : Nat} {ending : ε} (h : system.run fuel state = some ending)
    (more : Nat) : system.history note? (fuel + more) state = system.history note? fuel state := by
  induction fuel generalizing state with
  | zero => simp [run] at h
  | succ fuel ih =>
      rw [Nat.add_right_comm]
      cases hstep : system state with
      | running next =>
          rw [run_succ_of_running hstep] at h
          rw [history_succ_of_running note? hstep, history_succ_of_running note? hstep, ih h]
      | stopped other =>
          rw [history_succ_of_stopped note? hstep, history_succ_of_stopped note? hstep]

end history

end System

end StackPipeline
