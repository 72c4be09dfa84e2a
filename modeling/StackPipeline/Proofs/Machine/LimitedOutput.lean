import StackPipeline.Proofs.Machine.Channels

/-!
An output that holds only so many bytes: the run goes as over one without limit until the step that
writes the byte too many, and stops there with the bytes up to it.

A step over the limited output does what the step over the other one does, as long as what is written
goes in.  If it does not, the step stops before it does anything else, and the output holds the first
bytes of what the other step has written by then.
-/

namespace StackPipeline.Machine

open Bytecode (Instruction)

/-- The same bytes in an output that holds so many. -/
def Sink.withRoom (room : Nat) (sink : Sink) : Sink :=
  { sink with limit := some room }

def State.withRoom (room : Nat) (state : State) : State :=
  state.mapChannels id (Sink.withRoom room)

def Session.withRoom (room : Nat) (session : Session) : Session :=
  { session with state := session.state.withRoom room }

def State.written (state : State) : ByteArray := state.sink.bytes

/-- The machine comes to this state, or stops in it. -/
def Visits (loaded : Loaded) (limits : Limits) (start state : State) : Prop :=
  Reaches loaded limits start state ∨ ∃ outcome, Ends loaded limits start (state, outcome)

/-- A run, whether it ends or not, never has more than so many bytes written. -/
def WritesAtMost (loaded : Loaded) (limits : Limits) (start : State) (room : Nat) : Prop :=
  ∀ state, Visits loaded limits start state → state.written.size ≤ room

/-- What an instruction leaves that would write more than there is room for.  Over an output without
limit it leads from `before` to `free`.  Where the output is full it has written the first bytes of what
it writes there, and it has neither read nor stored anything. -/
structure CutShort (room : Nat) (before free cut : State) : Prop where
  overfull : room < free.written.size
  sink_eq : cut.sink = ⟨free.written.extract 0 room, some room⟩
  pc_eq : cut.pc = before.pc
  steps_eq : cut.steps = before.steps
  store_eq : cut.store = before.store
  diagnostics_eq : cut.diagnostics = before.diagnostics
  input_eq : cut.input = before.input

/-- The second progress is the first over an output that holds so many bytes, or it is a failure because
the first has more bytes written. -/
def Progress.SameUnlessOverfull (room : Nat) (before : State) (free limited : Progress) : Prop :=
  free.state.written.size ≤ room ∧ limited = free.mapChannels id (Sink.withRoom room) ∨
  ∃ cut, CutShort room before free.state cut ∧ limited = cut.fail (.system .outputFull)

section Write

variable (room : Nat) (text : String)

theorem Sink.write_of_limit_eq_none {sink : Sink} (hfree : sink.limit = none) :
    sink.write text = ⟨sink.bytes ++ text.toUTF8, none⟩ := by
  rw [Sink.write, hfree]

theorem write_of_limit_eq_none {state : State} (hfree : state.sink.limit = none) :
    state.write text =
      .running { state with sink := ⟨state.written ++ text.toUTF8, none⟩ } := by
  have hroom : state.sink.hasRoom text.utf8ByteSize = true := by rw [Sink.hasRoom, hfree]
  rw [State.write, if_pos hroom, Sink.write_of_limit_eq_none text hfree]
  rfl

/-- A text goes in as a whole, or up to where the output is full. -/
theorem write_sameUnlessOverfull (state : State) (hfree : state.sink.limit = none) :
    Progress.SameUnlessOverfull room state (state.write text)
      ((state.withRoom room).write text) := by
  have hsize : (state.written ++ text.toUTF8).size = state.written.size + text.utf8ByteSize :=
    ByteArray.size_append
  have hlimited : (state.withRoom room).sink.write text =
      ⟨if (state.written ++ text.toUTF8).size ≤ room then state.written ++ text.toUTF8
        else (state.written ++ text.toUTF8).extract 0 room, some room⟩ := rfl
  have hroom : (state.withRoom room).sink.hasRoom text.utf8ByteSize =
      decide ((state.written ++ text.toUTF8).size ≤ room) := by
    rw [hsize]
    rfl
  rw [write_of_limit_eq_none text hfree]
  by_cases hfits : (state.written ++ text.toUTF8).size ≤ room
  · refine .inl ⟨hfits, ?_⟩
    rw [State.write, hroom, decide_eq_true hfits, hlimited, if_pos hfits]
    rfl
  · refine .inr ⟨{ state with sink := _ }, ⟨Nat.lt_of_not_le hfits, rfl, rfl, rfl, rfl, rfl, rfl⟩, ?_⟩
    rw [State.write, hroom, decide_eq_false hfits, hlimited, if_neg hfits]
    rfl

end Write

section Read

variable {limits : Limits}

/-- What a read does when its prompt is written. -/
def State.receive (limits : Limits) (index : Nat) (state : State) : Progress :=
  match state.input.takeLine with
  | (.closed, _) => state.fail (.inputClosed index)
  | (.failed error, input) => { state with input }.fail (.system error)
  | (.line text, input) => { state with input }.push limits index (.ofLine text)

theorem receive_mapChannels (g : Sink → Sink) (index : Nat) (state : State) :
    (state.mapChannels id g).receive limits index =
      (state.receive limits index).mapChannels id g := by
  simp only [State.receive, State.mapChannels, id]
  split
  · rfl
  · rfl
  · rename_i text input htake
    exact push_mapChannels id g { state with input } index (.ofLine text)

theorem sink_receive (index : Nat) (state : State) :
    (state.receive limits index).state.sink = state.sink := by
  -- It does the same where the output is replaced by itself.
  have hsame : state.receive limits index =
      (state.receive limits index).mapChannels id fun _ => state.sink :=
    receive_mapChannels (fun _ => state.sink) index state
  rw [hsame]
  cases state.receive limits index <;> rfl

theorem readLine_of_write {index : Nat} {prompt : String} {state asking : State}
    (h : state.write prompt = .running asking) :
    state.readLine limits index prompt = asking.receive limits index := by
  rw [State.readLine, h]
  rfl

theorem readLine_of_full {index : Nat} {prompt : String} {state cut : State} {fault : Fault}
    (h : state.write prompt = cut.fail fault) :
    state.readLine limits index prompt = cut.fail fault := by
  rw [State.readLine, h]
  rfl

end Read

section Step

variable {loaded : Loaded} {limits : Limits} {room : Nat} {state : State}

/-- A read writes its prompt first, and what it does then leaves the output as it is. -/
theorem readLine_sameUnlessOverfull (index : Nat) (prompt : String)
    (hfree : state.sink.limit = none) :
    Progress.SameUnlessOverfull room state (state.readLine limits index prompt)
      ((state.withRoom room).readLine limits index prompt) := by
  have hwrite := write_of_limit_eq_none prompt hfree
  rw [readLine_of_write hwrite]
  rcases write_sameUnlessOverfull room prompt state hfree with ⟨hfits, hsame⟩ | ⟨cut, hcut, hfull⟩
  · rw [hwrite] at hfits hsame
    refine .inl ⟨?_, ?_⟩
    · rw [State.written, sink_receive]
      exact hfits
    · rw [readLine_of_write hsame]
      exact receive_mapChannels (Sink.withRoom room) index _
  · rw [hwrite] at hcut
    refine .inr ⟨cut, { hcut with overfull := ?_, sink_eq := ?_ }, readLine_of_full hfull⟩
    · rw [State.written, sink_receive]
      exact hcut.overfull
    · rw [State.written, sink_receive]
      exact hcut.sink_eq

theorem execute_sameUnlessOverfull (state : State) (index : Nat) (instruction : Instruction)
    (hfree : state.sink.limit = none) (hfits : state.written.size ≤ room) :
    Progress.SameUnlessOverfull room state (execute loaded limits index state instruction)
      (execute loaded limits index (state.withRoom room) instruction) := by
  cases hchannels : instruction.usesChannels with
  | false =>
      refine .inl ⟨?_, execute_mapChannels id (Sink.withRoom room) state index hchannels⟩
      rw [State.written, sink_execute state index hchannels]
      exact hfits
  | true =>
      cases instruction with
      | printText text => exact write_sameUnlessOverfull room (text ++ "\n") state hfree
      | read prompt => exact readLine_sameUnlessOverfull index prompt hfree
      | printTop =>
          have hpop : (state.withRoom room).stack.pop? = state.stack.pop? := rfl
          simp only [execute, hpop]
          split
          · exact .inl ⟨hfits, rfl⟩
          · rename_i value rest hvalue
            -- What is cut short differs from the state before in its stack too.
            rcases write_sameUnlessOverfull room (value.render ++ "\n") { state with stack := rest }
              hfree with hsame | ⟨cut, hcut, hfull⟩
            · exact .inl hsame
            · exact .inr ⟨cut, { hcut with }, hfull⟩
      | _ => cases hchannels

/-- A step over the limited output is the same as over the other one, unless that one writes too
much. -/
theorem step_sameUnlessOverfull (loaded : Loaded) (limits : Limits) (hfree : state.sink.limit = none)
    (hfits : state.written.size ≤ room) :
    Progress.SameUnlessOverfull room { state with pc := state.pc + 1, steps := state.steps + 1 }
      (step loaded limits state) (step loaded limits (state.withRoom room)) := by
  have hfetch : loaded.code[(state.withRoom room).pc]? = loaded.code[state.pc]? := rfl
  have hsteps : (state.withRoom room).steps = state.steps := rfl
  simp only [step, hfetch, hsteps]
  split
  · exact .inl ⟨hfits, rfl⟩
  · split
    · exact .inl ⟨hfits, rfl⟩
    · exact execute_sameUnlessOverfull { state with pc := _, steps := _ } _ _ hfree hfits

end Step

/-- The output has no limit, and what was written is followed by what has been written since. -/
def State.Appends (before after : State) : Prop :=
  ∃ more, after.sink = ⟨before.written ++ more, none⟩

section Appends

variable {loaded : Loaded} {limits : Limits} {first second third : State}

theorem State.Appends.of_sink_eq (hfree : first.sink.limit = none)
    (h : second.sink = first.sink) : first.Appends second := by
  refine ⟨.empty, ?_⟩
  rw [h, ByteArray.append_empty, State.written, ← hfree]

theorem State.Appends.limit_eq (h : first.Appends second) : second.sink.limit = none := by
  obtain ⟨more, hsink⟩ := h
  rw [hsink]

theorem State.Appends.trans (h : first.Appends second) (hnext : second.Appends third) :
    first.Appends third := by
  obtain ⟨more, hsink⟩ := h
  obtain ⟨rest, hthird⟩ := hnext
  refine ⟨more ++ rest, ?_⟩
  rw [hthird, State.written, hsink, ByteArray.append_assoc]

theorem State.Appends.size_le (h : first.Appends second) :
    first.written.size ≤ second.written.size := by
  obtain ⟨more, hsink⟩ := h
  rw [State.written, State.written, hsink, ByteArray.size_append]
  exact Nat.le_add_right _ _

/-- The first bytes stay the first ones. -/
theorem State.Appends.extract_eq (h : first.Appends second) {room : Nat}
    (hroom : room ≤ first.written.size) :
    second.written.extract 0 room = first.written.extract 0 room := by
  obtain ⟨more, hsink⟩ := h
  have hwritten : second.written = first.written ++ more := by rw [State.written, hsink]
  rw [hwritten, ByteArray.extract_append]
  simp [hroom]

theorem appends_write (state : State) (text : String) (hfree : state.sink.limit = none) :
    state.Appends (state.write text).state := by
  rw [write_of_limit_eq_none text hfree]
  exact ⟨text.toUTF8, rfl⟩

theorem appends_execute (state : State) (index : Nat) (instruction : Instruction)
    (hfree : state.sink.limit = none) :
    state.Appends (execute loaded limits index state instruction).state := by
  cases hchannels : instruction.usesChannels with
  | false => exact .of_sink_eq hfree (sink_execute state index hchannels)
  | true =>
      cases instruction with
      | printText text => exact appends_write state (text ++ "\n") hfree
      | read prompt =>
          have hwrite := write_of_limit_eq_none prompt hfree
          rw [execute, readLine_of_write hwrite]
          exact ⟨prompt.toUTF8, sink_receive index _⟩
      | printTop =>
          simp only [execute]
          split
          · exact .of_sink_eq hfree rfl
          · rename_i value rest hpop
            exact appends_write { state with stack := rest } (value.render ++ "\n") hfree
      | _ => cases hchannels

/-- A step over an output without limit loses nothing that was written. -/
theorem appends_step (loaded : Loaded) (limits : Limits) {state : State}
    (hfree : state.sink.limit = none) : state.Appends (step loaded limits state).state := by
  rw [step]
  split
  · exact .of_sink_eq hfree rfl
  · split
    · exact .of_sink_eq hfree rfl
    · exact appends_execute { state with pc := _, steps := _ } _ _ hfree

theorem appends_walk {count : Nat} (hfree : first.sink.limit = none)
    (h : (system loaded limits).Walk count first second) : first.Appends second := by
  have hstep (state : State) (hstate : first.Appends state) :
      first.Appends (step loaded limits state).state :=
    hstate.trans (appends_step loaded limits hstate.limit_eq)
  exact Reaches.keeps_state hstep ⟨count, h⟩ (.of_sink_eq hfree rfl)

end Appends

section Runs

variable {loaded : Loaded} {limits : Limits} {room : Nat} {start state : State}

theorem step_withRoom (hfree : state.sink.limit = none)
    (hfits : (step loaded limits state).state.written.size ≤ room) :
    step loaded limits (state.withRoom room) =
      (step loaded limits state).mapChannels id (Sink.withRoom room) := by
  have hbefore := Nat.le_trans (appends_step loaded limits hfree).size_le hfits
  rcases step_sameUnlessOverfull loaded limits hfree hbefore with ⟨-, hsame⟩ | ⟨cut, hcut, -⟩
  · exact hsame
  · exact absurd hfits (Nat.not_le_of_lt hcut.overfull)

/-- A walk over which all goes in. -/
theorem walk_withRoom {count : Nat} {first last : State} (hfree : first.sink.limit = none)
    (h : (system loaded limits).Walk count first last) (hfits : last.written.size ≤ room) :
    (system loaded limits).Walk count (first.withRoom room) (last.withRoom room) := by
  induction h with
  | refl => exact .refl _
  | @step _ before next _ hstep hrest ih =>
      have hrunning := system_eq_running_iff.1 hstep
      have hnext := appends_step loaded limits hfree
      rw [hrunning] at hnext
      have hsame : step loaded limits (before.withRoom room) = .running (next.withRoom room) := by
        have hroom := Nat.le_trans (appends_walk hnext.limit_eq hrest).size_le hfits
        rw [step_withRoom hfree (hrunning ▸ hroom), hrunning]
        rfl
      exact .step (system_eq_running_iff.2 hsame) (ih hnext.limit_eq hfits)

/-- The states of a run, apart from the first, are those that its steps lead to. -/
theorem visits_iff :
    Visits loaded limits start state ↔ start = state ∨
      ∃ before, Reaches loaded limits start before ∧
        (step loaded limits before).state = state := by
  constructor
  · rintro (⟨count, hwalk⟩ | ⟨outcome, hends⟩)
    · rcases hwalk.eq_or_exists_last with rfl | ⟨fewer, before, hbefore, hlast⟩
      · exact .inl rfl
      · exact .inr ⟨before, ⟨fewer, hbefore⟩, by rw [system_eq_running_iff.1 hlast]; rfl⟩
    · obtain ⟨before, hreaches, hstop⟩ := hends.exists_reaches
      exact .inr ⟨before, hreaches, by rw [hstop]; rfl⟩
  · rintro (rfl | ⟨before, ⟨count, hwalk⟩, rfl⟩)
    · exact .inl ⟨0, .refl _⟩
    · cases hstep : step loaded limits before with
      | running next =>
          exact .inl ⟨count + 1, hwalk.trans (.single (system_eq_running_iff.2 hstep))⟩
      | stopped last outcome =>
          refine .inr ⟨outcome, (ends_iff ..).2 ((hwalk.ends_iff _).2 ?_)⟩
          exact .of_stopped (system_eq_stopped_iff.2 hstep)

/-- What comes after a step comes in the run that takes it. -/
theorem Visits.of_step {next last : State} (hstep : step loaded limits state = .running next)
    (h : Visits loaded limits next last) : Visits loaded limits state last := by
  have hwalk := System.Walk.single (system_eq_running_iff.2 hstep)
  rcases h with ⟨count, hrest⟩ | ⟨outcome, hends⟩
  · exact .inl ⟨_, hwalk.trans hrest⟩
  · exact .inr ⟨outcome, (ends_iff ..).2 ((hwalk.ends_iff _).2 ((ends_iff ..).1 hends))⟩

/-- By induction on the fuel: if all that a run writes goes in, it is the same run. -/
theorem run_withRoom (hfree : state.sink.limit = none)
    (hfits : WritesAtMost loaded limits state room) (fuel : Nat) :
    run loaded limits fuel (state.withRoom room) =
      (run loaded limits fuel state).map fun (last, outcome) => (last.withRoom room, outcome) := by
  induction fuel generalizing state with
  | zero => rfl
  | succ fuel ih =>
      have hvisits : Visits loaded limits state (step loaded limits state).state :=
        visits_iff.2 (.inr ⟨state, ⟨0, .refl _⟩, rfl⟩)
      have happends := appends_step loaded limits hfree
      rw [run, run, step_withRoom hfree (hfits _ hvisits)]
      cases hstep : step loaded limits state with
      | stopped last outcome => rfl
      | running next =>
          rw [hstep] at happends
          exact ih happends.limit_eq fun last hlast => hfits last (hlast.of_step hstep)

/-- By induction on the walk: on the way to a state with too much written, a step writes it. -/
theorem exists_overfull_step_of_walk {count : Nat} {last : State}
    (hwalk : (system loaded limits).Walk count start last) (hstart : start.written.size ≤ room)
    (hover : room < last.written.size) :
    ∃ before, Reaches loaded limits start before ∧ before.written.size ≤ room ∧
      room < (step loaded limits before).state.written.size := by
  induction hwalk with
  | refl => exact absurd hstart (Nat.not_le_of_lt hover)
  | @step _ first next _ hstep _ ih =>
      by_cases hnext : next.written.size ≤ room
      · obtain ⟨before, ⟨fewer, hbefore⟩, hfits, hfull⟩ := ih hnext hover
        exact ⟨before, ⟨_, .step hstep hbefore⟩, hfits, hfull⟩
      · refine ⟨first, ⟨0, .refl _⟩, hstart, ?_⟩
        rw [system_eq_running_iff.1 hstep]
        exact Nat.lt_of_not_le hnext

/-- A run that writes too much comes to a step that does. -/
theorem exists_overfull_step (hstart : start.written.size ≤ room)
    (h : ¬WritesAtMost loaded limits start room) :
    ∃ before, Reaches loaded limits start before ∧ before.written.size ≤ room ∧
      room < (step loaded limits before).state.written.size := by
  obtain ⟨state, hvisits, hover⟩ : ∃ state, Visits loaded limits start state ∧
      room < state.written.size := by
    simpa [WritesAtMost] using h
  rcases visits_iff.1 hvisits with rfl | ⟨before, ⟨count, hwalk⟩, rfl⟩
  · exact absurd hstart (Nat.not_le_of_lt hover)
  · by_cases hbefore : before.written.size ≤ room
    · exact ⟨before, ⟨count, hwalk⟩, hbefore, hover⟩
    · exact exists_overfull_step_of_walk hwalk hstart (Nat.lt_of_not_le hbefore)

/-- Wherever a run has too much written, the step that writes it first has been taken, and the first
bytes are those that were written by then. -/
theorem extract_written_eq {before : State} (hfree : start.sink.limit = none)
    (hreaches : Reaches loaded limits start before) (hfits : before.written.size ≤ room)
    (hfull : room < (step loaded limits before).state.written.size)
    (hvisits : Visits loaded limits start state) (hover : room < state.written.size) :
    state.written.extract 0 room =
      (step loaded limits before).state.written.extract 0 room := by
  have hroom := Nat.le_of_lt hfull
  obtain ⟨count, hwalk⟩ := hreaches
  rcases visits_iff.1 hvisits with rfl | ⟨other, ⟨more, hother⟩, rfl⟩
  · exact absurd (appends_walk hfree hwalk).size_le (by omega)
  have hbefore := (appends_walk hfree hwalk).limit_eq
  have hlast := appends_step loaded limits (appends_walk hfree hother).limit_eq
  have hafter := appends_step loaded limits hbefore
  rcases hwalk.or_walk hother with ⟨_ | later, hrest⟩ | ⟨_ | later, hrest⟩
  · rw [System.walk_zero_iff.1 hrest]
  · -- The other step comes later.
    obtain ⟨next, hnext, hrest⟩ := System.walk_succ_iff.1 hrest
    rw [system_eq_running_iff.1 hnext] at hafter hroom ⊢
    exact ((appends_walk hafter.limit_eq hrest).trans hlast).extract_eq hroom
  · rw [System.walk_zero_iff.1 hrest]
  · -- It comes earlier, and what it writes goes in.
    obtain ⟨next, hnext, hrest⟩ := System.walk_succ_iff.1 hrest
    rw [system_eq_running_iff.1 hnext] at hlast hover
    exact absurd (appends_walk hlast.limit_eq hrest).size_le
      (Nat.not_le_of_lt (Nat.lt_of_le_of_lt hfits hover))

/-- A fresh machine runs from the start over whatever output it is given. -/
theorem run_start (input : Input) (fuel : Nat) (sink : Sink) :
    (Session.start loaded limits input).run fuel sink =
      (run loaded limits fuel (.start input sink)).map
        fun (last, outcome) => (⟨loaded, limits, outcome.status, last⟩, outcome) := by
  have hready : (Session.start loaded limits input).status = .ready := rfl
  have hinput : { (Session.start loaded limits input).state with sink } = State.start input sink := rfl
  have hloaded : (Session.start loaded limits input).loaded = loaded := rfl
  have hlimits : (Session.start loaded limits input).limits = limits := rfl
  rw [Session.run, if_pos hready, hinput, hloaded, hlimits]
  cases run loaded limits fuel (.start input sink) <;> rfl

/-- **A full output loses nothing and invents nothing.**  If all that a run writes over an output without
limit goes into one that holds so many bytes, then over this one it is the same run, with the same result
and state.  If not, some step of the run is the first that writes too much.  The run over the limited
output comes to this step too, and fails in it: it counts as many steps, has read and stored nothing in
it, and the output holds exactly the first bytes of whatever the other run writes.  The machine has
failed, and it refuses to run again. -/
theorem run_limited_output (loaded : Loaded) (limits : Limits) (input : Input) (room : Nat) :
    (WritesAtMost loaded limits (.start input .unlimited) room → ∀ fuel,
      (Session.start loaded limits input).run fuel (.limited room) =
        ((Session.start loaded limits input).run fuel .unlimited).map
          fun (session, outcome) => (session.withRoom room, outcome)) ∧
    (¬WritesAtMost loaded limits (.start input .unlimited) room →
      ∃ count before cut,
        (system loaded limits).Walk count (.start input .unlimited) before ∧
        (system loaded limits).Walk count (.start input (.limited room)) (before.withRoom room) ∧
        before.written.size ≤ room ∧
        CutShort room { before with pc := before.pc + 1, steps := before.steps + 1 }
          (step loaded limits before).state cut ∧
        cut.steps = (step loaded limits before).state.steps ∧
        cut.written.size = room ∧
        (∀ state, Visits loaded limits (.start input .unlimited) state →
          room < state.written.size → state.written.extract 0 room = cut.written) ∧
        (∀ fuel, count < fuel →
          (Session.start loaded limits input).run fuel (.limited room) =
            some (⟨loaded, limits, .failed, cut⟩, .failed (.system .outputFull))) ∧
        ∀ fuel sink, Session.run ⟨loaded, limits, .failed, cut⟩ fuel sink =
          some (⟨loaded, limits, .failed, { cut with sink }⟩, .failed (.notReady .failed))) := by
  have hfree : (State.start input .unlimited).sink.limit = none := rfl
  have hstart : (State.start input .unlimited).withRoom room = .start input (.limited room) := rfl
  refine ⟨fun hfits fuel => ?_, fun hover => ?_⟩
  · rw [run_start, run_start, ← hstart, run_withRoom hfree hfits, Option.map_map, Option.map_map]
    rfl
  · obtain ⟨before, ⟨count, hwalk⟩, hfits, hfull⟩ := exists_overfull_step (Nat.zero_le room) hover
    have hbefore := (appends_walk hfree hwalk).limit_eq
    have hlimited := walk_withRoom hfree hwalk hfits
    rw [hstart] at hlimited
    obtain ⟨cut, hcut, hstop⟩ := (step_sameUnlessOverfull loaded limits hbefore hfits).resolve_left
      fun hsame => Nat.not_lt.2 hsame.1 hfull
    have hwritten : cut.written = (step loaded limits before).state.written.extract 0 room := by
      rw [State.written, hcut.sink_eq]
    refine ⟨count, before, cut, hwalk, hlimited, hfits, hcut, ?_, ?_, ?_, fun fuel hfuel => ?_,
      fun fuel sink => rfl⟩
    · rcases step_cases loaded limits before with ⟨outcome, heq⟩ | heffect
      · rw [heq] at hfull
        exact absurd hfits (Nat.not_le_of_lt hfull)
      · rw [hcut.steps_eq, heffect.steps_eq]
    · rw [hwritten, ByteArray.size_extract]
      omega
    · intro state hvisits hstate
      rw [hwritten]
      exact extract_written_eq hfree ⟨count, hwalk⟩ hfits hfull hvisits hstate
    · obtain ⟨rest, rfl⟩ := Nat.exists_eq_add_of_lt hfuel
      rw [run_start, run_eq_run_system, Nat.add_assoc, hlimited.run_eq,
        System.run_succ_of_stopped (system_eq_stopped_iff.2 hstop)]
      rfl

/-- A text goes in and its line feed does not: the text is kept and the print has failed. -/
example : ((Session.start ⟨#[.printText "ab"], .empty⟩ ⟨0, none⟩ (.ofBytes [])).run 1 (.limited 2)).map
    (fun (session, outcome) => (session.state.written, session.state.steps, outcome)) =
      some ("ab".toUTF8, 1, .failed (.system .outputFull)) := by
  decide +kernel

end Runs

end StackPipeline.Machine
