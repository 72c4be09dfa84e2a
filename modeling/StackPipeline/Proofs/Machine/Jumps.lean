import StackPipeline.Pipeline.Execution
import StackPipeline.Proofs.Machine.Effects
import StackPipeline.Proofs.Machine.Loading
import StackPipeline.Proofs.Placement

/-!
Loading refuses code for its first defect and for no other reason, and loaded code jumps to its labels.

A label that stands twice comes before a jump without a label, wherever the two are.  At a jump the
machine looks its label up and goes on behind the jump if it is not found; that it is always found, at
the one index where the label stands, is due to loading alone.
-/

namespace StackPipeline.Machine

open Bytecode (Instruction)

/-- Before an index no label stands twice. -/
def UniqueBefore (code : Bytecode) (stop : Nat) : Prop :=
  ∀ first second name, first < second → second < stop → code[first]? = some (.label name) →
    code[second]? ≠ some (.label name)

/-- Here a label stands for the second time, and none does so earlier. -/
structure FirstRepeat (code : Bytecode) (name : String) (index first : Nat) : Prop where
  second_eq : code[index]? = some (.label name)
  first_eq : code[first]? = some (.label name)
  lt : first < index
  unique : UniqueBefore code index

/-- Here is a jump to a label that stands nowhere, and none is earlier. -/
structure FirstDangling (code : Bytecode) (name : String) (index : Nat) (instruction : Instruction) :
    Prop where
  fetch_eq : code[index]? = some instruction
  target_eq : instruction.target? = some name
  missing : Instruction.label name ∉ code
  earlier : ∀ place < index, ∀ other, code[place]? = some other →
    ∀ label, other.target? = some label → Instruction.label label ∈ code

/-- The one index at which a label stands. -/
structure StandsOnlyAt (code : Bytecode) (label : String) (target : Nat) : Prop where
  fetch_eq : code[target]? = some (.label label)
  eq : ∀ other, code[other]? = some (.label label) → other = target

section Loading

variable {code : Bytecode}

theorem nodup_labels_take_iff (stop : Nat) :
    (Bytecode.labels (code.take stop)).Nodup ↔ UniqueBefore code stop := by
  constructor
  · intro h first second name hlt hstop hfirst hsecond
    have hboth : ∀ index < stop, code[index]? = some (.label name) →
        (code.take stop)[index]? = some (.label name) := by
      intro index hindex heq
      rwa [List.getElem?_take_of_lt hindex]
    have heq := index_unique_of_nodup h (hboth first (Nat.lt_trans hlt hstop) hfirst)
      (hboth second hstop hsecond) rfl rfl
    exact Nat.ne_of_lt hlt heq
  · intro h
    rw [Bytecode.labels, List.Nodup, List.pairwise_filterMap, List.pairwise_iff_getElem]
    rintro first second hfirst hsecond hlt name hname other hother rfl
    rw [Bytecode.Instruction.label?_eq_some_iff, List.getElem_take] at hname hother
    rw [List.length_take] at hfirst hsecond
    refine h first second name hlt (by omega) ?_ ?_
    · rw [List.getElem?_eq_getElem (by omega), hname]
    · rw [List.getElem?_eq_getElem (by omega), hother]

theorem nodup_labels_iff : (Bytecode.labels code).Nodup ↔ UniqueBefore code code.length := by
  rw [← nodup_labels_take_iff, List.take_length]

/-- Somewhere a label stands that has been entered by then, and that is the problem. -/
def MeetsRepeat (start : Nat) (code : Bytecode) (table : Store Nat) (problem : LoadError) : Prop :=
  ∃ offset name first entered, code[offset]? = some (.label name) ∧
    enterLabels start (code.take offset) table = .ok entered ∧ entered.get? name = some first ∧
    problem = .duplicateLabel name (start + offset) first

/-- Behind an instruction that is passed over, or that is a new label, it is the rest that counts. -/
theorem meetsRepeat_cons_iff {start : Nat} {instruction : Instruction} {rest : Bytecode}
    {table next : Store Nat} {problem : LoadError}
    (hnext : ∀ rest, enterLabels start (instruction :: rest) table =
      enterLabels (start + 1) rest next)
    (hnew : ∀ name, instruction = .label name → table.get? name = none) :
    MeetsRepeat start (instruction :: rest) table problem ↔
      MeetsRepeat (start + 1) rest next problem := by
  constructor
  · rintro ⟨offset, name, first, entered, hname, hentered, hfirst, rfl⟩
    cases offset with
    | zero =>
        cases hentered
        cases (hnew name (Option.some.inj hname)).symm.trans hfirst
    | succ offset =>
        rw [List.take_succ_cons, hnext] at hentered
        refine ⟨offset, name, first, entered, hname, hentered, hfirst, ?_⟩
        rw [Nat.add_right_comm, Nat.add_assoc]
  · rintro ⟨offset, name, first, entered, hname, hentered, hfirst, rfl⟩
    refine ⟨offset + 1, name, first, entered, hname, ?_, hfirst, ?_⟩
    · rw [List.take_succ_cons, hnext, hentered]
    · rw [Nat.add_right_comm, Nat.add_assoc]

/-- Entering stops at a label that has been entered before. -/
theorem enterLabels_eq_error_iff {start : Nat} {table : Store Nat} {problem : LoadError} :
    enterLabels start code table = .error problem ↔ MeetsRepeat start code table problem := by
  induction code generalizing start table with
  | nil => simp [enterLabels, MeetsRepeat]
  | cons instruction rest ih =>
      cases hlabel : instruction.label? with
      | none =>
          rw [meetsRepeat_cons_iff (enterLabels_cons_of_label?_eq_none hlabel start · table), ← ih,
            enterLabels_cons_of_label?_eq_none hlabel]
          rintro name rfl
          cases hlabel
      | some label =>
          rw [Bytecode.Instruction.label?_eq_some_iff] at hlabel
          subst hlabel
          cases hfound : table.get? label with
          | none =>
              have hnext (rest : Bytecode) : enterLabels start (.label label :: rest) table =
                  enterLabels (start + 1) rest (table.set label start) := by
                simp only [enterLabels, hfound]
              rw [meetsRepeat_cons_iff hnext, ← ih, hnext]
              rintro name heq
              cases heq
              exact hfound
          | some earlier =>
              have hstop (rest : Bytecode) : enterLabels start (.label label :: rest) table =
                  .error (.duplicateLabel label start earlier) := by
                simp only [enterLabels, hfound]
              rw [hstop, Except.error.injEq]
              constructor
              · rintro rfl
                exact ⟨0, label, earlier, table, rfl, rfl, hfound, rfl⟩
              · rintro ⟨offset, name, first, entered, hname, hentered, hfirst, rfl⟩
                cases offset with
                | zero =>
                    cases hname
                    cases hentered
                    obtain rfl := Option.some.inj (hfound.symm.trans hfirst)
                    rfl
                | succ offset =>
                    rw [List.take_succ_cons, hstop] at hentered
                    cases hentered

/-- Entering the labels of code stops at the first one that stands twice. -/
theorem enterLabels_eq_duplicateLabel_iff {name : String} {index first : Nat} :
    enterLabels 0 code .empty = .error (.duplicateLabel name index first) ↔
      FirstRepeat code name index first := by
  have htable {stop : Nat} {entered : Store Nat} (name : String) (first : Nat)
      (h : enterLabels 0 (code.take stop) .empty = .ok entered) :
      entered.get? name = some first ↔ first < stop ∧ code[first]? = some (.label name) := by
    rw [get?_enterLabels h]
    simp [List.getElem?_take]
  rw [enterLabels_eq_error_iff]
  constructor
  · rintro ⟨offset, name, first, entered, hname, hentered, hfirst, heq⟩
    rw [Nat.zero_add] at heq
    cases heq
    obtain ⟨hlt, hfirst⟩ := (htable name first hentered).1 hfirst
    have hnodup := ((enterLabels_isOk_iff 0 _ .empty).1 ⟨entered, hentered⟩).1
    exact ⟨hname, hfirst, hlt, (nodup_labels_take_iff _).1 hnodup⟩
  · rintro ⟨hname, hfirst, hlt, hunique⟩
    obtain ⟨entered, hentered⟩ := (enterLabels_isOk_iff 0 (code.take index) .empty).2
      ⟨(nodup_labels_take_iff index).2 hunique, fun _ _ => rfl⟩
    exact ⟨index, name, first, entered, hname, hentered, (htable name first hentered).2 ⟨hlt, hfirst⟩,
      by rw [Nat.zero_add]⟩

/-- Somewhere is a jump to a label that is not in the table, all jumps before it go to labels that are,
and that is the problem. -/
def MeetsDangling (labels : Store Nat) (start : Nat) (code : Bytecode) (problem : LoadError) : Prop :=
  ∃ offset instruction name, code[offset]? = some instruction ∧ instruction.target? = some name ∧
    labels.get? name = none ∧ problem = .undefinedLabel name (start + offset) instruction ∧
    ∀ place < offset, ∀ other, code[place]? = some other →
      ∀ label, other.target? = some label → (labels.get? label).isSome

theorem meetsDangling_cons_iff {labels : Store Nat} {start : Nat} {instruction : Instruction}
    {rest : Bytecode} {problem : LoadError}
    (hdefined : ∀ label, instruction.target? = some label → (labels.get? label).isSome) :
    MeetsDangling labels start (instruction :: rest) problem ↔
      MeetsDangling labels (start + 1) rest problem := by
  constructor
  · rintro ⟨offset, found, name, hfound, htarget, hmissing, rfl, hearlier⟩
    cases offset with
    | zero =>
        obtain rfl := Option.some.inj hfound
        have hsome := hdefined name htarget
        rw [hmissing] at hsome
        cases hsome
    | succ offset =>
        refine ⟨offset, found, name, hfound, htarget, hmissing, ?_, ?_⟩
        · rw [Nat.add_right_comm, Nat.add_assoc]
        · exact fun place hlt => hearlier (place + 1) (Nat.succ_lt_succ hlt)
  · rintro ⟨offset, found, name, hfound, htarget, hmissing, rfl, hearlier⟩
    refine ⟨offset + 1, found, name, hfound, htarget, hmissing, ?_, ?_⟩
    · rw [Nat.add_right_comm, Nat.add_assoc]
    · intro place hlt other hother
      cases place with
      | zero =>
          obtain rfl := Option.some.inj hother
          exact hdefined
      | succ place => exact hearlier place (Nat.lt_of_succ_lt_succ hlt) other hother

/-- Looking for a jump without a label stops at the first one. -/
theorem firstDangling?_eq_some_iff {labels : Store Nat} {start : Nat} {problem : LoadError} :
    firstDangling? labels start code = some problem ↔ MeetsDangling labels start code problem := by
  induction code generalizing start with
  | nil => simp [firstDangling?, MeetsDangling]
  | cons instruction rest ih =>
      rw [firstDangling?]
      cases htarget : instruction.target? with
      | none =>
          rw [meetsDangling_cons_iff (by simp [htarget]), ← ih]
      | some name =>
          cases hfound : labels.get? name with
          | some index =>
              simp only [hfound]
              rw [meetsDangling_cons_iff (by simp [htarget, hfound]), ← ih]
          | none =>
              simp only [hfound, Option.some.injEq]
              constructor
              · rintro rfl
                refine ⟨0, instruction, name, rfl, htarget, hfound, rfl, ?_⟩
                exact fun place hlt => absurd hlt (Nat.not_lt_zero place)
              · rintro ⟨offset, other, label, hother, hlabel, hmissing, rfl, hearlier⟩
                cases offset with
                | zero =>
                    cases hother
                    cases htarget.symm.trans hlabel
                    rfl
                | succ offset =>
                    have hsome := hearlier 0 (Nat.succ_pos offset) instruction rfl name htarget
                    rw [hfound] at hsome
                    cases hsome

/-- The table of all labels has those that stand in the code. -/
theorem isSome_get?_iff {labels : Store Nat} (h : enterLabels 0 code .empty = .ok labels)
    (name : String) : (labels.get? name).isSome ↔ Instruction.label name ∈ code := by
  simp only [Option.isSome_iff_exists, get?_enterLabels h, List.mem_iff_getElem?]
  simp

theorem load_eq_duplicateLabel_iff {name : String} {index first : Nat} :
    load code = .error (.duplicateLabel name index first) ↔ FirstRepeat code name index first := by
  rw [← enterLabels_eq_duplicateLabel_iff, load]
  cases hlabels : enterLabels 0 code .empty with
  | error problem => simp
  | ok labels =>
      cases hdangling : firstDangling? labels 0 code with
      | none => simp [hdangling]
      | some problem =>
          obtain ⟨_, _, _, -, -, -, rfl, -⟩ := firstDangling?_eq_some_iff.1 hdangling
          simp [hdangling]

theorem load_eq_undefinedLabel_iff {name : String} {index : Nat} {instruction : Instruction} :
    load code = .error (.undefinedLabel name index instruction) ↔
      UniqueBefore code code.length ∧ FirstDangling code name index instruction := by
  rw [load, ← nodup_labels_iff]
  cases hlabels : enterLabels 0 code .empty with
  | error problem =>
      have hnot : ¬(Bytecode.labels code).Nodup := by
        intro hnodup
        obtain ⟨labels, hok⟩ := (enterLabels_isOk_iff 0 code .empty).2 ⟨hnodup, fun _ _ => rfl⟩
        cases hlabels.symm.trans hok
      obtain ⟨_, _, _, _, -, -, -, rfl⟩ := enterLabels_eq_error_iff.1 hlabels
      simp [hnot]
  | ok labels =>
      have hnodup := ((enterLabels_isOk_iff 0 code .empty).1 ⟨labels, hlabels⟩).1
      have hdangling : firstDangling? labels 0 code =
          some (.undefinedLabel name index instruction) ↔
            FirstDangling code name index instruction := by
        rw [firstDangling?_eq_some_iff]
        constructor
        · rintro ⟨offset, found, label, hfound, htarget, hmissing, heq, hearlier⟩
          rw [Nat.zero_add] at heq
          cases heq
          refine ⟨hfound, htarget, ?_, ?_⟩
          · rw [← isSome_get?_iff hlabels, hmissing]
            exact Bool.false_ne_true
          · intro place hlt other hother label hlabel
            exact (isSome_get?_iff hlabels label).1 (hearlier place hlt other hother label hlabel)
        · rintro ⟨hfound, htarget, hmissing, hearlier⟩
          refine ⟨index, instruction, name, hfound, htarget, ?_, by rw [Nat.zero_add], ?_⟩
          · rwa [← isSome_get?_iff hlabels, Option.not_isSome_iff_eq_none] at hmissing
          · intro place hlt other hother label hlabel
            exact (isSome_get?_iff hlabels label).2 (hearlier place hlt other hother label hlabel)
      rw [and_iff_right hnodup, ← hdangling]
      dsimp only
      cases firstDangling? labels 0 code <;> simp

end Loading

section Jumps

variable {code : Bytecode} {loaded : Loaded} (hload : load code = .ok loaded)

include hload

/-- A step stays inside the code or comes to its end. -/
theorem pc_step_le (limits : Limits) {state : State} (hpc : state.pc ≤ code.length) :
    (step loaded limits state).state.pc ≤ code.length := by
  cases hfetch : code[state.pc]? with
  | none =>
      rw [step, code_of_load hload, List.getElem?_toArray, hfetch]
      exact hpc
  | some instruction =>
      rcases step_cases loaded limits state with ⟨outcome, heq⟩ | heffect
      · rw [heq]
        exact hpc
      · rcases heffect.pc_eq with hnext | ⟨label, htarget⟩
        · rw [hnext]
          exact (List.getElem?_eq_some_iff.1 hfetch).1
        · rw [labels_of_load hload] at htarget
          exact Nat.le_of_lt (List.getElem?_eq_some_iff.1 htarget).1

/-- The target of a jump stands at one index, and there the table has it. -/
theorem exists_standsOnlyAt {instruction : Instruction} {index : Nat} {label : String}
    (hfetch : code[index]? = some instruction) (htarget : instruction.target? = some label) :
    ∃ target, StandsOnlyAt code label target ∧ loaded.labels.get? label = some target := by
  have hwell := (load_isOk_iff code).1 ⟨loaded, hload⟩
  have hmem := hwell.defined instruction (List.mem_of_getElem? hfetch) label htarget
  obtain ⟨target, hstands⟩ := List.mem_iff_getElem?.1 (Bytecode.mem_labels_iff.1 hmem)
  refine ⟨target, ⟨hstands, ?_⟩, (labels_of_load hload label target).2 hstands⟩
  exact fun other hother => index_unique_of_nodup hwell.nodup hother hstands rfl rfl

/-- A jump that is executed goes on at its label. -/
theorem step_jump {limits : Limits} {state : State} {label : String}
    (hfetch : code[state.pc]? = some (.jump label))
    (hsteps : limits.exhausted? state.steps = none) :
    ∃ target, StandsOnlyAt code label target ∧ step loaded limits state =
      .running { state with pc := target, steps := state.steps + 1 } := by
  obtain ⟨target, hstands, htarget⟩ := exists_standsOnlyAt hload hfetch rfl
  refine ⟨target, hstands, ?_⟩
  rw [step, code_of_load hload, List.getElem?_toArray, hfetch]
  simp only [hsteps, execute, State.jump, htarget]

/-- A conditional jump that takes a number other than zero goes on at its label. -/
theorem step_jumpIfNonzero {limits : Limits} {state : State} {label : String} {x : Float}
    {rest : Stack} (hfetch : code[state.pc]? = some (.jumpIfNonzero label))
    (hsteps : limits.exhausted? state.steps = none)
    (htop : state.stack.pop? = some (.number x, rest)) (hx : (x != 0) = true) :
    ∃ target, StandsOnlyAt code label target ∧ step loaded limits state =
      .running { state with pc := target, steps := state.steps + 1, stack := rest } := by
  obtain ⟨target, hstands, htarget⟩ := exists_standsOnlyAt hload hfetch rfl
  refine ⟨target, hstands, ?_⟩
  rw [step, code_of_load hload, List.getElem?_toArray, hfetch]
  simp only [hsteps, execute, htop, hx, if_true, State.jump, htarget]

end Jumps

/-- **Loading is exact and jumps land.**  Code loads exactly if no label stands twice and every jump has
its label; else the first label that stands twice is reported, with the index where it stood first, or,
if there is none, the first jump without a label, and nothing is run.  Wherever loaded code comes, and
wherever it stops, it is inside the code or at its end, and each jump that is executed goes on at the one
index where its label stands. -/
theorem load_exact_and_jumps_land (code : Bytecode) :
    ((∃ loaded, load code = .ok loaded) ↔ UniqueBefore code code.length ∧
      ∀ instruction ∈ code, ∀ label, instruction.target? = some label →
        Instruction.label label ∈ code) ∧
    (∀ name index first, load code = .error (.duplicateLabel name index first) ↔
      FirstRepeat code name index first) ∧
    (∀ name index instruction, load code = .error (.undefinedLabel name index instruction) ↔
      UniqueBefore code code.length ∧ FirstDangling code name index instruction) ∧
    (∀ problem, load code = .error problem → ∀ fuel limits input sink,
      Pipeline.execute fuel limits code input sink =
        some (.error ((Pipeline.Cause.load problem).during "Failed to load bytecode"), sink)) ∧
    ∀ loaded, load code = .ok loaded → ∀ limits input sink,
      (∀ last outcome, Ends loaded limits (.start input sink) (last, outcome) →
        last.pc ≤ code.length) ∧
      ∀ state, Reaches loaded limits (.start input sink) state →
        state.pc ≤ code.length ∧
        (limits.exhausted? state.steps = none → ∀ label,
          (code[state.pc]? = some (.jump label) →
            ∃ target, StandsOnlyAt code label target ∧ step loaded limits state =
              .running { state with pc := target, steps := state.steps + 1 }) ∧
          (code[state.pc]? = some (.jumpIfNonzero label) → ∀ x rest,
            state.stack.pop? = some (.number x, rest) → (x != 0) = true →
            ∃ target, StandsOnlyAt code label target ∧ step loaded limits state =
              .running { state with pc := target, steps := state.steps + 1, stack := rest })) := by
  refine ⟨?_, fun _ _ _ => load_eq_duplicateLabel_iff, fun _ _ _ => load_eq_undefinedLabel_iff,
    ?_, ?_⟩
  · rw [load_isOk_iff]
    constructor
    · rintro ⟨hnodup, hdefined⟩
      refine ⟨nodup_labels_iff.1 hnodup, ?_⟩
      intro instruction hmem label htarget
      exact Bytecode.mem_labels_iff.1 (hdefined instruction hmem label htarget)
    · rintro ⟨hunique, hdefined⟩
      refine ⟨nodup_labels_iff.2 hunique, ?_⟩
      intro instruction hmem label htarget
      exact Bytecode.mem_labels_iff.2 (hdefined instruction hmem label htarget)
  · intro problem hproblem fuel limits input sink
    rw [Pipeline.execute, Pipeline.loadCode, hproblem]
  · intro loaded hload limits input sink
    have hkept (state : State) (hpc : state.pc ≤ code.length) :=
      pc_step_le hload limits hpc
    refine ⟨fun last outcome hends => hends.keeps_state hkept (Nat.zero_le _), ?_⟩
    intro state hreaches
    refine ⟨hreaches.keeps_state hkept (Nat.zero_le _), ?_⟩
    intro hsteps label
    refine ⟨fun hfetch => step_jump hload hfetch hsteps, ?_⟩
    intro hfetch x rest htop hx
    exact step_jumpIfNonzero hload hfetch hsteps htop hx

/-- A label that stands twice is reported even where a jump without a label is earlier. -/
example : load [.jump "b", .label "a", .printTop, .label "a"] =
    .error (.duplicateLabel "a" 3 1) := rfl

end StackPipeline.Machine
