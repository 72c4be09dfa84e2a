import StackPipeline.Machine.Load

/-!
Which code can be loaded: the code in which every label stands once and every jump names a label.
The table of loaded code has the index of every label and nothing else.
-/

namespace StackPipeline

namespace Bytecode

def Instruction.label? : Instruction → Option String
  | .label name => some name
  | _ => none

def labels (code : Bytecode) : List String :=
  code.filterMap Instruction.label?

/-- No label stands twice, and every jump goes to a label of the code. -/
structure WellLabelled (code : Bytecode) : Prop where
  nodup : (labels code).Nodup
  defined : ∀ instruction ∈ code, ∀ name, instruction.target? = some name → name ∈ labels code

theorem Instruction.label?_eq_some_iff {instruction : Instruction} {name : String} :
    instruction.label? = some name ↔ instruction = .label name := by
  cases instruction <;> simp [label?]

theorem mem_labels_iff {code : Bytecode} {name : String} :
    name ∈ labels code ↔ Instruction.label name ∈ code := by
  simp [labels, Instruction.label?_eq_some_iff]

theorem labels_cons_label (name : String) (rest : Bytecode) :
    labels (.label name :: rest) = name :: labels rest :=
  List.filterMap_cons_some rfl

theorem labels_cons_of_label?_eq_none {instruction : Instruction}
    (h : instruction.label? = none) (rest : Bytecode) :
    labels (instruction :: rest) = labels rest :=
  List.filterMap_cons_none h

end Bytecode

namespace Machine

open Bytecode (Instruction)

/-- An instruction that is no label is passed over. -/
theorem enterLabels_cons_of_label?_eq_none {instruction : Instruction}
    (h : instruction.label? = none) (start : Nat) (rest : Bytecode) (table : Store Nat) :
    enterLabels start (instruction :: rest) table = enterLabels (start + 1) rest table := by
  cases instruction <;> first | rfl | cases h

theorem enterLabels_isOk_iff (start : Nat) (code : Bytecode) (table : Store Nat) :
    (∃ entered, enterLabels start code table = .ok entered) ↔
      (Bytecode.labels code).Nodup ∧ ∀ name ∈ Bytecode.labels code, table.get? name = none := by
  induction code generalizing start table with
  | nil => simp [enterLabels, Bytecode.labels]
  | cons instruction rest ih =>
      cases hlabel : instruction.label? with
      | none =>
          rw [enterLabels_cons_of_label?_eq_none hlabel, ih,
            Bytecode.labels_cons_of_label?_eq_none hlabel]
      | some name =>
          rw [Bytecode.Instruction.label?_eq_some_iff] at hlabel
          subst hlabel
          rw [Bytecode.labels_cons_label, List.nodup_cons, enterLabels]
          cases hfound : table.get? name with
          | some first => simp [hfound]
          | none =>
              simp only [ih, Store.get?_set, List.mem_cons, forall_eq_or_imp, hfound, true_and]
              constructor
              · rintro ⟨hnodup, hfree⟩
                refine ⟨⟨?_, hnodup⟩, ?_⟩
                · intro hmem
                  simpa using hfree name hmem
                · intro other hother
                  have hfreeOther := hfree other hother
                  split at hfreeOther
                  · cases hfreeOther
                  · exact hfreeOther
              · rintro ⟨⟨hnot, hnodup⟩, hfree⟩
                refine ⟨hnodup, ?_⟩
                intro other hother
                have hne : name ≠ other := by
                  rintro rfl
                  exact hnot hother
                rw [if_neg hne]
                exact hfree other hother

/-- The entered table has what it had before and the labels of the code. -/
theorem get?_enterLabels {start : Nat} {code : Bytecode} {table entered : Store Nat}
    (h : enterLabels start code table = .ok entered) (name : String) (index : Nat) :
    entered.get? name = some index ↔
      table.get? name = some index ∨
        ∃ offset, code[offset]? = some (.label name) ∧ index = start + offset := by
  induction code generalizing start table with
  | nil =>
      simp only [enterLabels, Except.ok.injEq] at h
      simp [h]
  | cons instruction rest ih =>
      -- An index in the longer code is the front or an index in the rest.
      have hshift : (∃ offset, (instruction :: rest)[offset]? = some (.label name) ∧
            index = start + offset) ↔
          (instruction = .label name ∧ index = start) ∨
            ∃ offset, rest[offset]? = some (.label name) ∧ index = start + 1 + offset := by
        constructor
        · rintro ⟨offset, hoffset, rfl⟩
          cases offset with
          | zero => exact .inl ⟨Option.some.inj hoffset, rfl⟩
          | succ offset => exact .inr ⟨offset, hoffset, by omega⟩
        · rintro (⟨rfl, rfl⟩ | ⟨offset, hoffset, rfl⟩)
          · exact ⟨0, rfl, rfl⟩
          · exact ⟨offset + 1, hoffset, by omega⟩
      rw [hshift]
      cases hlabel : instruction.label? with
      | none =>
          rw [enterLabels_cons_of_label?_eq_none hlabel] at h
          have hno : instruction ≠ .label name := by
            rintro rfl
            cases hlabel
          simp only [ih h, hno, false_and, false_or]
      | some other =>
          rw [Bytecode.Instruction.label?_eq_some_iff] at hlabel
          subst hlabel
          rw [enterLabels] at h
          cases hfound : table.get? other with
          | some first => simp [hfound] at h
          | none =>
              simp only [hfound] at h
              rw [ih h, Store.get?_set]
              by_cases hname : other = name
              · subst hname
                simp [hfound, eq_comm]
              · simp [hname]

theorem firstDangling?_eq_none_iff (labels : Store Nat) (start : Nat) (code : Bytecode) :
    firstDangling? labels start code = none ↔
      ∀ instruction ∈ code, ∀ name, instruction.target? = some name →
        (labels.get? name).isSome := by
  induction code generalizing start with
  | nil => simp [firstDangling?]
  | cons instruction rest ih =>
      rw [firstDangling?, List.forall_mem_cons]
      cases htarget : instruction.target? with
      | none => simp [ih]
      | some name => cases hfound : labels.get? name <;> simp [hfound, ih]

/-- What loading gives. -/
theorem load_eq_ok_iff {code : Bytecode} {loaded : Loaded} :
    load code = .ok loaded ↔
      enterLabels 0 code .empty = .ok loaded.labels ∧
        firstDangling? loaded.labels 0 code = none ∧ loaded.code = code.toArray := by
  rw [load]
  cases hlabels : enterLabels 0 code .empty with
  | error problem => simp
  | ok labels =>
      cases loaded with
      | mk array table =>
          cases hdangling : firstDangling? labels 0 code with
          | none =>
              simp only [hdangling, Except.ok.injEq, Loaded.mk.injEq]
              constructor
              · rintro ⟨rfl, rfl⟩
                exact ⟨rfl, hdangling, rfl⟩
              · rintro ⟨rfl, _, rfl⟩
                exact ⟨rfl, rfl⟩
          | some problem =>
              simp only [hdangling, reduceCtorEq, Except.ok.injEq, false_iff, not_and]
              rintro rfl hnone
              simp [hdangling] at hnone

theorem code_of_load {code : Bytecode} {loaded : Loaded} (h : load code = .ok loaded) :
    loaded.code = code.toArray :=
  (load_eq_ok_iff.1 h).2.2

/-- Loaded code knows the indices of its labels. -/
theorem labels_of_load {code : Bytecode} {loaded : Loaded} (h : load code = .ok loaded)
    (name : String) (index : Nat) :
    loaded.labels.get? name = some index ↔ code[index]? = some (.label name) := by
  rw [get?_enterLabels (load_eq_ok_iff.1 h).1]
  simp

/-- Code can be loaded exactly if no label stands twice and every jump goes to a label. -/
theorem load_isOk_iff (code : Bytecode) :
    (∃ loaded, load code = .ok loaded) ↔ Bytecode.WellLabelled code := by
  constructor
  · rintro ⟨loaded, h⟩
    obtain ⟨hlabels, hdangling, _⟩ := load_eq_ok_iff.1 h
    refine ⟨((enterLabels_isOk_iff 0 code .empty).1 ⟨_, hlabels⟩).1, ?_⟩
    intro instruction hmem name htarget
    have hsome := (firstDangling?_eq_none_iff _ 0 code).1 hdangling instruction hmem name htarget
    obtain ⟨index, hindex⟩ := Option.isSome_iff_exists.1 hsome
    rw [labels_of_load h] at hindex
    exact Bytecode.mem_labels_iff.2 (List.mem_of_getElem? hindex)
  · intro hwell
    obtain ⟨labels, hlabels⟩ :=
      (enterLabels_isOk_iff 0 code .empty).2 ⟨hwell.nodup, fun _ _ => rfl⟩
    refine ⟨⟨code.toArray, labels⟩, load_eq_ok_iff.2 ⟨hlabels, ?_, rfl⟩⟩
    rw [firstDangling?_eq_none_iff]
    intro instruction hmem name htarget
    obtain ⟨index, hindex⟩ :=
      List.mem_iff_getElem?.1 (Bytecode.mem_labels_iff.1 (hwell.defined _ hmem _ htarget))
    rw [(get?_enterLabels hlabels name index).2 (.inr ⟨index, hindex, by omega⟩)]
    rfl

end Machine

end StackPipeline
