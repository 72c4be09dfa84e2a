import StackPipeline.Optimizer.Passes
import StackPipeline.Proofs.Optimizer.Knowledge
import StackPipeline.Proofs.Optimizer.LivenessEquations

/-!
What the optimizer achieves where nothing can be in its way.

In a listing without labels, jumps and reads, in which names are assigned before an assignment reads
them, every assignment can be computed.  Folding then knows at each position all that the variables
hold there, and elimination has to look at the prints and returns below only.
-/

namespace StackPipeline

namespace Listing

/-- The numbers that the variables hold; nothing for one that was never set. -/
abbrev Numbers := String → Option Float

def Operand.numberIn (numbers : Numbers) : Operand → Option Float
  | .number value => some value
  | .name x => numbers x

/-- The number of a source; nothing if an operand has none, or if there would be a line to read. -/
def Source.numberIn (numbers : Numbers) : Source → Option Float
  | .operand value => value.numberIn numbers
  | .operation op left right =>
    match left.numberIn numbers, right.numberIn numbers with
    | some a, some b => some (op.apply a b)
    | _, _ => none
  | .read _ => none

/-- Carry out an instruction if it is an assignment. -/
def Numbers.carryOut (numbers : Numbers) : Instruction → Numbers
  | .assign target source => fun name =>
    if target = name then source.numberIn numbers else numbers name
  | _ => numbers

/-- What the variables hold at a position, when all assignments above it have been carried out in order
and nothing was set before. -/
def numbersAt (listing : Listing) (position : Nat) : Numbers :=
  (listing.take position).foldl Numbers.carryOut fun _ => none

theorem numbersAt_succ {listing : Listing} {position : Nat} {instruction : Instruction}
    (h : listing[position]? = some instruction) :
    numbersAt listing (position + 1) = (numbersAt listing position).carryOut instruction := by
  rw [numbersAt, List.take_add_one, h, Option.toList_some, List.foldl_append]
  rfl

/-- An instruction that computes, shows or does nothing: no label, no jump and no read. -/
def Instruction.IsStraight : Instruction → Prop
  | .assign _ source => source.isRead = false
  | .print _ _ | .ret _ | .comment _ => True
  | _ => False

def Instruction.IsOutput : Instruction → Prop
  | .print _ _ | .ret _ => True
  | _ => False

/-- A listing that can be computed from above: straight, and with each name assigned before an assignment
reads it. -/
structure Computable (listing : Listing) : Prop where
  straight : ∀ instruction ∈ listing, instruction.IsStraight
  closed : ∀ (position : Nat) target source, listing[position]? = some (.assign target source) →
    ∀ name ∈ source.uses, ∃ earlier < position, ∃ other,
      listing[earlier]? = some (.assign name other)

/-- Some print or return below a position reads the name. -/
def ShownBelow (listing : Listing) (position : Nat) (name : String) : Prop :=
  ∃ later, position < later ∧ ∃ instruction, listing[later]? = some instruction ∧
    instruction.IsOutput ∧ name ∈ instruction.uses

/-- A source that reads no line and only names with numbers has a number. -/
theorem Source.exists_numberIn {numbers : Numbers} {source : Source} (hread : source.isRead = false)
    (hset : ∀ name ∈ source.uses, ∃ value, numbers name = some value) :
    ∃ value, source.numberIn numbers = some value := by
  have hoperand (operand : Operand) (h : ∀ name ∈ operand.name?.toList, name ∈ source.uses) :
      ∃ value, operand.numberIn numbers = some value := by
    cases operand with
    | number value => exact ⟨value, rfl⟩
    | name x => exact hset x (h x (by simp [Operand.name?]))
  cases source with
  | operand operand => exact hoperand operand fun _ h => h
  | operation op left right =>
      obtain ⟨a, ha⟩ := hoperand left fun _ h => List.mem_append_left _ h
      obtain ⟨b, hb⟩ := hoperand right fun _ h => List.mem_append_right _ h
      exact ⟨op.apply a b, by simp only [Source.numberIn, ha, hb]⟩
  | read prompt => cases hread

end Listing

namespace Optimizer

open Listing (Operand Source Instruction Numbers Computable ShownBelow numbersAt numbersAt_succ)

section Folding

variable {known : Known} {numbers : Numbers}

theorem substitute_of_numberIn {operand : Operand} {value : Float}
    (hknown : ∀ name, known.get? name = numbers name)
    (h : operand.numberIn numbers = some value) : known.substitute operand = .number value := by
  cases operand with
  | number literal =>
      cases h
      rfl
  | name x =>
      have hx : known.get? x = some value := (hknown x).trans h
      simp only [Known.substitute, hx]

/-- Where everything is known that the variables hold, a source that has a number is folded to it. -/
theorem foldSource_of_numberIn {source : Source} {value : Float}
    (hknown : ∀ name, known.get? name = numbers name)
    (h : source.numberIn numbers = some value) :
    known.foldSource source = .operand (.number value) := by
  cases source with
  | operand operand => rw [Known.foldSource, substitute_of_numberIn hknown h]
  | operation op left right =>
      rw [Source.numberIn] at h
      split at h
      · rename_i a b ha hb
        cases h
        simp only [Known.foldSource, substitute_of_numberIn hknown ha,
          substitute_of_numberIn hknown hb]
      · cases h
  | read prompt => cases h

/-- At a position everything is known that the variables hold, and what was assigned above it holds
something. -/
structure FullyKnown (listing : Listing) (position : Nat) : Prop where
  get?_eq : ∀ name, (knownAt listing position).get? name = numbersAt listing position name
  isSet : ∀ earlier < position, ∀ name source, listing[earlier]? = some (.assign name source) →
    ∃ value, numbersAt listing position name = some value

variable {listing : Listing} {position : Nat}

/-- An assignment whose names are assigned above it is folded to the number it computes. -/
theorem FullyKnown.foldSource_eq (h : FullyKnown listing position) (hcomputable : Computable listing)
    {target : String} {source : Source} (hfetch : listing[position]? = some (.assign target source)) :
    ∃ value, source.numberIn (numbersAt listing position) = some value ∧
      (knownAt listing position).foldSource source = .operand (.number value) := by
  have hstraight := hcomputable.straight _ (List.mem_of_getElem? hfetch)
  have hset : ∀ name ∈ source.uses, ∃ value, numbersAt listing position name = some value := by
    intro name huses
    obtain ⟨earlier, hlt, other, hother⟩ := hcomputable.closed position target source hfetch name huses
    exact h.isSet earlier hlt name other hother
  obtain ⟨value, hvalue⟩ := Source.exists_numberIn hstraight hset
  exact ⟨value, hvalue, foldSource_of_numberIn h.get?_eq hvalue⟩

/-- An instruction that is straight and no assignment changes neither what is known nor what is held. -/
theorem next_of_not_assign {instruction : Instruction} (hstraight : instruction.IsStraight)
    (hassign : ∀ target source, instruction ≠ .assign target source) :
    known.next instruction = known ∧ numbers.carryOut instruction = numbers := by
  cases instruction with
  | assign target source => exact absurd rfl (hassign target source)
  | print text arguments => exact ⟨rfl, rfl⟩
  | ret value => exact ⟨rfl, rfl⟩
  | comment text => exact ⟨rfl, rfl⟩
  | _ => exact absurd hstraight id

theorem fullyKnown_zero (listing : Listing) : FullyKnown listing 0 :=
  ⟨fun _ => rfl, fun earlier hlt => absurd hlt (Nat.not_lt_zero earlier)⟩

theorem FullyKnown.succ (h : FullyKnown listing position) (hcomputable : Computable listing)
    {instruction : Instruction} (hfetch : listing[position]? = some instruction) :
    FullyKnown listing (position + 1) := by
  by_cases hassign : ∃ target source, instruction = .assign target source
  · obtain ⟨target, source, rfl⟩ := hassign
    obtain ⟨value, hvalue, hfold⟩ := h.foldSource_eq hcomputable hfetch
    have hheld (name : String) : numbersAt listing (position + 1) name =
        if target = name then some value else numbersAt listing position name := by
      rw [numbersAt_succ hfetch, ← hvalue]
      rfl
    constructor
    · intro name
      rw [hheld, ← h.get?_eq, knownAt_succ hfetch, Known.next, hfold]
      exact Store.get?_set _ _ _ _
    · intro earlier hlt name other hother
      rw [hheld]
      by_cases hname : target = name
      · exact ⟨value, if_pos hname⟩
      · rw [if_neg hname]
        refine h.isSet earlier (Nat.lt_of_le_of_ne (Nat.le_of_lt_succ hlt) ?_) name other hother
        rintro rfl
        cases hfetch.symm.trans hother
        exact hname rfl
  · have hnot : ∀ target source, instruction ≠ .assign target source :=
      fun target source heq => hassign ⟨target, source, heq⟩
    have hstraight := hcomputable.straight _ (List.mem_of_getElem? hfetch)
    obtain ⟨hknown, hheld⟩ : (knownAt listing position).next instruction = knownAt listing position ∧
        (numbersAt listing position).carryOut instruction = numbersAt listing position :=
      next_of_not_assign hstraight hnot
    constructor
    · rw [knownAt_succ hfetch, numbersAt_succ hfetch, hknown, hheld]
      exact h.get?_eq
    · rw [numbersAt_succ hfetch, hheld]
      intro earlier hlt name other hother
      refine h.isSet earlier (Nat.lt_of_le_of_ne (Nat.le_of_lt_succ hlt) ?_) name other hother
      rintro rfl
      exact hnot _ _ (Option.some.inj (hfetch.symm.trans hother))

theorem fullyKnown_of_le (hcomputable : Computable listing) (hle : position ≤ listing.length) :
    FullyKnown listing position := by
  induction position with
  | zero => exact fullyKnown_zero listing
  | succ position ih =>
      exact (ih (Nat.le_of_succ_le hle)).succ hcomputable (List.getElem?_eq_getElem hle)

/-- **Folding leaves literals only**, each the number that its variable then holds. -/
theorem foldConstants_assign (hcomputable : Computable listing) {target : String} {source : Source}
    (hfetch : listing[position]? = some (.assign target source)) :
    ∃ value, numbersAt listing (position + 1) target = some value ∧
      (foldConstants listing)[position]? = some (.assign target (.operand (.number value))) := by
  have hle := Nat.le_of_lt (List.getElem?_eq_some_iff.1 hfetch).1
  obtain ⟨value, hvalue, hfold⟩ :=
    (fullyKnown_of_le hcomputable hle).foldSource_eq hcomputable hfetch
  refine ⟨value, ?_, ?_⟩
  · rw [numbersAt_succ hfetch, ← hvalue]
    exact if_pos rfl
  · rw [getElem?_foldConstants, hfetch, Option.map_some, Known.foldInstruction, hfold]

theorem length_foldListing (known : Known) (listing : Listing) :
    (known.foldListing listing).length = listing.length := by
  induction listing generalizing known with
  | nil => rfl
  | cons instruction rest ih => rw [Known.foldListing, List.length_cons, ih, List.length_cons]

/-- Folding leaves other instructions as they are. -/
theorem foldConstants_of_not_assign {instruction : Instruction}
    (hfetch : listing[position]? = some instruction)
    (hassign : ∀ target source, instruction ≠ .assign target source) :
    (foldConstants listing)[position]? = some instruction := by
  rw [getElem?_foldConstants, hfetch, Option.map_some]
  cases instruction with
  | assign target source => exact absurd rfl (hassign target source)
  | _ => rfl

end Folding

section Elimination

variable {listing : Listing} {position : Nat} {name : String}

/-- A listing that never leaves its order and assigns nothing but literals. -/
structure LiteralOnly (listing : Listing) : Prop where
  target?_eq : ∀ instruction ∈ listing, instruction.target? = none
  exists_number : ∀ target source, .assign target source ∈ listing →
    ∃ value, source = .operand (.number value)

theorem literalOnly_foldConstants (hcomputable : Computable listing) :
    LiteralOnly (foldConstants listing) := by
  constructor
  · intro folded hmem
    obtain ⟨position, hposition⟩ := List.mem_iff_getElem?.1 hmem
    rw [getElem?_foldConstants] at hposition
    obtain ⟨instruction, hinstruction, rfl⟩ := Option.map_eq_some_iff.1 hposition
    rw [target?_foldInstruction]
    have hstraight := hcomputable.straight _ (List.mem_of_getElem? hinstruction)
    cases instruction with
    | goto label => exact absurd hstraight id
    | branch condition label => exact absurd hstraight id
    | _ => rfl
  · intro target source hmem
    obtain ⟨position, hposition⟩ := List.mem_iff_getElem?.1 hmem
    have hfolded := hposition
    rw [getElem?_foldConstants] at hfolded
    obtain ⟨instruction, hinstruction, heq⟩ := Option.map_eq_some_iff.1 hfolded
    cases instruction with
    | assign other original =>
        obtain ⟨value, -, hliteral⟩ := foldConstants_assign hcomputable hinstruction
        cases hposition.symm.trans hliteral
        exact ⟨value, rfl⟩
    | _ => cases heq

/-- Prints and returns are all that reads a name there. -/
theorem LiteralOnly.isOutput (h : LiteralOnly listing) {instruction : Instruction}
    (hfetch : listing[position]? = some instruction) (huses : name ∈ instruction.uses) :
    instruction.IsOutput := by
  have hmem := List.mem_of_getElem? hfetch
  cases instruction with
  | assign target source =>
      obtain ⟨value, rfl⟩ := h.exists_number target source hmem
      cases huses
  | print text arguments => exact trivial
  | ret value => exact trivial
  | goto label => cases h.target?_eq _ hmem
  | branch condition label => cases h.target?_eq _ hmem
  | label _ | comment _ => cases huses
  | breakLoop | continueLoop => cases huses

/-- What an output below reads is live. -/
theorem liveBefore_of_isOutput {instruction : Instruction} (gap : Nat)
    (hfetch : listing[position + gap]? = some instruction) (houtput : instruction.IsOutput)
    (huses : name ∈ instruction.uses) : LiveBefore listing position name := by
  induction gap generalizing position with
  | zero =>
      refine .read hfetch ?_ huses
      cases instruction with
      | print text arguments => rfl
      | ret value => rfl
      | _ => exact absurd houtput id
  | succ gap ih =>
      have hlt : position < listing.length :=
        Nat.lt_of_le_of_lt (Nat.le_add_right _ _) (List.getElem?_eq_some_iff.1 hfetch).1
      refine .passed (List.getElem?_eq_getElem hlt) (ih ?_)
      rwa [Nat.add_right_comm, Nat.add_assoc]

/-- Nothing else is live: control only goes on, and assignments pass nothing on. -/
theorem LiteralOnly.exists_isOutput (h : LiteralOnly listing) (hlive : LiveBefore listing position name) :
    ∃ later, position ≤ later ∧ ∃ instruction, listing[later]? = some instruction ∧
      instruction.IsOutput ∧ name ∈ instruction.uses := by
  induction hlive with
  | read hfetch _ huses => exact ⟨_, Nat.le_refl _, _, hfetch, h.isOutput hfetch huses, huses⟩
  | copied hfetch _ huses => exact ⟨_, Nat.le_refl _, _, hfetch, h.isOutput hfetch huses, huses⟩
  | passed _ _ ih =>
      obtain ⟨later, hle, hlater⟩ := ih
      exact ⟨later, Nat.le_of_succ_le hle, hlater⟩
  | jumped hfetch htarget =>
      rw [h.target?_eq _ (List.mem_of_getElem? hfetch)] at htarget
      cases htarget

/-- After an instruction those names are live that are shown below it. -/
theorem LiteralOnly.liveAfter_iff (h : LiteralOnly listing) {instruction : Instruction}
    (hfetch : listing[position]? = some instruction) :
    LiveAfter listing position instruction name ↔ ShownBelow listing position name := by
  constructor
  · rintro (hnext | ⟨label, destination, htarget, -⟩)
    · exact h.exists_isOutput hnext
    · rw [h.target?_eq _ (List.mem_of_getElem? hfetch)] at htarget
      cases htarget
  · rintro ⟨later, hlt, output, hlater, houtput, huses⟩
    obtain ⟨gap, rfl⟩ := Nat.exists_eq_add_of_le hlt
    exact .inl (liveBefore_of_isOutput gap hlater houtput huses)

/-- Folding shows the names that were shown. -/
theorem shownBelow_foldConstants_iff :
    ShownBelow (foldConstants listing) position name ↔ ShownBelow listing position name := by
  refine exists_congr fun later => and_congr_right fun _ => ?_
  constructor
  · rintro ⟨folded, hfolded, houtput, huses⟩
    rw [getElem?_foldConstants] at hfolded
    obtain ⟨instruction, hinstruction, rfl⟩ := Option.map_eq_some_iff.1 hfolded
    refine ⟨instruction, hinstruction, ?_⟩
    cases instruction with
    | assign target source => exact absurd houtput id
    | _ => exact ⟨houtput, huses⟩
  · rintro ⟨instruction, hinstruction, houtput, huses⟩
    refine ⟨instruction, foldConstants_of_not_assign hinstruction ?_, houtput, huses⟩
    rintro target source rfl
    exact houtput

/-- The set that is found after an instruction has the names that are shown below it. -/
theorem exists_liveness_eq (h : LiteralOnly (foldConstants listing)) {instruction : Instruction}
    (hfetch : (foldConstants listing)[position]? = some instruction) :
    ∃ names, (liveness (foldConstants listing)).1[position]? = some names ∧
      { name | ShownBelow listing (0 + position) name } = { name | name ∈ names } := by
  obtain ⟨names, hnames, hmem⟩ := mem_liveness_iff hfetch
  refine ⟨names, hnames, ?_⟩
  ext name
  rw [Nat.zero_add]
  exact shownBelow_foldConstants_iff.symm.trans ((h.liveAfter_iff hfetch).symm.trans (hmem name).symm)

end Elimination

open Classical in
/-- **The optimizer leaves of a computable listing only what is shown.**  Folding turns each assignment
into that of the number which its variable holds from then on, and leaves the other instructions as they
are.  Of these literals elimination keeps just those that a later print or return reads, together with all
other instructions and in order. -/
theorem optimize_of_computable {listing : Listing} (hcomputable : Computable listing) :
    (foldConstants listing).length = listing.length ∧
    (∀ (position : Nat) target source, listing[position]? = some (.assign target source) →
      ∃ value, numbersAt listing (position + 1) target = some value ∧
        (foldConstants listing)[position]? = some (.assign target (.operand (.number value)))) ∧
    (∀ (position : Nat) instruction, listing[position]? = some instruction →
      (∀ target source, instruction ≠ .assign target source) →
      (foldConstants listing)[position]? = some instruction) ∧
    optimize .all listing =
      ((foldConstants listing).zipIdx.filter fun entry =>
        ∀ target source, entry.1 = .assign target source →
          ShownBelow listing entry.2 target).map Prod.fst := by
  have hliteral := literalOnly_foldConstants hcomputable
  have helim : optimize .all listing =
      ((foldConstants listing).zipIdx.filter fun entry =>
        ¬IsDeadAssignment { name | ShownBelow listing entry.2 name } entry.1).map Prod.fst := by
    refine keepLive_eq_filter fun position instruction hfetch => ?_
    exact exists_liveness_eq hliteral hfetch
  refine ⟨length_foldListing .empty listing, fun _ _ _ => foldConstants_assign hcomputable,
    fun _ _ => foldConstants_of_not_assign, helim.trans ?_⟩
  refine congrArg _ (List.filter_congr fun entry hentry => decide_eq_decide.2 ?_)
  obtain ⟨instruction, position⟩ := entry
  have hfetch := List.mem_zipIdx_iff_getElem?.1 hentry
  constructor
  · rintro hlive target source rfl
    obtain ⟨value, rfl⟩ := hliteral.exists_number target source (List.mem_of_getElem? hfetch)
    exact Decidable.byContradiction fun hnot => hlive ⟨target, _, rfl, rfl, hnot⟩
  · rintro hshown ⟨target, source, heq, -, hnot⟩
    exact hnot (hshown target source heq)

/-- A variable that is overwritten by way of another one before it is shown. -/
def overwritten : Listing :=
  [.assign "x" (.operand (.number 2)), .assign "y" (.operation .mul (.name "x") (.number 3)),
    .assign "x" (.operand (.name "y")), .print "" [.name "x"]]

theorem computable_overwritten : Computable overwritten := by
  constructor
  · simp [overwritten, Instruction.IsStraight, Source.isRead]
  · rintro (_ | _ | _ | _ | position) target source hfetch name huses
    · cases hfetch
      cases huses
    · cases hfetch
      obtain rfl := List.mem_singleton.1 huses
      exact ⟨0, by decide, _, rfl⟩
    · cases hfetch
      obtain rfl := List.mem_singleton.1 huses
      exact ⟨1, by decide, _, rfl⟩
    · cases hfetch
    · cases hfetch

/-- Both assignments to the variable stay, for a print below both reads it. -/
theorem optimize_of_computable_overwritten :
    Computable overwritten ∧
    (∃ value, numbersAt overwritten 3 "x" = some value ∧
      (foldConstants overwritten)[2]? = some (.assign "x" (.operand (.number value)))) ∧
    (foldConstants overwritten)[3]? = some (.print "" [.name "x"]) ∧
    optimize .all overwritten =
      [.assign "x" (.operand (.number 2)), .assign "x" (.operand (.number 6)),
        .print "" [.name "x"]] := by
  obtain ⟨-, hassign, hother, -⟩ := optimize_of_computable computable_overwritten
  refine ⟨computable_overwritten, hassign 2 "x" _ rfl, hother 3 _ rfl ?_, by decide +kernel⟩
  exact fun _ _ => Instruction.noConfusion

end Optimizer

end StackPipeline
