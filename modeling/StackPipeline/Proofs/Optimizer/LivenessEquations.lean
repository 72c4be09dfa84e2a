import StackPipeline.Optimizer.DeadCode
import StackPipeline.Proofs.Optimizer.LeastLiveness

/-!
The sweeps come to an end, and the sets in which they end are the least that solve the equations of
liveness.

The equations are those of the sets themselves, whatever a listing jumps to and whichever labels it
repeats or lacks.  Whether an assignment passes on the names that it reads hangs on the very set that
is looked for, so that the equations can have more than one solution.
-/

namespace StackPipeline.Optimizer

open Listing (Instruction)

/-- A set of names before and one after each position of a listing. -/
structure LiveFamily where
  before : Nat → Set String
  after : Nat → Set String

/-- An assignment that takes no input, and whose target is not among these names. -/
def IsDeadAssignment (live : Set String) (instruction : Instruction) : Prop :=
  ∃ target source, instruction = .assign target source ∧ source.isRead = false ∧ target ∉ live

namespace LiveFamily

/-- The names before the place an instruction can go to: the last definition of its label. -/
def beforeTarget (family : LiveFamily) (listing : Listing) (instruction : Instruction) :
    Set String :=
  { name | ∃ label destination, instruction.target? = some label ∧
      IsLastLabel listing label destination ∧ name ∈ family.before destination }

/-- The equations of liveness.  After an instruction are the names before the next one and before the
place it can go to; before it are those, and the ones it reads unless it is a dead assignment. -/
structure Solves (family : LiveFamily) (listing : Listing) : Prop where
  past_end : family.before listing.length = ∅
  after_eq : ∀ position instruction, listing[position]? = some instruction →
    family.after position =
      family.before (position + 1) ∪ family.beforeTarget listing instruction
  before_eq : ∀ position instruction, listing[position]? = some instruction →
    family.before position = family.after position ∪
      { name | ¬IsDeadAssignment (family.after position) instruction ∧ name ∈ instruction.uses }

end LiveFamily

/-- Elimination keeps what is no dead assignment. -/
theorem isKept_iff {after : Names} {instruction : Instruction} :
    isKept after instruction = true ↔ ¬IsDeadAssignment { name | name ∈ after } instruction := by
  cases instruction with
  | assign target source => cases hread : source.isRead <;> simp [isKept, IsDeadAssignment, hread]
  | _ => simp [isKept, IsDeadAssignment]

section Least

variable {listing : Listing} {family : LiveFamily}

/-- A name that is live is in every solution. -/
theorem LiveFamily.Solves.mem_before (h : family.Solves listing) {position : Nat} {name : String}
    (hlive : LiveBefore listing position name) : name ∈ family.before position := by
  induction hlive with
  | read hinstruction hstays huses =>
      rw [h.before_eq _ _ hinstruction]
      refine .inr ⟨?_, huses⟩
      -- What is kept after no names at all is no assignment that could be dead.
      rintro ⟨target, source, rfl, hread, -⟩
      simp [isKept, hread] at hstays
  | copied hinstruction _ huses ih =>
      rw [h.before_eq _ _ hinstruction]
      refine .inr ⟨?_, huses⟩
      rintro ⟨_, _, heq, -, htarget⟩
      obtain ⟨rfl, rfl⟩ := Instruction.assign.inj heq
      apply htarget
      rw [h.after_eq _ _ hinstruction]
      exact .inl ih
  | passed hinstruction _ ih =>
      rw [h.before_eq _ _ hinstruction, h.after_eq _ _ hinstruction]
      exact .inl (.inl ih)
  | jumped hinstruction htarget hlast _ ih =>
      rw [h.before_eq _ _ hinstruction, h.after_eq _ _ hinstruction]
      exact .inl (.inr ⟨_, _, htarget, hlast, ih⟩)

theorem LiveFamily.Solves.mem_after (h : family.Solves listing) {position : Nat} {name : String}
    {instruction : Instruction} (hinstruction : listing[position]? = some instruction)
    (hlive : LiveAfter listing position instruction name) : name ∈ family.after position := by
  rw [h.after_eq _ _ hinstruction]
  rcases hlive with hnext | ⟨label, destination, htarget, hlast, hlive⟩
  · exact .inl (h.mem_before hnext)
  · exact .inr ⟨label, destination, htarget, hlast, h.mem_before hlive⟩

end Least

def swept (listing : Listing) : Nat → Scan
  | 0 => .start listing.length
  | count + 1 =>
    Scan.sweep (labelIndices 0 listing .empty) listing.toArray listing.toArray.size
      { swept listing count with changed := false }

/-- The first sweep that changes nothing is the one with this number, counted from one. -/
structure StopsAfter (listing : Listing) (sweeps : Nat) : Prop where
  pos : 0 < sweeps
  unchanged : (swept listing sweeps).changed = false
  changed : ∀ earlier, 0 < earlier → earlier < sweeps → (swept listing earlier).changed = true

namespace Scan

def family (scan : Scan) : LiveFamily where
  before position := { name | name ∈ scan.liveAt position }
  after position := { name | name ∈ (scan.after[position]?).getD [] }

section Sweeps

variable (listing : Listing)

theorem growing_swept (count : Nat) :
    Growing (labelIndices 0 listing .empty) listing (swept listing count) := by
  induction count with
  | zero => exact growing_start _ listing
  | succ count ih => exact (ih.reset.sweep _).1

theorem size_after_swept (count : Nat) : (swept listing count).after.size = listing.length := by
  induction count with
  | zero => exact Array.size_replicate
  | succ count ih => exact (size_after_sweep _ _).trans ih

theorem justified_swept (count : Nat) : Justified listing (swept listing count) := by
  induction count with
  | zero => exact justified_start listing
  | succ count ih =>
      have hreset : Justified listing { swept listing count with changed := false } := ih
      exact (hreset.sweep (growing_swept listing count).size_eq _).1

/-- A sweep that changes something adds a name. -/
theorem total_swept_lt {count : Nat} (h : (swept listing (count + 1)).changed = true) :
    (swept listing count).total listing.length <
      (swept listing (count + 1)).total listing.length := by
  obtain ⟨-, -, hsame | hlt⟩ := (growing_swept listing count).reset.sweep listing.toArray.size
  · cases hsame.symm.trans h
  · exact hlt

/-- Settling is sweeping until nothing changes: the tries that are left are never used up. -/
theorem settle_eq_swept {tries sweeps : Nat}
    (h : listing.length * (listing.flatMap Instruction.uses).length <
      (swept listing sweeps).total listing.length + tries) :
    ∃ last, sweeps < last ∧ last ≤ sweeps + tries ∧
      settle (labelIndices 0 listing .empty) listing.toArray tries sweeps (swept listing sweeps) =
        (swept listing last, last) ∧
      (swept listing last).changed = false ∧
      ∀ earlier, sweeps < earlier → earlier < last → (swept listing earlier).changed = true := by
  induction tries generalizing sweeps with
  | zero => exact absurd (growing_swept listing sweeps).total_le (Nat.not_le_of_lt h)
  | succ tries ih =>
      have hnext : sweep (labelIndices 0 listing .empty) listing.toArray listing.toArray.size
          { swept listing sweeps with changed := false } = swept listing (sweeps + 1) := rfl
      rw [settle, hnext]
      cases hchanged : (swept listing (sweeps + 1)).changed with
      | false =>
          refine ⟨sweeps + 1, Nat.lt_succ_self _, by omega, rfl, hchanged, ?_⟩
          intro earlier hlt hle
          omega
      | true =>
          have hlt := total_swept_lt listing hchanged
          have hmore : listing.length * (listing.flatMap Instruction.uses).length <
              (swept listing (sweeps + 1)).total listing.length + tries := by omega
          obtain ⟨last, hlast, hle, heq, hstop, hearlier⟩ := ih hmore
          refine ⟨last, by omega, by omega, heq, hstop, ?_⟩
          intro earlier hsweeps hbefore
          rcases Nat.eq_or_lt_of_le (Nat.succ_le_of_lt hsweeps) with rfl | hmore
          · exact hchanged
          · exact hearlier earlier hmore hbefore

end Sweeps

section Forward

variable {listing : Listing} {scan : Scan}

/-- The set before this position follows from the other sets. -/
def StableAt (listing : Listing) (scan : Scan) (position : Nat) : Prop :=
  ∀ instruction, listing[position]? = some instruction →
    scan.liveAt position =
      transfer (scan.liveAfter (labelIndices 0 listing .empty) position instruction) instruction

/-- Where every set follows from the others a sweep changes none. -/
theorem changed_sweep_of_stable (h : ∀ position, StableAt listing scan position)
    (hunchanged : scan.changed = false) (count : Nat) :
    (scan.sweep (labelIndices 0 listing .empty) listing.toArray count).changed = false := by
  induction count generalizing scan with
  | zero => exact hunchanged
  | succ count ih =>
      rw [Scan.sweep]
      cases hcode : listing.toArray[count]? with
      | none => exact ih h hunchanged
      | some instruction =>
          rw [List.getElem?_toArray] at hcode
          have hvisit : scan.visit (labelIndices 0 listing .empty) count instruction =
              { scan with
                after := scan.after.setIfInBounds count
                  (scan.liveAfter (labelIndices 0 listing .empty) count instruction) } :=
            if_pos (h count instruction hcode).symm
          have hstable (position : Nat) : StableAt listing
              (scan.visit (labelIndices 0 listing .empty) count instruction) position := by
            intro other hother
            have hsame : (scan.visit (labelIndices 0 listing .empty) count instruction).before =
                scan.before := by rw [hvisit]
            rw [liveAfter_congr hsame, liveAt, hsame]
            exact h position other hother
          refine ih hstable ?_
          rw [hvisit]
          exact hunchanged

end Forward

end Scan

/-- Every jump goes to a place further on, if it goes anywhere. -/
def JumpsForward (listing : Listing) : Prop :=
  ∀ position instruction label destination, listing[position]? = some instruction →
    instruction.target? = some label → IsLastLabel listing label destination →
    position < destination

namespace Scan

section Forward

variable {listing : Listing} {scan : Scan} (hforward : JumpsForward listing)

include hforward

/-- What is live after a position is said by the sets further on. -/
theorem liveAfter_congr_of_forward {other : Scan} {position : Nat} {instruction : Instruction}
    (hinstruction : listing[position]? = some instruction)
    (h : ∀ later, position < later → other.liveAt later = scan.liveAt later) :
    other.liveAfter (labelIndices 0 listing .empty) position instruction =
      scan.liveAfter (labelIndices 0 listing .empty) position instruction := by
  have htarget : other.liveAtTarget (labelIndices 0 listing .empty) instruction =
      scan.liveAtTarget (labelIndices 0 listing .empty) instruction := by
    rw [liveAtTarget, liveAtTarget]
    cases hlabel : instruction.target? with
    | none => rfl
    | some label =>
        cases hindex : (labelIndices 0 listing .empty).get? label with
        | none => simp only [hindex]
        | some destination =>
            simp only [hindex]
            apply h
            apply hforward position instruction label destination hinstruction hlabel
            simpa [get?_labelIndices_iff] using hindex
  rw [liveAfter, liveAfter, htarget, h _ (Nat.lt_succ_self _)]

/-- Without jumps backwards one sweep finds every set: a visit needs only sets that are final.  The
induction is on the positions still to be visited. -/
theorem stable_sweep {count : Nat} (hcount : count ≤ scan.before.size)
    (h : ∀ position, count ≤ position → StableAt listing scan position) (position : Nat) :
    StableAt listing (scan.sweep (labelIndices 0 listing .empty) listing.toArray count) position := by
  induction count generalizing scan with
  | zero => exact h position (Nat.zero_le _)
  | succ count ih =>
      rw [Scan.sweep]
      cases hcode : listing.toArray[count]? with
      | none =>
          refine ih (Nat.le_of_succ_le hcount) ?_
          intro position hle instruction hinstruction
          rw [List.getElem?_toArray, List.getElem?_eq_none_iff] at hcode
          exact absurd (List.getElem?_eq_some_iff.1 hinstruction).1 (by omega)
      | some visited =>
          rw [List.getElem?_toArray] at hcode
          have hlive (later : Nat) :
              (scan.visit (labelIndices 0 listing .empty) count visited).liveAt later =
                if later = count then
                  transfer (scan.liveAfter (labelIndices 0 listing .empty) count visited) visited
                else scan.liveAt later :=
            liveAt_visit (Nat.lt_of_succ_le hcount) later
          refine ih (by rw [size_before_visit]; exact Nat.le_of_succ_le hcount) ?_
          intro position hle instruction hinstruction
          have hlater (later : Nat) (hlt : position < later) :
              (scan.visit (labelIndices 0 listing .empty) count visited).liveAt later =
                scan.liveAt later := by
            rw [hlive, if_neg (by omega)]
          rw [liveAfter_congr_of_forward hforward hinstruction hlater, hlive]
          rcases Nat.eq_or_lt_of_le hle with rfl | hlt
          · obtain rfl := Option.some.inj (hcode.symm.trans hinstruction)
            rw [if_pos rfl]
          · rw [if_neg (by omega)]
            exact h position hlt instruction hinstruction

theorem changed_swept_two : (swept listing 2).changed = false := by
  have hstart (position : Nat) (hle : listing.toArray.size ≤ position) :
      StableAt listing { Scan.start listing.length with changed := false } position := by
    intro instruction hinstruction
    have hlt := (List.getElem?_eq_some_iff.1 hinstruction).1
    rw [List.size_toArray] at hle
    omega
  have hsize : listing.toArray.size ≤ (Scan.start listing.length).before.size := by
    simp [Scan.start]
  have hstable : ∀ position,
      StableAt listing { swept listing 1 with changed := false } position :=
    stable_sweep hforward hsize hstart
  exact changed_sweep_of_stable hstable rfl _

end Forward

end Scan

section Liveness

variable (listing : Listing)

/-- The loop ends, and the sets are those of its last sweep. -/
theorem stopsAfter_liveness :
    StopsAfter listing (liveness listing).2 ∧ (liveness listing).2 ≤ sweepBound listing ∧
      (liveness listing).1 = (swept listing (liveness listing).2).after.toList := by
  have hbound : listing.length * (listing.flatMap Instruction.uses).length <
      (swept listing 0).total listing.length + sweepBound listing :=
    Nat.lt_of_lt_of_le (Nat.lt_succ_self _) (Nat.le_add_left (sweepBound listing) _)
  obtain ⟨last, hlast, hle, heq, hstop, hearlier⟩ := Scan.settle_eq_swept listing hbound
  rw [Nat.zero_add] at hle
  have hliveness : liveness listing = ((swept listing last).after.toList, last) := by
    rw [liveness]
    exact congrArg (fun result : Scan × Nat => (result.1.after.toList, result.2)) heq
  rw [hliveness]
  exact ⟨⟨hlast, hstop, hearlier⟩, hle, rfl⟩

theorem StopsAfter.settled {listing : Listing} {sweeps : Nat} (h : StopsAfter listing sweeps) :
    Scan.Settled (labelIndices 0 listing .empty) listing (swept listing sweeps) := by
  obtain ⟨count, rfl⟩ := Nat.exists_eq_succ_of_ne_zero (Nat.ne_of_gt h.pos)
  have hsize : ({ swept listing count with changed := false } : Scan).after.size = listing.length :=
    Scan.size_after_swept listing count
  exact Scan.settled_sweep hsize h.unchanged

/-- The sets after a sweep that changed nothing are those of the positions. -/
theorem StopsAfter.after_eq {listing : Listing} {sweeps : Nat} (h : StopsAfter listing sweeps)
    {position : Nat} {instruction : Instruction}
    (hinstruction : listing[position]? = some instruction) :
    (swept listing sweeps).after[position]? = some ((swept listing sweeps).liveAfter
        (labelIndices 0 listing .empty) position instruction) ∧
      (swept listing sweeps).family.after position = { name | name ∈ (swept listing sweeps).liveAfter
        (labelIndices 0 listing .empty) position instruction } := by
  have hafter := (h.settled position instruction hinstruction).1
  refine ⟨hafter, ?_⟩
  simp only [Scan.family, hafter, Option.getD_some]

theorem StopsAfter.solves {listing : Listing} {sweeps : Nat} (h : StopsAfter listing sweeps) :
    (swept listing sweeps).family.Solves listing := by
  constructor
  · have hpast : (swept listing sweeps).before[listing.length]? = none := by
      rw [Array.getElem?_eq_none_iff, (Scan.growing_swept listing sweeps).size_eq]
    ext name
    simp [Scan.family, Scan.liveAt, hpast]
  · intro position instruction hinstruction
    rw [(h.after_eq hinstruction).2]
    ext name
    exact Scan.mem_liveAfter_iff
  · intro position instruction hinstruction
    rw [(h.after_eq hinstruction).2]
    ext name
    change name ∈ (swept listing sweeps).liveAt position ↔ _
    rw [(h.settled position instruction hinstruction).2, mem_transfer, isKept_iff]
    rfl

/-- The sets that are found are in every solution. -/
theorem StopsAfter.le {listing : Listing} {sweeps : Nat} (h : StopsAfter listing sweeps)
    {other : LiveFamily} (hother : other.Solves listing) {position : Nat}
    (hlt : position < listing.length) :
    (swept listing sweeps).family.before position ⊆ other.before position ∧
      (swept listing sweeps).family.after position ⊆ other.after position := by
  have hinstruction := List.getElem?_eq_getElem hlt
  have hjustified := Scan.justified_swept listing sweeps
  refine ⟨fun name hname => hother.mem_before (hjustified position name hname), ?_⟩
  rw [(h.after_eq hinstruction).2]
  exact fun name hname => hother.mem_after hinstruction (hjustified.mem_liveAfter hname)

end Liveness

open Classical in
/-- Elimination with sets that are given by position. -/
theorem keepLive_eq_filter {listing : Listing} {live : List Names} {sets : Nat → Set String}
    {start : Nat} (h : ∀ position instruction, listing[position]? = some instruction →
      ∃ names, live[position]? = some names ∧ sets (start + position) = { name | name ∈ names }) :
    keepLive listing live =
      ((listing.zipIdx start).filter fun entry =>
        ¬IsDeadAssignment (sets entry.2) entry.1).map Prod.fst := by
  induction listing generalizing live start with
  | nil => rfl
  | cons first rest ih =>
      obtain ⟨names, hnames, hsets⟩ := h 0 first rfl
      cases live with
      | nil => cases hnames
      | cons head live =>
          obtain rfl := Option.some.inj hnames
          have hlater : ∀ position instruction, rest[position]? = some instruction →
              ∃ names, live[position]? = some names ∧
                sets (start + 1 + position) = { name | name ∈ names } := by
            intro position instruction hinstruction
            rw [Nat.add_right_comm, Nat.add_assoc]
            exact h (position + 1) instruction hinstruction
          rw [Nat.add_zero] at hsets
          rw [keepLive, List.zipIdx_cons, List.filter_cons, ih hlater, hsets]
          by_cases hkept : isKept head first = true
          · rw [if_pos hkept, if_pos (by simpa using isKept_iff.1 hkept), List.map_cons]
          · rw [if_neg hkept, if_neg (by simpa [isKept_iff] using hkept)]

open Classical in
/-- **The sweeps end in the least solution.**  Some sweep is the first that changes nothing, and its
sets, those that are found, solve the equations of liveness and are in every other solution.
Elimination drops just the assignments that are dead after them and keeps the rest in order.  Without
jumps backwards there are at most two sweeps. -/
theorem liveness_is_least_solution (listing : Listing) :
    StopsAfter listing (liveness listing).2 ∧
    (liveness listing).2 ≤ sweepBound listing ∧
    (liveness listing).1 = (swept listing (liveness listing).2).after.toList ∧
    (liveness listing).1.length = listing.length ∧
    (swept listing (liveness listing).2).family.Solves listing ∧
    (∀ other : LiveFamily, other.Solves listing → ∀ position < listing.length,
      (swept listing (liveness listing).2).family.before position ⊆ other.before position ∧
        (swept listing (liveness listing).2).family.after position ⊆ other.after position) ∧
    eliminateDead listing =
      (listing.zipIdx.filter fun entry => ¬IsDeadAssignment
        ((swept listing (liveness listing).2).family.after entry.2) entry.1).map Prod.fst ∧
    (JumpsForward listing → (liveness listing).2 ≤ 2) := by
  obtain ⟨hstops, hbound, hsets⟩ := stopsAfter_liveness listing
  refine ⟨hstops, hbound, hsets, ?_, hstops.solves, ?_, ?_, ?_⟩
  · rw [hsets, Array.length_toList, Scan.size_after_swept]
  · exact fun other hother position hlt => hstops.le hother hlt
  · rw [eliminateDead, hsets]
    refine keepLive_eq_filter fun position instruction hinstruction => ?_
    obtain ⟨hafter, hfamily⟩ := hstops.after_eq hinstruction
    refine ⟨_, by rw [Array.getElem?_toList, hafter], ?_⟩
    rw [Nat.zero_add, hfamily]
  · intro hforward
    refine Nat.le_of_not_lt fun hlt => ?_
    have hchanged := hstops.changed 2 Nat.two_pos hlt
    rw [Scan.changed_swept_two hforward] at hchanged
    cases hchanged

/-- A jump over an assignment whose target is read behind the label. -/
def skipping : Listing :=
  [.branch (.name "c") "end", .assign "x" (.operand (.number 1)), .label "end",
    .print "" [.name "x"]]

theorem jumpsForward_skipping : JumpsForward skipping := by
  rintro (_ | _ | _ | _ | position) instruction label destination hfetch htarget hlast
  · cases hfetch
    cases htarget
    cases destination with
    | zero => cases hlast.1
    | succ destination => exact Nat.succ_pos destination
  · cases hfetch
    cases htarget
  · cases hfetch
    cases htarget
  · cases hfetch
    cases htarget
  · cases hfetch

theorem liveness_is_least_solution_skipping :
    JumpsForward skipping ∧ (liveness skipping).2 ≤ 2 :=
  ⟨jumpsForward_skipping,
    (liveness_is_least_solution skipping).2.2.2.2.2.2.2 jumpsForward_skipping⟩

end StackPipeline.Optimizer
