import StackPipeline.Proofs.Lowering.Assignments

/-!
Which temporaries lowered code uses, and who assigns them.

A temporary belongs to the work that it was handed out in: no other code reads or assigns it.  There it
is assigned once, but for the counter of a counting loop, which the loop starts and advances.
-/

namespace StackPipeline

namespace Listing

theorem assigned_cons (instruction : Instruction) (rest : Listing) :
    assigned (instruction :: rest) = instruction.assigned?.toList ++ assigned rest := by
  rw [assigned, List.filterMap_cons]
  cases instruction.assigned? <;> rfl

def uses (listing : Listing) : List String :=
  listing.flatMap Instruction.uses

theorem uses_append (front rest : Listing) : uses (front ++ rest) = uses front ++ uses rest :=
  List.flatMap_append

theorem uses_cons (instruction : Instruction) (rest : Listing) :
    uses (instruction :: rest) = instruction.uses ++ uses rest :=
  List.flatMap_cons ..

def assignments (listing : Listing) (name : String) : Listing :=
  listing.filter fun instruction => instruction.assigned? = some name

theorem assignments_append (front rest : Listing) (name : String) :
    assignments (front ++ rest) name = assignments front name ++ assignments rest name :=
  List.filter_append ..

theorem assignments_eq_nil {listing : Listing} {name : String} (h : name ∉ assigned listing) :
    assignments listing name = [] := by
  refine List.filter_eq_nil_iff.2 fun instruction hmem hassigned => h ?_
  exact List.mem_filterMap.2 ⟨instruction, hmem, of_decide_eq_true hassigned⟩

end Listing

namespace Lowering

open StackPipeline.Tree (Expr Stmt Branch Program)
open Listing (Operand Source Instruction)

/-- The counter is set to zero. -/
def startOf (counter : String) : Instruction :=
  .assign counter (.operand (.number 0))

/-- The counter goes up by one. -/
def advanceOf (counter : String) : Instruction :=
  .assign counter (.operation .add (.name counter) (.number 1))

theorem assignments_counter (counter : String) :
    Listing.assignments [startOf counter, advanceOf counter] counter =
      [startOf counter, advanceOf counter] := by
  simp [Listing.assignments, startOf, advanceOf, Instruction.assigned?]

/-- Somewhere in the code is a counting loop that counts in this name. -/
def IsCounter (code : Listing) (counter : String) : Prop :=
  ∃ check name start next last bound body,
    forCode counter check name start next last bound body <:+: code

theorem IsCounter.widen {code whole : Listing} {counter : String} (h : IsCounter code counter)
    (hpart : code <:+: whole) : IsCounter whole counter := by
  obtain ⟨check, name, start, next, last, bound, body, hloop⟩ := h
  exact ⟨check, name, start, next, last, bound, body, hloop.trans hpart⟩

/-- One instruction assigns the name, or it is a counter and its loop alone does so. -/
def Allotted (code : Listing) (name : String) : Prop :=
  (∃ instruction, Listing.assignments code name = [instruction]) ∨
    IsCounter code name ∧ Listing.assignments code name = [startOf name, advanceOf name]

/-- Code around it that does not assign the name changes nothing. -/
theorem Allotted.around {code : Listing} {name : String} (h : Allotted code name)
    {front rest : Listing} (hfront : name ∉ Listing.assigned front)
    (hrest : name ∉ Listing.assigned rest) : Allotted (front ++ code ++ rest) name := by
  have hsame : Listing.assignments (front ++ code ++ rest) name = Listing.assignments code name := by
    rw [Listing.assignments_append, Listing.assignments_append, Listing.assignments_eq_nil hfront,
      Listing.assignments_eq_nil hrest, List.nil_append, List.append_nil]
  rw [Allotted, hsame]
  rcases h with hone | ⟨hcounter, htwo⟩
  · exact .inl hone
  · exact .inr ⟨hcounter.widen ⟨front, rest, rfl⟩, htwo⟩

/-- A loop assigns its counter twice. -/
theorem IsCounter.two_le_length {code : Listing} {name : String} (h : IsCounter code name) :
    2 ≤ (Listing.assignments code name).length := by
  obtain ⟨check, target, start, next, last, bound, body, hloop⟩ := h
  have hboth : [startOf name, advanceOf name].Sublist
      (forCode name check target start next last bound body) := by
    refine .cons_cons _ (List.singleton_sublist.2 ?_)
    simp [advanceOf]
  have hassigned : (Listing.assignments [startOf name, advanceOf name] name).Sublist
      (Listing.assignments code name) := (hboth.trans hloop.sublist).filter _
  rw [assignments_counter] at hassigned
  exact hassigned.length_le

/-- Whether a name is a counter decides which of the two it is. -/
theorem Allotted.cases {code : Listing} {name : String} (h : Allotted code name) :
    (IsCounter code name → Listing.assignments code name = [startOf name, advanceOf name]) ∧
      (¬IsCounter code name → ∃ instruction, Listing.assignments code name = [instruction]) := by
  rcases h with ⟨instruction, hone⟩ | ⟨hcounter, htwo⟩
  · refine ⟨fun hcounter => ?_, fun _ => ⟨instruction, hone⟩⟩
    have hle := hcounter.two_le_length
    rw [hone] at hle
    cases hle with
    | step hle => cases hle
  · exact ⟨fun _ => htwo, fun hnot => absurd hcounter hnot⟩

/-- A name that the program may use, or a temporary from among those with these numbers. -/
def Known (own : String → Prop) (first last : Nat) (name : String) : Prop :=
  own name ∨ IsTemporary first last name

theorem Known.mono {own : String → Prop} {first last low high : Nat} {name : String}
    (h : Known own first last name) (hlow : low ≤ first) (hhigh : last ≤ high) :
    Known own low high name := by
  rcases h with hown | ⟨number, hle, hlt, rfl⟩
  · exact .inl hown
  · exact .inr ⟨number, Nat.le_trans hlow hle, Nat.lt_of_lt_of_le hlt hhigh, rfl⟩

/-- Code that assigns the program's names and the temporaries from among those with these numbers, each
of them as it was allotted.  It may also read older temporaries, from `low` on. -/
structure Allots (own : String → Prop) (low first last : Nat) (code : Listing) : Prop where
  le : first ≤ last
  writes : ∀ name ∈ Listing.assigned code, Known own first last name
  reads : ∀ name ∈ Listing.uses code, Known own low last name
  allotted : ∀ name, IsTemporary first last name → ¬own name → Allotted code name

theorem not_isTemporary_both {first middle last : Nat} {name : String}
    (hfirst : IsTemporary first middle name) : ¬IsTemporary middle last name := by
  obtain ⟨number, -, hlt, rfl⟩ := hfirst
  rintro ⟨other, hle, -, heq⟩
  rw [temporaryName_inj] at heq
  omega

section Allots

variable {own : String → Prop} {low first middle last : Nat} {code front rest : Listing}

/-- Code that reads older temporaries only from a later one on. -/
theorem Allots.older (h : Allots own middle first last code) (hle : low ≤ middle) :
    Allots own low first last code :=
  ⟨h.le, h.writes, fun name hname => (h.reads name hname).mono hle (Nat.le_refl _), h.allotted⟩

theorem Allots.append (hfront : Allots own low first middle front)
    (hrest : Allots own low middle last rest) : Allots own low first last (front ++ rest) where
  le := Nat.le_trans hfront.le hrest.le
  writes name hname := by
    rw [Listing.assigned_append] at hname
    rcases List.mem_append.1 hname with hname | hname
    · exact (hfront.writes name hname).mono (Nat.le_refl _) hrest.le
    · exact (hrest.writes name hname).mono hfront.le (Nat.le_refl _)
  reads name hname := by
    rw [Listing.uses_append] at hname
    rcases List.mem_append.1 hname with hname | hname
    · exact (hfront.reads name hname).mono (Nat.le_refl _) hrest.le
    · exact hrest.reads name hname
  allotted name hname hown := by
    rcases (isTemporary_append hfront.le hrest.le).1 hname with hname | hname
    · have hnot : name ∉ Listing.assigned rest := by
        intro hmem
        rcases hrest.writes name hmem with h | h
        · exact hown h
        · exact not_isTemporary_both hname h
      have hnil : name ∉ Listing.assigned [] := List.not_mem_nil
      exact (hfront.allotted name hname hown).around hnil hnot
    · have hnot : name ∉ Listing.assigned front := by
        intro hmem
        rcases hfront.writes name hmem with h | h
        · exact hown h
        · exact not_isTemporary_both h hname
      have hnil : name ∉ Listing.assigned [] := List.not_mem_nil
      have haround := (hrest.allotted name hname hown).around hnot hnil
      rwa [List.append_nil] at haround

/-- Code that assigns no temporary. -/
theorem allots_of_reads (number : Nat) (hwrites : ∀ name ∈ Listing.assigned code, own name)
    (hreads : ∀ name ∈ Listing.uses code, Known own low number name) :
    Allots own low number number code :=
  ⟨Nat.le_refl _, fun name hname => .inl (hwrites name hname), hreads,
    fun _ hname _ => absurd hname not_isTemporary_self⟩

theorem allots_nil (number : Nat) : Allots own low number number [] :=
  allots_of_reads number (fun _ hname => absurd hname List.not_mem_nil)
    (fun _ hname => absurd hname List.not_mem_nil)

/-- A fresh temporary is assigned. -/
theorem allots_temporary (number : Nat) {source : Source}
    (hreads : ∀ name ∈ source.uses, Known own low (number + 1) name) :
    Allots own low number (number + 1) [.assign (temporaryName number) source] where
  le := Nat.le_succ _
  writes name hname := by
    obtain rfl : name = temporaryName number := by
      simpa [Listing.assigned, Instruction.assigned?] using hname
    exact .inr (isTemporary_single.2 rfl)
  reads name hname := hreads name (by simpa [Listing.uses, Instruction.uses] using hname)
  allotted name hname _ := by
    rw [isTemporary_single.1 hname]
    exact .inl ⟨.assign (temporaryName number) source, by
      simp [Listing.assignments, Instruction.assigned?]⟩

/-- An instruction that assigns a name of the program or nothing. -/
theorem allots_single (number : Nat) (instruction : Instruction)
    (hwrites : ∀ name, instruction.assigned? = some name → own name)
    (hreads : ∀ name ∈ instruction.uses, Known own low number name) :
    Allots own low number number [instruction] := by
  refine allots_of_reads number (fun name hname => ?_) (fun name hname => ?_)
  · rw [Listing.assigned_cons] at hname
    exact hwrites name (by simpa [Listing.assigned] using hname)
  · rw [Listing.uses_cons] at hname
    exact hreads name (by simpa [Listing.uses] using hname)

theorem allots_label (number : Nat) (name : String) :
    Allots own low number number [.label name] :=
  allots_single number _ nofun (fun _ hname => absurd hname List.not_mem_nil)

theorem allots_goto (number : Nat) (label : String) :
    Allots own low number number [.goto label] :=
  allots_single number _ nofun (fun _ hname => absurd hname List.not_mem_nil)

/-- An operand that is a number, or a name of these. -/
def Within (own : String → Prop) (first last : Nat) (operand : Operand) : Prop :=
  ∀ name ∈ operand.name?.toList, Known own first last name

theorem Within.mono {operand : Operand} (h : Within own first middle operand) (hlow : low ≤ first)
    (hhigh : middle ≤ last) : Within own low last operand :=
  fun name hname => (h name hname).mono hlow hhigh

theorem within_number (x : Float) : Within own first last (.number x) :=
  fun _ hname => absurd hname List.not_mem_nil

theorem within_name {name : String} (h : Known own first last name) :
    Within own first last (.name name) := by
  intro other hother
  rwa [List.mem_singleton.1 hother]

/-- The temporary handed out last. -/
theorem within_temporary (hle : first ≤ last) :
    Within own first (last + 1) (.name (temporaryName last)) :=
  within_name (.inr ⟨last, hle, Nat.lt_succ_self _, rfl⟩)

theorem allots_branch {condition : Operand} (h : Within own low last condition) (label : String) :
    Allots own low last last [.branch condition label] :=
  allots_single last _ nofun h

theorem allots_assign {name : String} (hname : own name) {value : Operand}
    (h : Within own low last value) : Allots own low last last [.assign name (.operand value)] := by
  refine allots_single last _ ?_ h
  rintro _ ⟨⟩
  exact hname

end Allots

section Expressions

variable {own : String → Prop} {c c' : Context} {code : Listing}

theorem allots_lowerExpr {expr : Expr} {operand : Operand}
    (hown : ∀ name ∈ Tree.namesOfExpr expr, own name)
    (h : lowerExpr expr c = ((code, operand), c')) :
    Allots own c.temporaries c.temporaries c'.temporaries code ∧
      Within own c.temporaries c'.temporaries operand := by
  induction expr generalizing c c' code operand with
  | number x =>
      cases h
      exact ⟨allots_nil _, within_number x⟩
  | boolean b =>
      cases h
      exact ⟨allots_nil _, within_number _⟩
  | var name =>
      cases h
      exact ⟨allots_nil _, within_name (.inl (hown name (List.mem_singleton_self name)))⟩
  | binary left op right ihLeft ihRight =>
      obtain ⟨hownLeft, hownRight⟩ := List.forall_mem_append.1 hown
      obtain ⟨leftCode, leftValue, c₁, rightCode, rightValue, c₂, hleft, hright, hout, rfl⟩ :=
        lowerExpr_binary h
      cases hout
      obtain ⟨hleft, hleftValue⟩ := ihLeft hownLeft hleft
      obtain ⟨hright, hrightValue⟩ := ihRight hownRight hright
      have hboth := hleft.append (hright.older hleft.le)
      refine ⟨hboth.append (allots_temporary c₂.temporaries ?_), within_temporary hboth.le⟩
      refine List.forall_mem_append.2 ⟨?_, ?_⟩
      · exact hleftValue.mono (Nat.le_refl _) (Nat.le_succ_of_le hright.le)
      · exact hrightValue.mono hleft.le (Nat.le_succ _)
  | read prompt =>
      obtain ⟨hout, rfl⟩ := lowerExpr_read h
      cases hout
      refine ⟨allots_temporary c.temporaries ?_, within_temporary (Nat.le_refl _)⟩
      exact fun _ hname => absurd hname List.not_mem_nil

theorem allots_lowerExprs {exprs : List Expr} {operands : List Operand}
    (hown : ∀ name ∈ exprs.flatMap Tree.namesOfExpr, own name)
    (h : lowerExprs exprs c = ((code, operands), c')) :
    Allots own c.temporaries c.temporaries c'.temporaries code ∧
      ∀ operand ∈ operands, Within own c.temporaries c'.temporaries operand := by
  induction exprs generalizing c c' code operands with
  | nil =>
      cases h
      exact ⟨allots_nil _, fun _ hmem => absurd hmem List.not_mem_nil⟩
  | cons expr rest ih =>
      rw [List.flatMap_cons, List.forall_mem_append] at hown
      obtain ⟨first, operand, c₁, restCode, restOperands, hfirst, hrest, rfl, rfl⟩ :=
        lowerExprs_cons h
      obtain ⟨hfirst, hoperand⟩ := allots_lowerExpr hown.1 hfirst
      obtain ⟨hrest, hoperands⟩ := ih hown.2 hrest
      refine ⟨hfirst.append (hrest.older hfirst.le), List.forall_mem_cons.2 ⟨?_, ?_⟩⟩
      · exact hoperand.mono (Nat.le_refl _) hrest.le
      · exact fun operand hmem => (hoperands operand hmem).mono hfirst.le (Nat.le_refl _)

theorem allots_lowerBound {count : Expr} {bound : Operand}
    (hown : ∀ name ∈ Tree.namesOfExpr count, own name)
    (h : lowerBound count c = ((code, bound), c')) :
    Allots own c.temporaries c.temporaries c'.temporaries code ∧
      Within own c.temporaries c'.temporaries bound := by
  rcases lowerBound_cases h with ⟨name, rfl, rfl, rfl, rfl⟩ | ⟨-, hexpr⟩
  · have hname : Within own c.temporaries (c.temporaries + 1) (.name name) :=
      within_name (.inl (hown name (List.mem_singleton_self name)))
    exact ⟨allots_temporary c.temporaries hname, within_temporary (Nat.le_refl _)⟩
  · exact allots_lowerExpr hown hexpr

theorem allots_lowerConditions {branches : List Branch} {labels : List String}
    (hown : ∀ name ∈ Tree.namesOfBranches branches, own name)
    (h : lowerConditions branches labels c = (code, c')) :
    Allots own c.temporaries c.temporaries c'.temporaries code := by
  induction branches generalizing labels c c' code with
  | nil =>
      cases h
      exact allots_nil _
  | cons branch branches ih =>
      obtain ⟨condition, body⟩ := branch
      rcases labels with _ | ⟨label, labels⟩
      · cases h
        exact allots_nil _
      · obtain ⟨test, operand, c₁, rest, htest, hrest, rfl⟩ := lowerConditions_cons h
        rw [Tree.namesOfBranches, List.forall_mem_append, List.forall_mem_append] at hown
        obtain ⟨htest, hoperand⟩ := allots_lowerExpr hown.1.1 htest
        have hrest := ih hown.2 hrest
        exact htest.append ((allots_branch hoperand label).append (hrest.older htest.le))

end Expressions

section Loops

variable {own : String → Prop} {low first middle last : Nat} {test body : Listing}
  {condition : Operand}

theorem allots_whileCode (htest : Allots own low first middle test)
    (hcondition : Within own low middle condition) (hbody : Allots own low middle last body)
    (start inner out : String) :
    Allots own low first last (whileCode start inner out test condition body) := by
  have hend : Allots own low last last [.goto start, .label out] :=
    (allots_goto last start).append (allots_label last out)
  have hinner : Allots own low middle last (.goto out :: .label inner ::
      (body ++ [.goto start, .label out])) :=
    (allots_goto middle out).append ((allots_label middle inner).append (hbody.append hend))
  exact (allots_label first start).append
    (htest.append ((allots_branch hcondition inner).append hinner))

theorem allots_doCode (hbody : Allots own low first middle body)
    (htest : Allots own low middle last test) (hcondition : Within own low last condition)
    (start next out : String) :
    Allots own low first last (doCode start next out test condition body) := by
  have hend : Allots own low last last [.branch condition start, .label out] :=
    (allots_branch hcondition start).append (allots_label last out)
  exact (allots_label first start).append
    (hbody.append ((allots_label middle next).append (htest.append hend)))

/-- A counter is set, and advanced after code that leaves it alone. -/
theorem Allots.counting {code round rest : Listing} (hlow : low ≤ first)
    (hround : Allots own low (first + 1) last round) (hassigned : Listing.assigned rest = [])
    (huses : Listing.uses rest = []) (hcounter : IsCounter code (temporaryName first))
    (heq : code = [startOf (temporaryName first)] ++ round ++
      ([advanceOf (temporaryName first)] ++ rest)) :
    Allots own low first last code := by
  have hfresh : IsTemporary first last (temporaryName first) :=
    ⟨first, Nat.le_refl _, Nat.lt_of_succ_le hround.le, rfl⟩
  have hwrites : Listing.assigned code =
      temporaryName first :: (Listing.assigned round ++ [temporaryName first]) := by
    simp [heq, Listing.assigned_append, Listing.assigned_cons, startOf, advanceOf,
      Instruction.assigned?, hassigned]
  have hreads : Listing.uses code = Listing.uses round ++ [temporaryName first] := by
    simp [heq, Listing.uses_append, Listing.uses_cons, startOf, advanceOf, Instruction.uses,
      Source.uses, Operand.name?, huses]
  refine ⟨Nat.le_of_succ_le hround.le, ?_, ?_, ?_⟩
  · rw [hwrites, List.forall_mem_cons, List.forall_mem_append, List.forall_mem_singleton]
    refine ⟨.inr hfresh, fun name hname => ?_, .inr hfresh⟩
    exact (hround.writes name hname).mono (Nat.le_succ _) (Nat.le_refl _)
  · rw [hreads, List.forall_mem_append, List.forall_mem_singleton]
    exact ⟨hround.reads, Known.mono (.inr hfresh) hlow (Nat.le_refl _)⟩
  · intro name hname hown
    rcases (isTemporary_append (Nat.le_succ first) hround.le).1 hname with hname | hname
    · have hnot : name ∉ Listing.assigned round := by
        intro hmem
        rcases hround.writes name hmem with h | h
        · exact hown h
        · exact not_isTemporary_both hname h
      have hsame : Listing.assignments code name =
          Listing.assignments [startOf (temporaryName first), advanceOf (temporaryName first)] name := by
        have hrest : name ∉ Listing.assigned rest := by simp [hassigned]
        rw [heq, Listing.assignments_append, Listing.assignments_append, Listing.assignments_append,
          Listing.assignments_eq_nil hnot, Listing.assignments_eq_nil hrest, List.append_nil,
          List.append_nil, ← Listing.assignments_append]
        rfl
      rw [isTemporary_single] at hname
      subst hname
      exact .inr ⟨hcounter, hsame.trans (assignments_counter _)⟩
    · have hnot : name ≠ temporaryName first :=
        fun h => not_isTemporary_both (isTemporary_single.2 h) hname
      rw [heq]
      refine (hround.allotted name hname hown).around ?_ ?_
      · simpa [Listing.assigned, startOf, Instruction.assigned?] using hnot
      · simpa [Listing.assigned_cons, advanceOf, Instruction.assigned?, hassigned] using hnot

/-- A counting loop has two temporaries: it sets the one for the check once, the counter twice. -/
theorem allots_forCode (hlow : low ≤ first) (hbody : Allots own low (first + 2) last body)
    {name : String} (hname : own name) {bound : Operand} (hbound : Within own low first bound)
    (start next out : String) :
    Allots own low first last (forCode (temporaryName first) (temporaryName (first + 1)) name start
      next out bound body) := by
  have hcounter : Within own low (first + 1) (.name (temporaryName first)) := within_temporary hlow
  have hcheck : Allots own low (first + 1) (first + 2) [.assign (temporaryName (first + 1))
      (.operation .ge (.name (temporaryName first)) bound)] := by
    refine allots_temporary (first + 1) (List.forall_mem_append.2 ⟨?_, ?_⟩)
    · exact hcounter.mono (Nat.le_refl _) (Nat.le_succ _)
    · exact hbound.mono (Nat.le_refl _) (by omega)
  have hround : Allots own low (first + 1) last (.label start ::
      .assign (temporaryName (first + 1)) (.operation .ge (.name (temporaryName first)) bound) ::
      .branch (.name (temporaryName (first + 1))) out ::
      .assign name (.operand (.name (temporaryName first))) :: (body ++ [.label next])) :=
    (allots_label (first + 1) start).append (hcheck.append
      ((allots_branch (within_temporary (Nat.le_succ_of_le hlow)) out).append
        ((allots_assign hname (hcounter.mono (Nat.le_refl _) (Nat.le_succ _))).append
          (hbody.append (allots_label last next)))))
  have hassigned : Listing.assigned [.goto start, .label out] = [] := rfl
  refine hround.counting hlow hassigned rfl ?_ ?_
  · exact ⟨_, _, _, _, _, _, _, List.infix_refl _⟩
  · simp [forCode, startOf, advanceOf]

end Loops

/-- Work whose code allots its temporaries. -/
def MakesAllots (own : String → Prop) (work : Lower Listing) : Prop :=
  ∀ ⦃c c' : Context⦄ ⦃code : Listing⦄, work c = (.ok code, c') →
    Allots own c.temporaries c.temporaries c'.temporaries code

section Statements

variable {own : String → Prop}

theorem allots_lowerBranches {branches : List Branch} {out : String} {labels : List String}
    {c c' : Context} {code : Listing}
    (hbodies : ∀ branch ∈ branches, MakesAllots own (lowerBlock branch.body))
    (h : lowerBranches out branches labels c = (.ok code, c')) :
    Allots own c.temporaries c.temporaries c'.temporaries code := by
  induction branches generalizing labels c code with
  | nil =>
      cases h
      exact allots_nil _
  | cons branch branches ih =>
      obtain ⟨condition, body⟩ := branch
      rcases labels with _ | ⟨label, labels⟩
      · cases h
        exact allots_nil _
      · obtain ⟨bodyCode, c₁, rest, hbody, hrest, rfl⟩ := lowerBranches_cons h
        have hfirst := hbodies _ List.mem_cons_self hbody
        have hothers := ih (fun branch hmem => hbodies branch (List.mem_cons_of_mem _ hmem)) hrest
        exact (allots_label _ label).append
          (hfirst.append ((allots_goto _ out).append (hothers.older hfirst.le)))

mutual

/-- The code of a statement allots its temporaries if the names of the statement are the program's. -/
theorem allots_lowerStmt : (stmt : Stmt) → (∀ name ∈ Tree.namesOfStmt stmt, own name) →
    MakesAllots own (lowerStmt stmt)
  | .declare name value, hown => by
      intro c c' code h
      obtain ⟨hname, hvalues⟩ := List.forall_mem_cons.1 hown
      obtain ⟨valueCode, operand, hvalue, rfl⟩ := lowerStmt_declare h
      obtain ⟨hcode, hoperand⟩ := allots_lowerExpr hvalues hvalue
      exact hcode.append (allots_assign hname hoperand)
  | .assign name value, hown => by
      intro c c' code h
      obtain ⟨hname, hvalues⟩ := List.forall_mem_cons.1 hown
      obtain ⟨valueCode, operand, hvalue, rfl⟩ := lowerStmt_assign h
      obtain ⟨hcode, hoperand⟩ := allots_lowerExpr hvalues hvalue
      exact hcode.append (allots_assign hname hoperand)
  | .print text arguments, hown => by
      intro c c' code h
      obtain ⟨argumentCode, operands, harguments, rfl⟩ := lowerStmt_print h
      obtain ⟨hcode, hoperands⟩ := allots_lowerExprs hown harguments
      refine hcode.append (allots_single _ _ nofun fun name hname => ?_)
      obtain ⟨operand, hmem, hname⟩ := List.mem_filterMap.1 hname
      exact hoperands operand hmem name (Option.mem_toList.2 hname)
  | .choose branches none, hown => by
      intro c c' code h
      obtain ⟨conditions, c₁, bodies, hconditions, hbodies, rfl⟩ := lowerStmt_choose_none h
      have hfirst := allots_lowerConditions hown hconditions
      have hblocks := allots_lowerBranches (allots_lowerBlocks branches hown) hbodies
      exact hfirst.append ((allots_goto _ _).append
        ((hblocks.older hfirst.le).append (allots_label _ _)))
  | .choose branches (some block), hown => by
      intro c c' code h
      obtain ⟨hownBranches, hownBlock⟩ := List.forall_mem_append.1 hown
      obtain ⟨conditions, c₁, bodies, c₂, otherwise, hconditions, hbodies, hotherwise, rfl⟩ :=
        lowerStmt_choose_some h
      have hfirst := allots_lowerConditions hownBranches hconditions
      have hblocks := allots_lowerBranches (allots_lowerBlocks branches hownBranches) hbodies
      have hlast := allots_lowerBlock block hownBlock hotherwise
      exact hfirst.append ((allots_goto _ _).append ((hblocks.older hfirst.le).append
        ((allots_label _ _).append ((hlast.older (Nat.le_trans hfirst.le hblocks.le)).append
          ((allots_goto _ _).append (allots_label _ _))))))
  | .whileLoop condition body, hown => by
      intro c c' code h
      obtain ⟨hownTest, hownBody⟩ := List.forall_mem_append.1 hown
      obtain ⟨test, operand, c₁, bodyCode, c₂, htest, hbody, rfl, rfl⟩ := lowerStmt_whileLoop h
      obtain ⟨htest, hoperand⟩ := allots_lowerExpr hownTest htest
      have hinside := allots_lowerBlock body hownBody hbody
      exact allots_whileCode htest hoperand (hinside.older htest.le) _ _ _
  | .doWhile body condition, hown => by
      intro c c' code h
      obtain ⟨hownBody, hownTest⟩ := List.forall_mem_append.1 hown
      obtain ⟨bodyCode, c₁, test, operand, hbody, htest, rfl⟩ := lowerStmt_doWhile h
      have hinside := allots_lowerBlock body hownBody hbody
      obtain ⟨htest, hoperand⟩ := allots_lowerExpr hownTest htest
      exact allots_doCode hinside (htest.older hinside.le)
        (hoperand.mono hinside.le (Nat.le_refl _)) _ _ _
  | .forLoop name count body, hown => by
      intro c c' code h
      obtain ⟨hname, hrest⟩ := List.forall_mem_cons.1 hown
      obtain ⟨hownCount, hownBody⟩ := List.forall_mem_append.1 hrest
      obtain ⟨boundCode, bound, c₁, bodyCode, c₂, hbound, hbody, rfl, rfl⟩ := lowerStmt_forLoop h
      obtain ⟨hcode, hoperand⟩ := allots_lowerBound hownCount hbound
      have hinside := (allots_lowerBlock body hownBody hbody).older
        (Nat.le_trans hcode.le (Nat.le_add_right _ 2))
      exact hcode.append (allots_forCode hcode.le hinside hname hoperand _ _ _)
  | .breakLoop, _ => by
      intro c c' code h
      obtain ⟨loop, rest, hloops, rfl, rfl⟩ := lowerStmt_breakLoop h
      exact allots_goto _ _
  | .continueLoop, _ => by
      intro c c' code h
      obtain ⟨loop, rest, hloops, rfl, rfl⟩ := lowerStmt_continueLoop h
      exact allots_goto _ _
  | .ret none, _ => by
      intro c c' code h
      cases h
      exact allots_single _ _ nofun (fun _ hname => absurd hname List.not_mem_nil)
  | .ret (some value), hown => by
      intro c c' code h
      obtain ⟨valueCode, operand, hvalue, rfl⟩ := lowerStmt_ret_some h
      obtain ⟨hcode, hoperand⟩ := allots_lowerExpr hown hvalue
      exact hcode.append (allots_single _ _ nofun (by simpa [Within, Instruction.uses] using hoperand))
  | .block statements, hown => by
      intro c c' code h
      rw [lowerStmt] at h
      exact allots_lowerBlock statements hown h
  | .importFile path, _ => by
      intro c c' code h
      cases h
      exact allots_single _ _ nofun (fun _ hname => absurd hname List.not_mem_nil)

/-- The code of a block allots its temporaries. -/
theorem allots_lowerBlock : (block : List Stmt) → (∀ name ∈ Tree.namesOfBlock block, own name) →
    MakesAllots own (lowerBlock block)
  | [], _ => by
      intro c c' code h
      cases h
      exact allots_nil _
  | stmt :: rest, hown => by
      intro c c' code h
      obtain ⟨hownFirst, hownRest⟩ := List.forall_mem_append.1 hown
      obtain ⟨first, c₁, restCode, hfirst, hrest, rfl⟩ := lowerBlock_cons h
      have hfirst := allots_lowerStmt stmt hownFirst hfirst
      exact hfirst.append ((allots_lowerBlock rest hownRest hrest).older hfirst.le)

/-- The code of each branch's block allots its temporaries. -/
theorem allots_lowerBlocks :
    (branches : List Branch) → (∀ name ∈ Tree.namesOfBranches branches, own name) →
      ∀ branch ∈ branches, MakesAllots own (lowerBlock branch.body)
  | [], _, _, hmem => absurd hmem List.not_mem_nil
  | .mk condition body :: rest, hown, branch, hmem => by
      obtain ⟨hownFirst, hownRest⟩ := List.forall_mem_append.1 hown
      rcases List.mem_cons.1 hmem with rfl | hmem
      · exact allots_lowerBlock body (List.forall_mem_append.1 hownFirst).2
      · exact allots_lowerBlocks rest hownRest branch hmem

end

end Statements

end Lowering

end StackPipeline
