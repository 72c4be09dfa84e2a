import StackPipeline.Proofs.Json.Tokens

/-!
Values in documents: what is written for a value is read as this value, inside a document as well as
alone.

The fold over the elements of an array, or over the members of an object, takes a step for each of them.
So it is enough to say what one step makes of one element or member; whole arrays and objects follow.
-/

namespace StackPipeline.Json

open Text (isBlank)

/-- The text of the number is read as the number, to its end.  For one that is not finite it is not,
since null is written.  Nor is it for some of the finite ones: a fraction is scaled in floating point,
which can miss by the last bit. -/
def Numeral.IsReadBack (numeral : Numeral) : Prop :=
  readScalar .kept numeral.chars = .ok (.number numeral, [])

mutual

/-- How deep arrays and objects nest. -/
def Value.nesting : Value → Nat
  | .array items => itemsNesting items + 1
  | .object members => membersNesting members + 1
  | _ => 0

def itemsNesting : List Value → Nat
  | [] => 0
  | item :: rest => max item.nesting (itemsNesting rest)

def membersNesting : List (String × Value) → Nat
  | [] => 0
  | (_, value) :: rest => max value.nesting (membersNesting rest)

end

mutual

def Value.numerals : Value → List Numeral
  | .number numeral => [numeral]
  | .array items => itemsNumerals items
  | .object members => membersNumerals members
  | _ => []

def itemsNumerals : List Value → List Numeral
  | [] => []
  | item :: rest => item.numerals ++ itemsNumerals rest

def membersNumerals : List (String × Value) → List Numeral
  | [] => []
  | (_, value) :: rest => value.numerals ++ membersNumerals rest

end

/-- A value that a reader takes within this depth: nothing nests deeper, and its numbers are read
back. -/
inductive Legible : Nat → Value → Prop
  | null {depth : Nat} : Legible depth .null
  | boolean {depth : Nat} (value : Bool) : Legible depth (.boolean value)
  | number {depth : Nat} {numeral : Numeral} :
      numeral.IsReadBack → Legible depth (.number numeral)
  | string {depth : Nat} (text : String) : Legible depth (.string text)
  | array {depth : Nat} {items : List Value} :
      (∀ item ∈ items, Legible depth item) → Legible (depth + 1) (.array items)
  | object {depth : Nat} {members : List (String × Value)} :
      (∀ member ∈ members, Legible depth member.2) → Legible (depth + 1) (.object members)

section Legible

theorem nesting_le_itemsNesting {item : Value} {items : List Value} (h : item ∈ items) :
    item.nesting ≤ itemsNesting items := by
  induction items with
  | nil => cases h
  | cons first rest ih =>
      rw [itemsNesting]
      rcases List.mem_cons.1 h with rfl | h
      · exact Nat.le_max_left _ _
      · exact Nat.le_trans (ih h) (Nat.le_max_right _ _)

theorem nesting_le_membersNesting {member : String × Value} {members : List (String × Value)}
    (h : member ∈ members) : member.2.nesting ≤ membersNesting members := by
  induction members with
  | nil => cases h
  | cons first rest ih =>
      rw [membersNesting]
      rcases List.mem_cons.1 h with rfl | h
      · exact Nat.le_max_left _ _
      · exact Nat.le_trans (ih h) (Nat.le_max_right _ _)

theorem mem_itemsNumerals {item : Value} {items : List Value} (h : item ∈ items)
    {numeral : Numeral} (hnumeral : numeral ∈ item.numerals) : numeral ∈ itemsNumerals items := by
  induction items with
  | nil => cases h
  | cons first rest ih =>
      rw [itemsNumerals]
      rcases List.mem_cons.1 h with rfl | h
      · exact List.mem_append_left _ hnumeral
      · exact List.mem_append_right _ (ih h)

theorem mem_membersNumerals {member : String × Value} {members : List (String × Value)}
    (h : member ∈ members) {numeral : Numeral} (hnumeral : numeral ∈ member.2.numerals) :
    numeral ∈ membersNumerals members := by
  induction members with
  | nil => cases h
  | cons first rest ih =>
      rw [membersNumerals]
      rcases List.mem_cons.1 h with rfl | h
      · exact List.mem_append_left _ hnumeral
      · exact List.mem_append_right _ (ih h)

theorem legible_of_nesting_le {depth : Nat} {value : Value} (hnesting : value.nesting ≤ depth)
    (hnumbers : ∀ numeral ∈ value.numerals, numeral.IsReadBack) : Legible depth value := by
  induction depth generalizing value with
  | zero =>
      cases value with
      | null => exact .null
      | boolean value => exact .boolean value
      | number numeral => exact .number (hnumbers numeral List.mem_cons_self)
      | string text => exact .string text
      | array items => cases hnesting
      | object members => cases hnesting
  | succ depth ih =>
      cases value with
      | null => exact .null
      | boolean value => exact .boolean value
      | number numeral => exact .number (hnumbers numeral List.mem_cons_self)
      | string text => exact .string text
      | array items =>
          rw [Value.nesting, Nat.add_le_add_iff_right] at hnesting
          exact .array fun item hmem => ih (Nat.le_trans (nesting_le_itemsNesting hmem) hnesting)
            fun numeral h => hnumbers numeral (mem_itemsNumerals hmem h)
      | object members =>
          rw [Value.nesting, Nat.add_le_add_iff_right] at hnesting
          exact .object fun member hmem =>
            ih (Nat.le_trans (nesting_le_membersNesting hmem) hnesting)
              fun numeral h => hnumbers numeral (mem_membersNumerals hmem h)

end Legible

section Scalars

variable {rules : Rules}

theorem skipBlank_cons {c : Char} (h : isBlank c = false) (rest : List Char) :
    skipBlank (c :: rest) = c :: rest := by
  rw [skipBlank, List.dropWhile_cons_of_neg]
  intro hc
  simp only [Bool.or_eq_true, beq_iff_eq] at hc
  rcases hc with ((rfl | rfl) | rfl) | rfl <;> exact absurd h (by decide)

/-- A value that begins neither as an array nor as an object is a scalar. -/
theorem readValue_of_scalar {c : Char} (hblank : isBlank c = false) (hbracket : c ≠ '[')
    (hbrace : c ≠ '\x7b') (size depth : Nat) (rest : List Char) :
    readValue rules size depth (c :: rest) = readScalar rules (c :: rest) := by
  -- The depth counts for arrays and objects only.
  cases depth with
  | zero | succ =>
      rw [readValue, skipBlank_cons hblank]
      split
      · rename_i heq
        cases heq
        exact absurd rfl hbracket
      · rename_i heq
        cases heq
        exact absurd rfl hbrace
      · rfl

/-- A string is a value whatever follows it, also where nothing may nest. -/
theorem readValue_stringChars (size depth : Nat) (text : String) (rest : List Char) :
    readValue rules size depth (stringChars text ++ rest) = .ok (.string text, rest) := by
  rw [stringChars, List.cons_append,
    readValue_of_scalar (by decide) (by decide) (by decide), readScalar, List.append_assoc,
    List.singleton_append, readString_flatMap]
  rfl

theorem readValue_array (size depth : Nat) (more : List Char) :
    readValue rules size (depth + 1) ('[' :: more) =
      (foldElements (pushElement (readValue rules size depth)) size true [] more).map
        fun read => (.array read.1.reverse, read.2) := by
  rw [readValue, skipBlank_cons (by decide)]
  rfl

theorem readValue_object (size depth : Nat) (more : List Char) :
    readValue rules size (depth + 1) ('\x7b' :: more) =
      (foldMembers rules (pushMember (readValue rules size depth)) size true [] more).map
        fun read => (.object read.1.reverse, read.2) := by
  rw [readValue, skipBlank_cons (by decide)]
  rfl

/-- Neither a sign nor a digit is any other mark. -/
theorem ne_of_sign_or_isDigit {c d : Char} (hc : c = '-' ∨ c.isDigit = true) (hsign : d ≠ '-')
    (hdigit : d.isDigit = false) : c ≠ d := by
  rcases hc with rfl | hc
  · exact hsign.symm
  · exact ne_of_isDigit hc hdigit

theorem not_blank_of_sign_or_isDigit {c : Char} (hc : c = '-' ∨ c.isDigit = true) :
    isBlank c = false := by
  rcases hc with rfl | hc
  · rfl
  · exact Number.isBlank_of_isDigit hc

/-- A number begins with a sign or a digit. -/
theorem Numeral.IsReadBack.exists_chars_eq_cons {numeral : Numeral} (h : numeral.IsReadBack) :
    ∃ c more, numeral.chars = c :: more ∧ (c = '-' ∨ c.isDigit = true) := by
  rcases readScalar_number_cases h with ⟨more, hchars, -⟩ | ⟨c, more, hchars, hc, -⟩
  · exact ⟨'-', more, hchars, .inl rfl⟩
  · exact ⟨c, more, hchars, .inr hc⟩

/-- A number that is read back is read up to the mark behind it. -/
theorem readValue_number {numeral : Numeral} (h : numeral.IsReadBack) (size depth : Nat)
    {rest : List Char} (hrest : Delimited rest) :
    readValue .kept size depth (numeral.chars ++ rest) = .ok (.number numeral, rest) := by
  have hread := readScalar_append hrest h
  obtain ⟨c, more, hchars, hc⟩ := h.exists_chars_eq_cons
  have hblank := not_blank_of_sign_or_isDigit hc
  have hbracket : c ≠ '[' := ne_of_sign_or_isDigit hc (by decide) (by decide)
  have hbrace : c ≠ '\x7b' := ne_of_sign_or_isDigit hc (by decide) (by decide)
  rw [hchars, List.cons_append] at hread ⊢
  rw [readValue_of_scalar hblank hbracket hbrace, hread, List.nil_append]

/-- Two digits around a point are read back: the quotient of the whole number and ten is exact. -/
theorem isReadBack_fraction : (Numeral.float 2.5).IsReadBack := by
  have hchars : (Numeral.float 2.5).chars = ['2', '.', '5'] := by decide +kernel
  have hparts : ofParts false 25 (-1) = .ok (.float 2.5) := by
    have hscale : scale 8 (Float.ofNat 25) (-1) = some 2.5 := by decide +kernel
    rw [ofParts, hscale]
    rfl
  have hread : readNumeral .kept false ['2', '.', '5'] =
      Rules.kept.judged (ofParts false 25 (-1)) [] := rfl
  rw [hparts] at hread
  rw [Numeral.IsReadBack, hchars, readScalar_of_isDigit (by decide), hread]
  rfl

end Scalars

/-- A character with which a value may begin: no blank, and no mark behind an element. -/
structure Opens (c : Char) : Prop where
  not_blank : isBlank c = false
  not_comma : c ≠ ','
  not_bracket : c ≠ ']'

section Folds

variable {σ : Type} {rest : List Char}

/-- Steps that lead from one state to another, one for each part. -/
inductive Steps {ι : Type} (step : σ → ι → σ → Prop) : σ → List ι → σ → Prop
  | nil (state : σ) : Steps step state [] state
  | cons {state next last : σ} {part : ι} {parts : List ι} :
      step state part next → Steps step next parts last → Steps step state (part :: parts) last

theorem Steps.append {ι : Type} {step : σ → ι → σ → Prop} {first middle last : σ}
    {front back : List ι} (hfront : Steps step first front middle)
    (hback : Steps step middle back last) : Steps step first (front ++ back) last := by
  induction hfront with
  | nil => exact hback
  | cons hstep _ ih => exact .cons hstep (ih hback)

/-- This step leads over the element with this value, whatever follows it. -/
def StepsOver (step : σ → Reader σ) (state : σ) (item : Value) (next : σ) : Prop :=
  ∀ rest, Delimited rest → step state (item.chars ++ rest) = .ok (next, rest)

/-- This step leads over the member with this name and value, whatever follows it. -/
def StepsOverMember (step : σ → String → Reader σ) (state : σ) (member : String × Value)
    (next : σ) : Prop :=
  ∀ rest, Delimited rest →
    step state member.1 (':' :: (member.2.chars ++ rest)) = .ok (next, rest)

/-- The elements behind another one. -/
def laterItems (items : List Value) : List Char :=
  items.flatMap fun item => ',' :: item.chars

/-- The members behind another one. -/
def laterMembers (members : List (String × Value)) : List Char :=
  members.flatMap fun member => ',' :: (stringChars member.1 ++ ':' :: member.2.chars)

theorem itemsChars_cons (item : Value) (items : List Value) :
    itemsChars (item :: items) = item.chars ++ laterItems items := by
  induction items generalizing item with
  | nil => simp [itemsChars, laterItems]
  | cons second items ih =>
      rw [itemsChars, ih]
      · simp [laterItems]
      · simp

theorem membersChars_cons (member : String × Value) (members : List (String × Value)) :
    membersChars (member :: members) =
      stringChars member.1 ++ ':' :: (member.2.chars ++ laterMembers members) := by
  induction members generalizing member with
  | nil => simp [membersChars, laterMembers]
  | cons second members ih =>
      rw [membersChars, ih]
      · simp [laterMembers]
      · simp

theorem nextElement_true {c : Char} (h : Opens c) (more : List Char) :
    nextElement true (c :: more) = .ok (.inl (c :: more)) := by
  rw [nextElement, skipBlank_cons h.not_blank]
  split
  · rename_i heq
    cases heq
  · rename_i heq
    cases heq
    exact absurd rfl h.not_bracket
  · rename_i heq
    cases heq
    exact absurd rfl h.not_comma
  · rfl

theorem nextElement_false {c : Char} (h : Opens c) (more : List Char) :
    nextElement false (',' :: c :: more) = .ok (.inl (c :: more)) := by
  rw [nextElement, skipBlank_cons (by decide)]
  simp only [Bool.false_eq_true, if_false, skipBlank_cons h.not_blank]
  split
  · rename_i heq
    cases heq
  · rename_i heq
    cases heq
    exact absurd rfl h.not_bracket
  · rfl

theorem readColon_colon (more : List Char) : readColon (':' :: more) = .ok more := rfl

theorem nextName_true (more : List Char) : nextName true ('"' :: more) = .ok (.inl more) := rfl

theorem nextName_false (more : List Char) :
    nextName false (',' :: '"' :: more) = .ok (.inl more) := rfl

/-- Every one of these values begins in a way that shows it is an element. -/
def AllOpen (items : List Value) : Prop :=
  ∀ item ∈ items, ∃ c more, item.chars = c :: more ∧ Opens c

theorem delimited_laterItems (items : List Value) (rest : List Char) :
    Delimited (laterItems items ++ ']' :: rest) := by
  cases items with
  | nil => exact delimited_bracket rest
  | cons item items => exact delimited_comma _

theorem delimited_laterMembers (members : List (String × Value)) (rest : List Char) :
    Delimited (laterMembers members ++ '\x7d' :: rest) := by
  cases members with
  | nil => exact delimited_brace rest
  | cons member members => exact delimited_comma _

section Elements

variable {step : σ → Reader σ} {state last : σ} {items : List Value}

theorem foldElements_laterItems (h : Steps (StepsOver step) state items last)
    (hopen : AllOpen items) {fuel : Nat} (hfuel : items.length < fuel) (rest : List Char) :
    foldElements step fuel false state (laterItems items ++ ']' :: rest) = .ok (last, rest) := by
  induction h generalizing fuel with
  | nil state =>
      obtain ⟨fuel, rfl⟩ := Nat.exists_eq_add_of_lt hfuel
      rfl
  | @cons state next last item items hstep _ ih =>
      obtain ⟨fuel, rfl⟩ := Nat.exists_eq_add_of_lt hfuel
      obtain ⟨c, more, hchars, hc⟩ := hopen item List.mem_cons_self
      have hitem := hstep _ (delimited_laterItems items rest)
      have hlater : laterItems (item :: items) ++ ']' :: rest =
          ',' :: (item.chars ++ (laterItems items ++ ']' :: rest)) := by
        simp [laterItems]
      rw [hlater, foldElements]
      rw [hchars, List.cons_append] at hitem ⊢
      rw [nextElement_false hc]
      dsimp only
      rw [hitem]
      exact ih (fun item hmem => hopen item (List.mem_cons_of_mem _ hmem))
        (by rw [List.length_cons] at hfuel ⊢; omega)

/-- Folding over the elements of an array that has been written. -/
theorem foldElements_itemsChars (h : Steps (StepsOver step) state items last)
    (hopen : AllOpen items) {fuel : Nat} (hfuel : items.length < fuel) (rest : List Char) :
    foldElements step fuel true state (itemsChars items ++ ']' :: rest) = .ok (last, rest) := by
  cases h with
  | nil =>
      obtain ⟨fuel, rfl⟩ := Nat.exists_eq_add_of_lt hfuel
      rfl
  | @cons _ next _ item items hstep hsteps =>
      obtain ⟨fuel, rfl⟩ := Nat.exists_eq_add_of_lt hfuel
      obtain ⟨c, more, hchars, hc⟩ := hopen item List.mem_cons_self
      have hitem := hstep _ (delimited_laterItems items rest)
      rw [itemsChars_cons, List.append_assoc, foldElements]
      rw [hchars, List.cons_append] at hitem ⊢
      rw [nextElement_true hc]
      dsimp only
      rw [hitem]
      exact foldElements_laterItems hsteps
        (fun item hmem => hopen item (List.mem_cons_of_mem _ hmem))
        (by rw [List.length_cons]; omega) rest

/-- One element after the other is pushed. -/
theorem steps_pushElement (read : Reader Value) (state : List Value)
    (h : ∀ item ∈ items, ∀ rest, Delimited rest → read (item.chars ++ rest) = .ok (item, rest)) :
    Steps (StepsOver (pushElement read)) state items (items.reverse ++ state) := by
  induction items generalizing state with
  | nil => exact .nil state
  | cons item items ih =>
      rw [List.reverse_cons, List.append_assoc]
      have hstep : StepsOver (pushElement read) state item (item :: state) := by
        intro rest hrest
        rw [pushElement, h item List.mem_cons_self rest hrest]
      exact .cons hstep
        (ih (item :: state) fun other hmem => h other (List.mem_cons_of_mem _ hmem))

end Elements

section Members

variable {step : σ → String → Reader σ} {state last : σ} {members : List (String × Value)}

theorem foldMembers_laterMembers (h : Steps (StepsOverMember step) state members last)
    {fuel : Nat} (hfuel : members.length < fuel) (rest : List Char) :
    foldMembers .kept step fuel false state (laterMembers members ++ '\x7d' :: rest) =
      .ok (last, rest) := by
  induction h generalizing fuel with
  | nil state =>
      obtain ⟨fuel, rfl⟩ := Nat.exists_eq_add_of_lt hfuel
      rfl
  | @cons state next last member members hstep _ ih =>
      obtain ⟨fuel, rfl⟩ := Nat.exists_eq_add_of_lt hfuel
      have hmember := hstep _ (delimited_laterMembers members rest)
      have hlater : laterMembers (member :: members) ++ '\x7d' :: rest =
          ',' :: '"' :: (member.1.toList.flatMap escapeChar ++
            '"' :: ':' :: (member.2.chars ++ (laterMembers members ++ '\x7d' :: rest))) := by
        simp [laterMembers, stringChars]
      rw [hlater, foldMembers, nextName_false]
      dsimp only
      rw [readString_flatMap]
      dsimp only
      rw [hmember]
      exact ih (by rw [List.length_cons]; omega)

/-- Folding over the members of an object that has been written. -/
theorem foldMembers_membersChars (h : Steps (StepsOverMember step) state members last)
    {fuel : Nat} (hfuel : members.length < fuel) (rest : List Char) :
    foldMembers .kept step fuel true state (membersChars members ++ '\x7d' :: rest) =
      .ok (last, rest) := by
  cases h with
  | nil =>
      obtain ⟨fuel, rfl⟩ := Nat.exists_eq_add_of_lt hfuel
      rfl
  | @cons _ next _ member members hstep hsteps =>
      obtain ⟨fuel, rfl⟩ := Nat.exists_eq_add_of_lt hfuel
      have hmember := hstep _ (delimited_laterMembers members rest)
      have hfirst : membersChars (member :: members) ++ '\x7d' :: rest =
          '"' :: (member.1.toList.flatMap escapeChar ++
            '"' :: ':' :: (member.2.chars ++ (laterMembers members ++ '\x7d' :: rest))) := by
        rw [membersChars_cons]
        simp [stringChars]
      rw [hfirst, foldMembers, nextName_true]
      dsimp only
      rw [readString_flatMap]
      dsimp only
      rw [hmember]
      exact foldMembers_laterMembers hsteps (by rw [List.length_cons]; omega) rest

theorem stepsOverMember_pushMember {read : Reader Value} (name : String) {value : Value}
    (state : List (String × Value))
    (h : ∀ rest, Delimited rest → read (value.chars ++ rest) = .ok (value, rest)) :
    StepsOverMember (pushMember read) state (name, value) ((name, value) :: state) := by
  intro rest hrest
  rw [pushMember, readColon_colon]
  dsimp only
  rw [h rest hrest]

/-- One member after the other is pushed. -/
theorem steps_pushMember (read : Reader Value) (state : List (String × Value))
    (h : ∀ member ∈ members, ∀ rest, Delimited rest →
      read (member.2.chars ++ rest) = .ok (member.2, rest)) :
    Steps (StepsOverMember (pushMember read)) state members (members.reverse ++ state) := by
  induction members generalizing state with
  | nil => exact .nil state
  | cons member members ih =>
      rw [List.reverse_cons, List.append_assoc]
      exact .cons (stepsOverMember_pushMember member.1 state (h member List.mem_cons_self))
        (ih (member :: state) fun other hmem => h other (List.mem_cons_of_mem _ hmem))

end Members

end Folds

section Values

variable {depth : Nat} {value : Value}

/-- A value never begins with a blank or with a mark behind an element. -/
theorem Legible.exists_chars_eq_cons (h : Legible depth value) :
    ∃ c more, value.chars = c :: more ∧ Opens c := by
  cases h with
  | null => exact ⟨'n', _, rfl, by constructor <;> decide⟩
  | boolean value =>
      cases value with
      | false => exact ⟨'f', _, rfl, by constructor <;> decide⟩
      | true => exact ⟨'t', _, rfl, by constructor <;> decide⟩
  | string text => exact ⟨'"', _, rfl, by constructor <;> decide⟩
  | array _ => exact ⟨'[', _, rfl, by constructor <;> decide⟩
  | object _ => exact ⟨'\x7b', _, rfl, by constructor <;> decide⟩
  | @number _ numeral hnumber =>
      obtain ⟨c, more, hchars, hc⟩ := hnumber.exists_chars_eq_cons
      exact ⟨c, more, hchars, not_blank_of_sign_or_isDigit hc,
        ne_of_sign_or_isDigit hc (by decide) (by decide),
        ne_of_sign_or_isDigit hc (by decide) (by decide)⟩

theorem length_laterItems (items : List Value) :
    items.length ≤ (laterItems items).length ∧
      ∀ item ∈ items, item.chars.length ≤ (laterItems items).length := by
  induction items with
  | nil => exact ⟨Nat.le_refl 0, fun item hmem => nomatch hmem⟩
  | cons first items ih =>
      have hlength : (laterItems (first :: items)).length =
          first.chars.length + 1 + (laterItems items).length := by
        simp [laterItems]
        omega
      rw [hlength, List.length_cons]
      refine ⟨by omega, fun item hmem => ?_⟩
      rcases List.mem_cons.1 hmem with rfl | hmem
      · omega
      · have hle := ih.2 item hmem
        omega

theorem length_laterMembers (members : List (String × Value)) :
    members.length ≤ (laterMembers members).length ∧
      ∀ member ∈ members, member.2.chars.length ≤ (laterMembers members).length := by
  induction members with
  | nil => exact ⟨Nat.le_refl 0, fun member hmem => nomatch hmem⟩
  | cons first members ih =>
      have hlength : (laterMembers (first :: members)).length =
          (stringChars first.1).length + 1 + first.2.chars.length + 1 +
            (laterMembers members).length := by
        simp [laterMembers]
        omega
      rw [hlength, List.length_cons]
      refine ⟨by omega, fun member hmem => ?_⟩
      rcases List.mem_cons.1 hmem with rfl | hmem
      · omega
      · have hle := ih.2 member hmem
        omega

/-- An array has fewer elements than characters, and its elements are shorter than itself. -/
theorem length_array (items : List Value) :
    items.length < (Value.array items).chars.length ∧
      ∀ item ∈ items, item.chars.length < (Value.array items).chars.length := by
  cases items with
  | nil => exact ⟨Nat.two_pos, fun item hmem => nomatch hmem⟩
  | cons first items =>
      obtain ⟨hcount, hitems⟩ := length_laterItems items
      have hlength : (Value.array (first :: items)).chars.length =
          first.chars.length + (laterItems items).length + 2 := by
        rw [Value.chars, itemsChars_cons]
        simp
        omega
      rw [hlength, List.length_cons]
      refine ⟨by omega, fun item hmem => ?_⟩
      rcases List.mem_cons.1 hmem with rfl | hmem
      · omega
      · have hle := hitems item hmem
        omega

/-- An object has fewer members than characters, and their values are shorter than itself. -/
theorem length_object (members : List (String × Value)) :
    members.length < (Value.object members).chars.length ∧
      ∀ member ∈ members, member.2.chars.length < (Value.object members).chars.length := by
  cases members with
  | nil => exact ⟨Nat.two_pos, fun member hmem => nomatch hmem⟩
  | cons first members =>
      obtain ⟨hcount, hmembers⟩ := length_laterMembers members
      have hlength : (Value.object (first :: members)).chars.length =
          (stringChars first.1).length + first.2.chars.length + (laterMembers members).length +
            3 := by
        rw [Value.chars, membersChars_cons]
        simp
        omega
      rw [hlength, List.length_cons]
      refine ⟨by omega, fun member hmem => ?_⟩
      rcases List.mem_cons.1 hmem with rfl | hmem
      · omega
      · have hle := hmembers member hmem
        omega

theorem chars_array_append (items : List Value) (rest : List Char) :
    (Value.array items).chars ++ rest = '[' :: (itemsChars items ++ ']' :: rest) := by
  rw [Value.chars]
  simp

theorem chars_object_append (members : List (String × Value)) (rest : List Char) :
    (Value.object members).chars ++ rest = '\x7b' :: (membersChars members ++ '\x7d' :: rest) := by
  rw [Value.chars]
  simp

/-- **What is written for a value is read as this value**, whatever mark follows it. -/
theorem Legible.readValue_chars (h : Legible depth value) {size : Nat}
    (hsize : value.chars.length < size) {rest : List Char} (hrest : Delimited rest) :
    readValue .kept size depth (value.chars ++ rest) = .ok (value, rest) := by
  induction h generalizing rest with
  | null => exact readValue_of_scalar (by decide) (by decide) (by decide) size _ _
  | boolean value =>
      cases value with
      | false => exact readValue_of_scalar (by decide) (by decide) (by decide) size _ _
      | true => exact readValue_of_scalar (by decide) (by decide) (by decide) size _ _
  | number hnumber => exact readValue_number hnumber size _ hrest
  | string text => exact readValue_stringChars size _ text rest
  | @array depth items hitems ih =>
      obtain ⟨hcount, hlength⟩ := length_array items
      have hsteps := steps_pushElement (readValue .kept size depth) [] fun item hmem rest =>
        ih item hmem (Nat.lt_trans (hlength item hmem) hsize)
      rw [chars_array_append, readValue_array, foldElements_itemsChars hsteps
        (fun item hmem => (hitems item hmem).exists_chars_eq_cons) (Nat.lt_trans hcount hsize)]
      simp [Except.map]
  | @object depth members hmembers ih =>
      obtain ⟨hcount, hlength⟩ := length_object members
      have hsteps := steps_pushMember (readValue .kept size depth) [] fun member hmem rest =>
        ih member hmem (Nat.lt_trans (hlength member hmem) hsize)
      rw [chars_object_append, readValue_object, foldMembers_membersChars hsteps
        (Nat.lt_trans hcount hsize)]
      simp [Except.map]

end Values

end StackPipeline.Json
