import StackPipeline.Listing.Printer
import StackPipeline.Listing.Reader
import StackPipeline.Proofs.Number.ReadBack
import StackPipeline.Proofs.Text.Quotes

/-!
How names have to be spelled for the text of an instruction to come apart where it was put together,
and which characters the text of an operand has.
-/

namespace StackPipeline.Listing

open Text

/-- A literal, or a name that is one word and is not taken for a literal. -/
def Operand.IsToken : Operand → Prop
  | .number _ => True
  | .name x => IsWord x.toList ∧ ofToken x.toList = .name x

/-- A literal, or a name that can stand between two commas and is not taken for a literal.  Blanks may
stand inside it. -/
def Operand.IsArgument : Operand → Prop
  | .number _ => True
  | .name x =>
    x.toList ≠ [] ∧ Bare x.toList ∧ ',' ∉ x.toList ∧ '\n' ∉ x.toList ∧ ofToken x.toList = .name x

/-- The text of the operand is taken for the start of a prompt. -/
def Operand.OpensPrompt (operand : Operand) : Prop :=
  "READ\"".toList <+: operand.chars

/-- The operands of a source are tokens; the first does not look like a prompt and the last not like a
label. -/
def Source.WellSpelled : Source → Prop
  | .operand value => value.IsToken ∧ ¬value.OpensPrompt ∧ value.chars.getLast? ≠ some ':'
  | .operation _ left right =>
    left.IsToken ∧ right.IsToken ∧ ¬left.OpensPrompt ∧ right.chars.getLast? ≠ some ':'
  | .read _ => True

/-- The names of an instruction are spelled so that its text comes apart where it was put together,
but for a target that is a keyword. -/
def Instruction.WellSpelled : Instruction → Prop
  | .assign target source =>
    IsWord target.toList ∧ '=' ∉ target.toList ∧ target.toList.head? ≠ some '#' ∧ source.WellSpelled
  | .label name => IsWord name.toList ∧ name.toList.head? ≠ some '#'
  | .goto destination => IsWord destination.toList
  | .branch condition destination => condition.IsToken ∧ IsWord destination.toList
  | .print _ arguments => ∀ argument ∈ arguments, argument.IsArgument
  | .ret (some value) => value.IsToken
  | .comment text => Bare text.toList ∧ '\n' ∉ text.toList
  | .ret none | .breakLoop | .continueLoop => True

/-- The words that open another instruction when a space follows them. -/
def keywords : List String :=
  ["return", "goto", "if"]

/-- The instruction assigns a name that opens another instruction. -/
def Instruction.AssignsKeyword : Instruction → Prop
  | .assign target _ => target ∈ keywords
  | _ => False

instance (instruction : Instruction) : Decidable instruction.AssignsKeyword := by
  cases instruction with
  | assign target source => exact inferInstanceAs (Decidable (target ∈ keywords))
  | _ => exact inferInstanceAs (Decidable False)

section Numerals

theorem looksNumeric_signed (value : Float) : looksNumeric (Number.signed value) = true := by
  obtain ⟨c, rest, heq, hc⟩ := Number.exists_signed_eq_cons value
  rw [heq, looksNumeric]
  simp only [Number.opensNumeral, Bool.or_eq_true, decide_eq_true_eq, List.mem_cons,
    List.not_mem_nil, or_false] at hc
  rcases hc with hc | rfl | rfl
  · simp [hc]
  · rfl
  · rfl

theorem not_mem_signed {c : Char} (h : Number.isNumeral c = false) (value : Float) :
    c ∉ Number.signed value := by
  intro hmem
  rw [Number.isNumeral_of_mem_signed hmem] at h
  cases h

end Numerals

section Operands

variable {operand : Operand}

theorem Operand.ofToken_signed (value : Float) :
    ofToken (Number.signed value) = .number value := by
  rw [ofToken, if_pos (looksNumeric_signed value), Number.read?_signed]

theorem Operand.IsToken.isWord (h : operand.IsToken) : IsWord operand.chars := by
  cases operand with
  | number value => exact Number.isWord_signed value
  | name x => exact h.1

theorem Operand.IsToken.ofToken_chars (h : operand.IsToken) : ofToken operand.chars = operand := by
  cases operand with
  | number value => exact ofToken_signed value
  | name x => exact h.2

theorem Operand.IsArgument.chars_shape (h : operand.IsArgument) :
    operand.chars ≠ [] ∧ Bare operand.chars ∧ ',' ∉ operand.chars ∧ '\n' ∉ operand.chars := by
  cases operand with
  | number value =>
      have hword := Number.isWord_signed value
      exact ⟨hword.ne_nil, hword.bare, not_mem_signed (by decide) value,
        not_mem_signed (by decide) value⟩
  | name x => exact ⟨h.1, h.2.1, h.2.2.1, h.2.2.2.1⟩

theorem Operand.IsArgument.ofToken_chars (h : operand.IsArgument) :
    ofToken operand.chars = operand := by
  cases operand with
  | number value => exact ofToken_signed value
  | name x => exact h.2.2.2.2

/-- A token that is taken for a name is that name. -/
theorem Operand.isToken_ofToken {token : List Char} (h : IsWord token) : (ofToken token).IsToken := by
  rw [ofToken]
  split
  · rename_i hlooks
    split
    · trivial
    · rename_i hread
      refine ⟨by rwa [String.toList_ofList], ?_⟩
      rw [String.toList_ofList, ofToken, if_pos hlooks, hread]
  · rename_i hlooks
    refine ⟨by rwa [String.toList_ofList], ?_⟩
    rw [String.toList_ofList, ofToken, if_neg hlooks]

theorem Operand.isArgument_ofToken {token : List Char} (hne : token ≠ []) (hbare : Bare token)
    (hcomma : ',' ∉ token) (hfeed : '\n' ∉ token) : (ofToken token).IsArgument := by
  rw [ofToken]
  split
  · rename_i hlooks
    split
    · trivial
    · rename_i hread
      rw [IsArgument, String.toList_ofList]
      refine ⟨hne, hbare, hcomma, hfeed, ?_⟩
      rw [ofToken, if_pos hlooks, hread]
  · rename_i hlooks
    rw [IsArgument, String.toList_ofList]
    refine ⟨hne, hbare, hcomma, hfeed, ?_⟩
    rw [ofToken, if_neg hlooks]

/-- A name keeps the text of its token; a literal is written in its own way. -/
theorem Operand.chars_ofToken_or (token : List Char) :
    (ofToken token).chars = token ∨ ∃ value, ofToken token = .number value := by
  rw [ofToken]
  split
  · split
    · exact .inr ⟨_, rfl⟩
    · exact .inl (String.toList_ofList)
  · exact .inl (String.toList_ofList)

theorem Operand.not_opensPrompt_number (value : Float) : ¬(Operand.number value).OpensPrompt := by
  intro h
  exact not_mem_signed (c := '"') (by decide) value (h.subset (by decide))

theorem Operand.getLast?_number_ne (value : Float) :
    (Operand.number value).chars.getLast? ≠ some ':' := by
  intro h
  exact not_mem_signed (by decide) value (List.mem_of_getLast? h)

end Operands

end StackPipeline.Listing
