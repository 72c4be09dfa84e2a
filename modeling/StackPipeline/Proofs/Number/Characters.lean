import StackPipeline.Number.Layout
import StackPipeline.Proofs.Text.Blanks

/-!
The characters of a written number.  It is a single word, and its first character is a digit or a sign
unless it is one of the unsigned words for an infinity and for what is no number.
-/

namespace StackPipeline.Number

open Text (IsWord isBlank)

/-- Digits, signs, a point and the letters of `inf`, `nan` and `NaN`. -/
def isNumeral (c : Char) : Bool :=
  c.isDigit || c ∈ ['+', '-', '.', 'i', 'n', 'f', 'a', 'N']

def opensNumeral (c : Char) : Bool :=
  c.isDigit || c ∈ ['+', '-']

theorem isNumeral_of_isDigit {c : Char} (h : c.isDigit = true) : isNumeral c = true := by
  simp [isNumeral, h]

theorem isBlank_of_isDigit {c : Char} (h : c.isDigit = true) : isBlank c = false := by
  rw [Char.isDigit_iff_toNat] at h
  obtain ⟨hlow, hhigh⟩ : 48 ≤ c.toNat ∧ c.toNat ≤ 57 := h
  simp only [isBlank, Bool.or_eq_false_iff, Bool.and_eq_false_iff, decide_eq_false_iff_not,
    beq_eq_false_iff_ne]
  omega

theorem isBlank_of_isNumeral {c : Char} (h : isNumeral c = true) : isBlank c = false := by
  rw [isNumeral, Bool.or_eq_true] at h
  rcases h with h | h
  · exact isBlank_of_isDigit h
  · have hword : IsWord ['+', '-', '.', 'i', 'n', 'f', 'a', 'N'] := by decide
    exact hword.not_blank c (of_decide_eq_true h)

theorem isDigit_of_mem_digitsOf {n : Nat} {c : Char} (h : c ∈ digitsOf n) : c.isDigit = true :=
  Nat.isDigit_of_mem_toDigits (by decide) (by decide) h

theorem digitsOf_ne_nil (n : Nat) : digitsOf n ≠ [] :=
  Nat.toDigits_ne_nil

/-- The characters of a number without exponent. -/
theorem isDigit_of_mem_positional {d : Decimal} {c : Char} (h : c ∈ d.positional []) :
    c.isDigit = true ∨ c = '.' := by
  have hdigits : ∀ c ∈ digitsOf d.digits, c.isDigit = true := fun c hc => isDigit_of_mem_digitsOf hc
  rw [Decimal.positional] at h
  split at h
  · simp only [List.append_nil, List.mem_append, List.mem_replicate] at h
    rcases h with h | ⟨_, rfl⟩
    · exact .inl (hdigits c h)
    · exact .inl rfl
  · split at h
    · simp only [List.mem_append, List.mem_cons] at h
      rcases h with h | rfl | h
      · exact .inl (hdigits c (List.mem_of_mem_take h))
      · exact .inr rfl
      · exact .inl (hdigits c (List.mem_of_mem_drop h))
    · simp only [List.mem_cons, List.mem_append, List.mem_replicate] at h
      rcases h with rfl | rfl | ⟨_, rfl⟩ | h
      · exact .inl rfl
      · exact .inr rfl
      · exact .inl rfl
      · exact .inl (hdigits c h)

/-- It starts with a digit. -/
theorem exists_positional_eq_cons (d : Decimal) :
    ∃ c rest, d.positional [] = c :: rest ∧ c.isDigit = true := by
  obtain ⟨c, rest, hdigits⟩ := List.exists_cons_of_ne_nil (digitsOf_ne_nil d.digits)
  have hc : c.isDigit = true := isDigit_of_mem_digitsOf (hdigits ▸ List.mem_cons_self)
  rw [Decimal.positional]
  split
  · exact ⟨c, _, by rw [hdigits, List.cons_append, List.cons_append], hc⟩
  · rw [hdigits]
    split
    · rename_i hpoint
      obtain ⟨n, hn⟩ : ∃ n, (d.exponent + ((c :: rest).length : Int)).toNat = n + 1 :=
        Nat.exists_eq_succ_of_ne_zero (by omega)
      rw [hn, List.take_succ_cons, List.cons_append]
      exact ⟨c, _, rfl, hc⟩
    · exact ⟨'0', _, rfl, rfl⟩

theorem isNumeral_of_mem_plain {x : Float} {c : Char} (h : c ∈ plain x) : isNumeral c = true := by
  have hsign : ∀ negative, c ∈ sign negative → isNumeral c = true := by
    intro negative hc
    cases negative with
    | true =>
        obtain rfl := List.mem_singleton.1 hc
        rfl
    | false => exact absurd hc List.not_mem_nil
  have hword : ∀ word : List Char, word.all isNumeral = true → c ∈ word → isNumeral c = true :=
    fun word hall hc => List.all_eq_true.1 hall c hc
  rw [plain] at h
  split at h
  · exact hword _ (by decide) h
  · rcases List.mem_append.1 h with h | h
    · exact hsign _ h
    · exact hword _ (by decide) h
  · rcases List.mem_append.1 h with h | h
    · exact hsign _ h
    · exact hword _ (by decide) h
  · rcases List.mem_append.1 h with h | h
    · exact hsign _ h
    · rcases isDigit_of_mem_positional h with hc | rfl
      · exact isNumeral_of_isDigit hc
      · rfl

theorem plain_ne_nil (x : Float) : plain x ≠ [] := by
  rw [plain]
  split
  · exact List.cons_ne_nil _ _
  · exact List.append_ne_nil_of_right_ne_nil _ (List.cons_ne_nil _ _)
  · exact List.append_ne_nil_of_right_ne_nil _ (List.cons_ne_nil _ _)
  · rename_i b _
    obtain ⟨c, rest, heq, -⟩ := exists_positional_eq_cons (b.shortest .larger)
    rw [heq]
    exact List.append_ne_nil_of_right_ne_nil _ (List.cons_ne_nil _ _)

theorem isWord_plain (x : Float) : IsWord (plain x) :=
  ⟨plain_ne_nil x, fun _ hc => isBlank_of_isNumeral (isNumeral_of_mem_plain hc)⟩

/-- A signed number starts with a digit or a sign, and so is not taken for a name. -/
theorem exists_signed_eq_cons (x : Float) :
    ∃ c rest, signed x = c :: rest ∧ opensNumeral c = true := by
  rw [signed]
  split
  · exact ⟨'+', _, rfl, rfl⟩
  · rename_i negative _
    cases negative with
    | true => exact ⟨'-', _, rfl, rfl⟩
    | false => exact ⟨'+', _, rfl, rfl⟩
  · rename_i hnan hinfinite
    rw [plain]
    split
    · rename_i h
      exact absurd h hnan
    · rename_i h
      exact absurd h (hinfinite _)
    · rename_i negative _
      cases negative with
      | true => exact ⟨'-', _, rfl, rfl⟩
      | false => exact ⟨'0', _, rfl, rfl⟩
    · rename_i negative b _
      obtain ⟨c, rest, heq, hc⟩ := exists_positional_eq_cons (b.shortest .larger)
      rw [heq]
      cases negative with
      | true => exact ⟨'-', _, rfl, rfl⟩
      | false => exact ⟨c, rest, rfl, by simp [opensNumeral, hc]⟩

theorem isNumeral_of_mem_signed {x : Float} {c : Char} (h : c ∈ signed x) : isNumeral c = true := by
  rw [signed] at h
  split at h
  · have hall : ['+', 'n', 'a', 'n'].all isNumeral = true := by decide
    exact List.all_eq_true.1 hall c h
  · rename_i negative _
    have hall : ((if negative then '-' else '+') :: ['i', 'n', 'f']).all isNumeral = true := by
      cases negative with
      | true => decide
      | false => decide
    exact List.all_eq_true.1 hall c h
  · exact isNumeral_of_mem_plain h

theorem isWord_signed (x : Float) : IsWord (signed x) := by
  obtain ⟨c, rest, heq, -⟩ := exists_signed_eq_cons x
  refine ⟨?_, fun _ hc => isBlank_of_isNumeral (isNumeral_of_mem_signed hc)⟩
  rw [heq]
  exact List.cons_ne_nil c rest

end StackPipeline.Number
