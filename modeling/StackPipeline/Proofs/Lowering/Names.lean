import StackPipeline.Lowering

/-!
The names that lowering makes up: no two are the same, and a program can stay clear of them.
-/

namespace StackPipeline.Lowering

theorem toDigits_injective {m n : Nat} (h : Nat.toDigits 10 m = Nat.toDigits 10 n) : m = n := by
  rw [← Nat.ofDigitChars_ten_toDigits (n := m), h, Nat.ofDigitChars_ten_toDigits]

@[simp] theorem labelName_inj {m n : Nat} : labelName m = labelName n ↔ m = n := by
  constructor
  · intro h
    have hchars := congrArg String.toList h
    simp only [labelName, String.toList_ofList, List.cons.injEq, true_and] at hchars
    exact toDigits_injective hchars
  · rintro rfl
    rfl

@[simp] theorem temporaryName_inj {m n : Nat} : temporaryName m = temporaryName n ↔ m = n := by
  constructor
  · intro h
    have hchars := congrArg String.toList h
    simp only [temporaryName, String.toList_ofList, List.cons.injEq, true_and] at hchars
    exact toDigits_injective hchars
  · rintro rfl
    rfl

/-- Whether a name is a `t` followed by digits. -/
def looksTemporary (name : String) : Bool :=
  match name.toList with
  | 't' :: c :: rest => (c :: rest).all Char.isDigit
  | _ => false

/-- A name that lowering does not make up for a value. -/
def IsVariable (name : String) : Prop :=
  ∀ number, name ≠ temporaryName number

theorem looksTemporary_temporaryName (number : Nat) :
    looksTemporary (temporaryName number) = true := by
  rw [looksTemporary, temporaryName, String.toList_ofList]
  have hdigits : ∀ c ∈ Nat.toDigits 10 number, c.isDigit = true :=
    fun c hc => Nat.isDigit_of_mem_toDigits (by decide) (by decide) hc
  cases hlist : Nat.toDigits 10 number with
  | nil => exact absurd hlist Nat.toDigits_ne_nil
  | cons c rest =>
      rw [hlist] at hdigits
      exact List.all_eq_true.2 hdigits

theorem isVariable_of_looksTemporary_eq_false {name : String} (h : looksTemporary name = false) :
    IsVariable name := by
  rintro number rfl
  rw [looksTemporary_temporaryName] at h
  cases h

end StackPipeline.Lowering
