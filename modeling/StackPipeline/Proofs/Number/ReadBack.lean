import StackPipeline.Proofs.Number.Characters
import StackPipeline.Proofs.Number.Shortest

/-!
Every number is read back from its text.  The digits say which decimal is written, wherever the point
stands, and that decimal is covered by the number.
-/

namespace StackPipeline.Number

section Digits

theorem ofDigits_eq (digits : List Char) : ofDigits digits = Nat.ofDigitChars 10 digits 0 := by
  rw [ofDigits, Nat.ofDigitChars_eq_foldl]
  congr 1
  funext n c
  rw [Nat.mul_comm]
  rfl

@[simp] theorem ofDigits_digitsOf (n : Nat) : ofDigits (digitsOf n) = n := by
  rw [ofDigits_eq, digitsOf, Nat.ofDigitChars_ten_toDigits]

/-- Zeros at the end multiply. -/
theorem ofDigits_append_zeros (digits : List Char) (k : Nat) :
    ofDigits (digits ++ List.replicate k '0') = ofDigits digits * 10 ^ k := by
  rw [ofDigits_eq, ofDigits_eq, Nat.ofDigitChars_append, Nat.ofDigitChars_replicate_zero,
    Nat.mul_comm]

/-- Zeros at the front are nothing. -/
theorem ofDigits_zeros_append (k : Nat) (digits : List Char) :
    ofDigits (List.replicate k '0' ++ digits) = ofDigits digits := by
  rw [ofDigits_eq, ofDigits_eq, Nat.ofDigitChars_append, Nat.ofDigitChars_replicate_zero,
    Nat.mul_zero]

def AllDigits (digits : List Char) : Prop :=
  ∀ c ∈ digits, c.isDigit = true

variable {whole fraction : List Char} (hwhole : AllDigits whole)

include hwhole

theorem spanDigits_append {rest : List Char} (hrest : ∀ c, rest.head? = some c → c.isDigit = false) :
    spanDigits (whole ++ rest) = (whole, rest) := by
  rw [spanDigits, List.span_eq_takeWhile_dropWhile, List.takeWhile_append_of_pos hwhole,
    List.dropWhile_append_of_pos hwhole]
  cases rest with
  | nil => rw [List.takeWhile_nil, List.dropWhile_nil, List.append_nil]
  | cons c rest =>
      rw [List.takeWhile_cons_of_neg (by rw [hrest c rfl]; exact Bool.false_ne_true),
        List.dropWhile_cons_of_neg (by rw [hrest c rfl]; exact Bool.false_ne_true), List.append_nil]

theorem spanDigits_of_allDigits : spanDigits whole = (whole, []) := by
  have h : spanDigits (whole ++ []) = (whole, []) :=
    spanDigits_append hwhole (fun c hc => by cases hc)
  rwa [List.append_nil] at h

/-- A whole number is read. -/
theorem readDecimal?_whole (hne : whole ≠ []) :
    readDecimal? whole = some (ofDecimal (ofDigits whole) 0) := by
  rw [readDecimal?, spanDigits_of_allDigits hwhole]
  dsimp only
  rw [List.isEmpty_eq_false_iff.2 hne, Bool.false_and, if_neg Bool.false_ne_true, List.append_nil]
  rfl

/-- A number with a point is read. -/
theorem readDecimal?_pointed (hne : whole ≠ []) (hfraction : AllDigits fraction) :
    readDecimal? (whole ++ '.' :: fraction) =
      some (ofDecimal (ofDigits (whole ++ fraction)) (-(fraction.length : Int))) := by
  have hspan : spanDigits (whole ++ '.' :: fraction) = (whole, '.' :: fraction) :=
    spanDigits_append hwhole (fun c hc => by cases hc; rfl)
  rw [readDecimal?, hspan]
  simp only [spanDigits_of_allDigits hfraction]
  rw [List.isEmpty_eq_false_iff.2 hne, Bool.false_and, if_neg Bool.false_ne_true, readExponent?]
  simp only [Int.zero_sub]

end Digits

section Texts

theorem allDigits_digitsOf (n : Nat) : AllDigits (digitsOf n) :=
  fun _ hc => isDigit_of_mem_digitsOf hc

theorem allDigits_zeros (k : Nat) : AllDigits (List.replicate k '0') := by
  intro c hc
  obtain ⟨-, rfl⟩ := List.mem_replicate.1 hc
  rfl

/-- What is written without exponent is read as the same decimal. -/
theorem exists_readDecimal?_positional (d : Decimal) : ∃ (m : Nat) (x : Int),
    readDecimal? (d.positional []) = some (ofDecimal m x) ∧ m * (10 : ℚ) ^ x = d.value := by
  have hdigits := allDigits_digitsOf d.digits
  rw [Decimal.positional, Decimal.value]
  split
  · rename_i hsign
    obtain ⟨k, hk⟩ := Int.eq_ofNat_of_zero_le hsign
    rw [hk, Int.toNat_natCast, List.append_nil]
    refine ⟨_, _, readDecimal?_whole ?_ ?_, ?_⟩
    · intro c hc
      exact (List.mem_append.1 hc).elim (hdigits c) (allDigits_zeros k c)
    · exact List.append_ne_nil_of_left_ne_nil (digitsOf_ne_nil _) _
    · rw [ofDigits_append_zeros, ofDigits_digitsOf, zpow_zero, mul_one, zpow_natCast]
      push_cast
      rfl
  · split
    · rename_i hsign hpoint
      obtain ⟨k, hk⟩ := Int.eq_ofNat_of_zero_le hpoint.le
      rw [hk, Int.toNat_natCast]
      refine ⟨_, _, readDecimal?_pointed ?_ ?_ ?_, ?_⟩
      · exact fun c hc => hdigits c (List.mem_of_mem_take hc)
      · intro hnil
        rw [List.take_eq_nil_iff] at hnil
        rcases hnil with rfl | hnil
        · omega
        · exact digitsOf_ne_nil _ hnil
      · exact fun c hc => hdigits c (List.mem_of_mem_drop hc)
      · rw [List.take_append_drop, ofDigits_digitsOf, List.length_drop]
        congr 2
        omega
    · rename_i hsign hpoint
      obtain ⟨k, hk⟩ : ∃ k : Nat, -(d.exponent + (digitsOf d.digits).length) = k :=
        Int.eq_ofNat_of_zero_le (by omega)
      rw [hk, Int.toNat_natCast]
      refine ⟨_, _, @readDecimal?_pointed ['0'] _ ?_ ?_ ?_, ?_⟩
      · exact allDigits_zeros 1
      · exact List.cons_ne_nil _ _
      · intro c hc
        exact (List.mem_append.1 hc).elim (allDigits_zeros k c) (hdigits c)
      · have hzeros := ofDigits_zeros_append (k + 1) (digitsOf d.digits)
        rw [ofDigits_digitsOf] at hzeros
        have hlength : -((List.replicate k '0' ++ digitsOf d.digits).length : Int) = d.exponent := by
          rw [List.length_append, List.length_replicate]
          push_cast
          omega
        rw [hlength]
        exact congrArg (fun n : Nat => (n : ℚ) * 10 ^ d.exponent) hzeros

/-- A number without exponent is not one of the words. -/
theorem readUnsigned?_positional (d : Decimal) :
    readUnsigned? (d.positional []) = readDecimal? (d.positional []) := by
  obtain ⟨c, rest, heq, hc⟩ := exists_positional_eq_cons d
  have hlower : c.toLower = c := by
    refine dif_neg fun hupper => ?_
    have hdigit := (Char.isDigit_iff_toNat.1 hc).2
    have hcapital : 65 ≤ c.toNat := hupper.1
    exact absurd (hcapital.trans hdigit) (by decide)
  have hhead : ∀ word, (c :: rest).map Char.toLower = word → word.head? = some c := by
    rintro _ rfl
    rw [List.map_cons, hlower]
    rfl
  rw [heq, readUnsigned?]
  split
  · rename_i hword
    cases hhead _ hword
    cases hc
  · rename_i hword
    cases hhead _ hword
    cases hc
  · rename_i hword
    cases hhead _ hword
    cases hc
  · rfl

theorem splitSign_sign_append (negative : Bool) (d : Decimal) :
    splitSign (sign negative ++ d.positional []) = (negative, d.positional []) := by
  cases negative with
  | true => rfl
  | false =>
      obtain ⟨c, rest, heq, hc⟩ := exists_positional_eq_cons d
      rw [heq]
      change splitSign (c :: rest) = _
      rw [splitSign]
      · intro _ h
        obtain ⟨rfl, -⟩ := List.cons.inj h
        exact absurd hc (by decide)
      · intro _ h
        obtain ⟨rfl, -⟩ := List.cons.inj h
        exact absurd hc (by decide)

end Texts

/-- **Every number is read back from its text.** -/
theorem read?_plain (x : Float) : read? (plain x) = some x := by
  have hdescribe := describe_parts x
  rw [plain]
  cases hparts : parts x with
  | nan =>
      rw [hparts] at hdescribe
      rw [hdescribe]
      rfl
  | infinite negative =>
      rw [hparts] at hdescribe
      rw [hdescribe]
      cases negative <;> rfl
  | zero negative =>
      rw [hparts] at hdescribe
      rw [hdescribe]
      cases negative <;> rfl
  | finite negative b =>
      obtain ⟨hb, rfl⟩ := hparts ▸ hdescribe
      obtain ⟨m, e, hread, hvalue⟩ := exists_readDecimal?_positional (b.shortest .larger)
      have hcovers := hb.covers_shortest .larger
      rw [← hvalue] at hcovers
      have hread : readUnsigned? ((b.shortest .larger).positional []) = some (hb.packed false) := by
        rw [readUnsigned?_positional, hread, hb.ofDecimal_eq hcovers]
      dsimp only
      rw [read?, splitSign_sign_append]
      cases negative with
      | true =>
          simp only [hread, Option.map_some]
          exact congrArg some (hb.neg_packed false)
      | false => exact hread

/-- A sign before an infinity, or before what is no number, changes nothing. -/
theorem read?_signed (x : Float) : read? (signed x) = some x := by
  have hplain := read?_plain x
  rw [signed]
  split
  · rename_i hnan
    rw [plain, hnan] at hplain
    exact hplain
  · rename_i negative hinfinite
    rw [plain, hinfinite] at hplain
    cases negative with
    | true => exact hplain
    | false => exact hplain
  · exact hplain

end StackPipeline.Number
