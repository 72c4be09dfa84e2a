import Mathlib.Algebra.Order.Field.Basic
import Mathlib.Algebra.Order.Field.Power
import Mathlib.Data.Rat.Cast.Order
import Mathlib.Tactic.FieldSimp
import Mathlib.Tactic.Linarith
import Mathlib.Tactic.NormNum
import Mathlib.Tactic.Positivity
import Mathlib.Tactic.Ring
import StackPipeline.Proofs.Number.Doubles

/-!
Rounding.  The arithmetic of doubles cuts a quotient to 53 binary digits, or fewer at the least
exponent, and rounds by what is cut off; so every number in the interval of a double is rounded to it.
-/

namespace StackPipeline.Number

open Float.Model (Format UnpackedFloat totalExponent)
open Float.Model.UnpackedFloat (Accuracy ExtendedMantissa Sign accuracyOfFraction divCore
  roundWithAccuracy shiftToExponent shiftToTargetExponent)

/-- A quotient cut after its whole part: the next binary digit, and whether anything follows it. -/
def quotient (n d : Nat) : ExtendedMantissa :=
  ⟨n / d, n * 2 / d % 2 != 0, n * 2 % d != 0⟩

/-- The value is rounded to the whole number, an even one being preferred. -/
structure RoundsTo (value : ℚ) (m : Nat) : Prop where
  low : (m : ℚ) - 1 / 2 ≤ value
  high : value ≤ m + 1 / 2
  odd : m % 2 = 1 → (m : ℚ) - 1 / 2 < value ∧ value < m + 1 / 2

section Quotients

variable {q r d : Nat}

/-- Less than a half is cut off. -/
theorem quotient_of_lt (h : r * 2 < d) : quotient (d * q + r) d = ⟨q, false, r != 0⟩ := by
  have hd : 0 < d := by omega
  have hwhole : (d * q + r) / d = q := Nat.div_eq_of_lt_le (by rw [Nat.mul_comm]; omega)
    (by rw [Nat.add_mul, Nat.mul_comm]; omega)
  have hdouble : (d * q + r) * 2 = r * 2 + d * (q * 2) := by ring
  rw [quotient, hwhole, hdouble, Nat.add_mul_div_left _ _ hd, Nat.add_mul_mod_self_left,
    Nat.div_eq_of_lt h, Nat.mod_eq_of_lt h]
  congr 1
  · rw [Nat.zero_add, Nat.mul_mod_left]
    rfl
  · rw [Bool.eq_iff_iff, bne_iff_ne, bne_iff_ne]
    omega

/-- A half or more is cut off. -/
theorem quotient_of_le (h : d ≤ r * 2) (hr : r < d) :
    quotient (d * q + r) d = ⟨q, true, r * 2 != d⟩ := by
  have hd : 0 < d := by omega
  have hwhole : (d * q + r) / d = q := Nat.div_eq_of_lt_le (by rw [Nat.mul_comm]; omega)
    (by rw [Nat.add_mul, Nat.mul_comm]; omega)
  have hdouble : (d * q + r) * 2 = (r * 2 - d) + d * (q * 2 + 1) := by
    obtain ⟨s, hs⟩ := Nat.exists_eq_add_of_le h
    rw [hs, Nat.add_sub_cancel_left, Nat.add_mul, hs]
    ring
  have hlt : r * 2 - d < d := by omega
  rw [quotient, hwhole, hdouble, Nat.add_mul_div_left _ _ hd, Nat.add_mul_mod_self_left,
    Nat.div_eq_of_lt hlt, Nat.mod_eq_of_lt hlt]
  congr 1
  · rw [Nat.zero_add, Nat.mul_add_mod_of_lt (by omega)]
    rfl
  · rw [Bool.eq_iff_iff, bne_iff_ne, bne_iff_ne]
    omega

variable {n : Nat}

/-- Every quotient is of one of the two kinds. -/
theorem exists_remainder (n : Nat) (hd : 0 < d) : ∃ q r, n = d * q + r ∧ r < d :=
  ⟨n / d, n % d, (Nat.div_add_mod n d).symm, Nat.mod_lt n hd⟩

/-- Something follows the whole part if there is a remainder. -/
theorem roundBit_or_stickyBit_quotient (hd : 0 < d) (n : Nat) :
    ((quotient n d).roundBit || (quotient n d).stickyBit) = (n % d != 0) := by
  obtain ⟨q, r, rfl, hr⟩ := exists_remainder n hd
  rw [Nat.mul_add_mod, Nat.mod_eq_of_lt hr, Bool.eq_iff_iff]
  rcases Nat.lt_or_ge (r * 2) d with h | h
  · rw [quotient_of_lt h, Bool.false_or]
  · rw [quotient_of_le h hr, Bool.true_or, bne_iff_ne]
    exact iff_of_true rfl (by omega)

theorem shiftRightOne_quotient (hd : 0 < d) (n : Nat) :
    (quotient n d).shiftRightOne = quotient n (d * 2) := by
  rw [ExtendedMantissa.shiftRightOne, roundBit_or_stickyBit_quotient hd, quotient, quotient,
    Nat.mul_div_mul_right _ _ (by decide), Nat.mul_mod_mul_right, Nat.div_div_eq_div_mul]
  congr 1
  rw [Bool.eq_iff_iff, bne_iff_ne, bne_iff_ne]
  omega

theorem shiftRight_quotient (hd : 0 < d) (n k : Nat) :
    quotient n d >>> k = quotient n (d * 2 ^ k) := by
  change Nat.repeat ExtendedMantissa.shiftRightOne k (quotient n d) = _
  induction k with
  | zero => rw [Nat.pow_zero, Nat.mul_one]; rfl
  | succ k ih =>
      rw [Nat.repeat, ih, shiftRightOne_quotient (Nat.mul_pos hd (Nat.two_pow_pos k)), Nat.mul_assoc,
        Nat.pow_succ]

/-- A quotient that is cut in two steps is cut as in one. -/
theorem ofMantissaAndAccuracy_quotient (hd : 0 < d) (n : Nat) :
    ExtendedMantissa.ofMantissaAndAccuracy (n / d) (accuracyOfFraction (n % d) d) = quotient n d := by
  obtain ⟨q, r, rfl, hr⟩ := exists_remainder n hd
  rw [Nat.mul_add_div hd, Nat.div_eq_of_lt hr, Nat.add_zero, Nat.mul_add_mod, Nat.mod_eq_of_lt hr,
    accuracyOfFraction]
  by_cases hzero : r = 0
  · rw [if_pos hzero, quotient_of_lt (by omega), bne_eq_false_iff_eq.2 hzero]
    rfl
  · rw [if_neg hzero]
    rcases Nat.lt_trichotomy (2 * r) d with h | h | h
    · rw [Nat.compare_eq_lt.2 h, quotient_of_lt (by omega), bne_iff_ne.2 hzero]
      rfl
    · rw [Nat.compare_eq_eq.2 h, quotient_of_le (by omega) hr, bne_eq_false_iff_eq.2 (by omega)]
      rfl
    · rw [Nat.compare_eq_gt.2 h, quotient_of_le (by omega) hr, bne_iff_ne.2 (by omega)]
      rfl

theorem ofMantissaAndAccuracy_exact (m : Nat) :
    ExtendedMantissa.ofMantissaAndAccuracy m .exact = quotient m 1 := by
  have h := ofMantissaAndAccuracy_quotient Nat.one_pos m
  rwa [Nat.div_one, Nat.mod_one] at h

/-- Rounding a quotient finds the whole number it is rounded to. -/
theorem roundedMantissa_quotient (hd : 0 < d) {m : Nat} (h : RoundsTo ((n : ℚ) / d) m) :
    (quotient n d).roundedMantissa = m := by
  obtain ⟨q, r, rfl, hr⟩ := exists_remainder n hd
  have hd' : (0 : ℚ) < d := Nat.cast_pos.2 hd
  have hvalue : ((d * q + r : Nat) : ℚ) / d = q + r / d := by
    push_cast
    field_simp
  rw [hvalue] at h
  have hnonneg : (0 : ℚ) ≤ r / d := by positivity
  have hone : (r : ℚ) / d < 1 := (div_lt_one hd').2 (Nat.cast_lt.2 hr)
  have hlow := h.low
  have hhigh := h.high
  rcases Nat.lt_trichotomy (r * 2) d with hhalf | hhalf | hhalf
  · have hless : (r : ℚ) / d < 1 / 2 := by
      rw [div_lt_div_iff₀ hd' two_pos, one_mul]
      exact_mod_cast hhalf
    have hround : (quotient (d * q + r) d).roundedMantissa = q := by
      rw [quotient_of_lt hhalf]
      cases r != 0 <;> rfl
    have hle : m < q + 1 := by exact_mod_cast (by linarith : (m : ℚ) < q + 1)
    have hge : q < m + 1 := by exact_mod_cast (by linarith : (q : ℚ) < m + 1)
    omega
  · have hequal : (r : ℚ) / d = 1 / 2 := by
      rw [div_eq_div_iff hd'.ne' two_ne_zero, one_mul]
      exact_mod_cast hhalf
    have hround : (quotient (d * q + r) d).roundedMantissa = q + q % 2 := by
      rw [quotient_of_le hhalf.ge hr, bne_eq_false_iff_eq.2 hhalf]
      rfl
    rw [hequal] at hlow hhigh
    have hle : m ≤ q + 1 := by exact_mod_cast (by linarith : (m : ℚ) ≤ q + 1)
    have hge : q ≤ m := by exact_mod_cast (by linarith : (q : ℚ) ≤ m)
    have heven : m % 2 = 1 → m < q + 1 ∧ q < m := by
      intro hodd
      obtain ⟨hlow, hhigh⟩ := h.odd hodd
      rw [hequal] at hlow hhigh
      exact ⟨by exact_mod_cast (by linarith : (m : ℚ) < q + 1),
        by exact_mod_cast (by linarith : (q : ℚ) < m)⟩
    omega
  · have hmore : 1 / 2 < (r : ℚ) / d := by
      rw [div_lt_div_iff₀ two_pos hd', one_mul]
      exact_mod_cast hhalf
    have hround : (quotient (d * q + r) d).roundedMantissa = q + 1 := by
      rw [quotient_of_le hhalf.le hr, bne_iff_ne.2 hhalf.ne']
      rfl
    have hle : m < q + 2 := by exact_mod_cast (by linarith : (m : ℚ) < q + 2)
    have hge : q < m := by exact_mod_cast (by linarith : (q : ℚ) < m)
    omega

end Quotients

def Binary.value (b : Binary) : ℚ :=
  b.mantissa * (2 : ℚ) ^ b.exponent

/-- How far the reals that read back as the double reach below it, in units of its last digit. -/
def Binary.reach (b : Binary) : ℚ :=
  if b.isBoundary then 1 / 4 else 1 / 2

/-- The number reads back as the double. -/
structure Binary.Covers (b : Binary) (value : ℚ) : Prop where
  low : (b.mantissa - b.reach) * (2 : ℚ) ^ b.exponent ≤ value
  high : value ≤ (b.mantissa + 1 / 2) * (2 : ℚ) ^ b.exponent
  odd : b.mantissa % 2 = 1 → (b.mantissa - b.reach) * (2 : ℚ) ^ b.exponent < value ∧
    value < (b.mantissa + 1 / 2) * (2 : ℚ) ^ b.exponent

theorem two_zpow_pos (e : Int) : (0 : ℚ) < 2 ^ e :=
  zpow_pos two_pos e

theorem Binary.reach_pos (b : Binary) : 0 < b.reach := by
  rw [Binary.reach]
  split <;> norm_num

theorem Binary.reach_le (b : Binary) : b.reach ≤ 1 / 2 := by
  rw [Binary.reach]
  split <;> norm_num

/-- The exponent of the last digit that is kept of a number. -/
def lastPlace (m : Nat) (e : Int) : Int :=
  max (m.log2 + 1 + e - 53) (-1074)

section Shifts

theorem targetExponent_eq (m : Nat) (e : Int) :
    Format.binary64.targetExponent (totalExponent m e) = lastPlace m e :=
  rfl

/-- A quotient that is cut finer than needed is cut again. -/
theorem shiftToTargetExponent_quotient {n d : Nat} (hd : 0 < d) {e : Int} {accuracy : Accuracy}
    (haccuracy : ExtendedMantissa.ofMantissaAndAccuracy (n / d) accuracy = quotient n d)
    (hle : e ≤ lastPlace (n / d) e) :
    shiftToTargetExponent Format.binary64 (n / d) e accuracy =
      (quotient n (d * 2 ^ (lastPlace (n / d) e - e).toNat), lastPlace (n / d) e) := by
  rw [shiftToTargetExponent, shiftToExponent, targetExponent_eq, haccuracy,
    shiftRight_quotient hd]
  congr 1
  omega

theorem shiftToTargetExponent_exact {m k : Nat} {e : Int} (hk : (lastPlace m e - e).toNat = k) :
    shiftToTargetExponent Format.binary64 m e .exact = (quotient m (2 ^ k), e + k) := by
  rw [shiftToTargetExponent, shiftToExponent, targetExponent_eq, ofMantissaAndAccuracy_exact, hk,
    shiftRight_quotient Nat.one_pos, Nat.one_mul]

end Shifts

section Steps

variable {b : Binary} {value : ℚ} (h : b.Covers value)

include h

/-- In steps of its last digit, a covered number is rounded to the mantissa. -/
theorem Binary.Covers.roundsTo : RoundsTo (value / 2 ^ b.exponent) b.mantissa := by
  have hpos := two_zpow_pos b.exponent
  have hreach : ((b.mantissa : ℚ) - 1 / 2) * 2 ^ b.exponent ≤
      (b.mantissa - b.reach) * 2 ^ b.exponent :=
    mul_le_mul_of_nonneg_right (by linarith [b.reach_le]) hpos.le
  refine ⟨(le_div_iff₀ hpos).2 (hreach.trans h.low), (div_le_iff₀ hpos).2 h.high, fun hodd => ?_⟩
  exact ⟨(lt_div_iff₀ hpos).2 (hreach.trans_lt (h.odd hodd).1), (div_lt_iff₀ hpos).2 (h.odd hodd).2⟩

/-- In half steps, what is below a power of two is rounded to it. -/
theorem Binary.Covers.roundsTo_half (hpower : b.mantissa = 2 ^ 52) (hboundary : b.isBoundary = true)
    (hlt : value < 2 ^ 53 * 2 ^ (b.exponent - 1)) :
    RoundsTo (value / 2 ^ (b.exponent - 1)) (2 ^ 53) := by
  have hpos := two_zpow_pos (b.exponent - 1)
  have hsplit : (2 : ℚ) ^ b.exponent = 2 * 2 ^ (b.exponent - 1) := by
    rw [← zpow_one_add₀ two_ne_zero, add_sub_cancel]
  have hlow := h.low
  rw [hpower, Binary.reach, if_pos hboundary, hsplit] at hlow
  push_cast at hlow
  refine ⟨(le_div_iff₀ hpos).2 ?_, (div_le_iff₀ hpos).2 ?_, fun hodd => absurd hodd (by decide)⟩
  · push_cast
    linarith
  · push_cast
    linarith

end Steps

section Magnitude

variable {n d : Nat} (hd : 0 < d) (e : Int)

include hd

theorem quotient_lt_two_zpow :
    (n : ℚ) / d * 2 ^ e < 2 ^ (((n / d).log2 : Int) + 1 + e) := by
  have hlt : n < d * 2 ^ ((n / d).log2 + 1) := by
    rw [Nat.mul_comm, ← Nat.div_lt_iff_lt_mul hd]
    exact Nat.lt_log2_self
  have hlt : (n : ℚ) / d < 2 ^ ((n / d).log2 + 1) := by
    rw [div_lt_iff₀' (Nat.cast_pos.2 hd)]
    exact_mod_cast hlt
  have hsplit : (2 : ℚ) ^ (((n / d).log2 : Int) + 1 + e) = 2 ^ ((n / d).log2 + 1) * 2 ^ e := by
    rw [zpow_add₀ two_ne_zero]
    norm_cast
  rw [hsplit]
  exact mul_lt_mul_of_pos_right hlt (two_zpow_pos e)

theorem two_zpow_le_quotient (hne : n / d ≠ 0) :
    2 ^ (((n / d).log2 : Int) + e) ≤ (n : ℚ) / d * 2 ^ e := by
  have hle : d * 2 ^ (n / d).log2 ≤ n := by
    rw [Nat.mul_comm, ← Nat.le_div_iff_mul_le hd]
    exact Nat.log2_self_le hne
  have hle : 2 ^ (n / d).log2 ≤ (n : ℚ) / d := by
    rw [le_div_iff₀' (Nat.cast_pos.2 hd)]
    exact_mod_cast hle
  rw [zpow_add₀ two_ne_zero, zpow_natCast]
  exact mul_le_mul_of_nonneg_right hle (two_zpow_pos e).le

end Magnitude

/-- Rounding cuts twice: the given number, and once more what rounding makes of it. -/
theorem roundWithAccuracy_of_shifts {sign : Sign} {m m' : Nat} {e e₁ e₂ e' : Int}
    {accuracy : Accuracy} {em₁ em₂ : ExtendedMantissa}
    (h₁ : shiftToTargetExponent Format.binary64 m e accuracy = (em₁, e₁))
    (h₂ : shiftToTargetExponent Format.binary64 em₁.roundedMantissa e₁ .exact = (em₂, e₂))
    (hm : em₂.mantissa = m') (he : e₂ = e') (hpos : 0 < m') :
    roundWithAccuracy Format.binary64 sign m e accuracy = .finite sign m' e' hpos := by
  subst hm he
  delta roundWithAccuracy
  rw [h₁]
  change (match shiftToTargetExponent Format.binary64 em₁.roundedMantissa e₁ .exact with
    | (em, e) => if h : em.mantissa = 0 then UnpackedFloat.zero sign
      else .finite sign em.mantissa e (Nat.pos_of_ne_zero h)) = _
  rw [h₂]
  exact dif_neg hpos.ne'

section Rounding

variable {b : Binary} (hb : b.IsCanonical) {n d : Nat} (hd : 0 < d) {e : Int}

include hb hd

/-- What is covered is rounded in steps of the last digit, or in half steps just below a power of
two. -/
theorem Binary.IsCanonical.lastPlace_of_covers
    (hcovers : b.Covers ((n : ℚ) / d * 2 ^ e)) (hle : 2 ^ 52 ≤ n / d ∨ e ≤ -1074) :
    lastPlace (n / d) e = b.exponent ∨
      lastPlace (n / d) e = b.exponent - 1 ∧ b.isBoundary = true := by
  have hleast := hb.least_le
  have hupper : ((n / d).log2 : Int) + 1 + e - 53 ≤ b.exponent := by
    by_cases hzero : n / d = 0
    · rw [hzero, Nat.log2_zero]
      omega
    · have hm : (b.mantissa : ℚ) + 1 ≤ 2 ^ 53 := by exact_mod_cast hb.lt
      have hlt : (2 : ℚ) ^ (((n / d).log2 : Int) + e) < 2 ^ (53 + b.exponent) :=
        calc (2 : ℚ) ^ (((n / d).log2 : Int) + e) ≤ (n : ℚ) / d * 2 ^ e :=
              two_zpow_le_quotient hd e hzero
          _ ≤ (b.mantissa + 1 / 2) * 2 ^ b.exponent := hcovers.high
          _ < 2 ^ 53 * 2 ^ b.exponent :=
            mul_lt_mul_of_pos_right (by linarith) (two_zpow_pos _)
          _ = 2 ^ (53 + b.exponent) := by
            rw [zpow_add₀ two_ne_zero]
            rfl
      have hlt := (zpow_lt_zpow_iff_right₀ one_lt_two).1 hlt
      omega
  have hlower (k : Nat) (hk : (2 : ℚ) ^ k ≤ b.mantissa - b.reach) :
      (k : Int) + b.exponent ≤ ((n / d).log2 : Int) + e := by
    have hlt : (2 : ℚ) ^ ((k : Int) + b.exponent) < 2 ^ (((n / d).log2 : Int) + 1 + e) :=
      calc (2 : ℚ) ^ ((k : Int) + b.exponent) = 2 ^ k * 2 ^ b.exponent := by
            rw [zpow_add₀ two_ne_zero, zpow_natCast]
        _ ≤ (b.mantissa - b.reach) * 2 ^ b.exponent :=
          mul_le_mul_of_nonneg_right hk (two_zpow_pos _).le
        _ ≤ (n : ℚ) / d * 2 ^ e := hcovers.low
        _ < _ := quotient_lt_two_zpow hd e
    have hlt := (zpow_lt_zpow_iff_right₀ one_lt_two).1 hlt
    omega
  rw [lastPlace]
  rcases hb.full_or_least with hfull | hleast'
  · rcases Nat.lt_or_eq_of_le hfull with hmore | hpower
    · have hk := hlower 52 (by
        have hm : (2 : ℚ) ^ 52 + 1 ≤ b.mantissa := by exact_mod_cast hmore
        linarith [b.reach_le])
      omega
    · have hk := hlower 51 (by
        rw [← hpower]
        push_cast
        linarith [b.reach_le])
      by_cases hleast' : b.exponent = -1074
      · omega
      · rw [and_iff_left (hb.isBoundary_iff.2 ⟨hpower.symm, hleast'⟩)]
        omega
  · omega

/-- What is covered is rounded to the double. -/
theorem Binary.IsCanonical.roundWithAccuracy_eq {accuracy : Accuracy}
    (haccuracy : ExtendedMantissa.ofMantissaAndAccuracy (n / d) accuracy = quotient n d)
    (hcovers : b.Covers ((n : ℚ) / d * 2 ^ e)) (hle : 2 ^ 52 ≤ n / d ∨ e ≤ -1074) :
    roundWithAccuracy Format.binary64 .positive (n / d) e accuracy =
      .finite .positive b.mantissa b.exponent hb.pos := by
  have hfine : e ≤ lastPlace (n / d) e := by
    rw [lastPlace]
    rcases hle with hle | hle
    · have hlog := (Nat.le_log2 (by omega)).2 hle
      omega
    · omega
  have hscaled : (n : ℚ) / (d * 2 ^ (lastPlace (n / d) e - e).toNat : Nat) =
      (n : ℚ) / d * 2 ^ e / 2 ^ lastPlace (n / d) e := by
    obtain ⟨k, hk⟩ := Int.le.dest hfine
    rw [← hk, add_sub_cancel_left, Int.toNat_natCast, zpow_add₀ two_ne_zero, zpow_natCast]
    have hpos := two_zpow_pos e
    push_cast
    field_simp
  have hfirst := shiftToTargetExponent_quotient hd haccuracy hfine
  rcases hb.lastPlace_of_covers hd hcovers hle with htarget | ⟨htarget, hboundary⟩
  · rw [htarget] at hscaled hfirst
    have hround := roundedMantissa_quotient (n := n)
      (Nat.mul_pos hd (Nat.two_pow_pos (b.exponent - e).toNat)) (hscaled ▸ hcovers.roundsTo)
    -- The mantissa has room for the result, so that nothing is cut off after rounding.
    have hshift : (lastPlace b.mantissa b.exponent - b.exponent).toNat = 0 := by
      have hlog := (Nat.log2_lt hb.pos.ne').2 hb.lt
      have hleast := hb.least_le
      rw [lastPlace]
      omega
    have hsecond := shiftToTargetExponent_exact hshift
    rw [← hround] at hsecond
    refine roundWithAccuracy_of_shifts hfirst hsecond ?_ (Int.add_zero _) hb.pos
    rw [hround]
    exact Nat.div_one _
  · obtain ⟨hpower, hleast⟩ := hb.isBoundary_iff.1 hboundary
    rw [htarget] at hscaled hfirst
    have hlt : (n : ℚ) / d * 2 ^ e < 2 ^ 53 * 2 ^ (b.exponent - 1) := by
      rw [lastPlace] at htarget
      refine (quotient_lt_two_zpow hd e).trans_le ?_
      rw [← zpow_natCast, ← zpow_add₀ two_ne_zero]
      exact zpow_le_zpow_right₀ one_le_two (by omega)
    have hround := roundedMantissa_quotient (n := n)
      (Nat.mul_pos hd (Nat.two_pow_pos (b.exponent - 1 - e).toNat))
      (hscaled ▸ hcovers.roundsTo_half hpower hboundary hlt)
    -- Rounding up has made the mantissa one bit too long; that bit is a zero, and is cut off.
    have hshift : (lastPlace (2 ^ 53) (b.exponent - 1) - (b.exponent - 1)).toNat = 1 := by
      have hlog : (2 ^ 53 : Nat).log2 = 53 := Nat.log2_two_pow
      have hleast' := hb.least_le
      rw [lastPlace, hlog]
      omega
    have hsecond := shiftToTargetExponent_exact hshift
    rw [← hround] at hsecond
    refine roundWithAccuracy_of_shifts hfirst hsecond ?_ (by omega) hb.pos
    rw [hround]
    exact hpower.symm

end Rounding

section Operations

variable {b : Binary} (hb : b.IsCanonical) {m₁ m₂ : Nat} {e₁ e₂ : Int} (h₁ : 0 < m₁) (h₂ : 0 < m₂)

/-- A product is rounded to the double that covers it. -/
theorem Binary.IsCanonical.mul_eq
    (hcovers : b.Covers ((m₁ * 2 ^ e₁ : ℚ) * (m₂ * 2 ^ e₂)))
    (hle : 2 ^ 52 ≤ m₁ * m₂ ∨ e₁ + e₂ ≤ -1074) :
    UnpackedFloat.mul Format.binary64 (.finite .positive m₁ e₁ h₁) (.finite .positive m₂ e₂ h₂) =
      .finite .positive b.mantissa b.exponent hb.pos := by
  have hvalue : (m₁ * 2 ^ e₁ : ℚ) * (m₂ * 2 ^ e₂) =
      (m₁ * m₂ : Nat) / (1 : Nat) * 2 ^ (e₁ + e₂) := by
    rw [zpow_add₀ two_ne_zero]
    push_cast
    ring
  have haccuracy : ExtendedMantissa.ofMantissaAndAccuracy (m₁ * m₂ / 1) .exact =
      quotient (m₁ * m₂) 1 := by
    rw [Nat.div_one, ofMantissaAndAccuracy_exact]
  rw [hvalue] at hcovers
  have hround := hb.roundWithAccuracy_eq Nat.one_pos haccuracy hcovers (by rwa [Nat.div_one])
  rwa [Nat.div_one] at hround

/-- A quotient is rounded to the double that covers it. -/
theorem Binary.IsCanonical.div_eq
    (hcovers : b.Covers ((m₁ * 2 ^ e₁ : ℚ) / (m₂ * 2 ^ e₂))) :
    UnpackedFloat.div Format.binary64 (.finite .positive m₁ e₁ h₁) (.finite .positive m₂ e₂ h₂) =
      .finite .positive b.mantissa b.exponent hb.pos := by
  -- The quotient of the leading bits may come out one bit short; the cut leaves room for that.
  have htarget : Format.binary64.targetExponent (totalExponent m₁ e₁ - totalExponent m₂ e₂) =
      max ((m₁.log2 + 1 + e₁) - (m₂.log2 + 1 + e₂) - 53) (-1074) := rfl
  generalize hlow : min (e₁ - e₂) (max ((m₁.log2 + 1 + e₁) - (m₂.log2 + 1 + e₂) - 53) (-1074)) = e
  obtain ⟨k, hk⟩ : ∃ k : Nat, e + k = e₁ - e₂ := Int.le.dest (by omega)
  have hcore : divCore Format.binary64 m₁ e₁ m₂ e₂ =
      ((m₁ <<< k) / m₂, e, accuracyOfFraction ((m₁ <<< k) % m₂) m₂) := by
    have hshift : (e₁ - e₂ - e).toNat = k := by omega
    rw [divCore, htarget, hlow, hshift]
  have hvalue : (m₁ * 2 ^ e₁ : ℚ) / (m₂ * 2 ^ e₂) = (m₁ <<< k : Nat) / m₂ * 2 ^ e := by
    have hsplit : (2 : ℚ) ^ e₁ = 2 ^ e * 2 ^ k * 2 ^ e₂ := by
      rw [← zpow_natCast, ← zpow_add₀ two_ne_zero, ← zpow_add₀ two_ne_zero, hk, sub_add_cancel]
    have hpos := two_zpow_pos e₂
    have hm₂ : (0 : ℚ) < m₂ := Nat.cast_pos.2 h₂
    rw [hsplit, Nat.shiftLeft_eq]
    push_cast
    field_simp
  rw [hvalue] at hcovers
  have hle : 2 ^ 52 ≤ (m₁ <<< k) / m₂ ∨ e ≤ -1074 := by
    by_cases hleast : e ≤ -1074
    · exact .inr hleast
    · left
      rw [Nat.le_div_iff_mul_le h₂, Nat.shiftLeft_eq]
      calc 2 ^ 52 * m₂ ≤ 2 ^ 52 * 2 ^ (m₂.log2 + 1) :=
            Nat.mul_le_mul_left _ Nat.lt_log2_self.le
        _ = 2 ^ (52 + (m₂.log2 + 1)) := (Nat.pow_add 2 _ _).symm
        _ ≤ 2 ^ (m₁.log2 + k) := Nat.pow_le_pow_right two_pos (by omega)
        _ = 2 ^ m₁.log2 * 2 ^ k := Nat.pow_add 2 _ _
        _ ≤ m₁ * 2 ^ k := Nat.mul_le_mul_right _ (Nat.log2_self_le h₁.ne')
  change (match divCore Format.binary64 m₁ e₁ m₂ e₂ with
    | (m, e, accuracy) => roundWithAccuracy Format.binary64 .positive m e accuracy) = _
  rw [hcore]
  exact hb.roundWithAccuracy_eq h₂ (ofMantissaAndAccuracy_quotient h₂ _) hcovers hle

end Operations

end StackPipeline.Number
