import Mathlib.Data.Nat.Cast.Order.Field
import StackPipeline.Proofs.Number.Decimals

/-!
The shortest decimal is covered by its double.  A point that the search takes lies in the interval, and
on the grid of seventeen digits, which is finer than the doubles are apart, there is such a point.
-/

namespace StackPipeline.Number

def Decimal.value (d : Decimal) : ℚ :=
  d.digits * (10 : ℚ) ^ d.exponent

theorem ten_zpow_pos (e : Int) : (0 : ℚ) < 10 ^ e :=
  zpow_pos (by norm_num) e

section Intervals

def Interval.lowest (i : Interval) : ℚ := i.low / i.denominator

def Interval.middle (i : Interval) : ℚ := i.value / i.denominator

def Interval.highest (i : Interval) : ℚ := i.high / i.denominator

section Grid

variable (i : Interval) (x : Int)

/-- On a grid, everything is measured in its steps. -/
theorem Interval.div_onGrid (a : Nat) :
    ((a * Nat.pow 10 (-x).toNat : Nat) : ℚ) / (i.onGrid x).denominator =
      a / i.denominator / 10 ^ x := by
  change ((a * 10 ^ (-x).toNat : Nat) : ℚ) / (i.denominator * 10 ^ x.toNat : Nat) = _
  rw [zpow_eq_div (by norm_num) x]
  push_cast
  field_simp

theorem Interval.lowest_onGrid : (i.onGrid x).lowest = i.lowest / 10 ^ x :=
  i.div_onGrid x i.low

theorem Interval.middle_onGrid : (i.onGrid x).middle = i.middle / 10 ^ x :=
  i.div_onGrid x i.value

theorem Interval.highest_onGrid : (i.onGrid x).highest = i.highest / 10 ^ x :=
  i.div_onGrid x i.high

end Grid

variable {i : Interval} {n : Nat} {tie : Tie}

theorem Interval.denominator_onGrid_pos (hd : 0 < i.denominator) (x : Int) :
    0 < (i.onGrid x).denominator :=
  Nat.mul_pos hd (Nat.pow_pos (by decide))

theorem Interval.holds_iff (hd : 0 < i.denominator) : i.holds n = true ↔
    if i.closed then i.lowest ≤ n ∧ n ≤ i.highest else i.lowest < n ∧ n < i.highest := by
  have hd' : (0 : ℚ) < i.denominator := Nat.cast_pos.2 hd
  rw [lowest, highest, div_le_iff₀ hd', le_div_iff₀ hd', div_lt_iff₀ hd', lt_div_iff₀ hd', holds]
  cases i.closed
  · rw [if_neg Bool.false_ne_true, if_neg Bool.false_ne_true, Bool.and_eq_true, decide_eq_true_eq,
      decide_eq_true_eq]
    exact_mod_cast Iff.rfl
  · rw [if_pos rfl, if_pos rfl, Bool.and_eq_true, decide_eq_true_eq, decide_eq_true_eq]
    exact_mod_cast Iff.rfl

/-- Inside the ends, it does not matter whether they belong to the interval. -/
theorem Interval.holds_of_lt (hd : 0 < i.denominator) (hlow : i.lowest < n) (hhigh : n < i.highest) :
    i.holds n = true := by
  rw [holds_iff hd]
  split
  · exact ⟨hlow.le, hhigh.le⟩
  · exact ⟨hlow, hhigh⟩

/-- The point that is taken lies in the interval. -/
theorem Interval.holds_of_nearest? (h : i.nearest? tie = some n) : i.holds n = true := by
  rw [nearest?] at h
  split at h
  · rename_i hbelow habove
    cases h
    split
    · exact habove
    · exact hbelow
  · cases h
    assumption
  · cases h
    assumption
  · cases h

theorem Interval.not_holds_of_nearest? (h : i.nearest? tie = none) :
    i.holds (i.value / i.denominator) = false ∧ i.holds (i.value / i.denominator + 1) = false := by
  rw [nearest?] at h
  split at h
  · cases h
  · cases h
  · cases h
  · exact ⟨‹_›, ‹_›⟩

/-- If both neighbours of the double are outside, the interval is shorter than a step. -/
theorem Interval.highest_sub_lowest_le (hd : 0 < i.denominator) (hlow : i.lowest < i.middle)
    (hhigh : i.middle < i.highest) (h : i.nearest? tie = none) : i.highest - i.lowest ≤ 1 := by
  have hd' : (0 : ℚ) < i.denominator := Nat.cast_pos.2 hd
  obtain ⟨hbelow, habove⟩ := not_holds_of_nearest? h
  have hle : ((i.value / i.denominator : Nat) : ℚ) ≤ i.middle := Nat.cast_div_le
  have hlt : i.middle < (i.value / i.denominator + 1 : Nat) := by
    rw [middle, div_lt_iff₀ hd']
    exact_mod_cast Nat.lt_mul_of_div_lt (Nat.lt_succ_self _) hd
  have hbelow' : ((i.value / i.denominator : Nat) : ℚ) ≤ i.lowest := by
    by_contra hin
    rw [holds_of_lt hd (not_le.1 hin) (hle.trans_lt hhigh)] at hbelow
    cases hbelow
  have habove' : i.highest ≤ (i.value / i.denominator + 1 : Nat) := by
    by_contra hin
    rw [holds_of_lt hd (hlow.trans hlt) (not_le.1 hin)] at habove
    cases habove
  rw [Nat.cast_succ] at habove'
  linarith

section Search

variable {magnitude : Int} {digits tries : Nat}

theorem Interval.search_of_some
    (h : (i.onGrid (magnitude + 1 - digits)).nearest? tie = some n) :
    i.search tie magnitude digits tries = ⟨n, magnitude + 1 - digits⟩ := by
  unfold search
  simp only [h]

theorem Interval.search_of_none (h : (i.onGrid (magnitude + 1 - digits)).nearest? tie = none) :
    i.search tie magnitude digits (tries + 1) = i.search tie magnitude (digits + 1) tries := by
  conv => lhs; unfold search
  simp only [h]

end Search

end Intervals

section Stripping

/-- Zeros at the end do not change the value. -/
theorem Decimal.value_strip (fuel : Nat) (d : Decimal) : (Decimal.strip fuel d).value = d.value := by
  induction fuel generalizing d with
  | zero => rfl
  | succ fuel ih =>
      rw [Decimal.strip]
      split
      · rename_i hzero
        have hdigits : (d.digits : ℚ) = (d.digits / 10 : Nat) * 10 := by
          exact_mod_cast (Nat.div_mul_cancel (Nat.dvd_of_mod_eq_zero hzero)).symm
        rw [ih, Decimal.value, Decimal.value, hdigits]
        dsimp only
        rw [zpow_add_one₀ (by norm_num)]
        ring
      · rfl

end Stripping

section Doubles

variable (b : Binary)

theorem Binary.denominator_interval_pos : 0 < b.interval.denominator :=
  Nat.mul_pos (by decide) (Nat.pow_pos (by decide))

theorem Binary.div_interval (a : Nat) :
    ((a * Nat.pow 2 b.exponent.toNat : Nat) : ℚ) / b.interval.denominator =
      a / 4 * 2 ^ b.exponent := by
  change ((a * 2 ^ b.exponent.toNat : Nat) : ℚ) / (4 * 2 ^ (-b.exponent).toNat : Nat) = _
  rw [zpow_eq_div two_ne_zero b.exponent]
  push_cast
  field_simp

/-- The interval of a double is what it covers. -/
theorem Binary.middle_interval : b.interval.middle = b.value := by
  rw [Interval.middle]
  refine (b.div_interval (4 * b.mantissa)).trans ?_
  rw [value]
  push_cast
  ring

theorem Binary.highest_interval : b.interval.highest = (b.mantissa + 1 / 2) * 2 ^ b.exponent := by
  rw [Interval.highest]
  refine (b.div_interval (4 * b.mantissa + 2)).trans ?_
  push_cast
  ring

variable {b} (hb : b.IsCanonical)

include hb

theorem Binary.IsCanonical.lowest_interval :
    b.interval.lowest = (b.mantissa - b.reach) * 2 ^ b.exponent := by
  rw [Interval.lowest]
  refine (b.div_interval (4 * b.mantissa - if b.isBoundary then 1 else 2)).trans ?_
  have hpos := hb.pos
  have hle : (if b.isBoundary then 1 else 2) ≤ 4 * b.mantissa := by
    split <;> omega
  rw [Nat.cast_sub hle, Binary.reach]
  push_cast
  split <;> ring

/-- The points in the interval are those that the double covers. -/
theorem Binary.IsCanonical.covers_of_holds {x : Int} {n : Nat}
    (h : (b.interval.onGrid x).holds n = true) : b.Covers (n * (10 : ℚ) ^ x) := by
  have hten := ten_zpow_pos x
  have hclosed : (b.interval.onGrid x).closed = (b.mantissa % 2 == 0) := rfl
  rw [Interval.holds_iff (Interval.denominator_onGrid_pos b.denominator_interval_pos x),
    Interval.lowest_onGrid, Interval.highest_onGrid, hb.lowest_interval, b.highest_interval,
    div_le_iff₀ hten, le_div_iff₀ hten, div_lt_iff₀ hten, lt_div_iff₀ hten, hclosed] at h
  split at h
  · rename_i heven
    rw [beq_iff_eq] at heven
    exact ⟨h.1, h.2, fun hodd => by omega⟩
  · exact ⟨h.1.le, h.2.le, fun _ => h⟩

/-- The magnitude is an exponent of ten that the double reaches. -/
theorem Binary.IsCanonical.ten_zpow_magnitude_le : (10 : ℚ) ^ b.interval.magnitude ≤ b.value := by
  have hd := b.denominator_interval_pos
  have hvalue : 0 < b.interval.value :=
    Nat.mul_pos (Nat.mul_pos (by decide) hb.pos) (Nat.pow_pos (by decide))
  have hd' : (0 : ℚ) < b.interval.denominator := Nat.cast_pos.2 hd
  rw [← b.middle_interval, Interval.middle, Interval.magnitude]
  split
  · have hlt : b.interval.denominator < b.interval.value *
        10 ^ digitCount (b.interval.denominator / b.interval.value) := by
      rw [Nat.mul_comm, ← Nat.div_lt_iff_lt_mul hvalue]
      exact lt_pow_digitCount _
    rw [zpow_neg, zpow_natCast, inv_eq_one_div, div_le_div_iff₀ (by positivity) hd', one_mul]
    exact_mod_cast hlt.le
  · rename_i hwhole
    obtain ⟨k, hcount, hk⟩ := exists_digitCount_eq (Nat.pos_of_ne_zero hwhole)
    rw [hcount, Nat.cast_succ, add_sub_cancel_right, zpow_natCast]
    have hle : ((10 ^ k : Nat) : ℚ) ≤ (b.interval.value / b.interval.denominator : Nat) :=
      Nat.cast_le.2 hk
    push_cast at hle
    exact hle.trans Nat.cast_div_le

/-- Seventeen digits suffice: the doubles are further apart than the points of this grid. -/
theorem Binary.IsCanonical.nearest?_ne_none (tie : Tie) :
    (b.interval.onGrid (b.interval.magnitude - 16)).nearest? tie ≠ none := by
  intro hnone
  generalize hx : b.interval.magnitude - 16 = x at hnone
  have hten := ten_zpow_pos x
  have htwo := two_zpow_pos b.exponent
  have hone := hb.one_le
  have hreach := b.reach_pos
  have hreach' := b.reach_le
  have hlow : (b.interval.onGrid x).lowest < (b.interval.onGrid x).middle := by
    rw [Interval.lowest_onGrid, Interval.middle_onGrid, hb.lowest_interval, b.middle_interval]
    exact div_lt_div_of_pos_right (mul_lt_mul_of_pos_right (by linarith) htwo) hten
  have hhigh : (b.interval.onGrid x).middle < (b.interval.onGrid x).highest := by
    rw [Interval.highest_onGrid, Interval.middle_onGrid, b.highest_interval, b.middle_interval]
    exact div_lt_div_of_pos_right (mul_lt_mul_of_pos_right (by linarith) htwo) hten
  have hwidth := Interval.highest_sub_lowest_le
    (Interval.denominator_onGrid_pos b.denominator_interval_pos x) hlow hhigh hnone
  rw [Interval.highest_onGrid, Interval.lowest_onGrid, hb.lowest_interval, b.highest_interval,
    ← sub_div, div_le_one hten, ← sub_mul] at hwidth
  have hstep : (10 : ℚ) ^ x * 10 ^ 16 ≤ b.mantissa * 2 ^ b.exponent := by
    have hmagnitude := hb.ten_zpow_magnitude_le
    have hsplit : (10 : ℚ) ^ b.interval.magnitude = 10 ^ x * 10 ^ 16 := by
      rw [← zpow_natCast, ← zpow_add₀ (by norm_num), ← hx]
      congr 1
      omega
    rwa [hsplit] at hmagnitude
  have hfine : (1 / 2 + b.reach) * 10 ^ 16 ≤ (b.mantissa : ℚ) := by
    refine le_of_mul_le_mul_right ?_ htwo
    calc (1 / 2 + b.reach) * 10 ^ 16 * 2 ^ b.exponent
        = (b.mantissa + 1 / 2 - (b.mantissa - b.reach)) * 2 ^ b.exponent * 10 ^ 16 := by ring
      _ ≤ 10 ^ x * 10 ^ 16 := mul_le_mul_of_nonneg_right hwidth (by norm_num)
      _ ≤ b.mantissa * 2 ^ b.exponent := hstep
  -- A mantissa has at most sixteen digits, so that the grid of seventeen is finer than its unit.
  rw [Binary.reach] at hfine
  split at hfine
  · rename_i hboundary
    rw [(hb.isBoundary_iff.1 hboundary).1] at hfine
    norm_num at hfine
  · have hlt : (b.mantissa : ℚ) < 2 ^ 53 := by exact_mod_cast hb.lt
    norm_num at hfine hlt
    linarith

/-- A search that ends at the grid of seventeen digits finds a decimal that the double covers. -/
theorem Binary.IsCanonical.covers_search (tie : Tie) {digits tries : Nat} (h : digits + tries = 17) :
    b.Covers (b.interval.search tie b.interval.magnitude digits tries).value := by
  induction tries generalizing digits with
  | zero =>
      have hlast : b.interval.magnitude + 1 - (digits : Int) = b.interval.magnitude - 16 := by omega
      cases hfound : (b.interval.onGrid (b.interval.magnitude + 1 - digits)).nearest? tie with
      | some n =>
          rw [Interval.search_of_some hfound]
          exact hb.covers_of_holds (Interval.holds_of_nearest? hfound)
      | none =>
          rw [hlast] at hfound
          exact absurd hfound (hb.nearest?_ne_none tie)
  | succ tries ih =>
      cases hfound : (b.interval.onGrid (b.interval.magnitude + 1 - digits)).nearest? tie with
      | some n =>
          rw [Interval.search_of_some hfound]
          exact hb.covers_of_holds (Interval.holds_of_nearest? hfound)
      | none =>
          rw [Interval.search_of_none hfound]
          exact ih (by omega)

/-- **The shortest decimal is covered by its double.** -/
theorem Binary.IsCanonical.covers_shortest (tie : Tie) : b.Covers (b.shortest tie).value := by
  rw [Binary.shortest, Decimal.value_strip]
  exact hb.covers_search tie rfl

end Doubles

end StackPipeline.Number
