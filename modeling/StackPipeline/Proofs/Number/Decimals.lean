import StackPipeline.Proofs.Number.Rounding

/-!
Reading a decimal gives the double that covers it: by one multiplication or division of exact doubles
when digits and exponent are small, and by a quotient of whole numbers otherwise.
-/

namespace StackPipeline.Number

open Float.Model (Format UnpackedFloat totalExponent)

theorem zpow_eq_div {x : ℚ} (hx : x ≠ 0) (e : Int) : x ^ e = x ^ e.toNat / x ^ (-e).toNat := by
  rw [← zpow_natCast, ← zpow_natCast, ← zpow_sub₀ hx]
  congr 1
  omega

theorem two_zpow_lt_ten_zpow {a b : Nat} (h : 2 ^ a < 10 ^ b) :
    (2 : ℚ) ^ (a : Int) < 10 ^ (b : Int) ∧ (10 : ℚ) ^ (-b : Int) < 2 ^ (-a : Int) := by
  have hlt : (2 : ℚ) ^ (a : Int) < 10 ^ (b : Int) := by
    rw [zpow_natCast, zpow_natCast]
    exact_mod_cast h
  refine ⟨hlt, ?_⟩
  rw [zpow_neg, zpow_neg]
  exact inv_strictAnti₀ (two_zpow_pos a) hlt

section DigitCount

theorem lt_pow_digitCount (n : Nat) : n < 10 ^ digitCount n :=
  (Nat.length_toDigits_le_iff (by decide) Nat.length_toDigits_pos).1 (Nat.le_refl _)

theorem exists_digitCount_eq {n : Nat} (h : 0 < n) : ∃ k, digitCount n = k + 1 ∧ 10 ^ k ≤ n := by
  obtain ⟨k, hk⟩ := Nat.exists_eq_add_of_lt (Nat.length_toDigits_pos (b := 10) (n := n))
  rw [Nat.zero_add] at hk
  refine ⟨k, hk, ?_⟩
  cases k with
  | zero => exact h
  | succ k =>
      by_contra hlt
      have hle := (Nat.length_toDigits_le_iff (by decide) k.succ_pos).2 (Nat.lt_of_not_le hlt)
      omega

end DigitCount

section Exact

variable {b : Binary}

theorem Binary.IsCanonical.one_le (hb : b.IsCanonical) : (1 : ℚ) ≤ b.mantissa := by
  exact_mod_cast hb.pos

/-- A double covers itself. -/
theorem Binary.covers_value (b : Binary) : b.Covers b.value := by
  have hpos := two_zpow_pos b.exponent
  have hreach := b.reach_pos
  have hlow : ((b.mantissa : ℚ) - b.reach) * 2 ^ b.exponent < b.value :=
    mul_lt_mul_of_pos_right (by linarith) hpos
  have hhigh : b.value < (b.mantissa + 1 / 2 : ℚ) * 2 ^ b.exponent :=
    mul_lt_mul_of_pos_right (by linarith) hpos
  exact ⟨hlow.le, hhigh.le, fun _ => ⟨hlow, hhigh⟩⟩

/-- The product of two doubles is the double that covers the exact product. -/
theorem Binary.IsCanonical.mul_packed {b₁ b₂ : Binary} (hb : b.IsCanonical) (h₁ : b₁.IsCanonical)
    (h₂ : b₂.IsCanonical) (hcovers : b.Covers (b₁.value * b₂.value))
    (hfull : 2 ^ 52 ≤ b₁.mantissa) : h₁.packed false * h₂.packed false = hb.packed false := by
  change Float.ofModel (.pack (UnpackedFloat.mul Format.binary64 (h₁.packed false).toModel.unpack
    (h₂.packed false).toModel.unpack)) = _
  have hle : 2 ^ 52 ≤ b₁.mantissa * b₂.mantissa := hfull.trans (Nat.le_mul_of_pos_right _ h₂.pos)
  rw [h₁.unpack_packed, h₂.unpack_packed]
  exact congrArg (fun u => Float.ofModel (.pack u)) (hb.mul_eq h₁.pos h₂.pos hcovers (.inl hle))

/-- The quotient of two doubles is the double that covers the exact quotient. -/
theorem Binary.IsCanonical.div_packed {b₁ b₂ : Binary} (hb : b.IsCanonical) (h₁ : b₁.IsCanonical)
    (h₂ : b₂.IsCanonical) (hcovers : b.Covers (b₁.value / b₂.value)) :
    h₁.packed false / h₂.packed false = hb.packed false := by
  change Float.ofModel (.pack (UnpackedFloat.div Format.binary64 (h₁.packed false).toModel.unpack
    (h₂.packed false).toModel.unpack)) = _
  rw [h₁.unpack_packed, h₂.unpack_packed]
  exact congrArg (fun u => Float.ofModel (.pack u)) (hb.div_eq h₁.pos h₂.pos hcovers)

/-- The double is this number exactly, and its mantissa is full. -/
def Denotes (x : Float) (value : ℚ) : Prop :=
  ∃ (b : Binary) (hb : b.IsCanonical), x = hb.packed false ∧ 2 ^ 52 ≤ b.mantissa ∧ b.value = value

/-- A whole number of at most 53 digits is rounded to itself. -/
theorem Binary.IsCanonical.round_eq (hb : b.IsCanonical) {m k : Nat} (hm : b.mantissa = m * 2 ^ k)
    (he : b.exponent = -(k : Int)) (hlog : m.log2 + k = 52) :
    UnpackedFloat.round Format.binary64 .positive m 0 =
      .finite .positive b.mantissa b.exponent hb.pos := by
  have hshift : (0 - lastPlace m 0).toNat = k := by
    rw [lastPlace]
    omega
  have haccuracy : Float.Model.UnpackedFloat.ExtendedMantissa.ofMantissaAndAccuracy
      (b.mantissa / 1) .exact = quotient b.mantissa 1 := by
    rw [Nat.div_one, ofMantissaAndAccuracy_exact]
  have hfull : 2 ^ 52 ≤ b.mantissa / 1 ∨ b.exponent ≤ -1074 := by
    rw [Nat.div_one]
    rcases hb.full_or_least with h | h
    · exact .inl h
    · exact .inr h.le
  have hcovers : b.Covers ((b.mantissa : ℚ) / (1 : Nat) * 2 ^ b.exponent) := by
    rw [Nat.cast_one, div_one]
    exact b.covers_value
  have hround := hb.roundWithAccuracy_eq Nat.one_pos haccuracy hcovers hfull
  rw [Nat.div_one] at hround
  rw [UnpackedFloat.round, targetExponent_eq, UnpackedFloat.decreaseExponent, hshift,
    Nat.shiftLeft_eq, ← hm, zero_sub, ← he]
  exact hround

/-- Whole numbers of at most 53 bits are doubles. -/
theorem denotes_toFloat {m : Nat} (hpos : 0 < m) (hlt : m < 2 ^ 53) :
    Denotes m.toUInt64.toFloat m := by
  have hlog := (Nat.log2_lt hpos.ne').2 hlt
  obtain ⟨k, hk⟩ : ∃ k, m.log2 + k = 52 := ⟨52 - m.log2, by omega⟩
  have hlow : 2 ^ 52 ≤ m * 2 ^ k := by
    rw [← hk, Nat.pow_add]
    exact Nat.mul_le_mul_right _ (Nat.log2_self_le hpos.ne')
  have hhigh : m * 2 ^ k < 2 ^ 53 := by
    rw [show 53 = m.log2 + 1 + k by omega, Nat.pow_add]
    exact Nat.mul_lt_mul_of_pos_right Nat.lt_log2_self (Nat.two_pow_pos k)
  have hb : Binary.IsCanonical ⟨m * 2 ^ k, -k, m * 2 ^ k == 2 ^ 52⟩ := by
    refine ⟨by dsimp only; omega, hhigh, .inl hlow, by dsimp only; omega, by dsimp only; omega, ?_⟩
    rw [beq_iff_eq]
    dsimp only
    omega
  refine ⟨_, hb, ?_, hlow, ?_⟩
  · have hm : m.toUInt64.toNat = m := UInt64.toNat_ofNat_of_lt' (hlt.trans (by decide))
    have hcompare : compare (m : Int) 0 = .gt := Int.compare_eq_gt.2 (by omega)
    change Float.ofModel (.pack (UnpackedFloat.normalize Format.binary64 (m.toUInt64.toNat : Int) 0
      .positive)) = _
    rw [hm, UnpackedFloat.normalize, hcompare]
    exact congrArg (fun u => Float.ofModel (.pack u)) (hb.round_eq rfl rfl hk)
  · rw [Binary.value, zpow_neg, zpow_natCast]
    push_cast
    field_simp

/-- Whether the double is the power of ten. -/
def isPowerOfTen (x : Float) (e : Nat) : Bool :=
  match parts x with
  | .finite false b =>
    Nat.pow 2 52 ≤ b.mantissa &&
      b.mantissa * Nat.pow 2 b.exponent.toNat == Nat.pow 10 e * Nat.pow 2 (-b.exponent).toNat
  | _ => false

theorem denotes_of_isPowerOfTen {x : Float} {e : Nat} (h : isPowerOfTen x e = true) :
    Denotes x (10 ^ e) := by
  rw [isPowerOfTen] at h
  split at h
  · rename_i b hparts
    obtain ⟨hb, hx⟩ : (Parts.finite false b).Describe x := hparts ▸ describe_parts x
    rw [Bool.and_eq_true, decide_eq_true_eq, beq_iff_eq] at h
    refine ⟨b, hb, hx, h.1, ?_⟩
    have heq : (b.mantissa : ℚ) * 2 ^ b.exponent.toNat = 10 ^ e * 2 ^ (-b.exponent).toNat := by
      exact_mod_cast h.2
    rw [Binary.value, zpow_eq_div two_ne_zero, mul_div_assoc', heq]
    field_simp
  · cases h

/-- The powers of ten up to the twenty-second are doubles. -/
theorem isPowerOfTen_table : ∀ e : Fin Float.exactlyRepresentablePowersOfTen.size,
    isPowerOfTen Float.exactlyRepresentablePowersOfTen[e] e = true := by
  decide +kernel

theorem denotes_table {e : Nat} (he : e < Float.exactlyRepresentablePowersOfTen.size) :
    Denotes Float.exactlyRepresentablePowersOfTen[e] (10 ^ e) :=
  denotes_of_isPowerOfTen (isPowerOfTen_table ⟨e, he⟩)

end Exact

section Reading

variable {b : Binary} (hb : b.IsCanonical) {m : Nat} (hm : 0 < m) {x : Int}
  (hcovers : b.Covers (m * (10 : ℚ) ^ x)) (hlow : -(2048 + m.log2 : Int) ≤ x) (hhigh : x ≤ 2048)

include hm hcovers hlow hhigh

/-- Multiplying or dividing by the power of ten gives the double that covers the decimal. -/
theorem Binary.IsCanonical.ofScientific_unpacked :
    UnpackedFloat.ofScientific Format.binary64 m x =
      .finite .positive b.mantissa b.exponent hb.pos := by
  have hinfinite : ¬x > 2 ^ 11 := by omega
  have hzero : ¬x < -((2 ^ 11 : Int) + m.log2) := by omega
  delta UnpackedFloat.ofScientific
  rw [dif_neg hm.ne', if_neg hinfinite, if_neg hzero]
  by_cases hsign : 0 ≤ x
  · rw [if_pos hsign]
    obtain ⟨e, rfl⟩ := Int.eq_ofNat_of_zero_le hsign
    have hshifted : 0 < m <<< 53 := Nat.shiftLeft_pos_iff.2 hm
    have hpow : 0 < 10 ^ e := Nat.pow_pos (by decide)
    have hvalue : (m * (10 : ℚ) ^ (e : Int)) =
        ((m <<< 53 : Nat) * (2 : ℚ) ^ (-53 : Int)) * ((10 ^ e : Nat) * (2 : ℚ) ^ (0 : Int)) := by
      rw [Nat.shiftLeft_eq, zpow_zero, mul_one, zpow_natCast, zpow_neg]
      push_cast
      field_simp
    have hle : 2 ^ 52 ≤ (m <<< 53) * 10 ^ e := by
      rw [Nat.shiftLeft_eq]
      calc 2 ^ 52 ≤ 1 * 2 ^ 53 * 1 := by decide
        _ ≤ m * 2 ^ 53 * 10 ^ e := Nat.mul_le_mul (Nat.mul_le_mul_right _ hm) hpow
    rw [hvalue] at hcovers
    exact hb.mul_eq hshifted hpow hcovers (.inl hle)
  · rw [if_neg hsign]
    have hvalue : (m * (10 : ℚ) ^ x) =
        (m * (2 : ℚ) ^ (0 : Int)) / ((10 ^ (-x).toNat : Nat) * (2 : ℚ) ^ (0 : Int)) := by
      have hwhole : x.toNat = 0 := by omega
      rw [zpow_eq_div (by norm_num) x, hwhole, pow_zero, zpow_zero, mul_one, mul_one, mul_one_div]
      push_cast
      rfl
    rw [hvalue] at hcovers
    exact hb.div_eq hm (Nat.pow_pos (by decide)) hcovers

theorem Binary.IsCanonical.ofScientific_eq :
    Float.ofScientific m (x < 0) x.natAbs = hb.packed false := by
  rw [Float.ofScientific]
  split
  · rename_i hfast
    obtain ⟨b₁, h₁, hx₁, hfull, hvalue₁⟩ := denotes_toFloat hm hfast.1
    obtain ⟨b₂, h₂, hx₂, -, hvalue₂⟩ := denotes_table (e := x.natAbs) (by
      change x.natAbs < 23
      omega)
    by_cases hsign : x < 0
    · rw [decide_eq_true hsign, if_pos rfl, hx₁, hx₂]
      refine hb.div_packed h₁ h₂ ?_
      have hx : x = -(x.natAbs : Int) := by omega
      rwa [hx, zpow_neg, zpow_natCast, ← div_eq_mul_inv, ← hvalue₁, ← hvalue₂] at hcovers
    · rw [decide_eq_false hsign, if_neg Bool.false_ne_true, hx₁, hx₂]
      refine hb.mul_packed h₁ h₂ ?_ hfull
      have hx : x = (x.natAbs : Int) := by omega
      rwa [hx, zpow_natCast, ← hvalue₁, ← hvalue₂] at hcovers
  · have hx : (if decide (x < 0) = true then Int.negOfNat x.natAbs else Int.ofNat x.natAbs) =
        x := by
      by_cases hsign : x < 0
      · rw [if_pos (decide_eq_true hsign), Int.negOfNat_eq]
        change -(x.natAbs : Int) = x
        omega
      · rw [if_neg (mt of_decide_eq_true hsign)]
        change (x.natAbs : Int) = x
        omega
    rw [hx]
    exact congrArg (fun u => Float.ofModel (.pack u))
      (hb.ofScientific_unpacked hm hcovers hlow hhigh)

end Reading

section Sizes

variable {b : Binary} (hb : b.IsCanonical) {value : ℚ} (hcovers : b.Covers value)

include hb hcovers

theorem Binary.IsCanonical.two_zpow_le_of_covers : (2 : ℚ) ^ (-1075 : Int) ≤ value := by
  refine le_trans ?_ hcovers.low
  calc (2 : ℚ) ^ (-1075 : Int) = 1 / 2 * 2 ^ (-1074 : Int) := by
        rw [one_div, ← zpow_neg_one, ← zpow_add₀ two_ne_zero]
        rfl
    _ ≤ (b.mantissa - b.reach) * 2 ^ b.exponent :=
      mul_le_mul (by linarith [hb.one_le, b.reach_le])
        (zpow_le_zpow_right₀ one_le_two hb.least_le) (two_zpow_pos _).le
        (by linarith [hb.one_le, b.reach_le])

theorem Binary.IsCanonical.le_two_zpow_of_covers : value ≤ (2 : ℚ) ^ (1024 : Int) := by
  have hm : (b.mantissa : ℚ) + 1 ≤ 2 ^ 53 := by exact_mod_cast hb.lt
  refine hcovers.high.trans ?_
  calc ((b.mantissa : ℚ) + 1 / 2) * 2 ^ b.exponent ≤ 2 ^ 53 * 2 ^ (971 : Int) :=
        mul_le_mul (by linarith) (zpow_le_zpow_right₀ one_le_two hb.le_greatest)
          (two_zpow_pos _).le (by norm_num)
    _ = 2 ^ (1024 : Int) := by
      rw [← zpow_natCast, ← zpow_add₀ two_ne_zero]
      rfl

end Sizes

/-- Reading a decimal finds the double that covers it; no such decimal is cut off by its size. -/
theorem Binary.IsCanonical.ofDecimal_eq {b : Binary} (hb : b.IsCanonical) {m : Nat} {x : Int}
    (hcovers : b.Covers (m * (10 : ℚ) ^ x)) : ofDecimal m x = hb.packed false := by
  have hten : (0 : ℚ) < 10 ^ x := zpow_pos (by norm_num) x
  have hleast := hb.two_zpow_le_of_covers hcovers
  have hgreatest := hb.le_two_zpow_of_covers hcovers
  have hm : 0 < m := by
    rw [Nat.pos_iff_ne_zero]
    rintro rfl
    rw [Nat.cast_zero, zero_mul] at hleast
    exact absurd (two_zpow_pos _) hleast.not_gt
  obtain ⟨k, hcount, hk⟩ := exists_digitCount_eq hm
  have hlarge : (k : Int) + x < 309 := by
    refine (zpow_lt_zpow_iff_right₀ (a := (10 : ℚ)) (by norm_num)).1 ?_
    calc (10 : ℚ) ^ ((k : Int) + x) = 10 ^ k * 10 ^ x := by
          rw [zpow_add₀ (by norm_num), zpow_natCast]
      _ ≤ m * 10 ^ x := mul_le_mul_of_nonneg_right (by exact_mod_cast hk) hten.le
      _ ≤ 2 ^ (1024 : Int) := hgreatest
      _ < 10 ^ (309 : Int) := (two_zpow_lt_ten_zpow (by decide +kernel)).1
  have hsmall : -324 < (k : Int) + 1 + x := by
    refine (zpow_lt_zpow_iff_right₀ (a := (10 : ℚ)) (by norm_num)).1 ?_
    have hlt : (m : ℚ) < 10 ^ (k + 1) := by
      rw [← hcount]
      exact_mod_cast lt_pow_digitCount m
    calc (10 : ℚ) ^ (-324 : Int) < 2 ^ (-1075 : Int) :=
          (two_zpow_lt_ten_zpow (by decide +kernel)).2
      _ ≤ m * 10 ^ x := hleast
      _ < 10 ^ (k + 1) * 10 ^ x := mul_lt_mul_of_pos_right hlt hten
      _ = 10 ^ ((k : Int) + 1 + x) := by
        rw [zpow_add₀ (by norm_num), ← zpow_natCast, Nat.cast_succ]
  have hlog : k ≤ m.log2 :=
    (Nat.le_log2 hm.ne').2 ((Nat.pow_le_pow_left (by decide) k).trans hk)
  rw [ofDecimal, if_neg hm.ne', hcount]
  dsimp only
  rw [if_neg (by omega), if_neg (by omega)]
  exact hb.ofScientific_eq hm hcovers (by omega) (by omega)

end StackPipeline.Number
