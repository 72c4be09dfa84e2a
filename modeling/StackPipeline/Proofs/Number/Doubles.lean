import Mathlib.Algebra.Order.Field.Basic
import StackPipeline.Number.Layout
import StackPipeline.Number.Reader

/-!
A double and its parts.  The bits of a double say what it is, and a finite double is the packed form of
its sign, its mantissa and its exponent; unpacking it again gives them back.
-/

namespace StackPipeline.Number

open Float.Model (Format UnpackedFloat)
open Float.Model.UnpackedFloat (Sign packComponents unpackExponent unpackMantissa unpackSign)

/-- Doubles with the same bits are the same. -/
theorem eq_of_toBits {x y : Float} (h : x.toBits.toNat = y.toBits.toNat) : x = y := by
  obtain ⟨⟨a, ha⟩⟩ := x
  obtain ⟨⟨b, hb⟩⟩ := y
  obtain rfl : a = b := UInt64.toNat_inj.1 h
  rfl

/-- The sign of a number that is negative or not. -/
def signOf (negative : Bool) : Sign :=
  if negative then .negative else .positive

/-- What is packed: a mantissa of at most 53 bits, all of them in use unless the exponent is the
least. -/
structure Binary.IsCanonical (b : Binary) : Prop where
  pos : 0 < b.mantissa
  lt : b.mantissa < 2 ^ 53
  full_or_least : 2 ^ 52 ≤ b.mantissa ∨ b.exponent = -1074
  least_le : -1074 ≤ b.exponent
  le_greatest : b.exponent ≤ 971
  isBoundary_iff : b.isBoundary = true ↔ b.mantissa = 2 ^ 52 ∧ b.exponent ≠ -1074

/-- A finite double, packed. -/
def Binary.IsCanonical.packed {b : Binary} (h : b.IsCanonical) (negative : Bool) : Float :=
  Float.ofModel (.pack (.finite (signOf negative) b.mantissa b.exponent h.pos))

section Components

theorem toNat_packComponents (sign : Sign) (exponent : BitVec 11) (mantissa : BitVec 52) :
    (packComponents Format.binary64 sign exponent mantissa).toNat =
      sign.toBitVec.toNat * 2 ^ 63 + exponent.toNat * 2 ^ 52 + mantissa.toNat := by
  rw [packComponents, BitVec.toNat_append, BitVec.toNat_append,
    ← Nat.shiftLeft_add_eq_or_of_lt mantissa.isLt, ← Nat.shiftLeft_add_eq_or_of_lt exponent.isLt,
    Nat.shiftLeft_eq, Nat.shiftLeft_eq]
  omega

theorem toNat_unpackSign (bits : BitVec 64) :
    (@unpackSign Format.binary64 bits).toNat = bits.toNat / 2 ^ 63 % 2 := by
  change ((BitVec.extractLsb 63 63 bits).cast _).toNat = _
  rw [BitVec.toNat_cast, BitVec.extractLsb, BitVec.extractLsb'_toNat, Nat.shiftRight_eq_div_pow]

theorem toNat_unpackExponent (bits : BitVec 64) :
    (@unpackExponent Format.binary64 bits).toNat = bits.toNat / 2 ^ 52 % 2048 := by
  rw [unpackExponent, BitVec.toNat_cast, BitVec.extractLsb, BitVec.extractLsb'_toNat,
    Nat.shiftRight_eq_div_pow]
  rfl

theorem toNat_unpackMantissa (bits : BitVec 64) :
    (@unpackMantissa Format.binary64 bits).toNat = bits.toNat % 2 ^ 52 := by
  rw [unpackMantissa, BitVec.toNat_cast, BitVec.extractLsb, BitVec.extractLsb'_toNat,
    Nat.shiftRight_eq_div_pow]
  exact congrArg (· % 2 ^ 52) (Nat.div_one _)

theorem ofBitVec_unpackSign_packComponents (sign : Sign) (exponent : BitVec 11)
    (mantissa : BitVec 52) :
    Sign.ofBitVec (unpackSign (packComponents Format.binary64 sign exponent mantissa)) = sign := by
  have hsign : unpackSign (packComponents Format.binary64 sign exponent mantissa) =
      sign.toBitVec := by
    apply BitVec.eq_of_toNat_eq
    have hexponent := exponent.isLt
    have hmantissa := mantissa.isLt
    have hlt := sign.toBitVec.isLt
    rw [toNat_unpackSign, toNat_packComponents]
    omega
  rw [hsign]
  cases sign <;> rfl

theorem finite_congr {sign sign' : Sign} {m m' : Nat} {e e' : Int} {h : 0 < m} {h' : 0 < m'}
    (hsign : sign = sign') (hm : m = m') (he : e = e') :
    UnpackedFloat.finite sign m e h = .finite sign' m' e' h' := by
  subst hsign hm he
  rfl

end Components

section Packing

def Binary.stored (b : Binary) : Nat :=
  if 2 ^ 52 ≤ b.mantissa then (b.exponent + 1075).toNat else 0

variable {b : Binary} (h : b.IsCanonical)

include h

theorem Binary.IsCanonical.stored_lt : b.stored < 2047 := by
  have hle := h.le_greatest
  rw [Binary.stored]
  split <;> omega

theorem Binary.IsCanonical.toNat_ofNat_stored : (BitVec.ofNat 11 b.stored).toNat = b.stored := by
  have hlt := h.stored_lt
  rw [BitVec.toNat_ofNat]
  omega

theorem Binary.IsCanonical.ofNat_stored_eq_iff {field : BitVec 11} :
    BitVec.ofNat 11 b.stored = field ↔ b.stored = field.toNat := by
  rw [← BitVec.toNat_inj, h.toNat_ofNat_stored]

theorem Binary.IsCanonical.pack_eq (sign : Sign) :
    UnpackedFloat.pack Format.binary64 (.finite sign b.mantissa b.exponent h.pos) =
      packComponents Format.binary64 sign (BitVec.ofNat 11 b.stored)
        (BitVec.ofNat 52 b.mantissa) := by
  have hleast := h.least_le
  have hgreatest := h.le_greatest
  have hlow := Nat.le_log2 (k := 52) (Nat.ne_of_gt h.pos)
  have hhigh := (Nat.log2_lt (Nat.ne_of_gt h.pos)).2 h.lt
  have hbiased : (b.exponent + (Format.binary64.exponentBias : Nat) + (52 : Nat)).toNat =
      (b.exponent + 1075).toNat := by
    change (b.exponent + 1023 + 52).toNat = _
    omega
  delta UnpackedFloat.pack
  dsimp only
  rw [hbiased, if_neg (by omega), Binary.stored]
  by_cases hfull : 2 ^ 52 ≤ b.mantissa
  · rw [if_pos (by change _ = 53; omega), if_pos hfull]
  · rw [if_neg (by change ¬_ = 53; omega), if_neg hfull]

/-- The bits are unpacked to what was packed. -/
theorem Binary.IsCanonical.unpack_packed (negative : Bool) :
    (h.packed negative).toModel.unpack =
      .finite (signOf negative) b.mantissa b.exponent h.pos := by
  have hpos := h.pos
  have hlt := h.lt
  have hleast := h.least_le
  have hstored := h.stored_lt
  change UnpackedFloat.unpack Format.binary64 (UnpackedFloat.pack Format.binary64 _) = _
  rw [h.pack_eq]
  generalize hbits : packComponents Format.binary64 (signOf negative) (BitVec.ofNat 11 b.stored)
    (BitVec.ofNat 52 b.mantissa) = bits
  have hsign : Sign.ofBitVec (unpackSign bits) = signOf negative := by
    rw [← hbits, ofBitVec_unpackSign_packComponents]
  have hexponent : unpackExponent bits = BitVec.ofNat 11 b.stored := by
    rw [← hbits, Float.Model.UnpackedFloat.unpackExponent_packComponents]
  have hmantissa : unpackMantissa bits = BitVec.ofNat 52 b.mantissa := by
    rw [← hbits, Float.Model.UnpackedFloat.unpackMantissa_packComponents]
  have hinfinite : unpackExponent bits ≠ -1#11 := by
    rw [hexponent, Ne, h.ofNat_stored_eq_iff]
    change b.stored ≠ 2047
    omega
  delta UnpackedFloat.unpack
  dsimp only
  rw [if_neg hinfinite]
  by_cases hfull : 2 ^ 52 ≤ b.mantissa
  · have hstored' : b.stored = (b.exponent + 1075).toNat := if_pos hfull
    have hzero : unpackExponent bits ≠ 0#11 := by
      rw [hexponent, Ne, h.ofNat_stored_eq_iff]
      change b.stored ≠ 0
      omega
    rw [if_neg hzero]
    refine finite_congr hsign ?_ ?_
    · rw [hmantissa, BitVec.toNat_append,
        ← Nat.shiftLeft_add_eq_or_of_lt (BitVec.ofNat 52 b.mantissa).isLt, Nat.shiftLeft_eq,
        BitVec.toNat_ofNat b.mantissa 52]
      change 1 * 2 ^ 52 + _ = _
      omega
    · rw [hexponent, h.toNat_ofNat_stored]
      change (b.stored : Int) - (1023 + 52) = b.exponent
      omega
  · have hstored' : b.stored = 0 := if_neg hfull
    have hzero : unpackExponent bits = 0#11 := by
      rw [hexponent, h.ofNat_stored_eq_iff, hstored']
      rfl
    have htoNat : (unpackMantissa bits).toNat = b.mantissa := by
      rw [hmantissa, BitVec.toNat_ofNat b.mantissa 52]
      omega
    have hne : unpackMantissa bits ≠ 0#52 := by
      rw [Ne, ← BitVec.toNat_inj, htoNat]
      exact Nat.ne_of_gt hpos
    rw [if_pos hzero, dif_neg hne]
    refine finite_congr hsign htoNat ?_
    rw [hexponent, h.toNat_ofNat_stored]
    change (b.stored : Int) - (1023 + 52) + 1 = b.exponent
    have hor := h.full_or_least
    omega

theorem Binary.IsCanonical.toBits_packed (negative : Bool) :
    (h.packed negative).toBits.toNat =
      negative.toNat * 2 ^ 63 + b.stored * 2 ^ 52 + b.mantissa % 2 ^ 52 := by
  have hsign : (signOf negative).toBitVec.toNat = negative.toNat := by
    cases negative <;> rfl
  change (UnpackedFloat.pack Format.binary64 _).toNat = _
  rw [h.pack_eq, toNat_packComponents, h.toNat_ofNat_stored, BitVec.toNat_ofNat, hsign]

theorem Binary.IsCanonical.neg_packed (negative : Bool) :
    -h.packed negative = h.packed !negative := by
  change Float.ofModel (.pack (h.packed negative).toModel.unpack.neg) = _
  rw [h.unpack_packed]
  cases negative <;> rfl

end Packing

section Parts

/-- The parts are those of this double. -/
def Parts.Describe : Parts → Float → Prop
  | .nan, x => x = notANumber
  | .infinite negative, x => x = if negative then -infinity else infinity
  | .zero negative, x => x = if negative then -0 else 0
  | .finite negative b, x => ∃ h : b.IsCanonical, x = h.packed negative

/-- The parts by the three fields. -/
def Parts.ofFields (negative : Bool) (exponent fraction : Nat) : Parts :=
  if exponent == 2047 then
    if fraction == 0 then .infinite negative else .nan
  else if exponent == 0 then
    if fraction == 0 then .zero negative
    else .finite negative ⟨fraction, -1074, false⟩
  else
    .finite negative
      ⟨2 ^ 52 + fraction, (exponent : Int) - 1075, fraction == 0 && exponent != 1⟩

theorem exists_fields (x : Float) : ∃ (negative : Bool) (exponent fraction : Nat),
    exponent < 2048 ∧ fraction < 2 ^ 52 ∧ parts x = .ofFields negative exponent fraction ∧
      x.toBits.toNat = negative.toNat * 2 ^ 63 + exponent * 2 ^ 52 + fraction := by
  have hlt := x.toBits.toNat_lt
  refine ⟨x.toBits.toNat / 2 ^ 63 == 1, x.toBits.toNat / 2 ^ 52 % 2048, x.toBits.toNat % 2 ^ 52,
    by omega, by omega, rfl, ?_⟩
  by_cases hsign : x.toBits.toNat / 2 ^ 63 = 1
  · rw [beq_iff_eq.2 hsign, Bool.toNat_true]
    omega
  · rw [beq_eq_false_iff_ne.2 hsign, Bool.toNat_false]
    omega

variable {x : Float} {negative : Bool} {exponent fraction : Nat}

/-- Only one pattern of bits stands for what is no number. -/
theorem eq_notANumber (hne : fraction ≠ 0) (hlt : fraction < 2 ^ 52)
    (hbits : x.toBits.toNat = negative.toNat * 2 ^ 63 + 2047 * 2 ^ 52 + fraction) :
    x = notANumber := by
  have hbits : x.toModel.toBits.toBitVec.toNat = _ := hbits
  have hexponent : @unpackExponent Format.binary64 x.toModel.toBits.toBitVec = -1#11 := by
    apply BitVec.eq_of_toNat_eq
    rw [toNat_unpackExponent, hbits]
    change _ = 2047
    cases negative <;> omega
  have hmantissa : @unpackMantissa Format.binary64 x.toModel.toBits.toBitVec ≠ 0#52 := by
    rw [Ne, ← BitVec.toNat_inj, toNat_unpackMantissa, hbits]
    change _ ≠ 0
    omega
  apply eq_of_toBits
  change x.toModel.toBits.toBitVec.toNat = _
  rw [x.toModel.valid.eq_packedNaN hexponent hmantissa]
  decide +kernel

theorem describe_ofFields_least (hne : fraction ≠ 0) (hlt : fraction < 2 ^ 52)
    (hbits : x.toBits.toNat = negative.toNat * 2 ^ 63 + 0 * 2 ^ 52 + fraction) :
    (Parts.finite negative ⟨fraction, -1074, false⟩).Describe x := by
  have hb : Binary.IsCanonical ⟨fraction, -1074, false⟩ :=
    ⟨Nat.pos_of_ne_zero hne, Nat.lt_trans hlt (by decide), .inr rfl, Int.le_refl _,
      show -1074 ≤ 971 by decide,
      iff_of_false Bool.false_ne_true fun h => h.2 rfl⟩
  have hstored : Binary.stored ⟨fraction, -1074, false⟩ = 0 := if_neg (Nat.not_le.2 hlt)
  refine ⟨hb, eq_of_toBits ?_⟩
  rw [hb.toBits_packed, hbits, hstored, Nat.mod_eq_of_lt hlt]

theorem describe_ofFields_full (hne : exponent ≠ 0) (hexponent : exponent < 2047)
    (hlt : fraction < 2 ^ 52)
    (hbits : x.toBits.toNat = negative.toNat * 2 ^ 63 + exponent * 2 ^ 52 + fraction) :
    (Parts.finite negative
      ⟨2 ^ 52 + fraction, (exponent : Int) - 1075, fraction == 0 && exponent != 1⟩).Describe x := by
  have hb : Binary.IsCanonical
      ⟨2 ^ 52 + fraction, (exponent : Int) - 1075, fraction == 0 && exponent != 1⟩ := by
    refine ⟨by dsimp only; omega, by dsimp only; omega, .inl (Nat.le_add_right _ _),
      by dsimp only; omega, by dsimp only; omega, ?_⟩
    simp only [Bool.and_eq_true, beq_iff_eq, bne_iff_ne]
    omega
  refine ⟨hb, eq_of_toBits ?_⟩
  rw [hb.toBits_packed, hbits, Binary.stored, if_pos (Nat.le_add_right _ _)]
  dsimp only
  omega

/-- **A double is what its parts say.** -/
theorem describe_parts (x : Float) : (parts x).Describe x := by
  obtain ⟨negative, exponent, fraction, hexponent, hfraction, hparts, hbits⟩ := exists_fields x
  rw [hparts, Parts.ofFields]
  split
  · rename_i hgreatest
    obtain rfl : exponent = 2047 := beq_iff_eq.1 hgreatest
    split
    · rename_i hzero
      obtain rfl : fraction = 0 := beq_iff_eq.1 hzero
      apply eq_of_toBits
      rw [hbits]
      cases negative <;> decide +kernel
    · rename_i hzero
      exact eq_notANumber (mt beq_iff_eq.2 hzero) hfraction hbits
  · rename_i hgreatest
    split
    · rename_i hleast
      obtain rfl : exponent = 0 := beq_iff_eq.1 hleast
      split
      · rename_i hzero
        obtain rfl : fraction = 0 := beq_iff_eq.1 hzero
        apply eq_of_toBits
        rw [hbits]
        cases negative <;> decide +kernel
      · rename_i hzero
        exact describe_ofFields_least (mt beq_iff_eq.2 hzero) hfraction hbits
    · rename_i hleast
      have hne : exponent ≠ 2047 := mt beq_iff_eq.2 hgreatest
      exact describe_ofFields_full (mt beq_iff_eq.2 hleast) (by omega) hfraction hbits

end Parts

end StackPipeline.Number
