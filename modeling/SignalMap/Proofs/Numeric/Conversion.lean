import Mathlib
import SignalMap.Numeric.Width
import SignalMap.Proofs.Numeric.Nearest

/-!
What becomes of an integer on its way through a double. Its bits are those of
the nearest number that a double holds, and reading them toward zero gives that
number back, inside the bounds of the target.
-/

namespace SignalMap.Numeric

open Float.Model (UnpackedFloat)

/-- A double keeps the bits that it is made of, if their exponent field is that of a finite
number. -/
theorem toBits_ofBits {b : UInt64} (hfield : b.toNat / 2 ^ 52 % 2 ^ 11 ≠ 2 ^ 11 - 1) :
    (Float.ofBits b).toBits = b := by
  have hnumber : @UnpackedFloat.isNaNBits .binary64 b.toBitVec = false := by
    apply decide_eq_false
    rintro ⟨hones, -⟩
    apply hfield
    have hvalue := congrArg BitVec.toNat hones
    rw [UnpackedFloat.unpackExponent_def, BitVec.extractLsb'_toNat] at hvalue
    simpa [Nat.shiftRight_eq_div_pow] using hvalue
  apply UInt64.toBitVec_inj.mp
  change UnpackedFloat.pack .binary64 (UnpackedFloat.unpack .binary64 b.toBitVec) = b.toBitVec
  rw [UnpackedFloat.pack_unpack, hnumber]
  rfl

theorem signed_double (negative : Bool) (magnitude : Nat) :
    Format.double.signed negative magnitude = negative.toNat * 2 ^ 63 + magnitude := by
  cases negative with
  | false => simp [Format.signed]
  | true => simp [Format.signed, Format.double]

/-- Bits with an exponent field that is neither zero nor all ones stand for a number with the
hidden bit. -/
theorem read_signed (negative : Bool) {field fraction : Nat} (hpos : 0 < field)
    (hfield : field < 2 ^ 11 - 1) (hfraction : fraction < 2 ^ 52) :
    Format.double.read (Format.double.signed negative (field * 2 ^ 52 + fraction)) =
      .finite negative ⟨fraction + 2 ^ 52, (field : Int) - 1075⟩ := by
  rw [signed_double]
  have hsign : negative.toNat < 2 := Bool.toNat_lt negative
  generalize hbits : negative.toNat * 2 ^ 63 + (field * 2 ^ 52 + fraction) = bits
  have hlow : bits % Nat.pow 2 (Format.double.precision - 1) = fraction := by
    change bits % 2 ^ 52 = fraction
    omega
  have hmiddle : bits / Nat.pow 2 (Format.double.precision - 1) %
      Nat.pow 2 Format.double.exponentBits = field := by
    change bits / 2 ^ 52 % 2 ^ 11 = field
    omega
  have hhigh : bits / Nat.pow 2 (Format.double.precision - 1) /
      Nat.pow 2 Format.double.exponentBits % 2 = negative.toNat := by
    change bits / 2 ^ 52 / 2 ^ 11 % 2 = negative.toNat
    omega
  have hordinary : (field == Nat.pow 2 Format.double.exponentBits - 1) = false :=
    beq_false_of_ne (ne_of_lt hfield)
  have hhidden : (field == 0) = false := beq_false_of_ne (ne_of_gt hpos)
  have hnegative : (negative.toNat == 1) = negative := by cases negative <;> rfl
  have hexponent : Format.double.leastExponent + (field - 1 : Nat) = (field : Int) - 1075 := by
    change (-1074 : Int) + (field - 1 : Nat) = (field : Int) - 1075
    omega
  unfold Format.read
  dsimp only
  rw [hlow, hmiddle, hhigh, hordinary, hhidden, hnegative, hexponent]
  rfl

/-- A double that is made of such bits is read as them. -/
theorem readDouble_ofBits (negative : Bool) (field fraction : Nat) (hpos : 0 < field)
    (hfield : field < 2 ^ 11 - 1) (hfraction : fraction < 2 ^ 52) :
    readDouble (Float.ofBits (UInt64.ofNat
        (Format.double.signed negative (field * 2 ^ 52 + fraction)))) =
      .finite negative ⟨fraction + 2 ^ 52, (field : Int) - 1075⟩ := by
  have hsign : negative.toNat < 2 := Bool.toNat_lt negative
  have hfits : Format.double.signed negative (field * 2 ^ 52 + fraction) < 2 ^ 64 := by
    rw [signed_double]
    omega
  have hword := UInt64.toNat_ofNat_of_lt' hfits
  rw [readDouble, toBits_ofBits, hword, read_signed negative hpos hfield hfraction]
  rw [hword, signed_double]
  omega

def Binary.whole (b : Binary) : Nat :=
  (scaleByTwo b.exponent b.significand 1).1 / (scaleByTwo b.exponent b.significand 1).2

theorem scaleByTwo_sub (up down num : Nat) :
    scaleByTwo (up - down) num 1 = (num * 2 ^ (up - down), 2 ^ (down - up)) := by
  unfold scaleByTwo
  by_cases hle : down ≤ up
  · have hzero : down - up = 0 := by omega
    have hexponent : ((up : Int) - down).toNat = up - down := by omega
    rw [if_pos (by omega), hexponent, hzero]
    rfl
  · have hzero : up - down = 0 := by omega
    have hexponent : (-((up : Int) - down)).toNat = down - up := by omega
    rw [if_neg (by omega), hexponent, hzero, Nat.pow_zero, Nat.mul_one, Nat.one_mul]
    rfl

theorem whole_sub (significand up down : Nat) :
    Binary.whole ⟨significand, up - down⟩ = significand * 2 ^ (up - down) / 2 ^ (down - up) := by
  rw [Binary.whole, scaleByTwo_sub]

theorem floorLog2_one {n : Nat} (hpos : n ≠ 0) : floorLog2 n 1 = n.log2 := by
  have hguess : (n.log2 : Int) - Nat.log2 1 = n.log2 := by
    have hone : Nat.log2 1 = 0 := by decide
    rw [hone]
    exact sub_zero _
  have hscale := scaleByTwo_sub 0 n.log2 n
  have hlow : 2 ^ n.log2 ≤ n := Nat.log2_self_le hpos
  rw [Nat.cast_zero, zero_sub, Nat.zero_sub, Nat.pow_zero, Nat.mul_one, Nat.sub_zero] at hscale
  unfold floorLog2
  dsimp only
  rw [hguess, hscale, if_neg (by omega)]

/-- The digits of a number that a double has room for: fifty-three of them, or one digit more where
rounding carries. -/
def significandOf (n : Nat) : Nat :=
  roundHalfEven (n * 2 ^ (52 - n.log2)) (spacing n)

theorem significandOf_of_le_log2 {n : Nat} (h : 52 ≤ n.log2) :
    significandOf n = roundHalfEven n (spacing n) := by
  have hzero : 52 - n.log2 = 0 := by omega
  rw [significandOf, hzero, Nat.pow_zero, Nat.mul_one]

theorem significandOf_of_log2_lt {n : Nat} (h : n.log2 < 52) :
    significandOf n = n * 2 ^ (52 - n.log2) := by
  rw [significandOf, spacing_of_log2_lt h, roundHalfEven_one]

theorem le_significandOf {n : Nat} (hpos : n ≠ 0) : 2 ^ 52 ≤ significandOf n := by
  by_cases h : 52 ≤ n.log2
  · rw [significandOf_of_le_log2 h]
    exact le_roundHalfEven_spacing h
  · rw [significandOf_of_log2_lt (by omega)]
    calc 2 ^ 52 = 2 ^ n.log2 * 2 ^ (52 - n.log2) := by rw [← Nat.pow_add]; congr 1; omega
      _ ≤ n * 2 ^ (52 - n.log2) := Nat.mul_le_mul_right _ (Nat.log2_self_le hpos)

/-- Only a number with more digits than there is room for can carry. -/
theorem significandOf_lt_of_log2_lt {n : Nat} (h : n.log2 < 52) : significandOf n < 2 ^ 53 := by
  rw [significandOf_of_log2_lt h]
  calc n * 2 ^ (52 - n.log2)
      < 2 ^ (n.log2 + 1) * 2 ^ (52 - n.log2) :=
        Nat.mul_lt_mul_of_pos_right Nat.lt_log2_self (Nat.two_pow_pos _)
    _ = 2 ^ 53 := by rw [← Nat.pow_add]; congr 1; omega

theorem significandOf_le (n : Nat) : significandOf n ≤ 2 ^ 53 := by
  by_cases h : 52 ≤ n.log2
  · rw [significandOf_of_le_log2 h]
    exact roundHalfEven_spacing_le n
  · exact le_of_lt (significandOf_lt_of_log2_lt (by omega))

theorem whole_significandOf (n : Nat) : Binary.whole ⟨significandOf n, n.log2 - 52⟩ = nearest n := by
  have hwhole := whole_sub (significandOf n) n.log2 52
  rw [Nat.cast_ofNat] at hwhole
  rw [hwhole]
  by_cases h : 52 ≤ n.log2
  · have hzero : 52 - n.log2 = 0 := by omega
    rw [significandOf_of_le_log2 h, hzero, Nat.pow_zero, Nat.div_one]
    rfl
  · have hzero : n.log2 - 52 = 0 := by omega
    rw [significandOf_of_log2_lt (by omega), nearest_of_log2_lt (by omega), hzero, Nat.pow_zero,
      Nat.mul_one, Nat.mul_div_cancel _ (Nat.two_pow_pos _)]

/-- Adding the digits to the exponent field makes their first one, and a carry, a part of it. -/
theorem roundQuotient_one {n : Nat} (hpos : n ≠ 0) (hrange : n.log2 < 1023) :
    Format.double.roundQuotient n 1 = (n.log2 + 1022) * 2 ^ 52 + significandOf n := by
  have hexponent : max Format.double.leastExponent
      (floorLog2 n 1 - (Format.double.precision - 1 : Nat)) = (n.log2 : Int) - 52 := by
    rw [floorLog2_one hpos]
    change max (-1074) ((n.log2 : Int) - 52) = (n.log2 : Int) - 52
    omega
  have hscale := scaleByTwo_sub 52 n.log2 n
  rw [Nat.cast_ofNat] at hscale
  have hfield : ((n.log2 : Int) - 52 - Format.double.leastExponent).toNat = n.log2 + 1022 := by
    change ((n.log2 : Int) - 52 - (-1074)).toNat = n.log2 + 1022
    omega
  have hlast := significandOf_le n
  have hbound : (n.log2 + 1022) * 2 ^ 52 + significandOf n ≤ Format.double.infinityBits := by
    change _ ≤ (2 ^ 11 - 1) * 2 ^ 52
    omega
  unfold Format.roundQuotient
  rw [if_neg hpos, hexponent]
  dsimp only
  rw [hfield, neg_sub, hscale]
  exact min_eq_left hbound

/-- A number that rounding carries to two to the fifty-third has the next exponent and the least
digits. -/
theorem whole_of_carry {n : Nat} (hcarry : significandOf n = 2 ^ 53) :
    Binary.whole ⟨2 ^ 52, n.log2 - 51⟩ = nearest n := by
  have hlong : 52 ≤ n.log2 := by
    by_contra hshort
    have hlt : significandOf n < 2 ^ 53 := significandOf_lt_of_log2_lt (by omega)
    omega
  have hwhole := whole_sub (2 ^ 52) n.log2 51
  rw [Nat.cast_ofNat] at hwhole
  have hzero : 51 - n.log2 = 0 := by omega
  have hnext : n.log2 - 51 = n.log2 - 52 + 1 := by omega
  rw [significandOf_of_le_log2 hlong] at hcarry
  rw [hwhole, nearest, hcarry, spacing, hzero, hnext, Nat.pow_zero, Nat.div_one]
  ring

/-- The double of an integer is read as the nearest number that a double holds. -/
theorem readDouble_ofInteger {n : Int} (hrange : n.natAbs.log2 < 1023) :
    ∃ b : Binary, readDouble (ofInteger n) = .finite (decide (n < 0)) b ∧
      b.whole = nearest n.natAbs := by
  by_cases hzero : n = 0
  · subst hzero
    exact ⟨⟨0, -1074⟩, by decide +kernel, by decide +kernel⟩
  · have hpos : n.natAbs ≠ 0 := Int.natAbs_ne_zero.mpr hzero
    have hlow := le_significandOf hpos
    have hhigh := significandOf_le n.natAbs
    unfold ofInteger
    rw [roundQuotient_one hpos hrange]
    by_cases hcarry : significandOf n.natAbs = 2 ^ 53
    · have hbits : (n.natAbs.log2 + 1022) * 2 ^ 52 + significandOf n.natAbs =
          (n.natAbs.log2 + 1024) * 2 ^ 52 + 0 := by omega
      have hread := readDouble_ofBits (decide (n < 0)) (n.natAbs.log2 + 1024) 0
        (by omega) (by omega) (by omega)
      have hexponent : ((n.natAbs.log2 + 1024 : Nat) : Int) - 1075 = n.natAbs.log2 - 51 := by omega
      rw [hexponent, Nat.zero_add] at hread
      rw [hbits]
      exact ⟨_, hread, whole_of_carry hcarry⟩
    · have hbits : (n.natAbs.log2 + 1022) * 2 ^ 52 + significandOf n.natAbs =
          (n.natAbs.log2 + 1023) * 2 ^ 52 + (significandOf n.natAbs - 2 ^ 52) := by omega
      have hread := readDouble_ofBits (decide (n < 0)) (n.natAbs.log2 + 1023)
        (significandOf n.natAbs - 2 ^ 52) (by omega) (by omega) (by omega)
      have hexponent : ((n.natAbs.log2 + 1023 : Nat) : Int) - 1075 = n.natAbs.log2 - 52 := by omega
      rw [hexponent, Nat.sub_add_cancel hlow] at hread
      rw [hbits]
      exact ⟨_, hread, whole_significandOf n.natAbs⟩

/-- An integer that goes through a double comes back as the nearest one that a double holds, or as
the bound that this one is beyond. -/
theorem truncate_ofInteger {n : Int} (hrange : n.natAbs.log2 < 1023) (low high : Int) :
    truncate low high (ofInteger n) = max low (min high (nearestDouble n)) := by
  obtain ⟨b, hread, hwhole⟩ := readDouble_ofInteger hrange
  have hsigned : (if decide (n < 0) then -(nearest n.natAbs : Int) else nearest n.natAbs) =
      nearestDouble n := by
    unfold nearestDouble
    obtain hn | rfl | hn := lt_trichotomy n 0
    · rw [decide_eq_true hn, Int.sign_eq_neg_one_of_neg hn, neg_one_mul, if_pos rfl]
    · rfl
    · rw [decide_eq_false (not_lt_of_gt hn), Int.sign_eq_one_of_pos hn, one_mul]
      rfl
  unfold truncate
  rw [hread, ← hsigned, ← hwhole]
  rfl

end SignalMap.Numeric
