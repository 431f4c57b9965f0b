import Mathlib

/-!
The sign of a double can be changed without leaving the finite numbers. A number
is finite when its exponent field is not all ones, and that field is the same
under both signs.
-/

namespace SignalMap.Double

open Float.Model (Format UnpackedFloat)
open Float.Model.UnpackedFloat

variable {f : Format}

theorem isFinite_unpack_iff {bits : BitVec f.numBits} :
    (unpack f bits).isFinite = true ↔ unpackExponent bits ≠ -1#_ := by
  fun_cases unpack f bits with
  | case1 _ _ _ _ hones => exact iff_of_false nofun (not_not.mpr hones)
  | case2 _ _ hones => exact iff_of_false nofun (not_not.mpr hones)
  | case3 _ _ _ _ hones => exact iff_of_true rfl hones
  | case4 _ _ _ _ _ hones => exact iff_of_true rfl hones
  | case5 _ _ _ _ _ hones => exact iff_of_true rfl hones

theorem unpackExponent_pack_neg (u : UnpackedFloat) :
    unpackExponent (pack f u.neg) = unpackExponent (pack f u) := by
  cases u with
  | notANumber => rfl
  | infinity s =>
    unfold neg pack packedInfinity
    rw [unpackExponent_packComponents, unpackExponent_packComponents]
  | zero s =>
    unfold neg pack packedZero
    rw [unpackExponent_packComponents, unpackExponent_packComponents]
  | finite s m e hm =>
    unfold neg pack packedInfinity
    dsimp only
    split
    · rw [unpackExponent_packComponents, unpackExponent_packComponents]
    · split
      · rw [unpackExponent_packComponents, unpackExponent_packComponents]
      · rw [unpackExponent_packComponents, unpackExponent_packComponents]

theorem isFinite_neg (x : Float) : (-x).isFinite = x.isFinite := by
  have hneg : (-x).isFinite = true ↔ x.isFinite = true := by
    change (unpack .binary64 (pack .binary64 x.toModel.unpack.neg)).isFinite = true ↔
      (unpack .binary64 x.toModel.toBits.toBitVec).isFinite = true
    rw [isFinite_unpack_iff, isFinite_unpack_iff, unpackExponent_pack_neg]
    change unpackExponent (pack .binary64 (unpack .binary64 x.toModel.toBits.toBitVec)) ≠ _ ↔ _
    rw [pack_unpack_of_valid x.toModel.valid]
  exact Bool.eq_iff_iff.mpr hneg

end SignalMap.Double
