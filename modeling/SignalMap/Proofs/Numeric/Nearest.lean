import Mathlib.Algebra.Order.Group.Unbundled.Abs
import Mathlib.Algebra.Order.Ring.Abs
import Mathlib.Tactic.Linarith
import Mathlib.Tactic.NormNum
import Mathlib.Tactic.Ring
import SignalMap.Numeric.Rounding

/-!
The integers that doubles hold. From one power of two to the next they are the
multiples of a power of two, and rounding to a multiple, a half to the even
one, takes an integer to the nearest of them.
-/

namespace SignalMap.Numeric

section Quotient

variable {num den : Nat}

theorem roundHalfEven_eq_or (num den : Nat) :
    roundHalfEven num den = num / den ∨ roundHalfEven num den = num / den + 1 := by
  unfold roundHalfEven
  dsimp only
  split
  · exact Or.inr rfl
  · exact Or.inl rfl

/-- Rounding moves a quotient by a half at most. -/
theorem roundHalfEven_error (num : Nat) (hden : 0 < den) :
    2 * |(num : Int) - roundHalfEven num den * den| ≤ den := by
  have hsplit : (den : Int) * (num / den : Nat) + (num % den : Nat) = num := by
    exact_mod_cast Nat.div_add_mod num den
  have hrest : num % den < den := Nat.mod_lt num hden
  unfold roundHalfEven
  dsimp only
  split
  next hup =>
    have hdistance : (num : Int) - ((num / den + 1 : Nat) : Int) * den = (num % den : Nat) - den := by
      push_cast at hsplit ⊢
      linarith
    rw [hdistance, abs_of_nonpos (by omega)]
    omega
  next hdown =>
    have hdistance : (num : Int) - ((num / den : Nat) : Int) * den = (num % den : Nat) := by
      linarith
    rw [hdistance, abs_of_nonneg (by omega)]
    omega

/-- No multiple of the denominator is nearer than the one that a quotient is rounded to. -/
theorem roundHalfEven_nearest (hden : 0 < den) (m : Int) :
    |(num : Int) - roundHalfEven num den * den| ≤ |(num : Int) - m * den| := by
  have herror := roundHalfEven_error num hden
  by_cases hm : m = roundHalfEven num den
  · rw [hm]
  · have hapart : 1 ≤ |m - roundHalfEven num den| := Int.one_le_abs (sub_ne_zero.mpr hm)
    have hstep : (den : Int) ≤ |m * den - roundHalfEven num den * den| := by
      rw [← sub_mul, abs_mul, Nat.abs_cast]
      exact le_mul_of_one_le_left (Int.natCast_nonneg den) hapart
    have htriangle := abs_sub_le (m * den) (num : Int) (roundHalfEven num den * den : Int)
    rw [abs_sub_comm (m * den) (num : Int)] at htriangle
    linarith

theorem roundHalfEven_one (num : Nat) : roundHalfEven num 1 = num := by
  simp [roundHalfEven, Nat.mod_one]

end Quotient

/-- How far apart the doubles lie from a number on: they have fifty-three binary places. -/
def spacing (n : Nat) : Nat := 2 ^ (n.log2 - 52)

def nearest (n : Nat) : Nat := roundHalfEven n (spacing n) * spacing n

def nearestDouble (n : Int) : Int := n.sign * nearest n.natAbs

def HasDouble (n : Int) : Prop :=
  ∃ significand exponent : Nat, significand < 2 ^ 53 ∧ n.natAbs = significand * 2 ^ exponent

theorem spacing_pos (n : Nat) : 0 < spacing n := Nat.two_pow_pos _

theorem spacing_of_log2_lt {n : Nat} (h : n.log2 < 52) : spacing n = 1 := by
  have hzero : n.log2 - 52 = 0 := by omega
  rw [spacing, hzero, Nat.pow_zero]

theorem mul_spacing_of_le_log2 {n : Nat} (h : 52 ≤ n.log2) : 2 ^ 52 * spacing n = 2 ^ n.log2 := by
  rw [spacing, ← Nat.pow_add, Nat.add_sub_cancel' h]

theorem lt_mul_spacing (n : Nat) : n < 2 ^ 53 * spacing n := by
  calc n < 2 ^ (n.log2 + 1) := Nat.lt_log2_self
    _ ≤ 2 ^ (53 + (n.log2 - 52)) := by
        apply Nat.pow_le_pow_right
        · norm_num
        · omega
    _ = 2 ^ 53 * spacing n := Nat.pow_add 2 53 (n.log2 - 52)

theorem nearest_of_log2_lt {n : Nat} (h : n.log2 < 52) : nearest n = n := by
  rw [nearest, spacing_of_log2_lt h, roundHalfEven_one, Nat.mul_one]

/-- Rounding stays below two to the fifty-third, or ends there. -/
theorem roundHalfEven_spacing_le (n : Nat) : roundHalfEven n (spacing n) ≤ 2 ^ 53 := by
  have hquotient : n / spacing n < 2 ^ 53 :=
    (Nat.div_lt_iff_lt_mul (spacing_pos n)).mpr (lt_mul_spacing n)
  obtain heq | heq := roundHalfEven_eq_or n (spacing n) <;> omega

theorem le_roundHalfEven_spacing {n : Nat} (h : 52 ≤ n.log2) :
    2 ^ 52 ≤ roundHalfEven n (spacing n) := by
  have hpositive : n ≠ 0 := by
    rintro rfl
    simp at h
  have hquotient : 2 ^ 52 ≤ n / spacing n := by
    apply (Nat.le_div_iff_mul_le (spacing_pos n)).mpr
    rw [mul_spacing_of_le_log2 h]
    exact Nat.log2_self_le hpositive
  obtain heq | heq := roundHalfEven_eq_or n (spacing n) <;> omega

/-- A number of fifty-three binary places is a multiple of the spacing at `n`, or lies below the
greatest power of two up to `n`, which is one. -/
theorem nearest_le_of_places (n significand exponent : Nat) (hplaces : significand < 2 ^ 53) :
    |(n : Int) - nearest n| ≤ |(n : Int) - (significand * 2 ^ exponent : Nat)| := by
  have hmultiple : ∀ m : Int, |(n : Int) - nearest n| ≤ |(n : Int) - m * spacing n| := by
    intro m
    rw [nearest, Nat.cast_mul]
    exact roundHalfEven_nearest (spacing_pos n) m
  by_cases hexponent : n.log2 - 52 ≤ exponent
  · have hsplit : significand * 2 ^ exponent =
        significand * 2 ^ (exponent - (n.log2 - 52)) * spacing n := by
      rw [spacing, Nat.mul_assoc, ← Nat.pow_add, Nat.sub_add_cancel hexponent]
    rw [hsplit, Nat.cast_mul]
    exact hmultiple _
  · have hlong : 52 ≤ n.log2 := by omega
    have hpositive : n ≠ 0 := by
      rintro rfl
      simp at hlong
    have hpower : 2 ^ 52 * spacing n ≤ n := by
      rw [mul_spacing_of_le_log2 hlong]
      exact Nat.log2_self_le hpositive
    have hbelow : significand * 2 ^ exponent ≤ 2 ^ 52 * spacing n := by
      calc significand * 2 ^ exponent
          ≤ 2 ^ 53 * 2 ^ exponent := Nat.mul_le_mul_right _ (le_of_lt hplaces)
        _ = 2 ^ 52 * 2 ^ (exponent + 1) := by ring
        _ ≤ 2 ^ 52 * spacing n := by
            apply Nat.mul_le_mul_left
            exact Nat.pow_le_pow_right (by norm_num) (by omega)
    calc |(n : Int) - nearest n|
        ≤ |(n : Int) - (2 ^ 52 : Nat) * spacing n| := hmultiple _
      _ = n - (2 ^ 52 * spacing n : Nat) := by
          rw [← Nat.cast_mul, abs_of_nonneg (by omega)]
      _ ≤ n - (significand * 2 ^ exponent : Nat) := by omega
      _ ≤ |(n : Int) - (significand * 2 ^ exponent : Nat)| := le_abs_self _

theorem natAbs_nearestDouble (n : Int) : (nearestDouble n).natAbs = nearest n.natAbs := by
  rw [nearestDouble, Int.natAbs_mul, Int.natAbs_natCast]
  by_cases hn : n = 0
  · subst hn
    rfl
  · rw [Int.natAbs_sign_of_ne_zero hn, Nat.one_mul]

theorem abs_sub_nearestDouble (n : Int) :
    |n - nearestDouble n| = |(n.natAbs : Int) - nearest n.natAbs| := by
  unfold nearestDouble
  obtain hn | rfl | hn := lt_trichotomy n 0
  · rw [Int.sign_eq_neg_one_of_neg hn, ← abs_neg]
    congr 1
    omega
  · rfl
  · rw [Int.sign_eq_one_of_pos hn]
    congr 1
    omega

theorem hasDouble_nearestDouble (n : Int) : HasDouble (nearestDouble n) := by
  have hle := roundHalfEven_spacing_le n.natAbs
  unfold HasDouble
  rw [natAbs_nearestDouble, nearest]
  by_cases hcarry : roundHalfEven n.natAbs (spacing n.natAbs) = 2 ^ 53
  · refine ⟨1, 53 + (n.natAbs.log2 - 52), by norm_num, ?_⟩
    rw [hcarry, spacing, Nat.pow_add, Nat.one_mul]
  · exact ⟨_, n.natAbs.log2 - 52, lt_of_le_of_ne hle hcarry, rfl⟩

/-- No integer that a double holds is nearer. -/
theorem nearestDouble_nearest (n : Int) {k : Int} (hk : HasDouble k) :
    |n - nearestDouble n| ≤ |n - k| := by
  obtain ⟨significand, exponent, hplaces, hmagnitude⟩ := hk
  have hnear := nearest_le_of_places n.natAbs significand exponent hplaces
  rw [← hmagnitude] at hnear
  calc |n - nearestDouble n|
      = |(n.natAbs : Int) - nearest n.natAbs| := abs_sub_nearestDouble n
    _ ≤ |(n.natAbs : Int) - k.natAbs| := hnear
    _ = |(|n| - |k|)| := by rw [Int.natCast_natAbs, Int.natCast_natAbs]
    _ ≤ |n - k| := abs_abs_sub_abs_le n k

/-- The integers that doubles hold are those that are nearest to themselves. -/
theorem nearestDouble_eq_self_iff (n : Int) : nearestDouble n = n ↔ HasDouble n := by
  constructor
  · intro hself
    rw [← hself]
    exact hasDouble_nearestDouble n
  · intro hn
    have hnear := nearestDouble_nearest n hn
    rw [sub_self, abs_zero] at hnear
    exact (sub_eq_zero.mp (abs_nonpos_iff.mp hnear)).symm

/-- Rounding passes no integer that a double holds. -/
theorem nearestDouble_le {n k : Int} (hk : HasDouble k) (h : n ≤ k) : nearestDouble n ≤ k := by
  have hnear := nearestDouble_nearest n hk
  rw [abs_sub_comm n k, abs_of_nonneg (sub_nonneg.mpr h)] at hnear
  have hlow := neg_abs_le (n - nearestDouble n)
  omega

theorem le_nearestDouble {n k : Int} (hk : HasDouble k) (h : k ≤ n) : k ≤ nearestDouble n := by
  have hnear := nearestDouble_nearest n hk
  rw [abs_of_nonneg (sub_nonneg.mpr h)] at hnear
  have hhigh := le_abs_self (n - nearestDouble n)
  omega

/-- Every integer of fifty-three binary places is held. -/
theorem hasDouble_of_natAbs_le {n : Int} (h : n.natAbs ≤ 2 ^ 53) : HasDouble n := by
  by_cases hfull : n.natAbs = 2 ^ 53
  · exact ⟨1, 53, by norm_num, by rw [hfull, Nat.one_mul]⟩
  · exact ⟨n.natAbs, 0, lt_of_le_of_ne h hfull, by rw [Nat.pow_zero, Nat.mul_one]⟩

end SignalMap.Numeric
