import SignalMap.Proofs.Value.Integers
import SignalMap.Resolution.Rules

/-!
Casts between integer types. A cast takes every element through a double, so it
keeps the integers that doubles hold, moves the others to the nearest of them,
and ends at the bounds of the target.
-/

namespace SignalMap

open Numeric (HasDouble nearestDouble)

namespace IntegerType

def bring (t : IntegerType) (n : Int) : Int := max t.low (min t.high (nearestDouble n))

structure Brings (t : IntegerType) (n m : Int) : Prop where
  /-- Below the type is its least integer. -/
  below : n < t.low → m = t.low
  /-- Above the type is its greatest integer. -/
  above : t.high < n → m = t.high
  /-- Of the integers of the type, those that doubles hold and the greatest one stay. -/
  keeps_iff : t.low ≤ n → n ≤ t.high → (m = n ↔ HasDouble n ∨ n = t.high)
  /-- Integers of fifty-three binary places are among them. -/
  keeps_small : t.low ≤ n → n ≤ t.high → n.natAbs ≤ 2 ^ 53 → m = n
  /-- The others become one that a double holds, or the greatest. -/
  held : t.low ≤ n → n ≤ t.high → HasDouble m ∨ m = t.high
  /-- No integer that a double holds is nearer. -/
  nearest : t.low ≤ n → n ≤ t.high → ∀ k, HasDouble k → |n - m| ≤ |n - k|
  /-- Nothing leaves the type. -/
  inside : t.low ≤ m ∧ m ≤ t.high

theorem hasDouble_low (t : IntegerType) : HasDouble t.low := by
  cases t with
  | int => exact ⟨1, 31, by norm_num, rfl⟩
  | long => exact ⟨1, 63, by norm_num, rfl⟩
  | uint => exact ⟨0, 0, by norm_num, rfl⟩
  | ulong => exact ⟨0, 0, by norm_num, rfl⟩

/-- The first integer above a type is a power of two. -/
theorem hasDouble_succ_high (t : IntegerType) : HasDouble (t.high + 1) := by
  cases t with
  | int => exact ⟨1, 31, by norm_num, rfl⟩
  | long => exact ⟨1, 63, by norm_num, rfl⟩
  | uint => exact ⟨1, 32, by norm_num, rfl⟩
  | ulong => exact ⟨1, 64, by norm_num, rfl⟩

/-- The greatest integer of a type is rounded up, if at all. -/
theorem high_le_nearestDouble_high (t : IntegerType) : t.high ≤ nearestDouble t.high := by
  cases t <;> decide +kernel

theorem bring_of_mem {t : IntegerType} {n : Int} (hlow : t.low ≤ n) :
    t.bring n = min t.high (nearestDouble n) := by
  have hnear := Numeric.le_nearestDouble t.hasDouble_low hlow
  have horder := t.low_le_high
  exact max_eq_right (le_min horder hnear)

/-- Of the integers of a type, those that doubles hold and the greatest one stay. -/
theorem bring_eq_self_iff {t : IntegerType} {n : Int} (hlow : t.low ≤ n) (hhigh : n ≤ t.high) :
    t.bring n = n ↔ HasDouble n ∨ n = t.high := by
  rw [bring_of_mem hlow]
  constructor
  · intro hkept
    obtain hmin | hmin := min_choice t.high (nearestDouble n)
    · exact Or.inr (hkept.symm.trans hmin)
    · exact Or.inl ((Numeric.nearestDouble_eq_self_iff n).mp (hmin.symm.trans hkept))
  · rintro (hheld | rfl)
    · rw [(Numeric.nearestDouble_eq_self_iff n).mpr hheld]
      exact min_eq_right hhigh
    · exact min_eq_left t.high_le_nearestDouble_high

theorem brings_bring (t : IntegerType) (n : Int) : t.Brings n (t.bring n) := by
  have horder := t.low_le_high
  constructor
  case below =>
    intro hn
    have hnear := Numeric.nearestDouble_le t.hasDouble_low (le_of_lt hn)
    unfold bring
    omega
  case above =>
    intro hn
    have hnear := Numeric.le_nearestDouble t.hasDouble_succ_high (Int.add_one_le_of_lt hn)
    unfold bring
    omega
  case keeps_iff => exact bring_eq_self_iff
  case keeps_small =>
    intro hlow hhigh hsmall
    have hheld := Numeric.hasDouble_of_natAbs_le hsmall
    exact (bring_eq_self_iff hlow hhigh).mpr (Or.inl hheld)
  case held =>
    intro hlow _
    rw [bring_of_mem hlow]
    obtain hmin | hmin := min_choice t.high (nearestDouble n)
    · exact Or.inr hmin
    · rw [hmin]
      exact Or.inl (Numeric.hasDouble_nearestDouble n)
  case nearest =>
    intro hlow hhigh k hk
    have hnear := Numeric.nearestDouble_nearest n hk
    rw [bring_of_mem hlow]
    by_cases hbeyond : nearestDouble n ≤ t.high
    · rw [min_eq_right hbeyond]
      exact hnear
    · -- the bound lies between the integer and the one that it is rounded to
      rw [min_eq_left (by omega), abs_sub_comm, abs_of_nonneg (by omega)]
      rw [abs_sub_comm, abs_of_nonneg (by omega)] at hnear
      omega
  case inside =>
    unfold bring
    omega

/-- A cast brings the integer of an element to the type. -/
theorem number_cast (source target : IntegerType) (x : source.dtype.Element) :
    target.number (target.dtype.ofDouble (source.dtype.toDouble x)) =
      target.bring (source.number x) := by
  rw [number_ofDouble, toDouble_eq_ofInteger,
    Numeric.truncate_ofInteger (source.log2_number_lt x)]
  rfl

/-- An element that is cast to its own type stays as it is, if a double holds its integer or it is
the greatest one. -/
theorem cast_self_iff (t : IntegerType) (x : t.dtype.Element) :
    t.dtype.ofDouble (t.dtype.toDouble x) = x ↔ HasDouble (t.number x) ∨ t.number x = t.high := by
  obtain ⟨hlow, hhigh⟩ := t.number_mem x
  rw [← t.number_injective.eq_iff, number_cast]
  exact bring_eq_self_iff hlow hhigh

end IntegerType

theorem Json.ofInt_toInt (word : Int64) :
    ∃ literal : JsonNumber, Json.ofInt word.toInt = .number literal ∧
      literal.integer? = some word.toInt := by
  unfold Json.ofInt
  by_cases hnegative : word.toInt < 0
  · rw [if_pos hnegative, Int64.ofInt_toInt]
    exact ⟨_, rfl, rfl⟩
  · have hfits : word.toInt.toNat < UInt64.size := by
      have hword : word.toInt < 2 ^ 63 := Int64.toInt_lt word
      have hsize : UInt64.size = 2 ^ 64 := rfl
      omega
    rw [if_neg hnegative]
    refine ⟨_, rfl, ?_⟩
    rw [JsonNumber.integer?, UInt64.toNat_ofNat_of_lt' hfits,
      Int.toNat_of_nonneg (not_lt.mp hnegative)]

/-- A word is read from the document that it is written as. -/
theorem Value.ofJson?_ofInt (word : Int64) :
    Value.ofJson? (Json.ofInt word.toInt) = some (.scalar ⟨.long, word⟩) := by
  obtain ⟨literal, hdocument, hinteger⟩ := Json.ofInt_toInt word
  have hword := Scalar.toInt_le_maxSigned word
  obtain ⟨same, hscalar, hsame⟩ := Scalar.ofJsonNumber_of_le hinteger hword
  rw [hdocument, Value.ofJson?, hscalar, Int64.toInt_inj.mp hsame]

/-- A VALUE rule with a type casts the word that it is written with. -/
theorem Rule.compute_literal_word (r : Resolver) (s : Scope) (key : String)
    (follow : String → Outcome Value) (word : Int64) (d : DataType) :
    Rule.compute r s key follow (.value (.literal (Json.ofInt word.toInt)) (some d)) =
      pure (.scalar (Scalar.cast d ⟨.long, word⟩)) := by
  rw [Rule.compute, Rule.computeSource, Rule.represent, Value.ofJson?_ofInt]
  rfl

namespace IntegerType

theorem scalar_cast_self_iff (t : IntegerType) (x : t.dtype.Element) :
    Scalar.cast t.dtype ⟨t.dtype, x⟩ = ⟨t.dtype, x⟩ ↔
      HasDouble (t.number x) ∨ t.number x = t.high := by
  rw [← cast_self_iff, Scalar.cast, Scalar.mk.injEq]
  simp [Scalar.toDouble]

theorem array_cast_self_iff (t : IntegerType) (xs : List t.dtype.Element) :
    NumericArray.cast t.dtype ⟨t.dtype, xs⟩ = ⟨t.dtype, xs⟩ ↔
      ∀ x ∈ xs, HasDouble (t.number x) ∨ t.number x = t.high := by
  have hsame := List.map_inj_left (l := xs) (f := t.dtype.ofDouble ∘ t.dtype.toDouble) (g := id)
  rw [List.map_id] at hsame
  simp only [← cast_self_iff]
  rw [NumericArray.cast, NumericArray.mk.injEq, heq_eq_eq, NumericArray.toDoubles, List.map_map]
  exact (and_iff_right rfl).trans hsame

theorem compute_long_eq_iff (r : Resolver) (s : Scope) (key : String)
    (follow : String → Outcome Value) (word : Int64) :
    Rule.compute r s key follow (.value (.literal (Json.ofInt word.toInt)) (some .long)) =
        pure (.scalar ⟨.long, word⟩) ↔
      HasDouble word.toInt ∨ word.toInt = IntegerType.long.high := by
  have hself := scalar_cast_self_iff .long word
  rw [Rule.compute_literal_word]
  constructor
  · intro hcomputed
    have hvalue := Except.ok.inj (congrArg Outcome.result hcomputed)
    exact hself.mp (Value.scalar.inj hvalue)
  · intro hheld
    have hscalar := hself.mpr hheld
    exact congrArg (fun scalar => pure (Value.scalar scalar)) hscalar

/-- Every cast between integer types brings the integers of the elements to the target, alone and
in arrays. A cast of an element, or of an array, to its own type is the identity only where doubles
hold the integers or these are the greatest ones, and so is a VALUE rule of type long on the word
that it is written with. -/
theorem cast_brings (source target : IntegerType) :
    (∀ x, target.number (Scalar.cast target.dtype ⟨source.dtype, x⟩).value =
      target.bring (source.number x)) ∧
    (∀ xs, (NumericArray.cast target.dtype ⟨source.dtype, xs⟩).values.map target.number =
      (xs.map source.number).map target.bring) ∧
    (∀ n, target.Brings n (target.bring n)) ∧
    (∀ x, Scalar.cast source.dtype ⟨source.dtype, x⟩ = ⟨source.dtype, x⟩ ↔
      HasDouble (source.number x) ∨ source.number x = source.high) ∧
    (∀ xs, NumericArray.cast source.dtype ⟨source.dtype, xs⟩ = ⟨source.dtype, xs⟩ ↔
      ∀ x ∈ xs, HasDouble (source.number x) ∨ source.number x = source.high) ∧
    (∀ r s key follow (word : Int64),
      Rule.compute r s key follow (.value (.literal (Json.ofInt word.toInt)) (some .long)) =
        pure (.scalar ⟨.long, word⟩) ↔
      HasDouble word.toInt ∨ word.toInt = IntegerType.long.high) := by
  refine ⟨source.number_cast target, ?_, target.brings_bring, source.scalar_cast_self_iff,
    source.array_cast_self_iff, ?_⟩
  · intro xs
    simp only [NumericArray.cast, NumericArray.toDoubles, List.map_map]
    apply List.map_congr_left
    intro x _
    exact source.number_cast target x
  · exact compute_long_eq_iff

/-- A word that no double holds does not stay the same. -/
theorem not_forall_cast_keeps :
    ¬ ∀ (source target : IntegerType) (x : source.dtype.Element),
      target.low ≤ source.number x → source.number x ≤ target.high →
        target.number (Scalar.cast target.dtype ⟨source.dtype, x⟩).value = source.number x := by
  intro hkeeps
  have hkept := hkeeps .long .long (9007199254740993 : Int64) (by decide) (by decide)
  revert hkept
  decide +kernel

end IntegerType

end SignalMap
