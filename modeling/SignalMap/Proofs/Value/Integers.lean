import SignalMap.Proofs.Numeric.Conversion
import SignalMap.Value

/-!
The element types that hold integers, with the integers that their elements
stand for. An element becomes a double and a double becomes an element through
the integer alone, whatever the width of the type.
-/

namespace SignalMap

inductive IntegerType where
  | int
  | long
  | uint
  | ulong
  deriving DecidableEq

namespace IntegerType

def dtype : IntegerType → DataType
  | .int => .int
  | .long => .long
  | .uint => .uint
  | .ulong => .ulong

def low : IntegerType → Int
  | .int => -2 ^ 31
  | .long => -2 ^ 63
  | .uint => 0
  | .ulong => 0

def high : IntegerType → Int
  | .int => 2 ^ 31 - 1
  | .long => 2 ^ 63 - 1
  | .uint => 2 ^ 32 - 1
  | .ulong => 2 ^ 64 - 1

def number : (t : IntegerType) → t.dtype.Element → Int
  | .int, n => Int32.toInt n
  | .long, n => Int64.toInt n
  | .uint, n => (UInt32.toNat n : Int)
  | .ulong, n => (UInt64.toNat n : Int)

theorem number_mem (t : IntegerType) (x : t.dtype.Element) :
    t.low ≤ t.number x ∧ t.number x ≤ t.high := by
  cases t with
  | int => exact ⟨Int32.le_toInt x, Int.le_sub_one_of_lt (Int32.toInt_lt x)⟩
  | long => exact ⟨Int64.le_toInt x, Int.le_sub_one_of_lt (Int64.toInt_lt x)⟩
  | uint =>
    have hlt : UInt32.toNat x < 2 ^ 32 := UInt32.toNat_lt x
    simp only [low, high, number]
    omega
  | ulong =>
    have hlt : UInt64.toNat x < 2 ^ 64 := UInt64.toNat_lt x
    simp only [low, high, number]
    omega

/-- Elements that stand for one integer are equal. -/
theorem number_injective (t : IntegerType) : Function.Injective t.number := by
  intro x y h
  cases t with
  | int => exact Int32.toInt_inj.mp h
  | long => exact Int64.toInt_inj.mp h
  | uint => exact UInt32.toNat_inj.mp (Int.ofNat.inj h)
  | ulong => exact UInt64.toNat_inj.mp (Int.ofNat.inj h)

theorem low_le_high (t : IntegerType) : t.low ≤ t.high := by
  cases t <;> decide

/-- Every integer type lies inside the range of the doubles. -/
theorem log2_number_lt (t : IntegerType) (x : t.dtype.Element) :
    (t.number x).natAbs.log2 < 1023 := by
  have hmem := t.number_mem x
  have hbound : (t.number x).natAbs < 2 ^ 64 := by
    cases t <;> simp only [low, high] at hmem <;> omega
  by_cases hzero : (t.number x).natAbs = 0
  · rw [hzero]
    decide
  · have hlog := (Nat.log2_lt hzero).mpr hbound
    omega

/-- Zero is an element of every integer type, so what is no number has a place there too. -/
theorem truncate_mem (t : IntegerType) (x : Float) :
    t.low ≤ Numeric.truncate t.low t.high x ∧ Numeric.truncate t.low t.high x ≤ t.high := by
  have hzero : t.low ≤ 0 ∧ 0 ≤ t.high := by
    cases t <;> decide
  have horder := t.low_le_high
  unfold Numeric.truncate
  split
  · exact hzero
  · split
    · exact ⟨le_rfl, horder⟩
    · exact ⟨horder, le_rfl⟩
  · exact ⟨le_max_left _ _, max_le horder (min_le_left _ _)⟩

theorem toDouble_eq_ofInteger (t : IntegerType) (x : t.dtype.Element) :
    t.dtype.toDouble x = Numeric.ofInteger (t.number x) := by
  cases t <;> rfl

/-- A double becomes an element by what it is toward zero, inside the bounds of the type. -/
theorem number_ofDouble (t : IntegerType) (x : Float) :
    t.number (t.dtype.ofDouble x) = Numeric.truncate t.low t.high x := by
  obtain ⟨hlow, hhigh⟩ := t.truncate_mem x
  cases t with
  | int => exact Int32.toInt_ofInt_of_le hlow (Int.lt_of_le_sub_one hhigh)
  | long => exact Int64.toInt_ofInt_of_le hlow (Int.lt_of_le_sub_one hhigh)
  | uint =>
    simp only [low, high] at hlow hhigh
    have hword : (Numeric.truncate 0 (2 ^ 32 - 1) x).toNat < UInt32.size := by
      have hsize : UInt32.size = 2 ^ 32 := rfl
      omega
    have hnumber := UInt32.toNat_ofNat_of_lt' hword
    change ((UInt32.ofNat (Numeric.truncate 0 (2 ^ 32 - 1) x).toNat).toNat : Int) = _
    rw [hnumber, Int.toNat_of_nonneg hlow]
    rfl
  | ulong =>
    simp only [low, high] at hlow hhigh
    have hword : (Numeric.truncate 0 (2 ^ 64 - 1) x).toNat < UInt64.size := by
      have hsize : UInt64.size = 2 ^ 64 := rfl
      omega
    have hnumber := UInt64.toNat_ofNat_of_lt' hword
    change ((UInt64.ofNat (Numeric.truncate 0 (2 ^ 64 - 1) x).toNat).toNat : Int) = _
    rw [hnumber, Int.toNat_of_nonneg hlow]
    rfl

end IntegerType

namespace JsonNumber

def integer? : JsonNumber → Option Int
  | .unsigned n => some (n.toNat : Int)
  | .negative n => some n.toInt
  | .float _ => none

end JsonNumber

namespace Scalar

variable {literal : JsonNumber} {n : Int}

theorem toInt_le_maxSigned (word : Int64) : word.toInt ≤ Text.maxSigned :=
  Int.le_sub_one_of_lt (Int64.toInt_lt word)

/-- A written integer that fits a signed word is that word. -/
theorem ofJsonNumber_of_le (hinteger : literal.integer? = some n) (hn : n ≤ Text.maxSigned) :
    ∃ word : Int64, ofJsonNumber literal = ⟨.long, word⟩ ∧ word.toInt = n := by
  cases literal with
  | unsigned m =>
    have hm : (m.toNat : Int) = n := Option.some.inj hinteger
    have hfits : m.toNat ≤ Text.maxSigned := by omega
    refine ⟨Int64.ofNat m.toNat, ?_, ?_⟩
    · rw [ofJsonNumber, if_pos hfits]
    · rw [Int64.toInt_ofNat_of_lt (Nat.lt_succ_of_le hfits), hm]
  | negative m => exact ⟨m, rfl, Option.some.inj hinteger⟩
  | float x => simp [JsonNumber.integer?] at hinteger

/-- A written integer above the signed words is an unsigned one. -/
theorem ofJsonNumber_of_lt (hinteger : literal.integer? = some n) (hn : Text.maxSigned < n) :
    ∃ word : UInt64, ofJsonNumber literal = ⟨.ulong, word⟩ ∧ (word.toNat : Int) = n := by
  cases literal with
  | unsigned m =>
    have hm : (m.toNat : Int) = n := Option.some.inj hinteger
    have hlarge : ¬ m.toNat ≤ Text.maxSigned := by omega
    refine ⟨m, ?_, hm⟩
    rw [ofJsonNumber, if_neg hlarge]
  | negative m =>
    have hm : m.toInt = n := Option.some.inj hinteger
    have hword := toInt_le_maxSigned m
    omega
  | float x => simp [JsonNumber.integer?] at hinteger

end Scalar

end SignalMap
