import SignalMap.Numeric.Binary

/-!
Reading a decimal number into a binary format. The result is the nearest number
of the format, a tie goes to the even significand, and a decimal beyond the
largest number gives infinity.
-/

namespace SignalMap.Numeric

def roundHalfEven (num den : Nat) : Nat :=
  let quotient := num / den
  let rest := 2 * (num % den)
  if den < rest ∨ (rest = den ∧ quotient % 2 = 1) then quotient + 1 else quotient

def scaleByTen (exponent : Int) (num den : Nat) : Nat × Nat :=
  if 0 ≤ exponent then (num * Nat.pow 10 exponent.toNat, den)
  else (num, den * Nat.pow 10 (-exponent).toNat)

def scaleByTwo (exponent : Int) (num den : Nat) : Nat × Nat :=
  if 0 ≤ exponent then (num * Nat.pow 2 exponent.toNat, den)
  else (num, den * Nat.pow 2 (-exponent).toNat)

def floorLog2 (num den : Nat) : Int :=
  let guess : Int := num.log2 - den.log2
  let (n, d) := scaleByTwo (-guess) num den
  if n < d then guess - 1 else guess

/-- The bits of the number of the format nearest to a quotient. The significand
of a full-length number carries its hidden bit into the exponent field, and so
does one that rounds up to the next power of two. -/
def Format.roundQuotient (f : Format) (num den : Nat) : Nat :=
  if num = 0 then 0
  else
    let exponent := max f.leastExponent (floorLog2 num den - (f.precision - 1 : Nat))
    let (n, d) := scaleByTwo (-exponent) num den
    let bits := (exponent - f.leastExponent).toNat * Nat.pow 2 (f.precision - 1) + roundHalfEven n d
    min bits f.infinityBits

/-- The bits of the number of the format nearest to `digits * 10 ^ exponent`.
Decimals far outside the range are settled by their size alone. -/
def Format.roundDecimal (f : Format) (digits : Nat) (exponent : Int) : Nat :=
  let size := exponent + (Nat.toDigits 10 digits).length
  if digits = 0 ∨ size < -400 then 0
  else if 400 < size then f.infinityBits
  else
    let (num, den) := scaleByTen exponent digits 1
    f.roundQuotient num den

def toDouble (digits : Nat) (exponent : Int) : Float :=
  Float.ofBits (UInt64.ofNat (Format.double.roundDecimal digits exponent))

end SignalMap.Numeric
