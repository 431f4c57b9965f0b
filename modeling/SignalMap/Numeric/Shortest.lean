import SignalMap.Numeric.Rounding

/-!
The shortest decimal that reads back as a given binary number. Grids of one,
two, three and more digits are tried in turn; on each the two neighbours of the
value are compared with the interval of reals that round to it, and of two that
lie inside the nearer is taken.
-/

namespace SignalMap.Numeric

inductive Tie where
  | toEven
  | up
  deriving DecidableEq

structure Shortest where
  digits : Nat
  exponent : Int
  deriving DecidableEq

/-- The reals that round to a binary number, as quotients over one denominator,
with the number itself; the ends belong to it when its significand is even. -/
structure Interval where
  low : Nat
  value : Nat
  high : Nat
  den : Nat
  closed : Bool

/-- Below a power of two the numbers lie twice as dense, so the lower half of
its interval is half as wide. -/
def Format.interval (f : Format) (b : Binary) : Interval :=
  let isPower := b.significand = Nat.pow 2 (f.precision - 1)
  let below := if isPower ∧ f.leastExponent < b.exponent then 1 else 2
  let (scale, den) := scaleByTwo (b.exponent - 2) 1 1
  { low := (4 * b.significand - below) * scale
    value := 4 * b.significand * scale
    high := (4 * b.significand + 2) * scale
    den := den
    closed := b.significand % 2 = 0 }

def Interval.inUnits (i : Interval) (exponent : Int) : Interval :=
  let (scale, den) := scaleByTen (-exponent) 1 i.den
  { i with low := i.low * scale, value := i.value * scale, high := i.high * scale, den := den }

def Interval.contains (i : Interval) (n : Nat) : Bool :=
  let point := n * i.den
  if i.closed then i.low ≤ point && point ≤ i.high else i.low < point && point < i.high

def Interval.nearest? (i : Interval) (tie : Tie) : Option Nat :=
  let floor := i.value / i.den
  let rest := 2 * (i.value % i.den)
  match i.contains floor, i.contains (floor + 1) with
  | true, true =>
    if rest < i.den then some floor
    else if i.den < rest then some (floor + 1)
    else match tie with
      | .toEven => some (if floor % 2 = 0 then floor else floor + 1)
      | .up => some (floor + 1)
  | true, false => some floor
  | false, true => some (floor + 1)
  | false, false => none

def floorLog10 (num den : Nat) : Int :=
  if den ≤ num then ((Nat.toDigits 10 (num / den)).length - 1 : Nat)
  else
    let length := (Nat.toDigits 10 (den / num)).length
    if den ≤ num * Nat.pow 10 (length - 1) then -(length - 1 : Nat) else -(length : Int)

def stripZeros (digits : Nat) (exponent : Int) : Nat → Shortest
  | 0 => ⟨digits, exponent⟩
  | fuel + 1 =>
    if digits % 10 = 0 ∧ digits ≠ 0 then stripZeros (digits / 10) (exponent + 1) fuel
    else ⟨digits, exponent⟩

/-- Try the grids of `count` digits and more; seventeen digits always suffice
for a double. -/
def shortestFrom (i : Interval) (tie : Tie) (top : Int) (count : Nat) : Nat → Shortest
  | 0 => ⟨0, 0⟩
  | fuel + 1 =>
    let exponent := top - (count - 1 : Nat)
    match (i.inUnits exponent).nearest? tie with
    | some n => stripZeros n exponent (count + 1)
    | none => shortestFrom i tie top (count + 1) fuel

def Format.shortest (f : Format) (tie : Tie) (b : Binary) : Shortest :=
  let i := f.interval b
  shortestFrom i tie (floorLog10 i.value i.den) 1 17

end SignalMap.Numeric
