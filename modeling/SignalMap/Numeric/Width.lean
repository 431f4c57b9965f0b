import SignalMap.Numeric.Rounding

/-!
Conversions between the widths of a number. An integer becomes the nearest
double; a double becomes the integer toward zero, held inside the bounds of the
target, and zero when it is no number.
-/

namespace SignalMap.Numeric

def Format.signed (f : Format) (negative : Bool) (magnitude : Nat) : Nat :=
  if negative then Nat.pow 2 (f.precision - 1 + f.exponentBits) + magnitude else magnitude

def Format.write (f : Format) : Reading → Nat
  | .nan => f.infinityBits + Nat.pow 2 (f.precision - 2)
  | .infinite negative => f.signed negative f.infinityBits
  | .finite negative b =>
    let (num, den) := scaleByTwo b.exponent b.significand 1
    f.signed negative (f.roundQuotient num den)

def toSingle (x : Float) : Float32 :=
  Float32.ofBits (UInt32.ofNat (Format.single.write (readDouble x)))

def ofSingle (x : Float32) : Float :=
  Float.ofBits (UInt64.ofNat (Format.double.write (readSingle x)))

def ofInteger (n : Int) : Float :=
  Float.ofBits (UInt64.ofNat
    (Format.double.signed (decide (n < 0)) (Format.double.roundQuotient n.natAbs 1)))

def truncate (low high : Int) (x : Float) : Int :=
  match readDouble x with
  | .nan => 0
  | .infinite negative => if negative then low else high
  | .finite negative b =>
    let (num, den) := scaleByTwo b.exponent b.significand 1
    let whole : Int := (num / den : Nat)
    max low (min high (if negative then -whole else whole))

end SignalMap.Numeric
