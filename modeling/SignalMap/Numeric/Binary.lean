/-!
Binary floating-point numbers as exact integers. A finite number is a
significand times a power of two, with a sign; the bits are read and written in
the interchange layout of the format.
-/

namespace SignalMap.Numeric

structure Format where
  precision : Nat
  exponentBits : Nat

def Format.double : Format := ⟨53, 11⟩

def Format.single : Format := ⟨24, 8⟩

def Format.leastExponent (f : Format) : Int :=
  3 - Nat.pow 2 (f.exponentBits - 1) - f.precision

def Format.infinityBits (f : Format) : Nat :=
  (Nat.pow 2 f.exponentBits - 1) * Nat.pow 2 (f.precision - 1)

/-- The number `significand * 2 ^ exponent`. -/
structure Binary where
  significand : Nat
  exponent : Int
  deriving DecidableEq

inductive Reading where
  | nan
  | infinite (negative : Bool)
  | finite (negative : Bool) (value : Binary)
  deriving DecidableEq

/-- An exponent field of zero marks the numbers without the hidden bit, and one
of all ones marks infinity and the numbers that are none. -/
def Format.read (f : Format) (bits : Nat) : Reading :=
  let fractionSize := Nat.pow 2 (f.precision - 1)
  let fieldSize := Nat.pow 2 f.exponentBits
  let fraction := bits % fractionSize
  let field := bits / fractionSize % fieldSize
  let negative := bits / fractionSize / fieldSize % 2 == 1
  if field == fieldSize - 1 then
    if fraction == 0 then .infinite negative else .nan
  else if field == 0 then .finite negative ⟨fraction, f.leastExponent⟩
  else .finite negative ⟨fraction + fractionSize, f.leastExponent + (field - 1 : Nat)⟩

def readDouble (x : Float) : Reading :=
  Format.double.read x.toBits.toNat

def readSingle (x : Float32) : Reading :=
  Format.single.read x.toBits.toNat

end SignalMap.Numeric
