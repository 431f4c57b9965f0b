import SignalMap.Numeric.Shortest

/-!
Writing a floating-point number. A layout says which numbers are written
without an exponent and whether a whole number shows a fraction; the digits are
always the shortest that read back.
-/

namespace SignalMap.Numeric

structure Layout where
  /-- Numbers `d.ddd * 10 ^ x` with `x` in this range are written positionally. -/
  least : Option Int
  greatest : Option Int
  /-- A whole number written positionally ends in `.0`. -/
  pointZero : Bool
  tie : Tie

/-- Documents, and messages about them, hold doubles positionally from `0.00001` up to sixteen
places. -/
def Layout.documentDouble : Layout := ⟨some (-5), some 15, true, .toEven⟩

/-- Documents hold singles positionally from `0.000001` up to thirteen places. -/
def Layout.documentSingle : Layout := ⟨some (-6), some 12, true, .toEven⟩

def Layout.plain : Layout := ⟨none, none, false, .up⟩

def Layout.isPositional (l : Layout) (x : Int) : Bool :=
  l.least.all (· ≤ x) && l.greatest.all (x ≤ ·)

def positional (pointZero : Bool) (digits : List Char) (x : Int) : List Char :=
  if x < 0 then '0' :: '.' :: List.replicate (-x - 1).toNat '0' ++ digits
  else
    let whole := x.toNat + 1
    if digits.length ≤ whole then
      digits ++ List.replicate (whole - digits.length) '0' ++ if pointZero then ['.', '0'] else []
    else digits.take whole ++ '.' :: digits.drop whole

def scientific (digits : List Char) (x : Int) : List Char :=
  let fraction := digits.drop 1
  digits.take 1 ++ (if fraction.isEmpty then [] else '.' :: fraction) ++
    'e' :: (if x < 0 then '-' else '+') :: Nat.toDigits 10 x.natAbs

def Layout.writeMagnitude (l : Layout) (f : Format) (b : Binary) : List Char :=
  if b.significand = 0 then positional l.pointZero ['0'] 0
  else
    let s := f.shortest l.tie b
    let digits := Nat.toDigits 10 s.digits
    let x := s.exponent + digits.length - 1
    if l.isPositional x then positional l.pointZero digits x else scientific digits x

def Layout.writeReading (l : Layout) (f : Format) : Reading → String
  | .nan => "NaN"
  | .infinite negative => if negative then "-inf" else "inf"
  | .finite negative b =>
    String.ofList ((if negative then ['-'] else []) ++ l.writeMagnitude f b)

def Layout.writeDouble (l : Layout) (x : Float) : String :=
  l.writeReading .double (readDouble x)

def Layout.writeSingle (l : Layout) (x : Float32) : String :=
  l.writeReading .single (readSingle x)

end SignalMap.Numeric
