import SignalMap.Numeric.Rounding
import SignalMap.Text.Numeral

/-!
Reading a decimal number without a sign: digits with at most one point among
them, at least one digit, and an optional exponent part. The value is rounded
once, to the nearest double.
-/

namespace SignalMap.Numeric

def exponentPart? : List Char → Option Int
  | [] => some 0
  | mark :: rest =>
    if mark = 'e' ∨ mark = 'E' then
      match rest with
      | '-' :: digits => (Text.digits? digits).map fun n => -(n : Int)
      | '+' :: digits => (Text.digits? digits).map fun n => (n : Int)
      | digits => (Text.digits? digits).map fun n => (n : Int)
    else none

def readDecimal? (cs : List Char) : Option Float :=
  let whole := cs.takeWhile Char.isDigit
  let rest := cs.dropWhile Char.isDigit
  let (fraction, rest) := match rest with
    | '.' :: more => (more.takeWhile Char.isDigit, more.dropWhile Char.isDigit)
    | _ => ([], rest)
  if whole = [] ∧ fraction = [] then none
  else (exponentPart? rest).map fun exponent =>
    toDouble (Text.digitsValue (whole ++ fraction)) (exponent - fraction.length)

end SignalMap.Numeric
