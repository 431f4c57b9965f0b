/-!
Decimal integers in text. A numeral is an optional sign and one or more ASCII
digits, and it is refused when its value leaves the range of the word it is
read into.
-/

namespace SignalMap.Text

def maxUnsigned : Nat := 18446744073709551615

def maxSigned : Nat := 9223372036854775807

def digitsValue (cs : List Char) : Nat :=
  cs.foldl (fun n c => 10 * n + (c.toNat - '0'.toNat)) 0

def digits? (cs : List Char) : Option Nat :=
  if cs ≠ [] ∧ cs.all Char.isDigit then some (digitsValue cs) else none

/-- An unsigned numeral may carry a plus sign and is at most `maxUnsigned`. -/
def unsigned? (cs : List Char) : Option Nat :=
  let run := match cs with
    | '+' :: rest => rest
    | _ => cs
  (digits? run).filter (· ≤ maxUnsigned)

/-- A signed numeral may carry either sign and fits a 64-bit signed word. -/
def signed? : List Char → Option Int
  | '-' :: rest => ((digits? rest).filter (· ≤ maxSigned + 1)).map fun n => -(n : Int)
  | '+' :: rest => ((digits? rest).filter (· ≤ maxSigned)).map fun n => (n : Int)
  | cs => ((digits? cs).filter (· ≤ maxSigned)).map fun n => (n : Int)

end SignalMap.Text
