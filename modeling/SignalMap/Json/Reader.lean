import SignalMap.Json.Basic
import SignalMap.Text.Numeral

/-!
Reading JSON text. Each reader takes the characters that remain and gives what
it read with the characters after it, or nothing when the text is no JSON. A
document nests at most 127 deep.
-/

namespace SignalMap.JsonReader

def isSpace (c : Char) : Bool :=
  c == ' ' || c == '\n' || c == '\t' || c == '\r'

def skipSpace (cs : List Char) : List Char :=
  cs.dropWhile isSpace

/-! Strings -/

def hexDigit? (c : Char) : Option Nat :=
  if c.isDigit then some (c.toNat - '0'.toNat)
  else if 'a' ≤ c ∧ c ≤ 'f' then some (c.toNat - 'a'.toNat + 10)
  else if 'A' ≤ c ∧ c ≤ 'F' then some (c.toNat - 'A'.toNat + 10)
  else none

def hexUnit? (a b c d : Char) : Option Nat := do
  let a ← hexDigit? a
  let b ← hexDigit? b
  let c ← hexDigit? c
  let d ← hexDigit? d
  return ((a * 16 + b) * 16 + c) * 16 + d

def isLeading (unit : Nat) : Bool := 0xD800 ≤ unit && unit ≤ 0xDBFF

def isTrailing (unit : Nat) : Bool := 0xDC00 ≤ unit && unit ≤ 0xDFFF

def pairChar (leading trailing : Nat) : Char :=
  Char.ofNat (0x10000 + (leading - 0xD800) * 0x400 + (trailing - 0xDC00))

def escape? (c : Char) : Option Char :=
  match c with
  | '"' => some '"'
  | '\\' => some '\\'
  | '/' => some '/'
  | 'b' => some '\x08'
  | 'f' => some '\x0c'
  | 'n' => some '\n'
  | 'r' => some '\r'
  | 't' => some '\t'
  | _ => none

/-- The characters up to the closing quote. Half of a pair alone and a control
character that is not escaped are refused. -/
def readString : List Char → Option (List Char × List Char)
  | [] => none
  | '"' :: rest => some ([], rest)
  | '\\' :: 'u' :: a :: b :: c :: d :: rest => do
    let unit ← hexUnit? a b c d
    if isTrailing unit then none
    else if isLeading unit then
      match rest with
      | '\\' :: 'u' :: e :: f :: g :: h :: rest' => do
        let trailing ← hexUnit? e f g h
        if isTrailing trailing then
          let (text, after) ← readString rest'
          return (pairChar unit trailing :: text, after)
        else none
      | _ => none
    else
      let (text, after) ← readString rest
      return (Char.ofNat unit :: text, after)
  | '\\' :: c :: rest => do
    let c ← escape? c
    let (text, after) ← readString rest
    return (c :: text, after)
  | c :: rest => do
    if c.toNat < 0x20 then none
    else
      let (text, after) ← readString rest
      return (c :: text, after)

/-! Numbers -/

def absorb (significand : Nat) : List Char → Nat × Nat
  | [] => (significand, 0)
  | c :: rest =>
    let next := 10 * significand + (c.toNat - '0'.toNat)
    if next ≤ Text.maxUnsigned then
      let (total, count) := absorb next rest
      (total, count + 1)
    else (significand, 0)

def scaleDown (x : Float) (power : Nat) : Float :=
  if power ≤ 308 then x / Numeric.toDouble 1 power
  else if x == 0 then x
  else scaleDown (x / Numeric.toDouble 1 308) (power - 308)
termination_by power

/-- The double for `significand * 10 ^ exponent`: one rounding for the
significand and one for each scaling. It is refused when it is not finite. -/
def assemble (significand : Nat) (exponent : Int) : Option Float :=
  let x := Numeric.ofInteger significand
  if exponent < 0 then some (scaleDown x (-exponent).toNat)
  else if x == 0 then some x
  else if 308 < exponent then none
  else
    let y := x * Numeric.toDouble 1 exponent.toNat
    if y.isFinite then some y else none

def readExponent (cs : List Char) : Option (Int × List Char) :=
  let (negative, cs) := match cs with
    | '+' :: rest => (false, rest)
    | '-' :: rest => (true, rest)
    | _ => (false, cs)
  let digits := cs.takeWhile Char.isDigit
  let value : Int := Text.digitsValue digits
  if digits = [] then none
  else some (if negative then -value else value, cs.dropWhile Char.isDigit)

def startsExponent : List Char → Bool
  | c :: _ => c == 'e' || c == 'E'
  | [] => false

def negateIf (negative : Bool) (x : Float) : Float :=
  if negative then -x else x

def readScaled (negative : Bool) (significand : Nat) (exponent : Int) (cs : List Char) :
    Option (JsonNumber × List Char) :=
  if startsExponent cs then do
    let (shift, rest) ← readExponent (cs.drop 1)
    let x ← assemble significand (exponent + shift)
    return (.float (negateIf negative x), rest)
  else (assemble significand exponent).map fun x => (.float (negateIf negative x), cs)

/-- An integer keeps its exact value when a 64-bit word holds it. -/
def exactInteger? (negative : Bool) (n : Nat) : Option JsonNumber :=
  if negative then
    if 0 < n ∧ n ≤ Text.maxSigned + 1 then some (.negative (Int64.ofInt (-n))) else none
  else some (.unsigned (UInt64.ofNat n))

/-- What follows the integer digits: a fraction, an exponent, or neither. Digits
beyond the significand count into the exponent when they are whole and are
dropped when they are a fraction. -/
def readTail (negative : Bool) (digits cs : List Char) : Option (JsonNumber × List Char) :=
  let (significand, used) := absorb 0 digits
  let dropped := digits.length - used
  match cs with
  | '.' :: rest =>
    let fraction := rest.takeWhile Char.isDigit
    if fraction = [] then none
    else
      let (significand, used) := absorb significand fraction
      readScaled negative significand (dropped - used) (rest.dropWhile Char.isDigit)
  | _ =>
    if startsExponent cs ∨ 0 < dropped then readScaled negative significand dropped cs
    else match exactInteger? negative significand with
      | some n => some (n, cs)
      | none => some (.float (negateIf negative (Numeric.ofInteger significand)), cs)

def readNumber (cs : List Char) : Option (JsonNumber × List Char) :=
  let (negative, cs) := match cs with
    | '-' :: rest => (true, rest)
    | _ => (false, cs)
  let digits := cs.takeWhile Char.isDigit
  match digits with
  | [] => none
  | '0' :: _ :: _ => none
  | _ => readTail negative digits (cs.dropWhile Char.isDigit)

/-! Documents -/

def readScalar : List Char → Option (Json × List Char)
  | 'n' :: 'u' :: 'l' :: 'l' :: rest => some (.null, rest)
  | 't' :: 'r' :: 'u' :: 'e' :: rest => some (.bool true, rest)
  | 'f' :: 'a' :: 'l' :: 's' :: 'e' :: rest => some (.bool false, rest)
  | '"' :: rest => (readString rest).map fun (text, after) => (.string (String.ofList text), after)
  | cs => (readNumber cs).map fun (n, after) => (.number n, after)

def readItems {α : Type} (item : List Char → Option (α × List Char)) (close : Char) :
    Nat → List Char → Option (List α × List Char)
  | 0, _ => none
  | fuel + 1, cs => do
    let (x, rest) ← item cs
    match skipSpace rest with
    | [] => none
    | c :: rest =>
      if c = close then some ([x], rest)
      else if c = ',' then do
        let (xs, after) ← readItems item close fuel rest
        return (x :: xs, after)
      else none

def readGroup {α : Type} (item : List Char → Option (α × List Char)) (close : Char)
    (cs : List Char) : Option (List α × List Char) :=
  match skipSpace cs with
  | [] => none
  | c :: rest => if c = close then some ([], rest) else readItems item close cs.length cs

def readField (value : List Char → Option (Json × List Char)) (cs : List Char) :
    Option ((String × Json) × List Char) :=
  match skipSpace cs with
  | '"' :: rest => do
    let (name, rest) ← readString rest
    match skipSpace rest with
    | ':' :: rest =>
      let (v, after) ← value rest
      return ((String.ofList name, v), after)
    | _ => none
  | _ => none

def readValue : (depth : Nat) → List Char → Option (Json × List Char)
  | 0, cs => readScalar (skipSpace cs)
  | depth + 1, cs =>
    match skipSpace cs with
    | '[' :: rest => (readGroup (readValue depth) ']' rest).map fun (items, after) =>
      (.array items, after)
    | '{' :: rest => (readGroup (readField (readValue depth)) '}' rest).map fun (fields, after) =>
      (.object (Fields.ofEntries fields), after)
    | cs => readScalar cs

end JsonReader

def Json.maxDepth : Nat := 127

def Json.parse? (text : String) : Option Json :=
  match JsonReader.readValue Json.maxDepth text.toList with
  | some (value, rest) => if JsonReader.skipSpace rest = [] then some value else none
  | none => none

end SignalMap
