import SignalMap.Text.Blank
import SignalMap.Text.Cut
import SignalMap.Text.Numeral
import SignalMap.Value

/-!
Selectors of elements of an array: one position, or a range with a step. A
bound is a number, counted from the end when it is negative, or a placeholder
that takes the next index of the request.
-/

namespace SignalMap

inductive Bound where
  | literal (n : Int)
  | placeholder
  deriving DecidableEq

inductive Selector where
  | index (bound : Bound)
  | range (start stop : Option Bound) (step : Nat)
  deriving DecidableEq

inductive SelectorFault where
  | empty
  | badBound (text : String)
  | badStep (text : String)
  | zeroStep
  | tooManyParts (text : String)
  deriving DecidableEq

def SelectorFault.message : SelectorFault → String
  | .empty => "slice selector is empty"
  | .badBound text => s!"slice bound '{text}' is neither an integer nor '#'"
  | .badStep text => s!"slice step '{text}' must be a positive integer"
  | .zeroStep => "slice step cannot be zero"
  | .tooManyParts text => s!"slice selector '{text}' has too many ':' separators"

namespace Selector

def parseBound (cs : List Char) : Except SelectorFault (Option Bound) :=
  match Text.trimChars cs with
  | [] => .ok none
  | ['#'] => .ok (some .placeholder)
  | literal =>
    match Text.signed? literal with
    | some n => .ok (some (.literal n))
    | none => .error (.badBound (String.ofList literal))

/-- A blank step is one, and no step is zero. -/
def parseStep (cs : List Char) : Except SelectorFault Nat :=
  match Text.trimChars cs with
  | [] => .ok 1
  | literal =>
    match Text.unsigned? literal with
    | some 0 => .error .zeroStep
    | some n => .ok n
    | none => .error (.badStep (String.ofList literal))

def body (text : String) : List Char :=
  Text.dropRightWhile (· == ']') ((Text.trimChars text.toList).dropWhile (· == '['))

/-- Parts with colons between them: a position, two bounds, or two bounds and a
step, which is read first. -/
def parse (text : String) : Except SelectorFault Selector :=
  match Text.splitOn ':' (body text) with
  | [single] => do
    match ← parseBound single with
    | some bound => return .index bound
    | none => throw .empty
  | [start, stop] => do
    let start ← parseBound start
    let stop ← parseBound stop
    return .range start stop 1
  | [start, stop, step] => do
    let step ← parseStep step
    let start ← parseBound start
    let stop ← parseBound stop
    return .range start stop step
  | _ => throw (.tooManyParts (Text.trim text))

def bounds : Selector → List Bound
  | .index bound => [bound]
  | .range start stop _ => start.toList ++ stop.toList

def placeholderCount (s : Selector) : Nat :=
  s.bounds.countP (· == .placeholder)

/-! Selection -/

def clamp (n : Int) (length : Nat) : Nat :=
  if n < 0 then length - n.natAbs else min n.toNat length

def element? (a : NumericArray) (position : Int) : Option Scalar :=
  let place := if position < 0 then a.length + position else position
  if place < 0 then none else a.get? place.toNat

inductive Failure where
  | tooFewIndices (needed bound : Nat)
  | indexTooLarge
  | outOfRange (position : Int) (length : Nat)
  deriving DecidableEq

/-- Give a bound its number. A placeholder takes the next index, which has to fit
a signed word, and leaves the others. -/
def bind (indices : List Nat) : Bound → Except Failure (Int × List Nat)
  | .literal n => .ok (n, indices)
  | .placeholder =>
    match indices with
    | next :: rest =>
      if next ≤ Text.maxSigned then .ok (next, rest) else .error .indexTooLarge
    | [] => .error .indexTooLarge

def bindClamped (indices : List Nat) (length omitted : Nat) :
    Option Bound → Except Failure (Nat × List Nat)
  | none => .ok (omitted, indices)
  | some bound => do
    let (n, rest) ← bind indices bound
    return (clamp n length, rest)

def select (s : Selector) (indices : List Nat) (a : NumericArray) : Except Failure Value :=
  if indices.length < s.placeholderCount then
    .error (.tooFewIndices s.placeholderCount indices.length)
  else match s with
    | .index bound => do
      let (position, _) ← bind indices bound
      match element? a position with
      | some x => return .scalar x
      | none => throw (.outOfRange position a.length)
    | .range start stop step => do
      let (start, indices) ← bindClamped indices a.length 0 start
      let (stop, _) ← bindClamped indices a.length a.length stop
      return .array (a.strided start stop step)

end Selector

end SignalMap
