import SignalMap.Json.Basic
import SignalMap.Text.Blank
import SignalMap.Text.Cut
import SignalMap.Text.Numeral

/-!
Global attributes of a schema, found by paths such as `coils[2].turns`. A path
is a sequence of segments with points between them, and a segment is a name
followed by indices in brackets.
-/

namespace SignalMap.Globals

def readIndices : (fuel : Nat) → List Char → Option (List Nat)
  | _, [] => some []
  | 0, _ => none
  | fuel + 1, cs => do
    let opened ← Text.dropLead? ['['] cs
    let (inside, rest) ← Text.cutAt [']'] opened
    let index ← Text.unsigned? (Text.trimChars inside)
    let others ← readIndices fuel rest
    return index :: others

def splitIndices (segment : List Char) : Option (List Char × List Nat) :=
  let name := segment.takeWhile (· ≠ '[')
  let groups := segment.dropWhile (· ≠ '[')
  (readIndices groups.length groups).map fun indices => (name, indices)

inductive Step where
  | field (name : String)
  | item (position : Nat)
  deriving DecidableEq

def Step.follow? (value : Json) : Step → Option Json
  | .field name => value.field? name
  | .item position => value.at? position

def descend? (value : Json) : List Step → Option Json
  | [] => some value
  | step :: rest => (step.follow? value).bind fun inner => descend? inner rest

/-- A segment is a step to its name, which only the first segment takes when it
is empty, and a step for each index. -/
def segmentSteps (first : Bool) (segment : List Char) : Option (List Step) :=
  (splitIndices segment).map fun (name, indices) =>
    (if first || !name.isEmpty then [.field (String.ofList name)] else []) ++
      indices.map .item

/-- The segments of a path; empty ones between points are passed over. -/
def segments (path : String) : List (List Char) :=
  (Text.splitOn '.' (Text.trimChars path.toList)).filter fun cs => !cs.isEmpty

def findFrom (first : Bool) (value : Json) : List (List Char) → Option Json
  | [] => if first then none else some value
  | segment :: rest => do
    let steps ← segmentSteps first segment
    let inner ← descend? value steps
    findFrom false inner rest

def find? (globals : Fields) (path : String) : Option Json :=
  findFrom true (.object globals) (segments path)

end SignalMap.Globals
