import SignalMap.DataPath
import SignalMap.Text.Numeral

/-!
Requests for the value at a path. A path names its schema first; the rest is
turned into a key, in which every index is a placeholder, and the indices are
bound from left to right.
-/

namespace SignalMap

inductive SignalType where
  | default
  | data
  | time
  deriving DecidableEq, Repr

def SignalType.name : SignalType → String
  | .default => "default"
  | .data => "data"
  | .time => "time"

def SignalType.ofSegment? : String → Option SignalType
  | "data" => some .data
  | "time" => some .time
  | _ => none

structure Request where
  facility : String
  path : String
  indices : List Int
  version : Option String
  experiment : Option String
  shot : Option Int
  run : Option Int

inductive RequestFault where
  | emptyPath
  | noEntry (path schema : String)
  | indexOutOfRange (segment : String)
  | unboundPlaceholder (path : String)
  | negativeIndex (n : Int)
  | emptyFacility
  | invalidFacility (name : String)
  deriving DecidableEq

def RequestFault.message : RequestFault → String
  | .emptyPath => "request path is empty"
  | .noEntry path schema => s!"request path '{path}' names schema '{schema}' but no entry"
  | .indexOutOfRange segment => s!"index segment '{segment}' is out of range"
  | .unboundPlaceholder path => s!"placeholder in '{path}' has no matching index"
  | .negativeIndex n => s!"negative index {n} in request"
  | .emptyFacility => "facility name is empty"
  | .invalidFacility name => s!"invalid facility name '{name}'"

structure NormalizedPath where
  schema : String
  key : String
  indices : List Nat
  signal : SignalType
  deriving DecidableEq

namespace Request

/-- The indices given beside the path. A single minus one stands for none. -/
def callerIndices (indices : List Int) : Except RequestFault (List Nat) :=
  if indices = [-1] then .ok []
  else indices.mapM fun n => if n < 0 then .error (.negativeIndex n) else .ok n.toNat

/-- The segments of the key and the indices. A placeholder takes the next index
that is given beside the path, and those that are left over come last. -/
def bindSegments (path : String) : (given : List Nat) → List String →
    Except RequestFault (List String × List Nat)
  | given, [] => .ok ([], given)
  | given, segment :: rest =>
    if DataPath.isIndex segment then
      match Text.unsigned? segment.toList with
      | none => .error (.indexOutOfRange segment)
      | some n => do
        let (segments, indices) ← bindSegments path given rest
        return (DataPath.placeholder :: segments, n :: indices)
    else if DataPath.isPlaceholder segment then
      match given with
      | [] => .error (.unboundPlaceholder path)
      | n :: given => do
        let (segments, indices) ← bindSegments path given rest
        return (DataPath.placeholder :: segments, n :: indices)
    else do
      let (segments, indices) ← bindSegments path given rest
      return (segment :: segments, indices)

def normalize (r : Request) : Except RequestFault NormalizedPath := do
  let given ← callerIndices r.indices
  match DataPath.split r.path with
  | [] => throw .emptyPath
  | [schema] => throw (.noEntry r.path schema)
  | schema :: rest =>
    let (segments, indices) ← bindSegments r.path given rest
    return { schema, key := DataPath.join segments, indices, signal := .default }

end Request

namespace NormalizedPath

def splitLast? (key : String) : Option (String × String) :=
  let reversed := key.toList.reverse
  match reversed.dropWhile (· ≠ '/') with
  | [] => none
  | _ :: parent =>
    some (String.ofList parent.reverse, String.ofList (reversed.takeWhile (· ≠ '/')).reverse)

/-- The path without a last segment that names a part of a signal; only a path
that asks for no part yet has one. -/
def fallback? (p : NormalizedPath) : Option NormalizedPath :=
  if p.signal ≠ .default then none
  else do
    let (parent, last) ← splitLast? p.key
    let signal ← SignalType.ofSegment? last
    return { p with key := parent, signal }

end NormalizedPath

end SignalMap
