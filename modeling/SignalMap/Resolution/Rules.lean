import SignalMap.Hook
import SignalMap.Registry
import SignalMap.Resolution.Outcome
import SignalMap.Text.Quoted

/-!
The value of a rule, kind by kind. A rule computes its value from the values of
the entries that it names; how these are found is left to a function that gives
the value of an entry by its key.
-/

namespace SignalMap

structure Resolver where
  fetcher : Fetcher
  hooks : Hooks
  maxDepth : Nat

namespace Resolver

def defaultMaxDepth : Nat := 32

def standard : Resolver := ⟨.null, .builtin, defaultMaxDepth⟩

def withMaxDepth (r : Resolver) (depth : Nat) : Resolver :=
  { r with maxDepth := max depth 1 }

def summary (r : Resolver) : String :=
  let names := String.intercalate ", " (r.hooks.names.map Text.quote)
  "EntryResolver \x7b hooks: CustomHookRegistry \x7b hooks: [" ++ names ++ "] \x7d, max_depth: " ++
    toString r.maxDepth ++ ", .. \x7d"

end Resolver

structure Scope where
  context : Context
  registry : Registry
  globals : Fields

def applyType (key : String) (dtype : Option DataType) (value : Value) : Outcome Value :=
  match dtype, value with
  | none, value => pure value
  | some _, .empty => pure .empty
  | some dtype, value => .ofOption key (.notCastable dtype) (value.cast? dtype)

namespace Rule

def represent (key : String) (document : Json) : Outcome Value :=
  .ofOption key .noRepresentation (Value.ofJson? document)

/-- A global that is not set has no data. -/
def computeSource (globals : Fields) (key : String) : ValueSource → Outcome Value
  | .literal document => represent key document
  | .global path =>
    match Globals.find? globals path with
    | some document => represent key document
    | none => pure .empty

def fetchRequest (c : Context) (globals : Fields) (key plugin : String) (function : Option String)
    (args : Fields) : Except TemplateFault FetchRequest := do
  let args ← Template.renderFields (c.templateScope globals) args
  return { plugin, function, args, facility := c.facility, key, indices := c.indices,
           signal := c.signal, shot := c.shot, run := c.run }

def fetch (fetcher : Fetcher) (key : String) (request : FetchRequest) : Outcome Value :=
  ⟨[request], (fetcher request).mapError fun failure => ⟨key, .fetchFailed request.plugin failure⟩⟩

def rangePoints (count : Nat) (start step : Float) : List Float :=
  (List.range count).map fun i => start + (UInt64.ofNat i).toFloat * step

def baseArray (key base : String) : Value → Outcome NumericArray
  | .array a => pure a
  | .empty => .fail key (.noData base)
  | _ => .fail key (.notArray base)

def operandOf (key name reference : String) : Value → Outcome (Operand Float)
  | .scalar s => pure (.scalar s.toDouble)
  | .array a =>
    if a.isEmpty then .fail key (.parameterNoData name reference) else pure (.array a.toDoubles)
  | .empty => .fail key (.parameterNoData name reference)
  | .text _ => .fail key (.parameterNotNumeric name reference)

def bindParameters (key : String) (follow : String → Outcome Value) :
    List (String × Parameter) → Outcome (List (String × Operand Float))
  | [] => pure []
  | (name, .number x) :: rest => do
    let others ← bindParameters key follow rest
    return (name, .scalar x) :: others
  | (name, .entry reference) :: rest => do
    let value ← follow reference
    let operand ← operandOf key name reference value
    let others ← bindParameters key follow rest
    return (name, operand) :: others

def valueOf : Operand Float → Value
  | .scalar x => .ofDouble x
  | .array xs => .ofDoubles xs

def compute (r : Resolver) (s : Scope) (key : String) (follow : String → Outcome Value) :
    Rule → Outcome Value
  | .value source dtype => do
    let value ← computeSource s.globals key source
    applyType key dtype value
  | .plugin accessor function args =>
    match fetchRequest s.context s.globals key accessor function args with
    | .ok request => fetch r.fetcher key request
    | .error fault => .fail key (.template fault)
  | .dim (.range count start step) dtype =>
    applyType key dtype (.ofDoubles (rangePoints count start step))
  | .dim (.values points) dtype => applyType key dtype (.ofDoubles points)
  | .dim (.probe reference) dtype => do
    let value ← follow reference
    applyType key dtype (.ofCount value.elementCount)
  | .slice base selector => do
    let value ← follow base
    let array ← baseArray key base value
    match selector.select s.context.indices array with
    | .ok selected => return selected
    | .error failure => .fail key (.selection base failure)
  | .expr formula parameters => do
    let bindings ← bindParameters key follow parameters
    match formula.root.evaluate .double fun name => bindings.lookup name with
    | .ok result => return valueOf result
    | .error fault => .fail key (.evaluation fault formula.source)
  | .custom name base parameters =>
    match r.hooks.get? name with
    | none => .fail key (.unknownHook name)
    | some hook => do
      let input ← match base with
        | some reference => do
          let value ← follow reference
          pure (some value)
        | none => pure none
      let invocation := { key, input, parameters, context := s.context, globals := s.globals }
      .ofExcept ((hook invocation).mapError fun failure => ⟨key, .hookFailed name failure⟩)
  | .offset base amount => do
    let value ← follow base
    if value.isEmpty then .fail key (.noData base)
    else .ofOption key (.notNumeric base) (value.offset? amount)

end Rule

end SignalMap
