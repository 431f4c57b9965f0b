import SignalMap.Expr.Evaluation
import SignalMap.Expr.Parser
import SignalMap.Fetch
import SignalMap.Selector
import SignalMap.Template

/-!
What a resolution gives: a value or the fault of a rule, with the signals that
were asked for on the way to it, in order.
-/

namespace SignalMap

inductive TransformFault where
  | missingEntry (reference : String)
  | cycle (chain : List String) (key : String)
  | tooDeep (limit : Nat)
  | noRepresentation
  | notCastable (dtype : DataType)
  | template (fault : TemplateFault)
  | fetchFailed (plugin : String) (failure : Failure)
  | unknownHook (name : String)
  | hookFailed (name : String) (failure : Failure)
  | noData (base : String)
  | notArray (base : String)
  | notNumeric (base : String)
  | selection (base : String) (failure : Selector.Failure)
  | parameterNoData (name reference : String)
  | parameterNotNumeric (name reference : String)
  | evaluation (fault : EvalFault Float) (source : String)

namespace TransformFault

def selectionText (base : String) : Selector.Failure → String
  | .tooFewIndices needed bound => s!"slice needs {needed} index(es) but the request bound {bound}"
  | .indexTooLarge => s!"index out of range for slice of '{base}'"
  | .outOfRange position length => s!"index {position} is out of range for length {length}"

def message : TransformFault → String
  | missingEntry reference => s!"referenced entry '{reference}' does not exist"
  | cycle chain key => "reference cycle: " ++ String.intercalate " -> " (chain ++ [key])
  | tooDeep limit => s!"reference chain exceeds {limit} entries"
  | noRepresentation => "value is not a scalar, flat numeric array or string"
  | notCastable dtype => s!"cannot cast non-numeric value to {dtype.name}"
  | template fault => fault.message
  | fetchFailed plugin failure => s!"plugin '{plugin}' failed: {failure.message}"
  | unknownHook name => s!"unknown custom hook '{name}'"
  | hookFailed name failure => s!"custom hook '{name}' failed: {failure.message}"
  | noData base => s!"wrapped entry '{base}' produced no data"
  | notArray base => s!"wrapped entry '{base}' is not an array"
  | notNumeric base => s!"wrapped entry '{base}' is not numeric"
  | selection base failure => selectionText base failure
  | parameterNoData name reference => s!"parameter '{name}' ('{reference}') produced no data"
  | parameterNotNumeric name reference => s!"parameter '{name}' ('{reference}') is not numeric"
  | evaluation fault source => s!"{fault.message Formula.literal} in '{source}'"

end TransformFault

structure TransformError where
  key : String
  fault : TransformFault

structure Outcome (α : Type) where
  requests : List FetchRequest
  result : Except TransformError α

namespace Outcome

variable {α β : Type}

def bind (x : Outcome α) (f : α → Outcome β) : Outcome β :=
  match x.result with
  | .ok a => ⟨x.requests ++ (f a).requests, (f a).result⟩
  | .error e => ⟨x.requests, .error e⟩

instance : Monad Outcome where
  pure a := ⟨[], .ok a⟩
  bind := bind

def ofExcept (result : Except TransformError α) : Outcome α := ⟨[], result⟩

def fail (key : String) (fault : TransformFault) : Outcome α := ⟨[], .error ⟨key, fault⟩⟩

def ofOption (key : String) (fault : TransformFault) : Option α → Outcome α
  | some a => pure a
  | none => fail key fault

theorem result_pure (a : α) : (pure a : Outcome α).result = .ok a := rfl

theorem result_fail (key : String) (fault : TransformFault) :
    (fail key fault : Outcome α).result = .error ⟨key, fault⟩ := rfl

theorem result_bind (x : Outcome α) (f : α → Outcome β) :
    (x >>= f).result = x.result >>= fun a => (f a).result := by
  show (bind x f).result = _
  unfold bind
  cases x.result <;> rfl

end Outcome

end SignalMap
