import SignalMap.Expr.Basic

/-!
Element-wise evaluation. Operands are scalars or arrays; a scalar meets every
element of an array, and two arrays meet element by element when they are
equally long. Evaluation is stated for any arithmetic, so that what holds of it
does not depend on rounding.
-/

namespace SignalMap

structure Arithmetic (α : Type) where
  negate : α → α
  binary : BinaryOperator → α → α → α
  call : Function → α → α
  isFinite : α → Bool
  isZero : α → Bool

inductive Operand (α : Type) where
  | scalar (x : α)
  | array (xs : List α)

inductive EvalFault (α : Type) where
  | unbound (name : String)
  | divisionByZero
  | notFinite (e : Expr α)
  | lengthsDiffer (operator : BinaryOperator) (left right : Nat)

def EvalFault.message {α : Type} (literal : α → List Char) : EvalFault α → String
  | .unbound name => s!"parameter '{name}' is not bound"
  | .divisionByZero => "division by zero"
  | .notFinite e => s!"{String.ofList (e.toChars literal)} produced a non-finite result"
  | .lengthsDiffer operator left right =>
    s!"operand lengths differ for '{operator.symbol}': {left} vs {right}"

namespace Operand

variable {α : Type}

def map (operation : α → α) : Operand α → Operand α
  | scalar x => scalar (operation x)
  | array xs => array (xs.map operation)

def all (p : α → Bool) : Operand α → Bool
  | scalar x => p x
  | array xs => xs.all p

def zipWith (operator : BinaryOperator) (point : α → α → Except (EvalFault α) α) :
    Operand α → Operand α → Except (EvalFault α) (Operand α)
  | scalar x, scalar y => (point x y).map scalar
  | scalar x, array ys => (ys.mapM fun y => point x y).map array
  | array xs, scalar y => (xs.mapM fun x => point x y).map array
  | array xs, array ys =>
    if xs.length = ys.length then
      ((xs.zip ys).mapM fun (x, y) => point x y).map array
    else .error (.lengthsDiffer operator xs.length ys.length)

end Operand

namespace Arithmetic

variable {α : Type}

def point (ar : Arithmetic α) (operator : BinaryOperator) (x y : α) : Except (EvalFault α) α :=
  if operator = .divide ∧ ar.isZero y then .error .divisionByZero
  else .ok (ar.binary operator x y)

/-- An operation has to give finite numbers. -/
def ensureFinite (ar : Arithmetic α) (e : Expr α) (result : Operand α) :
    Except (EvalFault α) (Operand α) :=
  if result.all ar.isFinite then .ok result else .error (.notFinite e)

end Arithmetic

def Expr.evaluate {α : Type} (ar : Arithmetic α) (bindings : String → Option (Operand α)) :
    Expr α → Except (EvalFault α) (Operand α)
  | .number value => .ok (.scalar value)
  | .var name =>
    match bindings name with
    | some operand => .ok operand
    | none => .error (.unbound name)
  | .negate inner => (inner.evaluate ar bindings).map (Operand.map ar.negate)
  | .binary operator left right => do
    let x ← left.evaluate ar bindings
    let y ← right.evaluate ar bindings
    let result ← x.zipWith operator (ar.point operator) y
    ar.ensureFinite (.binary operator left right) result
  | .call function argument => do
    let x ← argument.evaluate ar bindings
    ar.ensureFinite (.call function argument) (x.map (ar.call function))

def Arithmetic.double : Arithmetic Float where
  negate x := -x
  binary
    | .add, x, y => x + y
    | .subtract, x, y => x - y
    | .multiply, x, y => x * y
    | .divide, x, y => x / y
    | .power, x, y => x ^ y
  call
    | .abs, x => x.abs
    | .sqrt, x => x.sqrt
    | .exp, x => x.exp
    | .log, x => x.log
    | .log10, x => x.log10
    | .sin, x => x.sin
    | .cos, x => x.cos
    | .tan, x => x.tan
  isFinite x := x.isFinite
  isZero x := x == 0

end SignalMap
