/-!
Arithmetic expressions over literals of any type. The written form puts every
operation into parentheses, so that it shows the tree.
-/

namespace SignalMap

inductive BinaryOperator where
  | add
  | subtract
  | multiply
  | divide
  | power
  deriving DecidableEq, Repr

def BinaryOperator.symbol : BinaryOperator → Char
  | .add => '+'
  | .subtract => '-'
  | .multiply => '*'
  | .divide => '/'
  | .power => '^'

inductive Function where
  | abs
  | sqrt
  | exp
  | log
  | log10
  | sin
  | cos
  | tan
  deriving DecidableEq, Repr

namespace Function

def name : Function → String
  | .abs => "abs"
  | .sqrt => "sqrt"
  | .exp => "exp"
  | .log => "log"
  | .log10 => "log10"
  | .sin => "sin"
  | .cos => "cos"
  | .tan => "tan"

def ofName? : String → Option Function
  | "abs" => some .abs
  | "sqrt" => some .sqrt
  | "exp" => some .exp
  | "log" => some .log
  | "ln" => some .log
  | "log10" => some .log10
  | "sin" => some .sin
  | "cos" => some .cos
  | "tan" => some .tan
  | _ => none

theorem ofName?_name (f : Function) : ofName? f.name = some f := by
  cases f <;> rfl

end Function

inductive Expr (α : Type) where
  | number (value : α)
  | var (name : String)
  | negate (inner : Expr α)
  | binary (operator : BinaryOperator) (left right : Expr α)
  | call (function : Function) (argument : Expr α)

namespace Expr

def toChars {α : Type} (literal : α → List Char) : Expr α → List Char
  | number value => literal value
  | var name => name.toList
  | negate inner => '(' :: '-' :: inner.toChars literal ++ [')']
  | binary operator left right =>
    '(' :: left.toChars literal ++ [' ', operator.symbol, ' '] ++ right.toChars literal ++ [')']
  | call function argument =>
    function.name.toList ++ '(' :: argument.toChars literal ++ [')']

def occurrences {α : Type} : Expr α → List String
  | number _ => []
  | var name => [name]
  | negate inner => inner.occurrences
  | binary _ left right => left.occurrences ++ right.occurrences
  | call _ argument => argument.occurrences

def freeNames {α : Type} (e : Expr α) : List String :=
  e.occurrences.eraseDups

end Expr

end SignalMap
