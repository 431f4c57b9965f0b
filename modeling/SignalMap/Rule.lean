import SignalMap.Expr.Parser
import SignalMap.Selector
import SignalMap.Json.Basic

/-!
Rules and the entries that hold them. A rule that builds on other entries names
them by key, so that rules never contain one another.
-/

namespace SignalMap

inductive RuleKind where
  | value
  | plugin
  | dim
  | slice
  | expr
  | custom
  | offset
  deriving DecidableEq, Repr

namespace RuleKind

def name : RuleKind → String
  | .value => "VALUE"
  | .plugin => "PLUGIN"
  | .dim => "DIM"
  | .slice => "SLICE"
  | .expr => "EXPR"
  | .custom => "CUSTOM"
  | .offset => "OFFSET"

def foldName (text : String) : String :=
  String.ofList ((Text.trimChars text.toList).map Char.toUpper)

def ofName? (text : String) : Option RuleKind :=
  match foldName text with
  | "VALUE" => some .value
  | "PLUGIN" => some .plugin
  | "DIM" | "DIMENSION" => some .dim
  | "SLICE" => some .slice
  | "EXPR" | "EXPRESSION" => some .expr
  | "CUSTOM" => some .custom
  | "OFFSET" => some .offset
  | _ => none

end RuleKind

inductive ValueSource where
  | literal (value : Json)
  | global (path : String)

inductive Axis where
  | range (count : Nat) (start step : Float)
  | values (points : List Float)
  | probe (key : String)

inductive Parameter where
  | number (value : Float)
  | entry (key : String)

inductive Rule where
  | value (source : ValueSource) (dtype : Option DataType)
  | plugin (name : String) (function : Option String) (args : Fields)
  | dim (axis : Axis) (dtype : Option DataType)
  | slice (base : String) (selector : Selector)
  | expr (formula : Formula) (parameters : List (String × Parameter))
  | custom (hook : String) (base : Option String) (parameters : Fields)
  | offset (base : String) (amount : Float)

def Rule.kind : Rule → RuleKind
  | .value .. => .value
  | .plugin .. => .plugin
  | .dim .. => .dim
  | .slice .. => .slice
  | .expr .. => .expr
  | .custom .. => .custom
  | .offset .. => .offset

def Rule.base? : Rule → Option String
  | .offset base _ => some base
  | .slice base _ => some base
  | .custom _ base _ => base
  | .dim (.probe key) _ => some key
  | _ => none

def Parameter.key? : Parameter → Option String
  | .entry key => some key
  | .number _ => none

def Rule.references : Rule → List String
  | .expr _ parameters => parameters.filterMap fun (_, parameter) => parameter.key?
  | rule => rule.base?.toList

structure Entry where
  key : String
  rule : Rule

def Entry.references (e : Entry) : List String :=
  e.rule.references

end SignalMap
