import SignalMap.Rule
import SignalMap.DataPath
import SignalMap.Json.Record

/-!
Declarations of rules before their kind is known, and the ways in which one can
be wrong. Parameters are read by name, and a parameter that is not used is
refused.
-/

namespace SignalMap

def maxCount : Nat := 16777216

inductive DeclarationFault where
  | emptyKey
  | unknownKind (name : String)
  | unknownDataType (name : String)
  | notString (parameter : String)
  | notNumber (parameter : String)
  | blank (parameter : String)
  | missing (parameter : String)
  | unused (parameters : List String)
  | valueAndGlobal
  | noSource
  | noAxis
  | notCount
  | countTooLarge (count : Nat)
  | notPoints (fault : FormFault)
  | notSelector
  | selector (fault : SelectorFault)
  | formula (source : String) (fault : ExprFault Float)
  | notParameters (fault : FormFault)
  | undeclared (names : List String)
  | form (fault : FormFault)

inductive DocumentFault where
  | notArray
  | form (position : Nat) (fault : FormFault)
  | declaration (position : Nat) (key : String) (fault : DeclarationFault)

namespace DeclarationFault

def unknownDataTypeText (name : String) : String :=
  s!"unknown data type '{name}'"

def unknownKindText (name : String) : String :=
  s!"unknown mapping type '{name}'"

def message : DeclarationFault → String
  | emptyKey => "key is empty"
  | unknownKind name => unknownKindText name
  | unknownDataType name => unknownDataTypeText name
  | notString parameter => s!"'{parameter}' must be a string"
  | notNumber parameter => s!"'{parameter}' must be a number"
  | blank parameter => s!"'{parameter}' cannot be empty"
  | missing parameter => s!"requires '{parameter}'"
  | unused parameters => "unexpected parameter(s): " ++ String.intercalate ", " parameters
  | valueAndGlobal => "'value' and 'global' are mutually exclusive"
  | noSource => "requires 'value' or 'global'"
  | noAxis => "requires one of 'count', 'values' or 'probe'"
  | notCount => "'count' must be a non-negative integer"
  | countTooLarge count => s!"'count' {count} exceeds the maximum of {maxCount}"
  | notPoints fault => s!"'values' must be an array of numbers: {fault.message}"
  | notSelector => "'slice' must be a string or an integer"
  | selector fault => fault.message
  | formula source fault => s!"invalid expression '{source}': {fault.message Formula.literal}"
  | notParameters fault =>
    s!"'parameters' must map names to entry keys or numbers: {fault.message}"
  | undeclared names =>
    "expression uses undeclared parameter(s): " ++ String.intercalate ", " names
  | form fault => fault.message

end DeclarationFault

def DocumentFault.message : DocumentFault → String
  | .notArray => "mapping file must contain a JSON array"
  | .form position fault => s!"declaration #{position}: {fault.message}"
  | .declaration position key fault => s!"declaration #{position} ('{key}'): {fault.message}"

structure Declaration where
  key : String
  kind : String
  parameters : Fields

namespace Declaration

def ofJson (document : Json) : Except FormFault Declaration := do
  let fields ← document.asFields "struct RuleDeclaration"
  fields.forM fun (name, value) =>
    if name = "key" ∨ name = "type" then FormFault.checks Json.asString value else .ok ()
  let key ← fields.required "key" Json.asString
  let kind ← fields.required "type" Json.asString
  return { key, kind, parameters := fields.filter fun (name, _) => name ≠ "key" ∧ name ≠ "type" }

def text? (parameters : Fields) (name : String) : Except DeclarationFault (Option String) :=
  match parameters.get? name with
  | none => .ok none
  | some (.string text) => .ok (some text)
  | some _ => .error (.notString name)

def text (parameters : Fields) (name : String) : Except DeclarationFault String := do
  match ← text? parameters name with
  | some text => return text
  | none => throw (.missing name)

def number (parameters : Fields) (name : String) (omitted : Float) :
    Except DeclarationFault Float :=
  match parameters.get? name with
  | none => .ok omitted
  | some (.number n) => .ok n.toFloat
  | some _ => .error (.notNumber name)

def dtype? (parameters : Fields) : Except DeclarationFault (Option DataType) := do
  match ← text? parameters "dtype" with
  | none => return none
  | some name =>
    match DataType.ofName? name with
    | some dtype => return some dtype
    | none => throw (.unknownDataType (DataType.foldName name))

def refuseOthers (parameters : Fields) (used : List String) : Except DeclarationFault Unit :=
  match parameters.names.filter fun name => !used.contains name with
  | [] => .ok ()
  | others => .error (.unused others)

def ofForm {α : Type} (result : Except FormFault α) : Except DeclarationFault α :=
  result.mapError .form

end Declaration

end SignalMap
