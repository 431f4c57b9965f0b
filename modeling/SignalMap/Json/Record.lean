import SignalMap.Json.Basic
import SignalMap.Numeric.Layout
import SignalMap.Text.Quoted

/-!
Documents of a fixed form. A record names its fields and the form of each; the
fields are checked in the order in which the document lists them, and a field
that must be there is missed only when all others are right.
-/

namespace SignalMap

inductive FormFault where
  | unexpected (found expected : String)
  | missingField (name : String)
  | unknownField (name : String) (allowed : List String)
  | duplicateField (name : String)
  | wrongLength (length : Nat) (expected : String)
  | noVariant (choice : String)
  deriving DecidableEq

def FormFault.listNames : List String → String
  | [only] => s!"`{only}`"
  | [one, other] => s!"`{one}` or `{other}`"
  | names => "one of " ++ String.intercalate ", " (names.map fun name => s!"`{name}`")

def FormFault.message : FormFault → String
  | .unexpected found expected => s!"invalid type: {found}, expected {expected}"
  | .missingField name => s!"missing field `{name}`"
  | .unknownField name allowed => s!"unknown field `{name}`, expected {listNames allowed}"
  | .duplicateField name => s!"duplicate field `{name}`"
  | .wrongLength length expected => s!"invalid length {length}, expected {expected}"
  | .noVariant choice => s!"data did not match any variant of untagged enum {choice}"

def JsonNumber.describe : JsonNumber → String
  | .unsigned n => s!"integer `{n.toNat}`"
  | .negative n => s!"integer `{n.toInt}`"
  | .float x => s!"floating point `{Numeric.Layout.documentDouble.writeDouble x}`"

namespace Json

def describe : Json → String
  | .null => "null"
  | .bool flag => s!"boolean `{flag}`"
  | .number n => n.describe
  | .string text => s!"string {Text.quote text}"
  | .array _ => "sequence"
  | .object _ => "map"

def asString : Json → Except FormFault String
  | .string text => .ok text
  | other => .error (.unexpected other.describe "a string")

def asFloat : Json → Except FormFault Float
  | .number n => .ok n.toFloat
  | other => .error (.unexpected other.describe "f64")

def asFields (expected : String) : Json → Except FormFault Fields
  | .object fields => .ok fields
  | other => .error (.unexpected other.describe expected)

def asItems : Json → Except FormFault (List Json)
  | .array items => .ok items
  | other => .error (.unexpected other.describe "a sequence")

def asOptional {α : Type} (form : Json → Except FormFault α) : Json → Except FormFault (Option α)
  | .null => .ok none
  | other => (form other).map some

end Json

def FormFault.checks {α : Type} (form : Json → Except FormFault α) (value : Json) :
    Except FormFault Unit :=
  (form value).map fun _ => ()

namespace Fields

def check (record : List (String × (Json → Except FormFault Unit))) (fields : Fields) :
    Except FormFault Unit :=
  fields.forM fun (name, value) =>
    match record.lookup name with
    | some form => form value
    | none => .error (.unknownField name (record.map Prod.fst))

def required {α : Type} (fields : Fields) (name : String) (form : Json → Except FormFault α) :
    Except FormFault α :=
  match fields.get? name with
  | some value => form value
  | none => .error (.missingField name)

def optional {α : Type} (fields : Fields) (name : String) (form : Json → Except FormFault α)
    (omitted : α) : Except FormFault α :=
  match fields.get? name with
  | some value => form value
  | none => .ok omitted

end Fields

end SignalMap
