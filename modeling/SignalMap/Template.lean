import SignalMap.Globals
import SignalMap.Json.Writer

/-!
Templates in the texts of a document. A template names a value between double
braces. A text that is one template becomes the value itself; inside a longer
text each template is replaced by the text of its value, which is not looked at
again.
-/

namespace SignalMap

inductive TemplateFault where
  | empty
  | unknown (name : String)
  | unset (name input : String)
  deriving DecidableEq

def TemplateFault.message : TemplateFault → String
  | .empty => "empty template"
  | .unknown name => s!"template refers to unknown name '{name}'"
  | .unset name input => s!"template '{name}' has no value to splice into '{input}'"

namespace Template

def opening : List Char := ['{', '{']

def closing : List Char := ['}', '}']

def whole? (input : List Char) : Option (List Char) := do
  let rest ← Text.dropLead? opening (Text.trimChars input)
  let inner ← Text.dropTail? closing rest
  if (Text.cutAt opening inner).isSome || (Text.cutAt closing inner).isSome then none
  else return Text.trimChars inner

def lookup (scope : Fields) (name : List Char) : Except TemplateFault Json :=
  if name.isEmpty then .error .empty
  else match Globals.find? scope (String.ofList name) with
    | some value => .ok value
    | none => .error (.unknown (String.ofList name))

def spliceText (name : List Char) (input : String) : Json → Except TemplateFault (List Char)
  | .string s => .ok s.toList
  | .null => .error (.unset (String.ofList name) input)
  | value => .ok value.text.toList

/-- Replace every template of the rest of a text. An opening that is not closed
stands for itself. -/
def splice (scope : Fields) (input : String) (rest : List Char) :
    Except TemplateFault (List Char) :=
  match _found : Text.cutAt opening rest with
  | none => .ok rest
  | some (before, opened) =>
    match _closed : Text.cutAt closing opened with
    | none => .ok rest
    | some (inside, after) => do
      let name := Text.trimChars inside
      let value ← lookup scope name
      let text ← spliceText name input value
      let tail ← splice scope input after
      return before ++ text ++ tail
termination_by rest.length
decreasing_by
  have h₁ := congrArg List.length (Text.eq_append_of_cutAt _found)
  have h₂ := congrArg List.length (Text.eq_append_of_cutAt _closed)
  simp only [List.length_append, opening, closing, List.length_cons, List.length_nil] at h₁ h₂
  omega

def renderString (scope : Fields) (input : String) : Except TemplateFault Json :=
  match whole? input.toList with
  | some name => lookup scope name
  | none => (splice scope input input.toList).map fun cs => .string (String.ofList cs)

mutual

/-- Render every text of a document; names of fields are left alone. -/
def render (scope : Fields) : Json → Except TemplateFault Json
  | .string s => renderString scope s
  | .array items => (renderItems scope items).map .array
  | .object fields => (renderFields scope fields).map .object
  | value => .ok value

def renderItems (scope : Fields) : List Json → Except TemplateFault (List Json)
  | [] => .ok []
  | item :: rest => do
    let item ← render scope item
    let rest ← renderItems scope rest
    return item :: rest

def renderFields (scope : Fields) :
    List (String × Json) → Except TemplateFault (List (String × Json))
  | [] => .ok []
  | (name, value) :: rest => do
    let value ← render scope value
    let rest ← renderFields scope rest
    return (name, value) :: rest

end

end Template

end SignalMap
