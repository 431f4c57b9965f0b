import SignalMap.Fetch

/-!
Hooks, the named transforms of CUSTOM rules. A hook is answered with a value or
with a failure; three hooks are built in, and others may be put beside them.
-/

namespace SignalMap

structure Invocation where
  key : String
  input : Option Value
  parameters : Fields
  context : Context
  globals : Fields

abbrev Hook := Invocation → Except Failure Value

namespace Hook

def ofTransform (transform : Value → Except Failure Value) : Hook := fun invocation =>
  match invocation.input with
  | some value => transform value
  | none => .error (.ofText "hook requires a 'variable' to operate on")

def negate : Hook := ofTransform fun value =>
  match value with
  | .text _ => .error (.ofText "cannot negate text")
  | .empty => .ok .empty
  | .scalar s => .ok (.scalar (s.map (- ·)))
  | .array a => .ok (.array (a.map (- ·)))

def reverse : Hook := ofTransform fun value =>
  match value with
  | .array a => .ok (.array a.reversed)
  | .text s => .ok (.text (String.ofList s.toList.reverse))
  | other => .ok other

def size : Hook := ofTransform fun value => .ok (.ofCount value.elementCount)

end Hook

abbrev Hooks := List (String × Hook)

namespace Hooks

def builtin : Hooks :=
  [("negate", Hook.negate), ("reverse", Hook.reverse), ("size", Hook.size)]

def get? (hooks : Hooks) (name : String) : Option Hook :=
  hooks.lookup name

def register (name : String) (hook : Hook) (hooks : Hooks) : Hooks :=
  (name, hook) :: hooks.filter fun (n, _) => n ≠ name

def names (hooks : Hooks) : List String :=
  (hooks.map Prod.fst).mergeSort fun a b => decide (a ≤ b)

end Hooks

end SignalMap
