import SignalMap.Request

/-!
Arguments of the command line. They are read one by one from left to right: an
option takes its value from behind its sign of equality or from the next
argument, the options of the settings may stand before and behind the name of
the command, and behind `--` nothing is an option.
-/

namespace SignalMap.CommandLine

structure Overrides where
  root : Option String
  version : Option String
  deriving DecidableEq

def Overrides.over (inner outer : Overrides) : Overrides where
  root := inner.root.or outer.root
  version := inner.version.or outer.version

inductive Command where
  | resolve (request : Request)
  | list (facility schema : String)

inductive Stop where
  | version
  | help
  | misuse
  deriving DecidableEq

inductive Verb where
  | resolve
  | list
  | help
  deriving DecidableEq

def Verb.ofName? : String → Option Verb
  | "resolve" => some .resolve
  | "list" => some .list
  | "help" => some .help
  | _ => none

inductive Slot where
  | root
  | version
  | index
  | shot
  | run
  | experiment
  deriving DecidableEq

def Slot.ofLong? (verb : Option Verb) (name : String) : Option Slot :=
  match name, verb with
  | "root", _ => some .root
  | "dd-version", _ => some .version
  | "index", some .resolve => some .index
  | "shot", some .resolve => some .shot
  | "run", some .resolve => some .run
  | "experiment", some .resolve => some .experiment
  | _, _ => none

inductive Shape where
  | separator
  | long (name : String) (value : Option String)
  | short (letters : List Char)
  | plain
  deriving DecidableEq

/-- A single minus sign is no option. -/
def shapeOf (argument : String) : Shape :=
  match argument.toList with
  | ['-', '-'] => .separator
  | '-' :: '-' :: rest =>
    match Text.cutAt ['='] rest with
    | some (name, value) => .long (String.ofList name) (some (String.ofList value))
    | none => .long (String.ofList rest) none
  | '-' :: letter :: rest => .short (letter :: rest)
  | _ => .plain

structure Draft where
  verb : Option Verb
  outer : Overrides
  inner : Overrides
  operands : List String
  indices : List Int
  shot : Option Int
  run : Option Int
  experiment : Option String
  /-- The option that still waits for its value. -/
  waiting : Option Slot
  /-- The separator has been read. -/
  operandsOnly : Bool

namespace Draft

def start : Draft :=
  { verb := none, outer := ⟨none, none⟩, inner := ⟨none, none⟩, operands := [], indices := []
    shot := none, run := none, experiment := none, waiting := none, operandsOnly := false }

def misuse {α : Type} : Except Stop α := .error .misuse

def fill {α : Type} (place : Option α) (value : α) : Except Stop (Option α) :=
  if place.isSome then misuse else .ok (some value)

def giveSetting (o : Overrides) (slot : Slot) (value : String) : Except Stop Overrides :=
  match slot with
  | .root => if value.isEmpty then misuse else do return { o with root := ← fill o.root value }
  | .version => do return { o with version := ← fill o.version value }
  | _ => misuse

def number (value : String) : Except Stop Int :=
  match Text.signed? value.toList with
  | some n => .ok n
  | none => misuse

/-- Give an option its value. Only the index may be given more than once. -/
def give (d : Draft) (slot : Slot) (value : String) : Except Stop Draft :=
  match slot with
  | .index => do return { d with indices := d.indices ++ [← number value] }
  | .shot => do return { d with shot := ← fill d.shot (← number value) }
  | .run => do return { d with run := ← fill d.run (← number value) }
  | .experiment => do return { d with experiment := ← fill d.experiment value }
  | setting => do
    if d.verb.isNone then return { d with outer := ← giveSetting d.outer setting value }
    else return { d with inner := ← giveSetting d.inner setting value }

def option (d : Draft) (slot : Slot) : Option String → Except Stop Draft
  | some value => d.give slot value
  | none => .ok { d with waiting := some slot }

def long (d : Draft) (name : String) (value : Option String) : Except Stop Draft :=
  match Slot.ofLong? d.verb name with
  | some slot => d.option slot value
  | none =>
    if value.isSome then misuse
    else if name = "help" then .error .help
    else if name = "version" ∧ d.verb = none then .error .version
    else misuse

/-- The value of a short option may follow it at once, or behind a sign of
equality. -/
def short (d : Draft) : List Char → Except Stop Draft
  | 'h' :: _ => .error .help
  | 'V' :: _ => if d.verb = none then .error .version else misuse
  | 'i' :: rest =>
    if d.verb ≠ some .resolve then misuse
    else match rest with
      | [] => d.option .index none
      | '=' :: value => d.option .index (some (String.ofList value))
      | value => d.option .index (some (String.ofList value))
  | _ => misuse

def operand (d : Draft) (argument : String) : Except Stop Draft :=
  match d.verb with
  | none => misuse
  | some _ =>
    if d.operands.length < 2 then .ok { d with operands := d.operands ++ [argument] } else misuse

def plain (d : Draft) (argument : String) : Except Stop Draft :=
  match d.verb with
  | none =>
    match Verb.ofName? argument with
    | some verb => .ok { d with verb := some verb }
    | none => misuse
  | some _ => d.operand argument

/-- The next argument as the value of an option. Only an index begins with a
minus sign. -/
def value (d : Draft) (slot : Slot) (argument : String) : Except Stop Draft :=
  let done := { d with waiting := none }
  match shapeOf argument with
  | .plain => done.give slot argument
  | .short _ => if slot = .index then done.give slot argument else misuse
  | _ => misuse

def next (d : Draft) (argument : String) : Except Stop Draft :=
  if d.verb = some .help then
    if d.operands = [] ∧ (Verb.ofName? argument).isSome then
      .ok { d with operands := [argument] }
    else misuse
  else if d.operandsOnly then d.operand argument
  else match d.waiting with
    | some slot => d.value slot argument
    | none =>
      match shapeOf argument with
      | .separator => .ok { d with operandsOnly := true }
      | .long name value => d.long name value
      | .short letters => d.short letters
      | .plain => d.plain argument

def command (d : Draft) : Except Stop (Overrides × Command) :=
  if d.waiting.isSome then misuse
  else match d.verb, d.operands with
    | some .resolve, [facility, path] =>
      .ok (d.inner.over d.outer, .resolve
        { facility, path, indices := d.indices, version := none, experiment := d.experiment
          shot := d.shot, run := d.run })
    | some .list, [facility, schema] => .ok (d.inner.over d.outer, .list facility schema)
    | some .help, _ => .error .help
    | _, _ => misuse

end Draft

def parse (arguments : List String) : Except Stop (Overrides × Command) := do
  let d ← arguments.foldlM Draft.next .start
  d.command

end SignalMap.CommandLine
