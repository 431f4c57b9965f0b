import SignalMap.Config.Basic
import SignalMap.Json.Reader
import SignalMap.Json.Record
import SignalMap.Text.Size

/-!
Reading settings from JSON text. The first thing that is wrong is reported,
whatever stands behind it, with its place in the text.
-/

namespace SignalMap.Config

structure Place where
  line : Nat
  column : Nat
  deriving DecidableEq

def Place.behind (cs : List Char) : Place :=
  ⟨cs.count '\n' + 1, Text.byteLength (cs.reverse.takeWhile (· ≠ '\n'))⟩

inductive TextFault (π : Type) where
  | notJson
  | form (fault : FormFault) (place : π)
  deriving DecidableEq

namespace TextFault

variable {π ρ : Type}

def map (f : π → ρ) : TextFault π → TextFault ρ
  | notJson => notJson
  | form fault place => form fault (f place)

def message : TextFault π → String
  | notJson => "<syntax>"
  | form fault _ => fault.message

def locatedMessage : TextFault Place → String
  | notJson => "<syntax>"
  | form fault place => s!"{fault.message} at line {place.line} column {place.column}"

end TextFault

/-! Readers take the characters that remain; a fault carries those from its place
on. -/

structure Draft where
  root : Option (Option String)
  version : Option String

abbrev Attempt := Except (TextFault (List Char))

/-- A document that is not of the expected form. Arrays and objects are refused
where they begin, all else where it ends. -/
def refuse {α : Type} (expected : String) (cs : List Char) : Attempt (α × List Char) :=
  match cs with
  | '[' :: _ => .error (.form (.unexpected "sequence" expected) cs)
  | '{' :: _ => .error (.form (.unexpected "map" expected) cs)
  | _ =>
    match JsonReader.readScalar cs with
    | some (value, rest) => .error (.form (.unexpected value.describe expected) rest)
    | none => .error .notJson

def readText (expected : String) (cs : List Char) : Attempt (String × List Char) :=
  match JsonReader.skipSpace cs with
  | '"' :: rest =>
    match JsonReader.readString rest with
    | some (text, after) => .ok (String.ofList text, after)
    | none => .error .notJson
  | rest => refuse expected rest

def readRoot (cs : List Char) : Attempt (Option String × List Char) :=
  match JsonReader.skipSpace cs with
  | 'n' :: 'u' :: 'l' :: 'l' :: rest => .ok (none, rest)
  | 'n' :: _ => .error .notJson
  | rest => (readText "path string" rest).map fun (text, after) => (some text, after)

def readVersion (cs : List Char) : Attempt (String × List Char) :=
  readText "a string" cs

def behindColon (cs : List Char) : Attempt (List Char) :=
  match JsonReader.skipSpace cs with
  | ':' :: rest => .ok rest
  | _ => .error .notJson

def refuseName {α : Type} (fault : FormFault) (cs : List Char) : Attempt (α × List Char) :=
  match JsonReader.skipSpace cs with
  | '}' :: rest => .error (.form fault rest)
  | rest => .error (.form fault rest)

def readField (draft : Draft) (name : String) (cs : List Char) : Attempt (Draft × List Char) :=
  if name = "root_directory" then
    if draft.root.isSome then refuseName (.duplicateField name) cs
    else do
      let (root, rest) ← readRoot (← behindColon cs)
      return ({ draft with root := some root }, rest)
  else if name = "dd_version" then
    if draft.version.isSome then refuseName (.duplicateField name) cs
    else do
      let (version, rest) ← readVersion (← behindColon cs)
      return ({ draft with version := some version }, rest)
  else refuseName (.unknownField name fieldNames) cs

def readFields : (fuel : Nat) → Draft → List Char → Attempt (Draft × List Char)
  | 0, _, _ => .error .notJson
  | fuel + 1, draft, cs =>
    match JsonReader.skipSpace cs with
    | '"' :: rest =>
      match JsonReader.readString rest with
      | none => .error .notJson
      | some (name, rest) => do
        let (draft, rest) ← readField draft (String.ofList name) rest
        match JsonReader.skipSpace rest with
        | ',' :: rest => readFields fuel draft rest
        | '}' :: rest => return (draft, rest)
        | _ => throw .notJson
    | _ => .error .notJson

def readObject (cs : List Char) : Attempt (Draft × List Char) :=
  match JsonReader.skipSpace cs with
  | '}' :: rest => .ok (⟨none, none⟩, rest)
  | _ => readFields (cs.length + 1) ⟨none, none⟩ cs

/-- The fields without their names, in order; any of them may be left out. -/
def readArray (cs : List Char) : Attempt (Draft × List Char) :=
  match JsonReader.skipSpace cs with
  | ']' :: rest => .ok (⟨none, none⟩, rest)
  | [] => .error .notJson
  | start => do
    let (root, rest) ← readRoot start
    match JsonReader.skipSpace rest with
    | ']' :: rest => return (⟨some root, none⟩, rest)
    | ',' :: rest =>
      match JsonReader.skipSpace rest with
      | ']' :: _ => throw .notJson
      | start =>
        let (version, rest) ← readVersion start
        match JsonReader.skipSpace rest with
        | ']' :: rest => return (⟨some root, some version⟩, rest)
        | _ => throw .notJson
    | _ => throw .notJson

def readDraft (cs : List Char) : Attempt Draft := do
  let (draft, rest) ← match JsonReader.skipSpace cs with
    | '{' :: rest => readObject rest
    | '[' :: rest => readArray rest
    | rest => refuse "struct MappingConfig" rest
  if JsonReader.skipSpace rest = [] then return draft else throw .notJson

def parse (home : FilePath) (text : String) : Except (TextFault Place) Config :=
  let cs := text.toList
  let place rest := Place.behind (cs.take (cs.length - rest.length))
  match readDraft cs with
  | .error fault => .error (fault.map place)
  | .ok draft =>
    .ok { root := (draft.root.getD none).map (FilePath.expandTilde home)
          version := draft.version.getD standard.version }

end SignalMap.Config
