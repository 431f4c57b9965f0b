import SignalMap.Json.Basic
import SignalMap.Numeric.Layout

/-!
Writing JSON text without spaces. Quotes, backslashes and control characters
are escaped and every other character stands for itself.
-/

namespace SignalMap.JsonWriter

def hexByte (n : Nat) : List Char :=
  [Nat.digitChar (n / 16), Nat.digitChar (n % 16)]

def escapeChar (c : Char) : List Char :=
  if c = '"' ∨ c = '\\' then ['\\', c]
  else if c = '\x08' then ['\\', 'b']
  else if c = '\x0c' then ['\\', 'f']
  else if c = '\n' then ['\\', 'n']
  else if c = '\r' then ['\\', 'r']
  else if c = '\t' then ['\\', 't']
  else if c.toNat < 0x20 then ['\\', 'u', '0', '0'] ++ hexByte c.toNat
  else [c]

def stringText (s : String) : String :=
  String.ofList ('"' :: s.toList.flatMap escapeChar ++ ['"'])

/-- A number that is not finite has no JSON form and is written as null. -/
def floatText (x : Float) : String :=
  if x.isFinite then Numeric.Layout.documentDouble.writeDouble x else "null"

def singleText (x : Float32) : String :=
  if x.isFinite then Numeric.Layout.documentSingle.writeSingle x else "null"

def numberText : JsonNumber → String
  | .unsigned n => toString n.toNat
  | .negative n => toString n.toInt
  | .float x => floatText x

def enclose (opening closing : Char) (items : List String) : String :=
  opening.toString ++ String.intercalate "," items ++ closing.toString

def arrayText (items : List String) : String :=
  enclose '[' ']' items

def recordText (fields : List (String × String)) : String :=
  enclose '{' '}' (fields.map fun (name, value) => stringText name ++ ":" ++ value)

end JsonWriter

mutual

def Json.text : Json → String
  | .null => "null"
  | .bool flag => if flag then "true" else "false"
  | .number n => JsonWriter.numberText n
  | .string s => JsonWriter.stringText s
  | .array items => JsonWriter.arrayText (Json.itemTexts items)
  | .object fields => JsonWriter.recordText (Json.fieldTexts fields)

def Json.itemTexts : List Json → List String
  | [] => []
  | item :: rest => item.text :: Json.itemTexts rest

def Json.fieldTexts : List (String × Json) → List (String × String)
  | [] => []
  | (name, value) :: rest => (name, value.text) :: Json.fieldTexts rest

end

end SignalMap
