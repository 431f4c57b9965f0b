import SignalMap.Numeric.Width

/-!
JSON documents. A number is kept as the word it fits: an unsigned integer, a
negative integer, or a double. The fields of an object are listed in the order
of their names, each name once.
-/

namespace SignalMap

inductive JsonNumber where
  | unsigned (n : UInt64)
  | negative (n : Int64)
  | float (x : Float)

inductive Json where
  | null
  | bool (flag : Bool)
  | number (n : JsonNumber)
  | string (text : String)
  | array (items : List Json)
  | object (fields : List (String × Json))

abbrev Fields := List (String × Json)

namespace JsonNumber

def toFloat : JsonNumber → Float
  | .unsigned n => Numeric.ofInteger n.toNat
  | .negative n => Numeric.ofInteger n.toInt
  | .float x => x

end JsonNumber

namespace Fields

def get? : Fields → String → Option Json
  | [], _ => none
  | (n, v) :: rest, name => if name = n then some v else get? rest name

def names (fields : Fields) : List String :=
  fields.map Prod.fst

def insert (name : String) (value : Json) : Fields → Fields
  | [] => [(name, value)]
  | (n, v) :: rest =>
    if name = n then (name, value) :: rest
    else if name < n then (name, value) :: (n, v) :: rest
    else (n, v) :: insert name value rest

/-- Of two entries with one name the later one stays. -/
def ofEntries (entries : List (String × Json)) : Fields :=
  entries.foldl (fun fields entry => insert entry.1 entry.2 fields) []

theorem get?_insert_self (name : String) (value : Json) (fields : Fields) :
    get? (insert name value fields) name = some value := by
  induction fields with
  | nil => simp [insert, get?]
  | cons entry rest ih =>
    simp only [insert]
    split
    next => simp [get?]
    next hne =>
      split
      next => simp [get?]
      next => simp [get?, hne, ih]

theorem get?_insert_of_ne {name other : String} (value : Json) (fields : Fields)
    (h : other ≠ name) : get? (insert name value fields) other = get? fields other := by
  induction fields with
  | nil => simp [insert, get?, h]
  | cons entry rest ih =>
    simp only [insert]
    split
    next hn =>
      subst hn
      simp [get?, h]
    next =>
      split <;> simp [get?, h, ih]

end Fields

namespace Json

def ofInt (n : Int) : Json :=
  if n < 0 then .number (.negative (Int64.ofInt n)) else .number (.unsigned (UInt64.ofNat n.toNat))

def ofNat (n : Nat) : Json := .number (.unsigned (UInt64.ofNat n))

def ofOption {α : Type} (form : α → Json) : Option α → Json
  | some x => form x
  | none => .null

def at? (position : Nat) : Json → Option Json
  | .array items => items[position]?
  | _ => none

def field? (name : String) : Json → Option Json
  | .object fields => Fields.get? fields name
  | _ => none

end Json

end SignalMap
