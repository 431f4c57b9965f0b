import SignalMap.DataType
import SignalMap.Text.Numeral

/-!
Values that rules produce: a number, a flat array of numbers of one type, a
text, or nothing. Operations on numbers keep the element type, since they are
lifted to it, and only a cast changes it.
-/

namespace SignalMap

structure Scalar where
  dtype : DataType
  value : dtype.Element

namespace Scalar

def ofDouble (x : Float) : Scalar := ⟨.double, x⟩

def ofInt64 (n : Int64) : Scalar := ⟨.long, n⟩

def toDouble (s : Scalar) : Float :=
  s.dtype.toDouble s.value

def map (operation : Float → Float) (s : Scalar) : Scalar :=
  ⟨s.dtype, s.dtype.lift operation s.value⟩

def cast (target : DataType) (s : Scalar) : Scalar :=
  ⟨target, target.ofDouble s.toDouble⟩

/-- A number that fits a signed word is one; a larger one is unsigned. -/
def ofJsonNumber : JsonNumber → Scalar
  | .unsigned n =>
    if n.toNat ≤ Text.maxSigned then ⟨.long, Int64.ofNat n.toNat⟩ else ⟨.ulong, n⟩
  | .negative n => ⟨.long, n⟩
  | .float x => ⟨.double, x⟩

def long? : Scalar → Option Int64
  | ⟨.long, n⟩ => some n
  | _ => none

theorem dtype_map (operation : Float → Float) (s : Scalar) :
    (s.map operation).dtype = s.dtype := rfl

end Scalar

structure NumericArray where
  dtype : DataType
  values : List dtype.Element

namespace NumericArray

def length (a : NumericArray) : Nat :=
  a.values.length

def isEmpty (a : NumericArray) : Bool :=
  a.values.isEmpty

def get? (a : NumericArray) (position : Nat) : Option Scalar :=
  a.values[position]?.map fun x => ⟨a.dtype, x⟩

def toDoubles (a : NumericArray) : List Float :=
  a.values.map a.dtype.toDouble

def ofDoubles (xs : List Float) : NumericArray := ⟨.double, xs⟩

def map (operation : Float → Float) (a : NumericArray) : NumericArray :=
  ⟨a.dtype, a.values.map (a.dtype.lift operation)⟩

def reversed (a : NumericArray) : NumericArray :=
  ⟨a.dtype, a.values.reverse⟩

def cast (target : DataType) (a : NumericArray) : NumericArray :=
  ⟨target, a.toDoubles.map target.ofDouble⟩

def everyFrom {α : Type} (step : Nat) : (wait : Nat) → List α → List α
  | _, [] => []
  | 0, x :: rest => x :: everyFrom step (step - 1) rest
  | wait + 1, _ :: rest => everyFrom step wait rest

def strided (a : NumericArray) (start stop step : Nat) : NumericArray :=
  ⟨a.dtype, everyFrom step 0 ((a.values.take stop).drop start)⟩

theorem dtype_map (operation : Float → Float) (a : NumericArray) :
    (a.map operation).dtype = a.dtype := rfl

theorem length_map (operation : Float → Float) (a : NumericArray) :
    (a.map operation).length = a.length := by
  simp [map, length]

theorem length_reversed (a : NumericArray) : a.reversed.length = a.length := by
  simp [reversed, length]

end NumericArray

inductive Value where
  | scalar (s : Scalar)
  | array (a : NumericArray)
  | text (s : String)
  | empty

namespace Value

def ofDouble (x : Float) : Value := .scalar (.ofDouble x)

def ofDoubles (xs : List Float) : Value := .array (.ofDoubles xs)

def ofCount (n : Nat) : Value := .scalar ⟨.ulong, UInt64.ofNat n⟩

def ofBool (flag : Bool) : Value := .scalar ⟨.int, if flag then 1 else 0⟩

/-- An item of an array is a number; a truth value counts as one or zero. -/
def itemOfJson? : Json → Option Scalar
  | .bool flag => some (.ofInt64 (if flag then 1 else 0))
  | .number n => some (.ofJsonNumber n)
  | _ => none

/-- An array stays an integer array when every item is a signed word. -/
def arrayOfScalars (items : List Scalar) : NumericArray :=
  match items.mapM Scalar.long? with
  | some words => ⟨.long, words⟩
  | none => .ofDoubles (items.map Scalar.toDouble)

/-- The value of a document; objects and nested arrays have none. -/
def ofJson? : Json → Option Value
  | .null => some .empty
  | .bool flag => some (ofBool flag)
  | .number n => some (.scalar (.ofJsonNumber n))
  | .string s => some (.text s)
  | .array items => (items.mapM itemOfJson?).map fun scalars => .array (arrayOfScalars scalars)
  | .object _ => none

def isEmpty : Value → Bool
  | .empty => true
  | .array a => a.isEmpty
  | .text s => s.isEmpty
  | .scalar _ => false

def elementCount : Value → Nat
  | .empty => 0
  | .array a => a.length
  | .text s => if s.isEmpty then 0 else 1
  | .scalar _ => 1

def dataType? : Value → Option DataType
  | .scalar s => some s.dtype
  | .array a => some a.dtype
  | .text _ => none
  | .empty => none

def mapNumbers? (operation : Float → Float) : Value → Option Value
  | .scalar s => some (.scalar (s.map operation))
  | .array a => some (.array (a.map operation))
  | .text _ => none
  | .empty => none

def offset? (amount : Float) (v : Value) : Option Value :=
  v.mapNumbers? (· + amount)

def cast? (target : DataType) : Value → Option Value
  | .scalar s => some (.scalar (s.cast target))
  | .array a => some (.array (a.cast target))
  | .text _ => none
  | .empty => none

def array? : Value → Option NumericArray
  | .array a => some a
  | _ => none

def toText : Value → String
  | .scalar s => s.dtype.elementText s.value
  | .array a => JsonWriter.arrayText (a.values.map a.dtype.elementText)
  | .text s => JsonWriter.stringText s
  | .empty => "null"

def toLines : Value → String
  | .array a =>
    if a.isEmpty then "[]"
    else "[\n  " ++ String.intercalate ",\n  " (a.values.map a.dtype.elementText) ++ "\n]"
  | v => v.toText

end Value

end SignalMap
