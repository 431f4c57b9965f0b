import SignalMap.Json.Writer
import SignalMap.Text.Blank

/-!
The numeric element types. All arithmetic goes through doubles: an element is
widened, the operation is done, and the result is brought back to the element
type, toward zero and inside its bounds when that is an integer type.
-/

namespace SignalMap

inductive DataType where
  | float
  | double
  | int
  | long
  | uint
  | ulong
  deriving DecidableEq, Repr

namespace DataType

def name : DataType → String
  | .float => "float"
  | .double => "double"
  | .int => "int"
  | .long => "long"
  | .uint => "uint"
  | .ulong => "ulong"

def foldName (text : String) : String :=
  String.ofList ((Text.trimChars text.toList).map Char.toLower)

/-- A type has its own name and the name of its width. -/
def ofName? (text : String) : Option DataType :=
  match foldName text with
  | "float" | "f32" => some .float
  | "double" | "f64" => some .double
  | "int" | "i32" => some .int
  | "long" | "i64" => some .long
  | "uint" | "u32" => some .uint
  | "ulong" | "u64" => some .ulong
  | _ => none

abbrev Element : DataType → Type
  | .float => Float32
  | .double => Float
  | .int => Int32
  | .long => Int64
  | .uint => UInt32
  | .ulong => UInt64

def toDouble : (d : DataType) → d.Element → Float
  | .float, x => Numeric.ofSingle x
  | .double, x => x
  | .int, n => Numeric.ofInteger n.toInt
  | .long, n => Numeric.ofInteger n.toInt
  | .uint, n => Numeric.ofInteger n.toNat
  | .ulong, n => Numeric.ofInteger n.toNat

def ofDouble : (d : DataType) → Float → d.Element
  | .float, x => Numeric.toSingle x
  | .double, x => x
  | .int, x => Int32.ofInt (Numeric.truncate (-0x80000000) 0x7FFFFFFF x)
  | .long, x => Int64.ofInt (Numeric.truncate (-0x8000000000000000) 0x7FFFFFFFFFFFFFFF x)
  | .uint, x => UInt32.ofNat (Numeric.truncate 0 0xFFFFFFFF x).toNat
  | .ulong, x => UInt64.ofNat (Numeric.truncate 0 0xFFFFFFFFFFFFFFFF x).toNat

def elementText : (d : DataType) → d.Element → String
  | .float, x => JsonWriter.singleText x
  | .double, x => JsonWriter.floatText x
  | .int, n => toString n.toInt
  | .long, n => toString n.toInt
  | .uint, n => toString n.toNat
  | .ulong, n => toString n.toNat

def lift (d : DataType) (operation : Float → Float) (x : d.Element) : d.Element :=
  d.ofDouble (operation (d.toDouble x))

theorem ofName?_name (d : DataType) : ofName? d.name = some d := by
  cases d <;> decide +kernel

end DataType

end SignalMap
