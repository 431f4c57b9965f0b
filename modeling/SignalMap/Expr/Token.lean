import SignalMap.Expr.Basic
import SignalMap.Text.Blank
import SignalMap.Text.Size

/-!
Tokens of an expression. Blanks separate tokens and are dropped; a number takes
every character that can belong to one and is then read as a whole. The place
of a character is counted in bytes of the text.
-/

namespace SignalMap

inductive Token (α : Type) where
  | number (value : α)
  | identifier (name : String)
  | operator (symbol : BinaryOperator)
  | opening
  | closing

inductive Expected where
  | operand
  | closing
  | endOfExpression
  deriving DecidableEq

inductive ExprFault (α : Type) where
  | empty
  | unexpectedCharacter (character : Char) (offset : Nat)
  | invalidNumber (text : String)
  | unknownFunction (name : String)
  | unexpectedToken (found : Option (Token α)) (expected : Expected)

namespace Token

variable {α : Type}

def describe (literal : α → List Char) : Token α → String
  | number value => s!"number {String.ofList (literal value)}"
  | identifier name => s!"identifier '{name}'"
  | operator symbol => s!"operator '{symbol.symbol}'"
  | opening => "'('"
  | closing => "')'"

/-- The characters at the front that continue a number. A sign continues it only
right behind an exponent mark. -/
def spanNumber (afterMark : Bool) : List Char → List Char × List Char
  | [] => ([], [])
  | c :: rest =>
    let isMark := c == 'e' || c == 'E'
    if c.isDigit || c == '.' || isMark || (afterMark && (c == '+' || c == '-')) then
      let (taken, after) := spanNumber isMark rest
      (c :: taken, after)
    else ([], c :: rest)

def startsNumber (c : Char) : Bool :=
  c.isDigit || c == '.'

def startsName (c : Char) : Bool :=
  c.isAlpha || c == '_'

def continuesName (c : Char) : Bool :=
  c.isAlphanum || c == '_'

def ofChar? : Char → Option (Token α)
  | '+' => some (operator .add)
  | '-' => some (operator .subtract)
  | '*' => some (operator .multiply)
  | '/' => some (operator .divide)
  | '^' => some (operator .power)
  | '(' => some opening
  | ')' => some closing
  | _ => none

theorem length_spanNumber_le (afterMark : Bool) (cs : List Char) :
    (spanNumber afterMark cs).2.length ≤ cs.length := by
  induction cs generalizing afterMark with
  | nil => simp [spanNumber]
  | cons c rest ih =>
    rw [spanNumber]
    split
    · exact Nat.le_succ_of_le (ih _)
    · exact Nat.le_refl _

theorem length_dropWhile_le (p : Char → Bool) (cs : List Char) :
    (cs.dropWhile p).length ≤ cs.length :=
  (List.dropWhile_sublist p).length_le

def scanFrom (literal? : List Char → Option α) (offset : Nat) :
    List Char → Except (ExprFault α) (List (Token α))
  | [] => .ok []
  | c :: rest =>
    if Text.isBlank c then scanFrom literal? (offset + c.utf8Size) rest
    else match ofChar? c with
      | some token => do
        let tokens ← scanFrom literal? (offset + c.utf8Size) rest
        return token :: tokens
      | none =>
        if startsNumber c then
          let taken := c :: (spanNumber false rest).1
          match literal? taken with
          | some value => do
            let offset := offset + Text.byteLength taken
            let tokens ← scanFrom literal? offset (spanNumber false rest).2
            return number value :: tokens
          | none => .error (.invalidNumber (String.ofList taken))
        else if startsName c then do
          let taken := c :: rest.takeWhile continuesName
          let offset := offset + Text.byteLength taken
          let tokens ← scanFrom literal? offset (rest.dropWhile continuesName)
          return identifier (String.ofList taken) :: tokens
        else .error (.unexpectedCharacter c offset)
termination_by cs => cs.length
decreasing_by
  · simp
  · simp
  · have := length_spanNumber_le false rest
    simp only [List.length_cons]
    omega
  · have := length_dropWhile_le continuesName rest
    simp only [List.length_cons]
    omega

def scan (literal? : List Char → Option α) (text : String) :
    Except (ExprFault α) (List (Token α)) :=
  scanFrom literal? 0 text.toList

end Token

def Expected.describe : Expected → String
  | .operand => "number, identifier or '('"
  | .closing => "')'"
  | .endOfExpression => "end of expression"

def ExprFault.message {α : Type} (literal : α → List Char) : ExprFault α → String
  | .empty => "expression is empty"
  | .unexpectedCharacter c offset => s!"unexpected character '{c}' at offset {offset}"
  | .invalidNumber text => s!"invalid number '{text}'"
  | .unknownFunction name => s!"unknown function '{name}'"
  | .unexpectedToken found expected =>
    let found := match found with
      | some token => token.describe literal
      | none => "end of expression"
    s!"unexpected {found}, expected {expected.describe}"

end SignalMap
