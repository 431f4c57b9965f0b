import SignalMap.Expr.Token
import SignalMap.Numeric.DecimalText
import SignalMap.Numeric.Layout

/-!
Parsing of expressions. A sum is made of products, a product of signed factors,
and a factor is an operand that may have an exponent, which is signed again:
`^` groups to the right and binds tighter than a sign on its left, the other
operators group to the left. A plus sign and parentheses leave no trace.

Every step takes one unit of fuel, and a list of tokens comes with more fuel than
any parse of it can take.
-/

namespace SignalMap.Expr

variable {α : Type}

abbrev Parsed (α : Type) := Expr α × List (Token α)

def unexpected {β : Type} (tokens : List (Token α)) (expected : Expected) :
    Except (ExprFault α) β :=
  .error (.unexpectedToken tokens.head? expected)

def expectClosing : List (Token α) → Except (ExprFault α) (List (Token α))
  | .closing :: rest => .ok rest
  | tokens => unexpected tokens .closing

mutual

def parseSum : (fuel : Nat) → List (Token α) → Except (ExprFault α) (Parsed α)
  | 0, tokens => unexpected tokens .operand
  | fuel + 1, tokens => do
    let (left, rest) ← parseProduct fuel tokens
    continueSum fuel left rest

def continueSum : (fuel : Nat) → Expr α → List (Token α) → Except (ExprFault α) (Parsed α)
  | 0, left, tokens => .ok (left, tokens)
  | fuel + 1, left, .operator .add :: tokens => do
    let (right, rest) ← parseProduct fuel tokens
    continueSum fuel (.binary .add left right) rest
  | fuel + 1, left, .operator .subtract :: tokens => do
    let (right, rest) ← parseProduct fuel tokens
    continueSum fuel (.binary .subtract left right) rest
  | _ + 1, left, tokens => .ok (left, tokens)

def parseProduct : (fuel : Nat) → List (Token α) → Except (ExprFault α) (Parsed α)
  | 0, tokens => unexpected tokens .operand
  | fuel + 1, tokens => do
    let (left, rest) ← parseSigned fuel tokens
    continueProduct fuel left rest

def continueProduct : (fuel : Nat) → Expr α → List (Token α) → Except (ExprFault α) (Parsed α)
  | 0, left, tokens => .ok (left, tokens)
  | fuel + 1, left, .operator .multiply :: tokens => do
    let (right, rest) ← parseSigned fuel tokens
    continueProduct fuel (.binary .multiply left right) rest
  | fuel + 1, left, .operator .divide :: tokens => do
    let (right, rest) ← parseSigned fuel tokens
    continueProduct fuel (.binary .divide left right) rest
  | _ + 1, left, tokens => .ok (left, tokens)

def parseSigned : (fuel : Nat) → List (Token α) → Except (ExprFault α) (Parsed α)
  | 0, tokens => unexpected tokens .operand
  | fuel + 1, .operator .subtract :: tokens => do
    let (inner, rest) ← parseSigned fuel tokens
    return (.negate inner, rest)
  | fuel + 1, .operator .add :: tokens => parseSigned fuel tokens
  | fuel + 1, tokens => parsePower fuel tokens

def parsePower : (fuel : Nat) → List (Token α) → Except (ExprFault α) (Parsed α)
  | 0, tokens => unexpected tokens .operand
  | fuel + 1, tokens => do
    let (base, rest) ← parseOperand fuel tokens
    match rest with
    | .operator .power :: rest => do
      let (exponent, rest) ← parseSigned fuel rest
      return (.binary .power base exponent, rest)
    | rest => return (base, rest)

def parseOperand : (fuel : Nat) → List (Token α) → Except (ExprFault α) (Parsed α)
  | 0, tokens => unexpected tokens .operand
  | _ + 1, .number value :: rest => .ok (.number value, rest)
  | fuel + 1, .identifier name :: .opening :: rest =>
    match Function.ofName? name with
    | none => .error (.unknownFunction name)
    | some function => do
      let (argument, rest) ← parseSum fuel rest
      let rest ← expectClosing rest
      return (.call function argument, rest)
  | _ + 1, .identifier name :: rest => .ok (.var name, rest)
  | fuel + 1, .opening :: rest => do
    let (inner, rest) ← parseSum fuel rest
    let rest ← expectClosing rest
    return (inner, rest)
  | _ + 1, tokens => unexpected tokens .operand

end

/-- Each token is the first one of at most one step of each of the seven kinds. -/
def parseFuel (tokens : List (Token α)) : Nat :=
  7 * (tokens.length + 1)

def ofTokens (tokens : List (Token α)) : Except (ExprFault α) (Expr α) :=
  if tokens.isEmpty then .error .empty
  else do
    let (root, rest) ← parseSum (parseFuel tokens) tokens
    if rest.isEmpty then return root
    else unexpected rest .endOfExpression

def ofText (literal? : List Char → Option α) (text : String) : Except (ExprFault α) (Expr α) := do
  let tokens ← Token.scan literal? text
  ofTokens tokens

end SignalMap.Expr

namespace SignalMap

structure Formula where
  source : String
  root : Expr Float

namespace Formula

/-- Literals are written without exponents. -/
def literal (x : Float) : List Char :=
  (Numeric.Layout.plain.writeDouble x).toList

def parse (source : String) : Except (ExprFault Float) Formula := do
  let root ← Expr.ofText Numeric.readDecimal? source
  return { source := Text.trim source, root := root }

def tree (f : Formula) : String :=
  String.ofList (f.root.toChars literal)

end Formula

end SignalMap
