import SignalMap.Proofs.Expr.Completeness
import SignalMap.Proofs.Text.Words

/-!
The written form of an expression is read back as the same expression. Every
form that is written is an operand of the grammar by itself, so no operator
around it can take a part of it.
-/

namespace SignalMap

namespace Expr

variable {α : Type}

def tokensBefore : Expr α → List (Token α) → List (Token α)
  | number value, rest => .number value :: rest
  | var name, rest => .identifier name :: rest
  | negate inner, rest =>
    .opening :: .operator .subtract :: inner.tokensBefore (.closing :: rest)
  | binary operator left right, rest =>
    .opening :: left.tokensBefore (.operator operator :: right.tokensBefore (.closing :: rest))
  | call function argument, rest =>
    .identifier function.name :: .opening :: argument.tokensBefore (.closing :: rest)

/-! The written form is an operand -/

namespace Derivation

variable {tokens middle rest : List (Token α)}

def asSigned (d : Derivation .operand tokens rest) : Derivation .signed tokens rest :=
  .unsigned (.base d)

def asSum (d : Derivation .signed tokens rest) : Derivation .sum tokens rest :=
  .sum (.product d .noFactor) .noTerm

def between : (operator : BinaryOperator) →
    Derivation .operand tokens (.operator operator :: middle) →
      Derivation .operand middle rest → Derivation .sum tokens rest
  | .add, left, right => .sum (.product left.asSigned .noFactor)
      (.term .add BinaryOperator.isTerm_add (.product right.asSigned .noFactor) .noTerm)
  | .subtract, left, right => .sum (.product left.asSigned .noFactor)
      (.term .subtract BinaryOperator.isTerm_subtract (.product right.asSigned .noFactor) .noTerm)
  | .multiply, left, right => .sum (.product left.asSigned
      (.factor .multiply BinaryOperator.isFactor_multiply right.asSigned .noFactor)) .noTerm
  | .divide, left, right => .sum (.product left.asSigned
      (.factor .divide BinaryOperator.isFactor_divide right.asSigned .noFactor)) .noTerm
  | .power, left, right => asSum (.unsigned (.raised left right.asSigned))

theorem tree_between (operator : BinaryOperator)
    (left : Derivation .operand tokens (.operator operator :: middle))
    (right : Derivation .operand middle rest) :
    (between operator left right).tree = .binary operator left.tree right.tree := by
  cases operator <;> rfl

/-- How the written form is read. A variable must not stand in front of a
parenthesis, which would make a call of it. -/
def ofWritten : (e : Expr α) → (rest : List (Token α)) → rest.head? ≠ some .opening →
    Derivation .operand (e.tokensBefore rest) rest
  | .number value, _, _ => .number value
  | .var name, _, h => .var name h
  | .negate inner, rest, _ =>
    .group (.asSum (.minus (ofWritten inner (.closing :: rest) nofun).asSigned))
  | .binary operator left right, rest, _ =>
    .group (between operator (ofWritten left (.operator operator :: _) nofun)
      (ofWritten right (.closing :: rest) nofun))
  | .call function argument, rest, _ =>
    .call function (Function.ofName?_name function)
      (ofWritten argument (.closing :: rest) nofun).asSigned.asSum

theorem tree_ofWritten (e : Expr α) (rest : List (Token α)) (h : rest.head? ≠ some .opening) :
    (ofWritten e rest h).tree = e := by
  induction e generalizing rest with
  | number value => rfl
  | var name => rfl
  | negate inner ih => exact congrArg Expr.negate (ih _ _)
  | binary operator left right ihl ihr =>
    change (between operator (ofWritten left _ _) (ofWritten right _ _)).tree = _
    rw [tree_between, ihl, ihr]
  | call function argument ih => exact congrArg (Expr.call function) (ih _ _)

end Derivation

theorem ofTokens_tokensBefore (e : Expr α) : ofTokens (e.tokensBefore []) = .ok e :=
  ofTokens_eq_ok_iff.mpr
    ⟨(Derivation.ofWritten e [] nofun).asSigned.asSum, Derivation.tree_ofWritten e [] nofun⟩

/-! The text of the written form has these tokens -/

def Leaves (p : Token α → Prop) : Expr α → Prop
  | number value => p (.number value)
  | var name => p (.identifier name)
  | negate inner => inner.Leaves p
  | binary _ left right => left.Leaves p ∧ right.Leaves p
  | call _ argument => argument.Leaves p

def ReadsBack (literal? : List Char → Option α) (literal : α → List Char) : Token α → Prop
  | .number value => Token.IsNumeral (literal value) ∧ literal? (literal value) = some value
  | .identifier name => Token.IsName name.toList
  | .operator _ => True
  | .opening => True
  | .closing => True

section Written

variable {literal? : List Char → Option α} {literal : α → List Char}

theorem isName_name (function : Function) : Token.IsName function.name.toList := by
  cases function <;> decide

theorem ofChar?_symbol (operator : BinaryOperator) :
    Token.ofChar? operator.symbol = some (.operator operator : Token α) := by
  cases operator <;> rfl

/-- The text of a tree has the tokens of the tree, in front of any place where
names and numerals end. -/
theorem scans_toChars {e : Expr α} (h : e.Leaves (ReadsBack literal? literal)) {cs : List Char}
    {tokens : List (Token α)} (hcs : Token.Separated cs) (hscan : Token.Scans literal? cs tokens) :
    Token.Scans literal? (e.toChars literal ++ cs) (e.tokensBefore tokens) := by
  -- Every part stands in front of a parenthesis or a blank, which end it.
  induction e generalizing cs tokens with
  | number value => exact hscan.numeral hcs h.1 h.2
  | var name => exact hscan.name hcs h
  | negate inner ih =>
    have hinner : Token.Scans literal? (inner.toChars literal ++ ')' :: cs)
        (inner.tokensBefore (.closing :: tokens)) :=
      ih h (Token.separated_cons cs rfl (by decide)) (hscan.ofChar rfl)
    simp only [toChars, List.cons_append, List.append_assoc, List.nil_append]
    exact (hinner.ofChar rfl).ofChar rfl
  | binary operator left right ihl ihr =>
    obtain ⟨hleft, hright⟩ := h
    have hright : Token.Scans literal? (right.toChars literal ++ ')' :: cs)
        (right.tokensBefore (.closing :: tokens)) :=
      ihr hright (Token.separated_cons cs rfl (by decide)) (hscan.ofChar rfl)
    have hleft : Token.Scans literal?
        (left.toChars literal ++
          ' ' :: operator.symbol :: ' ' :: (right.toChars literal ++ ')' :: cs))
        (left.tokensBefore (.operator operator :: right.tokensBefore (.closing :: tokens))) :=
      ihl hleft (Token.separated_cons _ rfl (by decide))
        (hright.space.ofChar (ofChar?_symbol operator)).space
    simp only [toChars, List.cons_append, List.append_assoc, List.nil_append]
    exact hleft.ofChar rfl
  | call function argument ih =>
    have hargument : Token.Scans literal? (argument.toChars literal ++ ')' :: cs)
        (argument.tokensBefore (.closing :: tokens)) :=
      ih h (Token.separated_cons cs rfl (by decide)) (hscan.ofChar rfl)
    simp only [toChars, List.cons_append, List.append_assoc, List.nil_append]
    exact (hargument.ofChar rfl).name (Token.separated_cons _ rfl (by decide))
      (isName_name function)

/-- A tree whose numbers and names read back is read back as a whole. -/
theorem ofText_toChars {e : Expr α} (h : e.Leaves (ReadsBack literal? literal)) :
    ofText literal? (String.ofList (e.toChars literal)) = .ok e := by
  have hscan := scans_toChars h Token.separated_nil Token.scans_nil 0
  rw [List.append_nil] at hscan
  have htext : Token.scan literal? (String.ofList (e.toChars literal)) =
      .ok (e.tokensBefore []) := by
    unfold Token.scan
    rw [String.toList_ofList]
    exact hscan
  rw [ofText_of_scan htext]
  exact e.ofTokens_tokensBefore

end Written

/-! Trees of texts -/

def Level.Leaves (p : Token α → Prop) : (l : Level) → l.Reading α → Prop
  | .sum, e => Expr.Leaves p e
  | .terms, grow => ∀ left, Expr.Leaves p left → Expr.Leaves p (grow left)
  | .product, e => Expr.Leaves p e
  | .factors, grow => ∀ left, Expr.Leaves p left → Expr.Leaves p (grow left)
  | .signed, e => Expr.Leaves p e
  | .power, e => Expr.Leaves p e
  | .operand, e => Expr.Leaves p e

/-- The leaves of a tree are tokens that it was read from. -/
theorem Derivation.leaves {p : Token α → Prop} {l : Level} {tokens rest : List (Token α)}
    (d : Derivation l tokens rest) (h : ∀ token ∈ tokens, p token) : l.Leaves p d.tree := by
  -- What is left for the second of two parts is a suffix of the tokens of the first.
  induction d with
  | sum first more ihf ihm =>
    exact ihm (fun t ht => h t (first.isSuffix.subset ht)) _ (ihf h)
  | noTerm => exact fun left hleft => hleft
  | term op hop next more ihn ihm =>
    obtain ⟨_, h⟩ := List.forall_mem_cons.mp h
    intro left hleft
    exact ihm (fun t ht => h t (next.isSuffix.subset ht)) _ ⟨hleft, ihn h⟩
  | product first more ihf ihm =>
    exact ihm (fun t ht => h t (first.isSuffix.subset ht)) _ (ihf h)
  | noFactor => exact fun left hleft => hleft
  | factor op hop next more ihn ihm =>
    obtain ⟨_, h⟩ := List.forall_mem_cons.mp h
    intro left hleft
    exact ihm (fun t ht => h t (next.isSuffix.subset ht)) _ ⟨hleft, ihn h⟩
  | minus inner ih => exact ih (List.forall_mem_cons.mp h).2
  | plus inner ih => exact ih (List.forall_mem_cons.mp h).2
  | unsigned inner ih => exact ih h
  | base inner ih => exact ih h
  | raised inner exponent ihi ihe =>
    refine ⟨ihi h, ihe fun t ht => h t (inner.isSuffix.subset ?_)⟩
    exact List.mem_cons_of_mem _ ht
  | number value => exact (List.forall_mem_cons.mp h).1
  | var name hnext => exact (List.forall_mem_cons.mp h).1
  | call function hname argument ih =>
    obtain ⟨_, h⟩ := List.forall_mem_cons.mp h
    exact ih (List.forall_mem_cons.mp h).2
  | group inner ih => exact ih (List.forall_mem_cons.mp h).2

/-- The leaves of an accepted text are tokens of the text. -/
theorem leaves_of_ofText {literal? : List Char → Option α} {p : Token α → Prop} {text : String}
    {tokens : List (Token α)} {root : Expr α} (hscan : Token.scan literal? text = .ok tokens)
    (hparse : ofText literal? text = .ok root) (h : ∀ token ∈ tokens, p token) :
    root.Leaves p := by
  rw [ofText_of_scan hscan] at hparse
  obtain ⟨d, rfl⟩ := ofTokens_eq_ok_iff.mp hparse
  exact d.leaves h

section Accepted

variable {literal? : List Char → Option α} {literal : α → List Char} {finite : α → Prop}

/-- What is assumed of the literals: a finite value that some numeral stands for is
written with digits and points and is read back. -/
def WritesNumerals (literal? : List Char → Option α) (literal : α → List Char)
    (finite : α → Prop) : Prop :=
  ∀ c rest value, Token.startsNumber c → literal? (c :: rest) = some value → finite value →
    Token.IsNumeral (literal value) ∧ literal? (literal value) = some value

/-- The tokens of a text with finite literals read back. -/
theorem readsBack_of_scan {text : String} {tokens : List (Token α)}
    (hliteral : WritesNumerals literal? literal finite)
    (hscan : Token.scan literal? text = .ok tokens)
    (hfinite : ∀ value, .number value ∈ tokens → finite value) :
    ∀ token ∈ tokens, ReadsBack literal? literal token := by
  intro token htoken
  have hspelled := Token.spelled_of_scanFrom hscan token htoken
  cases token with
  | number value =>
    obtain ⟨c, rest, hstart, hvalue⟩ := hspelled
    exact hliteral c rest value hstart hvalue (hfinite value htoken)
  | identifier name => exact hspelled
  | operator symbol => trivial
  | opening => trivial
  | closing => trivial

/-- Writing the tree of an accepted text and reading it again gives the same tree,
and so writing that once more gives the same text. -/
theorem ofText_written {source : String} {tokens : List (Token α)} {root : Expr α}
    (hliteral : WritesNumerals literal? literal finite)
    (hscan : Token.scan literal? source = .ok tokens)
    (hfinite : ∀ value, .number value ∈ tokens → finite value)
    (hparse : ofText literal? source = .ok root) :
    ofText literal? (String.ofList (root.toChars literal)) = .ok root ∧
      (do let again ← ofText literal? (String.ofList (root.toChars literal))
          return String.ofList (again.toChars literal)) =
        (.ok (String.ofList (root.toChars literal)) : Except (ExprFault α) String) := by
  have hleaves : root.Leaves (ReadsBack literal? literal) :=
    leaves_of_ofText hscan hparse (readsBack_of_scan hliteral hscan hfinite)
  have hagain := ofText_toChars hleaves
  refine ⟨hagain, ?_⟩
  rw [hagain]
  rfl

/-- Natural numbers in decimal digits read back. -/
theorem writesNumerals_decimal (finite : Nat → Prop) :
    WritesNumerals Text.digits? (Nat.toDigits 10) finite := by
  intro c rest value _ _ _
  refine ⟨⟨Nat.toDigits_ne_nil, ?_⟩, Text.digits?_toDigits value⟩
  refine List.all_eq_true.mpr fun d hd => ?_
  exact (Bool.or_eq_true _ _).mpr (Or.inl (Text.isDigit_of_mem_toDigits hd))

def rootTimesPower : Expr Nat :=
  .binary .multiply (.negate (.binary .power (.number 2) (.var "x")))
    (.call .sqrt (.binary .subtract (.number 10) (.var "y")))

theorem ofText_written_decimal :
    ofText Text.digits? "-2^x * sqrt(10 - y)" = .ok rootTimesPower ∧
      ofText Text.digits? "((-(2 ^ x)) * sqrt((10 - y)))" = .ok rootTimesPower := by
  -- The text is scanned from its end, one lexeme in front of the other.
  have hdifference : Token.Scans Text.digits? (['1', '0'] ++ " - y)".toList)
      [.number 10, .operator .subtract, .identifier "y", .closing] :=
    (((Token.scans_nil.ofChar rfl).name (Token.separated_cons _ rfl (by decide))
      (by decide : Token.IsName "y".toList)).space.ofChar rfl).space.numeral
        (Token.separated_cons _ rfl (by decide)) (by decide) rfl
  have hfactor : Token.Scans Text.digits? ("x".toList ++ " * sqrt(10 - y)".toList)
      [.identifier "x", .operator .multiply, .identifier "sqrt", .opening, .number 10,
        .operator .subtract, .identifier "y", .closing] :=
    (((hdifference.ofChar rfl).name (Token.separated_cons _ rfl (by decide))
      (by decide : Token.IsName "sqrt".toList)).space.ofChar rfl).space.name
        (Token.separated_cons _ rfl (by decide)) (by decide)
  have hbase : Token.Scans Text.digits? (['2'] ++ "^x * sqrt(10 - y)".toList)
      [.number 2, .operator .power, .identifier "x", .operator .multiply, .identifier "sqrt",
        .opening, .number 10, .operator .subtract, .identifier "y", .closing] :=
    (hfactor.ofChar rfl).numeral (Token.separated_cons _ rfl (by decide)) (by decide) rfl
  have hscan : Token.scan Text.digits? "-2^x * sqrt(10 - y)" =
      .ok [.operator .subtract, .number 2, .operator .power, .identifier "x", .operator .multiply,
        .identifier "sqrt", .opening, .number 10, .operator .subtract, .identifier "y",
        .closing] :=
    (hbase.ofChar rfl) 0
  have hparse : ofText Text.digits? "-2^x * sqrt(10 - y)" = .ok rootTimesPower := by
    rw [ofText_of_scan hscan]
    rfl
  exact ⟨hparse, (ofText_written (writesNumerals_decimal fun _ => True) hscan
    (fun _ _ => trivial) hparse).1⟩

end Accepted

end Expr

namespace Formula

open SignalMap.Expr

/-- Over doubles: a formula with finite literals is read back from its tree. -/
theorem parse_tree {source : String} {tokens : List (Token Float)} {f : Formula}
    (hliteral : WritesNumerals Numeric.readDecimal? literal fun x => x.isFinite = true)
    (hscan : Token.scan Numeric.readDecimal? source = .ok tokens)
    (hfinite : ∀ value, .number value ∈ tokens → value.isFinite = true)
    (hparse : parse source = .ok f) : parse f.tree = .ok ⟨Text.trim f.tree, f.root⟩ := by
  obtain ⟨root, hroot, hf⟩ := bind_eq_ok.mp hparse
  cases hf
  have hleaves : root.Leaves (ReadsBack Numeric.readDecimal? literal) :=
    leaves_of_ofText hscan hroot (readsBack_of_scan hliteral hscan hfinite)
  change (ofText Numeric.readDecimal? (String.ofList (root.toChars literal)) >>= _) = _
  rw [ofText_toChars hleaves]
  rfl

end Formula

end SignalMap
