import SignalMap.Proofs.Expr.Lexemes
import SignalMap.Proofs.Expr.Soundness

/-!
The parser follows every derivation that stops, if it has fuel enough. A list of
tokens brings enough of it along, so that more fuel changes no answer, and a text
is an expression exactly when its tokens have a derivation, which is then the
only one.
-/

namespace SignalMap

namespace Expr

variable {α : Type} {fuel : Nat} {tokens rest : List (Token α)}

/-! Enough fuel -/

/-- Reading tokens at a level takes at most seven units of fuel a token and these. -/
def Level.cost : Level → Nat
  | .sum => 5
  | .terms => 1
  | .product => 4
  | .factors => 1
  | .signed => 3
  | .power => 2
  | .operand => 1

mutual

theorem parseSum_settled {fuel : Nat} {tokens : List (Token α)}
    (h : 7 * tokens.length + Level.sum.cost ≤ fuel) :
    parseSum (fuel + 1) tokens = parseSum fuel tokens := by
  simp only [Level.cost] at h
  cases fuel with
  | zero => omega
  | succ fuel =>
    rw [parseSum_succ, parseSum_succ, parseProduct_settled (by simp only [Level.cost]; omega)]
    refine bind_congr_of_ok ?_
    intro first hfirst
    obtain ⟨d, _⟩ := derivation_of_parseProduct hfirst
    have := d.isSuffix.length_le
    exact continueSum_settled _ (by simp only [Level.cost]; omega)

theorem continueSum_settled {fuel : Nat} {tokens : List (Token α)} (left : Expr α)
    (h : 7 * tokens.length + Level.terms.cost ≤ fuel) :
    continueSum (fuel + 1) left tokens = continueSum fuel left tokens := by
  simp only [Level.cost] at h
  cases fuel with
  | zero => omega
  | succ fuel =>
    rcases continueSum_cases tokens with ⟨op, rest, hop, rfl⟩ | hdone
    · rw [List.length_cons] at h
      rw [continueSum_term hop, continueSum_term hop,
        parseProduct_settled (by simp only [Level.cost]; omega)]
      refine bind_congr_of_ok ?_
      intro next hnext
      obtain ⟨d, _⟩ := derivation_of_parseProduct hnext
      have := d.isSuffix.length_le
      exact continueSum_settled _ (by simp only [Level.cost]; omega)
    · rw [hdone, hdone]

theorem parseProduct_settled {fuel : Nat} {tokens : List (Token α)}
    (h : 7 * tokens.length + Level.product.cost ≤ fuel) :
    parseProduct (fuel + 1) tokens = parseProduct fuel tokens := by
  simp only [Level.cost] at h
  cases fuel with
  | zero => omega
  | succ fuel =>
    rw [parseProduct_succ, parseProduct_succ,
      parseSigned_settled (by simp only [Level.cost]; omega)]
    refine bind_congr_of_ok ?_
    intro first hfirst
    obtain ⟨d, _⟩ := derivation_of_parseSigned hfirst
    have := d.isSuffix.length_le
    exact continueProduct_settled _ (by simp only [Level.cost]; omega)

theorem continueProduct_settled {fuel : Nat} {tokens : List (Token α)} (left : Expr α)
    (h : 7 * tokens.length + Level.factors.cost ≤ fuel) :
    continueProduct (fuel + 1) left tokens = continueProduct fuel left tokens := by
  simp only [Level.cost] at h
  cases fuel with
  | zero => omega
  | succ fuel =>
    rcases continueProduct_cases tokens with ⟨op, rest, hop, rfl⟩ | hdone
    · rw [List.length_cons] at h
      rw [continueProduct_factor hop, continueProduct_factor hop,
        parseSigned_settled (by simp only [Level.cost]; omega)]
      refine bind_congr_of_ok ?_
      intro next hnext
      obtain ⟨d, _⟩ := derivation_of_parseSigned hnext
      have := d.isSuffix.length_le
      exact continueProduct_settled _ (by simp only [Level.cost]; omega)
    · rw [hdone, hdone]

theorem parseSigned_settled {fuel : Nat} {tokens : List (Token α)}
    (h : 7 * tokens.length + Level.signed.cost ≤ fuel) :
    parseSigned (fuel + 1) tokens = parseSigned fuel tokens := by
  simp only [Level.cost] at h
  cases fuel with
  | zero => omega
  | succ fuel =>
    rcases parseSigned_cases tokens with ⟨rest, rfl⟩ | ⟨rest, rfl⟩ | hpower
    · rw [List.length_cons] at h
      rw [parseSigned_minus, parseSigned_minus,
        parseSigned_settled (by simp only [Level.cost]; omega)]
    · rw [List.length_cons] at h
      rw [parseSigned_plus, parseSigned_plus,
        parseSigned_settled (by simp only [Level.cost]; omega)]
    · rw [hpower, hpower, parsePower_settled (by simp only [Level.cost]; omega)]

theorem parsePower_settled {fuel : Nat} {tokens : List (Token α)}
    (h : 7 * tokens.length + Level.power.cost ≤ fuel) :
    parsePower (fuel + 1) tokens = parsePower fuel tokens := by
  simp only [Level.cost] at h
  cases fuel with
  | zero => omega
  | succ fuel =>
    rw [parsePower_succ, parsePower_succ,
      parseOperand_settled (by simp only [Level.cost]; omega)]
    refine bind_congr_of_ok ?_
    rintro ⟨base, rest⟩ hbase
    obtain ⟨d, _⟩ := derivation_of_parseOperand hbase
    have hle := d.isSuffix.length_le
    rcases continuePower_cases rest with ⟨tokens, rfl⟩ | hdone
    · simp only [List.length_cons] at hle
      have hexponent : parseSigned (fuel + 1) tokens = parseSigned fuel tokens :=
        parseSigned_settled (by simp only [Level.cost]; omega)
      simp only [continuePower, hexponent]
    · simp only [hdone]

theorem parseOperand_settled {fuel : Nat} {tokens : List (Token α)}
    (h : 7 * tokens.length + Level.operand.cost ≤ fuel) :
    parseOperand (fuel + 1) tokens = parseOperand fuel tokens := by
  simp only [Level.cost] at h
  cases fuel with
  | zero => omega
  | succ fuel =>
    cases tokens with
    | nil => rfl
    | cons token rest =>
      rw [List.length_cons] at h
      cases token with
      | operator op => rfl
      | closing => rfl
      | number value => rfl
      | opening =>
        rw [parseOperand_group, parseOperand_group,
          parseSum_settled (by simp only [Level.cost]; omega)]
      | identifier name =>
        by_cases hnext : rest.head? = some .opening
        · obtain ⟨tokens, rfl⟩ := List.head?_eq_some_iff.mp hnext
          rw [List.length_cons] at h
          cases hname : Function.ofName? name with
          | none => simp only [parseOperand, hname]
          | some function =>
            rw [parseOperand_call hname, parseOperand_call hname,
              parseSum_settled (by simp only [Level.cost]; omega)]
        · rw [parseOperand_var name hnext, parseOperand_var name hnext]

end

/-- The answer does not change with more fuel than the tokens bring along. -/
theorem parseSum_of_parseFuel_le (h : parseFuel tokens ≤ fuel) :
    parseSum fuel tokens = parseSum (parseFuel tokens) tokens := by
  induction h with
  | refl => rfl
  | step hle ih =>
    rw [← ih]
    refine parseSum_settled ?_
    simp only [parseFuel, Nat.le_eq] at hle
    simp only [Level.cost]
    omega

/-! What is derived is accepted -/

/-- The parser of a level gives a reading and the tokens behind it; what follows a
first term or factor is read behind any tree. -/
def Level.Gives (fuel : Nat) (tokens rest : List (Token α)) : (l : Level) → l.Reading α → Prop
  | .sum, tree => parseSum fuel tokens = .ok (tree, rest)
  | .terms, grow => ∀ left, continueSum fuel left tokens = .ok (grow left, rest)
  | .product, tree => parseProduct fuel tokens = .ok (tree, rest)
  | .factors, grow => ∀ left, continueProduct fuel left tokens = .ok (grow left, rest)
  | .signed, tree => parseSigned fuel tokens = .ok (tree, rest)
  | .power, tree => parsePower fuel tokens = .ok (tree, rest)
  | .operand, tree => parseOperand fuel tokens = .ok (tree, rest)

theorem continueSum_of_stops (h : Level.terms.Stops tokens) (left : Expr α) :
    continueSum (fuel + 1) left tokens = .ok (left, tokens) := by
  rcases continueSum_cases tokens with ⟨op, rest, hop, rfl⟩ | hdone
  · exact absurd h (Derivation.not_stops_at_term hop)
  · exact hdone fuel left

theorem continueProduct_of_stops (h : Level.factors.Stops tokens) (left : Expr α) :
    continueProduct (fuel + 1) left tokens = .ok (left, tokens) := by
  rcases continueProduct_cases tokens with ⟨op, rest, hop, rfl⟩ | hdone
  · exact absurd h (Derivation.not_stops_at_factor hop)
  · exact hdone fuel left

theorem parseSigned_of_power (d : Derivation .power tokens rest) :
    parseSigned (fuel + 1) tokens = parsePower fuel tokens := by
  rcases parseSigned_cases tokens with ⟨after, rfl⟩ | ⟨after, rfl⟩ | hpower
  · exact d.not_power_of_operator.elim
  · exact d.not_power_of_operator.elim
  · exact hpower fuel

theorem continuePower_of_stops (h : Level.power.Stops tokens) (base : Expr α) :
    continuePower fuel base tokens = .ok (base, tokens) := by
  rcases continuePower_cases tokens with ⟨rest, rfl⟩ | hdone
  · exact absurd h.not_at_operator (by decide)
  · exact hdone fuel base

theorem exists_succ_of_cost_le {l : Level} {n : Nat} (h : 7 * n + l.cost ≤ fuel) :
    ∃ less, fuel = less + 1 := by
  have hpos : 0 < l.cost := by cases l <;> decide
  exact ⟨fuel - 1, by omega⟩

/-- The parser follows a derivation that stops. -/
theorem gives_of_derivation {l : Level} (d : Derivation l tokens rest) (h : l.Stops rest)
    (hfuel : 7 * tokens.length + l.cost ≤ fuel) : l.Gives fuel tokens rest d.tree := by
  induction d generalizing fuel with
  | sum first more ihf ihm =>
    obtain ⟨fuel, rfl⟩ := exists_succ_of_cost_le hfuel
    have hle := first.isSuffix.length_le
    simp only [Level.cost] at hfuel ihf ihm
    have hfirst : parseProduct fuel _ = .ok (first.tree, _) :=
      ihf (more.stops_of_terms h) (by omega)
    have hmore : ∀ left, continueSum fuel left _ = .ok (more.tree left, _) := ihm h (by omega)
    change parseSum (fuel + 1) _ = _
    rw [parseSum_succ, hfirst]
    exact hmore first.tree
  | noTerm =>
    obtain ⟨fuel, rfl⟩ := exists_succ_of_cost_le hfuel
    exact continueSum_of_stops h
  | term op hop next more ihn ihm =>
    obtain ⟨fuel, rfl⟩ := exists_succ_of_cost_le hfuel
    have hle := next.isSuffix.length_le
    simp only [Level.cost, List.length_cons] at hfuel ihn ihm
    have hnext : parseProduct fuel _ = .ok (next.tree, _) :=
      ihn (more.stops_of_terms h) (by omega)
    have hmore : ∀ left, continueSum fuel left _ = .ok (more.tree left, _) := ihm h (by omega)
    intro left
    rw [continueSum_term hop, hnext]
    exact hmore _
  | product first more ihf ihm =>
    obtain ⟨fuel, rfl⟩ := exists_succ_of_cost_le hfuel
    have hle := first.isSuffix.length_le
    simp only [Level.cost] at hfuel ihf ihm
    have hfirst : parseSigned fuel _ = .ok (first.tree, _) :=
      ihf (more.stops_of_factors h) (by omega)
    have hmore : ∀ left, continueProduct fuel left _ = .ok (more.tree left, _) := ihm h (by omega)
    change parseProduct (fuel + 1) _ = _
    rw [parseProduct_succ, hfirst]
    exact hmore first.tree
  | noFactor =>
    obtain ⟨fuel, rfl⟩ := exists_succ_of_cost_le hfuel
    exact continueProduct_of_stops h
  | factor op hop next more ihn ihm =>
    obtain ⟨fuel, rfl⟩ := exists_succ_of_cost_le hfuel
    have hle := next.isSuffix.length_le
    simp only [Level.cost, List.length_cons] at hfuel ihn ihm
    have hnext : parseSigned fuel _ = .ok (next.tree, _) :=
      ihn (more.stops_of_factors h) (by omega)
    have hmore : ∀ left, continueProduct fuel left _ = .ok (more.tree left, _) := ihm h (by omega)
    intro left
    rw [continueProduct_factor hop, hnext]
    exact hmore _
  | minus inner ih =>
    obtain ⟨fuel, rfl⟩ := exists_succ_of_cost_le hfuel
    simp only [Level.cost, List.length_cons] at hfuel ih
    have hinner : parseSigned fuel _ = .ok (inner.tree, _) := ih h (by omega)
    change parseSigned (fuel + 1) _ = _
    rw [parseSigned_minus, hinner]
    rfl
  | plus inner ih =>
    obtain ⟨fuel, rfl⟩ := exists_succ_of_cost_le hfuel
    simp only [Level.cost, List.length_cons] at hfuel ih
    exact ih h (by omega)
  | unsigned inner ih =>
    obtain ⟨fuel, rfl⟩ := exists_succ_of_cost_le hfuel
    simp only [Level.cost] at hfuel ih
    have hinner : parsePower fuel _ = .ok (inner.tree, _) := ih h (by omega)
    exact (parseSigned_of_power inner).trans hinner
  | base inner ih =>
    obtain ⟨fuel, rfl⟩ := exists_succ_of_cost_le hfuel
    simp only [Level.cost] at hfuel ih
    have hinner : parseOperand fuel _ = .ok (inner.tree, _) := ih (h.mono (by decide)) (by omega)
    change parsePower (fuel + 1) _ = _
    rw [parsePower_succ, hinner]
    exact continuePower_of_stops h _
  | raised inner exponent ihi ihe =>
    obtain ⟨fuel, rfl⟩ := exists_succ_of_cost_le hfuel
    have hle := inner.isSuffix.length_le
    simp only [Level.cost, List.length_cons] at hfuel hle ihi ihe
    have hinner : parseOperand fuel _ = .ok (inner.tree, _) :=
      ihi (Level.Stops.at_operator (by decide)) (by omega)
    have hexponent : parseSigned fuel _ = .ok (exponent.tree, _) := ihe h (by omega)
    change parsePower (fuel + 1) _ = _
    rw [parsePower_succ, hinner]
    change (parseSigned fuel _ >>= fun exponent => _) = _
    rw [hexponent]
    rfl
  | number value =>
    obtain ⟨fuel, rfl⟩ := exists_succ_of_cost_le hfuel
    rfl
  | var name hnext =>
    obtain ⟨fuel, rfl⟩ := exists_succ_of_cost_le hfuel
    exact parseOperand_var name hnext
  | call function hname argument ih =>
    obtain ⟨fuel, rfl⟩ := exists_succ_of_cost_le hfuel
    simp only [Level.cost, List.length_cons] at hfuel ih
    have hargument : parseSum fuel _ = .ok (argument.tree, _) :=
      ih (Level.Stops.at_closing _ _) (by omega)
    change parseOperand (fuel + 1) _ = _
    rw [parseOperand_call hname, hargument]
    rfl
  | group inner ih =>
    obtain ⟨fuel, rfl⟩ := exists_succ_of_cost_le hfuel
    simp only [Level.cost, List.length_cons] at hfuel ih
    have hinner : parseSum fuel _ = .ok (inner.tree, _) :=
      ih (Level.Stops.at_closing _ _) (by omega)
    change parseOperand (fuel + 1) _ = _
    rw [parseOperand_group, hinner]
    rfl

/-! Whole texts -/

/-- No tree is read from no tokens. -/
theorem not_derivation_nil (d : Derivation .sum ([] : List (Token α)) []) : False := by
  have hparsed : parseSum 5 [] = .ok (d.tree, []) :=
    gives_of_derivation d (Level.Stops.at_end _) (Nat.le_refl _)
  cases hparsed

theorem ofTokens_eq_ok_iff {root : Expr α} :
    ofTokens tokens = .ok root ↔ ∃ d : Derivation .sum tokens [], d.tree = root := by
  unfold ofTokens
  cases tokens with
  | nil =>
    constructor
    · intro h
      cases h
    · rintro ⟨d, _⟩
      exact (not_derivation_nil d).elim
  | cons token rest =>
    constructor
    · intro h
      obtain ⟨⟨tree, after⟩, hparsed, hend⟩ := bind_eq_ok.mp h
      obtain ⟨d, hd⟩ := derivation_of_parseSum hparsed
      cases after with
      | nil =>
        cases hend
        exact ⟨d, hd⟩
      | cons token after => cases hend
    · rintro ⟨d, rfl⟩
      have hparsed : parseSum (parseFuel (token :: rest)) (token :: rest) = .ok (d.tree, []) := by
        refine gives_of_derivation d (Level.Stops.at_end _) ?_
        simp only [parseFuel, Level.cost]
        omega
      exact bind_eq_ok.mpr ⟨(d.tree, []), hparsed, rfl⟩

theorem ofText_of_scan {literal? : List Char → Option α} {text : String}
    (h : Token.scan literal? text = .ok tokens) : ofText literal? text = ofTokens tokens := by
  unfold ofText
  rw [h]
  rfl

end Expr

namespace Formula

open SignalMap.Expr

theorem parse_of_scan {source : String} {tokens : List (Token Float)}
    (h : Token.scan Numeric.readDecimal? source = .ok tokens) :
    parse source = (ofTokens tokens >>= fun root => .ok ⟨Text.trim source, root⟩) := by
  unfold parse
  rw [ofText_of_scan h]
  rfl

/-- A text is an expression if and only if its tokens have a derivation. There is
only one then, and it makes the tree; otherwise there is a fault. The answer
does not come from running out of fuel. -/
theorem parse_iff_derivation {source : String} {tokens : List (Token Float)}
    (hscan : Token.scan Numeric.readDecimal? source = .ok tokens) :
    ((∃ f, parse source = .ok f) ↔ Nonempty (Derivation .sum tokens [])) ∧
      (∀ d : Derivation .sum tokens [],
        (∀ other, other = d) ∧ parse source = .ok ⟨Text.trim source, d.tree⟩) ∧
      (¬ Nonempty (Derivation .sum tokens []) → ∃ fault, parse source = .error fault) ∧
      ∀ fuel, parseFuel tokens ≤ fuel →
        parseSum fuel tokens = parseSum (parseFuel tokens) tokens := by
  have hparse : parse source =
      (ofTokens tokens >>= fun root => .ok ⟨Text.trim source, root⟩) := by
    unfold parse
    rw [ofText_of_scan hscan]
    rfl
  have hderived : ∀ d : Derivation .sum tokens [],
      parse source = .ok ⟨Text.trim source, d.tree⟩ := by
    intro d
    rw [hparse, ofTokens_eq_ok_iff.mpr ⟨d, rfl⟩]
    rfl
  have haccepted : ∀ f, parse source = .ok f → Nonempty (Derivation .sum tokens []) := by
    intro f h
    rw [hparse] at h
    obtain ⟨root, hroot, _⟩ := bind_eq_ok.mp h
    obtain ⟨d, _⟩ := ofTokens_eq_ok_iff.mp hroot
    exact ⟨d⟩
  refine ⟨⟨?_, ?_⟩, ?_, ?_, ?_⟩
  · rintro ⟨f, h⟩
    exact haccepted f h
  · rintro ⟨d⟩
    exact ⟨_, hderived d⟩
  · intro d
    refine ⟨?_, hderived d⟩
    intro other
    cases other.unique d (Level.Stops.at_end _) (Level.Stops.at_end _)
    rfl
  · intro hnone
    cases h : parse source with
    | error fault => exact ⟨fault, rfl⟩
    | ok f => exact absurd (haccepted f h) hnone
  · intro fuel hle
    exact parseSum_of_parseFuel_le hle

def signedPower : List (Token Float) :=
  [.operator .subtract, .identifier "x", .operator .power, .operator .add, .identifier "y",
    .operator .multiply, .identifier "ln", .opening, .identifier "z", .closing]

def signedPowerDerivation : Derivation .sum signedPower [] :=
  .sum
    (.product
      (.minus (.unsigned (.raised (.var "x" nofun) (.plus (.unsigned (.base (.var "y" nofun)))))))
      (.factor .multiply BinaryOperator.isFactor_multiply
        (.unsigned (.base (.call .log rfl
          (.sum (.product (.unsigned (.base (.var "z" nofun))) .noFactor) .noTerm))))
        .noFactor))
    .noTerm

theorem parse_signedPower_iff_derivation :
    Token.scan Numeric.readDecimal? "-x^+y * ln(z)" = .ok signedPower ∧
      (∀ other, other = signedPowerDerivation) ∧
      parse "-x^+y * ln(z)" = .ok ⟨"-x^+y * ln(z)", .binary .multiply
        (.negate (.binary .power (.var "x") (.var "y"))) (.call .log (.var "z"))⟩ := by
  have hargument : Token.Scans Numeric.readDecimal? ("z".toList ++ [')'])
      [.identifier "z", .closing] :=
    (Token.scans_nil.ofChar rfl).name (Token.separated_cons _ rfl (by decide)) (by decide)
  have hcall : Token.Scans Numeric.readDecimal? ("ln".toList ++ '(' :: ("z".toList ++ [')']))
      [.identifier "ln", .opening, .identifier "z", .closing] :=
    (hargument.ofChar rfl).name (Token.separated_cons _ rfl (by decide)) (by decide)
  have hexponent : Token.Scans Numeric.readDecimal? ("y".toList ++ " * ln(z)".toList)
      [.identifier "y", .operator .multiply, .identifier "ln", .opening, .identifier "z",
        .closing] :=
    (hcall.space.ofChar rfl).space.name (Token.separated_cons _ rfl (by decide)) (by decide)
  have hbase : Token.Scans Numeric.readDecimal? ("x".toList ++ "^+y * ln(z)".toList)
      [.identifier "x", .operator .power, .operator .add, .identifier "y", .operator .multiply,
        .identifier "ln", .opening, .identifier "z", .closing] :=
    ((hexponent.ofChar rfl).ofChar rfl).name (Token.separated_cons _ rfl (by decide)) (by decide)
  have hscan : Token.scan Numeric.readDecimal? "-x^+y * ln(z)" = .ok signedPower :=
    (hbase.ofChar rfl) 0
  have htrim : Text.trim "-x^+y * ln(z)" = "-x^+y * ln(z)" := by decide
  obtain ⟨_, hderived, _⟩ := parse_iff_derivation hscan
  obtain ⟨honly, hparse⟩ := hderived signedPowerDerivation
  rw [htrim] at hparse
  exact ⟨hscan, honly, hparse⟩

end Formula

end SignalMap
