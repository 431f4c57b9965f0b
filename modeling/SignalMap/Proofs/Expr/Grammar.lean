import SignalMap.Expr.Parser

/-!
The grammar of expressions. A derivation at a level reads tokens up to a rest; it
is kept as data, so that it can be asked how many derivations there are. An
operator that binds at least as tightly as a level would go on with what the
level has read, and of derivations that stop short of such operators there is at
most one.
-/

namespace SignalMap

def BinaryOperator.strength : BinaryOperator → Nat
  | .add => 1
  | .subtract => 1
  | .multiply => 2
  | .divide => 2
  | .power => 3

namespace BinaryOperator

theorem isTerm_add : add = .add ∨ add = .subtract := Or.inl rfl

theorem isTerm_subtract : subtract = .add ∨ subtract = .subtract := Or.inr rfl

theorem isFactor_multiply : multiply = .multiply ∨ multiply = .divide := Or.inl rfl

theorem isFactor_divide : divide = .multiply ∨ divide = .divide := Or.inr rfl

end BinaryOperator

namespace Expr

/-- The levels of the grammar. The terms behind the first one of a sum, and the
factors behind the first one of a product, make levels of their own. -/
inductive Level where
  | sum
  | terms
  | product
  | factors
  | signed
  | power
  | operand

namespace Level

def strength : Level → Nat
  | sum => 1
  | terms => 1
  | product => 2
  | factors => 2
  | signed => 3
  | power => 3
  | operand => 4

/-- What is read at a level: a tree, or for what follows a first term or factor
the tree that it makes of the tree before it. -/
def Reading (α : Type) : Level → Type
  | sum => Expr α
  | terms => Expr α → Expr α
  | product => Expr α
  | factors => Expr α → Expr α
  | signed => Expr α
  | power => Expr α
  | operand => Expr α

end Level

variable {α : Type}

inductive Derivation : Level → List (Token α) → List (Token α) → Type where
  | sum {tokens middle rest} : Derivation .product tokens middle →
      Derivation .terms middle rest → Derivation .sum tokens rest
  | noTerm {rest} : Derivation .terms rest rest
  | term {tokens middle rest} (op : BinaryOperator) (h : op = .add ∨ op = .subtract) :
      Derivation .product tokens middle → Derivation .terms middle rest →
        Derivation .terms (.operator op :: tokens) rest
  | product {tokens middle rest} : Derivation .signed tokens middle →
      Derivation .factors middle rest → Derivation .product tokens rest
  | noFactor {rest} : Derivation .factors rest rest
  | factor {tokens middle rest} (op : BinaryOperator) (h : op = .multiply ∨ op = .divide) :
      Derivation .signed tokens middle → Derivation .factors middle rest →
        Derivation .factors (.operator op :: tokens) rest
  | minus {tokens rest} : Derivation .signed tokens rest →
      Derivation .signed (.operator .subtract :: tokens) rest
  | plus {tokens rest} : Derivation .signed tokens rest →
      Derivation .signed (.operator .add :: tokens) rest
  | unsigned {tokens rest} : Derivation .power tokens rest → Derivation .signed tokens rest
  | base {tokens rest} : Derivation .operand tokens rest → Derivation .power tokens rest
  | raised {tokens middle rest} : Derivation .operand tokens (.operator .power :: middle) →
      Derivation .signed middle rest → Derivation .power tokens rest
  | number {rest} (value : α) : Derivation .operand (.number value :: rest) rest
  | var {rest} (name : String) (h : rest.head? ≠ some .opening) :
      Derivation .operand (.identifier name :: rest) rest
  | call {name tokens rest} (function : Function) (h : Function.ofName? name = some function) :
      Derivation .sum tokens (.closing :: rest) →
        Derivation .operand (.identifier name :: .opening :: tokens) rest
  | group {tokens rest} : Derivation .sum tokens (.closing :: rest) →
      Derivation .operand (.opening :: tokens) rest

def Level.Stops (l : Level) (rest : List (Token α)) : Prop :=
  ∀ op, rest.head? = some (.operator op) → op.strength < l.strength

namespace Level.Stops

variable {l : Level} {rest : List (Token α)}

theorem mono {tighter : Level} (h : l.Stops rest) (hle : l.strength ≤ tighter.strength) :
    tighter.Stops rest := by
  intro op hop
  exact Nat.lt_of_lt_of_le (h op hop) hle

theorem at_end (l : Level) : l.Stops ([] : List (Token α)) := by
  intro op hop
  cases hop

theorem at_closing (l : Level) (rest : List (Token α)) : l.Stops (.closing :: rest) := by
  intro op hop
  cases hop

theorem at_operator {op : BinaryOperator} (h : op.strength < l.strength) :
    l.Stops (.operator op :: rest) := by
  intro op' hop
  cases hop
  exact h

theorem not_at_operator {op : BinaryOperator} (h : l.Stops (.operator op :: rest)) :
    op.strength < l.strength :=
  h op rfl

end Level.Stops

namespace Derivation

variable {l : Level} {tokens rest : List (Token α)}

/-- Sums and products are built from the left; a plus sign and parentheses add
nothing. -/
def tree {l : Level} {tokens rest : List (Token α)} : Derivation l tokens rest → l.Reading α
  | sum first more => more.tree first.tree
  | noTerm => id
  | term op _ next more => fun left => more.tree (.binary op left next.tree)
  | product first more => more.tree first.tree
  | noFactor => id
  | factor op _ next more => fun left => more.tree (.binary op left next.tree)
  | minus inner => .negate inner.tree
  | plus inner => inner.tree
  | unsigned inner => inner.tree
  | base inner => inner.tree
  | raised inner exponent => .binary .power inner.tree exponent.tree
  | number value => .number value
  | var name _ => .var name
  | call function _ argument => .call function argument.tree
  | group inner => inner.tree

theorem strength_term {op : BinaryOperator} (h : op = .add ∨ op = .subtract) :
    op.strength = 1 := by
  rcases h with rfl | rfl <;> rfl

theorem strength_factor {op : BinaryOperator} (h : op = .multiply ∨ op = .divide) :
    op.strength = 2 := by
  rcases h with rfl | rfl <;> rfl

theorem not_stops_at_term {op : BinaryOperator} (h : op = .add ∨ op = .subtract) :
    ¬ Level.terms.Stops (.operator op :: tokens) := by
  intro hstops
  have hlt := hstops.not_at_operator
  rw [strength_term h] at hlt
  exact absurd hlt (by decide)

theorem not_stops_at_factor {op : BinaryOperator} (h : op = .multiply ∨ op = .divide) :
    ¬ Level.factors.Stops (.operator op :: tokens) := by
  intro hstops
  have hlt := hstops.not_at_operator
  rw [strength_factor h] at hlt
  exact absurd hlt (by decide)

/-- Where the terms of a sum begin, a product stops. -/
theorem stops_of_terms {middle : List (Token α)} (d : Derivation .terms middle rest)
    (h : Level.sum.Stops rest) : Level.product.Stops middle := by
  cases d with
  | noTerm => exact h.mono (by decide)
  | term op hop next more =>
    refine Level.Stops.at_operator ?_
    rw [strength_term hop]
    decide

/-- Where the factors of a product begin, a signed operand stops. -/
theorem stops_of_factors {middle : List (Token α)} (d : Derivation .factors middle rest)
    (h : Level.product.Stops rest) : Level.signed.Stops middle := by
  cases d with
  | noFactor => exact h.mono (by decide)
  | factor op hop next more =>
    refine Level.Stops.at_operator ?_
    rw [strength_factor hop]
    decide

/-- Whatever is read is a part in front of the tokens. -/
theorem isSuffix (d : Derivation l tokens rest) : rest <:+ tokens := by
  induction d with
  | sum first more ihf ihm => exact ihm.trans ihf
  | noTerm => exact List.suffix_rfl
  | term op h next more ihn ihm => exact (ihm.trans ihn).trans (List.suffix_cons _ _)
  | product first more ihf ihm => exact ihm.trans ihf
  | noFactor => exact List.suffix_rfl
  | factor op h next more ihn ihm => exact (ihm.trans ihn).trans (List.suffix_cons _ _)
  | minus inner ih => exact ih.trans (List.suffix_cons _ _)
  | plus inner ih => exact ih.trans (List.suffix_cons _ _)
  | unsigned inner ih => exact ih
  | base inner ih => exact ih
  | raised inner exponent ihi ihe => exact ihe.trans ((List.suffix_cons _ _).trans ihi)
  | number value => exact List.suffix_cons _ _
  | var name h => exact List.suffix_cons _ _
  | call function h argument ih =>
    refine (List.suffix_cons _ _).trans (ih.trans ?_)
    exact (List.suffix_cons _ _).trans (List.suffix_cons _ _)
  | group inner ih => exact (List.suffix_cons _ _).trans (ih.trans (List.suffix_cons _ _))

/-- No operand begins with an operator. -/
theorem not_operand_of_operator {op : BinaryOperator}
    (d : Derivation .operand (.operator op :: tokens) rest) : False := by
  cases d

theorem not_power_of_operator {op : BinaryOperator}
    (d : Derivation .power (.operator op :: tokens) rest) : False := by
  cases d with
  | base inner => exact inner.not_operand_of_operator
  | raised inner exponent => exact inner.not_operand_of_operator

/-- Two derivations that read the same tokens and both stop are the same, with
the same rest. -/
theorem unique {rest' : List (Token α)} (d : Derivation l tokens rest)
    (d' : Derivation l tokens rest') (h : l.Stops rest) (h' : l.Stops rest') :
    (⟨rest, d⟩ : Σ r, Derivation l tokens r) = ⟨rest', d'⟩ := by
  induction d generalizing rest' with
  | sum first more ihf ihm =>
    cases d' with
    | sum first' more' =>
      cases ihf first' (more.stops_of_terms h) (more'.stops_of_terms h')
      cases ihm more' h h'
      rfl
  | noTerm =>
    cases d' with
    | noTerm => rfl
    | term op hop next more => exact absurd h (not_stops_at_term hop)
  | term op hop next more ihn ihm =>
    cases d' with
    | noTerm => exact absurd h' (not_stops_at_term hop)
    | term _ _ next' more' =>
      cases ihn next' (more.stops_of_terms h) (more'.stops_of_terms h')
      cases ihm more' h h'
      rfl
  | product first more ihf ihm =>
    cases d' with
    | product first' more' =>
      cases ihf first' (more.stops_of_factors h) (more'.stops_of_factors h')
      cases ihm more' h h'
      rfl
  | noFactor =>
    cases d' with
    | noFactor => rfl
    | factor op hop next more => exact absurd h (not_stops_at_factor hop)
  | factor op hop next more ihn ihm =>
    cases d' with
    | noFactor => exact absurd h' (not_stops_at_factor hop)
    | factor _ _ next' more' =>
      cases ihn next' (more.stops_of_factors h) (more'.stops_of_factors h')
      cases ihm more' h h'
      rfl
  | minus inner ih =>
    cases d' with
    | minus inner' =>
      cases ih inner' h h'
      rfl
    | unsigned inner' => exact inner'.not_power_of_operator.elim
  | plus inner ih =>
    cases d' with
    | plus inner' =>
      cases ih inner' h h'
      rfl
    | unsigned inner' => exact inner'.not_power_of_operator.elim
  | unsigned inner ih =>
    cases d' with
    | minus inner' => exact inner.not_power_of_operator.elim
    | plus inner' => exact inner.not_power_of_operator.elim
    | unsigned inner' =>
      cases ih inner' h h'
      rfl
  | base inner ih =>
    cases d' with
    | base inner' =>
      cases ih inner' (h.mono (by decide)) (h'.mono (by decide))
      rfl
    | raised inner' exponent =>
      cases ih inner' (h.mono (by decide)) (Level.Stops.at_operator (by decide))
      exact absurd h.not_at_operator (by decide)
  | raised inner exponent ihi ihe =>
    cases d' with
    | base inner' =>
      cases ihi inner' (Level.Stops.at_operator (by decide)) (h'.mono (by decide))
      exact absurd h'.not_at_operator (by decide)
    | raised inner' exponent' =>
      cases ihi inner' (Level.Stops.at_operator (by decide)) (Level.Stops.at_operator (by decide))
      cases ihe exponent' h h'
      rfl
  | number value =>
    cases d' with
    | number => rfl
  | var name hnext =>
    cases d' with
    | var => rfl
    | call => exact absurd rfl hnext
  | call function hname argument ih =>
    cases d' with
    | var _ hnext => exact absurd rfl hnext
    | call function' hname' argument' =>
      cases hname.symm.trans hname'
      cases ih argument' (Level.Stops.at_closing _ _) (Level.Stops.at_closing _ _)
      rfl
  | group inner ih =>
    cases d' with
    | group inner' =>
      cases ih inner' (Level.Stops.at_closing _ _) (Level.Stops.at_closing _ _)
      rfl

end Derivation

end Expr

end SignalMap
