import SignalMap.Proofs.Expr.Grammar
import SignalMap.Proofs.Result

/-!
Whatever the parser accepts has a derivation. The steps of the parser come first,
one equation a step: it goes on with what the next token begins, or it is done.
-/

namespace SignalMap

namespace Expr

variable {α : Type} {fuel : Nat} {tokens rest : List (Token α)} {p : Parsed α}

/-! One step of the parser -/

theorem parseSum_succ : parseSum (fuel + 1) tokens =
    parseProduct fuel tokens >>= fun first => continueSum fuel first.1 first.2 := rfl

theorem continueSum_term {op : BinaryOperator} (h : op = .add ∨ op = .subtract)
    (left : Expr α) : continueSum (fuel + 1) left (.operator op :: tokens) =
      parseProduct fuel tokens >>= fun next =>
        continueSum fuel (.binary op left next.1) next.2 := by
  rcases h with rfl | rfl <;> rfl

/-- A sum goes on with a term, or it is done. -/
theorem continueSum_cases (tokens : List (Token α)) :
    (∃ op rest, (op = .add ∨ op = .subtract) ∧ tokens = .operator op :: rest) ∨
      ∀ fuel left, continueSum (fuel + 1) left tokens = .ok (left, tokens) := by
  rcases tokens with _ | ⟨⟨⟩ | ⟨⟩ | (_ | _ | _ | _ | _) | _ | _, rest⟩
  case cons.operator.add => exact Or.inl ⟨.add, rest, Or.inl rfl, rfl⟩
  case cons.operator.subtract => exact Or.inl ⟨.subtract, rest, Or.inr rfl, rfl⟩
  all_goals exact Or.inr fun _ _ => rfl

theorem parseProduct_succ : parseProduct (fuel + 1) tokens =
    parseSigned fuel tokens >>= fun first => continueProduct fuel first.1 first.2 := rfl

theorem continueProduct_factor {op : BinaryOperator} (h : op = .multiply ∨ op = .divide)
    (left : Expr α) : continueProduct (fuel + 1) left (.operator op :: tokens) =
      parseSigned fuel tokens >>= fun next =>
        continueProduct fuel (.binary op left next.1) next.2 := by
  rcases h with rfl | rfl <;> rfl

theorem continueProduct_cases (tokens : List (Token α)) :
    (∃ op rest, (op = .multiply ∨ op = .divide) ∧ tokens = .operator op :: rest) ∨
      ∀ fuel left, continueProduct (fuel + 1) left tokens = .ok (left, tokens) := by
  rcases tokens with _ | ⟨⟨⟩ | ⟨⟩ | (_ | _ | _ | _ | _) | _ | _, rest⟩
  case cons.operator.multiply => exact Or.inl ⟨.multiply, rest, Or.inl rfl, rfl⟩
  case cons.operator.divide => exact Or.inl ⟨.divide, rest, Or.inr rfl, rfl⟩
  all_goals exact Or.inr fun _ _ => rfl

theorem parseSigned_minus : parseSigned (fuel + 1) (.operator .subtract :: tokens) =
    parseSigned fuel tokens >>= fun inner => .ok (.negate inner.1, inner.2) := rfl

theorem parseSigned_plus : parseSigned (fuel + 1) (.operator .add :: tokens) =
    parseSigned fuel tokens := rfl

theorem parseSigned_cases (tokens : List (Token α)) :
    (∃ rest, tokens = .operator .subtract :: rest) ∨ (∃ rest, tokens = .operator .add :: rest) ∨
      ∀ fuel, parseSigned (fuel + 1) tokens = parsePower fuel tokens := by
  rcases tokens with _ | ⟨⟨⟩ | ⟨⟩ | (_ | _ | _ | _ | _) | _ | _, rest⟩
  case cons.operator.subtract => exact Or.inl ⟨rest, rfl⟩
  case cons.operator.add => exact Or.inr (Or.inl ⟨rest, rfl⟩)
  all_goals exact Or.inr (Or.inr fun _ => rfl)

def continuePower (fuel : Nat) (base : Expr α) :
    List (Token α) → Except (ExprFault α) (Parsed α)
  | .operator .power :: tokens =>
    parseSigned fuel tokens >>= fun exponent => .ok (.binary .power base exponent.1, exponent.2)
  | tokens => .ok (base, tokens)

theorem parsePower_succ : parsePower (fuel + 1) tokens =
    parseOperand fuel tokens >>= fun base => continuePower fuel base.1 base.2 := by
  unfold parsePower
  refine bind_congr ?_
  rintro ⟨base, rest⟩
  rcases rest with _ | ⟨⟨⟩ | ⟨⟩ | (_ | _ | _ | _ | _) | _ | _, rest⟩ <;> rfl

theorem continuePower_cases (tokens : List (Token α)) :
    (∃ rest, tokens = .operator .power :: rest) ∨
      ∀ fuel base, continuePower fuel base tokens = .ok (base, tokens) := by
  rcases tokens with _ | ⟨⟨⟩ | ⟨⟩ | (_ | _ | _ | _ | _) | _ | _, rest⟩
  case cons.operator.power => exact Or.inl ⟨rest, rfl⟩
  all_goals exact Or.inr fun _ _ => rfl

theorem parseOperand_var (name : String) (h : rest.head? ≠ some .opening) :
    parseOperand (fuel + 1) (.identifier name :: rest) = .ok (.var name, rest) := by
  rcases rest with _ | ⟨_ | _ | _ | _ | _, rest⟩
  case cons.opening => exact absurd rfl h
  all_goals rfl

theorem parseOperand_call {name : String} {function : Function}
    (h : Function.ofName? name = some function) :
    parseOperand (fuel + 1) (.identifier name :: .opening :: tokens) =
      parseSum fuel tokens >>= fun argument =>
        expectClosing argument.2 >>= fun rest => .ok (.call function argument.1, rest) := by
  unfold parseOperand
  simp only [h]
  rfl

theorem parseOperand_group : parseOperand (fuel + 1) (.opening :: tokens) =
    parseSum fuel tokens >>= fun inner =>
      expectClosing inner.2 >>= fun rest => .ok (inner.1, rest) := rfl

theorem expectClosing_eq_ok : expectClosing tokens = .ok rest ↔ tokens = .closing :: rest := by
  rcases tokens with _ | ⟨_ | _ | _ | _ | _, tokens⟩
  case cons.closing => simp [expectClosing]
  all_goals simp [expectClosing, unexpected]

/-! What is accepted is derived -/

mutual

theorem derivation_of_parseSum {fuel : Nat} {tokens : List (Token α)} {p : Parsed α}
    (h : parseSum fuel tokens = .ok p) :
    ∃ d : Derivation .sum tokens p.2, d.tree = p.1 := by
  cases fuel with
  | zero => cases h
  | succ fuel =>
    rw [parseSum_succ] at h
    obtain ⟨first, hfirst, hmore⟩ := bind_eq_ok.mp h
    obtain ⟨d, hd⟩ := derivation_of_parseProduct hfirst
    obtain ⟨more, htree⟩ := derivation_of_continueSum hmore
    refine ⟨.sum d more, ?_⟩
    rw [← htree, ← hd]
    rfl

theorem derivation_of_continueSum {fuel : Nat} {tokens : List (Token α)} {p : Parsed α}
    {left : Expr α} (h : continueSum fuel left tokens = .ok p) :
    ∃ d : Derivation .terms tokens p.2, d.tree left = p.1 := by
  cases fuel with
  | zero =>
    cases h
    exact ⟨.noTerm, rfl⟩
  | succ fuel =>
    rcases continueSum_cases tokens with ⟨op, rest, hop, rfl⟩ | hdone
    · rw [continueSum_term hop] at h
      obtain ⟨next, hnext, hmore⟩ := bind_eq_ok.mp h
      obtain ⟨d, hd⟩ := derivation_of_parseProduct hnext
      obtain ⟨more, htree⟩ := derivation_of_continueSum hmore
      refine ⟨.term op hop d more, ?_⟩
      rw [← htree, ← hd]
      rfl
    · rw [hdone] at h
      cases h
      exact ⟨.noTerm, rfl⟩

theorem derivation_of_parseProduct {fuel : Nat} {tokens : List (Token α)} {p : Parsed α}
    (h : parseProduct fuel tokens = .ok p) :
    ∃ d : Derivation .product tokens p.2, d.tree = p.1 := by
  cases fuel with
  | zero => cases h
  | succ fuel =>
    rw [parseProduct_succ] at h
    obtain ⟨first, hfirst, hmore⟩ := bind_eq_ok.mp h
    obtain ⟨d, hd⟩ := derivation_of_parseSigned hfirst
    obtain ⟨more, htree⟩ := derivation_of_continueProduct hmore
    refine ⟨.product d more, ?_⟩
    rw [← htree, ← hd]
    rfl

theorem derivation_of_continueProduct {fuel : Nat} {tokens : List (Token α)} {p : Parsed α}
    {left : Expr α}
    (h : continueProduct fuel left tokens = .ok p) :
    ∃ d : Derivation .factors tokens p.2, d.tree left = p.1 := by
  cases fuel with
  | zero =>
    cases h
    exact ⟨.noFactor, rfl⟩
  | succ fuel =>
    rcases continueProduct_cases tokens with ⟨op, rest, hop, rfl⟩ | hdone
    · rw [continueProduct_factor hop] at h
      obtain ⟨next, hnext, hmore⟩ := bind_eq_ok.mp h
      obtain ⟨d, hd⟩ := derivation_of_parseSigned hnext
      obtain ⟨more, htree⟩ := derivation_of_continueProduct hmore
      refine ⟨.factor op hop d more, ?_⟩
      rw [← htree, ← hd]
      rfl
    · rw [hdone] at h
      cases h
      exact ⟨.noFactor, rfl⟩

theorem derivation_of_parseSigned {fuel : Nat} {tokens : List (Token α)} {p : Parsed α}
    (h : parseSigned fuel tokens = .ok p) :
    ∃ d : Derivation .signed tokens p.2, d.tree = p.1 := by
  cases fuel with
  | zero => cases h
  | succ fuel =>
    rcases parseSigned_cases tokens with ⟨rest, rfl⟩ | ⟨rest, rfl⟩ | hpower
    · rw [parseSigned_minus] at h
      obtain ⟨inner, hinner, hresult⟩ := bind_eq_ok.mp h
      cases hresult
      obtain ⟨d, hd⟩ := derivation_of_parseSigned hinner
      exact ⟨.minus d, congrArg Expr.negate hd⟩
    · rw [parseSigned_plus] at h
      obtain ⟨d, hd⟩ := derivation_of_parseSigned h
      exact ⟨.plus d, hd⟩
    · rw [hpower] at h
      obtain ⟨d, hd⟩ := derivation_of_parsePower h
      exact ⟨.unsigned d, hd⟩

theorem derivation_of_parsePower {fuel : Nat} {tokens : List (Token α)} {p : Parsed α}
    (h : parsePower fuel tokens = .ok p) :
    ∃ d : Derivation .power tokens p.2, d.tree = p.1 := by
  cases fuel with
  | zero => cases h
  | succ fuel =>
    rw [parsePower_succ] at h
    obtain ⟨⟨base, rest⟩, hbase, hpower⟩ := bind_eq_ok.mp h
    obtain ⟨d, hd⟩ := derivation_of_parseOperand hbase
    rcases continuePower_cases rest with ⟨tokens, rfl⟩ | hdone
    · obtain ⟨exponent, hexponent, hresult⟩ := bind_eq_ok.mp hpower
      cases hresult
      obtain ⟨e, he⟩ := derivation_of_parseSigned hexponent
      refine ⟨.raised d e, ?_⟩
      rw [← hd, ← he]
      rfl
    · rw [hdone] at hpower
      cases hpower
      exact ⟨.base d, hd⟩

theorem derivation_of_parseOperand {fuel : Nat} {tokens : List (Token α)} {p : Parsed α}
    (h : parseOperand fuel tokens = .ok p) :
    ∃ d : Derivation .operand tokens p.2, d.tree = p.1 := by
  cases fuel with
  | zero => cases h
  | succ fuel =>
    cases tokens with
    | nil => cases h
    | cons token rest =>
      cases token with
      | operator op => cases h
      | closing => cases h
      | number value =>
        cases h
        exact ⟨.number value, rfl⟩
      | opening =>
        rw [parseOperand_group] at h
        obtain ⟨⟨inner, after⟩, hinner, hclosed⟩ := bind_eq_ok.mp h
        obtain ⟨rest, hclosing, hresult⟩ := bind_eq_ok.mp hclosed
        cases hresult
        cases expectClosing_eq_ok.mp hclosing
        obtain ⟨d, hd⟩ := derivation_of_parseSum hinner
        exact ⟨.group d, hd⟩
      | identifier name =>
        by_cases hnext : rest.head? = some .opening
        · obtain ⟨tokens, rfl⟩ := List.head?_eq_some_iff.mp hnext
          cases hname : Function.ofName? name with
          | none => simp [parseOperand, hname] at h
          | some function =>
            rw [parseOperand_call hname] at h
            obtain ⟨⟨argument, after⟩, hargument, hclosed⟩ := bind_eq_ok.mp h
            obtain ⟨rest, hclosing, hresult⟩ := bind_eq_ok.mp hclosed
            cases hresult
            cases expectClosing_eq_ok.mp hclosing
            obtain ⟨d, hd⟩ := derivation_of_parseSum hargument
            exact ⟨.call function hname d, congrArg (Expr.call function) hd⟩
        · rw [parseOperand_var name hnext] at h
          cases h
          exact ⟨.var name hnext, rfl⟩

end

end Expr

end SignalMap
