import SignalMap.Proofs.Expr.Finiteness
import SignalMap.Proofs.Expr.Lexemes
import SignalMap.Proofs.Numeric.Negation
import SignalMap.Proofs.Resolution.Safety

/-!
Numbers that are not finite in the values of EXPR rules. A rule whose expression
has an operation in front has finite numbers or fails. An expression without any
operation hands on what its literal or its parameter holds, finite or not.
-/

namespace SignalMap

namespace Value

def numbers : Value → List Float
  | .scalar s => [s.toDouble]
  | .array a => a.toDoubles
  | .text _ => []
  | .empty => []

def IsFinite (v : Value) : Prop :=
  ∀ x ∈ v.numbers, x.isFinite = true

theorem isFinite_valueOf {result : Operand Float} :
    (Rule.valueOf result).IsFinite ↔ result.all Arithmetic.double.isFinite = true := by
  cases result with
  | scalar x => exact List.forall_mem_singleton
  | array xs =>
    have hnumbers : (Rule.valueOf (.array xs)).numbers = xs := List.map_id xs
    unfold IsFinite
    rw [hnumbers]
    exact List.all_eq_true.symm

end Value

theorem Rule.result_compute_expr {r : Resolver} {s : Scope} {key : String}
    {follow : String → Outcome Value} {formula : Formula} {parameters : List (String × Parameter)} :
    (compute r s key follow (.expr formula parameters)).result = (do
      let bindings ← (bindParameters key follow parameters).result
      let result ← (formula.root.evaluate .double (bindings.lookup ·)).mapError
        fun fault => ⟨key, .evaluation fault formula.source⟩
      return valueOf result) := by
  simp only [compute, Outcome.result_bind]
  refine bind_congr fun bindings => ?_
  cases formula.root.evaluate .double (bindings.lookup ·) with
  | error fault => rfl
  | ok result => rfl

namespace Resolver

def operands (r : Resolver) (s : Scope) (key : String) (parameters : List (String × Parameter)) :
    Outcome (List (String × Operand Float)) :=
  match r.maxDepth with
  | 0 => .fail key (.tooDeep 0)
  | budget + 1 => Rule.bindParameters key (follow s (r.visit s budget [key]) key) parameters

variable {r : Resolver} {s : Scope} {e : Entry} {formula : Formula}
  {parameters : List (String × Parameter)}

theorem result_resolve_expr (hrule : e.rule = .expr formula parameters) :
    (r.resolve s e).result = (do
      let bindings ← (r.operands s e.key parameters).result
      let result ← (formula.root.evaluate .double (bindings.lookup ·)).mapError
        fun fault => ⟨e.key, .evaluation fault formula.source⟩
      return Rule.valueOf result) := by
  unfold resolve operands
  -- Without any depth the entry itself is too deep, and so are its operands.
  cases hdepth : r.maxDepth with
  | zero =>
    rw [visit, if_neg List.not_mem_nil, hdepth]
    rfl
  | succ budget =>
    rw [visit, if_neg List.not_mem_nil, hrule]
    exact Rule.result_compute_expr

theorem resolve_expr_eq_ok (hrule : e.rule = .expr formula parameters) {v : Value} :
    (r.resolve s e).result = .ok v ↔
      ∃ bindings result, (r.operands s e.key parameters).result = .ok bindings ∧
        formula.root.evaluate .double (bindings.lookup ·) = .ok result ∧
        v = Rule.valueOf result := by
  rw [result_resolve_expr hrule, bind_eq_ok]
  refine exists_congr fun bindings => ?_
  rw [exists_and_left]
  refine and_congr_right fun _ => ?_
  rw [bind_eq_ok]
  refine exists_congr fun result => and_congr mapError_eq_ok ?_
  constructor
  · intro h
    cases h
    rfl
  · rintro rfl
    rfl

theorem resolve_expr_eq_error (hrule : e.rule = .expr formula parameters)
    {bindings : List (String × Operand Float)} {fault : EvalFault Float}
    (hbindings : (r.operands s e.key parameters).result = .ok bindings)
    (h : formula.root.evaluate .double (bindings.lookup ·) = .error fault) :
    (r.resolve s e).result = .error ⟨e.key, .evaluation fault formula.source⟩ := by
  rw [result_resolve_expr hrule]
  refine bind_eq_error.mpr (Or.inr ⟨bindings, hbindings, ?_⟩)
  exact bind_eq_error.mpr (Or.inl (mapError_eq_error.mpr ⟨fault, h, rfl⟩))

/-- An EXPR rule has a value when its expression has one without regard to
finiteness and no operation in it has a number that is not finite. The value is
finite unless the expression is, signs aside, a literal or a variable whose
operand is not. Where an operation has a number that is not finite the rule fails
and names that operation or another such one, unless the expression has a fault
without the check too. -/
theorem resolve_expr_finite (hrule : e.rule = .expr formula parameters) :
    (∀ v, (r.resolve s e).result = .ok v ↔
      ∃ bindings result, (r.operands s e.key parameters).result = .ok bindings ∧
        formula.root.evaluate Arithmetic.double.unchecked (bindings.lookup ·) = .ok result ∧
        (∀ o, ¬ formula.root.Refuses .double (bindings.lookup ·) o) ∧
        v = Rule.valueOf result) ∧
    ∀ bindings, (r.operands s e.key parameters).result = .ok bindings →
      (∀ v, (r.resolve s e).result = .ok v →
        (v.IsFinite ↔ ∀ x, formula.root.bare? (bindings.lookup ·) = some x →
          x.all Float.isFinite = true)) ∧
      ∀ o, formula.root.Refuses .double (bindings.lookup ·) o →
        ∃ fault, (r.resolve s e).result = .error ⟨e.key, .evaluation fault formula.source⟩ ∧
          (formula.root.evaluate Arithmetic.double.unchecked (bindings.lookup ·) = .error fault ∨
            ∃ o', formula.root.Refuses .double (bindings.lookup ·) o' ∧
              fault = .notFinite o') := by
  refine ⟨?_, ?_⟩
  · intro v
    rw [resolve_expr_eq_ok hrule]
    refine exists₂_congr fun bindings result => and_congr_right fun _ => ?_
    rw [Expr.evaluate_eq_ok_iff, and_assoc]
  · intro bindings hbindings
    refine ⟨?_, ?_⟩
    · intro v hv
      obtain ⟨others, result, hothers, hresult, rfl⟩ := (resolve_expr_eq_ok hrule).mp hv
      cases hbindings.symm.trans hothers
      rw [Value.isFinite_valueOf]
      exact Expr.all_isFinite_evaluate Double.isFinite_neg hresult
    · intro o ho
      cases heval : formula.root.evaluate .double (bindings.lookup ·) with
      | ok result => exact absurd ho (Expr.not_refuses_of_evaluate heval)
      | error fault =>
        exact ⟨fault, resolve_expr_eq_error hrule hbindings heval, Expr.evaluate_eq_error heval⟩

def beyond : Float := Numeric.toDouble 1 999

def beyondParameters : Fields := [("expression", .string "1e999")]

def halfParameters : Fields :=
  [("expression", .string "x / 2"), ("parameters", .object [("x", .string "beyond")])]

def beyondDocument : Json :=
  .array
    [.object ([("key", .string "beyond"), ("type", .string "EXPR")] ++ beyondParameters),
     .object ([("key", .string "half"), ("type", .string "EXPR")] ++ halfParameters)]

def beyondFormula : Formula := ⟨"1e999", .number beyond⟩

def halfFormula : Formula :=
  ⟨"x / 2", .binary .divide (.var "x") (.number (Numeric.toDouble 2 0))⟩

def beyondEntry : Entry := ⟨"beyond", .expr beyondFormula []⟩

def halfEntry : Entry := ⟨"half", .expr halfFormula [("x", .entry "beyond")]⟩

def beyondScope : Scope :=
  ⟨⟨"F", "m", "half", "m/half", [], .default, "1", none, none, none⟩,
    ⟨[beyondEntry, halfEntry], by decide⟩, []⟩

theorem parse_beyondFormula : Formula.parse "1e999" = .ok beyondFormula := by
  have hscan : Token.scan Numeric.readDecimal? "1e999" = .ok [.number beyond] := by
    refine (Token.scanFrom_numeral rfl 0 _).trans ?_
    exact bind_eq_ok.mpr ⟨[], Token.scans_nil _, rfl⟩
  rw [Formula.parse_of_scan hscan]
  rfl

theorem parse_halfFormula : Formula.parse "x / 2" = .ok halfFormula := by
  have hright : Token.Scans Numeric.readDecimal? ("2".toList ++ [])
      [.number (Numeric.toDouble 2 0)] :=
    Token.scans_nil.numeral Token.separated_nil (by decide) rfl
  have hleft : Token.Scans Numeric.readDecimal? ("x".toList ++ " / 2".toList)
      [.identifier "x", .operator .divide, .number (Numeric.toDouble 2 0)] :=
    (hright.space.ofChar rfl).space.name (Token.separated_cons _ rfl (by decide)) (by decide)
  have hscan : Token.scan Numeric.readDecimal? "x / 2" =
      .ok [.identifier "x", .operator .divide, .number (Numeric.toDouble 2 0)] :=
    hleft 0
  rw [Formula.parse_of_scan hscan]
  rfl

theorem ofDocument_beyondDocument :
    Entry.ofDocument "m" beyondDocument = .ok [beyondEntry, halfEntry] := by
  have hbeyondRule : Declaration.exprRule "m" beyondParameters = .ok beyondEntry.rule :=
    bind_eq_ok.mpr ⟨"1e999", rfl, bind_eq_ok.mpr
      ⟨beyondFormula, mapError_eq_ok.mpr parse_beyondFormula, rfl⟩⟩
  have hbeyond : Declaration.entry "m" ⟨"beyond", "EXPR", beyondParameters⟩ = .ok beyondEntry :=
    Declaration.entry_eq_ok.mpr ⟨rfl, by decide, .expr, rfl, hbeyondRule⟩
  have hhalfRule : Declaration.exprRule "m" halfParameters = .ok halfEntry.rule :=
    bind_eq_ok.mpr ⟨"x / 2", rfl, bind_eq_ok.mpr
      ⟨halfFormula, mapError_eq_ok.mpr parse_halfFormula, rfl⟩⟩
  have hhalf : Declaration.entry "m" ⟨"half", "EXPR", halfParameters⟩ = .ok halfEntry :=
    Declaration.entry_eq_ok.mpr ⟨rfl, by decide, .expr, rfl, hhalfRule⟩
  refine bind_eq_ok.mpr ⟨beyondEntry, mapError_eq_ok.mpr hbeyond, ?_⟩
  refine bind_eq_ok.mpr ⟨[halfEntry], ?_, rfl⟩
  exact bind_eq_ok.mpr ⟨halfEntry, mapError_eq_ok.mpr hhalf, rfl⟩

theorem resolve_beyondEntry :
    (standard.resolve beyondScope beyondEntry).result = .ok (.ofDouble beyond) := by
  rfl

theorem isFinite_beyond : beyond.isFinite = false := by
  decide +kernel

/-- The literal is the value of its entry; the half of it is refused. -/
theorem resolve_expr_finite_half :
    (standard.resolve beyondScope beyondEntry).result = .ok (.ofDouble beyond) ∧
      ¬ (Value.ofDouble beyond).IsFinite ∧
      ∃ fault, (standard.resolve beyondScope halfEntry).result =
        .error ⟨"half", .evaluation fault "x / 2"⟩ := by
  refine ⟨resolve_beyondEntry, ?_, ?_⟩
  · have hbare := ((resolve_expr_finite (r := standard) (s := beyondScope) (e := beyondEntry)
      rfl).2 [] rfl).1 _ resolve_beyondEntry
    intro h
    have hfinite : beyond.isFinite = true := hbare.mp h (.scalar beyond) rfl
    exact absurd hfinite (by simp [isFinite_beyond])
  · have hoperands : (standard.operands beyondScope "half" [("x", .entry "beyond")]).result =
        .ok [("x", .scalar beyond)] := by
      rfl
    have hrefuses : halfFormula.root.Refuses .double ([("x", .scalar beyond)].lookup ·)
        halfFormula.root := by
      have hpoint : Arithmetic.double.point .divide beyond (Numeric.toDouble 2 0) =
          .ok (beyond / Numeric.toDouble 2 0) :=
        if_neg (by decide +kernel)
      refine Expr.refuses_binary (x := .scalar (beyond / Numeric.toDouble 2 0)) ?_ ?_
      · exact Expr.evaluate_unchecked_binary rfl rfl (map_eq_ok.mpr ⟨_, hpoint, rfl⟩)
      · decide +kernel
    obtain ⟨fault, hfault, _⟩ := ((resolve_expr_finite (r := standard) (s := beyondScope)
      (e := halfEntry) rfl).2 _ hoperands).2 _ hrefuses
    exact ⟨fault, hfault⟩

/-- The value of an entry with an expression can be a number that is not finite. -/
theorem not_forall_resolve_expr_finite :
    ¬ ∀ (r : Resolver) (s : Scope) (e : Entry) (formula : Formula)
        (parameters : List (String × Parameter)) (v : Value),
      (∀ other ∈ s.registry.entries, other.Decoded) → e ∈ s.registry.entries →
      e.rule = .expr formula parameters → (r.resolve s e).result = .ok v → v.IsFinite := by
  intro h
  have hdecoded : ∀ other ∈ beyondScope.registry.entries, other.Decoded :=
    fun other hother => ⟨"m", beyondDocument, _, ofDocument_beyondDocument, hother⟩
  have hfinite : (Value.ofDouble beyond).IsFinite :=
    h standard beyondScope beyondEntry _ _ _ hdecoded List.mem_cons_self rfl resolve_beyondEntry
  have hbeyond : beyond.isFinite = true := hfinite beyond List.mem_cons_self
  exact absurd hbeyond (by simp [isFinite_beyond])

end Resolver

end SignalMap
