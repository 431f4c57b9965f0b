import Mathlib.Tactic.Common
import SignalMap.Proofs.Result
import SignalMap.Resolution.Chain

/-!
When the rule of an entry has a value, kind by kind. Every statement says what
the rule asks of the values that it reads and of the functions outside, so that
what follows need not open the computation again.
-/

namespace SignalMap

namespace Outcome

variable {α β : Type}

theorem result_bind_eq_ok {x : Outcome α} {f : α → Outcome β} {b : β} :
    (x >>= f).result = .ok b ↔ ∃ a, x.result = .ok a ∧ (f a).result = .ok b := by
  change (bind x f).result = .ok b ↔ _
  unfold bind
  cases x.result with
  | error err => simp
  | ok a => simp

theorem result_ofOption_eq_ok {key : String} {fault : TransformFault} {x : Option α} {a : α} :
    (ofOption key fault x).result = .ok a ↔ x = some a := by
  cases x with
  | none => simp [ofOption, fail]
  | some b => simp [ofOption, result_pure]

end Outcome

namespace Rule

open Outcome

variable {r : Resolver} {s : Scope} {key : String} {follow : String → Outcome Value} {v : Value}

theorem baseArray_eq_ok {base : String} {w : Value} {a : NumericArray} :
    (baseArray key base w).result = .ok a ↔ w = .array a := by
  cases w <;> simp [baseArray, result_pure, result_fail]

theorem compute_value_eq_ok {source : ValueSource} {dtype : Option DataType} :
    (compute r s key follow (.value source dtype)).result = .ok v ↔
      ∃ w, (computeSource s.globals key source).result = .ok w ∧
        (applyType key dtype w).result = .ok v := by
  simp only [compute]
  exact result_bind_eq_ok

theorem compute_plugin_eq_ok {name : String} {function : Option String} {args : Fields} :
    (compute r s key follow (.plugin name function args)).result = .ok v ↔
      ∃ request, fetchRequest s.context s.globals key name function args = .ok request ∧
        r.fetcher request = .ok v := by
  simp only [compute]
  cases fetchRequest s.context s.globals key name function args with
  | error fault => simp [result_fail]
  | ok request => simp [fetch, mapError_eq_ok]

theorem compute_probe_eq_ok {reference : String} {dtype : Option DataType} :
    (compute r s key follow (.dim (.probe reference) dtype)).result = .ok v ↔
      ∃ w, (follow reference).result = .ok w ∧
        (applyType key dtype (.ofCount w.elementCount)).result = .ok v := by
  simp only [compute]
  exact result_bind_eq_ok

theorem compute_slice_eq_ok {base : String} {selector : Selector} :
    (compute r s key follow (.slice base selector)).result = .ok v ↔
      ∃ a, (follow base).result = .ok (.array a) ∧
        selector.select s.context.indices a = .ok v := by
  simp only [compute, result_bind_eq_ok, baseArray_eq_ok]
  constructor
  · rintro ⟨_, hbase, a, rfl, hselect⟩
    refine ⟨a, hbase, ?_⟩
    cases hselected : selector.select s.context.indices a with
    | error failure => simp [hselected, result_fail] at hselect
    | ok selected => simpa [hselected, result_pure] using hselect
  · rintro ⟨a, hbase, hselect⟩
    refine ⟨_, hbase, a, rfl, ?_⟩
    simp [hselect, result_pure]

theorem compute_expr_eq_ok {formula : Formula} {parameters : List (String × Parameter)} :
    (compute r s key follow (.expr formula parameters)).result = .ok v ↔
      ∃ bindings result, (bindParameters key follow parameters).result = .ok bindings ∧
        (formula.root.evaluate .double fun name => bindings.lookup name) = .ok result ∧
        v = valueOf result := by
  simp only [compute, result_bind_eq_ok]
  constructor
  · rintro ⟨bindings, hbindings, hvalue⟩
    cases heval : formula.root.evaluate .double fun name => bindings.lookup name with
    | error fault => simp [heval, result_fail] at hvalue
    | ok result =>
      refine ⟨bindings, result, hbindings, heval, ?_⟩
      simpa [heval, result_pure, eq_comm] using hvalue
  · rintro ⟨bindings, result, hbindings, heval, rfl⟩
    refine ⟨bindings, hbindings, ?_⟩
    simp [heval, result_pure]

theorem compute_hook_eq_ok {name : String} {parameters : Fields} :
    (compute r s key follow (.custom name none parameters)).result = .ok v ↔
      ∃ hook, r.hooks.get? name = some hook ∧
        hook { key, input := none, parameters, context := s.context, globals := s.globals } =
          .ok v := by
  simp only [compute]
  cases r.hooks.get? name with
  | none => simp [result_fail]
  | some hook => simp [result_bind_eq_ok, result_pure, Outcome.ofExcept, mapError_eq_ok]

theorem compute_wrappingHook_eq_ok {name base : String} {parameters : Fields} :
    (compute r s key follow (.custom name (some base) parameters)).result = .ok v ↔
      ∃ hook w, r.hooks.get? name = some hook ∧ (follow base).result = .ok w ∧
        hook { key, input := some w, parameters, context := s.context, globals := s.globals } =
          .ok v := by
  simp only [compute]
  cases r.hooks.get? name with
  | none => simp [result_fail]
  | some hook => simp [result_bind_eq_ok, result_pure, Outcome.ofExcept, mapError_eq_ok]

theorem compute_offset_eq_ok {base : String} {amount : Float} :
    (compute r s key follow (.offset base amount)).result = .ok v ↔
      ∃ w, (follow base).result = .ok w ∧ w.isEmpty = false ∧ w.offset? amount = some v := by
  simp only [compute, result_bind_eq_ok]
  refine exists_congr fun w => and_congr_right fun _ => ?_
  by_cases hempty : w.isEmpty
  · simp [hempty, result_fail]
  · simp [hempty, result_ofOption_eq_ok]

theorem bindParameters_number_eq_ok {name : String} {x : Float}
    {rest : List (String × Parameter)} {bindings : List (String × Operand Float)} :
    (bindParameters key follow ((name, .number x) :: rest)).result = .ok bindings ↔
      ∃ others, (bindParameters key follow rest).result = .ok others ∧
        bindings = (name, .scalar x) :: others := by
  simp only [bindParameters, result_bind_eq_ok, result_pure, Except.ok.injEq]
  refine exists_congr fun others => and_congr_right fun _ => ?_
  exact eq_comm

theorem bindParameters_entry_eq_ok {name reference : String}
    {rest : List (String × Parameter)} {bindings : List (String × Operand Float)} :
    (bindParameters key follow ((name, .entry reference) :: rest)).result = .ok bindings ↔
      ∃ w operand others, (follow reference).result = .ok w ∧
        (operandOf key name reference w).result = .ok operand ∧
        (bindParameters key follow rest).result = .ok others ∧
        bindings = (name, operand) :: others := by
  simp only [bindParameters, result_bind_eq_ok]
  constructor
  · rintro ⟨w, hw, operand, hoperand, others, hothers, hpure⟩
    refine ⟨w, operand, others, hw, hoperand, hothers, ?_⟩
    simpa [result_pure, eq_comm] using hpure
  · rintro ⟨w, operand, others, hw, hoperand, hothers, rfl⟩
    exact ⟨w, hw, operand, hoperand, others, hothers, rfl⟩

/-- Every parameter is bound, under its own name. -/
theorem names_of_bindParameters {parameters : List (String × Parameter)}
    {bindings : List (String × Operand Float)}
    (h : (bindParameters key follow parameters).result = .ok bindings) :
    bindings.map Prod.fst = parameters.map Prod.fst := by
  induction parameters generalizing bindings with
  | nil =>
    cases h
    rfl
  | cons first rest ih =>
    obtain ⟨name, parameter⟩ := first
    cases parameter with
    | number x =>
      obtain ⟨others, hothers, rfl⟩ := bindParameters_number_eq_ok.mp h
      exact congrArg (name :: ·) (ih hothers)
    | entry reference =>
      obtain ⟨_, _, others, _, _, hothers, rfl⟩ := bindParameters_entry_eq_ok.mp h
      exact congrArg (name :: ·) (ih hothers)

end Rule

end SignalMap
