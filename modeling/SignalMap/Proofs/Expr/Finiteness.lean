import SignalMap.Proofs.Expr.Operands

/-!
Where an evaluation looks for numbers that are not finite. Only the operators and
the functions are looked at: an expression has a value when it has one without
the check and every operation in it has finite numbers. A literal or a variable
is taken as it is, and a sign in front of it changes nothing.
-/

namespace SignalMap

def Arithmetic.unchecked {α : Type} (ar : Arithmetic α) : Arithmetic α :=
  { ar with isFinite := fun _ => true }

theorem Operand.all_true {α : Type} (x : Operand α) : x.all (fun _ => true) = true := by
  cases x with
  | scalar a => rfl
  | array xs => exact List.all_eq_true.mpr fun _ _ => rfl

theorem Operand.all_map {α : Type} {p : α → Bool} {operation : α → α}
    (h : ∀ a, p (operation a) = p a) (x : Operand α) : (x.map operation).all p = x.all p := by
  cases x with
  | scalar a => exact h a
  | array xs =>
    change (xs.map operation).all p = xs.all p
    rw [List.all_map]
    exact congrArg xs.all (funext h)

namespace Expr

variable {α : Type} {ar : Arithmetic α} {bindings : String → Option (Operand α)}
  {result : Operand α}

def operations : Expr α → List (Expr α)
  | number _ => []
  | var _ => []
  | negate inner => inner.operations
  | binary operator left right =>
    left.operations ++ right.operations ++ [binary operator left right]
  | call function argument => argument.operations ++ [call function argument]

def bare? (bindings : String → Option (Operand α)) : Expr α → Option (Operand α)
  | number value => some (.scalar value)
  | var name => bindings name
  | negate inner => inner.bare? bindings
  | binary _ _ _ => none
  | call _ _ => none

/-- An operation of the expression whose value, were it not looked at, would have
a number that is not finite. -/
def Refuses (ar : Arithmetic α) (bindings : String → Option (Operand α)) (e o : Expr α) : Prop :=
  o ∈ e.operations ∧
    ∃ x, o.evaluate ar.unchecked bindings = .ok x ∧ x.all ar.isFinite = false

section Parts

variable {inner left right argument o : Expr α} {operator : BinaryOperator}
  {function : Function}

theorem Refuses.of_left (h : Refuses ar bindings left o) :
    Refuses ar bindings (binary operator left right) o := by
  obtain ⟨hmem, hvalue⟩ := h
  exact ⟨List.mem_append_left _ (List.mem_append_left _ hmem), hvalue⟩

theorem Refuses.of_right (h : Refuses ar bindings right o) :
    Refuses ar bindings (binary operator left right) o := by
  obtain ⟨hmem, hvalue⟩ := h
  exact ⟨List.mem_append_left _ (List.mem_append_right _ hmem), hvalue⟩

theorem Refuses.of_argument (h : Refuses ar bindings argument o) :
    Refuses ar bindings (call function argument) o := by
  obtain ⟨hmem, hvalue⟩ := h
  exact ⟨List.mem_append_left _ hmem, hvalue⟩

/-- The last operation of an expression is the expression itself. -/
theorem refuses_binary {x : Operand α}
    (hx : (binary operator left right).evaluate ar.unchecked bindings = .ok x)
    (hfinite : x.all ar.isFinite = false) :
    Refuses ar bindings (binary operator left right) (binary operator left right) :=
  ⟨List.mem_append_right _ (List.mem_singleton_self _), x, hx, hfinite⟩

theorem refuses_call {x : Operand α}
    (hx : (call function argument).evaluate ar.unchecked bindings = .ok x)
    (hfinite : x.all ar.isFinite = false) :
    Refuses ar bindings (call function argument) (call function argument) :=
  ⟨List.mem_append_right _ (List.mem_singleton_self _), x, hx, hfinite⟩

theorem ensureFinite_eq_error {e : Expr α} {x : Operand α} {fault : EvalFault α} :
    ar.ensureFinite e x = .error fault ↔ x.all ar.isFinite = false ∧ fault = .notFinite e := by
  unfold Arithmetic.ensureFinite
  cases x.all ar.isFinite with
  | true => simp
  | false => simp [eq_comm]

theorem evaluate_unchecked_binary {x y z : Operand α}
    (hx : left.evaluate ar.unchecked bindings = .ok x)
    (hy : right.evaluate ar.unchecked bindings = .ok y)
    (hz : x.zipWith operator (ar.point operator) y = .ok z) :
    (binary operator left right).evaluate ar.unchecked bindings = .ok z := by
  rw [evaluate_binary_eq_ok]
  exact ⟨x, y, hx, hy, hz, z.all_true⟩

theorem evaluate_unchecked_call {x : Operand α}
    (hx : argument.evaluate ar.unchecked bindings = .ok x) :
    (call function argument).evaluate ar.unchecked bindings = .ok (x.map (ar.call function)) := by
  rw [evaluate_call_eq_ok]
  exact ⟨x, hx, rfl, Operand.all_true _⟩

end Parts

/-- A value is the value without the check. -/
theorem evaluate_unchecked {e : Expr α} (h : e.evaluate ar bindings = .ok result) :
    e.evaluate ar.unchecked bindings = .ok result := by
  induction e generalizing result with
  | number value => exact h
  | var name => exact h
  | negate inner ih =>
    rw [evaluate_negate_eq_ok] at h ⊢
    obtain ⟨x, hx, hresult⟩ := h
    exact ⟨x, ih hx, hresult⟩
  | binary operator left right ihl ihr =>
    rw [evaluate_binary_eq_ok] at h
    obtain ⟨x, y, hx, hy, hz, _⟩ := h
    exact evaluate_unchecked_binary (ihl hx) (ihr hy) hz
  | call function argument ih =>
    rw [evaluate_call_eq_ok] at h
    obtain ⟨x, hx, rfl, _⟩ := h
    exact evaluate_unchecked_call (ih hx)

/-- Where there is a value, every operation has finite numbers. -/
theorem not_refuses_of_evaluate {e o : Expr α} (h : e.evaluate ar bindings = .ok result) :
    ¬ Refuses ar bindings e o := by
  rintro ⟨hmem, x, hx, hfinite⟩
  induction e generalizing result with
  | number value => cases hmem
  | var name => cases hmem
  | negate inner ih =>
    rw [evaluate_negate_eq_ok] at h
    obtain ⟨y, hy, _⟩ := h
    exact ih hy hmem
  | binary operator left right ihl ihr =>
    have hwhole := evaluate_unchecked h
    rw [evaluate_binary_eq_ok] at h
    obtain ⟨y, z, hy, hz, _, hall⟩ := h
    rcases List.mem_append.mp hmem with hparts | hself
    · rcases List.mem_append.mp hparts with hleft | hright
      · exact ihl hy hleft
      · exact ihr hz hright
    · obtain rfl := List.mem_singleton.mp hself
      cases hx.symm.trans hwhole
      exact absurd hall (by simp [hfinite])
  | call function argument ih =>
    have hwhole := evaluate_unchecked h
    rw [evaluate_call_eq_ok] at h
    obtain ⟨y, hy, _, hall⟩ := h
    rcases List.mem_append.mp hmem with hargument | hself
    · exact ih hy hargument
    · obtain rfl := List.mem_singleton.mp hself
      cases hx.symm.trans hwhole
      exact absurd hall (by simp [hfinite])

/-- What fails fails without the check as well, or an operation is refused. The
induction is over the tree; the operands are evaluated from left to right. -/
theorem evaluate_eq_error {e : Expr α} {fault : EvalFault α}
    (h : e.evaluate ar bindings = .error fault) :
    e.evaluate ar.unchecked bindings = .error fault ∨
      ∃ o, Refuses ar bindings e o ∧ fault = .notFinite o := by
  induction e with
  | number value => cases h
  | var name => exact Or.inl h
  | negate inner ih =>
    rw [evaluate, map_eq_error] at h ⊢
    exact ih h
  | binary operator left right ihl ihr =>
    rw [evaluate, bind_eq_error] at h ⊢
    rcases h with hleft | ⟨x, hx, h⟩
    · rcases ihl hleft with hleft | ⟨o, ho, hfault⟩
      · exact Or.inl (Or.inl hleft)
      · exact Or.inr ⟨o, ho.of_left, hfault⟩
    have hx := evaluate_unchecked hx
    rw [bind_eq_error] at h
    rcases h with hright | ⟨y, hy, h⟩
    · rcases ihr hright with hright | ⟨o, ho, hfault⟩
      · refine Or.inl (Or.inr ⟨x, hx, ?_⟩)
        rw [bind_eq_error]
        exact Or.inl hright
      · exact Or.inr ⟨o, ho.of_right, hfault⟩
    have hy := evaluate_unchecked hy
    rw [bind_eq_error] at h
    rcases h with hzip | ⟨z, hz, h⟩
    · refine Or.inl (Or.inr ⟨x, hx, ?_⟩)
      rw [bind_eq_error]
      refine Or.inr ⟨y, hy, ?_⟩
      rw [bind_eq_error]
      exact Or.inl hzip
    · rw [ensureFinite_eq_error] at h
      obtain ⟨hfinite, hfault⟩ := h
      exact Or.inr ⟨_, refuses_binary (evaluate_unchecked_binary hx hy hz) hfinite, hfault⟩
  | call function argument ih =>
    rw [evaluate, bind_eq_error] at h ⊢
    rcases h with hargument | ⟨x, hx, h⟩
    · rcases ih hargument with hargument | ⟨o, ho, hfault⟩
      · exact Or.inl (Or.inl hargument)
      · exact Or.inr ⟨o, ho.of_argument, hfault⟩
    · rw [ensureFinite_eq_error] at h
      obtain ⟨hfinite, hfault⟩ := h
      have hx := evaluate_unchecked hx
      exact Or.inr ⟨_, refuses_call (evaluate_unchecked_call hx) hfinite, hfault⟩

/-- An expression has a value when it has one without the check and no operation
is refused. -/
theorem evaluate_eq_ok_iff {e : Expr α} :
    e.evaluate ar bindings = .ok result ↔
      e.evaluate ar.unchecked bindings = .ok result ∧ ∀ o, ¬ Refuses ar bindings e o := by
  constructor
  · intro h
    exact ⟨evaluate_unchecked h, fun o => not_refuses_of_evaluate h⟩
  · rintro ⟨hvalue, hnone⟩
    cases h : e.evaluate ar bindings with
    | ok other =>
      have hother := evaluate_unchecked h
      rw [hvalue] at hother
      exact hother.symm
    | error fault =>
      rcases evaluate_eq_error h with herror | ⟨o, ho, _⟩
      · cases hvalue.symm.trans herror
      · exact absurd ho (hnone o)

/-- A value is finite unless the expression is but an operand that is not. -/
theorem all_isFinite_evaluate {e : Expr α} (hneg : ∀ a, ar.isFinite (ar.negate a) = ar.isFinite a)
    (h : e.evaluate ar bindings = .ok result) :
    result.all ar.isFinite = true ↔
      ∀ x, e.bare? bindings = some x → x.all ar.isFinite = true := by
  induction e generalizing result with
  | number value =>
    cases h
    simp [bare?]
  | var name =>
    rw [evaluate_var_eq_ok] at h
    simp [bare?, h]
  | negate inner ih =>
    rw [evaluate_negate_eq_ok] at h
    obtain ⟨x, hx, rfl⟩ := h
    rw [Operand.all_map hneg]
    exact ih hx
  | binary operator left right =>
    rw [evaluate_binary_eq_ok] at h
    obtain ⟨_, _, _, _, _, hfinite⟩ := h
    simp [bare?, hfinite]
  | call function argument =>
    rw [evaluate_call_eq_ok] at h
    obtain ⟨_, _, _, hfinite⟩ := h
    simp [bare?, hfinite]

end Expr

end SignalMap
