import SignalMap.Proofs.Expr.Operands
import SignalMap.Proofs.Resolution.Computation

/-!
Evaluation of arrays is evaluation point by point. An expression over arrays has
a value when their lengths agree and it has a value at every position, and these
values are the elements of the result. Nothing is assumed of the arithmetic.
-/

namespace SignalMap

namespace Expr

variable {α : Type} {ar : Arithmetic α} {bindings : String → Option (Operand α)}
  {result : Operand α}

def BindsArray (bindings : String → Option (Operand α)) (e : Expr α) (xs : List α) : Prop :=
  ∃ name ∈ e.occurrences, bindings name = some (.array xs)

theorem bindsArray_binary {operator : BinaryOperator} {left right : Expr α} {xs : List α} :
    BindsArray bindings (binary operator left right) xs ↔
      BindsArray bindings left xs ∨ BindsArray bindings right xs := by
  unfold BindsArray
  rw [occurrences]
  simp only [List.mem_append, or_and_right, exists_or]

/-- The result is as long as every array in the expression. -/
theorem length?_of_bindsArray {e : Expr α} {xs : List α} (h : BindsArray bindings e xs)
    (hresult : e.evaluate ar bindings = .ok result) : result.length? = some xs.length := by
  induction e generalizing result with
  | number value =>
    obtain ⟨name, hname, _⟩ := h
    cases hname
  | var name =>
    obtain ⟨other, hother, hbound⟩ := h
    obtain rfl := List.mem_singleton.mp hother
    have hvar := evaluate_var_eq_ok.mp hresult
    rw [hbound] at hvar
    cases hvar
    rfl
  | negate inner ih =>
    obtain ⟨x, hx, rfl⟩ := evaluate_negate_eq_ok.mp hresult
    rw [Operand.length?_map]
    exact ih h hx
  | binary operator left right ihl ihr =>
    obtain ⟨x, y, hx, hy, hzip, _⟩ := evaluate_binary_eq_ok.mp hresult
    obtain ⟨hlength, hfits⟩ := Operand.length?_zipWith hzip
    rcases bindsArray_binary.mp h with hleft | hright
    · rw [hlength, ihl hleft hx, Option.some_or]
    · have hylength := ihr hright hy
      cases hxlength : x.length? with
      | none => rw [hlength, hxlength, Option.none_or, hylength]
      | some m =>
        rw [hxlength, Option.some_or] at hlength
        have hsame : xs.length = m := (hfits m hlength).2 xs.length hylength
        rw [hlength, hsame]
  | call function argument ih =>
    obtain ⟨x, hx, rfl, _⟩ := evaluate_call_eq_ok.mp hresult
    rw [Operand.length?_map]
    exact ih h hx

/-- The result is an array only if there is one in the expression. -/
theorem bindsArray_of_length? {e : Expr α} {n : Nat}
    (hresult : e.evaluate ar bindings = .ok result) (hlength : result.length? = some n) :
    ∃ xs, BindsArray bindings e xs ∧ xs.length = n := by
  induction e generalizing result with
  | number value =>
    cases hresult
    cases hlength
  | var name =>
    have hvar := evaluate_var_eq_ok.mp hresult
    cases result with
    | scalar a => cases hlength
    | array xs => exact ⟨xs, ⟨name, List.mem_singleton_self name, hvar⟩, Option.some.inj hlength⟩
  | negate inner ih =>
    obtain ⟨x, hx, rfl⟩ := evaluate_negate_eq_ok.mp hresult
    rw [Operand.length?_map] at hlength
    exact ih hx hlength
  | binary operator left right ihl ihr =>
    obtain ⟨x, y, hx, hy, hzip, _⟩ := evaluate_binary_eq_ok.mp hresult
    rw [(Operand.length?_zipWith hzip).1] at hlength
    rcases Option.or_eq_some_iff.mp hlength with hxlength | ⟨_, hylength⟩
    · obtain ⟨xs, hxs, hn⟩ := ihl hx hxlength
      exact ⟨xs, bindsArray_binary.mpr (Or.inl hxs), hn⟩
    · obtain ⟨ys, hys, hn⟩ := ihr hy hylength
      exact ⟨ys, bindsArray_binary.mpr (Or.inr hys), hn⟩
  | call function argument ih =>
    obtain ⟨x, hx, rfl, _⟩ := evaluate_call_eq_ok.mp hresult
    rw [Operand.length?_map] at hlength
    exact ih hx hlength

/-- When all arrays in the expression have one length, the result fits it. -/
theorem fits_of_evaluate {e : Expr α} {n : Nat}
    (hlengths : ∀ xs, BindsArray bindings e xs → xs.length = n)
    (hresult : e.evaluate ar bindings = .ok result) : result.Fits n := by
  intro m hm
  obtain ⟨xs, hxs, hlength⟩ := bindsArray_of_length? hresult hm
  exact hlength.symm.trans (hlengths xs hxs)

def pointBindings (bindings : String → Option (Operand α)) (i : Nat) :
    String → Option (Operand α) := fun name =>
  (bindings name).bind fun x => (x.get? i).map .scalar

/-- The element of a result is the value of the expression at its position. -/
theorem evaluate_point {e : Expr α} {i : Nat} {a : α}
    (hresult : e.evaluate ar bindings = .ok result) (ha : result.get? i = some a) :
    e.evaluate ar (pointBindings bindings i) = .ok (.scalar a) := by
  induction e generalizing result a with
  | number value =>
    cases hresult
    cases ha
    rfl
  | var name =>
    have hvar := evaluate_var_eq_ok.mp hresult
    refine evaluate_var_eq_ok.mpr ?_
    unfold pointBindings
    rw [hvar, Option.bind_some, ha]
    rfl
  | negate inner ih =>
    obtain ⟨x, hx, rfl⟩ := evaluate_negate_eq_ok.mp hresult
    rw [Operand.get?_map] at ha
    obtain ⟨b, hb, rfl⟩ := Option.map_eq_some_iff.mp ha
    exact evaluate_negate_eq_ok.mpr ⟨.scalar b, ih hx hb, rfl⟩
  | binary operator left right ihl ihr =>
    obtain ⟨x, y, hx, hy, hzip, hfinite⟩ := evaluate_binary_eq_ok.mp hresult
    obtain ⟨b, c, hb, hc, hpoint⟩ := Operand.get?_zipWith hzip ha
    have hafinite : ar.isFinite a = true := Operand.of_all_of_get? hfinite ha
    exact evaluate_binary_eq_ok.mpr
      ⟨.scalar b, .scalar c, ihl hx hb, ihr hy hc, map_eq_ok.mpr ⟨a, hpoint, rfl⟩, hafinite⟩
  | call function argument ih =>
    obtain ⟨x, hx, rfl, hfinite⟩ := evaluate_call_eq_ok.mp hresult
    have hafinite : ar.isFinite a = true := Operand.of_all_of_get? hfinite ha
    rw [Operand.get?_map] at ha
    obtain ⟨b, hb, rfl⟩ := Option.map_eq_some_iff.mp ha
    exact evaluate_call_eq_ok.mpr ⟨.scalar b, ih hx hb, rfl, hafinite⟩

/-- An operator has a finite number at every position where its operands have
numbers and the expression has a value. -/
theorem exists_point {operator : BinaryOperator} {left right : Expr α} {x y point : Operand α}
    {i : Nat} {a b : α} (hx : left.evaluate ar bindings = .ok x)
    (hy : right.evaluate ar bindings = .ok y) (ha : x.get? i = some a) (hb : y.get? i = some b)
    (hpoint : (binary operator left right).evaluate ar (pointBindings bindings i) = .ok point) :
    ∃ c, ar.point operator a b = .ok c ∧ ar.isFinite c = true := by
  obtain ⟨u, v, hu, hv, hzip, hfinite⟩ := evaluate_binary_eq_ok.mp hpoint
  rw [evaluate_point hx ha] at hu
  rw [evaluate_point hy hb] at hv
  cases hu
  cases hv
  obtain ⟨c, hc, rfl⟩ := map_eq_ok.mp hzip
  exact ⟨c, hc, hfinite⟩

/-- A function has a finite number at every position where its argument has a
number and the expression has a value. -/
theorem isFinite_of_point {function : Function} {argument : Expr α} {x point : Operand α}
    {i : Nat} {a : α} (hx : argument.evaluate ar bindings = .ok x) (ha : x.get? i = some a)
    (hpoint : (call function argument).evaluate ar (pointBindings bindings i) = .ok point) :
    ar.isFinite (ar.call function a) = true := by
  obtain ⟨u, hu, rfl, hfinite⟩ := evaluate_call_eq_ok.mp hpoint
  rw [evaluate_point hx ha] at hu
  cases hu
  exact hfinite

/-- Values at every position make a value of the whole. There has to be a
position, for without one nothing is said about the scalars. -/
theorem exists_evaluate {e : Expr α} {n : Nat} (hn : 0 < n)
    (hlengths : ∀ xs, BindsArray bindings e xs → xs.length = n)
    (hpoints : ∀ i < n, ∃ point, e.evaluate ar (pointBindings bindings i) = .ok point) :
    ∃ result, e.evaluate ar bindings = .ok result := by
  induction e with
  | number value => exact ⟨.scalar value, rfl⟩
  | var name =>
    obtain ⟨point, hpoint⟩ := hpoints 0 hn
    obtain ⟨x, hx, _⟩ := Option.bind_eq_some_iff.mp (evaluate_var_eq_ok.mp hpoint)
    exact ⟨x, evaluate_var_eq_ok.mpr hx⟩
  | negate inner ih =>
    have hinner : ∀ i < n, ∃ x, inner.evaluate ar (pointBindings bindings i) = .ok x := by
      intro i hi
      obtain ⟨point, hpoint⟩ := hpoints i hi
      obtain ⟨x, hx, _⟩ := evaluate_negate_eq_ok.mp hpoint
      exact ⟨x, hx⟩
    obtain ⟨x, hx⟩ := ih hlengths hinner
    exact ⟨x.map ar.negate, evaluate_negate_eq_ok.mpr ⟨x, hx, rfl⟩⟩
  | binary operator left right ihl ihr =>
    have hoperands : ∀ i < n, (∃ x, left.evaluate ar (pointBindings bindings i) = .ok x) ∧
        ∃ y, right.evaluate ar (pointBindings bindings i) = .ok y := by
      intro i hi
      obtain ⟨point, hpoint⟩ := hpoints i hi
      obtain ⟨x, y, hx, hy, _⟩ := evaluate_binary_eq_ok.mp hpoint
      exact ⟨⟨x, hx⟩, ⟨y, hy⟩⟩
    have hleft := fun xs hxs => hlengths xs (bindsArray_binary.mpr (Or.inl hxs))
    have hright := fun ys hys => hlengths ys (bindsArray_binary.mpr (Or.inr hys))
    obtain ⟨x, hx⟩ := ihl hleft fun i hi => (hoperands i hi).1
    obtain ⟨y, hy⟩ := ihr hright fun i hi => (hoperands i hi).2
    have hcombined : ∀ i a b, i < n → x.get? i = some a → y.get? i = some b →
        ∃ c, ar.point operator a b = .ok c ∧ ar.isFinite c = true := by
      intro i a b hi ha hb
      obtain ⟨point, hpoint⟩ := hpoints i hi
      exact exists_point hx hy ha hb hpoint
    obtain ⟨z, hz, hfinite⟩ := Operand.exists_zipWith_all hn (fits_of_evaluate hleft hx)
      (fits_of_evaluate hright hy) hcombined
    exact ⟨z, evaluate_binary_eq_ok.mpr ⟨x, y, hx, hy, hz, hfinite⟩⟩
  | call function argument ih =>
    have hargument : ∀ i < n, ∃ x,
        argument.evaluate ar (pointBindings bindings i) = .ok x := by
      intro i hi
      obtain ⟨point, hpoint⟩ := hpoints i hi
      obtain ⟨x, hx, _⟩ := evaluate_call_eq_ok.mp hpoint
      exact ⟨x, hx⟩
    obtain ⟨x, hx⟩ := ih hlengths hargument
    have hbound : ∀ xs, BindsArray bindings argument xs → xs.length = n := hlengths
    have hfits : (x.map (ar.call function)).Fits n := by
      unfold Operand.Fits
      rw [Operand.length?_map]
      exact fits_of_evaluate hbound hx
    refine ⟨x.map (ar.call function), evaluate_call_eq_ok.mpr ⟨x, hx, rfl, ?_⟩⟩
    refine Operand.all_of_get? hn hfits fun i c hi hc => ?_
    rw [Operand.get?_map] at hc
    obtain ⟨a, ha, rfl⟩ := Option.map_eq_some_iff.mp hc
    obtain ⟨point, hpoint⟩ := hpoints i hi
    exact isFinite_of_point hx ha hpoint

def Filled (bindings : String → Option (Operand α)) : Prop :=
  ∀ name xs, bindings name = some (.array xs) → xs ≠ []

/-- Without an array an expression gives a scalar or fails. With arrays it has a
value if and only if they all have one length and it has a value at every
position, and then the value is the array of the values at the positions. -/
theorem evaluate_pointwise (ar : Arithmetic α) (bindings : String → Option (Operand α))
    (e : Expr α) (hfilled : Filled bindings) :
    ((∀ xs, ¬ BindsArray bindings e xs) →
      (∃ x, e.evaluate ar bindings = .ok (.scalar x)) ∨
        ∃ fault, e.evaluate ar bindings = .error fault) ∧
    ((∃ xs, BindsArray bindings e xs) →
      ((∃ result, e.evaluate ar bindings = .ok result) ↔
        ∃ n, (∀ xs, BindsArray bindings e xs → xs.length = n) ∧
          ∀ i < n, ∃ point, e.evaluate ar (pointBindings bindings i) = .ok point) ∧
      ∀ result, e.evaluate ar bindings = .ok result →
        ∃ values, result = .array values ∧
          (∀ xs, BindsArray bindings e xs → xs.length = values.length) ∧
          ∀ i (hi : i < values.length),
            e.evaluate ar (pointBindings bindings i) = .ok (.scalar values[i])) := by
  constructor
  · intro hnone
    cases hresult : e.evaluate ar bindings with
    | error fault => exact Or.inr ⟨fault, rfl⟩
    | ok result =>
      left
      cases result with
      | scalar x => exact ⟨x, rfl⟩
      | array values =>
        obtain ⟨xs, hxs, _⟩ := bindsArray_of_length? hresult rfl
        exact absurd hxs (hnone xs)
  · rintro ⟨xs, hxs⟩
    have harray : ∀ result, e.evaluate ar bindings = .ok result →
        ∃ values, result = .array values ∧
          (∀ xs, BindsArray bindings e xs → xs.length = values.length) ∧
          ∀ i (hi : i < values.length),
            e.evaluate ar (pointBindings bindings i) = .ok (.scalar values[i]) := by
      intro result hresult
      cases result with
      | scalar x => cases length?_of_bindsArray hxs hresult
      | array values =>
        refine ⟨values, rfl, ?_, ?_⟩
        · intro ys hys
          exact (Option.some.inj (length?_of_bindsArray hys hresult)).symm
        · intro i hi
          exact evaluate_point hresult (List.getElem?_eq_getElem hi)
    refine ⟨⟨?_, ?_⟩, harray⟩
    · rintro ⟨result, hresult⟩
      obtain ⟨values, _, hlengths, hvalues⟩ := harray result hresult
      exact ⟨values.length, hlengths, fun i hi => ⟨_, hvalues i hi⟩⟩
    · rintro ⟨n, hlengths, hpoints⟩
      obtain ⟨name, hname, hbound⟩ := hxs
      have hne : xs.length ≠ 0 := by simpa using hfilled name xs hbound
      have hn : xs.length = n := hlengths xs ⟨name, hname, hbound⟩
      exact exists_evaluate (by omega) hlengths hpoints

def smallIntegers : Arithmetic Int where
  negate x := -x
  binary
    | .add, x, y => x + y
    | .subtract, x, y => x - y
    | .multiply, x, y => x * y
    | .divide, x, y => x / y
    | .power, x, y => x.pow y.toNat
  call _ x := x.natAbs
  isFinite x := x.natAbs < 1000
  isZero x := x == 0

def rawBindings : String → Option (Operand Int)
  | "raw" => some (.array [1, 2, 4])
  | "base" => some (.array [10, 0, 5])
  | "scale" => some (.scalar 3)
  | _ => none

def scaledRaw : Expr Int :=
  .binary .divide (.number 60)
    (.binary .add (.binary .multiply (.var "raw") (.var "scale")) (.var "base"))

theorem evaluate_pointwise_scaledRaw :
    Filled rawBindings ∧ BindsArray rawBindings scaledRaw [1, 2, 4] ∧
      scaledRaw.evaluate smallIntegers rawBindings = .ok (.array [4, 10, 3]) ∧
      ∀ i (hi : i < [4, 10, 3].length),
        scaledRaw.evaluate smallIntegers (pointBindings rawBindings i) =
          .ok (.scalar [4, 10, 3][i]) := by
  have hfilled : Filled rawBindings := by
    intro name xs h
    unfold rawBindings at h
    split at h <;> cases h <;> decide
  have harray : BindsArray rawBindings scaledRaw [1, 2, 4] := ⟨"raw", by decide, rfl⟩
  have hresult : scaledRaw.evaluate smallIntegers rawBindings = .ok (.array [4, 10, 3]) := by rfl
  have hpointwise := evaluate_pointwise smallIntegers rawBindings scaledRaw hfilled
  obtain ⟨values, hvalues, _, hpoints⟩ := (hpointwise.2 ⟨_, harray⟩).2 _ hresult
  cases hvalues
  exact ⟨hfilled, harray, hresult, hpoints⟩

end Expr

namespace Rule

open Outcome

variable {key name reference : String} {follow : String → Outcome Value}

theorem ne_nil_of_operandOf {w : Value} {xs : List Float}
    (h : (operandOf key name reference w).result = .ok (.array xs)) : xs ≠ [] := by
  unfold operandOf at h
  split at h
  next => cases h
  next a =>
    by_cases hempty : a.isEmpty = true
    · rw [if_pos hempty] at h
      cases h
    · rw [if_neg hempty] at h
      cases h
      rintro hnil
      refine hempty ?_
      unfold NumericArray.isEmpty
      rw [List.map_eq_nil_iff.mp hnil]
      rfl
  next => cases h
  next => cases h

theorem ne_nil_of_bindParameters {parameters : List (String × Parameter)}
    {bindings : List (String × Operand Float)}
    (h : (bindParameters key follow parameters).result = .ok bindings) :
    ∀ other xs, (other, .array xs) ∈ bindings → xs ≠ [] := by
  induction parameters generalizing bindings with
  | nil =>
    cases h
    intro other xs hmem
    cases hmem
  | cons first rest ih =>
    obtain ⟨name, parameter⟩ := first
    intro other xs hmem
    cases parameter with
    | number x =>
      obtain ⟨others, hothers, rfl⟩ := bindParameters_number_eq_ok.mp h
      rcases List.mem_cons.mp hmem with hfirst | hrest
      · cases hfirst
      · exact ih hothers other xs hrest
    | entry reference =>
      obtain ⟨w, operand, others, _, hoperand, hothers, rfl⟩ := bindParameters_entry_eq_ok.mp h
      rcases List.mem_cons.mp hmem with hfirst | hrest
      · cases hfirst
        exact ne_nil_of_operandOf hoperand
      · exact ih hothers other xs hrest

/-- What an EXPR rule binds holds no empty array. -/
theorem filled_bindParameters {parameters : List (String × Parameter)}
    {bindings : List (String × Operand Float)}
    (h : (bindParameters key follow parameters).result = .ok bindings) :
    Expr.Filled fun name => bindings.lookup name := by
  intro name xs hbound
  obtain ⟨before, after, rfl, _⟩ := List.lookup_eq_some_iff.mp hbound
  refine ne_nil_of_bindParameters h name xs ?_
  exact List.mem_append_right before List.mem_cons_self

end Rule

end SignalMap
