import Mathlib.Tactic.Common
import SignalMap.Expr.Evaluation
import SignalMap.Proofs.Result

/-!
Operands and the steps of an evaluation. An operand has a number at every
position, a scalar the same one everywhere; two operands are combined position
by position, and the result is an array as soon as one of them is. Every kind of
expression has a value when its parts have values that can be combined.
-/

namespace SignalMap

namespace Operand

variable {α : Type}

def length? : Operand α → Option Nat
  | scalar _ => none
  | array xs => some xs.length

def get? (position : Nat) : Operand α → Option α
  | scalar x => some x
  | array xs => xs[position]?

def Fits (n : Nat) (x : Operand α) : Prop :=
  ∀ m, x.length? = some m → m = n

theorem length?_map (operation : α → α) (x : Operand α) :
    (x.map operation).length? = x.length? := by
  cases x with
  | scalar a => rfl
  | array xs => exact congrArg some (List.length_map operation)

theorem get?_map (operation : α → α) (i : Nat) (x : Operand α) :
    (x.map operation).get? i = (x.get? i).map operation := by
  cases x with
  | scalar a => rfl
  | array xs => exact List.getElem?_map

theorem of_all_of_get? {p : α → Bool} {x : Operand α} {i : Nat} {a : α}
    (h : x.all p = true) (ha : x.get? i = some a) : p a = true := by
  cases x with
  | scalar b =>
    cases ha
    exact h
  | array xs => exact List.all_eq_true.mp h a (List.mem_of_getElem? ha)

theorem all_of_get? {p : α → Bool} {n : Nat} {x : Operand α} (hn : 0 < n) (hx : x.Fits n)
    (h : ∀ i a, i < n → x.get? i = some a → p a = true) : x.all p = true := by
  cases x with
  | scalar a => exact h 0 a hn rfl
  | array xs =>
    have hlength : xs.length = n := hx xs.length rfl
    refine List.all_eq_true.mpr fun a ha => ?_
    obtain ⟨i, hi, hget⟩ := List.mem_iff_getElem.mp ha
    exact h i a (by omega) (List.getElem?_eq_some_iff.mpr ⟨hi, hget⟩)

section ZipWith

variable {operator : BinaryOperator} {point : α → α → Except (EvalFault α) α}
  {x y result : Operand α}

theorem zipWith_arrays (operator : BinaryOperator) (point : α → α → Except (EvalFault α) α)
    (xs ys : List α) :
    (array xs).zipWith operator point (array ys) =
      if xs.length = ys.length then
        ((xs.zip ys).mapM fun pair => point pair.1 pair.2).map array
      else .error (.lengthsDiffer operator xs.length ys.length) := rfl

/-- Arrays are combined pair by pair when their lengths are equal. -/
theorem zipWith_arrays_eq_ok {xs ys : List α} :
    (array xs).zipWith operator point (array ys) = .ok result ↔
      xs.length = ys.length ∧ ∃ zs,
        ((xs.zip ys).mapM fun pair => point pair.1 pair.2) = .ok zs ∧ array zs = result := by
  rw [zipWith_arrays]
  by_cases hlengths : xs.length = ys.length
  · rw [if_pos hlengths, map_eq_ok]
    exact (and_iff_right hlengths).symm
  · rw [if_neg hlengths]
    constructor
    · intro h
      cases h
    · intro h
      exact absurd h.1 hlengths

/-- The result is an array as soon as one of the operands is, and both fit its
length. -/
theorem length?_zipWith (h : x.zipWith operator point y = .ok result) :
    result.length? = x.length?.or y.length? ∧
      ∀ n, result.length? = some n → x.Fits n ∧ y.Fits n := by
  cases x with
  | scalar a =>
    cases y with
    | scalar b =>
      obtain ⟨c, _, rfl⟩ := map_eq_ok.mp h
      exact ⟨rfl, fun n hn => nomatch hn⟩
    | array ys =>
      obtain ⟨zs, hzs, rfl⟩ := map_eq_ok.mp h
      have hlength := length_of_mapM hzs
      simp [length?, Fits, hlength]
  | array xs =>
    cases y with
    | scalar b =>
      obtain ⟨zs, hzs, rfl⟩ := map_eq_ok.mp h
      have hlength := length_of_mapM hzs
      simp [length?, Fits, hlength]
    | array ys =>
      obtain ⟨hlengths, zs, hzs, rfl⟩ := zipWith_arrays_eq_ok.mp h
      have hlength := length_of_mapM hzs
      simp [length?, Fits, hlength, hlengths]

/-- The number of the result at a position comes from those of the operands. -/
theorem get?_zipWith {i : Nat} {c : α} (h : x.zipWith operator point y = .ok result)
    (hc : result.get? i = some c) :
    ∃ a b, x.get? i = some a ∧ y.get? i = some b ∧ point a b = .ok c := by
  cases x with
  | scalar a =>
    cases y with
    | scalar b =>
      obtain ⟨z, hz, rfl⟩ := map_eq_ok.mp h
      cases hc
      exact ⟨a, b, rfl, rfl, hz⟩
    | array ys =>
      obtain ⟨zs, hzs, rfl⟩ := map_eq_ok.mp h
      obtain ⟨b, hb, hpoint⟩ := getElem?_of_mapM hzs hc
      exact ⟨a, b, rfl, hb, hpoint⟩
  | array xs =>
    cases y with
    | scalar b =>
      obtain ⟨zs, hzs, rfl⟩ := map_eq_ok.mp h
      obtain ⟨a, ha, hpoint⟩ := getElem?_of_mapM hzs hc
      exact ⟨a, b, ha, rfl, hpoint⟩
    | array ys =>
      obtain ⟨_, zs, hzs, rfl⟩ := zipWith_arrays_eq_ok.mp h
      obtain ⟨⟨a, b⟩, hpair, hpoint⟩ := getElem?_of_mapM hzs hc
      obtain ⟨ha, hb⟩ := List.getElem?_zip_eq_some.mp hpair
      exact ⟨a, b, ha, hb, hpoint⟩

theorem exists_zipWith {n : Nat} (hn : 0 < n) (hx : x.Fits n) (hy : y.Fits n)
    (hpoint : ∀ i a b, i < n → x.get? i = some a → y.get? i = some b → ∃ c, point a b = .ok c) :
    ∃ result, x.zipWith operator point y = .ok result := by
  cases x with
  | scalar a =>
    cases y with
    | scalar b =>
      obtain ⟨c, hc⟩ := hpoint 0 a b hn rfl rfl
      exact ⟨scalar c, map_eq_ok.mpr ⟨c, hc, rfl⟩⟩
    | array ys =>
      have hlength : ys.length = n := hy ys.length rfl
      have hevery : ∀ b ∈ ys, ∃ c, point a b = .ok c := by
        intro b hb
        obtain ⟨i, hi, hget⟩ := List.mem_iff_getElem.mp hb
        exact hpoint i a b (by omega) rfl (List.getElem?_eq_some_iff.mpr ⟨hi, hget⟩)
      obtain ⟨zs, hzs⟩ := exists_mapM_eq_ok hevery
      exact ⟨array zs, map_eq_ok.mpr ⟨zs, hzs, rfl⟩⟩
  | array xs =>
    have hxs : xs.length = n := hx xs.length rfl
    cases y with
    | scalar b =>
      have hevery : ∀ a ∈ xs, ∃ c, point a b = .ok c := by
        intro a ha
        obtain ⟨i, hi, hget⟩ := List.mem_iff_getElem.mp ha
        exact hpoint i a b (by omega) (List.getElem?_eq_some_iff.mpr ⟨hi, hget⟩) rfl
      obtain ⟨zs, hzs⟩ := exists_mapM_eq_ok hevery
      exact ⟨array zs, map_eq_ok.mpr ⟨zs, hzs, rfl⟩⟩
    | array ys =>
      have hlengths : xs.length = ys.length := hxs.trans (hy ys.length rfl).symm
      have hevery : ∀ pair ∈ xs.zip ys, ∃ c, point pair.1 pair.2 = .ok c := by
        rintro ⟨a, b⟩ hpair
        obtain ⟨i, hi, hget⟩ := List.mem_iff_getElem.mp hpair
        obtain ⟨ha, hb⟩ := List.getElem?_zip_eq_some.mp (List.getElem?_eq_some_iff.mpr ⟨hi, hget⟩)
        have hin : i < xs.length := (List.getElem?_eq_some_iff.mp ha).1
        exact hpoint i a b (by omega) ha hb
      obtain ⟨zs, hzs⟩ := exists_mapM_eq_ok hevery
      exact ⟨array zs, zipWith_arrays_eq_ok.mpr ⟨hlengths, zs, hzs, rfl⟩⟩

/-- Two operands are not combined when a pair of their numbers is not, or when
their lengths differ. -/
theorem fault_of_zipWith {fault : EvalFault α} (h : x.zipWith operator point y = .error fault) :
    (∃ a b, point a b = .error fault) ∨ ∃ m n, fault = .lengthsDiffer operator m n := by
  cases x with
  | scalar a =>
    cases y with
    | scalar b => exact Or.inl ⟨a, b, map_eq_error.mp h⟩
    | array ys =>
      obtain ⟨b, _, hb⟩ := exists_of_mapM_eq_error (map_eq_error.mp h)
      exact Or.inl ⟨a, b, hb⟩
  | array xs =>
    cases y with
    | scalar b =>
      obtain ⟨a, _, ha⟩ := exists_of_mapM_eq_error (map_eq_error.mp h)
      exact Or.inl ⟨a, b, ha⟩
    | array ys =>
      rw [zipWith_arrays] at h
      by_cases hlengths : xs.length = ys.length
      · rw [if_pos hlengths] at h
        obtain ⟨pair, _, hpair⟩ := exists_of_mapM_eq_error (map_eq_error.mp h)
        exact Or.inl ⟨pair.1, pair.2, hpair⟩
      · rw [if_neg hlengths] at h
        cases h
        exact Or.inr ⟨_, _, rfl⟩

theorem fits_zipWith {n : Nat} (hx : x.Fits n) (hy : y.Fits n)
    (h : x.zipWith operator point y = .ok result) : result.Fits n := by
  intro m hm
  rw [(length?_zipWith h).1] at hm
  rcases Option.or_eq_some_iff.mp hm with hxlength | ⟨_, hylength⟩
  · exact hx m hxlength
  · exact hy m hylength

/-- Combining gives numbers of a kind when every pair of numbers gives one. -/
theorem exists_zipWith_all {p : α → Bool} {n : Nat} (hn : 0 < n) (hx : x.Fits n) (hy : y.Fits n)
    (hpoint : ∀ i a b, i < n → x.get? i = some a → y.get? i = some b →
      ∃ c, point a b = .ok c ∧ p c = true) :
    ∃ result, x.zipWith operator point y = .ok result ∧ result.all p = true := by
  have hvalues : ∀ i a b, i < n → x.get? i = some a → y.get? i = some b →
      ∃ c, point a b = .ok c := by
    intro i a b hi ha hb
    obtain ⟨c, hc, _⟩ := hpoint i a b hi ha hb
    exact ⟨c, hc⟩
  obtain ⟨result, hresult⟩ := exists_zipWith hn hx hy hvalues
  refine ⟨result, hresult, all_of_get? hn (fits_zipWith hx hy hresult) ?_⟩
  intro i c hi hc
  obtain ⟨a, b, ha, hb, hpair⟩ := get?_zipWith hresult hc
  obtain ⟨c', hc', hp⟩ := hpoint i a b hi ha hb
  rw [hpair] at hc'
  cases hc'
  exact hp

end ZipWith

end Operand

namespace Expr

variable {α : Type} {ar : Arithmetic α} {bindings : String → Option (Operand α)}
  {result : Operand α}

section Steps

variable {e inner left right : Expr α} {operator : BinaryOperator} {function : Function}

theorem ensureFinite_eq_ok {x : Operand α} :
    ar.ensureFinite e x = .ok result ↔ x = result ∧ result.all ar.isFinite = true := by
  unfold Arithmetic.ensureFinite
  by_cases hfinite : x.all ar.isFinite = true
  · rw [if_pos hfinite, Except.ok.injEq]
    constructor
    · rintro rfl
      exact ⟨rfl, hfinite⟩
    · exact And.left
  · rw [if_neg hfinite]
    constructor
    · intro h
      cases h
    · rintro ⟨rfl, h⟩
      exact absurd h hfinite

theorem evaluate_var_eq_ok {name : String} :
    (var name).evaluate ar bindings = .ok result ↔ bindings name = some result := by
  rw [evaluate]
  cases bindings name with
  | none => simp
  | some x => simp

theorem evaluate_negate_eq_ok :
    (negate inner).evaluate ar bindings = .ok result ↔
      ∃ x, inner.evaluate ar bindings = .ok x ∧ x.map ar.negate = result :=
  map_eq_ok

theorem evaluate_binary_eq_ok :
    (binary operator left right).evaluate ar bindings = .ok result ↔
      ∃ x y, left.evaluate ar bindings = .ok x ∧ right.evaluate ar bindings = .ok y ∧
        x.zipWith operator (ar.point operator) y = .ok result ∧
        result.all ar.isFinite = true := by
  rw [evaluate, bind_eq_ok]
  constructor
  · rintro ⟨x, hx, h⟩
    obtain ⟨y, hy, h⟩ := bind_eq_ok.mp h
    obtain ⟨z, hz, h⟩ := bind_eq_ok.mp h
    obtain ⟨rfl, hfinite⟩ := ensureFinite_eq_ok.mp h
    exact ⟨x, y, hx, hy, hz, hfinite⟩
  · rintro ⟨x, y, hx, hy, hz, hfinite⟩
    refine ⟨x, hx, bind_eq_ok.mpr ⟨y, hy, bind_eq_ok.mpr ⟨result, hz, ?_⟩⟩⟩
    exact ensureFinite_eq_ok.mpr ⟨rfl, hfinite⟩

theorem evaluate_call_eq_ok :
    (call function inner).evaluate ar bindings = .ok result ↔
      ∃ x, inner.evaluate ar bindings = .ok x ∧ x.map (ar.call function) = result ∧
        result.all ar.isFinite = true := by
  rw [evaluate, bind_eq_ok]
  exact exists_congr fun x => and_congr_right fun _ => ensureFinite_eq_ok

end Steps

section Unbound

variable {name : String} {e : Expr α}

theorem ensureFinite_ne_unbound (x : Operand α) :
    ar.ensureFinite e x ≠ .error (.unbound name) := by
  intro h
  unfold Arithmetic.ensureFinite at h
  by_cases hfinite : x.all ar.isFinite = true
  · rw [if_pos hfinite] at h
    cases h
  · rw [if_neg hfinite] at h
    cases h

theorem point_ne_unbound (operator : BinaryOperator) (a b : α) :
    ar.point operator a b ≠ .error (.unbound name) := by
  intro h
  unfold Arithmetic.point at h
  split at h <;> cases h

/-- Only a variable without an operand makes an expression unbound. The induction
is over the tree. -/
theorem unbound_of_evaluate (h : e.evaluate ar bindings = .error (.unbound name)) :
    name ∈ e.occurrences ∧ bindings name = none := by
  induction e with
  | number value => cases h
  | var other =>
    rw [evaluate] at h
    cases hother : bindings other with
    | some x =>
      rw [hother] at h
      cases h
    | none =>
      rw [hother] at h
      cases h
      exact ⟨List.mem_singleton_self _, hother⟩
  | negate inner ih => exact ih (map_eq_error.mp h)
  | binary operator left right ihleft ihright =>
    rw [evaluate] at h
    rcases bind_eq_error.mp h with hleft | ⟨x, _, h⟩
    · obtain ⟨hname, hnone⟩ := ihleft hleft
      exact ⟨List.mem_append_left _ hname, hnone⟩
    rcases bind_eq_error.mp h with hright | ⟨y, _, h⟩
    · obtain ⟨hname, hnone⟩ := ihright hright
      exact ⟨List.mem_append_right _ hname, hnone⟩
    rcases bind_eq_error.mp h with hzip | ⟨result, _, h⟩
    · rcases Operand.fault_of_zipWith hzip with ⟨a, b, hpoint⟩ | ⟨m, n, hlengths⟩
      · exact absurd hpoint (point_ne_unbound operator a b)
      · cases hlengths
    · exact absurd h (ensureFinite_ne_unbound result)
  | call function argument ih =>
    rw [evaluate] at h
    rcases bind_eq_error.mp h with hargument | ⟨x, _, h⟩
    · exact ih hargument
    · exact absurd h (ensureFinite_ne_unbound _)

end Unbound

end Expr

end SignalMap
