import SignalMap.Hook
import SignalMap.Proofs.Selection.Bounds

/-!
Shapes of values. A transform that does one operation to every number, or turns the
elements round, gives a value of the same shape, with as many elements and of the same
type. A selection may give a number for an array and fewer elements, but of the type
of the array.
-/

namespace SignalMap

namespace Value

inductive Shape where
  | scalar
  | array
  | text
  | empty
  deriving DecidableEq

def shape : Value → Shape
  | .scalar _ => .scalar
  | .array _ => .array
  | .text _ => .text
  | .empty => .empty

structure Alike (v w : Value) : Prop where
  dataType : v.dataType? = w.dataType?
  shape : v.shape = w.shape
  elementCount : v.elementCount = w.elementCount

namespace Alike

theorem refl (v : Value) : v.Alike v :=
  ⟨rfl, rfl, rfl⟩

theorem trans {u v w : Value} (huv : u.Alike v) (hvw : v.Alike w) : u.Alike w where
  dataType := huv.dataType.trans hvw.dataType
  shape := huv.shape.trans hvw.shape
  elementCount := huv.elementCount.trans hvw.elementCount

end Alike

theorem alike_scalar_map (operation : Float → Float) (s : Scalar) :
    (scalar (s.map operation)).Alike (scalar s) :=
  ⟨rfl, rfl, rfl⟩

theorem alike_array_map (operation : Float → Float) (a : NumericArray) :
    (array (a.map operation)).Alike (array a) :=
  ⟨rfl, rfl, a.length_map operation⟩

theorem alike_array_reversed (a : NumericArray) : (array a.reversed).Alike (array a) :=
  ⟨rfl, rfl, a.length_reversed⟩

theorem alike_text_reverse (s : String) :
    (text (String.ofList s.toList.reverse)).Alike (text s) := by
  have hempty : (String.ofList s.toList.reverse).isEmpty = s.isEmpty := by
    rw [Bool.eq_iff_iff, String.isEmpty_iff, String.isEmpty_iff, ← String.toList_eq_nil_iff,
      ← String.toList_eq_nil_iff, String.toList_ofList, List.reverse_eq_nil_iff]
  refine ⟨rfl, rfl, ?_⟩
  change (if (String.ofList s.toList.reverse).isEmpty then 0 else 1) =
    if s.isEmpty then 0 else 1
  rw [hempty]

/-- An operation on every number changes nothing else. -/
theorem alike_of_mapNumbers? {operation : Float → Float} {v w : Value}
    (h : w.mapNumbers? operation = some v) : v.Alike w := by
  cases w with
  | scalar s =>
    cases h
    exact alike_scalar_map operation s
  | array a =>
    cases h
    exact alike_array_map operation a
  | text s => cases h
  | empty => cases h

end Value

namespace Hook

variable {invocation : Invocation} {v w : Value}

theorem alike_of_negate (hinput : invocation.input = some w) (h : negate invocation = .ok v) :
    v.Alike w := by
  unfold negate ofTransform at h
  rw [hinput] at h
  cases w with
  | scalar s =>
    cases h
    exact Value.alike_scalar_map _ s
  | array a =>
    cases h
    exact Value.alike_array_map _ a
  | text s => cases h
  | empty =>
    cases h
    exact .refl _

theorem alike_of_reverse (hinput : invocation.input = some w) (h : reverse invocation = .ok v) :
    v.Alike w := by
  unfold reverse ofTransform at h
  rw [hinput] at h
  cases w with
  | scalar s =>
    cases h
    exact .refl _
  | array a =>
    cases h
    exact Value.alike_array_reversed a
  | text s =>
    cases h
    exact Value.alike_text_reverse s
  | empty =>
    cases h
    exact .refl _

end Hook

namespace Selector

variable {indices : List Nat} {a : NumericArray}

theorem dtype_of_element? {position : Int} {x : Scalar} (h : element? a position = some x) :
    x.dtype = a.dtype := by
  obtain ⟨_, hget⟩ := element?_eq_some_iff.mp h
  obtain ⟨y, _, rfl⟩ := Option.map_eq_some_iff.mp hget
  rfl

/-- Whatever is selected from an array has the type of the array. -/
theorem dataType?_of_select {s : Selector} {v : Value} (h : s.select indices a = .ok v) :
    v.dataType? = some a.dtype := by
  by_cases hbindable : s.Bindable indices
  · cases s with
    | index bound =>
      rw [select_index hbindable] at h
      cases hfound : element? a (bound.number indices 0) with
      | none =>
        rw [hfound] at h
        cases h
      | some x =>
        rw [hfound] at h
        cases h
        exact congrArg some (dtype_of_element? hfound)
    | range start stop step =>
      rw [select_range_of_bindable hbindable] at h
      cases h
      rfl
  · obtain ⟨failure, hfailure⟩ := select_of_not_bindable hbindable a
    rw [hfailure] at h
    cases h

end Selector

end SignalMap
