import SignalMap.Proofs.Declaration.Checked
import SignalMap.Proofs.Text.Words

/-!
The numbers that bounds stand for. Each placeholder of a selector has an index of the
request, the one at its own place among the placeholders, and a selector can be bound
when these indices are there and are signed words. A bound of a range then means a
place inside the array.
-/

namespace SignalMap

def Bound.number (indices : List Nat) (before : Nat) : Bound → Int
  | .literal n => n
  | .placeholder => indices.getD before 0

def Bound.Bindable (indices : List Nat) (before : Nat) (bound : Bound) : Prop :=
  bound = .placeholder → ∃ i, indices[before]? = some i ∧ i ≤ Text.maxSigned

namespace Selector

def Bindable (indices : List Nat) (s : Selector) : Prop :=
  ∀ j < s.placeholderCount, ∃ i, indices[j]? = some i ∧ i ≤ Text.maxSigned

/-- The place that a bound of a range means in an array: a negative bound counts from
the end, and no place lies outside the array. -/
def place (length omitted : Nat) : Option Int → Nat
  | none => omitted
  | some n => if n < 0 then (max 0 (length + n)).toNat else (min n length).toNat

theorem clamp_eq_place (n : Int) (length omitted : Nat) :
    clamp n length = place length omitted (some n) := by
  unfold clamp place
  dsimp only
  by_cases hn : n < 0
  · rw [if_pos hn, if_pos hn]
    omega
  · rw [if_neg hn, if_neg hn]
    omega

/-! Binding -/

section Binding

variable {indices : List Nat} {before : Nat} {bound : Bound}

def placeholders (bound? : Option Bound) : Nat :=
  bound?.toList.countP (· == .placeholder)

theorem bind_of_bindable (h : bound.Bindable indices before) :
    bind (indices.drop before) bound =
      .ok (bound.number indices before, indices.drop (before + placeholders (some bound))) := by
  cases bound with
  | literal n => rfl
  | placeholder =>
    obtain ⟨i, hi, hword⟩ := h rfl
    have hdrop : indices.drop before = i :: indices.drop (before + 1) := by
      obtain ⟨hlength, rfl⟩ := List.getElem?_eq_some_iff.mp hi
      exact List.drop_eq_getElem_cons hlength
    unfold bind Bound.number
    rw [hdrop, List.getD_eq_getElem?_getD, hi]
    dsimp only
    rw [if_pos hword]
    rfl

/-- A bound is not bound for one reason only. -/
theorem bind_of_not_bindable (h : ¬ bound.Bindable indices before) :
    bind (indices.drop before) bound = .error .indexTooLarge := by
  cases bound with
  | literal n => exact absurd (fun hplace => nomatch hplace) h
  | placeholder =>
    unfold bind
    cases hdrop : indices.drop before with
    | nil => rfl
    | cons i rest =>
      have hi : indices[before]? = some i := by
        rw [← List.head?_drop, hdrop]
        rfl
      have hword : ¬ i ≤ Text.maxSigned := fun hword => h fun _ => ⟨i, hi, hword⟩
      dsimp only
      rw [if_neg hword]

variable {bound? : Option Bound} (length omitted : Nat)

theorem bindClamped_of_bindable (h : ∀ bound ∈ bound?, bound.Bindable indices before) :
    bindClamped (indices.drop before) length omitted bound? =
      .ok (place length omitted (bound?.map (Bound.number indices before)),
        indices.drop (before + placeholders bound?)) := by
  cases bound? with
  | none => rfl
  | some bound =>
    unfold bindClamped
    dsimp only
    rw [bind_of_bindable (h bound rfl), Option.map_some, ← clamp_eq_place]
    rfl

theorem bindClamped_of_not_bindable (h : ¬ ∀ bound ∈ bound?, bound.Bindable indices before) :
    bindClamped (indices.drop before) length omitted bound? = .error .indexTooLarge := by
  cases bound? with
  | none => exact absurd (fun _ hbound => nomatch hbound) h
  | some bound =>
    have hbound : ¬ bound.Bindable indices before := by
      intro hbindable
      refine h fun other hother => ?_
      cases hother
      exact hbindable
    unfold bindClamped
    dsimp only
    rw [bind_of_not_bindable hbound]
    rfl

end Binding

section Bindable

variable {indices : List Nat}

theorem placeholderCount_range (start stop : Option Bound) (step : Nat) :
    (range start stop step).placeholderCount = placeholders start + placeholders stop :=
  List.countP_append

/-- There are as many indices as placeholders. -/
theorem Bindable.le_length {s : Selector} (h : s.Bindable indices) :
    s.placeholderCount ≤ indices.length := by
  cases hcount : s.placeholderCount with
  | zero => exact Nat.zero_le _
  | succ j =>
    obtain ⟨i, hi, _⟩ := h j (by omega)
    exact (List.getElem?_eq_some_iff.mp hi).1

theorem placeholders_of_mem {bound? : Option Bound} (h : Bound.placeholder ∈ bound?) :
    placeholders bound? = 1 := by
  cases h
  rfl

theorem placeholders_le_one (bound? : Option Bound) : placeholders bound? ≤ 1 := by
  cases bound? with
  | none => exact Nat.zero_le 1
  | some bound => exact List.countP_le_length

theorem mem_of_placeholders {bound? : Option Bound} (h : 0 < placeholders bound?) :
    Bound.placeholder ∈ bound? := by
  cases bound? with
  | none => cases h
  | some bound =>
    cases bound with
    | literal n => cases h
    | placeholder => rfl

theorem bindable_index_iff {bound : Bound} :
    (index bound).Bindable indices ↔ bound.Bindable indices 0 := by
  constructor
  · rintro h rfl
    exact h 0 Nat.one_pos
  · intro h j hj
    have hcount : placeholders (some bound) ≤ 1 := placeholders_le_one _
    change j < placeholders (some bound) at hj
    have hbound : Bound.placeholder = bound :=
      (Option.mem_some.mp (mem_of_placeholders (by omega))).symm
    obtain rfl : j = 0 := by omega
    exact h hbound.symm

/-- The bounds of a range are bound one after the other. -/
theorem bindable_range_iff {start stop : Option Bound} {step : Nat} :
    (range start stop step).Bindable indices ↔
      (∀ bound ∈ start, bound.Bindable indices 0) ∧
        ∀ bound ∈ stop, bound.Bindable indices (placeholders start) := by
  unfold Bindable
  rw [placeholderCount_range]
  constructor
  · intro h
    constructor
    · rintro _ hbound rfl
      exact h 0 (by rw [placeholders_of_mem hbound]; omega)
    · rintro _ hbound rfl
      exact h (placeholders start) (by rw [placeholders_of_mem hbound]; omega)
  · rintro ⟨hstart, hstop⟩ j hj
    by_cases hfirst : j < placeholders start
    · have hone := placeholders_le_one start
      obtain rfl : j = 0 := by omega
      exact hstart _ (mem_of_placeholders hfirst) rfl
    · have hone := placeholders_le_one stop
      obtain rfl : j = placeholders start := by omega
      exact hstop _ (mem_of_placeholders (by omega)) rfl

end Bindable

/-! Selection in terms of places -/

section Select

variable {indices : List Nat} {s : Selector}

/-- A selector that cannot be bound selects nothing. -/
theorem select_of_not_bindable (h : ¬ s.Bindable indices) (a : NumericArray) :
    ∃ failure, s.select indices a = .error failure := by
  unfold select
  by_cases hfew : indices.length < s.placeholderCount
  · rw [if_pos hfew]
    exact ⟨_, rfl⟩
  · rw [if_neg hfew]
    cases s with
    | index bound =>
      have hbind := bind_of_not_bindable fun hbound => h (bindable_index_iff.mpr hbound)
      rw [List.drop_zero] at hbind
      dsimp only
      rw [hbind]
      exact ⟨_, rfl⟩
    | range start stop step =>
      dsimp only
      by_cases hstart : ∀ bound ∈ start, bound.Bindable indices 0
      · have hstop := fun hstop => h (bindable_range_iff.mpr ⟨hstart, hstop⟩)
        have hfirst := bindClamped_of_bindable a.length 0 hstart
        rw [List.drop_zero, Nat.zero_add] at hfirst
        rw [hfirst]
        refine ⟨.indexTooLarge, ?_⟩
        change (bindClamped (indices.drop (placeholders start)) _ _ _ >>= fun last => _) = _
        rw [bindClamped_of_not_bindable a.length a.length hstop]
        rfl
      · have hfirst := bindClamped_of_not_bindable a.length 0 hstart
        rw [List.drop_zero] at hfirst
        rw [hfirst]
        exact ⟨_, rfl⟩

/-- A position selects the element at it, or at its distance from the end. -/
theorem select_index {bound : Bound} (h : (index bound).Bindable indices) (a : NumericArray) :
    (index bound).select indices a =
      match element? a (bound.number indices 0) with
      | some x => .ok (.scalar x)
      | none => .error (.outOfRange (bound.number indices 0) a.length) := by
  have hbind := bind_of_bindable (bindable_index_iff.mp h)
  rw [List.drop_zero] at hbind
  unfold select
  rw [if_neg (Nat.not_lt_of_le h.le_length)]
  dsimp only
  rw [hbind]
  change (match element? a (bound.number indices 0) with
    | some x => _
    | none => _) = _
  cases element? a (bound.number indices 0) with
  | none => rfl
  | some x => rfl

/-- A range selects what lies between its places. -/
theorem select_range_of_bindable {start stop : Option Bound} {step : Nat}
    (h : (range start stop step).Bindable indices) (a : NumericArray) :
    (range start stop step).select indices a =
      .ok (.array (a.strided (place a.length 0 (start.map (Bound.number indices 0)))
        (place a.length a.length (stop.map (Bound.number indices (placeholders start))))
        step)) := by
  obtain ⟨hstart, hstop⟩ := bindable_range_iff.mp h
  have hfirst := bindClamped_of_bindable a.length 0 hstart
  rw [List.drop_zero, Nat.zero_add] at hfirst
  have hlast := bindClamped_of_bindable a.length a.length hstop
  unfold select
  rw [if_neg (Nat.not_lt_of_le h.le_length)]
  dsimp only
  rw [hfirst]
  change (bindClamped (indices.drop (placeholders start)) _ _ _ >>= fun last => _) = _
  rw [hlast]
  rfl

end Select

/-- An element is found exactly at the positions from minus the length up to the
length. -/
theorem element?_eq_some_iff {a : NumericArray} {n : Int} {x : Scalar} :
    element? a n = some x ↔
      (-(a.length : Int) ≤ n ∧ n ≤ (a.length : Int) - 1) ∧
        a.get? (if n < 0 then a.length + n else n).toNat = some x := by
  unfold element?
  dsimp only
  generalize hplace : (if n < 0 then (a.length : Int) + n else n) = p
  constructor
  · intro h
    by_cases hp : p < 0
    · rw [if_pos hp] at h
      cases h
    · rw [if_neg hp] at h
      refine ⟨?_, h⟩
      obtain ⟨y, hy, _⟩ := Option.map_eq_some_iff.mp h
      have hlength : p.toNat < a.length := (List.getElem?_eq_some_iff.mp hy).1
      split at hplace <;> omega
  · rintro ⟨⟨hlow, hhigh⟩, h⟩
    have hp : ¬ p < 0 := by
      split at hplace <;> omega
    rw [if_neg hp]
    exact h

/-- At these positions there is one. -/
theorem exists_element? {a : NumericArray} {n : Int} (hlow : -(a.length : Int) ≤ n)
    (hhigh : n ≤ (a.length : Int) - 1) : ∃ x, element? a n = some x := by
  have hlength : (if n < 0 then (a.length : Int) + n else n).toNat < a.values.length := by
    change _ < a.length
    split <;> omega
  have hget : a.get? (if n < 0 then a.length + n else n).toNat = some ⟨a.dtype, _⟩ :=
    congrArg _ (List.getElem?_eq_getElem hlength)
  exact ⟨_, element?_eq_some_iff.mpr ⟨⟨hlow, hhigh⟩, hget⟩⟩

section Index

variable {indices : List Nat} {bound : Bound} {a : NumericArray}

theorem select_index_inside (h : (index bound).Bindable indices)
    (hinside : -(a.length : Int) ≤ bound.number indices 0 ∧
      bound.number indices 0 ≤ (a.length : Int) - 1) :
    ∃ x, a.get? (if bound.number indices 0 < 0 then a.length + bound.number indices 0
        else bound.number indices 0).toNat = some x ∧
      (index bound).select indices a = .ok (.scalar x) := by
  obtain ⟨x, hx⟩ := exists_element? hinside.1 hinside.2
  refine ⟨x, (element?_eq_some_iff.mp hx).2, ?_⟩
  rw [select_index h, hx]

theorem select_index_outside (h : (index bound).Bindable indices)
    (houtside : ¬ (-(a.length : Int) ≤ bound.number indices 0 ∧
      bound.number indices 0 ≤ (a.length : Int) - 1)) :
    (index bound).select indices a = .error (.outOfRange (bound.number indices 0) a.length) := by
  rw [select_index h]
  cases hfound : element? a (bound.number indices 0) with
  | none => rfl
  | some x => exact absurd (element?_eq_some_iff.mp hfound).1 houtside

end Index

end Selector

end SignalMap
