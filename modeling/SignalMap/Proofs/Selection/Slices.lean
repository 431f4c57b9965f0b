import SignalMap.Proofs.Resolution.Safety
import SignalMap.Proofs.Selection.Bounds
import SignalMap.Proofs.Selection.Positions

/-!
Slices of arrays. A selector that was read from a text selects by positions: one
position, which counts from the end when it is negative, or the positions of a window
that are a multiple of the step away from its beginning. It does so in words, without
an overflow and without a cut outside the array.
-/

namespace SignalMap

namespace Selector

/-! Selection in checked words, which has no result at all where an exact number is no
word, where a cut lies outside the array or where the step is zero -/

def elementInWords? (a : NumericArray) (position : Int) : Option (Option Scalar) := do
  let place ← if position < 0 then Text.signedWord? (a.length + position) else some position
  return if place < 0 then none else a.get? place.toNat

def clampInWords? (n : Int) (length : Nat) : Option Nat :=
  if n < 0 then (Text.unsignedWord? (-n)).map fun size => length - size
  else (Text.unsignedWord? n).map fun size => min size length

def bindClampedInWords (indices : List Nat) (length omitted : Nat) :
    Option Bound → ExceptT Failure Option (Nat × List Nat)
  | none => pure (omitted, indices)
  | some bound => do
    let (n, rest) ← ExceptT.mk (some (bind indices bound))
    let place ← ExceptT.lift (clampInWords? n length)
    return (place, rest)

def selectInWords (s : Selector) (indices : List Nat) (a : NumericArray) :
    ExceptT Failure Option Value :=
  if indices.length < s.placeholderCount then
    throw (.tooFewIndices s.placeholderCount indices.length)
  else match s with
    | .index bound => do
      let (position, _) ← ExceptT.mk (some (bind indices bound))
      match ← ExceptT.lift (elementInWords? a position) with
      | some x => return .scalar x
      | none => throw (.outOfRange position a.length)
    | .range start stop step => do
      let (start, indices) ← bindClampedInWords indices a.length 0 start
      let (stop, _) ← bindClampedInWords indices a.length a.length stop
      let taken ← ExceptT.lift (a.strided? start stop step)
      return .array taken

def InWords (s : Selector) : Prop :=
  ∀ n, .literal n ∈ s.bounds → Text.IsSigned n

theorem InWords.index {bound : Bound} (h : (Selector.index bound).InWords) :
    ∀ n, bound = .literal n → Text.IsSigned n :=
  fun n hn => h n (hn ▸ List.mem_singleton_self _)

theorem InWords.start {start stop : Option Bound} {step : Nat}
    (h : (Selector.range start stop step).InWords) : ∀ n, .literal n ∈ start → Text.IsSigned n :=
  fun n hn => h n (List.mem_append_left _ (Option.mem_toList.mpr hn))

theorem InWords.stop {start stop : Option Bound} {step : Nat}
    (h : (Selector.range start stop step).InWords) : ∀ n, .literal n ∈ stop → Text.IsSigned n :=
  fun n hn => h n (List.mem_append_right _ (Option.mem_toList.mpr hn))

theorem isSigned_of_parseBound {cs : List Char} {n : Int}
    (h : parseBound cs = .ok (some (.literal n))) : Text.IsSigned n := by
  unfold parseBound at h
  split at h
  next => cases h
  next => cases h
  next =>
    split at h
    next hsigned =>
      cases h
      exact Text.isSigned_of_signed? hsigned
    next => cases h

/-- The numbers of two bounds that have been read are signed words. -/
theorem inWords_of_parseBound {cs cs' : List Char} {start stop : Option Bound} {step : Nat}
    (hstart : parseBound cs = .ok start) (hstop : parseBound cs' = .ok stop) :
    (Selector.range start stop step).InWords := by
  intro n hn
  rcases List.mem_append.mp hn with hn | hn
  · obtain rfl := Option.mem_toList.mp hn
    exact isSigned_of_parseBound hstart
  · obtain rfl := Option.mem_toList.mp hn
    exact isSigned_of_parseBound hstop

theorem Reads.inWords {parts : List (List Char)} {s : Selector} (h : Reads parts s) :
    s.InWords := by
  cases h with
  | index hbound =>
    intro n hn
    obtain rfl := List.mem_singleton.mp hn
    exact isSigned_of_parseBound hbound
  | pair hstart hstop => exact inWords_of_parseBound hstart hstop
  | triple hstart hstop _ => exact inWords_of_parseBound hstart hstop

theorem inWords_of_parse {text : String} {s : Selector} (h : parse text = .ok s) :
    s.InWords :=
  (parse_eq_ok_iff.mp h).inWords

section Words

variable {indices rest : List Nat} {n : Int} {length omitted : Nat}

theorem isSigned_of_bind {bound : Bound} (hliteral : ∀ n, .literal n = bound → Text.IsSigned n)
    (h : bind indices bound = .ok (n, rest)) : Text.IsSigned n := by
  unfold bind at h
  split at h
  next =>
    cases h
    exact hliteral _ rfl
  next =>
    split at h
    next =>
      split at h
      next hword =>
        cases h
        exact Text.isSigned_natural hword
      next => cases h
    next => cases h

theorem clampInWords?_eq_some (h : Text.IsSigned n) :
    clampInWords? n length = some (clamp n length) := by
  unfold Text.IsSigned Text.maxSigned at h
  unfold clampInWords? clamp Text.unsignedWord? Text.maxUnsigned
  by_cases hn : n < 0
  · have habs : (-n).toNat = n.natAbs := by omega
    rw [if_pos hn, if_pos hn, if_pos (by omega), Option.map_some, habs]
  · rw [if_neg hn, if_neg hn, if_pos (by omega), Option.map_some]

/-- A position is added to the length only when it is negative. -/
theorem elementInWords?_eq_some {a : NumericArray} (hlength : a.length ≤ Text.maxSigned)
    (h : Text.IsSigned n) : elementInWords? a n = some (element? a n) := by
  unfold elementInWords? element?
  by_cases hn : n < 0
  · have hsum : Text.IsSigned (a.length + n) := by
      unfold Text.IsSigned at h ⊢
      omega
    unfold Text.signedWord?
    rw [if_pos hn, if_pos hn, if_pos hsum]
    rfl
  · rw [if_neg hn, if_neg hn]
    rfl

theorem run_bindClampedInWords {bound? : Option Bound}
    (hliteral : ∀ n, .literal n ∈ bound? → Text.IsSigned n) :
    (bindClampedInWords indices length omitted bound?).run =
      some (bindClamped indices length omitted bound?) := by
  cases bound? with
  | none => rfl
  | some bound =>
    refine run_bind_eq_some rfl ?_
    rintro ⟨n, rest⟩ hbind
    have hword : Text.IsSigned n := isSigned_of_bind (fun n hn => hliteral n (hn ▸ rfl)) hbind
    dsimp only
    rw [clampInWords?_eq_some hword]
    rfl

/-- Selection in words is selection: no number leaves its range, and every cut is a
slice of the array. -/
theorem run_selectInWords {s : Selector} (hwords : s.InWords) (hadvances : s.Advances)
    {a : NumericArray} (hlength : a.length ≤ Text.maxSigned) :
    (s.selectInWords indices a).run = some (s.select indices a) := by
  unfold selectInWords select
  by_cases hfew : indices.length < s.placeholderCount
  · rw [if_pos hfew, if_pos hfew]
    rfl
  · rw [if_neg hfew, if_neg hfew]
    cases s with
    | index bound =>
      refine run_bind_eq_some rfl ?_
      rintro ⟨position, rest⟩ hbind
      have hword : Text.IsSigned position :=
        isSigned_of_bind (fun n hn => hwords.index n hn.symm) hbind
      dsimp only
      rw [elementInWords?_eq_some hlength hword]
      cases element? a position with
      | none => rfl
      | some x => rfl
    | range start stop step =>
      refine run_bind_eq_some (run_bindClampedInWords hwords.start) ?_
      rintro ⟨first, left⟩ hfirst
      refine run_bind_eq_some (run_bindClampedInWords hwords.stop) ?_
      rintro ⟨last, _⟩ hlast
      have htaken := NumericArray.strided?_eq_some
        (bindClamped_le (Nat.zero_le _) hfirst) (bindClamped_le (Nat.le_refl _) hlast) hadvances
      dsimp only
      rw [htaken]
      rfl

end Words

end Selector

namespace Rule

variable {r : Resolver} {s : Scope} {key base : String} {follow : String → Outcome Value}
  {selector : Selector} {a : NumericArray}

theorem result_compute_slice (h : (follow base).result = .ok (.array a)) :
    ((Rule.slice base selector).compute r s key follow).result =
      (selector.select s.context.indices a).mapError fun failure =>
        ⟨key, .selection base failure⟩ := by
  simp only [compute, Outcome.result_bind, h, baseArray]
  simp only [Outcome.result_pure, bind, Except.bind]
  cases selector.select s.context.indices a with
  | error failure => rfl
  | ok selected => rfl

/-- A SLICE rule over an array selects by positions. Each placeholder of its selector
takes the index of the request at its own place, and a selector whose placeholders lack
an index, or have one that is no signed word, is a fault of the rule. A position gives
the element at it, counted from the end when it is negative, and is a fault exactly
when it is outside the array. A range gives, in their order and with their type, the
elements of its window whose distance from the beginning is a multiple of the step.
The length of an array in memory is a signed word, and then none of this leaves the
words in which it is computed. -/
theorem slice_selects_positions {text : String} (hparse : Selector.parse text = .ok selector)
    (hbase : (follow base).result = .ok (.array a)) :
    let indices := s.context.indices
    let outcome := ((Rule.slice base selector).compute r s key follow).result
    (¬ selector.Bindable indices →
      ∃ failure, outcome = .error ⟨key, .selection base failure⟩) ∧
    (∀ bound n, selector = .index bound → selector.Bindable indices →
      n = bound.number indices 0 →
        ((∃ failure, outcome = .error ⟨key, .selection base failure⟩) ↔
          ¬ (-(a.length : Int) ≤ n ∧ n ≤ (a.length : Int) - 1)) ∧
        (-(a.length : Int) ≤ n ∧ n ≤ (a.length : Int) - 1 →
          ∃ x, a.get? (if n < 0 then a.length + n else n).toNat = some x ∧
            outcome = .ok (.scalar x))) ∧
    (∀ start stop step first last, selector = .range start stop step →
      selector.Bindable indices →
      first = Selector.place a.length 0 (start.map (Bound.number indices 0)) →
      last = Selector.place a.length a.length
        (stop.map (Bound.number indices (Selector.placeholders start))) →
        outcome = .ok (.array (a.pick (NumericArray.onStride step first last)))) ∧
    (a.length ≤ Text.maxSigned →
      (selector.selectInWords indices a).run.map (Except.mapError fun failure =>
        ⟨key, .selection base failure⟩) = some outcome) := by
  intro indices outcome
  have houtcome : outcome =
      (selector.select indices a).mapError fun failure => ⟨key, .selection base failure⟩ :=
    result_compute_slice hbase
  rw [houtcome]
  refine ⟨?_, ?_, ?_, ?_⟩
  · intro hbindable
    obtain ⟨failure, hfailure⟩ := Selector.select_of_not_bindable hbindable a
    exact ⟨failure, by rw [hfailure]; rfl⟩
  · rintro bound n rfl hbindable rfl
    refine ⟨⟨?_, ?_⟩, ?_⟩
    · rintro ⟨failure, hfailure⟩ hinside
      obtain ⟨x, _, hx⟩ := Selector.select_index_inside hbindable hinside
      rw [hx] at hfailure
      cases hfailure
    · intro houtside
      rw [Selector.select_index_outside hbindable houtside]
      exact ⟨_, rfl⟩
    · intro hinside
      obtain ⟨x, hget, hx⟩ := Selector.select_index_inside hbindable hinside
      rw [hx]
      exact ⟨x, hget, rfl⟩
  · rintro start stop step first last rfl hbindable rfl rfl
    have hadvances : 1 ≤ step := Selector.advances_of_parse hparse
    rw [Selector.select_range_of_bindable hbindable, NumericArray.strided_eq_pick hadvances]
    rfl
  · intro hlength
    rw [Selector.run_selectInWords (Selector.inWords_of_parse hparse)
      (Selector.advances_of_parse hparse) hlength]
    rfl

def slicedScope : Scope :=
  ⟨⟨"F", "m", "part", "m/part", [1, 9], .default, "1", none, none, none⟩, .empty, []⟩

def fiveWords : NumericArray := ⟨.long, [10, 20, 30, 40, 50]⟩

def givesFiveWords (_ : String) : Outcome Value :=
  pure (.array fiveWords)

/-- From the first index up to the last element, every second one. -/
theorem slice_selects_positions_window :
    Selector.parse " [ # :-1:2] " =
        .ok (.range (some .placeholder) (some (.literal (-1))) 2) ∧
      ((Rule.slice "raw" (.range (some .placeholder) (some (.literal (-1))) 2)).compute
          .standard slicedScope "part" givesFiveWords).result =
        .ok (.array ⟨.long, [20, 40]⟩) := by
  have hparse : Selector.parse " [ # :-1:2] " =
      .ok (.range (some .placeholder) (some (.literal (-1))) 2) := by
    rfl
  have hbase : (givesFiveWords "raw").result = .ok (.array fiveWords) := rfl
  have hbindable : (Selector.range (some .placeholder) (some (.literal (-1))) 2).Bindable
      slicedScope.context.indices := by
    intro j hj
    obtain rfl : j = 0 := Nat.lt_one_iff.mp hj
    exact ⟨1, rfl, by decide⟩
  obtain ⟨_, _, hrange, _⟩ :=
    @slice_selects_positions .standard slicedScope "part" "raw" _ _ _ _ hparse hbase
  refine ⟨hparse, ?_⟩
  rw [hrange _ _ _ 1 4 rfl hbindable rfl rfl]
  rfl

end Rule

end SignalMap
