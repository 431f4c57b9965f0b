import SignalMap.Proofs.Result
import SignalMap.Proofs.Value.Integers

/-!
Arrays of integers in documents. One item that fits no signed word turns all of
them into doubles; without such an item the array holds the integers themselves.
-/

namespace SignalMap

def Json.integer? : Json → Option Int
  | .number n => n.integer?
  | _ => none

namespace Scalar

inductive StandsFor : Scalar → Int → Prop
  | signed (word : Int64) : StandsFor ⟨.long, word⟩ word.toInt
  | unsigned (word : UInt64) (h : Text.maxSigned < word.toNat) : StandsFor ⟨.ulong, word⟩ word.toNat

variable {s : Scalar} {n : Int}

theorem standsFor_ofJsonNumber {literal : JsonNumber} (h : literal.integer? = some n) :
    StandsFor (ofJsonNumber literal) n := by
  by_cases hn : n ≤ Text.maxSigned
  · obtain ⟨word, hscalar, rfl⟩ := ofJsonNumber_of_le h hn
    rw [hscalar]
    exact .signed word
  · obtain ⟨word, hscalar, rfl⟩ := ofJsonNumber_of_lt h (lt_of_not_ge hn)
    rw [hscalar]
    exact .unsigned word (by omega)

theorem StandsFor.toDouble_eq (h : StandsFor s n) : s.toDouble = Numeric.ofInteger n := by
  cases h <;> rfl

theorem StandsFor.long?_of_le (h : StandsFor s n) (hn : n ≤ Text.maxSigned) :
    ∃ word : Int64, s.long? = some word ∧ word.toInt = n := by
  cases h with
  | signed word => exact ⟨word, rfl, rfl⟩
  | unsigned word hlarge => omega

theorem StandsFor.long?_of_lt (h : StandsFor s n) (hn : Text.maxSigned < n) : s.long? = none := by
  cases h with
  | signed word =>
    have hword := toInt_le_maxSigned word
    omega
  | unsigned word _ => rfl

end Scalar

namespace Value

variable {items : List Json} {scalars : List Scalar} {ns : List Int}

theorem exists_itemOfJson? {item : Json} {n : Int} (h : item.integer? = some n) :
    ∃ s, itemOfJson? item = some s ∧ s.StandsFor n := by
  cases item with
  | number literal => exact ⟨_, rfl, Scalar.standsFor_ofJsonNumber h⟩
  | _ => simp [Json.integer?] at h

/-- Every item of an array of integers is read. -/
theorem exists_scalars (h : List.Forall₂ (fun item n => item.integer? = some n) items ns) :
    ∃ scalars, items.mapM itemOfJson? = some scalars ∧
      List.Forall₂ Scalar.StandsFor scalars ns := by
  induction h with
  | nil => exact ⟨[], rfl, .nil⟩
  | cons hitem _ ih =>
    obtain ⟨s, hs, hstands⟩ := exists_itemOfJson? hitem
    obtain ⟨others, hothers, hrest⟩ := ih
    refine ⟨s :: others, ?_, .cons hstands hrest⟩
    exact mapM_eq_some.mpr (.cons hs (mapM_eq_some.mp hothers))

theorem exists_words (h : List.Forall₂ Scalar.StandsFor scalars ns)
    (hwords : ∀ n ∈ ns, n ≤ Text.maxSigned) :
    ∃ words, scalars.mapM Scalar.long? = some words ∧ words.map Int64.toInt = ns := by
  induction h with
  | nil => exact ⟨[], rfl, rfl⟩
  | cons hstands _ ih =>
    obtain ⟨hfirst, hrest⟩ := List.forall_mem_cons.mp hwords
    obtain ⟨word, hword, rfl⟩ := hstands.long?_of_le hfirst
    obtain ⟨others, hothers, rfl⟩ := ih hrest
    exact ⟨word :: others, mapM_eq_some.mpr (.cons hword (mapM_eq_some.mp hothers)), rfl⟩

theorem map_toDouble_of_standsFor (h : List.Forall₂ Scalar.StandsFor scalars ns) :
    scalars.map Scalar.toDouble = ns.map Numeric.ofInteger := by
  induction h with
  | nil => rfl
  | cons hstands _ ih => rw [List.map_cons, List.map_cons, hstands.toDouble_eq, ih]

/-- An array of signed words holds these words. -/
theorem arrayOfScalars_of_forall_le (h : List.Forall₂ Scalar.StandsFor scalars ns)
    (hwords : ∀ n ∈ ns, n ≤ Text.maxSigned) :
    ∃ words : List Int64, arrayOfScalars scalars = ⟨.long, words⟩ ∧ words.map Int64.toInt = ns := by
  obtain ⟨words, hread, hnumbers⟩ := exists_words h hwords
  refine ⟨words, ?_, hnumbers⟩
  rw [arrayOfScalars, hread]

/-- One integer above the signed words makes doubles of all. -/
theorem arrayOfScalars_of_exists_lt (h : List.Forall₂ Scalar.StandsFor scalars ns)
    (hlarge : ∃ n ∈ ns, Text.maxSigned < n) :
    arrayOfScalars scalars = .ofDoubles (ns.map Numeric.ofInteger) := by
  obtain ⟨n, hn, hlt⟩ := hlarge
  obtain ⟨s, hs, hstands⟩ := exists_of_forall₂ h hn
  have hnone : scalars.mapM Scalar.long? = none := by
    apply Option.eq_none_iff_forall_ne_some.mpr
    intro words hwords
    obtain ⟨i, hi⟩ := List.mem_iff_getElem?.mp hs
    obtain ⟨word, _, hword⟩ := getElem?_of_forall₂ (mapM_eq_some.mp hwords) hi
    rw [hstands.long?_of_lt hlt] at hword
    cases hword
  rw [arrayOfScalars, hnone, map_toDouble_of_standsFor h]

/-- An array of integers in a document is read as one of an integer type that holds just these
integers, exactly if none of them is above the signed words. It is one of words then, and one of
doubles otherwise. -/
theorem ofJson?_integers (h : List.Forall₂ (fun item n => item.integer? = some n) items ns) :
    ∃ a, ofJson? (.array items) = some (.array a) ∧
      ((∃ (t : IntegerType) (xs : List t.dtype.Element), a = ⟨t.dtype, xs⟩ ∧
        xs.map t.number = ns) ↔ ∀ n ∈ ns, n ≤ Text.maxSigned) ∧
      ((∀ n ∈ ns, n ≤ Text.maxSigned) → a.dtype = .long) ∧
      ((∃ n ∈ ns, Text.maxSigned < n) → a = .ofDoubles (ns.map Numeric.ofInteger)) := by
  obtain ⟨scalars, hscalars, hstands⟩ := exists_scalars h
  refine ⟨arrayOfScalars scalars, ?_, ?_, ?_, arrayOfScalars_of_exists_lt hstands⟩
  · rw [ofJson?, hscalars]
    rfl
  · constructor
    · rintro ⟨t, xs, harray, -⟩
      by_contra hnot
      push Not at hnot
      have hdoubles := arrayOfScalars_of_exists_lt hstands hnot
      have htype := congrArg NumericArray.dtype (harray.symm.trans hdoubles)
      cases t <;> cases htype
    · intro hwords
      obtain ⟨words, harray, hnumbers⟩ := arrayOfScalars_of_forall_le hstands hwords
      exact ⟨.long, words, harray, hnumbers⟩
  · intro hwords
    obtain ⟨words, harray, -⟩ := arrayOfScalars_of_forall_le hstands hwords
    rw [harray]

theorem ofJson?_integers_wide : ∃ a,
    ofJson? (.array [.number (.negative (-1)), .number (.unsigned 9007199254740993)]) =
      some (.array a) ∧
    a.dtype = .long ∧
    ∃ (t : IntegerType) (xs : List t.dtype.Element), a = ⟨t.dtype, xs⟩ ∧
      xs.map t.number = [-1, 9007199254740993] := by
  have hitems : List.Forall₂ (fun item n => Json.integer? item = some n)
      [.number (.negative (-1)), .number (.unsigned 9007199254740993)] [-1, 9007199254740993] :=
    .cons (by decide) (.cons (by decide) .nil)
  have hwords : ∀ n ∈ [(-1 : Int), 9007199254740993], n ≤ Text.maxSigned := by decide
  obtain ⟨a, ha, hintegers, hlong, -⟩ := ofJson?_integers hitems
  exact ⟨a, ha, hlong hwords, hintegers.mpr hwords⟩

/-- Two integers that only unsigned words hold become doubles. -/
theorem not_forall_ofJson?_integers :
    ¬ ∀ (items : List Json) (ns : List Int),
      List.Forall₂ (fun item n => item.integer? = some n) items ns →
      (∃ common : IntegerType, ∀ n ∈ ns, common.low ≤ n ∧ n ≤ common.high) →
        ∃ (t : IntegerType) (xs : List t.dtype.Element),
          ofJson? (.array items) = some (.array ⟨t.dtype, xs⟩) ∧ xs.map t.number = ns := by
  intro hall
  have hitems : List.Forall₂ (fun item n => Json.integer? item = some n)
      [.number (.unsigned 9223372036854775809), .number (.unsigned 18446744073709551615)]
      [9223372036854775809, 18446744073709551615] :=
    .cons (by decide) (.cons (by decide) .nil)
  obtain ⟨t, xs, harray, -⟩ := hall _ _ hitems ⟨.ulong, by decide⟩
  have hdouble : (ofJson? (.array [.number (.unsigned 9223372036854775809),
      .number (.unsigned 18446744073709551615)])).bind dataType? = some .double := by decide +kernel
  rw [harray] at hdouble
  cases t <;> cases hdouble

end Value

end SignalMap
