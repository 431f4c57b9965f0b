import SignalMap.Proofs.Text.Trimming
import SignalMap.Text.Numeral

/-!
Machine words. An integer is a signed word when it lies in the range of one, and
numerals are read into words only. Checked arithmetic has no result where an exact
one is no word. What is read as a numeral is a run of digits behind a sign, if there is
one, and the decimal digits of a word are read back.
-/

namespace SignalMap.Text

def IsSigned (n : Int) : Prop :=
  -(maxSigned : Int) - 1 ≤ n ∧ n ≤ maxSigned

instance : DecidablePred IsSigned := fun n =>
  inferInstanceAs (Decidable (-(maxSigned : Int) - 1 ≤ n ∧ n ≤ maxSigned))

def signedWord? (n : Int) : Option Int :=
  if IsSigned n then some n else none

def unsignedWord? (n : Int) : Option Nat :=
  if 0 ≤ n ∧ n ≤ maxUnsigned then some n.toNat else none

theorem isSigned_natural {n : Nat} (h : n ≤ maxSigned) : IsSigned n := by
  unfold IsSigned
  omega

/-! Numerals -/

theorem digits?_eq_some_iff {cs : List Char} {n : Nat} :
    digits? cs = some n ↔ cs ≠ [] ∧ cs.all Char.isDigit ∧ digitsValue cs = n := by
  unfold digits?
  rw [Option.ite_none_right_eq_some, Option.some_inj, and_assoc]

theorem isDigit_of_mem {c : Char} {cs : List Char} {n : Nat} (h : digits? cs = some n)
    (hc : c ∈ cs) : c.isDigit = true :=
  List.all_eq_true.mp (digits?_eq_some_iff.mp h).2.1 c hc

/-- An unsigned numeral is a run of digits for an unsigned word, and may have a plus
sign in front. -/
theorem unsigned?_eq_some_iff {cs : List Char} {n : Nat} :
    unsigned? cs = some n ↔
      ∃ run, (cs = run ∨ cs = '+' :: run) ∧ digits? run = some n ∧ n ≤ maxUnsigned := by
  unfold unsigned?
  split
  next rest =>
    simp only [Option.filter_eq_some_iff, decide_eq_true_eq]
    constructor
    · intro h
      exact ⟨rest, Or.inr rfl, h⟩
    · rintro ⟨run, rfl | hrun, hdigits, hle⟩
      · exact absurd (isDigit_of_mem hdigits List.mem_cons_self) (by decide)
      · cases hrun
        exact ⟨hdigits, hle⟩
  next hplus =>
    simp only [Option.filter_eq_some_iff, decide_eq_true_eq]
    constructor
    · intro h
      exact ⟨cs, Or.inl rfl, h⟩
    · rintro ⟨run, rfl | hrun, hdigits, hle⟩
      · exact ⟨hdigits, hle⟩
      · exact absurd hrun (hplus run)

theorem signedRun_eq_some_iff {run : List Char} {bound : Nat} {f : Int → Int} {n : Int} :
    ((digits? run).filter (· ≤ bound) >>= fun size => pure (size : Int)).map f = some n ↔
      ∃ size : Nat, digits? run = some size ∧ size ≤ bound ∧ n = f size := by
  simp only [Option.map_eq_some_iff, Option.bind_eq_bind, Option.bind_eq_some_iff,
    Option.filter_eq_some_iff, Option.pure_def, Option.some.injEq, decide_eq_true_eq]
  constructor
  · rintro ⟨_, ⟨size, ⟨hdigits, hle⟩, rfl⟩, rfl⟩
    exact ⟨size, hdigits, hle, rfl⟩
  · rintro ⟨size, hdigits, hle, rfl⟩
    exact ⟨size, ⟨size, ⟨hdigits, hle⟩, rfl⟩, rfl⟩

/-- A signed numeral is a run of digits behind a sign or none, and its value may be one
more behind a minus sign. -/
theorem signed?_eq_some_iff {cs : List Char} {n : Int} :
    signed? cs = some n ↔
      ∃ run size, digits? run = some size ∧
        ((cs = run ∨ cs = '+' :: run) ∧ size ≤ maxSigned ∧ n = size ∨
          cs = '-' :: run ∧ size ≤ maxSigned + 1 ∧ n = -size) := by
  unfold signed?
  split
  next rest =>
    rw [signedRun_eq_some_iff]
    constructor
    · rintro ⟨size, hdigits, hle, rfl⟩
      exact ⟨rest, size, hdigits, Or.inr ⟨rfl, hle, rfl⟩⟩
    · rintro ⟨run, size, hdigits, ⟨rfl | hrun, _⟩ | ⟨hrun, hle, rfl⟩⟩
      · exact absurd (isDigit_of_mem hdigits List.mem_cons_self) (by decide)
      · cases hrun
      · cases hrun
        exact ⟨size, hdigits, hle, rfl⟩
  next rest =>
    rw [signedRun_eq_some_iff]
    constructor
    · rintro ⟨size, hdigits, hle, rfl⟩
      exact ⟨rest, size, hdigits, Or.inl ⟨Or.inr rfl, hle, rfl⟩⟩
    · rintro ⟨run, size, hdigits, ⟨rfl | hrun, hle, rfl⟩ | ⟨hrun, _⟩⟩
      · exact absurd (isDigit_of_mem hdigits List.mem_cons_self) (by decide)
      · cases hrun
        exact ⟨size, hdigits, hle, rfl⟩
      · cases hrun
  next hminus hplus =>
    rw [signedRun_eq_some_iff]
    constructor
    · rintro ⟨size, hdigits, hle, rfl⟩
      exact ⟨cs, size, hdigits, Or.inl ⟨Or.inl rfl, hle, rfl⟩⟩
    · rintro ⟨run, size, hdigits, ⟨rfl | hrun, hle, rfl⟩ | ⟨hrun, _⟩⟩
      · exact ⟨size, hdigits, hle, rfl⟩
      · exact absurd hrun (hplus run)
      · exact absurd hrun (hminus run)

theorem isSigned_of_signed? {cs : List Char} {n : Int} (h : signed? cs = some n) :
    IsSigned n := by
  unfold IsSigned
  obtain ⟨_, size, _, ⟨_, hle, rfl⟩ | ⟨_, hle, rfl⟩⟩ := signed?_eq_some_iff.mp h
  · omega
  · omega

/-- In a numeral stand digits and signs only. -/
theorem mem_of_signed? {cs : List Char} {n : Int} {c : Char} (h : signed? cs = some n)
    (hc : c ∈ cs) : c.isDigit = true ∨ c = '+' ∨ c = '-' := by
  obtain ⟨run, _, hdigits, ⟨rfl | rfl, _⟩ | ⟨rfl, _⟩⟩ := signed?_eq_some_iff.mp h
  · exact Or.inl (isDigit_of_mem hdigits hc)
  · rcases List.mem_cons.mp hc with rfl | hrun
    · exact Or.inr (Or.inl rfl)
    · exact Or.inl (isDigit_of_mem hdigits hrun)
  · rcases List.mem_cons.mp hc with rfl | hrun
    · exact Or.inr (Or.inr rfl)
    · exact Or.inl (isDigit_of_mem hdigits hrun)

theorem mem_of_unsigned? {cs : List Char} {n : Nat} {c : Char} (h : unsigned? cs = some n)
    (hc : c ∈ cs) : c.isDigit = true ∨ c = '+' := by
  obtain ⟨run, rfl | rfl, hdigits, _⟩ := unsigned?_eq_some_iff.mp h
  · exact Or.inl (isDigit_of_mem hdigits hc)
  · rcases List.mem_cons.mp hc with rfl | hrun
    · exact Or.inr rfl
    · exact Or.inl (isDigit_of_mem hdigits hrun)

/-! The digits of a word -/

theorem isDigit_of_mem_toDigits {n : Nat} {c : Char} (h : c ∈ Nat.toDigits 10 n) :
    c.isDigit = true :=
  Nat.isDigit_of_mem_toDigits (by decide) (by decide) h

theorem isDigit_toDigits (n : Nat) : (Nat.toDigits 10 n).all Char.isDigit :=
  List.all_eq_true.mpr fun _ hc => isDigit_of_mem_toDigits hc

theorem digitsValue_toDigits (n : Nat) : digitsValue (Nat.toDigits 10 n) = n :=
  Nat.ofDigitChars_toDigits (by decide) (by decide)

theorem digits?_of_digits {cs : List Char} (hne : cs ≠ []) (h : cs.all Char.isDigit) :
    digits? cs = some (digitsValue cs) :=
  if_pos ⟨hne, h⟩

theorem digits?_toDigits (n : Nat) : digits? (Nat.toDigits 10 n) = some n := by
  rw [digits?_of_digits Nat.toDigits_ne_nil (isDigit_toDigits n), digitsValue_toDigits]

theorem not_isBlank_of_isDigit {c : Char} (h : c.isDigit = true) : ¬ isBlank c := by
  have hrange : 48 ≤ c.toNat ∧ c.toNat ≤ 57 := by
    change (decide (48 ≤ c.toNat) && decide (c.toNat ≤ 57)) = true at h
    simpa using h
  exact not_isBlank_of_graphic (by omega) (by omega)

theorem trimChars_toDigits (n : Nat) : trimChars (Nat.toDigits 10 n) = Nat.toDigits 10 n :=
  trimChars_of_not_blank fun _ hc => not_isBlank_of_isDigit (isDigit_of_mem_toDigits hc)

/-- A run of digits is an unsigned numeral when its value is an unsigned word. -/
theorem unsigned?_of_digits {cs : List Char} (hne : cs ≠ []) (h : cs.all Char.isDigit) :
    unsigned? cs = if digitsValue cs ≤ maxUnsigned then some (digitsValue cs) else none := by
  have hrun : unsigned? cs = (digits? cs).filter (· ≤ maxUnsigned) := by
    unfold unsigned?
    split
    next rest =>
      exact absurd (List.all_eq_true.mp h '+' List.mem_cons_self) (by decide)
    next => rfl
  rw [hrun, digits?_of_digits hne h]
  by_cases hword : digitsValue cs ≤ maxUnsigned <;> simp [Option.filter, hword]

/-- A number is read back from its digits when it is an unsigned word. -/
theorem unsigned?_toDigits (n : Nat) :
    unsigned? (Nat.toDigits 10 n) = if n ≤ maxUnsigned then some n else none := by
  rw [unsigned?_of_digits Nat.toDigits_ne_nil (isDigit_toDigits n), digitsValue_toDigits]

/-- A signed word is read back from its decimal text. -/
theorem signed?_toString {n : Int} (h : IsSigned n) : signed? (toString n).toList = some n := by
  rw [signed?_eq_some_iff]
  cases n with
  | ofNat size =>
    refine ⟨Nat.toDigits 10 size, size, digits?_toDigits size, Or.inl ⟨Or.inl ?_, ?_, rfl⟩⟩
    · exact Nat.toList_repr
    · exact Int.ofNat_le.mp h.2
  | negSucc less =>
    refine ⟨Nat.toDigits 10 (less + 1), less + 1, digits?_toDigits _, Or.inr ⟨?_, ?_, rfl⟩⟩
    · change ("-" ++ (less + 1).repr).toList = _
      rw [String.toList_append, Nat.toList_repr]
      rfl
    · unfold IsSigned at h
      omega

theorem unsigned?_toString {n : Nat} (h : n ≤ maxUnsigned) :
    unsigned? (toString n).toList = some n := by
  have hdigits : (toString n).toList = Nat.toDigits 10 n := Nat.toList_repr
  rw [hdigits, unsigned?_toDigits, if_pos h]

end SignalMap.Text
