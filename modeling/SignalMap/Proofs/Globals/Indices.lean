import Mathlib.Data.Nat.Digits.Defs
import SignalMap.Globals
import SignalMap.Proofs.Result
import SignalMap.Proofs.Text.Cutting
import SignalMap.Proofs.Text.Words

/-!
Segments with indices. The name of a segment ends at the first opening bracket, and from
there on nothing stands but groups, each a numeral between an opening bracket and the
next closing one. Any other text is no segment, and a text is a segment in one way only.
-/

namespace SignalMap

/-- The value of a run of digits as a sum of powers of ten, the last digit first. -/
theorem Text.digitsValue_eq_ofDigits (cs : List Char) :
    Text.digitsValue cs = Nat.ofDigits 10 (cs.reverse.map fun c => c.toNat - '0'.toNat) := by
  induction cs using List.reverseRecOn with
  | nil => rfl
  | append_singleton cs c ih =>
    rw [List.reverse_append, List.reverse_singleton, List.singleton_append, List.map_cons,
      Nat.ofDigits_cons, ← ih]
    unfold Text.digitsValue
    rw [List.foldl_append, List.foldl_cons, List.foldl_nil, Nat.add_comm]

namespace Globals

variable {segment key cs inside : List Char} {indices : List Nat} {index : Nat}

/-- Between blanks stands a run of digits, perhaps behind a plus sign, and its value is
an unsigned word. -/
def Denotes (inside : List Char) (index : Nat) : Prop :=
  ∃ run, run ≠ [] ∧ (∀ c ∈ run, c.isDigit = true) ∧
    (Text.trimChars inside = run ∨ Text.trimChars inside = '+' :: run) ∧
    index = Nat.ofDigits 10 (run.reverse.map fun c => c.toNat - '0'.toNat) ∧
    index ≤ Text.maxUnsigned

def group (inside : List Char) : List Char :=
  '[' :: inside ++ [']']

def HasGroups (cs : List Char) (indices : List Nat) : Prop :=
  ∃ groups, cs = groups.flatMap group ∧ (∀ inside ∈ groups, ']' ∉ inside) ∧
    List.Forall₂ Denotes groups indices

def HasIndices (segment key : List Char) (indices : List Nat) : Prop :=
  '[' ∉ key ∧ ∃ groups, segment = key ++ groups ∧ HasGroups groups indices

theorem unsigned?_trimChars_eq_some_iff :
    Text.unsigned? (Text.trimChars inside) = some index ↔ Denotes inside index := by
  rw [Text.unsigned?_eq_some_iff]
  constructor
  · rintro ⟨run, htrim, hdigits, hle⟩
    obtain ⟨hne, hall, rfl⟩ := Text.digits?_eq_some_iff.mp hdigits
    exact ⟨run, hne, List.all_eq_true.mp hall, htrim, Text.digitsValue_eq_ofDigits run, hle⟩
  · rintro ⟨run, hne, hall, htrim, rfl, hle⟩
    refine ⟨run, htrim, ?_, hle⟩
    rw [← Text.digitsValue_eq_ofDigits]
    exact Text.digits?_of_digits hne (List.all_eq_true.mpr hall)

/-- One group of brackets is read, and then those behind it. -/
theorem readIndices_group {fuel : Nat} {inside : List Char} (h : ']' ∉ inside)
    (rest : List Char) :
    readIndices (fuel + 1) ('[' :: inside ++ ']' :: rest) =
      (Text.unsigned? (Text.trimChars inside)).bind fun index =>
        (readIndices fuel rest).map (index :: ·) := by
  have hopened : Text.dropLead? ['['] ('[' :: inside ++ ']' :: rest) =
      some (inside ++ ']' :: rest) :=
    Text.dropLead?_eq_some_iff.mpr rfl
  have hclosed : Text.cutAt [']'] (inside ++ ']' :: rest) = some (inside, rest) :=
    Text.cutAt_single h rest
  rw [List.cons_append] at hopened ⊢
  rw [readIndices]
  · simp only [hopened, hclosed, Option.bind_eq_bind, Option.bind_some, Option.map_eq_bind]
    rfl
  · exact nofun

/-- What can be read begins with a group. -/
theorem exists_group_of_readIndices {fuel : Nat} {c : Char} {rest : List Char}
    (h : readIndices (fuel + 1) (c :: rest) = some indices) :
    ∃ inside after, c :: rest = '[' :: inside ++ ']' :: after ∧ ']' ∉ inside := by
  rw [readIndices] at h
  · obtain ⟨opened, hopened, h⟩ := Option.bind_eq_some_iff.mp h
    obtain ⟨⟨inside, after⟩, hclosed, h⟩ := Option.bind_eq_some_iff.mp h
    have hnot : ¬ [']'] <:+: inside ++ [']'].dropLast :=
      Text.not_infix_of_cutAt (by decide) hclosed
    refine ⟨inside, after, ?_, ?_⟩
    · rw [Text.dropLead?_eq_some_iff.mp hopened, Text.eq_append_of_cutAt hclosed]
      simp
    · rwa [List.dropLast_singleton, List.append_nil, List.singleton_infix_iff] at hnot
  · exact nofun

theorem hasGroups_nil_iff : HasGroups [] indices ↔ indices = [] := by
  constructor
  · rintro ⟨groups, hnil, _, hdenotes⟩
    cases groups with
    | nil => exact List.forall₂_nil_left_iff.mp hdenotes
    | cons inside rest => simp [group] at hnil
  · rintro rfl
    exact ⟨[], rfl, by simp, .nil⟩

theorem exists_group_of_hasGroups {c : Char} {rest : List Char}
    (h : HasGroups (c :: rest) indices) :
    ∃ inside after, c :: rest = '[' :: inside ++ ']' :: after ∧ ']' ∉ inside := by
  obtain ⟨groups, hcs, hclosed, _⟩ := h
  cases groups with
  | nil => cases hcs
  | cons inside groups =>
    refine ⟨inside, groups.flatMap group, ?_, hclosed inside List.mem_cons_self⟩
    rw [hcs, List.flatMap_cons]
    simp [group]

/-- The first group ends at the first closing bracket. -/
theorem eq_of_append_close {inside' rest rest' : List Char} (h : ']' ∉ inside) (h' : ']' ∉ inside')
    (heq : inside ++ ']' :: rest = inside' ++ ']' :: rest') : inside = inside' ∧ rest = rest' := by
  have hcut := Text.cutAt_single h rest
  rw [heq, Text.cutAt_single h' rest'] at hcut
  cases hcut
  exact ⟨rfl, rfl⟩

theorem hasGroups_group_iff {rest : List Char} (h : ']' ∉ inside) :
    HasGroups ('[' :: inside ++ ']' :: rest) indices ↔
      ∃ index, Denotes inside index ∧
        ∃ others, HasGroups rest others ∧ index :: others = indices := by
  constructor
  · rintro ⟨groups, hcs, hclosed, hdenotes⟩
    cases groups with
    | nil => cases hcs
    | cons inside' groups =>
      obtain ⟨hinside', hrest⟩ := List.forall_mem_cons.mp hclosed
      obtain ⟨index, others, hindex, hothers, rfl⟩ := List.forall₂_cons_left_iff.mp hdenotes
      have htail : inside ++ ']' :: rest = inside' ++ ']' :: groups.flatMap group := by
        simpa [group] using hcs
      obtain ⟨rfl, rfl⟩ := eq_of_append_close h hinside' htail
      exact ⟨index, hindex, others, ⟨groups, rfl, hrest, hothers⟩, rfl⟩
  · rintro ⟨index, hindex, others, ⟨groups, rfl, hclosed, hothers⟩, rfl⟩
    refine ⟨inside :: groups, ?_, List.forall_mem_cons.mpr ⟨h, hclosed⟩, .cons hindex hothers⟩
    rw [List.flatMap_cons]
    simp [group]

theorem readIndices_nil (fuel : Nat) : readIndices fuel [] = some [] := by
  cases fuel <;> rfl

/-- The induction is on the fuel: every group takes one unit of it and more than one
character. -/
theorem readIndices_eq_some_iff {fuel : Nat} (h : cs.length ≤ fuel) :
    readIndices fuel cs = some indices ↔ HasGroups cs indices := by
  induction fuel generalizing cs indices with
  | zero =>
    obtain rfl := List.length_eq_zero_iff.mp (Nat.le_zero.mp h)
    rw [readIndices_nil, hasGroups_nil_iff, Option.some_inj, eq_comm]
  | succ fuel ih =>
    cases cs with
    | nil => rw [readIndices_nil, hasGroups_nil_iff, Option.some_inj, eq_comm]
    | cons c rest =>
      by_cases hgroup : ∃ inside after, c :: rest = '[' :: inside ++ ']' :: after ∧ ']' ∉ inside
      · obtain ⟨inside, after, hcs, hclosed⟩ := hgroup
        have hafter : after.length ≤ fuel := by
          rw [hcs] at h
          simp only [List.length_append, List.length_cons] at h
          omega
        rw [hcs, readIndices_group hclosed, hasGroups_group_iff hclosed]
        simp only [Option.bind_eq_some_iff, Option.map_eq_some_iff,
          unsigned?_trimChars_eq_some_iff, ih hafter]
      · -- without a group in front the text is neither read nor a run of groups
        constructor
        · intro hread
          exact absurd (exists_group_of_readIndices hread) hgroup
        · intro hgroups
          exact absurd (exists_group_of_hasGroups hgroups) hgroup

/-- Groups begin with a bracket, so the name ends where they begin. -/
theorem takeWhile_append_groups {groups : List Char} (hkey : '[' ∉ key)
    (hgroups : groups = [] ∨ ∃ rest, groups = '[' :: rest) :
    (key ++ groups).takeWhile (· ≠ '[') = key ∧ (key ++ groups).dropWhile (· ≠ '[') = groups := by
  have hname : ∀ c ∈ key, decide (c ≠ '[') = true := by
    intro c hc
    simp only [decide_eq_true_eq]
    rintro rfl
    exact hkey hc
  rw [List.takeWhile_append_of_pos hname, List.dropWhile_append_of_pos hname]
  rcases hgroups with rfl | ⟨rest, rfl⟩
  · simp
  · simp

theorem HasGroups.head (h : HasGroups cs indices) : cs = [] ∨ ∃ rest, cs = '[' :: rest := by
  cases cs with
  | nil => exact Or.inl rfl
  | cons c rest =>
    obtain ⟨inside, after, hcs, _⟩ := exists_group_of_hasGroups h
    exact Or.inr ⟨_, hcs⟩

theorem splitIndices_eq_some_iff :
    splitIndices segment = some (key, indices) ↔ HasIndices segment key indices := by
  unfold splitIndices
  simp only [Option.map_eq_some_iff, readIndices_eq_some_iff (Nat.le_refl _), Prod.mk.injEq]
  constructor
  · rintro ⟨_, hgroups, rfl, rfl⟩
    refine ⟨?_, _, (List.takeWhile_append_dropWhile).symm, hgroups⟩
    intro hopen
    simpa using List.mem_takeWhile_imp hopen
  · rintro ⟨hkey, groups, rfl, hgroups⟩
    obtain ⟨htake, hdrop⟩ := takeWhile_append_groups hkey hgroups.head
    exact ⟨indices, by rw [hdrop]; exact hgroups, htake, rfl⟩

/-- A segment is split exactly when it is a name without an opening bracket and a run of
groups behind it, each with a numeral of an unsigned word inside; any other text is no
segment. The name and the indices are the only ones. -/
theorem splitIndices_exact (segment : List Char) :
    (∀ key indices, splitIndices segment = some (key, indices) ↔ HasIndices segment key indices) ∧
    (splitIndices segment = none ↔ ∀ key indices, ¬ HasIndices segment key indices) ∧
    ∀ key key' indices indices', HasIndices segment key indices →
      HasIndices segment key' indices' → key = key' ∧ indices = indices' := by
  refine ⟨fun key indices => splitIndices_eq_some_iff, ?_, ?_⟩
  · rw [Option.eq_none_iff_forall_ne_some]
    constructor
    · intro h key indices hsegment
      exact h _ (splitIndices_eq_some_iff.mpr hsegment)
    · rintro h ⟨key, indices⟩ hsplit
      exact h key indices (splitIndices_eq_some_iff.mp hsplit)
  · intro key key' indices indices' hfirst hsecond
    have hsplit := splitIndices_eq_some_iff.mpr hfirst
    rw [splitIndices_eq_some_iff.mpr hsecond] at hsplit
    cases hsplit
    exact ⟨rfl, rfl⟩

example : splitIndices "grid[ +007 ][18446744073709551615]".toList =
    some ("grid".toList, [7, 18446744073709551615]) := by
  decide

example : splitIndices "grid[1]x[2]".toList = none := by
  decide

end Globals

end SignalMap
