import SignalMap.Proofs.Globals.Descent
import SignalMap.Proofs.Globals.Indices
import SignalMap.Proofs.Text.Splitting

/-!
Addresses and the paths that write them. An address is a sequence of names, each with
indices behind it, and its path has points between the names and every index in
brackets. Looking the path up goes down the document along the address: the path is
split into the parts it was written from, and each part gives its own steps.
-/

namespace SignalMap.Globals

structure Segment where
  name : String
  indices : List Nat

def AreWords (indices : List Nat) : Prop :=
  ∀ index ∈ indices, index ≤ Text.maxUnsigned

instance (indices : List Nat) : Decidable (AreWords indices) :=
  inferInstanceAs (Decidable (∀ index ∈ indices, index ≤ Text.maxUnsigned))

def bracket (index : Nat) : List Char :=
  '[' :: Nat.toDigits 10 index ++ [']']

namespace Segment

def text (s : Segment) : List Char :=
  s.name.toList ++ s.indices.flatMap bracket

def steps (s : Segment) : List Step :=
  .field s.name :: s.indices.map .item

def IsClean (s : Segment) : Prop :=
  s.name.toList ≠ [] ∧ '.' ∉ s.name.toList ∧ '[' ∉ s.name.toList

instance (s : Segment) : Decidable s.IsClean :=
  inferInstanceAs (Decidable (s.name.toList ≠ [] ∧ '.' ∉ s.name.toList ∧ '[' ∉ s.name.toList))

end Segment

def pathOf (address : List Segment) : String :=
  String.ofList (List.intercalate ['.'] (address.map Segment.text))

def stepsOf (address : List Segment) : List Step :=
  address.flatMap Segment.steps

/-! Reading a segment -/

section Segments

variable {s : Segment} {indices : List Nat}

theorem point_not_mem_text (h : s.IsClean) : '.' ∉ s.text := by
  intro hmem
  rcases List.mem_append.mp hmem with hname | hindices
  · exact h.2.1 hname
  · obtain ⟨index, _, hbracket⟩ := List.mem_flatMap.mp hindices
    have hdigit : '.' ∉ Nat.toDigits 10 index := fun hpoint =>
      absurd (Text.isDigit_of_mem_toDigits hpoint) (by decide)
    simp [bracket, hdigit] at hbracket

theorem denotes_toDigits_iff {index n : Nat} :
    Denotes (Nat.toDigits 10 index) n ↔ index ≤ Text.maxUnsigned ∧ index = n := by
  rw [← unsigned?_trimChars_eq_some_iff, Text.trimChars_toDigits, Text.unsigned?_toDigits,
    Option.ite_none_right_eq_some, Option.some_inj]

theorem hasGroups_brackets_iff {others : List Nat} :
    HasGroups (indices.flatMap bracket) others ↔ AreWords indices ∧ indices = others := by
  induction indices generalizing others with
  | nil =>
    rw [List.flatMap_nil, hasGroups_nil_iff, eq_comm]
    exact (and_iff_right (List.forall_mem_nil _)).symm
  | cons index rest ih =>
    have hnot : ']' ∉ Nat.toDigits 10 index := fun hmem =>
      absurd (Text.isDigit_of_mem_toDigits hmem) (by decide)
    have htext : (index :: rest).flatMap bracket =
        '[' :: Nat.toDigits 10 index ++ ']' :: rest.flatMap bracket := by
      simp [bracket]
    have hwords : AreWords (index :: rest) ↔ index ≤ Text.maxUnsigned ∧ AreWords rest :=
      List.forall_mem_cons
    rw [htext, hasGroups_group_iff hnot, hwords]
    simp only [denotes_toDigits_iff, ih]
    constructor
    · rintro ⟨_, ⟨hindex, rfl⟩, _, ⟨hrest, rfl⟩, rfl⟩
      exact ⟨⟨hindex, hrest⟩, rfl⟩
    · rintro ⟨⟨hindex, hrest⟩, rfl⟩
      exact ⟨index, ⟨hindex, rfl⟩, rest, ⟨hrest, rfl⟩, rfl⟩

theorem readIndices_brackets {fuel : Nat} (h : (indices.flatMap bracket).length ≤ fuel) :
    readIndices fuel (indices.flatMap bracket) =
      if AreWords indices then some indices else none := by
  refine Option.ext fun others => ?_
  rw [readIndices_eq_some_iff h, hasGroups_brackets_iff, Option.ite_none_right_eq_some,
    Option.some_inj]

theorem splitIndices_text (h : s.IsClean) :
    splitIndices s.text =
      if AreWords s.indices then some (s.name.toList, s.indices)
      else none := by
  have hgroups : s.indices.flatMap bracket = [] ∨
      ∃ rest, s.indices.flatMap bracket = '[' :: rest := by
    cases s.indices <;> simp [bracket]
  obtain ⟨htake, hdrop⟩ := takeWhile_append_groups h.2.2 hgroups
  unfold splitIndices Segment.text
  simp only [htake, hdrop]
  rw [readIndices_brackets (Nat.le_refl _)]
  split <;> rfl

theorem segmentSteps_text (first : Bool) (h : s.IsClean) :
    segmentSteps first s.text =
      if AreWords s.indices then some s.steps else none := by
  have hname : (first || !s.name.toList.isEmpty) = true := by
    simpa using Or.inr h.1
  unfold segmentSteps
  rw [splitIndices_text h]
  by_cases hwords : AreWords s.indices
  · rw [if_pos hwords, if_pos hwords, Option.map_some]
    dsimp only
    rw [if_pos hname, String.ofList_toList]
    rfl
  · rw [if_neg hwords, if_neg hwords]
    rfl

end Segments

/-! Looking a path up -/

section Lookup

variable {address : List Segment} {globals : Fields} {value : Json}

theorem segments_pathOf (hne : address ≠ []) (hclean : ∀ s ∈ address, s.IsClean)
    (htrim : Text.trimChars (pathOf address).toList = (pathOf address).toList) :
    segments (pathOf address) = address.map Segment.text := by
  have hpoint : ∀ cs ∈ address.map Segment.text, '.' ∉ cs := by
    intro cs hcs
    obtain ⟨s, hs, rfl⟩ := List.mem_map.mp hcs
    exact point_not_mem_text (hclean s hs)
  have hfull : (address.map Segment.text).filter (fun cs => !cs.isEmpty) =
      address.map Segment.text := by
    apply List.filter_eq_self.mpr
    intro cs hcs
    obtain ⟨s, hs, rfl⟩ := List.mem_map.mp hcs
    have hname := (hclean s hs).1
    simp [Segment.text, hname]
  unfold segments
  rw [htrim, pathOf, String.toList_ofList,
    Text.splitOn_intercalate (by simpa using hne) hpoint, hfull]

/-- An index that is no word stops the way in a document that is held. -/
theorem descend?_of_not_word {s : Segment} (hheld : IsHeld value)
    (h : ¬ AreWords s.indices) (rest : List Step) :
    descend? value (s.steps ++ rest) = none := by
  obtain ⟨index, hindex, hlarge⟩ : ∃ index ∈ s.indices, Text.maxUnsigned < index := by
    simpa [AreWords] using h
  apply Option.eq_none_iff_forall_ne_some.mpr
  intro last hlast
  have hmem : .item index ∈ s.steps ++ rest := by
    simp [Segment.steps, hindex]
  exact not_reaches_of_isHeld hheld hmem hlarge (descend?_eq_some_iff.mp hlast)

/-- The induction is over the segments, each of which goes down its own steps. -/
theorem findFrom_text (first : Bool) (hne : first = true → address ≠ [])
    (hclean : ∀ s ∈ address, s.IsClean) (hheld : IsHeld value) :
    findFrom first value (address.map Segment.text) = descend? value (stepsOf address) := by
  induction address generalizing first value with
  | nil =>
    have hfirst : first = false := by
      by_contra htrue
      exact hne (by simpa using htrue) rfl
    simp [findFrom, hfirst, stepsOf, descend?]
  | cons s rest ih =>
    obtain ⟨hs, hrest⟩ := List.forall_mem_cons.mp hclean
    have hsteps : stepsOf (s :: rest) = s.steps ++ stepsOf rest := List.flatMap_cons
    rw [List.map_cons, findFrom, segmentSteps_text first hs, hsteps]
    by_cases hwords : AreWords s.indices
    · rw [if_pos hwords, descend?_append]
      change (descend? value s.steps).bind _ = _
      apply Option.bind_congr
      intro inner hinner
      have hrestNil : false = true → rest ≠ [] := fun htrue => absurd htrue Bool.false_ne_true
      exact ih false hrestNil hrest (hheld.reaches (descend?_eq_some_iff.mp hinner))
    · rw [if_neg hwords, descend?_of_not_word hheld hwords]
      rfl

/-- Looking up the path of an address goes down the document along the address, and it
finds nothing exactly where one of the steps is blocked. -/
theorem find?_pathOf (hne : address ≠ []) (hclean : ∀ s ∈ address, s.IsClean)
    (htrim : Text.trimChars (pathOf address).toList = (pathOf address).toList)
    (hheld : IsHeld (.object globals)) :
    (∀ value, find? globals (pathOf address) = some value ↔
      Reaches (.object globals) (stepsOf address) value) ∧
    (find? globals (pathOf address) = none ↔ Stops (.object globals) (stepsOf address)) := by
  have hfind : find? globals (pathOf address) = descend? (.object globals) (stepsOf address) := by
    unfold find?
    rw [segments_pathOf hne hclean htrim]
    exact findFrom_text true (fun _ => hne) hclean hheld
  constructor
  · intro value
    rw [hfind]
    exact descend?_eq_some_iff
  · rw [hfind]
    exact descend?_eq_none_iff

def coilGlobals : Fields :=
  [("machine", .object [("coils", .array [.number (.unsigned 12), .number (.unsigned 24)])])]

theorem isHeld_coilGlobals : IsHeld (.object coilGlobals) := by
  have hcoils : IsHeld (.array [.number (.unsigned 12), .number (.unsigned 24)]) := by
    apply isHeld_array (by decide)
    simp [isHeld_number]
  apply isHeld_object
  simp only [coilGlobals, List.forall_mem_singleton]
  apply isHeld_object
  simpa using hcoils

theorem find?_pathOf_coils :
    find? coilGlobals "machine.coils[1]" = some (.number (.unsigned 24)) ∧
      find? coilGlobals "machine.coils[1][0]" = none := by
  have hfirst (indices : List Nat) :
      ∀ s ∈ [Segment.mk "machine" [], Segment.mk "coils" indices], s.IsClean := by
    simp [Segment.IsClean]
  have hcoil : Reaches (.object coilGlobals)
      [.field "machine", .field "coils", .item 1] (.number (.unsigned 24)) :=
    .step (.field rfl) (.step (.field rfl) (.step (.item rfl) (.here _)))
  constructor
  · have hfound := find?_pathOf (List.cons_ne_nil _ _) (hfirst [1]) (by rfl) isHeld_coilGlobals
    exact (hfound.1 _).mpr hcoil
  · have hstops : Stops (.object coilGlobals)
        [.field "machine", .field "coils", .item 1, .item 0] :=
      ⟨[.field "machine", .field "coils", .item 1], .item 0, [], _, rfl, hcoil,
        .notArray nofun⟩
    have hmissing := find?_pathOf (List.cons_ne_nil _ _) (hfirst [1, 0]) (by rfl)
      isHeld_coilGlobals
    exact hmissing.2.mpr hstops

end Lookup

end SignalMap.Globals
