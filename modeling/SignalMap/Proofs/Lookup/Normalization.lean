import SignalMap.Proofs.Result
import SignalMap.Session

/-!
Normalized requests. A request that normalizes asks for a whole signal under the key
that its path makes, with an index bound to every placeholder of the key.
-/

namespace SignalMap

namespace Request

/-- The first of the segments that are bound is an index, which is a number of its own,
a placeholder, which takes the next index that is given, or a segment that stays. -/
theorem bindSegments_cons_eq_ok {path segment : String} {given indices : List Nat}
    {rest bound : List String} :
    bindSegments path given (segment :: rest) = .ok (bound, indices) ↔
      (DataPath.isIndex segment = true ∧ ∃ n others taken,
        Text.unsigned? segment.toList = some n ∧
          bindSegments path given rest = .ok (others, taken) ∧
          bound = DataPath.placeholder :: others ∧ indices = n :: taken) ∨
      (DataPath.isIndex segment = false ∧ segment = DataPath.placeholder ∧
        ∃ n left others taken, given = n :: left ∧
          bindSegments path left rest = .ok (others, taken) ∧
          bound = DataPath.placeholder :: others ∧ indices = n :: taken) ∨
      DataPath.isIndex segment = false ∧ segment ≠ DataPath.placeholder ∧
        ∃ others, bindSegments path given rest = .ok (others, indices) ∧
          bound = segment :: others := by
  constructor
  · intro h
    unfold bindSegments at h
    by_cases hindex : DataPath.isIndex segment = true
    · rw [if_pos hindex] at h
      split at h
      next => cases h
      next n hnumber =>
        obtain ⟨⟨others, taken⟩, hothers, h⟩ := bind_eq_ok.mp h
        cases h
        exact Or.inl ⟨hindex, n, others, taken, hnumber, hothers, rfl, rfl⟩
    · rw [if_neg hindex] at h
      have hindex : DataPath.isIndex segment = false := Bool.eq_false_iff.mpr hindex
      by_cases hplace : segment = DataPath.placeholder
      · rw [if_pos (by simp [DataPath.isPlaceholder, hplace])] at h
        cases given with
        | nil => cases h
        | cons n left =>
          obtain ⟨⟨others, taken⟩, hothers, h⟩ := bind_eq_ok.mp h
          cases h
          exact Or.inr (Or.inl ⟨hindex, hplace, n, left, others, taken, rfl, hothers, rfl, rfl⟩)
      · rw [if_neg (by simp [DataPath.isPlaceholder, hplace])] at h
        obtain ⟨⟨others, taken⟩, hothers, h⟩ := bind_eq_ok.mp h
        cases h
        exact Or.inr (Or.inr ⟨hindex, hplace, others, hothers, rfl⟩)
  · rintro (⟨hindex, n, others, taken, hnumber, hothers, rfl, rfl⟩ |
      ⟨hindex, rfl, n, left, others, taken, rfl, hothers, rfl, rfl⟩ |
      ⟨hindex, hplace, others, hothers, rfl⟩)
    · unfold bindSegments
      rw [if_pos hindex, hnumber]
      exact bind_eq_ok.mpr ⟨_, hothers, rfl⟩
    · exact bind_eq_ok.mpr ⟨_, hothers, rfl⟩
    · unfold bindSegments
      rw [if_neg (by simp [hindex]), if_neg (by simp [DataPath.isPlaceholder, hplace])]
      exact bind_eq_ok.mpr ⟨_, hothers, rfl⟩

/-- Binding puts a placeholder for every index and keeps all other segments. -/
theorem segments_of_bindSegments {path : String} {given indices : List Nat}
    {segments bound : List String} (h : bindSegments path given segments = .ok (bound, indices)) :
    bound = segments.map DataPath.keySegment := by
  induction segments generalizing given bound indices with
  | nil =>
    cases h
    rfl
  | cons segment rest ih =>
    rw [List.map_cons]
    unfold DataPath.keySegment
    rcases bindSegments_cons_eq_ok.mp h with ⟨hindex, n, others, taken, _, hothers, rfl, rfl⟩ |
      ⟨hindex, rfl, n, _, others, taken, _, hothers, rfl, rfl⟩ | ⟨hindex, _, others, hothers, rfl⟩
    · rw [if_pos hindex, ih hothers]
      rfl
    · rw [if_neg (by simp [hindex]), ih hothers]
      rfl
    · rw [if_neg (by simp [hindex]), ih hothers]
      rfl

/-- A request normalizes when its path has a schema and more behind it, and when the
indices beside the path can be bound. -/
theorem normalize_eq_ok {request : Request} {n : NormalizedPath} :
    request.normalize = .ok n ↔
      ∃ given rest bound, callerIndices request.indices = .ok given ∧
        DataPath.split request.path = n.schema :: rest ∧ rest ≠ [] ∧
        bindSegments request.path given rest = .ok (bound, n.indices) ∧
        n.key = DataPath.join bound ∧ n.signal = .default := by
  obtain ⟨schema, key, indices, signal⟩ := n
  unfold normalize
  constructor
  · intro h
    obtain ⟨given, hgiven, h⟩ := bind_eq_ok.mp h
    split at h
    next => cases h
    next => cases h
    next _ rest hne hsplit =>
      obtain ⟨⟨bound, _⟩, hbound, h⟩ := bind_eq_ok.mp h
      cases h
      exact ⟨given, rest, bound, hgiven, hsplit, hne, hbound, rfl, rfl⟩
  · rintro ⟨given, rest, bound, hgiven, hsplit, hne, hbound, hkey, hsignal⟩
    dsimp only at hsplit hbound hkey hsignal
    refine bind_eq_ok.mpr ⟨given, hgiven, ?_⟩
    rw [hsplit]
    cases rest with
    | nil => exact absurd rfl hne
    | cons next rest =>
      refine bind_eq_ok.mpr ⟨(bound, indices), hbound, ?_⟩
      rw [hkey, hsignal]
      rfl

theorem signal_of_normalize {request : Request} {n : NormalizedPath}
    (h : request.normalize = .ok n) : n.signal = .default := by
  obtain ⟨_, _, _, _, _, _, _, _, hsignal⟩ := normalize_eq_ok.mp h
  exact hsignal

end Request

end SignalMap
