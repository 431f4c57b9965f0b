import SignalMap.Proofs.Lookup.Binding
import SignalMap.Proofs.Lookup.Requests

/-!
Indices in a path and indices beside it. A normalized request has all its indices
in one list, in the order in which they are bound; the path of its schema and its
key, with that list beside it, is a request of the same meaning.
-/

namespace SignalMap

namespace NormalizedPath

def template (n : NormalizedPath) (request : Request) : Request :=
  { request with path := n.schema ++ "/" ++ n.key, indices := n.indices.map Int.ofNat }

theorem isSigned_of_mem_template {n : NormalizedPath} {request : Request}
    (h : ∀ i ∈ n.indices, i ≤ Text.maxSigned) :
    ∀ i ∈ (n.template request).indices, Text.IsSigned i := by
  intro i hi
  obtain ⟨index, hindex, rfl⟩ := List.mem_map.mp hi
  exact Text.isSigned_natural (h index hindex)

end NormalizedPath

namespace Request

/-- Each placeholder of the key has an index of its own. The induction is on the
segments: an index in the path and a placeholder add one to both sides. -/
theorem count_le_of_bindSegments {path : String} {given indices : List Nat}
    {segments bound : List String} (h : bindSegments path given segments = .ok (bound, indices)) :
    bound.count DataPath.placeholder ≤ indices.length := by
  induction segments generalizing given bound indices with
  | nil =>
    cases h
    exact Nat.zero_le _
  | cons segment rest ih =>
    rcases bindSegments_cons_eq_ok.mp h with ⟨_, n, others, taken, _, hothers, rfl, rfl⟩ |
      ⟨_, _, n, _, others, taken, _, hothers, rfl, rfl⟩ | ⟨_, hplace, others, hothers, rfl⟩
    · rw [List.count_cons_self, List.length_cons]
      exact Nat.succ_le_succ (ih hothers)
    · rw [List.count_cons_self, List.length_cons]
      exact Nat.succ_le_succ (ih hothers)
    · rw [List.count_cons_of_ne hplace]
      exact ih hothers

/-- What a request normalizes to is a schema and a key as paths write them, with an
index for each placeholder of the key. -/
theorem proper_of_normalize {request : Request} {n : NormalizedPath}
    (h : request.normalize = .ok n) :
    DataPath.IsSegment n.schema ∧ DataPath.IsKey n.key ∧
      (DataPath.split n.key).count DataPath.placeholder ≤ n.indices.length := by
  obtain ⟨rest, hsplit, hbound, hkey⟩ := bound_of_normalize h
  have hmem : n.schema ∈ DataPath.split request.path := by
    rw [hsplit]
    exact List.mem_cons_self
  exact ⟨DataPath.isSegment_of_mem_split hmem, hkey, count_le_of_bindSegments hbound⟩

/-- An index may be written in the path or given beside it. When the indices of a
normalized request are signed words, the key itself with all of them beside it can be
asked for, and normalizes to the same schema, key, indices and part of the signal. -/
theorem normalize_template {request : Request} {n : NormalizedPath}
    (h : request.normalize = .ok n) (hwords : ∀ i ∈ n.indices, i ≤ Text.maxSigned)
    (other : Request) :
    (∀ i ∈ (n.template other).indices, Text.IsSigned i) ∧
      (n.template other).normalize = .ok n := by
  obtain ⟨hschema, hkey, hcount⟩ := proper_of_normalize h
  have hnormal : (n.template other).normalize = .ok ⟨n.schema, n.key, n.indices, .default⟩ :=
    normalize_of_key hschema hkey rfl rfl hcount
  rw [← signal_of_normalize h] at hnormal
  exact ⟨NormalizedPath.isSigned_of_mem_template hwords, hnormal⟩

def askedMixed : Request :=
  ⟨"F", "/m/ 12 /#/coil//3/#/", [5, 7, 9], none, none, none, none⟩

theorem normalize_template_mixed :
    askedMixed.normalize = .ok ⟨"m", "#/#/coil/#/#", [12, 5, 3, 7, 9], .default⟩ ∧
      (∀ i ∈ [12, 5, 3, 7, 9], i ≤ Text.maxSigned) ∧
      (⟨"F", "m/#/#/coil/#/#", [12, 5, 3, 7, 9], none, none, none, none⟩ : Request).normalize =
        .ok ⟨"m", "#/#/coil/#/#", [12, 5, 3, 7, 9], .default⟩ := by
  have hnormal : askedMixed.normalize =
      .ok ⟨"m", "#/#/coil/#/#", [12, 5, 3, 7, 9], .default⟩ := by
    rfl
  have hwords : ∀ i ∈ [12, 5, 3, 7, 9], i ≤ Text.maxSigned := by
    decide
  exact ⟨hnormal, hwords, (normalize_template hnormal hwords askedMixed).2⟩

end Request

end SignalMap
