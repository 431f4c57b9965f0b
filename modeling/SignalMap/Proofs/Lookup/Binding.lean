import SignalMap.Proofs.Lookup.Keys
import SignalMap.Proofs.Lookup.Normalization
import SignalMap.Proofs.Session.Runs
import SignalMap.Proofs.Text.Words

/-!
Indices of normalized requests. Each placeholder of a key has one index of its own:
a number that the path gives in its place, or the next of the indices beside the
path. Indices that no placeholder takes come last, so none is lost, repeated or put
elsewhere; and a request is refused exactly when its indices cannot be bound so or its
path names no entry.
-/

namespace SignalMap

namespace Request

/-- The indices that a request gives beside its path, where a single minus one stands
for none. -/
def given (request : Request) : List Nat :=
  if request.indices = [-1] then [] else request.indices.map Int.toNat

theorem mapM_index_eq_ok {indices : List Int} {given : List Nat} :
    (indices.mapM fun n =>
        if n < 0 then Except.error (RequestFault.negativeIndex n) else .ok n.toNat) = .ok given ↔
      (∀ i ∈ indices, 0 ≤ i) ∧ given = indices.map Int.toNat := by
  induction indices generalizing given with
  | nil =>
    constructor
    · intro h
      cases h
      exact ⟨List.forall_mem_nil _, rfl⟩
    · rintro ⟨-, rfl⟩
      rfl
  | cons i rest ih =>
    rw [List.mapM_cons, List.forall_mem_cons]
    by_cases hi : i < 0
    · rw [if_pos hi]
      constructor
      · intro h
        cases h
      · rintro ⟨⟨hnonneg, -⟩, -⟩
        exact absurd hi (Int.not_lt.mpr hnonneg)
    · rw [if_neg hi]
      constructor
      · intro h
        obtain ⟨_, hfirst, h⟩ := bind_eq_ok.mp h
        cases hfirst
        obtain ⟨others, hothers, h⟩ := bind_eq_ok.mp h
        cases h
        obtain ⟨hrest, rfl⟩ := ih.mp hothers
        exact ⟨⟨Int.not_lt.mp hi, hrest⟩, rfl⟩
      · rintro ⟨⟨-, hrest⟩, rfl⟩
        exact bind_eq_ok.mpr ⟨_, rfl, bind_eq_ok.mpr ⟨_, ih.mpr ⟨hrest, rfl⟩, rfl⟩⟩

/-- The indices beside a path are used unless one is negative, and a single minus one
is none at all. -/
theorem callerIndices_eq_ok {request : Request} {given : List Nat} :
    callerIndices request.indices = .ok given ↔
      (request.indices = [-1] ∨ ∀ i ∈ request.indices, 0 ≤ i) ∧ given = request.given := by
  unfold callerIndices Request.given
  by_cases hnone : request.indices = [-1]
  · rw [if_pos hnone, if_pos hnone]
    constructor
    · intro h
      cases h
      exact ⟨Or.inl hnone, rfl⟩
    · rintro ⟨-, rfl⟩
      rfl
  · rw [if_neg hnone, if_neg hnone, mapM_index_eq_ok]
    constructor
    · rintro ⟨hnonneg, rfl⟩
      exact ⟨Or.inr hnonneg, rfl⟩
    · rintro ⟨hnonneg, rfl⟩
      exact ⟨hnonneg.resolve_left hnone, rfl⟩

end Request

namespace DataPath

theorem isIndex_placeholder : isIndex placeholder = false := by
  decide

theorem ne_placeholder_of_isIndex {segment : String} (h : isIndex segment = true) :
    segment ≠ placeholder := by
  rintro rfl
  rw [isIndex_placeholder] at h
  cases h

theorem unsigned?_of_isIndex {segment : String} (h : isIndex segment = true) :
    Text.unsigned? segment.toList =
      if Text.digitsValue segment.toList ≤ Text.maxUnsigned then
        some (Text.digitsValue segment.toList) else none := by
  unfold isIndex at h
  obtain ⟨hne, hdigits⟩ := Bool.and_eq_true_iff.mp h
  exact Text.unsigned?_of_digits (by simpa using hne) hdigits

theorem unsigned?_eq_some_of_isIndex {segment : String} {n : Nat} (h : isIndex segment = true) :
    Text.unsigned? segment.toList = some n ↔
      Text.digitsValue segment.toList ≤ Text.maxUnsigned ∧
        n = Text.digitsValue segment.toList := by
  rw [unsigned?_of_isIndex h]
  split
  next hword => simp [hword, eq_comm]
  next hword => simp [hword]

end DataPath

namespace Request

/-- What binding the segments `rest` to the indices `given` makes of them: a placeholder
of the key for every index in the path and every placeholder in it, and the index that
belongs to each placeholder at the place of its number in the key. -/
structure Binds (rest : List String) (given : List Nat) (key : List String) (indices : List Nat) :
    Prop where
  length_key : key.length = rest.length
  /-- A number in the path is an index by itself. -/
  own : ∀ (k : Nat) (segment : String), rest[k]? = some segment →
    DataPath.isIndex segment = true →
      key[k]? = some DataPath.placeholder ∧
        indices[(key.take k).count DataPath.placeholder]? = some (Text.digitsValue segment.toList)
  /-- A placeholder in the path takes the index with its number among the placeholders of
  the path. -/
  next : ∀ k : Nat, rest[k]? = some DataPath.placeholder →
    key[k]? = some DataPath.placeholder ∧
      ∃ n, given[(rest.take k).count DataPath.placeholder]? = some n ∧
        indices[(key.take k).count DataPath.placeholder]? = some n
  /-- Every other segment stays. -/
  name : ∀ (k : Nat) (segment : String), rest[k]? = some segment →
    DataPath.isIndex segment = false → segment ≠ DataPath.placeholder → key[k]? = some segment
  /-- The indices that no placeholder of the path takes come last, in their order. -/
  left : indices.drop (key.count DataPath.placeholder) =
    given.drop (rest.count DataPath.placeholder)
  length_indices : indices.length = rest.countP DataPath.isIndex + given.length

namespace Binds

variable {rest key : List String} {given indices : List Nat} {segment : String}

theorem nil (given : List Nat) : Binds [] given [] given where
  length_key := rfl
  own := by
    intro k segment h
    cases h
  next := by
    intro k h
    cases h
  name := by
    intro k segment h
    cases h
  left := rfl
  length_indices := (Nat.zero_add _).symm

theorem cons_index (h : Binds rest given key indices) (hindex : DataPath.isIndex segment = true) :
    Binds (segment :: rest) given (DataPath.placeholder :: key)
      (Text.digitsValue segment.toList :: indices) where
  length_key := congrArg Nat.succ h.length_key
  own := by
    intro k other hk hother
    cases k with
    | zero =>
      obtain rfl : segment = other := Option.some.inj hk
      exact ⟨rfl, rfl⟩
    | succ k =>
      rw [List.take_succ_cons, List.count_cons_self]
      exact h.own k other hk hother
  next := by
    intro k hk
    have hne := DataPath.ne_placeholder_of_isIndex hindex
    cases k with
    | zero => exact absurd (Option.some.inj hk) hne
    | succ k =>
      rw [List.take_succ_cons, List.take_succ_cons, List.count_cons_of_ne hne,
        List.count_cons_self]
      exact h.next k hk
  name := by
    intro k other hk hother hplace
    cases k with
    | zero =>
      obtain rfl : segment = other := Option.some.inj hk
      rw [hindex] at hother
      cases hother
    | succ k => exact h.name k other hk hother hplace
  left := by
    have hne := DataPath.ne_placeholder_of_isIndex hindex
    rw [List.count_cons_self, List.count_cons_of_ne hne]
    exact h.left
  length_indices := by
    rw [List.length_cons, h.length_indices, List.countP_cons_of_pos hindex]
    omega

theorem cons_placeholder (h : Binds rest given key indices) (n : Nat) :
    Binds (DataPath.placeholder :: rest) (n :: given) (DataPath.placeholder :: key)
      (n :: indices) where
  length_key := congrArg Nat.succ h.length_key
  own := by
    intro k other hk hother
    cases k with
    | zero =>
      exact absurd (Option.some.inj hk).symm (DataPath.ne_placeholder_of_isIndex hother)
    | succ k =>
      rw [List.take_succ_cons, List.count_cons_self]
      exact h.own k other hk hother
  next := by
    intro k hk
    cases k with
    | zero => exact ⟨rfl, n, rfl, rfl⟩
    | succ k =>
      rw [List.take_succ_cons, List.take_succ_cons, List.count_cons_self, List.count_cons_self]
      exact h.next k hk
  name := by
    intro k other hk hother hplace
    cases k with
    | zero => exact absurd (Option.some.inj hk).symm hplace
    | succ k => exact h.name k other hk hother hplace
  left := by
    rw [List.count_cons_self, List.count_cons_self]
    exact h.left
  length_indices := by
    rw [List.length_cons, List.length_cons, h.length_indices,
      List.countP_cons_of_neg (by simp [DataPath.isIndex_placeholder])]
    omega

theorem cons_name (h : Binds rest given key indices) (hindex : DataPath.isIndex segment = false)
    (hplace : segment ≠ DataPath.placeholder) :
    Binds (segment :: rest) given (segment :: key) indices where
  length_key := congrArg Nat.succ h.length_key
  own := by
    intro k other hk hother
    cases k with
    | zero =>
      obtain rfl : segment = other := Option.some.inj hk
      rw [hindex] at hother
      cases hother
    | succ k =>
      rw [List.take_succ_cons, List.count_cons_of_ne hplace]
      exact h.own k other hk hother
  next := by
    intro k hk
    cases k with
    | zero => exact absurd (Option.some.inj hk) hplace
    | succ k =>
      rw [List.take_succ_cons, List.take_succ_cons, List.count_cons_of_ne hplace,
        List.count_cons_of_ne hplace]
      exact h.next k hk
  name := by
    intro k other hk hother hkeep
    cases k with
    | zero => exact hk
    | succ k => exact h.name k other hk hother hkeep
  left := by
    rw [List.count_cons_of_ne hplace, List.count_cons_of_ne hplace]
    exact h.left
  length_indices := by
    rw [h.length_indices, List.countP_cons_of_neg (by simp [hindex])]

end Binds

/-- Each case of the binding adds one segment to what is bound. -/
theorem binds_of_bindSegments {path : String} {given indices : List Nat}
    {segments bound : List String} (h : bindSegments path given segments = .ok (bound, indices)) :
    Binds segments given bound indices := by
  induction segments generalizing given bound indices with
  | nil =>
    cases h
    exact .nil given
  | cons segment rest ih =>
    rcases bindSegments_cons_eq_ok.mp h with ⟨hindex, n, others, taken, hn, hothers, rfl, rfl⟩ |
      ⟨_, rfl, n, left, others, taken, rfl, hothers, rfl, rfl⟩ |
      ⟨hindex, hplace, others, hothers, rfl⟩
    · obtain ⟨_, rfl⟩ := (DataPath.unsigned?_eq_some_of_isIndex hindex).mp hn
      exact (ih hothers).cons_index hindex
    · exact (ih hothers).cons_placeholder n
    · exact (ih hothers).cons_name hindex hplace

/-- Segments can be bound when the numbers among them are words and there is an index
for every placeholder. -/
theorem exists_bindSegments_iff {path : String} {given : List Nat} {segments : List String} :
    (∃ bound indices, bindSegments path given segments = .ok (bound, indices)) ↔
      (∀ segment ∈ segments, DataPath.isIndex segment = true →
        Text.digitsValue segment.toList ≤ Text.maxUnsigned) ∧
      segments.count DataPath.placeholder ≤ given.length := by
  induction segments generalizing given with
  | nil => exact ⟨fun _ => ⟨List.forall_mem_nil _, Nat.zero_le _⟩, fun _ => ⟨[], given, rfl⟩⟩
  | cons segment rest ih =>
    rw [List.forall_mem_cons]
    constructor
    · rintro ⟨bound, indices, h⟩
      rcases bindSegments_cons_eq_ok.mp h with ⟨hindex, n, others, taken, hn, hothers, _, _⟩ |
        ⟨hindex, rfl, n, left, others, taken, rfl, hothers, _, _⟩ |
        ⟨hindex, hplace, others, hothers, _⟩
      · obtain ⟨hwords, hcount⟩ := ih.mp ⟨others, taken, hothers⟩
        have hne := DataPath.ne_placeholder_of_isIndex hindex
        rw [List.count_cons_of_ne hne]
        exact ⟨⟨fun _ => ((DataPath.unsigned?_eq_some_of_isIndex hindex).mp hn).1, hwords⟩, hcount⟩
      · obtain ⟨hwords, hcount⟩ := ih.mp ⟨others, taken, hothers⟩
        rw [List.count_cons_self, List.length_cons]
        exact ⟨⟨fun h => absurd h (by simp [hindex]), hwords⟩, Nat.succ_le_succ hcount⟩
      · obtain ⟨hwords, hcount⟩ := ih.mp ⟨others, indices, hothers⟩
        rw [List.count_cons_of_ne hplace]
        exact ⟨⟨fun h => absurd h (by simp [hindex]), hwords⟩, hcount⟩
    · rintro ⟨⟨hword, hwords⟩, hcount⟩
      cases hindex : DataPath.isIndex segment with
      | true =>
        have hrest : rest.count DataPath.placeholder ≤ given.length :=
          le_trans List.count_le_count_cons hcount
        obtain ⟨others, taken, hothers⟩ := ih.mpr ⟨hwords, hrest⟩
        have hn := (DataPath.unsigned?_eq_some_of_isIndex hindex).mpr ⟨hword hindex, rfl⟩
        exact ⟨_, _, bindSegments_cons_eq_ok.mpr
          (Or.inl ⟨hindex, _, others, taken, hn, hothers, rfl, rfl⟩)⟩
      | false =>
        by_cases hplace : segment = DataPath.placeholder
        · rw [hplace, List.count_cons_self] at hcount
          cases given with
          | nil => exact absurd hcount (by simp)
          | cons n left =>
            obtain ⟨others, taken, hothers⟩ := ih.mpr ⟨hwords, Nat.le_of_succ_le_succ hcount⟩
            exact ⟨_, _, bindSegments_cons_eq_ok.mpr
              (Or.inr (Or.inl ⟨hindex, hplace, n, left, others, taken, rfl, hothers, rfl, rfl⟩))⟩
        · rw [List.count_cons_of_ne hplace] at hcount
          obtain ⟨others, taken, hothers⟩ := ih.mpr ⟨hwords, hcount⟩
          exact ⟨_, _, bindSegments_cons_eq_ok.mpr
            (Or.inr (Or.inr ⟨hindex, hplace, others, hothers, rfl⟩))⟩

/-- Binding keeps segments clean and leaves no index among them. -/
theorem keySegments_of_bindSegments {path : String} {given indices : List Nat}
    {segments bound : List String} (hclean : ∀ segment ∈ segments, DataPath.IsSegment segment)
    (h : bindSegments path given segments = .ok (bound, indices)) :
    DataPath.KeySegments bound := by
  rw [segments_of_bindSegments h]
  intro segment hsegment
  obtain ⟨raw, hraw, rfl⟩ := List.mem_map.mp hsegment
  exact DataPath.keySegment_spec (hclean raw hraw)

/-- A request can be used exactly when its path names a schema and more, its indices
are not negative or a single minus one, every number in the path behind the schema is a
word, and there is an index for each placeholder there. -/
theorem exists_normalize_iff {request : Request} :
    (∃ n, request.normalize = .ok n) ↔
      2 ≤ (DataPath.split request.path).length ∧
      (request.indices = [-1] ∨ ∀ i ∈ request.indices, 0 ≤ i) ∧
      (∀ segment ∈ (DataPath.split request.path).tail, DataPath.isIndex segment = true →
        Text.digitsValue segment.toList ≤ Text.maxUnsigned) ∧
      (DataPath.split request.path).tail.count DataPath.placeholder ≤ request.given.length := by
  constructor
  · rintro ⟨n, h⟩
    obtain ⟨given, rest, bound, hgiven, hsplit, hne, hbound, _, _⟩ := normalize_eq_ok.mp h
    obtain ⟨hindices, rfl⟩ := callerIndices_eq_ok.mp hgiven
    rw [hsplit, List.length_cons, List.tail_cons]
    exact ⟨Nat.succ_le_succ (List.length_pos_iff.mpr hne), hindices,
      exists_bindSegments_iff.mp ⟨bound, n.indices, hbound⟩⟩
  · rintro ⟨hlength, hindices, hbinds⟩
    have hgiven := callerIndices_eq_ok.mpr ⟨hindices, rfl⟩
    cases hsplit : DataPath.split request.path with
    | nil =>
      rw [hsplit] at hlength
      exact absurd hlength (by simp)
    | cons schema rest =>
      rw [hsplit] at hlength hbinds
      have hne : rest ≠ [] := List.length_pos_iff.mp (Nat.le_of_succ_le_succ hlength)
      obtain ⟨bound, indices, hbound⟩ :
          ∃ bound indices, bindSegments request.path request.given rest = .ok (bound, indices) :=
        exists_bindSegments_iff.mpr hbinds
      exact ⟨⟨schema, DataPath.join bound, indices, .default⟩, normalize_eq_ok.mpr
        ⟨_, rest, bound, hgiven, hsplit, hne, hbound, rfl, rfl⟩⟩

/-- The schema of a normalized request is the first segment of its path, the others are
bound to the indices beside it, and its key is one that paths write. -/
theorem bound_of_normalize {request : Request} {n : NormalizedPath}
    (h : request.normalize = .ok n) :
    ∃ rest, DataPath.split request.path = n.schema :: rest ∧
      bindSegments request.path request.given rest = .ok (DataPath.split n.key, n.indices) ∧
      DataPath.IsKey n.key := by
  obtain ⟨given, rest, bound, hgiven, hsplit, hne, hbound, hkey, _⟩ := normalize_eq_ok.mp h
  obtain ⟨_, rfl⟩ := callerIndices_eq_ok.mp hgiven
  have hclean : ∀ segment ∈ rest, DataPath.IsSegment segment := by
    intro segment hsegment
    have hmem : segment ∈ DataPath.split request.path := by
      rw [hsplit]
      exact List.mem_cons_of_mem _ hsegment
    exact DataPath.isSegment_of_mem_split hmem
  have hsegments := keySegments_of_bindSegments hclean hbound
  have hfilled : bound ≠ [] := by
    rw [segments_of_bindSegments hbound]
    simpa using hne
  refine ⟨rest, hsplit, ?_, ?_⟩
  · rw [hkey, hsegments.split_join]
    exact hbound
  · rw [hkey]
    exact DataPath.isKey_join hsegments hfilled

theorem isKey_of_normalize {request : Request} {n : NormalizedPath}
    (h : request.normalize = .ok n) : DataPath.IsKey n.key := by
  obtain ⟨_, _, _, hkey⟩ := bound_of_normalize h
  exact hkey

/-- Which requests can be used, how the indices of one that can are bound, and what
becomes of one that cannot. -/
theorem normalize_binds (request : Request) :
    ((∃ n, request.normalize = .ok n) ↔
      2 ≤ (DataPath.split request.path).length ∧
      (request.indices = [-1] ∨ ∀ i ∈ request.indices, 0 ≤ i) ∧
      (∀ segment ∈ (DataPath.split request.path).tail, DataPath.isIndex segment = true →
        Text.digitsValue segment.toList ≤ Text.maxUnsigned) ∧
      (DataPath.split request.path).tail.count DataPath.placeholder ≤ request.given.length) ∧
    (∀ n, request.normalize = .ok n →
      ∃ rest, DataPath.split request.path = n.schema :: rest ∧
        Binds rest request.given (DataPath.split n.key) n.indices) ∧
    ∀ fault, request.normalize = .error fault → ∀ (host : Host) (s : Session),
      s.resolve host request = (s, Session.refused (.invalidRequest fault)) := by
  refine ⟨exists_normalize_iff, ?_, ?_⟩
  · intro n h
    obtain ⟨rest, hsplit, hbound, _⟩ := bound_of_normalize h
    exact ⟨rest, hsplit, binds_of_bindSegments hbound⟩
  · intro fault h host s
    exact Session.resolve_of_refused h

def askedInterleaved : Request :=
  ⟨"F", "m/4/flux/#/2/#", [8, 6, 5], none, none, none, none⟩

def askedUnbound : Request :=
  ⟨"F", "m/flux/#", [-1], none, none, none, none⟩

theorem normalize_binds_interleaved :
    askedInterleaved.normalize = .ok ⟨"m", "#/flux/#/#/#", [4, 8, 2, 6, 5], .default⟩ ∧
      Binds ["4", "flux", "#", "2", "#"] [8, 6, 5] ["#", "flux", "#", "#", "#"] [4, 8, 2, 6, 5] ∧
      (¬ ∃ n, askedUnbound.normalize = .ok n) ∧
      ∀ (host : Host) (s : Session), s.resolve host askedUnbound =
        (s, Session.refused (.invalidRequest (.unboundPlaceholder "m/flux/#"))) := by
  have hnormal : askedInterleaved.normalize =
      .ok ⟨"m", "#/flux/#/#/#", [4, 8, 2, 6, 5], .default⟩ := by
    rfl
  obtain ⟨_, hbinds, _⟩ := normalize_binds askedInterleaved
  obtain ⟨rest, hsplit, hbound⟩ := hbinds _ hnormal
  obtain rfl : ["4", "flux", "#", "2", "#"] = rest := (List.cons.inj hsplit).2
  obtain ⟨husable, _, hrefused⟩ := normalize_binds askedUnbound
  refine ⟨hnormal, hbound, ?_, hrefused _ rfl⟩
  rw [husable]
  rintro ⟨_, _, _, hcount⟩
  exact absurd hcount (by decide)

end Request

end SignalMap
