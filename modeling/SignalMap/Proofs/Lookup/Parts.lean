import SignalMap.Proofs.Lookup.Binding

/-!
Entries that requests find, and parts of signals. The entry of a key itself is the
first choice. A key that ends in the name of a part of a signal has a second one, the
entry of the key without that name; and there is no third, whatever stands in front of
the name.
-/

namespace SignalMap

namespace NormalizedPath

/-- A key is taken apart at its last slash. -/
theorem splitLast?_eq_some_iff {key parent last : String} :
    splitLast? key = some (parent, last) ↔ key = parent ++ "/" ++ last ∧ '/' ∉ last.toList := by
  -- The key is read from its end, so the last segment is the longest start without a slash.
  unfold splitLast?
  constructor
  · intro h
    dsimp only at h
    split at h
    next => cases h
    next slash before hbefore =>
      obtain ⟨hparent, hlast⟩ := Prod.mk.inj (Option.some.inj h)
      have hslash : slash = '/' := by
        have hstop := List.head?_dropWhile_not (fun c => decide (c ≠ '/')) key.toList.reverse
        rw [hbefore] at hstop
        simpa using hstop
      have hreverse : key.toList.reverse = last.toList.reverse ++ '/' :: parent.toList.reverse := by
        rw [← hparent, ← hlast, String.toList_ofList, String.toList_ofList, List.reverse_reverse,
          List.reverse_reverse, ← hslash, ← hbefore, hslash, List.takeWhile_append_dropWhile]
      refine ⟨?_, ?_⟩
      · rw [← String.toList_inj, ← List.reverse_inj, hreverse]
        simp
      · rw [← hlast, String.toList_ofList]
        intro hmem
        have hkept := List.mem_takeWhile_imp (List.mem_reverse.mp hmem)
        exact absurd rfl (of_decide_eq_true hkept)
  · rintro ⟨rfl, hlast⟩
    have hreverse : (parent ++ "/" ++ last).toList.reverse =
        last.toList.reverse ++ '/' :: parent.toList.reverse := by
      simp
    have hkept : ∀ c ∈ last.toList.reverse, decide (c ≠ '/') = true := by
      intro c hc
      refine decide_eq_true fun hslash => hlast ?_
      rw [← hslash]
      exact List.mem_reverse.mp hc
    dsimp only
    rw [hreverse, List.dropWhile_append_of_pos hkept, List.takeWhile_append_of_pos hkept]
    simp

theorem ofSegment?_eq_some_iff {last : String} {signal : SignalType} :
    SignalType.ofSegment? last = some signal ↔ signal ≠ .default ∧ last = signal.name := by
  constructor
  · intro h
    unfold SignalType.ofSegment? at h
    split at h
    next =>
      cases h
      exact ⟨by decide, rfl⟩
    next =>
      cases h
      exact ⟨by decide, rfl⟩
    next => cases h
  · rintro ⟨hpart, rfl⟩
    cases signal with
    | default => exact absurd rfl hpart
    | data => rfl
    | time => rfl

/-- The first key is the second one with the name of a part of a signal behind it, which
is `data` or `time`. -/
def IsPart (key parent : String) (signal : SignalType) : Prop :=
  signal ≠ .default ∧ key = parent ++ "/" ++ signal.name

theorem isPart_iff_splitLast? {key parent : String} {signal : SignalType} :
    IsPart key parent signal ↔
      ∃ last, splitLast? key = some (parent, last) ∧ SignalType.ofSegment? last = some signal := by
  constructor
  · rintro ⟨hpart, hkey⟩
    have hslash : '/' ∉ signal.name.toList := by
      cases signal <;> decide
    exact ⟨signal.name, splitLast?_eq_some_iff.mpr ⟨hkey, hslash⟩,
      ofSegment?_eq_some_iff.mpr ⟨hpart, rfl⟩⟩
  · rintro ⟨last, hsplit, hname⟩
    obtain ⟨hkey, _⟩ := splitLast?_eq_some_iff.mp hsplit
    obtain ⟨hpart, rfl⟩ := ofSegment?_eq_some_iff.mp hname
    exact ⟨hpart, hkey⟩

/-- A key has one name of a part at its end, if any. -/
theorem IsPart.unique {key parent other : String} {signal part : SignalType}
    (h : IsPart key parent signal) (hother : IsPart key other part) :
    parent = other ∧ signal = part := by
  obtain ⟨last, hsplit, hname⟩ := isPart_iff_splitLast?.mp h
  obtain ⟨second, hsecond, hpart⟩ := isPart_iff_splitLast?.mp hother
  rw [hsplit] at hsecond
  cases hsecond
  rw [hname] at hpart
  cases hpart
  exact ⟨rfl, rfl⟩

/-- A path that asks for no part yet asks for that which its key names last. -/
theorem fallback?_eq_some_iff {n q : NormalizedPath} :
    n.fallback? = some q ↔ n.signal = .default ∧ ∃ parent signal,
      IsPart n.key parent signal ∧ q = { n with key := parent, signal } := by
  unfold fallback?
  by_cases hsignal : n.signal = .default
  · rw [if_neg (not_not_intro hsignal), Option.bind_eq_bind, Option.bind_eq_some_iff]
    constructor
    · rintro ⟨⟨parent, last⟩, hsplit, h⟩
      obtain ⟨signal, hname, hq⟩ := Option.bind_eq_some_iff.mp h
      cases hq
      exact ⟨hsignal, parent, signal, isPart_iff_splitLast?.mpr ⟨last, hsplit, hname⟩, rfl⟩
    · rintro ⟨_, parent, signal, hpart, rfl⟩
      obtain ⟨last, hsplit, hname⟩ := isPart_iff_splitLast?.mp hpart
      exact ⟨(parent, last), hsplit, Option.bind_eq_some_iff.mpr ⟨signal, hname, rfl⟩⟩
  · rw [if_pos hsignal]
    constructor
    · intro h
      cases h
    · rintro ⟨h, _⟩
      exact absurd h hsignal

/-- The fallback of a key that ends in the name of a part of a signal. -/
theorem fallback?_of_part {n : NormalizedPath} {parent part : String} {signal : SignalType}
    (hsignal : n.signal = .default) (hkey : n.key = parent ++ "/" ++ part)
    (hpart : SignalType.ofSegment? part = some signal) :
    n.fallback? = some { n with key := parent, signal } := by
  obtain ⟨hwhole, rfl⟩ := ofSegment?_eq_some_iff.mp hpart
  exact fallback?_eq_some_iff.mpr ⟨hsignal, parent, signal, ⟨hwhole, hkey⟩, rfl⟩

/-- A fallback asks for a part of a signal. -/
theorem signal_of_fallback? {n q : NormalizedPath} (h : n.fallback? = some q) :
    q.signal ≠ .default := by
  obtain ⟨_, _, _, ⟨hpart, _⟩, rfl⟩ := fallback?_eq_some_iff.mp h
  exact hpart

/-- So it has no fallback itself. -/
theorem fallback?_of_fallback? {n q : NormalizedPath} (h : n.fallback? = some q) :
    q.fallback? = none := by
  rw [Option.eq_none_iff_forall_ne_some]
  intro r hr
  exact signal_of_fallback? h (fallback?_eq_some_iff.mp hr).1

end NormalizedPath

namespace Session

variable {registry : Registry} {n q : NormalizedPath} {e : Entry} {path : String}

/-- The entry that is found stands under the key, or else under the key of the
fallback. -/
theorem findEntry_eq_ok :
    findEntry registry n path = .ok (e, q) ↔
      registry.get? n.key = some e ∧ q = n ∨
        registry.get? n.key = none ∧ n.fallback? = some q ∧ registry.get? q.key = some e := by
  unfold findEntry
  cases hkey : registry.get? n.key with
  | some other => simp [eq_comm]
  | none =>
    cases hfallback : n.fallback? with
    | none => simp
    | some other =>
      by_cases hq : other = q
      · subst hq
        cases hother : registry.get? other.key <;> simp [hother]
      · cases hother : registry.get? other.key <;> simp [hother, hq]

theorem mem_of_findEntry (h : findEntry registry n path = .ok (e, q)) : e ∈ registry.entries := by
  rcases findEntry_eq_ok.mp h with ⟨hfound, _⟩ | ⟨_, _, hfound⟩
  · exact Registry.mem_of_get? hfound
  · exact Registry.mem_of_get? hfound

/-- No entry is found when none stands under the key and under the key of the
fallback. -/
theorem findEntry_eq_error {fault : LookupFault} :
    findEntry registry n path = .error fault ↔
      fault = .noEntry path n.key n.schema ∧ registry.get? n.key = none ∧
        ∀ q, n.fallback? = some q → registry.get? q.key = none := by
  unfold findEntry
  cases hkey : registry.get? n.key with
  | some other => simp
  | none =>
    cases hfallback : n.fallback? with
    | none => simp [eq_comm]
    | some other =>
      cases hother : registry.get? other.key with
      | none => simp [hother, eq_comm]
      | some found => simp [hother]

/-- The key of the fallback is the key without the name of a part. -/
theorem fallback_absent_iff (hsignal : n.signal = .default) :
    (∀ q, n.fallback? = some q → registry.get? q.key = none) ↔
      ∀ k signal, NormalizedPath.IsPart n.key k signal → registry.get? k = none := by
  constructor
  · intro hnone k signal hpart
    exact hnone _ (NormalizedPath.fallback?_eq_some_iff.mpr ⟨hsignal, k, signal, hpart, rfl⟩)
  · intro hnone q hfallback
    obtain ⟨_, k, signal, hpart, rfl⟩ := NormalizedPath.fallback?_eq_some_iff.mp hfallback
    exact hnone k signal hpart

/-- A request for a whole signal finds nothing when neither its key nor the key without
the name of a part is registered. -/
theorem exists_findEntry_eq_error_iff (hsignal : n.signal = .default) :
    (∃ fault, findEntry registry n path = .error fault) ↔
      registry.get? n.key = none ∧
        ∀ k signal, NormalizedPath.IsPart n.key k signal → registry.get? k = none := by
  simp only [findEntry_eq_error, exists_eq_left, fallback_absent_iff hsignal]

theorem findEntry_of_get? (h : registry.get? n.key = some e) :
    findEntry registry n path = .ok (e, n) :=
  findEntry_eq_ok.mpr (Or.inl ⟨h, rfl⟩)

theorem findEntry_of_fallback? (hnone : registry.get? n.key = none)
    (hfallback : n.fallback? = some q) (h : registry.get? q.key = some e) :
    findEntry registry n path = .ok (e, q) :=
  findEntry_eq_ok.mpr (Or.inr ⟨hnone, hfallback, h⟩)

/-- The path that an entry was found with is unchanged exactly when the entry stands
under the key itself. -/
theorem findEntry_exact_iff (hsignal : n.signal = .default) :
    findEntry registry n path = .ok (e, n) ↔ registry.get? n.key = some e := by
  rw [findEntry_eq_ok]
  constructor
  · rintro (⟨h, _⟩ | ⟨_, hfallback, _⟩)
    · exact h
    · exact absurd hsignal (NormalizedPath.signal_of_fallback? hfallback)
  · intro h
    exact Or.inl ⟨h, rfl⟩

theorem reply_of_findEntry {r : Resolver} {version : String} {request : Request}
    {mappings : SchemaMappings}
    (h : findEntry mappings.registry n request.path = .ok (e, q)) :
    reply r version request n mappings =
      ⟨(r.resolve ⟨.ofRequest request q version, mappings.registry, mappings.globals⟩ e).requests,
        (r.resolve ⟨.ofRequest request q version, mappings.registry, mappings.globals⟩
          e).result.mapError .transform⟩ := by
  unfold reply
  rw [h]

/-- The lookup of a reply fails exactly when no entry is found. -/
theorem reply_lookup_iff {r : Resolver} {version : String} {request : Request}
    {mappings : SchemaMappings} {fault : LookupFault} :
    (reply r version request n mappings).result = .error (.lookup fault) ↔
      findEntry mappings.registry n request.path = .error fault := by
  constructor
  · intro h
    cases hfound : findEntry mappings.registry n request.path with
    | error other =>
      unfold reply at h
      rw [hfound] at h
      cases h
      rfl
    | ok found =>
      obtain ⟨e, q⟩ := found
      rw [reply_of_findEntry hfound] at h
      obtain ⟨_, _, hkind⟩ := mapError_eq_error.mp h
      cases hkind
  · intro h
    unfold reply
    rw [h]
    rfl

/-- What a request finds. The entry of the key comes first and is asked for as a whole;
next comes the entry of a key that is not empty and has only the name of a part of a
signal behind it, which is asked for that part, of the same schema and with the same
indices. Where neither is registered the lookup fails, and it does not go on to leave
out a second name. -/
theorem findEntry_exact_or_part (request : Request) (n : NormalizedPath) (registry : Registry)
    (h : request.normalize = .ok n) :
    (∀ e q, findEntry registry n request.path = .ok (e, q) ↔
      registry.get? n.key = some e ∧ q = n ∧ q.signal = .default ∨
        registry.get? n.key = none ∧ ∃ k signal, k ≠ "" ∧ NormalizedPath.IsPart n.key k signal ∧
          registry.get? k = some e ∧ q = ⟨n.schema, k, n.indices, signal⟩) ∧
    (∀ (r : Resolver) (version : String) (globals : Fields) (fault : LookupFault),
      (reply r version request n ⟨globals, registry⟩).result = .error (.lookup fault) ↔
        fault = .noEntry request.path n.key n.schema ∧ registry.get? n.key = none ∧
          ∀ k signal, k ≠ "" → NormalizedPath.IsPart n.key k signal → registry.get? k = none) ∧
    ∀ p q : NormalizedPath, p.fallback? = some q → q.fallback? = none := by
  have hsignal := Request.signal_of_normalize h
  have hfilled : ∀ k signal, NormalizedPath.IsPart n.key k signal → k ≠ "" := by
    intro k signal hpart
    exact (Request.isKey_of_normalize h).parent_ne_empty hpart.2
  refine ⟨?_, ?_, fun p q => NormalizedPath.fallback?_of_fallback?⟩
  · intro e q
    rw [findEntry_eq_ok, NormalizedPath.fallback?_eq_some_iff]
    constructor
    · rintro (⟨hexact, rfl⟩ | ⟨hnone, ⟨_, k, signal, hpart, rfl⟩, hfound⟩)
      · exact Or.inl ⟨hexact, rfl, hsignal⟩
      · exact Or.inr ⟨hnone, k, signal, hfilled k signal hpart, hpart, hfound, rfl⟩
    · rintro (⟨hexact, rfl, _⟩ | ⟨hnone, k, signal, _, hpart, hfound, rfl⟩)
      · exact Or.inl ⟨hexact, rfl⟩
      · exact Or.inr ⟨hnone, ⟨hsignal, k, signal, hpart, rfl⟩, hfound⟩
  · intro r version globals fault
    rw [reply_lookup_iff, findEntry_eq_error, fallback_absent_iff hsignal]
    refine and_congr_right fun _ => and_congr_right fun _ => ?_
    exact forall₂_congr fun k signal =>
      ⟨fun hnone _ => hnone, fun hnone hpart => hnone (hfilled k signal hpart) hpart⟩

def askedTwice : Request :=
  ⟨"F", "m/flux/#/time/data", [3], none, none, none, none⟩

def fluxPlace : Registry :=
  ⟨[⟨"flux/#", .value (.literal (.number (.unsigned 1))) none⟩], by decide⟩

def fluxTimes : Registry :=
  ⟨[⟨"flux/#/time", .value (.literal (.number (.unsigned 2))) none⟩], by decide⟩

theorem findEntry_exact_or_part_twice :
    askedTwice.normalize = .ok ⟨"m", "flux/#/time/data", [3], .default⟩ ∧
      findEntry fluxTimes ⟨"m", "flux/#/time/data", [3], .default⟩ askedTwice.path =
        .ok (⟨"flux/#/time", .value (.literal (.number (.unsigned 2))) none⟩,
          ⟨"m", "flux/#/time", [3], .data⟩) ∧
      (reply .standard "1" askedTwice ⟨"m", "flux/#/time/data", [3], .default⟩
          ⟨[], fluxPlace⟩).result =
        .error (.lookup (.noEntry "m/flux/#/time/data" "flux/#/time/data" "m")) := by
  have hnormal : askedTwice.normalize = .ok ⟨"m", "flux/#/time/data", [3], .default⟩ := by
    rfl
  obtain ⟨hfound, _, _⟩ := findEntry_exact_or_part askedTwice _ fluxTimes hnormal
  obtain ⟨_, hmissing, _⟩ := findEntry_exact_or_part askedTwice _ fluxPlace hnormal
  refine ⟨hnormal, (hfound _ _).mpr (Or.inr ⟨rfl, "flux/#/time", .data, by decide,
    ⟨by decide, rfl⟩, rfl, rfl⟩), (hmissing _ _ _ _).mpr ⟨rfl, rfl, ?_⟩⟩
  have htimes : NormalizedPath.IsPart "flux/#/time/data" "flux/#/time" .data :=
    ⟨by decide, rfl⟩
  intro k signal _ hpart
  obtain ⟨rfl, rfl⟩ := htimes.unique hpart
  rfl

end Session

end SignalMap
