import SignalMap.Proofs.Lookup.Keys
import SignalMap.Proofs.Lookup.Parts
import SignalMap.Proofs.Resolution.ReferenceGraph

/-!
Requests for loaded entries. The path of a request is put into the same form as
the keys of a registry, and a key that is in this form already passes unchanged;
so the key of a loaded entry, behind the name of its schema, finds the entry.
-/

namespace SignalMap

namespace Request

theorem callerIndices_natural (indices : List Nat) :
    callerIndices (indices.map Int.ofNat) = .ok indices := by
  have hvalues : indices.map Int.ofNat ≠ [-1] := by
    intro h
    have hmem : (-1 : Int) ∈ indices.map Int.ofNat := h ▸ List.mem_singleton_self _
    obtain ⟨n, _, hn⟩ := List.mem_map.mp hmem
    have hnonneg : 0 ≤ Int.ofNat n := Int.natCast_nonneg n
    rw [hn] at hnonneg
    exact absurd hnonneg (by decide)
  unfold callerIndices
  rw [if_neg hvalues]
  clear hvalues
  induction indices with
  | nil => rfl
  | cons n rest ih =>
    have hn : ¬ Int.ofNat n < 0 := Int.not_lt.mpr (Int.natCast_nonneg n)
    rw [List.map_cons, List.mapM_cons, if_neg hn, ih]
    rfl

/-- The segments of a key stay as they are, and its placeholders take the indices
that are given, in their order. -/
theorem bindSegments_of_key {segments : List String} {given : List Nat} (path : String)
    (hsegments : ∀ segment ∈ segments, DataPath.isIndex segment = false)
    (hgiven : segments.count DataPath.placeholder ≤ given.length) :
    bindSegments path given segments = .ok (segments, given) := by
  induction segments generalizing given with
  | nil => rfl
  | cons segment rest ih =>
    obtain ⟨hsegment, hrest⟩ := List.forall_mem_cons.mp hsegments
    unfold bindSegments
    rw [if_neg (by simp [hsegment])]
    by_cases hplace : segment = DataPath.placeholder
    · rw [hplace, List.count_cons_self] at hgiven
      cases given with
      | nil => exact absurd hgiven (by simp)
      | cons n given =>
        rw [if_pos (by simp [DataPath.isPlaceholder, hplace])]
        change (bindSegments path given rest >>= fun bound => _) = _
        rw [ih hrest (Nat.le_of_succ_le_succ hgiven), hplace]
        rfl
    · rw [List.count_cons_of_ne hplace] at hgiven
      rw [if_neg (by simp [DataPath.isPlaceholder, hplace]), ih hrest hgiven]
      rfl

/-- A path of a schema and a key names that schema and that key. -/
theorem normalize_of_key {request : Request} {schema key : String} {indices : List Nat}
    (hschema : DataPath.IsSegment schema) (hkey : DataPath.IsKey key)
    (hpath : request.path = schema ++ "/" ++ key)
    (hindices : request.indices = indices.map Int.ofNat)
    (hgiven : (DataPath.split key).count DataPath.placeholder ≤ indices.length) :
    request.normalize = .ok ⟨schema, key, indices, .default⟩ := by
  obtain ⟨hne, hsegments, hjoin⟩ := hkey
  have hsplit : DataPath.split request.path = schema :: DataPath.split key := by
    rw [hpath, DataPath.split_append, hschema]
    rfl
  have hbound : bindSegments request.path indices (DataPath.split key) =
      .ok (DataPath.split key, indices) :=
    bindSegments_of_key _ (fun segment h => (hsegments segment h).2) hgiven
  have hgiven : callerIndices request.indices = .ok indices := by
    rw [hindices, callerIndices_natural]
  exact normalize_eq_ok.mpr
    ⟨indices, _, _, hgiven, hsplit, hne, hbound, hjoin.symm, rfl⟩

end Request

namespace Session

theorem findEntry_of_mem {registry : Registry} {e : Entry} {p : NormalizedPath}
    (requestPath : String) (he : e ∈ registry.entries) (hkey : p.key = e.key) :
    findEntry registry p requestPath = .ok (e, p) := by
  apply findEntry_of_get?
  rw [hkey]
  exact Registry.get?_key_of_mem he

end Session

namespace Facility

/-- Every entry of a loaded facility is found under the name of its schema and its
key, with the indices that are given, and is asked for as a whole. -/
theorem entry_requested {host : Host} {root : FilePath} {name version schema : String}
    {f : Facility} (hload : load host root name version = .ok f)
    (hdeclared : schema ∈ f.manifest.schemas.map Prod.fst)
    (hschema : DataPath.split schema = [schema]) :
    ∃ mappings, f.schema? schema = some mappings ∧
      ∀ e ∈ mappings.registry.entries, ∀ (request : Request) (indices : List Nat),
        request.path = schema ++ "/" ++ e.key →
        request.indices = indices.map Int.ofNat →
        (DataPath.split e.key).count DataPath.placeholder ≤ indices.length →
          request.normalize = .ok ⟨schema, e.key, indices, .default⟩ ∧
            Session.findEntry mappings.registry ⟨schema, e.key, indices, .default⟩ request.path =
              .ok (e, ⟨schema, e.key, indices, .default⟩) := by
  obtain ⟨mappings, hmappings, hproper⟩ := proper_of_load hload hdeclared
  refine ⟨mappings, hmappings, ?_⟩
  intro e he request indices hpath hindices hgiven
  exact ⟨Request.normalize_of_key hschema (hproper e he) hpath hindices hgiven,
    Session.findEntry_of_mem request.path he rfl⟩

def awkwardKeys : Host :=
  .ofFindings ⟨"/h"⟩
    [(⟨"/r/F/1/mappings.cfg.json"⟩, .file "\x7b\"m\":\x7b\"mappings\":\"a\"\x7d\x7d"),
     (⟨"/r/F/1/a"⟩, .file ("[\x7b\"key\":\"m/m\",\"type\":\"VALUE\",\"value\":\"a\"\x7d," ++
      "\x7b\"key\":\"/7// 2 /data\",\"type\":\"VALUE\",\"value\":\"b\"\x7d]"))]

def askedData : Request :=
  ⟨"F", "m/#/#/data", [4, 5, 6], none, none, none, none⟩

theorem entry_requested_awkward :
    ∃ mappings e, e.key = "#/#/data" ∧
      askedData.normalize = .ok ⟨"m", "#/#/data", [4, 5, 6], .default⟩ ∧
      Session.findEntry mappings.registry ⟨"m", "#/#/data", [4, 5, 6], .default⟩ askedData.path =
        .ok (e, ⟨"m", "#/#/data", [4, 5, 6], .default⟩) ∧
      (load awkwardKeys ⟨"/r"⟩ "F" "1").map (fun f => f.schema? "m") = .ok (some mappings) := by
  have hshape : (load awkwardKeys ⟨"/r"⟩ "F" "1").map (fun f =>
      (f.manifest.schemas.map Prod.fst, (f.schema? "m").map fun mappings =>
        mappings.registry.keys)) = .ok (["m"], some ["m", "#/#/data"]) := by rfl
  cases hload : load awkwardKeys ⟨"/r"⟩ "F" "1" with
  | error e =>
    rw [hload] at hshape
    cases hshape
  | ok f =>
    rw [hload] at hshape
    obtain ⟨hnames, hkeys⟩ := Prod.mk.inj (Except.ok.inj hshape)
    have hdeclared : "m" ∈ f.manifest.schemas.map Prod.fst := by
      rw [hnames]
      exact List.mem_cons_self
    obtain ⟨mappings, hmappings, hentries⟩ := entry_requested hload hdeclared (by decide)
    rw [hmappings] at hkeys
    have hkeys : mappings.registry.keys = ["m", "#/#/data"] := Option.some.inj hkeys
    have hmem : "#/#/data" ∈ mappings.registry.keys := by
      rw [hkeys]
      decide
    obtain ⟨e, he, hkey⟩ := List.mem_map.mp hmem
    obtain ⟨hnormal, hfound⟩ := hentries e he askedData [4, 5, 6]
      (by rw [hkey]; rfl) rfl (by rw [hkey]; decide)
    rw [hkey] at hnormal hfound
    refine ⟨mappings, e, hkey, hnormal, hfound, ?_⟩
    exact congrArg Except.ok hmappings

end Facility

end SignalMap
