import SignalMap.Proofs.Declaration.Decoding
import SignalMap.Proofs.Lookup.Keys
import SignalMap.Proofs.Lookup.Parts
import SignalMap.Proofs.Resolution.ReferenceGraph

/-!
Paths as declarations and requests write them. A path that is asked for and the same
path as the key of a declaration, or as the name of an entry in one, make the same
key, although the one is bound to indices and the other is not. So a rule may name an
entry by the path of a request for it.
-/

namespace SignalMap

namespace DataPath

theorem dropSchema_cons {schema : String} {rest : List String} (h : rest ≠ []) :
    dropSchema schema (schema :: rest) = rest := by
  cases rest with
  | nil => exact absurd rfl h
  | cons next rest => exact if_pos rfl

/-- The key of a path that names its schema. -/
theorem normalizeKey_of_split {schema path : String} {rest : List String}
    (hsplit : split path = schema :: rest) (h : rest ≠ []) :
    normalizeKey schema path = join (rest.map keySegment) := by
  unfold normalizeKey
  rw [hsplit, dropSchema_cons h]

end DataPath

/-- The key of a request is the key that its path makes in a declaration of its
schema. -/
theorem Request.key_of_normalize {request : Request} {n : NormalizedPath}
    (h : request.normalize = .ok n) : DataPath.normalizeKey n.schema request.path = n.key := by
  obtain ⟨_, rest, bound, _, hsplit, hne, hbound, hkey, _⟩ := normalize_eq_ok.mp h
  rw [DataPath.normalizeKey_of_split hsplit hne, hkey, segments_of_bindSegments hbound]

namespace Declaration

def referenceTexts (d : Declaration) : List String :=
  match RuleKind.ofName? d.kind with
  | some kind => writtenReferences d.parameters kind
  | none => []

theorem references_of_entry {schema : String} {d : Declaration} {e : Entry}
    (h : d.entry schema = .ok e) :
    e.references = d.referenceTexts.map (DataPath.normalizeKey schema) := by
  obtain ⟨_, _, kind, hkind, hrule⟩ := entry_eq_ok.mp h
  unfold referenceTexts
  rw [hkind]
  exact references_of_rule hrule

end Declaration

namespace Session

/-- A path makes one key, in a request as in the declarations of its schema. So the
entry that a declaration makes under the path of a request is found by the request,
and a reference that is written as that path leads to the very entry that the request
finds under its key. -/
theorem normalizeKey_of_normalize (request : Request) (n : NormalizedPath)
    (h : request.normalize = .ok n) :
    DataPath.normalizeKey n.schema request.path = n.key ∧
    (∀ (d : Declaration) (e : Entry), d.entry n.schema = .ok e → d.key = request.path →
      e.key = n.key ∧ ∀ registry : Registry, e ∈ registry.entries →
        findEntry registry n request.path = .ok (e, n)) ∧
    ∀ (d : Declaration) (e : Entry) (i : Nat), d.entry n.schema = .ok e →
      d.referenceTexts[i]? = some request.path →
        ∃ reference, e.references[i]? = some reference ∧
          ∀ (registry : Registry) (found : Entry), registry.get? reference = some found ↔
            findEntry registry n request.path = .ok (found, n) := by
  have hkey := Request.key_of_normalize h
  refine ⟨hkey, ?_, ?_⟩
  · intro d e hentry hpath
    have hown : e.key = n.key := by
      rw [(Declaration.entry_eq_ok.mp hentry).1, hpath, hkey]
    refine ⟨hown, ?_⟩
    intro registry he
    exact findEntry_of_get? (Registry.get?_eq_some_iff.mpr ⟨he, hown⟩)
  · intro d e i hentry htext
    refine ⟨n.key, ?_, ?_⟩
    · rw [Declaration.references_of_entry hentry, List.getElem?_map, htext, Option.map_some, hkey]
    · intro registry found
      exact (findEntry_exact_iff (Request.signal_of_normalize h)).symm

def askedWritten : Request := ⟨"F", " 3 //12/#/3/ data", [5], none, none, none, none⟩

def writtenDeclaration : Declaration :=
  ⟨" 3 //12/#/3/ data", "slice",
    [("slice", .string "1:"), ("variable", .string " 3 //12/#/3/ data")]⟩

def writtenEntry : Entry :=
  ⟨"#/#/#/data", .slice "#/#/#/data" (.range (some (.literal 1)) none 1)⟩

theorem normalizeKey_of_normalize_written :
    askedWritten.normalize = .ok ⟨"3", "#/#/#/data", [12, 5, 3], .default⟩ ∧
      DataPath.normalizeKey "3" askedWritten.path = "#/#/#/data" ∧
      writtenDeclaration.entry "3" = .ok writtenEntry ∧
      findEntry ⟨[writtenEntry], by decide⟩ ⟨"3", "#/#/#/data", [12, 5, 3], .default⟩
        askedWritten.path = .ok (writtenEntry, ⟨"3", "#/#/#/data", [12, 5, 3], .default⟩) ∧
      ∃ reference, writtenEntry.references[0]? = some reference ∧
        ∀ registry : Registry, registry.get? reference = some writtenEntry ↔
          findEntry registry ⟨"3", "#/#/#/data", [12, 5, 3], .default⟩ askedWritten.path =
            .ok (writtenEntry, ⟨"3", "#/#/#/data", [12, 5, 3], .default⟩) := by
  have hnormal : askedWritten.normalize = .ok ⟨"3", "#/#/#/data", [12, 5, 3], .default⟩ := by
    rfl
  have hentry : writtenDeclaration.entry "3" = .ok writtenEntry := by
    rfl
  obtain ⟨hkey, hdeclared, hnamed⟩ := normalizeKey_of_normalize askedWritten _ hnormal
  obtain ⟨_, hfound⟩ := hdeclared writtenDeclaration writtenEntry hentry rfl
  obtain ⟨reference, hreference, hsame⟩ := hnamed writtenDeclaration writtenEntry 0 hentry rfl
  exact ⟨hnormal, hkey, hentry, hfound _ (List.mem_singleton_self _), reference, hreference,
    fun registry => hsame registry writtenEntry⟩

end Session

end SignalMap
