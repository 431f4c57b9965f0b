import SignalMap.Facility
import SignalMap.Proofs.Declaration.Decoding

/-!
Loads of one schema. When its mapping files are arrays of documents, a load succeeds
exactly when every document declares an entry and no two of the entries have the same
key, and the registry then lists the entries in the order of the documents.
-/

namespace SignalMap

namespace Registry

theorem ext_entries {r other : Registry} (h : r.entries = other.entries) : r = other := by
  obtain ⟨entries, _⟩ := r
  obtain ⟨otherEntries, _⟩ := other
  cases h
  rfl

theorem insert?_eq_some {r inserted : Registry} {e : Entry} :
    r.insert? e = some inserted ↔ e.key ∉ r.keys ∧ inserted.entries = r.entries ++ [e] := by
  unfold insert?
  split
  next hkey => simp [hkey]
  next hkey =>
    constructor
    · intro h
      cases h
      exact ⟨hkey, rfl⟩
    · rintro ⟨_, h⟩
      exact congrArg some (ext_entries h.symm)

theorem insert?_eq_none {r : Registry} {e : Entry} : r.insert? e = none ↔ e.key ∈ r.keys := by
  unfold insert?
  split
  next hkey => simp [hkey]
  next hkey => simp [hkey]

/-- Entries are added in their order, unless two of all have the same key. -/
theorem insertAll_eq_ok {r inserted : Registry} {entries : List Entry} :
    r.insertAll entries = .ok inserted ↔
      ((r.entries ++ entries).map Entry.key).Nodup ∧ inserted.entries = r.entries ++ entries := by
  induction entries generalizing r with
  | nil =>
    rw [List.append_nil]
    constructor
    · intro h
      cases h
      exact ⟨inserted.nodup_keys, rfl⟩
    · rintro ⟨_, h⟩
      exact congrArg Except.ok (ext_entries h.symm)
  | cons e rest ih =>
    unfold insertAll
    cases hstep : r.insert? e with
    | none =>
      have hkey : e.key ∈ r.entries.map Entry.key := insert?_eq_none.mp hstep
      constructor
      · intro h
        cases h
      · rintro ⟨hnodup, _⟩
        rw [List.map_append, List.map_cons] at hnodup
        exact absurd rfl ((List.nodup_append.mp hnodup).2.2 _ hkey _ List.mem_cons_self)
    | some next =>
      obtain ⟨_, hnext⟩ := insert?_eq_some.mp hstep
      dsimp only
      rw [ih, hnext, List.append_assoc, List.singleton_append]

theorem insertAll_append (r : Registry) (entries others : List Entry) :
    r.insertAll (entries ++ others) = r.insertAll entries >>= fun r => r.insertAll others := by
  induction entries generalizing r with
  | nil => rfl
  | cons e rest ih =>
    rw [List.cons_append, insertAll, insertAll]
    cases r.insert? e with
    | none => rfl
    | some next => exact ih next

end Registry

namespace Facility

variable {host : Host} {schema : String} {base : FilePath}

def readGlobals (host : Host) (base : FilePath) : Option String → Except ConfigurationError Fields
  | some relative => loadGlobals host (FilePath.resolve host.home base relative)
  | none => .ok []

theorem loadSchema_eq (files : SchemaFiles) :
    loadSchema host base schema files = do
      let globals ← readGlobals host base files.globals
      let registry ← loadFiles host schema .empty
        (files.mappings.paths.map (FilePath.resolve host.home base))
      return { globals, registry } := by
  unfold loadSchema readGlobals
  cases files.globals with
  | none => rfl
  | some relative => rfl

theorem loadSchema_eq_ok {files : SchemaFiles} {mappings : SchemaMappings} :
    loadSchema host base schema files = .ok mappings ↔
      readGlobals host base files.globals = .ok mappings.globals ∧
        loadFiles host schema .empty
          (files.mappings.paths.map (FilePath.resolve host.home base)) = .ok mappings.registry := by
  obtain ⟨globals, registry⟩ := mappings
  rw [loadSchema_eq]
  constructor
  · intro h
    obtain ⟨_, hglobals, h⟩ := bind_eq_ok.mp h
    obtain ⟨_, hregistry, h⟩ := bind_eq_ok.mp h
    cases h
    exact ⟨hglobals, hregistry⟩
  · rintro ⟨hglobals, hregistry⟩
    exact bind_eq_ok.mpr ⟨globals, hglobals, bind_eq_ok.mpr ⟨registry, hregistry, rfl⟩⟩

theorem loadFile_eq_ok {registry loaded : Registry} {path : FilePath} {documents : List Json}
    (hread : readDocument host path = .ok (.array documents)) :
    loadFile host schema registry path = .ok loaded ↔
      ∃ entries, List.Forall₂ (Declaration.Declares schema) documents entries ∧
        registry.insertAll entries = .ok loaded := by
  constructor
  · intro h
    obtain ⟨document, hdocument, h⟩ := bind_eq_ok.mp h
    rw [hread] at hdocument
    cases hdocument
    obtain ⟨entries, hentries, h⟩ := bind_eq_ok.mp h
    obtain ⟨_, hdocuments, hdeclares⟩ := Entry.ofDocument_eq_ok.mp (mapError_eq_ok.mp hentries)
    cases hdocuments
    exact ⟨entries, hdeclares, mapError_eq_ok.mp h⟩
  · rintro ⟨entries, hdeclares, hinsert⟩
    have hentries := Entry.ofDocument_eq_ok.mpr ⟨documents, rfl, hdeclares⟩
    refine bind_eq_ok.mpr ⟨.array documents, hread, ?_⟩
    exact bind_eq_ok.mpr ⟨entries, mapError_eq_ok.mpr hentries, mapError_eq_ok.mpr hinsert⟩

/-- The files are loaded one behind the other, as if all their documents stood in
one. -/
theorem loadFiles_eq_ok {registry loaded : Registry} {paths : List FilePath}
    {documents : List (List Json)}
    (hread : List.Forall₂ (fun path held => readDocument host path = .ok (.array held))
      paths documents) :
    loadFiles host schema registry paths = .ok loaded ↔
      ∃ entries, List.Forall₂ (Declaration.Declares schema) documents.flatten entries ∧
        registry.insertAll entries = .ok loaded := by
  induction hread generalizing registry with
  | nil => simp [loadFiles, List.forall₂_nil_left_iff, Registry.insertAll]
  | @cons path held paths documents hfirst _ ih =>
    rw [List.flatten_cons]
    constructor
    · intro h
      obtain ⟨next, hnext, h⟩ := bind_eq_ok.mp h
      obtain ⟨entries, hentries, hinsert⟩ := (loadFile_eq_ok hfirst).mp hnext
      obtain ⟨others, hothers, hrest⟩ := ih.mp h
      refine ⟨entries ++ others, ?_, ?_⟩
      · exact forall₂_append_left_iff.mpr ⟨entries, others, hentries, hothers, rfl⟩
      · rw [Registry.insertAll_append]
        exact bind_eq_ok.mpr ⟨next, hinsert, hrest⟩
    · rintro ⟨all, hall, hinsert⟩
      obtain ⟨entries, others, hentries, hothers, rfl⟩ := forall₂_append_left_iff.mp hall
      rw [Registry.insertAll_append] at hinsert
      obtain ⟨next, hinsert, hrest⟩ := bind_eq_ok.mp hinsert
      refine bind_eq_ok.mpr ⟨next, (loadFile_eq_ok hfirst).mpr ⟨entries, hentries, hinsert⟩, ?_⟩
      exact ih.mpr ⟨others, hothers, hrest⟩

end Facility

end SignalMap
