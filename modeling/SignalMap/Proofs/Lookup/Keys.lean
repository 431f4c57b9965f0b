import SignalMap.Proofs.Loading.Schemas
import SignalMap.Proofs.Lookup.Segments

/-!
Keys of loaded entries. Whatever text a declaration gives as its key, the entry
stands under a path of clean segments without indices, and this holds of every
registry that a load of a facility makes.
-/

namespace SignalMap

namespace DataPath

def KeySegments (segments : List String) : Prop :=
  ∀ segment ∈ segments, IsSegment segment ∧ isIndex segment = false

def IsKey (key : String) : Prop :=
  split key ≠ [] ∧ KeySegments (split key) ∧ join (split key) = key

theorem KeySegments.split_join {segments : List String} (h : KeySegments segments) :
    split (join segments) = segments :=
  DataPath.split_join fun segment hsegment => (h segment hsegment).1

theorem isKey_join {segments : List String} (h : KeySegments segments) (hne : segments ≠ []) :
    IsKey (join segments) := by
  unfold IsKey
  rw [h.split_join]
  exact ⟨hne, h, rfl⟩

theorem isSegment_of_mem_dropSchema {schema segment : String} {segments : List String}
    (h : segment ∈ dropSchema schema segments) : segment ∈ segments := by
  unfold dropSchema at h
  split at h
  next first next rest =>
    split at h
    · exact List.mem_cons_of_mem first h
    · exact h
  next => exact h

theorem keySegment_spec {segment : String} (h : IsSegment segment) :
    IsSegment (keySegment segment) ∧ isIndex (keySegment segment) = false := by
  unfold keySegment
  by_cases hindex : isIndex segment
  · rw [if_pos hindex]
    exact ⟨isSegment_placeholder, by decide⟩
  · rw [if_neg hindex]
    exact ⟨h, Bool.eq_false_iff.mpr hindex⟩

theorem keySegments_of_split (schema path : String) :
    KeySegments ((dropSchema schema (split path)).map keySegment) := by
  intro segment hsegment
  obtain ⟨raw, hraw, rfl⟩ := List.mem_map.mp hsegment
  exact keySegment_spec (isSegment_of_mem_split (isSegment_of_mem_dropSchema hraw))

/-- Every key that a text makes is one, unless it is empty. -/
theorem isKey_normalizeKey {schema path : String} (h : normalizeKey schema path ≠ "") :
    IsKey (normalizeKey schema path) := by
  apply isKey_join (keySegments_of_split schema path)
  intro hnil
  apply h
  unfold normalizeKey
  rw [hnil]
  rfl

/-- Between its slashes a key has texts that are not blank at an end, not empty
and not made of digits only. -/
theorem IsKey.pieces {key : String} (h : IsKey key) :
    ∀ piece ∈ Text.splitOn '/' key.toList,
      piece ≠ [] ∧ Text.trimChars piece = piece ∧ '/' ∉ piece ∧ piece.all Char.isDigit = false := by
  obtain ⟨hne, hsegments, hjoin⟩ := h
  have hpieces := splitOn_join hne fun segment hsegment => (hsegments segment hsegment).1
  rw [hjoin] at hpieces
  intro piece hpiece
  rw [hpieces] at hpiece
  obtain ⟨segment, hsegment, rfl⟩ := List.mem_map.mp hpiece
  obtain ⟨hclean, hindex⟩ := hsegments segment hsegment
  obtain ⟨hfilled, hslash, htrim⟩ := hclean.clean
  refine ⟨hfilled, htrim, hslash, ?_⟩
  unfold isIndex at hindex
  simpa [hfilled] using hindex

/-- In front of a slash in a key there is something. -/
theorem IsKey.parent_ne_empty {key parent last : String} (h : IsKey key)
    (hkey : key = parent ++ "/" ++ last) : parent ≠ "" := by
  rintro rfl
  have hpieces : Text.splitOn '/' key.toList = [] :: Text.splitOn '/' last.toList := by
    rw [hkey]
    simp [Text.splitOn]
  have hempty : [] ∈ Text.splitOn '/' key.toList := by
    rw [hpieces]
    exact List.mem_cons_self
  exact (h.pieces [] hempty).1 rfl

end DataPath

namespace Declaration

theorem isKey_of_entry {schema : String} {d : Declaration} {e : Entry}
    (h : d.entry schema = .ok e) : DataPath.IsKey e.key := by
  obtain ⟨hkey, hne, _⟩ := entry_eq_ok.mp h
  rw [hkey] at hne ⊢
  exact DataPath.isKey_normalizeKey hne

end Declaration

/-- Every entry of a document is that of a declaration. -/
theorem Entry.exists_declaration {schema : String} {document : Json} {entries : List Entry}
    (h : Entry.ofDocument schema document = .ok entries) :
    ∀ e ∈ entries, ∃ d : Declaration, d.entry schema = .ok e := by
  obtain ⟨documents, _, hentries⟩ := Entry.ofDocument_eq_ok.mp h
  intro e he
  obtain ⟨document, _, d, _, hd⟩ := exists_of_forall₂ hentries he
  exact ⟨d, hd⟩

theorem Entry.isKey_of_ofDocument {schema : String} {document : Json} {entries : List Entry}
    (h : Entry.ofDocument schema document = .ok entries) :
    ∀ e ∈ entries, DataPath.IsKey e.key := by
  intro e he
  obtain ⟨d, hd⟩ := Entry.exists_declaration h e he
  exact Declaration.isKey_of_entry hd

namespace Registry

def Proper (r : Registry) : Prop :=
  ∀ e ∈ r.entries, DataPath.IsKey e.key

theorem Proper.empty : Registry.empty.Proper :=
  List.forall_mem_nil _

theorem Proper.insertAll {r inserted : Registry} {entries : List Entry} (h : r.Proper)
    (hentries : ∀ e ∈ entries, DataPath.IsKey e.key)
    (hinsert : r.insertAll entries = .ok inserted) : inserted.Proper := by
  unfold Proper
  rw [(insertAll_eq_ok.mp hinsert).2]
  exact List.forall_mem_append.mpr ⟨h, hentries⟩

end Registry

namespace Facility

variable {host : Host} {schema : String}

theorem proper_of_loadFile {registry loaded : Registry} {path : FilePath} (h : registry.Proper)
    (hload : loadFile host schema registry path = .ok loaded) : loaded.Proper := by
  obtain ⟨document, _, hload⟩ := bind_eq_ok.mp hload
  obtain ⟨entries, hentries, hload⟩ := bind_eq_ok.mp hload
  exact h.insertAll (Entry.isKey_of_ofDocument (mapError_eq_ok.mp hentries))
    (mapError_eq_ok.mp hload)

theorem proper_of_loadFiles {registry loaded : Registry} {paths : List FilePath}
    (h : registry.Proper) (hload : loadFiles host schema registry paths = .ok loaded) :
    loaded.Proper := by
  induction paths generalizing registry with
  | nil =>
    cases hload
    exact h
  | cons path rest ih =>
    obtain ⟨next, hfirst, hload⟩ := bind_eq_ok.mp hload
    exact ih (proper_of_loadFile h hfirst) hload

theorem proper_of_loadSchema {base : FilePath} {files : SchemaFiles} {mappings : SchemaMappings}
    (h : loadSchema host base schema files = .ok mappings) : mappings.registry.Proper :=
  proper_of_loadFiles .empty (loadSchema_eq_ok.mp h).2

/-- The schemas of a load are those of its manifest, and their registries are
proper. -/
theorem schemas_of_loadSchemas {base : FilePath} {declared : List (String × SchemaFiles)}
    {schemas : List (String × SchemaMappings)} (h : loadSchemas host base declared = .ok schemas) :
    schemas.map Prod.fst = declared.map Prod.fst ∧ ∀ s ∈ schemas, s.2.registry.Proper := by
  induction declared generalizing schemas with
  | nil =>
    cases h
    exact ⟨rfl, List.forall_mem_nil _⟩
  | cons first rest ih =>
    obtain ⟨schema, files⟩ := first
    obtain ⟨mappings, hmappings, h⟩ := bind_eq_ok.mp h
    obtain ⟨others, hothers, h⟩ := bind_eq_ok.mp h
    cases h
    obtain ⟨hnames, hproper⟩ := ih hothers
    refine ⟨?_, List.forall_mem_cons.mpr ⟨proper_of_loadSchema hmappings, hproper⟩⟩
    rw [List.map_cons, List.map_cons, hnames]

/-- A loaded facility has mappings for every schema that its manifest declares,
with keys of clean segments only. -/
theorem proper_of_load {root : FilePath} {name version : String} {f : Facility}
    (h : load host root name version = .ok f)
    (hschema : schema ∈ f.manifest.schemas.map Prod.fst) :
    ∃ mappings, f.schema? schema = some mappings ∧ mappings.registry.Proper := by
  obtain ⟨manifest, _, h⟩ := bind_eq_ok.mp h
  obtain ⟨schemas, hschemas, h⟩ := bind_eq_ok.mp h
  cases h
  obtain ⟨hnames, hproper⟩ := schemas_of_loadSchemas hschemas
  have hdeclared : schema ∈ schemas.map Prod.fst := hnames ▸ hschema
  obtain ⟨declared, hmem, rfl⟩ := List.mem_map.mp hdeclared
  have hfound : (schemas.lookup declared.1).isSome :=
    List.lookup_isSome_iff.mpr ⟨declared, hmem, beq_self_eq_true _⟩
  obtain ⟨mappings, hmappings⟩ := Option.isSome_iff_exists.mp hfound
  obtain ⟨before, after, hsplit, _⟩ := List.lookup_eq_some_iff.mp hmappings
  refine ⟨mappings, hmappings, hproper (declared.1, mappings) ?_⟩
  rw [hsplit]
  exact List.mem_append_right _ List.mem_cons_self

end Facility

end SignalMap
