import SignalMap.Proofs.Loading.Spreading
import SignalMap.Proofs.Lookup.WrittenPaths
import SignalMap.Proofs.Session.Classification

/-!
Keys as a session lists them. A key that is read once more stays as it is, unless the
name of its schema stands in front of other segments: that name is taken for the
schema and left out. So an entry can be named by its own key exactly when the key
does not begin in this way.
-/

namespace SignalMap

namespace DataPath

variable {schema key : String} {rest : List String}

def NamesSchema (schema key : String) : Prop :=
  ∃ rest, rest ≠ [] ∧ split key = schema :: rest

theorem dropSchema_of_not_namesSchema (h : ¬ NamesSchema schema key) :
    dropSchema schema (split key) = split key := by
  cases hsplit : split key with
  | nil => rfl
  | cons first others =>
    cases others with
    | nil => rfl
    | cons next rest =>
      have hfirst : first ≠ schema := by
        intro heq
        exact h ⟨next :: rest, List.cons_ne_nil _ _, heq ▸ hsplit⟩
      exact if_neg hfirst

theorem KeySegments.map_keySegment {segments : List String} (h : KeySegments segments) :
    segments.map keySegment = segments := by
  have hsame : segments.map keySegment = segments.map id := by
    apply List.map_congr_left
    intro segment hsegment
    have hindex := (h segment hsegment).2
    exact if_neg (by simp [hindex])
  rw [hsame, List.map_id]

/-- A key that is read once more is left without the name of its schema in front. -/
theorem IsKey.normalizeKey_of_split (h : IsKey key) (hsplit : split key = schema :: rest)
    (hrest : rest ≠ []) : normalizeKey schema key = join rest := by
  have hsegments : KeySegments rest := by
    intro segment hsegment
    apply h.2.1 segment
    rw [hsplit]
    exact List.mem_cons_of_mem schema hsegment
  rw [DataPath.normalizeKey_of_split hsplit hrest, hsegments.map_keySegment]

theorem IsKey.normalizeKey_of_not_namesSchema (h : IsKey key) (hnot : ¬ NamesSchema schema key) :
    normalizeKey schema key = key := by
  obtain ⟨_, hsegments, hjoin⟩ := h
  unfold normalizeKey
  rw [dropSchema_of_not_namesSchema hnot, hsegments.map_keySegment, hjoin]

theorem IsKey.normalizeKey_eq_self_iff (h : IsKey key) :
    normalizeKey schema key = key ↔ ¬ NamesSchema schema key := by
  constructor
  · intro hself hnames
    obtain ⟨rest, hrest, hsplit⟩ := hnames
    have hjoin := h.normalizeKey_of_split hsplit hrest
    have hsegments : ∀ segment ∈ rest, IsSegment segment := by
      intro segment hsegment
      have hmem : segment ∈ split key := by
        rw [hsplit]
        exact List.mem_cons_of_mem schema hsegment
      exact isSegment_of_mem_split hmem
    -- The key would have the segments of the rest and one more.
    have hlength := congrArg List.length hsplit
    rw [← hself, hjoin, split_join hsegments, List.length_cons] at hlength
    omega
  · intro hnot
    exact h.normalizeKey_of_not_namesSchema hnot

theorem not_namesSchema_empty : ¬ NamesSchema schema "" := by
  intro h
  obtain ⟨rest, _, hsplit⟩ := h
  have hnil : split "" = [] := by decide
  rw [hnil] at hsplit
  cases hsplit

/-- What a text makes is a key or empty; read once more it is the same exactly when the
name of the schema does not stand in front. -/
theorem normalizeKey_normalizeKey_iff (schema path : String) :
    normalizeKey schema (normalizeKey schema path) = normalizeKey schema path ↔
      ¬ NamesSchema schema (normalizeKey schema path) := by
  by_cases hempty : normalizeKey schema path = ""
  · rw [hempty]
    have hnil : normalizeKey schema "" = "" := rfl
    exact iff_of_true hnil not_namesSchema_empty
  · exact (isKey_normalizeKey hempty).normalizeKey_eq_self_iff

theorem normalizeKey_normalizeKey_of_split {path : String}
    (hsplit : split (normalizeKey schema path) = schema :: rest) (hrest : rest ≠ []) :
    normalizeKey schema (normalizeKey schema path) = join rest := by
  have hne : normalizeKey schema path ≠ "" := by
    intro hempty
    rw [hempty] at hsplit
    exact not_namesSchema_empty ⟨rest, hrest, hsplit⟩
  exact (isKey_normalizeKey hne).normalizeKey_of_split hsplit hrest

end DataPath

theorem Facility.proper_of_schema? {host : Host} {root : FilePath} {name version schema : String}
    {f : Facility} {mappings : SchemaMappings} (hload : load host root name version = .ok f)
    (h : f.schema? schema = some mappings) : mappings.registry.Proper := by
  obtain ⟨manifest, _, hload⟩ := bind_eq_ok.mp hload
  obtain ⟨schemas, hschemas, hload⟩ := bind_eq_ok.mp hload
  cases hload
  obtain ⟨before, after, hsplit, _⟩ := List.lookup_eq_some_iff.mp h
  apply (schemas_of_loadSchemas hschemas).2 (schema, mappings)
  rw [show schemas = before ++ (schema, mappings) :: after from hsplit]
  exact List.mem_append_right before List.mem_cons_self

namespace Session

variable {s : Session} {host : Host} {facility schema : String} {mappings : SchemaMappings}

theorem Reachable.list (h : s.Reachable) (host : Host) (facility schema : String) :
    (s.list host facility schema).1.Reachable := by
  obtain ⟨config, resolver, history, rfl⟩ := h
  refine ⟨config, resolver, history ++ [(host, .call (.list facility schema))], ?_⟩
  rw [run_append]
  rfl

/-- Whatever a session answers from was loaded, so every key is one. -/
theorem Reachable.proper_of_mappings (h : s.Reachable)
    (hmappings : (s.catalog.mappings host facility schema).2 = .ok mappings) :
    mappings.registry.Proper := by
  obtain ⟨f, hkept, hschema⟩ := Catalog.facility?_of_mappings hmappings
  obtain ⟨config, resolver, history, hnext⟩ := h.list host facility schema
  have hcatalog : (s.catalog.mappings host facility schema).1 =
      ((start config resolver).run history).catalog := congrArg Session.catalog hnext
  rw [hcatalog] at hkept
  obtain ⟨l, _, _, hresult⟩ :=
    (accounts_run config resolver history).facility?_eq_some_iff.mp hkept
  exact Facility.proper_of_schema? hresult hschema

theorem mappings_of_list {listed : List (String × RuleKind)}
    (h : (s.list host facility schema).2 = .ok listed) :
    ∃ mappings, (s.catalog.mappings host facility schema).2 = .ok mappings ∧
      listed = mappings.registry.entries.map fun e => (e.key, e.rule.kind) := by
  obtain ⟨mappings, hmappings, rfl⟩ := map_eq_ok.mp h
  exact ⟨mappings, hmappings, rfl⟩

/-- The key of an entry, written in another declaration, leads to that entry exactly
when the name of the schema does not stand in front of it. -/
theorem get?_reference_iff {registry : Registry} {e : Entry} (hproper : registry.Proper)
    (he : e ∈ registry.entries) :
    registry.get? (DataPath.normalizeKey schema e.key) = some e ↔
      ¬ DataPath.NamesSchema schema e.key := by
  rw [Registry.get?_eq_some_iff, ← (hproper e he).normalizeKey_eq_self_iff]
  constructor
  · intro h
    exact h.2.symm
  · intro hself
    exact ⟨he, hself.symm⟩

/-- A key that a text makes is read as itself once more, unless the name of its schema
stands in front of other segments: then these others are what it is read as. So a key
as a session lists it, written in another declaration of its schema, leads to its entry
exactly when it does not begin in this way. -/
theorem listed_key_leads_iff :
    (∀ schema path : String,
      (DataPath.normalizeKey schema (DataPath.normalizeKey schema path) =
          DataPath.normalizeKey schema path ↔
        ¬ DataPath.NamesSchema schema (DataPath.normalizeKey schema path)) ∧
      ∀ rest, rest ≠ [] → DataPath.split (DataPath.normalizeKey schema path) = schema :: rest →
        DataPath.normalizeKey schema (DataPath.normalizeKey schema path) = DataPath.join rest) ∧
    ∀ (s : Session) (host : Host) (facility schema : String) (listed : List (String × RuleKind)),
      s.Reachable → (s.list host facility schema).2 = .ok listed →
        ∃ mappings, (s.catalog.mappings host facility schema).2 = .ok mappings ∧
          ∀ line ∈ listed, ∃ e ∈ mappings.registry.entries, line = (e.key, e.rule.kind) ∧
            ∀ (d : Declaration) (other : Entry) (i : Nat), d.entry schema = .ok other →
              d.referenceTexts[i]? = some line.1 →
                ∃ reference, other.references[i]? = some reference ∧
                  (mappings.registry.get? reference = some e ↔
                    ¬ DataPath.NamesSchema schema line.1) ∧
                  ∀ rest, rest ≠ [] → DataPath.split line.1 = schema :: rest →
                    reference = DataPath.join rest := by
  constructor
  · intro schema path
    refine ⟨DataPath.normalizeKey_normalizeKey_iff schema path, ?_⟩
    intro rest hrest hsplit
    exact DataPath.normalizeKey_normalizeKey_of_split hsplit hrest
  · intro s host facility schema listed hreachable hlist
    obtain ⟨mappings, hmappings, rfl⟩ := mappings_of_list hlist
    have hproper := hreachable.proper_of_mappings hmappings
    refine ⟨mappings, hmappings, ?_⟩
    intro line hline
    obtain ⟨e, he, rfl⟩ := List.mem_map.mp hline
    refine ⟨e, he, rfl, ?_⟩
    intro d other i hentry htext
    refine ⟨DataPath.normalizeKey schema e.key, ?_, get?_reference_iff hproper he, ?_⟩
    · rw [Declaration.references_of_entry hentry, List.getElem?_map, htext]
      rfl
    · intro rest hrest hsplit
      exact (hproper e he).normalizeKey_of_split hsplit hrest

def schemaTwice : Host :=
  .ofFindings ⟨"/h"⟩
    [(⟨"/r"⟩, .directory),
     (⟨"/r/F/1/mappings.cfg.json"⟩, .file "\x7b\"m\":\x7b\"mappings\":[\"a\",\"b\"]\x7d\x7d"),
     (⟨"/r/F/1/a"⟩, .file "[\x7b\"key\":\"m/m/x\",\"type\":\"VALUE\",\"value\":\"v\"\x7d]"),
     (⟨"/r/F/1/b"⟩, .file
       "[\x7b\"key\":\"y\",\"type\":\"CUSTOM\",\"name\":\"size\",\"variable\":\"m/x\"\x7d]")]

def sizeDeclaration (written : String) : Declaration :=
  ⟨"y", "CUSTOM", [("name", .string "size"), ("variable", .string written)]⟩

theorem list_schemaTwice :
    ((start firstVersion .standard).list schemaTwice "F" "m").2 =
      .ok [("m/x", .value), ("y", .custom)] := by
  rfl

theorem reachable_start (config : Config) (resolver : Resolver) :
    (start config resolver).Reachable :=
  ⟨config, resolver, [], rfl⟩

/-- The second key leads to its entry, and the first one to a key that is not there. -/
theorem listed_key_leads_iff_schemaTwice :
    (start firstVersion .standard).Reachable ∧
      ((start firstVersion .standard).list schemaTwice "F" "m").2 =
        .ok [("m/x", .value), ("y", .custom)] ∧
      ∃ mappings, ((start firstVersion .standard).catalog.mappings schemaTwice "F" "m").2 =
          .ok mappings ∧
        (∃ e ∈ mappings.registry.entries, e.key = "y" ∧ mappings.registry.get? "y" = some e) ∧
        ∃ e ∈ mappings.registry.entries, e.key = "m/x" ∧ mappings.registry.get? "x" ≠ some e := by
  have hreachable := reachable_start firstVersion .standard
  obtain ⟨mappings, hmappings, hlines⟩ :=
    listed_key_leads_iff.2 _ _ _ _ _ hreachable list_schemaTwice
  refine ⟨hreachable, list_schemaTwice, mappings, hmappings, ?_, ?_⟩
  · obtain ⟨e, he, hline, hleads⟩ := hlines ("y", .custom) (by simp)
    obtain ⟨reference, hreference, hfound, _⟩ :=
      hleads (sizeDeclaration "y") ⟨"y", .custom "size" (some "y") []⟩ 0 rfl rfl
    obtain rfl : "y" = reference := Option.some.inj hreference
    have hnot : ¬ DataPath.NamesSchema "m" "y" := by
      intro h
      obtain ⟨rest, _, hsplit⟩ := h
      have hfirst : DataPath.split "y" = ["y"] := by decide
      rw [hfirst] at hsplit
      exact absurd (List.cons.inj hsplit).1 (by decide)
    exact ⟨e, he, (congrArg Prod.fst hline).symm, hfound.mpr hnot⟩
  · obtain ⟨e, he, hline, hleads⟩ := hlines ("m/x", .value) (by simp)
    obtain ⟨reference, hreference, hfound, hrest⟩ :=
      hleads (sizeDeclaration "m/x") ⟨"y", .custom "size" (some "x") []⟩ 0 rfl rfl
    obtain rfl : "x" = reference := Option.some.inj hreference
    have hnames : DataPath.NamesSchema "m" "m/x" := ⟨["x"], by decide, by decide⟩
    refine ⟨e, he, (congrArg Prod.fst hline).symm, ?_⟩
    intro hx
    exact hfound.mp hx hnames

/-- A key that begins with the name of its schema is not read as itself, and a rule that
names it as it is listed asks for another one. -/
theorem not_forall_listed_key_leads :
    (¬ ∀ schema path : String, DataPath.normalizeKey schema (DataPath.normalizeKey schema path) =
        DataPath.normalizeKey schema path) ∧
      ((start firstVersion .standard).resolve schemaTwice
          ⟨"F", "m/y", [], none, none, none, none⟩).2.result =
        .error (.transform ⟨"y", .missingEntry "x"⟩) ∧
      ¬ ∀ (s : Session) (host : Host) (facility schema : String)
          (listed : List (String × RuleKind)) (mappings : SchemaMappings),
        s.Reachable → (s.list host facility schema).2 = .ok listed →
          (s.catalog.mappings host facility schema).2 = .ok mappings →
            ∀ line ∈ listed, ∀ (d : Declaration) (other : Entry) (i : Nat),
              d.entry schema = .ok other → d.referenceTexts[i]? = some line.1 →
                ∃ reference, other.references[i]? = some reference ∧
                  ∃ e, mappings.registry.get? reference = some e ∧ e.key = line.1 := by
  refine ⟨?_, by rfl, ?_⟩
  · intro hall
    exact absurd (hall "m" "m/m/x") (by decide)
  · intro hall
    obtain ⟨mappings, hmappings, _⟩ := mappings_of_list list_schemaTwice
    obtain ⟨reference, hreference, e, hfound, hkey⟩ :=
      hall _ _ _ _ _ mappings (reachable_start firstVersion .standard) list_schemaTwice hmappings
        ("m/x", .value) (by simp) (sizeDeclaration "m/x") ⟨"y", .custom "size" (some "x") []⟩ 0
        rfl rfl
    obtain rfl : "x" = reference := Option.some.inj hreference
    rw [Registry.key_of_get? hfound] at hkey
    exact absurd hkey (by decide)

end Session

end SignalMap
