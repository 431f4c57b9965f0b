import SignalMap.Proofs.Lookup.WrittenPaths
import SignalMap.Proofs.Resolution.Diagnosis

/-!
References that lead to a key. A text that holds more than slashes and blanks makes a
key, and every such key can be declared; a text that holds nothing else makes the empty
one, under which no entry ever stands. An OFFSET declaration with such a text is
refused, and declarations of the other kinds are not: whatever leads to their entries
can never be resolved.
-/

namespace SignalMap

namespace DataPath

/-- A path has no segments exactly when it holds slashes and blanks only. -/
theorem split_eq_nil_iff {path : String} :
    split path = [] ↔ ∀ c ∈ path.toList, c = '/' ∨ Text.isBlank c = true := by
  constructor
  · intro hnil c hc
    by_contra hother
    obtain ⟨hslash, hblank⟩ := not_or.mp hother
    obtain ⟨piece, hpiece, hmem⟩ := Text.exists_mem_splitOn_iff.mpr ⟨hc, hslash⟩
    have hkept := Text.mem_trimChars_of_not_blank hmem (Bool.eq_false_iff.mpr hblank)
    have hsegment : String.ofList (Text.trimChars piece) ∈ split path := by
      apply List.mem_map_of_mem
      apply List.mem_filter.mpr
      refine ⟨List.mem_map_of_mem hpiece, ?_⟩
      simpa using List.ne_nil_of_mem hkept
    rw [hnil] at hsegment
    cases hsegment
  · intro hall
    apply List.eq_nil_iff_forall_not_mem.mpr
    intro segment hsegment
    obtain ⟨cs, hcs, _⟩ := List.mem_map.mp hsegment
    obtain ⟨hcs, hfilled⟩ := List.mem_filter.mp hcs
    obtain ⟨piece, hpiece, rfl⟩ := List.mem_map.mp hcs
    have hblank : piece.all Text.isBlank := by
      apply List.all_eq_true.mpr
      intro c hc
      obtain ⟨hmem, hslash⟩ := Text.exists_mem_splitOn_iff.mp ⟨piece, hpiece, hc⟩
      exact (hall c hmem).resolve_left hslash
    rw [(Text.Padded.nil_iff.mpr hblank).trimChars_eq] at hfilled
    cases hfilled

theorem dropSchema_eq_nil_iff {schema : String} {segments : List String} :
    dropSchema schema segments = [] ↔ segments = [] := by
  unfold dropSchema
  split
  next first next rest =>
    by_cases hfirst : first = schema
    · simp [hfirst]
    · simp [hfirst]
  next => rfl

theorem not_isKey_empty : ¬ IsKey "" := by
  intro h
  exact h.1 (by decide)

/-- A text makes the empty key exactly when it has no segments. -/
theorem normalizeKey_eq_empty_iff {schema path : String} :
    normalizeKey schema path = "" ↔ split path = [] := by
  constructor
  · intro hempty
    by_contra hne
    apply not_isKey_empty
    rw [← hempty]
    apply isKey_join (keySegments_of_split schema path)
    intro hnil
    exact hne (dropSchema_eq_nil_iff.mp (List.map_eq_nil_iff.mp hnil))
  · intro hnil
    unfold normalizeKey
    rw [hnil]
    rfl

end DataPath

namespace Declaration

variable {schema key : String} {d : Declaration} {e : Entry}

def IsDeclarable (schema key : String) : Prop :=
  ∃ document e, Declares schema document e ∧ e.key = key

def toDocument (d : Declaration) : Json :=
  .object (("key", .string d.key) :: ("type", .string d.kind) :: d.parameters)

/-- Every text with segments is the key of a declaration, say of a value. -/
theorem declares_text {text : String} (h : DataPath.split text ≠ []) :
    Declares schema (toDocument ⟨text, "VALUE", [("value", .null)]⟩)
      ⟨DataPath.normalizeKey schema text, .value (.literal .null) none⟩ := by
  have hkind : RuleKind.ofName? "VALUE" = some .value := by decide
  refine ⟨⟨text, "VALUE", [("value", .null)]⟩, rfl, ?_⟩
  apply entry_eq_ok.mpr
  refine ⟨rfl, ?_, .value, hkind, rfl⟩
  intro hempty
  exact h (DataPath.normalizeKey_eq_empty_iff.mp hempty)

/-- What a text makes can be declared unless it is empty. -/
theorem isDeclarable_normalizeKey_iff {text : String} :
    IsDeclarable schema (DataPath.normalizeKey schema text) ↔
      DataPath.normalizeKey schema text ≠ "" := by
  constructor
  · intro h
    obtain ⟨_, e, ⟨d, _, hentry⟩, hkey⟩ := h
    rw [← hkey]
    exact (entry_eq_ok.mp hentry).2.1
  · intro hne
    have hsplit : DataPath.split text ≠ [] := by
      intro hnil
      exact hne (DataPath.normalizeKey_eq_empty_iff.mpr hnil)
    exact ⟨_, _, declares_text hsplit, rfl⟩

/-- A reference of an entry is empty, or else it can be declared. -/
theorem isDeclarable_of_reference (hentry : d.entry schema = .ok e) (hkey : key ∈ e.references) :
    IsDeclarable schema key ↔ key ≠ "" := by
  rw [references_of_entry hentry] at hkey
  obtain ⟨text, _, rfl⟩ := List.mem_map.mp hkey
  exact isDeclarable_normalizeKey_iff

/-- No reference of an entry is empty exactly when every text that its declaration names
an entry by holds something else than slashes and blanks. -/
theorem references_ne_empty_iff (hentry : d.entry schema = .ok e) :
    (∀ key ∈ e.references, key ≠ "") ↔
      ∀ text ∈ d.referenceTexts, ∃ c ∈ text.toList, c ≠ '/' ∧ ¬ Text.isBlank c := by
  rw [references_of_entry hentry]
  simp only [List.forall_mem_map, ne_eq, DataPath.normalizeKey_eq_empty_iff,
    DataPath.split_eq_nil_iff, not_forall, not_or, exists_prop]

/-- An OFFSET declaration is refused when it names an entry by a text without
segments. -/
theorem reference_ne_empty_of_offset (hentry : d.entry schema = .ok e)
    (hkind : RuleKind.ofName? d.kind = some .offset) : ∀ key ∈ e.references, key ≠ "" := by
  obtain ⟨_, _, kind, hkind', hrule⟩ := entry_eq_ok.mp hentry
  rw [hkind] at hkind'
  cases hkind'
  obtain ⟨base, amount, _, hne, hmade⟩ := exists_of_offsetRule hrule
  intro key hkey
  unfold Entry.references at hkey
  rw [hmade] at hkey
  obtain rfl := List.mem_singleton.mp hkey
  exact hne

end Declaration

/-- An entry that leads to the empty key has no value, whatever else is declared. -/
theorem Resolver.exists_error_of_reaches_empty {r : Resolver} {s : Scope} {asked : Entry}
    (hproper : s.registry.Proper) (hasked : asked ∈ s.registry.entries)
    (hreach : s.registry.Reaches asked.key "") :
    ∃ err, (r.resolve s asked).result = .error err := by
  cases hresult : (r.resolve s asked).result with
  | error err => exact ⟨err, rfl⟩
  | ok v =>
    have hderivable := derivable_of_resolve hasked hresult
    obtain ⟨e, _, _, hfound, _⟩ := hderivable.of_reaches hreach
    have hkey := hproper e (Registry.mem_of_get? hfound)
    rw [Registry.key_of_get? hfound] at hkey
    exact absurd hkey DataPath.not_isKey_empty

namespace Entry

open Declaration

/-- The references of decoded entries are keys that can be declared, except for the
empty ones; and there are none of these exactly when every declaration that is no
OFFSET names entries by texts of more than slashes and blanks. An entry with an empty
reference, and every entry that leads to it, fails in each resolution. -/
theorem references_declarable_iff (schema : String) (document : Json) (entries : List Entry)
    (h : Entry.ofDocument schema document = .ok entries) :
    (∃ documents, document = .array documents ∧
      ((∀ e ∈ entries, ∀ key ∈ e.references, key ≠ "" ∧ IsDeclarable schema key) ↔
        ∀ item ∈ documents, ∀ d, ofJson item = .ok d →
          RuleKind.ofName? d.kind ≠ some .offset →
            ∀ text ∈ d.referenceTexts, ∃ c ∈ text.toList, c ≠ '/' ∧ ¬ Text.isBlank c)) ∧
      ∀ e ∈ entries,
        (∀ key ∈ e.references, IsDeclarable schema key ↔ key ≠ "") ∧
        (e.rule.kind = .offset → ∀ key ∈ e.references, key ≠ "") ∧
        ("" ∈ e.references → ∀ (r : Resolver) (s : Scope), s.registry.Proper →
          e ∈ s.registry.entries → ∀ asked ∈ s.registry.entries,
            s.registry.Reaches asked.key e.key →
              ∃ err, (r.resolve s asked).result = .error err) := by
  obtain ⟨documents, hdocument, hpairs⟩ := Entry.ofDocument_eq_ok.mp h
  refine ⟨⟨documents, hdocument, ?_⟩, ?_⟩
  · constructor
    · intro hall item hitem d hd _
      obtain ⟨e, he, other, hother, hentry⟩ := exists_of_forall₂ hpairs.flip hitem
      rw [hd] at hother
      cases hother
      apply (references_ne_empty_iff hentry).mp
      intro key hkey
      exact (hall e he key hkey).1
    · intro htexts e he key hkey
      obtain ⟨item, hitem, d, hd, hentry⟩ := exists_of_forall₂ hpairs he
      rw [isDeclarable_of_reference hentry hkey, and_self]
      by_cases hkind : RuleKind.ofName? d.kind = some .offset
      · exact reference_ne_empty_of_offset hentry hkind key hkey
      · exact (references_ne_empty_iff hentry).mpr (htexts item hitem d hd hkind) key hkey
  · intro e he
    obtain ⟨item, _, d, _, hentry⟩ := exists_of_forall₂ hpairs he
    refine ⟨fun key hkey => isDeclarable_of_reference hentry hkey, ?_, ?_⟩
    · intro hoffset
      obtain ⟨_, _, kind, hkind, hrule⟩ := entry_eq_ok.mp hentry
      rw [← kind_of_rule hrule, hoffset] at hkind
      exact reference_ne_empty_of_offset hentry hkind
    · intro hempty r s hproper hown asked hasked hreach
      apply Resolver.exists_error_of_reaches_empty hproper hasked
      exact hreach.tail ((Registry.refers_key hown).mpr hempty)

def strandedDocument : Json :=
  .array
    [toDocument ⟨"a", "SLICE", [("variable", .string " / "), ("slice", .string "0")]⟩,
     toDocument ⟨"b", "OFFSET", [("variable", .string "a"), ("offset", .number (.unsigned 2))]⟩]

def strandedEntries : List Entry :=
  [⟨"a", .slice "" (.index (.literal 0))⟩, ⟨"b", .offset "a" 2⟩]

def strandedScope : Scope :=
  ⟨⟨"F", "m", "b", "m/b", [], .default, "1", none, none, none⟩,
    ⟨strandedEntries, by decide⟩, []⟩

/-- The shift names a key, and it has no value since the selection has none. -/
theorem references_declarable_iff_stranded :
    ofDocument "m" strandedDocument = .ok strandedEntries ∧
      (∃ e ∈ strandedEntries, e.key = "b" ∧ (∀ key ∈ e.references, key ≠ "") ∧
        ∃ err, (Resolver.standard.resolve strandedScope e).result = .error err) ∧
      ¬ ∀ e ∈ strandedEntries, ∀ key ∈ e.references, key ≠ "" ∧ IsDeclarable "m" key := by
  have hdecoded : ofDocument "m" strandedDocument = .ok strandedEntries := by rfl
  obtain ⟨_, hentries⟩ := references_declarable_iff "m" strandedDocument strandedEntries hdecoded
  have hproper : strandedScope.registry.Proper := isKey_of_ofDocument hdecoded
  have hselection : strandedEntries[0] ∈ strandedEntries := List.getElem_mem _
  have hshift : strandedEntries[1] ∈ strandedEntries := List.getElem_mem _
  obtain ⟨_, _, hfails⟩ := hentries _ hselection
  obtain ⟨_, hoffset, _⟩ := hentries _ hshift
  have href : strandedScope.registry.Refers strandedEntries[1].key "a" :=
    (Registry.refers_key hshift).mpr List.mem_cons_self
  refine ⟨hdecoded, ⟨_, hshift, rfl, hoffset rfl, ?_⟩, ?_⟩
  · exact hfails List.mem_cons_self _ _ hproper hselection _ hshift (.single href)
  · intro hall
    exact (hall _ hselection "" List.mem_cons_self).1 rfl

def namingDocument (text : String) : Json :=
  .array
    [toDocument ⟨"d", "DIM", [("probe", .string text)]⟩,
     toDocument ⟨"s", "SLICE", [("variable", .string text), ("slice", .string "0")]⟩,
     toDocument ⟨"c", "CUSTOM", [("name", .string "size"), ("variable", .string text)]⟩]

/-- Other declarations accept the text that an OFFSET refuses, since it makes the empty
key. -/
theorem not_forall_references_declarable :
    (ofDocument "m" (namingDocument " / ")).map (List.map Entry.references) =
        .ok [[""], [""], [""]] ∧
      ofDocument "m" (.array [toDocument
        ⟨"o", "OFFSET", [("variable", .string " / "), ("offset", .number (.unsigned 2))]⟩]) =
          .error (.declaration 0 "o" (.blank "variable")) ∧
      ¬ ∀ (schema : String) (document : Json) (entries : List Entry),
        ofDocument schema document = .ok entries →
          ∀ e ∈ entries, ∀ key ∈ e.references, key ≠ "" ∧ IsDeclarable schema key := by
  refine ⟨by rfl, by rfl, ?_⟩
  intro hall
  have hselection : strandedEntries[0] ∈ strandedEntries := List.getElem_mem _
  exact (hall "m" strandedDocument strandedEntries rfl _ hselection "" List.mem_cons_self).1 rfl

end Entry

end SignalMap
