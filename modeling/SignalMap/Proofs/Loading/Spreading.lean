import Mathlib.Data.List.Perm.Basic
import SignalMap.Proofs.Loading.Schemas
import SignalMap.Proofs.Resolution.Agreement
import SignalMap.Session

/-!
Declarations spread over mapping files. Whether a schema loads, and which entry stands
under which key, follows from the declarations that its files hold in all: neither
their order nor the file that each of them stands in matters. The files decide only
the order in which the entries are listed.
-/

namespace SignalMap

namespace Declaration

def ListedAs (schema : String) (document : Json) (line : String × RuleKind) : Prop :=
  ∃ d, ofJson document = .ok d ∧ line.1 = DataPath.normalizeKey schema d.key ∧
    RuleKind.ofName? d.kind = some line.2

theorem Declares.listedAs {schema : String} {document : Json} {e : Entry}
    (h : Declares schema document e) : ListedAs schema document (e.key, e.rule.kind) := by
  obtain ⟨d, hd, hentry⟩ := h
  obtain ⟨hkey, _, kind, hkind, hrule⟩ := entry_eq_ok.mp hentry
  refine ⟨d, hd, hkey, ?_⟩
  rw [kind_of_rule hrule, hkind]

/-- The key of a declaration is that of the entry at its place. -/
theorem getElem?_key_of_declares {schema : String} {documents : List Json} {entries : List Entry}
    (h : List.Forall₂ (Declares schema) documents entries) {i : Nat} {document : Json}
    {d : Declaration} (hi : documents[i]? = some document) (hd : ofJson document = .ok d) :
    (entries.map Entry.key)[i]? = some (DataPath.normalizeKey schema d.key) := by
  obtain ⟨e, he, own, hown, hentry⟩ := getElem?_of_forall₂ h hi
  rw [hd] at hown
  cases hown
  rw [List.getElem?_map, he, Option.map_some, (entry_eq_ok.mp hentry).1]

/-- Where the entries have distinct keys, so have the declarations. -/
theorem eq_of_normalizeKey_eq {schema : String} {documents : List Json} {entries : List Entry}
    (h : List.Forall₂ (Declares schema) documents entries)
    (hnodup : (entries.map Entry.key).Nodup) {i j : Nat} {document other : Json}
    {d dother : Declaration} (hi : documents[i]? = some document)
    (hj : documents[j]? = some other) (hd : ofJson document = .ok d)
    (hother : ofJson other = .ok dother)
    (hkey : DataPath.normalizeKey schema d.key = DataPath.normalizeKey schema dother.key) :
    i = j := by
  have hikey := getElem?_key_of_declares h hi hd
  have hjkey := getElem?_key_of_declares h hj hother
  rw [← hkey, ← hikey] at hjkey
  obtain ⟨hlength, _⟩ := List.getElem?_eq_some_iff.mp hikey
  exact (List.getElem?_inj hlength hnodup).mp hjkey.symm

end Declaration

namespace Session

theorem findEntry_congr {registry other : Registry} (n : NormalizedPath) (path : String)
    (h : ∀ key, registry.get? key = other.get? key) :
    findEntry registry n path = findEntry other n path := by
  unfold findEntry
  simp only [h]

/-- A reply depends on the globals and on the entry under each key. -/
theorem reply_congr {m other : SchemaMappings} (r : Resolver) (version : String)
    (request : Request) (n : NormalizedPath) (hglobals : m.globals = other.globals)
    (h : ∀ key, m.registry.get? key = other.registry.get? key) :
    reply r version request n m = reply r version request n other := by
  unfold reply
  rw [findEntry_congr n request.path h, hglobals]
  cases findEntry other.registry n request.path with
  | error fault => rfl
  | ok found =>
    obtain ⟨e, q⟩ := found
    dsimp only
    rw [Resolver.resolve_registry_congr fun key _ => h key]

theorem list_of_mappings {host : Host} {facility schema : String} {s : Session}
    {m : SchemaMappings} (h : (s.catalog.mappings host facility schema).2 = .ok m) :
    (s.list host facility schema).2 =
      .ok (m.registry.entries.map fun e => (e.key, e.rule.kind)) := by
  unfold list
  dsimp only
  rw [h]
  rfl

end Session

namespace Facility

def FilesHold (host : Host) (base : FilePath) (files : SchemaFiles)
    (documents : List (List Json)) : Prop :=
  List.Forall₂ (fun path held => readDocument host path = .ok (.array held))
    (files.mappings.paths.map (FilePath.resolve host.home base)) documents

section Loads

variable {host otherHost : Host} {base otherBase : FilePath} {schema : String}
  {files otherFiles : SchemaFiles} {documents otherDocuments : List (List Json)}
  {m : SchemaMappings}

/-- A schema loads when its globals do and every document declares an entry, each under
a key of its own; the entries stand in the order of the documents. -/
theorem loadSchema_eq_ok_of_filesHold (h : FilesHold host base files documents) :
    loadSchema host base schema files = .ok m ↔
      readGlobals host base files.globals = .ok m.globals ∧
        List.Forall₂ (Declaration.Declares schema) documents.flatten m.registry.entries := by
  rw [loadSchema_eq_ok, loadFiles_eq_ok h]
  refine and_congr_right fun _ => ?_
  constructor
  · rintro ⟨entries, hentries, hinsert⟩
    rw [(Registry.insertAll_eq_ok.mp hinsert).2]
    exact hentries
  · intro hentries
    exact ⟨_, hentries, Registry.insertAll_eq_ok.mpr ⟨m.registry.nodup_keys, rfl⟩⟩

/-- The same declarations in another order and in other files make the same entries in
another order. -/
theorem exists_loadSchema_of_perm (hfiles : FilesHold host base files documents)
    (hother : FilesHold otherHost otherBase otherFiles otherDocuments)
    (hglobals : readGlobals host base files.globals =
      readGlobals otherHost otherBase otherFiles.globals)
    (hperm : documents.flatten.Perm otherDocuments.flatten)
    (h : loadSchema host base schema files = .ok m) :
    ∃ other, loadSchema otherHost otherBase schema otherFiles = .ok other ∧
      other.globals = m.globals ∧ other.registry.entries.Perm m.registry.entries := by
  obtain ⟨hread, hentries⟩ := (loadSchema_eq_ok_of_filesHold hfiles).mp h
  -- What reorders the documents reorders the entries that they declare.
  obtain ⟨entries, hdeclares, hentriesPerm⟩ := List.perm_comp_forall₂ hperm.symm hentries
  have hnodup : (entries.map Entry.key).Nodup :=
    (hentriesPerm.map Entry.key).nodup_iff.mpr m.registry.nodup_keys
  refine ⟨⟨m.globals, ⟨entries, hnodup⟩⟩, ?_, rfl, hentriesPerm⟩
  exact (loadSchema_eq_ok_of_filesHold hother).mpr ⟨hglobals ▸ hread, hdeclares⟩

end Loads

/-- Declarations are one set of entries, whatever files they are spread over and in
whatever order they stand there. Two lists of files with the same declarations both
load or both fail, and when they load they answer every request alike. The entries are
listed in the order of the files and of the declarations in each, one for each
declaration, with distinct keys; so a schema with two declarations of one key fails. -/
theorem loadSchema_perm (host otherHost : Host) (base otherBase : FilePath) (schema : String)
    (files otherFiles : SchemaFiles) (documents otherDocuments : List (List Json))
    (hfiles : FilesHold host base files documents)
    (hother : FilesHold otherHost otherBase otherFiles otherDocuments)
    (hglobals : readGlobals host base files.globals =
      readGlobals otherHost otherBase otherFiles.globals)
    (hperm : documents.flatten.Perm otherDocuments.flatten) :
    ((∃ m, loadSchema host base schema files = .ok m) ↔
      ∃ other, loadSchema otherHost otherBase schema otherFiles = .ok other) ∧
    (∀ m other, loadSchema host base schema files = .ok m →
      loadSchema otherHost otherBase schema otherFiles = .ok other →
        m.globals = other.globals ∧
        (∀ key, m.registry.get? key = other.registry.get? key) ∧
        (∀ (r : Resolver) (context : Context) (e : Entry),
          r.resolve ⟨context, m.registry, m.globals⟩ e =
            r.resolve ⟨context, other.registry, other.globals⟩ e) ∧
        ∀ (r : Resolver) (version : String) (request : Request) (n : NormalizedPath),
          Session.reply r version request n m = Session.reply r version request n other) ∧
    (∀ m, loadSchema host base schema files = .ok m →
      List.Forall₂ (Declaration.Declares schema) documents.flatten m.registry.entries ∧
      m.registry.keys.Nodup ∧
      ∀ (s : Session) (reader : Host) (facility : String),
        (s.catalog.mappings reader facility schema).2 = .ok m →
          ∃ lines, (s.list reader facility schema).2 = .ok lines ∧
            List.Forall₂ (Declaration.ListedAs schema) documents.flatten lines) ∧
    ∀ (i j : Nat) (document other : Json) (d dother : Declaration), i ≠ j →
      documents.flatten[i]? = some document → documents.flatten[j]? = some other →
      Declaration.ofJson document = .ok d → Declaration.ofJson other = .ok dother →
      DataPath.normalizeKey schema d.key = DataPath.normalizeKey schema dother.key →
        ∃ e, loadSchema host base schema files = .error e := by
  refine ⟨⟨?_, ?_⟩, ?_, ?_, ?_⟩
  · rintro ⟨m, hm⟩
    obtain ⟨other, hload, _⟩ := exists_loadSchema_of_perm hfiles hother hglobals hperm hm
    exact ⟨other, hload⟩
  · rintro ⟨other, hload⟩
    obtain ⟨m, hm, _⟩ := exists_loadSchema_of_perm hother hfiles hglobals.symm hperm.symm hload
    exact ⟨m, hm⟩
  · intro m other hm hload
    obtain ⟨_, hsame, hsameGlobals, hentries⟩ :=
      exists_loadSchema_of_perm hfiles hother hglobals hperm hm
    rw [hload] at hsame
    cases hsame
    have hget : ∀ key, m.registry.get? key = other.registry.get? key :=
      fun key => Registry.get?_congr fun e _ => hentries.symm.mem_iff
    refine ⟨hsameGlobals.symm, hget, ?_, ?_⟩
    · intro r context e
      rw [hsameGlobals]
      exact Resolver.resolve_registry_congr fun key _ => hget key
    · intro r version request n
      exact Session.reply_congr r version request n hsameGlobals.symm hget
  · intro m hm
    obtain ⟨_, hentries⟩ := (loadSchema_eq_ok_of_filesHold hfiles).mp hm
    refine ⟨hentries, m.registry.nodup_keys, ?_⟩
    intro s reader facility hmappings
    refine ⟨_, Session.list_of_mappings hmappings, ?_⟩
    rw [List.forall₂_map_right_iff]
    exact hentries.imp fun _ _ hdeclares => hdeclares.listedAs
  · intro i j document other d dother hne hi hj hd hdother hkey
    cases hload : loadSchema host base schema files with
    | error e => exact ⟨e, rfl⟩
    | ok m =>
      obtain ⟨_, hentries⟩ := (loadSchema_eq_ok_of_filesHold hfiles).mp hload
      exact absurd (Declaration.eq_of_normalizeKey_eq hentries m.registry.nodup_keys hi hj hd
        hdother hkey) hne

def declaredText : Json :=
  .object [("key", .string "m/x"), ("type", .string "VALUE"), ("value", .string "v")]

def declaredSize : Json :=
  .object [("key", .string "n"), ("probe", .string "m/x"), ("type", .string "DIM")]

def declaredAgain : Json :=
  .object [("key", .string "/x"), ("type", .string "VALUE"), ("value", .string "w")]

def spreadFiles : Host :=
  .ofFindings ⟨"/h"⟩
    [(⟨"/b/both"⟩, .file ("[\x7b\"key\":\"m/x\",\"type\":\"VALUE\",\"value\":\"v\"\x7d," ++
      "\x7b\"key\":\"n\",\"type\":\"DIM\",\"probe\":\"m/x\"\x7d]")),
     (⟨"/b/size"⟩, .file "[\x7b\"type\":\"DIM\",\"key\":\"n\",\"probe\":\"m/x\"\x7d]"),
     (⟨"/b/text"⟩, .file "[\x7b\"key\":\"m/x\",\"type\":\"VALUE\",\"value\":\"v\"\x7d]"),
     (⟨"/b/again"⟩, .file "[\x7b\"key\":\"/x\",\"type\":\"VALUE\",\"value\":\"w\"\x7d]")]

theorem filesHold_both :
    FilesHold spreadFiles ⟨"/b"⟩ ⟨none, .single "both"⟩ [[declaredText, declaredSize]] :=
  .cons rfl .nil

theorem filesHold_apart :
    FilesHold spreadFiles ⟨"/b"⟩ ⟨none, .many ["size", "text"]⟩ [[declaredSize], [declaredText]] :=
  .cons rfl (.cons rfl .nil)

theorem filesHold_again :
    FilesHold spreadFiles ⟨"/b"⟩ ⟨none, .many ["both", "again"]⟩
      [[declaredText, declaredSize], [declaredAgain]] :=
  .cons rfl (.cons rfl .nil)

def spreadMappings : SchemaMappings :=
  ⟨[], ⟨[⟨"x", .value (.literal (.string "v")) none⟩, ⟨"n", .dim (.probe "x") none⟩], by decide⟩⟩

theorem loadSchema_both :
    loadSchema spreadFiles ⟨"/b"⟩ "m" ⟨none, .single "both"⟩ = .ok spreadMappings :=
  (loadSchema_eq_ok_of_filesHold filesHold_both).mpr
    ⟨rfl, .cons ⟨_, rfl, rfl⟩ (.cons ⟨_, rfl, rfl⟩ .nil)⟩

theorem loadSchema_perm_apart :
    loadSchema spreadFiles ⟨"/b"⟩ "m" ⟨none, .single "both"⟩ = .ok spreadMappings ∧
    (∃ other, loadSchema spreadFiles ⟨"/b"⟩ "m" ⟨none, .many ["size", "text"]⟩ = .ok other ∧
      other.registry.keys = ["n", "x"] ∧
      ∀ key, spreadMappings.registry.get? key = other.registry.get? key) ∧
    ∃ e, loadSchema spreadFiles ⟨"/b"⟩ "m" ⟨none, .many ["both", "again"]⟩ = .error e := by
  have hperm : [[declaredText, declaredSize]].flatten.Perm
      [[declaredSize], [declaredText]].flatten :=
    List.Perm.swap _ _ _
  obtain ⟨hboth, hsame, _, _⟩ := loadSchema_perm spreadFiles spreadFiles ⟨"/b"⟩ ⟨"/b"⟩ "m"
    _ _ _ _ filesHold_both filesHold_apart rfl hperm
  obtain ⟨_, _, _, hagain⟩ := loadSchema_perm spreadFiles spreadFiles ⟨"/b"⟩ ⟨"/b"⟩ "m"
    _ _ _ _ filesHold_again filesHold_again rfl (List.Perm.refl _)
  obtain ⟨other, hother⟩ := hboth.mp ⟨spreadMappings, loadSchema_both⟩
  have hkeys : other.registry.keys = ["n", "x"] := by
    have hread : (loadSchema spreadFiles ⟨"/b"⟩ "m" ⟨none, .many ["size", "text"]⟩).map
        (fun m => m.registry.keys) = .ok ["n", "x"] := rfl
    rw [hother] at hread
    exact Except.ok.inj hread
  obtain ⟨_, hget, _⟩ := hsame spreadMappings other loadSchema_both hother
  refine ⟨loadSchema_both, ⟨other, hother, hkeys, hget⟩, ?_⟩
  exact hagain 0 2 declaredText declaredAgain _ _ (by decide) rfl rfl rfl rfl rfl

end Facility

end SignalMap
