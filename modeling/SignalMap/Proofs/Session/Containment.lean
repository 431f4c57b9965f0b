import SignalMap.Proofs.Catalog.Retention
import SignalMap.Proofs.Places
import SignalMap.Proofs.Session.Provenance
import SignalMap.Proofs.Text.Trimming

/-!
Where a request can make a session read a manifest. The name of a facility is
checked and is one step down from the root or none, but the version is taken as
it is: it can lead back over the root, and it can be absolute. A manifest is below
the root exactly when the directory that the version leads to is not outside.
-/

namespace SignalMap

namespace Catalog

variable {name : String}

theorem slash_not_mem_of_checkName (h : checkName name = .ok ()) : '/' ∉ name.toList := by
  intro hslash
  have hmem := Text.mem_trimChars_of_not_blank hslash (by decide)
  unfold checkName at h
  dsimp only at h
  rw [if_neg (by simpa using List.ne_nil_of_mem hmem), if_pos (by simp [hmem])] at h
  cases h

theorem ne_doublePoint_of_checkName (h : checkName name = .ok ()) : name ≠ ".." := by
  rintro rfl
  cases h

/-- A checked name leads nowhere but down. -/
theorem goTo_of_checkName (h : checkName name = .ok ()) (place : List String) :
    place <+: FileNode.goTo place name := by
  unfold FileNode.goTo
  split
  next => exact List.prefix_refl place
  next =>
    rw [if_neg (ne_doublePoint_of_checkName h)]
    exact List.prefix_append place [name]

end Catalog

def Load.directory (l : Load) : List String :=
  if FilePath.isAbsoluteText l.version.toList then FilePath.place ⟨l.version⟩
  else FilePath.walk (FileNode.goTo l.root.place l.name) ⟨l.version⟩

namespace Load

variable {l : Load}

theorem place_location (h : '/' ∉ l.name.toList) :
    l.location.place = l.directory ++ [Manifest.fileName] := by
  have hfile : '/' ∉ Manifest.fileName.toList := by decide
  have hgo : ∀ place : List String,
      FileNode.goTo place Manifest.fileName = place ++ [Manifest.fileName] := by
    intro place
    rfl
  unfold location Manifest.location FilePath.place
  rw [FilePath.walk_join_name hfile, hgo]
  unfold directory
  by_cases hversion : FilePath.isAbsoluteText l.version.toList = true
  · rw [if_pos hversion, FilePath.join_of_absolute hversion]
    rfl
  · rw [if_neg hversion, FilePath.walk_join_of_relative (by simpa using hversion),
      FilePath.walk_join_name h]
    rfl

/-- A manifest is below the root if and only if its directory is the root or below
it. -/
theorem below_location_iff (h : '/' ∉ l.name.toList) :
    FilePath.Below l.root l.location ↔ l.root.place <+: l.directory := by
  unfold FilePath.Below
  rw [place_location h]
  constructor
  · rintro ⟨names, hne, hplace⟩
    have hdirectory := congrArg List.dropLast hplace
    rw [List.dropLast_concat, List.dropLast_append_of_ne_nil hne] at hdirectory
    exact ⟨names.dropLast, hdirectory.symm⟩
  · rintro ⟨names, hnames⟩
    exact ⟨names ++ [Manifest.fileName], by simp, by rw [← hnames, List.append_assoc]⟩

end Load

namespace Session

variable {host : Host} {request : Request} {s : Session} {l : Load}

def resolveLoads (host : Host) (request : Request) (s : Session) : List Load :=
  match request.normalize with
  | .error _ => []
  | .ok _ => (s.catalog.switchVersion request.version).mappingLoads host request.facility

theorem loadCount_resolve (host : Host) (request : Request) (s : Session) :
    (s.resolve host request).1.catalog.loadCount =
      s.catalog.loadCount + (s.resolveLoads host request).length := by
  unfold resolveLoads
  cases hpath : request.normalize with
  | error fault =>
    rw [resolve_of_refused hpath]
    rfl
  | ok p =>
    have hturned : (s.catalog.switchVersion request.version).loadCount = s.catalog.loadCount := by
      rcases Catalog.switchVersion_cases request.version s.catalog with hsame | ⟨_, _, _, hnext⟩
      · rw [hsame]
      · rw [hnext]
        rfl
    rw [resolve_of_normalized hpath, ← hturned]
    exact Catalog.loadCount_act host _ (.mappings request.facility p.schema)

theorem resolveLoads_eq_of_mem (h : l ∈ s.resolveLoads host request) :
    s.resolveLoads host request = [l] := by
  unfold resolveLoads at h ⊢
  cases hpath : request.normalize with
  | error fault =>
    rw [hpath] at h
    cases h
  | ok p =>
    rw [hpath] at h
    exact Catalog.mappingLoads_eq_of_mem h

/-- A load is made for the facility and the version that the request names, from the
root that is set. -/
theorem spec_of_mem_resolveLoads (h : l ∈ s.resolveLoads host request) :
    Catalog.checkName l.name = .ok () ∧ l.name = request.facility ∧
      l.version = request.version.getD s.catalog.config.version ∧
      s.catalog.config.root = some l.root := by
  unfold resolveLoads at h
  cases hpath : request.normalize with
  | error fault =>
    rw [hpath] at h
    cases h
  | ok p =>
    rw [hpath] at h
    obtain ⟨hname, _, _, hroot, _, hlname, hversion⟩ := Catalog.mem_mappingLoads_iff.mp h
    rw [Catalog.config_switchVersion] at hroot hversion
    exact ⟨hlname ▸ hname, hlname, hversion, hroot⟩

/-- A request makes a session load one facility, if any. Its manifest is below the root if
and only if the version leads from the directory of the facility to the root or below it. A
version that could be the name of a facility does; no other is refused. -/
theorem manifest_below_root_iff {config : Config} {resolver : Resolver}
    {history : List (Host × Action)} {host : Host} {request : Request} {l : Load}
    (hl : l ∈ ((start config resolver).run history).resolveLoads host request) :
    ((start config resolver).run history).catalog.config.root = some l.root ∧
      l.location = Manifest.location l.root request.facility
        (request.version.getD ((start config resolver).run history).catalog.config.version) ∧
      (FilePath.Below l.root l.location ↔ l.root.place <+: l.directory) ∧
      (Catalog.checkName l.version = .ok () → FilePath.Below l.root l.location) ∧
      (((start config resolver).run history).resolve host request).1.catalog.loadCount =
        ((start config resolver).run history).catalog.loadCount + 1 := by
  obtain ⟨hname, hfacility, hversion, hroot⟩ := spec_of_mem_resolveLoads hl
  have hiff := Load.below_location_iff (Catalog.slash_not_mem_of_checkName hname)
  refine ⟨hroot, ?_, hiff, ?_, ?_⟩
  · rw [← hfacility, ← hversion]
    rfl
  · intro hchecked
    have hslash := Catalog.slash_not_mem_of_checkName hchecked
    refine hiff.mpr ?_
    unfold Load.directory
    rw [FilePath.not_isAbsoluteText_of_slash_not_mem hslash, if_neg (by simp),
      FilePath.walk_eq_walkChars, FilePath.walkChars_of_slash_not_mem hslash,
      String.ofList_toList]
    exact (Catalog.goTo_of_checkName hname _).trans (Catalog.goTo_of_checkName hchecked _)
  · rw [loadCount_resolve, resolveLoads_eq_of_mem hl]
    rfl

/-- A version that leads out of the root and into it again. -/
theorem manifest_below_root_roundabout :
    (⟨twoVersions, ⟨"/r"⟩, "F", "../../r/F/2"⟩ : Load) ∈
        ((start firstVersion .standard).run askedOnce).resolveLoads twoVersions
          (entryOf (some "../../r/F/2")) ∧
      FilePath.Below ⟨"/r"⟩ ⟨"/r/F/../../r/F/2/mappings.cfg.json"⟩ := by
  have hload : (⟨twoVersions, ⟨"/r"⟩, "F", "../../r/F/2"⟩ : Load) ∈
      ((start firstVersion .standard).run askedOnce).resolveLoads twoVersions
        (entryOf (some "../../r/F/2")) := List.mem_singleton_self _
  obtain ⟨_, _, hiff, _⟩ := manifest_below_root_iff hload
  exact ⟨hload, hiff.mpr (by decide)⟩

/-- A version that leads out of the root: the manifest that is read is outside. -/
theorem not_forall_manifest_below_root :
    ¬ ∀ (config : Config) (resolver : Resolver) (history : List (Host × Action)) (host : Host)
        (request : Request) (l : Load),
      l ∈ ((start config resolver).run history).resolveLoads host request →
        l.root.isAbsolute = true → FilePath.Below l.root l.location := by
  intro hall
  have hload : (⟨twoVersions, ⟨"/r"⟩, "F", "../../x"⟩ : Load) ∈
      ((start firstVersion .standard).run askedOnce).resolveLoads twoVersions
        (entryOf (some "../../x")) := List.mem_singleton_self _
  have hbelow := hall _ _ _ _ _ _ hload (by decide)
  have hslash : '/' ∉ "F".toList := by decide
  have hprefix := (Load.below_location_iff hslash).mp hbelow
  have houtside : ¬ FilePath.place ⟨"/r"⟩ <+:
      Load.directory ⟨twoVersions, ⟨"/r"⟩, "F", "../../x"⟩ := by decide
  exact houtside hprefix

end Session

end SignalMap
